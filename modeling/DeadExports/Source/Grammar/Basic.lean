import DeadExports.Source.StatementEnd

set_option autoImplicit false

/-!
The phrases that contain themselves, and the small phrases from which larger ones are made. A
grammar holds a reader for each phrase that can stand inside itself; a reader uses it only behind a
token it has taken, so a grammar unrolled as often as a text has bytes reads every phrase of the
text.
-/

namespace DeadExports.Source

structure Grammar where
  expression : Parse Tree
  assignment : Parse Tree
  operand : Parse Tree
  typeTerm : Parse Tree
  binding : Parse Tree
  statement : Parse Tree
  element : Parse Tree

namespace Grammar

open Parse

def empty : Grammar :=
  { expression := refuse, assignment := refuse, operand := refuse, typeTerm := refuse,
    binding := refuse, statement := refuse, element := refuse }

def identifier : Parse Tree := do
  guard (← peek).isVariable
  leaf .identifier

def memberName : Parse Tree := do
  let token ← peek
  guard (token.shape == .word || token.shape == .hiddenName)
  leaf .propertyIdentifier

def memberKey (g : Grammar) : Parse Tree := do
  match (← peek).shape with
  | .word | .hiddenName => leaf .propertyIdentifier
  | .string => leaf .string
  | .number => leaf .literal
  | _ =>
    node .group do
      let _ ← expect "["
      let key ← inBrackets g.expression
      let _ ← expect "]"
      return [key]

def startsKey (token : Token) : Bool :=
  match token.shape with
  | .word | .hiddenName | .string | .number => true
  | _ => token.text == "["

def templateStop? (text : String) (offset : Nat) : Option (Bool × Nat) :=
  if offset < text.utf8ByteSize then
    let char := Text.charAt text offset
    if char == '`' then some (false, offset + 1)
    else if char == '\\' then
      templateStop? text (offset + 1 + (Text.charAt text (offset + 1)).utf8Size)
    else if char == '$' && Text.charAt text (offset + 1) == '\x7b' then some (true, offset + 2)
    else templateStop? text (offset + char.utf8Size)
  else none
termination_by text.utf8ByteSize - offset
decreasing_by
  · omega
  · have positive := Char.utf8Size_pos (Text.charAt text offset)
    omega

def templateText : Parse Bool := do
  match templateStop? (← setting).text (← position) with
  | some (isHole, stop) =>
    moveTo stop
    return isHole
  | none => refuse

def template (hole : Parse Tree) : Parse Tree :=
  node .group do
    let _ ← expectShape .template
    if ← templateText then
      let first ← repeatFrom (([] : List Tree), true) fun (holes, isOpen) => do
        if isOpen then
          let inner ← inBrackets hole
          let _ ← expect "\x7d"
          return some (holes ++ [inner], ← templateText)
        else return none
      return first.1
    else return []

def regexEnd? (text : String) (inClass : Bool) (offset : Nat) : Option Nat :=
  if offset < text.utf8ByteSize then
    let char := Text.charAt text offset
    if char == '\n' then none
    else if char == '\\' then
      let next := Text.charAt text (offset + 1)
      if next == '\n' then none else regexEnd? text inClass (offset + 1 + next.utf8Size)
    else if char == '/' && !inClass then some (offset + 1)
    else regexEnd? text (char == '[' || (inClass && char != ']')) (offset + char.utf8Size)
  else none
termination_by text.utf8ByteSize - offset
decreasing_by
  · omega
  · have positive := Char.utf8Size_pos (Text.charAt text offset)
    omega

def regularExpression : Parse Tree := do
  let token ← peek
  let text := (← setting).text
  match regexEnd? text false (token.span.start + 1) with
  | some stop =>
    moveTo (Text.runEnd text (fun char => char.isAlpha) stop)
    closeNode .literal token.span.start []
  | none => refuse

def spreadable (g : Grammar) : Parse Tree := do
  if ← nextIs "..." then
    node .group do
      let _ ← take
      return [← g.assignment]
  else g.assignment

def callArguments (g : Grammar) : Parse Tree :=
  node .arguments do
    let _ ← expect "("
    inBrackets (separated ")" (spreadable g))

def parenthesized (g : Grammar) : Parse Tree :=
  node .group do
    let _ ← expect "("
    let inner ← inBrackets g.expression
    let _ ← expect ")"
    return [inner]

def memberChain (first : Tree) : Parse Tree :=
  repeatFrom first fun object => do
    if ← accept "." then
      let property ← memberName
      let chain ← closeNode .memberExpression object.span.start
        [object.inRole .object, property.inRole .property]
      return some chain
    else return none

end Grammar
end DeadExports.Source
