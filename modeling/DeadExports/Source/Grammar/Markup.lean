import DeadExports.Source.Grammar.Types

set_option autoImplicit false

namespace DeadExports.Source.Grammar

open Parse

def skipGap : Parse Nat := do
  let gap := gapAt (← setting).text (← position)
  moveTo gap.stop
  return gap.stop

def elementWord (kind : Kind) : Parse Tree := do
  let first ← skipGap
  let text := (← setting).text
  guard (isNameStart (Text.charAt text first))
  moveTo (Text.runEnd text isElementNameChar first)
  closeNode kind first []

def elementName : Parse Tree := do
  let first ← elementWord .identifier
  if ← nextIs ":" then
    let _ ← take
    let second ← elementWord .identifier
    closeNode .group first.span.start [first, second]
  else memberChain first

def elementHole (g : Grammar) : Parse Tree :=
  node .group do
    let _ ← expect "\x7b"
    inBrackets do
      if ← accept "\x7d" then return []
      else
        let _ ← accept "..."
        let inner ← g.expression
        let _ ← expect "\x7d"
        return [inner]

def attributeValue (g : Grammar) : Parse Tree := do
  let first ← skipGap
  let text := (← setting).text
  match Text.charAt text first with
  | '\x7b' => elementHole g
  | '<' => g.element
  | quoteMark =>
    guard (quoteMark == '"' || quoteMark == '\'')
    let stop := Text.runEnd text (· != quoteMark) (first + 1)
    guard (decide (stop < Text.size text))
    moveTo (stop + 1)
    closeNode .string first []

def attributeName : Parse Tree := do
  let first ← elementWord .propertyIdentifier
  if ← nextIs ":" then
    let _ ← take
    let second ← elementWord .identifier
    closeNode .group first.span.start [.leaf .identifier first.span, second]
  else return first

def elementAttribute (g : Grammar) : Parse (Option Tree) := do
  let first ← skipGap
  let char := Text.charAt (← setting).text first
  if char == '\x7b' then return some (← elementHole g)
  else if isNameStart char then
    let name ← attributeName
    if ← nextIs "=" then
      let _ ← take
      let value ← attributeValue g
      return some (← closeNode .group name.span.start [name, value])
    else return some name
  else return none

def elementContent (g : Grammar) : Parse (List Tree) :=
  many do
    let text := (← setting).text
    let stop := Text.runEnd text (fun char => char != '<' && char != '\x7b') (← position)
    guard (decide (stop < Text.size text))
    moveTo stop
    if Text.charAt text stop == '\x7b' then return some (← elementHole g)
    else if (← peekSecond).text == "/" then return none
    else return some (← g.element)

def tagEnd : Parse Unit := do
  let first ← skipGap
  guard (Text.charAt (← setting).text first == '>')
  moveTo (first + 1)

def closingTag (isFragment : Bool) : Parse (List Tree) := do
  let _ ← expect "<"
  let _ ← expect "/"
  let name ← if isFragment then pure [] else pure [← elementName]
  tagEnd
  return name

def anyElement (g : Grammar) : Parse Tree :=
  node .group do
    let _ ← expect "<"
    if (← peek).text.startsWith ">" then
      tagEnd
      let content ← elementContent g
      return content ++ (← closingTag true)
    else
      let name ← elementName
      let generics ← if ← isTyped then optionalTypeArguments g else pure []
      let attributes ← many (elementAttribute g)
      let opening := name :: generics ++ attributes
      if ← accept "/" then
        tagEnd
        return opening
      else
        tagEnd
        let content ← elementContent g
        return opening ++ content ++ (← closingTag false)

end DeadExports.Source.Grammar
