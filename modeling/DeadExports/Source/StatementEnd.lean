import DeadExports.Source.Parse

set_option autoImplicit false

/-!
Where a statement ends without a semicolon: at a closing brace, at the end of the text, or at the
end of a line when the next line does not go on with the statement. A comment behind the statement
in its line may become part of it.
-/

namespace DeadExports.Source

structure Ending where
  isExpression : Bool := false
  isSignature : Bool := false

def joinsSign (text : String) (offset : Nat) : Option Bool :=
  let second := Text.charAt text (offset + 1)
  match Text.charAt text offset with
  | '+' => some (second != '+')
  | '-' => some (second != '-')
  | '!' => some (second == '=')
  | _ => none

def startsWithRelation (text : String) (offset : Nat) : Bool :=
  let word := Text.under text ⟨offset, Text.runEnd text (fun char => char.isAlpha) offset⟩
  word == "in" || word == "instanceof"

def continuesStatement (language : Language) (ending : Ending) (text : String) (offset : Nat) :
    Bool :=
  let first := Text.charAt text offset
  if "`,:;*%><=?^|&/".toList.contains first then true
  else if first == '.' then language.isTyped || !(Text.charAt text (offset + 1)).isDigit
  else if first == '(' || first == '[' then !language.isTyped || ending.isExpression
  else if first == '\x7b' then language.isTyped && ending.isSignature
  else
    match joinsSign text offset with
    | some joins => joins
    | none => startsWithRelation text offset

def afterBlanksAndComments (text : String) (offset : Nat) : Nat :=
  let blanksEnd := Text.runEnd text isPlainBlank offset
  match commentEnd? text blanksEnd with
  | none => blanksEnd
  | some stop =>
    if _forward : offset < stop ∧ stop ≤ text.utf8ByteSize then afterBlanksAndComments text stop
    else blanksEnd
termination_by text.utf8ByteSize - offset

def endsAtLine (language : Language) (ending : Ending) (text : String) (offset : Nat) : Bool :=
  !continuesStatement language ending text (afterBlanksAndComments text (offset + 1))

def isInlineBlank (char : Char) : Bool := isPlainBlank char && char != '\n'

def endsPlainly (language : Language) (ending : Ending) (text : String) (offset : Nat) : Bool :=
  let next := Text.runEnd text isInlineBlank offset
  if Text.size text ≤ next then true
  else
    match Text.charAt text next with
    | '\n' => endsAtLine language ending text next
    | '\x7d' =>
      let after := Text.runEnd text isPlainBlank (next + 1)
      !(language.isTyped && Text.charAt text after == ':') || ending.isExpression
    | _ => false

/--
Whether a statement of a language without types ends at `offset`. Comments are looked through:
behind a comment that ends its line the statement has ended, unless it is an expression.
-/
def endsThroughComment (language : Language) (ending : Ending) (text : String) (offset : Nat) :
    Bool :=
  let next := Text.runEnd text isInlineBlank offset
  match commentEnd? text next with
  | none => endsPlainly language ending text offset
  | some stop =>
    let mayEnd (char : Char) : Bool := !ending.isExpression && char != ',' && char != '='
    if Text.charAt text (next + 1) == '/' then
      let after := Text.charAt text (afterBlanksAndComments text stop)
      mayEnd after || after == '\x7d'
    else if hasLineEndIn text next stop && mayEnd (Text.charAt text stop) then true
    else if _forward : offset < stop ∧ stop ≤ text.utf8ByteSize then
      endsThroughComment language ending text stop
    else false
termination_by text.utf8ByteSize - offset

def endsAt (language : Language) (ending : Ending) (text : String) (offset : Nat) : Bool :=
  if language.isTyped then endsPlainly language ending text offset
  else endsThroughComment language ending text offset

def automaticEnd? (language : Language) (ending : Ending) (text : String) (offset : Nat) :
    Option Nat :=
  if endsAt language ending text offset then some offset
  else
    let next := Text.runEnd text isBlank offset
    match commentEnd? text next with
    | none => none
    | some stop =>
      if _forward : offset < stop ∧ stop ≤ text.utf8ByteSize then
        automaticEnd? language ending text stop
      else none
termination_by text.utf8ByteSize - offset

namespace Parse

def automaticEnd (ending : Ending) : Parse Unit := do
  let now ← setting
  match automaticEnd? now.language ending now.text (← position) with
  | some stop => moveTo stop
  | none => refuse

def statementEnd (ending : Ending) : Parse Unit := do
  if ← accept ";" then return
  automaticEnd ending

def optionalEnd (ending : Ending) : Parse Unit := do
  let _ ← attempt (automaticEnd ending)

def continuesLine : Parse Bool := do
  return !(← peek).onNewLine || (← setting).bracketed

end Parse
end DeadExports.Source
