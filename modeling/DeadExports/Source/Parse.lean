import DeadExports.Language
import DeadExports.Source.Token
import DeadExports.Source.Tree

set_option autoImplicit false

namespace DeadExports.Source

structure Setting where
  text : String
  language : Language
  /-- The word `in` belongs to the head of a loop here. -/
  withoutIn : Bool := false
  /-- Inside brackets, where no statement can end. -/
  bracketed : Bool := false
  /-- In the first branch of a conditional whose colon ends that branch. -/
  plainBranch : Bool := false

structure Cursor where
  position : Nat
  ahead : Option Token := none

def Parse (α : Type) : Type := Setting → Cursor → Option (α × Cursor)

namespace Parse

variable {α β : Type}

instance : Monad Parse where
  pure value := fun _ cursor => some (value, cursor)
  bind first next := fun setting cursor =>
    match first setting cursor with
    | some (value, rest) => next value setting rest
    | none => none

def refuse : Parse α := fun _ _ => none

def orElse (first : Parse α) (second : Unit → Parse α) : Parse α := fun setting cursor =>
  match first setting cursor with
  | some result => some result
  | none => second () setting cursor

instance : OrElse (Parse α) where
  orElse := orElse

def attempt (reader : Parse α) : Parse (Option α) := fun setting cursor =>
  match reader setting cursor with
  | some (value, rest) => some (some value, rest)
  | none => some (none, cursor)

def wouldAccept (reader : Parse α) : Parse Bool := fun setting cursor =>
  some ((reader setting cursor).isSome, cursor)

def setting : Parse Setting := fun setting cursor => some (setting, cursor)

def within (change : Setting → Setting) (reader : Parse α) : Parse α := fun setting cursor =>
  reader (change setting) cursor

def inBrackets (reader : Parse α) : Parse α :=
  within (fun old => { old with withoutIn := false, bracketed := true, plainBranch := false })
    reader

def inBlock (reader : Parse α) : Parse α :=
  within (fun old => { old with withoutIn := false, bracketed := false, plainBranch := false })
    reader

def position : Parse Nat := fun _ cursor => some (cursor.position, cursor)

def moveTo (offset : Nat) : Parse Unit := fun _ _ => some ((), { position := offset })

def isTyped : Parse Bool := fun setting cursor => some (setting.language.isTyped, cursor)

def hasMarkup : Parse Bool := fun setting cursor => some (setting.language.hasMarkup, cursor)

def peek : Parse Token := fun setting cursor =>
  match cursor.ahead with
  | some token => some (token, cursor)
  | none =>
    match Token.next? setting.text cursor.position with
    | some token => some (token, { cursor with ahead := some token })
    | none => none

def guard (condition : Bool) : Parse Unit := if condition then pure () else refuse

/-- The end of the text is a token to look at, and none to take. -/
def take : Parse Token := do
  let token ← peek
  guard (token.shape != .finish)
  moveTo token.span.stop
  return token

/-- The token after the next one; an end of the text stands for what cannot be read. -/
def peekSecond : Parse Token := do
  let token ← peek
  let stop := token.span.stop
  return (Token.next? (← setting).text stop).getD { shape := .finish, span := ⟨stop, stop⟩ }

def nextIs (text : String) : Parse Bool := do return (← peek).text == text

def nextIsOneOf (texts : List String) : Parse Bool := do return texts.contains (← peek).text

def accept (text : String) : Parse Bool := do
  if (← peek).text == text then
    let _ ← take
    return true
  else return false

def acceptTyped (text : String) : Parse Bool := do
  if ← isTyped then accept text else return false

def expect (text : String) : Parse Token := do
  if (← peek).text == text then take else refuse

def expectShape (shape : Shape) : Parse Token := do
  if (← peek).shape == shape then take else refuse

def closeAngle : Parse Unit := do
  let token ← peek
  guard (token.shape == .mark && token.text.startsWith ">")
  moveTo (token.span.start + 1)

def start : Parse Nat := do return (← peek).span.start

def closeNode (kind : Kind) (first : Nat) (children : List Tree) : Parse Tree := do
  return .branch kind ⟨first, ← position⟩ children

def node (kind : Kind) (reader : Parse (List Tree)) : Parse Tree := do
  let first ← start
  let children ← reader
  closeNode kind first children

def leaf (kind : Kind) : Parse Tree := do return .leaf kind (← take).span

def repeatFor (step : α → Parse (Option α)) : Nat → α → Parse α
  | 0, value => pure value
  | rounds + 1, value => do
    match ← step value with
    | some next => repeatFor step rounds next
    | none => return value

def repeatFrom (value : α) (step : α → Parse (Option α)) : Parse α := do
  let rest := Text.size (← setting).text - (← position)
  repeatFor step (rest + 1) value

def many (reader : Parse (Option α)) : Parse (List α) := do
  let reversed ← repeatFrom ([] : List α) fun values => do
    return (← reader).map (· :: values)
  return reversed.reverse

def separated (close : String) (item : Parse α) : Parse (List α) := do
  let items ← many do
    if ← nextIs close then return none
    let value ← item
    if !(← nextIs close) then
      let _ ← expect ","
    return some value
  let _ ← expect close
  return items

end Parse
end DeadExports.Source
