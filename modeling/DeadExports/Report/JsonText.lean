set_option autoImplicit false

namespace DeadExports

inductive JsonText where
  | text (value : String)
  | number (value : Nat)
  | flag (value : Bool)
  | list (items : List JsonText)
  | record (fields : List (String × JsonText))

namespace JsonText

def hexDigit (value : Nat) : Char := (Nat.toDigits 16 (value % 16)).headD '0'

def escapeChar (char : Char) : List Char :=
  if char == '"' then ['\\', '"']
  else if char == '\\' then ['\\', '\\']
  else if char.toNat == 8 then ['\\', 'b']
  else if char.toNat == 9 then ['\\', 't']
  else if char.toNat == 10 then ['\\', 'n']
  else if char.toNat == 12 then ['\\', 'f']
  else if char.toNat == 13 then ['\\', 'r']
  else if char.toNat < 32 then
    ['\\', 'u', '0', '0', hexDigit (char.toNat / 16), hexDigit char.toNat]
  else [char]

def quote (value : String) : String :=
  "\"" ++ String.ofList (value.toList.flatMap escapeChar) ++ "\""

def indent (level : Nat) : String := String.ofList (List.replicate (2 * level) ' ')

def enclose (level : Nat) (opening closing : String) (items : List String) : String :=
  if items.isEmpty then opening ++ closing
  else
    let lines := items.map fun item => indent (level + 1) ++ item
    opening ++ "\n" ++ ",\n".intercalate lines ++ "\n" ++ indent level ++ closing

mutual
def render (level : Nat) : JsonText → String
  | text value => quote value
  | number value => toString value
  | flag value => if value then "true" else "false"
  | list items => enclose level "[" "]" (renderItems (level + 1) items)
  | record fields => enclose level "\x7b" "\x7d" (renderFields (level + 1) fields)

def renderItems (level : Nat) : List JsonText → List String
  | [] => []
  | item :: rest => render level item :: renderItems level rest

def renderFields (level : Nat) : List (String × JsonText) → List String
  | [] => []
  | (name, value) :: rest => (quote name ++ ": " ++ render level value) :: renderFields level rest
end

end JsonText
end DeadExports
