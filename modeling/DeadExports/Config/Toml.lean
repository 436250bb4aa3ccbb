set_option autoImplicit false

/-!
The part of TOML that settings are written in: lines `key = value`, where a value is a text, a whole
number, a truth value or a list of texts. Tables, dotted keys, fractions, dates and other lists are
refused like text that is not TOML at all, because no setting can hold them.
-/

namespace DeadExports.Toml

inductive Value where
  | text (value : String)
  | integer (value : Int)
  | truth (value : Bool)
  | texts (items : List String)
deriving DecidableEq, Repr

abbrev Reader (α : Type) := List Char → Option (α × List Char)

def isBlank (char : Char) : Bool := char == ' ' || char == '\t'

def isPrintable (char : Char) : Bool := char == '\t' || (' ' ≤ char && char.toNat != 0x7F)

def skipBlanks (text : List Char) : List Char := text.dropWhile isBlank

def lineEnd? : List Char → Option (List Char)
  | [] => some []
  | '\n' :: rest => some rest
  | '\r' :: '\n' :: rest => some rest
  | _ => none

def skipComment : List Char → List Char
  | '#' :: rest => rest.dropWhile isPrintable
  | text => text

def finishLine? (text : List Char) : Option (List Char) := lineEnd? (skipComment (skipBlanks text))

def skipFiller (inComment : Bool) : List Char → List Char
  | [] => []
  | '\n' :: rest => skipFiller false rest
  | '\r' :: '\n' :: rest => skipFiller false rest
  | char :: rest =>
    if inComment && isPrintable char then skipFiller true rest
    else if !inComment && isBlank char then skipFiller false rest
    else if !inComment && char == '#' then skipFiller true rest
    else char :: rest

def digit? (base : Nat) (char : Char) : Option Nat :=
  let value :=
    if '0' ≤ char ∧ char ≤ '9' then char.toNat - '0'.toNat
    else if 'a' ≤ char ∧ char ≤ 'f' then char.toNat - 'a'.toNat + 10
    else if 'A' ≤ char ∧ char ≤ 'F' then char.toNat - 'A'.toNat + 10
    else base
  if value < base then some value else none

def number? (base : Nat) (digits : List Char) : Option Nat :=
  digits.foldlM (fun value char => (digit? base char).map (value * base + ·)) 0

def character? (digits : List Char) : Option Char := do
  let code ← number? 16 digits
  if code.isValidChar then some (Char.ofNat code) else none

def shortEscape? : Char → Option Char
  | 'b' => some '\x08'
  | 't' => some '\t'
  | 'n' => some '\n'
  | 'f' => some '\x0c'
  | 'r' => some '\r'
  | '"' => some '"'
  | '\\' => some '\\'
  | _ => none

def before (char : Char) (read : List Char × List Char) : List Char × List Char :=
  (char :: read.1, read.2)

def basicRest : Reader (List Char)
  | '"' :: rest => some ([], rest)
  | '\\' :: 'u' :: a :: b :: c :: d :: rest => do
    return before (← character? [a, b, c, d]) (← basicRest rest)
  | '\\' :: 'U' :: a :: b :: c :: d :: e :: f :: g :: h :: rest => do
    return before (← character? [a, b, c, d, e, f, g, h]) (← basicRest rest)
  | '\\' :: char :: rest => do return before (← shortEscape? char) (← basicRest rest)
  | char :: rest => do
    guard (isPrintable char)
    return before char (← basicRest rest)
  | [] => none

def literalRest : Reader (List Char)
  | '\'' :: rest => some ([], rest)
  | char :: rest => do
    guard (isPrintable char)
    return before char (← literalRest rest)
  | [] => none

def endsHere (text : List Char) : Bool :=
  match skipBlanks text with
  | '\n' :: _ => true
  | '\r' :: '\n' :: _ => true
  | _ => false

/--
The rest of a text between three double quotes. A backslash at the end of a line takes all blanks
and line ends behind it; while that lasts, `joining` is set. One or two quotes may stand right
before the closing three.
-/
def longBasicRest (joining : Bool) : Reader (List Char)
  | '"' :: '"' :: '"' :: '"' :: '"' :: rest => some (['"', '"'], rest)
  | '"' :: '"' :: '"' :: '"' :: rest => some (['"'], rest)
  | '"' :: '"' :: '"' :: rest => some ([], rest)
  | '\\' :: 'u' :: a :: b :: c :: d :: rest => do
    return before (← character? [a, b, c, d]) (← longBasicRest false rest)
  | '\\' :: 'U' :: a :: b :: c :: d :: e :: f :: g :: h :: rest => do
    return before (← character? [a, b, c, d, e, f, g, h]) (← longBasicRest false rest)
  | '\\' :: char :: rest =>
    if endsHere (char :: rest) then longBasicRest true (char :: rest)
    else do return before (← shortEscape? char) (← longBasicRest false rest)
  | '\r' :: '\n' :: rest =>
    if joining then longBasicRest true rest else (longBasicRest false rest).map (before '\n')
  | char :: rest =>
    if joining && (isBlank char || char == '\n') then longBasicRest true rest
    else do
      guard (isPrintable char || char == '\n')
      return before char (← longBasicRest false rest)
  | [] => none

def longLiteralRest : Reader (List Char)
  | '\'' :: '\'' :: '\'' :: '\'' :: '\'' :: rest => some (['\'', '\''], rest)
  | '\'' :: '\'' :: '\'' :: '\'' :: rest => some (['\''], rest)
  | '\'' :: '\'' :: '\'' :: rest => some ([], rest)
  | '\r' :: '\n' :: rest => (longLiteralRest rest).map (before '\n')
  | char :: rest => do
    guard (isPrintable char || char == '\n')
    return before char (← longLiteralRest rest)
  | [] => none

def skipLineEnd : List Char → List Char
  | '\n' :: rest => rest
  | '\r' :: '\n' :: rest => rest
  | text => text

def shortText : Reader String
  | '"' :: rest => (basicRest rest).map fun read => (String.ofList read.1, read.2)
  | '\'' :: rest => (literalRest rest).map fun read => (String.ofList read.1, read.2)
  | _ => none

def anyText : Reader String
  | '"' :: '"' :: '"' :: rest =>
    (longBasicRest false (skipLineEnd rest)).map fun read => (String.ofList read.1, read.2)
  | '\'' :: '\'' :: '\'' :: rest =>
    (longLiteralRest (skipLineEnd rest)).map fun read => (String.ofList read.1, read.2)
  | text => shortText text

def ungroup? (digits : List Char) : Option (List Char) :=
  match digits with
  | [] => none
  | [digit] => if digit == '_' then none else some [digit]
  | '_' :: _ => none
  | digit :: '_' :: rest => (ungroup? rest).map (digit :: ·)
  | digit :: rest => (ungroup? rest).map (digit :: ·)

def unsigned? (base : Nat) (digits : List Char) :
    Option Nat := (ungroup? digits).bind (number? base)

def decimal? (digits : List Char) : Option Nat :=
  match digits with
  | '0' :: _ :: _ => none
  | _ => unsigned? 10 digits

def integer? (token : List Char) : Option Int := do
  let value : Int ← match token with
    | '0' :: 'x' :: digits => (unsigned? 16 digits).map Int.ofNat
    | '0' :: 'o' :: digits => (unsigned? 8 digits).map Int.ofNat
    | '0' :: 'b' :: digits => (unsigned? 2 digits).map Int.ofNat
    | '+' :: digits => (decimal? digits).map Int.ofNat
    | '-' :: digits => (decimal? digits).map fun value => -Int.ofNat value
    | digits => (decimal? digits).map Int.ofNat
  guard (-0x8000000000000000 ≤ value ∧ value < 0x8000000000000000)
  return value

def items : Nat → Reader (List String)
  | 0, _ => none
  | bound + 1, text =>
    match skipFiller false text with
    | ']' :: rest => some ([], rest)
    | start => do
      let (item, rest) ← anyText start
      match skipFiller false rest with
      | ']' :: rest => return ([item], rest)
      | ',' :: rest =>
        let (more, rest) ← items bound rest
        return (item :: more, rest)
      | _ => none

def endsToken (char : Char) : Bool :=
  isBlank char || char == '\n' || char == '\r' || char == '#' || char == ',' || char == ']'

def plainValue (text : List Char) : Option (Value × List Char) :=
  let token := text.takeWhile fun char => !endsToken char
  let rest := text.drop token.length
  if token == "true".toList then some (.truth true, rest)
  else if token == "false".toList then some (.truth false, rest)
  else (integer? token).map fun value => (.integer value, rest)

def value (text : List Char) : Option (Value × List Char) :=
  match text with
  | '[' :: rest => (items (rest.length + 1) rest).map fun read => (.texts read.1, read.2)
  | '"' :: _ => (anyText text).map fun read => (.text read.1, read.2)
  | '\'' :: _ => (anyText text).map fun read => (.text read.1, read.2)
  | _ => plainValue text

def isKeyChar (char : Char) : Bool := char.isAlphanum || char == '_' || char == '-'

def key (text : List Char) : Option (String × List Char) :=
  let bare := text.takeWhile isKeyChar
  if bare.isEmpty then shortText text else some (String.ofList bare, text.drop bare.length)

def setting (text : List Char) : Option ((String × Value) × List Char) := do
  let (name, rest) ← key (skipBlanks text)
  match skipBlanks rest with
  | '=' :: rest =>
    let (found, rest) ← value (skipBlanks rest)
    return ((name, found), rest)
  | _ => none

def lines : Nat → List (String × Value) → List Char → Option (List (String × Value))
  | _, found, [] => some found
  | 0, _, _ => none
  | bound + 1, found, text =>
    match finishLine? text with
    | some rest => lines bound found rest
    | none => do
      let (entry, rest) ← setting text
      guard !(found.any fun earlier => earlier.1 == entry.1)
      lines bound (found ++ [entry]) (← finishLine? rest)

def read (text : String) : Option (List (String × Value)) :=
  let chars := match text.toList with
    | '\uFEFF' :: rest => rest
    | chars => chars
  lines chars.length [] chars

end DeadExports.Toml
