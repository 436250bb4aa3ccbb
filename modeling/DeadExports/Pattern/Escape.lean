import DeadExports.Pattern.Flags
import DeadExports.Pattern.Regex

set_option autoImplicit false

namespace DeadExports.Pattern

inductive Escape where
  | literal (char : Char)
  | charClass (chars : CharClass)
  | anchor (condition : Anchor)

namespace Escape

def isMeta (char : Char) : Bool := "\\.+*?()|[]\x7b\x7d^$#&-~".toList.contains char

def isPlain (char : Char) : Bool :=
  isMeta char || (decide (char.toNat < 0x80) && !char.isAlphanum && char != '<' && char != '>')

def hexDigit? (char : Char) : Option Nat :=
  if '0' ≤ char ∧ char ≤ '9' then some (char.toNat - '0'.toNat)
  else if 'a' ≤ char ∧ char ≤ 'f' then some (char.toNat - 'a'.toNat + 10)
  else if 'A' ≤ char ∧ char ≤ 'F' then some (char.toNat - 'A'.toNat + 10)
  else none

def ofCode? (digits : List Char) : Option Char := do
  guard !digits.isEmpty
  let code ← digits.foldlM (fun code char => (hexDigit? char).map (code * 16 + ·)) 0
  guard code.isValidChar
  return Char.ofNat code

def code? (count : Nat) (text : List Char) : Option (Char × List Char) :=
  match text with
  | '\x7b' :: rest => do
    let digits := rest.takeWhile (· != '\x7d')
    guard (digits.length < rest.length)
    return (← ofCode? digits, rest.drop (digits.length + 1))
  | _ => do
    guard (count ≤ text.length)
    return (← ofCode? (text.take count), text.drop count)

def cutAt? (sign : List Char) : List Char → Option (List Char × List Char)
  | [] => none
  | char :: rest =>
    if sign.isPrefixOf (char :: rest) then some ([], (char :: rest).drop sign.length)
    else (cutAt? sign rest).map fun cut => (char :: cut.1, cut.2)

def property? (name : List Char) : Option CharClass :=
  let valued (cut : List Char × List Char) :=
    CharClass.ofPropertyValue? (String.ofList cut.1) (String.ofList cut.2)
  match cutAt? ['!', '='] name with
  | some cut => (valued cut).map .complement
  | none =>
    match (cutAt? [':'] name).or (cutAt? ['='] name) with
    | some cut => valued cut
    | none => CharClass.ofProperty? (String.ofList name)

def propertyClass? (text : List Char) : Option (CharClass × List Char) :=
  match text with
  | '\x7b' :: rest => do
    let name := rest.takeWhile (· != '\x7d')
    guard (name.length < rest.length)
    return (← property? name, rest.drop (name.length + 1))
  | '\\' :: _ => none
  | letter :: rest => (property? [letter]).map fun found => (found, rest)
  | [] => none

def shortClass? (flags : Flags) (letter : Char) : Option CharClass :=
  let pick (whole plain : CharClass) := if flags.has .unicode then whole else plain
  match letter with
  | 'd' => some (pick .digit .asciiDigit)
  | 's' => some (pick .white .asciiSpace)
  | 'w' => some (pick .word .asciiWord)
  | _ => none

/-- The complements need Unicode, because a text is made of whole characters. -/
def shortComplement? (flags : Flags) (letter : Char) : Option CharClass := do
  let found ← match letter with
    | 'D' => shortClass? flags 'd'
    | 'S' => shortClass? flags 's'
    | 'W' => shortClass? flags 'w'
    | _ => none
  guard (flags.has .unicode)
  return .complement found

def controlChar? : Char → Option Char
  | 'a' => some '\x07'
  | 'f' => some '\x0c'
  | 't' => some '\t'
  | 'n' => some '\n'
  | 'r' => some '\r'
  | 'v' => some '\x0b'
  | _ => none

def wordOf (flags : Flags) : CharClass := if flags.has .unicode then .word else .asciiWord

def edge (flags : Flags) (allowed : List (Bool × Bool)) :
    Escape := .anchor (.wordEdge (wordOf flags) allowed)

def wordBoundary (flags : Flags) : Escape := edge flags [(true, false), (false, true)]

def wordStart (flags : Flags) : Escape := edge flags [(false, true)]

def wordStop (flags : Flags) : Escape := edge flags [(true, false)]

def namedEdge? (flags : Flags) : String → Option Escape
  | "start" => some (wordStart flags)
  | "end" => some (wordStop flags)
  | "start-half" => some (edge flags [(false, true), (false, false)])
  | "end-half" => some (edge flags [(true, false), (false, false)])
  | _ => none

def isEdgeChar (char : Char) : Bool := char.isAlpha || char == '-'

def boundary? (flags : Flags) (text : List Char) : Option (Escape × List Char) :=
  match text with
  | '\x7b' :: rest =>
    let inner := flags.skip rest
    let name := inner.takeWhile isEdgeChar
    if inner.isEmpty then none
    else if name.isEmpty then some (wordBoundary flags, text)
    else
      match flags.skip (inner.drop name.length) with
      | '\x7d' :: rest => (namedEdge? flags (String.ofList name)).map fun found => (found, rest)
      | _ => none
  | _ => some (wordBoundary flags, text)

def read? (flags : Flags) (text : List Char) : Option (Escape × List Char) :=
  match text with
  | [] => none
  | 'x' :: rest => (code? 2 (flags.skip rest)).map fun found => (.literal found.1, found.2)
  | 'u' :: rest => (code? 4 (flags.skip rest)).map fun found => (.literal found.1, found.2)
  | 'U' :: rest => (code? 8 (flags.skip rest)).map fun found => (.literal found.1, found.2)
  | 'p' :: rest => do
    guard (flags.has .unicode)
    let (found, rest) ← propertyClass? (flags.skip rest)
    return (.charClass found, rest)
  | 'P' :: rest => do
    guard (flags.has .unicode)
    let (found, rest) ← propertyClass? (flags.skip rest)
    return (.charClass (.complement found), rest)
  | 'A' :: rest => some (.anchor .textStart, rest)
  | 'z' :: rest => some (.anchor .textEnd, rest)
  | 'b' :: rest => boundary? flags rest
  | 'B' :: rest => some (edge flags [(true, true), (false, false)], rest)
  | '<' :: rest => some (wordStart flags, rest)
  | '>' :: rest => some (wordStop flags, rest)
  | char :: rest =>
    if isPlain char then some (.literal char, rest)
    else
      let found := ((controlChar? char).map literal).or
        (((shortClass? flags char).or (shortComplement? flags char)).map charClass)
      found.map fun found => (found, rest)

end Escape
end DeadExports.Pattern
