import DeadExports.Text.Basic

set_option autoImplicit false

namespace DeadExports.Source

def isBlank (char : Char) : Bool :=
  Text.isWhite char || char.toNat == 0xFEFF || char.toNat == 0x2060 || char.toNat == 0x200B

def isLineEnd (char : Char) : Bool :=
  char == '\n' || char == '\r' || char.toNat == 0x2028 || char.toNat == 0x2029

def isPlainBlank (char : Char) : Bool :=
  char == ' ' || (9 ≤ char.toNat && char.toNat ≤ 13)

def isPunctuation (char : Char) : Bool :=
  ":;`\"'@#.,|^&<=>+-*/\\%?!~()[]\x7b\x7d".toList.contains char

def isNameChar (char : Char) : Bool :=
  32 ≤ char.toNat && !isBlank char && !isPunctuation char

def isNameStart (char : Char) : Bool := isNameChar char && !char.isDigit

def isElementNameChar (char : Char) : Bool := isNameChar char || char == '-'

def isNumberChar (char : Char) : Bool := char.isAlphanum || char == '_'

def isDigitChar (char : Char) : Bool := char.isDigit || char == '_'

def isHexDigit (char : Char) : Bool := char.isDigit || "abcdefABCDEF".toList.contains char

structure Gap where
  stop : Nat
  hasLineEnd : Bool := false
  comments : List Span := []

def lineCommentEnd (text : String) (offset : Nat) : Nat :=
  Text.runEnd text (fun char => !isLineEnd char) offset

def blockCommentEnd? (text : String) (offset : Nat) : Option Nat :=
  if offset < text.utf8ByteSize then
    let char := Text.charAt text offset
    if char == '*' && Text.charAt text (offset + 1) == '/' then some (offset + 2)
    else blockCommentEnd? text (offset + char.utf8Size)
  else none
termination_by text.utf8ByteSize - offset
decreasing_by
  have positive := Char.utf8Size_pos (Text.charAt text offset)
  omega

def commentEnd? (text : String) (offset : Nat) : Option Nat :=
  if Text.charAt text offset == '/' then
    match Text.charAt text (offset + 1) with
    | '/' => some (lineCommentEnd text (offset + 2))
    | '*' => blockCommentEnd? text (offset + 2)
    | _ => none
  else none

def hasLineEndIn (text : String) (start stop : Nat) : Bool :=
  decide (Text.runEnd text (fun char => !isLineEnd char) start < stop)

def gapAt (text : String) (offset : Nat) : Gap :=
  let blanksEnd := Text.runEnd text isBlank offset
  let lineEnd := hasLineEndIn text offset blanksEnd
  match commentEnd? text blanksEnd with
  | none => { stop := blanksEnd, hasLineEnd := lineEnd }
  | some stop =>
    if _forward : offset < stop ∧ stop ≤ text.utf8ByteSize then
      let rest := gapAt text stop
      { stop := rest.stop
        hasLineEnd := lineEnd || hasLineEndIn text blanksEnd stop || rest.hasLineEnd
        comments := ⟨blanksEnd, stop⟩ :: rest.comments }
    else { stop := blanksEnd, hasLineEnd := lineEnd }
termination_by text.utf8ByteSize - offset

inductive Shape where
  | word
  | hiddenName
  | number
  | string
  | template
  | mark
  | finish
deriving DecidableEq, Repr

structure Token where
  shape : Shape
  text : String := ""
  span : Span
  onNewLine : Bool := false
deriving Repr

namespace Token

def marks : List (List Char) :=
  [">>>=", "...", "===", "!==", "**=", "<<=", ">>=", ">>>", "&&=", "||=", "??=", "=>", "==", "!=",
    "<=", ">=", "&&", "||", "??", "?.", "++", "--", "+=", "-=", "*=", "/=", "%=", "&=", "|=", "^=",
    "<<", ">>", "**", "\x7b", "\x7d", "(", ")", "[", "]", ";", ",", "<", ">", "+", "-", "*", "/",
    "%", "&", "|", "^", "!", "~", "?", ":", "=", ".", "@", "#"].map String.toList

/-- The mark at `offset`. A question mark before a fraction stands for itself. -/
def mark? (text : String) (offset : Nat) : Option (List Char) :=
  let ahead := [Text.charAt text offset, Text.charAt text (offset + 1),
    Text.charAt text (offset + 2), Text.charAt text (offset + 3)]
  match marks.find? (·.isPrefixOf ahead) with
  | some ['?', '.'] => if (Text.charAt text (offset + 2)).isDigit then some ['?']
      else some ['?', '.']
  | found => found

def stringEnd? (text : String) (quoteMark : Char) (offset : Nat) : Option Nat :=
  if offset < text.utf8ByteSize then
    let char := Text.charAt text offset
    if char == quoteMark then some (offset + 1)
    else if char == '\n' || char == '\r' then none
    else if char == '\\' then
      let next := Text.charAt text (offset + 1)
      let skipped := if next == '\r' && Text.charAt text (offset + 2) == '\n' then 2
        else next.utf8Size
      stringEnd? text quoteMark (offset + 1 + skipped)
    else stringEnd? text quoteMark (offset + char.utf8Size)
  else none
termination_by text.utf8ByteSize - offset
decreasing_by
  · omega
  · have positive := Char.utf8Size_pos (Text.charAt text offset)
    omega

def escapeEnd? (text : String) (offset : Nat) : Option Nat :=
  if Text.charAt text offset == '\\' && Text.charAt text (offset + 1) == 'u' then
    if Text.charAt text (offset + 2) == '\x7b' then
      let stop := Text.runEnd text isHexDigit (offset + 3)
      if decide (offset + 3 < stop) && Text.charAt text stop == '\x7d' then some (stop + 1)
      else none
    else if [2, 3, 4, 5].all fun index => isHexDigit (Text.charAt text (offset + index)) then
      some (offset + 6)
    else none
  else none

def nameEnd (text : String) (offset : Nat) : Nat :=
  let plain := Text.runEnd text isNameChar offset
  match escapeEnd? text plain with
  | none => plain
  | some stop =>
    if _forward : offset < stop ∧ stop ≤ text.utf8ByteSize then nameEnd text stop else plain
termination_by text.utf8ByteSize - offset

def numberEnd (text : String) (offset : Nat) : Nat :=
  let second := Text.charAt text (offset + 1)
  if Text.charAt text offset == '0' && ['x', 'X', 'o', 'O', 'b', 'B'].contains second then
    Text.runEnd text isNumberChar (offset + 2)
  else
    let whole := Text.runEnd text isDigitChar offset
    let fraction :=
      if Text.charAt text whole == '.' then Text.runEnd text isDigitChar (whole + 1) else whole
    let mantissa := Text.charAt text fraction
    if mantissa == 'e' || mantissa == 'E' then
      let sign := Text.charAt text (fraction + 1)
      let digits := if sign == '+' || sign == '-' then fraction + 2 else fraction + 1
      Text.runEnd text isDigitChar digits
    else if mantissa == 'n' then fraction + 1
    else fraction

def startsName (text : String) (offset : Nat) : Bool :=
  isNameStart (Text.charAt text offset) || (escapeEnd? text offset).isSome

def startingAt? (text : String) (start : Nat) (onNewLine : Bool) : Option Token :=
  let char := Text.charAt text start
  if text.utf8ByteSize ≤ start then some { shape := .finish, span := ⟨start, start⟩, onNewLine }
  else if startsName text start then
    let stop := nameEnd text start
    some { shape := .word, text := Text.under text ⟨start, stop⟩, span := ⟨start, stop⟩, onNewLine }
  else if char.isDigit || (char == '.' && (Text.charAt text (start + 1)).isDigit) then
    some { shape := .number, span := ⟨start, numberEnd text start⟩, onNewLine }
  else if char == '"' || char == '\'' then
    (stringEnd? text char (start + 1)).map fun stop =>
      { shape := .string, span := ⟨start, stop⟩, onNewLine }
  else if char == '`' then some { shape := .template, span := ⟨start, start + 1⟩, onNewLine }
  else if char == '#' && startsName text (start + 1) then
    let stop := nameEnd text (start + 1)
    some { shape := .hiddenName, text := Text.under text ⟨start, stop⟩, span := ⟨start, stop⟩,
           onNewLine }
  else
    (mark? text start).map fun mark =>
      { shape := .mark, text := String.ofList mark, span := ⟨start, start + mark.length⟩,
        onNewLine }

def next? (text : String) (offset : Nat) : Option Token :=
  let gap := gapAt text offset
  startingAt? text gap.stop gap.hasLineEnd

def isWord (token : Token) : Bool := token.shape == .word

def reserved : List String :=
  ["break", "case", "catch", "class", "const", "continue", "debugger", "default", "delete", "do",
    "else", "enum", "export", "extends", "false", "finally", "for", "function", "if",
    "import", "in",
    "instanceof", "new", "null", "return", "super", "switch", "this", "throw", "true", "try",
    "typeof", "var", "void", "while", "with", "yield"]

def isVariable (token : Token) : Bool := token.isWord && !reserved.contains token.text

end Token
end DeadExports.Source
