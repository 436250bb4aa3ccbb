set_option autoImplicit false

namespace DeadExports

structure Span where
  start : Nat
  stop : Nat
deriving DecidableEq, Repr, Inhabited

namespace Span

def length (span : Span) : Nat := span.stop - span.start

def isEmpty (span : Span) : Bool := span.start == span.stop

def contains (span : Span) (offset : Nat) : Bool :=
  decide (span.start ≤ offset) && decide (offset < span.stop)

def overlaps (a b : Span) : Bool := decide (a.start < b.stop) && decide (b.start < a.stop)

def compare (a b : Span) : Ordering :=
  (Ord.compare a.start b.start).then (Ord.compare a.stop b.stop)

def before (a b : Span) : Bool := a.compare b == .lt

def atMost (a b : Span) : Bool := a.compare b != .gt

def display (span : Span) : String := s!"{span.start}..{span.stop}"

end Span

namespace Text

def size (text : String) : Nat := text.utf8ByteSize

def bytes (text : String) : List UInt8 := text.toByteArray.toList

/-- The character that starts at `offset`, and the NUL character past the end of the text. -/
def charAt (text : String) (offset : Nat) : Char :=
  if offset < text.utf8ByteSize then (⟨offset⟩ : String.Pos.Raw).get text else '\x00'

def isBoundary (text : String) (offset : Nat) : Bool := (⟨offset⟩ : String.Pos.Raw).isValid text

@[simp] theorem boundary_zero (text : String) : isBoundary text 0 = true :=
  String.Pos.Raw.isValid_eq_true_iff.mpr String.Pos.Raw.isValid_zero

@[simp] theorem boundary_size (text : String) : isBoundary text (size text) = true :=
  String.Pos.Raw.isValid_eq_true_iff.mpr String.Pos.Raw.isValid_rawEndPos

def slice? (text : String) (start stop : Nat) : Option String := do
  let first ← text.pos? ⟨start⟩
  let last ← text.pos? ⟨stop⟩
  if start ≤ stop then some (text.extract first last) else none

/-- The text under a span, empty when the span does not lie on character boundaries. -/
def under (text : String) (span : Span) : String := (slice? text span.start span.stop).getD ""

def runEnd (text : String) (accept : Char → Bool) (offset : Nat) : Nat :=
  if offset < text.utf8ByteSize then
    let char := charAt text offset
    if accept char then runEnd text accept (offset + char.utf8Size) else offset
  else offset
termination_by text.utf8ByteSize - offset
decreasing_by
  have positive := Char.utf8Size_pos (charAt text offset)
  omega

def startsAt (text : String) (offset : Nat) (word : String) : Bool :=
  match slice? text offset (offset + word.utf8ByteSize) with
  | some part => part == word
  | none => false

def occursIn (part : List Char) : List Char → Bool
  | [] => part.isEmpty
  | char :: rest => part.isPrefixOf (char :: rest) || occursIn part rest

def mentions (text part : String) : Bool := occursIn part.toList text.toList

def isWhite (char : Char) : Bool :=
  let code := char.toNat
  (9 ≤ code && code ≤ 13) || code == 0x20 || code == 0x85 || code == 0xA0 || code == 0x1680 ||
    (0x2000 ≤ code && code ≤ 0x200A) || code == 0x2028 || code == 0x2029 || code == 0x202F ||
    code == 0x205F || code == 0x3000

def trimChars (chars : List Char) : List Char :=
  ((chars.dropWhile isWhite).reverse.dropWhile isWhite).reverse

def trim (text : String) : String := String.ofList (trimChars text.toList)

def dropReturn (line : List Char) : List Char :=
  if line.getLast? == some '\r' then line.dropLast else line

def firstLine (text : String) : String :=
  let chars := trimChars text.toList
  let line := chars.takeWhile (· != '\n')
  if line.length < chars.length then String.ofList (dropReturn line) else String.ofList line

end Text
end DeadExports
