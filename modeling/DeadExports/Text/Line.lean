import DeadExports.Text.Basic

set_option autoImplicit false

namespace DeadExports.Text

def lineFeed : UInt8 := 10
def carriageReturn : UInt8 := 13

def isBlankByte (byte : UInt8) : Bool := byte == 32 || byte == 9

def byteAt? (text : String) (offset : Nat) : Option UInt8 :=
  if inside : (⟨offset⟩ : String.Pos.Raw) < text.rawEndPos then some (text.getUTF8Byte
    ⟨offset⟩ inside) else none

def isInk (byte : UInt8) : Bool := !(isBlankByte byte || byte == lineFeed || byte == carriageReturn)

def hasInk (text : String) (offset : Nat) : Bool := (byteAt? text offset).any isInk

def hasInkBefore (text : String) : Nat → Bool
  | 0 => false
  | offset + 1 =>
    match byteAt? text offset with
    | some byte => if isBlankByte byte then hasInkBefore text offset else byte != lineFeed
    | none => false

def rowOf (text : String) (offset : Nat) : Nat := ((bytes text).take offset).count lineFeed

def lineColumn (text : String) (offset : Nat) : Nat × Nat :=
  let before := (bytes text).take offset
  (before.count lineFeed + 1, (before.reverse.takeWhile (· != lineFeed)).length + 1)

def indentation? (reversed : List UInt8) : Option Nat :=
  let blanks := (reversed.takeWhile isBlankByte).length
  match reversed.drop blanks with
  | [] => some blanks
  | byte :: _ => if byte == lineFeed then some blanks else none

def lineBreak? : List UInt8 → Option Nat
  | [] => some 0
  | byte :: rest =>
    if byte == lineFeed then some 1
    else if byte == carriageReturn then
      match rest with
      | [] => some 1
      | next :: _ => if next == lineFeed then some 2 else none
    else none

def lineRest? (after : List UInt8) : Option Nat :=
  let blanks := (after.takeWhile isBlankByte).length
  (lineBreak? (after.drop blanks)).map (blanks + ·)

def lineExtent (text : String) (span : Span) : Span :=
  let all := bytes text
  { start := span.start - (indentation? (all.take span.start).reverse).getD 0
    stop := span.stop + (lineRest? (all.drop span.stop)).getD 0 }

def ownLine? (text : String) (span : Span) : Option Span :=
  let line := lineExtent text span
  let startsLine := line.start == 0 || (bytes text)[line.start - 1]? == some lineFeed
  if startsLine && decide (span.stop < line.stop) then some line else none

def skipBlanks (text : String) (offset : Nat) : Nat :=
  offset + (((bytes text).drop offset).takeWhile isBlankByte).length

def skipBlanksBack (text : String) (offset : Nat) : Nat :=
  offset - (((bytes text).take offset).reverse.takeWhile isBlankByte).length

end DeadExports.Text
