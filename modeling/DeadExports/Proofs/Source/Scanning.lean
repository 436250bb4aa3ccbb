import Mathlib
import DeadExports.Proofs.Source.WordEnds
import DeadExports.Proofs.Text.Splice
import DeadExports.Proofs.Text.Widening

set_option autoImplicit false

namespace DeadExports

namespace Text

open Source (isBlank)

theorem char_at_split (left right : String) (char : Char) :
    charAt (left ++ (String.singleton char ++ right)) (size left) = char := by
  have found (front : List Char) (first : Nat) (back : List Char) :
      String.Pos.Raw.utf8GetAux (front ++ char :: back) ⟨first⟩
        ⟨first + size (String.ofList front)⟩ = char := by
    induction front generalizing first with
    | nil => exact if_pos rfl
    | cons other rest ih =>
        have wide := Char.utf8Size_pos other
        have more : size (String.ofList (other :: rest)) =
            other.utf8Size + size (String.ofList rest) := by
          rw [String.ofList_cons, size_append, size, String.utf8ByteSize_singleton]
        rw [List.cons_append, String.Pos.Raw.utf8GetAux, if_neg, more, ← Nat.add_assoc]
        · exact ih _
        · intro same
          have := congrArg String.Pos.Raw.byteIdx same
          dsimp only at this
          omega
  have whole : (left ++ (String.singleton char ++ right)).toList =
      left.toList ++ char :: right.toList := by
    simp
  have inside : size left < size (left ++ (String.singleton char ++ right)) := by
    have wide := Char.utf8Size_pos char
    rw [size_append, size_append, size, size, String.utf8ByteSize_singleton]
    omega
  have here := found left.toList 0 right.toList
  rw [String.ofList_toList, Nat.zero_add] at here
  rw [charAt, if_pos (show _ < String.utf8ByteSize _ from inside), String.Pos.Raw.get, whole]
  exact here

theorem char_split (text : String) (offset : Nat) (boundary : isBoundary text offset = true)
    (inside : offset < size text) :
    ∃ left right, text = left ++ (String.singleton (charAt text offset) ++ right) ∧
      size left = offset := by
  obtain ⟨left, right, rfl, rfl⟩ := boundary_split text offset boundary
  cases chars : right.toList with
  | nil =>
      rw [← String.ofList_toList (s := right), chars, size_append] at inside
      exact absurd inside (Nat.lt_irrefl _)
  | cons char rest =>
      have parts : right = String.singleton char ++ String.ofList rest := by
        rw [← String.ofList_cons, ← chars, String.ofList_toList]
      refine ⟨left, String.ofList rest, ?_, rfl⟩
      rw [parts, char_at_split]

theorem boundary_next (text : String) (offset : Nat) (boundary : isBoundary text offset = true)
    (inside : offset < size text) :
    isBoundary text (offset + (charAt text offset).utf8Size) = true := by
  obtain ⟨left, right, whole, starts⟩ := char_split text offset boundary inside
  have next := boundary_of_split (left ++ String.singleton (charAt text offset)) right
  rw [String.append_assoc, ← whole, size_append, starts, size,
    String.utf8ByteSize_singleton] at next
  exact next

theorem bytes_of_char (char : Char) (byte : UInt8) (member : byte ∈ String.utf8EncodeChar char) :
    128 ≤ byte.toNat ∨ byte.toNat = char.toNat := by
  simp only [String.utf8EncodeChar] at member
  split at member
  next narrow =>
      right
      obtain rfl := List.mem_singleton.mp member
      exact UInt8.toNat_ofNat_of_lt' (Nat.lt_of_le_of_lt narrow (by decide))
  next =>
      left
      repeat' split at member
      all_goals
        simp only [List.mem_cons, List.not_mem_nil, or_false] at member
        rcases member with rfl | rfl | rfl | rfl <;> rw [UInt8.toNat_ofNat'] <;> omega

theorem byte_in_char (text : String) (offset index : Nat) (boundary : isBoundary text offset = true)
    (inside : offset < size text) (within : index < (charAt text offset).utf8Size) :
    ∃ byte, (bytes text)[offset + index]? = some byte ∧
      (128 ≤ byte.toNat ∨ byte.toNat = (charAt text offset).toNat) := by
  obtain ⟨left, right, whole, starts⟩ := char_split text offset boundary inside
  generalize charAt text offset = char at whole within ⊢
  obtain rfl := whole
  rw [← String.length_utf8EncodeChar] at within
  have encoded : bytes (String.singleton char) = String.utf8EncodeChar char := by
    rw [bytes_eq, String.toByteArray_singleton, List.utf8Encode_singleton]
    simp
  refine ⟨_, ?_, bytes_of_char char _ (List.getElem_mem within)⟩
  rw [bytes_append, bytes_append, encoded, List.getElem?_append_right, bytes_length, starts]
  · rw [Nat.add_sub_cancel_left, List.getElem?_append_left within, List.getElem?_eq_getElem within]
  · rw [bytes_length]
    omega

theorem char_at_inside (text : String) (offset : Nat) (char : Char)
    (here : charAt text offset = char) (visible : char ≠ '\x00') : offset < size text := by
  rw [charAt] at here
  split at here
  next inside => exact inside
  next => exact absurd here.symm visible

def isInkChar (char : Char) : Bool :=
  char != ' ' && char != '\t' && char != '\n' && char != '\r'

theorem ink_of_char (text : String) (offset index : Nat) (boundary : isBoundary text offset = true)
    (inside : offset < size text) (ink : isInkChar (charAt text offset) = true)
    (within : index < (charAt text offset).utf8Size) : hasInk text (offset + index) = true := by
  obtain ⟨byte, found, large⟩ := byte_in_char text offset index boundary inside within
  simp only [isInkChar, Bool.and_eq_true, bne_iff_ne, ne_eq, ← Char.toNat_inj] at ink
  rw [hasInk, byte_at_eq, found, Option.any_some, isInk, isBlankByte]
  simp only [lineFeed, carriageReturn, Bool.not_eq_true', Bool.or_eq_false_iff, beq_eq_false_iff_ne,
    ne_eq, ← UInt8.toNat_inj]
  have codes : ' '.toNat = 32 ∧ '\t'.toNat = 9 ∧ '\n'.toNat = 10 ∧ '\r'.toNat = 13 := by decide
  have bytes : (32 : UInt8).toNat = 32 ∧ (9 : UInt8).toNat = 9 ∧ (10 : UInt8).toNat = 10 ∧
      (13 : UInt8).toNat = 13 := by decide
  omega

structure Passes (text : String) (start stop : Nat) : Prop where
  ordered : start ≤ stop
  closes : isBoundary text start = true → isBoundary text stop = true

structure Inks (text : String) (start stop : Nat) : Prop extends Passes text start stop where
  ink : isBoundary text start = true → start < stop → hasInk text (stop - 1) = true

section Passing

variable {text : String} {start middle stop : Nat}

theorem Passes.refl (text : String) (start : Nat) : Passes text start start :=
  ⟨Nat.le_refl _, id⟩

theorem Passes.trans (first : Passes text start middle) (second : Passes text middle stop) :
    Passes text start stop :=
  ⟨first.ordered.trans second.ordered, fun opens => second.closes (first.closes opens)⟩

theorem Inks.refl (text : String) (start : Nat) : Inks text start start :=
  ⟨.refl text start, fun _ empty => absurd empty (Nat.lt_irrefl _)⟩

theorem Passes.inks (first : Passes text start middle) (second : Inks text middle stop)
    (filled : middle < stop) : Inks text start stop :=
  ⟨first.trans second.toPasses, fun opens _ => second.ink (first.closes opens) filled⟩

theorem Inks.trans (first : Inks text start middle) (second : Inks text middle stop) :
    Inks text start stop := by
  rcases Nat.eq_or_lt_of_le second.ordered with rfl | filled
  · exact first
  · exact first.toPasses.inks second filled

theorem char_passes (inside : start < size text) :
    Passes text start (start + (charAt text start).utf8Size) :=
  ⟨Nat.le_add_right _ _, fun opens => boundary_next text start opens inside⟩

theorem char_inks (inside : start < size text) (ink : isInkChar (charAt text start) = true) :
    Inks text start (start + (charAt text start).utf8Size) where
  toPasses := char_passes inside
  ink opens _ := by
    have wide := Char.utf8Size_pos (charAt text start)
    rw [Nat.add_sub_assoc wide]
    exact ink_of_char text start _ opens inside ink (Nat.sub_lt wide Nat.one_pos)

def isSign (char : Char) : Bool := char != '\x00' && char.utf8Size == 1 && isInkChar char

theorem sign_inks (sign : isSign (charAt text start) = true) : Inks text start (start + 1) := by
  simp only [isSign, Bool.and_eq_true, bne_iff_ne, beq_iff_eq] at sign
  have next := char_inks (char_at_inside text start _ rfl sign.1.1) sign.2
  rwa [sign.1.2] at next

theorem run_passes (text : String) (accept : Char → Bool) (start : Nat) :
    Passes text start (runEnd text accept start) := by
  fun_induction runEnd text accept start with
  | case1 start inside char accepted ih => exact (char_passes inside).trans ih
  | case2 start => exact .refl text start
  | case3 start => exact .refl text start

theorem run_end_refuses (text : String) (accept : Char → Bool) (start : Nat)
    (inside : runEnd text accept start < size text) :
    accept (charAt text (runEnd text accept start)) = false := by
  fun_induction runEnd text accept start with
  | case1 start _ char accepted ih => exact ih inside
  | case2 start _ char refused => simpa using refused
  | case3 start outside => exact absurd inside outside

theorem run_inks (text : String) (accept : Char → Bool) (start : Nat)
    (ink : ∀ char, accept char = true → isInkChar char = true) :
    Inks text start (runEnd text accept start) := by
  fun_induction runEnd text accept start with
  | case1 start inside char accepted ih => exact (char_inks inside (ink _ accepted)).trans ih
  | case2 start => exact .refl text start
  | case3 start => exact .refl text start

theorem run_moves (text : String) (accept : Char → Bool) (start : Nat)
    (past : accept '\x00' = false) (accepted : accept (charAt text start) = true) :
    start < runEnd text accept start := by
  have inside : start < size text := by
    refine char_at_inside text start _ rfl fun ends => ?_
    rw [ends, past] at accepted
    cases accepted
  rw [runEnd, if_pos (show start < String.utf8ByteSize _ from inside)]
  dsimp only
  rw [if_pos accepted]
  have wide := Char.utf8Size_pos (charAt text start)
  have further := (run_passes text accept (start + (charAt text start).utf8Size)).ordered
  omega

end Passing

theorem ink_before (text : String) (stop : Nat) (filled : 0 < stop)
    (ink : hasInk text (stop - 1) = true) : hasInkBefore text stop = true := by
  obtain ⟨last, rfl⟩ := Nat.exists_eq_succ_of_ne_zero (Nat.ne_of_gt filled)
  rw [Nat.succ_eq_add_one, Nat.add_sub_cancel, hasInk] at ink
  obtain ⟨byte, found, ink⟩ := (Option.any_eq_true _ _).mp ink
  rw [hasInkBefore, found]
  simp only [isInk, Bool.not_eq_true', Bool.or_eq_false_iff] at ink
  simp [ink.1.1, bne, ink.1.2]

theorem ink_before_row (text : String) (start count : Nat) (before : hasInkBefore text start = true)
    (row : ∀ index, index < count → ∃ byte, (bytes text)[start + index]? = some byte ∧
      byte ≠ lineFeed) : hasInkBefore text (start + count) = true := by
  induction count with
  | zero => exact before
  | succ count ih =>
      obtain ⟨byte, found, visible⟩ := row count (Nat.lt_succ_self _)
      rw [← Nat.add_assoc, hasInkBefore, byte_at_eq, found]
      dsimp only
      split
      · exact ih fun index within => row index (Nat.lt_succ_of_lt within)
      · exact bne_iff_ne.mpr visible

end Text
namespace Source

open Text (Passes Inks isSign isInkChar)

theorem ink_of_visible (char : Char) (visible : isBlank char = false) : isInkChar char = true := by
  simp only [isBlank, Text.isWhite, Bool.or_eq_false_iff, Bool.and_eq_false_iff,
    decide_eq_false_iff_not, beq_eq_false_iff_ne] at visible
  simp only [isInkChar, Bool.and_eq_true, bne_iff_ne, ne_eq, ← Char.toNat_inj]
  have codes : ' '.toNat = 32 ∧ '\t'.toNat = 9 ∧ '\n'.toNat = 10 ∧ '\r'.toNat = 13 := by decide
  omega

theorem line_comment_ends (text : String) (start : Nat)
    (opens : Text.isBoundary text start = true) (before : Text.hasInkBefore text start = true) :
    Text.hasInkBefore text (lineCommentEnd text start) = true := by
  rw [lineCommentEnd]
  fun_induction Text.runEnd text (fun char => !isLineEnd char) start with
  | case1 start inside char accepted ih =>
      refine ih (Text.boundary_next text start opens inside) ?_
      refine Text.ink_before_row text start _ before fun index within => ?_
      obtain ⟨byte, found, large⟩ := Text.byte_in_char text start index opens inside within
      refine ⟨byte, found, ?_⟩
      rintro rfl
      have feed : Text.charAt text start = '\n' := by
        rw [← Char.toNat_inj]
        exact (large.resolve_left (by decide)).symm
      simp [char, feed, isLineEnd] at accepted
  | case2 start => exact before
  | case3 start => exact before

theorem block_comment_inks (text : String) (start stop : Nat)
    (found : blockCommentEnd? text start = some stop) : Inks text start stop ∧ start < stop := by
  fun_induction blockCommentEnd? text start with
  | case1 start inside char closes =>
      cases found
      obtain ⟨star, slash⟩ := Bool.and_eq_true _ _ ▸ closes
      have first : Inks text start (start + 1) := Text.sign_inks (by
        rw [show Text.charAt text start = '*' from beq_iff_eq.mp star]
        decide)
      have second : Inks text (start + 1) (start + 1 + 1) := Text.sign_inks (by
        rw [show Text.charAt text (start + 1) = '/' from beq_iff_eq.mp slash]
        decide)
      exact ⟨first.trans second, by omega⟩
  | case2 start inside char more ih =>
      obtain ⟨inks, filled⟩ := ih found
      have here := Text.char_passes inside
      exact ⟨here.inks inks filled, Nat.lt_of_le_of_lt here.ordered filled⟩
  | case3 => cases found

theorem comment_ends (text : String) (start stop : Nat) (found : commentEnd? text start = some stop)
    (opens : Text.isBoundary text start = true) :
    start < stop ∧ Text.isBoundary text stop = true ∧ Text.hasInk text start = true ∧
      Text.hasInkBefore text stop = true := by
  rw [commentEnd?] at found
  split at found
  next slash =>
      have here : Text.charAt text start = '/' := beq_iff_eq.mp slash
      have first : Inks text start (start + 1) := Text.sign_inks (by rw [here]; decide)
      have ink := first.ink opens (Nat.lt_succ_self _)
      rw [Nat.add_sub_cancel] at ink
      split at found
      next second =>
          cases found
          have both := first.trans (Text.sign_inks (by rw [second]; decide))
          have more := Text.run_passes text (fun char => !isLineEnd char) (start + 2)
          refine ⟨by have := more.ordered; rw [lineCommentEnd]; omega,
            more.closes (both.closes opens), ink, ?_⟩
          exact line_comment_ends text _ (both.closes opens)
            (Text.ink_before text _ (by omega) (both.ink opens (by omega)))
      next second =>
          have both := first.trans (Text.sign_inks (by rw [second]; decide))
          obtain ⟨more, filled⟩ := block_comment_inks text _ stop found
          have whole := both.trans more
          exact ⟨by omega, whole.closes opens, ink,
            Text.ink_before text _ (by omega) (whole.ink opens (by omega))⟩
      next => cases found
  next => cases found

theorem gap_goes_on (text : String) (offset : Nat) (opens : Text.isBoundary text offset = true) :
    offset ≤ (gapAt text offset).stop ∧ Text.isBoundary text (gapAt text offset).stop = true ∧
      isBlank (Text.charAt text (gapAt text offset).stop) = false := by
  have blanks (start : Nat) := Text.run_passes text isBlank start
  have ends (start : Nat) := Text.run_end_stops text isBlank rfl start
  fun_induction gapAt text offset with
  | case1 start blanksEnd => exact ⟨(blanks start).ordered, (blanks start).closes opens, ends start⟩
  | case2 start blanksEnd lineEnd stop found forward rest ih =>
      obtain ⟨-, closes, -⟩ := comment_ends text _ stop found ((blanks start).closes opens)
      obtain ⟨order, boundary, visible⟩ := ih closes
      exact ⟨forward.1.le.trans order, boundary, visible⟩
  | case3 start blanksEnd =>
      exact ⟨(blanks start).ordered, (blanks start).closes opens, ends start⟩

theorem gap_at_code (text : String) (offset : Nat)
    (visible : isBlank (Text.charAt text offset) = false) (code : Text.charAt text offset ≠ '/') :
    (gapAt text offset).stop = offset := by
  have blanks : Text.runEnd text isBlank offset = offset := by
    rw [Text.runEnd]
    dsimp only
    rw [visible, if_neg Bool.false_ne_true, ite_self]
  have none : commentEnd? text offset = none := if_neg (by simpa using code)
  rw [gapAt, blanks, none]

structure Token.Lies (text : String) (token : Token) : Prop where
  filled : token.span.start < token.span.stop
  inks : Inks text token.span.start token.span.stop
  mark : token.shape = .mark → isSign (Text.charAt text token.span.start) = true

theorem sign_of_code (char : Char) (low : 33 ≤ char.toNat) (high : char.toNat ≤ 126) :
    isSign char = true := by
  have narrow : char.utf8Size = 1 := by
    rw [Char.utf8Size_eq_one_iff, UInt32.le_iff_toNat_le]
    exact high.trans (by decide)
  have codes : ' '.toNat = 32 ∧ '\t'.toNat = 9 ∧ '\n'.toNat = 10 ∧ '\r'.toNat = 13 ∧
      '\x00'.toNat = 0 := by decide
  simp only [isSign, isInkChar, Bool.and_eq_true, bne_iff_ne, beq_iff_eq, ne_eq,
    ← Char.toNat_inj]
  omega

theorem letter_sign (char : Char) (letter : char.isAlphanum = true) : isSign char = true := by
  simp only [Char.isAlphanum, Char.isAlpha, Char.isUpper, Char.isLower, Char.isDigit,
    Bool.or_eq_true, Bool.and_eq_true, decide_eq_true_eq, ge_iff_le, UInt32.le_iff_toNat_le]
    at letter
  have codes : 'A'.val.toNat = 65 ∧ 'Z'.val.toNat = 90 ∧ 'a'.val.toNat = 97 ∧
      'z'.val.toNat = 122 ∧ '0'.val.toNat = 48 ∧ '9'.val.toNat = 57 := by decide
  have code : char.toNat = char.val.toNat := rfl
  exact sign_of_code char (by omega) (by omega)

theorem digit_sign (char : Char) (digit : char.isDigit = true) : isSign char = true :=
  letter_sign char (by rw [Char.isAlphanum, digit, Bool.or_true])

theorem hex_sign (char : Char) (hex : isHexDigit char = true) : isSign char = true := by
  rw [isHexDigit, Bool.or_eq_true] at hex
  rcases hex with digit | letter
  · exact digit_sign char digit
  · have all : "abcdefABCDEF".toList.all isSign = true := by decide
    exact List.all_eq_true.mp all char (List.contains_iff_mem.mp letter)

namespace Token

theorem escape_inks (text : String) (start stop : Nat) (found : escapeEnd? text start = some stop) :
    Inks text start stop ∧ start < stop := by
  rw [escapeEnd?] at found
  split at found
  next opens =>
      obtain ⟨slash, letter⟩ := Bool.and_eq_true _ _ ▸ opens
      have first : Inks text start (start + 1) := Text.sign_inks (by
        rw [beq_iff_eq.mp slash]
        decide)
      have second : Inks text (start + 1) (start + 1 + 1) := Text.sign_inks (by
        rw [beq_iff_eq.mp letter]
        decide)
      have both := first.trans second
      split at found
      next brace =>
          have third : Inks text (start + 1 + 1) (start + 1 + 1 + 1) := Text.sign_inks (by
            rw [beq_iff_eq.mp brace]
            decide)
          dsimp only at found
          split at found
          next closes =>
              cases found
              obtain ⟨digits, last⟩ := Bool.and_eq_true _ _ ▸ closes
              have run := Text.run_inks text isHexDigit (start + 3) fun char isHex =>
                (Bool.and_eq_true _ _ ▸ hex_sign char isHex).2
              have order := run.ordered
              refine ⟨((both.trans third).trans run).trans (Text.sign_inks ?_), by omega⟩
              rw [beq_iff_eq.mp last]
              decide
          next => cases found
      next =>
          split at found
          next digits =>
              cases found
              simp only [List.all_cons, List.all_nil, Bool.and_true, Bool.and_eq_true] at digits
              obtain ⟨a, b, c, d⟩ := digits
              refine ⟨both.trans ?_, by omega⟩
              have a' := Text.sign_inks (hex_sign _ a)
              have b' := Text.sign_inks (hex_sign _ b)
              have c' := Text.sign_inks (hex_sign _ c)
              exact ((a'.trans b').trans c').trans (Text.sign_inks (hex_sign _ d))
          next => cases found
  next => cases found

theorem name_char_ink (char : Char) (isName : isNameChar char = true) :
    isInkChar char = true := by
  simp only [isNameChar, Bool.and_eq_true, Bool.not_eq_true'] at isName
  exact ink_of_visible char isName.1.2

theorem name_end_inks (text : String) (start : Nat) : Inks text start (nameEnd text start) := by
  have run (start : Nat) := Text.run_inks text isNameChar start name_char_ink
  fun_induction nameEnd text start with
  | case1 start plain => exact run start
  | case2 start plain stop found forward ih =>
      exact ((run start).trans (escape_inks text plain stop found).1).trans ih
  | case3 start plain => exact run start

theorem name_end_moves (text : String) (start : Nat) (opens : Text.isBoundary text start = true)
    (starts : startsName text start = true) : start < nameEnd text start := by
  rw [nameEnd]
  cases named : isNameChar (Text.charAt text start) with
  | true =>
      have moves := Text.run_moves text isNameChar start rfl named
      split
      next => exact moves
      next stop found =>
          split
          next forward => exact forward.1.trans_le (name_end_inks text stop).ordered
          next => exact moves
  | false =>
      have stays : Text.runEnd text isNameChar start = start := by
        rw [Text.runEnd]
        dsimp only
        rw [named, if_neg Bool.false_ne_true, ite_self]
      rw [startsName, isNameStart, named, Bool.false_and, Bool.false_or] at starts
      obtain ⟨stop, found⟩ := Option.isSome_iff_exists.mp starts
      obtain ⟨inks, filled⟩ := escape_inks text start stop found
      rw [stays, found]
      dsimp only
      rw [dif_pos ⟨filled, Text.boundary_le text stop (inks.closes opens)⟩]
      exact filled.trans_le (name_end_inks text stop).ordered

theorem digits_ink (text : String) (start : Nat) :
    Inks text start (Text.runEnd text isDigitChar start) := by
  refine Text.run_inks text isDigitChar start fun char digit => ?_
  rw [isDigitChar, Bool.or_eq_true, beq_iff_eq] at digit
  rcases digit with digit | rfl
  · exact (Bool.and_eq_true _ _ ▸ digit_sign char digit).2
  · decide

theorem sign_ink_of_eq (text : String) (start : Nat) (char : Char) (sign : isSign char = true)
    (here : (Text.charAt text start == char) = true) : Inks text start (start + 1) :=
  Text.sign_inks ((beq_iff_eq.mp here).symm ▸ sign)

theorem fraction_inks (text : String) (start : Nat) :
    Inks text start (if Text.charAt text start == '.' then
      Text.runEnd text isDigitChar (start + 1) else start) := by
  split
  next dot => exact (sign_ink_of_eq text start '.' (by decide) dot).trans (digits_ink text _)
  next => exact .refl text start

theorem exponent_inks (text : String) (start : Nat) :
    Inks text start
      (if Text.charAt text start == 'e' || Text.charAt text start == 'E' then
        Text.runEnd text isDigitChar
          (if Text.charAt text (start + 1) == '+' || Text.charAt text (start + 1) == '-' then
            start + 2 else start + 1)
      else if Text.charAt text start == 'n' then start + 1
      else start) := by
  split
  next power =>
      have first : Inks text start (start + 1) := by
        rcases Bool.or_eq_true _ _ ▸ power with lower | upper
        · exact sign_ink_of_eq text start 'e' (by decide) lower
        · exact sign_ink_of_eq text start 'E' (by decide) upper
      refine (first.trans ?_).trans (digits_ink text _)
      split
      next sign =>
          rcases Bool.or_eq_true _ _ ▸ sign with plus | minus
          · exact sign_ink_of_eq text _ '+' (by decide) plus
          · exact sign_ink_of_eq text _ '-' (by decide) minus
      next => exact .refl text _
  next =>
      split
      next big => exact sign_ink_of_eq text start 'n' (by decide) big
      next => exact .refl text start

theorem number_end_inks (text : String) (start : Nat)
    (starts : (Text.charAt text start).isDigit = true ∨ Text.charAt text start = '.') :
    Inks text start (numberEnd text start) ∧ start < numberEnd text start := by
  rw [numberEnd]
  dsimp only
  split
  next based =>
      obtain ⟨zero, letter⟩ := Bool.and_eq_true _ _ ▸ based
      have letters : ['x', 'X', 'o', 'O', 'b', 'B'].all isSign = true := by decide
      have first := sign_ink_of_eq text start '0' (by decide) zero
      have second := Text.sign_inks
        (List.all_eq_true.mp letters _ (List.contains_iff_mem.mp letter))
      have run := Text.run_inks text isNumberChar (start + 2) fun char number => by
        rw [isNumberChar, Bool.or_eq_true, beq_iff_eq] at number
        rcases number with letter | rfl
        · exact (Bool.and_eq_true _ _ ▸ letter_sign char letter).2
        · decide
      have order := run.ordered
      exact ⟨(first.trans second).trans run, by omega⟩
  next =>
      have whole := digits_ink text start
      have fraction := fraction_inks text (Text.runEnd text isDigitChar start)
      have moves : start < (if Text.charAt text (Text.runEnd text isDigitChar start) == '.' then
          Text.runEnd text isDigitChar (Text.runEnd text isDigitChar start + 1) else
          Text.runEnd text isDigitChar start) := by
        rcases Nat.eq_or_lt_of_le whole.ordered with same | further
        · rcases starts with digit | dot
          · have := Text.run_moves text isDigitChar start rfl (by rw [isDigitChar, digit]; rfl)
            omega
          · rw [← same, dot, if_pos (beq_self_eq_true '.')]
            exact (digits_ink text (start + 1)).ordered
        · exact further.trans_le fraction.ordered
      exact ⟨(whole.trans fraction).trans (exponent_inks text _),
        moves.trans_le (exponent_inks text _).ordered⟩

theorem string_end_inks (text : String) (quoteMark : Char) (sign : isSign quoteMark = true)
    (start stop : Nat) (found : stringEnd? text quoteMark start = some stop) :
    Inks text start stop ∧ start < stop := by
  fun_induction stringEnd? text quoteMark start with
  | case1 start inside char closes =>
      cases found
      exact ⟨sign_ink_of_eq text start quoteMark sign closes, Nat.lt_succ_self _⟩
  | case2 => cases found
  | case3 start inside char _ _ escaped next skipped ih =>
      obtain ⟨inks, filled⟩ := ih found
      have first := sign_ink_of_eq text start '\\' (by decide) escaped
      refine ⟨Passes.inks (first.toPasses.trans ?_) inks filled, by omega⟩
      have further : start + 1 < Text.size text := by
        by_contra ends
        rw [stringEnd?, if_neg] at found
        · cases found
        · change ¬ start + 1 + skipped < Text.size text
          omega
      dsimp only [skipped]
      split
      next pair =>
          obtain ⟨back, feed⟩ := Bool.and_eq_true _ _ ▸ pair
          have one := Text.char_passes further
          rw [show Text.charAt text (start + 1) = '\r' from beq_iff_eq.mp back] at one
          have two := Text.char_passes (Text.char_at_inside text (start + 2) '\n'
            (beq_iff_eq.mp feed) (by decide))
          rw [beq_iff_eq.mp feed] at two
          exact one.trans two
      next => exact Text.char_passes further
  | case4 start inside char _ _ _ ih =>
      obtain ⟨inks, filled⟩ := ih found
      have here := Text.char_passes inside
      exact ⟨here.inks inks filled, Nat.lt_of_le_of_lt here.ordered filled⟩
  | case5 => cases found

theorem signs_ink (text : String) (signs : List Char) (start : Nat)
    (all : signs.all isSign = true)
    (here : ∀ index char, signs[index]? = some char → Text.charAt text (start + index) = char) :
    Inks text start (start + signs.length) := by
  induction signs generalizing start with
  | nil => exact .refl text start
  | cons sign rest ih =>
      rw [List.all_cons, Bool.and_eq_true] at all
      have first : Inks text start (start + 1) := by
        refine Text.sign_inks ?_
        rw [show Text.charAt text start = sign from here 0 sign rfl]
        exact all.1
      have later := ih (start + 1) all.2 fun index char found => by
        rw [Nat.add_assoc, Nat.add_comm 1]
        exact here (index + 1) char found
      rw [Nat.add_assoc, Nat.add_comm 1] at later
      exact first.trans later

theorem marks_are_signs (mark : List Char) (member : mark ∈ marks) :
    mark ≠ [] ∧ mark.all isSign = true := by
  have all : marks.all (fun mark => !mark.isEmpty && mark.all isSign) = true := by decide
  have here := List.all_eq_true.mp all mark member
  rwa [Bool.and_eq_true, Bool.not_eq_true', List.isEmpty_eq_false_iff] at here

theorem mark_ahead (text : String) (start : Nat) (mark : List Char)
    (found : mark? text start = some mark) :
    mark <+: [Text.charAt text start, Text.charAt text (start + 1), Text.charAt text (start + 2),
      Text.charAt text (start + 3)] ∧ mark ≠ [] ∧ mark.all isSign = true := by
  rw [mark?] at found
  split at found
  next optional =>
      have holds := List.find?_some optional
      have ahead := List.isPrefixOf_iff_prefix.mp holds
      split at found
      next =>
          cases found
          exact ⟨.trans ⟨['.'], rfl⟩ ahead, by decide, by decide⟩
      next =>
          cases found
          exact ⟨ahead, by decide, by decide⟩
  next =>
      have holds := List.find?_some found
      exact ⟨List.isPrefixOf_iff_prefix.mp holds,
        marks_are_signs mark (List.mem_of_find?_eq_some found)⟩

theorem mark_inks (text : String) (start : Nat) (mark : List Char)
    (found : mark? text start = some mark) :
    Inks text start (start + mark.length) ∧ 0 < mark.length ∧
      isSign (Text.charAt text start) = true := by
  obtain ⟨ahead, filled, signs⟩ := mark_ahead text start mark found
  have here (index : Nat) (char : Char) (at' : mark[index]? = some char) :
      Text.charAt text (start + index) = char := by
    obtain ⟨more, whole⟩ := ahead
    have within : index < mark.length := (List.getElem?_eq_some_iff.mp at').1
    have same : (mark ++ more)[index]? = mark[index]? := List.getElem?_append_left within
    rw [whole, at'] at same
    rcases index with _ | _ | _ | _ | index
    · exact Option.some.inj same
    · exact Option.some.inj same
    · exact Option.some.inj same
    · exact Option.some.inj same
    · cases same
  refine ⟨signs_ink text mark start signs here, List.length_pos_iff.mpr filled, ?_⟩
  cases mark with
  | nil => exact absurd rfl filled
  | cons sign rest =>
      rw [List.all_cons, Bool.and_eq_true] at signs
      rw [show Text.charAt text start = sign from here 0 sign rfl]
      exact signs.1

theorem starting_at_lies (text : String) (start : Nat) (onNewLine : Bool) (token : Token)
    (opens : Text.isBoundary text start = true)
    (found : startingAt? text start onNewLine = some token) :
    token.span.start = start ∧ (token.shape ≠ .finish → token.Lies text) := by
  revert found
  fun_cases startingAt? text start onNewLine with
  | case1 =>
      rintro ⟨⟩
      exact ⟨rfl, fun more => absurd rfl more⟩
  | case2 _ starts stop =>
      rintro ⟨⟩
      exact ⟨rfl, fun _ => ⟨name_end_moves text start opens starts,
        name_end_inks text start, fun isMark => by cases isMark⟩⟩
  | case3 char _ _ starts =>
      rintro ⟨⟩
      have number := number_end_inks text start (by
        rcases Bool.or_eq_true _ _ ▸ starts with digit | dot
        · exact .inl digit
        · exact .inr (beq_iff_eq.mp (Bool.and_eq_true _ _ ▸ dot).1))
      exact ⟨rfl, fun _ => ⟨number.2, number.1, fun isMark => by cases isMark⟩⟩
  | case4 char _ _ _ quoted =>
      intro found
      obtain ⟨stop, ends, rfl⟩ := Option.map_eq_some_iff.mp found
      have sign : isSign char = true := by
        rcases Bool.or_eq_true _ _ ▸ quoted with double | single
        · exact (beq_iff_eq.mp double).symm ▸ by decide
        · exact (beq_iff_eq.mp single).symm ▸ by decide
      have rest := string_end_inks text char sign (start + 1) stop ends
      exact ⟨rfl, fun _ => ⟨Nat.lt_of_succ_lt rest.2,
        (Text.sign_inks sign).trans rest.1, fun isMark => by cases isMark⟩⟩
  | case5 char _ _ _ _ template =>
      rintro ⟨⟩
      exact ⟨rfl, fun _ => ⟨Nat.lt_succ_self _,
        sign_ink_of_eq text start '`' (by decide) template, fun isMark => by cases isMark⟩⟩
  | case6 char _ _ _ _ _ hidden stop =>
      rintro ⟨⟩
      obtain ⟨hash, starts⟩ := Bool.and_eq_true _ _ ▸ hidden
      have first := sign_ink_of_eq text start '#' (by decide) hash
      have moves := name_end_moves text (start + 1) (first.closes opens) starts
      exact ⟨rfl, fun _ => ⟨Nat.lt_of_succ_lt moves,
        first.trans (name_end_inks text (start + 1)), fun isMark => by cases isMark⟩⟩
  | case7 =>
      intro found
      obtain ⟨mark, ends, rfl⟩ := Option.map_eq_some_iff.mp found
      obtain ⟨inks, filled, sign⟩ := mark_inks text start mark ends
      exact ⟨rfl, fun _ => ⟨Nat.lt_add_of_pos_right filled, inks,
        fun _ => sign⟩⟩

theorem next_lies (text : String) (offset : Nat) (token : Token)
    (opens : Text.isBoundary text offset = true) (found : next? text offset = some token) :
    token.span.start = (gapAt text offset).stop ∧ (token.shape ≠ .finish → token.Lies text) :=
  starting_at_lies text _ _ token (gap_goes_on text offset opens).2.1 found

end Token

theorem automatic_end_lies (language : Language) (ending : Ending) (text : String)
    (start stop : Nat) (opens : Text.isBoundary text start = true)
    (before : Text.hasInkBefore text start = true)
    (found : automaticEnd? language ending text start = some stop) :
    start ≤ stop ∧ Text.isBoundary text stop = true ∧ Text.hasInkBefore text stop = true := by
  fun_induction automaticEnd? language ending text start with
  | case1 =>
      cases found
      exact ⟨Nat.le_refl _, opens, before⟩
  | case2 => cases found
  | case3 start _ next later comment forward ih =>
      have blanks := Text.run_passes text isBlank start
      obtain ⟨-, closes, -, ink⟩ := comment_ends text next later comment (blanks.closes opens)
      obtain ⟨order, boundary, last⟩ := ih closes ink found
      exact ⟨forward.1.le.trans order, boundary, last⟩
  | case4 => cases found

namespace Grammar

theorem escaped_passes (text : String) (start : Nat) (escaped : Text.charAt text start = '\\')
    (inside : start + 1 < Text.size text) :
    Passes text start (start + 1 + (Text.charAt text (start + 1)).utf8Size) := by
  have first : Inks text start (start + 1) := Text.sign_inks (by rw [escaped]; decide)
  exact first.toPasses.trans (Text.char_passes inside)

theorem template_stop_inks (text : String) (start stop : Nat) (isHole : Bool)
    (found : templateStop? text start = some (isHole, stop)) :
    Inks text start stop ∧ start < stop := by
  fun_induction templateStop? text start with
  | case1 start inside char closes =>
      cases found
      exact ⟨Token.sign_ink_of_eq text start '`' (by decide) closes, Nat.lt_succ_self _⟩
  | case2 start inside char _ escaped ih =>
      obtain ⟨inks, filled⟩ := ih found
      have further : start + 1 < Text.size text := by
        by_contra ends
        rw [templateStop?, if_neg] at found
        · cases found
        · change ¬ _ < Text.size text
          omega
      have here := escaped_passes text start (beq_iff_eq.mp escaped) further
      exact ⟨here.inks inks filled, here.ordered.trans_lt filled⟩
  | case3 start inside char _ _ opens =>
      cases found
      obtain ⟨dollar, brace⟩ := Bool.and_eq_true _ _ ▸ opens
      have first := Token.sign_ink_of_eq text start '$' (by decide) dollar
      exact ⟨first.trans (Token.sign_ink_of_eq text _ '\x7b' (by decide) brace), by omega⟩
  | case4 start inside char _ _ _ ih =>
      obtain ⟨inks, filled⟩ := ih found
      have here := Text.char_passes inside
      exact ⟨here.inks inks filled, here.ordered.trans_lt filled⟩
  | case5 => cases found

theorem regex_end_inks (text : String) (inClass : Bool) (start stop : Nat)
    (found : regexEnd? text inClass start = some stop) : Inks text start stop ∧ start < stop := by
  fun_induction regexEnd? text inClass start with
  | case1 => cases found
  | case2 => cases found
  | case3 inClass start inside char _ escaped next _ ih =>
      obtain ⟨inks, filled⟩ := ih found
      have further : start + 1 < Text.size text := by
        by_contra ends
        rw [regexEnd?, if_neg] at found
        · cases found
        · change ¬ _ < Text.size text
          omega
      have here := escaped_passes text start (beq_iff_eq.mp escaped) further
      exact ⟨here.inks inks filled, here.ordered.trans_lt filled⟩
  | case4 inClass start inside char _ _ closes =>
      cases found
      have slash := (Bool.and_eq_true _ _ ▸ closes).1
      exact ⟨Token.sign_ink_of_eq text start '/' (by decide) slash, Nat.lt_succ_self _⟩
  | case5 inClass start inside char _ _ _ ih =>
      obtain ⟨inks, filled⟩ := ih found
      have here := Text.char_passes inside
      exact ⟨here.inks inks filled, here.ordered.trans_lt filled⟩
  | case6 => cases found

end Grammar
end Source
end DeadExports
