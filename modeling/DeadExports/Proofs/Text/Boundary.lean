import DeadExports.Text.Line

set_option autoImplicit false

namespace DeadExports

namespace Text

theorem byte_list_loop (array : ByteArray) (index : Nat) (before : List UInt8) :
    ByteArray.toList.loop array index before = before.reverse ++ array.data.toList.drop index := by
  fun_induction ByteArray.toList.loop array index before with
  | case1 index before inside ih =>
      have here : index < array.data.toList.length := inside
      have byte : array.get! index = array.data.toList.get ⟨index, here⟩ := by
        change array.data[index]! = _
        rw [getElem!_pos array.data index inside]
        rfl
      rw [ih, List.drop_eq_getElem_cons here, List.reverse_cons, List.append_assoc, byte]
      rfl
  | case2 index before outside =>
      rw [List.drop_eq_nil_of_le (Nat.le_of_not_lt outside), List.append_nil]

theorem bytes_eq (text : String) : bytes text = text.toByteArray.data.toList := by
  rw [bytes, ByteArray.toList, byte_list_loop]
  rfl

theorem bytes_length (text : String) : (bytes text).length = size text := by
  rw [bytes_eq]
  rfl

theorem byte_at (text : String) (offset : Nat) (byte : UInt8)
    (found : (bytes text)[offset]? = some byte) :
    ∃ inside : (⟨offset⟩ : String.Pos.Raw) < text.rawEndPos,
      text.getUTF8Byte ⟨offset⟩ inside = byte := by
  obtain ⟨inside, same⟩ := List.getElem?_eq_some_iff.mp found
  rw [bytes_length] at inside
  refine ⟨inside, ?_⟩
  rw [← same]
  simp only [bytes_eq]
  rfl

def isPlain (byte : UInt8) : Bool := byte &&& 128 == 0

theorem plain_first (byte : UInt8) (plain : isPlain byte = true) : byte.IsUTF8FirstByte :=
  .inl (beq_iff_eq.mp plain)

theorem boundary_le (text : String) (offset : Nat) (boundary : isBoundary text offset = true) :
    offset ≤ size text :=
  (String.Pos.Raw.isValid_eq_true_iff.mp boundary).le_utf8ByteSize

theorem boundary_split (text : String) (offset : Nat) (boundary : isBoundary text offset = true) :
    ∃ left right, text = left ++ right ∧ size left = offset := by
  obtain ⟨left, right, whole, ends⟩ :=
    String.Pos.Raw.isValid_iff_exists_append.mp (String.Pos.Raw.isValid_eq_true_iff.mp boundary)
  exact ⟨left, right, whole, (congrArg String.Pos.Raw.byteIdx ends).symm⟩

theorem boundary_of_split (left right : String) : isBoundary (left ++ right) (size left) = true :=
  String.Pos.Raw.isValid_eq_true_iff.mpr
    (String.Pos.Raw.isValid_iff_exists_append.mpr ⟨left, right, rfl, rfl⟩)

theorem boundary_at_plain (text : String) (offset : Nat) (byte : UInt8)
    (found : (bytes text)[offset]? = some byte) (plain : isPlain byte = true) :
    isBoundary text offset = true := by
  obtain ⟨inside, rfl⟩ := byte_at text offset byte found
  exact String.Pos.Raw.isValid_eq_true_iff.mpr
    (String.Pos.Raw.isValid_iff_isUTF8FirstByte.mpr (.inr ⟨inside, plain_first _ plain⟩))

theorem boundary_behind_plain (text : String) (offset : Nat) (byte : UInt8)
    (found : (bytes text)[offset]? = some byte) (plain : isPlain byte = true) :
    isBoundary text (offset + 1) = true := by
  have valid := String.Pos.Raw.isValid_eq_true_iff.mp
    (boundary_at_plain text offset byte found plain)
  obtain ⟨inside, rfl⟩ := byte_at text offset byte found
  let here : text.Pos := text.pos ⟨offset⟩ valid
  have notEnd : here ≠ text.endPos := by
    intro same
    have ends : (⟨offset⟩ : String.Pos.Raw) = text.rawEndPos := congrArg String.Pos.offset same
    rw [ends] at inside
    exact Nat.lt_irrefl _ inside
  have byte : here.byte notEnd = text.getUTF8Byte ⟨offset⟩ inside := by
    simp [here, String.Pos.byte, String.Slice.Pos.byte, String.Slice.getUTF8Byte]
  have width : (here.get notEnd).utf8Size = 1 := by
    rw [← String.Pos.utf8ByteSize_byte]
    simp only [byte, UInt8.utf8ByteSize, if_pos (beq_iff_eq.mp plain)]
  have next := (here.next notEnd).isValid
  have place : (here.next notEnd).offset = ⟨offset + 1⟩ := by
    refine String.Pos.Raw.ext ?_
    rw [String.Pos.byteIdx_offset_next, width]
    rfl
  exact String.Pos.Raw.isValid_eq_true_iff.mpr (place ▸ next)

theorem run_byte (accept : UInt8 → Bool) (list : List UInt8) (index : Nat)
    (inside : index < (list.takeWhile accept).length) :
    ∃ byte, list[index]? = some byte ∧ accept byte = true := by
  obtain ⟨rest, whole⟩ := List.takeWhile_prefix (l := list) accept
  refine ⟨(list.takeWhile accept).get ⟨index, inside⟩, ?_, List.all_eq_true.mp List.all_takeWhile _
    (List.get_mem _ _)⟩
  rw [← congrArg (·[index]?) whole, List.getElem?_append_left inside]
  exact List.getElem?_eq_getElem inside

theorem blank_plain (byte : UInt8) (blank : isBlankByte byte = true) : isPlain byte = true := by
  rw [isBlankByte, Bool.or_eq_true, beq_iff_eq, beq_iff_eq] at blank
  rcases blank with rfl | rfl <;> rfl

theorem skip_blanks_le (text : String) (offset : Nat) :
    offset ≤ skipBlanks text offset := Nat.le_add_right _ _

theorem skip_blanks_boundary (text : String) (offset : Nat)
    (boundary : isBoundary text offset = true) :
    isBoundary text (skipBlanks text offset) = true := by
  rw [skipBlanks]
  cases count : (((bytes text).drop offset).takeWhile isBlankByte).length with
  | zero => exact boundary
  | succ last =>
      obtain ⟨byte, found, blank⟩ := run_byte isBlankByte ((bytes text).drop offset) last (by omega)
      rw [List.getElem?_drop] at found
      exact boundary_behind_plain text (offset + last) byte found (blank_plain byte blank)

theorem skip_blanks_back_le (text : String) (offset : Nat) :
    skipBlanksBack text offset ≤ offset := Nat.sub_le _ _

theorem skip_blanks_back_boundary (text : String) (offset : Nat)
    (boundary : isBoundary text offset = true) :
    isBoundary text (skipBlanksBack text offset) = true := by
  rw [skipBlanksBack]
  cases count : (((bytes text).take offset).reverse.takeWhile isBlankByte).length with
  | zero => exact boundary
  | succ last =>
      obtain ⟨byte, found, blank⟩ := run_byte isBlankByte ((bytes text).take offset).reverse last
        (by omega)
      have within := boundary_le text offset boundary
      have length : ((bytes text).take offset).length = offset := by
        rw [List.length_take, bytes_length]
        omega
      obtain ⟨here, -⟩ := List.getElem?_eq_some_iff.mp found
      rw [List.length_reverse, length] at here
      rw [List.getElem?_reverse (by omega), length, List.getElem?_take_of_lt (by omega)] at found
      have place : offset - 1 - last = offset - (last + 1) := by omega
      rw [place] at found
      exact boundary_at_plain text _ byte found (blank_plain byte blank)

theorem line_break_plain (list : List UInt8) (length : Nat)
    (found : lineBreak? list = some (length + 1)) :
    ∃ byte, list[length]? = some byte ∧ isPlain byte = true := by
  have feedPlain (byte : UInt8) (feed : (byte == lineFeed) = true) : isPlain byte = true := by
    rw [beq_iff_eq.mp feed]
    rfl
  have returnPlain (byte : UInt8) (back : (byte == carriageReturn) = true) :
      isPlain byte = true := by
    rw [beq_iff_eq.mp back]
    rfl
  revert found
  fun_cases lineBreak? list with
  | case1 => exact fun found => nomatch found
  | case2 byte _ feed =>
      rintro ⟨⟩
      exact ⟨byte, rfl, feedPlain byte feed⟩
  | case3 byte _ back =>
      rintro ⟨⟩
      exact ⟨byte, rfl, returnPlain byte back⟩
  | case4 _ _ _ next _ feed =>
      rintro ⟨⟩
      exact ⟨next, rfl, feedPlain next feed⟩
  | case5 => exact fun found => nomatch found
  | case6 => exact fun found => nomatch found

theorem line_rest_boundary (text : String) (offset count : Nat)
    (boundary : isBoundary text offset = true)
    (found : lineRest? ((bytes text).drop offset) = some count) :
    isBoundary text (offset + count) = true := by
  obtain ⟨length, breaks, rfl⟩ := Option.map_eq_some_iff.mp found
  rw [← Nat.add_assoc, ← skipBlanks]
  cases length with
  | zero => exact skip_blanks_boundary text offset boundary
  | succ length =>
      obtain ⟨byte, here, plain⟩ := line_break_plain _ length breaks
      rw [List.drop_drop, List.getElem?_drop] at here
      exact boundary_behind_plain text _ byte here plain

end Text

structure Span.IsPiece (text : String) (span : Span) : Prop where
  filled : span.start < span.stop
  opens : Text.isBoundary text span.start = true
  closes : Text.isBoundary text span.stop = true

namespace Text

theorem line_extent_start (text : String) (span : Span) :
    (lineExtent text span).start = span.start ∨ (lineExtent text span).start = skipBlanksBack text
      span.start := by
  cases found : indentation? ((bytes text).take span.start).reverse with
  | none => exact .inl (by simp [lineExtent, found])
  | some blanks =>
      refine .inr ?_
      have count : blanks = (((bytes text).take span.start).reverse.takeWhile
          isBlankByte).length := by
        rw [indentation?] at found
        split at found
        next => exact (Option.some.inj found).symm
        next =>
            split at found
            next => exact (Option.some.inj found).symm
            next => cases found
      simp only [lineExtent, found, Option.getD_some, skipBlanksBack, count]

theorem line_extent_opens (text : String) (span : Span)
    (boundary : isBoundary text span.start = true) :
    isBoundary text (lineExtent text span).start = true := by
  rcases line_extent_start text span with same | back
  · exact same ▸ boundary
  · exact back ▸ skip_blanks_back_boundary text span.start boundary

theorem line_extent_closes (text : String) (span : Span)
    (boundary : isBoundary text span.stop = true) :
    isBoundary text (lineExtent text span).stop = true := by
  cases found : lineRest? ((bytes text).drop span.stop) with
  | none => simpa only [lineExtent, found, Option.getD_none, Nat.add_zero] using boundary
  | some count =>
      simpa only [lineExtent, found, Option.getD_some] using line_rest_boundary text span.stop count
        boundary found

theorem line_extent_piece (text : String) (span : Span) (piece : span.IsPiece text) :
    (lineExtent text span).IsPiece text where
  filled := by
    have opens : (lineExtent text span).start ≤ span.start := Nat.sub_le _ _
    have closes : span.stop ≤ (lineExtent text span).stop := Nat.le_add_right _ _
    have := piece.filled
    omega
  opens := line_extent_opens text span piece.opens
  closes := line_extent_closes text span piece.closes

theorem own_line_piece (text : String) (span line : Span) (piece : span.IsPiece text)
    (own : ownLine? text span = some line) :
    line.IsPiece text := by
  rw [ownLine?] at own
  split at own
  next =>
      cases own
      exact line_extent_piece text span piece
  next => cases own

end Text

end DeadExports
