import DeadExports.Proofs.Text.Boundary
import DeadExports.Text.Change

set_option autoImplicit false

namespace DeadExports

structure Span.IsStretch (text : String) (span : Span) : Prop where
  ordered : span.start ≤ span.stop
  opens : Text.isBoundary text span.start = true
  closes : Text.isBoundary text span.stop = true

theorem Span.IsPiece.stretch {text : String} {span : Span} (piece : span.IsPiece text) :
    span.IsStretch text :=
  ⟨Nat.le_of_lt piece.filled, piece.opens, piece.closes⟩

namespace Text

@[simp] theorem size_append (left right : String) : size (left ++ right) = size left + size right :=
  String.utf8ByteSize_append

theorem size_of_sublist (short long : List Char) (sublist : short.Sublist long) :
    size (String.ofList short) ≤ size (String.ofList long) := by
  induction sublist with
  | slnil => exact Nat.le_refl _
  | cons char _ ih =>
      rw [String.ofList_cons, size_append]
      exact Nat.le_add_left_of_le ih
  | cons_cons char _ ih =>
      rw [String.ofList_cons, String.ofList_cons, size_append, size_append]
      exact Nat.add_le_add_left ih _

theorem split_unique (left rest front back : String) (whole : left ++ rest = front ++ back)
    (order : size left ≤ size front) :
    ∃ middle, front = left ++ middle ∧ rest = middle ++ back := by
  have lists : left.toList ++ rest.toList = front.toList ++ back.toList := by
    rw [← String.toList_append, ← String.toList_append, whole]
  rcases List.append_eq_append_iff.mp lists with ⟨middle, front', rest'⟩ | ⟨middle, left', back'⟩
  · refine ⟨String.ofList middle, ?_, ?_⟩
    · rw [← String.toList_inj, String.toList_append, String.toList_ofList, front']
    · rw [← String.toList_inj, String.toList_append, String.toList_ofList, rest']
  · have longer : left = front ++ String.ofList middle := by
      rw [← String.toList_inj, String.toList_append, String.toList_ofList, left']
    have none : String.ofList middle = "" := by
      rw [longer, size_append] at order
      exact String.utf8ByteSize_eq_zero_iff.mp (by change size (String.ofList middle) = 0; omega)
    rw [none, String.append_empty] at longer
    obtain rfl := longer
    have same : rest = back := by
      rw [← String.toList_inj]
      exact List.append_cancel_left lists
    exact ⟨"", by rw [String.append_empty], by rw [same, String.empty_append]⟩

theorem boundary_between (left rest : String) (offset : Nat)
    (boundary : isBoundary (left ++ rest) offset = true) (behind : size left ≤ offset) :
    ∃ middle right, rest = middle ++ right ∧ size left + size middle = offset := by
  obtain ⟨front, back, whole, rfl⟩ := boundary_split (left ++ rest) offset boundary
  obtain ⟨middle, rfl, parts⟩ := split_unique left rest front back whole behind
  exact ⟨middle, back, parts, (size_append left middle).symm⟩

theorem position_of_boundary (text : String) (offset : Nat)
    (boundary : isBoundary text offset = true) :
    ∃ position, text.pos? ⟨offset⟩ = some position ∧ position.offset = ⟨offset⟩ := by
  have valid := String.Pos.Raw.isValid_eq_true_iff.mp boundary
  refine ⟨text.pos ⟨offset⟩ valid, ?_, rfl⟩
  rw [String.pos?, String.Slice.pos?,
    dif_pos (String.Pos.Raw.isValidForSlice_eq_true_iff.mpr valid.toSlice)]
  rfl

theorem slice_of_split (left middle right : String) :
    slice? (left ++ middle ++ right) (size left) (size left + size middle) = some middle := by
  have opens : isBoundary (left ++ middle ++ right) (size left) = true := by
    rw [String.append_assoc]
    exact boundary_of_split left (middle ++ right)
  have closes := boundary_of_split (left ++ middle) right
  rw [size_append] at closes
  obtain ⟨first, starts, here⟩ := position_of_boundary _ _ opens
  obtain ⟨last, stops, there⟩ := position_of_boundary _ _ closes
  simp only [slice?, starts, stops, Option.bind_eq_bind, Option.bind_some, Nat.le_add_right,
    if_true, Option.some.injEq]
  rw [← String.toByteArray_inj]
  change (left ++ middle ++ right).toByteArray.extract first.offset.byteIdx last.offset.byteIdx =
    middle.toByteArray
  have ends : size left + size middle = (left.toByteArray ++ middle.toByteArray).size :=
    ByteArray.size_append.symm
  rw [here, there, String.toByteArray_append, String.toByteArray_append, ends,
    ByteArray.extract_append_size_left]
  exact ByteArray.extract_append_eq_right rfl ByteArray.size_append

theorem stretch_split (left right : String) (span : Span) (stretch : span.IsStretch (left ++ right))
    (behind : size left ≤ span.start) :
    ∃ kept cut rest, right = kept ++ (cut ++ rest) ∧ size left + size kept = span.start ∧
      span.start + size cut = span.stop := by
  obtain ⟨kept, later, rfl, opens⟩ := boundary_between left right span.start stretch.opens behind
  have closes := stretch.closes
  have ordered := stretch.ordered
  rw [← String.append_assoc] at closes
  obtain ⟨cut, rest, rfl, stops⟩ := boundary_between (left ++ kept) later span.stop closes
    (by rw [size_append]; omega)
  rw [size_append] at stops
  exact ⟨kept, cut, rest, rfl, opens, by omega⟩

theorem piece_split (left right : String) (span : Span) (piece : span.IsPiece (left ++ right))
    (behind : size left ≤ span.start) :
    ∃ kept cut rest, right = kept ++ (cut ++ rest) ∧ size left + size kept = span.start ∧
      span.start + size cut = span.stop ∧ 0 < size cut := by
  obtain ⟨kept, cut, rest, whole, opens, closes⟩ :=
    stretch_split left right span piece.stretch behind
  have filled := piece.filled
  exact ⟨kept, cut, rest, whole, opens, closes, by omega⟩

end Text

structure Text.IsProperPart (part whole : String) : Prop where
  sublist : part.toList.Sublist whole.toList
  shorter : Text.size part < Text.size whole

structure Change.IsCut (text : String) (change : Change) : Prop where
  empties : change.replacement = ""
  piece : change.span.IsPiece text

theorem sorted_filled {α : Type} (le : α → α → Bool) (list : List α) (filled : list ≠ []) :
    list.mergeSort le ≠ [] := by
  intro none
  have length : (list.mergeSort le).length = list.length := List.length_mergeSort list
  rw [none] at length
  exact filled (List.length_eq_zero_iff.mp length.symm)

namespace Change

def LeavesPart (text : String) (changes : List Change) : Prop :=
  ∀ left right, text = left ++ right →
    ∃ edited, splice text (Text.size left) changes = some edited ∧
    edited.toList.Sublist right.toList

theorem splice_cut (left right : String) (change : Change) (later : List Change)
    (cut : change.IsCut (left ++ right)) (behind : Text.size left ≤ change.span.start)
    (goesOn : LeavesPart (left ++ right) later) :
    ∃ kept gone rest tail, right = kept ++ (gone ++ rest) ∧ 0 < Text.size gone ∧
      tail.toList.Sublist rest.toList ∧
      splice (left ++ right) (Text.size left) (change :: later) = some (kept ++ tail) := by
  obtain ⟨kept, gone, rest, rfl, starts, stops, filled⟩ := Text.piece_split left right change.span
    cut.piece behind
  have place : Text.size (left ++ kept ++ gone) = change.span.stop := by
    simp only [Text.size_append]
    omega
  obtain ⟨tail, spliced, sublist⟩ := goesOn (left ++ kept ++ gone) rest
    (by simp only [String.append_assoc])
  rw [place] at spliced
  refine ⟨kept, gone, rest, tail, rfl, filled, sublist, ?_⟩
  have slice := Text.slice_of_split left kept (gone ++ rest)
  rw [String.append_assoc, starts] at slice
  have fits : ¬ (change.span.start < Text.size left ∨ Text.size (left ++ (kept ++ (gone ++ rest))) <
      change.span.stop) := by
    simp only [Text.size_append]
    omega
  rw [splice, if_neg fits, slice, spliced, cut.empties]
  exact congrArg (fun front => some (front ++ tail)) String.append_empty

theorem splice_cuts (text : String) (changes : List Change)
    (cuts : ∀ change ∈ changes, change.IsCut text) :
    LeavesPart text changes := by
  induction changes with
  | nil =>
      rintro left right rfl
      refine ⟨right, ?_, List.Sublist.refl _⟩
      have slice := Text.slice_of_split left right ""
      rwa [String.append_empty, ← Text.size_append] at slice
  | cons change later ih =>
      rintro left right rfl
      have goesOn := ih fun other member => cuts other (List.mem_cons_of_mem _ member)
      by_cases behind : Text.size left ≤ change.span.start
      · obtain ⟨kept, gone, rest, tail, rfl, -, sublist, spliced⟩ :=
          splice_cut left right change later (cuts change List.mem_cons_self) behind goesOn
        refine ⟨kept ++ tail, spliced, ?_⟩
        simp only [String.toList_append]
        exact (List.Sublist.refl _).append (sublist.trans (List.sublist_append_right _ _))
      · obtain ⟨edited, spliced, sublist⟩ := goesOn left right rfl
        refine ⟨edited, ?_, sublist⟩
        rw [splice, if_pos (.inl (Nat.lt_of_not_le behind)), spliced]

theorem apply_all_cuts (text : String) (changes : List Change)
    (cuts : ∀ change ∈ changes, change.IsCut text) (filled : changes ≠ []) :
    ∃ edited, applyAll? text changes = some edited ∧ Text.IsProperPart edited text := by
  have ordered : ∀ change ∈ inOrder changes, change.IsCut text :=
    fun change member => cuts change (List.mem_mergeSort.mp member)
  rw [applyAll?]
  cases sorted : inOrder changes with
  | nil => exact absurd sorted (sorted_filled _ changes filled)
  | cons first later =>
      rw [sorted] at ordered
      have goesOn := splice_cuts text later fun other member =>
        ordered other (List.mem_cons_of_mem _ member)
      have empty : "" ++ text = text := String.empty_append
      obtain ⟨kept, gone, rest, tail, whole, some, sublist, spliced⟩ :=
        splice_cut "" text first later (empty.symm ▸ ordered first List.mem_cons_self)
          (Nat.zero_le _) (empty.symm ▸ goesOn)
      rw [empty] at spliced
      refine ⟨kept ++ tail, spliced, ?_, ?_⟩
      · rw [whole, String.toList_append, String.toList_append, String.toList_append]
        exact (List.Sublist.refl _).append (sublist.trans (List.sublist_append_right _ _))
      · have shorter := Text.size_of_sublist _ _ sublist
        rw [String.ofList_toList, String.ofList_toList] at shorter
        simp only [whole, Text.size_append]
        omega

end Change
end DeadExports
