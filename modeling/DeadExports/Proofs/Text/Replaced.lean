import DeadExports.Proofs.Text.Moved

set_option autoImplicit false

namespace DeadExports.Change

-- What changes in order make of the text behind an offset: each puts its replacement in the place
-- of what stands under its span, and everything between them stays.
inductive Makes : Nat → List Change → String → String → Prop where
  | rest (position : Nat) (text : String) : Makes position [] text text
  | change (position : Nat) (change : Change) (later : List Change) (kept gone rest edited : String)
      (opens : position + Text.size kept = change.span.start)
      (closes : change.span.start + Text.size gone = change.span.stop)
      (behind : Makes change.span.stop later rest edited) :
      Makes position (change :: later) (kept ++ (gone ++ rest))
      (kept ++ (change.replacement ++ edited))

theorem splice_makes (changes : List Change) (left right : String)
    (apart : changes.Pairwise fun a b => a.span.stop ≤ b.span.start)
    (stretches : ∀ change ∈ changes, change.span.IsStretch (left ++ right))
    (behind : ∀ change ∈ changes, Text.size left ≤ change.span.start) :
    ∃ edited, splice (left ++ right) (Text.size left) changes = some edited ∧
      Makes (Text.size left) changes right edited := by
  induction changes generalizing left right with
  | nil =>
      have slice := Text.slice_of_split left right ""
      rw [String.append_empty, ← Text.size_append] at slice
      exact ⟨right, slice, .rest _ right⟩
  | cons change later ih =>
      obtain ⟨here, apart⟩ := List.pairwise_cons.mp apart
      have below := behind change List.mem_cons_self
      obtain ⟨kept, gone, rest, rfl, opens, closes⟩ :=
        Text.stretch_split left right change.span (stretches change List.mem_cons_self) below
      have whole : left ++ (kept ++ (gone ++ rest)) = left ++ kept ++ gone ++ rest := by
        simp only [String.append_assoc]
      have place : Text.size (left ++ kept ++ gone) = change.span.stop := by
        simp only [Text.size_append]
        omega
      obtain ⟨edited, spliced, makes⟩ := ih (left ++ kept ++ gone) rest apart
        (fun other member => whole ▸ stretches other (List.mem_cons_of_mem _ member))
        (fun other member => place ▸ here other member)
      have slice := Text.slice_of_split left kept (gone ++ rest)
      rw [String.append_assoc, opens] at slice
      have fits : ¬ (change.span.start < Text.size left ∨
          Text.size (left ++ (kept ++ (gone ++ rest))) < change.span.stop) := by
        simp only [Text.size_append]
        omega
      rw [place] at spliced makes
      refine ⟨kept ++ (change.replacement ++ edited), ?_, .change _ change later kept gone rest
        edited opens closes makes⟩
      rw [splice, if_neg fits, slice, whole, spliced, ← String.append_assoc]
      rfl

theorem apply_all_makes (text : String) (changes : List Change)
    (apart : changes.Pairwise fun a b => a.span.stop ≤ b.span.start)
    (stretches : ∀ change ∈ changes, change.span.IsStretch text) :
    ∃ edited, applyAll? text changes = some edited ∧ Makes 0 changes text edited := by
  have sorted : inOrder changes = changes := by
    apply List.mergeSort_of_pairwise
    refine apart.imp_of_mem ?_
    intro a b inA inB order
    have first := (stretches a inA).ordered
    have second := (stretches b inB).ordered
    rw [Span.at_most_iff]
    omega
  have made := splice_makes changes "" text apart
    (fun change member => String.empty_append.symm ▸ stretches change member)
    (fun _ _ => Nat.zero_le _)
  rw [String.empty_append] at made
  rw [applyAll?, sorted]
  exact made

end DeadExports.Change
