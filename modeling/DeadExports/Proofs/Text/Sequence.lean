import DeadExports.Proofs.Text.Replaced

set_option autoImplicit false

namespace DeadExports

theorem Span.before_iff (a b : Span) :
    a.before b = true ↔ a.start < b.start ∨ (a.start = b.start ∧ a.stop < b.stop) := by
  simp only [before, compare, beq_iff_eq, Ordering.then_eq_lt, compare_lt_iff_lt, compare_eq_iff_eq]

namespace Change

def make? (text : String) (change : Change) : Option String := do
  let front ← Text.slice? text 0 change.span.start
  let back ← Text.slice? text change.span.stop (Text.size text)
  some (front ++ change.replacement ++ back)

def makeEach (text : String) : List Change → Option String
  | [] => some text
  | change :: rest => (make? text change).bind fun edited => makeEach edited rest

theorem make_each_append (text : String) (first later : List Change) :
    makeEach text (first ++ later) = (makeEach text first).bind fun edited =>
      makeEach edited later := by
  induction first generalizing text with
  | nil => rfl
  | cons change rest ih =>
      rw [List.cons_append, makeEach, makeEach, Option.bind_assoc]
      congr 1
      funext edited
      exact ih edited

theorem make_of_split (change : Change) (left gone rest : String)
    (opens : Text.size left = change.span.start)
    (closes : change.span.start + Text.size gone = change.span.stop) :
    make? (left ++ gone ++ rest) change = some (left ++ change.replacement ++ rest) := by
  have front : Text.slice? (left ++ gone ++ rest) 0 change.span.start = some left := by
    have slice := Text.slice_of_split "" left (gone ++ rest)
    rwa [String.empty_append, ← String.append_assoc, show Text.size "" = 0 from rfl, Nat.zero_add,
      opens] at slice
  have back : Text.slice? (left ++ gone ++ rest) change.span.stop (Text.size
      (left ++ gone ++ rest)) = some rest := by
    have slice := Text.slice_of_split (left ++ gone) rest ""
    rwa [String.append_empty, ← Text.size_append, Text.size_append left gone, opens, closes]
      at slice
  rw [make?, front, back]
  rfl

-- Made from the last to the first, no change moves what an earlier one stands on: the text up to
-- each span is still the first one when its turn comes.
theorem makes_each (position : Nat) (changes : List Change) (left right edited : String)
    (makes : Makes position changes right edited) (place : Text.size left = position) :
    makeEach (left ++ right) changes.reverse = some (left ++ edited) := by
  induction makes generalizing left with
  | rest position text => rfl
  | change position change later kept gone rest edited opens closes _ ih =>
      have stops : Text.size (left ++ kept ++ gone) = change.span.stop := by
        simp only [Text.size_append]
        omega
      have starts : Text.size (left ++ kept) = change.span.start := by
        rw [Text.size_append]
        omega
      have behind := ih (left ++ kept ++ gone) stops
      have alone := make_of_split change (left ++ kept) gone edited starts closes
      rw [List.reverse_cons, make_each_append]
      simp only [String.append_assoc] at behind alone ⊢
      rw [behind, Option.bind_some, makeEach, alone]
      rfl

-- Of changes that stand in order, those that are made: one that starts before the end of the last
-- one kept, or ends past the text, is dropped.
def admitted (text : String) : Nat → List Change → List Change
  | _, [] => []
  | position, change :: rest =>
    if change.span.start < position ∨ Text.size text < change.span.stop
      then admitted text position rest
    else change :: admitted text change.span.stop rest

theorem admitted_sublist (text : String) (position : Nat) (changes : List Change) :
    (admitted text position changes).Sublist changes := by
  induction changes generalizing position with
  | nil => exact .slnil
  | cons change rest ih =>
      rw [admitted]
      split
      next => exact (ih position).cons change
      next => exact (ih change.span.stop).cons_cons change

theorem splice_admitted (text : String) (position : Nat) (changes : List Change) :
    splice text position (admitted text position changes) = splice text position changes := by
  induction changes generalizing position with
  | nil => rfl
  | cons change rest ih =>
      rw [admitted, splice]
      split
      next => exact ih position
      next fits => rw [splice, if_neg fits, ih change.span.stop]

theorem in_order_perm (changes other : List Change) (distinct : (changes.map Change.span).Nodup)
    (same : other.Perm changes) :
    inOrder other = inOrder changes := by
  have perm : (inOrder other).Perm (inOrder changes) :=
    (List.mergeSort_perm other _).trans (same.trans (List.mergeSort_perm changes _).symm)
  refine perm.eq_of_pairwise ?_ (in_order_sorted other) (in_order_sorted changes)
  intro a b inA inB before behind
  have spans : a.span = b.span := by
    rw [Span.at_most_iff] at before behind
    rcases a with ⟨⟨_, _⟩, _⟩
    rcases b with ⟨⟨_, _⟩, _⟩
    simp only [Span.mk.injEq] at before behind ⊢
    omega
  exact List.inj_on_of_nodup_map distinct (same.mem_iff.mp (List.mem_mergeSort.mp inA))
    (List.mem_mergeSort.mp inB) spans

-- Different spans that share no byte stand one behind the other once they are in order; an empty
-- one comes before what starts at the same place.
theorem in_order_row (text : String) (changes : List Change)
    (apart : changes.Pairwise fun a b => a.span ≠ b.span ∧ a.span.overlaps b.span = false)
    (stretches : ∀ change ∈ changes, change.span.IsStretch text) :
    (inOrder changes).Pairwise fun a b => a.span.stop ≤ b.span.start ∧ a.span.before b.span =
      true := by
  have same : (inOrder changes).Perm changes := List.mergeSort_perm _ _
  have spread := same.symm.pairwise apart fun {a b} both =>
    ⟨both.1.symm, by rw [← both.2, Span.overlaps, Span.overlaps, Bool.and_comm]⟩
  refine ((in_order_sorted changes).and spread).imp_of_mem ?_
  rintro a b inA inB ⟨order, distinct, clear⟩
  have first := (stretches a (same.mem_iff.mp inA)).ordered
  have second := (stretches b (same.mem_iff.mp inB)).ordered
  have strict : a.span.before b.span = true := by
    rw [Span.before_iff]
    rw [Span.at_most_iff] at order
    by_contra equal
    apply distinct
    rcases a with ⟨⟨_, _⟩, _⟩
    rcases b with ⟨⟨_, _⟩, _⟩
    simp only [Span.mk.injEq] at order equal ⊢
    omega
  refine ⟨?_, strict⟩
  rw [Span.before_iff] at strict
  simp only [Span.overlaps, Bool.and_eq_false_iff, decide_eq_false_iff_not] at clear
  omega

-- Changes of different stretches that share no byte are all made, in whatever order they are
-- listed, and leave what they leave when they are made one by one from the last to the first. Of
-- any other changes some are dropped: those made are the ones that, taken in order, lie in the text
-- and start behind the last one kept.
theorem changes_at_once (text : String) (changes : List Change) :
    ((changes.Pairwise fun a b => a.span ≠ b.span ∧ a.span.overlaps b.span = false) →
      (∀ change ∈ changes, change.span.IsStretch text) →
      ∃ edited, applyAll? text changes = some edited ∧
        (∃ ordered, ordered.Perm changes ∧
          (ordered.Pairwise fun a b => b.span.before a.span = true) ∧
          makeEach text ordered = some edited) ∧
        ∀ other, other.Perm changes → applyAll? text other = some edited) ∧
    applyAll? text changes = applyAll? text (admitted text 0 (inOrder changes)) := by
  refine ⟨fun apart stretches => ?_, ?_⟩
  · have same : (inOrder changes).Perm changes := List.mergeSort_perm _ _
    have row := in_order_row text changes apart stretches
    have distinct : (changes.map Change.span).Nodup := List.pairwise_map.mpr (apart.imp And.left)
    obtain ⟨edited, applied, makes⟩ := apply_all_makes text (inOrder changes) (row.imp And.left)
      fun change member => stretches change (same.mem_iff.mp member)
    have each := makes_each 0 (inOrder changes) "" text edited makes rfl
    rw [String.empty_append, String.empty_append] at each
    have permuted (other : List Change) (perm : other.Perm changes) :
        applyAll? text other = some edited := by
      rw [← applied, applyAll?, applyAll?, in_order_perm changes other distinct perm,
        in_order_perm changes (inOrder changes) distinct same]
    refine ⟨edited, permuted changes (.refl changes), ⟨(inOrder changes).reverse, ?_, ?_, each⟩,
      permuted⟩
    · exact (List.reverse_perm _).trans same
    · exact List.pairwise_reverse.mpr (row.imp And.right)
  · have kept : inOrder (admitted text 0 (inOrder changes)) = admitted text 0 (inOrder changes) :=
      List.mergeSort_of_pairwise
        ((in_order_sorted changes).sublist (admitted_sublist text 0 (inOrder changes)))
    rw [applyAll?, applyAll?, kept, splice_admitted]

def touching : List Change := [⟨⟨4, 5⟩, "x"⟩, ⟨⟨3, 3⟩, ">"⟩, ⟨⟨1, 3⟩, "e"⟩, ⟨⟨1, 1⟩, "<"⟩]

theorem touching_are_made :
    (touching.Pairwise fun a b => a.span ≠ b.span ∧ a.span.overlaps b.span = false) ∧
    (∀ change ∈ touching, change.span.IsStretch "aé123") ∧
    applyAll? "aé123" touching = some "a<e>1x3" ∧
    (∃ ordered, ordered.Perm touching ∧ (ordered.Pairwise fun a b => b.span.before a.span = true) ∧
      makeEach "aé123" ordered = some "a<e>1x3") ∧
    ∀ other, other.Perm touching → applyAll? "aé123" other = some "a<e>1x3" := by
  have apart : touching.Pairwise fun a b => a.span ≠ b.span ∧
    a.span.overlaps b.span = false := by decide
  have placed : ∀ change ∈ touching, change.span.start ≤ change.span.stop ∧
      Text.isBoundary "aé123" change.span.start = true ∧ Text.isBoundary "aé123" change.span.stop =
      true := by
    decide +kernel
  have stretches : ∀ change ∈ touching, change.span.IsStretch "aé123" := fun change member =>
    ⟨(placed change member).1, (placed change member).2.1, (placed change member).2.2⟩
  have ordered : inOrder touching = touching.reverse := calc
    inOrder touching = inOrder touching.reverse :=
      (in_order_perm touching touching.reverse (by decide) (List.reverse_perm touching)).symm
    _ = touching.reverse := List.mergeSort_of_pairwise (by decide)
  have applied : applyAll? "aé123" touching = some "a<e>1x3" := by
    rw [applyAll?, ordered]
    decide +kernel
  obtain ⟨edited, made, each, permuted⟩ := (changes_at_once "aé123" touching).1 apart stretches
  obtain rfl := Option.some.inj (made.symm.trans applied)
  exact ⟨apart, stretches, applied, each, permuted⟩

end Change
end DeadExports
