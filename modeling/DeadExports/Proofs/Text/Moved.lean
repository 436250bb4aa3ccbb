import DeadExports.Proofs.Text.Widening
import Mathlib.Algebra.Ring.Nat

set_option autoImplicit false

namespace DeadExports

namespace Span

def Apart (a b : Span) : Prop := a.stop ≤ b.start ∨ b.stop ≤ a.start

theorem apart_symm (a b : Span) (apart : Apart a b) : Apart b a := Or.symm apart

theorem at_most_iff (a b : Span) :
    a.atMost b = true ↔ a.start < b.start ∨ (a.start = b.start ∧ a.stop ≤ b.stop) := by
  simp only [atMost, compare, bne_iff_ne, ne_eq, Ordering.then_eq_gt, not_or, not_and,
    compare_gt_iff_gt, compare_eq_iff_eq]
  omega

theorem at_most_trans (a b c : Span) (first : a.atMost b = true) (second : b.atMost c = true) :
    a.atMost c = true := by
  rw [at_most_iff] at *
  omega

theorem at_most_total (a b : Span) : (a.atMost b || b.atMost a) = true := by
  rw [Bool.or_eq_true, at_most_iff, at_most_iff]
  omega

end Span

namespace Text

theorem cut_iff (cuts : List Span) (place : Nat) :
    isCut cuts place = true ↔ ∃ cut ∈ cuts, cut.start ≤ place ∧ place < cut.stop := by
  simp only [isCut, List.any_eq_true, Span.contains_iff]

theorem moved_mono (cuts : List Span) (first last : Nat) (order : first ≤ last) :
    moved cuts first ≤ moved cuts last :=
  Nat.count_monotone _ order

theorem moved_lt (cuts : List Span) (first last : Nat) (stays : isCut cuts first = false)
    (order : first < last) :
    moved cuts first < moved cuts last := Nat.count_strict_mono stays order

theorem moved_succ (cuts : List Span) (offset : Nat) :
    moved cuts (offset + 1) = moved cuts offset + if isCut cuts offset = false then 1 else 0 :=
  Nat.count_succ _ offset

theorem moved_gap (cuts : List Span) (first last : Nat) (order : first ≤ last)
    (gone : ∀ place, first ≤ place → place < last → isCut cuts place = true) :
    moved cuts last = moved cuts first := by
  obtain ⟨length, rfl⟩ := Nat.exists_eq_add_of_le order
  rw [moved, Nat.count_add, ← moved, Nat.add_eq_left, Nat.count_iff_forall_not]
  intro place high
  rw [gone (first + place) (by omega) (by omega)]
  exact Bool.noConfusion

theorem moved_run (cuts : List Span) (first last : Nat) (order : first ≤ last)
    (whole : ∀ place, first ≤ place → place < last → isCut cuts place = false) :
    moved cuts last = moved cuts first + (last - first) := by
  obtain ⟨length, rfl⟩ := Nat.exists_eq_add_of_le order
  rw [moved, Nat.count_add, ← moved, Nat.add_sub_cancel_left, Nat.add_left_cancel_iff,
    Nat.count_iff_forall]
  exact fun place high => whole (first + place) (by omega) (by omega)

variable {text edited : String} {cuts : List Span}

theorem leaves_size (left : Leaves text cuts edited) : size edited = moved cuts (size text) := by
  rw [← bytes_length, left, kept_length text cuts _ (Nat.le_refl _)]

theorem byte_moved (left : Leaves text cuts edited) (place : Nat) (inside : place < size text)
    (stays : isCut cuts place = false) :
    (bytes edited)[moved cuts place]? = (bytes text)[place]? := by
  have run := kept_run text cuts place 1 fun other low high => by
    obtain rfl : other = place := by omega
    exact stays
  obtain ⟨rest, whole⟩ := kept_prefix text cuts (place + 1) (size text - (place + 1))
  rw [Nat.add_sub_cancel' inside] at whole
  have length := kept_length text cuts place inside.le
  have here : place < (bytes text).length := by rwa [bytes_length]
  rw [left, ← whole, run, List.append_assoc, ← length, List.getElem?_append_right (Nat.le_refl _),
    Nat.sub_self, List.drop_eq_getElem_cons here, List.take_succ_cons, List.take_zero,
    List.getElem?_eq_getElem here]
  rfl

theorem ink_moved (left : Leaves text cuts edited) (place : Nat) (ink : hasInk text place = true)
    (stays : isCut cuts place = false) : hasInk edited (moved cuts place) = true := by
  rw [hasInk, byte_at_eq, byte_moved left place (ink_inside text place ink) stays, ← byte_at_eq]
  exact ink

theorem moved_last (cuts : List Span) (stop : Nat) (filled : 0 < stop)
    (stays : isCut cuts (stop - 1) = false) :
    moved cuts stop - 1 = moved cuts (stop - 1) := by
  have step := moved_succ cuts (stop - 1)
  rw [if_pos stays, Nat.sub_add_cancel filled] at step
  omega

theorem moved_onto (left : Leaves text cuts edited) (offset : Nat) (inside : offset < size edited) :
    ∃ place, place < size text ∧ isCut cuts place = false ∧ moved cuts place = offset := by
  rw [leaves_size left] at inside
  generalize size text = last at inside ⊢
  induction last with
  | zero => exact absurd inside (Nat.not_lt_zero _)
  | succ last ih =>
      by_cases early : offset < moved cuts last
      · obtain ⟨place, before, found⟩ := ih early
        exact ⟨place, by omega, found⟩
      · rw [moved_succ] at inside
        split at inside
        next stays => exact ⟨last, Nat.lt_succ_self _, stays, by omega⟩
        next => omega

theorem moved_boundary (left : Leaves text cuts edited) (pieces : ∀ cut ∈ cuts, cut.IsPiece text)
    (offset : Nat) (boundary : isBoundary text offset = true) :
    isBoundary edited (moved cuts offset) = true := by
  -- from cut to cut, up to a character that stays
  by_cases last : offset = size text
  · rw [last, ← leaves_size left]
    exact boundary_size edited
  · have inside : offset < size text := by
      have := boundary_le text offset boundary
      omega
    cases stays : isCut cuts offset with
    | false =>
        have found := byte_moved left offset inside stays
        obtain ⟨byte, here⟩ : ∃ byte, (bytes text)[offset]? = some byte := by
          rw [← bytes_length] at inside
          exact ⟨_, List.getElem?_eq_getElem inside⟩
        obtain ⟨low, same⟩ := byte_at text offset byte here
        obtain ⟨low', same'⟩ := byte_at edited (moved cuts offset) byte (found.trans here)
        have valid := String.Pos.Raw.isValid_eq_true_iff.mp boundary
        rcases String.Pos.Raw.isValid_iff_isUTF8FirstByte.mp valid with ends | ⟨_, first⟩
        · exact absurd (congrArg String.Pos.Raw.byteIdx ends) last
        · refine String.Pos.Raw.isValid_eq_true_iff.mpr
            (String.Pos.Raw.isValid_iff_isUTF8FirstByte.mpr (.inr ⟨low', ?_⟩))
          rw [same', ← same]
          exact first
    | true =>
        obtain ⟨cut, member, starts, stops⟩ := (cut_iff cuts offset).mp stays
        have closes := (pieces cut member).closes
        have within := boundary_le text cut.stop closes
        rw [← moved_gap cuts offset cut.stop stops.le fun place low high =>
          (cut_iff cuts place).mpr ⟨cut, member, by omega, high⟩]
        exact moved_boundary left pieces cut.stop closes
termination_by size text - offset

theorem slice_between (text : String) (span : Span) (opens : isBoundary text span.start = true)
    (closes : isBoundary text span.stop = true) (order : span.start ≤ span.stop) :
    slice? text span.start span.stop = some (under text span) := by
  obtain ⟨first, starts, -⟩ := position_of_boundary text span.start opens
  obtain ⟨last, stops, -⟩ := position_of_boundary text span.stop closes
  simp [under, slice?, starts, stops, order]

theorem under_moved (left : Leaves text cuts edited) (pieces : ∀ cut ∈ cuts, cut.IsPiece text)
    (span : Span) (piece : span.IsPiece text)
    (whole : ∀ place, span.start ≤ place → place < span.stop → isCut cuts place = false) :
    under edited ⟨moved cuts span.start, moved cuts span.stop⟩ = under text span := by
  have order := piece.filled.le
  have within := boundary_le text span.stop piece.closes
  have opens := moved_boundary left pieces span.start piece.opens
  have closes := moved_boundary left pieces span.stop piece.closes
  have run := moved_run cuts span.start span.stop order whole
  have here := slice_bytes text _ span.start span.stop piece.opens piece.closes order
    (slice_between text span piece.opens piece.closes order)
  have there := slice_bytes edited _ _ _ opens closes (moved_mono cuts _ _ order)
    (slice_between edited ⟨moved cuts span.start, moved cuts span.stop⟩ opens closes
      (moved_mono cuts _ _ order))
  have keeps := kept_run text cuts span.start (span.stop - span.start) fun place low high =>
    whole place low (by omega)
  obtain ⟨rest, all⟩ := kept_prefix text cuts span.stop (size text - span.stop)
  rw [Nat.add_sub_cancel' order] at keeps
  rw [Nat.add_sub_cancel' within] at all
  have length := kept_length text cuts span.start (by omega)
  have size : (((bytes text).drop span.start).take (span.stop - span.start)).length = span.stop -
      span.start := by
    rw [List.length_take, List.length_drop, bytes_length]
    omega
  have amount : moved cuts span.start + (span.stop - span.start) - moved cuts span.start =
      (((bytes text).drop span.start).take (span.stop - span.start)).length := by omega
  have same : bytes (under edited ⟨moved cuts span.start, moved cuts span.stop⟩) =
      bytes (under text span) := by
    rw [there, here, left, ← all, keeps, List.append_assoc, run, ← length, List.drop_left, length,
      amount, List.take_left]
  rw [bytes_eq, bytes_eq] at same
  exact String.toByteArray_inj.mp (ByteArray.ext (Array.toList_inj.mp same))

theorem moved_cons (cut : Span) (cuts : List Span) (order : cut.start ≤ cut.stop)
    (apart : ∀ other ∈ cuts, Span.Apart cut other) (offset : Nat) :
    moved cuts offset = moved (cut :: cuts) offset +
      (min offset cut.stop - min offset cut.start) := by
  induction offset with
  | zero => simp [moved]
  | succ offset ih =>
      rw [moved_succ, moved_succ, ih]
      by_cases covers : cut.start ≤ offset ∧ offset < cut.stop
      · have free : isCut cuts offset = false := by
          rw [not_cut_iff]
          intro other member starts
          rcases apart other member with before | after <;> omega
        have gone : isCut (cut :: cuts) offset = true := (cut_iff _ _).mpr ⟨cut,
          List.mem_cons_self, covers⟩
        rw [if_pos free, if_neg (by simp [gone])]
        omega
      · have same : isCut (cut :: cuts) offset = isCut cuts offset := by
          have outside : cut.contains offset = false := by
            rw [← Bool.not_eq_true, Span.contains_iff]
            exact covers
          rw [isCut, List.any_cons, outside, Bool.false_or, ← isCut]
        rw [same]
        omega

theorem moved_lengths (cuts : List Span) (apart : cuts.Pairwise Span.Apart) (last : Nat)
    (inside : ∀ cut ∈ cuts, cut.start ≤ cut.stop ∧ cut.stop ≤ last) :
    moved cuts last + (cuts.map Span.length).sum = last := by
  induction cuts with
  | nil => simp [moved, isCut]
  | cons cut rest ih =>
      obtain ⟨here, later⟩ := List.pairwise_cons.mp apart
      obtain ⟨order, within⟩ := inside cut List.mem_cons_self
      have sum := ih later fun other member => inside other (List.mem_cons_of_mem _ member)
      have one := moved_cons cut rest order here last
      rw [List.map_cons, List.sum_cons, Span.length]
      omega

theorem kept_congr (text : String) (cuts others : List Span)
    (same : ∀ place, isCut cuts place = isCut others place) (offset : Nat) :
    kept text cuts offset = kept text others offset := by
  induction offset with
  | zero => rfl
  | succ offset ih => rw [kept, kept, ih, same]

end Text

namespace Change

theorem made_all (text : String) (position : Nat) (changes : List Change)
    (apart : changes.Pairwise fun a b => a.span.stop ≤ b.span.start)
    (inside : ∀ change ∈ changes, position ≤ change.span.start ∧ change.span.stop ≤
      Text.size text) :
    made text position changes = changes.map Change.span := by
  induction changes generalizing position with
  | nil => rfl
  | cons change rest ih =>
      obtain ⟨here, later⟩ := List.pairwise_cons.mp apart
      have fits := inside change List.mem_cons_self
      rw [made, if_neg (by omega), List.map_cons]
      rw [ih change.span.stop later fun other member =>
        ⟨here other member, (inside other (List.mem_cons_of_mem _ member)).2⟩]

theorem in_order_sorted (changes : List Change) :
    (inOrder changes).Pairwise fun a b => a.span.atMost b.span = true :=
  List.pairwise_mergeSort (fun a b c => Span.at_most_trans a.span b.span c.span)
    (fun a b => Span.at_most_total a.span b.span) changes

theorem taken_all (text : String) (changes : List Change)
    (cuts : ∀ change ∈ changes, change.IsCut text)
    (apart : (changes.map Change.span).Pairwise Span.Apart) :
    (taken text changes).Perm (changes.map Change.span) := by
  have sorted := in_order_sorted changes
  have same : (inOrder changes).Perm changes := List.mergeSort_perm _ _
  have spread : ((inOrder changes).map Change.span).Pairwise Span.Apart :=
    (same.map Change.span).symm.pairwise apart (fun {a b} => Span.apart_symm a b)
  rw [List.pairwise_map] at spread
  have pieces : ∀ change ∈ inOrder changes, change.span.IsPiece text :=
    fun change member => (cuts change (same.mem_iff.mp member)).piece
  have row : (inOrder changes).Pairwise fun a b => a.span.stop ≤ b.span.start := by
    refine (sorted.and spread).imp_of_mem ?_
    rintro a b inA inB ⟨order, apart⟩
    have filledA := (pieces a inA).filled
    have filledB := (pieces b inB).filled
    rw [Span.at_most_iff] at order
    rcases apart with before | after <;> omega
  rw [taken, made_all text 0 _ row fun change member =>
    ⟨Nat.zero_le _, Text.boundary_le text _ (pieces change member).closes⟩]
  exact same.map Change.span

theorem apply_all_apart (text : String) (changes : List Change)
    (cuts : ∀ change ∈ changes, change.IsCut text)
    (apart : (changes.map Change.span).Pairwise Span.Apart) :
    ∃ edited, applyAll? text changes = some edited ∧
      Text.Leaves text (changes.map Change.span) edited ∧
      Text.size edited + ((changes.map Change.span).map Span.length).sum = Text.size text := by
  obtain ⟨edited, applied, -⟩ := splice_cuts text (inOrder changes)
    (fun change member => cuts change (List.mem_mergeSort.mp member)) "" text
    String.empty_append.symm
  have taken := taken_all text changes cuts apart
  have left : Text.Leaves text (changes.map Change.span) edited := by
    have kept := apply_all_kept text changes cuts edited applied
    rw [Text.Leaves] at kept ⊢
    rw [kept]
    refine Text.kept_congr text _ _ (fun place => ?_) _
    exact taken.any_eq
  refine ⟨edited, applied, left, ?_⟩
  rw [Text.leaves_size left]
  refine Text.moved_lengths _ apart _ ?_
  intro cut member
  obtain ⟨change, among, rfl⟩ := List.mem_map.mp member
  exact ⟨(cuts change among).piece.filled.le, Text.boundary_le text _
    (cuts change among).piece.closes⟩

end Change
end DeadExports
