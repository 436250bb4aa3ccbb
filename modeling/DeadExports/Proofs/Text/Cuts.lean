import DeadExports.Proofs.Text.Splice
import Mathlib.Data.Nat.Count

set_option autoImplicit false

namespace DeadExports

namespace Text

def isCut (cuts : List Span) (offset : Nat) : Bool := cuts.any fun cut => cut.contains offset

def moved (cuts : List Span) (offset : Nat) :
    Nat := Nat.count (fun place => isCut cuts place = false) offset

def isFeed (text : String) (offset : Nat) : Bool := (bytes text)[offset]? == some lineFeed

def kept (text : String) (cuts : List Span) : Nat → List UInt8
  | 0 => []
  | offset + 1 => kept text cuts offset ++ if isCut cuts offset then []
      else (bytes text)[offset]?.toList

def Leaves (text : String) (cuts : List Span) (edited : String) :
    Prop := bytes edited = kept text cuts (size text)

theorem not_cut_iff (cuts : List Span) (offset : Nat) :
    isCut cuts offset = false ↔ ∀ cut ∈ cuts, cut.start ≤ offset → cut.stop ≤ offset := by
  simp [isCut, Span.contains]

theorem kept_length (text : String) (cuts : List Span) (offset : Nat)
    (inside : offset ≤ size text) :
    (kept text cuts offset).length = moved cuts offset := by
  induction offset with
  | zero => rfl
  | succ offset ih =>
      have here : offset < (bytes text).length := by
        rw [bytes_length]
        omega
      rw [kept, List.length_append, ih (by omega), moved, moved, Nat.count_succ,
        List.getElem?_eq_getElem here]
      cases isCut cuts offset <;> rfl

theorem kept_feeds (text : String) (cuts : List Span) (offset : Nat) :
    (kept text cuts offset).count lineFeed =
      Nat.count (fun place => isFeed text place = true ∧ isCut cuts place = false) offset := by
  induction offset with
  | zero => rfl
  | succ offset ih =>
      rw [kept, List.count_append, ih, Nat.count_succ]
      congr 1
      cases isCut cuts offset with
      | true => simp
      | false => cases found : (bytes text)[offset]? <;> simp [isFeed, found, List.count_cons]

theorem row_of_count (text : String) (offset : Nat) :
    rowOf text offset = Nat.count (fun place => isFeed text place = true) offset := by
  induction offset with
  | zero => rfl
  | succ offset ih =>
      rw [rowOf, List.take_add_one, List.count_append, ← rowOf, ih, Nat.count_succ]
      congr 1
      cases found : (bytes text)[offset]? <;> simp [isFeed, found, List.count_cons]

theorem kept_run (text : String) (cuts : List Span) (first count : Nat)
    (whole : ∀ place, first ≤ place → place < first + count → isCut cuts place = false) :
    kept text cuts (first + count) = kept text cuts first ++
      ((bytes text).drop first).take count := by
  induction count with
  | zero => simp
  | succ count ih =>
      have here := whole (first + count) (by omega) (by omega)
      rw [← Nat.add_assoc, kept, ih fun place low high => whole place low (by omega), here,
        if_neg Bool.false_ne_true, List.append_assoc, List.take_add_one, List.getElem?_drop]

theorem kept_gap (text : String) (cuts : List Span) (first count : Nat)
    (gone : ∀ place, first ≤ place → place < first + count → isCut cuts place = true) :
    kept text cuts (first + count) = kept text cuts first := by
  induction count with
  | zero => rfl
  | succ count ih =>
      have here := gone (first + count) (by omega) (by omega)
      rw [← Nat.add_assoc, kept, ih fun place low high => gone place low (by omega), here,
        if_pos rfl, List.append_nil]

theorem kept_prefix (text : String) (cuts : List Span) (first count : Nat) :
    kept text cuts first <+: kept text cuts (first + count) := by
  induction count with
  | zero => exact List.prefix_refl _
  | succ count ih => exact ih.trans (List.prefix_append _ _)

theorem bytes_append (left right : String) : bytes (left ++ right) = bytes left ++ bytes right := by
  simp only [bytes_eq, String.toByteArray_append, ByteArray.data_append, Array.toList_append]

theorem slice_bytes (text part : String) (start stop : Nat) (opens : isBoundary text start = true)
    (closes : isBoundary text stop = true) (order : start ≤ stop)
    (sliced : slice? text start stop = some part) :
    bytes part = ((bytes text).drop start).take (stop - start) := by
  obtain ⟨left, rest, rfl, rfl⟩ := boundary_split text start opens
  obtain ⟨middle, right, rfl, rfl⟩ := boundary_between left rest stop closes order
  rw [← String.append_assoc, slice_of_split left middle right] at sliced
  obtain rfl := Option.some.inj sliced
  rw [bytes_append, bytes_append, Nat.add_sub_cancel_left, ← bytes_length, ← bytes_length,
    List.drop_left, List.take_left]

end Text

namespace Change

def made (text : String) : Nat → List Change → List Span
  | _, [] => []
  | position, change :: rest =>
    if change.span.start < position ∨ Text.size text < change.span.stop then made text position rest
    else change.span :: made text change.span.stop rest

theorem made_behind (text : String) (position : Nat) (changes : List Change)
    (cuts : ∀ change ∈ changes, change.IsCut text) :
    ∀ cut ∈ made text position changes, position ≤ cut.start ∧ cut.start < cut.stop := by
  induction changes generalizing position with
  | nil => exact nofun
  | cons change rest ih =>
      intro cut member
      have later := fun other listed => cuts other (List.mem_cons_of_mem change listed)
      have filled := (cuts change List.mem_cons_self).piece.filled
      rw [made] at member
      split at member
      next => exact ih position later cut member
      next behind =>
          rcases List.mem_cons.mp member with rfl | among
          · exact ⟨by omega, filled⟩
          · have := ih change.span.stop later cut among
            omega

theorem splice_kept (text : String) (changes : List Change)
    (cuts : ∀ change ∈ changes, change.IsCut text) (position : Nat)
    (boundary : Text.isBoundary text position = true) (earlier : List Span)
    (before : ∀ cut ∈ earlier, cut.stop ≤ position) (edited : String)
    (spliced : splice text position changes = some edited) :
    Text.kept text (earlier ++ made text position changes) (Text.size text) =
      Text.kept text (earlier ++ made text position changes) position ++ Text.bytes edited := by
  induction changes generalizing position earlier edited with
  | nil =>
      have inside := Text.boundary_le text position boundary
      have rest := Text.slice_bytes text edited position _ boundary (Text.boundary_size text)
        inside spliced
      have run := Text.kept_run text (earlier ++ []) position (Text.size text - position)
          fun place low _ => by
        rw [List.append_nil, Text.not_cut_iff]
        intro cut member _
        have := before cut member
        omega
      rw [Nat.add_sub_cancel' inside, ← rest] at run
      exact run
  | cons change rest ih =>
      have later := fun other listed => cuts other (List.mem_cons_of_mem change listed)
      have piece := (cuts change List.mem_cons_self).piece
      rw [splice] at spliced
      rw [made]
      split at spliced
      next skipped =>
          rw [if_pos skipped]
          exact ih later position boundary earlier before edited spliced
      next behind =>
          rw [if_neg behind]
          obtain ⟨front, sliced, spliced⟩ := Option.bind_eq_some_iff.mp spliced
          obtain ⟨tail, goesOn, same⟩ := Option.bind_eq_some_iff.mp spliced
          have filled := piece.filled
          have order : position ≤ change.span.start := by omega
          have behindCut := made_behind text change.span.stop rest later
          have tailKept := ih later change.span.stop piece.closes (earlier ++ [change.span]) (by
            intro cut member
            rcases List.mem_append.mp member with early | last
            · have := before cut early
              omega
            · rw [List.mem_singleton.mp last]) tail goesOn
          rw [List.append_assoc, List.singleton_append] at tailKept
          have gone := Text.kept_gap text
            (earlier ++ change.span :: made text change.span.stop rest) change.span.start
            (change.span.stop - change.span.start) fun place low high =>
              List.any_eq_true.mpr ⟨change.span, List.mem_append_right _ List.mem_cons_self, by
                rw [Span.contains, Bool.and_eq_true, decide_eq_true_eq, decide_eq_true_eq]
                omega⟩
          have frontKept := Text.kept_run text
            (earlier ++ change.span :: made text change.span.stop rest) position
            (change.span.start - position) fun place low high => by
              rw [Text.not_cut_iff]
              intro cut member _
              rcases List.mem_append.mp member with early | late
              · have := before cut early
                omega
              · rcases List.mem_cons.mp late with rfl | among
                · omega
                · have := behindCut cut among
                  omega
          rw [Nat.add_sub_cancel' filled.le] at gone
          rw [Nat.add_sub_cancel' order,
            ← Text.slice_bytes text front position change.span.start boundary piece.opens order
            sliced] at frontKept
          obtain rfl := Option.some.inj same
          rw [tailKept, gone, frontKept, (cuts change List.mem_cons_self).empties,
            String.append_empty, Text.bytes_append, List.append_assoc]

def taken (text : String) (changes : List Change) : List Span := made text 0 (inOrder changes)

theorem apply_all_kept (text : String) (changes : List Change)
    (cuts : ∀ change ∈ changes, change.IsCut text) (edited : String)
    (applied : applyAll? text changes = some edited) :
    Text.Leaves text (taken text changes) edited :=
  (splice_kept text (inOrder changes)
    (fun change member => cuts change (List.mem_mergeSort.mp member)) 0
    (Text.boundary_zero text) [] nofun edited applied).symm

end Change

namespace Text

variable {text edited : String} {cuts : List Span}

theorem row_of_moved (left : Leaves text cuts edited) (offset : Nat) (inside : offset ≤ size text) :
    rowOf edited (moved cuts offset) =
      Nat.count (fun place => isFeed text place = true ∧ isCut cuts place = false) offset := by
  obtain ⟨rest, whole⟩ := kept_prefix text cuts offset (size text - offset)
  rw [Nat.add_sub_cancel' inside] at whole
  rw [rowOf, left, ← whole, ← kept_length text cuts offset inside, List.take_left, kept_feeds]

theorem feed_between (first last : Nat) (apart : rowOf text first < rowOf text last) :
    ∃ place, (first ≤ place ∧ place < last) ∧ isFeed text place = true := by
  rw [row_of_count, row_of_count] at apart
  exact Nat.exists_of_count_lt_count apart

theorem row_of_le (first last : Nat) (order : first ≤ last) :
    rowOf text first ≤ rowOf text last := by
  rw [row_of_count, row_of_count]
  exact Nat.count_monotone _ order

theorem rows_shrink (left : Leaves text cuts edited) (first last : Nat) (order : first ≤ last)
    (inside : last ≤ size text) :
    rowOf edited (moved cuts last) + rowOf text first ≤ rowOf edited (moved cuts first) +
      rowOf text last := by
  obtain ⟨length, rfl⟩ := Nat.exists_eq_add_of_le order
  rw [row_of_moved left _ inside, row_of_moved left first (by omega), row_of_count, row_of_count,
    Nat.count_add, Nat.count_add (fun place => isFeed text place = true)]
  have fewer := Nat.count_mono_left (n := length)
    (p := fun place => isFeed text (first + place) = true ∧
    isCut cuts (first + place) = false) (q := fun place => isFeed text (first + place) = true)
    fun _ _ both => both.1
  omega

theorem rows_stay_apart (left : Leaves text cuts edited) (first last : Nat)
    (inside : last ≤ size text) (apart : rowOf text first < rowOf text last)
    (clear : ∀ cut ∈ cuts, rowOf text cut.start < rowOf text cut.stop → first < cut.stop →
      rowOf text first < rowOf text cut.start) :
    rowOf edited (moved cuts first) < rowOf edited (moved cuts last) := by
  -- the first line feed behind `first` is not cut out: the cut would start behind an earlier one
  have some := feed_between first last apart
  obtain ⟨⟨low, high⟩, feed⟩ := Nat.find_spec some
  have least := fun place => Nat.find_min some (m := place)
  generalize Nat.find some = place at low high feed least
  have stays : isCut cuts place = false := by
    rw [not_cut_iff]
    intro cut member starts
    by_contra covers
    have feeds : rowOf text cut.start < rowOf text cut.stop := by
      rw [row_of_count, row_of_count]
      exact (Nat.count_monotone _ starts).trans_lt (Nat.count_strict_mono feed (by omega))
    obtain ⟨other, ⟨above, below⟩, feed'⟩ := feed_between first cut.start
      (clear cut member feeds (by omega))
    exact least other (by omega) ⟨⟨above, by omega⟩, feed'⟩
  rw [row_of_moved left first (by omega), row_of_moved left last inside]
  exact (Nat.count_monotone _ low).trans_lt (Nat.count_strict_mono ⟨feed, stays⟩ high)

end Text

end DeadExports
