import DeadExports.Proofs.Prune.Batch
import DeadExports.Proofs.Text.Moved

set_option autoImplicit false

namespace DeadExports

structure Clause.Spaced (clause : Clause) : Prop where
  inside : ∀ token, token ∈ clause.specifiers ∨ token ∈ clause.commas →
    clause.span.start < token.start ∧ token.start < token.stop ∧ token.stop < clause.span.stop
  inOrder : clause.specifiers.Pairwise fun a b => a.stop ≤ b.start
  commas : ∀ comma ∈ clause.commas, ∀ specifier ∈ clause.specifiers, comma.Apart specifier

namespace Batch

section Merging

def Spread (merged : List Span) :
    Prop := merged.Pairwise fun later earlier => earlier.stop < later.start

theorem insert_span_spread (span : Span) (merged : List Span) (spread : Spread merged)
    (behind : ∀ one ∈ merged, one.start ≤ span.start) :
    Spread (insertSpan span merged) ∧ ∀ one ∈ insertSpan span merged, one.start ≤ span.start := by
  cases merged with
  | nil =>
      exact ⟨List.pairwise_singleton _ _, fun one member => (List.mem_singleton.mp member) ▸
        Nat.le_refl _⟩
  | cons last rest =>
      obtain ⟨earlier, spread⟩ := List.pairwise_cons.mp spread
      have starts := behind last List.mem_cons_self
      rw [insertSpan]
      split
      next =>
          refine ⟨List.pairwise_cons.mpr ⟨earlier, spread⟩, fun one member => ?_⟩
          rcases List.mem_cons.mp member with rfl | among
          · exact starts
          · exact behind one (List.mem_cons_of_mem _ among)
      next touches =>
          refine ⟨List.pairwise_cons.mpr
            ⟨fun one member => ?_, List.pairwise_cons.mpr ⟨earlier, spread⟩⟩, fun one member => ?_⟩
          · rcases List.mem_cons.mp member with rfl | among
            · exact Nat.lt_of_not_le touches
            · have := earlier one among
              omega
          · rcases List.mem_cons.mp member with rfl | among
            · exact Nat.le_refl _
            · exact behind one among

theorem insert_span_covers (span : Span) (merged : List Span)
    (behind : ∀ one ∈ merged, one.start ≤ span.start) (place : Nat) :
    Text.isCut (insertSpan span merged) place = Text.isCut (span :: merged) place := by
  cases merged with
  | nil => rfl
  | cons last rest =>
      have starts := behind last List.mem_cons_self
      rw [insertSpan]
      split
      next touches =>
          have joined : Span.contains ⟨last.start, max last.stop span.stop⟩ place =
              (span.contains place || last.contains place) := by
            rw [Bool.eq_iff_iff, Bool.or_eq_true, Span.contains_iff, Span.contains_iff,
              Span.contains_iff]
            dsimp only
            omega
          rw [Text.isCut, Text.isCut, List.any_cons, List.any_cons, List.any_cons, joined,
            Bool.or_assoc]
      next => rfl

theorem merge_all (spans merged : List Span) (sorted : spans.Pairwise fun a b => a.start ≤ b.start)
    (spread : Spread merged) (behind : ∀ one ∈ merged, ∀ span ∈ spans, one.start ≤ span.start) :
    Spread (spans.foldl (fun merged span => insertSpan span merged) merged) ∧
      ∀ place, Text.isCut (spans.foldl (fun merged span => insertSpan span merged) merged) place =
        Text.isCut (spans ++ merged) place := by
  induction spans generalizing merged with
  | nil => exact ⟨spread, fun _ => rfl⟩
  | cons first rest ih =>
      obtain ⟨before, sorted⟩ := List.pairwise_cons.mp sorted
      have here := fun one member => behind one member first List.mem_cons_self
      obtain ⟨spread, starts⟩ := insert_span_spread first merged spread here
      obtain ⟨spread, covers⟩ := ih (insertSpan first merged) sorted spread
          fun one member span later =>
        (starts one member).trans (before span later)
      refine ⟨spread, fun place => ?_⟩
      have inserted := insert_span_covers first merged here place
      rw [Text.isCut] at inserted
      rw [List.foldl_cons, covers place, Text.isCut, Text.isCut, List.any_append, inserted,
        Text.isCut, List.cons_append, List.any_cons, List.any_cons, List.any_append,
        Bool.or_left_comm]

theorem merge_spans_apart (spans : List Span) :
    (mergeSpans spans).Pairwise (fun a b => a.stop < b.start) ∧
      ∀ place, Text.isCut (mergeSpans spans) place = Text.isCut spans place := by
  have sorted : (spans.mergeSort Span.atMost).Pairwise fun a b => a.start ≤ b.start := by
    refine (List.pairwise_mergeSort Span.at_most_trans Span.at_most_total spans).imp ?_
    intro a b order
    rw [Span.at_most_iff] at order
    omega
  obtain ⟨spread, covers⟩ := merge_all _ [] sorted List.Pairwise.nil nofun
  refine ⟨List.pairwise_reverse.mpr spread, fun place => ?_⟩
  have same := covers place
  rw [List.append_nil] at same
  rw [mergeSpans, Text.isCut, List.any_reverse, ← Text.isCut, same]
  exact (List.mergeSort_perm spans Span.atMost).any_eq

end Merging

def coresOf (clause : Clause) (kept specifier : Span) (bound : Nat) : List Span :=
  match commaBetween? clause specifier.stop bound with
  | some comma => [⟨specifier.start, comma.stop⟩]
  | none => specifier :: (commaBetween? clause kept.stop specifier.start).toList

def clauseCores (clause : Clause) (removed : Span → Bool) : List Span :=
  match lastKept? clause removed with
  | none => []
  | some kept =>
    (withBounds clause.span.stop clause.specifiers).flatMap fun (specifier, bound) =>
      if removed specifier then coresOf clause kept specifier bound else []

structure Trims (text : String) (feed : Nat) (core cut : Span) : Prop where
  widens : core.Widens text cut
  feeds : ∀ place, core.stop ≤ place → place < cut.stop → Text.isFeed text place = true →
      place = feed

theorem own_line_trims (text : String) (core line : Span) (inside : core.start ≤ Text.size text)
    (own : Text.ownLine? text core = some line) : Trims text (line.stop - 1) core line := by
  have widens : core.Widens text line := by
    rw [Text.ownLine?] at own
    split at own
    next =>
        obtain rfl := Option.some.inj own
        exact Text.line_extent_widens text core inside
    next => cases own
  refine ⟨widens, fun place low high feed => ?_⟩
  rcases widens.behind place low high with blank | ⟨-, last⟩ | ⟨back, -⟩
  · rw [Text.feed_not_blank text place feed] at blank
    cases blank
  · omega
  · rw [Text.isReturn, beq_iff_eq.mp feed] at back
    cases back

theorem trims_ahead (text : String) (feed : Nat) (core : Span) :
    Trims text feed core ⟨core.start, Text.skipBlanks text core.stop⟩ := by
  refine ⟨Span.widens_ahead text core, fun place low high isFeed => ?_⟩
  have blank := Text.skipped_blank text core.stop place low high
  rw [Text.feed_not_blank text place isFeed] at blank
  cases blank

theorem trims_back (text : String) (feed : Nat) (core : Span)
    (inside : core.start ≤ Text.size text) :
    Trims text feed core ⟨Text.skipBlanksBack text core.start, core.stop⟩ :=
  ⟨Span.widens_back text core inside, fun _ low high => absurd low (Nat.not_le_of_lt high)⟩

theorem trims_self (text : String) (feed : Nat) (core : Span) : Trims text feed core core :=
  ⟨Span.widens_self text core, fun _ low high => absurd low (Nat.not_le_of_lt high)⟩

theorem cuts_of_trim (text : String) (clause : Clause) (kept specifier : Span) (bound : Nat)
    (inside : specifier.start ≤ Text.size text) :
    ∃ feed, List.Forall₂ (Trims text feed) (coresOf clause kept specifier bound)
      (cutsOf text clause kept specifier bound) := by
  rw [coresOf, cutsOf]
  cases commaBetween? clause specifier.stop bound with
  | some comma =>
      dsimp only
      rw [cutWithComma]
      cases own : Text.ownLine? text ⟨specifier.start, comma.stop⟩ with
      | some line => exact ⟨_, .cons (own_line_trims text _ line inside own) .nil⟩
      | none => exact ⟨0, .cons (trims_ahead text 0 ⟨specifier.start, comma.stop⟩) .nil⟩
  | none =>
      dsimp only
      rw [cutWithoutComma]
      cases own : Text.ownLine? text specifier with
      | some line =>
          have trims := own_line_trims text specifier line inside own
          cases commaBetween? clause kept.stop specifier.start with
          | some comma => exact ⟨_, .cons trims (.cons (trims_self text _ comma) .nil)⟩
          | none => exact ⟨_, .cons trims .nil⟩
      | none =>
          have trims := trims_back text 0 specifier inside
          cases commaBetween? clause kept.stop specifier.start with
          | some comma => exact ⟨0, .cons trims (.cons (trims_ahead text 0 comma) .nil)⟩
          | none => exact ⟨0, .cons trims .nil⟩

theorem trims_cut {text : String} {feed : Nat} {cores cuts : List Span}
    (trims : List.Forall₂ (Trims text feed) cores cuts) :
    (∀ cut ∈ cuts, ∃ core ∈ cores, Trims text feed core cut) ∧ ∀ core ∈ cores, ∃ cut ∈ cuts,
      Trims text feed core cut := by
  induction trims with
  | nil => exact ⟨nofun, nofun⟩
  | cons here _ ih =>
      refine ⟨fun cut member => ?_, fun core member => ?_⟩
      · rcases List.mem_cons.mp member with rfl | later
        · exact ⟨_, List.mem_cons_self, here⟩
        · obtain ⟨core, among, trims⟩ := ih.1 cut later
          exact ⟨core, List.mem_cons_of_mem _ among, trims⟩
      · rcases List.mem_cons.mp member with rfl | later
        · exact ⟨_, List.mem_cons_self, here⟩
        · obtain ⟨cut, among, trims⟩ := ih.2 core later
          exact ⟨cut, List.mem_cons_of_mem _ among, trims⟩

theorem clause_cuts_apart (text : String) (clause : Clause) (removed : Span → Bool) :
    (clauseCuts text clause removed).Pairwise Span.Apart := by
  rw [clauseCuts]
  split
  next => exact List.Pairwise.nil
  next => exact (merge_spans_apart _).1.imp fun before => .inl before.le

def Removes (clause : Clause) (removed : Span → Bool) (entry : Span × Nat) : Prop :=
  entry ∈ withBounds clause.span.stop clause.specifiers ∧ removed entry.1 = true

theorem removed_listed (clause : Clause) (removed : Span → Bool) (entry : Span × Nat)
    (removes : Removes clause removed entry) :
    entry.1 ∈ clause.specifiers :=
  with_bounds_spans clause.span.stop clause.specifiers ▸ List.mem_map_of_mem removes.1

theorem clause_cut_iff (text : String) (clause : Clause) (removed : Span → Bool) (kept : Span)
    (last : lastKept? clause removed = some kept) (place : Nat) :
    Text.isCut (clauseCuts text clause removed) place = true ↔
      ∃ entry, Removes clause removed entry ∧ Text.isCut (cutsOf text clause kept entry.1 entry.2)
        place = true := by
  rw [clauseCuts, last]
  dsimp only
  rw [(merge_spans_apart _).2, Text.isCut, List.any_flatMap, List.any_eq_true]
  refine exists_congr fun entry => ?_
  rw [Removes, and_assoc, and_congr_right_iff]
  intro _
  cases removed entry.1 <;> simp [Text.isCut]

theorem clause_core_iff (clause : Clause) (removed : Span → Bool) (kept : Span)
    (last : lastKept? clause removed = some kept) (core : Span) :
    core ∈ clauseCores clause removed ↔
      ∃ entry, Removes clause removed entry ∧ core ∈ coresOf clause kept entry.1 entry.2 := by
  rw [clauseCores, last]
  dsimp only
  rw [List.mem_flatMap]
  refine exists_congr fun entry => ?_
  rw [Removes, and_assoc, and_congr_right_iff]
  intro _
  cases removed entry.1 <;> simp

theorem clause_cut_trims (text : String) (clause : Clause) (removed : Span → Bool)
    (placed : clause.Placed text) (place : Nat)
    (gone : Text.isCut (clauseCuts text clause removed) place = true) :
    ∃ core ∈ clauseCores clause removed, ∃ cut, core.Widens text cut ∧ cut.contains place = true ∧
      ∀ other, cut.contains other = true → Text.isCut (clauseCuts text clause removed) other =
        true := by
  cases last : lastKept? clause removed with
  | none =>
      rw [clauseCuts, last] at gone
      cases gone
  | some kept =>
      obtain ⟨entry, removes, gone⟩ := (clause_cut_iff text clause removed kept last place).mp gone
      obtain ⟨cut, member, covers⟩ := List.any_eq_true.mp gone
      have inside := Text.boundary_le text _
        (placed.pieces _ (removed_listed clause removed entry removes)).opens
      obtain ⟨feed, trims⟩ := cuts_of_trim text clause kept entry.1 entry.2 inside
      obtain ⟨core, listed, trims⟩ := (trims_cut trims).1 cut member
      refine ⟨core, (clause_core_iff clause removed kept last core).mpr ⟨entry, removes, listed⟩,
        cut, trims.widens, covers, ?_⟩
      exact fun other within => (clause_cut_iff text clause removed kept last other).mpr
        ⟨entry, removes, List.any_eq_true.mpr ⟨cut, member, within⟩⟩

theorem clause_core_cut (text : String) (clause : Clause) (removed : Span → Bool)
    (placed : clause.Placed text) (core : Span) (listed : core ∈ clauseCores clause removed)
    (place : Nat) (covers : core.contains place = true) :
    Text.isCut (clauseCuts text clause removed) place = true := by
  cases last : lastKept? clause removed with
  | none =>
      rw [clauseCores, last] at listed
      cases listed
  | some kept =>
      obtain ⟨entry, removes, listed⟩ := (clause_core_iff clause removed kept last core).mp listed
      have inside := Text.boundary_le text _
        (placed.pieces _ (removed_listed clause removed entry removes)).opens
      obtain ⟨feed, trims⟩ := cuts_of_trim text clause kept entry.1 entry.2 inside
      obtain ⟨cut, member, trims⟩ := (trims_cut trims).2 core listed
      refine (clause_cut_iff text clause removed kept last place).mpr
        ⟨entry, removes, List.any_eq_true.mpr ⟨cut, member, ?_⟩⟩
      have starts := trims.widens.starts
      have stops := trims.widens.stops
      rw [Span.contains_iff] at covers ⊢
      omega

theorem clause_cuts_ink (text : String) (clause : Clause) (removed : Span → Bool)
    (placed : clause.Placed text) (place : Nat) (ink : Text.hasInk text place = true) :
    Text.isCut (clauseCuts text clause removed) place = true ↔
      ∃ core ∈ clauseCores clause removed, core.contains place = true := by
  constructor
  · intro gone
    obtain ⟨core, listed, cut, widens, covers, -⟩ := clause_cut_trims text clause removed placed
      place gone
    exact ⟨core, listed, Span.widens_ink text core cut widens place ink covers⟩
  · rintro ⟨core, listed, covers⟩
    exact clause_core_cut text clause removed placed core listed place covers

theorem clause_cuts_keep (text : String) (clause : Clause) (removed : Span → Bool)
    (placed : clause.Placed text) (other : Span) (first : Text.hasInk text other.start = true)
    (last : Text.isBlankAt text (other.stop - 1) = false)
    (apart : ∀ core ∈ clauseCores clause removed, core.start < core.stop ∧ core.Apart other)
    (place : Nat) (low : other.start ≤ place) (high : place < other.stop) :
    Text.isCut (clauseCuts text clause removed) place = false := by
  rw [← Bool.not_eq_true]
  intro gone
  obtain ⟨core, listed, cut, widens, covers, -⟩ := clause_cut_trims text clause removed placed
    place gone
  obtain ⟨filled, apart⟩ := apart core listed
  rw [Span.contains_iff] at covers
  rcases Span.widens_apart text core cut other widens filled first last apart
    with before | after <;> omega

theorem with_bounds_apart (stop : Nat) (specifiers : List Span)
    (ordered : specifiers.Pairwise fun a b => a.stop ≤ b.start)
    (filled : ∀ specifier ∈ specifiers, specifier.start < specifier.stop) (entry : Span × Nat)
    (listed : entry ∈ withBounds stop specifiers) (other : Span) (member : other ∈ specifiers) :
    other = entry.1 ∨ other.stop ≤ entry.1.start ∨
    (entry.1.stop ≤ other.start ∧ entry.2 ≤ other.start) := by
  fun_induction withBounds stop specifiers with
  | case1 => cases member
  | case2 only =>
      obtain rfl := List.mem_singleton.mp listed
      exact .inl (List.mem_singleton.mp member)
  | case3 specifier next rest ih =>
      obtain ⟨before, ordered⟩ := List.pairwise_cons.mp ordered
      have filledRest := fun one further => filled one (List.mem_cons_of_mem _ further)
      rcases List.mem_cons.mp listed with rfl | later
      · rcases List.mem_cons.mp member with same | further
        · exact .inl same
        · refine .inr (.inr ⟨before other further, ?_⟩)
          rcases List.mem_cons.mp further with rfl | beyond
          · exact Nat.le_refl _
          · have behind := (List.pairwise_cons.mp ordered).1 other beyond
            have := filledRest next List.mem_cons_self
            dsimp only
            omega
      · rcases List.mem_cons.mp member with rfl | further
        · refine .inr (.inl (before entry.1 ?_))
          exact with_bounds_spans stop (next :: rest) ▸ List.mem_map_of_mem later
        · exact ih ordered filledRest later further

theorem comma_before (clause : Clause) (start stop : Nat) (comma : Span)
    (found : commaBetween? clause start stop = some comma) : comma.stop ≤ stop := by
  have passes := List.find?_some found
  simp only [Bool.and_eq_true, decide_eq_true_eq] at passes
  exact passes.2

theorem last_kept_some (clause : Clause) (removed : Span → Bool)
    (some : ∃ kept ∈ clause.specifiers, removed kept = false) :
    ∃ kept, lastKept? clause removed = .some kept := by
  obtain ⟨kept, member, stays⟩ := some
  have among : kept ∈ clause.specifiers.filter fun span =>
    !removed span := List.mem_filter.mpr ⟨member, by rw [stays]; rfl⟩
  exact ⟨_, List.getLast?_eq_some_getLast (List.ne_nil_of_mem among)⟩

theorem core_placed (clause : Clause) (removed : Span → Bool) (spaced : clause.Spaced) (core : Span)
    (listed : core ∈ clauseCores clause removed) :
    (clause.span.start < core.start ∧ core.start < core.stop ∧ core.stop < clause.span.stop) ∧
      ∀ kept ∈ clause.specifiers, removed kept = false → core.Apart kept := by
  cases last : lastKept? clause removed with
  | none =>
      rw [clauseCores, last] at listed
      cases listed
  | some kept =>
      obtain ⟨entry, removes, listed⟩ := (clause_core_iff clause removed kept last core).mp listed
      have member := removed_listed clause removed entry removes
      have bounds := spaced.inside entry.1 (.inl member)
      have others (span : Span) (among : span ∈ clause.specifiers) (stays : removed span = false) :
          span.stop ≤ entry.1.start ∨ (entry.1.stop ≤ span.start ∧ entry.2 ≤ span.start) := by
        have filled := fun one listed => (spaced.inside one (.inl listed)).2.1
        rcases with_bounds_apart _ _ spaced.inOrder filled entry removes.1 span among
          with rfl | apart
        · rw [removes.2] at stays
          cases stays
        · exact apart
      rw [coresOf] at listed
      split at listed
      next comma found =>
          obtain rfl := List.mem_singleton.mp listed
          obtain ⟨isComma, behind⟩ := comma_between clause _ _ comma found
          have before := comma_before clause _ _ comma found
          have inside := spaced.inside comma (.inr isComma)
          refine ⟨⟨bounds.1, by dsimp only; omega, inside.2.2⟩, fun span among stays => ?_⟩
          rcases others span among stays with early | late
          · exact .inr early
          · exact .inl (before.trans late.2)
      next =>
          rcases List.mem_cons.mp listed with rfl | comma
          · refine ⟨bounds, fun span among stays => ?_⟩
            rcases others span among stays with early | late
            · exact .inr early
            · exact .inl late.1
          · have isComma := (comma_between clause _ _ core (Option.mem_toList.mp comma)).1
            exact ⟨spaced.inside core (.inr isComma), fun span among _ =>
              spaced.commas core isComma span among⟩

theorem clause_cut_inside (text : String) (clause : Clause) (removed : Span → Bool)
    (placed : clause.Placed text) (spaced : clause.Spaced)
    (opens : Text.hasInk text clause.span.start = true)
    (closes : Text.hasInk text (clause.span.stop - 1) = true) (place : Nat)
    (gone : Text.isCut (clauseCuts text clause removed) place = true) :
    clause.span.start < place ∧ place + 1 < clause.span.stop := by
  obtain ⟨core, listed, cut, widens, covers, -⟩ := clause_cut_trims text clause removed placed
    place gone
  obtain ⟨⟨first, filled, last⟩, -⟩ := core_placed clause removed spaced core listed
  have starts := widens.starts
  have stops := widens.stops
  rw [Span.contains_iff] at covers
  have front := Span.widens_apart text core cut ⟨clause.span.start, clause.span.start + 1⟩ widens
    filled opens
    (Text.ink_not_blank text _ opens) (.inr (by dsimp only; omega))
  have behind := Span.widens_apart text core cut ⟨clause.span.stop - 1, clause.span.stop⟩ widens
    filled closes
    (Text.ink_not_blank text _ closes) (.inl (by dsimp only; omega))
  dsimp only at front behind
  omega

theorem removed_core (clause : Clause) (removed : Span → Bool)
    (some : ∃ kept ∈ clause.specifiers, removed kept = false) (spaced : clause.Spaced)
    (specifier : Span) (member : specifier ∈ clause.specifiers) (goes : removed specifier = true) :
    ∃ core ∈ clauseCores clause removed, core.start ≤ specifier.start ∧
      specifier.stop ≤ core.stop := by
  obtain ⟨kept, last⟩ := last_kept_some clause removed some
  rw [← with_bounds_spans clause.span.stop clause.specifiers] at member
  obtain ⟨entry, listed, rfl⟩ := List.mem_map.mp member
  have core : ∃ core ∈ coresOf clause kept entry.1 entry.2, core.start ≤ entry.1.start ∧
      entry.1.stop ≤ core.stop := by
    rw [coresOf]
    split
    next comma found =>
        obtain ⟨isComma, behind⟩ := comma_between clause _ _ comma found
        have := spaced.inside comma (.inr isComma)
        exact ⟨_, List.mem_singleton_self _, Nat.le_refl _, by dsimp only; omega⟩
    next => exact ⟨_, List.mem_cons_self, Nat.le_refl _, Nat.le_refl _⟩
  obtain ⟨core, among, covers⟩ := core
  exact ⟨core, (clause_core_iff clause removed kept last core).mpr ⟨entry, ⟨listed, goes⟩, among⟩,
    covers⟩

end Batch
end DeadExports
