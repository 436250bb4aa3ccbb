import DeadExports.Proofs.Prune.Tokens

set_option autoImplicit false

namespace DeadExports

namespace Clause

structure IsList (text : String) (filler : UInt8 → Prop) (comments : List Span) (clause : Clause) :
    Prop where
  opens : (Text.bytes text)[clause.span.start]? = some Text.openBrace
  closes : (Text.bytes text)[clause.span.stop - 1]? = some Text.closeBrace
  tokens : Alternate (clause.span.start + 1) clause.specifiers clause.commas (clause.span.stop - 1)
  pieces : ∀ specifier ∈ clause.specifiers, specifier.IsPiece text
  inked : ∀ specifier ∈ clause.specifiers,
    Text.hasInk text specifier.start = true ∧ Text.hasInk text (specifier.stop - 1) = true
  commas : ∀ comma ∈ clause.commas, (Text.bytes text)[comma.start]? = some Text.comma
  commented : ∀ comment ∈ comments, Text.IsComment text comment ∧
    (clause.span.start < comment.start ∧ comment.stop < clause.span.stop) ∧
    ∀ token, token ∈ clause.specifiers ∨ token ∈ clause.commas → comment.Apart token
  gaps : ∀ place, clause.span.start < place → place + 1 < clause.span.stop →
    (∀ token, token ∈ clause.specifiers ∨ token ∈ clause.commas ∨ token ∈ comments →
      token.contains place = false) →
    ∃ byte, (Text.bytes text)[place]? = some byte ∧ filler byte

section Lists

variable {text : String} {filler : UInt8 → Prop} {comments : List Span} {clause : Clause}

theorem list_order (list : clause.IsList text filler comments) :
    clause.span.start + 1 ≤ clause.span.stop - 1 :=
  alternate_le list.tokens

theorem list_braces (list : clause.IsList text filler comments) :
    Text.hasInk text clause.span.start = true ∧ Text.hasInk text (clause.span.stop - 1) = true :=
  ⟨ink_of_byte text _ _ list.opens rfl, ink_of_byte text _ _ list.closes rfl⟩

theorem list_spaced (list : clause.IsList text filler comments) : clause.Spaced where
  inside token listed := by
    have order := list_order list
    have bounds := alternate_bounds list.tokens token listed
    omega
  inOrder := (alternate_spaced list.tokens).1
  commas := (alternate_spaced list.tokens).2

theorem list_placed (list : clause.IsList text filler comments) : clause.Placed text where
  pieces := list.pieces
  distinct := by
    refine (list_spaced list).inOrder.imp_of_mem ?_
    rintro a b inA - apart rfl
    have := (list.pieces a inA).filled
    omega
  commas comma member := by
    have one := alternate_commas list.tokens comma member
    have found := list.commas comma member
    refine ⟨by omega, Text.boundary_at_plain text _ _ found rfl, ?_⟩
    rw [one]
    exact Text.boundary_behind_plain text _ _ found rfl

variable (removed : Span → Bool)

theorem ink_lost (list : clause.IsList text filler comments)
    (some : ∃ kept ∈ clause.specifiers, removed kept = false) (place : Nat)
    (ink : Text.hasInk text place = true) :
    Text.isCut (Batch.clauseCuts text clause removed) place = true ↔
      ∃ core ∈ lost removed clause.specifiers clause.commas, core.start ≤ place ∧
        place < core.stop := by
  rw [Batch.clause_cuts_ink text clause removed (list_placed list) place ink]
  refine exists_congr fun core => ?_
  rw [Batch.cores_lost clause removed list.tokens some core, Span.contains_iff]

theorem braces_stay (list : clause.IsList text filler comments) (place : Nat)
    (outside : place ≤ clause.span.start ∨ clause.span.stop ≤ place + 1) :
    Text.isCut (Batch.clauseCuts text clause removed) place = false := by
  obtain ⟨opens, closes⟩ := list_braces list
  rw [← Bool.not_eq_true]
  intro gone
  have inside := Batch.clause_cut_inside text clause removed (list_placed list) (list_spaced list)
    opens closes place gone
  omega

theorem specifier_stays (list : clause.IsList text filler comments) (specifier : Span)
    (member : specifier ∈ clause.specifiers) (stays : removed specifier = false) (place : Nat)
    (low : specifier.start ≤ place) (high : place < specifier.stop) :
    Text.isCut (Batch.clauseCuts text clause removed) place = false := by
  obtain ⟨first, last⟩ := list.inked specifier member
  refine Batch.clause_cuts_keep text clause removed (list_placed list) specifier first
    (Text.ink_not_blank text _ last) ?_ place low high
  intro core listed
  obtain ⟨⟨-, filled, -⟩, apart⟩ := Batch.core_placed clause removed (list_spaced list) core listed
  exact ⟨filled, apart specifier member stays⟩

theorem specifier_goes (list : clause.IsList text filler comments)
    (some : ∃ kept ∈ clause.specifiers, removed kept = false) (specifier : Span)
    (member : specifier ∈ clause.specifiers) (goes : removed specifier = true) (place : Nat)
    (low : specifier.start ≤ place) (high : place < specifier.stop) :
    Text.isCut (Batch.clauseCuts text clause removed) place = true := by
  obtain ⟨core, listed, starts, stops⟩ := Batch.removed_core clause removed some (list_spaced list)
    specifier member goes
  refine Batch.clause_core_cut text clause removed (list_placed list) core listed place ?_
  rw [Span.contains_iff]
  omega

theorem lost_inked (list : clause.IsList text filler comments) (core : Span)
    (listed : core ∈ lost removed clause.specifiers clause.commas) :
    Text.hasInk text core.start = true := by
  rcases lost_tokens removed list.tokens core listed
    with isSpecifier | isComma | ⟨specifier, member, _, -, rfl, -⟩
  · exact (list.inked core isSpecifier).1
  · exact ink_of_byte text _ _ (list.commas core isComma) rfl
  · exact (list.inked specifier member).1

theorem comment_placed (list : clause.IsList text filler comments) (comment : Span)
    (member : comment ∈ comments) (core : Span)
    (listed : core ∈ lost removed clause.specifiers clause.commas) :
    (core.start ≤ comment.start ∧ comment.stop ≤ core.stop) ∨ core.Apart comment := by
  obtain ⟨-, -, apart⟩ := list.commented comment member
  rcases lost_tokens removed list.tokens core listed
    with isSpecifier | isComma | ⟨specifier, isSpecifier, comma, isComma, rfl, order⟩
  · exact .inr (Span.apart_symm _ _ (apart core (.inl isSpecifier)))
  · exact .inr (Span.apart_symm _ _ (apart core (.inr isComma)))
  · have filled := (list.pieces specifier isSpecifier).filled
    have one := alternate_commas list.tokens comma isComma
    rcases apart specifier (.inl isSpecifier) with before | behind
    · exact .inr (.inr before)
    · rcases apart comma (.inr isComma) with before' | behind'
      · exact .inl ⟨by dsimp only; omega, by dsimp only; omega⟩
      · exact .inr (.inl behind')

theorem comment_whole (list : clause.IsList text filler comments)
    (some : ∃ kept ∈ clause.specifiers, removed kept = false) (comment : Span)
    (member : comment ∈ comments) :
    (∀ place, comment.start ≤ place → place < comment.stop →
        Text.isCut (Batch.clauseCuts text clause removed) place = true) ∨
      ((∀ place, comment.start ≤ place → place < comment.stop →
          Text.isCut (Batch.clauseCuts text clause removed) place = false) ∧
        (Text.isFeed text comment.stop = true ∨ Text.isReturn text comment.stop = true →
          Text.isCut (Batch.clauseCuts text clause removed) comment.stop = false)) := by
  have lost_iff := Batch.cores_lost clause removed list.tokens some
  obtain ⟨long, first, closed⟩ := comment_ends comment (list.commented comment member).1
  by_cases inside : ∃ core ∈ lost removed clause.specifiers clause.commas,
    core.start ≤ comment.start ∧ comment.stop ≤ core.stop
  · obtain ⟨core, listed, starts, stops⟩ := inside
    refine .inl fun place low high =>
      Batch.clause_core_cut text clause removed (list_placed list) core
        ((lost_iff core).mpr listed) place ?_
    rw [Span.contains_iff]
    omega
  · have apart (core : Span) (isCore : core ∈ Batch.clauseCores clause removed) :
        core.start < core.stop ∧ core.Apart comment := by
      have listed := (lost_iff core).mp isCore
      refine ⟨(Batch.core_placed clause removed (list_spaced list) core isCore).1.2.1, ?_⟩
      exact (comment_placed removed list comment member core listed).resolve_left fun both =>
        inside ⟨core, listed, both⟩
    refine .inr ?_
    by_cases ends : Text.isFeed text comment.stop = true ∨ Text.isReturn text comment.stop = true
    · -- together with its line break it still meets no core, since cores start with ink
      have plain : Text.isBlankAt text comment.stop = false ∧
          Text.hasInk text comment.stop = false := by
        rw [Text.hasInk, Text.byte_at_eq]
        rcases ends with feed | back
        · rw [beq_iff_eq.mp feed]
          exact ⟨Text.feed_not_blank text _ feed, rfl⟩
        · rw [beq_iff_eq.mp back]
          exact ⟨Text.return_not_blank text _ back, rfl⟩
      have keeps := Batch.clause_cuts_keep text clause removed (list_placed list)
        ⟨comment.start, comment.stop + 1⟩ first plain.1
        (fun core isCore => by
          obtain ⟨filled, before | behind⟩ := apart core isCore
          · exact ⟨filled, .inl before⟩
          · refine ⟨filled, .inr (Nat.lt_of_le_of_ne behind ?_)⟩
            intro same
            have ink := lost_inked removed list core ((lost_iff core).mp isCore)
            rw [← same, plain.2] at ink
            cases ink)
      dsimp only at keeps
      exact ⟨fun place low high => keeps place low (by omega), fun _ => keeps comment.stop
        (by omega) (by omega)⟩
    · have last := closed.resolve_right ends
      refine ⟨?_, fun other => absurd other ends⟩
      exact Batch.clause_cuts_keep text clause removed (list_placed list) comment first
        (Text.ink_not_blank text _ last) apart

end Lists

def rewritten (cuts : List Span) (removed : Span → Bool) (clause : Clause) : Clause where
  span := clause.span.moved cuts
  specifiers := (clause.specifiers.filter fun specifier => !removed specifier).map (Span.moved cuts)
  commas := (clause.commas.filter fun comma => !Text.isCut cuts comma.start).map (Span.moved cuts)

def leftComments (cuts comments : List Span) : List Span :=
  (comments.filter fun comment => !Text.isCut cuts comment.start).map (Span.moved cuts)

section Edited

variable {text edited : String} {cuts : List Span}

variable {filler : UInt8 → Prop} {comments : List Span} {clause : Clause} (removed : Span → Bool)

structure Spares (text : String) (comments : List Span) (clause : Clause) (removed : Span → Bool)
    (cuts : List Span) :
    Prop where
  pieces : ∀ cut ∈ cuts, cut.IsPiece text
  opens : Text.isCut cuts clause.span.start = false
  closes : Text.isCut cuts (clause.span.stop - 1) = false
  stays : ∀ specifier ∈ clause.specifiers, removed specifier = false →
    ∀ place, specifier.start ≤ place → place < specifier.stop → Text.isCut cuts place = false
  goes : ∀ specifier ∈ clause.specifiers, removed specifier = true →
    ∀ place, specifier.start ≤ place → place < specifier.stop → Text.isCut cuts place = true
  remarks : ∀ comment ∈ comments,
    (∀ place, comment.start ≤ place → place < comment.stop → Text.isCut cuts place = true) ∨
      ((∀ place, comment.start ≤ place → place < comment.stop → Text.isCut cuts place = false) ∧
        (Text.isFeed text comment.stop = true ∨ Text.isReturn text comment.stop = true →
          Text.isCut cuts comment.stop = false))

theorem cuts_spare (list : clause.IsList text filler comments)
    (some : ∃ kept ∈ clause.specifiers, removed kept = false) :
    Spares text comments clause removed (Batch.clauseCuts text clause removed) where
  pieces := Batch.clause_cuts_pieces text clause removed (list_placed list)
  opens := braces_stay removed list clause.span.start (.inl (Nat.le_refl _))
  closes := by
    have order := list_order list
    exact braces_stay removed list (clause.span.stop - 1) (.inr (by omega))
  stays := specifier_stays removed list
  goes := specifier_goes removed list some
  remarks := comment_whole removed list some

section Rewritten

variable {removed : Span → Bool} (list : clause.IsList text filler comments)
  (spares : Spares text comments clause removed cuts) (left : Text.Leaves text cuts edited)

include list spares

theorem token_left (old : Nat) (kept : Text.isCut cuts old = false) (token : Span)
    (listed : token ∈ clause.specifiers ∨ token ∈ clause.commas ∨ token ∈ comments)
    (covered : token.contains old = true) :
    token.moved cuts ∈ (clause.rewritten cuts removed).specifiers ∨ token.moved cuts ∈
      (clause.rewritten cuts removed).commas ∨
      token.moved cuts ∈ leftComments cuts comments := by
  have bounds := (Span.contains_iff token old).mp covered
  rcases listed with isSpecifier | isComma | isComment
  · cases gone : removed token with
    | true =>
        rw [spares.goes token isSpecifier gone old bounds.1 bounds.2] at kept
        cases kept
    | false =>
        exact .inl (List.mem_map_of_mem
          (List.mem_filter.mpr ⟨isSpecifier, by rw [gone]; rfl⟩))
  · have one := alternate_commas list.tokens token isComma
    obtain rfl : old = token.start := by omega
    exact .inr (.inl (List.mem_map_of_mem (List.mem_filter.mpr ⟨isComma, by rw [kept]; rfl⟩)))
  · obtain ⟨whole, -⟩ := (spares.remarks token isComment).resolve_left fun gone => by
      rw [gone old bounds.1 bounds.2] at kept
      cases kept
    have start := whole token.start (Nat.le_refl _) (by omega)
    exact .inr (.inr (List.mem_map_of_mem (List.mem_filter.mpr ⟨isComment, by rw [start]; rfl⟩)))

include left

theorem rewritten_specifier (specifier : Span)
    (member : specifier ∈ (clause.rewritten cuts removed).specifiers) :
    specifier.IsPiece edited ∧ Text.hasInk edited specifier.start = true ∧
    Text.hasInk edited (specifier.stop - 1) = true := by
  obtain ⟨old, listed, rfl⟩ := List.mem_map.mp member
  obtain ⟨among, kept⟩ := List.mem_filter.mp listed
  have piece := list.pieces old among
  have filled := piece.filled
  have whole := spares.stays old among (by simpa using kept)
  have starts := whole old.start (Nat.le_refl _) filled
  have ends := whole (old.stop - 1) (by omega) (by omega)
  obtain ⟨inkFirst, inkLast⟩ := list.inked old among
  refine ⟨⟨Text.moved_lt cuts _ _ starts filled, ?_, ?_⟩, Text.ink_moved left _ inkFirst starts, ?_⟩
  · exact Text.moved_boundary left spares.pieces _ piece.opens
  · exact Text.moved_boundary left spares.pieces _ piece.closes
  · dsimp only [Span.moved]
    rw [Text.moved_last cuts old.stop (by omega) ends]
    exact Text.ink_moved left _ inkLast ends

theorem rewritten_comment (comment : Span) (member : comment ∈ leftComments cuts comments) :
    Text.IsComment edited comment ∧
      (Text.moved cuts clause.span.start < comment.start ∧
        comment.stop < Text.moved cuts clause.span.stop) ∧
      ∀ token, token ∈ (clause.rewritten cuts removed).specifiers ∨
        token ∈ (clause.rewritten cuts removed).commas →
        comment.Apart token := by
  obtain ⟨old, listed, rfl⟩ := List.mem_map.mp member
  obtain ⟨among, kept⟩ := List.mem_filter.mp listed
  obtain ⟨isComment, ⟨starts, stops⟩, apart⟩ := list.commented old among
  obtain ⟨long, -⟩ := comment_ends old isComment
  have within := Text.ink_inside text _ (list_braces list).2
  obtain ⟨whole, ends⟩ := (spares.remarks old among).resolve_left fun gone => by
    rw [gone old.start (Nat.le_refl _) (by omega)] at kept
    cases kept
  have behind : Text.moved cuts old.stop < Text.moved cuts clause.span.stop := by
    have before := Text.moved_mono cuts old.stop (clause.span.stop - 1) (by omega)
    have step := Text.moved_lt cuts (clause.span.stop - 1) clause.span.stop spares.closes (by omega)
    omega
  refine ⟨comment_moved left old isComment (by omega) whole ends,
    ⟨Text.moved_lt cuts _ _ spares.opens starts, behind⟩, ?_⟩
  have moves (other : Span) (apart : old.Apart other) :
      (old.moved cuts).Apart (other.moved cuts) := by
    rcases apart with before | after
    · exact .inl (Text.moved_mono cuts _ _ before)
    · exact .inr (Text.moved_mono cuts _ _ after)
  rintro token (isSpecifier | isComma)
  · obtain ⟨other, others, rfl⟩ := List.mem_map.mp isSpecifier
    exact moves other (apart other (.inl (List.mem_filter.mp others).1))
  · obtain ⟨other, others, rfl⟩ := List.mem_map.mp isComma
    exact moves other (apart other (.inr (List.mem_filter.mp others).1))

theorem rewritten_gap (place : Nat) (above : Text.moved cuts clause.span.start < place)
    (below : place + 1 < Text.moved cuts clause.span.stop)
    (free : ∀ token, token ∈ (clause.rewritten cuts removed).specifiers ∨
      token ∈ (clause.rewritten cuts removed).commas ∨ token ∈ leftComments cuts comments →
      token.contains place = false) :
    ∃ byte, (Text.bytes edited)[place]? = some byte ∧ filler byte := by
  have within := Text.ink_inside text _ (list_braces list).2
  have size := Text.leaves_size left
  have bound := Text.moved_mono cuts clause.span.stop (Text.size text) (by omega)
  obtain ⟨old, inside, kept, rfl⟩ := Text.moved_onto left place (by omega)
  have low : clause.span.start < old := by
    by_contra early
    have := Text.moved_mono cuts old clause.span.start (by omega)
    omega
  have high : old + 1 < clause.span.stop := by
    by_contra late
    have := Text.moved_mono cuts clause.span.stop (old + 1) (by omega)
    rw [Text.moved_succ, if_pos kept] at this
    omega
  rw [Text.byte_moved left old inside kept]
  refine list.gaps old low high fun token listed => ?_
  rw [← Bool.not_eq_true]
  intro covered
  have bounds := (Span.contains_iff token old).mp covered
  have covers : (token.moved cuts).contains (Text.moved cuts old) = true := by
    rw [Span.contains_iff]
    exact ⟨Text.moved_mono cuts _ _ bounds.1, Text.moved_lt cuts _ _ kept bounds.2⟩
  rw [free _ (token_left list spares old kept token listed covered)] at covers
  cases covers

end Rewritten

theorem list_rewritten (list : clause.IsList text filler comments)
    (some : ∃ kept ∈ clause.specifiers, removed kept = false)
    (left : Text.Leaves text (Batch.clauseCuts text clause removed) edited) :
    (clause.rewritten (Batch.clauseCuts text clause removed) removed).IsList edited filler
        (leftComments (Batch.clauseCuts text clause removed) comments) ∧
      ((clause.rewritten (Batch.clauseCuts text clause removed) removed).commas.length =
          (clause.rewritten (Batch.clauseCuts text clause removed) removed).specifiers.length ↔
        clause.commas.length = clause.specifiers.length) := by
  have order := list_order list
  have spares := cuts_spare removed list some
  have within := Text.ink_inside text _ (list_braces list).2
  have loses : Loses removed (Batch.clauseCuts text clause removed) clause.specifiers
      clause.commas := by
    refine ⟨fun specifier member kept => ?_, fun comma member => ?_⟩
    · exact spares.stays specifier member kept specifier.start (Nat.le_refl _)
        (list.pieces specifier member).filled
    · exact ink_lost removed list some comma.start
        (ink_of_byte text _ _ (list.commas comma member) rfl)
  generalize Batch.clauseCuts text clause removed = cuts at *
  have first : Text.moved cuts (clause.span.start + 1) = Text.moved cuts clause.span.start + 1 := by
    rw [Text.moved_succ, if_pos spares.opens]
  have last := Text.moved_last cuts clause.span.stop (by omega) spares.closes
  refine ⟨⟨?_, ?_, ?_, ?_, ?_, ?_, ?_, ?_⟩, ?_⟩
  · exact (Text.byte_moved left _ (by omega) spares.opens).trans list.opens
  · dsimp only [rewritten, Span.moved]
    rw [last]
    exact (Text.byte_moved left _ within spares.closes).trans list.closes
  · dsimp only [rewritten, Span.moved]
    rw [← first, last]
    exact alternate_moved list.tokens loses
  · exact fun specifier member => (rewritten_specifier list spares left specifier member).1
  · exact fun specifier member => (rewritten_specifier list spares left specifier member).2
  · intro comma member
    obtain ⟨old, listed, rfl⟩ := List.mem_map.mp member
    obtain ⟨among, kept⟩ := List.mem_filter.mp listed
    have inside := (list_spaced list).inside old (.inr among)
    exact (Text.byte_moved left old.start (by omega) (by simpa using kept)).trans
      (list.commas old among)
  · exact rewritten_comment list spares left
  · exact rewritten_gap list spares left
  · rw [rewritten, List.length_map, List.length_map]
    exact alternate_trails list.tokens loses some

theorem blanks_go (list : clause.IsList text filler comments)
    (some : ∃ kept ∈ clause.specifiers, removed kept = false) (place : Nat)
    (gone : Text.isCut (Batch.clauseCuts text clause removed) place = true) :
    Text.isCut (lost removed clause.specifiers clause.commas) place = true ∨
    Text.isBlankAt text place = true ∨
      Text.isFeed text place = true ∨
      (Text.isReturn text place = true ∧ Text.isFeed text (place + 1) = true ∧
        Text.isCut (Batch.clauseCuts text clause removed) (place + 1) = true) := by
  obtain ⟨opens, closes⟩ := list_braces list
  have inside := Batch.clause_cut_inside text clause removed (list_placed list) (list_spaced list)
    opens closes place gone
  have within := Text.ink_inside text _ closes
  obtain ⟨core, listed, cut, widens, covers, others⟩ := Batch.clause_cut_trims text clause removed
    (list_placed list) place gone
  rw [Span.contains_iff] at covers
  by_cases before : place < core.start
  · exact .inr (.inl (widens.front place covers.1 before))
  · by_cases within : place < core.stop
    · exact .inl ((Text.cut_iff _ _).mpr
        ⟨core, (Batch.cores_lost clause removed list.tokens some core).mp listed, by omega, within⟩)
    · rcases widens.behind place (by omega) covers.2
        with blank | ⟨feed, -⟩ | ⟨back, last | ⟨feed, next⟩⟩
      · exact .inr (.inl blank)
      · exact .inr (.inr (.inl feed))
      · omega
      · refine .inr (.inr (.inr ⟨back, feed, others (place + 1) ?_⟩))
        rw [Span.contains_iff]
        omega

theorem breaks_go (list : clause.IsList text filler comments)
    (some : ∃ kept ∈ clause.specifiers, removed kept = false) :
    Nat.count (fun place => Text.isFeed text place = true ∧
        Text.isCut (Batch.clauseCuts text clause removed) place = true ∧
        Text.isCut (lost removed clause.specifiers clause.commas) place = false) (Text.size text) ≤
      (clause.specifiers.filter removed).length := by
  obtain ⟨kept, last⟩ := Batch.last_kept_some clause removed some
  have trims (entry : Span × Nat) (removes : Batch.Removes clause removed entry) :=
    Batch.cuts_of_trim text clause kept entry.1 entry.2
      (Text.boundary_le text _ (list.pieces _
        (Batch.removed_listed clause removed entry removes)).opens)
  choose! feed trims using trims
  let entries := (Batch.withBounds clause.span.stop clause.specifiers).filter fun entry =>
    removed entry.1
  have length : entries.length = (clause.specifiers.filter removed).length := by
    rw [← Batch.with_bounds_spans clause.span.stop clause.specifiers, List.filter_map,
      List.length_map]
    rfl
  rw [Nat.count_eq_card_filter_range, ← length, ← List.length_map feed]
  refine (Finset.card_le_card ?_).trans (List.toFinset_card_le _)
  intro place member
  obtain ⟨-, isFeed, gone, free⟩ := Finset.mem_filter.mp member
  obtain ⟨entry, removes, gone⟩ :=
    (Batch.clause_cut_iff text clause removed kept last place).mp gone
  obtain ⟨cut, among, covers⟩ := List.any_eq_true.mp gone
  obtain ⟨core, listed, trim⟩ := (Batch.trims_cut (trims entry removes)).1 cut among
  have isCore := (Batch.clause_core_iff clause removed kept last core).mpr ⟨entry, removes, listed⟩
  have ends := (Text.not_cut_iff _ _).mp free core
    ((Batch.cores_lost clause removed list.tokens some core).mp isCore)
  rw [Span.contains_iff] at covers
  have behind : core.stop ≤ place := by
    by_contra ahead
    by_cases before : core.start ≤ place
    · exact ahead (ends before)
    · have blank := trim.widens.front place covers.1 (by omega)
      rw [Text.feed_not_blank text place isFeed] at blank
      cases blank
  rw [List.mem_toFinset, trim.feeds place behind covers.2 isFeed]
  exact List.mem_map_of_mem (List.mem_filter.mpr ⟨removes.1, removes.2⟩)

end Edited

structure Rewrites (text edited : String) (filler : UInt8 → Prop) (comments : List Span)
    (clause : Clause) (removed : Span → Bool) (cuts : List Span) : Prop where
  list : (clause.rewritten cuts removed).IsList edited filler (leftComments cuts comments)
  trails : (clause.rewritten cuts removed).commas.length =
      (clause.rewritten cuts removed).specifiers.length ↔
    clause.commas.length = clause.specifiers.length
  braces : ∀ place, Text.isCut cuts place = true → clause.span.start < place ∧
      place + 1 < clause.span.stop
  kept : ∀ specifier ∈ clause.specifiers, removed specifier = false →
    Text.under edited (specifier.moved cuts) = Text.under text specifier
  gone : ∀ specifier ∈ clause.specifiers, removed specifier = true →
    ∀ place, specifier.start ≤ place → place < specifier.stop → Text.isCut cuts place = true
  others : ∀ place, Text.isCut cuts place = true →
    Text.isCut (lost removed clause.specifiers clause.commas) place = true ∨
    Text.isBlankAt text place = true ∨
      Text.isFeed text place = true ∨
      (Text.isReturn text place = true ∧ Text.isFeed text (place + 1) = true ∧
        Text.isCut cuts (place + 1) = true)
  breaks : Nat.count (fun place => Text.isFeed text place = true ∧ Text.isCut cuts place = true ∧
    Text.isCut (lost removed clause.specifiers clause.commas) place = false) (Text.size text) ≤
      (clause.specifiers.filter removed).length

theorem cuts_rewrite (text : String) (filler : UInt8 → Prop) (comments : List Span)
    (clause : Clause) (removed : Span → Bool) (list : clause.IsList text filler comments)
    (some : ∃ kept ∈ clause.specifiers, removed kept = false) :
    ∃ edited, Change.applyAll? text ((Batch.clauseCuts text clause removed).map Change.delete) =
      .some edited ∧
      Text.Leaves text (Batch.clauseCuts text clause removed) edited ∧
      Rewrites text edited filler comments clause removed
        (Batch.clauseCuts text clause removed) := by
  have pieces := Batch.clause_cuts_pieces text clause removed (list_placed list)
  have spans : ((Batch.clauseCuts text clause removed).map Change.delete).map Change.span =
      Batch.clauseCuts text clause removed := by
    rw [List.map_map]
    exact List.map_id _
  obtain ⟨edited, applied, left, -⟩ := Change.apply_all_apart text
    ((Batch.clauseCuts text clause removed).map Change.delete)
    (fun change member => by
      obtain ⟨cut, listed, rfl⟩ := List.mem_map.mp member
      exact ⟨rfl, pieces cut listed⟩)
    (spans.symm ▸ Batch.clause_cuts_apart text clause removed)
  rw [spans] at left
  obtain ⟨rewritten, trails⟩ := list_rewritten removed list some left
  obtain ⟨opens, closes⟩ := list_braces list
  refine ⟨edited, applied, left, rewritten, trails, ?_, ?_, specifier_goes removed list some,
    blanks_go removed list some,
    breaks_go removed list some⟩
  · exact Batch.clause_cut_inside text clause removed (list_placed list) (list_spaced list)
      opens closes
  · intro specifier member stays
    exact Text.under_moved left pieces specifier (list.pieces specifier member)
      (specifier_stays removed list specifier member stays)

def remarked : String := "\x7ba, /* b */ b\x7d"

def remarkedList : Clause := ⟨⟨0, 14⟩, [⟨1, 2⟩, ⟨12, 13⟩], [⟨2, 3⟩]⟩

theorem remarked_is_list : remarkedList.IsList remarked (fun byte => Text.isBlankByte byte = true)
    [⟨4, 11⟩] where
  opens := by decide +kernel
  closes := by decide +kernel
  tokens := .next (by decide) (by decide) (by decide) rfl
    (.last (by decide) (by decide) (by decide))
  pieces := by
    have ends : ∀ specifier ∈ remarkedList.specifiers, specifier.start < specifier.stop ∧
        Text.isBoundary remarked specifier.start = true ∧ Text.isBoundary remarked specifier.stop =
        true := by decide +kernel
    exact fun specifier member => ⟨(ends specifier member).1, (ends specifier member).2.1,
      (ends specifier member).2.2⟩
  inked := by decide +kernel
  commas := by decide +kernel
  commented := by
    intro comment member
    obtain rfl := List.mem_singleton.mp member
    refine ⟨.block (by decide) (by decide +kernel) (by decide +kernel),
      by decide, fun token listed => ?_⟩
    have apart : ∀ token ∈ remarkedList.specifiers ++ remarkedList.commas, token.stop ≤ 4 ∨
      11 ≤ token.start := by decide
    exact Or.symm (apart token (List.mem_append.mpr listed))
  gaps := by
    have bytes : ∀ place < 13,
      (∃ token ∈ remarkedList.specifiers ++ (remarkedList.commas ++ [⟨4, 11⟩]),
      token.contains place = true) ∨
        place = 0 ∨ (Text.bytes remarked)[place]? = some 32 := by decide +kernel
    intro place low high free
    rcases bytes place (Nat.lt_of_succ_lt_succ high) with ⟨token, member, covers⟩ | zero | blank
    · rw [List.mem_append, List.mem_append] at member
      rw [free token member] at covers
      cases covers
    · exact absurd zero (Nat.ne_of_gt low)
    · exact ⟨32, blank, rfl⟩

theorem remarked_is_rewritten :
    Change.applyAll? remarked
      ((Batch.clauseCuts remarked remarkedList (· == ⟨1, 2⟩)).map Change.delete) =
        some "\x7b/* b */ b\x7d" ∧
      Rewrites remarked "\x7b/* b */ b\x7d" (fun byte => Text.isBlankByte byte = true)
        [⟨4, 11⟩] remarkedList (· == ⟨1, 2⟩)
        (Batch.clauseCuts remarked remarkedList (· == ⟨1, 2⟩)) := by
  have result : Change.applyAll? remarked
    ((Batch.clauseCuts remarked remarkedList (· == ⟨1, 2⟩)).map Change.delete) =
      some "\x7b/* b */ b\x7d" := by decide +kernel
  obtain ⟨edited, applied, -, rewrites⟩ := cuts_rewrite remarked
    (fun byte => Text.isBlankByte byte = true) [⟨4, 11⟩]
    remarkedList (· == ⟨1, 2⟩) remarked_is_list ⟨⟨12, 13⟩, by decide, by decide⟩
  obtain rfl := Option.some.inj (applied.symm.trans result)
  exact ⟨result, rewrites⟩

end Clause

end DeadExports
