import DeadExports.Proofs.Candidate.Placement
import DeadExports.Proofs.Text.Splice
import DeadExports.Prune.Batch

set_option autoImplicit false

namespace DeadExports.Batch

theorem insert_span_pieces (text : String) (span : Span) (merged : List Span)
    (piece : span.IsPiece text) (pieces : ∀ one ∈ merged, one.IsPiece text) :
    ∀ one ∈ insertSpan span merged, one.IsPiece text := by
  intro one member
  cases merged with
  | nil => exact List.mem_singleton.mp member ▸ piece
  | cons last merged =>
      have lastPiece := pieces last List.mem_cons_self
      rw [insertSpan] at member
      split at member
      next =>
          rcases List.mem_cons.mp member with rfl | earlier
          · refine ⟨?_, lastPiece.opens, ?_⟩
            · have := lastPiece.filled
              dsimp only
              omega
            · rcases Nat.le_total last.stop span.stop with within | within
              · exact (Nat.max_eq_right within).symm ▸ piece.closes
              · exact (Nat.max_eq_left within).symm ▸ lastPiece.closes
          · exact pieces one (List.mem_cons_of_mem _ earlier)
      next =>
          rcases List.mem_cons.mp member with rfl | earlier
          · exact piece
          · exact pieces one earlier

theorem insert_span_filled (span : Span) (merged : List Span) : insertSpan span merged ≠ [] := by
  cases merged with
  | nil => exact List.cons_ne_nil _ _
  | cons last merged =>
      rw [insertSpan]
      split <;> exact List.cons_ne_nil _ _

theorem merge_all_pieces (text : String) (spans merged : List Span)
    (pieces : ∀ span ∈ spans, span.IsPiece text) (before : ∀ one ∈ merged, one.IsPiece text) :
    ∀ one ∈ spans.foldl (fun merged span => insertSpan span merged) merged, one.IsPiece text := by
  induction spans generalizing merged with
  | nil => exact before
  | cons first rest ih =>
      exact ih (insertSpan first merged)
        (fun span member => pieces span (List.mem_cons_of_mem _ member))
        (insert_span_pieces text first merged (pieces first List.mem_cons_self) before)

theorem merge_all_filled (spans merged : List Span) (filled : spans ≠ [] ∨ merged ≠ []) :
    spans.foldl (fun merged span => insertSpan span merged) merged ≠ [] := by
  induction spans generalizing merged with
  | nil => exact filled.resolve_left (fun some => some rfl)
  | cons first rest ih =>
      exact ih (insertSpan first merged)
        (.inr (insert_span_filled first merged))

theorem merge_spans_pieces (text : String) (spans : List Span)
    (pieces : ∀ span ∈ spans, span.IsPiece text) :
    ∀ one ∈ mergeSpans spans, one.IsPiece text := by
  intro one member
  exact merge_all_pieces text _ [] (fun span sorted => pieces span (List.mem_mergeSort.mp sorted))
    nofun one
    (List.mem_reverse.mp member)

theorem merge_spans_filled (spans : List Span) (filled : spans ≠ []) : mergeSpans spans ≠ [] := by
  rw [mergeSpans, ne_eq, List.reverse_eq_nil_iff]
  exact merge_all_filled _ [] (.inl (sorted_filled _ spans filled))

theorem comma_between (clause : Clause) (start stop : Nat) (comma : Span)
    (found : commaBetween? clause start stop = some comma) :
    comma ∈ clause.commas ∧ start ≤ comma.start := by
  have passes := List.find?_some found
  simp only [Bool.and_eq_true, decide_eq_true_eq] at passes
  exact ⟨List.mem_of_find?_eq_some found, passes.1⟩

theorem cut_with_comma_piece (text : String) (specifier comma : Span)
    (piece : specifier.IsPiece text) (commaPiece : comma.IsPiece text)
    (behind : specifier.stop ≤ comma.start) :
    (cutWithComma text specifier comma).IsPiece text := by
  have filled := piece.filled
  have commaFilled := commaPiece.filled
  have whole : Span.IsPiece text ⟨specifier.start, comma.stop⟩ := ⟨by dsimp only; omega,
    piece.opens, commaPiece.closes⟩
  rw [cutWithComma]
  cases own : Text.ownLine? text ⟨specifier.start, comma.stop⟩ with
  | some line => exact Text.own_line_piece text _ line whole own
  | none =>
      have further := Text.skip_blanks_le text comma.stop
      exact ⟨by dsimp only [Option.getD_none]; omega, piece.opens,
        Text.skip_blanks_boundary text comma.stop commaPiece.closes⟩

theorem cut_without_comma_pieces (text : String) (clause : Clause) (kept specifier : Span)
    (placed : clause.Placed text) (piece : specifier.IsPiece text) :
    ∀ cut ∈ cutWithoutComma text clause kept specifier, cut.IsPiece text := by
  have own : ((Text.ownLine? text specifier).getD
      ⟨Text.skipBlanksBack text specifier.start, specifier.stop⟩).IsPiece text := by
    cases own : Text.ownLine? text specifier with
    | some line => exact Text.own_line_piece text specifier line piece own
    | none =>
        have back := Text.skip_blanks_back_le text specifier.start
        have filled := piece.filled
        exact ⟨by dsimp only [Option.getD_none]; omega, Text.skip_blanks_back_boundary text _
          piece.opens, piece.closes⟩
  intro cut member
  rw [cutWithoutComma] at member
  split at member
  next comma found =>
      have commaPiece := placed.commas comma (comma_between clause _ _ comma found).1
      rcases List.mem_cons.mp member with rfl | last
      · exact own
      · obtain rfl := List.mem_singleton.mp last
        split
        next => exact commaPiece
        next =>
            have further := Text.skip_blanks_le text comma.stop
            have filled := commaPiece.filled
            exact ⟨by dsimp only; omega, commaPiece.opens, Text.skip_blanks_boundary text comma.stop
              commaPiece.closes⟩
  next => exact List.mem_singleton.mp member ▸ own

theorem cuts_of_pieces (text : String) (clause : Clause) (kept specifier : Span) (bound : Nat)
    (placed : clause.Placed text) (piece : specifier.IsPiece text) :
    ∀ cut ∈ cutsOf text clause kept specifier bound, cut.IsPiece text := by
  intro cut member
  rw [cutsOf] at member
  split at member
  next comma found =>
      obtain ⟨listed, behind⟩ := comma_between clause _ _ comma found
      exact List.mem_singleton.mp member ▸ cut_with_comma_piece text specifier comma piece
        (placed.commas comma listed) behind
  next => exact cut_without_comma_pieces text clause kept specifier placed piece cut member

theorem cuts_of_filled (text : String) (clause : Clause) (kept specifier : Span) (bound : Nat) :
    cutsOf text clause kept specifier bound ≠ [] := by
  rw [cutsOf, cutWithoutComma]
  split
  next => exact List.cons_ne_nil _ _
  next => split <;> exact List.cons_ne_nil _ _

theorem with_bounds_spans (stop : Nat) (spans : List Span) :
    (withBounds stop spans).map Prod.fst = spans := by
  fun_induction withBounds stop spans with
  | case1 => rfl
  | case2 last => rfl
  | case3 specifier next rest ih => rw [List.map_cons, ih]

theorem clause_cuts_pieces (text : String) (clause : Clause) (removed : Span → Bool)
    (placed : clause.Placed text) :
    ∀ cut ∈ clauseCuts text clause removed, cut.IsPiece text := by
  rw [clauseCuts]
  split
  next => exact nofun
  next kept _ =>
      refine merge_spans_pieces text _ ?_
      intro cut member
      obtain ⟨⟨specifier, bound⟩, listed, here⟩ := List.mem_flatMap.mp member
      dsimp only at here
      split at here
      next =>
          have among : specifier ∈ clause.specifiers :=
            with_bounds_spans clause.span.stop clause.specifiers ▸ List.mem_map_of_mem
              (f := Prod.fst) listed
          exact cuts_of_pieces text clause kept specifier bound placed
            (placed.pieces specifier among) cut here
      next => cases here

theorem clause_cuts_filled (text : String) (clause : Clause) (removed : Span → Bool)
    (kept gone : Span) (keptIn : kept ∈ clause.specifiers) (stays : removed kept = false)
    (goneIn : gone ∈ clause.specifiers) (goes : removed gone = true) :
    clauseCuts text clause removed ≠ [] := by
  rw [clauseCuts]
  split
  next none =>
      rw [lastKept?, List.getLast?_eq_none_iff] at none
      have stays' : kept ∈ clause.specifiers.filter fun span =>
        !removed span := List.mem_filter.mpr ⟨keptIn, by rw [stays]; rfl⟩
      rw [none] at stays'
      cases stays'
  next last _ =>
      refine merge_spans_filled _ ?_
      rw [← with_bounds_spans clause.span.stop clause.specifiers] at goneIn
      obtain ⟨⟨specifier, bound⟩, listed, rfl⟩ := List.mem_map.mp goneIn
      obtain ⟨cut, member⟩ := List.exists_mem_of_ne_nil _
        (cuts_of_filled text clause last specifier bound)
      refine List.ne_nil_of_mem (a := cut) (List.mem_flatMap.mpr ⟨(specifier, bound), listed, ?_⟩)
      dsimp only
      rw [if_pos goes]
      exact member

structure Adds (text : String) (plan next : Plan) (cuts : List Span) (removals : List Removal) :
    Prop where
  changes : next.batch.changes = plan.batch.changes ++ cuts.map Change.delete
  pieces : ∀ cut ∈ cuts, cut.IsPiece text
  removals : next.batch.removals = plan.batch.removals ++ removals

theorem adds_nothing (text : String) (plan next : Plan)
    (changes : next.batch.changes = plan.batch.changes)
    (removals : next.batch.removals = plan.batch.removals) : Adds text plan next [] [] where
  changes := by rw [changes, List.map_nil, List.append_nil]
  pieces := nofun
  removals := by rw [removals, List.append_nil]

theorem adds_trans (text : String) (plan middle next : Plan) (cuts moreCuts : List Span)
    (removals moreRemovals : List Removal) (first : Adds text plan middle cuts removals)
    (rest : Adds text middle next moreCuts moreRemovals) :
    Adds text plan next (cuts ++ moreCuts) (removals ++ moreRemovals) where
  changes := by rw [rest.changes, first.changes, List.map_append, List.append_assoc]
  pieces cut member := (List.mem_append.mp member).elim (first.pieces cut) (rest.pieces cut)
  removals := by rw [rest.removals, first.removals, List.append_assoc]

theorem adds_one (text : String) (plan next : Plan) (span code : Span) (piece : span.IsPiece text)
    (batch : next.batch = plan.batch.remove text span code) :
    Adds text plan next [span] [removalOf text code] where
  changes := by rw [batch]; rfl
  pieces cut member := List.mem_singleton.mp member ▸ piece
  removals := by rw [batch]; rfl

theorem record_all (text : String) (candidates : List Candidate) (batch : Batch) :
    candidates.foldl (fun batch candidate => batch.record text candidate.node) batch =
      { batch with
        removals := batch.removals ++ candidates.map fun candidate =>
          removalOf text candidate.node } := by
  induction candidates generalizing batch with
  | nil => rw [List.foldl_nil, List.map_nil, List.append_nil]
  | cons first rest ih =>
      rw [List.foldl_cons, ih, record, List.map_cons, List.append_assoc]
      rfl

theorem some_kept (specifiers : List Span) (siblings : List Candidate) (distinct : specifiers.Nodup)
    (fewer : siblings.length < specifiers.length) :
    ∃ kept ∈ specifiers, (siblings.any fun sibling => sibling.node == kept) = false := by
  apply Classical.byContradiction
  intro none
  have gone : specifiers ⊆ siblings.map Candidate.node := by
    intro span member
    cases found : siblings.any fun sibling => sibling.node == span with
    | false => exact absurd ⟨span, member, found⟩ none
    | true =>
        obtain ⟨sibling, among, same⟩ := List.any_eq_true.mp found
        exact List.mem_map.mpr ⟨sibling, among, beq_iff_eq.mp same⟩
  have bound := distinct.length_le_of_subset gone
  rw [List.length_map] at bound
  omega

theorem plan_clause_adds (text : String) (unused : List Candidate) (candidate : Candidate)
    (clause : Clause) (plan : Plan) (placed : candidate.Placed text)
    (clausePlaced : clause.Placed text) (member : candidate ∈ unused)
    (own : candidate.clause = some clause) (listed : candidate.node ∈ clause.specifiers) :
    ∃ cuts removals, Adds text plan (planClause text unused candidate clause plan) cuts removals ∧
      (plan.handled = [] → plan.hasCut = false → cuts ≠ [] ∧ removals ≠ []) := by
  have sibling : candidate ∈ inClause unused clause.span := by
    refine List.mem_filter.mpr ⟨member, ?_⟩
    rw [own]
    exact beq_self_eq_true _
  rw [planClause]
  split
  next handled =>
      refine ⟨[], [], adds_nothing text plan plan rfl rfl, fun fresh => ?_⟩
      rw [fresh] at handled
      cases handled
  next =>
      dsimp only
      split
      next =>
          exact ⟨_, _, adds_one text plan _ _ candidate.statement
            (Text.line_extent_piece text _ placed.statement) rfl,
            fun _ _ => ⟨List.cons_ne_nil _ _, List.cons_ne_nil _ _⟩⟩
      next fewer =>
          split
          next cutBefore =>
              refine ⟨[], [], adds_nothing text plan _ rfl rfl, fun _ fresh => ?_⟩
              rw [fresh] at cutBefore
              cases cutBefore
          next =>
              obtain ⟨kept, keptIn, stays⟩ :=
                some_kept clause.specifiers (inClause unused clause.span) clausePlaced.distinct
                  (Nat.lt_of_not_le fewer)
              have goes : ((inClause unused clause.span).any fun other => other.node ==
                  candidate.node) = true :=
                List.any_eq_true.mpr ⟨candidate, sibling, beq_self_eq_true _⟩
              refine ⟨_, _, ⟨by rw [record_all], clause_cuts_pieces text clause _ clausePlaced,
                by rw [record_all]⟩, fun _ _ => ?_⟩
              refine ⟨clause_cuts_filled text clause _ kept candidate.node keptIn stays listed
                goes, ?_⟩
              exact List.ne_nil_of_mem (List.mem_map_of_mem sibling)

theorem plan_candidate_adds (file : Path) (text : String) (unused : List Candidate) (plan : Plan)
    (candidate : Candidate) (placed : candidate.Placed text) (member : candidate ∈ unused) :
    ∃ next cuts removals, planCandidate file text unused plan candidate = .ok next ∧
      Adds text plan next cuts removals ∧
      (plan.handled = [] → plan.hasCut = false → cuts ≠ [] ∧ removals ≠ []) := by
  have stripped (other : candidate.kind ≠ .specifier) (further : candidate.kind ≠ .defaultValue) :
      ∃ word, candidate.exportWord = some word ∧
      Span.IsPiece text ⟨word.start, candidate.node.start⟩ := by
    obtain ⟨word, found, piece, before⟩ := placed.led other further
    have filled := piece.filled
    exact ⟨word, found, by dsimp only; omega, piece.opens, placed.node.opens⟩
  rw [planCandidate]
  split
  next isSpecifier =>
      obtain ⟨clause, own, clausePlaced, listed⟩ := placed.listed isSpecifier
      obtain ⟨cuts, removals, adds, filled⟩ := plan_clause_adds text unused candidate clause plan
        placed clausePlaced member own listed
      rw [own]
      exact ⟨_, cuts, removals, rfl, adds, filled⟩
  next =>
      exact ⟨_, _, _, rfl, adds_one text plan _ _ candidate.statement
        (Text.line_extent_piece text _ placed.statement) rfl,
        fun _ _ => ⟨List.cons_ne_nil _ _, List.cons_ne_nil _ _⟩⟩
  all_goals
      next kind =>
          obtain ⟨word, found, piece⟩ := stripped (by rw [kind]; exact nofun)
            (by rw [kind]; exact nofun)
          rw [found]
          exact ⟨_, _, _, rfl, adds_one text plan _ _ _ piece rfl, fun _ _ =>
            ⟨List.cons_ne_nil _ _, List.cons_ne_nil _ _⟩⟩

theorem plan_all_adds (file : Path) (text : String) (unused todo : List Candidate) (plan : Plan)
    (placed : ∀ candidate ∈ todo, candidate.Placed text) (within : todo ⊆ unused) :
    ∃ next cuts removals, todo.foldlM (planCandidate file text unused) plan = .ok next ∧
      Adds text plan next cuts removals := by
  induction todo generalizing plan with
  | nil => exact ⟨plan, [], [], rfl, adds_nothing text plan plan rfl rfl⟩
  | cons first rest ih =>
      obtain ⟨middle, cuts, removals, planned, adds, -⟩ :=
        plan_candidate_adds file text unused plan first
        (placed first List.mem_cons_self) (within List.mem_cons_self)
      obtain ⟨next, more, further, plannedRest, addsRest⟩ := ih middle
        (fun candidate member => placed candidate (List.mem_cons_of_mem _ member))
        (fun candidate member => within (List.mem_cons_of_mem _ member))
      refine ⟨next, cuts ++ more, removals ++ further, ?_, adds_trans text plan middle next _ _ _ _
        adds addsRest⟩
      rw [List.foldlM_cons, planned]
      exact plannedRest

theorem plan_cuts (file : Path) (text : String) (unused : List Candidate)
    (placed : ∀ candidate ∈ unused, candidate.Placed text) (filled : unused ≠ []) :
    ∃ batch, plan file text unused = .ok batch ∧ batch.changes ≠ [] ∧
      (∀ change ∈ batch.changes, change.IsCut text) ∧
      batch.removals ≠ [] := by
  obtain ⟨first, rest, rfl⟩ := List.exists_cons_of_ne_nil filled
  have later : rest ⊆ first :: rest := List.subset_cons_self first rest
  obtain ⟨middle, cuts, removals, planned, adds, some⟩ :=
    plan_candidate_adds file text (first :: rest) {} first (placed first List.mem_cons_self)
      List.mem_cons_self
  obtain ⟨cutsFilled, removalsFilled⟩ := some rfl rfl
  obtain ⟨next, more, further, plannedRest, addsRest⟩ :=
    plan_all_adds file text (first :: rest) rest middle
      (fun candidate member => placed candidate (later member)) later
  have all := adds_trans text {} middle next _ _ _ _ adds addsRest
  refine ⟨next.batch, ?_, ?_, ?_, ?_⟩
  · rw [plan, List.foldlM_cons, planned]
    exact congrArg (Except.map Plan.batch) plannedRest
  · rw [all.changes]
    simp [cutsFilled]
  · intro change member
    rw [all.changes] at member
    obtain ⟨cut, among, rfl⟩ := List.mem_map.mp member
    exact ⟨rfl, all.pieces cut among⟩
  · rw [all.removals]
    simp [removalsFilled]

end DeadExports.Batch
