import DeadExports.Proofs.Candidate.Territory

set_option autoImplicit false

namespace DeadExports

def Candidate.marker (candidate : Candidate) : Span :=
  match candidate.kind with
  | .specifier => candidate.node
  | .defaultValue => candidate.statement
  | _ => ⟨(candidate.exportWord.getD candidate.node).start, candidate.node.start⟩

namespace Text

def Takes (cuts : List Span) (span : Span) : Prop :=
  ∀ place, span.start ≤ place → place < span.stop → isCut cuts place = true

def Keeps (cuts : List Span) (span : Span) : Prop :=
  ∀ place, span.start ≤ place → place < span.stop → isCut cuts place = false

theorem takes_append (cuts more : List Span) (span : Span)
    (takes : Takes cuts span ∨ Takes more span) :
    Takes (cuts ++ more) span := by
  intro place low high
  rw [isCut, List.any_append, Bool.or_eq_true]
  rcases takes with left | right
  · exact .inl (left place low high)
  · exact .inr (right place low high)

theorem takes_within (cut span : Span) (starts : cut.start ≤ span.start)
    (stops : span.stop ≤ cut.stop) : Takes [cut] span :=
  fun _ _ _ => (cut_iff _ _).mpr ⟨cut, List.mem_singleton_self _, by omega⟩

end Text

namespace Batch

def goes (unused : List Candidate) (clause : Clause) (span : Span) : Bool :=
  (inClause unused clause.span).any fun sibling => sibling.node == span

inductive Reason (text : String) (unused : List Candidate) (candidate : Candidate) (cut : Span) :
    Prop
  | value (kind : candidate.kind = .defaultValue)
      (whole : cut = Text.lineExtent text candidate.statement)
  | list (clause : Clause) (own : candidate.clause = some clause)
      (all : clause.specifiers.length ≤ (inClause unused clause.span).length)
      (whole : cut = Text.lineExtent text candidate.statement)
  | items (clause : Clause) (own : candidate.clause = some clause)
      (fewer : (inClause unused clause.span).length < clause.specifiers.length)
      (listed : cut ∈ clauseCuts text clause (goes unused clause))
  | words (word : Span) (found : candidate.exportWord = some word)
      (unlisted : candidate.kind ≠ .specifier)
      (named : candidate.kind ≠ .defaultValue) (before : cut = ⟨word.start, candidate.node.start⟩)

structure Moves (text : String) (unused : List Candidate) (candidate : Candidate) (plan next : Plan)
    (cuts : List Span) (later : List Candidate) : Prop where
  changes : next.batch.changes = plan.batch.changes ++ cuts.map Change.delete
  deferred : next.batch.deferred = plan.batch.deferred + later.length
  handled : next.handled = plan.handled ++ (candidate.clause.map Clause.span).toList
  reasons : ∀ cut ∈ cuts, Reason text unused candidate cut
  apart : cuts.Pairwise Span.Apart
  putOff : later = [] ∨ ∃ clause, candidate.clause = some clause ∧
      later = inClause unused clause.span
  settled : ∀ other ∈ unused, other = candidate ∨
      (∃ clause, candidate.clause = some clause ∧ other ∈ inClause unused clause.span) →
    other ∈ later ∨ Text.Takes cuts other.marker

section Planning

variable {m : SourceModule} {unused : List Candidate}

theorem sibling_lists (exports : ∀ candidate ∈ unused, ∃ statement, m.Exports candidate statement)
    {candidate : Candidate} {statement clause : Tree} {specifier : Tree.Specifier}
    (lists : m.Lists candidate statement clause specifier) (other : Candidate)
    (sibling : other ∈ inClause unused clause.span) :
    other ∈ unused ∧ ∃ twin, m.Lists other statement clause twin := by
  obtain ⟨member, same⟩ := List.mem_filter.mp sibling
  obtain ⟨own, found, span⟩ := Option.map_eq_some_iff.mp (beq_iff_eq.mp same)
  obtain ⟨statement', exported⟩ := exports other member
  obtain ⟨clause', twin, lists', rfl⟩ := SourceModule.lists_of_clause exported own found
  obtain rfl := SourceModule.clause_statement lists lists' span.symm
  obtain rfl : clause = clause' := Option.some.inj (lists.found.symm.trans lists'.found)
  exact ⟨member, twin, lists'⟩

theorem sibling_self {candidate : Candidate} {statement clause : Tree} {specifier : Tree.Specifier}
    (lists : m.Lists candidate statement clause specifier) (member : candidate ∈ unused) :
    candidate ∈ inClause unused clause.span := by
  refine List.mem_filter.mpr ⟨member, ?_⟩
  rw [lists.same]
  exact beq_self_eq_true _

theorem lists_within {candidate : Candidate} {statement clause : Tree} {specifier : Tree.Specifier}
    (lists : m.Lists candidate statement clause specifier) :
    (statement.span.start ≤ clause.span.start ∧ clause.span.stop ≤ statement.span.stop) ∧
      clause.span.start < candidate.node.start ∧ candidate.node.stop < clause.span.stop := by
  have fits := Tree.fits_child m.text m.tree m.fits statement lists.stated
  obtain ⟨among, isClause, -⟩ := SourceModule.lists_clause lists
  obtain ⟨spaced, -⟩ := Tree.inked_clause m.text statement clause fits
    (m.statement_inked statement lists.stated) among isClause
  have inside := spaced.inside candidate.node (.inl (SourceModule.lists_node lists).1)
  exact ⟨Tree.child_within m.text statement fits clause among, inside.1, inside.2.2⟩

theorem goes_taken (exports : ∀ candidate ∈ unused, ∃ statement, m.Exports candidate statement)
    {candidate : Candidate} {statement clause : Tree} {specifier : Tree.Specifier}
    (lists : m.Lists candidate statement clause specifier)
    (fewer : (inClause unused clause.span).length < (Scan.clauseOf clause).specifiers.length)
    (other : Candidate) (sibling : other ∈ inClause unused clause.span) :
    Text.Takes (clauseCuts m.text (Scan.clauseOf clause) (goes unused (Scan.clauseOf clause)))
      other.node := by
  have fits := Tree.fits_child m.text m.tree m.fits statement lists.stated
  obtain ⟨among, isClause, clauseFits⟩ := SourceModule.lists_clause lists
  obtain ⟨spaced, -⟩ := Tree.inked_clause m.text statement clause fits
    (m.statement_inked statement lists.stated) among isClause
  have placed := Scan.clause_placed m.text clause clauseFits
  obtain ⟨-, twin, lists'⟩ := sibling_lists exports lists other sibling
  have kept := some_kept (Scan.clauseOf clause).specifiers (inClause unused clause.span)
    placed.distinct fewer
  have removed : goes unused (Scan.clauseOf clause) other.node = true :=
    List.any_eq_true.mpr ⟨other, sibling, beq_self_eq_true _⟩
  obtain ⟨core, listed, starts, stops⟩ := removed_core (Scan.clauseOf clause)
    (goes unused (Scan.clauseOf clause)) kept spaced
    other.node (SourceModule.lists_node lists').1 removed
  intro place low high
  refine clause_core_cut m.text _ _ placed core listed place ?_
  rw [Span.contains_iff]
  omega

theorem plan_clause_moves
    (exports : ∀ candidate ∈ unused, ∃ statement, m.Exports candidate statement)
    {candidate : Candidate} {statement clause : Tree} {specifier : Tree.Specifier}
    (lists : m.Lists candidate statement clause specifier) (member : candidate ∈ unused)
    (plan : Plan) (fresh : clause.span ∉ plan.handled) :
    ∃ cuts later, Moves m.text unused candidate plan
      (planClause m.text unused candidate (Scan.clauseOf clause) plan) cuts later := by
  have own : candidate.clause = some (Scan.clauseOf clause) := by rw [lists.same]; rfl
  -- whatever is said of this candidate is said of all unused names of its list
  have siblings (other : Candidate)
      (about : other = candidate ∨ ∃ list, candidate.clause = some list ∧
        other ∈ inClause unused list.span) :
      other ∈ inClause unused clause.span := by
    rcases about with rfl | ⟨list, found, sibling⟩
    · exact sibling_self lists member
    · obtain rfl := Option.some.inj (own.symm.trans found)
      exact sibling
  have marker (other : Candidate) (sibling : other ∈ inClause unused clause.span) :
      other.marker = other.node := by
    obtain ⟨-, twin, lists'⟩ := sibling_lists exports lists other sibling
    rw [lists'.same]
    rfl
  have unmet : ¬ plan.handled.contains (Scan.clauseOf clause).span = true := fun met =>
    fresh (List.contains_iff_mem.mp met)
  rw [planClause, if_neg unmet]
  dsimp only
  split
  next all =>
      refine ⟨[Text.lineExtent m.text candidate.statement], [], rfl, rfl,
        by rw [own]; rfl, ?_, List.pairwise_singleton _ _,
        .inl rfl, ?_⟩
      · intro cut listed
        exact .list (Scan.clauseOf clause) own all (List.mem_singleton.mp listed)
      · intro other _ about
        have sibling := siblings other about
        obtain ⟨-, twin, lists'⟩ := sibling_lists exports lists other sibling
        have same : candidate.statement = statement.span := by rw [lists.same]; rfl
        obtain ⟨outer, inner⟩ := lists_within lists'
        have front : (Text.lineExtent m.text statement.span).start ≤ statement.span.start :=
          Nat.sub_le _ _
        have behind : statement.span.stop ≤ (Text.lineExtent m.text statement.span).stop :=
          Nat.le_add_right _ _
        rw [marker other sibling, same]
        exact .inr (Text.takes_within _ _ (by omega) (by omega))
  next fewer =>
      have fewer : (inClause unused clause.span).length <
        (Scan.clauseOf clause).specifiers.length := Nat.lt_of_not_le fewer
      split
      next =>
          refine ⟨[], inClause unused clause.span, (List.append_nil _).symm, rfl,
            by rw [own]; rfl, ?_, List.Pairwise.nil,
            .inr ⟨_, own, rfl⟩, fun other _ about => .inl (siblings other about)⟩
          intro cut listed
          cases listed
      next =>
          refine ⟨clauseCuts m.text (Scan.clauseOf clause) (goes unused (Scan.clauseOf clause)), [],
            by rw [record_all]; rfl,
            by
              rw [record_all]; rfl, by
              rw [own]; rfl, fun cut listed => .items _ own fewer listed, clause_cuts_apart _ _ _,
            .inl rfl, ?_⟩
          intro other _ about
          have sibling := siblings other about
          rw [marker other sibling]
          exact .inr (goes_taken exports lists fewer other sibling)

theorem plan_declared_moves (file : Path) {candidate : Candidate} {statement : Tree}
    (declares : m.Declares candidate statement) (plan : Plan) :
    ∃ next cuts, planCandidate file m.text unused plan candidate = .ok next ∧
      Moves m.text unused candidate plan next cuts [] := by
  obtain ⟨target, targeted, -, -, noClause, leads, -⟩ := SourceModule.declares_parts declares
  have unlisted := SourceModule.declares_kind declares
  have fits := Tree.fits_child m.text m.tree m.fits statement declares.stated
  obtain ⟨word, -, found, -⟩ := Tree.word_before_target m.text statement target fits
    declares.isExport targeted
  have leads : candidate.exportWord = some word.span :=
    leads.trans (congrArg (Option.map Tree.span) found)
  have one (cut : Span) (next : Plan) (changes : next.batch.changes = plan.batch.changes ++
    [Change.delete cut])
      (deferred : next.batch.deferred = plan.batch.deferred) (handled : next.handled = plan.handled)
      (reason : Reason m.text unused candidate cut) (takes : Text.Takes [cut] candidate.marker) :
      Moves m.text unused candidate plan next [cut] [] := by
    refine ⟨changes, deferred, ?_, ?_, List.pairwise_singleton _ _, .inl rfl, ?_⟩
    · rw [handled, noClause]
      exact (List.append_nil _).symm
    · intro other listed
      exact List.mem_singleton.mp listed ▸ reason
    · rintro other - (rfl | ⟨clause, own, -⟩)
      · exact .inr takes
      · rw [noClause] at own
        cases own
  by_cases value : candidate.kind = .defaultValue
  · have front : (Text.lineExtent m.text candidate.statement).start ≤ candidate.statement.start :=
      Nat.sub_le _ _
    have behind : candidate.statement.stop ≤ (Text.lineExtent m.text candidate.statement).stop :=
      Nat.le_add_right _ _
    rw [planCandidate, value]
    refine ⟨_, _, rfl, one _ _ rfl rfl rfl (.value value rfl) ?_⟩
    rw [Candidate.marker, value]
    exact Text.takes_within _ _ front behind
  · have planned : planCandidate file m.text unused plan candidate =
        .ok { plan with
          batch := plan.batch.remove m.text ⟨word.span.start, candidate.node.start⟩
            ⟨word.span.start, candidate.node.start⟩ } := by
      rw [planCandidate, leads]
      cases kind : candidate.kind with
      | specifier => exact absurd kind unlisted
      | defaultValue => exact absurd kind value
      | _ => rfl
    have marker : candidate.marker = ⟨word.span.start, candidate.node.start⟩ := by
      rw [Candidate.marker, leads]
      cases kind : candidate.kind with
      | specifier => exact absurd kind unlisted
      | defaultValue => exact absurd kind value
      | _ => rfl
    refine ⟨_, _, planned, one _ _ rfl rfl rfl (.words word.span leads unlisted value rfl) ?_⟩
    rw [marker]
    exact Text.takes_within _ _ (Nat.le_refl _) (Nat.le_refl _)

theorem plan_candidate_moves (file : Path)
    (exports : ∀ candidate ∈ unused, ∃ statement, m.Exports candidate statement)
    (candidate : Candidate) (member : candidate ∈ unused) (plan : Plan) :
    ∃ next, planCandidate file m.text unused plan candidate = .ok next ∧
      ((∃ clause, candidate.clause = some clause ∧ clause.span ∈ plan.handled ∧ next = plan) ∨
        ((∀ clause, candidate.clause = some clause → clause.span ∉ plan.handled) ∧
          ∃ cuts later, Moves m.text unused candidate plan next cuts later)) := by
  obtain ⟨statement, ⟨clause, specifier, lists⟩ | declares⟩ := exports candidate member
  · have own : candidate.clause = some (Scan.clauseOf clause) := by rw [lists.same]; rfl
    have planned : planCandidate file m.text unused plan candidate =
        .ok (planClause m.text unused candidate (Scan.clauseOf clause) plan) := by
      have kind : candidate.kind = .specifier := by rw [lists.same]; rfl
      rw [planCandidate, kind, own]
    refine ⟨_, planned, ?_⟩
    by_cases met : clause.span ∈ plan.handled
    · exact .inl ⟨_, own, met, if_pos (List.contains_iff_mem.mpr met)⟩
    · refine .inr ⟨?_, plan_clause_moves exports lists member plan met⟩
      intro other found
      obtain rfl := Option.some.inj (own.symm.trans found)
      exact met
  · obtain ⟨next, cuts, planned, moves⟩ := plan_declared_moves file declares plan
    obtain ⟨_, -, -, -, noClause, -⟩ := SourceModule.declares_parts declares
    refine ⟨next, planned, .inr ⟨?_, cuts, [], moves⟩⟩
    intro clause found
    rw [noClause] at found
    cases found

theorem reason_placed {candidate : Candidate} {statement : Tree} {cut : Span}
    (exported : m.Exports candidate statement) (reason : Reason m.text unused candidate cut) :
    cut.IsPiece m.text ∧ (Text.lineExtent m.text statement.span).start ≤ cut.start ∧
      cut.stop ≤ (Text.lineExtent m.text statement.span).stop := by
  obtain ⟨stated, same⟩ := SourceModule.exports_stated exported
  have piece := Tree.child_piece m.text m.tree m.fits statement stated
  have fits := Tree.fits_child m.text m.tree m.fits statement stated
  have front : (Text.lineExtent m.text statement.span).start ≤ statement.span.start :=
    Nat.sub_le _ _
  have behind : statement.span.stop ≤ (Text.lineExtent m.text statement.span).stop :=
    Nat.le_add_right _ _
  have whole : (Text.lineExtent m.text statement.span).IsPiece m.text :=
    Text.line_extent_piece m.text _ piece
  cases reason with
  | value _ lines =>
      rw [lines, same]
      exact ⟨whole, Nat.le_refl _, Nat.le_refl _⟩
  | list _ _ _ lines =>
      rw [lines, same]
      exact ⟨whole, Nat.le_refl _, Nat.le_refl _⟩
  | items own found _ listed =>
      obtain ⟨clause, specifier, lists, rfl⟩ := SourceModule.lists_of_clause exported own found
      obtain ⟨among, isClause, clauseFits⟩ := SourceModule.lists_clause lists
      obtain ⟨spaced, ⟨opens, closes⟩, -⟩ :=
        Tree.inked_clause m.text statement clause fits (m.statement_inked statement stated)
          among isClause
      have placed := Scan.clause_placed m.text clause clauseFits
      have cutPiece := clause_cuts_pieces m.text _ _ placed cut listed
      have filled := cutPiece.filled
      have inside (place : Nat) (low : cut.start ≤ place) (high : place < cut.stop) :=
        clause_cut_inside m.text _ _ placed spaced opens closes place
          ((Text.cut_iff _ _).mpr ⟨cut, listed, low, high⟩)
      have first := inside cut.start (Nat.le_refl _) filled
      have last := inside (cut.stop - 1) (by omega) (by omega)
      have within := (lists_within lists).1
      dsimp only [Scan.clauseOf] at first last
      exact ⟨cutPiece, by omega, by omega⟩
  | words word found unlisted named before =>
      rcases exported with ⟨clause, specifier, lists⟩ | declares
      · exact absurd (by rw [lists.same]; rfl) unlisted
      · obtain ⟨target, targeted, node, -, -, leads, -⟩ := SourceModule.declares_parts declares
        obtain ⟨tree, inside, first, order⟩ := Tree.word_before_target m.text statement target fits
          declares.isExport targeted
        have here : some word = some tree.span := (found.symm.trans leads).trans (congrArg
          (Option.map Tree.span) first)
        obtain rfl := Option.some.inj here
        have among := Tree.export_target_member statement target targeted
        have wordPiece := Tree.child_piece m.text statement fits tree inside
        have targetPiece := Tree.child_piece m.text statement fits target among
        have within := Tree.child_within m.text statement fits tree inside
        have within' := Tree.child_within m.text statement fits target among
        have filled := wordPiece.filled
        have filled' := targetPiece.filled
        rw [before, node]
        exact ⟨⟨by dsimp only; omega, wordPiece.opens, targetPiece.opens⟩,
          by dsimp only; omega, by dsimp only; omega⟩

structure Covers (m : SourceModule) (unused done : List Candidate) (plan : Plan) (cuts : List Span)
    (later : List Candidate) :
    Prop where
  changes : plan.batch.changes = cuts.map Change.delete
  apart : cuts.Pairwise Span.Apart
  reasons : ∀ cut ∈ cuts, ∃ candidate ∈ done, Reason m.text unused candidate cut
  handled : ∀ span, span ∈ plan.handled ↔ ∃ candidate ∈ done, ∃ clause,
      candidate.clause = some clause ∧ clause.span = span
  deferred : plan.batch.deferred = later.length
  distinct : later.Nodup
  listed : ∀ candidate ∈ later, candidate ∈ unused ∧ ∃ clause, candidate.clause = some clause ∧
      clause.span ∈ plan.handled
  settled : ∀ candidate ∈ unused, candidate ∈ done ∨
      (∃ clause, candidate.clause = some clause ∧ clause.span ∈ plan.handled) →
    candidate ∈ later ∨ Text.Takes cuts candidate.marker

theorem mem_in_clause (span : Span) (candidate : Candidate) :
    candidate ∈ inClause unused span ↔ candidate ∈ unused ∧ ∃ clause, candidate.clause =
      some clause ∧ clause.span = span := by
  rw [inClause, List.mem_filter, beq_iff_eq, Option.map_eq_some_iff]

theorem handled_next {candidate : Candidate} {done : List Candidate} {plan next : Plan}
    {cuts new : List Span} {later more : List Candidate}
    (covers : Covers m unused done plan cuts later)
    (moves : Moves m.text unused candidate plan next new more) (span : Span) :
    span ∈ next.handled ↔
      ∃ other ∈ done ++ [candidate], ∃ clause, other.clause = some clause ∧ clause.span = span := by
  have own : span ∈ (candidate.clause.map Clause.span).toList ↔ ∃ clause,
      candidate.clause = some clause ∧ clause.span = span := by
    rw [Option.mem_toList, Option.map_eq_some_iff]
  rw [moves.handled, List.mem_append, covers.handled span, own]
  constructor
  · rintro (⟨other, early, found⟩ | found)
    · exact ⟨other, List.mem_append_left _ early, found⟩
    · exact ⟨candidate, List.mem_append_right _ (List.mem_singleton_self _), found⟩
  · rintro ⟨other, among, found⟩
    rcases List.mem_append.mp among with early | last
    · exact .inl ⟨other, early, found⟩
    · exact .inr (List.mem_singleton.mp last ▸ found)

theorem moves_apart (exports : ∀ candidate ∈ unused, ∃ statement, m.Exports candidate statement)
    {candidate : Candidate} {done : List Candidate} {plan next : Plan} {cuts new : List Span}
    {later more : List Candidate} (covers : Covers m unused done plan cuts later)
    (moves : Moves m.text unused candidate plan next new more) (within : done ⊆ unused)
    (member : candidate ∈ unused) (unseen : candidate ∉ done)
    (fresh : ∀ clause, candidate.clause = some clause → clause.span ∉ plan.handled) :
    ∀ old ∈ cuts, ∀ cut ∈ new, old.Apart cut := by
  intro old early cut last
  obtain ⟨other, seen, reason⟩ := covers.reasons old early
  obtain ⟨statement, exported⟩ := exports candidate member
  obtain ⟨statement', exported'⟩ := exports other (within seen)
  have differ : statement' ≠ statement := by
    rintro rfl
    rcases SourceModule.exports_alone exported exported'
      with rfl | ⟨clause, specifier, twin, lists, lists'⟩
    · exact unseen seen
    · have own : candidate.clause = some (Scan.clauseOf clause) := by rw [lists.same]; rfl
      have own' : other.clause = some (Scan.clauseOf clause) := by rw [lists'.same]; rfl
      exact fresh _ own ((covers.handled _).mpr ⟨other, seen, _, own', rfl⟩)
  have apart := m.lines_apart statement' statement (SourceModule.exports_stated exported').1
    (SourceModule.exports_stated exported).1 differ
  obtain ⟨-, starts, stops⟩ := reason_placed exported' reason
  obtain ⟨-, starts', stops'⟩ := reason_placed exported (moves.reasons cut last)
  rcases apart with before | after
  · exact .inl (by omega)
  · exact .inr (by omega)

theorem moves_distinct {candidate : Candidate} {done : List Candidate} {plan next : Plan}
    {cuts new : List Span} {later more : List Candidate}
    (covers : Covers m unused done plan cuts later)
    (moves : Moves m.text unused candidate plan next new more) (nodup : unused.Nodup)
    (fresh : ∀ clause, candidate.clause = some clause → clause.span ∉ plan.handled) :
    (later ++ more).Nodup := by
  refine List.nodup_append.mpr ⟨covers.distinct, ?_, ?_⟩
  · rcases moves.putOff with none | ⟨clause, -, some⟩
    · exact none ▸ List.nodup_nil
    · exact some ▸ nodup.filter _
  · rintro other early twin late rfl
    rcases moves.putOff with none | ⟨clause, own, some⟩
    · rw [none] at late
      cases late
    · rw [some, mem_in_clause] at late
      obtain ⟨-, list, found, met⟩ := covers.listed other early
      obtain ⟨-, list', found', span⟩ := late
      obtain rfl := Option.some.inj (found.symm.trans found')
      exact fresh clause own (span ▸ met)

theorem covers_met (done : List Candidate) (plan : Plan) (cuts : List Span) (later : List Candidate)
    (covers : Covers m unused done plan cuts later) (candidate : Candidate) (clause : Clause)
    (own : candidate.clause = some clause) (met : clause.span ∈ plan.handled) :
    Covers m unused (done ++ [candidate]) plan cuts later := by
  refine ⟨covers.changes, covers.apart, ?_, ?_, covers.deferred, covers.distinct, covers.listed, ?_⟩
  · intro cut listed
    obtain ⟨other, early, reason⟩ := covers.reasons cut listed
    exact ⟨other, List.mem_append_left _ early, reason⟩
  · intro span
    rw [covers.handled span]
    constructor
    · rintro ⟨other, early, found⟩
      exact ⟨other, List.mem_append_left _ early, found⟩
    · rintro ⟨other, among, found⟩
      rcases List.mem_append.mp among with early | last
      · exact ⟨other, early, found⟩
      · obtain rfl := List.mem_singleton.mp last
        obtain ⟨list, found, rfl⟩ := found
        obtain rfl := Option.some.inj (own.symm.trans found)
        exact (covers.handled _).mp met
  · rintro other listed (among | handled)
    · rcases List.mem_append.mp among with early | last
      · exact covers.settled other listed (.inl early)
      · obtain rfl := List.mem_singleton.mp last
        exact covers.settled other listed (.inr ⟨clause, own, met⟩)
    · exact covers.settled other listed (.inr handled)

theorem covers_step (file : Path)
    (exports : ∀ candidate ∈ unused, ∃ statement, m.Exports candidate statement)
    (nodup : unused.Nodup) (done : List Candidate) (plan : Plan) (cuts : List Span)
    (later : List Candidate) (covers : Covers m unused done plan cuts later)
    (within : done ⊆ unused) (candidate : Candidate) (member : candidate ∈ unused)
    (unseen : candidate ∉ done) :
    ∃ next cuts later, planCandidate file m.text unused plan candidate = .ok next ∧
      Covers m unused (done ++ [candidate]) next cuts later := by
  obtain ⟨next, planned, ⟨clause, own, met, rfl⟩ | ⟨fresh, new, more, moves⟩⟩ :=
    plan_candidate_moves file exports candidate member plan
  · exact ⟨next, cuts, later, planned, covers_met done next cuts later covers candidate
      clause own met⟩
  · have handled := handled_next covers moves
    refine ⟨next, cuts ++ new, later ++ more, planned, ?_, ?_, ?_, handled, ?_,
      moves_distinct covers moves nodup fresh, ?_, ?_⟩
    · rw [moves.changes, covers.changes, List.map_append]
    · exact List.pairwise_append.mpr
        ⟨covers.apart, moves.apart, moves_apart exports covers moves within member unseen fresh⟩
    · intro cut listed
      rcases List.mem_append.mp listed with early | last
      · obtain ⟨other, seen, reason⟩ := covers.reasons cut early
        exact ⟨other, List.mem_append_left _ seen, reason⟩
      · exact ⟨candidate, List.mem_append_right _ (List.mem_singleton_self _),
          moves.reasons cut last⟩
    · rw [moves.deferred, covers.deferred, List.length_append]
    · intro other among
      rcases List.mem_append.mp among with early | late
      · obtain ⟨listed, clause, found, met⟩ := covers.listed other early
        exact ⟨listed, clause, found, moves.handled ▸ List.mem_append_left _ met⟩
      · rcases moves.putOff with none | ⟨clause, own, some⟩
        · rw [none] at late
          cases late
        · rw [some, mem_in_clause] at late
          obtain ⟨listed, list, found, span⟩ := late
          exact ⟨listed, list, found, (handled _).mpr
            ⟨candidate, List.mem_append_right _ (List.mem_singleton_self _), clause, own,
              span.symm⟩⟩
    · intro other listed about
      -- it was settled before, or its list is met now
      have now : (other ∈ done ∨ ∃ clause, other.clause = some clause ∧
        clause.span ∈ plan.handled) ∨
          (other = candidate ∨ ∃ clause, candidate.clause = some clause ∧
            other ∈ inClause unused clause.span) := by
        rcases about with among | ⟨clause, found, met⟩
        · rcases List.mem_append.mp among with early | last
          · exact .inl (.inl early)
          · exact .inr (.inl (List.mem_singleton.mp last))
        · rw [moves.handled, List.mem_append, Option.mem_toList, Option.map_eq_some_iff] at met
          rcases met with before | ⟨own, here, span⟩
          · exact .inl (.inr ⟨clause, found, before⟩)
          · exact .inr (.inr ⟨own, here, (mem_in_clause _ _).mpr
              ⟨listed, clause, found, span.symm⟩⟩)
      rcases now with before | here
      · rcases covers.settled other listed before with put | taken
        · exact .inl (List.mem_append_left _ put)
        · exact .inr (Text.takes_append _ _ _ (.inl taken))
      · rcases moves.settled other listed here with put | taken
        · exact .inl (List.mem_append_right _ put)
        · exact .inr (Text.takes_append _ _ _ (.inr taken))

theorem covers_run (file : Path)
    (exports : ∀ candidate ∈ unused, ∃ statement, m.Exports candidate statement)
    (nodup : unused.Nodup) (todo done : List Candidate) (whole : unused = done ++ todo)
    (plan : Plan) (cuts : List Span) (later : List Candidate)
    (covers : Covers m unused done plan cuts later) :
    ∃ next cuts later, todo.foldlM (planCandidate file m.text unused) plan = .ok next ∧
      Covers m unused unused next cuts later := by
  induction todo generalizing done plan cuts later with
  | nil =>
      rw [List.append_nil] at whole
      exact ⟨plan, cuts, later, rfl, whole ▸ covers⟩
  | cons first rest ih =>
      have within : done ⊆ unused := whole ▸ List.subset_append_left done (first :: rest)
      have member : first ∈ unused := whole ▸ List.mem_append_right done List.mem_cons_self
      have unseen : first ∉ done := by
        intro seen
        rw [whole, List.nodup_append] at nodup
        exact nodup.2.2 first seen first List.mem_cons_self rfl
      obtain ⟨middle, cuts, later, planned, covers⟩ :=
        covers_step file exports nodup done plan cuts later covers within first member unseen
      obtain ⟨next, cuts, later, plannedRest, covers⟩ :=
        ih (done ++ [first]) (by rw [whole, List.append_assoc]; rfl) middle cuts later covers
      refine ⟨next, cuts, later, ?_, covers⟩
      rw [List.foldlM_cons, planned]
      exact plannedRest

theorem plan_covers (file : Path)
    (exports : ∀ candidate ∈ unused, ∃ statement, m.Exports candidate statement)
    (nodup : unused.Nodup) :
    ∃ next cuts later, plan file m.text unused = .ok next.batch ∧
      Covers m unused unused next cuts later := by
  have start : Covers m unused [] {} [] [] :=
    ⟨rfl, List.Pairwise.nil, nofun, fun span => ⟨nofun, nofun⟩, rfl, List.nodup_nil, nofun,
      fun _ _ about => by simp at about⟩
  obtain ⟨next, cuts, later, planned, covers⟩ := covers_run file exports nodup unused [] rfl {}
    [] [] start
  refine ⟨next, cuts, later, ?_, covers⟩
  rw [plan]
  exact congrArg (Except.map Plan.batch) planned

theorem cut_owner (exports : ∀ candidate ∈ unused, ∃ statement, m.Exports candidate statement)
    {next : Plan} {cuts : List Span} {later : List Candidate}
    (covers : Covers m unused unused next cuts later) (statement : Tree)
    (stated : statement ∈ m.tree.children) (place : Nat) (low : statement.span.start ≤ place)
    (high : place < statement.span.stop) (gone : Text.isCut cuts place = true) :
    ∃ candidate ∈ unused, m.Exports candidate statement ∧
      ∃ cut, Reason m.text unused candidate cut ∧ cut.start ≤ place ∧ place < cut.stop := by
  obtain ⟨cut, listed, starts, stops⟩ := (Text.cut_iff cuts place).mp gone
  obtain ⟨candidate, member, reason⟩ := covers.reasons cut listed
  obtain ⟨statement', exported⟩ := exports candidate member
  obtain ⟨-, first, last⟩ := reason_placed exported reason
  have front : (Text.lineExtent m.text statement.span).start ≤ statement.span.start :=
    Nat.sub_le _ _
  have behind : statement.span.stop ≤ (Text.lineExtent m.text statement.span).stop :=
    Nat.le_add_right _ _
  by_cases same : statement' = statement
  · exact ⟨candidate, member, same ▸ exported, cut, reason, starts, stops⟩
  · rcases m.lines_apart statement' statement (SourceModule.exports_stated exported).1 stated same
      with before | after <;> omega

theorem all_listed (exports : ∀ candidate ∈ unused, ∃ statement, m.Exports candidate statement)
    (nodup : unused.Nodup) {candidate : Candidate} {statement clause : Tree}
    {specifier : Tree.Specifier} (lists : m.Lists candidate statement clause specifier)
    (all : (Scan.clauseOf clause).specifiers.length ≤ (inClause unused clause.span).length) :
    candidate ∈ unused := by
  obtain ⟨-, -, fits⟩ := SourceModule.lists_clause lists
  have siblings := fun other sibling => sibling_lists exports lists other sibling
  have nodes : ((inClause unused clause.span).map Candidate.node).Nodup := by
    refine List.Nodup.map_on (fun a inA b inB same => ?_) (nodup.filter _)
    obtain ⟨-, twin, listsA⟩ := siblings a inA
    obtain ⟨-, twin', listsB⟩ := siblings b inB
    exact SourceModule.lists_unique listsA listsB same
  have among : (inClause unused clause.span).map Candidate.node ⊆
      (Scan.clauseOf clause).specifiers := by
    intro node member
    obtain ⟨other, sibling, rfl⟩ := List.mem_map.mp member
    obtain ⟨-, twin, lists'⟩ := siblings other sibling
    exact (SourceModule.lists_node lists').1
  have same := (nodes.subperm among).perm_of_length_le (by rwa [List.length_map])
  obtain ⟨other, sibling, node⟩ :=
    List.mem_map.mp (same.mem_iff.mpr (SourceModule.lists_node lists).1)
  obtain ⟨member, twin, lists'⟩ := siblings other sibling
  exact SourceModule.lists_unique lists' lists node ▸ member

theorem listed_kept (exports : ∀ candidate ∈ unused, ∃ statement, m.Exports candidate statement)
    (nodup : unused.Nodup) {next : Plan} {cuts : List Span} {later : List Candidate}
    (covers : Covers m unused unused next cuts later) {candidate : Candidate}
    {statement clause : Tree} {specifier : Tree.Specifier}
    (lists : m.Lists candidate statement clause specifier) (used : candidate ∉ unused) :
    Text.Keeps cuts candidate.node ∧ ∀ child ∈ statement.children, child ≠ clause →
      Text.Keeps cuts child.span := by
  have fits := Tree.fits_child m.text m.tree m.fits statement lists.stated
  obtain ⟨among, isClause, clauseFits⟩ := SourceModule.lists_clause lists
  obtain ⟨spaced, ⟨opens, closes⟩, inked, -⟩ :=
    Tree.inked_clause m.text statement clause fits (m.statement_inked statement lists.stated)
      among isClause
  have placed := Scan.clause_placed m.text clause clauseFits
  -- the list is cut, if at all, for other names of it
  have trimmed (place : Nat) (low : statement.span.start ≤ place)
    (high : place < statement.span.stop)
      (gone : Text.isCut cuts place = true) :
      Text.isCut (clauseCuts m.text (Scan.clauseOf clause) (goes unused (Scan.clauseOf clause)))
      place = true := by
    obtain ⟨other, member, exported, cut, reason, starts, stops⟩ :=
      cut_owner exports covers statement lists.stated place low high gone
    rcases SourceModule.exports_alone (.inl ⟨clause, specifier, lists⟩) exported
      with rfl | ⟨clause', first, second, lists', others⟩
    · exact absurd member used
    · obtain rfl : clause = clause' := Option.some.inj (lists.found.symm.trans lists'.found)
      have own : other.clause = some (Scan.clauseOf clause) := by rw [others.same]; rfl
      have kind : other.kind = .specifier := by rw [others.same]; rfl
      cases reason with
      | value isValue =>
          rw [kind] at isValue
          cases isValue
      | list list found all =>
          obtain rfl := Option.some.inj (own.symm.trans found)
          exact absurd (all_listed exports nodup lists all) used
      | items list found _ listed =>
          obtain rfl := Option.some.inj (own.symm.trans found)
          exact (Text.cut_iff _ _).mpr ⟨cut, listed, starts, stops⟩
      | words _ _ unlisted => exact absurd kind unlisted
  have within := lists_within lists
  refine ⟨fun place low high => ?_, fun child inside differ place low high => ?_⟩
  · obtain ⟨listed, node⟩ := SourceModule.lists_node lists
    have stays : goes unused (Scan.clauseOf clause) candidate.node = false := by
      rw [goes, List.any_eq_false]
      intro other sibling same
      obtain ⟨member, twin, others⟩ := sibling_lists exports lists other sibling
      exact used (SourceModule.lists_unique lists others (beq_iff_eq.mp same).symm ▸ member)
    have keeps := clause_cuts_keep m.text (Scan.clauseOf clause)
      (goes unused (Scan.clauseOf clause)) placed candidate.node
      (inked _ listed).1 (Text.ink_not_blank m.text _ (inked _ listed).2) (fun core isCore => by
        obtain ⟨⟨-, filled, -⟩, apart⟩ := core_placed _ _ spaced core isCore
        exact ⟨filled, apart candidate.node listed stays⟩) place low high
    rw [← Bool.not_eq_true]
    intro gone
    rw [trimmed place (by omega) (by omega) gone] at keeps
    cases keeps
  · have bounds := Tree.child_within m.text statement fits child inside
    have apart := Tree.children_apart m.text statement fits child clause inside among differ
    rw [← Bool.not_eq_true]
    intro gone
    have here := clause_cut_inside m.text _ _ placed spaced opens closes place
      (trimmed place (by omega) (by omega) gone)
    dsimp only [Scan.clauseOf] at here
    rcases apart with before | after <;> omega

theorem statement_kept (exports : ∀ candidate ∈ unused, ∃ statement, m.Exports candidate statement)
    {next : Plan} {cuts : List Span} {later : List Candidate}
    (covers : Covers m unused unused next cuts later) (statement : Tree)
    (stated : statement ∈ m.tree.children)
    (used : ∀ candidate ∈ unused, ¬ m.Exports candidate statement) :
    Text.Keeps cuts statement.span := by
  intro place low high
  rw [← Bool.not_eq_true]
  intro gone
  obtain ⟨candidate, member, exported, -⟩ := cut_owner exports covers statement stated place low
    high gone
  exact used candidate member exported

theorem marker_piece {candidate : Candidate} {statement : Tree}
    (exported : m.Exports candidate statement) :
    candidate.marker.IsPiece m.text := by
  obtain ⟨stated, same⟩ := SourceModule.exports_stated exported
  have fits := Tree.fits_child m.text m.tree m.fits statement stated
  rcases exported with ⟨clause, specifier, lists⟩ | declares
  · obtain ⟨-, -, clauseFits⟩ := SourceModule.lists_clause lists
    obtain ⟨member, -⟩ := (Tree.mem_clause_specifiers clause specifier).mp lists.listed
    have piece := Tree.child_piece m.text clause clauseFits specifier.node member
    rw [lists.same]
    exact piece
  · have piece := Tree.child_piece m.text m.tree m.fits statement stated
    obtain ⟨target, targeted, node, -, -, leads, -⟩ := SourceModule.declares_parts declares
    obtain ⟨word, inside, found, order⟩ := Tree.word_before_target m.text statement target fits
      declares.isExport targeted
    have wordPiece := Tree.child_piece m.text statement fits word inside
    have filled := wordPiece.filled
    have targetPiece := Tree.child_piece m.text statement fits target
      (Tree.export_target_member statement target targeted)
    have leads : candidate.exportWord = some word.span :=
      leads.trans (congrArg (Option.map Tree.span) found)
    have unlisted := SourceModule.declares_kind declares
    rw [Candidate.marker, leads, node, same]
    cases kind : candidate.kind with
    | specifier => exact absurd kind unlisted
    | defaultValue => exact piece
    | _ => exact ⟨by dsimp only [Option.getD_some]; omega, wordPiece.opens, targetPiece.opens⟩

theorem plan_carried_out (file : Path)
    (exports : ∀ candidate ∈ unused, ∃ statement, m.Exports candidate statement)
    (nodup : unused.Nodup) :
    ∃ next cuts later edited, plan file m.text unused = .ok next.batch ∧
      Covers m unused unused next cuts later ∧
      next.batch.changes.map Change.span = cuts ∧
      (∀ change ∈ next.batch.changes, change.IsCut m.text) ∧
      Change.applyAll? m.text next.batch.changes = some edited ∧ Text.Leaves m.text cuts edited ∧
      Text.size edited + (cuts.map Span.length).sum = Text.size m.text := by
  obtain ⟨next, cuts, later, planned, covers⟩ := plan_covers file exports nodup
  have spans : next.batch.changes.map Change.span = cuts := by
    rw [covers.changes, List.map_map]
    exact List.map_id cuts
  have pieces : ∀ change ∈ next.batch.changes, change.IsCut m.text := by
    rw [covers.changes]
    intro change member
    obtain ⟨cut, listed, rfl⟩ := List.mem_map.mp member
    obtain ⟨candidate, among, reason⟩ := covers.reasons cut listed
    obtain ⟨statement, exported⟩ := exports candidate among
    exact ⟨rfl, (reason_placed exported reason).1⟩
  obtain ⟨edited, applied, left, length⟩ :=
    Change.apply_all_apart m.text next.batch.changes pieces (spans.symm ▸ covers.apart)
  rw [spans] at left length
  exact ⟨next, cuts, later, edited, planned, covers, spans, pieces, applied, left, length⟩

end Planning

theorem overlaps_apart (a b : Span) (apart : a.Apart b) : a.overlaps b = false := by
  rw [Span.overlaps, Bool.and_eq_false_iff, decide_eq_false_iff_not, decide_eq_false_iff_not]
  rcases apart with before | after
  · exact .inr (by omega)
  · exact .inl (by omega)

-- A plan for some candidates of a module can be carried out: its cuts do not meet, so all of them
-- are made; every candidate goes or is counted as put off; and every other export keeps its word,
-- its names and what it exports.
theorem plan_is_exact (m : SourceModule) (marker : String) (file : Path) (unused : List Candidate)
    (within : unused ⊆ (m.scan marker).candidates) (nodup : unused.Nodup) :
    ∃ batch edited later, plan file m.text unused = .ok batch ∧
      ((∀ change ∈ batch.changes, change.IsCut m.text) ∧
        batch.changes.Pairwise fun a b => a.span.overlaps b.span = false) ∧
      (Change.applyAll? m.text batch.changes = some edited ∧
        Text.Leaves m.text (batch.changes.map Change.span) edited ∧
        Text.size edited + ((batch.changes.map Change.span).map Span.length).sum =
          Text.size m.text) ∧
      (later ⊆ unused ∧ later.Nodup ∧ later.length = batch.deferred ∧
        ∀ candidate ∈ unused, candidate ∈ later ∨
          (candidate.marker.IsPiece m.text ∧ Text.Takes (batch.changes.map Change.span)
            candidate.marker)) ∧
      (∀ one ∈ m.examined marker, one.candidate ∉ unused →
        (∀ word, one.candidate.exportWord = some word →
          Text.Keeps (batch.changes.map Change.span) word) ∧
          Text.Keeps (batch.changes.map Change.span) one.candidate.node ∧
          ∀ span ∈ one.candidate.identifiers, Text.Keeps (batch.changes.map Change.span) span) ∧
      ∀ statement ∈ m.tree.children, (∀ candidate ∈ unused, candidate.statement ≠ statement.span) →
        Text.Keeps (batch.changes.map Change.span) statement.span := by
  have exports := m.candidates_export marker unused within
  obtain ⟨next, cuts, later, edited, planned, covers, spans, pieces, applied, left, length⟩ :=
    plan_carried_out file exports nodup
  have apart : next.batch.changes.Pairwise fun a b => a.span.overlaps b.span = false := by
    have apart := covers.apart
    rw [← spans, List.pairwise_map] at apart
    exact apart.imp fun both => overlaps_apart _ _ both
  refine ⟨next.batch, edited, later, planned, ⟨pieces, apart⟩,
    ⟨applied, spans.symm ▸ left, spans.symm ▸ length⟩, ?_, ?_, ?_⟩
  · refine ⟨fun candidate put => (covers.listed candidate put).1, covers.distinct,
      covers.deferred.symm, ?_⟩
    intro candidate member
    obtain ⟨statement, exported⟩ := exports candidate member
    rcases covers.settled candidate member (.inl member) with put | taken
    · exact .inl put
    · exact .inr ⟨marker_piece exported, spans.symm ▸ taken⟩
  · intro one examined used
    obtain ⟨statement, exported⟩ := m.examined_exports marker one examined
    rw [spans]
    rcases exported with ⟨clause, specifier, lists⟩ | declares
    · obtain ⟨node, others⟩ := listed_kept exports nodup covers lists used
      refine ⟨fun word found => ?_, node, fun span named place low high => ?_⟩
      · rw [lists.same] at found
        obtain ⟨tree, first, rfl⟩ := Option.map_eq_some_iff.mp found
        obtain ⟨inside, isWord⟩ := Tree.child_of_kind_cases statement _ tree first
        refine others tree inside ?_
        rintro rfl
        rw [(SourceModule.lists_clause lists).2.1] at isWord
        cases isWord
      · have inside := SourceModule.lists_identifiers lists span named
        exact node place (by omega) (by omega)
    · have keeps := statement_kept exports covers statement declares.stated fun candidate member
          other => by
        rcases SourceModule.exports_alone (.inr declares) other with same | ⟨clause, _, _, lists, -⟩
        · exact used (same ▸ member)
        · have clash := lists.found.symm.trans declares.noClause
          cases clash
      have fits := Tree.fits_child m.text m.tree m.fits statement declares.stated
      obtain ⟨target, targeted, node, -, -, leads, -⟩ := SourceModule.declares_parts declares
      have inner (child : Tree) (inside : child ∈ statement.children) :
          Text.Keeps cuts child.span := by
        have bounds := Tree.child_within m.text statement fits child inside
        exact fun place low high => keeps place (by omega) (by omega)
      refine ⟨fun word found => ?_, node ▸ inner target
        (Tree.export_target_member statement target targeted),
        fun span named place low high => ?_⟩
      · rw [leads] at found
        obtain ⟨tree, first, rfl⟩ := Option.map_eq_some_iff.mp found
        exact inner tree (Tree.child_of_kind_cases statement _ tree first).1
      · have inside := SourceModule.declares_identifiers declares span named
        exact keeps place (by omega) (by omega)
  · intro statement stated used
    rw [spans]
    exact statement_kept exports covers statement stated fun candidate member exported =>
      used candidate member (SourceModule.exports_stated exported).2

def crowded :
    String := "let a, b, c, d;\nexport \x7b a, b \x7d; export \x7b c, d \x7d; export let e = 1;\n"

def named (m : SourceModule) (names : List String) : List Candidate :=
  (m.scan defaultMarker).candidates.filter fun candidate => names.contains candidate.label

theorem crowded_is_cut :
    ∃ m batch edited, (SourceModule.parse ⟨"/f.ts"⟩ crowded).toOption = some m ∧
      plan ⟨"/f.ts"⟩ m.text (named m ["a", "c", "e"]) = .ok batch ∧
      (named m ["a", "c", "e"]).length = 3 ∧ batch.deferred = 1 ∧
      Change.applyAll? m.text batch.changes = some edited ∧
      Text.size edited + ((batch.changes.map Change.span).map Span.length).sum =
        Text.size m.text := by
  have known : (SourceModule.parse ⟨"/f.ts"⟩ crowded).toOption.map (fun m =>
      (decide (m.scan defaultMarker).candidates.Nodup, (named m ["a", "c", "e"]).length,
        (plan ⟨"/f.ts"⟩ m.text (named m ["a", "c", "e"])).toOption.map Batch.deferred)) =
        some (true, 3, some 1) := by
    decide +kernel
  obtain ⟨m, parsed, facts⟩ := Option.map_eq_some_iff.mp known
  obtain ⟨distinct, facts⟩ := Prod.mk.inj facts
  obtain ⟨three, deferred⟩ := Prod.mk.inj facts
  obtain ⟨batch, edited, -, planned, -, ⟨applied, -, length⟩, -⟩ := plan_is_exact m defaultMarker
    ⟨"/f.ts"⟩
    (named m ["a", "c", "e"]) List.filter_sublist.subset ((of_decide_eq_true distinct).filter _)
  rw [planned] at deferred
  exact ⟨m, batch, edited, parsed, planned, three, Option.some.inj deferred, applied, length⟩

end Batch

end DeadExports
