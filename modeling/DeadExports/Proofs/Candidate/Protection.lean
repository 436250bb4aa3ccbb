import DeadExports.Proofs.Candidate.Comments

set_option autoImplicit false

namespace DeadExports

def Span.liesIn (cuts : List Span) (span : Span) : Bool :=
  cuts.any fun cut => decide (cut.start ≤ span.start) && decide (span.stop ≤ cut.stop)

namespace Tree

def listNodes (statement : Tree) : List Tree :=
  match statement.childOfKind? .exportClause with
  | some clause => clause.namedChildren
  | none => []

def listedName? (source : String) (node : Tree) : Option String :=
  (node.childInRole? .name).map fun name => Specifier.exportedName source
    ⟨node, name, node.childInRole? .newName⟩

def ListedStays (marker source edited : String) (cuts : List Span) (old new : Tree) : Prop :=
  Stays marker source edited cuts old new ∧
    (old.kind = .exportSpecifier → new.kind = .exportSpecifier ∧ new.listedName? edited =
      old.listedName? source)

instance (marker source edited : String) (cuts : List Span) (old new : Tree) :
    Decidable (ListedStays marker source edited cuts old new) := inferInstanceAs (Decidable (_ ∧ _))

def isTaken (unused : List Candidate) (statement : Tree) : Bool :=
  let own := unused.filter fun candidate => candidate.statement == statement.span
  statement.kind == .exportStatement &&
    (own.any fun candidate => candidate.kind == .specifier || candidate.kind == .defaultValue) &&
    statement.listNodes.all fun node =>
      node.kind != .exportSpecifier || own.any fun candidate => candidate.node == node.span

def isStripped (unused : List Candidate) (statement : Tree) : Bool :=
  (statement.childOfKind? .exportClause).isNone && unused.any fun candidate =>
    candidate.statement == statement.span

def isLost (unused : List Candidate) (cuts : List Span) (statement node : Tree) : Bool :=
  node.span.liesIn cuts && (node.kind == .comment ||
    unused.any fun candidate => candidate.statement == statement.span &&
    candidate.node == node.span)

theorem mem_clause_specifiers (clause : Tree) (specifier : Specifier) :
    specifier ∈ clause.clauseSpecifiers ↔
      specifier.node ∈ clause.children ∧ specifier.node.kind = .exportSpecifier ∧
        specifier.node.childInRole? .name = some specifier.name ∧
        specifier.newName? = specifier.node.childInRole? .newName := by
  rw [clauseSpecifiers, List.mem_filterMap]
  constructor
  · rintro ⟨child, member, found⟩
    split at found
    next isSpecifier =>
        obtain ⟨name, named, rfl⟩ := Option.map_eq_some_iff.mp found
        exact ⟨member, beq_iff_eq.mp isSpecifier, named, rfl⟩
    next => cases found
  · rintro ⟨member, isSpecifier, named, renamed⟩
    refine ⟨specifier.node, member, ?_⟩
    rw [isSpecifier, named, ← renamed]
    rfl

theorem listed_name {source : String} (clause : Tree) (specifier : Specifier)
    (listed : specifier ∈ clause.clauseSpecifiers) :
    specifier.node.listedName? source = some (specifier.exportedName source) := by
  obtain ⟨-, -, named, renamed⟩ := (mem_clause_specifiers clause specifier).mp listed
  rw [listedName?, named, Option.map_some, ← renamed]

end Tree

namespace SourceModule

def declared? (m : SourceModule) (statement : Tree) : Option (List String) :=
  ((Scan.declarationCandidate? m.text statement).filter fun candidate =>
    !Scan.isOverloaded m.text (Scan.overloads m.text m.statements) candidate).map Candidate.names

def StatementStays (marker : String) (unused : List Candidate) (cuts : List Span)
    (m later : SourceModule) (old new : Tree) :
    Prop :=
  old.Stays marker m.text later.text cuts new ∧
    (old.kind = .exportStatement → old.isStripped unused = false →
      new.kind = .exportStatement ∧ (new.childOfKind? .exportClause).isSome =
      (old.childOfKind? .exportClause).isSome ∧
        (∀ names ∈ m.declared? old, later.declared? new = some names) ∧
        List.Forall₂ (Tree.ListedStays marker m.text later.text cuts)
          (old.listNodes.filter fun node => !old.isLost unused cuts node) new.listNodes)

instance (marker : String) (unused : List Candidate) (cuts : List Span) (m later : SourceModule)
    (old new : Tree) :
    Decidable (StatementStays marker unused cuts m later old new) :=
  inferInstanceAs (Decidable (_ ∧ _))

def ReadsOn (marker : String) (unused : List Candidate) (cuts : List Span)
    (m later : SourceModule) :
    Prop :=
  List.Forall₂ (StatementStays marker unused cuts m later) (m.statements.filter fun statement =>
    !statement.isTaken unused)
    later.statements

instance (marker : String) (unused : List Candidate) (cuts : List Span) (m later : SourceModule) :
    Decidable (ReadsOn marker unused cuts m later) :=
  inferInstanceAs (Decidable (List.Forall₂ _ _ _))

def KeepsRows (unused : List Candidate) (cuts : List Span) (m : SourceModule) : Prop :=
  ∀ statement ∈ m.statements, statement.isTaken unused = false →
    (statement.kind ≠ .comment → statement.EndsRows m.text cuts) ∧
      ∀ node ∈ statement.listNodes, node.kind ≠ .comment →
      statement.isLost unused cuts node = false →
        node.EndsRows m.text cuts

instance (unused : List Candidate) (cuts : List Span) (m : SourceModule) :
    Decidable (m.KeepsRows unused cuts) :=
  inferInstanceAs (Decidable (∀ statement ∈ m.statements, _))

def KeepsComments (unused : List Candidate) (cuts : List Span) (m : SourceModule) : Prop :=
  ∀ statement ∈ m.statements, statement.isTaken unused = false →
    ∀ node ∈ statement.listNodes, node.kind = .comment → node.span.liesIn cuts = false

instance (unused : List Candidate) (cuts : List Span) (m : SourceModule) :
    Decidable (m.KeepsComments unused cuts) :=
  inferInstanceAs (Decidable (∀ statement ∈ m.statements, _))

structure LeavesRest (marker : String) (unused : List Candidate) (cuts : List Span)
    (m later : SourceModule) : Prop where
  reads : ReadsOn marker unused cuts m later
  rows : m.KeepsRows unused cuts
  comments : m.KeepsComments unused cuts

instance (marker : String) (unused : List Candidate) (cuts : List Span) (m later : SourceModule) :
    Decidable (LeavesRest marker unused cuts m later) :=
  decidable_of_iff (ReadsOn marker unused cuts m later ∧ m.KeepsRows unused cuts ∧
    m.KeepsComments unused cuts)
    ⟨fun ⟨reads, rows, comments⟩ => ⟨reads, rows, comments⟩, fun ⟨reads, rows, comments⟩ =>
      ⟨reads, rows, comments⟩⟩

theorem examined_statement (source marker : String) (imported : List (String × String))
    (overloaded : List String) (entry : List Tree × Tree) (one : Examined)
    (member : one ∈ Scan.examine source marker imported overloaded entry) :
    one.candidate.statement = entry.2.span := by
  obtain ⟨-, ⟨clause, specifier, -, -, same, -⟩ | ⟨-, declared, -⟩⟩ :=
    (Scan.mem_examine source marker imported overloaded entry one).mp member
  · rw [same]
    rfl
  · obtain ⟨_, -, rest⟩ := Option.bind_eq_some_iff.mp declared
    obtain ⟨_, -, rest⟩ := Option.bind_eq_some_iff.mp rest
    obtain ⟨_, -, same⟩ := Option.bind_eq_some_iff.mp rest
    rw [← Option.some.inj same]

theorem candidate_of_statement (m : SourceModule) (marker : String) (entry : List Tree × Tree)
    (stated : entry ∈ Tree.withEarlier m.statements) (candidate : Candidate)
    (member : candidate ∈ (m.scan marker).candidates) (same : candidate.statement = entry.2.span) :
    ∃ one ∈ Scan.examine m.text marker (Scan.importedNames m.text m.statements)
      (Scan.overloads m.text m.statements) entry,
      one.candidate = candidate ∧ one.isProtected = false := by
  rw [(m.scan_counts marker).candidates] at member
  obtain ⟨one, kept, rfl⟩ := List.mem_map.mp member
  obtain ⟨examined, unprotected⟩ := List.mem_filter.mp kept
  obtain ⟨other, stated', here⟩ := List.mem_flatMap.mp examined
  have spans := (examined_statement m.text marker _ _ other one here).symm.trans same
  obtain rfl := Tree.with_earlier_unique m.text m.tree ⟨m.laidOut, m.placed⟩ other entry stated'
    stated spans
  exact ⟨one, here, rfl, by simpa using unprotected⟩

section Later

variable {marker : String} {unused : List Candidate} {cuts : List Span} {m later : SourceModule}

theorem named_filled (text : String) (tree : Tree) (fits : tree.Fits text) :
    ∀ node ∈ tree.namedChildren, node.span.start < node.span.stop :=
  fun node member => ((Tree.named_in_order text tree fits).2 node member).filled

theorem clause_fits (m : SourceModule) (statement clause : Tree) (stated : statement ∈ m.statements)
    (found : statement.childOfKind? .exportClause = some clause) : clause.Fits m.text :=
  Tree.fits_child m.text statement
    (Tree.fits_child m.text m.tree ⟨m.laidOut, m.placed⟩ statement (statement_member m _ stated))
    clause (Tree.child_of_kind_cases statement _ clause found).1

theorem statement_stays (left : Text.Leaves m.text cuts later.text)
    (leaves : LeavesRest marker unused cuts m later) (entry : List Tree × Tree)
    (stated : entry ∈ Tree.withEarlier m.statements) (stays : entry.2.isTaken unused = false) :
    ∃ entry' ∈ Tree.withEarlier later.statements, StatementStays marker unused cuts m later entry.2
      entry'.2 ∧
      (Scan.isMarked m.text marker entry.1 entry.2 = true → Scan.isMarked later.text marker entry'.1
        entry'.2 = true) := by
  obtain ⟨earlier', statement', member, same, marked⟩ := Tree.sibling_stays left m.tree
    ⟨m.laidOut, m.placed⟩
    (fun statement => !statement.isTaken unused) later.statements leaves.reads
    (fun _ _ both => both.1)
    (named_filled later.text later.tree ⟨later.laidOut, later.placed⟩)
    (fun node _ isComment => by simp [Tree.isTaken, isComment])
    (fun node member code staying => (leaves.rows node member (by simpa using staying)).1 code)
    entry.1 entry.2 stated (by simpa using stays)
  exact ⟨(earlier', statement'), member, same, marked⟩

theorem listed_stays (left : Text.Leaves m.text cuts later.text)
    (leaves : LeavesRest marker unused cuts m later) (statement statement' clause clause' : Tree)
    (stated : statement ∈ m.statements) (stated' : statement' ∈ later.statements)
    (stays : statement.isTaken unused = false)
    (found : statement.childOfKind? .exportClause = some clause)
    (found' : statement'.childOfKind? .exportClause = some clause')
    (pairs : List.Forall₂ (Tree.ListedStays marker m.text later.text cuts)
      (statement.listNodes.filter fun node => !statement.isLost unused cuts node)
        statement'.listNodes)
    (entry : List Tree × Tree) (listed : entry ∈ Tree.withEarlier clause.namedChildren)
    (kept : statement.isLost unused cuts entry.2 = false) :
    ∃ entry' ∈ Tree.withEarlier clause'.namedChildren, Tree.ListedStays marker m.text later.text
      cuts entry.2 entry'.2 ∧
      (Scan.isMarked m.text marker entry.1 entry.2 = true → Scan.isMarked later.text marker entry'.1
        entry'.2 = true) := by
  have fits := clause_fits m statement clause stated found
  have fits' := clause_fits later statement' clause' stated' found'
  have nodes : statement.listNodes = clause.namedChildren := by rw [Tree.listNodes, found]
  have nodes' : statement'.listNodes = clause'.namedChildren := by rw [Tree.listNodes, found']
  have commented := leaves.comments statement stated stays
  have rowed := (leaves.rows statement stated stays).2
  rw [nodes] at pairs commented rowed
  rw [nodes'] at pairs
  obtain ⟨earlier', node', member, same, marked⟩ := Tree.sibling_stays left clause fits
    (fun node => !statement.isLost unused cuts node) clause'.namedChildren pairs
    (fun _ _ both => both.1)
    (named_filled later.text clause' fits')
    (fun node member isComment => by simp [Tree.isLost, commented node member isComment])
    (fun node member code staying => rowed node member code (by simpa using staying))
    entry.1 entry.2 listed (by simpa using kept)
  exact ⟨(earlier', node'), member, same, marked⟩

theorem declared_protected (left : Text.Leaves m.text cuts later.text)
    (only : ∀ candidate ∈ unused, candidate ∈ (m.scan marker).candidates)
    (leaves : LeavesRest marker unused cuts m later) (entry : List Tree × Tree)
    (stated : entry ∈ Tree.withEarlier m.statements) (isExport : entry.2.kind = .exportStatement)
    (found : entry.2.childOfKind? .exportClause = none) (candidate : Candidate)
    (declared : Scan.declarationCandidate? m.text entry.2 = some candidate)
    (plain : Scan.isOverloaded m.text (Scan.overloads m.text m.statements) candidate = false)
    (marked : Scan.isMarked m.text marker entry.1 entry.2 = true) :
    ∃ other ∈ later.examined marker, other.isProtected = true ∧ other.candidate.names =
      candidate.names := by
  have untouched : ∀ other ∈ unused, (other.statement == entry.2.span) = false := by
    intro other member
    rw [beq_eq_false_iff_ne]
    intro same
    obtain ⟨one, here, -, unprotected⟩ := m.candidate_of_statement marker entry stated other
      (only other member) same
    obtain ⟨-, ⟨_, _, some, -⟩ | ⟨-, -, -, isProtected⟩⟩ :=
      (Scan.mem_examine _ _ _ _ entry one).mp here
    · rw [found] at some
      cases some
    · rw [isProtected, marked] at unprotected
      cases unprotected
  have none : unused.any (fun other => other.statement == entry.2.span) = false := by
    rw [List.any_eq_false]
    exact fun other member => Bool.eq_false_iff.mp (untouched other member)
  have stays : entry.2.isTaken unused = false := by
    have own : unused.filter (fun other => other.statement == entry.2.span) = [] :=
      List.filter_eq_nil_iff.mpr fun other member => Bool.eq_false_iff.mp (untouched other member)
    rw [Tree.isTaken, own, List.any_nil, Bool.and_false, Bool.false_and]
  obtain ⟨entry', stated', ⟨-, same⟩, marked'⟩ := statement_stays left leaves entry stated stays
  obtain ⟨isExport', clauses, names, -⟩ :=
    same isExport (by rw [Tree.isStripped, none, Bool.and_false])
  rw [found, Option.isSome_none, Option.isSome_eq_false_iff, Option.isNone_iff_eq_none] at clauses
  have renamed := names candidate.names
    (by rw [declared?, declared, Option.filter_some, plain]; rfl)
  obtain ⟨other, declared', names⟩ := Option.map_eq_some_iff.mp renamed
  obtain ⟨declared', plain'⟩ := Option.filter_eq_some_iff.mp declared'
  refine ⟨⟨other, true⟩, List.mem_flatMap.mpr ⟨entry', stated', ?_⟩, rfl, names⟩
  exact (Scan.mem_examine _ _ _ _ entry' _).mpr
    ⟨isExport', .inr ⟨clauses, declared', by simpa using plain', (marked' marked).symm⟩⟩

theorem skipped_unlisted (only : ∀ candidate ∈ unused, candidate ∈ (m.scan marker).candidates)
    (entry : List Tree × Tree) (stated : entry ∈ Tree.withEarlier m.statements) (clause : Tree)
    (found : entry.2.childOfKind? .exportClause = some clause) (specifier : Tree.Specifier)
    (candidate : Candidate) (node : candidate.node = specifier.node.span)
    (skipped : Scan.isSkipped m.text marker entry clause candidate = true) :
    unused.any (fun other => other.statement == entry.2.span &&
      other.node == specifier.node.span) = false := by
  refine List.any_eq_false.mpr fun other member both => ?_
  rw [Bool.and_eq_true, beq_iff_eq, beq_iff_eq] at both
  obtain ⟨one, here, rfl, unprotected⟩ := m.candidate_of_statement marker entry stated other
    (only other member) both.1
  obtain ⟨-, ⟨_, _, some, -, -, isProtected⟩ | ⟨none, -⟩⟩ :=
    (Scan.mem_examine _ _ _ _ entry one).mp here
  · rw [found] at some
    obtain rfl := Option.some.inj some
    have alike : Scan.isSkipped m.text marker entry clause one.candidate =
        Scan.isSkipped m.text marker entry clause candidate := by
      rw [Scan.isSkipped, Scan.isSkipped, both.2, node]
    rw [isProtected, alike, skipped] at unprotected
    cases unprotected
  · rw [found] at none
    cases none

theorem unlisted_stays (statement clause : Tree)
    (found : statement.childOfKind? .exportClause = some clause) (node : Tree)
    (member : node ∈ clause.namedChildren) (isSpecifier : node.kind = .exportSpecifier)
    (unlisted : unused.any (fun other => other.statement == statement.span &&
      other.node == node.span) = false) :
    statement.isTaken unused = false ∧ statement.isLost unused cuts node = false := by
  constructor
  · rw [Tree.isTaken, Bool.and_eq_false_iff]
    refine .inr (List.all_eq_false.mpr ⟨node, by rw [Tree.listNodes, found]; exact member, ?_⟩)
    simp [isSpecifier, List.any_filter, unlisted]
  · simp [Tree.isLost, isSpecifier, unlisted]

theorem listed_protected (left : Text.Leaves m.text cuts later.text)
    (only : ∀ candidate ∈ unused, candidate ∈ (m.scan marker).candidates)
    (leaves : LeavesRest marker unused cuts m later) (entry : List Tree × Tree)
    (stated : entry ∈ Tree.withEarlier m.statements) (isExport : entry.2.kind = .exportStatement)
    (clause : Tree) (found : entry.2.childOfKind? .exportClause = some clause)
    (specifier : Tree.Specifier) (listed : specifier ∈ clause.clauseSpecifiers)
    (candidate : Candidate)
    (same : candidate = Scan.specifierCandidate m.text (Scan.importedNames m.text m.statements)
      entry.2 clause specifier)
    (skipped : Scan.isSkipped m.text marker entry clause candidate = true) :
    ∃ other ∈ later.examined marker, other.isProtected = true ∧ other.candidate.names =
      candidate.names := by
  obtain ⟨inside, isSpecifier, -⟩ := (Tree.mem_clause_specifiers clause specifier).mp listed
  have member : specifier.node ∈ clause.namedChildren := List.mem_filter.mpr ⟨inside,
    by rw [isSpecifier]; rfl⟩
  have unlisted := skipped_unlisted only entry stated clause found specifier candidate
    (by rw [same]; rfl) skipped
  obtain ⟨stays, kept⟩ := unlisted_stays entry.2 clause found specifier.node member isSpecifier
    unlisted
  obtain ⟨entry', stated', ⟨-, reread⟩, marked'⟩ := statement_stays left leaves entry stated stays
  obtain ⟨isExport', clauses, -, pairs⟩ := reread isExport (by rw [Tree.isStripped, found]; rfl)
  rw [found, Option.isSome_some] at clauses
  obtain ⟨clause', found'⟩ := Option.isSome_iff_exists.mp clauses
  have fits := clause_fits m entry.2 clause (Tree.with_earlier_member stated) found
  obtain ⟨before, after, whole⟩ := List.append_of_mem member
  have among := (Tree.mem_with_earlier _ before specifier.node).mpr ⟨after, whole⟩
  obtain ⟨node', listed', ⟨-, renames⟩, noded⟩ := listed_stays left leaves entry.2 entry'.2
    clause clause'
    (Tree.with_earlier_member stated) (Tree.with_earlier_member stated') stays found found' pairs
    (before, specifier.node) among
    kept
  obtain ⟨isSpecifier', names⟩ := renames isSpecifier
  rw [Tree.listed_name clause specifier listed] at names
  obtain ⟨name', named', same'⟩ := Option.map_eq_some_iff.mp names
  let specifier' : Tree.Specifier := ⟨node'.2, name', node'.2.childInRole? .newName⟩
  let other := Scan.specifierCandidate later.text (Scan.importedNames later.text later.statements)
    entry'.2 clause' specifier'
  have specified : specifier' ∈ clause'.clauseSpecifiers :=
    (Tree.mem_clause_specifiers clause' specifier').mpr
    ⟨(List.mem_filter.mp (Tree.with_earlier_member listed')).1, isSpecifier', named', rfl⟩
  have skipped' : Scan.isSkipped later.text marker entry' clause' other = true := by
    rw [Scan.isSkipped, Bool.or_eq_true, List.any_eq_true] at skipped ⊢
    rcases skipped with above | ⟨node, listing, marks⟩
    · exact .inl (marked' above)
    · rw [Bool.and_eq_true, Bool.and_eq_true, beq_iff_eq, beq_iff_eq, same] at marks
      obtain rfl := Tree.with_earlier_unique m.text clause fits node (before, specifier.node)
        listing among marks.1.2
      refine .inr ⟨node', listed', ?_⟩
      rw [Bool.and_eq_true, Bool.and_eq_true, beq_iff_eq, beq_iff_eq]
      exact ⟨⟨isSpecifier', rfl⟩, noded marks.2⟩
  refine ⟨⟨other, true⟩, List.mem_flatMap.mpr ⟨entry', stated', ?_⟩, rfl, ?_⟩
  · exact (Scan.mem_examine _ _ _ _ entry' _).mpr
      ⟨isExport', .inl ⟨clause', specifier', found', specified, rfl, skipped'.symm⟩⟩
  · rw [same]
    exact congrArg (fun name => [name]) same'

theorem protected_stays (left : Text.Leaves m.text cuts later.text)
    (only : ∀ candidate ∈ unused, candidate ∈ (m.scan marker).candidates)
    (leaves : LeavesRest marker unused cuts m later) (one : Examined)
    (examined : one ∈ m.examined marker) (isProtected : one.isProtected = true) :
    ∃ other ∈ later.examined marker, other.isProtected = true ∧ other.candidate.names =
      one.candidate.names := by
  obtain ⟨entry, stated, here⟩ := List.mem_flatMap.mp examined
  obtain ⟨isExport, ⟨clause, specifier, found, listed, same, skipped⟩ | ⟨found, declared, plain,
      marked⟩⟩ :=
    (Scan.mem_examine _ _ _ _ entry one).mp here
  · exact listed_protected left only leaves entry stated isExport clause found specifier listed
      one.candidate same
      (skipped.symm.trans isProtected)
  · exact declared_protected left only leaves entry stated isExport found one.candidate
      declared plain
      (marked.symm.trans isProtected)

end Later

end SourceModule

end DeadExports
