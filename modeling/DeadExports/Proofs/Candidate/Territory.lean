import DeadExports.Proofs.Candidate.Protection
import DeadExports.Proofs.Prune.Clause
import Mathlib.Data.List.Pairwise

set_option autoImplicit false

namespace DeadExports

namespace Tree

theorem children_apart (text : String) (tree : Tree) (fits : tree.Fits text) (a b : Tree)
    (inA : a ∈ tree.children) (inB : b ∈ tree.children) (differ : a ≠ b) : a.span.Apart b.span := by
  have ordered := Span.in_order_apart _ _ _ (fits_in_order text tree fits)
  rw [List.pairwise_map] at ordered
  have apart : tree.children.Pairwise fun a b => a.span.Apart b.span := ordered.imp fun before =>
    .inl before
  have : Std.Symm fun a b : Tree =>
    a.span.Apart b.span := ⟨fun a b => Span.apart_symm a.span b.span⟩
  exact apart.forall inA inB differ

theorem child_of_span (text : String) (tree : Tree) (fits : tree.Fits text) (a b : Tree)
    (inA : a ∈ tree.children) (inB : b ∈ tree.children) (same : a.span = b.span) : a = b := by
  by_contra differ
  have apart := children_apart text tree fits a b inA inB differ
  have filled := (child_piece text tree fits a inA).filled
  rw [← same] at apart
  rcases apart with before | after <;> omega

theorem child_within (text : String) (tree : Tree) (fits : tree.Fits text) (child : Tree)
    (member : child ∈ tree.children) :
    tree.span.start ≤ child.span.start ∧ child.span.stop ≤ tree.span.stop := by
  have bounds := Span.in_order_bounds _ _ _ (fits_in_order text tree fits) child.span
    (List.mem_map_of_mem member)
  exact ⟨bounds.1, bounds.2.2⟩

theorem inked_clause (text : String) (statement clause : Tree) (fits : statement.Fits text)
    (inked : statement.isInked text = true) (member : clause ∈ statement.children)
    (isClause : clause.kind = .exportClause) :
    (Scan.clauseOf clause).Spaced ∧
    (Text.hasInk text clause.span.start = true ∧ Text.hasInk text (clause.span.stop - 1) = true) ∧
      (∀ specifier ∈ (Scan.clauseOf clause).specifiers,
        Text.hasInk text specifier.start = true ∧ Text.hasInk text (specifier.stop - 1) = true) ∧
      ∀ child ∈ statement.children, child.isExportTarget = false := by
  have clauseFits := fits_child text statement fits clause member
  rw [isInked, Bool.and_eq_true, List.all_eq_true] at inked
  have inked := inked.2 clause member
  rw [isClause, bne_self_eq_false, Bool.false_or, Bool.and_eq_true, isInkedList, Bool.and_eq_true,
    Bool.and_eq_true, List.all_eq_true] at inked
  obtain ⟨⟨ends, inside⟩, alone⟩ := inked
  have child (node : Tree) (among : node ∈ clause.children) (other : node.kind ≠ .comment) :
      (clause.span.start < node.span.start ∧ node.span.start < node.span.stop ∧
        node.span.stop < clause.span.stop) ∧
        Text.hasInk text node.span.start = true ∧ Text.hasInk text (node.span.stop - 1) = true := by
    have here := inside node among
    rw [Bool.and_eq_true, Bool.and_eq_true, decide_eq_true_eq, decide_eq_true_eq, Bool.or_eq_true,
      beq_iff_eq, Bool.and_eq_true] at here
    exact ⟨⟨here.1.1, (child_piece text clause clauseFits node among).filled, here.1.2⟩,
      here.2.resolve_left other⟩
  have specifier (span : Span) (listed : span ∈ (Scan.clauseOf clause).specifiers) :
      ∃ node ∈ clause.children, node.kind = .exportSpecifier ∧ node.span = span := by
    obtain ⟨specifier, member, rfl⟩ := List.mem_map.mp listed
    obtain ⟨among, isSpecifier, -⟩ := (mem_clause_specifiers clause specifier).mp member
    exact ⟨specifier.node, among, isSpecifier, rfl⟩
  have comma (span : Span) (listed : span ∈ (Scan.clauseOf clause).commas) :
      ∃ node ∈ clause.children, node.kind = .comma ∧ node.span = span := by
    obtain ⟨node, kept, rfl⟩ := List.mem_map.mp listed
    obtain ⟨among, isComma⟩ := List.mem_filter.mp kept
    exact ⟨node, among, beq_iff_eq.mp isComma, rfl⟩
  refine ⟨⟨?_, ?_, ?_⟩, ends, ?_, ?_⟩
  · rintro token (listed | listed)
    · obtain ⟨node, among, isSpecifier, rfl⟩ := specifier token listed
      exact (child node among (by rw [isSpecifier]; exact nofun)).1
    · obtain ⟨node, among, isComma, rfl⟩ := comma token listed
      exact (child node among (by rw [isComma]; exact nofun)).1
  · have ordered := Span.in_order_apart _ _ _ (fits_in_order text clause clauseFits)
    have spans := (Scan.specifier_nodes clause).map Tree.span
    rw [List.map_map] at spans
    exact ordered.sublist spans
  · intro one isComma other isSpecifier
    obtain ⟨node, among, kind, rfl⟩ := comma one isComma
    obtain ⟨node', among', kind', rfl⟩ := specifier other isSpecifier
    refine children_apart text clause clauseFits node node' among among' ?_
    rintro rfl
    rw [kind] at kind'
    cases kind'
  · intro span listed
    obtain ⟨node, among, isSpecifier, rfl⟩ := specifier span listed
    exact (child node among (by rw [isSpecifier]; exact nofun)).2
  · intro other among
    cases isTarget : other.isExportTarget with
    | false => rfl
    | true =>
        have some : statement.children.any isExportTarget = true := List.any_eq_true.mpr ⟨other,
          among, isTarget⟩
        rw [some] at alone
        cases alone

end Tree

namespace SourceModule

theorem fits (m : SourceModule) : m.tree.Fits m.text := ⟨m.laidOut, m.placed⟩

theorem statement_inked (m : SourceModule) (statement : Tree)
    (member : statement ∈ m.tree.children) :
    statement.isInked m.text = true := List.all_eq_true.mp m.inked statement member

theorem lines_apart (m : SourceModule) (a b : Tree) (inA : a ∈ m.tree.children)
    (inB : b ∈ m.tree.children) (differ : a ≠ b) :
    (Text.lineExtent m.text a.span).Apart (Text.lineExtent m.text b.span) := by
  have inkA := m.statement_inked a inA
  have inkB := m.statement_inked b inB
  rw [Tree.isInked, Bool.and_eq_true, Bool.and_eq_true] at inkA inkB
  have filledA := (Tree.child_piece m.text m.tree m.fits a inA).filled
  have filledB := (Tree.child_piece m.text m.tree m.fits b inB).filled
  rcases Tree.children_apart m.text m.tree m.fits a b inA inB differ with before | after
  · exact .inl (Text.line_extents_apart m.text a.span b.span before filledA inkA.1.2 inkB.1.1)
  · exact .inr (Text.line_extents_apart m.text b.span a.span after filledB inkB.1.2 inkA.1.1)

structure Lists (m : SourceModule) (candidate : Candidate) (statement clause : Tree)
    (specifier : Tree.Specifier) : Prop where
  stated : statement ∈ m.tree.children
  found : statement.childOfKind? .exportClause = some clause
  listed : specifier ∈ clause.clauseSpecifiers
  same : candidate =
    Scan.specifierCandidate m.text (Scan.importedNames m.text m.statements) statement clause
    specifier

structure Declares (m : SourceModule) (candidate : Candidate) (statement : Tree) : Prop where
  stated : statement ∈ m.tree.children
  isExport : statement.kind = .exportStatement
  noClause : statement.childOfKind? .exportClause = none
  found : Scan.declarationCandidate? m.text statement = some candidate

def Exports (m : SourceModule) (candidate : Candidate) (statement : Tree) : Prop :=
  (∃ clause specifier, m.Lists candidate statement clause specifier) ∨
    m.Declares candidate statement

theorem examined_exports (m : SourceModule) (marker : String) (one : Examined)
    (member : one ∈ m.examined marker) :
    ∃ statement, m.Exports one.candidate statement := by
  obtain ⟨statement, stated, isExport,
      ⟨clause, specifier, found, listed, same⟩ | ⟨noClause, found⟩⟩ :=
    m.examined_cases marker one member
  · exact ⟨statement, .inl ⟨clause, specifier, statement_member m statement stated, found,
      listed, same⟩⟩
  · exact ⟨statement, .inr ⟨statement_member m statement stated, isExport, noClause, found⟩⟩

theorem candidates_export (m : SourceModule) (marker : String) (unused : List Candidate)
    (within : unused ⊆ (m.scan marker).candidates) :
    ∀ candidate ∈ unused, ∃ statement, m.Exports candidate statement := by
  intro candidate member
  obtain ⟨one, examined, rfl⟩ := m.candidate_examined marker candidate (within member)
  exact m.examined_exports marker one examined

section Exports

variable {m : SourceModule} {candidate other : Candidate} {statement clause : Tree}
    {specifier twin : Tree.Specifier}

theorem lists_clause (lists : m.Lists candidate statement clause specifier) :
    clause ∈ statement.children ∧ clause.kind = .exportClause ∧ clause.Fits m.text := by
  obtain ⟨member, isClause⟩ := Tree.child_of_kind_cases statement _ clause lists.found
  have fits := Tree.fits_child m.text m.tree m.fits statement lists.stated
  exact ⟨member, isClause, Tree.fits_child m.text statement fits clause member⟩

theorem lists_node (lists : m.Lists candidate statement clause specifier) :
    candidate.node ∈ (Scan.clauseOf clause).specifiers ∧ candidate.node = specifier.node.span := by
  rw [lists.same]
  exact ⟨List.mem_map.mpr ⟨specifier, lists.listed, rfl⟩, rfl⟩

theorem lists_unique (lists : m.Lists candidate statement clause specifier)
    (others : m.Lists other statement clause twin) (same : candidate.node = other.node) :
    candidate = other := by
  obtain ⟨-, -, fits⟩ := lists_clause lists
  obtain ⟨member, -, named, renamed⟩ := (Tree.mem_clause_specifiers clause specifier).mp
    lists.listed
  obtain ⟨member', -, named', renamed'⟩ := (Tree.mem_clause_specifiers clause twin).mp others.listed
  rw [(lists_node lists).2, (lists_node others).2] at same
  have nodes := Tree.child_of_span m.text clause fits _ _ member member' same
  obtain ⟨node, name, newName?⟩ := specifier
  obtain ⟨node', name', newName?'⟩ := twin
  obtain rfl : node = node' := nodes
  obtain rfl : name = name' := Option.some.inj (named.symm.trans named')
  obtain rfl : newName? = newName?' := renamed.trans renamed'.symm
  rw [lists.same, others.same]

theorem declares_parts (declares : m.Declares candidate statement) :
    ∃ target, statement.exportTarget? = some target ∧ candidate.node = target.span ∧
      candidate.statement = statement.span ∧
      candidate.clause = none ∧ candidate.exportWord = Scan.exportWord? statement ∧
      Scan.kindOf? (statement.childOfKind? .defaultWord).isSome target = some candidate.kind := by
  obtain ⟨target, targeted, rest⟩ := Option.bind_eq_some_iff.mp declares.found
  obtain ⟨kind, kinded, rest⟩ := Option.bind_eq_some_iff.mp rest
  obtain ⟨_, -, same⟩ := Option.bind_eq_some_iff.mp rest
  obtain rfl := Option.some.inj same
  exact ⟨target, targeted, rfl, rfl, rfl, rfl, kinded⟩

theorem declares_kind (declares : m.Declares candidate statement) :
    candidate.kind ≠ .specifier := by
  obtain ⟨target, -, -, -, -, -, kinded⟩ := declares_parts declares
  intro isSpecifier
  rw [isSpecifier] at kinded
  exact Scan.kind_of_not_specifier _ target kinded

theorem exports_stated (exports : m.Exports candidate statement) :
    statement ∈ m.tree.children ∧ candidate.statement = statement.span := by
  rcases exports with ⟨clause, specifier, lists⟩ | declares
  · exact ⟨lists.stated, by rw [lists.same]; rfl⟩
  · obtain ⟨_, -, -, same, -⟩ := declares_parts declares
    exact ⟨declares.stated, same⟩

theorem exports_alone (exports : m.Exports candidate statement)
    (others : m.Exports other statement) :
    candidate = other ∨
      ∃ clause specifier twin, m.Lists candidate statement clause specifier ∧
        m.Lists other statement clause twin := by
  rcases exports with ⟨clause, specifier, lists⟩ | declares
  · rcases others with ⟨clause', twin, lists'⟩ | declares'
    · obtain rfl : clause = clause' := Option.some.inj (lists.found.symm.trans lists'.found)
      exact .inr ⟨clause, specifier, twin, lists, lists'⟩
    · have clash := lists.found.symm.trans declares'.noClause
      cases clash
  · rcases others with ⟨clause', twin, lists'⟩ | declares'
    · have clash := lists'.found.symm.trans declares.noClause
      cases clash
    · exact .inl (Option.some.inj (declares.found.symm.trans declares'.found))

theorem lists_of_clause (exports : m.Exports candidate statement) (own : Clause)
    (found : candidate.clause = some own) :
    ∃ clause specifier, m.Lists candidate statement clause specifier ∧
      own = Scan.clauseOf clause := by
  rcases exports with ⟨clause, specifier, lists⟩ | declares
  · rw [lists.same] at found
    exact ⟨clause, specifier, lists, (Option.some.inj found).symm⟩
  · obtain ⟨_, -, -, -, none, -⟩ := declares_parts declares
    rw [none] at found
    cases found

theorem clause_statement {statement' clause' : Tree}
    (lists : m.Lists candidate statement clause specifier)
    (others : m.Lists other statement' clause' twin) (same : clause.span = clause'.span) :
    statement = statement' := by
  obtain ⟨member, -, fits⟩ := lists_clause lists
  obtain ⟨member', -, fits'⟩ := lists_clause others
  by_contra differ
  have apart := Tree.children_apart m.text m.tree m.fits statement statement' lists.stated
    others.stated differ
  have statementFits := Tree.fits_child m.text m.tree m.fits statement lists.stated
  have statementFits' := Tree.fits_child m.text m.tree m.fits statement' others.stated
  have filled := (Tree.child_piece m.text statement statementFits clause member).filled
  have within := Tree.child_within m.text statement statementFits clause member
  have within' := Tree.child_within m.text statement' statementFits' clause' member'
  rw [← same] at within'
  rcases apart with before | after <;> omega

theorem declares_identifiers (declares : m.Declares candidate statement) (span : Span)
    (named : span ∈ candidate.identifiers) :
    statement.span.start ≤ span.start ∧ span.stop ≤ statement.span.stop := by
  have laidOut := Tree.laid_out_child m.tree m.laidOut statement declares.stated
  have filled := (Tree.child_piece m.text m.tree m.fits statement declares.stated).filled
  obtain ⟨items, -⟩ := Scan.declaration_items m.text statement candidate laidOut declares.isExport
    declares.noClause declares.found
  have words := Tree.export_bindings_words m.text statement laidOut
  have length : candidate.identifiers.length ≤ candidate.names.length := by
    obtain ⟨target, -, rest⟩ := Option.bind_eq_some_iff.mp declares.found
    obtain ⟨kind, -, rest⟩ := Option.bind_eq_some_iff.mp rest
    obtain ⟨⟨names, identifiers⟩, found, same⟩ := Option.bind_eq_some_iff.mp rest
    obtain rfl := Option.some.inj same
    exact Nat.le_of_eq (Scan.names_of_length m.text kind _ target names identifiers found).symm
  have spans : candidate.identifiers = (statement.exportBindings m.text).map
      ExportBinding.span := by
    rw [← List.map_snd_zip length, ← Candidate.items, items, List.map_map]
    rfl
  rw [spans] at named
  have bounds := Span.in_order_bounds _ _ _ (Tree.words_in_order statement laidOut filled) span
    (words.mem named)
  exact ⟨bounds.1, bounds.2.2⟩

theorem lists_identifiers (lists : m.Lists candidate statement clause specifier) (span : Span)
    (named : span ∈ candidate.identifiers) :
    candidate.node.start ≤ span.start ∧ span.stop ≤ candidate.node.stop := by
  obtain ⟨-, -, fits⟩ := lists_clause lists
  obtain ⟨member, -, found, -⟩ := (Tree.mem_clause_specifiers clause specifier).mp lists.listed
  rw [(lists_node lists).2]
  rw [lists.same] at named
  obtain rfl := List.mem_singleton.mp named
  have nodeFits := Tree.fits_child m.text clause fits specifier.node member
  exact Tree.child_within m.text specifier.node nodeFits specifier.name
    (Tree.child_in_role_member _ _ _ found)

end Exports

end SourceModule
end DeadExports
