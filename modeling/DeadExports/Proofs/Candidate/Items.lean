import DeadExports.Proofs.Candidate.Examined

set_option autoImplicit false

namespace DeadExports

structure ExportItem where
  -- The statements before the one that exports it.
  earlier : List Tree
  statement : Tree
  -- The list and the place in it.
  listed? : Option (Tree × Tree.Specifier)

namespace ExportItem

def candidate? (m : SourceModule) (item : ExportItem) : Option Candidate :=
  match item.listed? with
  | some (clause, specifier) =>
    some (Scan.specifierCandidate m.text (Scan.importedNames m.text m.statements) item.statement
      clause specifier)
  | none =>
    (Scan.declarationCandidate? m.text item.statement).filter fun candidate =>
      !Scan.isOverloaded m.text (Scan.overloads m.text m.statements) candidate

def isMarked (m : SourceModule) (marker : String) (item : ExportItem) : Bool :=
  Scan.isMarked m.text marker item.earlier item.statement ||
    item.listed?.any fun (clause, specifier) =>
      (Tree.withEarlier clause.namedChildren).any fun listed =>
        listed.2.kind == .exportSpecifier && listed.2.span == specifier.node.span &&
          Scan.isMarked m.text marker listed.1 listed.2

def examined? (m : SourceModule) (marker : String) (item : ExportItem) : Option Examined :=
  (item.candidate? m).map fun candidate => ⟨candidate, item.isMarked m marker⟩

end ExportItem

namespace Scan

def itemsOf (entry : List Tree × Tree) : List ExportItem :=
  if entry.2.kind == .exportStatement then
    match entry.2.childOfKind? .exportClause with
    | some clause => clause.clauseSpecifiers.map fun specifier =>
      ⟨entry.1, entry.2, some (clause, specifier)⟩
    | none => [⟨entry.1, entry.2, none⟩]
  else []

theorem mem_items_of (entry : List Tree × Tree) (item : ExportItem) :
    item ∈ itemsOf entry ↔ entry.2.kind = .exportStatement ∧ item.earlier = entry.1 ∧
    item.statement = entry.2 ∧
      ((∃ clause specifier, entry.2.childOfKind? .exportClause = some clause ∧
        specifier ∈ clause.clauseSpecifiers ∧
          item.listed? = some (clause, specifier)) ∨
        (entry.2.childOfKind? .exportClause = none ∧ item.listed? = none)) := by
  obtain ⟨earlier, statement, listed?⟩ := item
  rw [itemsOf]
  by_cases isExport : entry.2.kind = .exportStatement
  · rw [if_pos (beq_iff_eq.mpr isExport), and_iff_right isExport]
    cases found : entry.2.childOfKind? .exportClause with
    | some clause =>
        simp only [List.mem_map, ExportItem.mk.injEq]
        constructor
        · rintro ⟨specifier, listed, rfl, rfl, rfl⟩
          exact ⟨rfl, rfl, .inl ⟨clause, specifier, rfl, listed, rfl⟩⟩
        · rintro ⟨rfl, rfl, ⟨_, specifier, same, listed, rfl⟩ | ⟨none, -⟩⟩
          · obtain rfl := Option.some.inj same
            exact ⟨specifier, listed, rfl, rfl, rfl⟩
          · cases none
    | none => simp
  · simp [isExport]

theorem examine_items (m : SourceModule) (marker : String) (entry : List Tree × Tree) :
    examine m.text marker (importedNames m.text m.statements)
      (overloads m.text m.statements) entry =
      (itemsOf entry).filterMap (ExportItem.examined? m marker) := by
  rw [examine, itemsOf]
  by_cases isExport : entry.2.kind = .exportStatement
  · rw [if_pos (beq_iff_eq.mpr isExport), if_pos (beq_iff_eq.mpr isExport)]
    cases entry.2.childOfKind? .exportClause with
    | some clause =>
        dsimp only
        rw [specifierCandidates, List.map_map, List.filterMap_map, ← List.filterMap_eq_map]
        rfl
    | none =>
        simp only [List.filterMap_cons, List.filterMap_nil, ExportItem.examined?,
          ExportItem.candidate?, ExportItem.isMarked, Option.any_none, Bool.or_false]
        cases declarationCandidate? m.text entry.2 with
        | none => rfl
        | some candidate =>
            dsimp only
            by_cases overloaded : isOverloaded m.text (overloads m.text m.statements)
              candidate = true
            · simp [Option.filter_some, overloaded]
            · simp [Option.filter_some, overloaded]
  · simp [isExport]

theorem count_exports (candidates : List Candidate) (skips : Candidate → Bool) (scan : Scan) :
    (candidates.foldl (fun scan candidate =>
      { scan with exportCount := scan.exportCount + 1 }.count (skips candidate) candidate)
        scan).exportCount =
        scan.exportCount + candidates.length := by
  obtain ⟨_, -, -, counted⟩ := count_specifiers skips candidates scan
  exact counted

theorem look_count (source marker : String) (imported : List (String × String))
    (overloaded : List String) (scan : Scan) (entry : List Tree × Tree) :
    (look source marker imported overloaded scan entry).exportCount = scan.exportCount +
      (itemsOf entry).length := by
  rw [look, itemsOf]
  by_cases isExport : entry.2.kind = .exportStatement
  · rw [if_pos (beq_iff_eq.mpr isExport), if_pos (beq_iff_eq.mpr isExport)]
    cases entry.2.childOfKind? .exportClause with
    | some clause =>
        rw [List.length_map]
        have counted := count_exports (specifierCandidates source imported entry.2 clause)
          (fun candidate => isMarked source marker entry.1 entry.2 ||
            (Tree.withEarlier clause.namedChildren).any fun listed =>
              listed.2.kind == .exportSpecifier && listed.2.span == candidate.node &&
                isMarked source marker listed.1 listed.2) scan
        rw [specifierCandidates, List.length_map] at counted
        exact counted
    | none =>
        dsimp only
        rw [addStatement]
        cases declarationCandidate? source entry.2 with
        | none => rfl
        | some candidate =>
            dsimp only
            split
            next => rfl
            next =>
                rw [count]
                split <;> rfl
  · simp [isExport]

theorem look_all_count (source marker : String) (imported : List (String × String))
    (overloaded : List String) (entries : List (List Tree × Tree)) (scan : Scan) :
    (entries.foldl (look source marker imported overloaded) scan).exportCount =
      scan.exportCount + (entries.flatMap itemsOf).length := by
  induction entries generalizing scan with
  | nil => rfl
  | cons first rest ih =>
      rw [List.foldl_cons, ih, look_count, List.flatMap_cons, List.length_append, Nat.add_assoc]

end Scan

namespace SourceModule

def exportItems (m : SourceModule) :
    List ExportItem := (Tree.withEarlier m.statements).flatMap Scan.itemsOf

theorem examined_items (m : SourceModule) (marker : String) :
    m.examined marker = m.exportItems.filterMap (ExportItem.examined? m marker) := by
  rw [examined, exportItems, List.filterMap_flatMap]
  exact congrArg (Tree.withEarlier m.statements).flatMap (funext (Scan.examine_items m marker))

theorem scan_count (m : SourceModule) (marker : String) :
    (m.scan marker).exportCount = m.exportItems.length := by
  rw [scan, Scan.of_statements_eq, Scan.look_all_count, exportItems]
  exact Nat.zero_add _

theorem scan_adds_up (m : SourceModule) (marker : String) :
    (m.scan marker).exportCount =
      (m.scan marker).candidates.length + (m.scan marker).skipped +
        m.exportItems.countP fun item => (item.candidate? m).isNone := by
  obtain ⟨candidates, skipped, -⟩ := m.scan_counts marker
  have examined : (m.examined marker).length = m.exportItems.countP fun item =>
    (item.candidate? m).isSome := by
    rw [examined_items, List.length_filterMap_eq_countP]
    simp [ExportItem.examined?]
  have whole := List.length_eq_countP_add_countP (fun item => (ExportItem.candidate? m item).isSome)
    (l := m.exportItems)
  have split := List.length_eq_countP_add_countP Examined.isProtected (l := m.examined marker)
  simp only [Bool.not_eq_true, Option.isSome_eq_false_iff, Bool.decide_eq_true] at whole
  simp only [Bool.not_eq_true, Bool.decide_eq_false] at split
  rw [scan_count, candidates, skipped, List.length_append, List.length_map,
    ← List.countP_eq_length_filter]
  change _ = 0 + _ + (0 + _) + _
  omega

theorem items_are_candidates (m : SourceModule) (marker : String)
    (full : (m.scan marker).exportCount ≤ (m.scan marker).candidates.length) (item : ExportItem)
    (member : item ∈ m.exportItems) :
    item.isMarked m marker = false ∧ ∃ candidate ∈ (m.scan marker).candidates, item.candidate? m =
      some candidate := by
  have total := m.scan_adds_up marker
  have none : (m.exportItems.countP fun item => (item.candidate? m).isNone) = 0 := by omega
  rw [List.countP_eq_zero] at none
  obtain ⟨candidate, found⟩ : ∃ candidate, item.candidate? m = some candidate :=
    Option.ne_none_iff_exists'.mp (by simpa using none item member)
  obtain ⟨candidates, skipped, -⟩ := m.scan_counts marker
  have listed : ⟨candidate, item.isMarked m marker⟩ ∈ m.examined marker := by
    rw [examined_items]
    exact List.mem_filterMap.mpr ⟨item, member, by simp [ExportItem.examined?, found]⟩
  have unmarked : item.isMarked m marker = false := by
    have skips : (m.examined marker).countP Examined.isProtected = 0 := by
      rw [skipped] at total
      simp only at total
      omega
    simpa using List.countP_eq_zero.mp skips _ listed
  refine ⟨unmarked, candidate, ?_, found⟩
  rw [candidates]
  exact List.mem_map.mpr ⟨_, List.mem_filter.mpr ⟨listed, by simp [unmarked]⟩, rfl⟩

end SourceModule
end DeadExports
