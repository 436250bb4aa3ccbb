import DeadExports.Proofs.Candidate.Scan

set_option autoImplicit false

namespace DeadExports

structure Examined where
  candidate : Candidate
  isProtected : Bool

namespace Scan

def isSkipped (source marker : String) (entry : List Tree × Tree) (clause : Tree)
    (candidate : Candidate) : Bool :=
  isMarked source marker entry.1 entry.2 ||
    (Tree.withEarlier clause.namedChildren).any fun listed =>
      listed.2.kind == .exportSpecifier && listed.2.span == candidate.node &&
        isMarked source marker listed.1 listed.2

def examine (source marker : String) (imported : List (String × String)) (overloaded : List String)
    (entry : List Tree × Tree) : List Examined :=
  if entry.2.kind == .exportStatement then
    match entry.2.childOfKind? .exportClause with
    | some clause =>
      (specifierCandidates source imported entry.2 clause).map fun candidate =>
        ⟨candidate, isSkipped source marker entry clause candidate⟩
    | none =>
      match declarationCandidate? source entry.2 with
      | some candidate =>
        if isOverloaded source overloaded candidate then []
        else [⟨candidate, isMarked source marker entry.1 entry.2⟩]
      | none => []
  else []

theorem mem_examine (source marker : String) (imported : List (String × String))
    (overloaded : List String) (entry : List Tree × Tree) (one : Examined) :
    one ∈ examine source marker imported overloaded entry ↔
      entry.2.kind = .exportStatement ∧
        ((∃ clause specifier, entry.2.childOfKind? .exportClause = some clause ∧
          specifier ∈ clause.clauseSpecifiers ∧
            one.candidate = specifierCandidate source imported entry.2 clause specifier ∧
            one.isProtected = isSkipped source marker entry clause one.candidate) ∨
          (entry.2.childOfKind? .exportClause = none ∧ declarationCandidate? source entry.2 =
            some one.candidate ∧
            isOverloaded source overloaded one.candidate = false ∧
            one.isProtected = isMarked source marker entry.1 entry.2)) := by
  obtain ⟨candidate, isProtected⟩ := one
  rw [examine]
  split
  next isExport =>
      rw [and_iff_right (beq_iff_eq.mp isExport)]
      cases found : entry.2.childOfKind? .exportClause with
      | some clause =>
          simp only [specifierCandidates, List.mem_map, Examined.mk.injEq]
          constructor
          · rintro ⟨_, ⟨specifier, listed, rfl⟩, rfl, rfl⟩
            exact .inl ⟨clause, specifier, rfl, listed, rfl, rfl⟩
          · rintro (⟨_, specifier, same, listed, rfl, rfl⟩ | ⟨none, -⟩)
            · obtain rfl := Option.some.inj same
              exact ⟨_, ⟨specifier, listed, rfl⟩, rfl, rfl⟩
            · cases none
      | none =>
          cases declared : declarationCandidate? source entry.2 with
          | none => simp
          | some other =>
              dsimp only
              split
              next overloads =>
                  refine iff_of_false (List.not_mem_nil) ?_
                  rintro (⟨_, _, some, -⟩ | ⟨-, same, plain, -⟩)
                  · cases some
                  · rw [← Option.some.inj same, overloads] at plain
                    cases plain
              next plain =>
                  rw [List.mem_singleton, Examined.mk.injEq]
                  constructor
                  · rintro ⟨rfl, rfl⟩
                    exact .inr ⟨rfl, rfl, Bool.eq_false_iff.mpr plain, rfl⟩
                  · rintro (⟨_, _, some, -⟩ | ⟨-, same, -, marked⟩)
                    · cases some
                    · exact ⟨(Option.some.inj same).symm, marked⟩
  next isOther => exact iff_of_false (List.not_mem_nil) fun both => isOther (beq_iff_eq.mpr both.1)

theorem names_of_length (source : String) (kind : CandidateKind) (word? : Option Tree)
    (target : Tree) (names : List String) (identifiers : List Span)
    (found : namesOf? source kind word? target = some (names, identifiers)) :
    names.length = identifiers.length := by
  revert found
  fun_cases namesOf? source kind word? target with
  | case1 =>
      rintro ⟨⟩
      rfl
  | case2 =>
      intro found
      obtain ⟨_, -, same⟩ := Option.map_eq_some_iff.mp found
      obtain ⟨rfl, rfl⟩ := Prod.mk.inj same
      rfl
  | case3 => exact nofun
  | case4 declared =>
      intro found
      have same := Option.some.inj found
      rw [List.unzip_eq_map] at same
      obtain ⟨rfl, rfl⟩ := Prod.mk.inj same
      rw [List.length_map, List.length_map]

theorem declared_names_items (source : String) (statement : Tree) (candidate : Candidate)
    (found : declarationCandidate? source statement = some candidate) :
    candidate.items.map Prod.fst = candidate.names := by
  obtain ⟨target, -, rest⟩ := Option.bind_eq_some_iff.mp found
  obtain ⟨kind, -, rest⟩ := Option.bind_eq_some_iff.mp rest
  obtain ⟨⟨names, identifiers⟩, named, same⟩ := Option.bind_eq_some_iff.mp rest
  obtain rfl := Option.some.inj same
  exact List.map_fst_zip (Nat.le_of_eq
    (names_of_length source kind _ target names identifiers named))

structure Counts (scan next : Scan) (examined : List Examined) : Prop where
  candidates : next.candidates = scan.candidates ++
      (examined.filter fun one => !one.isProtected).map Examined.candidate
  skipped : next.skipped = scan.skipped + examined.countP Examined.isProtected
  counted : scan.exportCount + examined.length ≤ next.exportCount

theorem counts_nothing (scan next : Scan) (candidates : next.candidates = scan.candidates)
    (skipped : next.skipped = scan.skipped) (counted : scan.exportCount ≤ next.exportCount) :
    Counts scan next [] where
  candidates := by simp [candidates]
  skipped := skipped
  counted := counted

theorem counts_trans (scan middle next : Scan) (first rest : List Examined)
    (left : Counts scan middle first) (right : Counts middle next rest) :
    Counts scan next (first ++ rest) where
  candidates := by
    rw [right.candidates, left.candidates, List.filter_append, List.map_append, List.append_assoc]
  skipped := by rw [right.skipped, left.skipped, List.countP_append, Nat.add_assoc]
  counted := by
    have := left.counted
    have := right.counted
    rw [List.length_append]
    omega

theorem count_one (scan next : Scan) (candidate : Candidate) (isProtected : Bool)
    (candidates : next.candidates = scan.candidates) (skipped : next.skipped = scan.skipped)
    (counted : next.exportCount = scan.exportCount + 1) :
    Counts scan (next.count isProtected candidate) [⟨candidate, isProtected⟩] := by
  cases isProtected with
  | true => exact ⟨by simp [count, candidates], by simp [count, skipped], by simp [count, counted]⟩
  | false => exact ⟨by simp [count, candidates], by simp [count, skipped], by simp [count, counted]⟩

theorem count_all (skips : Candidate → Bool) (candidates : List Candidate) (scan : Scan) :
    Counts scan
      (candidates.foldl (fun scan candidate =>
        { scan with exportCount := scan.exportCount + 1 }.count (skips candidate) candidate) scan)
      (candidates.map fun candidate => ⟨candidate, skips candidate⟩) := by
  induction candidates generalizing scan with
  | nil => exact counts_nothing scan scan rfl rfl (Nat.le_refl _)
  | cons first rest ih =>
      have one := count_one scan { scan with exportCount := scan.exportCount + 1 } first
        (skips first) rfl rfl rfl
      exact counts_trans scan _ _ [⟨first, skips first⟩] _ one (ih _)

theorem look_counts (source marker : String) (imported : List (String × String))
    (overloaded : List String) (scan : Scan) (entry : List Tree × Tree) :
    Counts scan (look source marker imported overloaded scan entry)
      (examine source marker imported overloaded entry) := by
  rw [look, examine]
  split
  next isExport =>
      cases entry.2.childOfKind? .exportClause with
      | some clause => exact count_all (isSkipped source marker entry clause) _ scan
      | none =>
          dsimp only
          rw [addStatement]
          cases declarationCandidate? source entry.2 with
          | none => exact counts_nothing scan _ rfl rfl (Nat.le_succ _)
          | some candidate =>
              dsimp only
              split
              next => exact counts_nothing scan _ rfl rfl (Nat.le_succ _)
              next => exact count_one scan _ candidate _ rfl rfl rfl
  next => exact counts_nothing scan scan rfl rfl (Nat.le_refl _)

theorem look_all_counts (source marker : String) (imported : List (String × String))
    (overloaded : List String) (entries : List (List Tree × Tree)) (scan : Scan) :
    Counts scan (entries.foldl (look source marker imported overloaded) scan)
      (entries.flatMap (examine source marker imported overloaded)) := by
  induction entries generalizing scan with
  | nil => exact counts_nothing scan scan rfl rfl (Nat.le_refl _)
  | cons first rest ih =>
      rw [List.flatMap_cons]
      exact counts_trans scan _ _ _ _ (look_counts source marker imported overloaded scan first)
        (ih _)

end Scan

namespace SourceModule

def examined (m : SourceModule) (marker : String) : List Examined :=
  (Tree.withEarlier m.statements).flatMap
    (Scan.examine m.text marker (Scan.importedNames m.text m.statements)
      (Scan.overloads m.text m.statements))

theorem scan_counts (m : SourceModule) (marker : String) :
    Scan.Counts {} (m.scan marker) (m.examined marker) :=
  Scan.look_all_counts m.text marker _ _ _ {}

theorem scan_room (m : SourceModule) (marker : String) :
    (m.scan marker).candidates.length + (m.scan marker).skipped ≤ (m.scan marker).exportCount := by
  obtain ⟨candidates, skipped, counted⟩ := m.scan_counts marker
  have whole := List.length_eq_countP_add_countP Examined.isProtected (l := m.examined marker)
  rw [candidates, skipped, List.length_append, List.length_map, ← List.countP_eq_length_filter]
  simp only [Bool.not_eq_true, Bool.decide_eq_false] at whole
  simp only [List.length_nil] at counted ⊢
  omega

theorem examined_cases (m : SourceModule) (marker : String) (one : Examined)
    (member : one ∈ m.examined marker) :
    ∃ statement ∈ m.statements, statement.kind = .exportStatement ∧
      ((∃ clause specifier, statement.childOfKind? .exportClause = some clause ∧
        specifier ∈ clause.clauseSpecifiers ∧
          one.candidate = Scan.specifierCandidate m.text (Scan.importedNames m.text m.statements)
            statement clause specifier) ∨
        (statement.childOfKind? .exportClause = none ∧ Scan.declarationCandidate? m.text statement =
          some one.candidate)) := by
  obtain ⟨entry, listed, here⟩ := List.mem_flatMap.mp member
  have stated : entry.2 ∈ (Tree.withEarlier m.statements).map Prod.snd := List.mem_map_of_mem listed
  rw [Scan.with_earlier_items] at stated
  obtain ⟨isExport, ⟨clause, specifier, found, listed, same, -⟩ | ⟨noClause, declared, -⟩⟩ :=
    (Scan.mem_examine m.text marker _ _ entry one).mp here
  · exact ⟨entry.2, stated, isExport, .inl ⟨clause, specifier, found, listed, same⟩⟩
  · exact ⟨entry.2, stated, isExport, .inr ⟨noClause, declared⟩⟩

theorem examined_exported (m : SourceModule) (marker : String) (isProgram : m.tree.kind = .program)
    (one : Examined) (member : one ∈ m.examined marker) (name : String)
    (named : name ∈ one.candidate.names) :
    (Facts.extract m).exportsName name = true := by
  obtain ⟨statement, stated, isExport, cases⟩ := m.examined_cases marker one member
  have laidOut := Tree.laid_out_child m.tree m.laidOut statement
    (statement_member m statement stated)
  have bound : ∃ binding ∈ statement.exportBindings m.text, binding.exported = name := by
    rcases cases with ⟨clause, specifier, found, listed, same⟩ | ⟨noClause, declared⟩
    · rw [same] at named
      rw [Scan.export_bindings_of_clause m.text statement clause isExport found]
      exact ⟨_, List.mem_map_of_mem listed, (List.mem_singleton.mp named).symm⟩
    · obtain ⟨items, -⟩ := Scan.declaration_items m.text statement one.candidate laidOut isExport
        noClause declared
      rw [← Scan.declared_names_items m.text statement one.candidate declared, items, List.map_map]
        at named
      exact List.mem_map.mp named
  obtain ⟨binding, here, same⟩ := bound
  have placed := Facts.export_at_place m isProgram statement stated binding here
  exact List.any_eq_true.mpr ⟨binding, List.mem_of_find?_eq_some placed, beq_iff_eq.mpr same⟩

theorem candidate_examined (m : SourceModule) (marker : String) (candidate : Candidate)
    (member : candidate ∈ (m.scan marker).candidates) :
    ∃ one ∈ m.examined marker, one.candidate = candidate := by
  rw [(m.scan_counts marker).candidates] at member
  obtain ⟨one, kept, same⟩ := List.mem_map.mp member
  exact ⟨one, (List.mem_filter.mp kept).1, same⟩

end SourceModule
end DeadExports
