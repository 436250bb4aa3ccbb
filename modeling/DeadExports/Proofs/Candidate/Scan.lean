import DeadExports.Candidate.Scan
import DeadExports.Proofs.Facts.Places

set_option autoImplicit false

namespace DeadExports

def Candidate.items (candidate : Candidate) :
    List (String × Span) := candidate.names.zip candidate.identifiers

def ExportBinding.item (binding : ExportBinding) : String × Span := (binding.exported, binding.span)

theorem Candidate.item_position (candidate : Candidate) (name : String) (span : Span)
    (member : (name, span) ∈ candidate.items) :
    name ∈ candidate.names ∧ span.start ∈ candidate.positions := by
  obtain ⟨named, placed⟩ := List.of_mem_zip member
  exact ⟨named, List.mem_map_of_mem placed⟩

namespace Scan

theorem specifier_items (source : String) (imported : List (String × String))
    (statement clause : Tree) (module? : Option String) :
    (specifierCandidates source imported statement clause).map Candidate.items =
      (clause.clauseExports source module?).map fun binding => [binding.item] := by
  rw [specifierCandidates, Tree.clauseExports, List.map_map, List.map_map]
  rfl

theorem export_bindings_of_clause (source : String) (statement clause : Tree)
    (isExport : statement.kind = .exportStatement)
    (found : statement.childOfKind? .exportClause = some clause) :
    statement.exportBindings source = clause.clauseExports source
      (statement.specifier? source) := by
  simp [Tree.exportBindings, isExport, found]

theorem is_export_target (statement target : Tree) (found : statement.exportTarget? = some target) :
    target.isExportTarget = true := by
  rw [Tree.exportTarget?, Option.or_eq_some_iff] at found
  rw [Tree.isExportTarget, Bool.or_eq_true]
  rcases found with declaration | ⟨-, value⟩
  · exact .inl (by simpa using List.find?_some declaration)
  · exact .inr (by simpa using List.find?_some value)

theorem beside_target (statement target : Tree) (laidOut : statement.isLaidOut = true)
    (isExport : statement.kind = .exportStatement) (found : statement.exportTarget? = some target) :
    ((statement.children.takeWhile fun child => !child.isExportTarget).any fun child =>
      child.kind == .exportWord) = true ∧
      ∀ child ∈ statement.children, child.kind ≠ .namespaceExport ∧ child.kind ≠ .star := by
  have holds := (Tree.laid_out_parts statement laidOut).2.1
  rw [isExport] at holds
  have some : statement.children.any Tree.isExportTarget = true :=
    List.any_eq_true.mpr
      ⟨target, Tree.export_target_member statement target found,
        is_export_target statement target found⟩
  simpa only [Tree.mayHold, Kind.isWord, Kind.hasPlainName, some, Bool.not_true, Bool.false_or,
    Bool.false_eq_true, if_false, beq_self_eq_true, if_true, reduceCtorEq, beq_iff_eq,
    List.all_eq_true, Bool.and_eq_true, bne_iff_ne]
    using holds

theorem no_star_beside_target (statement target : Tree) (laidOut : statement.isLaidOut = true)
    (isExport : statement.kind = .exportStatement) (found : statement.exportTarget? = some target) :
    statement.childOfKind? .namespaceExport = none ∧ statement.childOfKind? .star = none := by
  have others := (beside_target statement target laidOut isExport found).2
  constructor
  · exact List.find?_eq_none.mpr fun child member => by simpa using (others child member).1
  · exact List.find?_eq_none.mpr fun child member => by simpa using (others child member).2

theorem kind_of_default_value (target : Tree) (kind : kindOf? true target = some .defaultValue) :
    (if Tree.namesDefault target.kind then target.childInRole? .name else none) = none := by
  cases known : target.kind <;> simp_all [kindOf?, Tree.namesDefault]

theorem kind_of_named_default (target : Tree) (kind : CandidateKind)
    (found : kindOf? true target = some kind) (proper : kind ≠ .defaultValue) :
    (if Tree.namesDefault target.kind then target.childInRole? .name else none) =
      target.childInRole? .name := by
  cases known : target.kind <;> simp_all [kindOf?, Tree.namesDefault]

theorem default_items (source : String) (word target : Tree) (kind : CandidateKind)
    (names : List String) (identifiers : List Span) (found : kindOf? true target = some kind)
    (named : namesOf? source kind (some word) target = some (names, identifiers)) :
    names.zip identifiers = [(Tree.defaultExport source word target).item] := by
  rw [Tree.defaultExport]
  by_cases value : kind = .defaultValue
  · subst value
    rw [kind_of_default_value target found]
    obtain ⟨rfl, rfl⟩ := Prod.mk.inj (Option.some.inj named)
    rfl
  · rw [kind_of_named_default target kind found value]
    have named : (target.childInRole? .name).map (fun name => (["default"], [name.span])) =
        some (names, identifiers) := by
      cases kind <;> first | exact absurd rfl value | exact named
    obtain ⟨name, child, same⟩ := Option.map_eq_some_iff.mp named
    obtain ⟨rfl, rfl⟩ := Prod.mk.inj same
    rw [child]
    rfl

theorem declared_items (source : String) (target : Tree) (kind : CandidateKind)
    (names : List String) (identifiers : List Span)
    (named : namesOf? source kind none target = some (names, identifiers)) :
    names.zip identifiers = (target.declarationExports source).map ExportBinding.item ∧
    names.zip identifiers ≠ [] := by
  have declared : (if (target.declaredNames source).isEmpty then none
    else some (target.declaredNames source).unzip) =
      some (names, identifiers) := by
    cases kind <;> exact named
  split at declared
  next => cases declared
  next filled =>
      have zipped := List.zip_unzip (target.declaredNames source)
      rw [Option.some.inj declared] at zipped
      dsimp only at zipped
      rw [zipped, Tree.declarationExports, List.map_map]
      refine ⟨by simp [Function.comp_def, ExportBinding.item], ?_⟩
      intro none
      rw [none] at filled
      exact filled rfl

theorem declaration_items (source : String) (statement : Tree) (candidate : Candidate)
    (laidOut : statement.isLaidOut = true) (isExport : statement.kind = .exportStatement)
    (noClause : statement.childOfKind? .exportClause = none)
    (found : declarationCandidate? source statement = some candidate) :
    candidate.items = (statement.exportBindings source).map ExportBinding.item ∧
    candidate.items ≠ [] := by
  obtain ⟨target, targeted, rest⟩ := Option.bind_eq_some_iff.mp found
  obtain ⟨kind, kinded, rest⟩ := Option.bind_eq_some_iff.mp rest
  obtain ⟨⟨names, identifiers⟩, named, same⟩ := Option.bind_eq_some_iff.mp rest
  obtain rfl := Option.some.inj same
  obtain ⟨noNamespace, noStar⟩ := no_star_beside_target statement target laidOut isExport targeted
  cases word : statement.childOfKind? .defaultWord with
  | some word' =>
      have bindings : statement.exportBindings source = [Tree.defaultExport source word'
          target] := by
        simp only [Tree.exportBindings, isExport, noClause, noNamespace, noStar, targeted, word]
        rfl
      rw [word] at kinded named
      have items := default_items source word' target kind names identifiers kinded named
      rw [bindings]
      refine ⟨items, ?_⟩
      rw [Candidate.items, items]
      exact List.cons_ne_nil _ _
  | none =>
      have bindings : statement.exportBindings source = target.declarationExports source := by
        simp only [Tree.exportBindings, isExport, noClause, noNamespace, noStar, targeted, word]
        rfl
      rw [word] at named
      rw [bindings]
      exact declared_items source target kind names identifiers named

-- What looking at some statements adds to a scan. Every export is counted, and a candidate says
-- what some statement exports; when as many candidates come as exports are counted, nothing that is
-- exported is left out.
structure Adds (source : String) (statements : List Tree) (scan next : Scan)
    (added : List Candidate) (counted : Nat) :
    Prop where
  candidates : next.candidates = scan.candidates ++ added
  count : next.exportCount = scan.exportCount + counted
  bound : added.length ≤ counted
  proper : ∀ candidate ∈ added, candidate.items ≠ [] ∧ ∀ item ∈ candidate.items,
    ∃ statement ∈ statements, ∃ binding ∈ statement.exportBindings source, binding.item = item
  full : added.length = counted → ∀ statement ∈ statements,
      ∀ binding ∈ statement.exportBindings source,
    ∃ candidate ∈ added, binding.item ∈ candidate.items

theorem adds_trans (source : String) (first rest : List Tree) (scan middle next : Scan)
    (some more : List Candidate) (counted further : Nat)
    (left : Adds source first scan middle some counted)
    (right : Adds source rest middle next more further) :
    Adds source (first ++ rest) scan next (some ++ more) (counted + further) where
  candidates := by rw [right.candidates, left.candidates, List.append_assoc]
  count := by rw [right.count, left.count, Nat.add_assoc]
  bound := by
    have := left.bound
    have := right.bound
    rw [List.length_append]
    omega
  proper candidate member := by
    rcases List.mem_append.mp member with early | late
    · obtain ⟨filled, items⟩ := left.proper candidate early
      refine ⟨filled, fun item listed => ?_⟩
      obtain ⟨statement, stated, found⟩ := items item listed
      exact ⟨statement, List.mem_append_left _ stated, found⟩
    · obtain ⟨filled, items⟩ := right.proper candidate late
      refine ⟨filled, fun item listed => ?_⟩
      obtain ⟨statement, stated, found⟩ := items item listed
      exact ⟨statement, List.mem_append_right _ stated, found⟩
  full equal statement stated binding bound := by
    have lower := left.bound
    have upper := right.bound
    rw [List.length_append] at equal
    rcases List.mem_append.mp stated with early | late
    · obtain ⟨candidate, member, item⟩ := left.full (by omega) statement early binding bound
      exact ⟨candidate, List.mem_append_left _ member, item⟩
    · obtain ⟨candidate, member, item⟩ := right.full (by omega) statement late binding bound
      exact ⟨candidate, List.mem_append_right _ member, item⟩

theorem count_specifiers (skips : Candidate → Bool) (candidates : List Candidate) (scan : Scan) :
    ∃ kept : List Candidate, kept.Sublist candidates ∧
      (candidates.foldl (fun scan candidate =>
        { scan with exportCount := scan.exportCount + 1 }.count (skips candidate) candidate)
          scan).candidates =
          scan.candidates ++ kept ∧
      (candidates.foldl (fun scan candidate =>
        { scan with exportCount := scan.exportCount + 1 }.count (skips candidate) candidate)
          scan).exportCount =
          scan.exportCount + candidates.length := by
  induction candidates generalizing scan with
  | nil => exact ⟨[], List.Sublist.refl _, by simp, rfl⟩
  | cons first rest ih =>
      rw [List.foldl_cons, List.length_cons]
      obtain ⟨kept, sublist, candidates, count⟩ :=
        ih ({ scan with exportCount := scan.exportCount + 1 }.count (skips first) first)
      rw [candidates, count, Scan.count]
      cases skips first with
      | true => exact ⟨kept, sublist.cons first, rfl, by simp; omega⟩
      | false => exact ⟨first :: kept, sublist.cons_cons first, by simp, by simp; omega⟩

theorem add_clause_adds (source marker : String) (imported : List (String × String))
    (isSkipped : Bool) (statement clause : Tree) (scan : Scan)
    (isExport : statement.kind = .exportStatement)
    (found : statement.childOfKind? .exportClause = some clause) :
    ∃ added counted,
      Adds source [statement] scan
        (addClause source marker imported isSkipped statement clause scan) added counted := by
  have bindings := export_bindings_of_clause source statement clause isExport found
  have items := specifier_items source imported statement clause (statement.specifier? source)
  rw [← bindings] at items
  obtain ⟨kept, sublist, candidates, count⟩ := count_specifiers
    (fun candidate => isSkipped || (Tree.withEarlier clause.namedChildren).any fun entry =>
      entry.2.kind == .exportSpecifier && entry.2.span == candidate.node &&
        isMarked source marker entry.1 entry.2)
    (specifierCandidates source imported statement clause) scan
  refine ⟨kept, _, candidates, count, sublist.length_le, ?_, ?_⟩
  · intro candidate member
    have listed : candidate.items ∈ (specifierCandidates source imported statement clause).map
        Candidate.items :=
      List.mem_map_of_mem (sublist.mem member)
    rw [items] at listed
    obtain ⟨binding, bound, same⟩ := List.mem_map.mp listed
    rw [← same]
    refine ⟨List.cons_ne_nil _ _, ?_⟩
    intro item here
    exact ⟨statement, List.mem_singleton_self _, binding, bound, (List.mem_singleton.mp here).symm⟩
  · intro equal other stated binding bound
    obtain rfl := List.mem_singleton.mp stated
    have whole := sublist.eq_of_length equal
    have listed : [binding.item] ∈ (specifierCandidates source imported other clause).map
        Candidate.items := by
      rw [items]
      exact List.mem_map.mpr ⟨binding, bound, rfl⟩
    obtain ⟨candidate, member, same⟩ := List.mem_map.mp listed
    refine ⟨candidate, whole ▸ member, ?_⟩
    rw [same]
    exact List.mem_singleton_self _

theorem adds_nothing (source : String) (statement : Tree) (scan next : Scan)
    (candidates : next.candidates = scan.candidates)
    (count : next.exportCount = scan.exportCount + 1) : Adds source [statement] scan next [] 1 where
  candidates := by rw [candidates, List.append_nil]
  count := count
  bound := Nat.zero_le 1
  proper candidate member := by cases member
  full equal := by cases equal

theorem add_statement_adds (source : String) (overloaded : List String) (isSkipped : Bool)
    (statement : Tree) (scan : Scan) (laidOut : statement.isLaidOut = true)
    (isExport : statement.kind = .exportStatement)
    (noClause : statement.childOfKind? .exportClause = none) :
    ∃ added counted, Adds source [statement] scan
      (addStatement source overloaded isSkipped statement scan) added counted := by
  rw [addStatement]
  cases found : declarationCandidate? source statement with
  | none => exact ⟨[], 1, adds_nothing source statement scan _ rfl rfl⟩
  | some candidate =>
      dsimp only
      split
      next => exact ⟨[], 1, adds_nothing source statement scan _ rfl rfl⟩
      next =>
          cases isSkipped with
          | true => exact ⟨[], 1, adds_nothing source statement scan _ rfl rfl⟩
          | false =>
              obtain ⟨items, filled⟩ := declaration_items source statement candidate laidOut
                isExport noClause found
              refine ⟨[candidate], 1, rfl, rfl, Nat.le_refl 1, ?_, ?_⟩
              · intro other member
                obtain rfl := List.mem_singleton.mp member
                refine ⟨filled, fun item listed => ?_⟩
                rw [items] at listed
                obtain ⟨binding, bound, same⟩ := List.mem_map.mp listed
                exact ⟨statement, List.mem_singleton_self _, binding, bound, same⟩
              · intro _ other stated binding bound
                obtain rfl := List.mem_singleton.mp stated
                exact ⟨candidate, List.mem_singleton_self _, items ▸ List.mem_map_of_mem bound⟩

def look (source marker : String) (imported : List (String × String)) (overloaded : List String)
    (scan : Scan) (entry : List Tree × Tree) : Scan :=
  if entry.2.kind == .exportStatement then
    match entry.2.childOfKind? .exportClause with
    | some clause => scan.addClause source marker imported (isMarked source marker entry.1 entry.2)
        entry.2 clause
    | none => scan.addStatement source overloaded (isMarked source marker entry.1 entry.2) entry.2
  else scan

theorem of_statements_eq (source marker : String) (statements : List Tree) :
    ofStatements source marker statements =
      (Tree.withEarlier statements).foldl
        (look source marker (importedNames source statements) (overloads source statements))
          {} := rfl

theorem look_adds (source marker : String) (imported : List (String × String))
    (overloaded : List String) (scan : Scan) (entry : List Tree × Tree)
    (laidOut : entry.2.isLaidOut = true) :
    ∃ added counted, Adds source [entry.2] scan (look source marker imported overloaded scan entry)
      added counted := by
  rw [look]
  split
  next isExport =>
      rw [beq_iff_eq] at isExport
      cases found : entry.2.childOfKind? .exportClause with
      | some clause =>
          exact add_clause_adds source marker imported _ entry.2 clause scan isExport found
      | none => exact add_statement_adds source overloaded _ entry.2 scan laidOut isExport found
  next other =>
      refine ⟨[], 0, by simp, rfl, Nat.le_refl 0, ?_, ?_⟩
      · intro candidate member
        cases member
      · intro _ statement stated binding bound
        obtain rfl := List.mem_singleton.mp stated
        rw [Tree.exportBindings, if_neg other] at bound
        cases bound

theorem look_all_adds (source marker : String) (imported : List (String × String))
    (overloaded : List String) (entries : List (List Tree × Tree)) (scan : Scan)
    (laidOut : ∀ entry ∈ entries, entry.2.isLaidOut = true) :
    ∃ added counted, Adds source (entries.map Prod.snd) scan
      (entries.foldl (look source marker imported overloaded) scan) added counted := by
  induction entries generalizing scan with
  | nil =>
      refine ⟨[], 0, by simp, rfl, Nat.le_refl 0, ?_, ?_⟩
      · intro candidate member
        cases member
      · intro _ statement stated
        cases stated
  | cons first rest ih =>
      obtain ⟨some, counted, here⟩ := look_adds source marker imported overloaded scan first
        (laidOut first List.mem_cons_self)
      obtain ⟨more, further, later⟩ := ih (look source marker imported overloaded scan first)
        fun entry member => laidOut entry (List.mem_cons_of_mem _ member)
      exact ⟨some ++ more, counted + further, adds_trans source [first.2] (rest.map Prod.snd) scan _
        _ some more counted
        further here later⟩

theorem with_earlier_items (items : List Tree) : (Tree.withEarlier items).map Prod.snd = items := by
  refine List.ext_getElem (by simp [Tree.withEarlier]) fun index _ _ => ?_
  simp [Tree.withEarlier]

end Scan

namespace SourceModule

theorem statement_member (m : SourceModule) (statement : Tree) (member : statement ∈ m.statements) :
    statement ∈ m.tree.children := (List.mem_filter.mp member).1

theorem scan_adds (m : SourceModule) (marker : String) :
    ∃ counted, Scan.Adds m.text m.statements {} (m.scan marker)
      (m.scan marker).candidates counted := by
  have laidOut : ∀ entry ∈ Tree.withEarlier m.statements, entry.2.isLaidOut = true := by
    intro entry member
    have stated : entry.2 ∈ (Tree.withEarlier m.statements).map Prod.snd :=
      List.mem_map_of_mem member
    rw [Scan.with_earlier_items] at stated
    exact Tree.laid_out_child m.tree m.laidOut entry.2 (statement_member m entry.2 stated)
  obtain ⟨added, counted, adds⟩ := Scan.look_all_adds m.text marker
    (Scan.importedNames m.text m.statements)
    (Scan.overloads m.text m.statements) (Tree.withEarlier m.statements) {} laidOut
  rw [Scan.with_earlier_items, ← Scan.of_statements_eq] at adds
  have same : (m.scan marker).candidates = added := adds.candidates
  exact ⟨counted, same ▸ adds⟩

end SourceModule
end DeadExports
