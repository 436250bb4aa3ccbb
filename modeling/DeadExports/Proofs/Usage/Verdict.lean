import DeadExports.Proofs.Project.Follow
import DeadExports.Usage.Verdict

set_option autoImplicit false

namespace DeadExports

structure Project.Concur {σ τ : Type} [FileStore σ] [FileStore τ] (a : Project) (store : σ)
    (b : Project) (other : τ) :
    Prop where
  same : a.SameIndex b
  left : a.revision = some (FileStore.revision store)
  right : b.revision = some (FileStore.revision other)
  resolves : ∀ specifier importer,
      Resolve.resolve store specifier importer = Resolve.resolve other specifier importer
  loads : ∀ specifier importer file, b.resolveModule other specifier importer = some file →
    (SourceModule.load store file).toOption = (SourceModule.load other file).toOption

theorem Project.concur_one_store {σ : Type} [FileStore σ] {a b : Project} (store : σ)
    (same : a.SameIndex b) (left : a.revision = some (FileStore.revision store))
    (right : b.revision = some (FileStore.revision store)) :
    Concur a store b store := ⟨same, left, right, fun _ _ => rfl, fun _ _ _ _ => rfl⟩

namespace Chain

theorem within_place (left right : List Reference) (file : Path)
    (alike : left.map Reference.place = right.map Reference.place) :
    (within left file).map Reference.place = (within right file).map Reference.place := by
  have filtered (references : List Reference) : (within references file).map Reference.place =
      (references.map Reference.place).filter fun place => decide (place.1 = file.parts) := by
    rw [within, List.filter_map]
    congr 2
    funext reference
    exact Path.same_eq_decide reference.file file
  rw [filtered, filtered, alike]

theorem next_specifier_place (left right : List Reference) (forwardings : List Forwarding)
    (alike : left.map Reference.place = right.map Reference.place) :
    nextSpecifier? left forwardings = nextSpecifier? right forwardings := by
  have spanned (references : List Reference) : nextSpecifier? references forwardings =
      (references.map Reference.place).findSome? fun place =>
        (forwardings.find? fun forwarding => forwarding.span == place.2).map
            Forwarding.specifier := by
    rw [nextSpecifier?, List.findSome?_map]
    rfl
  rw [spanned, spanned, alike]

section Services

variable {σ τ : Type} [FileStore σ] [FileStore τ] {a b : Project} {store : σ} {other : τ}

theorem resolve_module_alike (concur : a.Concur store b other) (specifier : String)
    (importer : Path) :
    a.resolveModule store specifier importer = b.resolveModule other specifier importer := by
  rw [Project.resolveModule, Project.resolveModule, concur.left, concur.right,
    Project.same_targets concur.same, concur.resolves]
  simp

theorem follow_alike (concur : a.Concur store b other) (references others : List Reference)
    (alike : references.map Reference.place = others.map Reference.place) (steps : Nat)
    (passed : List Path) (importer : Path) (specifier : String) :
    (follow store references steps a passed importer specifier).2 = a ∧
      (follow store references steps a passed importer specifier).1 =
        (follow other others steps b passed importer specifier).1 := by
  induction steps generalizing passed importer specifier with
  | zero => exact ⟨rfl, rfl⟩
  | succ steps ih =>
      have resolvedA : LanguageService.resolveModule a store specifier importer =
          (b.resolveModule other specifier importer, a) :=
        Prod.ext (resolve_module_alike concur specifier importer) rfl
      have resolvedB : LanguageService.resolveModule b other specifier importer =
          (b.resolveModule other specifier importer, b) := rfl
      have parsedA (file : Path) : SourceParser.parse a store file = (SourceModule.load store file,
        a) := rfl
      have parsedB (file : Path) : SourceParser.parse b other file = (SourceModule.load other file,
        b) := rfl
      rw [follow, follow, resolvedA, resolvedB]
      cases resolved : b.resolveModule other specifier importer with
      | none => exact ⟨rfl, rfl⟩
      | some file =>
          have places := within_place references others file alike
          have empty : (within references file).isEmpty = (within others file).isEmpty := by
            rw [← List.isEmpty_map, places, List.isEmpty_map]
          dsimp only
          rw [empty]
          split
          next => exact ⟨rfl, rfl⟩
          next =>
              have loads := concur.loads specifier importer file resolved
              rw [parsedA, parsedB]
              cases left : SourceModule.load store file with
              | error cause =>
                  cases right : SourceModule.load other file with
                  | error reason => exact ⟨rfl, rfl⟩
                  | ok m =>
                      rw [left, right] at loads
                      cases loads
              | ok m =>
                  cases right : SourceModule.load other file with
                  | error reason =>
                      rw [left, right] at loads
                      cases loads
                  | ok parsed =>
                      rw [left, right] at loads
                      obtain rfl := Option.some.inj loads
                      dsimp only
                      rw [next_specifier_place _ _ m.forwardings places]
                      cases nextSpecifier? (within others file) m.forwardings with
                      | none => exact ⟨rfl, rfl⟩
                      | some next => exact ih (passed ++ [file]) file next

theorem find_alike (concur : a.Concur store b other) (references others : List Reference)
    (alike : references.map Reference.place = others.map Reference.place) (origin : Path)
    (specifier : String) :
    (find a store origin specifier references).2 = a ∧
      (find a store origin specifier references).1 = (find b other origin specifier others).1 := by
  have sizes : references.length = others.length := by
    rw [← List.length_map Reference.place, alike, List.length_map]
  rw [find, find, sizes]
  exact follow_alike concur references others alike _ _ _ _

end Services
end Chain

namespace Candidate

section Services

variable {σ τ : Type} [FileStore σ] [FileStore τ] {a b : Project} {store : σ} {other : τ}

omit [FileStore σ] [FileStore τ] in
theorem others_alike (references others : List Reference) (file : Path) (test : Path → Bool)
    (stable : ∀ left right : Path, left.parts = right.parts → test left = test right)
    (alike : references.map Reference.place = others.map Reference.place) :
    ((references.filter fun reference => !(reference.file == file)).any fun reference =>
      test reference.file) =
      (others.filter fun reference => !(reference.file == file)).any fun reference =>
        test reference.file := by
  induction references generalizing others with
  | nil =>
      rw [List.map_nil, eq_comm, List.map_eq_nil_iff] at alike
      rw [alike]
  | cons first rest ih =>
      rw [List.map_cons, eq_comm, List.map_eq_cons_iff] at alike
      obtain ⟨second, tail, rfl, head, later⟩ := alike
      have parts : second.file.parts = first.file.parts := congrArg Prod.fst head
      have here : (second.file == file) = (first.file == file) := by
        simp only [Path.same_eq_decide, parts]
      rw [List.filter_cons, List.filter_cons, here]
      cases first.file == file with
      | true => exact ih tail later.symm
      | false =>
          simp only [Bool.not_false, if_true, List.any_cons]
          rw [ih tail later.symm, stable second.file first.file parts]

theorem is_used_by_alike (concur : a.Concur store b other) (file : Path) (candidate : Candidate)
    (references others : List Reference)
    (alike : references.map Reference.place = others.map Reference.place) :
    (candidate.isUsedBy a store file references).2 = a ∧
      (candidate.isUsedBy a store file references).1 =
        (candidate.isUsedBy b other file others).1 := by
  rw [isUsedBy, isUsedBy]
  cases candidate.specifier with
  | none =>
      refine ⟨rfl, ?_⟩
      have filled (items : List Reference) : (!items.isEmpty) = items.any fun _ => true := by
        cases items <;> simp
      rw [filled, filled]
      exact others_alike references others file (fun _ => true) (fun _ _ _ => rfl) alike
  | some specifier =>
      obtain ⟨service, chain⟩ := Chain.find_alike concur references others alike file specifier
      dsimp only
      cases foundA : Chain.find a store file specifier references with
      | mk first later =>
          cases foundB : Chain.find b other file specifier others with
          | mk second after =>
              rw [foundA, foundB] at chain
              rw [foundA] at service
              dsimp only at chain service
              subst chain service
              cases first with
              | none => exact ⟨rfl, rfl⟩
              | some chain =>
                  refine ⟨rfl, others_alike references others file
                    (fun path => !chain.contains path) ?_ alike⟩
                  intro one other parts
                  rw [contains_view Path.parts Path.same_eq_decide chain one,
                    contains_view Path.parts Path.same_eq_decide chain other, parts]

theorem classify_at_alike (concur : a.Concur store b other) (file : Path) (candidate : Candidate)
    (positions : List Nat) :
    (candidate.classifyAt store file positions a).2 = a ∧
      (candidate.classifyAt store file positions a).1 =
        (candidate.classifyAt other file positions b).1 := by
  induction positions with
  | nil => exact ⟨rfl, rfl⟩
  | cons first rest ih =>
      have askedA : LanguageService.findReferences a store file first =
          ((b.symbolAt file first).map a.referencesTo, a) := by
        rw [← Project.same_symbol_at concur.same]
        exact Project.current_find_references a store (Project.sync_current a store concur.left)
          file first
      have askedB : LanguageService.findReferences b other file first =
          ((b.symbolAt file first).map b.referencesTo, b) :=
        Project.current_find_references b other (Project.sync_current b other concur.right)
          file first
      rw [classifyAt, classifyAt, askedA, askedB]
      cases b.symbolAt file first with
      | error cause => cases cause <;> exact ⟨rfl, rfl⟩
      | ok symbol =>
          obtain ⟨service, answer⟩ := is_used_by_alike concur file candidate (a.referencesTo symbol)
            (b.referencesTo symbol) (Project.same_references_to concur.same symbol symbol
              symbol.same_refl)
          simp only [Except.map]
          cases usedA : candidate.isUsedBy a store file (a.referencesTo symbol) with
          | mk first later =>
              cases usedB : candidate.isUsedBy b other file (b.referencesTo symbol) with
              | mk second after =>
                  have kept : after = b := by
                    have alone := Project.concur_one_store other (Project.same_index_refl b)
                      concur.right concur.right
                    have unchanged := (is_used_by_alike alone file candidate (b.referencesTo symbol)
                      (b.referencesTo symbol) rfl).1
                    rwa [usedB] at unchanged
                  rw [usedA, usedB] at answer
                  rw [usedA] at service
                  dsimp only at answer service
                  subst answer service kept
                  cases first with
                  | true => exact ⟨rfl, rfl⟩
                  | false => exact ih

end Services

variable {store : MemoryStore}

-- Any index that follows the store comes to the verdict that an index built from nothing comes to,
-- and is brought up to date at most.
theorem classify_synced (project : Project) (follows : project.Follows store) (file : Path)
    (candidate : Candidate) :
    (candidate.classify project store file).1 =
      (candidate.classify (Project.indexOf store) store file).1 ∧
      ((candidate.classify project store file).2 = project ∨
        (candidate.classify project store file).2 = (project.sync store).2) := by
  rw [classify, classify]
  cases candidate.positions with
  | nil => exact ⟨rfl, .inl rfl⟩
  | cons first rest =>
      obtain ⟨done, mirrors, current⟩ := Project.follows_sync project store follows
      have stepped : candidate.classifyAt store file (first :: rest) project =
          candidate.classifyAt store file (first :: rest) (project.sync store).2 := by
        have asked : LanguageService.findReferences project store file first =
            LanguageService.findReferences (project.sync store).2 store file first := by
          change project.findReferences store file first = (project.sync store).2.findReferences
            store file first
          rw [Project.followed_find_references project store follows,
            Project.current_find_references _ store (Project.sync_current _ store current)]
        rw [classifyAt, asked, classifyAt]
      obtain ⟨service, answer⟩ := classify_at_alike (Project.concur_one_store store
        (Project.synced_same_index project store follows) current (Project.index_of_revision store))
        file candidate (first :: rest)
      rw [stepped, service]
      exact ⟨answer, .inr rfl⟩

theorem classify_followed (project : Project) (follows : project.Follows store) (file : Path)
    (candidate : Candidate) :
    (candidate.classify project store file).1 =
      (candidate.classify (Project.indexOf store) store file).1 ∧
      Project.Follows (candidate.classify project store file).2 store := by
  obtain ⟨answer, same | synced⟩ := classify_synced project follows file candidate
  · refine ⟨answer, ?_⟩
    rw [same]
    exact follows
  · refine ⟨answer, ?_⟩
    rw [synced]
    exact Project.synced_follows project store follows

def verdict (store : MemoryStore) (file : Path) (candidate : Candidate) :
    Except AnalysisError Verdict :=
  (candidate.classify (Project.indexOf store) store file).1

def forwarders (store : MemoryStore) (file : Path) (candidate : Candidate) (position : Nat) :
    List Path :=
  match candidate.specifier, ((Project.indexOf store).symbolAt file position).toOption with
  | some specifier, some symbol =>
    ((Chain.find (Project.indexOf store) store file specifier
      ((Project.indexOf store).referencesTo symbol)).1).getD []
  | _, _ => []

theorem unused_by (file : Path) (candidate : Candidate) (position : Nat) (symbol : Symbol)
    (answer : (Project.indexOf store).symbolAt file position = .ok symbol)
    (unused : (candidate.isUsedBy (Project.indexOf store) store file
      ((Project.indexOf store).referencesTo symbol)).1 = false)
    (reference : Reference) (refers : reference ∈ (Project.indexOf store).referencesTo symbol)
    (apart : reference.file.parts ≠ file.parts) :
    (candidate.forwarders store file position).contains reference.file = true := by
  have other : reference ∈ ((Project.indexOf store).referencesTo symbol).filter fun reference =>
    !(reference.file == file) := by
    refine List.mem_filter.mpr ⟨refers, ?_⟩
    rw [Path.same_eq_decide]
    simpa using apart
  rw [isUsedBy] at unused
  rw [forwarders, answer]
  cases specified : candidate.specifier with
  | none =>
      rw [specified] at unused
      have none : (((Project.indexOf store).referencesTo symbol).filter fun reference =>
        !(reference.file == file)) = [] := by
        simpa [List.isEmpty_iff] using unused
      rw [none] at other
      cases other
  | some specifier =>
      rw [specified] at unused
      dsimp only [Except.toOption] at unused ⊢
      cases found : Chain.find (Project.indexOf store) store file specifier
          ((Project.indexOf store).referencesTo symbol) with
      | mk chain later =>
          rw [found] at unused
          cases chain with
          | none => cases unused
          | some chain =>
              have every := List.any_eq_false.mp unused reference other
              simpa using every

-- An unused candidate has a symbol at each of its positions, and only its own file and the files
-- that forward the name refer to that symbol.
theorem unused_references (file : Path) (candidate : Candidate)
    (unused : candidate.verdict store file = .ok .unused) (position : Nat)
    (member : position ∈ candidate.positions) :
    ∃ symbol, (Project.indexOf store).symbolAt file position = .ok symbol ∧
      ∀ reference ∈ (Project.indexOf store).referencesTo symbol, reference.file.parts ≠ file.parts →
        (candidate.forwarders store file position).contains reference.file = true := by
  rw [verdict, classify] at unused
  generalize candidate.positions = positions at unused member
  induction positions with
  | nil => cases member
  | cons first rest ih =>
      have asked : LanguageService.findReferences (Project.indexOf store) store file first =
          (((Project.indexOf store).symbolAt file first).map (Project.indexOf store).referencesTo,
            Project.indexOf store) :=
        Project.current_find_references _ store
          (Project.sync_current _ store (Project.index_of_revision store)) file first
      rw [classifyAt, asked] at unused
      cases answer : (Project.indexOf store).symbolAt file first with
      | error cause =>
          rw [answer] at unused
          cases cause <;> cases unused
      | ok symbol =>
          rw [answer] at unused
          simp only [Except.map] at unused
          have alone := Project.concur_one_store store (Project.same_index_refl _)
            (Project.index_of_revision store)
            (Project.index_of_revision store)
          have kept := (is_used_by_alike alone file candidate
            ((Project.indexOf store).referencesTo symbol) _ rfl).1
          cases used : candidate.isUsedBy (Project.indexOf store) store file
              ((Project.indexOf store).referencesTo symbol) with
          | mk isUsed later =>
              rw [used] at unused kept
              cases isUsed with
              | true => cases unused
              | false =>
                  dsimp only at unused kept
                  rcases List.mem_cons.mp member with rfl | member
                  · refine ⟨symbol, answer, ?_⟩
                    exact fun reference refers apart =>
                      unused_by file candidate position symbol answer (by rw [used]) reference
                        refers apart
                  · rw [kept] at unused
                    exact ih unused member

end Candidate
end DeadExports
