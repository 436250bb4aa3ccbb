import DeadExports.Proofs.Project.Follow
import DeadExports.Proofs.Project.Moves
import DeadExports.Proofs.Project.Reach
import Mathlib.Data.List.Basic

set_option autoImplicit false

namespace DeadExports

def ImportBinding.content (binding : ImportBinding) : String × Imported × String :=
  (binding.bound, binding.imported, binding.specifier)

def ExportBinding.content (binding : ExportBinding) :
    String × ExportOrigin := (binding.exported, binding.origin)

def Facts.KeepsRest (gone : List String) (before after : Facts) : Prop :=
  before.imports.map ImportBinding.content = after.imports.map ImportBinding.content ∧
    before.wildcards = after.wildcards ∧
    (before.exports.filter fun binding => !gone.contains binding.exported).map
    ExportBinding.content =
      (after.exports.filter fun binding => !gone.contains binding.exported).map
      ExportBinding.content

instance (gone : List String) (before after : Facts) :
    Decidable (Facts.KeepsRest gone before after) :=
  inferInstanceAs (Decidable (_ ∧ _ ∧ _))

namespace Facts

theorem find_export_content (facts : Facts) (gone : List String) (name : String)
    (kept : gone.contains name = false) :
    (facts.exports.find? fun binding => binding.exported == name).map ExportBinding.content =
      ((facts.exports.filter fun binding => !gone.contains binding.exported).map
        ExportBinding.content).find? fun content =>
        content.1 == name := by
  rw [List.find?_map, List.find?_filter]
  congr 2
  funext binding
  cases same : binding.exported == name with
  | false => simp [ExportBinding.content, same]
  | true =>
      rw [beq_iff_eq] at same
      simp only [ExportBinding.content, Function.comp, same, kept]
      simp

theorem import_of_content (facts : Facts) (name : String) :
    (facts.importOf? name).map ImportBinding.content =
      (facts.imports.map ImportBinding.content).find? fun content => content.1 == name := by
  rw [List.find?_map]
  rfl

theorem import_listed (facts : Facts) (binding : ImportBinding) (member : binding ∈ facts.imports) :
    binding.specifier ∈ facts.dependencies.map Prod.fst := by
  simp only [dependencies, List.map_append, List.mem_append, List.map_map]
  exact .inl (.inl (.inl (.inl (List.mem_map_of_mem member))))

theorem reexport_listed (facts : Facts) (binding : ExportBinding) (specifier imported : String)
    (member : binding ∈ facts.exports) (origin : binding.origin = .reexport specifier imported) :
    specifier ∈ facts.dependencies.map Prod.fst := by
  simp only [dependencies, List.map_append, List.mem_append, List.map_map]
  refine .inl
    (.inl (.inr (List.mem_map.mpr ⟨specifier, List.mem_filterMap.mpr ⟨binding, member, ?_⟩, rfl⟩)))
  simp [ExportBinding.specifier?, origin]

theorem wildcard_listed (facts : Facts) (specifier : String)
    (member : specifier ∈ facts.wildcards) :
    specifier ∈ facts.dependencies.map Prod.fst := by
  simp only [dependencies, List.map_append, List.mem_append, List.map_map]
  exact .inr (List.mem_map.mpr ⟨specifier, member, rfl⟩)

end Facts

namespace Project

theorem resolved_dependency_iff (store : MemoryStore) (path : Path) (facts : Facts)
    (specifier : String) (target : Path) (kind : LinkKind) :
    (specifier, target, kind) ∈ resolvedDependencies store path facts ↔
      (specifier, kind) ∈ facts.dependencies ∧ (Resolve.resolve store specifier path).filter
        Path.isSource = some target := by
  rw [resolvedDependencies, List.mem_filterMap]
  constructor
  · rintro ⟨⟨name, other⟩, member, found⟩
    dsimp only at found
    split at found
    next file resolved =>
        split at found
        next source =>
            cases found
            exact ⟨member, by simp [resolved, Option.filter, source]⟩
        next => cases found
    next => cases found
  · rintro ⟨member, found⟩
    obtain ⟨resolved, source⟩ := Option.filter_eq_some_iff.mp found
    exact ⟨(specifier, kind), member, by simp [resolved, source]⟩

theorem resolved_find (store : MemoryStore) (path : Path) (facts : Facts) (specifier : String)
    (listed : specifier ∈ facts.dependencies.map Prod.fst) :
    (((resolvedDependencies store path facts).map fun (specifier, target, _) =>
      (specifier, target)).find? fun found =>
      found.1 == specifier).map Prod.snd = (Resolve.resolve store specifier path).filter
          Path.isSource := by
  obtain ⟨⟨written, kind⟩, depends, same⟩ := List.mem_map.mp listed
  obtain rfl : written = specifier := same
  cases hit : ((resolvedDependencies store path facts).map fun (specifier, target, _) =>
    (specifier, target)).find? fun found =>
      found.1 == written with
  | some pair =>
      obtain ⟨⟨name, target, other⟩, member, rfl⟩ := List.mem_map.mp (List.mem_of_find?_eq_some hit)
      have alike : name = written := by simpa using List.find?_some hit
      obtain ⟨-, found⟩ := (resolved_dependency_iff store path facts name target other).mp member
      rw [← alike, found]
      rfl
  | none =>
      cases found : (Resolve.resolve store written path).filter Path.isSource with
      | none => rfl
      | some target =>
          have member := (resolved_dependency_iff store path facts written target kind).mpr
            ⟨depends, found⟩
          have missed := List.find?_eq_none.mp hit _ (List.mem_map_of_mem member)
          simp at missed

theorem target_in (store : MemoryStore) (path : Path) (facts : Facts)
    (known : (indexOf store).facts? path = some facts) (specifier : String)
    (listed : specifier ∈ facts.dependencies.map Prod.fst) :
    (indexOf store).target? path specifier = (Resolve.resolve store specifier path).filter
      Path.isSource := by
  rw [facts?, (index_of_mirrors store).files path] at known
  rw [target?, (index_of_mirrors store).files path]
  rw [entryIn] at known ⊢
  split
  next source =>
      rw [if_pos source] at known
      obtain ⟨entry, present, same⟩ := Option.map_eq_some_iff.mp known
      obtain ⟨text, found, rfl⟩ := Option.map_eq_some_iff.mp present
      rw [found, Option.map_some, Option.bind_some]
      have facts_eq : (freshEntry path text).facts = facts := same
      rw [resolvedEntry, facts_eq]
      exact resolved_find store path facts specifier listed
  next other =>
      rw [if_neg other] at known
      cases known

theorem resolve_export_agree (a b : Project) (area : ExportKey → Prop)
    (closed : ∀ key next, area key → a.Step key next → area next)
    (same : ∀ key, area key → a.move key = b.move key) (steps : Nat) (key : ExportKey)
    (passed : List ExportKey) (inside : area key) :
    a.resolveExport steps key passed = b.resolveExport steps key passed := by
  induction steps generalizing key passed with
  | zero => rfl
  | succ steps ih =>
      rw [resolve_export_move, resolve_export_move, ← same key inside]
      split
      next => rfl
      next =>
          refine run_congr _ _ (resolve_export_grows a steps) _ _ fun next member later _ => ?_
          exact ih next later (closed key next inside (move_step a key next member))

theorem lookup_agree (a b : Project) (area : ExportKey → Prop)
    (closed : ∀ key next, area key → a.Step key next → area next)
    (same : ∀ key, area key → a.move key = b.move key) (key : ExportKey) (inside : area key) :
    a.lookup key [] = b.lookup key [] :=
  calc a.lookup key []
    _ = a.resolveExport (max a.chainBound b.chainBound) key [] :=
      lookup_enough a key _ (Nat.le_max_left _ _)
    _ = b.resolveExport (max a.chainBound b.chainBound) key [] :=
      resolve_export_agree a b area closed same _ key [] inside
    _ = b.lookup key [] := (lookup_enough b key _ (Nat.le_max_right _ _)).symm

section Agreement

variable {a b : Project} {file : Path} {before after : Facts} {gone : List String}

theorem import_move_agree (taken other : ImportBinding) (content : taken.content = other.content)
    (target : b.target? file taken.specifier = a.target? file taken.specifier) :
    a.importMove file taken = b.importMove file other := by
  obtain ⟨bound, rest⟩ := Prod.mk.inj content
  obtain ⟨imported, specifier⟩ := Prod.mk.inj rest
  have key : b.importKey? file other = a.importKey? file taken := by
    simp only [importKey?, importedName?, ← imported, ← specifier, target]
  rw [importMove, importMove, key, bound]

theorem own_move_agree (knownA : a.facts? file = some before) (knownB : b.facts? file = some after)
    (keeps : Facts.KeepsRest gone before after)
    (targets : ∀ specifier, specifier ∈ before.dependencies.map Prod.fst →
      specifier ∈ after.dependencies.map Prod.fst → b.target? file specifier =
        a.target? file specifier)
    (name own : String) :
    a.originMove file name (.own own) = b.originMove file name (.own own) := by
  have same : (before.importOf? own).map ImportBinding.content = (after.importOf? own).map
      ImportBinding.content := by
    rw [Facts.import_of_content, Facts.import_of_content, keeps.1]
  rw [originMove, originMove, knownA, knownB, Option.bind_some, Option.bind_some]
  cases found : before.importOf? own with
  | none =>
      rw [found] at same
      rw [Option.map_eq_none_iff.mp same.symm]
  | some taken =>
      rw [found] at same
      obtain ⟨other, present, content⟩ := Option.map_eq_some_iff.mp same.symm
      rw [present]
      have listed := Facts.import_listed before taken (import_of_cases before own taken found).1
      have still := Facts.import_listed after other (import_of_cases after own other present).1
      have written : other.specifier = taken.specifier := (Prod.mk.inj (Prod.mk.inj content).2).2
      exact import_move_agree taken other content.symm
        (targets taken.specifier listed (written ▸ still))

theorem move_agree (key : ExportKey) (same : key.file = file) (knownA : a.facts? file = some before)
    (knownB : b.facts? file = some after) (keeps : Facts.KeepsRest gone before after)
    (kept : gone.contains key.name = false)
    (targets : ∀ specifier, specifier ∈ before.dependencies.map Prod.fst →
      specifier ∈ after.dependencies.map Prod.fst → b.target? file specifier =
        a.target? file specifier) :
    a.move key = b.move key := by
  subst same
  have first : (before.exports.find? fun binding => binding.exported == key.name).map
    ExportBinding.content =
      (after.exports.find? fun binding => binding.exported == key.name).map
      ExportBinding.content := by
    rw [before.find_export_content gone key.name kept, after.find_export_content gone key.name kept,
      keeps.2.2]
  rw [move, move, knownA, knownB]
  dsimp only
  cases found : before.exports.find? fun binding => binding.exported == key.name with
  | none =>
      rw [found] at first
      rw [Option.map_eq_none_iff.mp first.symm]
      dsimp only
      rw [wildcardKeys, wildcardKeys, ← keeps.2.1]
      congr 2
      refine List.filterMap_congr fun specifier member => ?_
      rw [targets specifier (before.wildcard_listed specifier member)
        (after.wildcard_listed specifier (keeps.2.1 ▸ member))]
  | some binding =>
      rw [found] at first
      obtain ⟨other, present, content⟩ := Option.map_eq_some_iff.mp first.symm
      rw [present]
      dsimp only
      have origins : other.origin = binding.origin := (Prod.mk.inj content).2
      rw [origins]
      cases origin : binding.origin with
      | own own => exact own_move_agree knownA knownB keeps targets key.name own
      | default => rfl
      | everything specifier => rfl
      | reexport specifier imported =>
          have listed := before.reexport_listed binding specifier imported
            (List.mem_of_find?_eq_some found) origin
          have still := after.reexport_listed other specifier imported
            (List.mem_of_find?_eq_some present)
            (origins.trans origin)
          rw [originMove, originMove, targets specifier listed still]

end Agreement

section Rewritten

variable {store : MemoryStore} {file : Path} (edited : String)

theorem rewritten_resolve (held : FileStore.contains store file = true) (specifier : String)
    (importer : Path) :
    Resolve.resolve (store.insert file edited) specifier importer = Resolve.resolve store specifier
      importer :=
  resolve_of_contains _ _ (insert_contains store file edited held) specifier importer

theorem rewritten_facts (path : Path) (other : path.parts ≠ file.parts) :
    (indexOf (store.insert file edited)).facts? path = (indexOf store).facts? path := by
  have apart : (file == path) = false := by
    rw [Path.same_eq_decide]
    exact decide_eq_false other.symm
  rw [facts_in, facts_in, MemoryStore.insert_get, apart]
  rfl

theorem rewritten_known (held : FileStore.contains store file = true) (path : Path) :
    ((indexOf (store.insert file edited)).facts? path).isSome =
      ((indexOf store).facts? path).isSome := by
  rw [facts_in, facts_in]
  split
  next =>
      rw [Option.isSome_map, Option.isSome_map, ← MemoryStore.contains_eq,
        ← MemoryStore.contains_eq, insert_contains store file edited held]
  next => rfl

theorem rewritten_target (held : FileStore.contains store file = true) (path : Path)
    (before after : Facts) (known : (indexOf store).facts? path = some before)
    (later : (indexOf (store.insert file edited)).facts? path = some after) (specifier : String)
    (listed : specifier ∈ before.dependencies.map Prod.fst)
    (still : specifier ∈ after.dependencies.map Prod.fst) :
    (indexOf (store.insert file edited)).target? path specifier = (indexOf store).target? path
      specifier := by
  rw [target_in store path before known specifier listed,
    target_in _ path after later specifier still, rewritten_resolve edited held]

-- A file is rewritten and keeps all but the exports of certain names. Every export that leads to
-- none of these is followed as before.
theorem rewritten_lookup (held : FileStore.contains store file = true) (gone : List String)
    (keeps : ∀ before after, (indexOf store).facts? file = some before →
      (indexOf (store.insert file edited)).facts? file = some after →
      Facts.KeepsRest gone before after)
    (key : ExportKey)
    (clear : ∀ name, gone.contains name = true → ¬ (indexOf store).Leads key file name) :
    (indexOf (store.insert file edited)).lookup key [] = (indexOf store).lookup key [] := by
  symm
  refine lookup_agree _ _ (fun key => ∀ name, gone.contains name = true →
    ¬ (indexOf store).Leads key file name)
    ?_ ?_ key clear
  · rintro key next clear step name removed ⟨path, same, leads⟩
    exact clear name removed ⟨path, same, Relation.ReflTransGen.head step leads⟩
  · intro key clear
    cases known : (indexOf store).facts? key.file with
    | none =>
        have still := rewritten_known edited held key.file
        rw [known, Option.isSome_none, Option.isSome_eq_false_iff, Option.isNone_iff_eq_none]
          at still
        rw [move, move, known, still]
    | some before =>
        have still := rewritten_known edited held key.file
        rw [known, Option.isSome_some] at still
        obtain ⟨after, later⟩ := Option.isSome_iff_exists.mp still
        have targets := rewritten_target edited held key.file before after known later
        by_cases same : key.file.parts = file.parts
        · have kept : gone.contains key.name = false := by
            by_contra removed
            exact clear key.name (by simpa using removed)
              ⟨key.file, same, Relation.ReflTransGen.refl⟩
          rw [facts_congr _ key.file file same] at known later
          exact move_agree key rfl (by rwa [facts_congr _ key.file file same])
            (by rwa [facts_congr _ key.file file same])
            (keeps before after known later) kept targets
        · have unchanged : after = before := by
            rw [rewritten_facts edited key.file same, known] at later
            exact (Option.some.inj later).symm
          subst unchanged
          exact move_agree key rfl known later ⟨rfl, rfl, rfl⟩ (List.contains_nil) targets

theorem rewritten_sources (held : FileStore.contains store file = true) (importer : Path)
    (other : importer.parts ≠ file.parts) :
    (indexOf (store.insert file edited)).sources importer = (indexOf store).sources importer := by
  rw [sources, sources, rewritten_facts edited importer other]
  cases known : (indexOf store).facts? importer with
  | none => rfl
  | some facts =>
      have targets := rewritten_target edited held importer facts facts known
        ((rewritten_facts edited importer other).trans known)
      dsimp only
      congr 1
      · refine List.filterMap_congr fun binding member => ?_
        have listed := facts.import_listed binding member
        rw [importKey?, importKey?, targets binding.specifier listed listed]
      · refine List.filterMap_congr fun binding member => ?_
        cases origin : binding.origin with
        | reexport specifier imported =>
            have listed := facts.reexport_listed binding specifier imported member origin
            dsimp only
            rw [targets specifier listed listed]
        | own _ => rfl
        | default => rfl
        | everything _ => rfl

end Rewritten

end Project
end DeadExports
