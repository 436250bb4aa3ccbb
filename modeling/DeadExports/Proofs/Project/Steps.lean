import DeadExports.Proofs.Project.Alike
import DeadExports.Proofs.Project.Sync

set_option autoImplicit false

namespace DeadExports.Project

inductive Step (project : Project) : ExportKey → ExportKey → Prop where
  | reexport (file : Path) (facts : Facts) (binding : ExportBinding) (specifier imported : String)
      (target : Path) (known : project.facts? file = some facts) (member : binding ∈ facts.exports)
      (origin : binding.origin = .reexport specifier imported)
      (found : project.target? file specifier = some target) :
      Step project ⟨file, binding.exported⟩ ⟨target, imported⟩
  | own (file : Path) (facts : Facts) (binding : ExportBinding) (taken : ImportBinding)
      (next : ExportKey) (known : project.facts? file = some facts)
      (member : binding ∈ facts.exports) (origin : binding.origin = .own taken.bound)
      (bound : taken ∈ facts.imports) (found : project.importKey? file taken = some next) :
      Step project ⟨file, binding.exported⟩ next
  | wildcard (file : Path) (facts : Facts) (name specifier : String) (target : Path)
      (known : project.facts? file = some facts) (proper : name ≠ "default")
      (missing : facts.exportsName name = false)
      (member : specifier ∈ facts.wildcards)
      (found : project.target? file specifier = some target) :
      Step project ⟨file, name⟩ ⟨target, name⟩

theorem import_key_cases (project : Project) (file : Path) (binding : ImportBinding)
    (key : ExportKey) (found : project.importKey? file binding = some key) :
    importedName? binding = some key.name ∧ project.target? file binding.specifier =
      some key.file := by
  rw [importKey?] at found
  obtain ⟨name, named, rest⟩ := Option.bind_eq_some_iff.mp found
  obtain ⟨target, points, same⟩ := Option.bind_eq_some_iff.mp rest
  obtain rfl := Option.some.inj same
  exact ⟨named, points⟩

theorem points_to_of_target (project : Project) (file importer target other : Path)
    (specifier : String) (same : importer.parts = file.parts)
    (found : project.target? file specifier = some target) (alike : target.parts = other.parts) :
    project.pointsTo importer specifier other = true := by
  rw [pointsTo, target_congr project importer file same, found]
  exact (Path.same_iff target other).mpr alike

theorem target_importer (project : Project) (indexed : project.Indexed) (file target other : Path)
    (specifier : String) (found : project.target? file specifier = some target)
    (alike : target.parts = other.parts) :
    ∃ importer ∈ project.importersOf other, importer.parts = file.parts := by
  obtain ⟨entry, present, resolved⟩ := Option.bind_eq_some_iff.mp found
  obtain ⟨pair, hit, rfl⟩ := Option.map_eq_some_iff.mp resolved
  obtain ⟨kind, link, member, source, target, labelled⟩ := indexed.links file entry present pair
    (List.mem_of_find?_eq_some hit)
  exact (importers_of_iff project other file).mpr ⟨kind, link, member, source, target.trans alike,
    labelled⟩

theorem handed_on_of_import (project : Project) (file importer : Path) (facts : Facts)
    (binding : ExportBinding) (taken : ImportBinding) (key other : ExportKey)
    (known : project.facts? file = some facts) (same : importer.parts = file.parts)
    (member : binding ∈ facts.exports) (origin : binding.origin = .own taken.bound)
    (bound : taken ∈ facts.imports) (found : project.importKey? file taken = some key)
    (alike : key.place = other.place) :
    ⟨importer, binding.exported⟩ ∈ project.handedOnBy other importer := by
  obtain ⟨named, points⟩ := import_key_cases project file taken key found
  simp only [ExportKey.place, Prod.mk.injEq] at alike
  rw [handedOnBy, facts_congr project importer file same, known]
  refine List.mem_append_left _ (List.mem_map.mpr ⟨binding, List.mem_append_left _ ?_, rfl⟩)
  refine List.mem_flatMap.mpr ⟨taken, List.mem_filter.mpr ⟨bound, ?_⟩, List.mem_filter.mpr
    ⟨member, ?_⟩⟩
  · rw [points_to_of_target project file importer key.file other.file _ same points alike.1, takes,
      named, alike.2]
    simp
  · simp [ExportBinding.isOwn, origin]

theorem handed_on_of_reexport (project : Project) (file importer target : Path) (facts : Facts)
    (binding : ExportBinding) (specifier imported : String) (other : ExportKey)
    (known : project.facts? file = some facts) (same : importer.parts = file.parts)
    (member : binding ∈ facts.exports) (origin : binding.origin = .reexport specifier imported)
    (found : project.target? file specifier = some target)
    (alike : (⟨target, imported⟩ : ExportKey).place = other.place) :
    ⟨importer, binding.exported⟩ ∈ project.handedOnBy other importer := by
  simp only [ExportKey.place, Prod.mk.injEq] at alike
  rw [handedOnBy, facts_congr project importer file same, known]
  refine List.mem_append_left _ (List.mem_map.mpr ⟨binding, List.mem_append_right _ ?_, rfl⟩)
  refine List.mem_filter.mpr ⟨member, ?_⟩
  simp only [origin]
  rw [points_to_of_target project file importer target other.file _ same found alike.1, alike.2]
  simp

theorem handed_on_of_wildcard (project : Project) (file importer target : Path) (facts : Facts)
    (name specifier : String)
    (other : ExportKey) (known : project.facts? file = some facts)
    (same : importer.parts = file.parts)
    (proper : name ≠ "default") (missing : facts.exportsName name = false)
    (member : specifier ∈ facts.wildcards)
    (found : project.target? file specifier = some target)
    (alike : (⟨target, name⟩ : ExportKey).place = other.place) :
    ⟨importer, name⟩ ∈ project.handedOnBy other importer := by
  simp only [ExportKey.place, Prod.mk.injEq] at alike
  have forwards : project.forwardsByWildcard importer facts other = true := by
    rw [forwardsByWildcard, ← alike.2, missing, Bool.and_eq_true, List.any_eq_true]
    refine ⟨by simpa using proper, specifier, member, ?_⟩
    exact points_to_of_target project file importer target other.file _ same found alike.1
  rw [handedOnBy, facts_congr project importer file same, known]
  refine List.mem_append_right _ ?_
  rw [forwards, if_pos rfl, alike.2]
  exact List.mem_singleton_self _

theorem handed_on_of_step (project : Project) (indexed : project.Indexed) (a b other : ExportKey)
    (step : project.Step a b) (alike : b.place = other.place) :
    ∃ found ∈ project.handedOn other, found.place = a.place := by
  have files : b.file.parts = other.file.parts := congrArg Prod.fst alike
  cases step with
  | reexport file facts binding specifier imported target known member origin found =>
      obtain ⟨importer, listed, same⟩ := target_importer project indexed file target other.file
        specifier found files
      refine ⟨⟨importer, binding.exported⟩, List.mem_flatMap.mpr ⟨importer, listed, ?_⟩,
        by simp [ExportKey.place, same]⟩
      exact handed_on_of_reexport project file importer target facts binding specifier imported
        other known same member
        origin found alike
  | own file facts binding taken _ known member origin bound found =>
      have points := (import_key_cases project file taken b found).2
      obtain ⟨importer, listed, same⟩ := target_importer project indexed file b.file other.file _
        points files
      refine ⟨⟨importer, binding.exported⟩, List.mem_flatMap.mpr ⟨importer, listed, ?_⟩,
        by simp [ExportKey.place, same]⟩
      exact handed_on_of_import project file importer facts binding taken b other known same member
        origin bound found alike
  | wildcard file facts name specifier target known proper missing member found =>
      obtain ⟨importer, listed, same⟩ := target_importer project indexed file target other.file
        specifier found files
      refine ⟨⟨importer, name⟩, List.mem_flatMap.mpr ⟨importer, listed, ?_⟩,
        by simp [ExportKey.place, same]⟩
      exact handed_on_of_wildcard project file importer target facts name specifier other known same
        proper missing member
        found alike

def exportedNames (project : Project) : List String :=
  (project.files.entries.flatMap fun (_, entry) => entry.facts.exports).map ExportBinding.exported

def allKeys (project : Project) : List ExportKey :=
  project.files.entries.flatMap fun entry => project.exportedNames.map fun name => ⟨entry.1, name⟩

theorem all_keys_length (project : Project) : project.allKeys.length = project.keyBound := by
  simp [allKeys, keyBound, exportCount, exportedNames, PathMap.size, List.length_flatMap,
    List.map_const']

theorem entry_of_facts (project : Project) (file : Path) (facts : Facts)
    (known : project.facts? file = some facts) :
    ∃ entry ∈ project.files.entries, entry.1.parts = file.parts ∧ entry.2.facts = facts := by
  obtain ⟨entry, present, same⟩ := Option.map_eq_some_iff.mp known
  obtain ⟨path, member, alike⟩ := project.files.mem_of_get file entry present
  exact ⟨(path, entry), member, alike, same⟩

theorem all_keys_contains (project : Project) (key : ExportKey) (facts : Facts)
    (known : project.facts? key.file = some facts) (named : key.name ∈ project.exportedNames) :
    project.allKeys.contains key = true := by
  obtain ⟨entry, member, same, -⟩ := entry_of_facts project key.file facts known
  refine List.contains_iff_exists_mem_beq.mpr ⟨⟨entry.1, key.name⟩, ?_, ?_⟩
  · exact List.mem_flatMap.mpr ⟨entry, member, List.mem_map_of_mem named⟩
  · rw [ExportKey.same_eq_decide]
    simp [ExportKey.place, same]

theorem name_of_all_keys (project : Project) (key : ExportKey)
    (held : project.allKeys.contains key = true) :
    key.name ∈ project.exportedNames := by
  obtain ⟨found, member, same⟩ := List.contains_iff_exists_mem_beq.mp held
  obtain ⟨entry, -, listed⟩ := List.mem_flatMap.mp member
  obtain ⟨name, named, rfl⟩ := List.mem_map.mp listed
  rw [ExportKey.same_eq_decide, decide_eq_true_iff] at same
  have alike : key.name = name := congrArg Prod.snd same
  rwa [alike]

theorem exported_name_listed (project : Project) (file : Path) (facts : Facts)
    (binding : ExportBinding) (known : project.facts? file = some facts)
    (member : binding ∈ facts.exports) :
    binding.exported ∈ project.exportedNames := by
  obtain ⟨entry, listed, -, rfl⟩ := entry_of_facts project file facts known
  exact List.mem_map_of_mem (List.mem_flatMap.mpr ⟨entry, listed, member⟩)

theorem handed_on_cases (project : Project) (key found : ExportKey)
    (member : found ∈ project.handedOn key) :
    ∃ facts, project.facts? found.file = some facts ∧
      (found.name = key.name ∨ ∃ binding ∈ facts.exports, binding.exported = found.name) := by
  obtain ⟨importer, -, handed⟩ := List.mem_flatMap.mp member
  rw [handedOnBy] at handed
  cases known : project.facts? importer with
  | none => simp [known] at handed
  | some facts =>
      rw [known] at handed
      rcases List.mem_append.mp handed with listed | forwarded
      · obtain ⟨binding, either, rfl⟩ := List.mem_map.mp listed
        refine ⟨facts, known, .inr ⟨binding, ?_, rfl⟩⟩
        rcases List.mem_append.mp either with own | again
        · obtain ⟨taken, -, filtered⟩ := List.mem_flatMap.mp own
          exact (List.mem_filter.mp filtered).1
        · exact (List.mem_filter.mp again).1
      · split at forwarded
        · obtain rfl := List.mem_singleton.mp forwarded
          exact ⟨facts, known, .inl rfl⟩
        · cases forwarded

def Gives (project : Project) (symbol : Symbol) (key : ExportKey) : Prop :=
  ∃ facts, project.facts? symbol.file = some facts ∧ (project.reachedKeys symbol facts).contains
    key = true

theorem reached_keys_closed (project : Project) (symbol : Symbol) (facts : Facts)
    (known : project.facts? symbol.file = some facts) :
    (∀ key ∈ baseKeys symbol facts, (project.reachedKeys symbol facts).contains key = true) ∧
      Closed project.handedOn (project.reachedKeys symbol facts) := by
  apply closure_closed project.handedOn project.allKeys
  · exact Nat.le_of_eq (all_keys_length project)
  · intro key member
    obtain ⟨binding, filtered, rfl⟩ := List.mem_map.mp member
    exact all_keys_contains project _ facts known
      (exported_name_listed project symbol.file facts binding known (List.mem_filter.mp filtered).1)
  · intro key held found member
    obtain ⟨importerFacts, present, same | ⟨binding, listed, named⟩⟩ :=
      handed_on_cases project key found member
    · exact all_keys_contains project found importerFacts present
        (same ▸ name_of_all_keys project key held)
    · exact all_keys_contains project found importerFacts present
        (named ▸ exported_name_listed project found.file importerFacts binding present listed)

theorem gives_base (project : Project) (symbol : Symbol) (facts : Facts) (binding : ExportBinding)
    (known : project.facts? symbol.file = some facts) (member : binding ∈ facts.exports)
    (given : givesOut symbol binding = true) :
    project.Gives symbol ⟨symbol.file, binding.exported⟩ := by
  refine ⟨facts, known, (reached_keys_closed project symbol facts known).1 _ ?_⟩
  exact List.mem_map.mpr ⟨binding, List.mem_filter.mpr ⟨member, given⟩, rfl⟩

theorem gives_step (project : Project) (indexed : project.Indexed) (symbol : Symbol)
    (a b : ExportKey) (step : project.Step a b) (given : project.Gives symbol b) :
    project.Gives symbol a := by
  obtain ⟨facts, known, held⟩ := given
  obtain ⟨other, member, same⟩ := List.contains_iff_exists_mem_beq.mp held
  rw [ExportKey.same_eq_decide, decide_eq_true_iff] at same
  obtain ⟨found, handed, alike⟩ := handed_on_of_step project indexed a b other step same
  have reached := (reached_keys_closed project symbol facts known).2 other member found handed
  refine ⟨facts, known, contains_of_same _ found a ?_ reached⟩
  rw [ExportKey.same_eq_decide, alike]
  exact decide_eq_true rfl

end DeadExports.Project
