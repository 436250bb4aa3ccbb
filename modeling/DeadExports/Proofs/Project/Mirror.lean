import DeadExports.Proofs.Project.Sync

set_option autoImplicit false

namespace DeadExports.Project

def entryIn (store : MemoryStore) (path : Path) : Option FileEntry :=
  if path.isSource then
    (store.texts.get? path).map fun text => resolvedEntry store path (freshEntry path text)
  else none

def SourceIn (store : MemoryStore) (path : Path) : Prop :=
  path.isSource = true ∧ FileStore.contains store path = true

theorem source_in_congr (store : MemoryStore) (a b : Path) (same : a.parts = b.parts)
    (held : SourceIn store a) :
    SourceIn store b :=
  ⟨Path.is_source_congr a b same ▸ held.1, contains_congr store a b same ▸ held.2⟩

-- The index says of a store what there is to say: the entry of each source file, the source files
-- as modules, and what the source files depend on as links.
structure Mirrors (project : Project) (store : MemoryStore) : Prop where
  files : ∀ path, project.files.get? path = entryIn store path
  sorted : project.files.Sorted
  modules : ∀ path, project.graph.contains path = true ↔ SourceIn store path
  links : ∀ source target kind, project.graph.Linked source target kind ↔
      project.Depends store source target kind

theorem entry_in_source (store : MemoryStore) (path : Path) (text : String)
    (source : path.isSource = true) (found : store.texts.get? path = some text) :
    entryIn store path = some (resolvedEntry store path (freshEntry path text)) := by
  rw [entryIn, if_pos source, found, Option.map_some]

theorem entry_in_none (store : MemoryStore) (path : Path)
    (absent : ¬ SourceIn store path) : entryIn store path = none := by
  rw [entryIn]
  split
  next source =>
      rw [SourceIn, MemoryStore.contains_eq] at absent
      cases found : store.texts.get? path with
      | none => rfl
      | some text => exact absurd ⟨source, by rw [found]; rfl⟩ absent
  next => rfl

structure Tidy (project : Project) : Prop where
  sorted : project.files.Sorted
  facts : ∀ path entry, project.files.get? path = some entry →
    path.isSource = true ∧ entry.facts = Facts.ofText path entry.text

theorem mirrors_tidy {project : Project} {store : MemoryStore} (mirrors : project.Mirrors store) :
    project.Tidy where
  sorted := mirrors.sorted
  facts path entry found := by
    rw [mirrors.files path, entryIn] at found
    split at found
    next source =>
        obtain ⟨text, -, rfl⟩ := Option.map_eq_some_iff.mp found
        exact ⟨source, rfl⟩
    next => cases found

theorem empty_mirrors : Mirrors .empty .empty where
  files path := by
    rw [entry_in_none]
    · rfl
    · rintro ⟨-, held⟩
      cases held
  sorted := PathMap.empty_sorted
  modules path := by
    constructor
    · intro held
      cases held
    · rintro ⟨-, held⟩
      cases held
  links source target kind := by
    constructor
    · rintro ⟨link, member, -⟩
      cases member
    · rintro ⟨entry, found, -⟩
      cases found

def ResolveAlike (old store : MemoryStore) : Prop :=
  (∀ path, path.isSource = true → FileStore.contains old path = FileStore.contains store path) →
    ∀ path, path.isSource = true → FileStore.contains store path = true →
      ∀ specifier, Resolve.resolve old specifier path = Resolve.resolve store specifier path

theorem resolve_alike_of_contains (old store : MemoryStore)
    (alike : (∀ path, path.isSource = true → FileStore.contains old path = FileStore.contains store
      path) → ∀ path, FileStore.contains old path = FileStore.contains store path) :
    ResolveAlike old store := by
  intro sources path _ _ specifier
  have contains : FileStore.contains old = FileStore.contains store := funext (alike sources)
  simp only [Resolve.resolve, contains]

theorem resolve_alike_empty (store : MemoryStore) : ResolveAlike .empty store := by
  intro sources path source held
  rw [← sources path source] at held
  cases held

def textIn (store : MemoryStore) (path : Path) : String := (store.texts.get? path).getD ""

theorem text_in_congr (store : MemoryStore) (a b : Path) (same : a.parts = b.parts) :
    textIn store a = textIn store b := by
  rw [textIn, store.texts.get_congr a b same, textIn]

theorem text_in_of_contains (store : MemoryStore) (path : Path)
    (held : FileStore.contains store path = true) :
    store.texts.get? path = some (textIn store path) := by
  obtain ⟨text, found⟩ := Option.isSome_iff_exists.mp ((store.contains_eq path).symm.trans held)
  rw [textIn, found, Option.getD_some]

theorem sources_readable (store : MemoryStore) (path : Path) (member : path ∈ sourcesOf store) :
    path.isSource = true ∧ FileStore.read store path = .ok (textIn store path) := by
  obtain ⟨source, held⟩ := (listed_sources_iff store path).mp ⟨path, member, rfl⟩
  exact ⟨source, store.read_of_get path _ (text_in_of_contains store path held)⟩

def readIn (project : Project) (store : MemoryStore) : Update :=
  Update.tookAll (textIn store) (sourcesOf store) (project.presentIn store)

theorem sync_memory (project : Project) (store : MemoryStore)
    (stale : project.revision ≠ some (FileStore.revision store)) :
    project.sync store =
      (.ok (), { project.linkedAfter store (project.readIn store) with
        revision := some (FileStore.revision store) }) := by
  rw [sync_stale project store stale,
    Update.read_all_sources store (textIn store) _ _ (sources_readable store)]
  rfl

section Stale

variable {project : Project} {old store : MemoryStore}

theorem read_in_get (path : Path) (held : SourceIn store path) :
    (project.readIn store).files.get? path =
      if (project.presentIn store).knows path (textIn store path) then project.files.get? path
      else some (freshEntry path (textIn store path)) := by
  rw [readIn,
    Update.took_all_listed _ _ _ (text_in_congr store) ((listed_sources_iff store path).mpr held),
    present_get, if_pos held.2]

theorem read_in_none (tidy : project.Tidy) (path : Path) (absent : ¬ SourceIn store path) :
    (project.readIn store).files.get? path = none := by
  rw [readIn, Update.took_all_other _ _ _ (by rwa [listed_sources_iff]), present_get]
  split
  next held =>
      cases found : project.files.get? path with
      | none => rfl
      | some entry => exact absurd ⟨(tidy.facts path entry found).1, held⟩ absent
  next => rfl

theorem known_text (mirrors : project.Mirrors old) (path : Path) (held : SourceIn store path)
    (known : (project.presentIn store).knows path (textIn store path) = true) :
    SourceIn old path ∧ textIn old path = textIn store path := by
  rw [Update.knows, present_get, if_pos held.2, mirrors.files path, Option.any_eq_true] at known
  obtain ⟨entry, present, same⟩ := known
  rw [entryIn, if_pos held.1] at present
  obtain ⟨text, found, rfl⟩ := Option.map_eq_some_iff.mp present
  refine ⟨⟨held.1, ?_⟩, ?_⟩
  · rw [MemoryStore.contains_eq, found]
    rfl
  · rw [textIn, found]
    simpa [resolvedEntry, freshEntry] using same

theorem mirror_get (mirrors : project.Mirrors store) (path : Path) (held : SourceIn store path) :
    project.files.get? path =
      some (resolvedEntry store path (freshEntry path (textIn store path))) :=
  (mirrors.files path).trans
    (entry_in_source store path _ held.1 (text_in_of_contains store path held.2))

theorem read_in_facts (tidy : project.Tidy) (path : Path) (held : SourceIn store path) :
    ∃ entry, (project.readIn store).files.get? path = some entry ∧ entry.text = textIn store path ∧
      entry.facts = Facts.ofText path (textIn store path) := by
  rw [read_in_get path held]
  split
  next known =>
      rw [Update.knows, present_get, if_pos held.2, Option.any_eq_true] at known
      obtain ⟨entry, present, same⟩ := known
      obtain same := beq_iff_eq.mp same
      exact ⟨entry, present, same, same ▸ (tidy.facts path entry present).2⟩
  next => exact ⟨_, rfl, rfl, rfl⟩

theorem read_in_resolved (tidy : project.Tidy) (path : Path) (held : SourceIn store path) :
    ∃ entry, (project.readIn store).files.get? path = some entry ∧
      resolvedEntry store path entry = resolvedEntry store path
        (freshEntry path (textIn store path)) := by
  obtain ⟨entry, present, text, facts⟩ := read_in_facts tidy path held
  refine ⟨entry, present, ?_⟩
  rw [resolvedEntry, text, facts]
  rfl

def DependsIn (store : MemoryStore) (path target : Path) (kind : LinkKind) : Prop :=
  SourceIn store path ∧ ∃ found ∈ resolvedDependencies store path
    (Facts.ofText path (textIn store path)),
    found.2.1.parts = target.parts ∧ found.2.2 = kind

theorem read_in_depends (tidy : project.Tidy) (graph : ModuleGraph) (path target : Path)
    (kind : LinkKind) :
    Depends store { project with files := (project.readIn store).files, graph := graph } path
      target kind ↔
      DependsIn store path target kind := by
  by_cases held : SourceIn store path
  · obtain ⟨entry, present, -, facts⟩ := read_in_facts tidy path held
    simp [Depends, DependsIn, present, facts, held]
  · simp [Depends, DependsIn, read_in_none tidy path held, held]

theorem files_depends (files : ∀ path, project.files.get? path = entryIn store path)
    (path target : Path) (kind : LinkKind) :
    project.Depends store path target kind ↔ DependsIn store path target kind := by
  by_cases held : SourceIn store path
  · have present := (files path).trans
      (entry_in_source store path _ held.1 (text_in_of_contains store path held.2))
    simp [Depends, DependsIn, present, resolvedEntry, freshEntry, held]
  · simp [Depends, DependsIn, files path, entry_in_none store path held, held]

theorem dependency_is_source (path : Path) (facts : Facts) (found : String × Path × LinkKind)
    (member : found ∈ resolvedDependencies store path facts) : SourceIn store found.2.1 := by
  obtain ⟨⟨specifier, kind⟩, -, resolved⟩ := List.mem_filterMap.mp member
  dsimp only at resolved
  cases target : Resolve.resolve store specifier path with
  | none => simp [target] at resolved
  | some file =>
      rw [target] at resolved
      dsimp only at resolved
      split at resolved
      next source =>
          obtain rfl := Option.some.inj resolved
          obtain ⟨base, -, hit⟩ := Option.bind_eq_some_iff.mp target
          exact ⟨source, List.find?_some hit⟩
      next => cases resolved

theorem entered_modules (tidy : project.Tidy) (paths : List Path) (graph : ModuleGraph)
    (within : ∀ path ∈ paths, SourceIn store path)
    (known : ∀ path, SourceIn store path → graph.contains path = true ∨ Listed paths path)
    (proper : ∀ path, graph.contains path = true → SourceIn store path) (query : Path) :
    (graph.contains query = true ∨
      ∃ path ∈ paths, (∃ entry, (project.readIn store).files.get? path = some entry) ∧
        (path.parts = query.parts ∨
          ∃ kind, Depends store { project with files := (project.readIn store).files, graph } path
            query kind)) ↔
      SourceIn store query := by
  constructor
  · rintro (held | ⟨path, member, -, same | ⟨kind, depends⟩⟩)
    · exact proper query held
    · exact source_in_congr store path query same (within path member)
    · obtain ⟨-, found, resolved, same, -⟩ :=
        (read_in_depends tidy graph path query kind).mp depends
      exact source_in_congr store found.2.1 query same (dependency_is_source path _ found resolved)
  · intro held
    rcases known query held with old | ⟨path, member, same⟩
    · exact .inl old
    · obtain ⟨entry, present, -⟩ := read_in_facts tidy path (within path member)
      exact .inr ⟨path, member, ⟨entry, present⟩, .inl same⟩

theorem read_in_sorted (tidy : project.Tidy) : (project.readIn store).files.Sorted :=
  Update.took_all_sorted _ _ _ (project.files.filter_sorted _ tidy.sorted)

theorem rebuilt_mirrors (store : MemoryStore) (tidy : project.Tidy) :
    Mirrors ((sourcesOf store).foldl (linkFile store)
      { project with files := (project.readIn store).files, graph := .empty }) store := by
  have files : ∀ path, ((sourcesOf store).foldl (linkFile store)
      { project with files := (project.readIn store).files, graph := .empty }).files.get? path =
      entryIn store path := by
    intro path
    by_cases held : SourceIn store path
    · obtain ⟨entry, present, same⟩ := read_in_resolved tidy path held
      rw [fold_listed (link_enters store) _ _ _ ((listed_sources_iff store path).mpr held), present,
        Option.map_some, same]
      exact (entry_in_source store path _ held.1 (text_in_of_contains store path held.2)).symm
    · rw [fold_other (link_enters store) _ _ _ (by rwa [listed_sources_iff]),
        entry_in_none store path held]
      exact read_in_none tidy path held
  refine ⟨files, fold_sorted (link_enters store) _ _ (read_in_sorted tidy), ?_, ?_⟩
  · intro query
    rw [fold_contains (link_enters store)]
    apply entered_modules tidy
    · exact fun path member => (listed_sources_iff store path).mp ⟨path, member, rfl⟩
    · exact fun path held => .inr ((listed_sources_iff store path).mpr held)
    · intro path held
      cases held
  · intro source target kind
    rw [link_all_linked, files_depends files, read_in_depends tidy]
    constructor
    · rintro (⟨link, member, -⟩ | ⟨-, depends⟩)
      · cases member
      · exact depends
    · exact fun depends => .inr ⟨(listed_sources_iff store source).mpr depends.1, depends⟩

theorem unchanged_files (unchanged : project.setChanged store (project.readIn store) = false)
    (path : Path) (source : path.isSource = true) :
    (project.files.get? path).isSome = FileStore.contains store path := by
  rw [setChanged, Bool.or_eq_false_iff, bne_eq_false_iff_eq] at unchanged
  rw [Bool.eq_iff_iff]
  constructor
  · intro known
    obtain ⟨entry, found⟩ := Option.isSome_iff_exists.mp known
    exact project.files.filter_size _ unchanged.1 path entry found (contains_congr store)
  · intro held
    have listed := (listed_sources_iff store path).mpr ⟨source, held⟩
    cases before : project.files.get? path with
    | some entry => rfl
    | none =>
        have missing : (project.presentIn store).files.get? path = none := by
          rw [present_get, if_pos held, before]
        have fresh : (project.readIn store).hasNew = true :=
          Update.took_all_new_of_missing (sourcesOf store) (project.presentIn store) path
            listed missing
        rw [unchanged.2] at fresh
        cases fresh

theorem same_sources (mirrors : project.Mirrors old)
    (unchanged : project.setChanged store (project.readIn store) = false) (path : Path)
    (source : path.isSource = true) :
    FileStore.contains old path = FileStore.contains store path := by
  rw [← unchanged_files unchanged path source, mirrors.files path, entryIn, if_pos source,
    Option.isSome_map, MemoryStore.contains_eq]

theorem dependencies_alike (path : Path) (facts : Facts)
    (same : ∀ specifier, Resolve.resolve old specifier path = Resolve.resolve store
      specifier path) :
    resolvedDependencies old path facts = resolvedDependencies store path facts := by
  simp only [resolvedDependencies, same]

theorem changed_iff (path : Path) :
    Listed (project.readIn store).changed path ↔
      SourceIn store path ∧ (project.presentIn store).knows path (textIn store path) = false := by
  rw [readIn, Update.took_all_changed _ _ _ (text_in_congr store), listed_sources_iff]
  simp [presentIn, Listed, SourceIn]

theorem updated_mirrors (mirrors : project.Mirrors old) (alike : ResolveAlike old store)
    (unchanged : project.setChanged store (project.readIn store) = false) :
    Mirrors ((project.readIn store).changed.foldl (relinkFile store)
      { project with files := (project.readIn store).files }) store := by
  have tidy := mirrors_tidy mirrors
  have sources := same_sources mirrors unchanged
  have resolved (path : Path) (held : SourceIn store path) := alike sources path held.1 held.2
  -- A file that is not entered again has its old text, and its specifiers stand for the same files.
  have kept : ∀ path, SourceIn store path → ¬ Listed (project.readIn store).changed path →
      (project.presentIn store).knows path (textIn store path) = true := by
    intro path held other
    rw [changed_iff, not_and, Bool.not_eq_false] at other
    exact other held
  have files : ∀ path, ((project.readIn store).changed.foldl (relinkFile store)
      { project with files := (project.readIn store).files }).files.get? path =
      entryIn store path := by
    intro path
    by_cases held : SourceIn store path
    · by_cases listed : Listed (project.readIn store).changed path
      · obtain ⟨entry, present, same⟩ := read_in_resolved tidy path held
        rw [fold_listed (relink_enters store) _ _ _ listed, present, Option.map_some, same]
        exact (entry_in_source store path _ held.1 (text_in_of_contains store path held.2)).symm
      · have known := kept path held listed
        obtain ⟨before, same⟩ := known_text mirrors path held known
        rw [fold_other (relink_enters store) _ _ _ listed]
        rw [read_in_get path held, if_pos known, mirror_get mirrors path before, same,
          entry_in_source store path _ held.1 (text_in_of_contains store path held.2)]
        simp only [resolvedEntry, dependencies_alike path _ (resolved path held)]
    · rw [fold_other (relink_enters store) _ _ _
        (fun listed => held (changed_iff path |>.mp listed).1),
        entry_in_none store path held]
      exact read_in_none tidy path held
  refine ⟨files, fold_sorted (relink_enters store) _ _ (read_in_sorted tidy), ?_, ?_⟩
  · intro query
    rw [fold_contains (relink_enters store)]
    apply entered_modules tidy
    · exact fun path member => ((changed_iff path).mp ⟨path, member, rfl⟩).1
    · intro path held
      exact .inl ((mirrors.modules path).mpr ⟨held.1, (sources path held.1).trans held.2⟩)
    · intro path held
      have before := (mirrors.modules path).mp held
      exact ⟨before.1, (sources path before.1).symm.trans before.2⟩
  · intro source target kind
    rw [relink_all_linked, files_depends files]
    have reread : Depends store { project with files := (project.readIn store).files } source
      target kind ↔
        DependsIn store source target kind := read_in_depends tidy project.graph source target kind
    rw [reread, mirrors.links, files_depends mirrors.files]
    by_cases listed : Listed (project.readIn store).changed source
    · simp [listed]
    · simp only [listed, not_false_eq_true, and_true, false_and, or_false]
      have alikeSource : SourceIn old source ↔ SourceIn store source :=
        and_congr_right fun isSource => by rw [sources source isSource]
      rw [DependsIn, DependsIn, alikeSource]
      refine and_congr_right fun held => ?_
      obtain ⟨-, same⟩ := known_text mirrors source held (kept source held listed)
      rw [same, dependencies_alike source _ (resolved source held)]

end Stale

theorem sync_mirrors (project : Project) (old store : MemoryStore) (mirrors : project.Mirrors old)
    (alike : ResolveAlike old store) (stale : project.revision ≠ some (FileStore.revision store)) :
    (project.sync store).1 = .ok () ∧ (project.sync store).2.Mirrors store ∧
      (project.sync store).2.revision = some (FileStore.revision store) := by
  rw [sync_memory project store stale, linkedAfter]
  refine ⟨rfl, ?_, rfl⟩
  cases changed : project.setChanged store (project.readIn store) with
  | true =>
      have rebuilt := rebuilt_mirrors store (mirrors_tidy mirrors)
      exact ⟨rebuilt.files, rebuilt.sorted, rebuilt.modules, rebuilt.links⟩
  | false =>
      have updated := updated_mirrors mirrors alike changed
      exact ⟨updated.files, updated.sorted, updated.modules, updated.links⟩

end DeadExports.Project
