import DeadExports.Proofs.Path.Spelling
import DeadExports.Proofs.Project.Attend
import DeadExports.Proofs.Project.Completeness
import DeadExports.Proofs.Project.Edit
import DeadExports.Proofs.Store.Texts
import DeadExports.Proofs.Usage.Verdict

set_option autoImplicit false

namespace DeadExports

namespace Project

theorem read_all_alike {σ τ : Type} [FileStore σ] [FileStore τ] (store : σ) (other : τ)
    (paths : List Path) (update : Update)
    (reads : ∀ path ∈ paths, FileStore.read store path = FileStore.read other path) :
    Update.readAll store paths update = Update.readAll other paths update := by
  induction paths generalizing update with
  | nil => rfl
  | cons first rest ih =>
      rw [Update.readAll, Update.readAll, reads first List.mem_cons_self]
      have later := fun next => ih next fun path member =>
        reads path (List.mem_cons_of_mem first member)
      simp only [later]

theorem sync_alike {σ τ : Type} [FileStore σ] [FileStore τ] (project : Project) (store : σ)
    (other : τ) (revision : FileStore.revision store = FileStore.revision other)
    (files : FileStore.files store = FileStore.files other)
    (contains : FileStore.contains store = FileStore.contains other)
    (reads : ∀ path ∈ sourcesOf store, FileStore.read store path = FileStore.read other path) :
    project.sync store = project.sync other := by
  have sources : sourcesOf store = sourcesOf other := by rw [sourcesOf, sourcesOf, files]
  have link : linkFile store = linkFile other := by
    funext project path
    simp only [linkFile, resolvedDependencies, Resolve.resolve, contains]
  have relink : relinkFile store = relinkFile other := by
    funext project path
    rw [relinkFile, relinkFile, link]
  have taken (update : Update) :
      Update.readAll store (sourcesOf other) update = Update.readAll other (sourcesOf other)
      update :=
    read_all_alike store other _ update (sources ▸ reads)
  simp only [sync, contains, revision, taken, sources, relink, link]

section Alone

variable {σ : Type} [FileStore σ] [TextStore σ]

theorem resolve_image (store : σ) (specifier : String) (importer : Path) :
    Resolve.resolve store specifier importer = Resolve.resolve (TextStore.image store) specifier
      importer := by
  have contains : FileStore.contains store = FileStore.contains (TextStore.image store) :=
    funext fun path => (TextStore.contains store path).symm
  simp only [Resolve.resolve, contains]

theorem sync_image (project : Project) (store : σ) (sound : TextStore.Sound store) :
    project.sync store = project.sync (TextStore.image store) :=
  sync_alike project store (TextStore.image store) (TextStore.revision store).symm
    (TextStore.files store).symm
    (funext fun path => (TextStore.contains store path).symm)
    fun path member => TextStore.listed store sound path (List.mem_filter.mp member).1

theorem sync_sound (project : Project) (store : σ) (sound : TextStore.Sound store) :
    (project.sync store).1 = .ok () ∧ (project.sync store).2.revision =
      some (FileStore.revision store) := by
  by_cases current : project.revision = some (FileStore.revision store)
  · rw [sync_current project store current]
    exact ⟨rfl, current⟩
  · have stale : project.revision ≠ some (FileStore.revision (TextStore.image store)) := by
      rwa [show FileStore.revision (TextStore.image store) = _ from TextStore.revision store]
    rw [sync_image project store sound, sync_memory project _ stale, ← TextStore.revision store]
    exact ⟨rfl, rfl⟩

theorem find_references_synced (project : Project) (store : σ) (sound : TextStore.Sound store)
    (file : Path) (position : Nat) :
    project.findReferences store file position = (project.sync store).2.findReferences store file
      position := by
  have done := (project.sync_sound store sound).1
  rw [findReferences, findReferences, sync_settles project store done]
  cases synced : project.sync store with
  | mk result later =>
      rw [synced] at done
      dsimp only at done
      rw [done]

end Alone
end Project

section Alone

variable {σ : Type} [FileStore σ] [TextStore σ]

theorem Candidate.classify_brought_up (candidate : Candidate) (project : Project) (store : σ)
    (sound : TextStore.Sound store) (file : Path) :
    (candidate.classify project store file).1 =
      (candidate.classify (project.sync store).2 store file).1 ∧
      ((candidate.classify project store file).2 = project ∨
        (candidate.classify project store file).2 = (project.sync store).2) := by
  rw [classify, classify]
  cases candidate.positions with
  | nil => exact ⟨rfl, .inl rfl⟩
  | cons first rest =>
      have current := (project.sync_sound store sound).2
      have stepped : candidate.classifyAt store file (first :: rest) project =
          candidate.classifyAt store file (first :: rest) (project.sync store).2 := by
        have asked : LanguageService.findReferences project store file first =
            LanguageService.findReferences (project.sync store).2 store file first :=
          project.find_references_synced store sound file first
        rw [classifyAt, asked, classifyAt]
      have kept := (classify_at_alike
        (Project.concur_one_store store (Project.same_index_refl _) current current) file
        candidate (first :: rest)).1
      rw [stepped, kept]
      exact ⟨rfl, .inr rfl⟩

end Alone

namespace Project

theorem mirrors_texts (project : Project) (store other : MemoryStore)
    (mirrors : project.Mirrors store)
    (texts : ∀ path, store.texts.get? path = other.texts.get? path) : project.Mirrors other := by
  have contains : FileStore.contains store = FileStore.contains other := by
    funext path
    rw [MemoryStore.contains_eq, MemoryStore.contains_eq, texts]
  have dependencies (path : Path) (facts : Facts) :
      resolvedDependencies store path facts = resolvedDependencies other path facts :=
    dependencies_alike path facts (resolve_of_contains store other contains · path)
  refine ⟨fun path => ?_, mirrors.sorted, fun path => ?_, fun source target kind => ?_⟩
  · rw [mirrors.files, entryIn, entryIn, texts]
    simp only [resolvedEntry, dependencies]
  · rw [mirrors.modules, SourceIn, SourceIn, contains]
  · rw [mirrors.links, Depends, Depends]
    simp only [dependencies]

theorem resolved_entry_target (store : MemoryStore) (importer : Path) (entry : FileEntry)
    (specifier : String) (file : Path)
    (found : ((resolvedEntry store importer entry).resolved.find? fun found =>
      found.1 == specifier).map Prod.snd = some file) :
    (Resolve.resolve store specifier importer).filter Path.isSource = some file := by
  obtain ⟨pair, hit, rfl⟩ := Option.map_eq_some_iff.mp found
  obtain ⟨⟨written, target, kind⟩, member, rfl⟩ := List.mem_map.mp (List.mem_of_find?_eq_some hit)
  obtain rfl : written = specifier := by simpa using List.find?_some hit
  exact ((resolved_dependency_iff store importer _ written target kind).mp member).2

theorem target_resolved (project : Project) (store : MemoryStore) (mirrors : project.Mirrors store)
    (specifier : String) (importer file : Path)
    (found : project.target? importer specifier = some file) :
    Resolve.resolve store specifier importer = some file := by
  rw [target?, mirrors.files importer] at found
  obtain ⟨entry, known, resolved⟩ := Option.bind_eq_some_iff.mp found
  rw [entryIn] at known
  split at known
  next =>
      obtain ⟨text, -, rfl⟩ := Option.map_eq_some_iff.mp known
      exact (Option.filter_eq_some_iff.mp
        (resolved_entry_target store importer _ specifier file resolved)).1
  next => cases known

section Together

variable {σ τ : Type} [FileStore σ] [FileStore τ] [TextStore σ] [TextStore τ] {a b : Project}
    {store : σ} {other : τ}

theorem loads_alike (sound : TextStore.Sound store) (sounds : TextStore.Sound other)
    (texts : ∀ path, (TextStore.image store).texts.get? path =
      (TextStore.image other).texts.get? path)
    (specifier : String) (importer file : Path)
    (resolved : Resolve.resolve other specifier importer = some file) :
    (SourceModule.load store file).toOption = (SourceModule.load other file).toOption := by
  cases source : file.isSource with
  | true =>
      have plain := Resolve.resolved_plain other specifier importer file resolved source
      obtain ⟨_, _, hit⟩ := Option.bind_eq_some_iff.mp resolved
      have holds : FileStore.contains other file = true := List.find?_some hit
      have held : FileStore.contains store file = true := by
        rwa [← TextStore.contains, MemoryStore.contains_eq, texts, ← MemoryStore.contains_eq,
          TextStore.contains]
      have reads : FileStore.read store file = FileStore.read other file := by
        rw [TextStore.read store file sound held plain, TextStore.read other file sounds
          holds plain]
        change (TextStore.image store).read file = (TextStore.image other).read file
        rw [MemoryStore.read, MemoryStore.read, texts]
      rw [SourceModule.load, SourceModule.load, reads]
  | false =>
      have unparsed {ρ : Type} [FileStore ρ] (any : ρ) :
          (SourceModule.load any file).toOption = none := by
        cases loaded : SourceModule.load any file with
        | error cause => rfl
        | ok m =>
            exact absurd ((SourceModule.load_source any file m loaded).symm.trans source)
              (by decide)
      rw [unparsed, unparsed]

theorem synced_concur (sound : TextStore.Sound store) (sounds : TextStore.Sound other)
    (texts : ∀ path, (TextStore.image store).texts.get? path =
      (TextStore.image other).texts.get? path)
    (left : a.Attends (TextStore.image store)) (right : b.Attends (TextStore.image other)) :
    Concur (a.sync store).2 store (b.sync other).2 other := by
  have mirrors : (a.sync store).2.Mirrors (TextStore.image store) := by
    rw [sync_image a store sound]
    exact (follows_sync a _ (attends_follows a _ left)).2.1
  have others : (b.sync other).2.Mirrors (TextStore.image other) := by
    rw [sync_image b other sounds]
    exact (follows_sync b _ (attends_follows b _ right)).2.1
  have contains : FileStore.contains (TextStore.image store) = FileStore.contains
      (TextStore.image other) := by
    funext path
    rw [MemoryStore.contains_eq, MemoryStore.contains_eq, texts]
  refine ⟨mirrors_same_index _ _ _ (mirrors_texts _ _ _ mirrors texts) others,
    (sync_sound a store sound).2,
    (sync_sound b other sounds).2, fun specifier importer => ?_,
    fun specifier importer file found => ?_⟩
  · rw [resolve_image store, resolve_image other, resolve_of_contains _ _ contains]
  · refine loads_alike sound sounds texts specifier importer file ?_
    rw [resolve_image]
    rw [resolveModule, resolve_image] at found
    rcases Option.or_eq_some_iff.mp found with known | ⟨-, resolved⟩
    · split at known
      next => exact target_resolved _ _ others specifier importer file known
      next => cases known
    · exact resolved

end Together
end Project

namespace Candidate

theorem classify_attends {σ : Type} [FileStore σ] [TextStore σ] (candidate : Candidate)
    (project : Project) (store : σ) (file : Path) (sound : TextStore.Sound store)
    (attends : project.Attends (TextStore.image store)) :
    Project.Attends (candidate.classify project store file).2 (TextStore.image store) := by
  rcases (candidate.classify_brought_up project store sound file).2 with same | synced
  · rw [same]
    exact attends
  · rw [synced, Project.sync_image project store sound]
    exact Project.synced_attends project _ attends

theorem classify_texts {σ τ : Type} [FileStore σ] [FileStore τ] [TextStore σ] [TextStore τ]
    (candidate : Candidate) (a b : Project) (store : σ) (other : τ) (file : Path)
    (sound : TextStore.Sound store) (sounds : TextStore.Sound other)
    (texts : ∀ path, (TextStore.image store).texts.get? path =
      (TextStore.image other).texts.get? path)
    (left : a.Attends (TextStore.image store)) (right : b.Attends (TextStore.image other)) :
    (candidate.classify a store file).1 = (candidate.classify b other file).1 := by
  have concur := Project.synced_concur sound sounds texts left right
  calc (candidate.classify a store file).1
      = (candidate.classify (a.sync store).2 store file).1 :=
        (candidate.classify_brought_up a store sound file).1
    _ = (candidate.classify (b.sync other).2 other file).1 :=
      (classify_at_alike concur file candidate _).2
    _ = (candidate.classify b other file).1 :=
      (candidate.classify_brought_up b other sounds file).1.symm

end Candidate
end DeadExports
