import DeadExports.Proofs.Project.History
import DeadExports.Proofs.Project.Image

set_option autoImplicit false

namespace DeadExports

variable {σ : Type} [FileStore σ]

structure SourceStore (store : σ) : Prop where
  sources : ∀ file ∈ FileStore.files store, file.isSource = true
  once : (FileStore.files store).Pairwise fun file other => file.parts ≠ other.parts

structure Backs (held : MemoryStore) (store : σ) : Prop where
  contains : ∀ path, FileStore.contains held path = FileStore.contains store path
  texts : ∀ file ∈ FileStore.files store, ∀ text, FileStore.read store file = .ok text →
      held.texts.get? file = some text

namespace Project

def Moved (project : Project) (store : σ) : Prop :=
  ∃ path, (project.files.get? path).isSome ≠ FileStore.contains store path

-- What a store and an index that starts empty can come to, over edits of the store, reads that fail
-- at times, and updates that succeed or fail; `held` are the texts that the store holds. The index
-- is trusted until an update fails and leaves something behind, and again after an update that sees
-- a file come or go.
inductive Course : Bool → Project → σ → MemoryStore → Prop where
  | start (store : σ) (held : MemoryStore) (proper : SourceStore store) (backs : Backs held store) :
      Course true .empty store held
  | edited (trusted : Bool) (project : Project) (store later : σ) (held after : MemoryStore)
      (course : Course trusted project store held) (proper : SourceStore later)
      (backs : Backs after later) (newer : FileStore.revision store < FileStore.revision later) :
      Course trusted project later after
  | reread (trusted : Bool) (project : Project) (store later : σ) (held : MemoryStore)
      (course : Course trusted project store held)
      (files : FileStore.files later = FileStore.files store) (backs : Backs held later)
      (same : FileStore.revision later = FileStore.revision store) :
      Course trusted project later held
  | synced (trusted : Bool) (project : Project) (store : σ) (held : MemoryStore)
      (course : Course trusted project store held) (done : (project.sync store).1 = .ok ()) :
      Course trusted (project.sync store).2 store held
  | rebuilt (trusted : Bool) (project : Project) (store : σ) (held : MemoryStore)
      (course : Course trusted project store held) (done : (project.sync store).1 = .ok ())
      (moved : project.Moved store) :
      Course true (project.sync store).2 store held
  | failed (trusted : Bool) (project : Project) (store : σ) (held : MemoryStore)
      (cause : AnalysisError) (course : Course trusted project store held)
      (stopped : (project.sync store).1 = .error cause) :
      Course false (project.sync store).2 store held
  | idle (trusted : Bool) (project : Project) (store : σ) (held : MemoryStore)
      (cause : AnalysisError) (course : Course trusted project store held)
      (stopped : (project.sync store).1 = .error cause) (same : (project.sync store).2 = project) :
      Course trusted (project.sync store).2 store held

def content (entry : FileEntry) : String × Facts := (entry.text, entry.facts)

def Records (project : Project) (store : MemoryStore) : Prop :=
  ∀ path, (project.files.get? path).map content = (entryIn store path).map content

theorem linked_content (project : Project) (store : σ) (update : Update) (path : Path) :
    ((project.linkedAfter store update).files.get? path).map content = (update.files.get? path).map
      content := by
  have resolved (known : Option FileEntry) : (known.map (resolvedEntry store path)).map content =
      known.map content := by
    rw [Option.map_map]
    rfl
  rw [linkedAfter]
  split
  next =>
      by_cases listed : Listed (sourcesOf store) path
      · rw [fold_listed (link_enters store) _ _ _ listed, resolved]
      · rw [fold_other (link_enters store) _ _ _ listed]
  next =>
      by_cases listed : Listed update.changed path
      · rw [fold_listed (relink_enters store) _ _ _ listed, resolved]
      · rw [fold_other (relink_enters store) _ _ _ listed]

theorem sync_sorted (project : Project) (store : σ) (sorted : project.files.Sorted) :
    (project.sync store).2.files.Sorted := by
  by_cases current : project.revision = some (FileStore.revision store)
  · rw [sync_current project store current]
    exact sorted
  · have read := Update.read_all_preserves store (sourcesOf store) (project.presentIn store)
      (fun update => update.files.Sorted)
      (sources_isSource store) (fun path _ update text => Update.took_sorted update path text)
      (project.files.filter_sorted _ sorted)
    rw [sync_stale project store current]
    cases result : Update.readAll store (sourcesOf store) (project.presentIn store) with
    | mk outcome update =>
        rw [result] at read
        cases outcome with
        | error cause => exact read
        | ok =>
            change (project.linkedAfter store update).files.Sorted
            rw [linkedAfter]
            split
            next => exact fold_sorted (link_enters store) _ _ read
            next => exact fold_sorted (relink_enters store) _ _ read

theorem synced_records (project : Project) (store : MemoryStore) (tidy : project.Tidy)
    (stale : project.revision ≠ some (FileStore.revision store)) :
    Records (project.sync store).2 store := by
  intro path
  rw [sync_memory project store stale]
  change ((project.linkedAfter store (project.readIn store)).files.get? path).map content = _
  rw [linked_content]
  by_cases held : SourceIn store path
  · obtain ⟨entry, present, text, facts⟩ := read_in_facts tidy path held
    rw [present, entry_in_source store path _ held.1 (text_in_of_contains store path held.2)]
    simp [content, text, facts, resolvedEntry, freshEntry]
  · rw [read_in_none tidy path held, entry_in_none store path held]

theorem read_all_done (store : σ) (paths : List Path) (update : Update)
    (done : (Update.readAll store paths update).1 = .ok ()) :
    ∀ path ∈ paths, ∃ text, FileStore.read store path = .ok text := by
  induction paths generalizing update with
  | nil => exact fun _ member => by cases member
  | cons first rest ih =>
      rw [Update.readAll] at done
      cases reading : FileStore.read store first with
      | error cause =>
          rw [reading] at done
          cases done
      | ok text =>
          rw [reading] at done
          dsimp only at done
          cases taken : update.take first text with
          | error cause =>
              rw [taken] at done
              cases done
          | ok next =>
              rw [taken] at done
              intro path member
              rcases List.mem_cons.mp member with rfl | later
              · exact ⟨text, reading⟩
              · exact ih next done path later

theorem synced_readable (project : Project) (store : σ) (proper : SourceStore store)
    (stale : project.revision ≠ some (FileStore.revision store))
    (done : (project.sync store).1 = .ok ()) :
    ∀ file ∈ FileStore.files store, ∃ text, FileStore.read store file = .ok text := by
  intro file member
  refine read_all_done store (sourcesOf store) (project.presentIn store) ?_ file
    (List.mem_filter.mpr ⟨member, proper.sources file member⟩)
  rw [sync_stale project store stale] at done
  cases result : Update.readAll store (sourcesOf store) (project.presentIn store) with
  | mk outcome update =>
      rw [result] at done
      cases outcome with
      | error cause => cases done
      | ok => rfl

theorem listed_once {files : List Path}
    (once : files.Pairwise fun file other => file.parts ≠ other.parts) (file other : Path)
    (member : file ∈ files) (known : other ∈ files) (same : file.parts = other.parts) :
    file = other := by
  induction once with
  | nil => cases member
  | cons differs _ ih =>
      rcases List.mem_cons.mp member with rfl | later
      · rcases List.mem_cons.mp known with rfl | after
        · rfl
        · exact absurd same (differs other after)
      · rcases List.mem_cons.mp known with rfl | after
        · exact absurd same.symm (differs file later)
        · exact ih later after

section Lawful

variable [LawfulStore σ]

theorem image_backs (store : σ) (proper : SourceStore store) : Backs (imageOf store) store where
  contains := image_of_contains store
  texts file member text reading := by
    have held : FileStore.contains (imageOf store) file = true := by
      rw [image_of_contains]
      exact (LawfulStore.listed store file).mpr ⟨file, member, rfl⟩
    obtain ⟨found, present⟩ := Option.isSome_iff_exists.mp
      (((imageOf store).contains_eq file).symm.trans held)
    obtain ⟨key, entered, same⟩ := (imageOf store).texts.mem_of_get file found present
    obtain ⟨other, listed, entry⟩ := List.mem_map.mp entered
    obtain ⟨rfl, rfl⟩ := Prod.mk.inj entry
    rw [listed_once proper.once other file listed member same, reading] at present
    exact present

theorem backs_sources (store : σ) (proper : SourceStore store) (old : MemoryStore)
    (backs : Backs old store) :
    old.OnlySources := by
  intro path held
  obtain ⟨file, member, same⟩ := (LawfulStore.listed store path).mp
    ((backs.contains path).symm.trans held)
  exact Path.is_source_congr file path same ▸ proper.sources file member

theorem backs_unique (store : σ)
    (readable : ∀ file ∈ FileStore.files store, ∃ text, FileStore.read store file = .ok text)
    (left right : MemoryStore) (first : Backs left store) (second : Backs right store)
    (path : Path) :
    left.texts.get? path = right.texts.get? path := by
  cases held : FileStore.contains store path with
  | false =>
      have absent (old : MemoryStore) (backs : Backs old store) : old.texts.get? path = none := by
        rwa [← backs.contains, MemoryStore.contains_eq, Option.isSome_eq_false_iff,
          Option.isNone_iff_eq_none] at held
      rw [absent left first, absent right second]
  | true =>
      obtain ⟨file, member, same⟩ := (LawfulStore.listed store path).mp held
      obtain ⟨text, reading⟩ := readable file member
      rw [← left.texts.get_congr file path same, ← right.texts.get_congr file path same,
        first.texts file member text reading, second.texts file member text reading]

theorem synced_as_image (project : Project) (store : σ) (proper : SourceStore store)
    (stale : project.revision ≠ some (FileStore.revision store))
    (done : (project.sync store).1 = .ok ()) :
    project.sync store = project.sync (imageOf store) := by
  have readable := synced_readable project store proper stale done
  refine sync_alike project store (imageOf store) rfl (image_of_files store).symm
    (funext fun path => (image_of_contains store path).symm) fun path member => ?_
  obtain ⟨text, reading⟩ := readable path (List.mem_filter.mp member).1
  rw [reading, MemoryStore.read_of_get _ path text
    ((image_backs store proper).texts path (List.mem_filter.mp member).1 text reading)]

end Lawful

-- What every course keeps to. While the revisions agree the index records the texts that the store
-- holds, and an index that is trusted mirrors them.
structure Sure (trusted : Bool) (project : Project) (store : σ) (held : MemoryStore) : Prop where
  proper : SourceStore store
  backs : Backs held store
  sorted : project.files.Sorted
  indexed : project.Indexed
  past : ∀ revision, project.revision = some revision → revision ≤ FileStore.revision store
  current : project.revision = some (FileStore.revision store) → project.Records held
  trust : trusted = true → ∃ old : MemoryStore, project.Mirrors old ∧ old.OnlySources ∧
    (project.revision = some (FileStore.revision store) → project.Mirrors held)

theorem records_texts (project : Project) (store other : MemoryStore)
    (records : project.Records store)
    (texts : ∀ path, store.texts.get? path = other.texts.get? path) : project.Records other := by
  intro path
  have told (some : MemoryStore) : (entryIn some path).map content =
      if path.isSource then (some.texts.get? path).map fun text => (text, Facts.ofText path text)
      else none := by
    rw [entryIn]
    split
    next =>
        rw [Option.map_map]
        rfl
    next => rfl
  rw [records path, told, told, texts]

theorem records_not_moved (project : Project) (store : σ) (held : MemoryStore)
    (records : project.Records held) (backs : Backs held store) (sources : held.OnlySources) :
    ¬ project.Moved store := by
  rintro ⟨path, moved⟩
  refine moved ?_
  rw [← backs.contains, ← Option.isSome_map, records path, Option.isSome_map, entryIn]
  split
  next => rw [Option.isSome_map, MemoryStore.contains_eq]
  next other => exact (Bool.eq_false_iff.mpr fun present => other (sources path present)).symm

theorem moved_set_changed (project : Project) (store : MemoryStore) (tidy : project.Tidy)
    (sources : store.OnlySources) (moved : project.Moved store) :
    project.setChanged store (project.readIn store) = true := by
  obtain ⟨path, moved⟩ := moved
  rw [← Bool.not_eq_false]
  intro unchanged
  refine moved ?_
  cases source : path.isSource with
  | true => exact unchanged_files unchanged path source
  | false =>
      have absent : FileStore.contains store path = false :=
        Bool.eq_false_iff.mpr fun present => absurd ((sources path present).symm.trans source)
          (by decide)
      rw [absent, Option.isSome_eq_false_iff, Option.isNone_iff_eq_none]
      cases found : project.files.get? path with
      | none => rfl
      | some entry => exact absurd ((tidy.facts path entry found).1.symm.trans source) (by decide)

theorem synced_revision (project : Project) (store : σ) (done : (project.sync store).1 = .ok ()) :
    (project.sync store).2.revision = some (FileStore.revision store) := by
  by_cases current : project.revision = some (FileStore.revision store)
  · rw [sync_current project store current]
    exact current
  · rw [sync_stale project store current] at done ⊢
    cases result : Update.readAll store (sourcesOf store) (project.presentIn store) with
    | mk outcome update =>
        rw [result] at done
        cases outcome with
        | error cause => cases done
        | ok => rfl

theorem failed_revision (project : Project) (store : σ) (cause : AnalysisError)
    (stopped : (project.sync store).1 = .error cause) :
    project.revision ≠ some (FileStore.revision store) ∧ (project.sync store).2.revision =
      project.revision := by
  have stale : project.revision ≠ some (FileStore.revision store) := by
    intro current
    rw [sync_current project store current] at stopped
    cases stopped
  refine ⟨stale, ?_⟩
  rw [sync_stale project store stale] at stopped ⊢
  cases result : Update.readAll store (sourcesOf store) (project.presentIn store) with
  | mk outcome update =>
      rw [result] at stopped
      cases outcome with
      | error cause => rfl
      | ok => cases stopped

section Lawful

variable [LawfulStore σ]

-- An update that succeeds leaves an index that records what the store holds, and mirrors it when
-- the index was trusted before or the set of files has changed.
theorem sync_sure (trusted : Bool) (project : Project) (store : σ) (held : MemoryStore)
    (sure : Sure trusted project store held) (done : (project.sync store).1 = .ok ()) :
    (project.sync store).2.Records held ∧
    (trusted = true ∨ project.Moved store → (project.sync store).2.Mirrors held) := by
  have sources := backs_sources store sure.proper held sure.backs
  have tidy : project.Tidy := ⟨sure.sorted, sure.indexed.facts⟩
  by_cases current : project.revision = some (FileStore.revision store)
  · rw [sync_current project store current]
    refine ⟨sure.current current, ?_⟩
    rintro (trust | moved)
    · obtain ⟨-, -, -, mirrors⟩ := sure.trust trust
      exact mirrors current
    · exact absurd moved (records_not_moved project store held (sure.current current)
        sure.backs sources)
  · have readable := synced_readable project store sure.proper current done
    have backs := image_backs store sure.proper
    have images := backs_sources store sure.proper _ backs
    have texts := backs_unique store readable (imageOf store) held backs sure.backs
    rw [synced_as_image project store sure.proper current done]
    refine ⟨records_texts _ _ held (synced_records project (imageOf store) tidy current) texts,
      fun right => ?_⟩
    refine mirrors_texts _ (imageOf store) held ?_ texts
    rcases right with trust | moved
    · obtain ⟨old, mirrors, known, -⟩ := sure.trust trust
      exact (sync_mirrors project old (imageOf store) mirrors
        (sources_resolve_alike old _ known images) current).2.1
    · obtain ⟨path, differs⟩ := moved
      have changed := moved_set_changed project (imageOf store) tidy images
        ⟨path, by rwa [image_of_contains]⟩
      rw [sync_memory project (imageOf store) current, linkedAfter, changed, if_pos rfl]
      have rebuilt := rebuilt_mirrors (imageOf store) tidy
      exact ⟨rebuilt.files, rebuilt.sorted, rebuilt.modules, rebuilt.links⟩

theorem synced_sure (trusted after : Bool) (project : Project) (store : σ) (held : MemoryStore)
    (sure : Sure trusted project store held) (done : (project.sync store).1 = .ok ())
    (trusts : after = true → trusted = true ∨ project.Moved store) :
    Sure after (project.sync store).2 store held := by
  obtain ⟨records, mirrors⟩ := sync_sure trusted project store held sure done
  refine ⟨sure.proper, sure.backs, sync_sorted project store sure.sorted,
    sync_indexed project store sure.indexed, ?_,
    fun _ => records, fun trust => ?_⟩
  · intro revision known
    exact Nat.le_of_eq (Option.some.inj (known.symm.trans (synced_revision project store done)))
  · exact ⟨held, mirrors (trusts trust), backs_sources store sure.proper held sure.backs, fun _ =>
      mirrors (trusts trust)⟩

theorem failed_sure (trusted : Bool) (project : Project) (store : σ) (held : MemoryStore)
    (cause : AnalysisError) (sure : Sure trusted project store held)
    (stopped : (project.sync store).1 = .error cause) :
    Sure false (project.sync store).2 store held := by
  obtain ⟨stale, kept⟩ := failed_revision project store cause stopped
  refine ⟨sure.proper, sure.backs, sync_sorted project store sure.sorted,
    sync_indexed project store sure.indexed, ?_, ?_,
    fun trust => absurd trust Bool.false_ne_true⟩
  · rw [kept]
    exact sure.past
  · rw [kept]
    exact fun current => absurd current stale

theorem course_sure (trusted : Bool) (project : Project) (store : σ) (held : MemoryStore)
    (course : Course trusted project store held) : Sure trusted project store held := by
  induction course with
  | start store held proper backs =>
      have unseen (revision : Nat) (known : Project.empty.revision = some revision) : False := by
        cases known
      refine ⟨proper, backs, PathMap.empty_sorted, empty_indexed, fun revision known =>
        (unseen revision known).elim,
        fun known => (unseen _ known).elim, fun _ =>
          ⟨.empty, empty_mirrors, ?_, fun known => (unseen _ known).elim⟩⟩
      intro path present
      cases present
  | edited trusted project store later held after _ proper backs newer sure =>
      have behind (known : project.revision = some (FileStore.revision later)) : False := by
        have past := sure.past _ known
        omega
      refine ⟨proper, backs, sure.sorted, sure.indexed, ?_, fun current => (behind current).elim,
        fun trust => ?_⟩
      · intro revision known
        have past := sure.past revision known
        omega
      · obtain ⟨old, mirrors, sources, -⟩ := sure.trust trust
        exact ⟨old, mirrors, sources, fun current => (behind current).elim⟩
  | reread trusted project store later held _ files backs same sure =>
      refine ⟨⟨?_, ?_⟩, backs, sure.sorted, sure.indexed, ?_, ?_, ?_⟩
      · rw [files]
        exact sure.proper.sources
      · rw [files]
        exact sure.proper.once
      · rw [same]
        exact sure.past
      · rw [same]
        exact sure.current
      · rw [same]
        exact sure.trust
  | synced trusted project store held _ done sure =>
      exact synced_sure trusted trusted project store
        held sure done .inl
  | rebuilt trusted project store held _ done moved sure =>
      exact synced_sure trusted true project store held sure done fun _ => .inr moved
  | failed trusted project store held cause _ stopped sure =>
      exact failed_sure trusted project
        store held cause sure stopped
  | idle trusted project store held cause _ stopped same sure =>
      rw [same]
      exact sure

-- After any course of edits and updates, some of which failed, an update that succeeds has the
-- texts and the facts of an index built from nothing. The specifiers and the graph are those of
-- such an index when the index was trusted, or when a file has come or gone since the last update.
theorem sync_after_failures (trusted : Bool) (project : Project) (store : σ) (held : MemoryStore)
    (course : Course trusted project store held) (done : (project.sync store).1 = .ok ())
    (fresh : (Project.empty.sync store).1 = .ok ()) :
    (∀ path, ((project.sync store).2.files.get? path).map content =
      ((Project.empty.sync store).2.files.get? path).map content) ∧
      (trusted = true ∨ project.Moved store → SameIndex (project.sync store).2
        (Project.empty.sync store).2) := by
  have sure := course_sure trusted project store held course
  have begun := course_sure true .empty store held (.start store held sure.proper sure.backs)
  obtain ⟨records, mirrors⟩ := sync_sure trusted project store held sure done
  obtain ⟨recorded, mirrored⟩ := sync_sure true .empty store held begun fresh
  exact ⟨fun path => (records path).trans (recorded path).symm,
    fun right => mirrors_same_index _ _ held (mirrors right) (mirrored (.inl rfl))⟩

end Lawful

def torn : DiskStore where
  system :=
    (((FileSystem.makeDirectory {} ["p"]).put ["p", "a.ts"] (.file "import './b'".toUTF8)).put
    ["p", "b.ts"] (.file "".toUTF8)).put ["p", "z.ts"] (.file ⟨#[255]⟩)
  root := ⟨"/p"⟩
  members := .ofList [(⟨"/p/a.ts"⟩, ()), (⟨"/p/b.ts"⟩, ()), (⟨"/p/z.ts"⟩, ())]

def healed : DiskStore := (FileStore.write torn ⟨"/p/z.ts"⟩ "").2

def relieved : DiskStore := (FileStore.delete torn ⟨"/p/z.ts"⟩).2

theorem error_of_none {ε : Type} (result : Except ε Unit) (stopped : result.toOption = none) :
    ∃ cause, result = .error cause := by
  cases result with
  | ok => cases stopped
  | error cause => exact ⟨cause, rfl⟩

theorem healed_is_followed :
    (Project.empty.sync torn).1.toOption = none ∧
      SameIndex ((Project.empty.sync torn).2.sync healed).2 (Project.empty.sync healed).2 := by
  obtain ⟨stops, done, fresh, moved⟩ : (Project.empty.sync torn).1.toOption = none ∧
      ((Project.empty.sync torn).2.sync healed).1.toOption = some () ∧
      (Project.empty.sync healed).1.toOption = some () ∧
      ((Project.empty.sync torn).2.files.get? ⟨"/p/z.ts"⟩).isSome ≠ FileStore.contains healed
      ⟨"/p/z.ts"⟩ := by decide +kernel
  obtain ⟨cause, stopped⟩ := error_of_none _ stops
  have first : SourceStore torn := ⟨by decide +kernel, by decide +kernel⟩
  have second : SourceStore healed := ⟨by decide +kernel, by decide +kernel⟩
  have course : Course false (Project.empty.sync torn).2 healed (imageOf healed) :=
    .edited _ _ torn healed (imageOf torn) _
      (.failed _ _ _ _ cause (.start _ _ first (image_backs torn first)) stopped)
      second (image_backs healed second) (by decide +kernel)
  have follows := sync_after_failures _ _ _ _ course (except_some done) (except_some fresh)
  exact ⟨stops, follows.2 (.inr ⟨⟨"/p/z.ts"⟩, moved⟩)⟩

theorem failed_sync_is_felt :
    (Project.empty.sync torn).1.toOption = none ∧ (FileStore.delete torn ⟨"/p/z.ts"⟩).1.toOption =
      some () ∧
      ((Project.empty.sync torn).2.sync relieved).1 = .ok () ∧
      (Project.empty.sync relieved).1 = .ok () ∧
      ((Project.empty.sync relieved).2.target? ⟨"/p/a.ts"⟩ "./b").isSome = true ∧
      ((Project.empty.sync torn).2.sync relieved).2.target? ⟨"/p/a.ts"⟩ "./b" = none ∧
      ¬ SameIndex ((Project.empty.sync torn).2.sync relieved).2
        (Project.empty.sync relieved).2 := by
  obtain ⟨stops, goes, done, fresh, known, lost⟩ : (Project.empty.sync torn).1.toOption = none ∧
      (FileStore.delete torn ⟨"/p/z.ts"⟩).1.toOption = some () ∧
      ((Project.empty.sync torn).2.sync relieved).1.toOption = some () ∧
      (Project.empty.sync relieved).1.toOption = some () ∧
      ((Project.empty.sync relieved).2.target? ⟨"/p/a.ts"⟩ "./b").isSome = true ∧
      (((Project.empty.sync torn).2.sync relieved).2.target? ⟨"/p/a.ts"⟩ "./b").isSome = false := by
        decide +kernel
  rw [Option.isSome_eq_false_iff, Option.isNone_iff_eq_none] at lost
  refine ⟨stops, goes, except_some done, except_some fresh, known, lost, fun same => ?_⟩
  rw [← same_targets same, lost] at known
  cases known

end Project
end DeadExports
