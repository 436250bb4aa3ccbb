import DeadExports.Proofs.Project.Failure
import Mathlib.Data.List.Induction

set_option autoImplicit false

namespace DeadExports

namespace Project

theorem find_agrees {α : Type} (list : List α) (first second : α → Bool) (one other : α)
    (found : list.find? first = some one) (taken : list.find? second = some other)
    (left : second one = true) (right : first other = true) : one = other := by
  induction list with
  | nil => cases found
  | cons head tail ih =>
      rw [List.find?_cons] at found taken
      cases hit : first head with
      | true =>
          rw [hit] at found
          obtain rfl := Option.some.inj found
          rw [left] at taken
          exact Option.some.inj taken
      | false =>
          rw [hit] at found
          cases too : second head with
          | true =>
              rw [too] at taken
              obtain rfl := Option.some.inj taken
              rw [hit] at right
              cases right
          | false =>
              rw [too] at taken
              exact ih found taken

def SameSources (project : Project) (store : MemoryStore) : Prop :=
  ∀ path, path.isSource = true → (project.files.get? path).isSome = FileStore.contains store path

theorem records_same_sources (project : Project) (store : MemoryStore)
    (records : project.Records store) :
    project.SameSources store := by
  intro path source
  rw [← Option.isSome_map, records path, Option.isSome_map, entryIn, if_pos source,
    Option.isSome_map, MemoryStore.contains_eq]

theorem entered_target {store : MemoryStore} {link : Project → Path → Project}
    (enters : Enters store link) (paths : List Path) (project : Project) (importer : Path)
    (specifier : String) (file : Path)
    (found : (paths.foldl link project).target? importer specifier = some file) :
    (Resolve.resolve store specifier importer).filter Path.isSource = some file ∨
      ¬ Listed paths importer ∧ project.target? importer specifier = some file := by
  rw [target?] at found
  by_cases listed : Listed paths importer
  · rw [fold_listed enters _ _ _ listed] at found
    obtain ⟨entry, present, told⟩ := Option.bind_eq_some_iff.mp found
    obtain ⟨before, -, rfl⟩ := Option.map_eq_some_iff.mp present
    exact .inl (resolved_entry_target store importer before specifier file told)
  · rw [fold_other enters _ _ _ listed] at found
    exact .inr ⟨listed, found⟩

-- What an update leaves of an index about one specifier: the answer of the store, or what the index
-- told before, and this only while no source file has come or gone.
theorem synced_target (project : Project) (store : MemoryStore) (tidy : project.Tidy)
    (stale : project.revision ≠ some (FileStore.revision store)) (importer : Path)
    (specifier : String) (file : Path)
    (found : (project.sync store).2.target? importer specifier = some file) :
    (Resolve.resolve store specifier importer).filter Path.isSource = some file ∨
      project.target? importer specifier = some file ∧ project.SameSources store := by
  rw [sync_memory project store stale] at found
  change (project.linkedAfter store (project.readIn store)).target? importer specifier =
    some file at found
  rw [linkedAfter] at found
  cases changed : project.setChanged store (project.readIn store) with
  | true =>
      rw [changed, if_pos rfl] at found
      rcases entered_target (link_enters store) _ _ importer specifier file found
        with direct | ⟨other, before⟩
      · exact .inl direct
      · rw [listed_sources_iff] at other
        rw [target?, read_in_none tidy importer other] at before
        cases before
  | false =>
      rw [changed, if_neg Bool.false_ne_true] at found
      rcases entered_target (relink_enters store) _ _ importer specifier file found
        with direct | ⟨other, before⟩
      · exact .inl direct
      · rw [target?] at before
        by_cases held : SourceIn store importer
        · rw [changed_iff, not_and, Bool.not_eq_false] at other
          rw [read_in_get importer held, if_pos (other held)] at before
          exact .inr ⟨before, unchanged_files changed⟩
        · rw [read_in_none tidy importer held] at before
          cases before

theorem asked_index (project : Project) (store : MemoryStore) (file : Path) (position : Nat) :
    (project.findReferences store file position).2 = (project.sync store).2 := by
  rw [findReferences]
  cases project.sync store with
  | mk result later => cases result <;> rfl

-- What every event keeps. Whatever the index tells of a specifier was the answer of an earlier
-- store, and that store had the source files that the index has.
structure Recalls (earlier : MemoryStore → Prop) (session : Session) : Prop where
  sorted : session.project.files.Sorted
  indexed : session.project.Indexed
  past : ∀ revision, session.project.revision = some revision → revision ≤ session.store.revision
  current : session.project.revision = some session.store.revision →
      session.project.SameSources session.store
  targets : ∀ importer specifier file, session.project.target? importer specifier = some file →
    ∃ old, earlier old ∧ session.project.SameSources old ∧
      (Resolve.resolve old specifier importer).filter Path.isSource = some file

theorem fresh_recalls (earlier : MemoryStore → Prop) (store : MemoryStore) :
    Recalls earlier { store := store } where
  sorted := PathMap.empty_sorted
  indexed := empty_indexed
  past revision known := by cases known
  current known := by cases known
  targets importer specifier file found := by cases found

section Step

variable {earlier : MemoryStore → Prop} {session : Session}

theorem recalls_more (recalls : Recalls earlier session) (more : MemoryStore → Prop)
    (within : ∀ old, earlier old → more old) : Recalls more session where
  sorted := recalls.sorted
  indexed := recalls.indexed
  past := recalls.past
  current := recalls.current
  targets importer specifier file found := by
    obtain ⟨old, before, same, told⟩ := recalls.targets importer specifier file found
    exact ⟨old, within old before, same, told⟩

theorem changed_recalls (recalls : Recalls earlier session) (store : MemoryStore)
    (later : store.revision = session.store.revision + 1) :
    Recalls earlier { session with store := store } where
  sorted := recalls.sorted
  indexed := recalls.indexed
  past revision known := by
    have past := recalls.past revision known
    dsimp only
    omega
  current known := by
    have past := recalls.past _ known
    dsimp only at past
    omega
  targets := recalls.targets

theorem deleted_recalls (recalls : Recalls earlier session) (path : Path) :
    Recalls earlier { session with store := (session.store.delete path).2 } := by
  rcases session.store.delete_cases path with ⟨-, result⟩ | ⟨-, result⟩
  · rw [result]
    exact changed_recalls recalls _ rfl
  · rw [result]
    exact recalls

theorem synced_recalls (recalls : Recalls earlier session) (known : earlier session.store) :
    Recalls earlier { session with project := (session.project.sync session.store).2 } := by
  by_cases fresh : session.project.revision = some session.store.revision
  · rw [sync_current session.project session.store fresh]
    exact recalls
  · have tidy : session.project.Tidy := ⟨recalls.sorted, recalls.indexed.facts⟩
    have same := records_same_sources _ _ (synced_records session.project session.store tidy fresh)
    refine ⟨sync_sorted _ _ recalls.sorted, sync_indexed _ _ recalls.indexed, fun revision told =>
      ?_, fun _ => same,
      fun importer specifier file found => ?_⟩
    · have done := (sync_sound session.project session.store trivial).2
      exact Nat.le_of_eq (Option.some.inj (told.symm.trans done))
    · rcases synced_target session.project session.store tidy fresh importer specifier file
          found with
        direct | ⟨before, unchanged⟩
      · exact ⟨session.store, known, same, direct⟩
      · obtain ⟨old, was, sources, told⟩ := recalls.targets importer specifier file before
        refine ⟨old, was, fun path source => ?_, told⟩
        rw [same path source, ← unchanged path source, sources path source]

theorem after_recalls (recalls : Recalls earlier session) (known : earlier session.store)
    (event : Event) :
    Recalls earlier (session.after event) := by
  cases event with
  | insert path text => exact changed_recalls recalls _ rfl
  | write path text => exact changed_recalls recalls _ rfl
  | delete path => exact deleted_recalls recalls path
  | sync => exact synced_recalls recalls known
  | ask file position =>
      rw [Session.after, asked_index]
      exact synced_recalls recalls known

end Step

def StoreOf (initial : MemoryStore) (events : List Event) (store : MemoryStore) : Prop :=
  ∃ earlier, earlier <+: events ∧ (Session.history initial earlier).store = store

theorem history_recalls (initial : MemoryStore) (events : List Event) :
    Recalls (StoreOf initial events) (Session.history initial events) := by
  induction events using List.reverseRecOn with
  | nil => exact fresh_recalls _ initial
  | append_singleton events last ih =>
      have grown := recalls_more ih (StoreOf initial (events ++ [last])) (by
        rintro old ⟨earlier, within, left⟩
        exact ⟨earlier, within.trans (List.prefix_append events [last]), left⟩)
      have known : StoreOf initial (events ++ [last]) (Session.history initial events).store :=
        ⟨events, List.prefix_append events [last], rfl⟩
      rw [Session.history, List.foldl_concat]
      exact after_recalls grown known last

-- A file that is no source has come, and a specifier stands for it now in the place of the source
-- file that it stood for; the source files are the same.
structure Overtakes (old store : MemoryStore) (specifier : String) (importer passed kept : Path) :
    Prop where
  sources : ∀ path, path.isSource = true →
      FileStore.contains old path = FileStore.contains store path
  before : Resolve.resolve old specifier importer = some kept
  source : kept.isSource = true
  now : Resolve.resolve store specifier importer = some passed
  plain : passed.isSource = false
  came : FileStore.contains old passed = false

theorem resolved_again (old store : MemoryStore) (specifier : String) (importer kept : Path)
    (sources : ∀ path, path.isSource = true → FileStore.contains old path = FileStore.contains
      store path)
    (before : Resolve.resolve old specifier importer = some kept) (source : kept.isSource = true) :
    Resolve.resolve store specifier importer = some kept ∨
      ∃ passed, Overtakes old store specifier importer passed kept := by
  obtain ⟨base, denoted, hit⟩ := Option.bind_eq_some_iff.mp before
  have held : FileStore.contains store kept = true := (sources kept source).symm.trans
    (List.find?_some hit)
  have some_found : ((Resolve.candidates base).find? (FileStore.contains store)).isSome = true :=
    List.find?_isSome.mpr ⟨kept, List.mem_of_find?_eq_some hit, held⟩
  obtain ⟨passed, taken⟩ := Option.isSome_iff_exists.mp some_found
  have now : Resolve.resolve store specifier importer = some passed := by
    rw [Resolve.resolve, denoted]
    exact taken
  cases came : FileStore.contains old passed with
  | true =>
      obtain rfl := find_agrees _ _ _ kept passed hit taken held came
      exact .inl now
  | false =>
      refine .inr ⟨passed, sources, before, source, now, ?_, came⟩
      rw [Bool.eq_false_iff]
      intro isSource
      rw [sources passed isSource, List.find?_some taken] at came
      cases came

-- Whatever has happened to the files and whenever the index was brought up to date or asked, it
-- finds the file that a specifier stands for in the store as it is. The one exception: the index
-- answers with a source file that the specifier stood for in an earlier state of the store, since
-- when a file that is no source has come before it and no source file has come or gone.
theorem lookups_agree (initial : MemoryStore) (events : List Event) (specifier : String)
    (importer : Path) :
    let session := Session.history initial events
    session.project.resolveModule session.store specifier importer = Resolve.resolve session.store
      specifier importer ∨
      session.project.revision = some session.store.revision ∧
        ∃ earlier passed kept, earlier <+: events ∧
          session.project.resolveModule session.store specifier importer = some kept ∧
          Overtakes (Session.history initial earlier).store session.store specifier importer passed
            kept := by
  intro session
  have recalls : Recalls (StoreOf initial events) session := history_recalls initial events
  rw [resolveModule]
  split
  next agrees =>
      have current : session.project.revision = some session.store.revision := beq_iff_eq.mp agrees
      cases told : session.project.target? importer specifier with
      | none => exact .inl rfl
      | some kept =>
          obtain ⟨old, ⟨earlier, within, rfl⟩, same, resolved⟩ :=
            recalls.targets importer specifier kept told
          obtain ⟨before, source⟩ := Option.filter_eq_some_iff.mp resolved
          have sources : ∀ path, path.isSource = true →
              FileStore.contains (Session.history initial earlier).store path = FileStore.contains
              session.store path := by
            intro path isSource
            rw [← same path isSource, recalls.current current path isSource]
          rcases resolved_again _ _ specifier importer kept sources before source
            with still | ⟨passed, overtakes⟩
          · exact .inl still.symm
          · exact .inr ⟨current, earlier, passed, kept, within, rfl, overtakes⟩
  next => exact .inl rfl

def newcomerEvents : List Event :=
  [.insert ⟨"/a.ts"⟩ "import './b';\n", .insert ⟨"/b.ts"⟩ "", .sync, .write ⟨"/b"⟩ "", .sync]

theorem newcomer_is_missed :
    let session := Session.history .empty newcomerEvents
    (session.project.resolveModule session.store "./b" ⟨"/a.ts"⟩).map Path.spelling = some "/b.ts" ∧
      (Resolve.resolve session.store "./b" ⟨"/a.ts"⟩).map Path.spelling = some "/b" := by
  decide +kernel

end Project
end DeadExports
