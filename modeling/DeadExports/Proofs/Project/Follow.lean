import DeadExports.Proofs.Project.Alike
import DeadExports.Proofs.Project.Mirror

set_option autoImplicit false

namespace DeadExports.Project

-- An index that bringing it up to date makes the index of a store: it mirrors an earlier state of
-- the files, and it mirrors the store itself while the revisions agree.
structure Follows (project : Project) (store : MemoryStore) : Prop where
  behind : ∃ old, project.Mirrors old ∧ ResolveAlike old store ∧
    (project.revision = some store.revision → old = store)
  past : ∀ revision, project.revision = some revision → revision ≤ store.revision

theorem empty_follows (store : MemoryStore) : Follows .empty store where
  behind := ⟨.empty, empty_mirrors, resolve_alike_empty store, fun current => by cases current⟩
  past revision current := by cases current

theorem follows_sync (project : Project) (store : MemoryStore) (follows : project.Follows store) :
    (project.sync store).1 = .ok () ∧ (project.sync store).2.Mirrors store ∧
      (project.sync store).2.revision = some store.revision := by
  obtain ⟨old, mirrors, alike, current⟩ := follows.behind
  by_cases fresh : project.revision = some store.revision
  · rw [sync_current project store fresh]
    exact ⟨rfl, current fresh ▸ mirrors, fresh⟩
  · exact sync_mirrors project old store mirrors alike fresh

theorem mirrors_follows (project : Project) (store : MemoryStore) (mirrors : project.Mirrors store)
    (current : project.revision = some store.revision) : Follows project store where
  behind := ⟨store, mirrors, fun _ _ _ _ _ => rfl, fun _ => rfl⟩
  past _ known := Nat.le_of_eq (Option.some.inj (known.symm.trans current))

theorem synced_follows (project : Project) (store : MemoryStore) (follows : project.Follows store) :
    Follows (project.sync store).2 store := by
  obtain ⟨-, mirrors, current⟩ := follows_sync project store follows
  exact mirrors_follows _ store mirrors current

theorem insert_contains (store : MemoryStore) (path : Path) (text : String)
    (held : FileStore.contains store path = true) :
    FileStore.contains (store.insert path text) = FileStore.contains store := by
  funext query
  rw [MemoryStore.contains_eq, MemoryStore.contains_eq, MemoryStore.insert_get]
  split
  next same =>
      rw [← store.texts.get_congr path query ((Path.same_iff path query).mp same),
        ← MemoryStore.contains_eq, held]
      rfl
  next => rfl

theorem resolve_of_contains (old store : MemoryStore)
    (same : FileStore.contains old = FileStore.contains store) (specifier : String)
    (importer : Path) :
    Resolve.resolve old specifier importer = Resolve.resolve store specifier importer := by
  simp only [Resolve.resolve, same]

theorem rewritten_follows (project : Project) (store : MemoryStore) (path : Path) (text : String)
    (held : FileStore.contains store path = true) (follows : project.Follows store) :
    Follows project (store.insert path text) where
  behind := by
    obtain ⟨old, mirrors, alike, -⟩ := follows.behind
    have same := insert_contains store path text held
    refine ⟨old, mirrors, ?_, ?_⟩
    · intro sources query source present specifier
      rw [same] at sources present
      rw [resolve_of_contains _ store same]
      exact alike sources query source present specifier
    · intro current
      have past := follows.past _ current
      change store.revision + 1 ≤ store.revision at past
      omega
  past revision known := Nat.le_succ_of_le (follows.past revision known)

theorem mirrors_same_index (a b : Project) (store : MemoryStore) (left : a.Mirrors store)
    (right : b.Mirrors store) :
    SameIndex a b where
  files := PathMap.content_ext a.files b.files left.sorted right.sorted fun path => by
    rw [left.files, right.files]
  modules path := by rw [left.modules, right.modules]
  links source target kind := by
    rw [left.links, right.links, files_depends left.files, files_depends right.files]

theorem followed_find_references (project : Project) (store : MemoryStore)
    (follows : project.Follows store) (file : Path) (position : Nat) :
    project.findReferences store file position =
      (((project.sync store).2.symbolAt file position).map (project.sync store).2.referencesTo,
        (project.sync store).2) := by
  have done := (follows_sync project store follows).1
  rw [findReferences]
  generalize project.sync store = synced at done
  obtain ⟨result, later⟩ := synced
  subst done
  rfl

def indexOf (store : MemoryStore) : Project := (Project.empty.sync store).2

theorem index_of_mirrors (store : MemoryStore) : (indexOf store).Mirrors store :=
  (follows_sync .empty store (empty_follows store)).2.1

theorem index_of_revision (store : MemoryStore) : (indexOf store).revision = some store.revision :=
  (follows_sync .empty store (empty_follows store)).2.2

theorem index_of_indexed (store : MemoryStore) :
    (indexOf store).Indexed := sync_indexed .empty store empty_indexed

theorem facts_in (store : MemoryStore) (path : Path) :
    (indexOf store).facts? path =
      if path.isSource then (store.texts.get? path).map (Facts.ofText path) else none := by
  rw [facts?, (index_of_mirrors store).files path, entryIn]
  split
  next =>
      rw [Option.map_map]
      rfl
  next => rfl

theorem facts_text (store : MemoryStore) (path : Path) (facts : Facts)
    (known : (indexOf store).facts? path = some facts) :
    facts = Facts.ofText path (textIn store path) := by
  rw [facts_in] at known
  split at known
  next =>
      obtain ⟨text, found, same⟩ := Option.map_eq_some_iff.mp known
      rw [textIn, found, Option.getD_some, same]
  next => cases known

theorem synced_same_index (project : Project) (store : MemoryStore)
    (follows : project.Follows store) :
    SameIndex (project.sync store).2 (indexOf store) :=
  mirrors_same_index _ _ store (follows_sync project store follows).2.1 (index_of_mirrors store)

end DeadExports.Project
