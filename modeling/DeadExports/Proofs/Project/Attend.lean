import DeadExports.Proofs.Project.Follow

set_option autoImplicit false

namespace DeadExports.Project

-- An index that goes on following a store while source files are rewritten and deleted: beside the
-- source files it knows the files that the store holds, or nothing at all.
structure Attends (project : Project) (store : MemoryStore) : Prop where
  behind : ∃ old, project.Mirrors old ∧
    (old = .empty ∨ ∀ path, path.isSource = false → FileStore.contains old path = FileStore.contains
      store path) ∧
    (project.revision = some store.revision → old = store)
  past : ∀ revision, project.revision = some revision → revision ≤ store.revision

theorem attends_follows (project : Project) (store : MemoryStore)
    (attends : project.Attends store) :
    project.Follows store where
  behind := by
    obtain ⟨old, mirrors, rfl | others, current⟩ := attends.behind
    · exact ⟨.empty, mirrors, resolve_alike_empty store, current⟩
    · refine ⟨old, mirrors, resolve_alike_of_contains old store fun sources path => ?_, current⟩
      cases source : path.isSource with
      | true => exact sources path source
      | false => exact others path source
  past := attends.past

theorem empty_attends (store : MemoryStore) : Attends .empty store where
  behind := ⟨.empty, empty_mirrors, .inl rfl, fun current => by cases current⟩
  past revision current := by cases current

theorem synced_attends (project : Project) (store : MemoryStore) (attends : project.Attends store) :
    Attends (project.sync store).2 store := by
  obtain ⟨-, mirrors, current⟩ := follows_sync project store (attends_follows project store attends)
  refine ⟨⟨store, mirrors, .inr fun _ _ => rfl, fun _ => rfl⟩, fun revision known => ?_⟩
  exact Nat.le_of_eq (Option.some.inj (known.symm.trans current))

theorem changed_attends (project : Project) (store later : MemoryStore)
    (attends : project.Attends store)
    (others : ∀ path, path.isSource = false → FileStore.contains store path = FileStore.contains
      later path)
    (newer : later.revision = store.revision + 1) : project.Attends later where
  behind := by
    obtain ⟨old, mirrors, kept, -⟩ := attends.behind
    refine ⟨old, mirrors, ?_, fun current => ?_⟩
    · rcases kept with empty | same
      · exact .inl empty
      · exact .inr fun path plain => (same path plain).trans (others path plain)
    · have past := attends.past _ current
      omega
  past revision known := by
    have past := attends.past revision known
    omega

theorem insert_attends (project : Project) (store : MemoryStore) (path : Path) (text : String)
    (attends : project.Attends store) (source : path.isSource = true) :
    project.Attends (store.insert path text) := by
  refine changed_attends project store _ attends (fun query plain => ?_) rfl
  rw [MemoryStore.contains_eq, MemoryStore.contains_eq, MemoryStore.insert_get]
  split
  next same =>
      rw [← Path.is_source_congr path query ((Path.same_iff path query).mp same), source] at plain
      cases plain
  next => rfl

theorem delete_attends (project : Project) (store : MemoryStore) (path : Path)
    (attends : project.Attends store) (source : path.isSource = true) :
    project.Attends (store.delete path).2 := by
  rcases store.delete_cases path with ⟨-, result⟩ | ⟨-, result⟩
  · rw [result]
    refine changed_attends project store _ attends (fun query plain => ?_) rfl
    rw [MemoryStore.contains_eq, MemoryStore.contains_eq, PathMap.get_erase]
    split
    next same =>
        rw [← Path.is_source_congr path query ((Path.same_iff path query).mp same), source] at plain
        cases plain
    next => rfl
  · rw [result]
    exact attends

end DeadExports.Project
