import DeadExports.Proofs.Path.Map
import DeadExports.Store.Disk

set_option autoImplicit false

namespace DeadExports

theorem except_some {ε α : Type} {result : Except ε α} {value : α}
    (found : result.toOption = some value) :
    result = .ok value := by
  cases result with
  | error cause => cases found
  | ok other => rw [Option.some.inj found]

class LawfulStore (σ : Type) [FileStore σ] : Prop where
  listed : ∀ (store : σ) (path : Path),
    FileStore.contains store path = true ↔ ∃ key ∈ FileStore.files store, key.parts = path.parts

instance memory_store_lawful : LawfulStore MemoryStore where
  listed store path := store.texts.contains_iff_key path

instance disk_store_lawful : LawfulStore DiskStore where
  listed store path := store.members.contains_iff_key path

theorem contains_congr {σ : Type} [FileStore σ] [LawfulStore σ] (store : σ) (a b : Path)
    (same : a.parts = b.parts) : FileStore.contains store a = FileStore.contains store b := by
  rw [Bool.eq_iff_iff, LawfulStore.listed, LawfulStore.listed, same]

namespace MemoryStore

theorem contains_eq (store : MemoryStore) (path : Path) :
    FileStore.contains store path = (store.texts.get? path).isSome := store.texts.contains_eq path

theorem read_of_get (store : MemoryStore) (path : Path) (text : String)
    (found : store.texts.get? path = some text) : FileStore.read store path = .ok text := by
  change store.read path = .ok text
  rw [read, found]

theorem insert_get (store : MemoryStore) (path query : Path) (text : String) :
    (store.insert path text).texts.get? query = if path == query then some text
      else store.texts.get? query :=
  store.texts.get_insert path query text

theorem delete_cases (store : MemoryStore) (path : Path) :
    (store.texts.contains path = true ∧
        store.delete path = (.ok (),
          { texts := store.texts.erase path, revision := store.revision + 1 })) ∨
      (store.texts.contains path = false ∧ store.delete path =
        (.error (.notInStore path), store)) := by
  cases held : store.texts.contains path with
  | true => exact .inl ⟨rfl, by rw [delete, held, if_pos rfl]⟩
  | false => exact .inr ⟨rfl, by rw [delete, held, if_neg Bool.false_ne_true]⟩

end MemoryStore
end DeadExports
