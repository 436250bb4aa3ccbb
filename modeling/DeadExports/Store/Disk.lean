import DeadExports.FileSystem.Basic
import DeadExports.Store.Memory

set_option autoImplicit false

/-!
The source files of a project on a file system. Which files belong to the project is found once;
after that only what goes through the store counts. Texts are always those of the file system.
-/

namespace DeadExports

structure DiskStore where
  system : FileSystem
  root : Path
  members : PathMap Unit
  revision : Nat := 0

namespace DiskStore

def start (system : FileSystem) (root : Path) : Except StoreError DiskStore := do
  let root ← system.canonical root
  let files ← system.sources root
  return { system, root, members := .ofList (files.map fun file => (file, ())) }

def validate (store : DiskStore) (path : Path) : Except StoreError Unit :=
  if path.isWithin store.root then .ok () else .error (.outsideRoot path store.root)

def read (store : DiskStore) (path : Path) : Except StoreError String := do
  store.validate path
  store.system.read path

def write? (store : DiskStore) (path : Path) (text : String) : Except StoreError DiskStore := do
  store.validate path
  let system ← store.system.write path text
  return { store with
    system, members := store.members.insert path (), revision := store.revision + 1 }

def delete? (store : DiskStore) (path : Path) : Except StoreError DiskStore := do
  store.validate path
  let system ← store.system.remove path
  return { store with
    system, members := store.members.erase path, revision := store.revision + 1 }

def settle (store : DiskStore) : Except StoreError DiskStore → Except StoreError Unit × DiskStore
  | .ok later => (.ok (), later)
  | .error cause => (.error cause, store)

instance : FileStore DiskStore where
  read := read
  write store path text := store.settle (store.write? path text)
  delete store path := store.settle (store.delete? path)
  contains store path := store.members.contains path
  files store := store.members.keys
  revision := revision

end DiskStore

def MemoryStore.snapshot (system : FileSystem) (root : Path) : Except StoreError MemoryStore := do
  let files ← system.sources root
  let texts ← files.mapM fun file => return (file, ← system.read file)
  return .ofList texts

end DeadExports
