import DeadExports.Path.Map
import DeadExports.Store.Basic

set_option autoImplicit false

namespace DeadExports

structure MemoryStore where
  texts : PathMap String := .empty
  revision : Nat := 0
deriving Repr, Inhabited

namespace MemoryStore

def empty : MemoryStore := {}

def insert (store : MemoryStore) (path : Path) (text : String) : MemoryStore :=
  { texts := store.texts.insert path text, revision := store.revision + 1 }

def ofList (files : List (Path × String)) : MemoryStore :=
  files.foldl (fun store file => store.insert file.1 file.2) empty

def get? (store : MemoryStore) (path : Path) : Option String := store.texts.get? path

def size (store : MemoryStore) : Nat := store.texts.size

def isEmpty (store : MemoryStore) : Bool := store.texts.isEmpty

def read (store : MemoryStore) (path : Path) : Except StoreError String :=
  match store.texts.get? path with
  | some text => .ok text
  | none => .error (.notInStore path)

def delete (store : MemoryStore) (path : Path) : Except StoreError Unit × MemoryStore :=
  if store.texts.contains path then
    (.ok (), { texts := store.texts.erase path, revision := store.revision + 1 })
  else (.error (.notInStore path), store)

instance : FileStore MemoryStore where
  read := read
  write store path text := (.ok (), store.insert path text)
  delete := delete
  contains store path := store.texts.contains path
  files store := store.texts.keys
  revision := revision

end MemoryStore
end DeadExports
