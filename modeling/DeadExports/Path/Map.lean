import DeadExports.Path.Basic

set_option autoImplicit false

/-!
Finite maps from paths, as entries in the order of their paths. A path that is put again keeps the
spelling it was first put with.
-/

namespace DeadExports

structure PathMap (α : Type) where
  entries : List (Path × α)
deriving Repr, Inhabited

namespace PathMap

variable {α : Type}

def empty : PathMap α := ⟨[]⟩

def get? (map : PathMap α) (path : Path) : Option α :=
  (map.entries.find? fun entry => entry.1 == path).map Prod.snd

def contains (map : PathMap α) (path : Path) : Bool :=
  map.entries.any fun entry => entry.1 == path

def putEntry (path : Path) (value : α) : List (Path × α) → List (Path × α)
  | [] => [(path, value)]
  | (key, old) :: rest =>
    match path.compare key with
    | .lt => (path, value) :: (key, old) :: rest
    | .eq => (key, value) :: rest
    | .gt => (key, old) :: putEntry path value rest

def insert (map : PathMap α) (path : Path) (value : α) : PathMap α :=
  ⟨putEntry path value map.entries⟩

def erase (map : PathMap α) (path : Path) : PathMap α :=
  ⟨map.entries.filter fun entry => !(entry.1 == path)⟩

def filter (map : PathMap α) (keep : Path → Bool) : PathMap α :=
  ⟨map.entries.filter fun entry => keep entry.1⟩

def keys (map : PathMap α) : List Path := map.entries.map Prod.fst

def size (map : PathMap α) : Nat := map.entries.length

def isEmpty (map : PathMap α) : Bool := map.entries.isEmpty

def ofList (entries : List (Path × α)) : PathMap α :=
  entries.foldl (fun map entry => map.insert entry.1 entry.2) empty

end PathMap
end DeadExports
