import DeadExports.Language
import DeadExports.Path.Map
import DeadExports.Store.Basic

set_option autoImplicit false

namespace DeadExports

inductive Node where
  | directory
  | file (bytes : ByteArray)

structure FileSystem where
  /-- The directories and files below the root, by absolute paths without `.` and `..`. -/
  nodes : PathMap Node := .empty

namespace FileSystem

abbrev Place := List String

def pathOf (place : Place) : Path := .ofParts (.root :: place.map Part.name)

def node? (system : FileSystem) (place : Place) : Option Node :=
  if place.isEmpty then some .directory else system.nodes.get? (pathOf place)

def put (system : FileSystem) (place : Place) (node : Node) : FileSystem :=
  { system with nodes := system.nodes.insert (pathOf place) node }

def makeDirectory (system : FileSystem) (place : Place) : FileSystem :=
  ((List.range place.length).map fun count => place.take (count + 1)).foldl
    (fun system place => system.put place .directory) system

def enter (system : FileSystem) (place : Place) : Except StoreError Unit :=
  match system.node? place with
  | some .directory => .ok ()
  | some (.file _) => .error .notDirectory
  | none => .error .missing

def step (system : FileSystem) (place : Place) (part : Part) : Except StoreError Place := do
  match part with
  | .root => return []
  | .here => return place
  | .up =>
    system.enter place
    return place.dropLast
  | .name name =>
    system.enter place
    return place ++ [name]

def endsInSlash (path : Path) : Bool := path.spelling.endsWith "/" || path.spelling.endsWith "/."

def locate (system : FileSystem) (path : Path) : Except StoreError Place := do
  let place ← path.parts.foldlM system.step []
  match system.node? place with
  | some (.file _) => if endsInSlash path then throw .notDirectory else return place
  | _ => return place

def at? (system : FileSystem) (path : Path) : Option Node :=
  match system.locate path with
  | .ok place => system.node? place
  | .error _ => none

def isDirectory (system : FileSystem) (path : Path) : Bool :=
  match system.at? path with
  | some .directory => true
  | _ => false

def isFile (system : FileSystem) (path : Path) : Bool :=
  match system.at? path with
  | some (.file _) => true
  | _ => false

def canonical (system : FileSystem) (path : Path) : Except StoreError Path := do
  let place ← system.locate path
  match system.node? place with
  | some _ => return pathOf place
  | none => throw .missing

def read (system : FileSystem) (path : Path) : Except StoreError String := do
  match system.node? (← system.locate path) with
  | none => throw .missing
  | some .directory => throw .isDirectory
  | some (.file bytes) =>
    match String.fromUTF8? bytes with
    | some text => return text
    | none => throw .notText

def write (system : FileSystem) (path : Path) (text : String) : Except StoreError FileSystem := do
  let place ← system.locate path
  match system.node? place with
  | some .directory => throw .isDirectory
  | some (.file _) => return system.put place (.file text.toUTF8)
  | none =>
    if endsInSlash path then throw .isDirectory
    return system.put place (.file text.toUTF8)

def remove (system : FileSystem) (path : Path) : Except StoreError FileSystem := do
  let place ← system.locate path
  match system.node? place with
  | none => throw .missing
  | some .directory => throw .isDirectory
  | some (.file _) => return { system with nodes := system.nodes.erase (pathOf place) }

def ignoredNames : List String :=
  ["node_modules", ".git", "dist", "build", ".next", "coverage", ".turbo"]

def isIgnoredName (name : String) : Bool := ignoredNames.contains name

def namesOf (path : Path) : List String :=
  path.parts.filterMap fun part => match part with
    | .name text => some text
    | _ => none

def below? (place : Place) (entry : Path × Node) : Option (List String) :=
  match entry.2 with
  | .directory => none
  | .file _ =>
    let names := namesOf entry.1
    let rest := names.drop place.length
    if place.isPrefixOf names && !rest.isEmpty && !rest.dropLast.any isIgnoredName then some rest
    else none

def sources (system : FileSystem) (root : Path) : Except StoreError (List Path) :=
  match system.locate root with
  | .ok place =>
    if system.isDirectory root then
      let found := (system.nodes.entries.filterMap (below? place)).map fun names =>
        root.join ("/".intercalate names)
      .ok ((found.filter Path.isSource).mergeSort Path.atMost)
    else .error (.rootNotDirectory root)
  | .error _ => .error (.rootNotDirectory root)

end FileSystem
end DeadExports
