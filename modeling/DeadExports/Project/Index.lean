import DeadExports.Facts.Extract
import DeadExports.Path.Map
import DeadExports.Resolve

set_option autoImplicit false

namespace DeadExports

structure FileEntry where
  text : String
  facts : Facts
  resolved : List (String × Path) := []
deriving Repr

structure Project where
  revision : Option Nat := none
  files : PathMap FileEntry := .empty
  graph : ModuleGraph := .empty
deriving Repr

namespace Project

def empty : Project := {}

def fileCount (project : Project) : Nat := project.files.size

def facts? (project : Project) (file : Path) : Option Facts :=
  (project.files.get? file).map FileEntry.facts

def target? (project : Project) (file : Path) (specifier : String) : Option Path :=
  (project.files.get? file).bind fun entry =>
    (entry.resolved.find? fun found => found.1 == specifier).map Prod.snd

def pointsTo (project : Project) (importer : Path) (specifier : String) (file : Path) : Bool :=
  match project.target? importer specifier with
  | some target => target == file
  | none => false

variable {σ : Type} [FileStore σ]

structure Update where
  files : PathMap FileEntry
  hasNew : Bool := false
  changed : List Path := []

def Update.take (update : Update) (path : Path) (text : String) : Except AnalysisError Update :=
  match update.files.get? path with
  | some entry =>
    if entry.text == text then .ok update
    else
      (SourceModule.parse path text).map fun m =>
        { update with
          files := update.files.insert path { text, facts := Facts.extract m }
          changed := update.changed ++ [path] }
  | none =>
    (SourceModule.parse path text).map fun m =>
      { files := update.files.insert path { text, facts := Facts.extract m }
        hasNew := true
        changed := update.changed ++ [path] }

def Update.readAll (store : σ) : List Path → Update → Except AnalysisError Unit × Update
  | [], update => (.ok (), update)
  | path :: rest, update =>
    match FileStore.read store path with
    | .error cause => (.error (.unreadable cause), update)
    | .ok text =>
      match update.take path text with
      | .error cause => (.error cause, update)
      | .ok next => readAll store rest next

def resolvedDependencies (store : σ) (path : Path) (facts : Facts) :
    List (String × Path × LinkKind) :=
  facts.dependencies.filterMap fun (specifier, kind) =>
    match Resolve.resolve store specifier path with
    | some target => if target.isSource then some (specifier, target, kind) else none
    | none => none

def linkFile (store : σ) (project : Project) (path : Path) : Project :=
  match project.files.get? path with
  | none => project
  | some entry =>
    let found := resolvedDependencies store path entry.facts
    { project with
      graph := found.foldl (fun graph (_, target, kind) => graph.addLink path target kind)
        (project.graph.addModule path)
      files := project.files.insert path
        { entry with resolved := found.map fun (specifier, target, _) => (specifier, target) } }

def relinkFile (store : σ) (project : Project) (path : Path) : Project :=
  linkFile store { project with graph := project.graph.clearDependencies path } path

def sourcesOf (store : σ) : List Path := (FileStore.files store).filter Path.isSource

/--
Brings the index up to date with a store. When a file cannot be read the update stops there, and
what was read before stays in the index.
-/
def sync (project : Project) (store : σ) : Except AnalysisError Unit × Project :=
  let revision := FileStore.revision store
  if project.revision == some revision then (.ok (), project)
  else
    let paths := sourcesOf store
    let present := project.files.filter (FileStore.contains store)
    let (result, update) := Update.readAll store paths { files := present }
    let read := { project with files := update.files }
    match result with
    | .error cause => (.error cause, read)
    | .ok () =>
      let setChanged := present.size != project.files.size || update.hasNew
      let linked :=
        if setChanged then paths.foldl (linkFile store) { read with graph := .empty }
        else update.changed.foldl (relinkFile store) read
      (.ok (), { linked with revision := some revision })

end Project
end DeadExports
