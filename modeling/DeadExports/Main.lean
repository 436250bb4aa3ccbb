import DeadExports.CommandLine.Run

set_option autoImplicit false

namespace DeadExports.Main

def placeOf (path : String) : FileSystem.Place := FileSystem.namesOf ⟨path⟩

/--
Reads a file or, with all below it, a directory. Links inside of a directory are not followed.
-/
partial def gather (system : FileSystem) (path : String) : IO FileSystem := do
  let real ← IO.FS.realPath path
  let place := placeOf real.toString
  if ← real.isDir then
    let mut found := system.makeDirectory place
    for entry in ← real.readDir do
      let isLink := (← entry.path.symlinkMetadata).type == .symlink
      unless isLink || FileSystem.isIgnoredName entry.fileName do
        found ← gather found entry.path.toString
    return found
  else
    let bytes ← IO.FS.readBinFile real
    return (system.makeDirectory place.dropLast).put place (.file bytes)

def gatherIfPresent (system : FileSystem) (path : String) : IO FileSystem := do
  try gather system path catch _ => return system

def store (before after : FileSystem) : IO Unit := do
  for (path, node) in after.nodes.entries do
    match node, before.nodes.get? path with
    | .file bytes, some (.file old) =>
      if bytes != old then IO.FS.writeBinFile path.spelling bytes
    | .file bytes, _ => IO.FS.writeBinFile path.spelling bytes
    | .directory, _ => pure ()
  for (path, node) in before.nodes.entries do
    match node with
    | .file _ => unless after.nodes.contains path do IO.FS.removeFile path.spelling
    | .directory => pure ()

def pathsOf (arguments : List String) : List String :=
  match CommandLine.parse? arguments with
  | some (.run arguments) =>
    (arguments.project.getD ⟨"."⟩).spelling :: (arguments.config.map Path.spelling).toList
  | _ => []

end DeadExports.Main

open DeadExports in
def main (arguments : List String) : IO UInt32 := do
  let folder ← IO.currentDir
  let mut system : FileSystem := FileSystem.makeDirectory {} (Main.placeOf folder.toString)
  for path in Main.pathsOf arguments do
    system ← Main.gatherIfPresent system path
  let result := CommandLine.run system ⟨folder.toString⟩ arguments
  IO.print result.output
  unless result.complaint.isEmpty do IO.eprintln result.complaint
  Main.store system result.system
  return UInt32.ofNat result.exit.toNat
