import DeadExports.Path.Basic
import DeadExports.Text.Basic

set_option autoImplicit false

namespace DeadExports

structure Removal where
  line : Nat
  column : Nat
  offset : Nat
  code : String
deriving DecidableEq, Repr

inductive EditEvent where
  | opened (file : Path) (text : String)
  | removed (file : Path) (removal : Removal)
  | deleted (file : Path)
  | closed (file : Path)
deriving Repr

namespace EditEvent

def logLine? : EditEvent → Option String
  | removed file removal =>
    some s!"{file.spelling}:{removal.line}:{removal.column} removed `{Text.firstLine removal.code}`"
  | deleted file => some (file.spelling ++ " deleted")
  | opened _ _ | closed _ => none

end EditEvent

structure FileEdits where
  path : Path
  removals : List Removal := []
  deleted : Bool := false
deriving Repr

namespace FileEdits

def isEdited (edits : FileEdits) : Bool := edits.deleted || !edits.removals.isEmpty

end FileEdits

structure Recording where
  files : List FileEdits := []
  session : Option Path := none
deriving Repr, Inhabited

namespace Recording

def empty : Recording := {}

def update (recording : Recording) (file : Path) (change : FileEdits → FileEdits) : Recording :=
  if recording.files.any (·.path == file) then
    { recording with
      files := recording.files.map fun edits => if edits.path == file then change edits else edits }
  else { recording with files := recording.files ++ [change { path := file }] }

def observe (recording : Recording) : EditEvent → Recording
  | .opened file _ => { recording.update file id with session := some file }
  | .closed _ => { recording with session := none }
  | .removed file removal =>
    recording.update file fun edits => { edits with removals := edits.removals ++ [removal] }
  | .deleted file => recording.update file fun edits => { edits with deleted := true }

def observeAll (recording : Recording) (events : List EditEvent) : Recording :=
  events.foldl observe recording

def inSession (recording : Recording) : Bool := recording.session.isSome

def edited (recording : Recording) : List FileEdits := recording.files.filter FileEdits.isEdited

end Recording
end DeadExports
