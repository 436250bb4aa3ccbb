import DeadExports.Prune.Outcome
import DeadExports.Trace.Basic

set_option autoImplicit false

namespace DeadExports

inductive ReportFormat where
  | human
  | json
deriving DecidableEq, Repr

namespace ReportFormat

structure Unknown where
  name : String
deriving DecidableEq, Repr

namespace Unknown

def message (unknown : Unknown) : String :=
  "Unknown report format: '" ++ unknown.name ++ "'. Valid formats: human, json"

end Unknown

def ofName (name : String) : Except Unknown ReportFormat :=
  match name.toLower with
  | "human" | "text" => .ok human
  | "json" => .ok json
  | _ => .error ⟨name⟩

def label : ReportFormat → String
  | human => "human"
  | json => "json"

end ReportFormat

structure Report where
  root : Path
  check : Bool
  files : List FileEdits
  failures : List Failure
  rounds : Nat
deriving Repr

namespace Report

def ofRun (root : Path) (check : Bool) (summary : RunSummary) (files : List FileEdits) : Report :=
  { root, check, files, failures := summary.failures, rounds := summary.rounds }

def removedCount (report : Report) : Nat := (report.files.flatMap FileEdits.removals).length

def deletedCount (report : Report) : Nat := report.files.countP FileEdits.deleted

def hasChanges (report : Report) : Bool := !report.files.isEmpty

def displayPath (report : Report) (path : Path) : String := path.displayBelow report.root

end Report
end DeadExports
