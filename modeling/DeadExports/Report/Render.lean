import DeadExports.Report.Basic
import DeadExports.Report.JsonText

set_option autoImplicit false

namespace DeadExports.Report

def plural (count : Nat) (noun : String) : String :=
  if count = 1 then s!"{count} {noun}" else s!"{count} {noun}s"

def totals (report : Report) : String :=
  if report.hasChanges then
    let removes := if report.check then "Would remove " else "Removed "
    let removed := removes ++ plural report.removedCount "export"
    let deletes := if report.check then " and delete " else " and deleted "
    let deleted :=
      if 0 < report.deletedCount then deletes ++ plural report.deletedCount "file" else ""
    let rounds := if 1 < report.rounds then s!" over {report.rounds} rounds" else ""
    removed ++ deleted ++ rounds ++ "."
  else "No unused exports found."

def fileLines (report : Report) (file : FileEdits) : List String :=
  [report.displayPath file.path] ++
    (file.removals.map fun removal =>
      s!"  {removal.line}:{removal.column}  {Text.firstLine removal.code}") ++
    (if file.deleted then ["  (file deleted)"] else [])

def failureLines (report : Report) : List String :=
  if report.failures.isEmpty then []
  else
    ["", "Failed to process " ++ plural report.failures.length "file" ++ ":"] ++
      report.failures.map fun failure =>
        "  " ++ report.displayPath failure.path ++ ": " ++ failure.reason

def humanLines (report : Report) : List String :=
  report.files.flatMap report.fileLines ++ (if report.hasChanges then [""] else []) ++
    [report.totals] ++ report.failureLines

def renderHuman (report : Report) : String :=
  String.join (report.humanLines.map fun line => line ++ "\n")

def removalJson (removal : Removal) : JsonText :=
  .record [("line", .number removal.line), ("column", .number removal.column),
    ("offset", .number removal.offset), ("code", .text removal.code)]

def fileJson (report : Report) (file : FileEdits) : JsonText :=
  .record [("path", .text (report.displayPath file.path)), ("deleted", .flag file.deleted),
    ("removals", .list (file.removals.map removalJson))]

def failureJson (report : Report) (failure : Failure) : JsonText :=
  .record [("path", .text (report.displayPath failure.path)), ("error", .text failure.reason)]

def summaryJson (report : Report) : JsonText :=
  .record [("removed", .number report.removedCount), ("deleted", .number report.deletedCount),
    ("files_changed", .number report.files.length), ("failed", .number report.failures.length),
    ("rounds", .number report.rounds)]

def toJson (report : Report) : JsonText :=
  .record ([("root", .text report.root.spelling), ("check", .flag report.check),
    ("summary", report.summaryJson), ("files", .list (report.files.map report.fileJson))] ++
    (if report.failures.isEmpty then []
     else [("failures", .list (report.failures.map report.failureJson))]))

def renderJson (report : Report) : String := report.toJson.render 0 ++ "\n"

def render (report : Report) : ReportFormat → String
  | .human => report.renderHuman
  | .json => report.renderJson

end DeadExports.Report
