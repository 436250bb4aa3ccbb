import DeadExports.Store.Basic

set_option autoImplicit false

namespace DeadExports

inductive AnalysisError where
  | unreadable (cause : StoreError)
  | unsupported (ending : String)
  | notInProject (file : Path)
  | noSymbol (file : Path) (position : Nat)
deriving Repr

namespace AnalysisError

def message : AnalysisError → String
  | unreadable cause => "Failed to read file: " ++ cause.message
  | unsupported ending => "Unsupported file type: " ++ ending
  | notInProject file => "File is not part of the project: " ++ file.spelling
  | noSymbol file position => s!"No symbol at {file.spelling}:{position}"

end AnalysisError

inductive PruneError where
  | analysis (cause : AnalysisError)
  | store (cause : StoreError)
  | brokenSource (file : Path)
  | missingExportWord (file : Path) (offset : Nat)
  | missingClause (file : Path) (offset : Nat)
  | noProgress (file : Path)
deriving Repr

namespace PruneError

def message : PruneError → String
  | analysis cause => cause.message
  | store cause => "I/O error: " ++ cause.message
  | brokenSource file => file.spelling ++ ": syntax errors, refusing to edit"
  | missingExportWord file offset =>
    s!"{file.spelling}:{offset}: exported declaration has no `export` keyword"
  | missingClause file offset =>
    s!"{file.spelling}:{offset}: export specifier outside an export clause"
  | noProgress file => file.spelling ++ ": edit batch left the text unchanged"

end PruneError
end DeadExports
