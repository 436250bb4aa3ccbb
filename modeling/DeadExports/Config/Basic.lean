import DeadExports.Config.Toml
import DeadExports.FileSystem.Basic
import DeadExports.Pattern.Syntax
import DeadExports.Prune.Pass

set_option autoImplicit false

namespace DeadExports

structure Config where
  skip : List String := []
  includeDeclarations : Bool := false
  deleteFiles : Bool := false
  cleanup : Bool := false
  recursive : Bool := false
  maxRounds : Nat := 10
  skipMarker : String := defaultMarker
deriving DecidableEq, Repr

inductive ConfigError where
  | unreadable (cause : StoreError)
  | malformed (path : Path)
  | badPattern (pattern : String)
deriving Repr

namespace ConfigError

def message : ConfigError → String
  | unreadable cause => "Failed to read config file: " ++ cause.message
  | malformed path => "Invalid config file " ++ path.spelling
  | badPattern pattern => "Invalid skip pattern '" ++ pattern ++ "'"

end ConfigError

structure Overrides where
  skip : List String := []
  includeDeclarations : Bool := false
  deleteFiles : Bool := false
  cleanup : Bool := false
  recursive : Bool := false
  maxRounds : Option Nat := none
deriving DecidableEq, Repr

namespace Config

def set? (config : Config) (entry : String × Toml.Value) : Option Config :=
  match entry with
  | ("skip", .texts items) => some { config with skip := items }
  | ("include_d_ts", .truth value) => some { config with includeDeclarations := value }
  | ("delete_files", .truth value) => some { config with deleteFiles := value }
  | ("cleanup", .truth value) => some { config with cleanup := value }
  | ("recursive", .truth value) => some { config with recursive := value }
  | ("max_rounds", .integer value) =>
    if 0 ≤ value then some { config with maxRounds := value.toNat } else none
  | ("skip_marker", .text value) => some { config with skipMarker := value }
  | _ => none

def ofText? (text : String) : Option Config := do
  (← Toml.read text).foldlM set? {}

def ofText (path : Path) (text : String) : Except ConfigError Config :=
  match ofText? text with
  | some config => .ok config
  | none => .error (.malformed path)

/-- Adds what the command line says. Switches can only be set, never unset. -/
def override (config : Config) (overrides : Overrides) : Config :=
  { config with
    skip := config.skip ++ overrides.skip
    includeDeclarations := config.includeDeclarations || overrides.includeDeclarations
    deleteFiles := config.deleteFiles || overrides.deleteFiles
    cleanup := config.cleanup || overrides.cleanup
    recursive := config.recursive || overrides.recursive
    maxRounds := overrides.maxRounds.getD config.maxRounds }

def pruneOptions (config : Config) : PruneOptions :=
  { deleteFiles := config.deleteFiles
    cleanup := config.cleanup
    recursive := config.recursive
    maxRounds := config.maxRounds
    skipMarker := config.skipMarker }

def fileName : String := "unexport.toml"

def ofFile (system : FileSystem) (path : Path) : Except ConfigError Config :=
  match system.read path with
  | .ok text => ofText path text
  | .error cause => .error (.unreadable cause)

def load (system : FileSystem) (root : Path) (chosen : Option Path) : Except ConfigError Config :=
  match chosen with
  | some path => ofFile system path
  | none =>
    let path := root.join fileName
    if system.isFile path then ofFile system path else .ok {}

end Config

structure TargetFilter where
  skip : List Pattern.Regex
  includeDeclarations : Bool

namespace TargetFilter

def ofConfig (config : Config) : Except ConfigError TargetFilter := do
  let skip ← config.skip.mapM fun pattern =>
    match Pattern.parse? pattern with
    | some regex => .ok regex
    | none => .error (ConfigError.badPattern pattern)
  return { skip, includeDeclarations := config.includeDeclarations }

def isTarget (filter : TargetFilter) (root path : Path) : Bool :=
  (filter.includeDeclarations || !path.isDeclarationFile) &&
    !(filter.skip.any fun regex => regex.isMatch (path.displayBelow root))

def targets (filter : TargetFilter) (root : Path) (files : List Path) : List Path :=
  files.filter (filter.isTarget root)

end TargetFilter
end DeadExports
