import DeadExports.CommandLine.Arguments
import DeadExports.Config.Basic
import DeadExports.Prune.Run
import DeadExports.Report.Render
import DeadExports.Store.Disk

set_option autoImplicit false

namespace DeadExports.CommandLine

inductive ExitCode where
  | success
  | failure
  | unusable
deriving DecidableEq, Repr

namespace ExitCode

def toNat : ExitCode → Nat
  | success => 0
  | failure => 1
  | unusable => 2

end ExitCode

structure Result where
  exit : ExitCode
  output : String := ""
  complaint : String := ""
  system : FileSystem

def versionText : String := "unexport 0.1.0\n"

def helpLines : List String := [
  "Remove exports that nothing outside their own file uses",
  "",
  "Usage: unexport [OPTIONS]",
  "",
  "Options:",
  "  -p, --project <PROJECT>  Project root (defaults to current directory) [default: .]",
  "  -c, --config <CONFIG>    Config file (defaults to unexport.toml in the project root)",
  "      --skip <REGEX>       Regex on root-relative paths of files to leave alone (repeatable)",
  "      --include-d-ts       Also prune .d.ts files",
  "      --delete-files       Delete files whose exports are all unused",
  "      --cleanup            Remove declarations and imports left unused after pruning",
  "  -r, --recursive          Repeat the run until nothing changes",
  "      --max-rounds <N>     Maximum rounds with --recursive",
  "      --check              Report what would change without writing anything",
  "  -f, --format <FORMAT>    Report format: human or json [default: human]",
  "  -v, --verbose...         Increase log verbosity (-v info, -vv debug, -vvv trace)",
  "  -h, --help               Print help",
  "  -V, --version            Print version"]

def helpText : String := String.join (helpLines.map (· ++ "\n"))

structure Pruned (σ : Type) where
  summary : RunSummary
  edits : List FileEdits
  store : σ

def prune {σ : Type} [FileStore σ] (store : σ) (targets : List Path) (options : PruneOptions) :
    Pruned σ :=
  let space : Workspace Project σ := { service := Project.empty, store }
  let (summary, after) := space.run options targets
  { summary, edits := (Recording.empty.observeAll after.events).edited, store := after.store }

def execute (system : FileSystem) (folder : Path) (arguments : Arguments) :
    Except String Result := do
  let located (path : Path) : Path := folder.join path.spelling
  let root ← (system.canonical (located (arguments.project.getD ⟨"."⟩))).mapError StoreError.message
  let loaded ← (Config.load system root (arguments.config.map located)).mapError ConfigError.message
  let config := loaded.override arguments.overrides
  let filter ← (TargetFilter.ofConfig config).mapError ConfigError.message
  let conclude (summary : RunSummary) (edits : List FileEdits) (system : FileSystem) : Result :=
    let report := Report.ofRun root arguments.check summary edits
    let isFailure := !report.failures.isEmpty || (arguments.check && report.hasChanges)
    { exit := if isFailure then .failure else .success
      output := report.render (arguments.format.getD .human)
      system }
  if arguments.check then
    let store ← (MemoryStore.snapshot system root).mapError StoreError.message
    let done := prune store (filter.targets root (FileStore.files store)) config.pruneOptions
    return conclude done.summary done.edits system
  else
    let store ← (DiskStore.start system root).mapError StoreError.message
    let done := prune store (filter.targets root (FileStore.files store)) config.pruneOptions
    return conclude done.summary done.edits done.store.system

def run (system : FileSystem) (folder : Path) (arguments : List String) : Result :=
  match parse? arguments with
  | none => { exit := .unusable, complaint := "error: invalid arguments", system }
  | some .help => { exit := .success, output := helpText, system }
  | some .version => { exit := .success, output := versionText, system }
  | some (.run arguments) =>
    match execute system folder arguments with
    | .ok result => result
    | .error reason => { exit := .unusable, complaint := "Error: " ++ reason, system }

end DeadExports.CommandLine
