import DeadExports.Config.Basic
import DeadExports.Report.Basic

set_option autoImplicit false

/-!
The arguments of the command line. An option is written `--name value` or `--name=value`, or with
its letter `-n value`, `-nvalue` or `-n=value`; letters of switches may be written together. Nothing
but `--skip` and `-v` may come twice, no other argument is taken, and reading stops where help or
the version is asked for.
-/

namespace DeadExports.CommandLine

structure Arguments where
  project : Option Path := none
  config : Option Path := none
  overrides : Overrides := {}
  check : Bool := false
  format : Option ReportFormat := none
  verbosity : Nat := 0
deriving Repr

inductive Request where
  | help
  | version
  | run (arguments : Arguments)

inductive Valued where
  | project
  | config
  | skip
  | maxRounds
  | format
deriving DecidableEq, Repr

inductive Switch where
  | includeDeclarations
  | deleteFiles
  | cleanup
  | recursive
  | check
  | verbose
  | help
  | version
deriving DecidableEq, Repr

inductive OptionKind where
  | valued (option : Valued)
  | switch (option : Switch)
deriving DecidableEq, Repr

def OptionKind.ofName? : String → Option OptionKind
  | "project" => some (.valued .project)
  | "config" => some (.valued .config)
  | "skip" => some (.valued .skip)
  | "max-rounds" => some (.valued .maxRounds)
  | "format" => some (.valued .format)
  | "include-d-ts" => some (.switch .includeDeclarations)
  | "delete-files" => some (.switch .deleteFiles)
  | "cleanup" => some (.switch .cleanup)
  | "recursive" => some (.switch .recursive)
  | "check" => some (.switch .check)
  | "verbose" => some (.switch .verbose)
  | "help" => some (.switch .help)
  | "version" => some (.switch .version)
  | _ => none

def OptionKind.ofLetter? : Char → Option OptionKind
  | 'p' => some (.valued .project)
  | 'c' => some (.valued .config)
  | 'f' => some (.valued .format)
  | 'r' => some (.switch .recursive)
  | 'v' => some (.switch .verbose)
  | 'h' => some (.switch .help)
  | 'V' => some (.switch .version)
  | _ => none

namespace Arguments

def count? (text : String) : Option Nat := do
  let digits := match text.toList with
    | '+' :: rest => rest
    | chars => chars
  guard (!digits.isEmpty && digits.all Char.isDigit)
  let value ← (String.ofList digits).toNat?
  guard (value < UInt64.size)
  return value

def setValue? (arguments : Arguments) (option : Valued) (value : String) : Option Arguments :=
  match option with
  | .project =>
    if arguments.project.isSome || value.isEmpty then none
    else some { arguments with project := some ⟨value⟩ }
  | .config =>
    if arguments.config.isSome || value.isEmpty then none
    else some { arguments with config := some ⟨value⟩ }
  | .skip => some { arguments with overrides.skip := arguments.overrides.skip ++ [value] }
  | .maxRounds =>
    if arguments.overrides.maxRounds.isSome then none
    else (count? value).map fun rounds => { arguments with overrides.maxRounds := some rounds }
  | .format =>
    if arguments.format.isSome then none
    else match ReportFormat.ofName value with
      | .ok format => some { arguments with format := some format }
      | .error _ => none

end Arguments

inductive Progress where
  | further (arguments : Arguments)
  | settled (request : Request)

def once (isSet : Bool) (arguments : Arguments) : Option Progress :=
  if isSet then none else some (.further arguments)

def Arguments.turnOn? (arguments : Arguments) (switch : Switch) : Option Progress :=
  let overrides := arguments.overrides
  match switch with
  | .includeDeclarations =>
    once overrides.includeDeclarations { arguments with overrides.includeDeclarations := true }
  | .deleteFiles => once overrides.deleteFiles { arguments with overrides.deleteFiles := true }
  | .cleanup => once overrides.cleanup { arguments with overrides.cleanup := true }
  | .recursive => once overrides.recursive { arguments with overrides.recursive := true }
  | .check => once arguments.check { arguments with check := true }
  | .verbose => some (.further { arguments with verbosity := arguments.verbosity + 1 })
  | .help => some (.settled .help)
  | .version => some (.settled .version)

inductive Reading where
  | done (progress : Progress)
  | needs (option : Valued) (arguments : Arguments)

def readLetters (arguments : Arguments) : List Char → Option Reading
  | [] => some (.done (.further arguments))
  | letter :: rest =>
    match OptionKind.ofLetter? letter with
    | none => none
    | some (.switch switch) =>
      match arguments.turnOn? switch with
      | none => none
      | some (.settled request) => some (.done (.settled request))
      | some (.further later) => readLetters later rest
    | some (.valued option) =>
      match rest with
      | [] => some (.needs option arguments)
      | '=' :: value =>
        (arguments.setValue? option (String.ofList value)).map fun later => .done (.further later)
      | value =>
        (arguments.setValue? option (String.ofList value)).map fun later => .done (.further later)

def readName (arguments : Arguments) (text : List Char) : Option Reading :=
  let name := String.ofList (text.takeWhile (· != '='))
  let value? := match text.dropWhile (· != '=') with
    | [] => none
    | _ :: value => some (String.ofList value)
  match OptionKind.ofName? name, value? with
  | some (.switch switch), none => (arguments.turnOn? switch).map .done
  | some (.switch _), some _ => none
  | some (.valued option), none => some (.needs option arguments)
  | some (.valued option), some value =>
    (arguments.setValue? option value).map fun later => .done (.further later)
  | none, _ => none

def readArgument (arguments : Arguments) (argument : String) : Option Reading :=
  match argument.toList with
  | '-' :: '-' :: name => readName arguments name
  | '-' :: letter :: letters => readLetters arguments (letter :: letters)
  | _ => none

def isValue (argument : String) : Bool := !argument.startsWith "-" || argument == "-"

def readAll (arguments : Arguments) : List String → Option Request
  | [] => some (.run arguments)
  | "--" :: rest => if rest.isEmpty then some (.run arguments) else none
  | argument :: rest =>
    match readArgument arguments argument with
    | none => none
    | some (.done (.settled request)) => some request
    | some (.done (.further later)) => readAll later rest
    | some (.needs option later) =>
      match rest with
      | [] => none
      | value :: rest =>
        if isValue value then
          match later.setValue? option value with
          | some later => readAll later rest
          | none => none
        else none

def parse? (arguments : List String) : Option Request := readAll {} arguments

end DeadExports.CommandLine
