import DeadExports.Project.Index

set_option autoImplicit false

namespace DeadExports

inductive Symbol where
  | own (file : Path) (name : String)
  | default (file : Path)
  | exported (file : Path) (name : String)
deriving Repr

namespace Symbol

def file : Symbol → Path
  | own file _ | default file | exported file _ => file

end Symbol

structure ExportKey where
  file : Path
  name : String
deriving Repr

instance : BEq ExportKey where
  beq a b := a.file == b.file && a.name == b.name

namespace Project

abbrev Lookup := ExportKey → List ExportKey → Option Symbol × List ExportKey

def importedName? (binding : ImportBinding) : Option String :=
  match binding.imported with
  | .named name => some name
  | .default => some "default"
  | .everything => none

def importKey? (project : Project) (file : Path) (binding : ImportBinding) : Option ExportKey := do
  let name ← importedName? binding
  let target ← project.target? file binding.specifier
  return ⟨target, name⟩

def importSymbol (project : Project) (lookup : Lookup) (file : Path) (binding : ImportBinding)
    (passed : List ExportKey) : Symbol × List ExportKey :=
  match project.importKey? file binding with
  | none => (.own file binding.bound, passed)
  | some key =>
    match lookup key passed with
    | (some symbol, later) => (symbol, later)
    | (none, later) => (.own file binding.bound, later)

def ownSymbol (project : Project) (lookup : Lookup) (file : Path) (name : String)
    (passed : List ExportKey) : Symbol × List ExportKey :=
  match (project.facts? file).bind (·.importOf? name) with
  | some binding => project.importSymbol lookup file binding passed
  | none => (.own file name, passed)

def originSymbol (project : Project) (lookup : Lookup) (file : Path) (name : String)
    (origin : ExportOrigin) (passed : List ExportKey) : Symbol × List ExportKey :=
  match origin with
  | .own own => project.ownSymbol lookup file own passed
  | .default => (.default file, passed)
  | .everything _ => (.exported file name, passed)
  | .reexport specifier imported =>
    match project.target? file specifier with
    | none => (.exported file name, passed)
    | some target =>
      match lookup ⟨target, imported⟩ passed with
      | (some symbol, later) => (symbol, later)
      | (none, later) => (.exported file name, later)

def firstSymbol (lookup : Lookup) : List ExportKey → List ExportKey → Option Symbol × List ExportKey
  | [], passed => (none, passed)
  | key :: rest, passed =>
    match lookup key passed with
    | (some symbol, later) => (some symbol, later)
    | (none, later) => firstSymbol lookup rest later

def wildcardKeys (project : Project) (file : Path) (facts : Facts) (name : String) :
    List ExportKey :=
  facts.wildcards.filterMap fun specifier =>
    (project.target? file specifier).map fun target => ⟨target, name⟩

def resolveExport (project : Project) : Nat → Lookup
  | 0, _, passed => (none, passed)
  | steps + 1, key, passed =>
    if passed.contains key then (none, passed)
    else
      let now := key :: passed
      match project.facts? key.file with
      | none => (none, now)
      | some facts =>
        match facts.exports.find? fun binding => binding.exported == key.name with
        | some binding =>
          let (symbol, later) :=
            project.originSymbol (resolveExport project steps) key.file key.name binding.origin now
          (some symbol, later)
        | none =>
          if key.name == "default" then (none, now)
          else
            firstSymbol (resolveExport project steps)
              (project.wildcardKeys key.file facts key.name) now

def bindingCount (project : Project) : Nat :=
  (project.files.entries.flatMap fun (_, entry) => entry.facts.imports).length +
    (project.files.entries.flatMap fun (_, entry) => entry.facts.exports).length

def chainBound (project : Project) : Nat :=
  (project.files.size + 1) * (project.bindingCount + 2) + 1

def lookup (project : Project) : Lookup := project.resolveExport project.chainBound

def symbolAt (project : Project) (file : Path) (position : Nat) : Except AnalysisError Symbol :=
  match project.facts? file with
  | none => .error (.notInProject file)
  | some facts =>
    match facts.exports.find? fun binding => binding.span.contains position with
    | some binding =>
      .ok (project.originSymbol project.lookup file binding.exported binding.origin []).1
    | none =>
      match facts.imports.find? fun binding => binding.span.contains position with
      | some binding => .ok (project.importSymbol project.lookup file binding []).1
      | none =>
        match facts.nameAt? position with
        | some name => .ok (project.ownSymbol project.lookup file name []).1
        | none => .error (.noSymbol file position)

end Project
end DeadExports
