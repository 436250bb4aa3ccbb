import DeadExports.Project.Symbol

set_option autoImplicit false

namespace DeadExports

structure Reference where
  file : Path
  span : Span
deriving Repr

namespace Reference

def compare (a b : Reference) : Ordering := (a.file.compare b.file).then (a.span.compare b.span)

def enter (reference : Reference) : List Reference → List Reference
  | [] => [reference]
  | first :: rest =>
    match reference.compare first with
    | .lt => reference :: first :: rest
    | .eq => first :: rest
    | .gt => first :: enter reference rest

def inOrder (references : List Reference) : List Reference :=
  references.foldl (fun ordered reference => reference.enter ordered) []

end Reference

namespace Project

def referencesIn (file : Path) (spans : List Span) :
    List Reference := spans.map fun span => ⟨file, span⟩

def givesOut (symbol : Symbol) (binding : ExportBinding) : Bool :=
  match symbol with
  | .own _ name => binding.isOwn name
  | .default _ => binding.origin == .default
  | .exported _ name => binding.exported == name

def baseReferences (symbol : Symbol) (facts : Facts) : List Reference :=
  let named := match symbol with
    | .own _ name =>
      facts.occurrencesOf name ++ ((facts.importOf? name).map ImportBinding.span).toList
    | .default _ | .exported _ _ => []
  referencesIn symbol.file (named ++ (facts.exports.filter (givesOut symbol)).map
    ExportBinding.span)

def baseKeys (symbol : Symbol) (facts : Facts) : List ExportKey :=
  (facts.exports.filter (givesOut symbol)).map fun binding => ⟨symbol.file, binding.exported⟩

def importersOf (project : Project) (file : Path) : List Path :=
  ((project.graph.importers file).map Prod.fst).eraseDups

def takes (name : String) (binding : ImportBinding) : Bool := importedName? binding == some name

def bindingsOf (project : Project) (importer : Path) (facts : Facts) (key : ExportKey) :
    List ImportBinding :=
  facts.imports.filter fun binding =>
    project.pointsTo importer binding.specifier key.file && takes key.name binding

def reexportsOf (project : Project) (importer : Path) (facts : Facts) (key : ExportKey) :
    List ExportBinding :=
  facts.exports.filter fun binding =>
    match binding.origin with
    | .reexport specifier imported =>
      imported == key.name && project.pointsTo importer specifier key.file
    | _ => false

def forwardsByWildcard (project : Project) (importer : Path) (facts : Facts) (key : ExportKey) :
    Bool :=
  key.name != "default" && !facts.exportsName key.name &&
    facts.wildcards.any fun specifier => project.pointsTo importer specifier key.file

def bindingSpans (facts : Facts) (binding : ImportBinding) : List Span :=
  binding.span :: facts.occurrencesOf binding.bound ++
    (facts.exports.filter (·.isOwn binding.bound)).map ExportBinding.span

/--
The uses of an export through an import of everything. When the imported object is used other than
by its members, or is given out, nobody can tell which members are used, and the import itself
counts.
-/
def everythingSpans (facts : Facts) (name : String) (binding : ImportBinding) : List Span :=
  let accesses := facts.members.filter fun access => access.object == binding.bound
  let escapes :=
    decide (accesses.length < (facts.occurrencesOf binding.bound).length) ||
      facts.exportsOwn binding.bound
  (if escapes then [binding.span] else []) ++
    (accesses.filter fun access => access.property == name).map MemberAccess.span

def everythingImports (project : Project) (importer : Path) (facts : Facts) (file : Path) :
    List ImportBinding :=
  facts.imports.filter fun binding =>
    binding.imported == .everything && project.pointsTo importer binding.specifier file

def everythingExports (project : Project) (importer : Path) (facts : Facts) (file : Path) :
    List ExportBinding :=
  facts.exports.filter fun binding =>
    match binding.origin with
    | .everything specifier => project.pointsTo importer specifier file
    | _ => false

def usesIn (project : Project) (key : ExportKey) (importer : Path) : List Reference :=
  match project.facts? importer with
  | none => []
  | some facts =>
    let calls := facts.dynamicImports.filter fun found => project.pointsTo importer found.1 key.file
    referencesIn importer
      ((project.bindingsOf importer facts key).flatMap (bindingSpans facts) ++
        (project.everythingImports importer facts key.file).flatMap
          (everythingSpans facts key.name) ++
        (project.reexportsOf importer facts key).map ExportBinding.span ++
        (project.everythingExports importer facts key.file).map ExportBinding.span ++
        calls.map Prod.snd)

def handedOnBy (project : Project) (key : ExportKey) (importer : Path) : List ExportKey :=
  match project.facts? importer with
  | none => []
  | some facts =>
    let own := (project.bindingsOf importer facts key).flatMap fun binding =>
      facts.exports.filter (·.isOwn binding.bound)
    (own ++ project.reexportsOf importer facts key).map
      (fun binding => ⟨importer, binding.exported⟩) ++
      (if project.forwardsByWildcard importer facts key then [⟨importer, key.name⟩] else [])

def usesOf (project : Project) (key : ExportKey) : List Reference :=
  (project.importersOf key.file).flatMap (project.usesIn key)

def handedOn (project : Project) (key : ExportKey) : List ExportKey :=
  (project.importersOf key.file).flatMap (project.handedOnBy key)

def exportCount (project : Project) : Nat :=
  (project.files.entries.flatMap fun (_, entry) => entry.facts.exports).length

def keyBound (project : Project) : Nat := project.files.size * project.exportCount

def reachedKeys (project : Project) (symbol : Symbol) (facts : Facts) : List ExportKey :=
  closure project.handedOn project.keyBound (baseKeys symbol facts)

def referencesTo (project : Project) (symbol : Symbol) : List Reference :=
  match project.facts? symbol.file with
  | none => []
  | some facts =>
    Reference.inOrder
      (baseReferences symbol facts ++ (project.reachedKeys symbol facts).flatMap project.usesOf)

end Project
end DeadExports
