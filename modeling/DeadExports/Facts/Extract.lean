import DeadExports.Facts.Binding
import DeadExports.Facts.Declared
import DeadExports.Source.Module

set_option autoImplicit false

namespace DeadExports

structure Facts where
  imports : List ImportBinding := []
  sideEffects : List String := []
  exports : List ExportBinding := []
  wildcards : List String := []
  occurrences : List (String × Span) := []
  members : List MemberAccess := []
  dynamicImports : List (String × Span) := []
deriving Repr, Inhabited

namespace Tree

def specifier? (source : String) (statement : Tree) : Option String :=
  (statement.childInRole? .source).map (stringValue source)

def specifierImport? (source specifier : String) (tree : Tree) : Option ImportBinding :=
  if tree.kind == .importSpecifier then
    (tree.childInRole? .name).map fun name =>
      let imported := name.bindingName source
      { bound := ((tree.childInRole? .newName).map (text source)).getD imported
        imported := if imported == "default" then .default else .named imported
        specifier
        span := name.span }
  else none

def clauseImports (source specifier : String) (tree : Tree) : List ImportBinding :=
  match tree.kind with
  | .identifier =>
    [{ bound := tree.text source, imported := .default, specifier, span := tree.span }]
  | .namespaceImport =>
    match tree.childOfKind? .identifier with
    | some name =>
      [{ bound := name.text source, imported := .everything, specifier, span := name.span }]
    | none => []
  | .namedImports => tree.children.filterMap (specifierImport? source specifier)
  | _ => []

def importBindings (source : String) (tree : Tree) : List ImportBinding :=
  if tree.kind == .importStatement then
    match tree.specifier? source, tree.childOfKind? .importClause with
    | some specifier, some clause => clause.children.flatMap (clauseImports source specifier)
    | _, _ => []
  else []

def sideEffect? (source : String) (tree : Tree) : Option String :=
  if tree.kind == .importStatement && (tree.childOfKind? .importClause).isNone then
    tree.specifier? source
  else none

structure Specifier where
  node : Tree
  name : Tree
  newName? : Option Tree

def clauseSpecifiers (clause : Tree) : List Specifier :=
  clause.children.filterMap fun child =>
    if child.kind == .exportSpecifier then
      (child.childInRole? .name).map fun name => ⟨child, name, child.childInRole? .newName⟩
    else none

def Specifier.ownName (source : String) (specifier : Specifier) : String :=
  specifier.name.bindingName source

def Specifier.exportedName (source : String) (specifier : Specifier) : String :=
  (specifier.newName?.getD specifier.name).bindingName source

def clauseExports (source : String) (module? : Option String) (clause : Tree) :
    List ExportBinding :=
  clause.clauseSpecifiers.map fun specifier =>
    let name := specifier.ownName source
    { exported := specifier.exportedName source
      origin := match module? with
        | some module => .reexport module name
        | none => .own name
      span := specifier.name.span
      inClause := true }

def namespaceExports (source : String) (module? : Option String) (tree : Tree) :
    List ExportBinding :=
  match tree.namedChildren.getLast?, module? with
  | some name, some module =>
    [{ exported := name.bindingName source, origin := .everything module, span := name.span,
       inClause := false }]
  | _, _ => []

def namesDefault : Kind → Bool
  | .functionDeclaration | .generatorDeclaration | .classDeclaration | .abstractClass
  | .functionExpression | .generatorExpression | .classExpression => true
  | _ => false

def defaultExport (source : String) (word target : Tree) : ExportBinding :=
  let name? := if namesDefault target.kind then target.childInRole? .name else none
  match name? with
  | some name =>
    { exported := "default", origin := .own (name.text source), span := name.span,
      inClause := false }
  | none => { exported := "default", origin := .default, span := word.span, inClause := false }

def exportTarget? (statement : Tree) : Option Tree :=
  (statement.childInRole? .declaration).or (statement.childInRole? .value)

def declarationExports (source : String) (declaration : Tree) : List ExportBinding :=
  (declaration.declaredNames source).map fun (name, span) =>
    { exported := name, origin := .own name, span, inClause := false }

def exportBindings (source : String) (tree : Tree) : List ExportBinding :=
  if tree.kind == .exportStatement then
    let module? := tree.specifier? source
    match tree.childOfKind? .exportClause, tree.childOfKind? .namespaceExport with
    | some clause, _ => clause.clauseExports source module?
    | none, some everything => everything.namespaceExports source module?
    | none, none =>
      if (tree.childOfKind? .star).isSome then []
      else
        match tree.childOfKind? .defaultWord, tree.exportTarget? with
        | some word, some target => [defaultExport source word target]
        | none, some target => target.declarationExports source
        | _, none => []
  else []

def isWildcard (tree : Tree) : Bool :=
  tree.kind == .exportStatement && (tree.childOfKind? .exportClause).isNone &&
    (tree.childOfKind? .namespaceExport).isNone && (tree.childOfKind? .star).isSome

def wildcard? (source : String) (tree : Tree) : Option String :=
  if tree.isWildcard then tree.specifier? source else none

def occurrence? (source : String) (tree : Tree) : Option (String × Span) :=
  if tree.kind.isName then some (tree.text source, tree.span) else none

def memberAt? (source : String) (first second : Role) (tree : Tree) : Option MemberAccess :=
  match tree.childInRole? first, tree.childInRole? second with
  | some left, some right =>
    if left.kind == .identifier then
      some { object := left.text source, property := right.text source, span := right.span }
    else none
  | _, _ => none

def member? (source : String) (tree : Tree) : Option MemberAccess :=
  match tree.kind with
  | .memberExpression => tree.memberAt? source .object .property
  | .nestedTypeIdentifier => tree.memberAt? source .qualifier .name
  | _ => none

def loadsModule (source : String) (callee : Tree) : Bool :=
  callee.kind == .importWord || (callee.kind == .identifier && callee.text source == "require")

def dynamicImport? (source : String) (tree : Tree) : Option (String × Span) :=
  if tree.kind == .callExpression then
    match tree.childInRole? .callee, tree.childInRole? .arguments with
    | some callee, some inputs =>
      if loadsModule source callee then
        (inputs.childOfKind? .string).map fun name => (name.stringValue source, tree.span)
      else none
    | _, _ => none
  else none

end Tree

namespace Facts

def ofTree (source : String) (tree : Tree) : Facts :=
  let nodes := tree.visited
  { imports := nodes.flatMap (Tree.importBindings source)
    sideEffects := nodes.filterMap (Tree.sideEffect? source)
    exports := nodes.flatMap (Tree.exportBindings source)
    wildcards := nodes.filterMap (Tree.wildcard? source)
    occurrences := nodes.filterMap (Tree.occurrence? source)
    members := nodes.filterMap (Tree.member? source)
    dynamicImports := nodes.filterMap (Tree.dynamicImport? source) }

def extract (m : SourceModule) : Facts := ofTree m.text m.tree

def occurrencesOf (facts : Facts) (name : String) : List Span :=
  (facts.occurrences.filter fun occurrence => occurrence.1 == name).map Prod.snd

def importOf? (facts : Facts) (name : String) : Option ImportBinding :=
  facts.imports.find? fun binding => binding.bound == name

def exportsName (facts : Facts) (name : String) : Bool :=
  facts.exports.any fun binding => binding.exported == name

def exportsOwn (facts : Facts) (name : String) : Bool := facts.exports.any (·.isOwn name)

def nameAt? (facts : Facts) (offset : Nat) : Option String :=
  (facts.occurrences.find? fun occurrence => occurrence.2.contains offset).map Prod.fst

def dependencies (facts : Facts) : List (String × LinkKind) :=
  facts.imports.map (fun binding => (binding.specifier, .imports)) ++
    facts.sideEffects.map (fun specifier => (specifier, .imports)) ++
    (facts.exports.filterMap ExportBinding.specifier?).map
    (fun specifier => (specifier, .reexports)) ++
    facts.dynamicImports.map (fun found => (found.1, .imports)) ++
    facts.wildcards.map (fun specifier => (specifier, .wildcard))

end Facts
end DeadExports
