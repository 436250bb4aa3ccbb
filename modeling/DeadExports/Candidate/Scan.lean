import DeadExports.Candidate.Basic
import DeadExports.Facts.Extract

set_option autoImplicit false

/-!
The exports of one file at the level of its statements. Every listed name counts as one export, and
every other export statement as one. An export is a candidate unless a comment right above it
protects it; wildcard and namespace exports, enums, namespaces, ambient declarations, assigned
exports and overloaded functions are never candidates.
-/

namespace DeadExports

def defaultMarker : String := "unexport-skip"

structure Scan where
  candidates : List Candidate := []
  hasWildcard : Bool := false
  exportCount : Nat := 0
  skipped : Nat := 0
deriving Repr

structure Forwarding where
  span : Span
  specifier : String
deriving DecidableEq, Repr

namespace Scan

def isMarked (source marker : String) (earlier : List Tree) (tree : Tree) : Bool :=
  (tree.leadingComments source earlier).any fun comment =>
    Text.mentions (comment.text source) marker

def importedNames (source : String) (statements : List Tree) : List (String × String) :=
  (statements.flatMap (Tree.importBindings source)).map fun binding =>
    (binding.bound, binding.specifier)

def signature? (statement : Tree) : Option Tree :=
  match statement.kind with
  | .functionSignature => some statement
  | .exportStatement =>
    (statement.childInRole? .declaration).filter fun target => target.kind == .functionSignature
  | _ => none

def overloads (source : String) (statements : List Tree) : List String :=
  statements.filterMap fun statement =>
    ((signature? statement).bind (·.childInRole? .name)).map (Tree.text source)

def isOverloaded (source : String) (names : List String) (candidate : Candidate) : Bool :=
  candidate.kind == .function &&
    candidate.identifiers.any fun span =>
      match Text.slice? source span.start span.stop with
      | some name => names.contains name
      | none => false

def clauseOf (tree : Tree) : Clause :=
  { span := tree.span
    specifiers := tree.clauseSpecifiers.map fun specifier => specifier.node.span
    commas := (tree.children.filter fun child => child.kind == .comma).map Tree.span }

def exportWord? (statement : Tree) :
    Option Span := (statement.childOfKind? .exportWord).map Tree.span

def specifierCandidate (source : String) (imported : List (String × String))
    (statement clause : Tree) (specifier : Tree.Specifier) : Candidate :=
  let name := specifier.ownName source
  { kind := .specifier
    names := [specifier.exportedName source]
    identifiers := [specifier.name.span]
    statement := statement.span
    exportWord := exportWord? statement
    node := specifier.node.span
    specifier := (statement.specifier? source).or ((imported.find? (·.1 == name)).map Prod.snd)
    clause := some (clauseOf clause) }

def specifierCandidates (source : String) (imported : List (String × String))
    (statement clause : Tree) : List Candidate :=
  clause.clauseSpecifiers.map (specifierCandidate source imported statement clause)

def kindOf? (isDefault : Bool) (target : Tree) : Option CandidateKind :=
  match target.kind, isDefault with
  | .functionDeclaration, _ | .generatorDeclaration, _ => some .function
  | .classDeclaration, _ | .abstractClass, _ => some .classLike
  | .lexicalDeclaration, false | .variableDeclaration, false => some .variableList
  | .interfaceDeclaration, false => some .interface
  | .typeAlias, false => some .typeAlias
  | .functionExpression, true | .generatorExpression, true =>
    if (target.childInRole? .name).isSome then some .function else some .defaultValue
  | .classExpression, true =>
    if (target.childInRole? .name).isSome then some .classLike else some .defaultValue
  | _, true => some .defaultValue
  | _, false => none

def namesOf? (source : String) (kind : CandidateKind) (defaultWord? : Option Tree) (target : Tree) :
    Option (List String × List Span) :=
  match kind, defaultWord? with
  | .defaultValue, some word => some (["default"], [word.span])
  | _, some _ => (target.childInRole? .name).map fun name => (["default"], [name.span])
  | _, none =>
    let names := target.declaredNames source
    if names.isEmpty then none else some names.unzip

def declarationCandidate? (source : String) (statement : Tree) : Option Candidate := do
  let word? := statement.childOfKind? .defaultWord
  let target ← statement.exportTarget?
  let kind ← kindOf? word?.isSome target
  let (names, identifiers) ← namesOf? source kind word? target
  return {
    kind, names, identifiers
    statement := statement.span
    exportWord := exportWord? statement
    node := target.span
    specifier := none
    clause := none }

def count (scan : Scan) (isSkipped : Bool) (candidate : Candidate) : Scan :=
  if isSkipped then { scan with skipped := scan.skipped + 1 }
  else { scan with candidates := scan.candidates ++ [candidate] }

def addClause (source marker : String) (imported : List (String × String)) (isSkipped : Bool)
    (statement clause : Tree) (scan : Scan) : Scan :=
  (specifierCandidates source imported statement clause).foldl
    (fun scan candidate =>
      let marked := (Tree.withEarlier clause.namedChildren).any fun (earlier, node) =>
        node.kind == .exportSpecifier && node.span == candidate.node &&
          isMarked source marker earlier node
      { scan with exportCount := scan.exportCount + 1 }.count (isSkipped || marked) candidate)
    scan

def addStatement (source : String) (overloaded : List String) (isSkipped : Bool) (statement : Tree)
    (scan : Scan) : Scan :=
  let counted := { scan with
    hasWildcard := scan.hasWildcard || statement.isWildcard
    exportCount := scan.exportCount + 1 }
  match declarationCandidate? source statement with
  | some candidate =>
    if isOverloaded source overloaded candidate then counted else counted.count isSkipped candidate
  | none => counted

def ofStatements (source marker : String) (statements : List Tree) : Scan :=
  let imported := importedNames source statements
  let overloaded := overloads source statements
  (Tree.withEarlier statements).foldl
    (fun scan (earlier, statement) =>
      if statement.kind == .exportStatement then
        let isSkipped := isMarked source marker earlier statement
        match statement.childOfKind? .exportClause with
        | some clause => scan.addClause source marker imported isSkipped statement clause
        | none => scan.addStatement source overloaded isSkipped statement
      else scan)
    {}

end Scan

namespace SourceModule

def scan (m : SourceModule) (marker : String) : Scan := Scan.ofStatements m.text marker m.statements

def forwardings (m : SourceModule) : List Forwarding :=
  let imported := Scan.importedNames m.text m.statements
  m.statements.flatMap fun statement =>
    match statement.kind, statement.childOfKind? .exportClause with
    | .exportStatement, some clause =>
      (Scan.specifierCandidates m.text imported statement clause).filterMap fun candidate =>
        match candidate.specifier, candidate.identifiers with
        | some specifier, span :: _ => some { span, specifier }
        | _, _ => none
    | _, _ => []

end SourceModule
end DeadExports
