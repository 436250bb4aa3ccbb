import DeadExports.Facts.Extract
import DeadExports.Text.Change

set_option autoImplicit false

namespace DeadExports

inductive Fix where
  | unusedDeclarations
  | unusedImports
deriving DecidableEq, Repr

namespace Fix

def label : Fix → String
  | unusedDeclarations => "unused-declarations"
  | unusedImports => "unused-imports"

def isDeletable : Kind → Bool
  | .functionDeclaration | .generatorDeclaration | .classDeclaration | .abstractClass
  | .interfaceDeclaration | .typeAlias | .enumDeclaration | .lexicalDeclaration
  | .variableDeclaration => true
  | _ => false

def isDeadName (facts : Facts) (name : String) : Bool :=
  decide ((facts.occurrencesOf name).length ≤ 1) && !facts.exportsOwn name

def isDeadDeclaration (source : String) (facts : Facts) (statement : Tree) : Bool :=
  let names := statement.declaredNames source
  isDeletable statement.kind && !names.isEmpty && names.all fun (name, _) => isDeadName facts name

def declarationChanges (m : SourceModule) : List Change :=
  let facts := Facts.extract m
  (m.statements.filter (isDeadDeclaration m.text facts)).map fun statement =>
    .delete (Text.lineExtent m.text statement.span)

def isUsedImport (facts : Facts) (name : String) : Bool :=
  !(facts.occurrencesOf name).isEmpty || facts.exportsOwn name

structure ImportPart where
  text : String
  isUsed : Bool

structure ImportParts where
  default : List ImportPart
  everything : List ImportPart
  named : List ImportPart

def partsOf (source : String) (facts : Facts) (clause : Tree) : ImportParts :=
  let children (kind : Kind) := clause.children.filter fun child => child.kind == kind
  let part (name? : Option Tree) (whole : Tree) : ImportPart :=
    { text := whole.text source
      isUsed := (name?.map fun name => isUsedImport facts (name.text source)).getD false }
  { default := (children .identifier).map fun name => part (some name) name
    everything := (children .namespaceImport).map fun whole =>
      part (whole.childOfKind? .identifier) whole
    named := ((children .namedImports).flatMap Tree.children).filterMap fun whole =>
      if whole.kind == .importSpecifier then
        some (part ((whole.childInRole? .newName).or (whole.childInRole? .name)) whole)
      else none }

def usedTexts (parts : List ImportPart) : List String :=
  (parts.filter ImportPart.isUsed).map ImportPart.text

/-- The used part of a form that comes once; of several the last one counts. -/
def usedLast (parts : List ImportPart) : List String := (usedTexts parts).getLast?.toList

def clauseChange? (source : String) (facts : Facts) (statement clause : Tree) : Option Change :=
  let parts := partsOf source facts clause
  let all := parts.default ++ parts.everything ++ parts.named
  if all.all ImportPart.isUsed then none
  else
    let named := usedTexts parts.named
    let braces := if named.isEmpty then [] else ["\x7b " ++ ", ".intercalate named ++ " \x7d"]
    let kept := usedLast parts.default ++ usedLast parts.everything ++ braces
    if kept.isEmpty then some (.delete (Text.lineExtent source statement.span))
    else some ⟨clause.span, ", ".intercalate kept⟩

def importChanges (m : SourceModule) : List Change :=
  let facts := Facts.extract m
  m.statements.filterMap fun statement =>
    if statement.kind == .importStatement then
      (statement.childOfKind? .importClause).bind (clauseChange? m.text facts statement)
    else none

def changes (m : SourceModule) : Fix → List Change
  | unusedDeclarations => declarationChanges m
  | unusedImports => importChanges m

def apply (fix : Fix) (m : SourceModule) : String :=
  (Change.applyAll? m.text (fix.changes m)).getD m.text

end Fix
end DeadExports
