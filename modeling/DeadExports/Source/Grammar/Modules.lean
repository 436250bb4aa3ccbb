import DeadExports.Source.Grammar.Declarations

set_option autoImplicit false

namespace DeadExports.Source.Grammar

open Parse

def gapComments (text : String) (offset : Nat) : List Tree :=
  (gapAt text offset).comments.map (Tree.leaf .comment)

def withComments (text : String) : Nat → List Tree → List Tree
  | offset, [] => gapComments text offset
  | offset, tree :: rest => gapComments text offset ++ tree :: withComments text tree.span.stop rest

def moduleSource : Parse Tree := do
  guard ((← peek).shape == .string)
  return (← leaf .string).inRole .source

def fromClause : Parse Tree := do
  let _ ← expect "from"
  moduleSource

def importAttributes (g : Grammar) : Parse Unit := do
  if (← nextIsOneOf ["with", "assert"]) && (← peekSecond).text == "\x7b" then
    let _ ← take
    let _ ← objectLiteral g

def listedName : Parse Tree := do
  match (← peek).shape with
  | .word => leaf .identifier
  | .string => leaf .string
  | _ => refuse

def skipTypeWord : Parse Unit := do
  if (← isTyped) && (← nextIsOneOf ["type", "typeof"]) then
    let second ← peekSecond
    if (second.isWord && second.text != "as") || second.shape == .string then
      let _ ← take

def exportSpecifier : Parse Tree :=
  node .exportSpecifier do
    skipTypeWord
    let name ← listedName
    if ← accept "as" then
      let newName ← listedName
      return [name.inRole .name, newName.inRole .newName]
    else return [name.inRole .name]

def importSpecifier : Parse Tree :=
  node .importSpecifier do
    skipTypeWord
    let name ← listedName
    if ← accept "as" then
      let newName ← identifier
      return [name.inRole .name, newName.inRole .newName]
    else
      guard (name.kind == .identifier)
      return [name.inRole .name]

def specifierList (kind : Kind) (specifier : Parse Tree) : Parse Tree := do
  let opening ← expect "\x7b"
  let found ← many do
    if ← nextIs "\x7d" then return none
    let entry ← specifier
    if ← nextIs "\x7d" then return some [entry]
    else
      guard (← nextIs ",")
      return some [entry, ← leaf .comma]
  let _ ← expect "\x7d"
  closeNode kind opening.span.start
    (withComments (← setting).text opening.span.stop found.flatten)

def namespaceImport : Parse Tree :=
  node .namespaceImport do
    let _ ← expect "*"
    let _ ← expect "as"
    return [← identifier]

def importClause : Parse Tree :=
  let group : Parse Tree := do
    if ← nextIs "*" then namespaceImport else specifierList .namedImports importSpecifier
  node .importClause do
    if ← nextIsOneOf ["*", "\x7b"] then return [← group]
    else
      let default ← identifier
      if ← accept "," then return [default, ← group] else return [default]

def skipImportType : Parse Unit := do
  if (← isTyped) && (← nextIsOneOf ["type", "typeof"]) then
    let second ← peekSecond
    let bindsFrom : Parse Bool := wouldAccept do
      let _ ← take
      let _ ← expect "from"
      expect "from"
    let opens := second.text == "\x7b" || second.text == "*" ||
      (second.isWord && second.text != "from")
    if opens || (← bindsFrom) then
      let _ ← take

def importRequire : Parse Tree :=
  node .importStatement do
    guard (← isTyped)
    let _ ← expect "import"
    skipImportType
    let _ ← identifier
    let _ ← expect "="
    let _ ← expect "require"
    let _ ← expect "("
    let _ ← expectShape .string
    let _ ← expect ")"
    statementEnd {}
    return []

def plainImport (g : Grammar) : Parse Tree :=
  node .importStatement do
    let _ ← expect "import"
    if (← peek).shape == .string then
      let source ← moduleSource
      importAttributes g
      statementEnd {}
      return [source]
    else
      skipImportType
      let clause ← importClause
      let source ← fromClause
      importAttributes g
      statementEnd {}
      return [clause, source]

def importStatement (g : Grammar) : Parse Tree := do
  if ← isTyped then importRequire <|> importAlias <|> plainImport g else plainImport g

def namespaceExport : Parse Tree :=
  node .namespaceExport do
    let mark ← leaf .star
    let _ ← expect "as"
    return [mark, ← listedName]

def exportAll (g : Grammar) : Parse (List Tree) := do
  let what ← if (← peekSecond).text == "as" then namespaceExport else leaf .star
  let source ← fromClause
  importAttributes g
  statementEnd {}
  return [what, source]

def exportList (g : Grammar) : Parse (List Tree) := do
  let clause ← specifierList .exportClause exportSpecifier
  if ← nextIs "from" then
    let source ← fromClause
    importAttributes g
    statementEnd {}
    return [clause, source]
  else
    statementEnd {}
    return [clause]

def exportDefault (g : Grammar) : Parse (List Tree) := do
  let word ← leaf .defaultWord
  match ← attempt (declaration g) with
  | some found => return [word, found.inRole .declaration]
  | none =>
    let value ← anyAssignment g
    statementEnd { isExpression := true }
    return [word, value.inRole .value]

def typedExport (g : Grammar) : Parse (List Tree) := do
  guard (← isTyped)
  let second ← peekSecond
  match (← peek).text with
  | "type" =>
    guard (second.text == "\x7b")
    let _ ← take
    exportList g
  | "=" =>
    let _ ← take
    let value ← anyExpression g
    statementEnd { isExpression := true }
    return [value]
  | "as" =>
    guard (second.text == "namespace")
    let _ ← take
    let _ ← take
    let name ← identifier
    statementEnd {}
    return [name]
  | "import" => return [← importRequire <|> importAlias]
  | _ => refuse

def exported (g : Grammar) : Parse (List Tree) := do
  match (← peek).text with
  | "*" => exportAll g
  | "\x7b" => exportList g
  | "default" => exportDefault g
  | _ =>
    match ← attempt (typedExport g) with
    | some found => return found
    | none => return [(← declaration g).inRole .declaration]

def exportName : Parse Tree := do
  let first ← start
  let _ ← expect "export"
  let name := Tree.leaf .identifier ⟨first, ← position⟩
  automaticEnd { isExpression := true }
  closeNode .statement first [name]

def exportStatement (g : Grammar) (first : Nat) (marks : List Tree) : Parse Tree := do
  guard (← nextIs "export")
  let word ← leaf .exportWord
  let what ← exported g
  closeNode .exportStatement first (marks ++ word :: what)

end DeadExports.Source.Grammar
