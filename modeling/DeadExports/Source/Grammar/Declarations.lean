import DeadExports.Source.Grammar.Expressions

set_option autoImplicit false

namespace DeadExports.Source.Grammar

open Parse

def declarator (g : Grammar) : Parse Tree :=
  node .variableDeclarator do
    let target ← anyBinding g
    if ← isTyped then
      let _ ← accept "!"
    let annotation ← optionalAnnotation g
    let value ← if ← accept "=" then pure [(← anyAssignment g).inRole .value] else pure []
    return target.inRole .name :: annotation ++ value

def declarators (g : Grammar) : Parse (List Tree) := do
  let first ← declarator g
  let rest ← many do
    if ← accept "," then return some (← declarator g) else return none
  return first :: rest

def endsInValue (found : List Tree) : Bool :=
  match found.getLast? with
  | some last => (last.childInRole? .value).isSome
  | none => false

def variableKind (word : String) : Kind :=
  if word == "var" then .variableDeclaration else .lexicalDeclaration

def variableList (g : Grammar) : Parse Tree := do
  let token ← take
  let found ← declarators g
  statementEnd { isExpression := endsInValue found }
  closeNode (variableKind token.text) token.span.start found

def functionDeclaration (g : Grammar) : Parse Tree := do
  let head ← functionHead
  let name ← identifier
  let inputs ← signature g
  let children := name.inRole .name :: inputs
  if ← nextIs "\x7b" then
    let body ← block g
    optionalEnd {}
    closeNode (if head.isGenerator then .generatorDeclaration else .functionDeclaration) head.start
      (children ++ [body])
  else
    guard (← isTyped)
    statementEnd { isSignature := true }
    closeNode .functionSignature head.start children

def classDeclaration (g : Grammar) (first : Nat) (marks : List Tree) : Parse Tree := do
  let isAbstract ← if ← isTyped then accept "abstract" else pure false
  let _ ← expect "class"
  guard (← namesClass)
  if isAbstract then classRest g .abstractClass first marks
  else
    let found ← classRest g .classDeclaration first marks
    optionalEnd {}
    closeNode .classDeclaration first found.children

def interfaceDeclaration (g : Grammar) : Parse Tree :=
  node .interfaceDeclaration do
    let _ ← expect "interface"
    let name ← className
    let generics ← optionalTypeParameters g
    let bases ←
      if ← accept "extends" then
        many do
          if ← nextIs "\x7b" then return none
          else
            let base ← anyType g
            if !(← nextIs "\x7b") then
              let _ ← expect ","
            return some base
      else pure []
    let members ← typeMembers g
    return name.inRole .name :: generics ++ bases ++ [members]

def typeAlias (g : Grammar) : Parse Tree :=
  node .typeAlias do
    let _ ← expect "type"
    guard !(← peek).onNewLine
    let name ← className
    let generics ← optionalTypeParameters g
    let _ ← expect "="
    let value ← anyType g
    statementEnd {}
    return name.inRole .name :: generics ++ [value]

def enumMember (g : Grammar) : Parse Tree :=
  node .group do
    let key ← memberKey g
    if ← accept "=" then return [key, ← g.assignment] else return [key]

def enumDeclaration (g : Grammar) : Parse Tree :=
  node .enumDeclaration do
    let _ ← accept "const"
    let _ ← expect "enum"
    let name ← identifier
    let _ ← expect "\x7b"
    let members ← inBrackets (separated "\x7d" (enumMember g))
    return name.inRole .name :: members

def dottedName : Parse Tree := do
  let first ← identifier
  repeatFrom first fun object => do
    if ← accept "." then
      let property ← memberName
      let chain ← closeNode .nestedIdentifier object.span.start
        [object.inRole .object, property.inRole .property]
      return some chain
    else return none

def namespaceDeclaration (g : Grammar) : Parse Tree :=
  node .namespaceDeclaration do
    let word ← take
    guard (word.text == "namespace" || word.text == "module")
    let next ← peek
    guard !next.onNewLine
    let name ← if next.shape == .string then leaf .string else dottedName
    if ← nextIs "\x7b" then return [name.inRole .name, ← block g]
    else
      guard (next.shape == .string)
      return [name.inRole .name]

def importAlias : Parse Tree :=
  node .importAlias do
    let _ ← expect "import"
    let name ← identifier
    let _ ← expect "="
    guard !(← wouldAccept do
      let _ ← expect "require"
      expect "(")
    let target ← dottedName
    statementEnd {}
    return [name, target]

def plainDeclaration (g : Grammar) : Parse Tree := do
  let token ← peek
  if ← startsFunction then functionDeclaration g
  else if token.text == "@" then
    let marks ← decorators g
    classDeclaration g token.span.start marks
  else if token.text == "class" then classDeclaration g token.span.start []
  else
    let typed ← isTyped
    let second ← peekSecond
    match token.text with
    | "const" => if typed && second.text == "enum" then enumDeclaration g else variableList g
    | "let" | "var" => variableList g
    | "abstract" => classDeclaration g token.span.start []
    | "interface" =>
      guard typed
      interfaceDeclaration g
    | "type" =>
      guard typed
      typeAlias g
    | "enum" =>
      guard typed
      enumDeclaration g
    | "namespace" | "module" =>
      guard typed
      namespaceDeclaration g
    | "import" =>
      guard typed
      importAlias
    | _ => refuse

def ambientDeclaration (g : Grammar) : Parse Tree :=
  node .ambientDeclaration do
    guard (← isTyped)
    let _ ← expect "declare"
    guard !(← peek).onNewLine
    if ← nextIs "global" then
      let _ ← take
      return [← block g]
    else return [← plainDeclaration g]

def declaration (g : Grammar) : Parse Tree := do
  if ← nextIs "declare" then ambientDeclaration g else plainDeclaration g

end DeadExports.Source.Grammar
