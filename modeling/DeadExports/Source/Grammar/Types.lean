import DeadExports.Source.Grammar.Basic

set_option autoImplicit false

namespace DeadExports.Source.Grammar

open Parse

def builtinTypes : List String :=
  ["any", "number", "boolean", "string", "symbol", "void", "unknown", "never", "object"]

def literalTypes : List String := ["true", "false", "null", "undefined", "this", "const"]

def typeArguments (g : Grammar) : Parse Tree :=
  node .group do
    let _ ← expect "<"
    let types ← inBrackets do
      many do
        let token ← peek
        if token.shape == .mark && token.text.startsWith ">" then return none
        let item ← g.typeTerm
        if !((← peek).text.startsWith ">") then
          let _ ← expect ","
        return some item
    closeAngle
    return types

def optionalTypeArguments (g : Grammar) : Parse (List Tree) := do
  if ← nextIs "<" then return [← typeArguments g] else return []

def typeParameter (g : Grammar) : Parse Tree :=
  node .group do
    let _ ← many do
      let second ← peekSecond
      if (← nextIsOneOf ["const", "in", "out"]) && second.isWord && second.text != "extends" then
        return some (← take)
      else return none
    guard (← peek).isWord
    let name ← leaf .typeIdentifier
    let bound ← if ← accept "extends" then pure [← g.typeTerm] else pure []
    let default ← if ← accept "=" then pure [← g.typeTerm] else pure []
    return name :: bound ++ default

def typeParameters (g : Grammar) : Parse Tree :=
  node .group do
    let _ ← expect "<"
    let parameters ← inBrackets do
      many do
        if (← peek).text.startsWith ">" then return none
        let item ← typeParameter g
        if !((← peek).text.startsWith ">") then
          let _ ← expect ","
        return some item
    closeAngle
    return parameters

def optionalTypeParameters (g : Grammar) : Parse (List Tree) := do
  if (← isTyped) && (← nextIs "<") then return [← typeParameters g] else return []

def optionalAnnotation (g : Grammar) : Parse (List Tree) := do
  if ← acceptTyped ":" then return [← g.typeTerm] else return []

def typePredicate (g : Grammar) : Parse Tree :=
  node .group do
    let subject : Parse Tree := do
      let token ← peek
      guard token.isWord
      if token.text == "this" then leaf .literal else leaf .identifier
    let asserted : Parse (List Tree) := do
      let _ ← expect "asserts"
      guard !(← peek).onNewLine
      let name ← subject
      if ← accept "is" then return [name, ← g.typeTerm] else return [name]
    let plain : Parse (List Tree) := do
      let name ← subject
      guard !(← peek).onNewLine
      let _ ← expect "is"
      return [name, ← g.typeTerm]
    asserted <|> plain

def returnType (g : Grammar) : Parse Tree := typePredicate g <|> g.typeTerm

def optionalReturnType (g : Grammar) : Parse (List Tree) := do
  if ← acceptTyped ":" then return [← returnType g] else return []

def decorator (g : Grammar) : Parse Tree :=
  node .group do
    let _ ← expect "@"
    if ← nextIs "(" then return [← parenthesized g]
    let callee ← memberChain (← identifier)
    let generics ← optionalTypeArguments g
    if ← nextIs "(" then
      let inputs ← callArguments g
      let call ← closeNode .callExpression callee.span.start
        (callee.inRole .callee :: generics ++ [inputs.inRole .arguments])
      return [call]
    else return callee :: generics

def decorators (g : Grammar) : Parse (List Tree) :=
  many do
    if ← nextIs "@" then return some (← decorator g) else return none

def parameterModifiers : List String := ["public", "private", "protected", "override", "readonly"]

def skipParameterModifiers : Parse Unit := do
  if ← isTyped then
    let _ ← many do
      let second ← peekSecond
      let opens := second.isWord || second.text == "\x7b" || second.text == "["
      if (← nextIsOneOf parameterModifiers) && opens then return some (← take)
      else return none

def parameter (g : Grammar) : Parse Tree :=
  node .group do
    let marks ← decorators g
    skipParameterModifiers
    let target ←
      if ← nextIs "..." then
        node .restPattern do
          let _ ← take
          return [← g.binding]
      else if ← nextIs "this" then leaf .literal
      else g.binding
    let typed ← isTyped
    if typed then
      let _ ← accept "?"
    let annotation ← optionalAnnotation g
    let default ← if ← accept "=" then pure [← g.assignment] else pure []
    return marks ++ target :: annotation ++ default

def parameters (g : Grammar) : Parse Tree :=
  node .group do
    let _ ← expect "("
    inBrackets (separated ")" (parameter g))

def signature (g : Grammar) : Parse (List Tree) := do
  let generics ← optionalTypeParameters g
  let inputs ← parameters g
  let output ← optionalReturnType g
  return generics ++ inputs :: output

def functionType (g : Grammar) : Parse Tree :=
  node .group do
    let _ ← accept "abstract"
    let _ ← accept "new"
    let generics ← optionalTypeParameters g
    let inputs ← parameters g
    let _ ← expect "=>"
    return generics ++ [inputs, ← returnType g]

def mappedMember (g : Grammar) : Parse Tree :=
  node .group do
    let _ ← accept "+"
    let _ ← accept "-"
    let _ ← accept "readonly"
    let _ ← expect "["
    guard (← peek).isWord
    let key ← leaf .typeIdentifier
    let _ ← expect "in"
    let range ← g.typeTerm
    let renamed ← if ← accept "as" then pure [← g.typeTerm] else pure []
    let _ ← expect "]"
    let _ ← accept "+"
    let _ ← accept "-"
    let _ ← accept "?"
    let annotation ← optionalAnnotation g
    return key :: range :: renamed ++ annotation

def indexSignature (g : Grammar) : Parse Tree :=
  node .group do
    let _ ← expect "["
    let key ← identifier
    let _ ← expect ":"
    let range ← inBrackets g.typeTerm
    let _ ← expect "]"
    return key :: range :: (← optionalReturnType g)

def skipWordsBeforeKey (words : List String) : Parse Unit := do
  let _ ← many do
    let second ← peekSecond
    if (← nextIsOneOf words) && startsKey second then return some (← take)
    else return none

def keyedMember (g : Grammar) : Parse Tree :=
  node .group do
    skipWordsBeforeKey ["readonly", "get", "set", "static", "public", "private", "protected",
      "override", "async", "accessor"]
    let key ← memberKey g
    let _ ← accept "?"
    if ← nextIsOneOf ["(", "<"] then return key :: (← signature g)
    else return key :: (← optionalAnnotation g)

def typeMember (g : Grammar) : Parse Tree :=
  let indexed : Parse Tree := do
    let _ ← many do
      if (← nextIsOneOf ["readonly", "static"]) && (← peekSecond).text == "[" then
        return some (← take)
      else return none
    indexSignature g
  let called : Parse Tree := node .group do
    if (← nextIs "new") && ["(", "<"].contains (← peekSecond).text then
      let _ ← take
    signature g
  mappedMember g <|> indexed <|> called <|> keyedMember g

def typeMembers (g : Grammar) : Parse Tree :=
  node .group do
    let _ ← expect "\x7b"
    let members ← inBrackets do
      many do
        if ← nextIs "\x7d" then return none
        else if ← nextIsOneOf [",", ";"] then return some (← leaf .group)
        else
          let member ← typeMember g
          let next ← peek
          guard (next.onNewLine || [",", ";", "\x7d"].contains next.text)
          return some member
    let _ ← expect "\x7d"
    return members.filter fun member => !member.children.isEmpty

def tupleItem (g : Grammar) : Parse Tree :=
  node .group do
    let _ ← accept "..."
    let named : Parse (List Tree) := do
      guard (← peek).isWord
      let name ← leaf .identifier
      let _ ← accept "?"
      let _ ← expect ":"
      return [name, ← g.typeTerm]
    let plain : Parse (List Tree) := do
      let item ← g.typeTerm
      let _ ← accept "?"
      return [item]
    named <|> plain

def importCall (g : Grammar) : Parse Tree :=
  node .callExpression do
    guard (← nextIs "import")
    let callee ← leaf .importWord
    let inputs ← callArguments g
    return [callee.inRole .callee, inputs.inRole .arguments]

def typeQuery (g : Grammar) : Parse Tree :=
  node .group do
    let _ ← expect "typeof"
    let first ←
      if ← nextIs "import" then importCall g
      else if ← nextIs "this" then leaf .literal
      else identifier
    let value ← memberChain first
    let inputs ← if (← peek).onNewLine then pure [] else optionalTypeArguments g
    return value :: inputs

def typeName : Parse Tree := do
  guard (← peek).isWord
  let first ← peek
  let path ← many do
    let token ← peek
    if token.isWord && (← peekSecond).text == "." then
      let _ ← take
      let _ ← take
      return some token.span
    else return none
  guard (← peek).isWord
  let name ← leaf .typeIdentifier
  match path with
  | [] => return name
  | head :: rest =>
    let object := rest.foldl
      (fun (object : Tree) (part : Span) =>
        .branch .nestedIdentifier ⟨head.start, part.stop⟩
          [object.inRole .object, (Tree.leaf .propertyIdentifier part).inRole .property])
      (Tree.leaf .identifier head)
    closeNode .nestedTypeIdentifier first.span.start
      [object.inRole .qualifier, name.inRole .name]

def primaryType (g : Grammar) : Parse Tree := do
  let token ← peek
  match token.shape with
  | .string => leaf .string
  | .number => leaf .literal
  | .template => template g.typeTerm
  | .word =>
    if token.text == "typeof" then typeQuery g
    else if token.text == "import" then
      node .group do
        let value ← memberChain (← importCall g)
        return value :: (← optionalTypeArguments g)
    else if token.text == "unique" && (← peekSecond).text == "symbol" then
      let _ ← take
      leaf .literal
    else if literalTypes.contains token.text then leaf .literal
    else if builtinTypes.contains token.text && (← peekSecond).text != "." then leaf .literal
    else
      guard (token.isVariable || token.text == "yield")
      node .group do
        let name ← typeName
        return name :: (← optionalTypeArguments g)
  | _ =>
    match token.text with
    | "(" =>
      node .group do
        let _ ← take
        let inner ← inBrackets g.typeTerm
        let _ ← expect ")"
        return [inner]
    | "[" =>
      node .group do
        let _ ← take
        inBrackets (separated "]" (tupleItem g))
    | "\x7b" => typeMembers g
    | "-" =>
      let _ ← take
      let _ ← expectShape .number
      closeNode .literal token.span.start []
    | _ => refuse

def postfixType (g : Grammar) : Parse Tree := do
  let first ← primaryType g
  repeatFrom first fun base => do
    if (← nextIs "[") && (← continuesLine) then
      let _ ← take
      if ← accept "]" then return some (← closeNode .group base.span.start [base])
      else
        let key ← inBrackets g.typeTerm
        let _ ← expect "]"
        return some (← closeNode .group base.span.start [base, key])
    else return none

def inferType (g : Grammar) : Parse Tree :=
  node .group do
    let _ ← expect "infer"
    guard (← peek).isWord
    let name ← leaf .typeIdentifier
    let bound : Parse Tree := do
      let _ ← expect "extends"
      let bound ← postfixType g
      guard !(← nextIs "?")
      return bound
    match ← attempt bound with
    | some bound => return [name, bound]
    | none => return [name]

def typeOperand (g : Grammar) : Parse Tree := do
  let operators ← many do
    let second ← peekSecond
    let opens := startsKey second || second.shape == .template ||
      ["(", "\x7b", "-"].contains second.text
    if (← nextIsOneOf ["keyof", "readonly"]) && opens then return some (← take)
    else return none
  let base ←
    if (← nextIs "infer") && (← peekSecond).isWord then inferType g else postfixType g
  match operators with
  | [] => return base
  | first :: _ => closeNode .group first.span.start [base]

def typeOperands (mark : String) (operand : Parse Tree) : Parse Tree := do
  let first ← start
  let _ ← accept mark
  let head ← operand
  let rest ← many do
    if ← accept mark then return some (← operand) else return none
  if rest.isEmpty then return head else closeNode .group first (head :: rest)

def unionType (g : Grammar) : Parse Tree :=
  typeOperands "|" (typeOperands "&" (functionType g <|> typeOperand g))

def anyType (g : Grammar) : Parse Tree := do
  let subject ← unionType g
  if (← nextIs "extends") && (← continuesLine) then
    let whole : Parse Tree := do
      let _ ← take
      let bound ← g.typeTerm
      let _ ← expect "?"
      let positive ← g.typeTerm
      let _ ← expect ":"
      let negative ← g.typeTerm
      closeNode .group subject.span.start [subject, bound, positive, negative]
    match ← attempt whole with
    | some conditional => return conditional
    | none => return subject
  else return subject

end DeadExports.Source.Grammar
