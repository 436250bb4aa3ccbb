import DeadExports.Source.Grammar.Bindings

set_option autoImplicit false

namespace DeadExports.Source.Grammar

open Parse

def block (g : Grammar) : Parse Tree :=
  node .group do
    let _ ← expect "\x7b"
    let statements ← inBlock do
      many do
        if ← nextIs "\x7d" then return none else return some (← g.statement)
    let _ ← expect "\x7d"
    return statements

structure FunctionHead where
  isGenerator : Bool
  start : Nat

def functionHead : Parse FunctionHead := do
  let first ← start
  if ← accept "async" then guard !(← peek).onNewLine
  let _ ← expect "function"
  return { isGenerator := ← accept "*", start := first }

def startsFunction : Parse Bool := do
  let token ← peek
  if token.text == "function" then return true
  else if token.text == "async" then
    let second ← peekSecond
    return second.text == "function" && !second.onNewLine
  else return false

def functionExpression (g : Grammar) : Parse Tree := do
  let head ← functionHead
  let name ← if ← nextIs "(" then pure [] else if ← nextIs "<" then pure [] else pure [← identifier]
  let inputs ← signature g
  let body ← block g
  closeNode (if head.isGenerator then .generatorExpression else .functionExpression) head.start
    (name.map (Tree.inRole .name) ++ inputs ++ [body])

def keylessMember (g : Grammar) : Parse Tree := do
  if (← nextIs "static") && (← peekSecond).text == "\x7b" then
    let _ ← take
    block g
  else
    guard (← isTyped)
    let _ ← many do
      if (← nextIsOneOf ["readonly", "static"]) && (← peekSecond).text == "[" then
        return some (← take)
      else return none
    indexSignature g

def memberModifiers : List String :=
  ["public", "private", "protected", "static", "abstract", "override", "readonly",
    "declare", "async",
    "get", "set", "accessor"]

def isModifier (typed : Bool) (word : String) : Bool :=
  if typed then memberModifiers.contains word
  else ["static", "async", "get", "set", "accessor"].contains word

def skipMemberModifiers : Parse Unit := do
  let typed ← isTyped
  let _ ← many do
    let token ← peek
    let second ← peekSecond
    let opens := (startsKey second || second.text == "*") && !second.onNewLine
    if token.isWord && isModifier typed token.text && opens then return some (← take)
    else return none
  let _ ← accept "*"

def classMember (g : Grammar) : Parse Tree :=
  node .group do
    let marks ← decorators g
    match ← attempt (keylessMember g) with
    | some member => return marks ++ [member]
    | none =>
      skipMemberModifiers
      let key ← memberKey g
      if ← isTyped then
        if !(← accept "?") then
          let _ ← accept "!"
      if ← nextIsOneOf ["(", "<"] then
        let inputs ← signature g
        if ← nextIs "\x7b" then return marks ++ key :: inputs ++ [← block g]
        else
          guard (← isTyped)
          if !(← accept ",") then statementEnd { isSignature := true }
          return marks ++ key :: inputs
      else
        let annotation ← optionalAnnotation g
        let value ← if ← accept "=" then pure [← inBlock g.assignment] else pure []
        if !(← acceptTyped ",") then
          statementEnd { isExpression := !value.isEmpty }
        return marks ++ key :: annotation ++ value

def classBody (g : Grammar) : Parse Tree :=
  node .group do
    let _ ← expect "\x7b"
    let members ← inBlock do
      many do
        if ← nextIs "\x7d" then return none
        else if ← accept ";" then return some []
        else return some [← classMember g]
    let _ ← expect "\x7d"
    return members.flatten

def classHeritage (g : Grammar) : Parse (List Tree) := do
  let base ←
    if ← accept "extends" then
      let value ← g.operand
      pure (value :: (← if ← isTyped then optionalTypeArguments g else pure []))
    else pure []
  let promises ←
    if ← acceptTyped "implements" then
      many do
        if ← nextIs "\x7b" then return none
        else
          let promise ← g.typeTerm
          if !(← nextIs "\x7b") then
            let _ ← expect ","
          return some promise
    else pure []
  return base ++ promises

def namesClass : Parse Bool := do
  let token ← peek
  return token.isVariable && token.text != "implements"

def className : Parse Tree := do
  guard (← peek).isVariable
  leaf (if ← isTyped then .typeIdentifier else .identifier)

def classRest (g : Grammar) (kind : Kind) (first : Nat) (marks : List Tree) : Parse Tree := do
  let name ← if ← namesClass then pure [← className] else pure []
  let generics ← optionalTypeParameters g
  let heritage ← classHeritage g
  let body ← classBody g
  closeNode kind first (marks ++ name.map (Tree.inRole .name) ++ generics ++ heritage ++ [body])

def classExpression (g : Grammar) : Parse Tree := do
  let first ← start
  let marks ← decorators g
  let _ ← expect "class"
  classRest g .classExpression first marks

end DeadExports.Source.Grammar
