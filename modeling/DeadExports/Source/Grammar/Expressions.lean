import DeadExports.Source.Grammar.Classes

set_option autoImplicit false

/-!
Expressions. How operators bind does not matter to which names an expression uses, so the operands
of a chain of operators stand side by side.
-/

namespace DeadExports.Source.Grammar

open Parse

def arrayLiteral (g : Grammar) : Parse Tree :=
  node .group do
    let _ ← expect "["
    let items ← inBrackets do
      separated "]" do
        if ← nextIs "," then return [] else return [← spreadable g]
    return items.flatten

def skipMethodWords : Parse Unit := do
  let _ ← many do
    let token ← peek
    let second ← peekSecond
    let opens := startsKey second || second.text == "*"
    if ["async", "get", "set"].contains token.text && token.isWord && opens then
      return some (← take)
    else return none
  let _ ← accept "*"

def shorthandMember (g : Grammar) : Parse Tree := do
  let token ← peek
  guard (token.isVariable && [",", "\x7d", "="].contains (← peekSecond).text)
  let name ← leaf .shorthandProperty
  if ← accept "=" then
    let value ← g.assignment
    closeNode .group name.span.start [name, value]
  else return name

def keyedValue (g : Grammar) : Parse Tree :=
  node .group do
    skipMethodWords
    let key ← memberKey g
    if ← accept ":" then return [key, ← g.assignment]
    else
      let _ ← accept "?"
      let inputs ← signature g
      return key :: inputs ++ [← block g]

def objectLiteral (g : Grammar) : Parse Tree :=
  node .group do
    let _ ← expect "\x7b"
    inBrackets do
      separated "\x7d" do
        if ← nextIs "..." then spreadable g
        else shorthandMember g <|> keyedValue g

def endsInstantiation (token : Token) : Bool :=
  match token.shape with
  | .finish => true
  | .mark => !(["(", "[", "<", "+", "-", "!", "~", "@", "/", "++", "--"].contains token.text)
  | .word => token.text == "implements" || token.onNewLine
  | _ => token.onNewLine

def callTypes (g : Grammar) : Parse Tree := do
  let types ← typeArguments g
  let next ← peek
  guard (next.text == "(" || next.shape == .template || endsInstantiation next)
  return types

def callOf (g : Grammar) (callee : Tree) (types : List Tree) : Parse Tree := do
  let inputs ← callArguments g
  closeNode .callExpression callee.span.start
    (callee.inRole .callee :: types ++ [inputs.inRole .arguments])

def taggedTemplate (g : Grammar) (callee : Tree) (types : List Tree) : Parse Tree := do
  let text ← template g.expression
  closeNode .callExpression callee.span.start
    (callee.inRole .callee :: types ++ [text.inRole .arguments])

def memberOf (object : Tree) : Parse Tree := do
  let property ← memberName
  closeNode .memberExpression object.span.start [object.inRole .object, property.inRole .property]

def itemOf (g : Grammar) (object : Tree) : Parse Tree := do
  let _ ← expect "["
  let key ← inBrackets g.expression
  let _ ← expect "]"
  closeNode .group object.span.start [object, key]

def optionalStep (g : Grammar) (object : Tree) : Parse Tree := do
  let next ← peek
  if next.text == "(" then callOf g object []
  else if next.text == "[" then itemOf g object
  else if next.shape == .template then taggedTemplate g object []
  else if next.text == "<" then callOf g object [← typeArguments g]
  else memberOf object

def typedStep (g : Grammar) (object : Tree) : Parse (Option Tree) := do
  match ← attempt (callTypes g) with
  | none => return none
  | some types =>
    let next ← peek
    if next.text == "(" then return some (← callOf g object [types])
    else if next.shape == .template then return some (← taggedTemplate g object [types])
    else return some (← closeNode .group object.span.start [object, types])

def postfixStep (g : Grammar) (object : Tree) : Parse (Option Tree) := do
  let next ← peek
  if next.shape == .template then return some (← taggedTemplate g object [])
  match next.text with
  | "." =>
    let _ ← take
    return some (← memberOf object)
  | "?." =>
    let _ ← take
    return some (← optionalStep g object)
  | "[" => return some (← itemOf g object)
  | "(" => return some (← callOf g object [])
  | "!" =>
    if (← isTyped) && (← continuesLine) then
      let _ ← take
      return some (← closeNode .group object.span.start [object])
    else return none
  | "<" => if ← isTyped then typedStep g object else return none
  | _ => return none

def constructorStep (g : Grammar) (object : Tree) : Parse (Option Tree) := do
  if ← accept "." then return some (← memberOf object)
  else if ← nextIs "[" then return some (← itemOf g object)
  else if (← isTyped) && (← nextIs "!") then
    let _ ← take
    return some (← closeNode .group object.span.start [object])
  else return none

def importExpression (g : Grammar) : Parse Tree := do
  let callee ← leaf .importWord
  if ← accept "." then
    let _ ← memberName
    closeNode .literal callee.span.start []
  else callOf g callee []

def wordExpression (g : Grammar) : Parse Tree := do
  let token ← peek
  if ← startsFunction then functionExpression g
  else
    match token.text with
    | "class" => classExpression g
    | "import" => importExpression g
    | "this" | "super" | "null" | "true" | "false" | "undefined" => leaf .literal
    | _ => identifier

def primary (g : Grammar) : Parse Tree := do
  let token ← peek
  match token.shape with
  | .word => wordExpression g
  | .number => leaf .literal
  | .string => leaf .string
  | .template => template g.expression
  | .hiddenName => leaf .propertyIdentifier
  | .finish => refuse
  | .mark =>
    match token.text with
    | "(" => parenthesized g
    | "[" => arrayLiteral g
    | "\x7b" => objectLiteral g
    | "/" | "/=" => regularExpression
    | "@" => classExpression g
    | "<" =>
      guard (← hasMarkup)
      g.element
    | _ => refuse

def constructed (g : Grammar) : Parse Tree := do
  if ← nextIs "new" then g.operand
  else
    let first ← primary g
    repeatFrom first (constructorStep g)

def newExpression (g : Grammar) : Parse Tree := do
  let first ← start
  let _ ← expect "new"
  if ← accept "." then
    let _ ← memberName
    closeNode .literal first []
  else
    let callee ← constructed g
    let types ← if ← isTyped then attempt (callTypes g) else pure none
    let inputs ← if ← nextIs "(" then pure [← callArguments g] else pure []
    closeNode .group first (callee :: types.toList ++ inputs)

def chain (g : Grammar) : Parse Tree := do
  let first ← if ← nextIs "new" then newExpression g else primary g
  repeatFrom first (postfixStep g)

def counted (g : Grammar) : Parse Tree := do
  let value ← chain g
  let next ← peek
  if (next.text == "++" || next.text == "--") && !next.onNewLine then
    let _ ← take
    closeNode .group value.span.start [value]
  else return value

def prefixMarks : List String := ["!", "~", "+", "-", "++", "--"]

def prefixWords : List String := ["typeof", "void", "delete", "await"]

def assertion (g : Grammar) : Parse Tree :=
  node .group do
    let _ ← expect "<"
    let type ← inBrackets g.typeTerm
    closeAngle
    return [type, ← g.operand]

def anyOperand (g : Grammar) : Parse Tree := do
  let token ← peek
  let applied : Parse Tree := node .group do
    let _ ← take
    return [← g.operand]
  if token.shape == .mark && prefixMarks.contains token.text then applied
  else if token.isWord && prefixWords.contains token.text then
    if token.text == "await" then applied <|> counted g else applied
  else if token.text == "<" && (← isTyped) && !(← hasMarkup) then assertion g
  else counted g

def binaryMarks : List String :=
  ["||", "&&", "??", "|", "^", "&", "==", "!=", "===", "!==", "<", ">", "<=", ">=", "<<",
    ">>", ">>>",
    "+", "-", "*", "/", "%", "**"]

def nextIsBinary : Parse Bool := do
  let token ← peek
  if token.shape == .mark then return binaryMarks.contains token.text
  else if token.isWord then
    return token.text == "instanceof" || (token.text == "in" && !(← setting).withoutIn)
  else return false

def castType (g : Grammar) : Parse (List Tree) := do
  if ← accept "const" then return [] else return [← g.typeTerm]

def operands (g : Grammar) : Parse Tree := do
  let first ← anyOperand g
  let all ← repeatFrom [first] fun found => do
    if ← nextIsBinary then
      let _ ← take
      return some (found ++ [← anyOperand g])
    else if (← isTyped) && (← nextIsOneOf ["as", "satisfies"]) && (← continuesLine) then
      let _ ← take
      return some (found ++ (← castType g))
    else return none
  if all.length = 1 && (← position) == first.span.stop then return first
  else closeNode .group first.span.start all

def conditional (g : Grammar) : Parse Tree := do
  let condition ← operands g
  if ← accept "?" then
    let branch (plain : Bool) : Parse Tree := do
      let value ← within
        (fun old => { old with withoutIn := false, plainBranch := plain }) g.assignment
      let _ ← expect ":"
      return value
    let positive ← branch false <|> branch true
    let negative ← g.assignment
    closeNode .group condition.span.start [condition, positive, negative]
  else return condition

def arrowBody (g : Grammar) : Parse Tree := do
  let _ ← expect "=>"
  if ← nextIs "\x7b" then block g else g.assignment

def arrowSignature (g : Grammar) : Parse (List Tree) := do
  let generics ← if (← isTyped) && (← nextIs "<") then pure [← typeParameters g] else pure []
  let inputs ← parameters g
  let output ← if (← setting).plainBranch then pure [] else optionalReturnType g
  guard (← nextIs "=>")
  return generics ++ inputs :: output

def arrowFunction (g : Grammar) : Parse Tree :=
  let inputs : Parse (List Tree) := do
    if (← peek).isWord then
      let name ← identifier
      guard (← nextIs "=>")
      return [name]
    else arrowSignature g
  let delayed : Parse (List Tree) := do
    let _ ← expect "async"
    guard !(← peek).onNewLine
    inputs
  node .group do
    let names ← delayed <|> inputs
    return names ++ [← arrowBody g]

def mayStartArrow (token : Token) : Bool :=
  token.isVariable || token.text == "(" || token.text == "<"

def yieldExpression (g : Grammar) : Parse Tree :=
  node .group do
    let _ ← expect "yield"
    if ← accept "*" then return [← g.assignment]
    else if (← peek).onNewLine then return []
    else return (← attempt g.assignment).toList

def assignmentMarks : List String :=
  ["=", "+=", "-=", "*=", "/=", "%=", "**=", "<<=", ">>=", ">>>=", "&=", "^=", "|=", "&&=", "||=",
    "??="]

def assignmentOrValue (g : Grammar) : Parse Tree := do
  let target ← conditional g
  let next ← peek
  if next.shape == .mark && assignmentMarks.contains next.text then
    let _ ← take
    let value ← g.assignment
    closeNode .group target.span.start [target, value]
  else return target

def anyAssignment (g : Grammar) : Parse Tree := do
  let token ← peek
  if token.text == "yield" then yieldExpression g
  else if mayStartArrow token then arrowFunction g <|> assignmentOrValue g
  else assignmentOrValue g

def anyExpression (g : Grammar) : Parse Tree := do
  let first ← anyAssignment g
  let rest ← many do
    if ← accept "," then return some (← anyAssignment g) else return none
  if rest.isEmpty then return first else closeNode .group first.span.start (first :: rest)

end DeadExports.Source.Grammar
