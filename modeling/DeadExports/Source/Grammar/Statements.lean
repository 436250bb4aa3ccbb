import DeadExports.Source.Grammar.Markup
import DeadExports.Source.Grammar.Modules

set_option autoImplicit false

namespace DeadExports.Source.Grammar

open Parse

def expressionStatement (g : Grammar) : Parse Tree :=
  node .statement do
    let value ← anyExpression g
    statementEnd { isExpression := true }
    return [value]

def valueIsMissing : Parse Bool := do
  let next ← peek
  return next.onNewLine || next.shape == .finish || [";", "\x7d"].contains next.text

def throwStatement (g : Grammar) : Parse Tree :=
  node .statement do
    let _ ← take
    let value ← g.expression
    statementEnd { isExpression := true }
    return [value]

def returnStatement (g : Grammar) : Parse Tree :=
  node .statement do
    let _ ← take
    if ← valueIsMissing then
      statementEnd {}
      return []
    else
      let value ← g.expression
      statementEnd { isExpression := true }
      return [value]

def labelledJump : Parse Tree :=
  node .statement do
    let _ ← take
    if !(← valueIsMissing) then
      let _ ← expectShape .word
    statementEnd {}
    return []

def ifStatement (g : Grammar) : Parse Tree :=
  node .statement do
    let _ ← expect "if"
    let condition ← parenthesized g
    let positive ← g.statement
    if ← accept "else" then return [condition, positive, ← g.statement]
    else return [condition, positive]

def loopStart (g : Grammar) : Parse (List Tree) := do
  let token ← peek
  let second ← peekSecond
  let binds := ["var", "let", "const"].contains token.text &&
    (second.isWord || second.text == "\x7b" || second.text == "[")
  if token.text == ";" then return []
  else if binds then
    let _ ← take
    declarators g
  else return [← anyExpression g]

def countingRest (g : Grammar) : Parse (List Tree) := do
  let _ ← expect ";"
  let condition ← if ← nextIs ";" then pure [] else pure [← g.expression]
  let _ ← expect ";"
  let step ← if ← nextIs ")" then pure [] else pure [← g.expression]
  return condition ++ step

def forStatement (g : Grammar) : Parse Tree :=
  node .statement do
    let _ ← expect "for"
    let _ ← accept "await"
    let _ ← expect "("
    let head ← inBrackets do
      let first ← within (fun old => { old with withoutIn := true }) (loopStart g)
      if ← nextIsOneOf ["of", "in"] then
        let _ ← take
        return first ++ [← g.expression]
      else return first ++ (← countingRest g)
    let _ ← expect ")"
    return head ++ [← g.statement]

def whileStatement (g : Grammar) : Parse Tree :=
  node .statement do
    let _ ← take
    let condition ← parenthesized g
    return [condition, ← g.statement]

def doStatement (g : Grammar) : Parse Tree :=
  node .statement do
    let _ ← expect "do"
    let body ← g.statement
    let _ ← expect "while"
    let condition ← parenthesized g
    if !(← accept ";") then optionalEnd {}
    return [body, condition]

def switchCase (g : Grammar) : Parse Tree :=
  node .group do
    let label ←
      if ← accept "default" then pure []
      else do
        let _ ← expect "case"
        pure [← inBrackets g.expression]
    let _ ← expect ":"
    let body ← many do
      if ← nextIsOneOf ["case", "default", "\x7d"] then return none
      else return some (← g.statement)
    return label ++ body

def switchStatement (g : Grammar) : Parse Tree :=
  node .statement do
    let _ ← expect "switch"
    let subject ← parenthesized g
    let _ ← expect "\x7b"
    let cases ← inBlock do
      many do
        if ← nextIs "\x7d" then return none else return some (← switchCase g)
    let _ ← expect "\x7d"
    return subject :: cases

def catchClause (g : Grammar) : Parse (List Tree) := do
  if ← accept "catch" then
    let caught ←
      if ← accept "(" then
        let target ← anyBinding g
        let annotation ← optionalAnnotation g
        let _ ← expect ")"
        pure (target :: annotation)
      else pure []
    return caught ++ [← block g]
  else return []

def tryStatement (g : Grammar) : Parse Tree :=
  node .statement do
    let _ ← expect "try"
    let body ← block g
    let caught ← catchClause g
    let finished ← if ← accept "finally" then pure [← block g] else pure []
    guard (!caught.isEmpty || !finished.isEmpty)
    return body :: caught ++ finished

def labelledStatement (g : Grammar) : Parse Tree :=
  node .statement do
    let _ ← take
    let _ ← expect ":"
    return [← g.statement]

def decoratedStatement (g : Grammar) : Parse Tree := do
  let first ← start
  let marks ← decorators g
  if ← nextIs "export" then exportStatement g first marks else classDeclaration g first marks

def softDeclarations : List String :=
  ["let", "async", "abstract", "interface", "type", "enum", "declare", "namespace", "module"]

def wordStatement (g : Grammar) (token : Token) : Parse Tree := do
  match token.text with
  | "export" => exportName <|> exportStatement g token.span.start []
  | "import" =>
    if ["(", "."].contains (← peekSecond).text then expressionStatement g else importStatement g
  | "const" | "var" | "function" | "class" => plainDeclaration g
  | "if" => ifStatement g
  | "for" => forStatement g
  | "while" | "with" => whileStatement g
  | "do" => doStatement g
  | "switch" => switchStatement g
  | "try" => tryStatement g
  | "return" => returnStatement g
  | "throw" => throwStatement g
  | "break" | "continue" | "debugger" => labelledJump
  | _ =>
    if (← peekSecond).text == ":" && token.isVariable then labelledStatement g
    else if softDeclarations.contains token.text then declaration g <|> expressionStatement g
    else expressionStatement g

def anyStatement (g : Grammar) : Parse Tree := do
  let token ← peek
  match token.text with
  | ";" => leaf .emptyStatement
  | "\x7b" => block g
  | "@" => decoratedStatement g
  | _ => if token.isWord then wordStatement g token else expressionStatement g

def unroll (g : Grammar) : Grammar :=
  { expression := anyExpression g
    assignment := anyAssignment g
    operand := anyOperand g
    typeTerm := anyType g
    binding := anyBinding g
    statement := anyStatement g
    element := anyElement g }

def ofDepth (depth : Nat) : Grammar := Nat.repeat unroll depth empty

def interpreterLine : Parse (List Tree) := do
  let text := (← setting).text
  if Text.charAt text 0 == '#' && Text.charAt text 1 == '!' then
    moveTo (lineCommentEnd text 2)
    return [← closeNode .interpreterLine 0 []]
  else return []

def program (g : Grammar) : Parse Tree := do
  let text := (← setting).text
  let opening ← interpreterLine
  let statements ← many do
    if (← peek).shape == .finish then return none else return some (← anyStatement g)
  return .branch .program ⟨0, Text.size text⟩ (withComments text 0 (opening ++ statements))

end DeadExports.Source.Grammar
