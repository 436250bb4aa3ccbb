import DeadExports.Source.Grammar.Types

set_option autoImplicit false

namespace DeadExports.Source.Grammar

open Parse

def withDefault (g : Grammar) (target : Tree) : Parse Tree := do
  if ← accept "=" then
    let value ← g.assignment
    closeNode .assignmentPattern target.span.start [target.inRole .left, value]
  else return target

def restBinding (g : Grammar) : Parse Tree :=
  node .restPattern do
    let _ ← expect "..."
    return [← g.binding]

def shorthandBinding (g : Grammar) : Parse Tree := do
  guard (← peek).isVariable
  let name ← leaf .shorthandBinding
  if ← accept "=" then
    let value ← g.assignment
    closeNode .shorthandAssignment name.span.start [name.inRole .left, value]
  else return name

def pairBinding (g : Grammar) : Parse Tree :=
  node .pairPattern do
    let key ← memberKey g
    let _ ← expect ":"
    let target ← withDefault g (← g.binding)
    return [key, target.inRole .value]

def objectPattern (g : Grammar) : Parse Tree :=
  node .objectPattern do
    let _ ← expect "\x7b"
    inBrackets do
      separated "\x7d" do
        if ← nextIs "..." then restBinding g
        else if (← peekSecond).text == ":" || !(← peek).isWord then pairBinding g
        else shorthandBinding g

def arrayItem (g : Grammar) : Parse (List Tree) := do
  if ← nextIs "," then return []
  else if ← nextIs "..." then return [← restBinding g]
  else return [← withDefault g (← g.binding)]

def arrayPattern (g : Grammar) : Parse Tree :=
  node .arrayPattern do
    let _ ← expect "["
    let items ← inBrackets (separated "]" (arrayItem g))
    return items.flatten

def anyBinding (g : Grammar) : Parse Tree := do
  match (← peek).text with
  | "\x7b" => objectPattern g
  | "[" => arrayPattern g
  | _ => identifier

end DeadExports.Source.Grammar
