import DeadExports.Source.Tree

set_option autoImplicit false

namespace DeadExports.Tree

mutual
def boundNames (source : String) : Tree → List (String × Span)
  | node _ kind span children =>
    match kind with
    | .identifier | .shorthandBinding => [(Text.under source span, span)]
    | .shorthandAssignment | .assignmentPattern => boundInRole source .left children
    | .pairPattern => boundInRole source .value children
    | .objectPattern | .arrayPattern | .restPattern => boundNamesAll source children
    | _ => []

def boundInRole (source : String) (role : Role) : List Tree → List (String × Span)
  | [] => []
  | child :: rest =>
    if child.role? == some role then boundNames source child else boundInRole source role rest

def boundNamesAll (source : String) : List Tree → List (String × Span)
  | [] => []
  | child :: rest => boundNames source child ++ boundNamesAll source rest
end

def declaratorNames (source : String) (tree : Tree) : List (String × Span) :=
  if tree.kind == .variableDeclarator then
    ((tree.childInRole? .name).map (boundNames source)).getD []
  else []

def ownName (source : String) (tree : Tree) : List (String × Span) :=
  match tree.childInRole? .name with
  | some name =>
    if name.kind == .identifier || name.kind == .typeIdentifier then [(name.text source, name.span)]
    else []
  | none => []

mutual
def declaredNames (source : String) : Tree → List (String × Span)
  | node role kind span children =>
    match kind with
    | .lexicalDeclaration | .variableDeclaration => children.flatMap (declaratorNames source)
    | .ambientDeclaration => declaredNamesAll source children
    | _ => ownName source (node role kind span children)

def declaredNamesAll (source : String) : List Tree → List (String × Span)
  | [] => []
  | child :: rest => declaredNames source child ++ declaredNamesAll source rest
end

end DeadExports.Tree
