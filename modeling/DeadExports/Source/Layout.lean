import DeadExports.Source.Tree

set_option autoImplicit false

/-!
How the nodes of a tree lie in the text: every node lies inside its parent and behind its earlier
siblings, no node but the root is empty, and the words at which names are written have no parts. A
statement exports either all names of a module or a declaration, and the word `export` stands before
what it exports. Everything that looks a name up by its offset relies on this. Nodes start and end
between characters, so their texts can be cut out. Statements, and what stands in a list of exports,
do not start or end with blanks, so blanks around them can go with their neighbours.
-/

namespace DeadExports

namespace Kind

def isWord : Kind → Bool
  | identifier | typeIdentifier | shorthandProperty | shorthandBinding | string | defaultWord =>
      true
  | _ => false

def hasPlainName : Kind → Bool
  | importSpecifier | exportSpecifier | functionDeclaration | generatorDeclaration
      | functionExpression
  | generatorExpression | classDeclaration | abstractClass | classExpression => true
  | _ => false

end Kind

namespace Tree

def areInOrder : Nat → List Tree → Nat → Bool
  | first, [], last => decide (first ≤ last)
  | first, tree :: rest, last =>
    decide (first ≤ tree.span.start) && decide (tree.span.start < tree.span.stop) &&
      areInOrder tree.span.stop rest last

def isExportTarget (tree : Tree) :
    Bool := tree.role? == some .declaration || tree.role? == some .value

def mayHold (kind : Kind) (children : List Tree) : Bool :=
  if kind.isWord then children.isEmpty
  else if kind.hasPlainName then
    children.all fun child => child.role? != some .name || child.kind.isWord
  else if kind == .namespaceExport then
    children.all fun child => !child.kind.isNamed || child.kind.isWord
  else if kind == .exportStatement then
    !children.any isExportTarget ||
      (children.takeWhile fun child => !child.isExportTarget).any
      (fun child => child.kind == .exportWord) &&
        children.all fun child => child.kind != .namespaceExport && child.kind != .star
  else true

mutual
def isLaidOut : Tree → Bool
  | node _ kind span children =>
    areInOrder span.start children span.stop && mayHold kind children && areLaidOut children

def areLaidOut : List Tree → Bool
  | [] => true
  | tree :: rest => isLaidOut tree && areLaidOut rest
end

mutual
def isPlacedIn (text : String) : Tree → Bool
  | node _ _ span children =>
    Text.isBoundary text span.start && Text.isBoundary text span.stop && arePlacedIn text children

def arePlacedIn (text : String) : List Tree → Bool
  | [] => true
  | tree :: rest => isPlacedIn text tree && arePlacedIn text rest
end

def isInkedList (text : String) (clause : Tree) : Bool :=
  Text.hasInk text clause.span.start && Text.hasInk text (clause.span.stop - 1) &&
    clause.children.all fun child =>
      decide (clause.span.start < child.span.start) &&
        decide (child.span.stop < clause.span.stop) &&
        (child.kind == .comment ||
          (Text.hasInk text child.span.start && Text.hasInk text (child.span.stop - 1)))

/--
Whether a statement starts with ink and ends in a line that has some; a comment at its end may bring
blanks along. Where it holds a list of exports it exports nothing else.
-/
def isInked (text : String) (statement : Tree) : Bool :=
  Text.hasInk text statement.span.start && Text.hasInkBefore text statement.span.stop &&
    statement.children.all fun child =>
      child.kind != .exportClause ||
        (child.isInkedList text && !statement.children.any isExportTarget)

def isInkedIn (text : String) (program : Tree) : Bool := program.children.all (isInked text)

end Tree
end DeadExports
