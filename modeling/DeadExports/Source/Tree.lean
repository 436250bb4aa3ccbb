import DeadExports.Source.Kind
import DeadExports.Text.Line

set_option autoImplicit false

namespace DeadExports

inductive Tree where
  | node (role : Option Role) (kind : Kind) (span : Span) (children : List Tree)
deriving Repr

namespace Tree

def role? : Tree → Option Role
  | node role _ _ _ => role

def kind : Tree → Kind
  | node _ kind _ _ => kind

def span : Tree → Span
  | node _ _ span _ => span

def children : Tree → List Tree
  | node _ _ _ children => children

def leaf (kind : Kind) (span : Span) : Tree := node none kind span []

def branch (kind : Kind) (span : Span) (children : List Tree) : Tree := node none kind span children

def inRole (role : Role) : Tree → Tree
  | node _ kind span children => node (some role) kind span children

def text (source : String) (tree : Tree) : String := Text.under source tree.span

def childOfKind? (tree : Tree) (kind : Kind) : Option Tree :=
  tree.children.find? fun child => child.kind == kind

def childInRole? (tree : Tree) (role : Role) : Option Tree :=
  tree.children.find? fun child => child.role? == some role

def namedChildren (tree : Tree) : List Tree := tree.children.filter fun child => child.kind.isNamed

def isQuoteMark (char : Char) : Bool := char == '"' || char == '\'' || char == '`'

def stringValue (source : String) (tree : Tree) : String :=
  let opened := (tree.text source).toList.dropWhile isQuoteMark
  String.ofList (opened.reverse.dropWhile isQuoteMark).reverse

def bindingName (source : String) (tree : Tree) : String :=
  if tree.kind == .string then tree.stringValue source else tree.text source

mutual
def visited : Tree → List Tree
  | node role kind span children =>
    node role kind span children :: (if kind.isClosed then [] else visitedAll children)

def visitedAll : List Tree → List Tree
  | [] => []
  | tree :: rest => visited tree ++ visitedAll rest
end

def firstRow (source : String) (tree : Tree) : Nat := Text.rowOf source tree.span.start

def lastRow (source : String) (tree : Tree) : Nat := Text.rowOf source tree.span.stop

/--
The comments that lead up to row `row`, the last one first; `earlier` are the nodes before that row,
the nearest first. A blank line ends the run, and so does a comment behind other code in the same
row.
-/
def commentsAbove (source : String) (row : Nat) : List Tree → List Tree
  | [] => []
  | nearest :: earlier =>
    if nearest.kind != .comment || nearest.lastRow source + 1 < row then []
    else
      let behindCode : Bool := match earlier with
        | [] => false
        | before :: _ => before.kind != .comment && before.lastRow source == nearest.firstRow source
      if behindCode then []
      else nearest :: commentsAbove source (nearest.firstRow source) earlier

def leadingComments (source : String) (before : List Tree) (tree : Tree) : List Tree :=
  (commentsAbove source (tree.firstRow source) before.reverse).reverse

def withEarlier {α : Type} (items : List α) : List (List α × α) :=
  items.mapIdx fun index item => (items.take index, item)

end Tree
end DeadExports
