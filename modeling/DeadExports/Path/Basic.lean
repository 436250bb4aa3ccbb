set_option autoImplicit false

namespace DeadExports

inductive Part where
  | root
  | here
  | up
  | name (text : String)
deriving DecidableEq, Repr, Inhabited

namespace Part

def rank : Part → Nat
  | root => 0
  | here => 1
  | up => 2
  | name _ => 3

def compare : Part → Part → Ordering
  | name a, name b => compareOfLessAndEq a b
  | a, b => Ord.compare a.rank b.rank

def spelling : Part → String
  | root => ""
  | here => "."
  | up => ".."
  | name text => text

def ofPiece? : String → Option Part
  | "" => none
  | "." => none
  | ".." => some up
  | text => some (name text)

end Part

structure Path where
  spelling : String
deriving Repr, Inhabited

namespace Path

def piecesOf : List Char → List (List Char)
  | [] => [[]]
  | char :: rest =>
    if char == '/' then [] :: piecesOf rest
    else
      match piecesOf rest with
      | [] => [[char]]
      | piece :: pieces => (char :: piece) :: pieces

def pieces (path : Path) : List String := (piecesOf path.spelling.toList).map String.ofList

def marked (path : Path) : List (String × Option Part) :=
  match path.pieces with
  | [] => []
  | first :: rest =>
    let head := match first with
      | "" => if rest.isEmpty then none else some Part.root
      | "." => some Part.here
      | text => Part.ofPiece? text
    (first, head) :: rest.map fun piece => (piece, Part.ofPiece? piece)

def parts (path : Path) : List Part := path.marked.filterMap Prod.snd

def spell : List Part → String
  | [Part.root] => "/"
  | parts => "/".intercalate (parts.map Part.spelling)

def ofParts (parts : List Part) : Path := ⟨spell parts⟩

def compareParts : List Part → List Part → Ordering
  | [], [] => .eq
  | [], _ :: _ => .lt
  | _ :: _, [] => .gt
  | a :: as, b :: bs => (a.compare b).then (compareParts as bs)

def compare (a b : Path) : Ordering := compareParts a.parts b.parts

def atMost (a b : Path) : Bool := a.compare b != .gt

/-- Two paths are the same when their parts are. -/
instance : BEq Path where
  beq a b := a.parts == b.parts

def isAbsolute (path : Path) : Bool := path.parts.head? == some .root

def fileName? (path : Path) : Option String :=
  match path.parts.getLast? with
  | some (.name text) => some text
  | _ => none

/-- A name cut at its last dot. A name that starts with its only dot has no ending. -/
def cutEnding? (name : String) : Option (String × String) :=
  let reversed := name.toList.reverse
  let ending := reversed.takeWhile (· != '.')
  match reversed.drop ending.length with
  | [] => none
  | _ :: stem =>
    if stem.isEmpty then none
    else some (String.ofList stem.reverse, String.ofList ending.reverse)

def extension? (path : Path) : Option String :=
  path.fileName?.bind fun name => (cutEnding? name).map Prod.snd

def parent? (path : Path) : Option Path :=
  match path.parts with
  | [] => none
  | [.root] => none
  | parts => some (ofParts parts.dropLast)

def join (path : Path) (rest : String) : Path :=
  if rest.startsWith '/' || path.spelling.isEmpty then ⟨rest⟩
  else if path.spelling.endsWith '/' then ⟨path.spelling ++ rest⟩
  else ⟨path.spelling ++ "/" ++ rest⟩

def withEnding (path : Path) (ending : String) : Path := ⟨path.spelling ++ "." ++ ending⟩

def withoutEnding (path : Path) : Path :=
  match path.fileName?.bind cutEnding? with
  | some (stem, _) => ofParts (path.parts.dropLast ++ [.name stem])
  | none => path

def isWithin (path root : Path) : Bool := root.parts.isPrefixOf path.parts

def dropMarked : Nat → List (String × Option Part) → List (String × Option Part)
  | 0, pieces => pieces
  | _, [] => []
  | count + 1, (_, some _) :: rest => dropMarked count rest
  | count + 1, (_, none) :: rest => dropMarked (count + 1) rest

def relativeTo (path root : Path) : String :=
  if path.isWithin root then
    let count := root.parts.length
    let below := dropMarked count path.marked
    let opened := if count = 0 then below else below.dropWhile fun piece => piece.2.isNone
    let closed := (opened.reverse.dropWhile fun piece => piece.2.isNone).reverse
    match closed with
    | [(_, some .root)] => "/"
    | pieces => "/".intercalate (pieces.map Prod.fst)
  else path.spelling

def displayBelow (path root : Path) : String :=
  (path.relativeTo root).map fun char => if char == '\\' then '/' else char

def extend (parts : List Part) : Part → List Part
  | .here => parts
  | .up => if parts = [] ∨ parts = [.root] then parts ++ [.up] else parts.dropLast
  | .root => [.root]
  | .name text => parts ++ [.name text]

def normalParts (parts : List Part) : List Part := parts.foldl extend []

def normalize (path : Path) : Path := ofParts (normalParts path.parts)

end Path
end DeadExports
