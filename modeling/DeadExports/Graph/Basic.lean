import DeadExports.Path.Basic

set_option autoImplicit false

namespace DeadExports

section Closure

variable {α : Type} [BEq α]

def closureFrom (next : α → List α) : Nat → List α → List α → List α
  | 0, _, seen => seen
  | rounds + 1, pending, seen =>
    match pending.dropWhile (seen.contains ·) with
    | [] => seen
    | first :: rest => closureFrom next rounds (next first ++ rest) (first :: seen)

def closure (next : α → List α) (bound : Nat) (start : List α) : List α :=
  closureFrom next bound start []

end Closure

inductive LinkKind where
  | imports
  | reexports
  | wildcard
deriving DecidableEq, Repr

namespace LinkKind

def label : LinkKind → String
  | imports => "import"
  | reexports => "re-export"
  | wildcard => "wildcard"

end LinkKind

structure Link where
  source : Path
  target : Path
  kind : LinkKind
deriving Repr

namespace Link

def same (a b : Link) : Bool := a.source == b.source && a.target == b.target && a.kind == b.kind

end Link

structure ModuleGraph where
  modules : List Path := []
  links : List Link := []
deriving Repr, Inhabited

namespace ModuleGraph

def empty : ModuleGraph := {}

def contains (graph : ModuleGraph) (path : Path) : Bool := graph.modules.contains path

def addModule (graph : ModuleGraph) (path : Path) : ModuleGraph :=
  if graph.contains path then graph else { graph with modules := graph.modules ++ [path] }

def addLink (graph : ModuleGraph) (source target : Path) (kind : LinkKind) : ModuleGraph :=
  let known := (graph.addModule source).addModule target
  let link : Link := ⟨source, target, kind⟩
  if known.links.any link.same then known else { known with links := known.links ++ [link] }

def removeLink (links : List Link) (number : Nat) : List Link :=
  match links.getLast? with
  | some last => if number < links.length then (links.set number last).dropLast else links
  | none => links

def leaving (links : List Link) (path : Path) : List Nat :=
  ((List.range links.length).filter fun number => links[number]?.any fun link => link.source ==
    path).reverse

/--
Takes away the links that leave `path`; the module stays. They go from the back, so that the links
which get other numbers are not among those still to go.
-/
def clearDependencies (graph : ModuleGraph) (path : Path) : ModuleGraph :=
  { graph with links := (leaving graph.links path).foldl removeLink graph.links }

/-- Links of one pair differ in kind only; which of them comes first is not settled here. -/
def byPath (neighbours : List (Path × LinkKind)) : List (Path × LinkKind) :=
  neighbours.mergeSort fun a b => a.1.atMost b.1

def spelled (graph : ModuleGraph) (path : Path) : Path :=
  (graph.modules.find? (· == path)).getD path

def importers (graph : ModuleGraph) (path : Path) : List (Path × LinkKind) :=
  byPath ((graph.links.filter fun link => link.target == path).map fun link =>
    (graph.spelled link.source, link.kind))

def dependencies (graph : ModuleGraph) (path : Path) : List (Path × LinkKind) :=
  byPath ((graph.links.filter fun link => link.source == path).map fun link =>
    (graph.spelled link.target, link.kind))

def successors (graph : ModuleGraph) (path : Path) : List Path :=
  (graph.links.filter fun link => link.source == path).map Link.target

def reachable (graph : ModuleGraph) (path : Path) : List Path :=
  closure graph.successors graph.modules.length (graph.successors path)

def reaches (graph : ModuleGraph) (source target : Path) : Bool :=
  (graph.reachable source).contains target

def hasLink (graph : ModuleGraph) (source target : Path) : Bool :=
  graph.links.any fun link => link.source == source && link.target == target

def componentOf (graph : ModuleGraph) (path : Path) : List Path :=
  let ahead := graph.reachable path
  (graph.modules.filter fun other => other == path ||
    (ahead.contains other && graph.reaches other path)).mergeSort
    Path.atMost

def components (graph : ModuleGraph) : List (List Path) :=
  graph.modules.foldl
    (fun groups path =>
      if groups.any (·.contains path) then groups else groups ++ [graph.componentOf path])
    []

def isCycle (graph : ModuleGraph) (group : List Path) : Bool :=
  decide (1 < group.length) || group.head?.any fun path => graph.hasLink path path

def cycles (graph : ModuleGraph) : List (List Path) := graph.components.filter graph.isCycle

def hasCycles (graph : ModuleGraph) : Bool := graph.modules.any fun path => graph.reaches path path

def nodeCount (graph : ModuleGraph) : Nat := graph.modules.length

def edgeCount (graph : ModuleGraph) : Nat := graph.links.length

def isEmpty (graph : ModuleGraph) : Bool := graph.modules.isEmpty

end ModuleGraph
end DeadExports
