import DeadExports.Pattern.Bracket

set_option autoImplicit false

/-!
Reading a pattern. Groups hold alternatives, alternatives hold items one after the other, and a
repeat takes the item before it. Flags that are set inside of a group hold up to its end. References
back to groups and conditions that look around are not part of the language. Which group matched
what, and how eager a repeat is, makes no difference to whether a text matches, so neither is kept.
-/

namespace DeadExports.Pattern

structure Group where
  flags : Flags
  alternatives : List Regex := []
  items : List (Option Regex) := []

namespace Group

def add (group : Group) (regex : Regex) : Group := { group with items := some regex :: group.items }

def present (group : Group) : Regex :=
  (group.items.filterMap id).foldl (fun later item => .sequence item later) .empty

def separate (group : Group) : Group :=
  { group with alternatives := group.alternatives ++ [group.present], items := [] }

def value (group : Group) : Regex :=
  group.alternatives.foldr .either group.present

def repeatLast? (group : Group) (least : Nat) (most : Option Nat) : Option Group :=
  match group.items with
  | some regex :: earlier => some { group with items := some (.times regex least most) :: earlier }
  | _ => none

def addChar (group : Group) (char : Char) : Group :=
  group.add (.one (Bracket.folded group.flags (.single char)))

def addDot? (group : Group) : Option Group := do
  guard (group.flags.has .unicode)
  let ends : CharClass :=
    if group.flags.has .returns then .union (.single '\n') (.single '\r') else .single '\n'
  return group.add (.one (if group.flags.has .dotAll then .everything else .complement ends))

def addStart (group : Group) : Group :=
  let condition : Anchor :=
    if group.flags.has .multiLine then .lineStart (group.flags.has .returns) else .textStart
  group.add (.anchor condition)

def addEnd (group : Group) : Group :=
  let condition : Anchor :=
    if group.flags.has .multiLine then .lineEnd (group.flags.has .returns) else .textEnd
  group.add (.anchor condition)

def addEscape (group : Group) : Escape → Group
  | .literal char => group.addChar char
  | .charClass chars => group.add (.one (Bracket.folded group.flags chars))
  | .anchor condition => group.add (.anchor condition)

end Group

namespace Syntax

def skipLazy : List Char → List Char
  | '?' :: rest => rest
  | text => text

def skipWhite (text : List Char) : List Char := text.dropWhile Text.isWhite

def count? (text : List Char) : Option (Nat × List Char) := do
  let start := skipWhite text
  let digits := start.takeWhile Char.isDigit
  let value ← (String.ofList digits).toNat?
  guard (value < UInt32.size)
  return (value, skipWhite (start.drop digits.length))

def bounds? (flags : Flags) (text : List Char) : Option ((Nat × Option Nat) × List Char) := do
  let (least, rest) ← count? (flags.skip text)
  match rest with
  | '\x7d' :: rest => return ((least, some least), rest)
  | ',' :: rest =>
    match flags.skip rest with
    | '\x7d' :: rest => return ((least, none), rest)
    | rest =>
      let (most, rest) ← count? rest
      guard (least ≤ most)
      match rest with
      | '\x7d' :: rest => return ((least, some most), rest)
      | _ => none
  | _ => none

def isNameStart (char : Char) : Bool := char == '_' || CharClass.letterLike.contains char

def isNameChar (char : Char) : Bool :=
  isNameStart char || ['.', '[', ']'].contains char || (CharClass.category 'N' none).contains char

def groupName? (text : List Char) : Option (String × List Char) := do
  let name := text.takeWhile (· != '>')
  guard (name.length < text.length)
  guard ((name.head?.map isNameStart).getD false && name.all isNameChar)
  return (String.ofList name, text.drop (name.length + 1))

inductive Opening where
  | group (name : Option String) (flags : Flags)
  | flags (flags : Flags)

def opening? (flags : Flags) (text : List Char) : Option (Opening × List Char) :=
  match flags.skip text with
  | '?' :: '=' :: _ => none
  | '?' :: '!' :: _ => none
  | '?' :: '<' :: '=' :: _ => none
  | '?' :: '<' :: '!' :: _ => none
  | '?' :: 'P' :: '<' :: rest =>
    (groupName? rest).map fun (name, rest) => (.group (some name) flags, rest)
  | '?' :: '<' :: rest => (groupName? rest).map fun (name, rest) => (.group (some name) flags, rest)
  | '?' :: rest => do
    let (changes, stop, rest) ← Flags.readChanges true [] rest
    let later := flags.changeAll changes
    if stop == ':' then return (.group none later, rest)
    else if changes.isEmpty then none
    else return (.flags later, rest)
  | rest => some (.group none flags, rest)

structure State where
  group : Group
  around : List Group := []
  names : List String := []

namespace State

def openWith? (state : State) : Opening → Option State
  | .flags flags =>
    some { state with group := { state.group with flags, items := none :: state.group.items } }
  | .group name flags => do
    guard !(name.any state.names.contains)
    return { group := { flags }, around := state.group :: state.around,
             names := name.toList ++ state.names }

def close? (state : State) : Option State :=
  match state.around with
  | [] => none
  | outer :: around => some { state with group := outer.add state.group.value, around }

def withGroup (state : State) (group : Group) : State := { state with group }

end State

def step? (state : State) (text : List Char) : Option (State × List Char) :=
  let group := state.group
  let flags := group.flags
  let taking (changed : Option Group) (rest : List Char) : Option (State × List Char) :=
    changed.map fun changed => (state.withGroup changed, rest)
  match text with
  | [] => none
  | '(' :: rest => do
    let (opening, rest) ← opening? flags rest
    return (← state.openWith? opening, rest)
  | ')' :: rest => state.close?.map fun closed => (closed, rest)
  | '|' :: rest => taking (some group.separate) rest
  | '[' :: rest => do
    let (chars, rest) ← Bracket.read? flags rest
    taking (some (group.add (.one chars))) rest
  | '?' :: rest => taking (group.repeatLast? 0 (some 1)) (skipLazy rest)
  | '*' :: rest => taking (group.repeatLast? 0 none) (skipLazy rest)
  | '+' :: rest => taking (group.repeatLast? 1 none) (skipLazy rest)
  | '\x7b' :: rest => do
    let ((least, most), rest) ← bounds? flags rest
    taking (group.repeatLast? least most) (skipLazy (flags.skip rest))
  | '\\' :: rest => do
    let (found, rest) ← Escape.read? flags rest
    taking (some (group.addEscape found)) rest
  | '.' :: rest => taking group.addDot? rest
  | '^' :: rest => taking (some group.addStart) rest
  | '$' :: rest => taking (some group.addEnd) rest
  | char :: rest => taking (some (group.addChar char)) rest

def items? : Nat → State → List Char → Option State
  | 0, _, _ => none
  | bound + 1, state, text =>
    match state.group.flags.skip text with
    | [] => some state
    | text => do
      let (next, rest) ← step? state text
      items? bound next rest

/-- No pattern may have more steps than this when its repeats are written out. -/
def maxWeight : Nat := 300000

end Syntax

def parse? (pattern : String) : Option Regex := do
  let chars := pattern.toList
  let state ← Syntax.items? (chars.length + 1) { group := { flags := {} } } chars
  guard state.around.isEmpty
  let regex := state.group.value
  guard (regex.weight ≤ Syntax.maxWeight)
  return regex

end DeadExports.Pattern
