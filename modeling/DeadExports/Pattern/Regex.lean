import DeadExports.Pattern.CharClass

set_option autoImplicit false

namespace DeadExports.Pattern

inductive Anchor where
  | textStart
  | textEnd
  | lineStart (returns : Bool)
  | lineEnd (returns : Bool)
  | wordEdge (word : CharClass) (allowed : List (Bool × Bool))
deriving DecidableEq, Repr

namespace Anchor

def isIn (charClass : CharClass) (text : Array Char) (index : Nat) : Bool :=
  (text[index]?.map charClass.contains).getD false

def before? (text : Array Char) (place : Nat) : Option Char :=
  if place = 0 then none else text[place - 1]?

def holds (text : Array Char) (place : Nat) : Anchor → Bool
  | textStart => place == 0
  | textEnd => place == text.size
  | lineStart returns =>
    place == 0 || before? text place == some '\n' ||
      (returns && before? text place == some '\r' && text[place]? != some '\n')
  | lineEnd returns =>
    place == text.size ||
      (text[place]? == some '\n' && !(returns && before? text place == some '\r')) ||
      (returns && text[place]? == some '\r')
  | wordEdge word allowed =>
    let earlier := ((before? text place).map word.contains).getD false
    allowed.contains (earlier, isIn word text place)

end Anchor

inductive Regex where
  | empty
  | one (charClass : CharClass)
  | anchor (condition : Anchor)
  | sequence (first second : Regex)
  | either (first second : Regex)
  | times (body : Regex) (least : Nat) (most : Option Nat)
deriving DecidableEq, Repr

namespace Regex

def merge (a b : List Nat) : List Nat := a ++ b.filter fun place => !a.contains place

def iterate (step : List Nat → List Nat) : Nat → List Nat → List Nat
  | 0, places => places
  | count + 1, places => iterate step count (step places)

def spread (step : List Nat → List Nat) : Nat → List Nat → List Nat
  | 0, places => places
  | count + 1, places =>
    let next := merge places (step places)
    if next.length = places.length then places else spread step count next

def reach (text : Array Char) : Regex → List Nat → List Nat
  | empty, places => places
  | one charClass, places =>
    (places.filter (Anchor.isIn charClass text)).map (· + 1)
  | anchor condition, places => places.filter fun place => condition.holds text place
  | sequence first second, places => second.reach text (first.reach text places)
  | either first second, places => merge (first.reach text places) (second.reach text places)
  | times body least most, places =>
    let start := iterate (body.reach text) least places
    let extra := match most with
      | some most => min (most - least) (text.size + 1)
      | none => text.size + 1
    spread (body.reach text) extra start

def isMatch (regex : Regex) (text : String) : Bool :=
  let chars := text.toList.toArray
  !(regex.reach chars (List.range (chars.size + 1))).isEmpty

def weight : Regex → Nat
  | empty => 0
  | one _ | anchor _ => 1
  | sequence first second => first.weight + second.weight
  | either first second => first.weight + second.weight + 1
  | times body least most => body.weight * max 1 (most.getD (least + 1)) + 1

end Regex
end DeadExports.Pattern
