import DeadExports.Text.Basic

set_option autoImplicit false

namespace DeadExports.Pattern

inductive Flag where
  | ignoreCase
  | multiLine
  | dotAll
  | swapGreed
  | unicode
  | returns
  | extended
deriving DecidableEq, Repr

def Flag.ofLetter? : Char → Option Flag
  | 'i' => some ignoreCase
  | 'm' => some multiLine
  | 's' => some dotAll
  | 'U' => some swapGreed
  | 'u' => some unicode
  | 'R' => some returns
  | 'x' => some extended
  | _ => none

structure Flags where
  set : List Flag := [.unicode]
deriving DecidableEq, Repr

namespace Flags

def has (flags : Flags) (flag : Flag) : Bool := flags.set.contains flag

def change (flags : Flags) (flag : Flag) (on : Bool) : Flags :=
  if on then ⟨flag :: flags.set⟩ else ⟨flags.set.filter fun other => other != flag⟩

def changeAll (flags : Flags) (changes : List (Flag × Bool)) : Flags :=
  changes.foldl (fun flags entry => flags.change entry.1 entry.2) flags

def readChanges (on : Bool) (found : List (Flag × Bool)) : List Char →
    Option (List (Flag × Bool) × Char × List Char)
  | [] => none
  | char :: rest =>
    if char == ':' || char == ')' then some (found, char, rest)
    else if char == '-' then
      match rest with
      | next :: _ =>
        if on && next != ':' && next != ')' then readChanges false found rest else none
      | [] => none
    else
      match Flag.ofLetter? char with
      | none => none
      | some flag =>
        if found.any fun entry => entry.1 == flag then none
        else readChanges on (found ++ [(flag, on)]) rest

def skipExtended (inComment : Bool) : List Char → List Char
  | [] => []
  | char :: rest =>
    if inComment then skipExtended (char != '\n') rest
    else if Text.isWhite char then skipExtended false rest
    else if char == '#' then skipExtended true rest
    else char :: rest

def skip (flags : Flags) (text : List Char) : List Char :=
  if flags.has .extended then skipExtended false text else text

end Flags
end DeadExports.Pattern
