import DeadExports.Pattern.CaseFold
import DeadExports.Pattern.Category
import DeadExports.Text.Basic

set_option autoImplicit false

namespace DeadExports.Pattern

inductive CharClass where
  | nothing
  | range (first last : Nat)
  | category (major : Char) (minor : Option Char)
  | white
  | union (a b : CharClass)
  | intersection (a b : CharClass)
  | complement (a : CharClass)
  | anyCase (a : CharClass)
deriving DecidableEq, Repr

namespace CharClass

def contains : CharClass → Char → Bool
  | nothing, _ => false
  | range first last, char => decide (first ≤ char.toNat) && decide (char.toNat ≤ last)
  | category major minor, char =>
    let found := Category.ofChar char
    found.major == major && (minor.all fun letter => found.minor == letter)
  | white, char => Text.isWhite char
  | union a b, char => a.contains char || b.contains char
  | intersection a b, char => a.contains char && b.contains char
  | complement a, char => !a.contains char
  | anyCase a, char => (CaseFold.variants char).any a.contains

def single (char : Char) : CharClass := range char.toNat char.toNat

def unionOf (classes : List CharClass) : CharClass := classes.foldl union nothing

def difference (a b : CharClass) : CharClass := intersection a (complement b)

def symmetricDifference (a b : CharClass) : CharClass :=
  difference (union a b) (intersection a b)

def everything : CharClass := range 0 0x10FFFF

def ascii : CharClass := range 0 0x7F

def chars (first last : Char) : CharClass := range first.toNat last.toNat

def digit : CharClass := category 'N' (some 'd')

def letterLike : CharClass :=
  unionOf [category 'L' none, category 'N' (some 'l'), range 0x24B6 0x24E9, range 0x1F130 0x1F149,
    range 0x1F150 0x1F169, range 0x1F170 0x1F189]

def word : CharClass :=
  unionOf [chars 'a' 'z', letterLike, category 'M' none, digit, category 'P' (some 'c'),
    range 0x200C 0x200D]

def asciiDigit : CharClass := chars '0' '9'

def asciiLower : CharClass := chars 'a' 'z'

def asciiUpper : CharClass := chars 'A' 'Z'

def asciiLetter : CharClass := union asciiLower asciiUpper

def asciiSpace : CharClass := union (range 9 13) (single ' ')

def asciiWord : CharClass := unionOf [asciiLetter, asciiDigit, single '_']

def asciiPunctuation : CharClass :=
  unionOf [chars '!' '/', chars ':' '@', chars '[' '`', range 0x7B 0x7E]

def ofName? : String → Option CharClass
  | "alnum" => some (union asciiLetter asciiDigit)
  | "alpha" => some asciiLetter
  | "ascii" => some ascii
  | "blank" => some (union (single ' ') (single '\t'))
  | "cntrl" => some (union (range 0 0x1F) (single '\x7f'))
  | "digit" => some asciiDigit
  | "graph" => some (chars '!' '~')
  | "lower" => some asciiLower
  | "print" => some (chars ' ' '~')
  | "punct" => some asciiPunctuation
  | "space" => some asciiSpace
  | "upper" => some asciiUpper
  | "word" => some asciiWord
  | "xdigit" => some (unionOf [asciiDigit, chars 'A' 'F', chars 'a' 'f'])
  | _ => none

def categoryNames : List (String × String) := [
  ("letter", "L"), ("uppercaseletter", "Lu"), ("lowercaseletter", "Ll"), ("titlecaseletter", "Lt"),
  ("modifierletter", "Lm"), ("otherletter", "Lo"), ("mark", "M"), ("combiningmark", "M"),
  ("nonspacingmark", "Mn"), ("spacingmark", "Mc"), ("enclosingmark", "Me"), ("number", "N"),
  ("decimalnumber", "Nd"), ("letternumber", "Nl"), ("othernumber", "No"), ("punctuation", "P"),
  ("punct", "P"), ("connectorpunctuation", "Pc"), ("dashpunctuation", "Pd"),
  ("openpunctuation", "Ps"), ("closepunctuation", "Pe"), ("initialpunctuation", "Pi"),
  ("finalpunctuation", "Pf"), ("otherpunctuation", "Po"), ("symbol", "S"), ("mathsymbol", "Sm"),
  ("currencysymbol", "Sc"), ("modifiersymbol", "Sk"), ("othersymbol", "So"), ("separator", "Z"),
  ("spaceseparator", "Zs"), ("lineseparator", "Zl"), ("paragraphseparator", "Zp"), ("other", "C"),
  ("control", "Cc"), ("cntrl", "Cc"), ("format", "Cf"), ("privateuse", "Co"), ("surrogate", "Cs"),
  ("unassigned", "Cn")]

def ofCategory? (name : String) : Option CharClass := do
  let letters := ((categoryNames.find? fun entry => entry.1 == name).map Prod.snd).getD name
  let found ← (categoryNames.find? fun entry => entry.2.toLower == letters.toLower).map Prod.snd
  match found.toList with
  | [major] => some (category major none)
  | [major, minor] => some (category major (some minor))
  | _ => none

def plainName (name : String) : String :=
  let chars := (name.toLower.toList).filter fun char => !(char == ' ' || char == '-' || char == '_')
  match chars with
  | 'i' :: 's' :: rest => if rest.isEmpty then String.ofList chars else String.ofList rest
  | _ => String.ofList chars

def ofProperty? (name : String) : Option CharClass :=
  match plainName name with
  | "any" => some everything
  | "ascii" => some ascii
  | "assigned" => some (complement (category 'C' (some 'n')))
  | "lc" | "casedletter" =>
    some (unionOf [category 'L' (some 'u'), category 'L' (some 'l'), category 'L' (some 't')])
  | "whitespace" | "wspace" | "space" => some white
  | plain => ofCategory? plain

def ofPropertyValue? (property value : String) : Option CharClass :=
  let plain := plainName property
  if plain == "gc" || plain == "generalcategory" then ofProperty? value else none

end CharClass
end DeadExports.Pattern
