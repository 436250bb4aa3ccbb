import DeadExports.Pattern.Escape

set_option autoImplicit false

namespace DeadExports.Pattern.Bracket

inductive Operator where
  | intersection
  | difference
  | symmetricDifference
deriving DecidableEq, Repr

def Operator.apply : Operator → CharClass → CharClass → CharClass
  | intersection => .intersection
  | difference => .difference
  | symmetricDifference => .symmetricDifference

structure Open where
  negated : Bool
  left : Option (CharClass × Operator) := none
  union : CharClass := .nothing

def folded (flags : Flags) (chars : CharClass) : CharClass :=
  if flags.has .ignoreCase then
    if flags.has .unicode then .anyCase chars
    else .union chars (.intersection .ascii (.anyCase (.intersection .ascii chars)))
  else chars

namespace Open

def add (opened : Open) (chars : CharClass) :
    Open := { opened with union := .union opened.union chars }

def value (flags : Flags) (opened : Open) : CharClass :=
  match opened.left with
  | none => folded flags opened.union
  | some (left, operator) => operator.apply left (folded flags opened.union)

def operate (flags : Flags) (opened : Open) (operator : Operator) : Open :=
  { opened with left := some (opened.value flags, operator), union := .nothing }

def finish? (flags : Flags) (opened : Open) : Option CharClass :=
  if opened.negated then
    if flags.has .unicode then some (.complement (opened.value flags)) else none
  else some (opened.value flags)

end Open

def leading (opened : Open) : List Char → Open × List Char
  | '-' :: rest => leading (opened.add (.single '-')) rest
  | ']' :: rest =>
    if opened.union == .nothing then (opened.add (.single ']'), rest) else (opened, ']' :: rest)
  | text => (opened, text)

def start (flags : Flags) (text : List Char) : Open × List Char :=
  match flags.skip text with
  | '^' :: rest => leading { negated := true } (flags.skip rest)
  | rest => leading { negated := false } rest

def named? (text : List Char) : Option (CharClass × List Char) :=
  match text with
  | ':' :: rest =>
    let (negated, body) := match rest with
      | '^' :: body => (true, body)
      | body => (false, body)
    let name := body.takeWhile (· != ':')
    match body.drop name.length with
    | ':' :: ']' :: rest =>
      (CharClass.ofName? (String.ofList name)).map fun found =>
        (if negated then .complement found else found, rest)
    | _ => none
  | _ => none

def item? (flags : Flags) : List Char → Option (Escape × List Char)
  | [] => none
  | '\\' :: rest => Escape.read? flags rest
  | char :: rest => some (.literal char, rest)

/-- Characters beyond the plain ones need Unicode. -/
def allowed (flags : Flags) (char : Char) : Bool := flags.has .unicode || decide (char.toNat < 0x80)

def classOf? (flags : Flags) : Escape → Option CharClass
  | .literal char => if allowed flags char then some (.single char) else none
  | .charClass chars => some chars
  | .anchor _ => none

def isRange (flags : Flags) (text : List Char) : Bool :=
  match flags.skip text with
  | ']' :: _ => false
  | '-' :: _ => false
  | _ => true

def range? (flags : Flags) (text : List Char) : Option (CharClass × List Char) := do
  let (first, rest) ← item? flags text
  match flags.skip rest with
  | [] => none
  | '-' :: behind =>
    if isRange flags behind then
      let (last, rest) ← item? flags (flags.skip behind)
      match first, last with
      | .literal a, .literal b =>
        guard (a.toNat ≤ b.toNat && allowed flags a && allowed flags b)
        return (.range a.toNat b.toNat, rest)
      | _, _ => none
    else return (← classOf? flags first, '-' :: behind)
  | rest => return (← classOf? flags first, rest)

def rest? (flags : Flags) : Nat → List Open → Open → List Char → Option (CharClass × List Char)
  | 0, _, _, _ => none
  | bound + 1, outer, opened, text =>
    match flags.skip text with
    | [] => none
    | '[' :: rest =>
      match named? rest with
      | some (chars, rest) => rest? flags bound outer (opened.add chars) rest
      | none =>
        let (inner, rest) := start flags rest
        rest? flags bound (opened :: outer) inner rest
    | ']' :: rest => do
      let chars ← opened.finish? flags
      match outer with
      | [] => return (chars, rest)
      | around :: outer => rest? flags bound outer (around.add chars) rest
    | '&' :: '&' :: rest => rest? flags bound outer (opened.operate flags .intersection) rest
    | '-' :: '-' :: rest => rest? flags bound outer (opened.operate flags .difference) rest
    | '~' :: '~' :: rest => rest? flags bound outer (opened.operate flags .symmetricDifference) rest
    | item => do
      let (chars, rest) ← range? flags item
      rest? flags bound outer (opened.add chars) rest

def read? (flags : Flags) (text : List Char) : Option (CharClass × List Char) :=
  let (opened, rest) := start flags text
  rest? flags (text.length + 1) [] opened rest

end DeadExports.Pattern.Bracket
