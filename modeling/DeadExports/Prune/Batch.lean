import DeadExports.Candidate.Basic
import DeadExports.Error
import DeadExports.Text.Change
import DeadExports.Text.Line
import DeadExports.Trace.Basic

set_option autoImplicit false

/-!
The edits of one pass over a file. A statement goes as a whole when it exports nothing else; a
declaration loses only what stands before it; of a list of exports the unused specifiers are cut out
with their commas. At most one list is cut in a pass, and the unused specifiers of further lists are
left to the next pass.
-/

namespace DeadExports

structure Batch where
  changes : List Change := []
  removals : List Removal := []
  deferred : Nat := 0
deriving Repr

namespace Batch

def isEmpty (batch : Batch) : Bool := batch.changes.isEmpty

def removalOf (text : String) (code : Span) : Removal :=
  let (line, column) := Text.lineColumn text code.start
  { line, column, offset := code.start, code := Text.under text code }

def record (batch : Batch) (text : String) (code : Span) : Batch :=
  { batch with removals := batch.removals ++ [removalOf text code] }

def remove (batch : Batch) (text : String) (span code : Span) : Batch :=
  { batch with changes := batch.changes ++ [Change.delete span] }.record text code

def insertSpan (span : Span) : List Span → List Span
  | [] => [span]
  | last :: merged =>
    if span.start ≤ last.stop then ⟨last.start, max last.stop span.stop⟩ :: merged
    else span :: last :: merged

def mergeSpans (spans : List Span) : List Span :=
  ((spans.mergeSort Span.atMost).foldl (fun merged span => insertSpan span merged) []).reverse

def commaBetween? (clause : Clause) (start stop : Nat) : Option Span :=
  clause.commas.find? fun comma => decide (start ≤ comma.start) && decide (comma.stop ≤ stop)

def lastKept? (clause : Clause) (removed : Span → Bool) : Option Span :=
  (clause.specifiers.filter fun span => !removed span).getLast?

def cutWithComma (text : String) (specifier comma : Span) : Span :=
  (Text.ownLine? text ⟨specifier.start, comma.stop⟩).getD
    ⟨specifier.start, Text.skipBlanks text comma.stop⟩

def cutWithoutComma (text : String) (clause : Clause) (kept specifier : Span) : List Span :=
  let line? := Text.ownLine? text specifier
  let own := line?.getD ⟨Text.skipBlanksBack text specifier.start, specifier.stop⟩
  match commaBetween? clause kept.stop specifier.start with
  | some comma =>
    [own, ⟨comma.start, if line?.isSome then comma.stop else Text.skipBlanks text comma.stop⟩]
  | none => [own]

def cutsOf (text : String) (clause : Clause) (kept specifier : Span) (bound : Nat) : List Span :=
  match commaBetween? clause specifier.stop bound with
  | some comma => [cutWithComma text specifier comma]
  | none => cutWithoutComma text clause kept specifier

def withBounds (stop : Nat) : List Span → List (Span × Nat)
  | [] => []
  | [last] => [(last, stop)]
  | specifier :: next :: rest => (specifier, next.start) :: withBounds stop (next :: rest)

def clauseCuts (text : String) (clause : Clause) (removed : Span → Bool) : List Span :=
  match lastKept? clause removed with
  | none => []
  | some kept =>
    mergeSpans ((withBounds clause.span.stop clause.specifiers).flatMap fun (specifier, bound) =>
      if removed specifier then cutsOf text clause kept specifier bound else [])

structure Plan where
  batch : Batch := {}
  handled : List Span := []
  hasCut : Bool := false

def inClause (unused : List Candidate) (span : Span) : List Candidate :=
  unused.filter fun candidate => candidate.clause.map Clause.span == some span

def planClause (text : String) (unused : List Candidate) (candidate : Candidate) (clause : Clause)
    (plan : Plan) : Plan :=
  if plan.handled.contains clause.span then plan
  else
    let siblings := inClause unused clause.span
    let next := { plan with handled := plan.handled ++ [clause.span] }
    if clause.specifiers.length ≤ siblings.length then
      { next with batch :=
          next.batch.remove text (Text.lineExtent text candidate.statement) candidate.statement }
    else if plan.hasCut then
      { next with batch.deferred := next.batch.deferred + siblings.length }
    else
      let cuts := clauseCuts text clause fun span => siblings.any fun sibling =>
        sibling.node == span
      let cut := { next.batch with changes := next.batch.changes ++ cuts.map Change.delete }
      { next with
        hasCut := true
        batch := siblings.foldl (fun batch sibling => batch.record text sibling.node) cut }

def planCandidate (file : Path) (text : String) (unused : List Candidate) (plan : Plan)
    (candidate : Candidate) : Except PruneError Plan :=
  match candidate.kind with
  | .specifier =>
    match candidate.clause with
    | some clause => .ok (planClause text unused candidate clause plan)
    | none => .error (.missingClause file candidate.node.start)
  | .defaultValue =>
    .ok { plan with batch :=
            plan.batch.remove text (Text.lineExtent text candidate.statement) candidate.statement }
  | .variableList | .function | .classLike | .interface | .typeAlias =>
    match candidate.exportWord with
    | some word =>
      let before : Span := ⟨word.start, candidate.node.start⟩
      .ok { plan with batch := plan.batch.remove text before before }
    | none => .error (.missingExportWord file candidate.statement.start)

def plan (file : Path) (text : String) (unused : List Candidate) : Except PruneError Batch := do
  let plan ← unused.foldlM (planCandidate file text unused) {}
  return plan.batch

end Batch
end DeadExports
