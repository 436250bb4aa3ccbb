import DeadExports.Prune.Batch
import DeadExports.Prune.Outcome
import DeadExports.Prune.Workspace
import DeadExports.Usage.Verdict

set_option autoImplicit false

namespace DeadExports

structure PruneOptions where
  deleteFiles : Bool := false
  cleanup : Bool := false
  recursive : Bool := false
  maxRounds : Nat := 10
  skipMarker : String := defaultMarker
deriving DecidableEq, Repr

inductive PassResult where
  | settled
  | removed (count : Nat)
  | deleted
deriving DecidableEq, Repr

namespace Workspace

section Tidying

variable {ι σ : Type} [FileStore σ] [LanguageService ι σ]

def maxDeclarationRounds : Nat := 64

def applyFix (fix : Fix) (file : Path) (current : String) : PruneM ι σ String := do
  let next ← ask fun service store => LanguageService.applyFix service store fix file
  if next == current then return current
  write file next
  return next

def removeDeclarations (file : Path) : Nat → String → PruneM ι σ String
  | 0, current => return current
  | rounds + 1, current => do
    let next ← applyFix .unusedDeclarations file current
    if next == current then return current
    removeDeclarations file rounds next

def tidy (file : Path) : PruneM ι σ Bool := do
  let text ← read file
  let declared ← removeDeclarations file maxDeclarationRounds text
  let final ← applyFix .unusedImports file declared
  return final != text

end Tidying

variable {ι σ : Type} [FileStore σ] [SourceParser ι σ] [LanguageService ι σ]

def unusedOf (file : Path) (candidates : List Candidate) : PruneM ι σ (List Candidate) :=
  candidates.filterM fun candidate => do
    let verdict ← ask fun service store => candidate.classify service store file
    return verdict == .unused

def mayDelete (options : PruneOptions) (scan : Scan) (unused : List Candidate) : Bool :=
  unused.length == scan.exportCount && !scan.hasWildcard && options.deleteFiles

def deleteFile (file : Path) : PruneM ι σ PassResult := do
  delete file
  emit (.deleted file)
  return .deleted

def removeFrom (file : Path) (text : String) (unused : List Candidate) : PruneM ι σ PassResult := do
  let batch ← ofExcept id (Batch.plan file text unused)
  match Change.applyAll? text batch.changes with
  | none => throw (.noProgress file)
  | some edited =>
    if edited == text then throw (.noProgress file)
    write file edited
    batch.removals.forM fun removal => emit (.removed file removal)
    return .removed batch.removals.length

def pass (options : PruneOptions) (file : Path) : PruneM ι σ PassResult := do
  let m ← load file
  if m.hasErrors then throw (.brokenSource file)
  let scan := m.scan options.skipMarker
  let unused ← unusedOf file scan.candidates
  if unused.isEmpty then return .settled
  if mayDelete options scan unused then deleteFile file
  else removeFrom file m.text unused

def outcomeOf (removed passes : Nat) : Outcome :=
  if removed == 0 then .unchanged else .pruned removed passes

def passes (options : PruneOptions) (file : Path) : Nat → Nat → Nat → PruneM ι σ Outcome
  | 0, _, _ => throw (.noProgress file)
  | bound + 1, removed, count => do
    match ← pass options file with
    | .deleted => return .deleted
    | .removed more => passes options file bound (removed + more) (count + 1)
    | .settled =>
      if options.cleanup then discard (tidy file)
      return outcomeOf removed count

def session (options : PruneOptions) (file : Path) (text : String) (bound : Nat) :
    PruneM ι σ Outcome := do
  emit (.opened file text)
  let result ← observing (passes options file bound 0 0)
  emit (.closed file)
  ofExcept id result

def pruneWithin (bound : String → Nat) (options : PruneOptions) (file : Path) :
    PruneM ι σ Outcome := do
  let text ← read file
  session options file text (bound text)

/-- Each pass makes the text shorter, so no more than these can follow one another. -/
def passBound (text : String) : Nat := Text.size text + 1

def pruneFile (options : PruneOptions) (file : Path) :
    PruneM ι σ Outcome := pruneWithin passBound options file

end Workspace
end DeadExports
