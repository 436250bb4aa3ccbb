import DeadExports.Usage.Chain

set_option autoImplicit false

/-!
Whether an export is used. It is when a file other than its own refers to one of its names; a name
that is only handed on is not used by the files it comes through. Where no answer can be had, the
export counts as used.
-/

namespace DeadExports

inductive Verdict where
  | used
  | unused
deriving DecidableEq, Repr

namespace Verdict

def label : Verdict → String
  | used => "used"
  | unused => "unused"

end Verdict

namespace Candidate

variable {ι σ : Type} [FileStore σ] [SourceParser ι σ] [LanguageService ι σ]

def isUsedBy (service : ι) (store : σ) (file : Path) (candidate : Candidate)
    (references : List Reference) : Bool × ι :=
  let others := references.filter fun reference => !(reference.file == file)
  match candidate.specifier with
  | none => (!others.isEmpty, service)
  | some specifier =>
    match Chain.find service store file specifier references with
    | (none, later) => (true, later)
    | (some chain, later) => (others.any fun reference => !chain.contains reference.file, later)

def classifyAt (store : σ) (file : Path) (candidate : Candidate) :
    List Nat → ι → Except AnalysisError Verdict × ι
  | [], service => (.ok .unused, service)
  | position :: rest, service =>
    match LanguageService.findReferences service store file position with
    | (.error (.noSymbol _ _), later) => (.ok .used, later)
    | (.error cause, later) => (.error cause, later)
    | (.ok references, later) =>
      match candidate.isUsedBy later store file references with
      | (true, last) => (.ok .used, last)
      | (false, last) => classifyAt store file candidate rest last

def classify (service : ι) (store : σ) (file : Path) (candidate : Candidate) :
    Except AnalysisError Verdict × ι :=
  classifyAt store file candidate candidate.positions service

end Candidate
end DeadExports
