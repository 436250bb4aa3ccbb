import DeadExports.Path.Basic

set_option autoImplicit false

namespace DeadExports

inductive Outcome where
  | unchanged
  | pruned (removed passes : Nat)
  | deleted
deriving DecidableEq, Repr

namespace Outcome

def isChange : Outcome → Bool
  | unchanged => false
  | pruned _ _ | deleted => true

def removed : Outcome → Nat
  | pruned removed _ => removed
  | unchanged | deleted => 0

def merge : Outcome → Outcome → Outcome
  | _, deleted => deleted
  | deleted, _ => deleted
  | pruned removed passes, pruned more extra => pruned (removed + more) (passes + extra)
  | pruned removed passes, unchanged => pruned removed passes
  | unchanged, after => after

end Outcome

structure Failure where
  path : Path
  reason : String
deriving Repr

structure RunSummary where
  outcomes : List (Path × Outcome) := []
  failures : List Failure := []
  rounds : Nat := 0
deriving Repr

namespace RunSummary

def removed (summary : RunSummary) : Nat :=
  summary.outcomes.foldl (fun total entry => total + entry.2.removed) 0

def deleted (summary : RunSummary) : Nat := summary.outcomes.countP fun entry => entry.2 == .deleted

def isChange (summary : RunSummary) : Bool := summary.outcomes.any fun entry => entry.2.isChange

def putOutcome (path : Path) (outcome : Outcome) : List (Path × Outcome) → List (Path × Outcome)
  | [] => [(path, outcome)]
  | (key, before) :: rest =>
    if key == path then (key, before.merge outcome) :: rest
    else (key, before) :: putOutcome path outcome rest

def record (summary : RunSummary) (path : Path) (outcome : Outcome) : RunSummary :=
  { summary with outcomes := putOutcome path outcome summary.outcomes }

def fail (summary : RunSummary) (path : Path) (reason : String) : RunSummary :=
  if summary.failures.any fun failure => failure.path == path then summary
  else { summary with failures := summary.failures ++ [⟨path, reason⟩] }

end RunSummary
end DeadExports
