import DeadExports.Prune.Pass

set_option autoImplicit false

namespace DeadExports

structure Run (ι σ : Type) where
  space : Workspace ι σ
  summary : RunSummary := {}
  changed : Bool := false

namespace Run

variable {ι σ : Type} [FileStore σ] (work : Path → PruneM ι σ Outcome)

def visit (run : Run ι σ) (target : Path) : Run ι σ :=
  if FileStore.contains run.space.store target then
    match (work target).run.run run.space with
    | (.ok outcome, space) =>
      { space
        summary := run.summary.record target outcome
        changed := run.changed || outcome.isChange }
    | (.error cause, space) =>
      { run with space, summary := run.summary.fail target cause.message }
  else run

def round (targets : List Path) (number : Nat) (run : Run ι σ) : Run ι σ :=
  targets.foldl (visit work)
    { run with summary.rounds := number, changed := false }

def rounds (targets : List Path) : Nat → Nat → Run ι σ → Run ι σ
  | 0, _, run => run
  | left + 1, number, run =>
    let next := round work targets number run
    if next.changed then rounds targets left (number + 1) next else next

end Run

def PruneOptions.roundLimit (options : PruneOptions) : Nat :=
  if options.recursive then max options.maxRounds 1 else 1

namespace Workspace

variable {ι σ : Type} [FileStore σ] [SourceParser ι σ] [LanguageService ι σ]

def runWithin (bound : String → Nat) (options : PruneOptions) (targets : List Path)
    (space : Workspace ι σ) :
    RunSummary × Workspace ι σ :=
  let last := Run.rounds (pruneWithin bound options) targets options.roundLimit 1 { space }
  (last.summary, last.space)

def run (options : PruneOptions) (targets : List Path) (space : Workspace ι σ) :
    RunSummary × Workspace ι σ :=
  runWithin passBound options targets space

end Workspace
end DeadExports
