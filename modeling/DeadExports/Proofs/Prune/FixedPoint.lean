import DeadExports.Proofs.Prune.Alike
import DeadExports.Proofs.Prune.Progress

set_option autoImplicit false

namespace DeadExports

namespace Workspace

section Settled

variable {ι σ : Type} [FileStore σ] [LanguageService ι σ]

theorem removed_some (options : PruneOptions) (file : Path) (space last : Workspace ι σ)
    (count : Nat) (ran : (pass options file).run.run space = (.ok (.removed count), last)) :
    count ≠ 0 := by
  obtain ⟨m, unused, asked, found, filled, kept⟩ := removed_finds options file space last count ran
  obtain ⟨rest, removals, -, some, writes⟩ := pass_writes options file space asked m unused found
    filled kept
  rw [writes] at ran
  obtain ⟨_, written, -, ran⟩ := bind_ok _ _ asked last _ ran
  obtain ⟨_, emitted, -, ran⟩ := bind_ok _ _ written last _ ran
  obtain ⟨same, -⟩ := pure_ok _ _ emitted last ran
  rw [PassResult.removed.inj same]
  exact fun none => some (List.length_eq_zero_iff.mp none)

theorem settled_store (options : PruneOptions) (file : Path) (space last : Workspace ι σ)
    (ran : (pass options file).run.run space = (.ok .settled, last)) :
    last.store = space.store := by
  obtain ⟨m, unused, asked, found, ⟨-, -, rfl⟩ | ⟨-, -, other⟩ | ⟨-, -, _, other⟩⟩ :=
    pass_finds options file space last _ ran
  · exact (unused_of_listed file _ unused space last found.answered).2
  · cases other
  · cases other

theorem passes_unchanged (options : PruneOptions) (file : Path) (bound removed count : Nat)
    (space last : Workspace ι σ)
    (ran : (passes options file bound removed count).run.run space = (.ok .unchanged, last)) :
    removed = 0 ∧ (options.cleanup = false → last.store = space.store) := by
  induction bound generalizing removed count space with
  | zero => cases ran
  | succ bound ih =>
      rw [passes_turn] at ran
      split at ran
      next => cases ran
      next => cases ran
      next gone later passed =>
          have some := removed_some options file space later gone passed
          obtain ⟨none, -⟩ := ih _ _ later ran
          omega
      next later passed =>
          have outcome := settle_ok options file removed count _ later last ran
          refine ⟨?_, fun plain => ?_⟩
          · rw [outcomeOf] at outcome
            split at outcome
            next none => exact beq_iff_eq.mp none
            next => cases outcome
          · rw [settle, plain] at ran
            obtain ⟨-, rfl⟩ := pure_ok _ _ later last ran
            exact settled_store options file space last passed

theorem unchanged_store (options : PruneOptions) (file : Path) (space last : Workspace ι σ)
    (plain : options.cleanup = false)
    (ran : (pruneFile options file).run.run space = (.ok .unchanged, last)) :
    last.store = space.store := by
  obtain ⟨text, present⟩ := prune_file_read options file _ space last ran
  obtain ⟨ended, passed, store⟩ := prune_file_passes options file text space last _ present ran
  rw [store]
  exact (passes_unchanged options file _ 0 0 _ ended passed).2 plain

end Settled

end Workspace

theorem Outcome.merge_unchanged (outcome : Outcome) :
    (outcome.merge .unchanged).isChange = outcome.isChange := by
  cases outcome <;> rfl

theorem RunSummary.put_unchanged (path : Path) (outcomes : List (Path × Outcome)) :
    (putOutcome path .unchanged outcomes).any (fun entry => entry.2.isChange) = outcomes.any
      fun entry => entry.2.isChange := by
  induction outcomes with
  | nil => rfl
  | cons first rest ih =>
      rw [putOutcome]
      split
      next => rw [List.any_cons, List.any_cons, Outcome.merge_unchanged]
      next => rw [List.any_cons, List.any_cons, ih]

theorem RunSummary.fail_some (summary : RunSummary) (path : Path) (reason : String) :
    (summary.fail path reason).failures ≠ [] := by
  rw [fail]
  split
  next known =>
      intro none
      rw [none] at known
      cases known
  next => exact List.append_ne_nil_of_right_ne_nil _ (List.cons_ne_nil _ _)

namespace Run

section Rounds

variable {ι σ : Type} [FileStore σ] [LanguageService ι σ]

structure Quiet (run : Run ι σ) : Prop where
  unchanged : run.changed = false
  unfailing : run.summary.failures = []

theorem visit_quiet (options : PruneOptions) (run : Run ι σ) (target : Path)
    (quiet : (visit (Workspace.pruneFile options) run target).Quiet) :
    run.Quiet ∧ (FileStore.contains run.space.store target = true →
      ∃ later, (Workspace.pruneFile options target).run.run run.space =
        (.ok .unchanged, later)) := by
  rw [visit] at quiet
  split at quiet
  next held =>
      split at quiet
      next outcome later ran =>
          obtain ⟨unchanged, same⟩ := Bool.or_eq_false_iff.mp quiet.unchanged
          refine ⟨⟨unchanged, quiet.unfailing⟩, fun _ => ⟨later, ?_⟩⟩
          cases outcome with
          | unchanged => exact ran
          | pruned removed passes => cases same
          | deleted => cases same
      next cause later ran =>
          exact absurd quiet.unfailing
            (run.summary.fail_some target cause.message)
  next missing => exact ⟨quiet, fun held => absurd held missing⟩

theorem visits_quiet (options : PruneOptions) (targets : List Path) (run : Run ι σ)
    (quiet : (targets.foldl (visit (Workspace.pruneFile options)) run).Quiet) : run.Quiet := by
  induction targets generalizing run with
  | nil => exact quiet
  | cons target rest ih => exact (visit_quiet options run target (ih _ quiet)).1

theorem visit_unchanged (options : PruneOptions) (run : Run ι σ) (target : Path)
    (later : Workspace ι σ) (held : FileStore.contains run.space.store target = true)
    (ran : (Workspace.pruneFile options target).run.run run.space = (.ok .unchanged, later)) :
    visit (Workspace.pruneFile options) run target =
      { run with space := later, summary := run.summary.record target .unchanged } := by
  rw [visit, if_pos held, ran]
  dsimp only [Outcome.isChange]
  rw [Bool.or_false]

theorem visits_store (options : PruneOptions) (targets : List Path) (run : Run ι σ)
    (plain : options.cleanup = false)
    (quiet : (targets.foldl (visit (Workspace.pruneFile options)) run).Quiet) :
    (targets.foldl (visit (Workspace.pruneFile options)) run).space.store = run.space.store := by
  induction targets generalizing run with
  | nil => rfl
  | cons target rest ih =>
      rw [List.foldl_cons, ih _ quiet]
      obtain ⟨-, idle⟩ := visit_quiet options run target (visits_quiet options rest _ quiet)
      cases held : FileStore.contains run.space.store target with
      | false => rw [visit, held, if_neg Bool.false_ne_true]
      | true =>
          obtain ⟨later, ran⟩ := idle held
          rw [visit_unchanged options run target later held ran]
          exact Workspace.unchanged_store options target run.space later plain ran

theorem visit_rounds (options : PruneOptions) (run : Run ι σ) (target : Path) :
    (visit (Workspace.pruneFile options) run target).summary.rounds = run.summary.rounds := by
  rw [visit]
  split
  next =>
      split
      next => rfl
      next =>
          dsimp only
          rw [RunSummary.fail]
          split <;> rfl
  next => rfl

theorem round_rounds (options : PruneOptions) (targets : List Path) (number : Nat) (run : Run ι σ) :
    (round (Workspace.pruneFile options) targets number run).summary.rounds = number := by
  rw [round]
  exact List.foldlRecOn (motive := fun later : Run ι σ => later.summary.rounds = number) targets
    (visit (Workspace.pruneFile options)) rfl
    fun later same target _ => (visit_rounds options later target).trans same

def lastStart (options : PruneOptions) (targets : List Path) : Nat → Nat → Run ι σ → Run ι σ
  | 0, _, run => run
  | left + 1, number, run =>
    let next := round (Workspace.pruneFile options) targets number run
    if next.changed then lastStart options targets left (number + 1) next else run

theorem rounds_stop (options : PruneOptions) (targets : List Path) (left number : Nat)
    (run : Run ι σ) (counted : run.summary.rounds + 1 = number)
    (early : (rounds (Workspace.pruneFile options) targets left number run).summary.rounds <
      run.summary.rounds + left) :
    (rounds (Workspace.pruneFile options) targets left number run).changed = false ∧ ∃ last,
      rounds (Workspace.pruneFile options) targets left number run =
        round (Workspace.pruneFile options) targets last
          (lastStart options targets left number run) := by
  induction left generalizing number run with
  | zero => exact absurd early (Nat.lt_irrefl _)
  | succ left ih =>
      rw [rounds] at early
      rw [rounds, lastStart]
      have counts := round_rounds options targets number run
      split at early
      next changed =>
          rw [if_pos changed, if_pos changed]
          exact ih _ _ (by rw [counts]) (by omega)
      next changed =>
          rw [if_neg changed, if_neg changed]
          exact ⟨Bool.eq_false_iff.mpr changed, number, rfl⟩

theorem rounds_quiet (options : PruneOptions) (targets : List Path) (left number : Nat)
    (run : Run ι σ) (some : 0 < left)
    (quiet : (round (Workspace.pruneFile options) targets number run).Quiet) :
    rounds (Workspace.pruneFile options) targets left number run =
      round (Workspace.pruneFile options) targets number run := by
  obtain ⟨left, rfl⟩ := Nat.exists_eq_add_of_lt some
  rw [Nat.zero_add, rounds]
  exact if_neg (Bool.eq_false_iff.mp quiet.unchanged)

end Rounds

section Again

variable (options : PruneOptions) (targets : List Path)

theorem visit_attends (run : Run Project MemoryStore) (target : Path)
    (attends : run.space.service.Attends run.space.store) :
    (visit (Workspace.pruneFile options) run target).space.service.Attends
      (visit (Workspace.pruneFile options) run target).space.store := by
  have keeps := (Workspace.agrees_prune_file options target run.space run.space
    ⟨rfl, attends, attends⟩).2.left
  rw [visit]
  split
  next =>
      split
      next ran =>
          rw [ran] at keeps
          exact keeps
      next ran =>
          rw [ran] at keeps
          exact keeps
  next => exact attends

theorem visits_attend (run : Run Project MemoryStore)
    (attends : run.space.service.Attends run.space.store) :
    (targets.foldl (visit (Workspace.pruneFile options)) run).space.service.Attends
      (targets.foldl (visit (Workspace.pruneFile options)) run).space.store :=
  List.foldlRecOn (motive := fun later : Run Project MemoryStore =>
    later.space.service.Attends later.space.store)
    targets (visit (Workspace.pruneFile options)) attends
    fun later keeps target _ => visit_attends options later target keeps

theorem last_start_attends (left number : Nat) (run : Run Project MemoryStore)
    (attends : run.space.service.Attends run.space.store) :
    (lastStart options targets left number run).space.service.Attends
      (lastStart options targets left number run).space.store := by
  induction left generalizing number run with
  | zero => exact attends
  | succ left ih =>
      rw [lastStart]
      split
      next => exact ih _ _ (visits_attend options targets _ attends)
      next => exact attends

theorem visits_again (first second : Run Project MemoryStore)
    (alike : Workspace.Alike first.space second.space)
    (quiet : (targets.foldl (visit (Workspace.pruneFile options)) first).Quiet)
    (idle : second.Quiet) (still : second.summary.isChange = false) :
    Workspace.Alike (targets.foldl (visit (Workspace.pruneFile options)) first).space
      (targets.foldl (visit (Workspace.pruneFile options)) second).space ∧
      (targets.foldl (visit (Workspace.pruneFile options)) second).Quiet ∧
      (targets.foldl (visit (Workspace.pruneFile options)) second).summary.isChange = false := by
  induction targets generalizing first second with
  | nil => exact ⟨alike, idle, still⟩
  | cons target rest ih =>
      rw [List.foldl_cons, List.foldl_cons]
      obtain ⟨-, none⟩ := visit_quiet options first target (visits_quiet options rest _ quiet)
      cases held : FileStore.contains first.space.store target with
      | false =>
          have missing := held
          rw [alike.store] at missing
          have skips : visit (Workspace.pruneFile options) first target = first := by
            rw [visit, held, if_neg Bool.false_ne_true]
          have skipped : visit (Workspace.pruneFile options) second target = second := by
            rw [visit, missing, if_neg Bool.false_ne_true]
          rw [List.foldl_cons, skips] at quiet
          rw [skips, skipped]
          exact ih first second alike quiet idle still
      | true =>
          have present := held
          rw [alike.store] at present
          obtain ⟨later, ran⟩ := none held
          obtain ⟨same, after⟩ := Workspace.agrees_prune_file options target first.space
            second.space alike
          rw [ran] at same after
          have reran : (Workspace.pruneFile options target).run.run second.space =
              (.ok .unchanged, ((Workspace.pruneFile options target).run.run second.space).2) :=
                Prod.ext same.symm rfl
          rw [List.foldl_cons, visit_unchanged options first target later held ran] at quiet
          rw [visit_unchanged options first target later held ran,
            visit_unchanged options second target _ present reran]
          exact ih _ _ after quiet ⟨idle.unchanged, idle.unfailing⟩
            ((RunSummary.put_unchanged target _).trans still)

end Again

end Run

namespace Workspace

-- A recursive run that stops of itself leaves nothing to do, unless its last round tidied up a
-- file: that is no change to the round, although an import that goes with it may have been the last
-- use of an export.
theorem early_stop_is_final (options : PruneOptions) (targets : List Path)
    (space : Workspace Project MemoryStore) (attends : space.service.Attends space.store)
    (recursive : options.recursive = true)
    (early : (run options targets space).1.rounds < options.maxRounds)
    (unfailing : (run options targets space).1.failures = [])
    (untouched : options.cleanup = false ∨
      (Run.lastStart options targets options.roundLimit 1 { space }).space.store =
        (run options targets space).2.store) :
    Alike (run options targets space).2 (run options targets space).2 ∧
      ∀ again, Alike (run options targets space).2 again →
        (run options targets again).2.store = (run options targets space).2.store ∧
          (run options targets again).1.isChange = false ∧
          (run options targets again).1.failures = [] := by
  have limited : options.maxRounds ≤ options.roundLimit := by
    rw [PruneOptions.roundLimit, if_pos recursive]
    exact Nat.le_max_left _ _
  obtain ⟨unchanged, number, last⟩ := Run.rounds_stop options targets options.roundLimit 1
      { space } rfl (by
    change (run options targets space).1.rounds < 0 + options.roundLimit
    omega)
  have begun := Run.last_start_attends options targets options.roundLimit 1 { space } attends
  have quiet : (Run.rounds (pruneFile options) targets options.roundLimit 1 { space }).Quiet :=
    ⟨unchanged, unfailing⟩
  have ended : (run options targets space).2 = (Run.rounds (pruneFile options) targets
    options.roundLimit 1 { space }).space := rfl
  rw [last] at quiet ended
  rw [ended] at untouched ⊢
  generalize Run.lastStart options targets options.roundLimit 1 { space } = start
    at begun quiet untouched ⊢
  have same : start.space.store = (Run.round (pruneFile options) targets number
      start).space.store :=
    untouched.elim (fun plain => (Run.visits_store options targets _ plain quiet).symm) id
  have kept := Run.visits_attend options targets
    { start with summary.rounds := number, changed := false } begun
  refine ⟨⟨rfl, kept, kept⟩, fun again alike => ?_⟩
  obtain ⟨after, idle, still⟩ := Run.visits_again options targets
    { start with summary.rounds := number, changed := false }
    { space := again, summary := { rounds := 1 } } ⟨same.trans alike.store, begun, alike.right⟩
    quiet ⟨rfl, rfl⟩ rfl
  have stops : Run.rounds (pruneFile options) targets options.roundLimit 1 { space := again } =
      Run.round (pruneFile options) targets 1 { space := again } :=
    Run.rounds_quiet options targets _ 1 _ (by omega) idle
  change (Run.rounds (pruneFile options) targets options.roundLimit 1
    { space := again }).space.store = _ ∧
    (Run.rounds (pruneFile options) targets options.roundLimit 1
      { space := again }).summary.isChange = false ∧
    (Run.rounds (pruneFile options) targets options.roundLimit 1
      { space := again }).summary.failures = []
  rw [stops]
  exact ⟨after.store.symm, still, idle.unfailing⟩

def lonely : Workspace Project MemoryStore := fresh [(⟨"/a.ts"⟩, "export let x;\n")]

theorem second_round_is_final :
    (run { recursive := true } [⟨"/a.ts"⟩] lonely).1.rounds = 2 ∧
    (run { recursive := true } [⟨"/a.ts"⟩] lonely).1.removed = 1 ∧
      (run { recursive := true } [⟨"/a.ts"⟩]
        (run { recursive := true } [⟨"/a.ts"⟩] lonely).2).1.isChange = false := by
  have ends := early_stop_is_final { recursive := true } [⟨"/a.ts"⟩] lonely
    (Project.empty_attends _) rfl
    (by decide +kernel) (List.isEmpty_iff.mp (by decide +kernel)) (.inl rfl)
  exact ⟨by decide +kernel, by decide +kernel, (ends.2 _ ends.1).2.1⟩

def idleImport : Workspace Project MemoryStore :=
  fresh [(⟨"/a.ts"⟩, "export let x;\n"), (⟨"/b.ts"⟩, "import { x } from './a';\n")]

def tidying : PruneOptions := { recursive := true, cleanup := true }

theorem tidying_leaves_work :
    ((run tidying [⟨"/a.ts"⟩, ⟨"/b.ts"⟩] idleImport).1.rounds < tidying.maxRounds ∧
        (run tidying [⟨"/a.ts"⟩, ⟨"/b.ts"⟩] idleImport).1.failures.isEmpty = true ∧
        (run tidying [⟨"/a.ts"⟩, ⟨"/b.ts"⟩] idleImport).1.isChange = false ∧
        (run tidying [⟨"/a.ts"⟩, ⟨"/b.ts"⟩] idleImport).2.store.get? ⟨"/a.ts"⟩ =
          some "export let x;\n") ∧
      (run tidying [⟨"/a.ts"⟩, ⟨"/b.ts"⟩]
        (run tidying [⟨"/a.ts"⟩, ⟨"/b.ts"⟩] idleImport).2).1.isChange = true ∧
        (run tidying [⟨"/a.ts"⟩, ⟨"/b.ts"⟩]
          (run tidying [⟨"/a.ts"⟩, ⟨"/b.ts"⟩] idleImport).2).2.store.get? ⟨"/a.ts"⟩ =
          some "" := by
  decide +kernel

end Workspace
end DeadExports
