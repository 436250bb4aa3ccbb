import DeadExports.Proofs.Prune.Workspace
import DeadExports.Proofs.Usage.Unused
import DeadExports.Prune.Pass

set_option autoImplicit false

namespace DeadExports

def Candidate.isUnused (store : MemoryStore) (file : Path) (candidate : Candidate) : Bool :=
  match candidate.verdict store file with
  | .ok .unused => true
  | _ => false

theorem Candidate.is_unused_iff (store : MemoryStore) (file : Path) (candidate : Candidate) :
    candidate.isUnused store file = true ↔ candidate.verdict store file = .ok .unused := by
  rw [isUnused]
  rcases candidate.verdict store file with cause | _ | _ <;> simp

def SourceModule.unused (m : SourceModule) (marker : String) (store : MemoryStore) (file : Path) :
    List Candidate :=
  (m.scan marker).candidates.filter (Candidate.isUnused store file)

theorem SourceModule.mem_unused (m : SourceModule) (marker : String) (store : MemoryStore)
    (file : Path) (candidate : Candidate) :
    candidate ∈ m.unused marker store file ↔
      candidate ∈ (m.scan marker).candidates ∧ candidate.verdict store file = .ok .unused := by
  rw [unused, List.mem_filter, Candidate.is_unused_iff]

structure Sweep where
  before : MemoryStore
  unused : List Candidate
  after : MemoryStore

namespace Sweep

variable (options : PruneOptions) (file : Path)

def of? (store : MemoryStore) : Option Sweep := do
  let m ← (SourceModule.load store file).toOption
  let unused := m.unused options.skipMarker store file
  if unused.isEmpty || Workspace.mayDelete options (m.scan options.skipMarker) unused then none
  else
    let batch ← (Batch.plan file m.text unused).toOption
    let edited ← Change.applyAll? m.text batch.changes
    return { before := store, unused, after := store.insert file edited }

def within : Nat → MemoryStore → List Sweep
  | 0, _ => []
  | bound + 1, store =>
    match of? options file store with
    | none => []
    | some sweep => sweep :: within bound sweep.after

def all (store : MemoryStore) : List Sweep :=
  within options file (Text.size ((store.get? file).getD "") + 1) store

def settled (store : MemoryStore) (sweeps : List Sweep) :
    MemoryStore := sweeps.foldl (fun _ sweep => sweep.after) store

variable {options file}

theorem of_edits (store : MemoryStore) (sweep : Sweep)
    (found : of? options file store = some sweep) :
    sweep.before = store ∧ ∃ m batch edited, SourceModule.load store file = .ok m ∧
      sweep.unused = m.unused options.skipMarker store file ∧ sweep.unused ≠ [] ∧
      Batch.plan file m.text sweep.unused = .ok batch ∧ Change.applyAll? m.text batch.changes =
        some edited ∧
      sweep.after = store.insert file edited := by
  obtain ⟨m, loaded, rest⟩ := Option.bind_eq_some_iff.mp found
  dsimp only at rest
  split at rest
  next => cases rest
  next some =>
      rw [Bool.or_eq_true, List.isEmpty_iff, not_or] at some
      obtain ⟨batch, planned, rest⟩ := Option.bind_eq_some_iff.mp rest
      obtain ⟨edited, applied, same⟩ := Option.bind_eq_some_iff.mp rest
      obtain rfl := Option.some.inj same
      exact ⟨rfl, m, batch, edited, except_some loaded, rfl, some.1, except_some planned,
        applied, rfl⟩

theorem of_cases (store : MemoryStore) (sweep : Sweep)
    (found : of? options file store = some sweep) :
    sweep.before = store ∧ ∃ m edited, SourceModule.load store file = .ok m ∧
      sweep.unused = m.unused options.skipMarker store file ∧
      sweep.after = store.insert file edited := by
  obtain ⟨before, m, batch, edited, loaded, unused, -, -, -, after⟩ := of_edits store sweep found
  exact ⟨before, m, edited, loaded, unused, after⟩

theorem within_keeps (holds : MemoryStore → Prop) (bound : Nat) (store : MemoryStore)
    (start : holds store)
    (step : ∀ sweep ∈ within options file bound store, of? options file sweep.before = some sweep →
      holds sweep.before → holds sweep.after) :
    holds (settled store (within options file bound store)) := by
  induction bound generalizing store with
  | zero => exact start
  | succ bound ih =>
      rw [within] at step ⊢
      cases found : of? options file store with
      | none => exact start
      | some sweep =>
          rw [found] at step
          have before := (of_cases store sweep found).1
          refine ih sweep.after ?_ fun later member => step later (List.mem_cons_of_mem _ member)
          exact step sweep List.mem_cons_self (before ▸ found) (before ▸ start)

end Sweep

namespace Workspace

theorem filter_aux_ok (file : Path) (candidates found unused : List Candidate)
    (space last : Workspace Project MemoryStore) (follows : space.service.Follows space.store)
    (ran : (candidates.filterAuxM (fun candidate => (do
      let verdict ← ask fun service store => candidate.classify service store file
      return verdict == .unused : PruneM Project MemoryStore Bool)) found).run.run space =
        (.ok unused, last)) :
    unused = (candidates.filter (Candidate.isUnused space.store file)).reverse ++ found ∧
      last.service.Follows last.store ∧ last.store = space.store := by
  induction candidates generalizing found space with
  | nil =>
      obtain ⟨rfl, rfl⟩ := pure_ok found unused space last ran
      exact ⟨rfl, follows, rfl⟩
  | cons first rest ih =>
      obtain ⟨isUnused, later, asked, ran⟩ := bind_ok _ _ space last unused ran
      obtain ⟨verdict, answered, asked, decided⟩ := bind_ok _ _ space later isUnused asked
      obtain ⟨answer, rfl⟩ := ask_ok _ verdict space answered asked
      obtain ⟨rfl, rfl⟩ := pure_ok _ isUnused _ later decided
      obtain ⟨same, following⟩ := Candidate.classify_followed space.service follows file first
      obtain ⟨rfl, kept, unchanged⟩ := ih _ _ following ran
      refine ⟨?_, kept, unchanged⟩
      have told : first.verdict space.store file = .ok verdict := same.symm.trans answer
      rw [List.filter_cons, Candidate.isUnused, told]
      cases verdict with
      | used => rfl
      | unused => simp

theorem unused_of_ok (file : Path) (m : SourceModule) (marker : String) (unused : List Candidate)
    (space last : Workspace Project MemoryStore) (follows : space.service.Follows space.store)
    (ran : (unusedOf file (m.scan marker).candidates).run.run space = (.ok unused, last)) :
    unused = m.unused marker space.store file ∧ last.service.Follows last.store ∧
    last.store = space.store := by
  obtain ⟨found, later, filtered, ran⟩ := bind_ok _ _ space last unused ran
  obtain ⟨rfl, rfl⟩ := pure_ok _ unused later last ran
  obtain ⟨rfl, kept, unchanged⟩ := filter_aux_ok file _ [] found space last follows filtered
  refine ⟨?_, kept, unchanged⟩
  rw [List.append_nil, List.reverse_reverse]
  rfl

inductive Passed (options : PruneOptions) (file : Path) (store : MemoryStore) :
    PassResult → MemoryStore → Prop where
  | settled (nothing : Sweep.of? options file store = none) :
      Passed options file store .settled store
  | removed (count : Nat) (sweep : Sweep) (found : Sweep.of? options file store = some sweep) :
      Passed options file store (.removed count) sweep.after
  | deleted (m : SourceModule) (nothing : Sweep.of? options file store = none)
      (loaded : SourceModule.load store file = .ok m)
      (filled : m.unused options.skipMarker store file ≠ [])
      (allowed : mayDelete options (m.scan options.skipMarker)
        (m.unused options.skipMarker store file) = true) :
      Passed options file store .deleted (FileStore.delete store file).2

theorem remove_from_ok (file : Path) (text : String) (unused : List Candidate) (result : PassResult)
    (space last : Workspace Project MemoryStore)
    (ran : (removeFrom file text unused).run.run space = (.ok result, last)) :
    ∃ batch edited, Batch.plan file text unused = .ok batch ∧ Change.applyAll? text batch.changes =
      some edited ∧
      result = .removed batch.removals.length ∧ last.service = space.service ∧
      last.store = space.store.insert file edited := by
  obtain ⟨batch, later, plans, rest⟩ := bind_ok _ _ space last result ran
  clear ran
  obtain ⟨planned, rfl⟩ := of_except_ok _ _ batch space later plans
  split at rest
  next => exact (throw_ok _ _ _ _ rest).elim
  next edited applied =>
      dsimp only at rest
      split at rest
      next =>
          obtain ⟨_, _, thrown, -⟩ := bind_ok _ _ _ _ _ rest
          exact (throw_ok _ _ _ _ thrown).elim
      next =>
          obtain ⟨_, written, wrote, rest⟩ := bind_ok _ _ _ _ _ rest
          obtain ⟨-, rfl⟩ := change_ok _ _ _ written wrote
          obtain ⟨_, emitted, emits, rest⟩ := bind_ok _ _ _ _ _ rest
          obtain ⟨service, store⟩ := emits_ok _ _ _ _ emitted emits
          obtain ⟨rfl, rfl⟩ := pure_ok _ result emitted last rest
          exact ⟨batch, edited, planned, applied, rfl, service, store⟩

theorem delete_file_ok (file : Path) (result : PassResult)
    (space last : Workspace Project MemoryStore)
    (ran : (deleteFile file).run.run space = (.ok result, last)) :
    result = .deleted ∧ last.store = (FileStore.delete space.store file).2 := by
  obtain ⟨_, later, deletes, rest⟩ := bind_ok _ _ space last result ran
  clear ran
  obtain ⟨-, rfl⟩ := change_ok _ _ space later deletes
  obtain ⟨_, emitted, emits, rest⟩ := bind_ok _ _ _ last result rest
  obtain rfl := emit_ok _ _ _ emitted emits
  obtain ⟨rfl, rfl⟩ := pure_ok _ result _ last rest
  exact ⟨rfl, rfl⟩

theorem pass_ok (options : PruneOptions) (file : Path) (result : PassResult)
    (space last : Workspace Project MemoryStore) (follows : space.service.Follows space.store)
    (ran : (pass options file).run.run space = (.ok result, last)) :
    Passed options file space.store result last.store ∧
    (result ≠ .deleted → last.service.Follows last.store) := by
  obtain ⟨m, later, loads, rest⟩ := bind_ok _ _ space last result ran
  clear ran
  obtain ⟨loaded, rfl⟩ := load_ok file m space later loads
  dsimp only at rest
  split at rest
  next =>
      obtain ⟨_, _, thrown, -⟩ := bind_ok _ _ _ _ _ rest
      exact (throw_ok _ _ _ _ thrown).elim
  next =>
      obtain ⟨unused, asked, asks, rest⟩ := bind_ok _ _ _ last result rest
      obtain ⟨rfl, following, same⟩ := unused_of_ok file m options.skipMarker unused later asked
        follows asks
      split at rest
      next empty =>
          obtain ⟨rfl, rfl⟩ := pure_ok _ result asked last rest
          rw [List.isEmpty_iff] at empty
          rw [same]
          exact ⟨.settled (by simp [Sweep.of?, loaded, Except.toOption, empty]), fun _ =>
            same ▸ following⟩
      next filled =>
          rw [List.isEmpty_iff] at filled
          split at rest
          next allowed =>
              obtain ⟨rfl, store⟩ := delete_file_ok file result asked last rest
              rw [store, same]
              have nothing : Sweep.of? options file later.store = none := by
                simp [Sweep.of?, loaded, Except.toOption, allowed]
              exact ⟨.deleted m nothing loaded filled allowed, fun other => (other rfl).elim⟩
          next kept =>
              obtain ⟨batch, edited, planned, applied, rfl, service, store⟩ :=
                remove_from_ok file m.text _ result asked last rest
              obtain ⟨text, present, -⟩ := SourceModule.text_of_load later.store file m loaded
              have found : Sweep.of? options file later.store = some
                  ⟨later.store, m.unused options.skipMarker later.store file,
                    later.store.insert file edited⟩ := by
                simp [Sweep.of?, loaded, Except.toOption, filled, kept, planned, applied]
              rw [store, same, service]
              refine ⟨.removed _ _ found, fun _ => ?_⟩
              refine Project.rewritten_follows asked.service later.store file edited ?_
                (same ▸ following)
              rw [MemoryStore.contains_eq, present]
              rfl

theorem outcome_of_kept (removed passes : Nat) : outcomeOf removed passes ≠ .deleted := by
  rw [outcomeOf]
  split <;> exact Outcome.noConfusion

theorem passes_ok (options : PruneOptions) (file : Path) (bound removed count : Nat)
    (outcome : Outcome) (space last : Workspace Project MemoryStore)
    (follows : space.service.Follows space.store)
    (ran : (passes options file bound removed count).run.run space = (.ok outcome, last)) :
    (outcome = .deleted ∧ Passed options file
      (Sweep.settled space.store (Sweep.within options file bound space.store))
        .deleted last.store) ∨
      (outcome ≠ .deleted ∧ (options.cleanup = false →
        last.store = Sweep.settled space.store (Sweep.within options file bound space.store))) := by
  induction bound generalizing removed count space with
  | zero => exact (throw_ok _ _ _ _ ran).elim
  | succ bound ih =>
      obtain ⟨result, later, passed, rest⟩ := bind_ok _ _ space last outcome ran
      obtain ⟨done, following⟩ := pass_ok options file result space later follows passed
      rw [Sweep.within]
      cases result with
      | settled =>
          have nothing : Sweep.of? options file space.store = none ∧ later.store = space.store := by
            generalize later.store = store at done
            cases done with
            | settled nothing => exact ⟨nothing, rfl⟩
          rw [nothing.1]
          dsimp only at rest
          split at rest
          next cleans =>
              obtain ⟨_, _, -, rest⟩ := bind_ok _ _ later last outcome rest
              obtain ⟨rfl, -⟩ := pure_ok _ outcome _ last rest
              refine .inr ⟨outcome_of_kept removed count, fun plain => ?_⟩
              rw [plain] at cleans
              cases cleans
          next =>
              obtain ⟨rfl, rfl⟩ := pure_ok _ outcome later last rest
              exact .inr ⟨outcome_of_kept removed count, fun _ => nothing.2⟩
      | removed more =>
          obtain ⟨sweep, found, same⟩ : ∃ sweep, Sweep.of? options file space.store = some sweep ∧
              later.store = sweep.after := by
            generalize later.store = store at done
            cases done with
            | removed _ sweep found => exact ⟨sweep, found, rfl⟩
          rw [found]
          have ended := ih _ _ later (following PassResult.noConfusion) rest
          rw [same] at ended
          exact ended
      | deleted =>
          obtain ⟨rfl, rfl⟩ := pure_ok _ outcome later last rest
          have nothing : Sweep.of? options file space.store = none := by
            generalize last.store = store at done
            cases done with
            | deleted _ nothing => exact nothing
          rw [nothing]
          exact .inl ⟨rfl, done⟩

theorem prune_file_read {ι σ : Type} [FileStore σ] [LanguageService ι σ] (options : PruneOptions)
    (file : Path) (outcome : Outcome) (space last : Workspace ι σ)
    (ran : (pruneFile options file).run.run space = (.ok outcome, last)) :
    ∃ text, FileStore.read space.store file = .ok text := by
  obtain ⟨text, opened, reads, -⟩ := bind_ok _ _ space last outcome ran
  exact ⟨text, (read_ok file text space opened reads).1⟩

theorem run_prune_within {ι σ : Type} [FileStore σ] [SourceParser ι σ] [LanguageService ι σ]
    (bound : String → Nat) (options : PruneOptions) (file : Path) (text : String)
    (space : Workspace ι σ)
    (present : FileStore.read space.store file = .ok text) :
    (pruneWithin bound options file).run.run space =
      let ran := (passes options file (bound text) 0 0).run.run
        { space with events := space.events ++ [.opened file text] }
      (ran.1, { ran.2 with events := ran.2.events ++ [.closed file] }) := by
  have reads : (read file).run.run space = (.ok text, space) := by
    change (ofExcept PruneError.store (FileStore.read space.store file) :
      PruneM ι σ String).run.run space = _
    rw [present]
    rfl
  rw [pruneWithin, run_bind_ok _ _ space space text reads, session,
    run_bind_ok _ _ space { space with events := space.events ++ [.opened file text] } () rfl,
    run_bind_ok _ _ _ _ _ (run_observing _ _)]
  cases (passes options file (bound text) 0 0).run.run
      { space with events := space.events ++ [.opened file text] } with
  | mk result ended => cases result <;> rfl

theorem prune_file_passes {ι σ : Type} [FileStore σ] [LanguageService ι σ] (options : PruneOptions)
    (file : Path) (text : String) (space last : Workspace ι σ) (result : Except PruneError Outcome)
    (present : FileStore.read space.store file = .ok text)
    (ran : (pruneFile options file).run.run space = (result, last)) :
    ∃ ended, (passes options file (Text.size text + 1) 0 0).run.run
        { space with events := space.events ++ [.opened file text] } = (result, ended) ∧
      last.store = ended.store := by
  rw [pruneFile, run_prune_within passBound options file text space present] at ran
  obtain ⟨same, rfl⟩ := Prod.mk.inj ran
  exact ⟨_, Prod.ext same rfl, rfl⟩

theorem prune_file_ok (options : PruneOptions) (file : Path) (outcome : Outcome)
    (space last : Workspace Project MemoryStore) (follows : space.service.Follows space.store)
    (ran : (pruneFile options file).run.run space = (.ok outcome, last)) :
    (outcome = .deleted ∧ Passed options file
      (Sweep.settled space.store (Sweep.all options file space.store))
        .deleted last.store) ∨
      (outcome ≠ .deleted ∧ (options.cleanup = false →
        last.store = Sweep.settled space.store (Sweep.all options file space.store))) := by
  obtain ⟨text, present⟩ := prune_file_read options file outcome space last ran
  obtain ⟨ended, passed, store⟩ := prune_file_passes options file text space last _ present ran
  have size : (space.store.get? file).getD "" = text := by
    change space.store.read file = .ok text at present
    rw [MemoryStore.read] at present
    rw [MemoryStore.get?]
    cases found : space.store.texts.get? file with
    | none =>
        rw [found] at present
        cases present
    | some other =>
        rw [found] at present
        exact Except.ok.inj present
  rw [Sweep.all, size, store]
  exact passes_ok options file _ 0 0 outcome
    { space with events := space.events ++ [.opened file text] } ended follows passed

def fresh (files : List (Path × String)) :
    Workspace Project MemoryStore := { service := .empty, store := .ofList files }

theorem ran_of_outcome (options : PruneOptions) (file : Path)
    (space : Workspace Project MemoryStore) (outcome : Outcome)
    (done : ((pruneFile options file).run.run space).1.toOption = some outcome) :
    (pruneFile options file).run.run space =
      (.ok outcome, ((pruneFile options file).run.run space).2) := by
  generalize (pruneFile options file).run.run space = ended at done
  obtain ⟨result, last⟩ := ended
  cases result with
  | ok found =>
      obtain rfl := Option.some.inj done
      rfl
  | error cause => cases done

end Workspace
end DeadExports
