import DeadExports.Proofs.Project.Image
import DeadExports.Proofs.Prune.Sessions

set_option autoImplicit false

namespace DeadExports

theorem Candidate.classify_as_synced (candidate : Candidate) (project : Project)
    (store : MemoryStore) (file : Path) :
    (candidate.classify project store file).1 =
      (candidate.classify (project.sync store).2 store file).1 ∧
      ((candidate.classify project store file).2.sync store).2 = (project.sync store).2 := by
  obtain ⟨answer, same | synced⟩ := candidate.classify_brought_up project store trivial file
  · rw [same]
    exact ⟨answer, rfl⟩
  · rw [synced, Project.sync_settles project store (project.sync_sound store trivial).1]
    exact ⟨answer, rfl⟩

namespace Workspace

def synced (space : Workspace Project MemoryStore) : Project := (space.service.sync space.store).2

theorem filter_aux_used (file : Path) (candidates found unused : List Candidate)
    (space last : Workspace Project MemoryStore) (ran : (candidates.filterAuxM (fun candidate => (do
      let verdict ← ask fun service store => candidate.classify service store file
      return verdict == .unused : PruneM Project MemoryStore Bool)) found).run.run space =
        (.ok unused, last)) :
    last.synced = space.synced ∧ ∃ added, unused = added ++ found ∧
      (added = [] → ∀ candidate ∈ candidates, (candidate.classify space.synced space.store file).1 =
        .ok .used) := by
  induction candidates generalizing found space with
  | nil =>
      obtain ⟨rfl, rfl⟩ := pure_ok found unused space last ran
      exact ⟨rfl, [], rfl, fun _ _ member => by cases member⟩
  | cons first rest ih =>
      obtain ⟨isUnused, later, asked, ran⟩ := bind_ok _ _ space last unused ran
      obtain ⟨verdict, answered, asked, decided⟩ := bind_ok _ _ space later isUnused asked
      obtain ⟨answer, rfl⟩ := ask_ok _ verdict space answered asked
      obtain ⟨rfl, rfl⟩ := pure_ok _ isUnused _ later decided
      obtain ⟨same, kept⟩ := first.classify_as_synced space.service space.store file
      obtain ⟨ends, added, rfl, used⟩ := ih _ _ ran
      have here :
          synced { space with service := (first.classify space.service space.store file).2 } =
            space.synced := kept
      rw [here] at ends used
      refine ⟨ends, ?_⟩
      cases verdict with
      | unused => exact ⟨added ++ [first], by simp, by simp⟩
      | used =>
          refine ⟨added, rfl, fun none candidate member => ?_⟩
          rcases List.mem_cons.mp member with rfl | later
          · exact same.symm.trans answer
          · exact used none candidate later

theorem unused_of_none (file : Path) (candidates : List Candidate)
    (space last : Workspace Project MemoryStore)
    (ran : (unusedOf file candidates).run.run space = (.ok [], last)) :
    ∀ candidate ∈ candidates, (candidate.classify last.synced last.store file).1 = .ok .used := by
  have store := (unused_of_listed file candidates [] space last ran).2
  obtain ⟨found, later, filtered, ran⟩ := bind_ok _ _ space last [] ran
  obtain ⟨none, rfl⟩ := pure_ok _ [] later last ran
  obtain ⟨ends, added, same, used⟩ := filter_aux_used file candidates [] found space last filtered
  rw [ends, store]
  refine used ?_
  rw [List.append_nil] at same
  rw [← same]
  exact List.reverse_eq_nil_iff.mp none.symm

theorem filter_aux_again (file : Path) (candidates found : List Candidate)
    (space : Workspace Project MemoryStore)
    (used : ∀ candidate ∈ candidates, (candidate.classify space.synced space.store file).1 =
      .ok .used) :
    ∃ later, (candidates.filterAuxM (fun candidate => (do
      let verdict ← ask fun service store => candidate.classify service store file
      return verdict == .unused : PruneM Project MemoryStore Bool)) found).run.run space =
        (.ok found, later) ∧
        later.store = space.store := by
  induction candidates generalizing space with
  | nil => exact ⟨space, rfl, rfl⟩
  | cons first rest ih =>
      obtain ⟨same, kept⟩ := first.classify_as_synced space.service space.store file
      have answer : (first.classify space.service space.store file).1 = .ok .used :=
        same.trans (used first List.mem_cons_self)
      have asks : (do
          let verdict ← ask fun service store => first.classify service store file
          return verdict == .unused : PruneM Project MemoryStore Bool).run.run space =
            (.ok false,
              { space with service := (first.classify space.service space.store file).2 }) := by
        refine (run_bind_ok _ _ space _ .used ?_).trans rfl
        change (ofExcept PruneError.analysis (first.classify space.service space.store file).1 :
            PruneM _ _ _).run.run _ = _
        rw [answer]
        rfl
      have here :
          synced { space with service := (first.classify space.service space.store file).2 } =
            space.synced := kept
      obtain ⟨later, filtered, store⟩ :=
        ih { space with service := (first.classify space.service space.store file).2 }
        fun candidate member => here ▸ used candidate (List.mem_cons_of_mem _ member)
      refine ⟨later, ?_, store⟩
      rw [List.filterAuxM, run_bind_ok _ _ space _ false asks]
      exact filtered

theorem unused_of_again (file : Path) (candidates : List Candidate)
    (space : Workspace Project MemoryStore)
    (used : ∀ candidate ∈ candidates, (candidate.classify space.synced space.store file).1 =
      .ok .used) :
    ∃ later, (unusedOf file candidates).run.run space = (.ok [], later) ∧
      later.store = space.store := by
  obtain ⟨later, filtered, store⟩ := filter_aux_again file candidates [] space used
  refine ⟨later, ?_, store⟩
  rw [unusedOf, List.filterM, run_bind_ok _ _ space later [] filtered]
  rfl

theorem passes_end_settled (options : PruneOptions) (file : Path) (bound removed count : Nat)
    (outcome : Outcome) (space last : Workspace Project MemoryStore)
    (plain : options.cleanup = false) (kept : outcome ≠ .deleted)
    (ran : (passes options file bound removed count).run.run space = (.ok outcome, last)) :
    ∃ before, (pass options file).run.run before = (.ok .settled, last) := by
  induction bound generalizing removed count space with
  | zero => cases ran
  | succ bound ih =>
      rw [passes_turn] at ran
      split at ran
      next => cases ran
      next =>
          obtain ⟨same, -⟩ := Prod.mk.inj ran
          exact absurd (Except.ok.inj same).symm kept
      next later _ => exact ih _ _ later ran
      next later passed =>
          rw [settle, plain] at ran
          obtain ⟨-, rfl⟩ := pure_ok _ outcome later last ran
          exact ⟨space, passed⟩

structure Settled (options : PruneOptions) (file : Path) (space : Workspace Project MemoryStore)
    (m : SourceModule) : Prop where
  loaded : SourceModule.load space.store file = .ok m
  proper : m.hasErrors = false
  used : ∀ candidate ∈ (m.scan options.skipMarker).candidates,
    (candidate.classify space.synced space.store file).1 = .ok .used

theorem pass_settles (options : PruneOptions) (file : Path)
    (before space : Workspace Project MemoryStore)
    (passed : (pass options file).run.run before = (.ok .settled, space)) :
    ∃ m, Settled options file space m := by
  obtain ⟨m, unused, asked, found, ⟨rfl, -, rfl⟩ | ⟨-, -, other⟩ | ⟨-, -, _, other⟩⟩ :=
    pass_finds options file before space _ passed
  · have store := (unused_of_listed file _ [] before space found.answered).2
    exact ⟨m, store ▸ found.loaded, found.proper, unused_of_none file _ before space found.answered⟩
  · cases other
  · cases other

theorem settled_pass (options : PruneOptions) (file : Path) (space : Workspace Project MemoryStore)
    (m : SourceModule) (settled : Settled options file space m) :
    ∃ later, (pass options file).run.run space = (.ok .settled, later) ∧
      later.store = space.store := by
  obtain ⟨later, asked, store⟩ := unused_of_again file _ space settled.used
  refine ⟨later, ?_, store⟩
  rw [pass, run_bind_ok _ _ space space m (run_load file space m settled.loaded)]
  simp only [settled.proper]
  exact (run_bind_ok _ _ space later [] asked).trans rfl

theorem settled_prune_file (options : PruneOptions) (file : Path)
    (space : Workspace Project MemoryStore) (m : SourceModule) (plain : options.cleanup = false)
    (settled : Settled options file space m) :
    ∃ again, (pruneFile options file).run.run space = (.ok .unchanged, again) ∧
      again.store = space.store ∧
      again.events = space.events ++ [.opened file m.text, .closed file] := by
  have opened : Settled options file
      { space with events := space.events ++ [.opened file m.text] } m :=
    ⟨settled.loaded, settled.proper, settled.used⟩
  obtain ⟨later, passed, store⟩ := settled_pass options file _ m opened
  have silent : later.events = space.events ++ [.opened file m.text] := by
    have told := pass_told options file
      { space with events := space.events ++ [.opened file m.text] }
    rw [passed] at told
    cases told with
    | settled _ silent => exact silent
  have present := SourceModule.load_reads space.store file m settled.loaded
  refine ⟨{ later with events := later.events ++ [.closed file] }, ?_, store, ?_⟩
  · rw [pruneFile, run_prune_within passBound options file m.text space present, passBound,
      passes_turn, passed]
    dsimp only
    rw [settle, plain]
    rfl
  · dsimp only
    rw [silent, List.append_assoc]
    rfl

-- Whatever the index knows at first, removing the unused exports of a file leaves nothing to
-- remove: all candidates of the text that is left are used, and doing it again changes neither a
-- file nor the revision and tells of no removal.
theorem pruning_again_changes_nothing (options : PruneOptions) (file : Path) (outcome : Outcome)
    (space last : Workspace Project MemoryStore) (plain : options.cleanup = false)
    (kept : outcome ≠ .deleted)
    (ran : (pruneFile options file).run.run space = (.ok outcome, last)) :
    ∃ m again, SourceModule.load last.store file = .ok m ∧
      (∀ candidate ∈ (m.scan options.skipMarker).candidates,
        (candidate.classify last.service last.store file).1 = .ok .used) ∧
      (pruneFile options file).run.run last = (.ok .unchanged, again) ∧ again.store = last.store ∧
      again.events = last.events ++ [.opened file m.text, .closed file] := by
  obtain ⟨text, present⟩ := prune_file_read options file outcome space last ran
  rw [pruneFile, run_prune_within passBound options file text space present, passBound] at ran
  cases done : (passes options file (Text.size text + 1) 0 0 : PruneM Project MemoryStore
    Outcome).run.run
      { space with events := space.events ++ [.opened file text] } with
  | mk result ended =>
  rw [done] at ran
  obtain ⟨rfl, rfl⟩ := Prod.mk.inj ran
  obtain ⟨before, passed⟩ := passes_end_settled options file _ 0 0 outcome _ ended plain kept done
  obtain ⟨m, settled⟩ := pass_settles options file before ended passed
  have closed : Settled options file { ended with events := ended.events ++ [.closed file] } m :=
    ⟨settled.loaded, settled.proper, settled.used⟩
  obtain ⟨again, reran, store, events⟩ := settled_prune_file options file _ m plain closed
  refine ⟨m, again, settled.loaded, fun candidate member => ?_, reran, store, events⟩
  exact (candidate.classify_as_synced ended.service ended.store file).1.trans
    (settled.used candidate member)

def lagging : Workspace Project MemoryStore :=
  let earlier := MemoryStore.ofList [(⟨"/a.ts"⟩, "export let a;\n")]
  { service := (Project.empty.sync earlier).2
    store := (earlier.insert ⟨"/a.ts"⟩ "export let a;\nexport let b;\n").insert
      ⟨"/m.ts"⟩ "import { a } from './a';\na;\n" }

theorem lagging_settles :
    ∃ last m again, (pruneFile {} ⟨"/a.ts"⟩).run.run lagging = (.ok (.pruned 1 1), last) ∧
      SourceModule.load last.store ⟨"/a.ts"⟩ = .ok m ∧
      (pruneFile {} ⟨"/a.ts"⟩).run.run last = (.ok .unchanged, again) ∧ again.store = last.store ∧
      again.events = last.events ++ [.opened ⟨"/a.ts"⟩ m.text, .closed ⟨"/a.ts"⟩] := by
  have ran := ran_of_outcome {} ⟨"/a.ts"⟩ lagging (.pruned 1 1) (by decide +kernel)
  obtain ⟨m, again, loaded, -, reran, store, events⟩ :=
    pruning_again_changes_nothing {} ⟨"/a.ts"⟩ (.pruned 1 1) lagging _ rfl (by simp) ran
  exact ⟨_, m, again, ran, loaded, reran, store, events⟩

end Workspace
end DeadExports
