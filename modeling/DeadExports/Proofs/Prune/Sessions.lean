import DeadExports.Proofs.Prune.Progress
import DeadExports.Proofs.Prune.Removals
import DeadExports.Prune.Run
import Mathlib.Data.List.Forall2

set_option autoImplicit false

namespace DeadExports

structure EditSession where
  file : Path
  text : String
  removals : List Removal
  deleted : Bool

def deletionOf (file : Path) (deleted : Bool) :
    List EditEvent := if deleted then [.deleted file] else []

def EditSession.events (session : EditSession) : List EditEvent :=
  .opened session.file session.text ::
    (session.removals.map (.removed session.file) ++ deletionOf session.file session.deleted ++
      [.closed session.file])

structure Tallies (result : Except PruneError Outcome) (count : Nat) (deleted : Bool) : Prop where
  deletes : deleted = true ↔ result = .ok .deleted
  removes : ∀ removed passes, result = .ok (.pruned removed passes) → removed = count
  nothing : result = .ok .unchanged → count = 0

theorem tallies_error (cause : PruneError) (count : Nat) : Tallies (.error cause) count false :=
  ⟨by simp, by simp, by simp⟩

namespace Workspace

section Silence

variable {ι σ α β : Type}

def Silent (computation : PruneM ι σ α) :
    Prop := ∀ space, (computation.run.run space).2.events = space.events

theorem silent_pure (value : α) : Silent (pure value : PruneM ι σ α) := fun _ => rfl

theorem silent_throw (cause : PruneError) : Silent (throw cause : PruneM ι σ α) := fun _ => rfl

theorem silent_then (first : PruneM ι σ α) (next : α → PruneM ι σ β) (silent : Silent first)
    (later : ∀ value, Silent (next value)) : Silent (first >>= next) := by
  intro space
  have before := silent space
  cases done : first.run.run space with
  | mk result middle =>
      rw [done] at before
      cases result with
      | ok value =>
          rw [run_bind_ok first next space middle value done]
          exact (later value middle).trans before
      | error cause =>
          rw [run_bind_error first next space middle cause done]
          exact before

theorem silent_of_except {ε : Type} (wrap : ε → PruneError) (result : Except ε α) :
    Silent (ofExcept wrap result : PruneM ι σ α) := by
  cases result with
  | ok value => exact silent_pure value
  | error cause => exact silent_throw (wrap cause)

theorem silent_ask (question : ι → σ → Except AnalysisError α × ι) : Silent (ask question) := by
  intro space
  exact silent_of_except PruneError.analysis (question space.service space.store).1 _

theorem silent_change (edit : σ → Except StoreError Unit × σ) :
    Silent (change edit : PruneM ι σ Unit) := by
  intro space
  exact silent_of_except PruneError.store (edit space.store).1 _

theorem silent_write [FileStore σ] (file : Path) (text : String) :
    Silent (write file text : PruneM ι σ Unit) :=
  silent_change _

theorem silent_delete [FileStore σ] (file : Path) :
    Silent (delete file : PruneM ι σ Unit) := silent_change _

theorem silent_load [SourceParser ι σ] (file : Path) :
    Silent (load file : PruneM ι σ SourceModule) := silent_ask _

theorem silent_read [FileStore σ] (file : Path) : Silent (read file : PruneM ι σ String) := by
  intro space
  exact silent_of_except PruneError.store (FileStore.read space.store file) space

theorem silent_unused_of [SourceParser ι σ] [LanguageService ι σ] (file : Path)
    (candidates : List Candidate) :
    Silent (unusedOf file candidates : PruneM ι σ (List Candidate)) := by
  have filters : ∀ found : List Candidate, Silent (candidates.filterAuxM (fun candidate => (do
      let verdict ← ask fun service store => candidate.classify service store file
      return verdict == .unused : PruneM ι σ Bool)) found) := by
    induction candidates with
    | nil => exact fun found => silent_pure found
    | cons first rest ih =>
        exact fun found => silent_then _ _ (silent_then _ _ (silent_ask _) fun _ => silent_pure _)
          fun _ => ih _
  exact silent_then _ _ (filters []) fun _ => silent_pure _

variable [FileStore σ] [LanguageService ι σ]

theorem silent_apply_fix (fix : Fix) (file : Path) (current : String) :
    Silent (applyFix fix file current : PruneM ι σ String) := by
  refine silent_then _ _ (silent_ask _) fun next => ?_
  split
  next => exact silent_pure current
  next => exact silent_then _ _ (silent_write file next) fun _ => silent_pure next

theorem silent_remove_declarations (file : Path) (rounds : Nat) (current : String) :
    Silent (removeDeclarations file rounds current : PruneM ι σ String) := by
  induction rounds generalizing current with
  | zero => exact silent_pure current
  | succ rounds ih =>
      refine silent_then _ _ (silent_apply_fix _ file current) fun next => ?_
      split
      next => exact silent_pure current
      next => exact ih next

theorem silent_tidy (file : Path) : Silent (tidy file : PruneM ι σ Bool) :=
  silent_then _ _ (silent_read file) fun text =>
    silent_then _ _ (silent_remove_declarations file _ text) fun declared =>
      silent_then _ _ (silent_apply_fix _ file declared) fun _ => silent_pure _

theorem silent_settle (options : PruneOptions) (file : Path) (removed count : Nat) :
    Silent (settle options file removed count : PruneM ι σ Outcome) := by
  rw [settle]
  dsimp only
  split
  next =>
      exact silent_then _ _ (silent_then _ _ (silent_tidy file) fun _ => silent_pure _) fun _ =>
        silent_pure _
  next => exact silent_pure _

end Silence

section Passes

variable {ι σ : Type}

theorem run_emits {γ : Type} (items : List γ) (event : γ → EditEvent) (space : Workspace ι σ) :
    (items.forM fun item => (emit (event item) : PruneM ι σ PUnit)).run.run space =
      (.ok PUnit.unit, { space with events := space.events ++ items.map event }) := by
  induction items generalizing space with
  | nil =>
      rw [List.map_nil, List.append_nil]
      rfl
  | cons first rest ih =>
      change ((emit (event first) : PruneM ι σ PUnit) >>= fun _ => rest.forM fun item =>
        emit (event item)).run.run space = _
      rw [run_bind_ok _ _ space { space with events := space.events ++ [event first] }
        PUnit.unit rfl,
        ih, List.map_cons, List.append_assoc]
      rfl

variable [FileStore σ]

theorem write_rest_tells (file : Path) (rest : String) (removals : List Removal)
    (space : Workspace ι σ) :
    (∃ cause, ((writeRest file rest removals).run.run space).1 = .error cause ∧
        ((writeRest file rest removals).run.run space).2.events = space.events) ∨
      (((writeRest file rest removals).run.run space).1 = .ok (.removed removals.length) ∧
        ((writeRest file rest removals).run.run space).2.events = space.events ++
          removals.map (.removed file)) := by
  have silent := silent_write file rest space
  rw [writeRest]
  cases wrote : (write file rest : PruneM ι σ Unit).run.run space with
  | mk result written =>
      rw [wrote] at silent
      cases result with
      | error cause =>
          rw [run_bind_error _ _ space written cause wrote]
          exact .inl ⟨cause, rfl, silent⟩
      | ok =>
          rw [run_bind_ok _ _ space written _ wrote,
            run_bind_ok _ _ written _ _ (run_emits removals (.removed file) written), ← silent]
          exact .inr ⟨rfl, rfl⟩

variable [SourceParser ι σ]

inductive Told (file : Path) (space : Workspace ι σ) :
    Except PruneError PassResult → Workspace ι σ → Prop where
  | failed (cause : PruneError) (last : Workspace ι σ) (silent : last.events = space.events) :
      Told file space (.error cause) last
  | settled (last : Workspace ι σ) (silent : last.events = space.events) :
      Told file space (.ok .settled) last
  | deleted (last : Workspace ι σ) (tells : last.events = space.events ++ [.deleted file]) :
      Told file space (.ok .deleted) last
  | removed (m : SourceModule) (parsed last : Workspace ι σ) (removals : List Removal)
      (scanned : (load file).run.run space = (.ok m, parsed))
      (located : ∀ removal ∈ removals, removal.Located m.text)
      (tells : last.events = space.events ++ removals.map (.removed file)) :
      Told file space (.ok (.removed removals.length)) last

theorem delete_file_told (file : Path) (space asked : Workspace ι σ)
    (silent : asked.events = space.events) :
    Told file space ((deleteFile file).run.run asked).1 ((deleteFile file).run.run asked).2 := by
  have quiet := silent_delete file asked
  rw [deleteFile]
  cases deletes : (delete file : PruneM ι σ Unit).run.run asked with
  | mk result later =>
      rw [deletes] at quiet
      cases result with
      | error cause =>
          rw [run_bind_error _ _ asked later cause deletes]
          exact .failed cause later (quiet.trans silent)
      | ok =>
          rw [run_bind_ok _ _ asked later _ deletes]
          refine .deleted _ ?_
          rw [← silent, ← quiet]
          rfl

theorem remove_from_told (options : PruneOptions) (file : Path) (space parsed asked : Workspace ι σ)
    (m : SourceModule) (unused : List Candidate)
    (scanned : (load file).run.run space = (.ok m, parsed))
    (listed : unused ⊆ (m.scan options.skipMarker).candidates) (filled : unused ≠ [])
    (silent : asked.events = space.events) :
    Told file space ((removeFrom file m.text unused).run.run asked).1
      ((removeFrom file m.text unused).run.run asked).2 := by
  obtain ⟨batch, rest, planned, -, -, writes⟩ := remove_from_plan ι σ file m options.skipMarker
    unused listed filled
  have located := Batch.plan_faithful file m.text unused batch
    (fun candidate member => m.candidate_placed options.skipMarker candidate (listed member))
    planned
  rw [writes]
  rcases write_rest_tells file rest batch.removals asked with ⟨cause, failed, quiet⟩ | ⟨done, tells⟩
  · rw [failed]
    exact .failed cause _ (quiet.trans silent)
  · rw [done]
    exact .removed m parsed _ batch.removals scanned located (by rw [tells, silent])

variable [LanguageService ι σ]

theorem pass_told (options : PruneOptions) (file : Path) (space : Workspace ι σ) :
    Told file space ((pass options file).run.run space).1
      ((pass options file).run.run space).2 := by
  have quiet := silent_load file space
  rw [pass]
  cases scanned : (load file : PruneM ι σ SourceModule).run.run space with
  | mk result parsed =>
      rw [scanned] at quiet
      cases result with
      | error cause =>
          rw [run_bind_error _ _ space parsed cause scanned]
          exact .failed cause parsed quiet
      | ok m =>
          rw [run_bind_ok _ _ space parsed m scanned]
          dsimp only
          split
          next => exact .failed _ parsed quiet
          next =>
              have asks := silent_unused_of file (m.scan options.skipMarker).candidates parsed
              cases answered : (unusedOf file (m.scan options.skipMarker).candidates : PruneM ι σ
                (List Candidate)).run.run
                  parsed with
              | mk result asked =>
                  rw [answered] at asks
                  have silent : asked.events = space.events := asks.trans quiet
                  cases result with
                  | error cause =>
                      rw [run_bind_error _ _ parsed asked cause answered]
                      exact .failed cause asked silent
                  | ok unused =>
                      rw [run_bind_ok _ _ parsed asked unused answered]
                      split
                      next => exact .settled asked silent
                      next filled =>
                          split
                          next => exact delete_file_told file space asked silent
                          next =>
                              refine remove_from_told options file space parsed asked m unused
                                scanned ?_ (by simpa using filled)
                                silent
                              exact (unused_of_listed file _ unused parsed asked answered).1

-- Passes that removed something, one after the other, with all that they removed. Each removal
-- tells the place of its code in the text that its own pass has scanned.
inductive Shrinks (options : PruneOptions) (file : Path) :
    Workspace ι σ → List Removal → Workspace ι σ → Prop where
  | done (space : Workspace ι σ) : Shrinks options file space [] space
  | pass (m : SourceModule) (space parsed middle last : Workspace ι σ)
      (removals more : List Removal) (scanned : (load file).run.run space = (.ok m, parsed))
      (located : ∀ removal ∈ removals, removal.Located m.text)
      (passed : (pass options file).run.run space = (.ok (.removed removals.length), middle))
      (rest : Shrinks options file middle more last) :
      Shrinks options file space (removals ++ more) last

theorem passes_none (options : PruneOptions) (file : Path) (removed count : Nat)
    (space : Workspace ι σ) :
    (passes options file 0 removed count).run.run space = (.error (.noProgress file), space) := rfl

theorem passes_tell (options : PruneOptions) (file : Path) (bound removed count : Nat)
    (space : Workspace ι σ) :
    ∃ removals deleted middle, Shrinks options file space removals middle ∧
      ((passes options file bound removed count).run.run space).2.events =
        space.events ++ removals.map (.removed file) ++ deletionOf file deleted ∧
      Tallies ((passes options file bound removed count).run.run space).1
        (removed + removals.length) deleted := by
  induction bound generalizing removed count space with
  | zero =>
      exact ⟨[], false, space, .done space,
        by simp [deletionOf, passes_none], tallies_error _ _⟩
  | succ bound ih =>
      rw [passes_turn]
      have told := pass_told options file space
      cases passed : (pass options file).run.run space with
      | mk result later =>
          rw [passed] at told
          cases told with
          | failed cause _ silent =>
              exact ⟨[], false, space, .done space,
                by simpa [deletionOf] using silent, tallies_error _ _⟩
          | deleted _ tells =>
              exact ⟨[], true, space, .done space,
                by simpa [deletionOf] using tells, ⟨by simp, by simp, by simp⟩⟩
          | settled _ silent =>
              have quiet := (silent_settle options file removed count later).trans silent
              refine ⟨[], false, space, .done space, by simpa [deletionOf] using quiet, ?_⟩
              change Tallies ((settle options file removed count : PruneM ι σ Outcome).run.run
                later).1 _ _
              cases settled : (settle options file removed count : PruneM ι σ Outcome).run.run later
                  with
              | mk result last =>
                  cases result with
                  | error cause => exact tallies_error _ _
                  | ok outcome =>
                      rw [settle_ok options file removed count outcome later last settled,
                        outcomeOf]
                      split
                      next none => exact ⟨by simp, by simp, fun _ => beq_iff_eq.mp none⟩
                      next =>
                          refine ⟨by simp, fun total all same => ?_, by simp⟩
                          cases same
                          rfl
          | removed m parsed _ removals scanned located tells =>
              obtain ⟨more, deleted, middle, shrinks, events, tallies⟩ :=
                ih (removed + removals.length) (count + 1) later
              refine ⟨removals ++ more, deleted, middle, ?_, ?_, ?_⟩
              · exact .pass m space parsed later middle removals more scanned located passed shrinks
              · rw [events, tells, List.map_append]
                simp only [List.append_assoc]
              · rwa [List.length_append, ← Nat.add_assoc]

theorem run_prune_unread (bound : String → Nat) (options : PruneOptions) (file : Path)
    (cause : StoreError) (space : Workspace ι σ)
    (unread : FileStore.read space.store file = .error cause) :
    (pruneWithin bound options file).run.run space = (.error (.store cause), space) := by
  have fails : (read file).run.run space = (.error (.store cause), space) := by
    change (ofExcept PruneError.store (FileStore.read space.store file) : PruneM ι σ String).run.run
        space = _
    rw [unread]
    rfl
  rw [pruneWithin, run_bind_error _ _ space space _ fails]

end Passes

end Workspace

structure Turn (ι σ : Type) where
  space : Workspace ι σ
  target : Path

namespace Turn

variable {ι σ : Type} [FileStore σ]

def opens (turn : Turn ι σ) : Bool :=
  FileStore.contains turn.space.store turn.target &&
    (FileStore.read turn.space.store turn.target).toOption.isSome

variable [SourceParser ι σ] [LanguageService ι σ] (bound : String → Nat) (options : PruneOptions)

def result (turn : Turn ι σ) : Except PruneError Outcome × Workspace ι σ :=
  (Workspace.pruneWithin bound options turn.target).run.run turn.space

structure Tells (turn : Turn ι σ) (session : EditSession) : Prop where
  file : session.file = turn.target
  text : FileStore.read turn.space.store turn.target = .ok session.text
  tallies : Tallies (turn.result bound options).1 session.removals.length session.deleted
  shrinks : ∃ last, Workspace.Shrinks options turn.target
    { turn.space with events := turn.space.events ++ [.opened turn.target session.text] }
    session.removals last

theorem opened_tells (turn : Turn ι σ) (opens : turn.opens = true) :
    ∃ session, turn.Tells bound options session ∧
      (turn.result bound options).2.events = turn.space.events ++ session.events := by
  rw [Turn.opens, Bool.and_eq_true, Option.isSome_iff_exists] at opens
  obtain ⟨-, text, read⟩ := opens
  have present := except_some read
  obtain ⟨removals, deleted, last, shrinks, events, tallies⟩ :=
    Workspace.passes_tell options turn.target (bound text) 0 0
      { turn.space with events := turn.space.events ++ [.opened turn.target text] }
  rw [Nat.zero_add] at tallies
  have ran := Workspace.run_prune_within bound options turn.target text turn.space present
  refine ⟨⟨turn.target, text, removals, deleted⟩, ⟨rfl, present, ?_, last, shrinks⟩, ?_⟩
  · rw [result, ran]
    exact tallies
  · rw [result, ran, EditSession.events]
    dsimp only
    rw [events]
    simp only [List.append_assoc, List.cons_append, List.nil_append]

end Turn

namespace Run

section Turns

variable {ι σ : Type} [FileStore σ] (work : Path → PruneM ι σ Outcome)

def turnsOf : List Path → Run ι σ → List (Turn ι σ)
  | [], _ => []
  | target :: rest, run => ⟨run.space, target⟩ :: turnsOf rest (visit work run target)

def turns (targets : List Path) : Nat → Nat → Run ι σ → List (Turn ι σ)
  | 0, _, _ => []
  | left + 1, number, run =>
    let next := round work targets number run
    turnsOf work targets { run with summary.rounds := number, changed := false } ++
      if next.changed then turns targets left (number + 1) next else []

end Turns

variable {ι σ : Type} [FileStore σ] [SourceParser ι σ] [LanguageService ι σ]
  (bound : String → Nat) (options : PruneOptions)

def Recounts (turns : List (Turn ι σ)) (before after : Workspace ι σ) : Prop :=
  ∃ sessions, List.Forall₂ (Turn.Tells bound options) (turns.filter Turn.opens) sessions ∧
    after.events = before.events ++ sessions.flatMap EditSession.events

theorem recounts_trans (first second : List (Turn ι σ)) (before middle after : Workspace ι σ)
    (start : Recounts bound options first before middle)
    (rest : Recounts bound options second middle after) :
    Recounts bound options (first ++ second) before after := by
  obtain ⟨sessions, tells, events⟩ := start
  obtain ⟨more, tellsMore, eventsMore⟩ := rest
  refine ⟨sessions ++ more, ?_, ?_⟩
  · rw [List.filter_append]
    exact List.rel_append tells tellsMore
  · rw [eventsMore, events, List.flatMap_append, List.append_assoc]

theorem visit_recounts (run : Run ι σ) (target : Path) :
    Recounts bound options [⟨run.space, target⟩] run.space
      (visit (Workspace.pruneWithin bound options) run target).space := by
  rw [Recounts, List.filter_singleton]
  cases opens : (⟨run.space, target⟩ : Turn ι σ).opens with
  | true =>
      obtain ⟨session, tells, events⟩ := Turn.opened_tells bound options ⟨run.space, target⟩ opens
      refine ⟨[session], .cons tells .nil, ?_⟩
      rw [List.flatMap_singleton, ← events, visit, if_pos (Bool.and_eq_true_iff.mp opens).1,
        Turn.result]
      rcases (Workspace.pruneWithin bound options target).run.run run.space with
        ⟨cause | outcome, later⟩ <;> rfl
  | false =>
      refine ⟨[], .nil, ?_⟩
      rw [List.flatMap_nil, List.append_nil, visit]
      split
      next held =>
          rw [Turn.opens, held, Bool.true_and] at opens
          cases read : FileStore.read run.space.store target with
          | ok text =>
              dsimp only at opens
              rw [read] at opens
              cases opens
          | error cause =>
              rw [Workspace.run_prune_unread bound options target cause run.space read]
      next => rfl

theorem visits_recount (targets : List Path) (run : Run ι σ) :
    Recounts bound options (turnsOf (Workspace.pruneWithin bound options) targets run) run.space
      (targets.foldl (visit (Workspace.pruneWithin bound options)) run).space := by
  induction targets generalizing run with
  | nil => exact ⟨[], .nil, (List.append_nil _).symm⟩
  | cons target rest ih =>
      have here := visit_recounts bound options run target
      exact recounts_trans bound options [_] _ _ _ _ here (ih _)

theorem rounds_recount (targets : List Path) (left number : Nat) (run : Run ι σ) :
    Recounts bound options (turns (Workspace.pruneWithin bound options) targets left number run)
      run.space (rounds (Workspace.pruneWithin bound options) targets left number run).space := by
  induction left generalizing number run with
  | zero => exact ⟨[], .nil, (List.append_nil _).symm⟩
  | succ left ih =>
      have here := visits_recount bound options targets
        { run with summary.rounds := number, changed := false }
      rw [turns, rounds]
      dsimp only
      split
      next => exact recounts_trans bound options _ _ _ _ _ here (ih _ _)
      next =>
          rw [List.append_nil]
          exact here

end Run

namespace Workspace

variable {ι σ : Type} [FileStore σ] [SourceParser ι σ] [LanguageService ι σ]

-- Whatever the store and the service answer and however many passes a text is given, a run tells
-- one session for each turn of a target that is there and can be read, in the order of the turns,
-- and nothing else.
theorem run_tells_sessions (bound : String → Nat) (options : PruneOptions) (targets : List Path)
    (space : Workspace ι σ) :
    ∃ sessions : List EditSession,
      List.Forall₂ (Turn.Tells bound options)
        ((Run.turns (pruneWithin bound options) targets options.roundLimit 1 { space }).filter
          Turn.opens) sessions ∧
      (runWithin bound options targets space).2.events =
        space.events ++ sessions.flatMap EditSession.events :=
  Run.rounds_recount bound options targets options.roundLimit 1 { space }

end Workspace
end DeadExports
