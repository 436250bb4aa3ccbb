import DeadExports.Proofs.Project.Attend
import DeadExports.Proofs.Prune.Workspace
import DeadExports.Proofs.Usage.Verdict
import DeadExports.Prune.Run

set_option autoImplicit false

namespace DeadExports

namespace Workspace

structure Alike (a b : Workspace Project MemoryStore) : Prop where
  store : a.store = b.store
  left : a.service.Attends a.store
  right : b.service.Attends b.store

def Agrees {α : Type} (computation : PruneM Project MemoryStore α) : Prop :=
  ∀ a b, Alike a b → (computation.run.run a).1 = (computation.run.run b).1 ∧
    Alike (computation.run.run a).2 (computation.run.run b).2

section Steps

variable {α β : Type}

theorem agrees_pure (value : α) : Agrees (pure value) := fun _ _ alike => ⟨rfl, alike⟩

theorem agrees_throw (cause : PruneError) : Agrees (throw cause : PruneM Project MemoryStore α) :=
  fun _ _ alike => ⟨rfl, alike⟩

theorem agrees_bind (first : PruneM Project MemoryStore α) (next : α → PruneM Project MemoryStore β)
    (agrees : Agrees first)
    (later : ∀ space value middle, first.run.run space = (.ok value, middle) →
      Agrees (next value)) :
    Agrees (first >>= next) := by
  intro a b alike
  obtain ⟨same, after⟩ := agrees a b alike
  cases left : first.run.run a with
  | mk result lastA =>
      cases right : first.run.run b with
      | mk other lastB =>
          rw [left, right] at same after
          dsimp only at same after
          subst same
          cases result with
          | ok value =>
              rw [run_bind_ok first next a lastA value left,
                run_bind_ok first next b lastB value right]
              exact later a value lastA left lastA lastB after
          | error cause =>
              rw [run_bind_error first next a lastA cause left, run_bind_error first next b lastB
                cause right]
              exact ⟨rfl, after⟩

theorem agrees_then (first : PruneM Project MemoryStore α) (next : α → PruneM Project MemoryStore β)
    (agrees : Agrees first) (later : ∀ value, Agrees (next value)) : Agrees (first >>= next) :=
  agrees_bind first next agrees fun _ value _ _ => later value

theorem agrees_of_except {ε : Type} (wrap : ε → PruneError) (result : Except ε α) :
    Agrees (ofExcept wrap result : PruneM Project MemoryStore α) := by
  cases result with
  | ok value => exact agrees_pure value
  | error cause => exact agrees_throw (wrap cause)

theorem agrees_emit (event : EditEvent) : Agrees (emit event) :=
  fun _ _ alike => ⟨rfl, alike.store, alike.left, alike.right⟩

theorem agrees_emits {γ : Type} (items : List γ) (event : γ → EditEvent) :
    Agrees (items.forM fun item => (emit (event item) : PruneM Project MemoryStore PUnit)) := by
  induction items with
  | nil => exact agrees_pure PUnit.unit
  | cons first rest ih => exact agrees_then _ _ (agrees_emit _) fun _ => ih

theorem agrees_observing (inner : PruneM Project MemoryStore α) (agrees : Agrees inner) :
    Agrees (observing inner) := by
  intro a b alike
  obtain ⟨same, after⟩ := agrees a b alike
  rw [run_observing, run_observing, same]
  exact ⟨rfl, after⟩

theorem agrees_look {ε : Type} (wrap : ε → PruneError) (look : MemoryStore → Except ε α) :
    Agrees (do ofExcept wrap (look (← get).store) : PruneM Project MemoryStore α) := by
  intro a b alike
  change ((ofExcept wrap (look a.store)).run.run a).1 =
    ((ofExcept wrap (look b.store)).run.run b).1 ∧
    Alike ((ofExcept wrap (look a.store)).run.run a).2 ((ofExcept wrap (look b.store)).run.run b).2
  rw [alike.store]
  exact agrees_of_except wrap (look b.store) a b alike

theorem agrees_change (edit : MemoryStore → Except StoreError Unit × MemoryStore)
    (keeps : ∀ (project : Project) store, project.Attends store → project.Attends (edit store).2) :
    Agrees (change edit) := by
  rintro ⟨serviceA, store, eventsA⟩ ⟨serviceB, _, eventsB⟩ ⟨rfl, left, right⟩
  exact agrees_of_except PruneError.store (edit store).1 ⟨serviceA, (edit store).2, eventsA⟩
    ⟨serviceB, (edit store).2, eventsB⟩
    ⟨rfl, keeps serviceA store left, keeps serviceB store right⟩

theorem agrees_ask (question : Project → MemoryStore → Except AnalysisError α × Project)
    (answer : ∀ project store, project.Attends store → (question project store).1 =
      (question (Project.indexOf store) store).1 ∧ (question project store).2.Attends store) :
    Agrees (ask question) := by
  rintro ⟨serviceA, store, eventsA⟩ ⟨serviceB, _, eventsB⟩ ⟨rfl, left, right⟩
  obtain ⟨answerA, laterA⟩ := answer serviceA store left
  obtain ⟨answerB, laterB⟩ := answer serviceB store right
  have ends := agrees_of_except PruneError.analysis (question serviceA store).1
    ⟨(question serviceA store).2, store, eventsA⟩ ⟨(question serviceB store).2, store, eventsB⟩
    ⟨rfl, laterA, laterB⟩
  have same : (question serviceA store).1 = (question serviceB store).1 :=
    answerA.trans answerB.symm
  change _ = ((ofExcept PruneError.analysis (question serviceB store).1).run.run
    ⟨(question serviceB store).2, store, eventsB⟩).1 ∧
    Alike _ ((ofExcept PruneError.analysis (question serviceB store).1).run.run
      ⟨(question serviceB store).2, store, eventsB⟩).2
  rw [← same]
  exact ends

end Steps

theorem agrees_read (file : Path) :
    Agrees (read file) := agrees_look PruneError.store fun store => FileStore.read store file

theorem agrees_load (file : Path) : Agrees (load file) :=
  agrees_look PruneError.analysis fun store => SourceModule.load store file

theorem agrees_write (file : Path) (text : String) (source : file.isSource = true) :
    Agrees (write file text) :=
  agrees_change _ fun project store attends => project.insert_attends store file text attends source

theorem agrees_delete (file : Path) (source : file.isSource = true) : Agrees (delete file) :=
  agrees_change _ fun project store attends => project.delete_attends store file attends source

theorem agrees_unused_of (file : Path) (candidates : List Candidate) :
    Agrees (unusedOf file candidates) := by
  have asks (candidate : Candidate) : Agrees (do
      let verdict ← ask fun service store => candidate.classify service store file
      return verdict == .unused : PruneM Project MemoryStore Bool) := by
    refine agrees_then _ _ (agrees_ask _ fun project store attends => ?_) fun _ => agrees_pure _
    obtain ⟨answer, same | synced⟩ := candidate.classify_synced project
      (project.attends_follows store attends) file
    · rw [same]
      exact ⟨answer, attends⟩
    · rw [synced]
      exact ⟨answer, project.synced_attends store attends⟩
  have filters : ∀ found : List Candidate, Agrees (candidates.filterAuxM (fun candidate => (do
      let verdict ← ask fun service store => candidate.classify service store file
      return verdict == .unused : PruneM Project MemoryStore Bool)) found) := by
    induction candidates with
    | nil => exact fun found => agrees_pure found
    | cons first rest ih => exact fun found => agrees_then _ _ (asks first) fun _ => ih _
  exact agrees_then _ _ (filters []) fun _ => agrees_pure _

theorem agrees_delete_file (file : Path) (source : file.isSource = true) :
    Agrees (deleteFile file) :=
  agrees_then _ _ (agrees_delete file source) fun _ => agrees_then _ _ (agrees_emit _) fun _ =>
    agrees_pure _

theorem agrees_remove_from (file : Path) (text : String) (unused : List Candidate)
    (source : file.isSource = true) :
    Agrees (removeFrom file text unused) := by
  refine agrees_then _ _ (agrees_of_except _ _) fun batch => ?_
  split
  next => exact agrees_throw _
  next edited _ =>
      dsimp only
      have writes : Agrees (do
          write file edited
          batch.removals.forM fun removal => emit (.removed file removal)
          return .removed batch.removals.length : PruneM Project MemoryStore PassResult) :=
        agrees_then _ _ (agrees_write file edited source) fun _ =>
          agrees_then _ _ (agrees_emits _ _) fun _ => agrees_pure _
      split
      next => exact agrees_then _ _ (agrees_throw _) fun _ => writes
      next => exact writes

theorem agrees_pass (options : PruneOptions) (file : Path) : Agrees (pass options file) := by
  refine agrees_bind _ _ (agrees_load file) fun space m later loads => ?_
  have source := SourceModule.load_source _ file m (load_ok file m space later loads).1
  have acts : Agrees (do
      let unused ← unusedOf file (m.scan options.skipMarker).candidates
      if unused.isEmpty then return .settled
      if mayDelete options (m.scan options.skipMarker) unused then deleteFile file
      else removeFrom file m.text unused : PruneM Project MemoryStore PassResult) := by
    refine agrees_then _ _ (agrees_unused_of file _) fun unused => ?_
    split
    next => exact agrees_pure _
    next =>
        split
        next => exact agrees_delete_file file source
        next => exact agrees_remove_from file m.text unused source
  dsimp only
  split
  next => exact agrees_then _ _ (agrees_throw _) fun _ => acts
  next => exact acts

theorem agrees_apply_fix (fix : Fix) (file : Path) (current : String)
    (source : file.isSource = true) :
    Agrees (applyFix fix file current) := by
  refine agrees_then _ _ (agrees_ask _ fun project store attends => ⟨rfl, attends⟩) fun next => ?_
  split
  next => exact agrees_pure current
  next => exact agrees_then _ _ (agrees_write file next source) fun _ => agrees_pure next

theorem agrees_remove_declarations (file : Path) (rounds : Nat) (current : String)
    (source : file.isSource = true) :
    Agrees (removeDeclarations file rounds current) := by
  induction rounds generalizing current with
  | zero => exact agrees_pure current
  | succ rounds ih =>
      refine agrees_then _ _ (agrees_apply_fix _ file current source) fun next => ?_
      split
      next => exact agrees_pure current
      next => exact ih next

theorem agrees_tidy (file : Path) (source : file.isSource = true) : Agrees (tidy file) :=
  agrees_then _ _ (agrees_read file) fun text =>
    agrees_then _ _ (agrees_remove_declarations file _ text source) fun declared =>
      agrees_then _ _ (agrees_apply_fix _ file declared source) fun _ => agrees_pure _

theorem pass_source (options : PruneOptions) (file : Path) (result : PassResult)
    (space later : Workspace Project MemoryStore)
    (ran : (pass options file).run.run space = (.ok result, later)) : file.isSource = true := by
  obtain ⟨m, middle, loads, -⟩ := bind_ok _ _ space later result ran
  exact SourceModule.load_source _ file m (load_ok file m space middle loads).1

theorem agrees_passes (options : PruneOptions) (file : Path) (bound removed count : Nat) :
    Agrees (passes options file bound removed count) := by
  induction bound generalizing removed count with
  | zero => exact agrees_throw _
  | succ bound ih =>
      refine agrees_bind _ _ (agrees_pass options file) fun space result later ran => ?_
      have source := pass_source options file result space later ran
      cases result with
      | deleted => exact agrees_pure _
      | removed more => exact ih _ _
      | settled =>
          dsimp only
          split
          next =>
              exact agrees_then _ _ (agrees_then _ _ (agrees_tidy file source) fun _ =>
                agrees_pure _) fun _ => agrees_pure _
          next => exact agrees_pure _

theorem agrees_prune_file (options : PruneOptions) (file : Path) :
    Agrees (pruneFile options file) :=
  agrees_then _ _ (agrees_read file) fun text =>
    agrees_then _ _ (agrees_emit _) fun _ =>
      agrees_then _ _ (agrees_observing _ (agrees_passes options file (Text.size text + 1) 0 0))
          fun _ =>
        agrees_then _ _ (agrees_emit _) fun _ => agrees_of_except _ _

end Workspace
end DeadExports
