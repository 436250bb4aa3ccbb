import DeadExports.Proofs.Prune.Progress
import DeadExports.Prune.Run

set_option autoImplicit false

namespace DeadExports

structure Logged (σ : Type) where
  store : σ
  written : List Path := []

variable {ι σ α β : Type} [FileStore σ]

namespace Logged

instance fileStore : FileStore (Logged σ) where
  read logged := FileStore.read logged.store
  write logged path text :=
    ((FileStore.write logged.store path text).1,
      ⟨(FileStore.write logged.store path text).2, logged.written ++ [path]⟩)
  delete logged path :=
    ((FileStore.delete logged.store path).1,
      ⟨(FileStore.delete logged.store path).2, logged.written⟩)
  contains logged := FileStore.contains logged.store
  files logged := FileStore.files logged.store
  revision logged := FileStore.revision logged.store

theorem write_ok (logged later : Logged σ) (file : Path) (text : String)
    (done : FileStore.write logged file text = (.ok (), later)) :
    FileStore.write logged.store file text = (.ok (), later.store) ∧
    later.written = logged.written ++ [file] := by
  obtain ⟨result, rfl⟩ := Prod.mk.inj done
  exact ⟨Prod.ext result rfl, rfl⟩

theorem delete_ok (logged later : Logged σ) (file : Path)
    (done : FileStore.delete logged file = (.ok (), later)) :
    FileStore.delete logged.store file = (.ok (), later.store) ∧
    later.written = logged.written := by
  obtain ⟨result, rfl⟩ := Prod.mk.inj done
  exact ⟨Prod.ext result rfl, rfl⟩

instance (priority := low) languageService [LanguageService ι σ] :
    LanguageService ι (Logged σ) where
  findReferences service logged := LanguageService.findReferences service logged.store
  resolveModule service logged := LanguageService.resolveModule service logged.store
  applyFix service logged := LanguageService.applyFix service logged.store

variable [LanguageService ι σ]

theorem follow_logged (logged : Logged σ) (references : List Reference) (steps : Nat) (service : ι)
    (passed : List Path) (importer : Path) (specifier : String) :
    Chain.follow logged references steps service passed importer specifier =
      Chain.follow logged.store references steps service passed importer specifier := by
  induction steps generalizing service passed importer specifier with
  | zero => rfl
  | succ steps ih =>
      simp only [Chain.follow, ih]
      rfl

theorem is_used_by_logged (service : ι) (logged : Logged σ) (file : Path) (candidate : Candidate)
    (references : List Reference) :
    candidate.isUsedBy service logged file references = candidate.isUsedBy service logged.store file
      references := by
  simp only [Candidate.isUsedBy, Chain.find, follow_logged]

theorem classify_at_logged (logged : Logged σ) (file : Path) (candidate : Candidate)
    (positions : List Nat) (service : ι) :
    Candidate.classifyAt logged file candidate positions service =
      Candidate.classifyAt logged.store file candidate positions service := by
  induction positions generalizing service with
  | nil => rfl
  | cons position rest ih =>
      simp only [Candidate.classifyAt, is_used_by_logged, ih]
      rfl

end Logged

namespace Workspace

def unlogged (space : Workspace ι (Logged σ)) :
    Workspace ι σ := ⟨space.service, space.store.store, space.events⟩

def logged (space : Workspace ι σ) :
    Workspace ι (Logged σ) := ⟨space.service, ⟨space.store, []⟩, space.events⟩

def Unlogs (left : PruneM ι (Logged σ) α) (right : PruneM ι σ α) : Prop :=
  ∀ space, right.run.run space.unlogged = ((left.run.run space).1, (left.run.run space).2.unlogged)

section Steps

omit [FileStore σ]

theorem unlogs_pure (value : α) :
    Unlogs (pure value : PruneM ι (Logged σ) α) (pure value) := fun _ => rfl

theorem unlogs_throw (cause : PruneError) :
    Unlogs (throw cause : PruneM ι (Logged σ) α) (throw cause) := fun _ => rfl

theorem unlogs_stop (cause : PruneError) (next : α → PruneM ι (Logged σ) β)
    (later : α → PruneM ι σ β) :
    Unlogs (throw cause >>= next) (throw cause >>= later) := fun _ => rfl

theorem unlogs_bind (first : PruneM ι (Logged σ) α) (next : α → PruneM ι (Logged σ) β)
    (other : PruneM ι σ α) (later : α → PruneM ι σ β) (begins : Unlogs first other)
    (ends : ∀ value, Unlogs (next value) (later value)) :
    Unlogs (first >>= next) (other >>= later) := by
  intro space
  have same := begins space
  cases done : first.run.run space with
  | mk result middle =>
      rw [done] at same
      cases result with
      | ok value =>
          rw [run_bind_ok other later _ _ value same, run_bind_ok first next space middle
            value done]
          exact ends value middle
      | error cause =>
          rw [run_bind_error other later _ _ cause same,
            run_bind_error first next space middle cause done]

theorem unlogs_of_except {ε : Type} (wrap : ε → PruneError) (result : Except ε α) :
    Unlogs (ofExcept wrap result : PruneM ι (Logged σ) α) (ofExcept wrap result) := by
  cases result with
  | ok value => exact unlogs_pure value
  | error cause => exact unlogs_throw (wrap cause)

theorem unlogs_emit (event : EditEvent) :
    Unlogs (emit event : PruneM ι (Logged σ) Unit) (emit event) := fun _ => rfl

theorem unlogs_emits {γ : Type} (items : List γ) (event : γ → EditEvent) :
    Unlogs (items.forM fun item => (emit (event item) : PruneM ι (Logged σ) PUnit))
      (items.forM fun item => (emit (event item) : PruneM ι σ PUnit)) := by
  induction items with
  | nil => exact unlogs_pure PUnit.unit
  | cons first rest ih => exact unlogs_bind _ _ _ _ (unlogs_emit _) fun _ => ih

theorem unlogs_observing (inner : PruneM ι (Logged σ) α) (other : PruneM ι σ α)
    (inside : Unlogs inner other) :
    Unlogs (observing inner) (observing other) := by
  intro space
  rw [run_observing, run_observing, inside space]

theorem unlogs_ask (question : ι → Logged σ → Except AnalysisError α × ι)
    (other : ι → σ → Except AnalysisError α × ι)
    (same : ∀ service logged, question service logged = other service logged.store) :
    Unlogs (ask question) (ask other) := by
  intro space
  change (ofExcept PruneError.analysis (other space.service space.store.store).1 :
      PruneM ι σ α).run.run
    (unlogged ⟨(other space.service space.store.store).2, space.store, space.events⟩) = _
  rw [unlogs_of_except, ← same]
  rfl

theorem unlogs_change (edit : Logged σ → Except StoreError Unit × Logged σ)
    (other : σ → Except StoreError Unit × σ)
    (same : ∀ logged, other logged.store = ((edit logged).1, (edit logged).2.store)) :
    Unlogs (change edit : PruneM ι (Logged σ) Unit) (change other) := by
  intro space
  change (ofExcept PruneError.store (other space.store.store).1 : PruneM ι σ Unit).run.run
    ⟨space.service, (other space.store.store).2, space.events⟩ = _
  rw [same]
  exact unlogs_of_except PruneError.store (edit space.store).1 ⟨space.service, (edit space.store).2,
    space.events⟩

end Steps

theorem unlogs_read (file : Path) :
    Unlogs (read file : PruneM ι (Logged σ) String) (read file) := fun space =>
  unlogs_of_except PruneError.store (FileStore.read space.store file) space

theorem unlogs_load (file : Path) :
    Unlogs (load file : PruneM ι (Logged σ) SourceModule) (load file) :=
  unlogs_ask _ _ fun _ _ => rfl

theorem unlogs_write (file : Path) (text : String) :
    Unlogs (write file text : PruneM ι (Logged σ) Unit) (write file text) :=
  unlogs_change _ _ fun _ => rfl

theorem unlogs_delete (file : Path) :
    Unlogs (delete file : PruneM ι (Logged σ) Unit) (delete file) :=
  unlogs_change _ _ fun _ => rfl

theorem unlogs_delete_file (file : Path) :
    Unlogs (deleteFile file : PruneM ι (Logged σ) PassResult) (deleteFile file) :=
  unlogs_bind _ _ _ _ (unlogs_delete file) fun _ => unlogs_bind _ _ _ _ (unlogs_emit _) fun _ =>
    unlogs_pure _

theorem unlogs_remove_from (file : Path) (text : String) (unused : List Candidate) :
    Unlogs (removeFrom file text unused : PruneM ι (Logged σ) PassResult)
      (removeFrom file text unused) := by
  refine unlogs_bind _ _ _ _ (unlogs_of_except _ _) fun batch => ?_
  split
  next => exact unlogs_throw _
  next edited _ =>
      dsimp only
      split
      next => exact unlogs_stop _ _ _
      next =>
          exact unlogs_bind _ _ _ _ (unlogs_write file edited) fun _ =>
            unlogs_bind _ _ _ _ (unlogs_emits _ _) fun _ => unlogs_pure _

variable [LanguageService ι σ]

theorem unlogs_unused_of (file : Path) (candidates : List Candidate) :
    Unlogs (unusedOf file candidates : PruneM ι (Logged σ) (List Candidate))
      (unusedOf file candidates) := by
  have filters : ∀ found : List Candidate, Unlogs
      (candidates.filterAuxM (fun candidate => (do
        let verdict ← ask fun service store => candidate.classify service store file
        return verdict == .unused : PruneM ι (Logged σ) Bool)) found)
      (candidates.filterAuxM (fun candidate => (do
        let verdict ← ask fun service store => candidate.classify service store file
        return verdict == .unused : PruneM ι σ Bool)) found) := by
    induction candidates with
    | nil => exact fun found => unlogs_pure found
    | cons first rest ih =>
        refine fun found => unlogs_bind _ _ _ _ (unlogs_bind _ _ _ _ (unlogs_ask _ _ ?_) fun _ =>
          unlogs_pure _) fun _ => ih _
        exact fun service logged => logged.classify_at_logged file first first.positions service
  exact unlogs_bind _ _ _ _ (filters []) fun _ => unlogs_pure _

theorem unlogs_pass (options : PruneOptions) (file : Path) :
    Unlogs (pass options file : PruneM ι (Logged σ) PassResult) (pass options file) := by
  refine unlogs_bind _ _ _ _ (unlogs_load file) fun m => ?_
  dsimp only
  split
  next => exact unlogs_stop _ _ _
  next =>
      refine unlogs_bind _ _ _ _ (unlogs_unused_of file _) fun unused => ?_
      split
      next => exact unlogs_pure _
      next =>
          split
          next => exact unlogs_delete_file file
          next => exact unlogs_remove_from file m.text unused

theorem unlogs_apply_fix (fix : Fix) (file : Path) (current : String) :
    Unlogs (applyFix fix file current : PruneM ι (Logged σ) String)
      (applyFix fix file current) := by
  refine unlogs_bind _ _ _ _ (unlogs_ask _ _ fun _ _ => rfl) fun next => ?_
  split
  next => exact unlogs_pure current
  next => exact unlogs_bind _ _ _ _ (unlogs_write file next) fun _ => unlogs_pure next

theorem unlogs_remove_declarations (file : Path) (rounds : Nat) (current : String) :
    Unlogs (removeDeclarations file rounds current : PruneM ι (Logged σ) String)
      (removeDeclarations file rounds current) := by
  induction rounds generalizing current with
  | zero => exact unlogs_pure current
  | succ rounds ih =>
      refine unlogs_bind _ _ _ _ (unlogs_apply_fix _ file current) fun next => ?_
      split
      next => exact unlogs_pure current
      next => exact ih next

theorem unlogs_tidy (file : Path) : Unlogs (tidy file : PruneM ι (Logged σ) Bool) (tidy file) :=
  unlogs_bind _ _ _ _ (unlogs_read file) fun text =>
    unlogs_bind _ _ _ _ (unlogs_remove_declarations file _ text) fun declared =>
      unlogs_bind _ _ _ _ (unlogs_apply_fix _ file declared) fun _ => unlogs_pure _

theorem unlogs_settle (options : PruneOptions) (file : Path) (removed count : Nat) :
    Unlogs (settle options file removed count : PruneM ι (Logged σ) Outcome)
      (settle options file removed count) := by
  rw [settle, settle]
  dsimp only
  split
  next =>
      exact unlogs_bind _ _ _ _ (unlogs_bind _ _ _ _ (unlogs_tidy file) fun _ => unlogs_pure _)
        fun _ => unlogs_pure _
  next => exact unlogs_pure _

theorem unlogs_passes (options : PruneOptions) (file : Path) (bound removed count : Nat) :
    Unlogs (passes options file bound removed count : PruneM ι (Logged σ) Outcome)
      (passes options file bound removed count) := by
  induction bound generalizing removed count with
  | zero => exact unlogs_throw _
  | succ bound ih =>
      refine unlogs_bind _ _ _ _ (unlogs_pass options file) fun result => ?_
      cases result with
      | deleted => exact unlogs_pure _
      | removed more => exact ih _ _
      | settled => exact unlogs_settle options file removed count

theorem unlogs_prune_file (options : PruneOptions) (file : Path) :
    Unlogs (pruneFile options file : PruneM ι (Logged σ) Outcome) (pruneFile options file) :=
  unlogs_bind _ _ _ _ (unlogs_read file) fun text =>
    unlogs_bind _ _ _ _ (unlogs_emit _) fun _ =>
      unlogs_bind _ _ _ _ (unlogs_observing _ _
          (unlogs_passes options file (Text.size text + 1) 0 0)) fun _ =>
        unlogs_bind _ _ _ _ (unlogs_emit _) fun _ => unlogs_of_except _ _

end Workspace

namespace Run

variable [LanguageService ι σ]

def unlogged (run : Run ι (Logged σ)) : Run ι σ := ⟨run.space.unlogged, run.summary, run.changed⟩

theorem visit_unlogged (options : PruneOptions) (run : Run ι (Logged σ)) (target : Path) :
    visit (Workspace.pruneFile options) run.unlogged target =
      (visit (Workspace.pruneFile options) run target).unlogged := by
  rw [visit, visit]
  change (if FileStore.contains run.space.store target then _ else _) = _
  split
  next =>
      rw [show run.unlogged.space = run.space.unlogged from rfl, Workspace.unlogs_prune_file options
        target run.space]
      rcases (Workspace.pruneFile options target).run.run run.space
        with ⟨cause | outcome, later⟩ <;> rfl
  next => rfl

theorem visits_unlogged (options : PruneOptions) (targets : List Path) (run : Run ι (Logged σ)) :
    targets.foldl (visit (Workspace.pruneFile options)) run.unlogged =
      (targets.foldl (visit (Workspace.pruneFile options)) run).unlogged := by
  induction targets generalizing run with
  | nil => rfl
  | cons target rest ih => rw [List.foldl_cons, List.foldl_cons, visit_unlogged, ih]

theorem rounds_unlogged (options : PruneOptions) (targets : List Path) (left number : Nat)
    (run : Run ι (Logged σ)) :
    rounds (Workspace.pruneFile options) targets left number run.unlogged =
      (rounds (Workspace.pruneFile options) targets left number run).unlogged := by
  induction left generalizing number run with
  | zero => rfl
  | succ left ih =>
      have here : round (Workspace.pruneFile options) targets number run.unlogged =
          (round (Workspace.pruneFile options) targets number run).unlogged :=
        visits_unlogged options targets { run with summary.rounds := number, changed := false }
      rw [rounds, rounds, here]
      change (if (round (Workspace.pruneFile options) targets number run).changed then _ else _) = _
      split
      next => exact ih _ _
      next => rfl

end Run

namespace Workspace

variable [LanguageService ι σ]

theorem run_logged (options : PruneOptions) (targets : List Path) (space : Workspace ι σ) :
    run options targets space =
      ((run options targets space.logged).1, (run options targets space.logged).2.unlogged) := by
  have last := Run.rounds_unlogged options targets options.roundLimit 1 { space := space.logged }
  exact congrArg (fun last => (last.summary, last.space)) last

def writesOf (options : PruneOptions) (targets : List Path) (space : Workspace ι σ) : List Path :=
  (run options targets space.logged).2.store.written

end Workspace
end DeadExports
