import DeadExports.Proofs.Prune.Workspace
import DeadExports.Prune.Pass

set_option autoImplicit false

namespace DeadExports.Workspace

variable {ι σ α β : Type}

def Steady (computation : PruneM ι σ α) : Prop :=
  ∀ space file last, computation.run.run space ≠ (.error (.noProgress file), last)

theorem steady_pure (value : α) : Steady (pure value : PruneM ι σ α) := nofun

theorem steady_throw (cause : PruneError) (other : ∀ file, cause ≠ .noProgress file) :
    Steady (throw cause : PruneM ι σ α) := by
  intro space file last ran
  exact other file (Except.error.inj (Prod.mk.inj ran).1)

theorem steady_bind (first : PruneM ι σ α) (next : α → PruneM ι σ β) (steady : Steady first)
    (later : ∀ space value middle, first.run.run space = (.ok value, middle) →
      Steady (next value)) :
    Steady (first >>= next) := by
  intro space file last ran
  cases done : first.run.run space with
  | mk result middle =>
      cases result with
      | ok value =>
          rw [run_bind_ok first next space middle value done] at ran
          exact later space value middle done middle file last ran
      | error cause =>
          rw [run_bind_error first next space middle cause done] at ran
          obtain ⟨rfl, rfl⟩ : cause = .noProgress file ∧ middle = last :=
            ⟨Except.error.inj (Prod.mk.inj ran).1, (Prod.mk.inj ran).2⟩
          exact steady space file middle done

theorem steady_then (first : PruneM ι σ α) (next : α → PruneM ι σ β) (steady : Steady first)
    (later : ∀ value, Steady (next value)) : Steady (first >>= next) :=
  steady_bind first next steady fun _ value _ _ => later value

theorem steady_of_except {ε : Type} (wrap : ε → PruneError) (result : Except ε α)
    (other : ∀ cause file, wrap cause ≠ .noProgress file) :
    Steady (ofExcept wrap result : PruneM ι σ α) := by
  cases result with
  | ok value => exact steady_pure value
  | error cause => exact steady_throw (wrap cause) (other cause)

theorem steady_emit (event : EditEvent) : Steady (emit event : PruneM ι σ Unit) := nofun

theorem steady_emits {γ : Type} (items : List γ) (event : γ → EditEvent) :
    Steady (items.forM fun item => (emit (event item) : PruneM ι σ PUnit)) := by
  induction items with
  | nil => exact steady_pure PUnit.unit
  | cons first rest ih => exact steady_then _ _ (steady_emit _) fun _ => ih

theorem steady_ask (question : ι → σ → Except AnalysisError α × ι) : Steady (ask question) := by
  intro space
  exact steady_of_except PruneError.analysis (question space.service space.store).1
    (fun _ _ => nofun) _

theorem steady_change (edit : σ → Except StoreError Unit × σ) :
    Steady (change edit : PruneM ι σ Unit) := by
  intro space
  exact steady_of_except PruneError.store (edit space.store).1 (fun _ _ => nofun) _

variable [FileStore σ]

theorem steady_read (file : Path) : Steady (read file : PruneM ι σ String) := by
  intro space
  exact steady_of_except PruneError.store (FileStore.read space.store file) (fun _ _ => nofun) space

theorem steady_load (file : Path) : Steady (load file : PruneM ι σ SourceModule) := by
  intro space
  exact steady_of_except PruneError.analysis (SourceModule.load space.store file)
    (fun _ _ => nofun) space

theorem steady_delete_file (file : Path) : Steady (deleteFile file : PruneM ι σ PassResult) :=
  steady_then _ _ (steady_change _) fun _ => steady_then _ _ (steady_emit _) fun _ => steady_pure _

variable [LanguageService ι σ]

theorem steady_unused_of (file : Path) (candidates : List Candidate) :
    Steady (unusedOf file candidates : PruneM ι σ (List Candidate)) := by
  have filters : ∀ found : List Candidate, Steady (candidates.filterAuxM (fun candidate => (do
      let verdict ← ask fun service store => candidate.classify service store file
      return verdict == .unused : PruneM ι σ Bool)) found) := by
    induction candidates with
    | nil => exact fun found => steady_pure found
    | cons first rest ih =>
        exact fun found => steady_then _ _ (steady_then _ _ (steady_ask _) fun _ => steady_pure _)
          fun _ => ih _
  exact steady_then _ _ (filters []) fun _ => steady_pure _

theorem steady_apply_fix (fix : Fix) (file : Path) (current : String) :
    Steady (applyFix fix file current : PruneM ι σ String) := by
  refine steady_then _ _ (steady_ask _) fun next => ?_
  split
  next => exact steady_pure current
  next => exact steady_then _ _ (steady_change _) fun _ => steady_pure next

theorem steady_remove_declarations (file : Path) (rounds : Nat) (current : String) :
    Steady (removeDeclarations file rounds current : PruneM ι σ String) := by
  induction rounds generalizing current with
  | zero => exact steady_pure current
  | succ rounds ih =>
      refine steady_then _ _ (steady_apply_fix _ file current) fun next => ?_
      split
      next => exact steady_pure current
      next => exact ih next

theorem steady_tidy (file : Path) : Steady (tidy file : PruneM ι σ Bool) :=
  steady_then _ _ (steady_read file) fun text =>
    steady_then _ _ (steady_remove_declarations file _ text) fun declared =>
      steady_then _ _ (steady_apply_fix _ file declared) fun _ => steady_pure _

end DeadExports.Workspace
