import DeadExports.Prune.Workspace

set_option autoImplicit false

namespace DeadExports.Workspace

variable {ι σ α β : Type}

theorem run_bind_ok (first : PruneM ι σ α) (next : α → PruneM ι σ β) (space later : Workspace ι σ)
    (middle : α) (done : first.run.run space = (.ok middle, later)) :
    (first >>= next).run.run space = (next middle).run.run later := by
  rw [ExceptT.run_bind, StateT.run_bind, done]
  rfl

theorem run_bind_error (first : PruneM ι σ α) (next : α → PruneM ι σ β)
    (space later : Workspace ι σ) (cause : PruneError)
    (done : first.run.run space = (.error cause, later)) :
    (first >>= next).run.run space = (.error cause, later) := by
  rw [ExceptT.run_bind, StateT.run_bind, done]
  rfl

theorem bind_ok (first : PruneM ι σ α) (next : α → PruneM ι σ β) (space last : Workspace ι σ)
    (value : β) (ran : (first >>= next).run.run space = (.ok value, last)) :
    ∃ middle later, first.run.run space = (.ok middle, later) ∧ (next middle).run.run later =
      (.ok value, last) := by
  cases done : first.run.run space with
  | mk result later =>
      cases result with
      | ok middle =>
          rw [run_bind_ok first next space later middle done] at ran
          exact ⟨middle, later, rfl, ran⟩
      | error cause =>
          rw [run_bind_error first next space later cause done] at ran
          cases ran

theorem pure_ok (result value : α) (space last : Workspace ι σ)
    (ran : (pure result : PruneM ι σ α).run.run space = (.ok value, last)) :
    value = result ∧ last = space := by
  obtain ⟨same, rfl⟩ := Prod.mk.inj ran
  exact ⟨(Except.ok.inj same).symm, rfl⟩

theorem throw_ok (cause : PruneError) (value : α) (space last : Workspace ι σ)
    (ran : (throw cause : PruneM ι σ α).run.run space = (.ok value, last)) : False := by
  cases ran

theorem of_except_ok {ε : Type} (wrap : ε → PruneError) (result : Except ε α) (value : α)
    (space last : Workspace ι σ)
    (ran : (ofExcept wrap result : PruneM ι σ α).run.run space = (.ok value, last)) :
    result = .ok value ∧ last = space := by
  cases result with
  | ok found =>
      obtain ⟨rfl, same⟩ := pure_ok found value space last ran
      exact ⟨rfl, same⟩
  | error cause => exact (throw_ok (wrap cause) value space last ran).elim

theorem emit_ok (event : EditEvent) (value : Unit) (space last : Workspace ι σ)
    (ran : (emit event : PruneM ι σ Unit).run.run space = (.ok value, last)) :
    last = { space with events := space.events ++ [event] } := (Prod.mk.inj ran).2.symm

theorem ask_ok (question : ι → σ → Except AnalysisError α × ι) (value : α)
    (space last : Workspace ι σ) (ran : (ask question).run.run space = (.ok value, last)) :
    (question space.service space.store).1 = .ok value ∧
      last = { space with service := (question space.service space.store).2 } := by
  change (ofExcept PruneError.analysis (question space.service space.store).1 :
      PruneM ι σ α).run.run
    { space with service := (question space.service space.store).2 } = (.ok value, last) at ran
  exact of_except_ok _ _ _ _ _ ran

theorem emits_ok {γ : Type} (items : List γ) (event : γ → EditEvent) (value : PUnit)
    (space last : Workspace ι σ)
    (ran : (items.forM fun item => (emit (event item) : PruneM ι σ PUnit)).run.run space =
      (.ok value, last)) :
    last.service = space.service ∧ last.store = space.store := by
  induction items generalizing space with
  | nil =>
      obtain ⟨-, rfl⟩ := pure_ok PUnit.unit value space last ran
      exact ⟨rfl, rfl⟩
  | cons first rest ih =>
      obtain ⟨_, later, emitted, ran⟩ := bind_ok _ _ space last value ran
      obtain rfl := emit_ok _ _ _ _ emitted
      have kept := ih _ ran
      exact kept

theorem run_observing (inner : PruneM ι σ α) (space : Workspace ι σ) :
    (observing inner).run.run space = (.ok (inner.run.run space).1, (inner.run.run space).2) := by
  rw [observing, ExceptT.run_tryCatch, ExceptT.run_bind, StateT.run_bind, StateT.run_bind]
  rcases inner.run.run space with ⟨cause | result, later⟩ <;> rfl

theorem read_ok [FileStore σ] (file : Path) (text : String) (space last : Workspace ι σ)
    (ran : (read file).run.run space = (.ok text, last)) :
    FileStore.read space.store file = .ok text ∧ last = space :=
  of_except_ok PruneError.store (FileStore.read space.store file) text space last ran

theorem load_ok [FileStore σ] (file : Path) (m : SourceModule) (space last : Workspace ι σ)
    (ran : (load file).run.run space = (.ok m, last)) :
    SourceModule.load space.store file = .ok m ∧ last = space :=
  of_except_ok PruneError.analysis (SourceModule.load space.store file) m space last ran

theorem change_ok (edit : σ → Except StoreError Unit × σ) (value : Unit)
    (space last : Workspace ι σ) (ran : (change edit).run.run space = (.ok value, last)) :
    (edit space.store).1 = .ok () ∧ last = { space with store := (edit space.store).2 } := by
  change (ofExcept PruneError.store (edit space.store).1 : PruneM ι σ Unit).run.run
    { space with store := (edit space.store).2 } = (.ok value, last) at ran
  exact of_except_ok _ _ _ _ _ ran

end DeadExports.Workspace
