import DeadExports.CommandLine.Run
import DeadExports.Proofs.Project.Image
import DeadExports.Proofs.Prune.Progress
import DeadExports.Proofs.Store.Opened
import DeadExports.Prune.Run
import DeadExports.Trace.Basic

set_option autoImplicit false

namespace DeadExports

variable {σ τ : Type} [FileStore σ] [FileStore τ] [TextStore σ] [TextStore τ]

namespace TextStore

omit [FileStore τ] [TextStore τ] in
theorem edited_attends (project : Project) (store later : σ) (file : Path) (text? : Option String)
    (source : file.isSource = true) (attends : project.Attends (image store))
    (edited : Edited image Sound store later file text?) : project.Attends (image later) := by
  refine Project.changed_attends project (image store) (image later) attends
    (fun query plain => ?_) ?_
  · rw [MemoryStore.contains_eq, MemoryStore.contains_eq, edited.texts]
    split
    next same =>
        rw [← Path.is_source_congr file query ((Path.same_iff file query).mp same), source] at plain
        cases plain
    next => rfl
  · rw [revision, revision, edited.revision]

omit [FileStore τ] [TextStore τ] in
theorem edited_holds (store later : σ) (file : Path) (text? : Option String)
    (edited : Edited image Sound store later file text?) (query : Path) :
    FileStore.contains later query = if file == query then text?.isSome
      else FileStore.contains store query := by
  rw [← contains later, ← contains store, MemoryStore.contains_eq, MemoryStore.contains_eq,
    edited.texts]
  split <;> rfl

end TextStore

namespace Workspace

structure Twins (targets : List Path) (a : Workspace Project σ) (b : Workspace Project τ) :
    Prop where
  sound : TextStore.Sound a.store
  sounds : TextStore.Sound b.store
  texts : ∀ path, (TextStore.image a.store).texts.get? path =
      (TextStore.image b.store).texts.get? path
  left : a.service.Attends (TextStore.image a.store)
  right : b.service.Attends (TextStore.image b.store)
  events : a.events = b.events
  spelled : ∀ target ∈ targets, FileStore.contains a.store target = true →
      FileSystem.endsInSlash target = false

section Twins

variable {targets : List Path} {a : Workspace Project σ} {b : Workspace Project τ}

theorem twins_hold (twins : Twins targets a b) (path : Path) :
    FileStore.contains a.store path = FileStore.contains b.store path := by
  rw [← TextStore.contains a.store, ← TextStore.contains b.store, MemoryStore.contains_eq,
    MemoryStore.contains_eq, twins.texts]

theorem twins_read (twins : Twins targets a b) (file : Path)
    (plain : FileSystem.endsInSlash file = false) (held : FileStore.contains a.store file = true) :
    FileStore.read a.store file = FileStore.read b.store file := by
  rw [TextStore.read a.store file twins.sound held plain,
    TextStore.read b.store file twins.sounds ((twins_hold twins file).symm.trans held) plain]
  change (TextStore.image a.store).read file = (TextStore.image b.store).read file
  rw [MemoryStore.read, MemoryStore.read, twins.texts]

theorem twins_load (twins : Twins targets a b) (file : Path)
    (plain : FileSystem.endsInSlash file = false) (held : FileStore.contains a.store file = true) :
    SourceModule.load a.store file = SourceModule.load b.store file := by
  rw [SourceModule.load, SourceModule.load, twins_read twins file plain held]

theorem twins_edited (twins : Twins targets a b) (laterA : σ) (laterB : τ) (file : Path)
    (text? : Option String) (source : file.isSource = true)
    (held : FileStore.contains a.store file = true)
    (left : Edited TextStore.image TextStore.Sound a.store laterA file text?)
    (right : Edited TextStore.image TextStore.Sound b.store laterB file text?) :
    Twins targets { a with store := laterA } { b with store := laterB } where
  sound := left.sound
  sounds := right.sound
  texts path := by rw [left.texts, right.texts, twins.texts]
  left := TextStore.edited_attends a.service a.store laterA file text? source twins.left left
  right := TextStore.edited_attends b.service b.store laterB file text? source twins.right right
  events := twins.events
  spelled target member holds := by
    refine twins.spelled target member ?_
    rw [TextStore.edited_holds a.store laterA file text? left] at holds
    split at holds
    next same =>
        rw [TextStore.contains_congr a.store target file ((Path.same_iff file target).mp same).symm]
        exact held
    next => exact holds

end Twins

-- Two computations that go alongside: from twins, the left one of which meets a condition, they
-- come to the same result and to twins again.
def Alongside (targets : List Path) {α : Type} (before : σ → Prop) (after : α → σ → Prop)
    (left : PruneM Project σ α) (right : PruneM Project τ α) : Prop :=
  ∀ a b, Twins targets a b → before a.store →
    (left.run.run a).1 = (right.run.run b).1 ∧ Twins targets (left.run.run a).2
    (right.run.run b).2 ∧
      ∀ value, (left.run.run a).1 = .ok value → after value (left.run.run a).2.store

section Steps

variable {targets : List Path} {α β : Type} {before : σ → Prop}

theorem alongside_pure {after : α → σ → Prop} (value : α)
    (holds : ∀ store, before store → after value store) :
    Alongside targets before after (pure value : PruneM Project σ α)
      (pure value : PruneM Project τ α) := by
  intro a b twins meets
  refine ⟨rfl, twins, fun found same => ?_⟩
  obtain rfl : value = found := Except.ok.inj same
  exact holds a.store meets

theorem alongside_throw {after : α → σ → Prop} (cause : PruneError) :
    Alongside targets before after (throw cause : PruneM Project σ α)
      (throw cause : PruneM Project τ α) :=
  fun _ _ twins _ => ⟨rfl, twins, fun _ same => (by cases same)⟩

theorem alongside_stop {after : β → σ → Prop} (cause : PruneError) (next : α → PruneM Project σ β)
    (later : α → PruneM Project τ β) :
    Alongside targets before after (throw cause >>= next) (throw cause >>= later) :=
  fun _ _ twins _ => ⟨rfl, twins, fun _ same => (by cases same)⟩

theorem alongside_bind {middle : α → σ → Prop} {after : β → σ → Prop} (first : PruneM Project σ α)
    (next : α → PruneM Project σ β) (other : PruneM Project τ α) (later : α → PruneM Project τ β)
    (begins : Alongside targets before middle first other)
    (ends : ∀ value, Alongside targets (middle value) after (next value) (later value)) :
    Alongside targets before after (first >>= next) (other >>= later) := by
  intro a b twins meets
  obtain ⟨same, still, reached⟩ := begins a b twins meets
  cases left : first.run.run a with
  | mk result lastA =>
      cases right : other.run.run b with
      | mk answer lastB =>
          rw [left, right] at same still
          rw [left] at reached
          dsimp only at same still reached
          subst same
          cases result with
          | ok value =>
              rw [run_bind_ok first next a lastA value left, run_bind_ok other later b lastB
                value right]
              exact ends value lastA lastB still (reached value rfl)
          | error cause =>
              rw [run_bind_error first next a lastA cause left, run_bind_error other later b lastB
                cause right]
              exact ⟨rfl, still, fun _ same => (by cases same)⟩

theorem alongside_of_except {ε : Type} (wrap : ε → PruneError) (result : Except ε α) :
    Alongside targets before (fun _ => before) (ofExcept wrap result : PruneM Project σ α)
      (ofExcept wrap result : PruneM Project τ α) := by
  cases result with
  | ok value => exact alongside_pure value fun _ meets => meets
  | error cause => exact alongside_throw (wrap cause)

theorem alongside_emit (event : EditEvent) :
    Alongside targets before (fun _ => before) (emit event : PruneM Project σ Unit)
      (emit event : PruneM Project τ Unit) := by
  intro a b twins meets
  refine ⟨rfl, ⟨twins.sound, twins.sounds, twins.texts, twins.left, twins.right, ?_, twins.spelled⟩,
    fun _ _ => meets⟩
  exact congrArg (· ++ [event]) twins.events

theorem alongside_emits {γ : Type} (items : List γ) (event : γ → EditEvent) :
    Alongside targets before (fun _ => before)
      (items.forM fun item => (emit (event item) : PruneM Project σ PUnit))
      (items.forM fun item => (emit (event item) : PruneM Project τ PUnit)) := by
  induction items with
  | nil => exact alongside_pure PUnit.unit fun _ meets => meets
  | cons first rest ih => exact alongside_bind _ _ _ _ (alongside_emit _) fun _ => ih

theorem alongside_observing {after : α → σ → Prop} (inner : PruneM Project σ α)
    (other : PruneM Project τ α) (inside : Alongside targets before after inner other) :
    Alongside targets before (fun _ _ => True) (observing inner) (observing other) := by
  intro a b twins meets
  obtain ⟨same, still, -⟩ := inside a b twins meets
  rw [run_observing, run_observing, same]
  exact ⟨rfl, still, fun _ _ => trivial⟩

theorem alongside_ask (question : Project → σ → Except AnalysisError α × Project)
    (other : Project → τ → Except AnalysisError α × Project)
    (answers : ∀ a b, Twins targets a b → before a.store → (question a.service a.store).1 =
      (other b.service b.store).1 ∧ (question a.service a.store).2.Attends
        (TextStore.image a.store) ∧ (other b.service b.store).2.Attends (TextStore.image b.store)) :
    Alongside targets before (fun _ => before) (ask question) (ask other) := by
  intro a b twins meets
  obtain ⟨same, left, right⟩ := answers a b twins meets
  have answered (ι ρ : Type) (asked : ι → ρ → Except AnalysisError α × ι) (space : Workspace ι ρ) :
      (ask asked).run.run space =
      (ofExcept PruneError.analysis (asked space.service space.store).1 : PruneM ι ρ α).run.run
        { space with service := (asked space.service space.store).2 } := rfl
  rw [answered, answered, ← same]
  exact alongside_of_except PruneError.analysis (question a.service a.store).1 _ _
    ⟨twins.sound, twins.sounds, twins.texts, left, right, twins.events, twins.spelled⟩ meets

theorem run_change {ι ρ : Type} (edit : ρ → Except StoreError Unit × ρ) (space : Workspace ι ρ)
    (later : ρ) (done : edit space.store = (.ok (), later)) :
    (change edit).run.run space = (.ok (), { space with store := later }) := by
  change (ofExcept PruneError.store (edit space.store).1 : PruneM ι ρ Unit).run.run
      { space with store := (edit space.store).2 } = _
  rw [done]
  rfl

theorem alongside_unused_of (file : Path) (candidates : List Candidate) :
    Alongside targets before (fun _ => before)
      (unusedOf file candidates : PruneM Project σ (List Candidate))
      (unusedOf file candidates : PruneM Project τ (List Candidate)) := by
  have asks (candidate : Candidate) : Alongside targets before (fun _ => before)
      (do
        let verdict ← ask fun service store => candidate.classify service store file
        return verdict == .unused : PruneM Project σ Bool)
      (do
        let verdict ← ask fun service store => candidate.classify service store file
        return verdict == .unused : PruneM Project τ Bool) := by
    refine alongside_bind _ _ _ _ (alongside_ask _ _ fun a b twins _ => ?_) fun _ =>
      alongside_pure _ fun _ meets => meets
    exact ⟨candidate.classify_texts _ _ _ _ file twins.sound twins.sounds twins.texts twins.left
      twins.right,
      candidate.classify_attends _ _ file twins.sound twins.left,
      candidate.classify_attends _ _ file twins.sounds twins.right⟩
  have filters : ∀ found : List Candidate, Alongside targets before (fun _ => before)
      (candidates.filterAuxM (fun candidate => (do
        let verdict ← ask fun service store => candidate.classify service store file
        return verdict == .unused : PruneM Project σ Bool)) found)
      (candidates.filterAuxM (fun candidate => (do
        let verdict ← ask fun service store => candidate.classify service store file
        return verdict == .unused : PruneM Project τ Bool)) found) := by
    induction candidates with
    | nil => exact fun found => alongside_pure found fun _ meets => meets
    | cons first rest ih => exact fun found => alongside_bind _ _ _ _ (asks first) fun _ => ih _
  exact alongside_bind _ _ _ _ (filters []) fun _ => alongside_pure _ fun _ meets => meets

end Steps

def Holds (file : Path) (store : σ) : Prop := FileStore.contains store file = true

section File

variable {targets : List Path} {file : Path} (plain : FileSystem.endsInSlash file = false)

include plain

theorem alongside_read :
    Alongside targets (Holds file) (fun _ => Holds file) (read file : PruneM Project σ String)
      (read file : PruneM Project τ String) := by
  intro a b twins held
  have looked (ι ρ : Type) [FileStore ρ] (space : Workspace ι ρ) : (read file).run.run space =
      (ofExcept PruneError.store (FileStore.read space.store file) : PruneM ι ρ String).run.run
      space := rfl
  rw [looked, looked, ← twins_read twins file plain held]
  exact alongside_of_except PruneError.store (FileStore.read a.store file) a b twins held

theorem alongside_load :
    Alongside targets (Holds file) (fun _ store => Holds file store ∧ file.isSource = true)
      (load file : PruneM Project σ SourceModule) (load file : PruneM Project τ SourceModule) := by
  have asks : Alongside targets (Holds file) (fun _ => Holds file) (load file :
    PruneM Project σ SourceModule)
      (load file : PruneM Project τ SourceModule) :=
    alongside_ask _ _ fun a b twins held =>
      ⟨twins_load twins file plain held, twins.left, twins.right⟩
  intro a b twins held
  obtain ⟨same, still, holds⟩ := asks a b twins held
  refine ⟨same, still, fun m loaded => ⟨holds m loaded, ?_⟩⟩
  exact SourceModule.load_source a.store file m (load_ok file m a _ (Prod.ext loaded rfl)).1

theorem alongside_write (text : String) (source : file.isSource = true) :
    Alongside targets (Holds file) (fun _ => Holds file) (write file text : PruneM Project σ Unit)
      (write file text : PruneM Project τ Unit) := by
  intro a b twins held
  obtain ⟨laterA, doneA, left⟩ := TextStore.write a.store file text twins.sound held plain
  obtain ⟨laterB, doneB, right⟩ := TextStore.write b.store file text twins.sounds
    ((twins_hold twins file).symm.trans held) plain
  rw [write, run_change _ a laterA doneA, write, run_change _ b laterB doneB]
  refine ⟨rfl, twins_edited twins laterA laterB file (some text) source held left right,
    fun _ _ => ?_⟩
  change FileStore.contains laterA file = true
  rw [TextStore.edited_holds a.store laterA file (some text) left, if_pos BEq.rfl]
  rfl

theorem alongside_delete (source : file.isSource = true) :
    Alongside targets (Holds file) (fun _ _ => True) (delete file : PruneM Project σ Unit)
      (delete file : PruneM Project τ Unit) := by
  intro a b twins held
  obtain ⟨laterA, doneA, left⟩ := TextStore.delete a.store file twins.sound held plain
  obtain ⟨laterB, doneB, right⟩ := TextStore.delete b.store file twins.sounds
    ((twins_hold twins file).symm.trans held) plain
  rw [delete, run_change _ a laterA doneA, delete, run_change _ b laterB doneB]
  exact ⟨rfl, twins_edited twins laterA laterB file none source held left right, fun _ _ => trivial⟩

theorem alongside_apply_fix (fix : Fix) (current : String) (source : file.isSource = true) :
    Alongside targets (Holds file) (fun _ => Holds file)
      (applyFix fix file current : PruneM Project σ String)
      (applyFix fix file current : PruneM Project τ String) := by
  refine alongside_bind _ _ _ _ (alongside_ask _ _ fun a b twins held =>
    ⟨?_, twins.left, twins.right⟩) fun next => ?_
  · exact congrArg (Except.map fix.apply) (twins_load twins file plain held)
  · split
    next => exact alongside_pure current fun _ held => held
    next =>
        exact alongside_bind _ _ _ _ (alongside_write plain next source) fun _ =>
          alongside_pure next fun _ held => held

theorem alongside_remove_declarations (rounds : Nat) (current : String)
    (source : file.isSource = true) :
    Alongside targets (Holds file) (fun _ => Holds file)
      (removeDeclarations file rounds current : PruneM Project σ String)
      (removeDeclarations file rounds current : PruneM Project τ String) := by
  induction rounds generalizing current with
  | zero => exact alongside_pure current fun _ held => held
  | succ rounds ih =>
      refine alongside_bind _ _ _ _ (alongside_apply_fix plain _ current source) fun next => ?_
      split
      next => exact alongside_pure current fun _ held => held
      next => exact ih next

theorem alongside_tidy (source : file.isSource = true) :
    Alongside targets (Holds file) (fun _ => Holds file) (tidy file : PruneM Project σ Bool)
      (tidy file : PruneM Project τ Bool) :=
  alongside_bind _ _ _ _ (alongside_read plain) fun text =>
    alongside_bind _ _ _ _ (alongside_remove_declarations plain _ text source) fun declared =>
      alongside_bind _ _ _ _ (alongside_apply_fix plain _ declared source) fun _ => alongside_pure _
        fun _ held => held

theorem alongside_delete_file (source : file.isSource = true) :
    Alongside targets (Holds file) (fun result store => result ≠ .deleted → Holds file store)
      (deleteFile file : PruneM Project σ PassResult)
      (deleteFile file : PruneM Project τ PassResult) :=
  alongside_bind _ _ _ _ (alongside_delete plain source) fun _ =>
    alongside_bind _ _ _ _ (alongside_emit _) fun _ => alongside_pure _ fun _ _ other =>
      absurd rfl other

theorem alongside_remove_from (text : String) (unused : List Candidate)
    (source : file.isSource = true) :
    Alongside targets (Holds file) (fun result store => result ≠ .deleted → Holds file store)
      (removeFrom file text unused : PruneM Project σ PassResult)
      (removeFrom file text unused : PruneM Project τ PassResult) := by
  refine alongside_bind _ _ _ _ (alongside_of_except _ _) fun batch => ?_
  split
  next => exact alongside_throw _
  next edited _ =>
      dsimp only
      split
      next => exact alongside_stop _ _ _
      next =>
          exact alongside_bind _ _ _ _ (alongside_write plain edited source) fun _ =>
            alongside_bind _ _ _ _ (alongside_emits _ _) fun _ => alongside_pure _
              fun _ held _ => held

theorem alongside_pass (options : PruneOptions) :
    Alongside targets (Holds file) (fun result store => file.isSource = true ∧
      (result ≠ .deleted → Holds file store))
      (pass options file : PruneM Project σ PassResult)
      (pass options file : PruneM Project τ PassResult) := by
  refine alongside_bind _ _ _ _ (alongside_load plain) fun m => ?_
  dsimp only
  split
  next => exact alongside_stop _ _ _
  next =>
      refine alongside_bind _ _ _ _ (alongside_unused_of file _) fun unused => ?_
      split
      next => exact alongside_pure _ fun _ held => ⟨held.2, fun _ => held.1⟩
      next =>
          intro a b twins held
          have ends : Alongside targets (Holds file) (fun result store => result ≠ .deleted →
            Holds file store)
              (if mayDelete options (m.scan options.skipMarker) unused then deleteFile file
                else removeFrom file m.text unused : PruneM Project σ PassResult)
              (if mayDelete options (m.scan options.skipMarker) unused then deleteFile file
                else removeFrom file m.text unused : PruneM Project τ PassResult) := by
            split
            next => exact alongside_delete_file plain held.2
            next => exact alongside_remove_from plain m.text unused held.2
          obtain ⟨same, still, stays⟩ := ends a b twins held.1
          exact ⟨same, still, fun result done => ⟨held.2, stays result done⟩⟩

theorem alongside_settle (options : PruneOptions) (removed count : Nat)
    (source : file.isSource = true) :
    Alongside targets (Holds file) (fun _ _ => True)
      (settle options file removed count : PruneM Project σ Outcome)
      (settle options file removed count : PruneM Project τ Outcome) := by
  rw [settle, settle]
  split
  next =>
      have tidied : Alongside targets (Holds file) (fun _ => Holds file) (discard (tidy file) :
        PruneM Project σ PUnit)
          (discard (tidy file) : PruneM Project τ PUnit) :=
        alongside_bind _ _ _ _ (alongside_tidy plain source) fun _ => alongside_pure _
          fun _ held => held
      exact alongside_bind _ _ _ _ tidied fun _ => alongside_pure _ fun _ _ => trivial
  next => exact alongside_pure _ fun _ _ => trivial

theorem alongside_passes (options : PruneOptions) (bound removed count : Nat) :
    Alongside targets (Holds file) (fun _ _ => True)
      (passes options file bound removed count : PruneM Project σ Outcome)
      (passes options file bound removed count : PruneM Project τ Outcome) := by
  induction bound generalizing removed count with
  | zero => exact alongside_throw _
  | succ bound ih =>
      refine alongside_bind _ _ _ _ (alongside_pass plain options) fun result => ?_
      intro a b twins holds
      cases result with
      | deleted => exact ⟨rfl, twins, fun _ _ => trivial⟩
      | removed more => exact ih _ _ a b twins (holds.2 (by simp))
      | settled =>
          exact alongside_settle plain options removed count holds.1 a b twins
            (holds.2 (by simp))

theorem alongside_prune_file (options : PruneOptions) :
    Alongside targets (Holds file) (fun _ _ => True)
      (pruneFile options file : PruneM Project σ Outcome)
      (pruneFile options file : PruneM Project τ Outcome) :=
  alongside_bind _ _ _ _ (alongside_read plain) fun text =>
    alongside_bind _ _ _ _ (alongside_emit _) fun _ =>
      alongside_bind _ _ _ _ (alongside_observing _ _
          (alongside_passes plain options (Text.size text + 1) 0 0)) fun _ =>
        alongside_bind _ _ _ _ (alongside_emit _) fun _ => alongside_of_except _ _

end File
end Workspace

namespace Run

structure Twins (targets : List Path) (a : Run Project σ) (b : Run Project τ) : Prop where
  space : a.space.Twins targets b.space
  summary : a.summary = b.summary
  changed : a.changed = b.changed

variable {targets : List Path} {a : Run Project σ} {b : Run Project τ}

theorem visit_twins (options : PruneOptions) (target : Path) (member : target ∈ targets)
    (twins : Twins targets a b) :
    Twins targets (visit (Workspace.pruneFile options) a target)
      (visit (Workspace.pruneFile options) b target) := by
  rw [visit, visit, ← Workspace.twins_hold twins.space]
  split
  next held =>
      have plain := twins.space.spelled target member held
      obtain ⟨same, still, -⟩ := Workspace.alongside_prune_file plain options a.space b.space
        twins.space held
      cases left : (Workspace.pruneFile options target).run.run a.space with
      | mk result lastA =>
          cases right : (Workspace.pruneFile options target).run.run b.space with
          | mk answer lastB =>
              rw [left, right] at same still
              dsimp only at same still
              subst same
              cases result with
              | ok outcome => exact ⟨still, by rw [twins.summary], by rw [twins.changed]⟩
              | error cause => exact ⟨still, by rw [twins.summary], twins.changed⟩
  next => exact twins

theorem round_twins (options : PruneOptions) (number : Nat) (twins : Twins targets a b) :
    Twins targets (round (Workspace.pruneFile options) targets number a)
      (round (Workspace.pruneFile options) targets number b) := by
  have folded : ∀ (visited : List Path), (∀ target ∈ visited, target ∈ targets) →
      ∀ (a : Run Project σ) (b : Run Project τ), Twins targets a b →
        Twins targets (visited.foldl (visit (Workspace.pruneFile options)) a)
        (visited.foldl (visit (Workspace.pruneFile options)) b) := by
    intro visited
    induction visited with
    | nil => exact fun _ _ _ twins => twins
    | cons first rest ih =>
        intro every a b twins
        exact ih (fun target member => every target (List.mem_cons_of_mem _ member)) _ _
          (visit_twins options first (every first List.mem_cons_self) twins)
  exact folded targets (fun _ member => member) _ _ ⟨twins.space, by rw [twins.summary], rfl⟩

theorem rounds_twins (options : PruneOptions) (left number : Nat) (twins : Twins targets a b) :
    Twins targets (rounds (Workspace.pruneFile options) targets left number a)
      (rounds (Workspace.pruneFile options) targets left number b) := by
  induction left generalizing number a b with
  | zero => exact twins
  | succ left ih =>
      have next := round_twins options number twins
      rw [rounds, rounds, ← next.changed]
      split
      next => exact ih _ next
      next => exact next

end Run

namespace Workspace

theorem run_twins (options : PruneOptions) (targets : List Path) (a : Workspace Project σ)
    (b : Workspace Project τ) (twins : Twins targets a b) :
    (a.run options targets).1 = (b.run options targets).1 ∧ Twins targets (a.run options targets).2
      (b.run options targets).2 := by
  have last := Run.rounds_twins options options.roundLimit 1
    (⟨twins, rfl, rfl⟩ : Run.Twins targets { space := a } { space := b })
  exact ⟨last.summary, last.space⟩

theorem fresh_twins (targets : List Path) (disk : DiskStore) (memory : MemoryStore)
    (sound : disk.Sound) (texts : ∀ path, disk.image.texts.get? path = memory.texts.get? path)
    (readable : ∀ target ∈ targets, FileStore.contains disk target = true → ∃ text,
      FileStore.read disk target = .ok text) :
    Twins targets { service := Project.empty, store := disk }
      { service := Project.empty, store := memory } := by
  refine ⟨sound, trivial, texts, Project.empty_attends _, Project.empty_attends _, rfl,
    fun target member held => ?_⟩
  obtain ⟨text, done⟩ := readable target member held
  exact DiskStore.read_plain target text done

theorem check_predicts_write (options : PruneOptions) (targets : List Path) (disk : DiskStore)
    (memory : MemoryStore) (sound : disk.Sound)
    (texts : ∀ path, disk.image.texts.get? path = memory.texts.get? path)
    (readable : ∀ target ∈ targets, FileStore.contains disk target = true → ∃ text,
      FileStore.read disk target = .ok text) :
    let written := run options targets { service := Project.empty, store := disk }
    let checked := run options targets { service := Project.empty, store := memory }
    written.1 = checked.1 ∧ written.2.events = checked.2.events ∧
      Recording.empty.observeAll written.2.events = Recording.empty.observeAll checked.2.events ∧
      written.2.store.Sound ∧ ∀ path, written.2.store.image.texts.get? path =
        checked.2.store.texts.get? path := by
  obtain ⟨summary, last⟩ := run_twins options targets _ _
    (fresh_twins targets disk memory sound texts readable)
  exact ⟨summary, last.events, congrArg _ last.events, last.sound, last.texts⟩

def stored : DiskStore where
  system := ((FileSystem.makeDirectory {} ["p"]).put ["p", "a.ts"]
    (.file "export let x;\nexport let y;\n".toUTF8)).put
    ["p", "m.ts"] (.file "import { x } from './a';\nx;\n".toUTF8)
  root := ⟨"/p"⟩
  members := .ofList [(⟨"/p/a.ts"⟩, ()), (⟨"/p/m.ts"⟩, ())]

def copied : MemoryStore :=
  .ofList [(⟨"/p/a.ts"⟩, "export let x;\nexport let y;\n"),
    (⟨"/p/m.ts"⟩, "import { x } from './a';\nx;\n")]

theorem stored_read (file : Path) (found : (stored.read file).toOption.isSome = true) :
    ∃ text, stored.read file = .ok text := by
  obtain ⟨text, done⟩ := Option.isSome_iff_exists.mp found
  exact ⟨text, except_some done⟩

theorem stored_sound : stored.Sound where
  readable file member := by
    have every : ∀ file ∈ stored.members.keys, (stored.read file).toOption.isSome = true := by
      decide +kernel
    exact stored_read file (every file member)
  apart := by decide +kernel

theorem stored_texts (path : Path) : stored.image.texts.get? path = copied.texts.get? path := by
  have spelled : stored.image.texts.entries.map (fun entry => (entry.1.spelling, entry.2)) =
      copied.texts.entries.map fun entry => (entry.1.spelling, entry.2) := by decide +kernel
  have same : stored.image.texts.entries = copied.texts.entries := by
    refine List.map_injective_iff.mpr ?_ spelled
    rintro ⟨⟨first⟩, text⟩ ⟨⟨second⟩, other⟩ alike
    simpa using alike
  rw [PathMap.get?, same, PathMap.get?]

theorem stored_runs_as_copied :
    (run {} [⟨"/p/a.ts"⟩] { service := Project.empty, store := stored }).1.removed = 1 ∧
      ∀ path, (run {} [⟨"/p/a.ts"⟩]
        { service := Project.empty, store := stored }).2.store.image.texts.get? path =
        (run {} [⟨"/p/a.ts"⟩] { service := Project.empty, store := copied }).2.store.texts.get?
          path := by
  obtain ⟨summary, -, -, -, texts⟩ := check_predicts_write {} [⟨"/p/a.ts"⟩] stored copied
    stored_sound stored_texts
    fun target member _ => List.mem_singleton.mp member ▸ stored_read ⟨"/p/a.ts"⟩
    (by decide +kernel)
  refine ⟨?_, texts⟩
  rw [summary]
  decide +kernel

end Workspace

theorem CommandLine.prune_copied (options : PruneOptions) (targets : List Path)
    (system : FileSystem) (root : Path) (disk : DiskStore) (memory : MemoryStore)
    (opened : DiskStore.start system root = .ok disk)
    (taken : MemoryStore.snapshot system disk.root = .ok memory)
    (among : ∀ target ∈ targets, target ∈ FileStore.files disk) :
    (prune memory targets options).summary = (prune disk targets options).summary ∧
      (prune memory targets options).edits = (prune disk targets options).edits ∧
      ∀ path, (prune memory targets options).store.texts.get? path =
        (prune disk targets options).store.image.texts.get? path := by
  obtain ⟨sound, texts⟩ := DiskStore.opened_as_snapshot system root disk memory opened taken
  have twins := Workspace.fresh_twins targets disk memory sound texts fun target member _ =>
    sound.readable target (among target member)
  obtain ⟨summary, last⟩ := Workspace.run_twins options targets _ _ twins
  refine ⟨summary.symm, ?_, fun path => (last.texts path).symm⟩
  exact congrArg (fun events => (Recording.empty.observeAll events).edited) last.events.symm

end DeadExports
