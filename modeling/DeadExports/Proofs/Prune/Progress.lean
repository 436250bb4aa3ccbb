import DeadExports.Proofs.Prune.Batch
import DeadExports.Proofs.Prune.Pass
import DeadExports.Proofs.Prune.Steady
import DeadExports.Proofs.Source.Program
import DeadExports.Proofs.Store.Written
import DeadExports.Prune.Pass

set_option autoImplicit false

namespace DeadExports

theorem SourceModule.load_reads {σ : Type} [FileStore σ] (store : σ) (file : Path)
    (m : SourceModule) (loaded : load store file = .ok m) :
    FileStore.read store file = .ok m.text := by
  rw [load] at loaded
  split at loaded
  next => cases loaded
  next text present => rw [present, (parse_program file text m loaded).1]

namespace Workspace

variable {ι σ : Type} [FileStore σ]

theorem run_load (file : Path) (space : Workspace ι σ) (m : SourceModule)
    (loaded : SourceModule.load space.store file = .ok m) :
    (load file).run.run space = (.ok m, space) := by
  change (ofExcept PruneError.analysis (SourceModule.load space.store file) :
      PruneM ι σ SourceModule).run.run space = _
  rw [loaded]
  rfl

def writeRest (file : Path) (rest : String) (removals : List Removal) : PruneM ι σ PassResult := do
  write file rest
  removals.forM fun removal => emit (.removed file removal)
  return .removed removals.length

variable (ι σ) in
theorem remove_from_plan (file : Path) (m : SourceModule) (marker : String)
    (unused : List Candidate) (listed : unused ⊆ (m.scan marker).candidates)
    (filled : unused ≠ []) :
    ∃ batch rest, Batch.plan file m.text unused = .ok batch ∧ Text.IsProperPart rest m.text ∧
      batch.removals ≠ [] ∧
      (removeFrom file m.text unused : PruneM ι σ PassResult) = writeRest file rest
        batch.removals := by
  have placed : ∀ candidate ∈ unused, candidate.Placed m.text :=
    fun candidate member => m.candidate_placed marker candidate (listed member)
  obtain ⟨batch, planned, changes, cuts, removals⟩ :=
    Batch.plan_cuts file m.text unused placed filled
  obtain ⟨rest, applied, part⟩ := Change.apply_all_cuts m.text batch.changes cuts changes
  have other : (rest == m.text) = false := by
    rw [beq_eq_false_iff_ne]
    rintro same
    have shorter := part.shorter
    rw [same] at shorter
    exact Nat.lt_irrefl _ shorter
  refine ⟨batch, rest, planned, part, removals, ?_⟩
  rw [removeFrom, planned, writeRest]
  simp only [ofExcept, pure_bind, applied, other]
  rfl

variable (ι σ) in
theorem remove_from_writes (file : Path) (m : SourceModule) (marker : String)
    (unused : List Candidate) (listed : unused ⊆ (m.scan marker).candidates)
    (filled : unused ≠ []) :
    ∃ rest removals, Text.IsProperPart rest m.text ∧ removals ≠ [] ∧
      (removeFrom file m.text unused : PruneM ι σ PassResult) = writeRest file rest removals := by
  obtain ⟨batch, rest, -, part, some, writes⟩ := remove_from_plan ι σ file m marker unused
    listed filled
  exact ⟨rest, batch.removals, part, some, writes⟩

theorem write_rest_ok (file : Path) (rest : String) (removals : List Removal)
    (space last : Workspace ι σ) (result : PassResult)
    (ran : (writeRest file rest removals).run.run space = (.ok result, last)) :
    FileStore.write space.store file rest = (.ok (), last.store) := by
  obtain ⟨_, written, writes, ran⟩ := bind_ok _ _ space last result ran
  obtain ⟨done, rfl⟩ := change_ok _ _ space written writes
  obtain ⟨_, emitted, emits, ran⟩ := bind_ok _ _ _ last result ran
  obtain ⟨-, store⟩ := emits_ok _ _ _ _ emitted emits
  obtain ⟨-, rfl⟩ := pure_ok _ result emitted last ran
  rw [store, ← done]

theorem steady_write_rest (file : Path) (rest : String) (removals : List Removal) :
    Steady (writeRest file rest removals : PruneM ι σ PassResult) :=
  steady_then _ _ (steady_change _) fun _ => steady_then _ _ (steady_emits removals _) fun _ =>
    steady_pure _

variable [LanguageService ι σ]

omit [FileStore σ] in
theorem filter_aux_listed [SourceParser ι σ] (file : Path)
    (candidates found unused : List Candidate) (space last : Workspace ι σ)
    (ran : (candidates.filterAuxM (fun candidate => (do
      let verdict ← ask fun service store => candidate.classify service store file
      return verdict == .unused : PruneM ι σ Bool)) found).run.run space = (.ok unused, last)) :
    unused ⊆ candidates ++ found ∧ last.store = space.store := by
  induction candidates generalizing found space with
  | nil =>
      obtain ⟨rfl, rfl⟩ := pure_ok found unused space last ran
      exact ⟨List.Subset.refl _, rfl⟩
  | cons first rest ih =>
      obtain ⟨isUnused, later, asked, ran⟩ := bind_ok _ _ space last unused ran
      obtain ⟨verdict, answered, asked, decided⟩ := bind_ok _ _ space later isUnused asked
      obtain ⟨-, rfl⟩ := ask_ok _ verdict space answered asked
      obtain ⟨rfl, rfl⟩ := pure_ok _ isUnused _ later decided
      obtain ⟨listed, same⟩ := ih _ _ ran
      refine ⟨fun candidate member => ?_, same⟩
      rcases List.mem_append.mp (listed member) with later | here
      · exact List.mem_append_left _ (List.mem_cons_of_mem _ later)
      · cases verdict with
        | used => exact List.mem_append_right _ here
        | unused =>
            rcases List.mem_cons.mp here with rfl | early
            · exact List.mem_append_left _ List.mem_cons_self
            · exact List.mem_append_right _ early

omit [FileStore σ] in
theorem unused_of_listed [SourceParser ι σ] (file : Path) (candidates unused : List Candidate)
    (space last : Workspace ι σ)
    (ran : (unusedOf file candidates).run.run space = (.ok unused, last)) :
    unused ⊆ candidates ∧ last.store = space.store := by
  obtain ⟨found, later, filtered, ran⟩ := bind_ok _ _ space last unused ran
  obtain ⟨rfl, rfl⟩ := pure_ok _ unused later last ran
  obtain ⟨listed, same⟩ := filter_aux_listed file candidates [] found space last filtered
  rw [List.append_nil] at listed
  exact ⟨fun candidate member => listed (List.mem_reverse.mp member), same⟩

structure Finds (options : PruneOptions) (file : Path) (space : Workspace ι σ) (m : SourceModule)
    (unused : List Candidate) (asked : Workspace ι σ) : Prop where
  loaded : SourceModule.load space.store file = .ok m
  proper : m.hasErrors = false
  answered : (unusedOf file (m.scan options.skipMarker).candidates).run.run space =
      (.ok unused, asked)

theorem pass_writes (options : PruneOptions) (file : Path) (space asked : Workspace ι σ)
    (m : SourceModule) (unused : List Candidate) (found : Finds options file space m unused asked)
    (filled : unused ≠ []) (kept : mayDelete options (m.scan options.skipMarker) unused = false) :
    ∃ rest removals, Text.IsProperPart rest m.text ∧ removals ≠ [] ∧
      (pass options file).run.run space = (writeRest file rest removals).run.run asked := by
  have listed := (unused_of_listed file _ unused space asked found.answered).1
  obtain ⟨rest, removals, part, some, writes⟩ := remove_from_writes ι σ file m _ unused
    listed filled
  refine ⟨rest, removals, part, some, ?_⟩
  rw [pass, run_bind_ok _ _ space space m (run_load file space m found.loaded)]
  simp only [found.proper]
  rw [← writes]
  change ((unusedOf file (m.scan options.skipMarker).candidates : PruneM ι σ (List Candidate)) >>=
      _).run.run space = _
  rw [run_bind_ok _ _ space asked unused found.answered, if_neg (by simpa using filled), kept]
  rfl

theorem pass_finds (options : PruneOptions) (file : Path) (space last : Workspace ι σ)
    (result : PassResult) (ran : (pass options file).run.run space = (.ok result, last)) :
    ∃ m unused asked, Finds options file space m unused asked ∧
      ((unused = [] ∧ result = .settled ∧ last = asked) ∨
        (unused ≠ [] ∧ mayDelete options (m.scan options.skipMarker) unused = true ∧
          result = .deleted) ∨
        (unused ≠ [] ∧ mayDelete options (m.scan options.skipMarker) unused = false ∧ ∃ count,
          result = .removed count)) := by
  obtain ⟨m, later, loads, rest⟩ := bind_ok _ _ space last _ ran
  clear ran
  obtain ⟨loaded, rfl⟩ := load_ok file m space later loads
  dsimp only at rest
  split at rest
  next =>
      obtain ⟨_, _, thrown, -⟩ := bind_ok _ _ _ _ _ rest
      exact (throw_ok _ _ _ _ thrown).elim
  next proper =>
      obtain ⟨unused, asked, answered, rest⟩ := bind_ok _ _ _ last _ rest
      refine ⟨m, unused, asked, ⟨loaded, Bool.eq_false_iff.mpr proper, answered⟩, ?_⟩
      split at rest
      next empty =>
          obtain ⟨rfl, rfl⟩ := pure_ok _ result asked last rest
          exact .inl ⟨List.isEmpty_iff.mp empty, rfl, rfl⟩
      next filled =>
          have some : unused ≠ [] := fun none => filled (List.isEmpty_iff.mpr none)
          split at rest
          next allowed =>
              obtain ⟨_, _, -, rest⟩ := bind_ok _ _ asked last _ rest
              obtain ⟨_, _, -, rest⟩ := bind_ok _ _ _ last _ rest
              exact .inr (.inl ⟨some, allowed, (pure_ok _ result _ last rest).1⟩)
          next kept =>
              have listed := (unused_of_listed file _ unused later asked answered).1
              obtain ⟨left, removals, -, -, writes⟩ := remove_from_writes ι σ file m _ unused
                listed some
              rw [writes] at rest
              obtain ⟨_, _, -, rest⟩ := bind_ok _ _ asked last _ rest
              obtain ⟨_, _, -, rest⟩ := bind_ok _ _ _ last _ rest
              exact .inr (.inr ⟨some, Bool.eq_false_iff.mpr kept, _,
                (pure_ok _ result _ last rest).1⟩)

theorem removed_finds (options : PruneOptions) (file : Path) (space last : Workspace ι σ)
    (count : Nat) (ran : (pass options file).run.run space = (.ok (.removed count), last)) :
    ∃ m unused asked, Finds options file space m unused asked ∧ unused ≠ [] ∧
      mayDelete options (m.scan options.skipMarker) unused = false := by
  obtain ⟨m, unused, asked, found, ⟨-, other, -⟩ | ⟨-, -, other⟩ | ⟨filled, kept, -⟩⟩ :=
    pass_finds options file space last _ ran
  · cases other
  · cases other
  · exact ⟨m, unused, asked, found, filled, kept⟩

theorem removed_writes (options : PruneOptions) (file : Path) (space last : Workspace ι σ)
    (count : Nat) (ran : (pass options file).run.run space = (.ok (.removed count), last)) :
    ∃ m rest, SourceModule.load space.store file = .ok m ∧ Text.IsProperPart rest m.text ∧
      FileStore.write space.store file rest = (.ok (), last.store) := by
  obtain ⟨m, unused, asked, found, filled, kept⟩ := removed_finds options file space last count ran
  obtain ⟨rest, removals, part, -, writes⟩ := pass_writes options file space asked m unused found
    filled kept
  rw [writes] at ran
  have written := write_rest_ok file rest removals asked last _ ran
  rw [(unused_of_listed file _ unused space asked found.answered).2] at written
  exact ⟨m, rest, found.loaded, part, written⟩

theorem steady_pass (options : PruneOptions) (file : Path) :
    Steady (pass options file : PruneM ι σ PassResult) := by
  refine steady_then _ _ (steady_load file) fun m => ?_
  dsimp only
  split
  next =>
      exact steady_bind _ _ (steady_throw _ (fun _ => nofun)) fun _ _ _ thrown =>
        (throw_ok _ _ _ _ thrown).elim
  next =>
      refine steady_bind _ _ (steady_unused_of file _) fun space unused asked answered => ?_
      split
      next => exact steady_pure _
      next filled =>
          split
          next => exact steady_delete_file file
          next =>
              have listed := (unused_of_listed file _ unused space asked answered).1
              obtain ⟨rest, removals, -, -, writes⟩ :=
                remove_from_writes ι σ file m options.skipMarker unused listed
                  (by simpa using filled)
              rw [writes]
              exact steady_write_rest file rest removals

inductive Removing (options : PruneOptions) (file : Path) :
    Nat → Workspace ι σ → Workspace ι σ → Prop where
  | none (space : Workspace ι σ) : Removing options file 0 space space
  | more (count gone : Nat) (space middle last : Workspace ι σ)
      (passed : (pass options file).run.run space = (.ok (.removed gone), middle))
      (rest : Removing options file count middle last) :
      Removing options file (count + 1) space last

theorem removing_bounded [ImmediateStore σ] (options : PruneOptions) (file : Path) (count : Nat)
    (space last : Workspace ι σ) (chain : Removing options file count space last) (text : String)
    (present : FileStore.read space.store file = .ok text) : count ≤ Text.size text := by
  induction chain generalizing text with
  | none space => exact Nat.zero_le _
  | more count gone space middle last passed rest ih =>
      obtain ⟨m, left, loaded, part, written⟩ := removed_writes options file space middle
        gone passed
      have later := ih left (ImmediateStore.read_written _ _ _ _ written)
      have same : m.text = text := by
        have reads := SourceModule.load_reads space.store file m loaded
        rw [present] at reads
        exact (Except.ok.inj reads).symm
      have shorter := part.shorter
      rw [same] at shorter
      omega

def settle (options : PruneOptions) (file : Path) (removed count : Nat) : PruneM ι σ Outcome := do
  if options.cleanup then discard (tidy file)
  return outcomeOf removed count

theorem steady_settle (options : PruneOptions) (file : Path) (removed count : Nat) :
    Steady (settle options file removed count : PruneM ι σ Outcome) := by
  rw [settle]
  dsimp only
  split
  next =>
      exact steady_then _ _ (steady_then _ _ (steady_tidy file) fun _ => steady_pure _) fun _ =>
        steady_pure _
  next => exact steady_pure _

theorem settle_ok (options : PruneOptions) (file : Path) (removed count : Nat) (outcome : Outcome)
    (space last : Workspace ι σ)
    (ran : (settle options file removed count).run.run space = (.ok outcome, last)) :
    outcome = outcomeOf removed count := by
  rw [settle] at ran
  dsimp only at ran
  split at ran
  next =>
      obtain ⟨_, _, -, ran⟩ := bind_ok _ _ space last outcome ran
      exact (pure_ok _ outcome _ last ran).1
  next => exact (pure_ok _ outcome _ last ran).1

theorem passes_turn [SourceParser ι σ] (options : PruneOptions) (file : Path)
    (bound removed count : Nat) (space : Workspace ι σ) :
    (passes options file (bound + 1) removed count).run.run space =
      match (pass options file).run.run space with
      | (.error cause, later) => (.error cause, later)
      | (.ok .deleted, later) => (.ok .deleted, later)
      | (.ok (.removed gone), later) =>
          (passes options file bound (removed + gone) (count + 1)).run.run later
      | (.ok .settled, later) => (settle options file removed count).run.run later := by
  rw [passes]
  cases passed : (pass options file).run.run space with
  | mk result later =>
      cases result with
      | error cause => exact run_bind_error _ _ space later cause passed
      | ok result =>
          rw [run_bind_ok _ _ space later result passed]
          cases result <;> rfl

theorem passes_stuck (options : PruneOptions) (file other : Path) (bound removed count : Nat)
    (space last : Workspace ι σ)
    (ran : (passes options file bound removed count).run.run space =
      (.error (.noProgress other), last)) :
    ∃ later, Removing options file bound space later := by
  induction bound generalizing removed count space with
  | zero => exact ⟨space, .none space⟩
  | succ bound ih =>
      rw [passes_turn] at ran
      split at ran
      next cause later passed =>
          obtain ⟨rfl, rfl⟩ : cause = .noProgress other ∧ later = last :=
            ⟨Except.error.inj (Prod.mk.inj ran).1, (Prod.mk.inj ran).2⟩
          exact absurd passed (steady_pass options file space other later)
      next => cases ran
      next gone later passed =>
          obtain ⟨ended, chain⟩ := ih _ _ later ran
          exact ⟨ended, .more bound gone space later ended passed chain⟩
      next later _ => exact absurd ran (steady_settle options file removed count later other last)

theorem passes_counted (options : PruneOptions) (file : Path) (bound removed count total all : Nat)
    (space last : Workspace ι σ)
    (ran : (passes options file bound removed count).run.run space =
      (.ok (.pruned total all), last)) :
    ∃ more later, all = count + more ∧ Removing options file more space later := by
  induction bound generalizing removed count space with
  | zero => cases ran
  | succ bound ih =>
      rw [passes_turn] at ran
      split at ran
      next => cases ran
      next => cases ran
      next gone later passed =>
          obtain ⟨more, ended, rfl, chain⟩ := ih _ _ later ran
          exact ⟨more + 1, ended, by omega, .more more gone space later ended passed chain⟩
      next later _ =>
          have outcome := settle_ok options file removed count _ later last ran
          rw [outcomeOf] at outcome
          split at outcome
          next => cases outcome
          next =>
              cases outcome
              exact ⟨0, space, rfl, .none space⟩

theorem passes_enough (options : PruneOptions) (file : Path) (bound more removed count : Nat)
    (space : Workspace ι σ) (enough : ∀ later, ¬ Removing options file bound space later) :
    (passes options file (bound + more) removed count).run.run space =
      (passes options file bound removed count).run.run space := by
  induction bound generalizing removed count space with
  | zero => exact absurd (.none space) (enough space)
  | succ bound ih =>
      rw [Nat.add_right_comm, passes_turn, passes_turn]
      split
      next => rfl
      next => rfl
      next gone later passed =>
          refine ih _ _ later fun ended chain => ?_
          exact enough ended (.more bound gone space later ended passed chain)
      next => rfl

theorem steady_prune_file [ImmediateStore σ] (options : PruneOptions) (file : Path) :
    Steady (pruneFile options file : PruneM ι σ Outcome) := by
  intro space other last ran
  cases reads : (read file : PruneM ι σ String).run.run space with
  | mk result later =>
      cases result with
      | error cause =>
          rw [pruneFile, pruneWithin, run_bind_error _ _ space later cause reads] at ran
          obtain ⟨rfl, rfl⟩ : cause = .noProgress other ∧ later = last :=
            ⟨Except.error.inj (Prod.mk.inj ran).1, (Prod.mk.inj ran).2⟩
          exact steady_read file space other later reads
      | ok text =>
          have present := (read_ok file text space later reads).1
          obtain ⟨ended, passed, -⟩ := prune_file_passes options file text space last _ present ran
          obtain ⟨stuck, chain⟩ := passes_stuck options file other _ 0 0 _ ended passed
          have bound := removing_bounded options file _ _ stuck chain text present
          omega

-- Whatever the service answers, a pass that finds something to remove and keeps the file writes
-- less than it read, and so removing comes to an end: there are at most as many removing passes as
-- the text has bytes.
theorem passes_make_progress (options : PruneOptions) (file : Path) (space : Workspace ι σ) :
    (∀ m unused asked, Finds options file space m unused asked → unused ≠ [] →
        mayDelete options (m.scan options.skipMarker) unused = false →
        ∃ rest removals, Text.IsProperPart rest m.text ∧ removals ≠ [] ∧
          (pass options file).run.run space = (writeRest file rest removals).run.run asked) ∧
      (∀ other last, (pass options file).run.run space ≠ (.error (.noProgress other), last)) ∧
      (ImmediateStore σ →
        (∀ other last, (pruneFile options file).run.run space ≠
          (.error (.noProgress other), last)) ∧
        ∀ text, FileStore.read space.store file = .ok text →
          (∀ count last, Removing options file count space last → count ≤ Text.size text) ∧
          (∀ removed count last, (pruneFile options file).run.run space =
            (.ok (.pruned removed count), last) →
            count ≤ Text.size text) ∧
          ∀ bound removed count, Text.size text < bound →
            (passes options file bound removed count).run.run space =
              (passes options file (Text.size text + 1) removed count).run.run space) := by
  refine ⟨fun m unused asked found filled kept => pass_writes options file space asked m unused
    found filled kept,
    steady_pass options file space, fun immediate =>
      ⟨steady_prune_file options file space, fun text present => ?_⟩⟩
  have bounded (count : Nat) (last : Workspace ι σ)
    (chain : Removing options file count space last) :
      count ≤ Text.size text := removing_bounded options file count space last chain text present
  refine ⟨bounded, ?_, ?_⟩
  · intro removed count last ran
    obtain ⟨ended, passed, -⟩ := prune_file_passes options file text space last _ present ran
    obtain ⟨more, later, rfl, chain⟩ := passes_counted options file _ 0 0 removed count _
      ended passed
    have bound := removing_bounded options file more _ later chain text present
    omega
  · intro bound removed count larger
    obtain ⟨more, rfl⟩ := Nat.exists_eq_add_of_le larger
    refine passes_enough options file (Text.size text + 1) more removed count space
      fun later chain => ?_
    have bound := bounded (Text.size text + 1) later chain
    omega

def twoLists : List (Path × String) :=
  [(⟨"/a.ts"⟩, "let a,b,c,d\nexport{a,b}\nexport{c,d}"), (⟨"/b.ts"⟩, "import {b,d} from './a'")]

theorem two_lists_shrink :
    ∃ m unused asked rest removals last, Finds {} ⟨"/a.ts"⟩ (fresh twoLists) m unused asked ∧
      unused ≠ [] ∧
      mayDelete {} (m.scan defaultMarker) unused = false ∧ Text.IsProperPart rest m.text ∧
      (pass {} ⟨"/a.ts"⟩).run.run (fresh twoLists) =
        (writeRest ⟨"/a.ts"⟩ rest removals).run.run asked ∧
      (pruneFile {} ⟨"/a.ts"⟩).run.run (fresh twoLists) = (.ok (.pruned 2 2), last) ∧
      2 ≤ Text.size m.text := by
  have ran := ran_of_outcome {} ⟨"/a.ts"⟩ (fresh twoLists) (.pruned 2 2) (by decide +kernel)
  have removed : ((pass {} ⟨"/a.ts"⟩).run.run (fresh twoLists)).1.toOption = some (.removed 1) := by
    decide +kernel
  obtain ⟨m, unused, asked, found, filled, kept⟩ : ∃ m unused asked,
    Finds {} ⟨"/a.ts"⟩ (fresh twoLists) m unused asked ∧
      unused ≠ [] ∧ mayDelete {} (m.scan defaultMarker) unused = false := by
    cases passed : (pass {} ⟨"/a.ts"⟩).run.run (fresh twoLists) with
    | mk result later =>
        rw [passed] at removed
        cases result with
        | error cause => cases removed
        | ok result =>
            obtain rfl := Option.some.inj removed
            exact removed_finds {} ⟨"/a.ts"⟩ (fresh twoLists) later 1 passed
  obtain ⟨shrinks, -, ends⟩ := passes_make_progress {} ⟨"/a.ts"⟩ (fresh twoLists)
  obtain ⟨rest, removals, part, -, writes⟩ := shrinks m unused asked found filled kept
  obtain ⟨-, bounded⟩ := ends memory_store_immediate
  obtain ⟨-, counted, -⟩ := bounded m.text (SourceModule.load_reads _ _ m found.loaded)
  exact ⟨m, unused, asked, rest, removals, _, found, filled, kept, part, writes, ran,
    counted 2 2 _ ran⟩

end Workspace
end DeadExports
