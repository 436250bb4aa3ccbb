import DeadExports.Proofs.Candidate.Protection
import DeadExports.Proofs.Prune.Batch
import DeadExports.Proofs.Prune.Pass

set_option autoImplicit false

namespace DeadExports

namespace SourceModule

theorem parse_again (path : Path) (text other : String) (m : SourceModule)
    (parsed : parse path text = .ok m) :
    ∃ later, parse path other = .ok later := by
  rw [parse] at parsed ⊢
  split at parsed
  next => cases parsed
  next language known =>
      split
      next => exact ⟨_, rfl⟩
      next => exact ⟨_, rfl⟩

theorem load_insert (store : MemoryStore) (file : Path) (text : String) (m : SourceModule)
    (loaded : load store file = .ok m) :
    ∃ later, load (store.insert file text) file = .ok later ∧ later.text = text := by
  obtain ⟨before, -, parsed⟩ := text_of_load store file m loaded
  obtain ⟨later, again⟩ := parse_again file before text m parsed
  have read : FileStore.read (store.insert file text) file = .ok text :=
    MemoryStore.read_of_get _ file text (by rw [MemoryStore.insert_get, if_pos BEq.rfl])
  refine ⟨later, ?_, (parse_program file text later again).1⟩
  rw [load, read]
  exact again

def protectedNames (m : SourceModule) (marker : String) : List String :=
  ((m.examined marker).filter Examined.isProtected).flatMap fun one => one.candidate.names

theorem mem_protected_names (m : SourceModule) (marker name : String) :
    name ∈ m.protectedNames marker ↔
      ∃ one ∈ m.examined marker, one.isProtected = true ∧ name ∈ one.candidate.names := by
  simp only [protectedNames, List.mem_flatMap, List.mem_filter, and_assoc]

theorem examined_named (m : SourceModule) (marker : String) (one : Examined)
    (member : one ∈ m.examined marker) :
    one.candidate.names ≠ [] := by
  obtain ⟨statement, stated, isExport, ⟨_, specifier, -, -, same⟩ | ⟨noClause, declared⟩⟩ :=
    m.examined_cases marker one member
  · rw [same]
    exact List.cons_ne_nil _ _
  · have laidOut := Tree.laid_out_child m.tree m.laidOut statement
      (statement_member m statement stated)
    obtain ⟨-, filled⟩ := Scan.declaration_items m.text statement one.candidate laidOut isExport
      noClause declared
    intro none
    rw [Candidate.items, none] at filled
    exact filled rfl

theorem skipped_named (m : SourceModule) (marker : String) (skipped : (m.scan marker).skipped ≠ 0) :
    m.protectedNames marker ≠ [] := by
  rw [(m.scan_counts marker).skipped, ne_eq, Nat.zero_add, List.countP_eq_zero] at skipped
  push Not at skipped
  obtain ⟨one, member, isProtected⟩ := skipped
  obtain ⟨name, rest, named⟩ := List.exists_cons_of_ne_nil (m.examined_named marker one member)
  refine List.ne_nil_of_mem ((m.mem_protected_names marker name).mpr ⟨one, member, isProtected, ?_⟩)
  rw [named]
  exact List.mem_cons_self

theorem protected_not_deleted (m : SourceModule) (options : PruneOptions) (store : MemoryStore)
    (file : Path) (name : String) (named : name ∈ m.protectedNames options.skipMarker) :
    Workspace.mayDelete options (m.scan options.skipMarker)
      (m.unused options.skipMarker store file) = false := by
  obtain ⟨one, member, isProtected, -⟩ := (m.mem_protected_names _ name).mp named
  have some : 0 < (m.scan options.skipMarker).skipped := by
    rw [(m.scan_counts options.skipMarker).skipped, Nat.zero_add, List.countP_pos_iff]
    exact ⟨one, member, isProtected⟩
  have room := m.scan_room options.skipMarker
  have fewer : (m.unused options.skipMarker store file).length ≤
      (m.scan options.skipMarker).candidates.length :=
    List.length_filter_le _ _
  have other : ((m.unused options.skipMarker store file).length ==
      (m.scan options.skipMarker).exportCount) = false :=
    beq_eq_false_iff_ne.mpr (by omega)
  rw [Workspace.mayDelete, other, Bool.false_and, Bool.false_and]

end SourceModule

namespace Sweep

def cuts (file : Path) (sweep : Sweep) (m : SourceModule) : List Span :=
  match Batch.plan file m.text sweep.unused with
  | .ok batch => Change.taken m.text batch.changes
  | .error _ => []

def LeavesRest (marker : String) (file : Path) (sweep : Sweep) : Prop :=
  ∀ m ∈ (SourceModule.load sweep.before file).toOption,
    ∀ later ∈ (SourceModule.load sweep.after file).toOption,
    SourceModule.LeavesRest marker sweep.unused (sweep.cuts file m) m later

instance (marker : String) (file : Path) (sweep : Sweep) :
    Decidable (sweep.LeavesRest marker file) :=
  inferInstanceAs (Decidable (∀ m ∈ (SourceModule.load sweep.before file).toOption, _))

variable {options : PruneOptions} {file : Path}

def Protects (marker : String) (file : Path) (name : String) (store : MemoryStore) : Prop :=
  ∃ m, SourceModule.load store file = .ok m ∧ name ∈ m.protectedNames marker

theorem sweep_protects (sweep : Sweep) (found : of? options file sweep.before = some sweep)
    (leaves : sweep.LeavesRest options.skipMarker file) (name : String)
    (holds : Protects options.skipMarker file name sweep.before) :
    Protects options.skipMarker file name sweep.after := by
  obtain ⟨-, m, batch, edited, loaded, unused, filled, planned, applied, after⟩ :=
    of_edits sweep.before sweep found
  obtain ⟨_, loaded', named⟩ := holds
  obtain rfl := Except.ok.inj (loaded.symm.trans loaded')
  obtain ⟨later, reloaded, text⟩ := SourceModule.load_insert sweep.before file edited m loaded
  have only : ∀ candidate ∈ sweep.unused, candidate ∈ (m.scan options.skipMarker).candidates := by
    intro candidate member
    rw [unused] at member
    exact (List.mem_filter.mp member).1
  obtain ⟨_, planned', -, made, -⟩ := Batch.plan_cuts file m.text sweep.unused
    (fun candidate member => m.candidate_placed _ candidate (only candidate member)) filled
  obtain rfl := Except.ok.inj (planned.symm.trans planned')
  have left : Text.Leaves m.text (sweep.cuts file m) later.text := by
    rw [cuts, planned, text]
    exact Change.apply_all_kept m.text batch.changes made edited applied
  have rest := leaves m (by rw [loaded]; rfl) later (by rw [after, reloaded]; rfl)
  obtain ⟨one, examined, isProtected, among⟩ := (m.mem_protected_names _ name).mp named
  obtain ⟨other, examined', isProtected', names⟩ := SourceModule.protected_stays left only rest one
    examined isProtected
  rw [after]
  exact ⟨later, reloaded, (later.mem_protected_names _ name).mpr
    ⟨other, examined', isProtected', names ▸ among⟩⟩

end Sweep

namespace Workspace

-- By induction over the sweeps: while each leaves the rest of the text as it was, what a comment
-- protects stays, and so does the file.
theorem protected_exports_survive (options : PruneOptions) (file : Path) (outcome : Outcome)
    (space last : Workspace Project MemoryStore) (follows : space.service.Follows space.store)
    (plain : options.cleanup = false)
    (ran : (pruneFile options file).run.run space = (.ok outcome, last)) (m : SourceModule)
    (loaded : SourceModule.load space.store file = .ok m)
    (leaves : ∀ sweep ∈ Sweep.all options file space.store,
      sweep.LeavesRest options.skipMarker file) :
    ((m.scan options.skipMarker).skipped ≠ 0 → outcome ≠ .deleted) ∧
      ∀ name ∈ m.protectedNames options.skipMarker, ∃ later, SourceModule.load last.store file =
        .ok later ∧
        (Facts.extract later).exportsName name = true := by
  have protects (name : String) (named : name ∈ m.protectedNames options.skipMarker) :
      Sweep.Protects options.skipMarker file name
      (Sweep.settled space.store (Sweep.all options file space.store)) :=
    Sweep.within_keeps (Sweep.Protects options.skipMarker file name) _ space.store
      ⟨m, loaded, named⟩
      fun sweep member found holds => sweep.sweep_protects found (leaves sweep member) name holds
  have kept (name : String) (named : name ∈ m.protectedNames options.skipMarker) :
    outcome ≠ .deleted ∧
      last.store = Sweep.settled space.store (Sweep.all options file space.store) := by
    obtain ⟨later, reloaded, still⟩ := protects name named
    rcases prune_file_ok options file outcome space last follows ran
      with ⟨-, deleted⟩ | ⟨other, store⟩
    · generalize last.store = store at deleted
      cases deleted with
      | deleted m' _ loaded' _ allowed =>
          obtain rfl := Except.ok.inj (loaded'.symm.trans reloaded)
          rw [SourceModule.protected_not_deleted m' options _ file name still] at allowed
          cases allowed
    · exact ⟨other, store plain⟩
  refine ⟨fun skipped => ?_, fun name named => ?_⟩
  · obtain ⟨name, rest, names⟩ := List.exists_cons_of_ne_nil
      (m.skipped_named options.skipMarker skipped)
    exact (kept name (names ▸ List.mem_cons_self)).1
  · obtain ⟨later, reloaded, still⟩ := protects name named
    obtain ⟨one, examined, -, among⟩ := (later.mem_protected_names _ name).mp still
    obtain ⟨text, -, parsed⟩ := SourceModule.text_of_load _ file later reloaded
    have isProgram := (SourceModule.parse_program file text later parsed).2
    exact ⟨later, (kept name named).2 ▸ reloaded, later.examined_exported options.skipMarker
      isProgram one examined name among⟩

def keeping : PruneOptions := { deleteFiles := true, skipMarker := "keep" }

def markedList : List (Path × String) := [(⟨"/f.ts"⟩, "export \x7b\n  a,\n  // keep\n  b\n\x7d\n")]

def protectedIn (files : List (Path × String)) : Option (List String) :=
  (SourceModule.load (fresh files).store ⟨"/f.ts"⟩).toOption.map fun m =>
    m.protectedNames keeping.skipMarker

theorem marked_name_survives :
    ∃ last, (pruneFile keeping ⟨"/f.ts"⟩).run.run (fresh markedList) = (.ok (.pruned 1 1), last) ∧
      ∃ later, SourceModule.load last.store ⟨"/f.ts"⟩ = .ok later ∧
        (Facts.extract later).exportsName "b" = true := by
  have ran := ran_of_outcome keeping ⟨"/f.ts"⟩ (fresh markedList) (.pruned 1 1) (by decide +kernel)
  have known : protectedIn markedList = some ["b"] := by decide +kernel
  obtain ⟨m, found, names⟩ := Option.map_eq_some_iff.mp known
  have survives := protected_exports_survive keeping ⟨"/f.ts"⟩ (.pruned 1 1) (fresh markedList) _
    (Project.empty_follows _) rfl
    ran m (except_some found) (by decide +kernel)
  exact ⟨_, ran, survives.2 "b" (names ▸ List.mem_singleton_self "b")⟩

def joined : List (Path × String) := [(⟨"/f.ts"⟩, "let z; export {z}\n// keep\nexport let k\n")]

def enclosed : List (Path × String) := [(⟨"/f.ts"⟩, "export \x7ba\n/* keep */,\nb\x7d\n")]

theorem protection_is_lost :
    (protectedIn joined = some ["k"] ∧
      ((pruneFile keeping ⟨"/f.ts"⟩).run.run (fresh joined)).1.toOption = some .deleted) ∧
      protectedIn enclosed = some ["b"] ∧
        ((pruneFile { keeping with deleteFiles := false } ⟨"/f.ts"⟩).run.run
          (fresh enclosed)).2.store.get? ⟨"/f.ts"⟩ =
          some "" := by
  decide +kernel

end Workspace

end DeadExports
