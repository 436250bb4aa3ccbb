import DeadExports.Proofs.Store.Lawful

set_option autoImplicit false

namespace DeadExports

class ImmediateStore (σ : Type) [FileStore σ] : Prop where
  read_written : ∀ (store later : σ) (path : Path) (text : String),
    FileStore.write store path text = (.ok (), later) → FileStore.read later path = .ok text

instance memory_store_immediate : ImmediateStore MemoryStore where
  read_written store later path text written := by
    obtain rfl := (Prod.mk.inj written).2
    refine MemoryStore.read_of_get _ path text ?_
    rw [MemoryStore.insert_get, if_pos BEq.rfl]

theorem except_bind_ok {ε α β : Type} (first : Except ε α) (next : α → Except ε β) (value : β)
    (done : (first >>= next) = .ok value) :
    ∃ middle, first = .ok middle ∧ next middle = .ok value := by
  cases first with
  | error cause => cases done
  | ok middle => exact ⟨middle, rfl, done⟩

namespace FileSystem

theorem enter_iff (system : FileSystem) (place : Place) :
    system.enter place = .ok () ↔ system.node? place = some .directory := by
  rw [enter]
  cases found : system.node? place with
  | none => simp
  | some node => cases node <;> simp

theorem put_here (system : FileSystem) (place : Place) (node : Node) (below : place ≠ []) :
    (system.put place node).node? place = some node := by
  rw [node?, if_neg (by rwa [List.isEmpty_iff]), put, PathMap.get_insert, if_pos BEq.rfl]

theorem directory_stays (system : FileSystem) (place query : Place) (bytes : ByteArray)
    (free : system.node? place ≠ some .directory)
    (directory : system.node? query = some .directory) :
    (system.put place (.file bytes)).node? query = some .directory := by
  rw [node?] at directory ⊢
  split at directory
  next empty => rw [if_pos empty]
  next filled =>
      rw [if_neg filled, put, PathMap.get_insert]
      split
      next same =>
          refine absurd ?_ free
          rw [node?]
          split
          next => rfl
          next => rw [PathMap.get_congr _ _ _ ((Path.same_iff _ _).mp same), directory]
      next => exact directory

section Kept

variable {system later : FileSystem}
    (kept : ∀ place, system.node? place = some .directory → later.node? place = some .directory)

include kept

theorem step_stays (here next : Place) (part : Part) (taken : system.step here part = .ok next) :
    later.step here part = .ok next := by
  have entered (reached : Except StoreError Place)
    (taken : (system.enter here >>= fun _ => reached) = .ok next) :
      (later.enter here >>= fun _ => reached) = .ok next := by
    obtain ⟨_, opens, taken⟩ := except_bind_ok _ _ next taken
    rw [(enter_iff later here).mpr (kept here ((enter_iff system here).mp opens))]
    exact taken
  cases part with
  | root => exact taken
  | here => exact taken
  | up => exact entered _ taken
  | name name => exact entered _ taken

theorem steps_stay (here last : Place) (parts : List Part)
    (taken : parts.foldlM system.step here = .ok last) :
    parts.foldlM later.step here = .ok last := by
  induction parts generalizing here with
  | nil => exact taken
  | cons first rest ih =>
      rw [List.foldlM_cons] at taken ⊢
      obtain ⟨middle, next, taken⟩ := except_bind_ok _ _ last taken
      rw [step_stays kept here middle first next]
      exact ih middle taken

end Kept

theorem locate_cases (system : FileSystem) (path : Path) (place : Place)
    (located : system.locate path = .ok place) :
    path.parts.foldlM system.step [] = .ok place ∧
      ∀ bytes, system.node? place = some (.file bytes) → endsInSlash path = false := by
  obtain ⟨reached, steps, located⟩ := except_bind_ok _ _ place located
  split at located
  next =>
      split at located
      next => cases located
      next plain =>
          obtain rfl := Except.ok.inj located
          exact ⟨steps, fun _ _ => Bool.eq_false_iff.mpr plain⟩
  next notFile =>
      obtain rfl := Except.ok.inj located
      exact ⟨steps, fun bytes isFile => absurd isFile (notFile bytes)⟩

structure LeadsTo (system : FileSystem) (path : Path) (place : Place) (bytes : ByteArray) :
    Prop where
  steps : path.parts.foldlM system.step [] = .ok place
  plain : endsInSlash path = false
  found : system.node? place = some (.file bytes)

theorem leads_located (system : FileSystem) (path : Path) (place : Place) (bytes : ByteArray)
    (leads : system.LeadsTo path place bytes) : system.locate path = .ok place := by
  simp only [locate, leads.steps, bind, Except.bind, leads.found, leads.plain]
  rfl

theorem read_iff (system : FileSystem) (path : Path) (text : String) :
    system.read path = .ok text ↔
      ∃ place bytes, system.LeadsTo path place bytes ∧ String.fromUTF8? bytes = some text := by
  constructor
  · intro done
    obtain ⟨place, located, done⟩ := except_bind_ok _ _ text done
    obtain ⟨steps, plain⟩ := locate_cases system path place located
    split at done
    next => cases done
    next => cases done
    next bytes isFile =>
        split at done
        next found valid =>
            obtain rfl := Except.ok.inj done
            exact ⟨place, bytes, ⟨steps, plain bytes isFile, isFile⟩, valid⟩
        next => cases done
  · rintro ⟨place, bytes, leads, valid⟩
    simp only [read, leads_located system path place bytes leads, bind, Except.bind,
      leads.found, valid]
    rfl

theorem write_cases (system later : FileSystem) (path : Path) (text : String)
    (written : system.write path text = .ok later) :
    ∃ place, path.parts.foldlM system.step [] = .ok place ∧ endsInSlash path = false ∧
      system.node? place ≠ some .directory ∧ later = system.put place (.file text.toUTF8) := by
  obtain ⟨place, located, written⟩ := except_bind_ok _ _ later written
  obtain ⟨steps, plain⟩ := locate_cases system path place located
  split at written
  next => cases written
  next bytes isFile =>
      exact ⟨place, steps, plain bytes isFile,
        by simp [isFile], (Except.ok.inj written).symm⟩
  next missing =>
      split at written
      next => cases written
      next ends =>
          exact ⟨place, steps, Bool.eq_false_iff.mpr ends,
            by simp [missing], (Except.ok.inj written).symm⟩

theorem read_write (system later : FileSystem) (path : Path) (text : String)
    (written : system.write path text = .ok later) :
    later.read path = .ok text := by
  obtain ⟨place, steps, plain, free, rfl⟩ := write_cases system later path text written
  have below : place ≠ [] := by
    rintro rfl
    exact free rfl
  have steps := steps_stay (directory_stays system place · text.toUTF8 free) [] place _ steps
  exact (read_iff _ path text).mpr
    ⟨place, text.toUTF8, ⟨steps, plain, put_here system place _ below⟩, dif_pos text.isValidUTF8⟩

end FileSystem

instance disk_store_immediate : ImmediateStore DiskStore where
  read_written store later path text written := by
    change store.settle (store.write? path text) = (.ok (), later) at written
    cases done : store.write? path text with
    | error cause =>
        rw [done] at written
        cases written
    | ok next =>
        rw [done] at written
        obtain rfl := (Prod.mk.inj written).2
        obtain ⟨_, valid, done⟩ := except_bind_ok _ _ next done
        obtain ⟨system, wrote, done⟩ := except_bind_ok _ _ next done
        obtain rfl := Except.ok.inj done
        change (do store.validate path; system.read path : Except StoreError String) = .ok text
        rw [valid]
        exact FileSystem.read_write store.system system path text wrote

end DeadExports
