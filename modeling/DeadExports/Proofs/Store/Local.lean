import DeadExports.Proofs.Store.Opened

set_option autoImplicit false

namespace DeadExports

def textAt? {σ : Type} [FileStore σ] (store : σ) (path : Path) : Option (Option String) :=
  ((FileStore.files store).find? (· == path)).map fun file => (FileStore.read store file).toOption

theorem text_at_held {σ : Type} [FileStore σ] [LawfulStore σ] (store : σ) (path : Path) :
    (textAt? store path).isSome = FileStore.contains store path := by
  rw [textAt?, Option.isSome_map, Bool.eq_iff_iff, LawfulStore.listed, List.find?_isSome]
  simp only [Path.same_iff]

theorem text_at_absent {σ : Type} [FileStore σ] [LawfulStore σ] (store : σ) (path : Path)
    (absent : FileStore.contains store path = false) : textAt? store path = none := by
  rwa [← text_at_held, Option.isSome_eq_false_iff, Option.isNone_iff_eq_none] at absent

theorem text_at_congr {σ : Type} [FileStore σ] (store : σ) (a b : Path) (same : (a == b) = true) :
    textAt? store a = textAt? store b := by
  rw [textAt?, textAt?, Path.same_congr a b same]

structure Touched {σ : Type} [FileStore σ] (Sound : σ → Prop) (store later : σ) (path : Path)
    (text? : Option String) :
    Prop where
  sound : Sound later
  texts : ∀ query, textAt? later query = if path == query then text?.map some
      else textAt? store query

class LocalStore (σ : Type) [FileStore σ] [LawfulStore σ] where
  Sound : σ → Prop
  read : ∀ store path text, Sound store → FileStore.contains store path = true →
      FileStore.read store path = .ok text →
    textAt? store path = some (some text)
  write : ∀ store later path old text, Sound store → FileStore.contains store path = true →
    FileStore.read store path = .ok old → FileStore.write store path text = (.ok (), later) →
    Touched Sound store later path (some text)
  delete : ∀ store later path old, Sound store → FileStore.contains store path = true →
    FileStore.read store path = .ok old → FileStore.delete store path = (.ok (), later) →
    Touched Sound store later path none

namespace MemoryStore

theorem text_at_eq (store : MemoryStore) (path : Path) :
    textAt? store path = (store.texts.get? path).map some := by
  change ((store.texts.entries.map Prod.fst).find? (· == path)).map _ = _
  rw [List.find?_map, PathMap.get?, Option.map_map, Option.map_map]
  cases found : store.texts.entries.find? fun entry => entry.1 == path with
  | none => simp only [Function.comp_def, found, Option.map_none]
  | some entry =>
      have same : entry.1.parts = path.parts := (Path.same_iff entry.1 path).mp (List.find?_some
        (p := fun entry : Path × String => entry.1 == path) found)
      have present : store.texts.get? entry.1 = some entry.2 := by
        rw [PathMap.get_congr _ entry.1 path same, PathMap.get?, found, Option.map_some]
      simp only [Function.comp_def, found, Option.map_some, read_of_get store entry.1 entry.2
        present, Except.toOption]

instance localStore : LocalStore MemoryStore where
  Sound _ := True
  read store path text _ _ done := by
    change store.read path = .ok text at done
    rw [MemoryStore.read] at done
    rw [text_at_eq]
    cases found : store.texts.get? path with
    | none =>
        rw [found] at done
        cases done
    | some held =>
        rw [found] at done
        rw [Except.ok.inj done, Option.map_some]
  write store later path _ text _ _ _ done := by
    obtain rfl := (Prod.mk.inj done).2
    refine ⟨trivial, fun query => ?_⟩
    rw [text_at_eq, text_at_eq, insert_get]
    split <;> rfl
  delete store later path _ _ held _ done := by
    rcases store.delete_cases path with ⟨-, result⟩ | ⟨absent, -⟩
    · obtain rfl := (Prod.mk.inj (result.symm.trans done)).2
      refine ⟨trivial, fun query => ?_⟩
      rw [text_at_eq, text_at_eq, PathMap.get_erase]
      split <;> rfl
    · exact absurd (held.symm.trans absent) (by decide)

end MemoryStore

namespace FileSystem

structure Beside (place : Place) (a b : FileSystem) : Prop where
  directories : ∀ query, a.node? query = some .directory ↔ b.node? query = some .directory
  files : ∀ query bytes, (pathOf place == pathOf query) = false →
    (a.node? query = some (.file bytes) ↔ b.node? query = some (.file bytes))

section Beside

variable {system later : FileSystem} {path key : Path} {place there : Place} {bytes old : ByteArray}

theorem beside_put (leads : system.LeadsTo path place bytes) (new : ByteArray) :
    Beside place system (system.put place (.file new)) where
  directories query := by
    refine ⟨directory_stays system place query new (leads_not_directory leads), fun directory => ?_⟩
    rw [node?] at directory ⊢
    split at directory
    next empty => rw [if_pos empty]
    next filled =>
        rw [put, PathMap.get_insert] at directory
        rw [if_neg filled]
        split at directory
        next => cases directory
        next => exact directory
  files query bytes apart := by
    rw [node?, node?, put, PathMap.get_insert, apart, if_neg Bool.false_ne_true]

theorem beside_erase (leads : system.LeadsTo path place bytes) :
    Beside place system { system with nodes := system.nodes.erase (pathOf place) } where
  directories query := by
    refine ⟨directory_left leads query, fun directory => ?_⟩
    rw [node?] at directory ⊢
    split at directory
    next empty => rw [if_pos empty]
    next filled =>
        rw [PathMap.get_erase] at directory
        rw [if_neg filled]
        split at directory
        next => cases directory
        next => exact directory
  files query bytes apart := by
    rw [node?, node?, PathMap.get_erase, apart, if_neg Bool.false_ne_true]

theorem beside_led (leads : system.LeadsTo path place bytes) (beside : Beside place system later)
    (led : later.LeadsTo key there old) : ∃ now, system.LeadsTo key there now := by
  have steps := steps_stay (fun query => (beside.directories query).mpr) [] there _ led.steps
  cases same : pathOf place == pathOf there with
  | false => exact ⟨old, steps, led.plain, (beside.files there old same).mpr led.found⟩
  | true =>
      refine ⟨bytes, steps, led.plain, ?_⟩
      have found := leads.found
      rw [node?, if_neg (by simpa using leads_below leads)] at found
      rw [node?, if_neg (by simpa using leads_below led), ← found]
      exact (PathMap.get_congr _ _ _ ((Path.same_iff _ _).mp same)).symm

theorem beside_reads (leads : system.LeadsTo path place bytes) (beside : Beside place system later)
    (apart : ∀ there now, system.LeadsTo key there now → (pathOf place == pathOf there) = false)
    (text : String) :
    later.read key = .ok text ↔ system.read key = .ok text := by
  rw [read_iff, read_iff]
  constructor
  · rintro ⟨there, found, led, valid⟩
    obtain ⟨now, known⟩ := beside_led leads beside led
    have other := apart there now known
    exact ⟨there, found, ⟨known.steps, led.plain, (beside.files there found other).mpr led.found⟩,
      valid⟩
  · rintro ⟨there, found, led, valid⟩
    have steps := steps_stay (fun query => (beside.directories query).mp) [] there _ led.steps
    exact ⟨there, found, ⟨steps, led.plain, (beside.files there found (apart there found led)).mp
      led.found⟩, valid⟩

end Beside

theorem joined_plain (names : List String) (filled : names ≠ [])
    (proper : ∀ name ∈ names, IsName name) :
    endsInSlash ⟨"/".intercalate ("" :: names)⟩ = false := by
  obtain ⟨front, last, split⟩ := (List.eq_nil_or_concat names).resolve_left filled
  rw [List.concat_eq_append] at split
  have named : IsName last := proper last (by simp [split])
  obtain ⟨char, chars, listed, -⟩ := name_filled last named
  refine not_ends_in_slash _ ("/".intercalate ("" :: front) ++ "/").toList last.toList ?_
    (by simp [listed]) ?_ named.2
  · rw [split, ← List.cons_append, String.intercalate_append_of_ne_nil (by simp) (by simp),
      String.intercalate_singleton, String.toList_append]
  · intro dot
    rw [show last = "." from String.toList_inj.mp dot] at named
    exact absurd named.1 (by decide)

end FileSystem

namespace DiskStore

structure Distinct (disk : DiskStore) : Prop where
  plain : ∀ file ∈ disk.members.keys, FileSystem.endsInSlash file = false
  apart : ∀ file other place there bytes more, FileStore.contains disk file = true →
      FileStore.contains disk other = true →
    disk.system.LeadsTo file place bytes → disk.system.LeadsTo other there more →
    (FileSystem.pathOf place == FileSystem.pathOf there) = true → file.parts = other.parts

theorem start_distinct (system : FileSystem) (root : Path) (disk : DiskStore)
    (opened : start system root = .ok disk) :
    disk.Distinct := by
  obtain ⟨place, files, proper, found, rfl⟩ := start_rooted system root disk opened
  have direct (file : Path)
    (held : FileStore.contains (DiskStore.mk system (FileSystem.pathOf place)
      (.ofList (files.map fun file => (file, ()))) 0) file = true) :
      ∃ names : List String, (∀ name ∈ names, IsName name) ∧ file.parts = .root ::
      names.map .name := by
    obtain ⟨key, member, same⟩ := (LawfulStore.listed _ file).mp held
    obtain ⟨names, named, parts⟩ := FileSystem.sources_direct system place files proper found key
      (opened_keys files key member)
    exact ⟨place ++ names, named, same ▸ parts⟩
  refine ⟨fun file member => ?_, fun file other here there bytes more held holds leads others
    together => ?_⟩
  · obtain ⟨names, filled, named, rfl⟩ :=
      FileSystem.sources_spelled system place files proper found file
        (opened_keys files file member)
    exact FileSystem.joined_plain (place ++ names) (by simp [filled]) named
  · obtain ⟨names, named, parts⟩ := direct file held
    obtain ⟨more, known, spread⟩ := direct other holds
    obtain rfl := FileSystem.locate_names system file names here parts
      (FileSystem.leads_located _ _ _ _ leads)
    obtain rfl := FileSystem.locate_names system other more there spread
      (FileSystem.leads_located _ _ _ _ others)
    rw [Path.same_iff, FileSystem.path_of_parts _ named, FileSystem.path_of_parts _ known]
      at together
    rw [parts, spread, together]

section Touched

variable {disk later : DiskStore} {path : Path} {place : FileSystem.Place} {bytes : ByteArray}
    {text? : Option String}

theorem text_at_key (distinct : disk.Distinct) (key query : Path) (member : key ∈ disk.members.keys)
    (same : key.parts = query.parts) : textAt? disk query = some (disk.read key).toOption := by
  rw [textAt?]
  cases found : (FileStore.files disk).find? (· == query) with
  | none =>
      have other := List.find?_eq_none.mp found key member
      exact absurd ((Path.same_iff key query).mpr same) other
  | some first =>
      have listed : first ∈ disk.members.keys := List.mem_of_find?_eq_some found
      have alike : first.parts = key.parts :=
        ((Path.same_iff first query).mp (List.find?_some (p := (· == query)) found)).trans same.symm
      rw [Option.map_some]
      congr 1
      ext text
      have reads (a b : Path) (known : b ∈ disk.members.keys) (same : a.parts = b.parts)
          (done : (disk.read a).toOption = some text) : (disk.read b).toOption = some text := by
        rw [read_congr a b text (except_some done) same (distinct.plain b known)]
        rfl
      exact ⟨reads first key member alike, reads key first listed alike.symm⟩

structure EditedAt (disk later : DiskStore) (path : Path) (place : FileSystem.Place)
    (text? : Option String) : Prop where
  root : later.root = disk.root
  beside : FileSystem.Beside place disk.system later.system
  keys : ∀ key ∈ later.members.keys, key ∈ disk.members.keys ∨ key = path
  holds : ∀ query, FileStore.contains later query = if path == query then text?.isSome
      else FileStore.contains disk query
  here : ∀ text key, text? = some text → key.parts = path.parts →
      FileSystem.endsInSlash key = false →
    later.read key = .ok text

variable (distinct : disk.Distinct) (held : FileStore.contains disk path = true)
  (leads : disk.system.LeadsTo path place bytes) (edited : EditedAt disk later path place text?)

include distinct held leads edited

theorem edited_distinct : later.Distinct := by
  have kept (query : Path) (holding : FileStore.contains later query = true) :
      FileStore.contains disk query = true := by
    rw [edited.holds] at holding
    split at holding
    next same => exact (contains_congr disk path query ((Path.same_iff path query).mp same)) ▸ held
    next => exact holding
  refine ⟨fun key member => ?_, fun file other there elsewhere old more holding known led others
    together => ?_⟩
  · rcases edited.keys key member with listed | rfl
    · exact distinct.plain key listed
    · exact leads.plain
  · obtain ⟨now, leading⟩ := FileSystem.beside_led leads edited.beside led
    obtain ⟨nows, follows⟩ := FileSystem.beside_led leads edited.beside others
    exact distinct.apart file other there elsewhere now nows (kept file holding) (kept other known)
      leading follows together

theorem edited_elsewhere (key : Path) (listed : key ∈ disk.members.keys)
    (other : ¬ path.parts = key.parts) :
    (later.read key).toOption = (disk.read key).toOption := by
  have apart (there : FileSystem.Place) (now : ByteArray)
    (led : disk.system.LeadsTo key there now) :
      (FileSystem.pathOf place == FileSystem.pathOf there) = false := by
    rw [Bool.eq_false_iff]
    intro together
    have known : FileStore.contains disk key = true := (LawfulStore.listed disk key).mpr ⟨key,
      listed, rfl⟩
    exact other (distinct.apart path key place there bytes now held known leads led together)
  have reads (text : String) : later.read key = .ok text ↔ disk.read key = .ok text := by
    have inner := FileSystem.beside_reads leads edited.beside apart text
    rw [read_leads, read_leads, ← FileSystem.read_iff, ← FileSystem.read_iff, inner, edited.root]
  ext text
  constructor
  · intro done
    rw [(reads text).mp (except_some done)]
    rfl
  · intro done
    rw [(reads text).mpr (except_some done)]
    rfl

theorem edited_touched : Touched Distinct disk later path text? := by
  have sound := edited_distinct distinct held leads edited
  refine ⟨sound, fun query => ?_⟩
  cases holding : FileStore.contains later query with
  | false =>
      rw [text_at_absent later query holding]
      rw [edited.holds] at holding
      split at holding
      next same =>
          rw [Option.isSome_eq_false_iff, Option.isNone_iff_eq_none] at holding
          rw [if_pos same, holding, Option.map_none]
      next other => rw [if_neg other, text_at_absent disk query holding]
  | true =>
      obtain ⟨key, member, same⟩ := (LawfulStore.listed later query).mp holding
      rw [text_at_key sound key query member same]
      rw [edited.holds] at holding
      split at holding
      next equal =>
          obtain ⟨text, given⟩ := Option.isSome_iff_exists.mp holding
          have parts := same.trans ((Path.same_iff path query).mp equal).symm
          rw [if_pos equal, given, edited.here text key given parts (sound.plain key member)]
          rfl
      next other =>
          rw [Path.same_iff] at other
          have listed : key ∈ disk.members.keys :=
            (edited.keys key member).resolve_right fun equal => other (equal ▸ same)
          rw [edited_elsewhere distinct held leads edited key listed (same ▸ other),
            if_neg (by rwa [Path.same_iff]), text_at_key distinct key query listed same]

end Touched

instance localStore : LocalStore DiskStore where
  Sound := Distinct
  read disk path text distinct held done := by
    obtain ⟨key, member, same⟩ := (LawfulStore.listed disk path).mp held
    rw [text_at_key distinct key path member same,
      read_congr path key text done same.symm (distinct.plain key member)]
    rfl
  write disk later path old text distinct held reading done := by
    obtain ⟨inside, place, bytes, leads, -⟩ := (read_leads path old).mp reading
    have result : FileStore.write disk path text = (.ok (), disk.written path place text) := by
      change disk.settle (disk.write? path text) = _
      rw [write?, validate, inside, FileSystem.write_leads leads]
      rfl
    obtain rfl := (Prod.mk.inj (result.symm.trans done)).2
    refine edited_touched distinct held leads ⟨rfl, FileSystem.beside_put leads text.toUTF8,
      fun key => disk.members.insert_keys path key (), fun query => ?_,
      fun given key same parts plain => ?_⟩
    · rw [written_contains]
      cases path == query <;> rfl
    · obtain rfl := Option.some.inj same
      have now := FileSystem.leads_put leads leads text.toUTF8
      rw [if_pos BEq.rfl] at now
      refine (read_leads key text).mpr ⟨?_, place, _, FileSystem.leads_congr now parts.symm plain,
        dif_pos text.isValidUTF8⟩
      rw [Path.isWithin, parts]
      exact inside
  delete disk later path old distinct held reading done := by
    obtain ⟨inside, place, bytes, leads, -⟩ := (read_leads path old).mp reading
    have result : FileStore.delete disk path = (.ok (), disk.removed path place) := by
      change disk.settle (disk.delete? path) = _
      rw [delete?, validate, inside, FileSystem.remove_leads leads]
      rfl
    obtain rfl := (Prod.mk.inj (result.symm.trans done)).2
    refine edited_touched distinct held leads ⟨rfl, FileSystem.beside_erase leads,
      fun key member => .inl (disk.members.erase_keys path key member).1, fun query => ?_,
      fun _ _ none => nomatch none⟩
    rw [removed_contains]
    cases path == query <;> rfl

end DiskStore
end DeadExports
