import DeadExports.Proofs.Store.Written

set_option autoImplicit false

namespace DeadExports

def imageOf {σ : Type} [FileStore σ] (store : σ) : MemoryStore where
  texts := ⟨(FileStore.files store).map fun file =>
    (file, (FileStore.read store file).toOption.getD "")⟩
  revision := FileStore.revision store

theorem image_of_files {σ : Type} [FileStore σ] (store : σ) :
    FileStore.files (imageOf store) = FileStore.files store := by
  change ((FileStore.files store).map _).map Prod.fst = FileStore.files store
  rw [List.map_map]
  exact List.map_id _

theorem image_of_contains {σ : Type} [FileStore σ] [LawfulStore σ] (store : σ) (path : Path) :
    FileStore.contains (imageOf store) path = FileStore.contains store path := by
  rw [Bool.eq_iff_iff, LawfulStore.listed, LawfulStore.listed, image_of_files]

theorem image_of_get_iff {σ : Type} [FileStore σ] [LawfulStore σ] (store : σ)
    (readable : ∀ file ∈ FileStore.files store, ∃ text, FileStore.read store file = .ok text)
    (alike : ∀ file ∈ FileStore.files store, ∀ other ∈ FileStore.files store, file.parts =
      other.parts → FileStore.read store file = FileStore.read store other)
    (path : Path) (text : String) :
    (imageOf store).texts.get? path = some text ↔
      ∃ file ∈ FileStore.files store, file.parts = path.parts ∧ FileStore.read store file =
        .ok text := by
  have entered (text : String) (found : (imageOf store).texts.get? path = some text) :
      ∃ file ∈ FileStore.files store, file.parts = path.parts ∧ FileStore.read store file =
      .ok text := by
    obtain ⟨key, member, same⟩ := (imageOf store).texts.mem_of_get path text found
    obtain ⟨file, listed, entry⟩ := List.mem_map.mp member
    obtain ⟨rfl, rfl⟩ := Prod.mk.inj entry
    obtain ⟨before, reading⟩ := readable file listed
    exact ⟨file, listed, same, by rw [reading]; rfl⟩
  refine ⟨entered text, ?_⟩
  rintro ⟨file, listed, same, done⟩
  have held : FileStore.contains (imageOf store) path = true := by
    rw [image_of_contains]
    exact (LawfulStore.listed store path).mpr ⟨file, listed, same⟩
  obtain ⟨found, present⟩ := Option.isSome_iff_exists.mp
    (((imageOf store).contains_eq path).symm.trans held)
  obtain ⟨other, holds, first, reading⟩ := entered found present
  rw [alike other holds file listed (first.trans same.symm), done] at reading
  rw [present, Except.ok.inj reading]

structure Edited {σ : Type} [FileStore σ] (image : σ → MemoryStore) (Sound : σ → Prop)
    (store later : σ) (path : Path) (text? : Option String) : Prop where
  sound : Sound later
  revision : FileStore.revision later = FileStore.revision store + 1
  texts : ∀ query, (image later).texts.get? query = if path == query then text?
      else (image store).texts.get? query

namespace FileSystem

section Leads

variable {system : FileSystem} {path other : Path} {place there : Place} {bytes old : ByteArray}

theorem leads_congr (leads : system.LeadsTo path place bytes) (same : path.parts = other.parts)
    (plain : endsInSlash other = false) : system.LeadsTo other place bytes :=
  ⟨same ▸ leads.steps, plain, leads.found⟩

theorem leads_same (leads : system.LeadsTo path place bytes)
    (others : system.LeadsTo other there old) (same : path.parts = other.parts) :
    place = there ∧ bytes = old := by
  obtain rfl : place = there := Except.ok.inj (leads.steps.symm.trans (same ▸ others.steps))
  have found := leads.found.symm.trans others.found
  cases found
  exact ⟨rfl, rfl⟩

theorem leads_below (leads : system.LeadsTo path place bytes) : place ≠ [] := by
  rintro rfl
  cases leads.found

theorem leads_not_directory (leads : system.LeadsTo path place bytes) :
    system.node? place ≠ some .directory := by
  simp [leads.found]

theorem leads_put (leads : system.LeadsTo path place bytes)
    (others : system.LeadsTo other there old) (new : ByteArray) :
    (system.put place (.file new)).LeadsTo other there
      (if pathOf place == pathOf there then new else old) where
  steps := steps_stay (directory_stays system place · new (leads_not_directory leads))
    [] there _ others.steps
  plain := others.plain
  found := by
    have found := others.found
    rw [node?, if_neg (by simpa using leads_below others)] at found ⊢
    rw [put, PathMap.get_insert, found]
    split <;> rfl

theorem directory_left (leads : system.LeadsTo path place bytes) (query : Place)
    (directory : system.node? query = some .directory) :
    node? { system with nodes := system.nodes.erase (pathOf place) } query = some .directory := by
  have found := leads.found
  rw [node?] at directory found ⊢
  rw [if_neg (by simpa using leads_below leads)] at found
  split at directory
  next empty => rw [if_pos empty]
  next filled =>
      rw [if_neg filled, PathMap.get_erase]
      split
      next same =>
          rw [PathMap.get_congr _ _ _ ((Path.same_iff _ _).mp same), directory] at found
          cases found
      next => exact directory

theorem leads_erase (leads : system.LeadsTo path place bytes)
    (others : system.LeadsTo other there old) (apart : (pathOf place == pathOf there) = false) :
    LeadsTo { system with nodes := system.nodes.erase (pathOf place) } other there old where
  steps := steps_stay (directory_left leads) [] there _ others.steps
  plain := others.plain
  found := by
    have found := others.found
    rw [node?, if_neg (by simpa using leads_below others)] at found ⊢
    rw [PathMap.get_erase, apart, if_neg Bool.false_ne_true, found]

theorem write_leads (leads : system.LeadsTo path place bytes) (text : String) :
    system.write path text = .ok (system.put place (.file text.toUTF8)) := by
  simp only [write, leads_located system path place bytes leads, bind, Except.bind, leads.found]
  rfl

theorem remove_leads (leads : system.LeadsTo path place bytes) :
    system.remove path = .ok { system with nodes := system.nodes.erase (pathOf place) } := by
  simp only [remove, leads_located system path place bytes leads, bind, Except.bind, leads.found]
  rfl

end Leads

def leadTogether (system : FileSystem) (a b : Path) : Bool :=
  match system.locate a, system.locate b with
  | .ok left, .ok right => pathOf left == pathOf right
  | _, _ => false

theorem lead_together_places {system : FileSystem} {a b : Path} {left right : Place}
    {one other : ByteArray} (first : system.LeadsTo a left one)
    (second : system.LeadsTo b right other) :
    system.leadTogether a b = (pathOf left == pathOf right) := by
  rw [leadTogether, leads_located system a left one first,
    leads_located system b right other second]

end FileSystem

namespace DiskStore

def image (disk : DiskStore) : MemoryStore := imageOf disk

structure Sound (disk : DiskStore) : Prop where
  readable : ∀ file ∈ disk.members.keys, ∃ text, disk.read file = .ok text
  apart : ∀ file ∈ disk.members.keys, ∀ other ∈ disk.members.keys,
    disk.system.leadTogether file other = true → file.parts = other.parts

section Image

variable {disk : DiskStore}

theorem read_leads (path : Path) (text : String) :
    disk.read path = .ok text ↔ path.isWithin disk.root = true ∧
      ∃ place bytes, disk.system.LeadsTo path place bytes ∧ String.fromUTF8? bytes = some text := by
  rw [← FileSystem.read_iff, read, validate]
  cases path.isWithin disk.root with
  | true => exact ⟨fun done => ⟨rfl, done⟩, fun done => done.2⟩
  | false => exact ⟨fun done => (by cases done), fun done => absurd done.1 Bool.false_ne_true⟩

theorem read_plain (path : Path) (text : String) (done : disk.read path = .ok text) :
    FileSystem.endsInSlash path = false := by
  obtain ⟨-, place, bytes, leads, -⟩ := (read_leads path text).mp done
  exact leads.plain

theorem read_congr (path other : Path) (text : String) (done : disk.read path = .ok text)
    (same : path.parts = other.parts) (plain : FileSystem.endsInSlash other = false) :
    disk.read other = .ok text := by
  obtain ⟨inside, place, bytes, leads, valid⟩ := (read_leads path text).mp done
  refine (read_leads other text).mpr
    ⟨?_, place, bytes, FileSystem.leads_congr leads same plain, valid⟩
  rw [Path.isWithin, ← same]
  exact inside

theorem image_contains (path : Path) :
    FileStore.contains disk.image path = FileStore.contains disk path :=
  image_of_contains disk path

theorem image_get_iff (sound : disk.Sound) (path : Path) (text : String) :
    disk.image.texts.get? path = some text ↔
      ∃ file ∈ disk.members.keys, file.parts = path.parts ∧ disk.read file = .ok text := by
  refine image_of_get_iff disk sound.readable (fun file listed other known same => ?_) path text
  obtain ⟨before, reading⟩ := sound.readable file listed
  obtain ⟨after, rereading⟩ := sound.readable other known
  exact reading.trans (read_congr file other before reading same
    (read_plain other after rereading)).symm

theorem read_held (sound : disk.Sound) (path : Path) (held : FileStore.contains disk path = true)
    (plain : FileSystem.endsInSlash path = false) :
    ∃ text, disk.read path = .ok text ∧ disk.image.texts.get? path = some text := by
  obtain ⟨file, listed, same⟩ := (LawfulStore.listed disk path).mp held
  obtain ⟨text, done⟩ := sound.readable file listed
  exact ⟨text, read_congr file path text done same plain, (image_get_iff sound path text).mpr
    ⟨file, listed, same, done⟩⟩

theorem image_of_read (sound : disk.Sound) (file query : Path) (text : String)
    (held : FileStore.contains disk file = true) (done : disk.read file = .ok text)
    (same : file.parts = query.parts) : disk.image.texts.get? query = some text := by
  obtain ⟨found, reread, present⟩ := read_held sound file held (read_plain file text done)
  rw [← PathMap.get_congr _ file query same, present, Except.ok.inj (reread.symm.trans done)]

theorem image_none (query : Path) (absent : FileStore.contains disk query = false) :
    disk.image.texts.get? query = none := by
  rwa [← image_contains, MemoryStore.contains_eq, Option.isSome_eq_false_iff,
    Option.isNone_iff_eq_none] at absent

theorem lead_apart (sound : disk.Sound) (path other : Path) (place there : FileSystem.Place)
    (bytes more : ByteArray) (held : FileStore.contains disk path = true)
    (holds : FileStore.contains disk other = true) (leads : disk.system.LeadsTo path place bytes)
    (others : disk.system.LeadsTo other there more) :
    (FileSystem.pathOf place == FileSystem.pathOf there) = (path == other) := by
  rw [Bool.eq_iff_iff, Path.same_iff path other]
  constructor
  · intro together
    obtain ⟨file, listed, same⟩ := (LawfulStore.listed disk path).mp held
    obtain ⟨second, known, alike⟩ := (LawfulStore.listed disk other).mp holds
    obtain ⟨text, done⟩ := sound.readable file listed
    obtain ⟨before, reading⟩ := sound.readable second known
    have first := FileSystem.leads_congr leads same.symm (read_plain file text done)
    have next := FileSystem.leads_congr others alike.symm (read_plain second before reading)
    have apart := sound.apart file listed second known
      ((FileSystem.lead_together_places first next).trans together)
    exact same.symm.trans (apart.trans alike)
  · intro same
    obtain ⟨rfl, -⟩ := FileSystem.leads_same leads others same
    exact BEq.rfl

theorem sound_later {later : DiskStore} (sound : disk.Sound)
    (readable : ∀ file ∈ later.members.keys, ∃ text, later.read file = .ok text)
    (kept : ∀ file ∈ later.members.keys, FileStore.contains disk file = true ∧ ∃ place bytes new,
      disk.system.LeadsTo file place bytes ∧ later.system.LeadsTo file place new) :
    later.Sound where
  readable := readable
  apart file listed other known together := by
    obtain ⟨held, place, bytes, new, leads, now⟩ := kept file listed
    obtain ⟨holds, there, more, newer, others, next⟩ := kept other known
    rw [FileSystem.lead_together_places now next, lead_apart sound file other place there bytes more
      held holds leads others]
      at together
    exact (Path.same_iff file other).mp together

theorem image_stays {later : DiskStore} (sound : disk.Sound) (soundLater : later.Sound)
    (query : Path) (holds : FileStore.contains disk query = true)
    (stays : FileStore.contains later query = true) (edit : String → String)
    (reads : ∀ file before, file.parts = query.parts → disk.read file = .ok before →
      later.read file = .ok (edit before)) :
    later.image.texts.get? query = (disk.image.texts.get? query).map edit := by
  obtain ⟨file, listed, same⟩ := (LawfulStore.listed disk query).mp holds
  obtain ⟨before, reading⟩ := sound.readable file listed
  have held := (contains_congr disk file query same).trans holds
  have kept := (contains_congr later file query same).trans stays
  rw [image_of_read soundLater file query _ kept (reads file before same reading) same,
    image_of_read sound file query before held reading same, Option.map_some]

theorem read_member (sound : disk.Sound) (file : Path) (member : file ∈ disk.members.keys) :
    FileStore.contains disk file = true ∧ ∃ text, disk.read file = .ok text :=
  ⟨(LawfulStore.listed disk file).mpr ⟨file, member, rfl⟩, sound.readable file member⟩

def written (disk : DiskStore) (path : Path) (place : FileSystem.Place) (text : String) :
    DiskStore :=
  { disk with
    system := disk.system.put place (.file text.toUTF8), members := disk.members.insert path (),
      revision := disk.revision + 1 }

def removed (disk : DiskStore) (path : Path) (place : FileSystem.Place) : DiskStore :=
  { disk with
    system := { disk.system with nodes := disk.system.nodes.erase (FileSystem.pathOf place) }
    members := disk.members.erase path, revision := disk.revision + 1 }

theorem written_contains (path query : Path) (place : FileSystem.Place) (text : String) :
    FileStore.contains (disk.written path place text) query =
      (path == query || FileStore.contains disk query) := by
  change (disk.members.insert path ()).contains query =
    (path == query || disk.members.contains query)
  rw [PathMap.contains_eq, PathMap.contains_eq, PathMap.get_insert]
  cases path == query <;> rfl

theorem removed_contains (path query : Path) (place : FileSystem.Place) :
    FileStore.contains (disk.removed path place) query =
      (!(path == query) && FileStore.contains disk query) := by
  change (disk.members.erase path).contains query =
    (!(path == query) && disk.members.contains query)
  rw [PathMap.contains_eq, PathMap.contains_eq, PathMap.get_erase]
  cases path == query <;> rfl

section Edit

variable {path : Path} {place : FileSystem.Place} {bytes : ByteArray} (sound : disk.Sound)
  (held : FileStore.contains disk path = true) (leads : disk.system.LeadsTo path place bytes)

include sound held leads

theorem written_reads (text : String) (file : Path) (before : String)
    (holds : FileStore.contains disk file = true) (reading : disk.read file = .ok before) :
    (disk.written path place text).read file = .ok (if path == file then text else before) := by
  obtain ⟨inside, there, more, others, valid⟩ := (read_leads file before).mp reading
  refine (read_leads file _).mpr
    ⟨inside, there, _, FileSystem.leads_put leads others text.toUTF8, ?_⟩
  rw [lead_apart sound path file place there bytes more held holds leads others]
  split
  next => exact dif_pos text.isValidUTF8
  next => exact valid

theorem written_sound (text : String) : (disk.written path place text).Sound := by
  have within (file : Path) (member : file ∈ (disk.written path place text).members.keys) :
      FileStore.contains disk file = true ∧ ∃ before, disk.read file = .ok before := by
    rcases disk.members.insert_keys path file () member with listed | rfl
    · exact read_member sound file listed
    · obtain ⟨before, reading, -⟩ := read_held sound file held leads.plain
      exact ⟨held, before, reading⟩
  refine sound_later sound (fun file member => ?_) fun file member => ?_
  · obtain ⟨holds, before, reading⟩ := within file member
    exact ⟨_, written_reads sound held leads text file before holds reading⟩
  · obtain ⟨holds, before, reading⟩ := within file member
    obtain ⟨-, there, more, others, -⟩ := (read_leads file before).mp reading
    exact ⟨holds, there, more, _, others, FileSystem.leads_put leads others text.toUTF8⟩

theorem removed_leads (file : Path) (before : String) (holds : FileStore.contains disk file = true)
    (other : (path == file) = false) (reading : disk.read file = .ok before) :
    (disk.removed path place).read file = .ok before ∧
      ∃ there more, disk.system.LeadsTo file there more ∧ (disk.removed path place).system.LeadsTo
        file there more := by
  obtain ⟨inside, there, more, others, valid⟩ := (read_leads file before).mp reading
  have apart := (lead_apart sound path file place there bytes more held holds leads others).trans
    other
  have now := FileSystem.leads_erase leads others apart
  exact ⟨(read_leads file before).mpr ⟨inside, there, more, now, valid⟩, there, more, others, now⟩

theorem removed_sound : (disk.removed path place).Sound := by
  have within (file : Path) (member : file ∈ (disk.removed path place).members.keys) :
      (path == file) = false ∧ FileStore.contains disk file = true ∧ ∃ before, disk.read file =
      .ok before := by
    obtain ⟨listed, other⟩ := disk.members.erase_keys path file member
    refine ⟨?_, read_member sound file listed⟩
    rw [Path.same_eq_decide, decide_eq_false_iff_not]
    exact fun same => other same.symm
  refine sound_later sound (fun file member => ?_) fun file member => ?_
  · obtain ⟨other, holds, before, reading⟩ := within file member
    exact ⟨before, (removed_leads sound held leads file before holds other reading).1⟩
  · obtain ⟨other, holds, before, reading⟩ := within file member
    obtain ⟨-, there, more, others, now⟩ := removed_leads sound held leads file before holds
      other reading
    exact ⟨holds, there, more, more, others, now⟩

end Edit

theorem write_held (sound : disk.Sound) (path : Path) (text : String)
    (held : FileStore.contains disk path = true) (plain : FileSystem.endsInSlash path = false) :
    ∃ later, FileStore.write disk path text = (.ok (), later) ∧ Edited image Sound disk later path
      (some text) := by
  obtain ⟨old, done, -⟩ := read_held sound path held plain
  obtain ⟨inside, place, bytes, leads, -⟩ := (read_leads path old).mp done
  have result : FileStore.write disk path text = (.ok (), disk.written path place text) := by
    change disk.settle (disk.write? path text) = _
    rw [write?, validate, inside, FileSystem.write_leads leads]
    rfl
  have soundLater := written_sound sound held leads text
  refine ⟨_, result, soundLater, rfl, fun query => ?_⟩
  cases holds : FileStore.contains disk query with
  | false =>
      have other : (path == query) = false := by
        rw [Bool.eq_false_iff]
        intro same
        rw [← contains_congr disk path query ((Path.same_iff path query).mp same), held] at holds
        cases holds
      rw [image_none query (by rw [written_contains, other, holds]; rfl),
        image_none query holds, other]
      rfl
  | true =>
      have edited := image_stays sound soundLater query holds
        (by rw [written_contains, holds, Bool.or_true])
        (fun before => if path == query then text else before) fun file before same reading => by
          have holdsFile := (contains_congr disk file query same).trans holds
          rw [written_reads sound held leads text file before holdsFile reading]
          simp only [Path.same_eq_decide, same]
      obtain ⟨before, present⟩ := Option.isSome_iff_exists.mp
        ((disk.image.contains_eq query).symm.trans ((image_contains query).trans holds))
      rw [edited, present, Option.map_some]
      split <;> rfl

theorem delete_held (sound : disk.Sound) (path : Path) (held : FileStore.contains disk path = true)
    (plain : FileSystem.endsInSlash path = false) :
    ∃ later, FileStore.delete disk path = (.ok (), later) ∧
      Edited image Sound disk later path none := by
  obtain ⟨old, done, -⟩ := read_held sound path held plain
  obtain ⟨inside, place, bytes, leads, -⟩ := (read_leads path old).mp done
  have result : FileStore.delete disk path = (.ok (), disk.removed path place) := by
    change disk.settle (disk.delete? path) = _
    rw [delete?, validate, inside, FileSystem.remove_leads leads]
    rfl
  have soundLater := removed_sound sound held leads
  refine ⟨_, result, soundLater, rfl, fun query => ?_⟩
  cases gone : path == query with
  | true => exact image_none query (by rw [removed_contains, gone]; rfl)
  | false =>
      rw [if_neg Bool.false_ne_true]
      cases holds : FileStore.contains disk query with
      | false =>
          rw [image_none query (by rw [removed_contains, holds, Bool.and_false]),
            image_none query holds]
      | true =>
          have kept := image_stays sound soundLater query holds
            (by rw [removed_contains, gone, holds]; rfl) id
            fun file before same reading => by
              have other : (path == file) = false := by
                simpa only [Path.same_eq_decide, same] using gone
              have holdsFile := (contains_congr disk file query same).trans holds
              exact (removed_leads sound held leads file before holdsFile other reading).1
          rw [kept, Option.map_id]
          rfl

end Image
end DiskStore

class TextStore (σ : Type) [FileStore σ] where
  image : σ → MemoryStore
  Sound : σ → Prop
  files : ∀ store, FileStore.files (image store) = FileStore.files store
  revision : ∀ store, (image store).revision = FileStore.revision store
  contains : ∀ store path, FileStore.contains (image store) path = FileStore.contains store path
  listed : ∀ store, Sound store → ∀ file ∈ FileStore.files store,
    FileStore.read store file = FileStore.read (image store) file
  read : ∀ store path, Sound store → FileStore.contains store path = true →
      FileSystem.endsInSlash path = false →
    FileStore.read store path = FileStore.read (image store) path
  write : ∀ store path text, Sound store → FileStore.contains store path = true →
      FileSystem.endsInSlash path = false →
    ∃ later, FileStore.write store path text = (.ok (), later) ∧ Edited image Sound store later path
    (some text)
  delete : ∀ store path, Sound store → FileStore.contains store path = true →
      FileSystem.endsInSlash path = false →
    ∃ later, FileStore.delete store path = (.ok (), later) ∧
    Edited image Sound store later path none

theorem TextStore.contains_congr {σ : Type} [FileStore σ] [TextStore σ] (store : σ) (a b : Path)
    (same : a.parts = b.parts) :
    FileStore.contains store a = FileStore.contains store b := by
  rw [← TextStore.contains store, ← TextStore.contains store, DeadExports.contains_congr _ a b same]

instance memory_store_texts : TextStore MemoryStore where
  image := id
  Sound _ := True
  files _ := rfl
  revision _ := rfl
  contains _ _ := rfl
  listed _ _ _ _ := rfl
  read _ _ _ _ _ := rfl
  write store path text _ _ _ :=
    ⟨store.insert path text, rfl, trivial, rfl, fun query => store.insert_get path query text⟩
  delete store path _ held _ := by
    rcases store.delete_cases path with ⟨-, result⟩ | ⟨absent, -⟩
    · exact ⟨_, result, trivial, rfl, fun query => store.texts.get_erase path query⟩
    · exact absurd (held.symm.trans absent) (by decide)

instance disk_store_texts : TextStore DiskStore where
  image := DiskStore.image
  Sound := DiskStore.Sound
  files := image_of_files
  revision _ := rfl
  contains := image_of_contains
  listed disk sound file member := by
    obtain ⟨text, done⟩ := sound.readable file member
    have held : FileStore.contains disk file = true := (LawfulStore.listed disk file).mpr ⟨file,
      member, rfl⟩
    rw [MemoryStore.read_of_get _ file text
      (DiskStore.image_of_read sound file file text held done rfl)]
    exact done
  read disk path sound held plain := by
    obtain ⟨text, done, present⟩ := DiskStore.read_held sound path held plain
    rw [MemoryStore.read_of_get _ path text present]
    exact done
  write disk path text sound := DiskStore.write_held sound path text
  delete disk path sound := DiskStore.delete_held sound path

end DeadExports
