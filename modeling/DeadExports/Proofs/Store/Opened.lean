import DeadExports.FileSystem.Basic
import DeadExports.Proofs.Path.Spelling
import DeadExports.Proofs.Store.Texts

set_option autoImplicit false

namespace DeadExports
namespace FileSystem

theorem path_of_spelling (place : Place) (filled : place ≠ []) :
    (pathOf place).spelling = "/".intercalate ("" :: place) := by
  obtain ⟨first, rest, rfl⟩ := List.exists_cons_of_ne_nil filled
  rw [pathOf, Path.ofParts, Path.spell]
  · simp [Part.spelling, Function.comp_def]
  · simp

theorem path_of_parts (place : Place) (proper : ∀ name ∈ place, IsName name) :
    (pathOf place).parts = .root :: place.map .name := by
  by_cases empty : place = []
  · rw [empty]
    decide
  · rw [show pathOf place = ⟨"/".intercalate ("" :: place)⟩ from congrArg Path.mk
      (path_of_spelling place empty),
      Path.joined_parts place empty proper]

theorem names_of_proper (path : Path) : ∀ name ∈ namesOf path, IsName name := by
  intro name member
  obtain ⟨part, listed, found⟩ := List.mem_filterMap.mp member
  cases part with
  | name text =>
      obtain rfl := Option.some.inj found
      exact path.name_of_parts text listed
  | root => cases found
  | here => cases found
  | up => cases found

theorem steps_names (system : FileSystem) (names : List String) (here last : Place)
    (taken : (names.map Part.name).foldlM system.step here = .ok last) : last = here ++ names := by
  induction names generalizing here with
  | nil => rw [List.append_nil, Except.ok.inj taken]
  | cons first rest ih =>
      rw [List.map_cons, List.foldlM_cons] at taken
      obtain ⟨middle, step, taken⟩ := except_bind_ok _ _ last taken
      obtain ⟨_, _, step⟩ := except_bind_ok _ _ middle step
      obtain rfl := Except.ok.inj step
      rw [ih _ taken, List.append_assoc, List.singleton_append]

theorem steps_proper (system : FileSystem) (parts : List Part) (here last : Place)
    (named : ∀ text, .name text ∈ parts → IsName text) (proper : ∀ name ∈ here, IsName name)
    (taken : parts.foldlM system.step here = .ok last) : ∀ name ∈ last, IsName name := by
  induction parts generalizing here with
  | nil =>
      obtain rfl := Except.ok.inj taken
      exact proper
  | cons first rest ih =>
      rw [List.foldlM_cons] at taken
      obtain ⟨middle, step, taken⟩ := except_bind_ok _ _ last taken
      refine ih middle (fun text member => named text (List.mem_cons_of_mem _ member)) ?_ taken
      cases first with
      | root =>
          obtain rfl := Except.ok.inj step
          exact fun _ member => by cases member
      | here =>
          obtain rfl := Except.ok.inj step
          exact proper
      | up =>
          obtain ⟨_, _, step⟩ := except_bind_ok _ _ middle step
          obtain rfl := Except.ok.inj step
          exact fun name member => proper name (List.dropLast_subset _ member)
      | name text =>
          obtain ⟨_, _, step⟩ := except_bind_ok _ _ middle step
          obtain rfl := Except.ok.inj step
          intro name member
          rcases List.mem_append.mp member with old | new
          · exact proper name old
          · rw [List.mem_singleton.mp new]
            exact named text List.mem_cons_self

theorem name_filled (text : String) (proper : IsName text) :
    ∃ first rest, text.toList = first :: rest ∧ first ≠ '/' := by
  obtain ⟨found, whole⟩ := proper
  cases chars : text.toList with
  | nil =>
      rw [show text = "" from String.toList_inj.mp chars] at found
      cases found
  | cons first rest =>
      rw [chars] at whole
      exact ⟨first, rest, rfl, fun same => whole (same ▸ List.mem_cons_self)⟩

theorem path_of_ends (place : Place) (filled : place ≠ []) (proper : ∀ name ∈ place, IsName name) :
    (pathOf place).spelling.isEmpty = false ∧ (pathOf place).spelling.endsWith '/' = false := by
  obtain ⟨front, last, split⟩ := (List.eq_nil_or_concat place).resolve_left filled
  rw [List.concat_eq_append] at split
  have named : IsName last := proper last (by simp [split])
  obtain ⟨char, chars, listed, -⟩ := name_filled last named
  have spelled : (pathOf place).spelling.toList = ("/".intercalate ("" :: front) ++ "/").toList ++
      char :: chars := by
    rw [path_of_spelling place filled, split, ← List.cons_append,
      String.intercalate_append_of_ne_nil (by simp) (by simp), String.intercalate_singleton,
      String.toList_append, listed]
  constructor
  · rw [String.isEmpty_eq_false_iff]
    intro none
    rw [none] at spelled
    simp at spelled
  · rw [String.endsWith_char_eq_getLast?, spelled, List.getLast?_append, Bool.eq_false_iff, ne_eq,
      beq_iff_eq]
    intro ends
    rcases Option.or_eq_some_iff.mp ends with here | ⟨none, -⟩
    · exact named.2 (listed ▸ List.mem_of_getLast? here)
    · simp at none

theorem names_relative (names : List String) (filled : names ≠ [])
    (proper : ∀ name ∈ names, IsName name) :
    ("/".intercalate names).startsWith '/' = false := by
  obtain ⟨first, rest, rfl⟩ := List.exists_cons_of_ne_nil filled
  obtain ⟨char, chars, spelled, other⟩ := name_filled first (proper first List.mem_cons_self)
  rw [String.startsWith_char_eq_head?, String.toList_intercalate, List.map_cons, spelled]
  cases rest with
  | nil => simpa [List.intercalate] using other
  | cons second more => simpa [List.intercalate_cons_cons] using other

theorem join_spelling (place : Place) (names : List String) (filled : names ≠ [])
    (rooted : ∀ name ∈ place, IsName name) (proper : ∀ name ∈ names, IsName name) :
    ((pathOf place).join ("/".intercalate names)).spelling = "/".intercalate
      ("" :: (place ++ names)) := by
  rw [Path.join, names_relative names filled proper]
  by_cases empty : place = []
  · subst empty
    obtain ⟨first, rest, rfl⟩ := List.exists_cons_of_ne_nil filled
    have root : pathOf [] = ⟨"/"⟩ := rfl
    have closed : "/".endsWith '/' = true := by rw [String.endsWith_char_eq_getLast?]; rfl
    rw [root, if_neg (by decide), if_pos closed, List.nil_append, String.intercalate_cons_cons,
      String.empty_append]
  · obtain ⟨some, plain⟩ := path_of_ends place empty rooted
    rw [some, if_neg (by decide), plain, if_neg (by decide), path_of_spelling place empty,
      ← List.cons_append, String.intercalate_append_of_ne_nil (by simp) filled]

theorem below_names (place : Place) (entry : Path × Node) (names : List String)
    (found : below? place entry = some names) :
    names ≠ [] ∧ ∀ name ∈ names, IsName name := by
  rw [below?] at found
  split at found
  next => cases found
  next =>
      dsimp only at found
      split at found
      next kept =>
          obtain rfl := Option.some.inj found
          rw [Bool.and_eq_true, Bool.and_eq_true] at kept
          refine ⟨fun none => ?_, fun name member => names_of_proper entry.1 name
            (List.mem_of_mem_drop member)⟩
          rw [none] at kept
          exact absurd kept.1.2 (by decide)
      next => cases found

theorem sources_spelled (system : FileSystem) (place : Place) (files : List Path)
    (proper : ∀ name ∈ place, IsName name) (found : system.sources (pathOf place) = .ok files) :
    ∀ file ∈ files, ∃ names, names ≠ [] ∧ (∀ name ∈ place ++ names, IsName name) ∧
      file = ⟨"/".intercalate ("" :: (place ++ names))⟩ := by
  rw [sources] at found
  split at found
  next reached located =>
      split at found
      next =>
          obtain rfl := Except.ok.inj found
          intro file member
          obtain ⟨member, -⟩ := List.mem_filter.mp (List.mem_mergeSort.mp member)
          obtain ⟨names, listed, rfl⟩ := List.mem_map.mp member
          obtain ⟨entry, -, below⟩ := List.mem_filterMap.mp listed
          obtain ⟨filled, named⟩ := below_names reached entry names below
          have every : ∀ name ∈ place ++ names, IsName name := by
            intro name member
            rcases List.mem_append.mp member with old | new
            · exact proper name old
            · exact named name new
          exact ⟨names, filled, every,
            congrArg Path.mk (join_spelling place names filled proper named)⟩
      next => cases found
  next => cases found

theorem sources_direct (system : FileSystem) (place : Place) (files : List Path)
    (proper : ∀ name ∈ place, IsName name) (found : system.sources (pathOf place) = .ok files) :
    ∀ file ∈ files, ∃ names, (∀ name ∈ place ++ names, IsName name) ∧ file.parts = .root ::
    (place ++ names).map .name := by
  intro file member
  obtain ⟨names, filled, every, rfl⟩ := sources_spelled system place files proper found file member
  exact ⟨names, every, Path.joined_parts (place ++ names) (by simp [filled]) every⟩

end FileSystem

theorem MemoryStore.of_list_texts (files : List (Path × String)) :
    (MemoryStore.ofList files).texts = .ofList files := by
  have folded : ∀ (files : List (Path × String)) (store : MemoryStore),
      (files.foldl (fun store file => store.insert file.1 file.2) store).texts =
        files.foldl (fun map entry => map.insert entry.1 entry.2) store.texts := by
    intro files
    induction files with
    | nil => exact fun _ => rfl
    | cons first rest ih => exact fun store => ih _
  exact folded files .empty

namespace FileSystem

theorem locate_names (system : FileSystem) (path : Path) (names : List String) (place : Place)
    (direct : path.parts = .root :: names.map .name) (located : system.locate path = .ok place) :
    place = names := by
  have steps := (locate_cases system path place located).1
  rw [direct, List.foldlM_cons] at steps
  obtain ⟨start, first, steps⟩ := except_bind_ok _ _ place steps
  obtain rfl := Except.ok.inj first
  rw [steps_names system names [] place steps, List.nil_append]

end FileSystem

namespace DiskStore

theorem start_rooted (system : FileSystem) (root : Path) (disk : DiskStore)
    (opened : start system root = .ok disk) :
    ∃ place files, (∀ name ∈ place, IsName name) ∧ system.sources (FileSystem.pathOf place) =
      .ok files ∧
      disk =
        { system
          root := FileSystem.pathOf place
          members := .ofList (files.map fun file => (file, ())) } := by
  obtain ⟨base, canonical, opened⟩ := except_bind_ok _ _ disk opened
  obtain ⟨files, found, opened⟩ := except_bind_ok _ _ disk opened
  obtain rfl := Except.ok.inj opened
  obtain ⟨place, located, canonical⟩ := except_bind_ok _ _ base canonical
  have proper : ∀ name ∈ place, IsName name :=
    FileSystem.steps_proper system root.parts [] place root.name_of_parts
      (fun _ member => by cases member)
      (FileSystem.locate_cases system root place located).1
  split at canonical
  next =>
      obtain rfl := Except.ok.inj canonical
      exact ⟨place, files, proper, found, rfl⟩
  next => cases canonical

theorem opened_keys (files : List Path) (file : Path)
    (member : file ∈ (PathMap.ofList (files.map fun file => (file, ()))).keys) : file ∈ files := by
  simpa using PathMap.of_list_keys _ file member

theorem start_direct (system : FileSystem) (root : Path) (disk : DiskStore)
    (opened : start system root = .ok disk) :
    disk.system = system ∧ ∃ files, system.sources disk.root = .ok files ∧
      (∀ file ∈ disk.members.keys, file ∈ files) ∧
      ∀ file ∈ files, FileStore.contains disk file = true ∧ file.isWithin disk.root = true ∧
        ∃ names : List String, (∀ name ∈ names, IsName name) ∧ file.parts = .root ::
        names.map .name := by
  obtain ⟨place, files, proper, found, rfl⟩ := start_rooted system root disk opened
  refine ⟨rfl, files, found, opened_keys files, fun file member => ?_⟩
  obtain ⟨names, named, parts⟩ := FileSystem.sources_direct system place files proper found
    file member
  refine ⟨PathMap.of_list_contains _ (file, ()) (List.mem_map_of_mem member), ?_, place ++ names,
    named, parts⟩
  rw [Path.isWithin, FileSystem.path_of_parts place proper, parts, List.map_append,
    List.isPrefixOf_iff_prefix]
  exact List.prefix_append _ _

theorem start_sound (system : FileSystem) (root : Path) (disk : DiskStore)
    (opened : start system root = .ok disk)
    (readable : ∀ files, system.sources disk.root = .ok files → ∀ file ∈ files, ∃ text,
      system.read file = .ok text) :
    disk.Sound := by
  obtain ⟨rfl, files, found, listed, direct⟩ := start_direct system root disk opened
  refine ⟨fun file member => ?_, fun file member other known together => ?_⟩
  · obtain ⟨text, reading⟩ := readable files found file (listed file member)
    refine ⟨text, ?_⟩
    rw [read, validate, (direct file (listed file member)).2.1]
    exact reading
  · obtain ⟨-, -, names, proper, parts⟩ := direct file (listed file member)
    obtain ⟨-, -, others, named, spread⟩ := direct other (listed other known)
    rw [FileSystem.leadTogether] at together
    split at together
    next left right first second =>
        obtain rfl := FileSystem.locate_names disk.system file names left parts first
        obtain rfl := FileSystem.locate_names disk.system other others right spread second
        rw [Path.same_iff, FileSystem.path_of_parts _ proper, FileSystem.path_of_parts _ named]
          at together
        rw [parts, spread, together]
    next => cases together

end DiskStore

theorem FileSystem.read_all (system : FileSystem) (files : List Path) (texts : List (Path × String))
    (taken : (files.mapM fun file => do return (file, ← system.read file)) = .ok texts) :
    texts.map Prod.fst = files ∧ ∀ entry ∈ texts, system.read entry.1 = .ok entry.2 := by
  induction files generalizing texts with
  | nil =>
      obtain rfl := Except.ok.inj taken
      exact ⟨rfl, fun _ member => absurd member List.not_mem_nil⟩
  | cons file rest ih =>
      rw [List.mapM_cons] at taken
      obtain ⟨first, taking, taken⟩ := except_bind_ok _ _ texts taken
      obtain ⟨others, remaining, taken⟩ := except_bind_ok _ _ texts taken
      obtain rfl := Except.ok.inj taken
      obtain ⟨text, reading, taking⟩ := except_bind_ok _ _ first taking
      obtain rfl := Except.ok.inj taking
      obtain ⟨names, reads⟩ := ih others remaining
      refine ⟨congrArg (file :: ·) names, fun entry member => ?_⟩
      rcases List.mem_cons.mp member with rfl | later
      · exact reading
      · exact reads entry later

theorem DiskStore.opened_as_snapshot (system : FileSystem) (root : Path) (disk : DiskStore)
    (memory : MemoryStore) (opened : start system root = .ok disk)
    (taken : MemoryStore.snapshot system disk.root = .ok memory) :
    disk.Sound ∧ ∀ path, disk.image.texts.get? path = memory.texts.get? path := by
  obtain ⟨same, files, found, listed, direct⟩ := start_direct system root disk opened
  obtain ⟨copied, again, taken⟩ := except_bind_ok _ _ memory taken
  obtain rfl : files = copied := Except.ok.inj (found.symm.trans again)
  obtain ⟨texts, reading, taken⟩ := except_bind_ok _ _ memory taken
  obtain rfl := Except.ok.inj taken
  obtain ⟨names, reads⟩ := system.read_all files texts reading
  have sound : disk.Sound := by
    refine start_sound system root disk opened fun others searched file member => ?_
    obtain rfl : files = others := Except.ok.inj (found.symm.trans searched)
    rw [← names] at member
    obtain ⟨entry, listed, rfl⟩ := List.mem_map.mp member
    exact ⟨entry.2, reads entry listed⟩
  refine ⟨sound, fun path => ?_⟩
  rw [MemoryStore.of_list_texts]
  rcases PathMap.of_list_get texts path with ⟨entry, member, alike, present⟩ | ⟨others, absent⟩
  · obtain ⟨held, inside, -⟩ := direct entry.1 (names ▸ List.mem_map_of_mem member)
    have reading : disk.read entry.1 = .ok entry.2 := by
      rw [read, validate, inside, same]
      exact reads entry member
    rw [present]
    exact image_of_read sound entry.1 path entry.2 held reading alike
  · rw [absent]
    refine image_none path ?_
    rw [Bool.eq_false_iff]
    intro held
    obtain ⟨key, member, alike⟩ := (LawfulStore.listed disk path).mp held
    have file := listed key member
    rw [← names] at file
    obtain ⟨entry, copied, rfl⟩ := List.mem_map.mp file
    exact others entry copied alike

end DeadExports
