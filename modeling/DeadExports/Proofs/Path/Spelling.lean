import DeadExports.FileSystem.Basic
import DeadExports.Resolve

set_option autoImplicit false

namespace DeadExports

theorem ends_with_iff (text ending : String) :
    text.endsWith ending = true ↔ ending.toList <:+ text.toList := by
  rw [← String.endsWith_toSlice, String.Slice.endsWith_string_iff, String.copy_toSlice]

def Part.IsPlain (part : Part) : Prop :=
  part.spelling.toList ≠ [] ∧ part.spelling.toList ≠ ['.'] ∧ '/' ∉ part.spelling.toList

def IsName (text : String) : Prop := Part.ofPiece? text = some (.name text) ∧ '/' ∉ text.toList

namespace FileSystem

theorem not_ends_in_slash (path : Path) (start piece : List Char)
    (spelled : path.spelling.toList = start ++ piece) (filled : piece ≠ []) (proper : piece ≠ ['.'])
    (whole : '/' ∉ piece) : endsInSlash path = false := by
  obtain ⟨front, last, rfl⟩ := (List.eq_nil_or_concat piece).resolve_left filled
  rw [List.concat_eq_append] at spelled proper whole
  rw [endsInSlash, Bool.or_eq_false_iff, Bool.eq_false_iff, Bool.eq_false_iff, ne_eq, ne_eq,
    ends_with_iff, ends_with_iff, spelled, ← List.append_assoc]
  constructor
  · intro slash
    obtain ⟨_, same⟩ := slash
    obtain rfl : '/' = last := by simpa using List.append_inj_right' same rfl
    simp at whole
  · intro dotted
    obtain ⟨before, same⟩ := dotted
    have split : before ++ ['/'] ++ ['.'] = start ++ front ++ [last] := by simpa using same
    obtain ⟨reached, single⟩ := List.append_inj' split rfl
    obtain rfl : '.' = last := by simpa using single
    -- The dot has a character before it, which can only be a slash.
    rcases List.eq_nil_or_concat front with rfl | ⟨init, char, rfl⟩
    · exact proper rfl
    · rw [List.concat_eq_append, ← List.append_assoc] at reached
      obtain rfl : '/' = char := by simpa using List.append_inj_right' reached rfl
      simp at whole

end FileSystem

namespace Path

theorem pieces_whole (chars piece : List Char) (member : piece ∈ piecesOf chars) : '/' ∉ piece := by
  induction chars generalizing piece with
  | nil =>
      rw [piecesOf, List.mem_singleton] at member
      rw [member]
      exact List.not_mem_nil
  | cons char rest ih =>
      rw [piecesOf] at member
      split at member
      next =>
          rcases List.mem_cons.mp member with rfl | later
          · exact List.not_mem_nil
          · exact ih piece later
      next other =>
          have apart : '/' ≠ char := fun same => other (beq_iff_eq.mpr same.symm)
          split at member
          next =>
              rw [List.mem_singleton.mp member]
              simpa using apart
          next first others split =>
              rcases List.mem_cons.mp member with rfl | later
              · rw [List.mem_cons, not_or]
                exact ⟨apart, ih first (split ▸ List.mem_cons_self)⟩
              · exact ih piece (split ▸ List.mem_cons_of_mem _ later)

theorem of_piece_plain (piece : String) (part : Part) (whole : '/' ∉ piece.toList)
    (found : Part.ofPiece? piece = some part) : part.IsPlain := by
  unfold Part.ofPiece? at found
  split at found
  next => cases found
  next => cases found
  next =>
      obtain rfl := Option.some.inj found
      simp [Part.IsPlain, Part.spelling]
  next filled dotted _ =>
      obtain rfl := Option.some.inj found
      refine ⟨fun empty => filled (String.toList_inj.mp empty), fun dot =>
        dotted (String.toList_inj.mp dot), whole⟩

theorem parts_cases (path : Path) (part : Part) (member : part ∈ path.parts) :
    part = .root ∨ part = .here ∨ ∃ piece : String, '/' ∉ piece.toList ∧
      Part.ofPiece? piece = some part := by
  obtain ⟨⟨piece, stands⟩, listed, found⟩ := List.mem_filterMap.mp member
  have whole : ∀ piece ∈ path.pieces, '/' ∉ piece.toList := by
    intro piece member
    obtain ⟨chars, split, rfl⟩ := List.mem_map.mp member
    rw [String.toList_ofList]
    exact pieces_whole _ chars split
  rw [marked] at listed
  dsimp only at found
  split at listed
  next => cases listed
  next first rest split =>
      rw [split] at whole
      rcases List.mem_cons.mp listed with here | later
      · obtain ⟨rfl, rfl⟩ := Prod.mk.inj here
        split at found
        next =>
            split at found
            next => cases found
            next => exact .inl (Option.some.inj found).symm
        next => exact .inr (.inl (Option.some.inj found).symm)
        next => exact .inr (.inr ⟨piece, whole piece List.mem_cons_self, found⟩)
      · obtain ⟨other, member, same⟩ := List.mem_map.mp later
        obtain ⟨rfl, rfl⟩ := Prod.mk.inj same
        exact .inr (.inr ⟨other, whole other (List.mem_cons_of_mem _ member), found⟩)

theorem parts_plain (path : Path) (part : Part) (member : part ∈ path.parts) :
    part = .root ∨ part = .here ∨ part.IsPlain := by
  rcases path.parts_cases part member with root | here | ⟨piece, whole, found⟩
  · exact .inl root
  · exact .inr (.inl here)
  · exact .inr (.inr (of_piece_plain piece part whole found))

theorem name_of_parts (path : Path) (text : String) (member : .name text ∈ path.parts) :
    IsName text := by
  rcases path.parts_cases (.name text) member with other | other | ⟨piece, whole, found⟩
  · cases other
  · cases other
  · have same : piece = text := by
      unfold Part.ofPiece? at found
      split at found
      next => cases found
      next => cases found
      next => cases found
      next => exact Part.name.inj (Option.some.inj found)
    subst same
    exact ⟨found, whole⟩

theorem pieces_append (piece chars : List Char) (whole : '/' ∉ piece) :
    piecesOf (piece ++ '/' :: chars) = piece :: piecesOf chars := by
  induction piece with
  | nil => simp [piecesOf]
  | cons char rest ih =>
      rw [List.mem_cons, not_or] at whole
      have other : (char == '/') = false := by simpa using Ne.symm whole.1
      rw [List.cons_append, piecesOf, other, ih whole.2]
      rfl

theorem pieces_single (piece : List Char) (whole : '/' ∉ piece) : piecesOf piece = [piece] := by
  induction piece with
  | nil => rfl
  | cons char rest ih =>
      rw [List.mem_cons, not_or] at whole
      have other : (char == '/') = false := by simpa using Ne.symm whole.1
      rw [piecesOf, other, ih whole.2]
      rfl

theorem pieces_joined (pieces : List (List Char)) (filled : pieces ≠ [])
    (whole : ∀ piece ∈ pieces, '/' ∉ piece) :
    piecesOf (['/'].intercalate pieces) = pieces := by
  induction pieces with
  | nil => exact absurd rfl filled
  | cons first rest ih =>
      cases rest with
      | nil => simpa [List.intercalate] using pieces_single first (whole first List.mem_cons_self)
      | cons second others =>
          rw [List.intercalate_cons_cons, List.append_assoc, List.singleton_append,
            pieces_append first _ (whole first List.mem_cons_self),
            ih (by simp) fun piece member => whole piece (List.mem_cons_of_mem _ member)]

theorem joined_parts (names : List String) (filled : names ≠ [])
    (proper : ∀ name ∈ names, IsName name) :
    (⟨"/".intercalate ("" :: names)⟩ : Path).parts = .root :: names.map .name := by
  have pieces : (⟨"/".intercalate ("" :: names)⟩ : Path).pieces = "" :: names := by
    rw [Path.pieces, String.toList_intercalate]
    change (piecesOf (['/'].intercalate _)).map String.ofList = _
    rw [pieces_joined _ (by simp) ?_]
    · simp [Function.comp_def]
    · intro piece member
      obtain ⟨name, listed, rfl⟩ := List.mem_map.mp member
      rcases List.mem_cons.mp listed with rfl | later
      · simp
      · exact (proper name later).2
  have named : ∀ names : List String, (∀ name ∈ names, IsName name) →
      (names.map fun piece => (piece, Part.ofPiece? piece)).filterMap Prod.snd =
      names.map .name := by
    intro names
    induction names with
    | nil => exact fun _ => rfl
    | cons first rest ih =>
        intro proper
        rw [List.map_cons, (proper first List.mem_cons_self).1]
        exact congrArg (Part.name first :: ·)
          (ih fun name member => proper name (List.mem_cons_of_mem _ member))
  obtain ⟨first, rest, rfl⟩ := List.exists_cons_of_ne_nil filled
  rw [parts, marked, pieces]
  exact congrArg (Part.root :: ·) (named _ proper)

def IsNormal (parts : List Part) : Prop :=
  ∃ rest : List Part, (parts = rest ∨ parts = .root :: rest) ∧ ∀ part ∈ rest, part.IsPlain

theorem extend_normal (parts : List Part) (part : Part) (normal : IsNormal parts)
    (proper : part = .root ∨ part = .here ∨ part.IsPlain) : IsNormal (extend parts part) := by
  have appended (plain : part.IsPlain) : IsNormal (parts ++ [part]) := by
    obtain ⟨rest, same, every⟩ := normal
    refine ⟨rest ++ [part], ?_, ?_⟩
    · rcases same with rfl | rfl
      · exact .inl rfl
      · exact .inr rfl
    · intro other member
      rcases List.mem_append.mp member with old | new
      · exact every other old
      · rw [List.mem_singleton.mp new]
        exact plain
  cases part with
  | root => exact ⟨[], .inr rfl, fun _ member => by cases member⟩
  | here => exact normal
  | name text =>
      rcases proper with other | other | plain
      · cases other
      · cases other
      · exact appended plain
  | up =>
      rw [extend]
      split
      next => exact appended (by simp [Part.IsPlain, Part.spelling])
      next deep =>
          rw [not_or] at deep
          obtain ⟨rest, rfl | rfl, every⟩ := normal
          · exact ⟨parts.dropLast, .inl rfl, fun part member =>
              every part (List.dropLast_subset _ member)⟩
          · have filled : rest ≠ [] := fun empty => deep.2 (by rw [empty])
            refine ⟨rest.dropLast, .inr ?_, fun part member =>
              every part (List.dropLast_subset _ member)⟩
            rw [List.dropLast_cons_of_ne_nil filled]

theorem normal_parts_normal (path : Path) : IsNormal (normalParts path.parts) := by
  have folded : ∀ (parts : List Part) (start : List Part), IsNormal start →
      (∀ part ∈ parts, part = .root ∨ part = .here ∨ part.IsPlain) →
      IsNormal (parts.foldl extend start) := by
    intro parts
    induction parts with
    | nil => exact fun start normal _ => normal
    | cons first rest ih =>
        intro start normal proper
        exact ih _ (extend_normal start first normal (proper first List.mem_cons_self))
          fun part member => proper part (List.mem_cons_of_mem _ member)
  exact folded path.parts [] ⟨[], .inl rfl, fun _ member => by cases member⟩ path.parts_plain

theorem spell_last (parts : List Part) (last : Part) (more : parts ++ [last] ≠ [.root]) :
    ∃ start, (spell (parts ++ [last])).toList = start ++ last.spelling.toList := by
  rw [spell]
  · rw [List.map_append, List.map_singleton]
    by_cases empty : parts.map Part.spelling = []
    · exact ⟨[], by rw [empty, List.nil_append, String.intercalate_singleton, List.nil_append]⟩
    · rw [String.intercalate_append_of_ne_nil empty (List.cons_ne_nil _ _),
        String.intercalate_singleton, String.toList_append]
      exact ⟨_, rfl⟩
  · exact more

theorem normalize_plain (path : Path) (other : path.normalize.spelling ≠ "/") :
    FileSystem.endsInSlash path.normalize = false := by
  obtain ⟨rest, same, every⟩ := path.normal_parts_normal
  rw [normalize, ofParts] at other ⊢
  rcases List.eq_nil_or_concat rest with rfl | ⟨front, last, rfl⟩
  · rcases same with empty | root
    · rw [empty]
      decide
    · rw [root] at other
      exact absurd rfl other
  · rw [List.concat_eq_append] at same every
    obtain ⟨filled, proper, whole⟩ :=
      every last (List.mem_append_right _ (List.mem_singleton_self last))
    have ends : ∃ start, (spell (normalParts path.parts)).toList = start ++
        last.spelling.toList := by
      have more : normalParts path.parts ≠ [.root] := by
        intro root
        rw [root] at other
        exact other rfl
      rcases same with same | same
      · rw [same] at more ⊢
        exact spell_last front last more
      · rw [same] at more ⊢
        exact spell_last (.root :: front) last more
    obtain ⟨start, spelled⟩ := ends
    exact FileSystem.not_ends_in_slash _ start _ spelled filled proper whole

theorem with_ending_plain (path : Path) (ending : String) (filled : ending ≠ "")
    (whole : '/' ∉ ending.toList) :
    FileSystem.endsInSlash (path.withEnding ending) = false := by
  refine FileSystem.not_ends_in_slash _ path.spelling.toList ('.' :: ending.toList)
    (by simp [withEnding]) (by simp) ?_ ?_
  · intro same
    exact filled (String.toList_inj.mp (List.cons.inj same).2)
  · simpa using whole

end Path

namespace Resolve

theorem endings_whole : ∀ ending ∈ endings, ending ≠ "" ∧ '/' ∉ ending.toList := by decide

theorem typed_endings_whole (ending : String) : ∀ typed ∈ typedEndings ending, typed ≠ "" ∧
    '/' ∉ typed.toList := by
  unfold typedEndings
  split <;> decide

theorem resolved_plain {σ : Type} [FileStore σ] (store : σ) (specifier : String)
    (importer file : Path) (resolved : resolve store specifier importer = some file)
    (source : file.isSource = true) :
    FileSystem.endsInSlash file = false := by
  obtain ⟨base, found, hit⟩ := Option.bind_eq_some_iff.mp resolved
  have ended (path : Path) (ending : String) (whole : ending ≠ "" ∧ '/' ∉ ending.toList)
      (same : path.withEnding ending = file) : FileSystem.endsInSlash file = false :=
    same ▸ path.with_ending_plain ending whole.1 whole.2
  rcases List.mem_append.mp (List.mem_of_find?_eq_some hit) with first | inside
  · rcases List.mem_append.mp first with first | bare
    · rcases List.mem_cons.mp first with rfl | typed
      · rw [base?] at found
        split at found
        next =>
            obtain ⟨folder, -, rfl⟩ := Option.map_eq_some_iff.mp found
            refine Path.normalize_plain _ fun root => ?_
            rw [show (folder.join specifier).normalize = ⟨"/"⟩ from congrArg Path.mk root] at source
            revert source
            decide
        next => cases found
      · obtain ⟨ending, member, same⟩ := List.mem_map.mp typed
        cases written : base.extension? with
        | none =>
            rw [written] at member
            cases member
        | some other =>
            rw [written] at member
            exact ended _ ending (typed_endings_whole other ending member) same
    · obtain ⟨ending, member, same⟩ := List.mem_map.mp bare
      exact ended _ ending (endings_whole ending member) same
  · obtain ⟨ending, member, same⟩ := List.mem_map.mp inside
    exact ended _ ending (endings_whole ending member) same

end Resolve
end DeadExports
