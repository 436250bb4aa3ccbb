import DeadExports.Proofs.Path.Spelling
import DeadExports.Store.Memory

set_option autoImplicit false

namespace DeadExports

namespace Path

def climbs : List Part → Nat
  | [] => 0
  | .up :: rest => climbs rest + 1
  | .name _ :: rest => climbs rest - 1
  | .here :: rest => climbs rest
  | .root :: rest => climbs rest

def standing : List Part → List String
  | [] => []
  | .name text :: rest => if climbs rest = 0 then text :: standing rest else standing rest
  | .up :: rest => standing rest
  | .here :: rest => standing rest
  | .root :: rest => standing rest

def settled (front : List Part) (ups : Nat) (names : List String) : List Part :=
  front ++ List.replicate ups .up ++ names.map .name

theorem climbs_settled (ups : Nat) (names : List String) : climbs (settled [] ups names) = ups := by
  have named : climbs (names.map .name) = 0 := by
    induction names with
    | nil => rfl
    | cons first rest ih => simp [climbs, ih]
  induction ups with
  | zero => simpa [settled] using named
  | succ ups ih => simpa [settled, List.replicate_succ, climbs] using ih

theorem standing_settled (ups : Nat) (names : List String) :
    standing (settled [] ups names) = names := by
  have named : standing (names.map .name) = names := by
    induction names with
    | nil => rfl
    | cons first rest ih =>
        have level := climbs_settled 0 rest
        simp only [settled, List.replicate_zero, List.append_nil, List.nil_append] at level
        simp [standing, level, ih]
  induction ups with
  | zero => simpa [settled] using named
  | succ ups ih => simpa [settled, List.replicate_succ, standing] using ih

theorem climbs_front (front rest : List Part)
    (leading : ∀ part ∈ front, part = .root ∨ part = .here) :
    climbs (front ++ rest) = climbs rest ∧ standing (front ++ rest) = standing rest := by
  induction front with
  | nil => exact ⟨rfl, rfl⟩
  | cons first others ih =>
      obtain ⟨same, stand⟩ := ih fun part member => leading part (List.mem_cons_of_mem _ member)
      rcases leading first List.mem_cons_self with rfl | rfl <;> exact ⟨same, stand⟩

section Extend

variable {front : List Part}

theorem extend_name (ups : Nat) (names : List String) (text : String) :
    extend (settled front ups names) (.name text) = settled front ups (names ++ [text]) := by
  simp [extend, settled]

variable (opens : front = [] ∨ front = [.root])

theorem extend_up_names (ups : Nat) (names : List String) (filled : names ≠ []) :
    extend (settled front ups names) .up = settled front ups names.dropLast := by
  have deep : ¬ (settled front ups names = [] ∨ settled front ups names = [.root]) := by
    obtain ⟨text, member⟩ := List.exists_mem_of_ne_nil names filled
    have held : Part.name text ∈ settled front ups names := by simp [settled, member]
    rintro (none | root)
    · rw [none] at held
      cases held
    · rw [root] at held
      simp at held
  rw [extend, if_neg deep, settled, List.dropLast_append_of_ne_nil (by simpa using filled),
    ← List.map_dropLast]
  rfl

include opens

theorem extend_up_even : extend (settled front 0 []) .up = settled front 1 [] := by
  rcases opens with rfl | rfl <;> rfl

theorem extend_up_odd : extend (settled front 1 []) .up = settled front 0 [] := by
  rcases opens with rfl | rfl <;> rfl

-- The invariant of the loop: the parts so far are settled with one step upwards at most. Of the
-- steps upwards that come later, the first ones take back the names so far, and each pair of the
-- others cancels out.
theorem extend_all (rest : List Part) (ups : Nat) (names : List String) (few : ups ≤ 1)
    (inner : Part.root ∉ rest) :
    rest.foldl extend (settled front ups names) =
      settled front ((ups + (climbs rest - names.length)) % 2)
        (names.take (names.length - climbs rest) ++ standing rest) := by
  induction rest generalizing ups names with
  | nil =>
      have same : ups % 2 = ups := Nat.mod_eq_of_lt (by omega)
      simp [climbs, standing, same]
  | cons first rest ih =>
      rw [List.mem_cons, not_or] at inner
      rw [List.foldl_cons]
      cases first with
      | root => exact absurd rfl inner.1
      | here => exact ih ups names few inner.2
      | name text =>
          rw [extend_name, ih ups _ few inner.2, climbs, standing, List.length_append]
          have left : climbs rest - (names.length + [text].length) = climbs rest - 1 -
              names.length := by
            rw [List.length_singleton]
            omega
          rw [left]
          by_cases level : climbs rest = 0
          · have all : (names ++ [text]).take (names.length + 1) = names ++
              [text] := List.take_of_length_le (by simp)
            simp [level, all]
          · have short : names.length + [text].length - climbs rest = names.length -
                (climbs rest - 1) := by
              rw [List.length_singleton]
              omega
            rw [if_neg level, short, List.take_append_of_le_length (by omega)]
      | up =>
          rw [climbs, standing]
          by_cases empty : names = []
          · subst empty
            rcases Nat.le_one_iff_eq_zero_or_eq_one.mp few with rfl | rfl
            · rw [extend_up_even opens, ih 1 [] (Nat.le_refl 1) inner.2]
              simp [Nat.add_comm]
            · rw [extend_up_odd opens, ih 0 [] (Nat.zero_le 1) inner.2]
              have pair : (1 + (climbs rest + 1)) % 2 = climbs rest % 2 := by omega
              simp [pair]
          · have some : 0 < names.length := List.length_pos_iff.mpr empty
            rw [extend_up_names ups names empty, ih ups names.dropLast few inner.2,
              List.length_dropLast]
            have left : climbs rest - (names.length - 1) = climbs rest + 1 - names.length := by
              omega
            have kept : names.length - 1 - climbs rest = names.length - (climbs rest + 1) := by
              omega
            rw [left, kept, List.dropLast_eq_take, List.take_take, Nat.min_eq_left (by omega)]

theorem normal_parts_settled (rest : List Part) (inner : Part.root ∉ rest) :
    normalParts (front ++ rest) = settled front (climbs rest % 2) (standing rest) := by
  have start : normalParts front = settled front 0 [] := by
    rcases opens with rfl | rfl <;> rfl
  have whole := extend_all opens rest 0 [] (Nat.zero_le 1) inner
  rw [normalParts, List.foldl_append, ← normalParts, start, whole]
  simp

end Extend

def inner (text : String) :
    List Part := ((piecesOf text.toList).map String.ofList).filterMap Part.ofPiece?

def leading : List String → List Part
  | "" :: _ :: _ => [.root]
  | "." :: _ => [.here]
  | _ => []

theorem parts_leading (path : Path) : path.parts = leading path.pieces ++ inner path.spelling := by
  rw [parts, marked, inner, ← pieces]
  cases path.pieces with
  | nil => rfl
  | cons first rest =>
      have later : (rest.map fun piece => (piece, Part.ofPiece? piece)).filterMap Prod.snd =
          rest.filterMap Part.ofPiece? := by
        rw [List.filterMap_map]
        rfl
      dsimp only
      by_cases empty : first = ""
      · subst empty
        cases rest with
        | nil => rfl
        | cons second others =>
            rw [List.filterMap_cons, List.filterMap_cons, later]
            rfl
      · by_cases dot : first = "."
        · subst dot
          rw [List.filterMap_cons, List.filterMap_cons, later]
          rfl
        · have other : leading (first :: rest) = [] := by
            unfold leading
            split
            next same => exact absurd (List.cons.inj same).1 empty
            next same => exact absurd (List.cons.inj same).1 dot
            next => rfl
          rw [other]
          split
          next => exact absurd rfl empty
          next => exact absurd rfl dot
          next =>
              rw [List.filterMap_cons, List.filterMap_cons, later]
              rfl

theorem inner_parts (text : String) : Part.root ∉ inner text ∧ Part.here ∉ inner text := by
  have stands (part : Part) (member : part ∈ inner text) : part ≠ .root ∧ part ≠ .here := by
    obtain ⟨piece, -, found⟩ := List.mem_filterMap.mp member
    unfold Part.ofPiece? at found
    split at found
    next => cases found
    next => cases found
    next =>
        obtain rfl := Option.some.inj found
        exact ⟨nofun, nofun⟩
    next =>
        obtain rfl := Option.some.inj found
        exact ⟨nofun, nofun⟩
  exact ⟨fun member => (stands _ member).1 rfl, fun member => (stands _ member).2 rfl⟩

theorem leading_cases (pieces : List String) :
    leading pieces = [] ∨ leading pieces = [.root] ∨ leading pieces = [.here] := by
  fun_cases leading pieces with
  | case1 => exact .inr (.inl rfl)
  | case2 => exact .inr (.inr rfl)
  | case3 => exact .inl rfl

theorem absolute_iff (path : Path) : path.isAbsolute = true ↔ leading path.pieces = [.root] := by
  rw [isAbsolute, parts_leading, beq_iff_eq]
  rcases leading_cases path.pieces with none | root | here
  · rw [none, List.nil_append]
    refine iff_of_false (fun first => ?_) (by simp)
    exact (inner_parts path.spelling).1 (List.mem_of_mem_head? first)
  · simp [root]
  · simp [here]

def front (path : Path) : List Part := if path.isAbsolute then [.root] else []

theorem front_opens (path : Path) : path.front = [] ∨ path.front = [.root] := by
  rw [front]
  split
  next => exact .inr rfl
  next => exact .inl rfl

theorem normal_parts_eq (path : Path) :
    normalParts path.parts = settled path.front (climbs path.parts % 2) (standing path.parts) := by
  have inside := (inner_parts path.spelling).1
  have counted := climbs_front (leading path.pieces) (inner path.spelling) (by
    rcases leading_cases path.pieces with none | root | here
    · simp [none]
    · simp [root]
    · simp [here])
  have fronted : normalParts path.parts = normalParts (path.front ++ inner path.spelling) := by
    rw [parts_leading, front]
    by_cases absolute : path.isAbsolute = true
    · rw [if_pos absolute, (absolute_iff path).mp absolute]
    · rw [if_neg absolute]
      rcases leading_cases path.pieces with none | root | here
      · rw [none]
      · exact absurd ((absolute_iff path).mpr root) absolute
      · rw [here]
        rfl
  rw [fronted, normal_parts_settled path.front_opens _ inside, parts_leading, counted.1, counted.2]

theorem standing_member (parts : List Part) (text : String) (member : text ∈ standing parts) :
    .name text ∈ parts := by
  induction parts with
  | nil => cases member
  | cons first rest ih =>
      cases first with
      | name other =>
          rw [standing] at member
          split at member
          next =>
              rcases List.mem_cons.mp member with rfl | later
              · exact List.mem_cons_self
              · exact List.mem_cons_of_mem _ (ih later)
          next => exact List.mem_cons_of_mem _ (ih member)
      | up => exact List.mem_cons_of_mem _ (ih member)
      | here => exact List.mem_cons_of_mem _ (ih member)
      | root => exact List.mem_cons_of_mem _ (ih member)

def IsStep (part : Part) :
    Prop := Part.ofPiece? part.spelling = some part ∧ '/' ∉ part.spelling.toList

theorem settled_steps (ups : Nat) (names : List String) (proper : ∀ name ∈ names, IsName name) :
    ∀ part ∈ settled [] ups names, IsStep part := by
  intro part member
  rw [settled, List.nil_append, List.mem_append] at member
  rcases member with climbing | named
  · rw [List.eq_of_mem_replicate climbing]
    exact ⟨rfl, by decide⟩
  · obtain ⟨name, listed, rfl⟩ := List.mem_map.mp named
    exact proper name listed

theorem inner_spelled (steps : List Part) (every : ∀ part ∈ steps, IsStep part) :
    (steps.map Part.spelling).filterMap Part.ofPiece? = steps := by
  induction steps with
  | nil => rfl
  | cons first rest ih =>
      rw [List.map_cons, List.filterMap_cons_some (every first List.mem_cons_self).1,
        ih fun part member => every part (List.mem_cons_of_mem _ member)]

theorem pieces_spelled (pieces : List String) (filled : pieces ≠ [])
    (whole : ∀ piece ∈ pieces, '/' ∉ piece.toList) :
    (⟨"/".intercalate pieces⟩ : Path).pieces = pieces := by
  rw [Path.pieces, String.toList_intercalate]
  change (piecesOf (['/'].intercalate _)).map String.ofList = _
  rw [pieces_joined _ (by simpa using filled)]
  · simp [Function.comp_def]
  · intro piece member
    obtain ⟨text, listed, rfl⟩ := List.mem_map.mp member
    exact whole text listed

theorem spelled_steps (front steps : List Part) (opens : front = [] ∨ front = [.root])
    (every : ∀ part ∈ steps, IsStep part) :
    (ofParts (front ++ steps)).parts = front ++ steps := by
  by_cases empty : steps = []
  · subst empty
    rcases opens with rfl | rfl <;> decide
  · obtain ⟨first, rest, rfl⟩ := List.exists_cons_of_ne_nil empty
    have whole : ∀ piece ∈ (front ++ first :: rest).map Part.spelling, '/' ∉ piece.toList := by
      intro piece member
      obtain ⟨part, listed, rfl⟩ := List.mem_map.mp member
      rcases List.mem_append.mp listed with opening | step
      · rcases opens with rfl | rfl
        · cases opening
        · rw [List.mem_singleton.mp opening]
          decide
      · exact (every part step).2
    have spelled : spell (front ++ first :: rest) = "/".intercalate ((front ++ first :: rest).map
        Part.spelling) := by
      rw [spell]
      intro root
      rcases opens with rfl | rfl
      · have stands := (every first List.mem_cons_self).1
        rw [(List.cons.inj root).1] at stands
        cases stands
      · simp at root
    have pieces := pieces_spelled _ (by simp) whole
    rw [← spelled] at pieces
    rw [parts_leading, inner, ← Path.pieces, ofParts, pieces, List.map_append,
      List.filterMap_append, inner_spelled _ every]
    rcases opens with rfl | rfl
    · have stands := (every first List.mem_cons_self).1
      have none : leading (first.spelling :: rest.map Part.spelling) = [] := by
        unfold leading
        split
        next same => rw [(List.cons.inj same).1] at stands; cases stands
        next same => rw [(List.cons.inj same).1] at stands; cases stands
        next => rfl
      simpa using none
    · rfl

theorem normalize_parts (path : Path) :
    path.normalize.parts = settled path.front (climbs path.parts % 2) (standing path.parts) := by
  have proper : ∀ name ∈ standing path.parts, IsName name :=
    fun name member => path.name_of_parts name (standing_member _ name member)
  rw [normalize, normal_parts_eq]
  have back := spelled_steps path.front _ path.front_opens
    (settled_steps (climbs path.parts % 2) _ proper)
  simpa only [settled, List.nil_append, List.append_assoc] using back

theorem normal_parts_again (front : List Part) (ups : Nat) (names : List String)
    (opens : front = [] ∨ front = [.root]) (few : ups ≤ 1) :
    normalParts (settled front ups names) = settled front ups names := by
  have apart : settled front ups names = front ++ settled [] ups names := by simp [settled]
  have inner : Part.root ∉ settled [] ups names := by simp [settled]
  have same : ups % 2 = ups := Nat.mod_eq_of_lt (by omega)
  rw [apart, normal_parts_settled opens _ inner, climbs_settled, standing_settled, same, ← apart]

theorem normalize_again (path : Path) :
    normalParts path.normalize.parts = normalParts path.parts := by
  rw [normalize_parts, normal_parts_again _ _ _ path.front_opens (by omega), normal_parts_eq]

theorem pieces_filled (chars : List Char) : piecesOf chars ≠ [] := by
  cases chars with
  | nil => simp [piecesOf]
  | cons first rest =>
      rw [piecesOf]
      split
      next => exact List.cons_ne_nil _ _
      next => split <;> exact List.cons_ne_nil _ _

theorem pieces_between (before after : List Char) :
    piecesOf (before ++ '/' :: after) = piecesOf before ++ piecesOf after := by
  induction before with
  | nil => simp [piecesOf]
  | cons first rest ih =>
      rw [List.cons_append, piecesOf, ih, piecesOf]
      split
      next => rfl
      next =>
          obtain ⟨piece, pieces, found⟩ := List.exists_cons_of_ne_nil (pieces_filled rest)
          rw [found]
          rfl

theorem inner_between (before after : String) : inner (before ++ "/" ++ after) = inner before ++
    inner after := by
  have chars : (before ++ "/" ++ after).toList = before.toList ++ '/' :: after.toList := by simp
  rw [inner, chars, pieces_between, List.map_append, List.filterMap_append]
  rfl

theorem pieces_slash (before after : String) :
    (⟨before ++ "/" ++ after⟩ : Path).pieces = (⟨before⟩ : Path).pieces ++
      (⟨after⟩ : Path).pieces := by
  have chars : (before ++ "/" ++ after).toList = before.toList ++ '/' :: after.toList := by simp
  rw [pieces, chars, pieces_between, List.map_append]
  rfl

theorem text_pieces_filled (path : Path) : path.pieces ≠ [] := by
  simpa [pieces] using pieces_filled path.spelling.toList

theorem pieces_empty (path : Path) (none : path.pieces = [""]) : path.spelling = "" := by
  cases spelled : path.spelling.toList with
  | nil => exact String.toList_inj.mp spelled
  | cons first rest =>
      rw [pieces, spelled, piecesOf] at none
      split at none
      next =>
          have more := pieces_filled rest
          simp_all
      next => split at none <;> simp at none

theorem leading_append (first more : List String) (filled : first ≠ []) (some : first ≠ [""]) :
    leading (first ++ more) = leading first := by
  fun_cases leading first with
  | case1 => rfl
  | case2 => rfl
  | case3 other noRoot noDot =>
      unfold leading
      split
      next second rest same =>
          obtain ⟨head, tail, rfl⟩ := List.exists_cons_of_ne_nil filled
          obtain ⟨rfl, -⟩ := List.cons.inj same
          cases tail with
          | nil => exact absurd rfl some
          | cons next others => exact absurd rfl (noRoot next others)
      next rest same =>
          obtain ⟨head, tail, rfl⟩ := List.exists_cons_of_ne_nil filled
          obtain ⟨rfl, -⟩ := List.cons.inj same
          exact absurd rfl (noDot tail)
      next => rfl

theorem parts_between (before after : String) (filled : before ≠ "") :
    (⟨before ++ "/" ++ after⟩ : Path).parts = (⟨before⟩ : Path).parts ++ inner after := by
  have some : (⟨before⟩ : Path).pieces ≠ [""] := fun none => filled (pieces_empty ⟨before⟩ none)
  rw [parts_leading, parts_leading, pieces_slash, leading_append _ _ (text_pieces_filled _) some,
    inner_between, List.append_assoc]

theorem parts_rooted (after : String) : (⟨"" ++ "/" ++ after⟩ : Path).parts = .root ::
    inner after := by
  obtain ⟨piece, pieces, found⟩ := List.exists_cons_of_ne_nil (text_pieces_filled ⟨after⟩)
  rw [parts_leading, pieces_slash, inner_between, found]
  rfl

theorem slash_opens (text : String) (starts : text.startsWith '/' = true) : ∃ rest, text = "" ++
    "/" ++ rest := by
  rw [String.startsWith_char_eq_head?, beq_iff_eq, List.head?_eq_some_iff] at starts
  obtain ⟨rest, spelled⟩ := starts
  exact ⟨String.ofList rest, String.toList_inj.mp (by simp [spelled])⟩

theorem slash_closes (text : String) (ends : text.endsWith '/' = true) : ∃ start, text = start ++
    "/" ++ "" := by
  rw [String.endsWith_char_eq_getLast?, beq_iff_eq, List.getLast?_eq_some_iff] at ends
  obtain ⟨start, spelled⟩ := ends
  exact ⟨String.ofList start, String.toList_inj.mp (by simp [spelled])⟩

theorem relative_opens (text : String) (relative : (⟨text⟩ : Path).isAbsolute = false) :
    text.startsWith '/' = false := by
  rw [← Bool.not_eq_true]
  intro starts
  obtain ⟨rest, rfl⟩ := slash_opens text starts
  rw [isAbsolute, parts_rooted] at relative
  cases relative

theorem join_parts (path : Path) (rest : String) (filled : path.spelling ≠ "")
    (relative : rest.startsWith '/' = false) :
    (path.join rest).parts = path.parts ++ inner rest := by
  have kept : (rest.startsWith '/' || path.spelling.isEmpty) = false := by
    rw [relative, Bool.false_or, ← Bool.not_eq_true, String.isEmpty_iff]
    exact filled
  rw [join, kept]
  by_cases closed : path.spelling.endsWith '/' = true
  · obtain ⟨start, spelled⟩ := slash_closes path.spelling closed
    obtain rfl : path = ⟨start ++ "/" ++ ""⟩ := congrArg Path.mk spelled
    have joined : start ++ "/" ++ "" ++ rest = start ++ "/" ++ rest := by simp
    simp only [Bool.false_eq_true, if_false, closed, if_true, joined]
    by_cases rooted : start = ""
    · subst rooted
      rw [parts_rooted, parts_rooted]
      rfl
    · rw [parts_between _ _ rooted, parts_between _ _ rooted]
      simp [inner, piecesOf, Part.ofPiece?]
  · simp only [Bool.false_eq_true, if_false, closed]
    exact parts_between path.spelling rest filled

theorem normal_parts_join (path : Path) (rest : String)
    (relative : (⟨rest⟩ : Path).isAbsolute = false) :
    normalParts (path.join rest).parts = (inner rest).foldl extend (normalParts path.parts) := by
  by_cases empty : path.spelling = ""
  · have alone : path.join rest = ⟨rest⟩ := by simp [join, empty]
    obtain rfl : path = ⟨""⟩ := congrArg Path.mk empty
    rw [alone, parts_leading]
    rcases leading_cases (⟨rest⟩ : Path).pieces with none | root | here
    · rw [none]
      rfl
    · rw [(absolute_iff ⟨rest⟩).mpr root] at relative
      cases relative
    · rw [here]
      rfl
  · rw [join_parts path rest empty (relative_opens rest relative), normalParts, List.foldl_append]
    rfl

theorem normalize_join (path : Path) (rest : String)
    (relative : (⟨rest⟩ : Path).isAbsolute = false) :
    (path.join rest).normalize = (path.normalize.join rest).normalize := by
  rw [normalize, normal_parts_join path rest relative, normalize,
    normal_parts_join path.normalize rest relative, normalize_again]

def LiesAbove (path : Path) : Prop :=
  ∃ before after, path = ⟨before ++ "/" ++ after⟩ ∧ Part.up ∈ (⟨before⟩ : Path).parts

theorem above_parts (path : Path) (above : path.LiesAbove) : Part.up ∈ path.parts := by
  obtain ⟨before, after, rfl, climbing⟩ := above
  have filled : before ≠ "" := by
    rintro rfl
    revert climbing
    decide
  rw [parts_between before after filled]
  exact List.mem_append_left _ climbing

theorem above_with_ending (path : Path) (ending : String) (above : path.LiesAbove) :
    (path.withEnding ending).LiesAbove := by
  obtain ⟨before, after, rfl, climbing⟩ := above
  exact ⟨before, after ++ "." ++ ending, by simp [withEnding, String.append_assoc], climbing⟩

theorem above_settled (front : List Part) (names : List String)
    (opens : front = [] ∨ front = [.root]) (filled : names ≠ []) :
    (ofParts (settled front 1 names)).LiesAbove := by
  refine ⟨"/".intercalate ((front ++ [Part.up]).map Part.spelling), "/".intercalate names, ?_, ?_⟩
  · have more : settled front 1 names ≠ [.root] := by
      intro root
      have climbing : Part.up ∈ settled front 1 names := by simp [settled]
      rw [root] at climbing
      simp at climbing
    have plain : (settled front 1 names).map Part.spelling = (front ++
        [Part.up]).map Part.spelling ++ names := by
      simp [settled, Part.spelling, Function.comp_def]
    rw [ofParts, spell, plain, String.intercalate_append_of_ne_nil (by simp) filled]
    exact more
  · rcases opens with rfl | rfl <;> decide

theorem above_index (path : Path) (ending : String) (climbing : Part.up ∈ path.parts) :
    Part.up ∈ ((path.join "index").withEnding ending).parts := by
  have filled : path.spelling ≠ "" := by
    intro empty
    rw [show path = ⟨""⟩ from congrArg Path.mk empty] at climbing
    revert climbing
    decide
  have inside : (path.join "index").withEnding ending = path.join ("index" ++ "." ++ ending) := by
    have index : "index".startsWith '/' = false := by rw [String.startsWith_char_eq_head?]; rfl
    have ended : ("index" ++ "." ++ ending).startsWith '/' = false := by
      rw [String.startsWith_char_eq_head?]
      simp
    rw [join, join, index, ended]
    split
    next => rfl
    next => split <;> simp only [withEnding, String.append_assoc]
  rw [inside, join_parts path _ filled (by rw [String.startsWith_char_eq_head?]; simp)]
  exact List.mem_append_left _ climbing

end Path

namespace Resolve

-- The files that a settled path with a step upwards may stand for lie above the start. Only where
-- the path is nothing but that step, an ending behind it makes a name of it.
theorem candidates_climb (front : List Part) (names : List String)
    (opens : front = [] ∨ front = [.root]) (base : Path)
    (settled : base = Path.ofParts (Path.settled front 1 names))
    (back : base.parts = Path.settled front 1 names) (file : Path)
    (member : file ∈ candidates base) :
    Part.up ∈ file.parts ∨ names = [] ∧ ∃ ending ∈ endings, file = base.withEnding ending := by
  have climbing : Part.up ∈ base.parts := by
    rw [back]
    simp [Path.settled]
  rw [candidates, List.mem_append, List.mem_append, List.mem_cons] at member
  rcases member with ((rfl | typed) | bare) | inside
  · exact .inl climbing
  · obtain ⟨typedEnding, listed, rfl⟩ := List.mem_map.mp typed
    cases ended : base.fileName?.bind Path.cutEnding? with
    | none =>
        have plain : base.extension? = none := by
          rw [Path.extension?]
          cases named : base.fileName? with
          | none => rfl
          | some name =>
              rw [named] at ended
              exact congrArg (Option.map Prod.snd) ended
        rw [plain] at listed
        cases listed
    | some cut =>
        -- The path ends in a name, so a name is still there when its ending is taken away.
        have last : ∃ front name, names = front ++ [name] := by
          rcases List.eq_nil_or_concat names with rfl | ⟨front, name, rfl⟩
          · rw [Path.fileName?, back] at ended
            simp [Path.settled] at ended
          · exact ⟨front, name, List.concat_eq_append⟩
        obtain ⟨others, name, rfl⟩ := last
        have stem : base.withoutEnding = Path.ofParts (Path.settled front 1
            (others ++ [cut.1])) := by
          have ends (name : String) :
              Path.settled front 1 (others ++ [name]) = Path.settled front 1 others ++
              [.name name] := by
            simp [Path.settled]
          rw [Path.withoutEnding, ended, back, ends, ends, List.dropLast_concat]
        refine .inl (Path.above_parts _ (Path.above_with_ending _ _ ?_))
        rw [stem]
        exact Path.above_settled front _ opens (by simp)
  · obtain ⟨ending, listed, rfl⟩ := List.mem_map.mp bare
    by_cases empty : names = []
    · exact .inr ⟨empty, ending, listed, rfl⟩
    · refine .inl (Path.above_parts _ (Path.above_with_ending _ _ ?_))
      rw [settled]
      exact Path.above_settled front names opens empty
  · obtain ⟨ending, -, rfl⟩ := List.mem_map.mp inside
    exact .inl (Path.above_index base ending climbing)

end Resolve

namespace Path

-- Whether steps upwards are left over is told by their number: pairs of them are lost. The normal
-- form of a path is its root, one step upwards when an odd number of them finds no name to take
-- back, and the names that stay. It is what it should be when there is one such step at most.
-- Normalizing can be done twice and in parts; and from a folder, a specifier with an odd number of
-- such steps leads above the start, save for a name that starts with the two dots.
theorem normalize_settles (path : Path) :
    path.normalize.parts = settled path.front (climbs path.parts % 2) (standing path.parts) ∧
      (path.normalize.parts = settled path.front (climbs path.parts) (standing path.parts) ↔
        climbs path.parts ≤ 1) ∧
      path.normalize.normalize = path.normalize ∧
      (∀ rest : String, (⟨rest⟩ : Path).isAbsolute = false →
        (path.join rest).normalize = (path.normalize.join rest).normalize) ∧
      ∀ (σ : Type) [FileStore σ] (store : σ) (specifier : String) (importer file : Path),
        importer.parent? = some path →
        Resolve.resolve store specifier importer = some file →
        climbs (path.join specifier).parts % 2 = 1 →
        Part.up ∈ file.parts ∨ standing (path.join specifier).parts = [] ∧
          ∃ ending ∈ Resolve.endings, file = (path.join specifier).normalize.withEnding ending := by
  have parts := path.normalize_parts
  refine ⟨parts, ?_, ?_, path.normalize_join, ?_⟩
  · rw [parts]
    constructor
    · intro same
      have counted := congrArg climbs same
      have opening : ∀ part ∈ path.front, part = .root ∨ part = .here := by
        rcases path.front_opens with none | root
        · simp [none]
        · simp [root]
      have level (ups : Nat) : climbs (settled path.front ups (standing path.parts)) = ups := by
        have apart : settled path.front ups (standing path.parts) = path.front ++
            settled [] ups (standing path.parts) := by
          simp [settled]
        rw [apart, (climbs_front path.front _ opening).1, climbs_settled]
      rw [level, level] at counted
      omega
    · intro few
      rw [Nat.mod_eq_of_lt (by omega)]
  · rw [normalize, normalize_again]
    rfl
  · intro σ _ store specifier importer file folder resolved odd
    obtain ⟨base, found, hit⟩ := Option.bind_eq_some_iff.mp resolved
    have named : base = (path.join specifier).normalize := by
      rw [Resolve.base?, folder] at found
      split at found
      next => exact (Option.some.inj found).symm
      next => cases found
    have back := (path.join specifier).normalize_parts
    have spelled : base = ofParts (settled (path.join specifier).front 1
        (standing (path.join specifier).parts)) := by
      rw [named, normalize, normal_parts_eq, odd]
    rw [odd, ← named] at back
    rw [← named]
    exact Resolve.candidates_climb _ _ (path.join specifier).front_opens base spelled back file
      (List.mem_of_find?_eq_some hit)

def aroundStart : MemoryStore := .ofList [(⟨"../b.ts"⟩, ""), (⟨"b.ts"⟩, "")]

theorem one_step_is_kept :
    (⟨"x/../.././y"⟩ : Path).normalize.parts = [.up, .name "y"] ∧
      ((⟨"x/.."⟩ : Path).join "../y").normalize =
        ((⟨"x/.."⟩ : Path).normalize.join "../y").normalize ∧
      ∃ file, Resolve.resolve aroundStart "../../b" ⟨"x/a.ts"⟩ = some file ∧
        Part.up ∈ file.parts := by
  have kept := (normalize_settles ⟨"x/../.././y"⟩).1
  have joined := (normalize_settles ⟨"x/.."⟩).2.2.2.1 "../y" (by decide +kernel)
  have climbs := (normalize_settles (ofParts [.name "x"])).2.2.2.2 MemoryStore aroundStart "../../b"
    ⟨"x/a.ts"⟩
  have some : (Resolve.resolve aroundStart "../../b" ⟨"x/a.ts"⟩).isSome = true := by decide +kernel
  obtain ⟨file, resolved⟩ := Option.isSome_iff_exists.mp some
  refine ⟨kept.trans (by decide +kernel), joined, file, resolved, ?_⟩
  rcases climbs file rfl resolved (by decide +kernel) with above | ⟨none, -⟩
  · exact above
  · exact absurd none (by decide +kernel)

theorem two_steps_lead_nowhere :
    climbs (⟨"../.."⟩ : Path).parts = 2 ∧ (⟨"../.."⟩ : Path).normalize.parts = [] ∧
      (Resolve.resolve aroundStart "../../b" ⟨"a.ts"⟩).map Path.parts = some [.name "b.ts"] ∧
      (Resolve.resolve (MemoryStore.ofList [(⟨"...ts"⟩, "")]) ".." ⟨"a.ts"⟩).map Path.parts =
        some [.name "...ts"] := by
  decide +kernel

end Path
end DeadExports
