import DeadExports.Proofs.Candidate.Placement
import DeadExports.Proofs.Facts.Nesting
import DeadExports.Proofs.Facts.Objects
import Mathlib.Data.List.Pairwise

set_option autoImplicit false

namespace DeadExports

def Facts.spansOf (occurrences : List (String × Span)) (name : String) : List Span :=
  (occurrences.filter fun occurrence => occurrence.1 == name).map Prod.snd

theorem Facts.occurrences_of_eq (facts : Facts) (name : String) :
    facts.occurrencesOf name = spansOf facts.occurrences name := rfl

namespace Tree

structure Spreads (node : Tree) : Prop where
  inside : ∀ child ∈ node.children, node.span.start ≤ child.span.start ∧
      child.span.stop ≤ node.span.stop
  apart : node.children.Pairwise fun a b => a.span.stop ≤ b.span.start

def Sequenced (tree : Tree) : Prop := ∀ node : Tree, node.StandsIn tree → node.Spreads

def NamesAlone (tree : Tree) : Prop :=
  ∀ node : Tree, node.StandsIn tree → node.kind.isName = true → ∀ part ∈ node.inner,
    part.kind.isName = false

theorem stands_within (part tree : Tree) (sequenced : tree.Sequenced)
    (stands : part.StandsIn tree) :
    tree.span.start ≤ part.span.start ∧ part.span.stop ≤ tree.span.stop := by
  induction stands with
  | whole => exact ⟨Nat.le_refl _, Nat.le_refl _⟩
  | inside tree child isOpen member _ ih =>
      have here := (sequenced tree .whole).inside child member
      have below := ih fun node stands => sequenced node (.inside tree child isOpen member stands)
      exact ⟨Nat.le_trans here.1 below.1, Nat.le_trans below.2 here.2⟩

mutual
theorem names_follow : ∀ tree : Tree, tree.Sequenced → tree.NamesAlone →
    (tree.visited.filter fun part => part.kind.isName).Pairwise fun a b => a.span.stop ≤
      b.span.start
  | node role kind span children => by
      intro sequenced alone
      rw [visited_eq]
      cases isName : kind.isName with
      | true =>
          have none : (node role kind span children).inner.filter (fun part =>
            part.kind.isName) = [] :=
            List.filter_eq_nil_iff.mpr fun part member => by
              simp [alone _ .whole isName part member]
          rw [List.filter_cons_of_pos (by exact isName), none]
          exact List.pairwise_singleton _ _
      | false =>
          rw [List.filter_cons_of_neg (by simpa [Tree.kind] using isName)]
          cases isClosed : kind.isClosed with
          | true =>
              rw [show (node role kind span children).inner = [] from if_pos isClosed]
              exact List.Pairwise.nil
          | false =>
              rw [show (node role kind span children).inner = visitedAll children
                from if_neg (by simp [Tree.kind, isClosed])]
              refine names_all_follow children (fun child member => ⟨?_, ?_⟩)
                (sequenced _ .whole).apart
              · exact fun part stands => sequenced part (.inside _ child isClosed member stands)
              · exact fun part stands => alone part (.inside _ child isClosed member stands)

theorem names_all_follow : ∀ children : List Tree,
    (∀ child ∈ children, child.Sequenced ∧ child.NamesAlone) →
    (children.Pairwise fun a b => a.span.stop ≤ b.span.start) →
      ((visitedAll children).filter fun part => part.kind.isName).Pairwise fun a b => a.span.stop ≤
        b.span.start
  | [], _, _ => List.Pairwise.nil
  | tree :: rest, sound, apart => by
      obtain ⟨before, later⟩ := List.pairwise_cons.mp apart
      obtain ⟨sequenced, alone⟩ := sound tree List.mem_cons_self
      have further := fun child member => sound child (List.mem_cons_of_mem tree member)
      rw [visitedAll, List.filter_append, List.pairwise_append]
      refine ⟨names_follow tree sequenced alone, names_all_follow rest further later,
        fun early here late there => ?_⟩
      obtain ⟨child, member, stands⟩ := visited_all_stand late rest (List.mem_filter.mp there).1
      have ends := (stands_within early tree sequenced
        (visited_stands early tree (List.mem_filter.mp here).1)).2
      have starts := (stands_within late child (further child member).1 stands).1
      exact Nat.le_trans ends (Nat.le_trans (before child member) starts)
end

theorem sequenced_of_laid_out (tree : Tree) (laidOut : tree.isLaidOut = true) : tree.Sequenced := by
  intro node stands
  have sound := visited_laid_out tree laidOut node (stands_visited node tree stands)
  have ordered := children_in_order node.children _ _ (laid_out_parts node sound).1
  refine ⟨fun child member => ?_, ?_⟩
  · have bounds := Span.in_order_bounds _ _ _ ordered child.span (List.mem_map_of_mem member)
    exact ⟨bounds.1, bounds.2.2⟩
  · exact List.pairwise_map.mp (Span.in_order_apart _ _ _ ordered)

theorem names_alone_of_laid_out (tree : Tree) (laidOut : tree.isLaidOut = true) :
    tree.NamesAlone := by
  intro node stands isName part member
  have sound := visited_laid_out tree laidOut node (stands_visited node tree stands)
  obtain ⟨-, child, among, -⟩ := (mem_inner_iff part node).mp member
  rw [word_has_no_children node sound (name_is_word node.kind isName)] at among
  cases among

theorem occurrence_iff (source : String) (node : Tree) (name : String) (span : Span) :
    node.occurrence? source = some (name, span) ↔ node.kind.isName = true ∧ node.text source =
      name ∧ node.span = span := by
  rw [occurrence?]
  split
  next isName => simp [isName]
  next other => simp [other]

theorem occurrence_spans (source name : String) (nodes : List Tree) :
    Facts.spansOf (nodes.filterMap (occurrence? source)) name =
      (nodes.filter fun node => (node.occurrence? source).any fun occurrence => occurrence.1 ==
        name).map span := by
  rw [Facts.spansOf]
  induction nodes with
  | nil => rfl
  | cons node rest ih =>
      rw [List.filterMap_cons, List.filter_cons]
      cases found : node.occurrence? source with
      | none => simpa using ih
      | some occurrence =>
          obtain ⟨-, -, same⟩ := (occurrence_iff source node occurrence.1 occurrence.2).mp found
          cases named : occurrence.1 == name with
          | true => simp [named, same, ih]
          | false => simp [named, ih]

theorem occurrence_places_spans (source : String) (tree : Tree) (name : String) :
    (occurrencePlaces source tree name).map (fun place => (tree.at? place).map span) =
      ((Facts.ofTree source tree).occurrencesOf name).map some := by
  have nodes : ((Facts.ofTree source tree).occurrencesOf name) = ((tree.located.map Prod.snd).filter
      fun node =>
      (node.occurrence? source).any fun occurrence => occurrence.1 == name).map span := by
    rw [located_nodes, ← occurrence_spans, Facts.occurrences_of_eq]
    rfl
  rw [nodes, occurrencePlaces, List.map_map, List.filter_map, List.map_map, List.map_map]
  refine List.map_congr_left fun found member => ?_
  have stands := (located_iff found.1 found.2 tree).mp (List.mem_filter.mp member).1
  simp [stands]

end Tree

namespace Facts

def given? (spans : List Span) : Option (List Span) := if spans = [] then none else some spans

theorem given_spans (spans : List Span) : (given? spans).getD [] = spans := by
  rw [given?]
  split
  next none => rw [none]; rfl
  next => rfl

def enterPlace (table : Std.HashMap String (List Span)) (occurrence : String × Span) :
    Std.HashMap String (List Span) :=
  table.alter occurrence.1 fun spans? => some (spans?.getD [] ++ [occurrence.2])

def placesByName (facts : Facts) :
    Std.HashMap String (List Span) := facts.occurrences.foldl enterPlace ∅

def nameAmong (entries : List (String × List Span)) (offset : Nat) : Option String :=
  (entries.find? fun entry => entry.2.any fun span => span.contains offset).map Prod.fst

def Covers (facts : Facts) (name : String) (offset : Nat) : Prop :=
  ∃ span ∈ facts.occurrencesOf name, span.contains offset = true

def Tabulates (table : Std.HashMap String (List Span)) (occurrences : List (String × Span)) :
    Prop :=
  ∀ name : String, table[name]? = given? (spansOf occurrences name)

theorem empty_tabulates : Tabulates ∅ [] := fun _ => by simp [spansOf, given?]

theorem enter_tabulates (table : Std.HashMap String (List Span)) (before : List (String × Span))
    (held : Tabulates table before) (occurrence : String × Span) :
    Tabulates (enterPlace table occurrence) (before ++ [occurrence]) := by
  intro name
  rw [enterPlace, Std.HashMap.getElem?_alter, spansOf, List.filter_append, List.map_append,
    ← spansOf]
  by_cases same : occurrence.1 = name
  · subst same
    rw [held, given_spans]
    simp [given?]
  · simp [same, held name]

theorem enter_all_tabulates (after : List (String × Span)) (table : Std.HashMap String (List Span))
    (before : List (String × Span)) (held : Tabulates table before) :
    Tabulates (after.foldl enterPlace table) (before ++ after) := by
  induction after generalizing table before with
  | nil => simpa using held
  | cons occurrence rest ih =>
      have further := ih (enterPlace table occurrence) (before ++ [occurrence])
        (enter_tabulates table before held occurrence)
      rwa [List.append_assoc] at further

theorem places_by_name_iff (facts : Facts) (name : String) (spans : List Span) :
    facts.placesByName[name]? = some spans ↔ spans = facts.occurrencesOf name ∧ spans ≠ [] := by
  have given := enter_all_tabulates facts.occurrences ∅ [] empty_tabulates name
  rw [List.nil_append, given?, ← occurrences_of_eq] at given
  rw [placesByName, given]
  split
  next none => simp [none]
  next some =>
      rw [Option.some.injEq]
      exact ⟨fun same => ⟨same.symm, same ▸ some⟩, fun same => same.1.symm⟩

theorem occurrences_of_iff (facts : Facts) (name : String) (span : Span) :
    span ∈ facts.occurrencesOf name ↔ (name, span) ∈ facts.occurrences := by
  simp [occurrencesOf]

theorem find_name_iff {α : Type} (items : List (String × α)) (reaches : α → Bool) (name : String)
    (unique : ∀ a ∈ items, ∀ b ∈ items, reaches a.2 = true → reaches b.2 = true → a.1 = b.1) :
    (items.find? fun item => reaches item.2).map Prod.fst = some name ↔ ∃ item, (name, item) ∈
      items ∧ reaches item = true := by
  constructor
  · intro found
    obtain ⟨⟨_, item⟩, first, rfl⟩ := Option.map_eq_some_iff.mp found
    have covers := List.find?_some first
    exact ⟨item, List.mem_of_find?_eq_some first, covers⟩
  · rintro ⟨item, member, covers⟩
    cases found : items.find? fun item => reaches item.2 with
    | none => exact absurd covers (List.find?_eq_none.mp found (name, item) member)
    | some first =>
        have here := List.find?_some found
        rw [Option.map_some, unique first (List.mem_of_find?_eq_some found) (name, item) member
          here covers]

theorem name_at_iff (facts : Facts) (offset : Nat)
    (unique : ∀ name other, facts.Covers name offset → facts.Covers other offset → name = other)
    (name : String) :
    facts.nameAt? offset = some name ↔ facts.Covers name offset := by
  rw [nameAt?, find_name_iff facts.occurrences (fun span => span.contains offset) name]
  · simp only [Covers, occurrences_of_iff]
  · intro a inA b inB overA overB
    exact unique a.1 b.1 ⟨a.2, (occurrences_of_iff facts a.1 a.2).mpr inA, overA⟩
      ⟨b.2, (occurrences_of_iff facts b.1 b.2).mpr inB, overB⟩

theorem entries_iff (facts : Facts) (entries : List (String × List Span))
    (listed : entries.Perm facts.placesByName.toList) (name : String) (spans : List Span) :
    (name, spans) ∈ entries ↔ spans = facts.occurrencesOf name ∧ spans ≠ [] := by
  rw [listed.mem_iff, Std.HashMap.mem_toList_iff_getElem?_eq_some, places_by_name_iff]

theorem entry_covers_iff (facts : Facts) (entries : List (String × List Span))
    (listed : entries.Perm facts.placesByName.toList) (name : String) (offset : Nat) :
    (∃ spans, (name, spans) ∈ entries ∧ (spans.any fun span => span.contains offset) = true) ↔
    facts.Covers name offset := by
  simp only [entries_iff facts entries listed, List.any_eq_true]
  constructor
  · rintro ⟨_, ⟨rfl, -⟩, covers⟩
    exact covers
  · rintro ⟨span, member, covers⟩
    exact ⟨_, ⟨rfl, List.ne_nil_of_mem member⟩, span, member, covers⟩

theorem any_order_iff (facts : Facts) (offset : Nat) :
    (∀ entries : List (String × List Span), entries.Perm facts.placesByName.toList →
      nameAmong entries offset = facts.nameAt? offset) ↔
        ∀ name other, facts.Covers name offset → facts.Covers other offset → name = other := by
  constructor
  · intro fixed
    -- Each of two names could stand first.
    have first (name : String) (covers : facts.Covers name offset) :
        facts.nameAt? offset = some name := by
      obtain ⟨spans, member, reaches⟩ := (entry_covers_iff facts _ (.refl _) name offset).mpr covers
      rw [← fixed _ (List.perm_cons_erase member).symm, nameAmong, List.find?_cons_of_pos
        (by exact reaches), Option.map_some]
    intro name other covers covered
    exact Option.some.inj ((first name covers).symm.trans (first other covered))
  · intro unique entries listed
    ext name
    have covers := entry_covers_iff facts entries listed
    rw [name_at_iff facts offset unique, nameAmong,
      find_name_iff entries (fun spans => spans.any fun span => span.contains offset), covers]
    intro a inA b inB overA overB
    exact unique a.1 b.1 ((covers a.1 offset).mp ⟨a.2, inA, overA⟩)
      ((covers b.1 offset).mp ⟨b.2, inB, overB⟩)

theorem occurrences_apart (source : String) (tree : Tree) (sequenced : tree.Sequenced)
    (alone : tree.NamesAlone) :
    (ofTree source tree).occurrences.Pairwise fun a b => a.2.stop ≤ b.2.start := by
  refine List.pairwise_filterMap.mpr
    ((List.pairwise_filter.mp (Tree.names_follow tree sequenced alone)).imp ?_)
  rintro early late follow ⟨_, _⟩ found ⟨_, _⟩ again
  obtain ⟨isName, -, rfl⟩ := (Tree.occurrence_iff source early _ _).mp found
  obtain ⟨isName', -, rfl⟩ := (Tree.occurrence_iff source late _ _).mp again
  exact follow isName isName'

theorem covers_unique (facts : Facts)
    (apart : facts.occurrences.Pairwise fun a b => a.2.stop ≤ b.2.start) (offset : Nat)
    (name other : String) (covers : facts.Covers name offset)
    (covered : facts.Covers other offset) :
    name = other := by
  obtain ⟨span, member, reaches⟩ := covers
  obtain ⟨twin, listed, again⟩ := covered
  have same : facts.occurrences.Pairwise fun a b => a.2.contains offset = true →
      b.2.contains offset = true → a.1 = b.1 := by
    refine apart.imp fun {a b} before overA overB => ?_
    simp only [Span.contains, Bool.and_eq_true, decide_eq_true_eq] at overA overB
    omega
  have : Std.Symm fun a b : String × Span => a.2.contains offset = true →
      b.2.contains offset = true → a.1 = b.1 :=
    ⟨fun _ _ agree overB overA => (agree overA overB).symm⟩
  exact same.forall_of_forall (fun _ _ _ _ => rfl) ((occurrences_of_iff facts name span).mp member)
    ((occurrences_of_iff facts other twin).mp listed) reaches again

theorem count_of_apart (spans : List Span) (apart : spans.Pairwise fun a b => a.stop ≤ b.start)
    (span : Span) (member : span ∈ spans) (filled : span.start < span.stop) :
    spans.count span = 1 := by
  have twins := apart.sublist (List.replicate_sublist_iff.mpr (Nat.le_refl (spans.count span)))
  have most := (List.pairwise_replicate.mp twins).resolve_right (by omega)
  have least := List.count_pos_iff.mpr member
  omega

-- How certain the names are that a table of places tells. The places of all names lie apart, in the
-- order of the text, and each is recorded once, under what is written there; places that take up no
-- text are told apart by where their nodes stand. So one name at most is over an offset, in
-- whichever order the entries of the table are gone through.
structure TellsNames (source : String) (tree : Tree) (facts : Facts) : Prop where
  apart : facts.occurrences.Pairwise fun a b => a.2.stop ≤ b.2.start
  ordered : ∀ name, (facts.occurrencesOf name).Pairwise fun a b => a.stop ≤ b.start
  spelled : ∀ name, ∀ span ∈ facts.occurrencesOf name, Text.under source span = name
  once : ∀ name, ∀ span ∈ facts.occurrencesOf name, span.start < span.stop →
      (facts.occurrences.map Prod.snd).count span = 1
  everywhere : ∀ name, ∃ places : List (List Nat), places.Nodup ∧
      (∀ place, place ∈ places ↔ tree.OccursAt source name place) ∧
    places.map (fun place => (tree.at? place).map Tree.span) = (facts.occurrencesOf name).map some
  table : ∀ name spans, facts.placesByName[name]? = some spans ↔ spans = facts.occurrencesOf name ∧
      spans ≠ []
  unique : ∀ offset name other, facts.Covers name offset → facts.Covers other offset → name = other
  answer : ∀ offset name, facts.nameAt? offset = some name ↔ facts.Covers name offset
  anyOrder : ∀ offset (entries : List (String × List Span)),
      entries.Perm facts.placesByName.toList →
    nameAmong entries offset = facts.nameAt? offset

theorem tells_names (source : String) (tree : Tree)
    (apart : (ofTree source tree).occurrences.Pairwise fun a b => a.2.stop ≤ b.2.start) :
    TellsNames source tree (ofTree source tree) where
  apart := apart
  ordered name := List.pairwise_map.mpr (apart.filter _)
  spelled name span member := by
    obtain ⟨node, -, found⟩ := List.mem_filterMap.mp ((occurrences_of_iff _ name span).mp member)
    obtain ⟨-, rfl, rfl⟩ := (Tree.occurrence_iff source node name span).mp found
    rfl
  once name span member filled :=
    count_of_apart _ (List.pairwise_map.mpr apart) span
      (List.mem_map_of_mem (f := Prod.snd) ((occurrences_of_iff _ name span).mp member)) filled
  everywhere name := ⟨Tree.occurrencePlaces source tree name, Tree.occurrence_places_apart,
    Tree.occurrence_places_iff,
    Tree.occurrence_places_spans source tree name⟩
  table := places_by_name_iff _
  unique := covers_unique _ apart
  answer offset := name_at_iff _ offset (covers_unique _ apart offset)
  anyOrder offset := (any_order_iff _ offset).mpr (covers_unique _ apart offset)

-- The names of a tree are certain when its nodes follow each other and no name stands inside
-- another, and the tree of every file is of this kind.
theorem lookup_in_any_order :
    (∀ (source : String) (tree : Tree), tree.Sequenced → tree.NamesAlone →
      TellsNames source tree (ofTree source tree)) ∧
      ∀ m : SourceModule, m.tree.Sequenced ∧ m.tree.NamesAlone ∧
        TellsNames m.text m.tree (extract m) := by
  refine ⟨fun source tree sequenced alone => tells_names source tree
    (occurrences_apart source tree sequenced alone), fun m => ?_⟩
  have sequenced := Tree.sequenced_of_laid_out m.tree m.laidOut
  have alone := Tree.names_alone_of_laid_out m.tree m.laidOut
  exact ⟨sequenced, alone, tells_names m.text m.tree
    (occurrences_apart m.text m.tree sequenced alone)⟩

def crowded :
    String :=
  "type T = \x7b é: string \x7d;\nexport let \x7b a, b: é \x7d: T = \x7b a, é \x7d;\né.a;\n"

theorem crowded_in_any_order :
    ∃ m, (SourceModule.parse ⟨"/a.ts"⟩ crowded).toOption = some m ∧ m.tree.Sequenced ∧
      m.tree.NamesAlone ∧
      ∀ entries : List (String × List Span), entries.Perm (extract m).placesByName.toList →
        [5, 37, 38, 44, 45, 50, 56, 60, 66, 67].map (nameAmong entries) =
          [some "T", none, some "a", some "é", some "é", some "T", some "a", some "é", some "é",
            none] := by
  have known : (SourceModule.parse ⟨"/a.ts"⟩ crowded).toOption.map (fun m =>
      [5, 37, 38, 44, 45, 50, 56, 60, 66, 67].map (extract m).nameAt?) =
        some [some "T", none, some "a", some "é", some "é", some "T", some "a", some "é", some "é",
          none] := by
    decide +kernel
  obtain ⟨m, parsed, names⟩ := Option.map_eq_some_iff.mp known
  have sequenced := Tree.sequenced_of_laid_out m.tree m.laidOut
  have alone := Tree.names_alone_of_laid_out m.tree m.laidOut
  refine ⟨m, parsed, sequenced, alone, fun entries listed => ?_⟩
  rw [← names]
  exact List.map_congr_left fun offset _ =>
    (lookup_in_any_order.1 m.text m.tree sequenced alone).anyOrder offset entries listed

end Facts
end DeadExports
