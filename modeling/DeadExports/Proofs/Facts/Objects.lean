import DeadExports.Proofs.Project.Mentions
import Mathlib.Data.List.Nodup
import Mathlib.Data.List.Perm.Subperm

set_option autoImplicit false

namespace DeadExports

namespace Tree

def at? : Tree → List Nat → Option Tree
  | tree, [] => some tree
  | tree, index :: rest => if tree.kind.isClosed then none else tree.children[index]?.bind
      fun child => child.at? rest

mutual
def located : Tree → List (List Nat × Tree)
  | node role kind span children =>
    ([], node role kind span children) :: (if kind.isClosed then [] else locatedFrom 0 children)

def locatedFrom : Nat → List Tree → List (List Nat × Tree)
  | _, [] => []
  | index, tree :: rest =>
    (located tree).map (fun found => (index :: found.1, found.2)) ++ locatedFrom (index + 1) rest
end

mutual
theorem located_nodes : ∀ tree : Tree, tree.located.map Prod.snd = tree.visited
  | node role kind span children => by
      rw [located, visited, List.map_cons]
      cases kind.isClosed with
      | true => rfl
      | false => exact congrArg _ (located_from_nodes 0 children)

theorem located_from_nodes (index : Nat) :
    ∀ children : List Tree, (locatedFrom index children).map Prod.snd = visitedAll children
  | [] => rfl
  | tree :: rest => by
      rw [locatedFrom, visitedAll, List.map_append, List.map_map, located_from_nodes
        (index + 1) rest, ← located_nodes tree]
      rfl
end

mutual
theorem located_iff (place : List Nat) (part : Tree) : ∀ tree : Tree,
    (place, part) ∈ tree.located ↔ tree.at? place = some part
  | node role kind span children => by
      rw [located, List.mem_cons]
      cases place with
      | nil =>
          have further : ([], part) ∉ (if kind.isClosed then [] else locatedFrom 0 children) := by
            intro member
            split at member
            · cases member
            · obtain ⟨_, _, _, place, _⟩ := (located_from_iff [] part 0 children).mp member
              cases place
          rw [at?, or_iff_left further, Prod.mk.injEq, Option.some.injEq]
          exact ⟨fun same => same.2.symm, fun same => ⟨rfl, same.symm⟩⟩
      | cons index rest =>
          change _ ↔ (if kind.isClosed then none else children[index]?.bind fun child =>
            child.at? rest) = some part
          cases kind.isClosed with
          | true => simp
          | false =>
              simp [located_from_iff (index :: rest) part 0 children,
                Option.bind_eq_some_iff]

theorem located_from_iff (place : List Nat) (part : Tree) (index : Nat) : ∀ trees : List Tree,
    (place, part) ∈ locatedFrom index trees ↔ ∃ offset rest child,
      place = (index + offset) :: rest ∧
      trees[offset]? = some child ∧ child.at? rest = some part
  | [] => by simp [locatedFrom]
  | tree :: others => by
      rw [locatedFrom, List.mem_append, located_from_iff place part (index + 1) others]
      constructor
      · rintro (here | ⟨offset, rest, child, rfl, found, stands⟩)
        · obtain ⟨⟨rest, node⟩, member, same⟩ := List.mem_map.mp here
          obtain ⟨rfl, rfl⟩ := Prod.mk.inj same
          exact ⟨0, rest, tree, rfl, rfl, (located_iff rest node tree).mp member⟩
        · exact ⟨offset + 1, rest, child, by rw [Nat.add_assoc, Nat.add_comm 1], found, stands⟩
      · rintro ⟨offset, rest, child, rfl, found, stands⟩
        cases offset with
        | zero =>
            obtain rfl : tree = child := by simpa using found
            exact .inl (List.mem_map.mpr
              ⟨(rest, part), (located_iff rest part tree).mpr stands, rfl⟩)
        | succ offset =>
            exact .inr
              ⟨offset, rest, child,
              by rw [Nat.add_assoc, Nat.add_comm 1], by simpa using found, stands⟩
end

mutual
theorem located_apart : ∀ tree : Tree, (tree.located.map Prod.fst).Nodup
  | node role kind span children => by
      rw [located, List.map_cons, List.nodup_cons]
      cases kind.isClosed with
      | true => simp
      | false =>
          refine ⟨fun member => ?_, located_from_apart 0 children⟩
          obtain ⟨⟨place, part⟩, further, same⟩ := List.mem_map.mp member
          obtain ⟨_, _, _, place, _⟩ := (located_from_iff _ part 0 children).mp further
          cases same
          cases place

theorem located_from_apart (index : Nat) :
    ∀ trees : List Tree, ((locatedFrom index trees).map Prod.fst).Nodup
  | [] => List.nodup_nil
  | tree :: others => by
      rw [locatedFrom, List.map_append, List.map_map, List.nodup_append']
      refine ⟨?_, located_from_apart (index + 1) others, ?_⟩
      · have inside := (located_apart tree).map (List.cons_injective (a := index))
        rwa [List.map_map] at inside
      · intro place here later
        obtain ⟨found, -, rfl⟩ := List.mem_map.mp here
        obtain ⟨⟨place, part⟩, member, same⟩ := List.mem_map.mp later
        obtain ⟨offset, _, _, head, -⟩ := (located_from_iff place part (index + 1) others).mp member
        rw [head] at same
        have := (List.cons.inj same).1
        omega
end

def objectIndex? (tree : Tree) : Option Nat :=
  match tree.kind with
  | .memberExpression => tree.children.findIdx? fun child => child.role? == some .object
  | .nestedTypeIdentifier => tree.children.findIdx? fun child => child.role? == some .qualifier
  | _ => none

theorem member_at_object (source : String) (tree : Tree) (first second : Role)
    (access : MemberAccess) (found : tree.memberAt? source first second = some access) :
    ∃ index child, (tree.children.findIdx? fun child => child.role? == some first) = some index ∧
      tree.children[index]? = some child ∧ child.occurrence? source =
        some (access.object, child.span) := by
  rw [memberAt?] at found
  cases left : tree.childInRole? first with
  | none => simp [left] at found
  | some object =>
      cases right : tree.childInRole? second with
      | none => simp [left, right] at found
      | some property =>
          rw [left, right] at found
          dsimp only at found
          split at found
          next named =>
              rw [childInRole?, List.find?_eq_bind_findIdx?_getElem?] at left
              obtain ⟨index, place, child⟩ := Option.bind_eq_some_iff.mp left
              cases found
              rw [beq_iff_eq] at named
              exact ⟨index, object, place, child, by simp [occurrence?, named, Kind.isName]⟩
          next => cases found

theorem member_object (source : String) (tree : Tree) (access : MemberAccess)
    (found : tree.member? source = some access) :
    tree.kind.isClosed = false ∧ ∃ index child, tree.objectIndex? = some index ∧
      tree.children[index]? = some child ∧
      child.occurrence? source = some (access.object, child.span) := by
  rw [member?] at found
  rw [objectIndex?]
  split at found
  next kind =>
      rw [kind]
      exact ⟨rfl, member_at_object source tree .object .property access found⟩
  next kind =>
      rw [kind]
      exact ⟨rfl, member_at_object source tree .qualifier .name access found⟩
  next => cases found

def OccursAt (source : String) (tree : Tree) (name : String) (place : List Nat) : Prop :=
  ∃ part span, tree.at? place = some part ∧ part.occurrence? source = some (name, span)

def IsObjectAt (source : String) (tree : Tree) (place : List Nat) : Prop :=
  ∃ outer index part access, place = outer ++ [index] ∧ tree.at? outer = some part ∧
    part.member? source = some access ∧ part.objectIndex? = some index

theorem at_snoc (outer : List Nat) (index : Nat) : ∀ tree : Tree, tree.at? (outer ++ [index]) =
    (tree.at? outer).bind fun part => if part.kind.isClosed then none
      else part.children[index]? := by
  induction outer with
  | nil =>
      intro tree
      rw [List.nil_append, at?, at?, Option.bind_some]
      simp only [at?]
      cases tree.children[index]? <;> rfl
  | cons first rest ih =>
      intro tree
      rw [List.cons_append, at?, at?]
      split
      · rfl
      · rw [Option.bind_assoc]
        simp only [ih]

def occurrencePlaces (source : String) (tree : Tree) (name : String) : List (List Nat) :=
  (tree.located.filter fun found => (found.2.occurrence? source).any fun occurrence =>
    occurrence.1 == name).map Prod.fst

def objectPlace? (source name : String) (found : List Nat × Tree) : Option (List Nat) :=
  if (found.2.member? source).any fun access => access.object == name then
    found.2.objectIndex?.map fun index => found.1 ++ [index]
  else none

def objectPlaces (source : String) (tree : Tree) (name : String) : List (List Nat) :=
  tree.located.filterMap (objectPlace? source name)

variable {source : String} {tree : Tree} {name : String}

theorem object_place_iff (outer place : List Nat) (part : Tree) :
    objectPlace? source name (outer, part) = some place ↔ ∃ index access, place = outer ++ [index] ∧
      part.member? source = some access ∧ access.object = name ∧ part.objectIndex? =
        some index := by
  rw [objectPlace?]
  cases part.member? source with
  | none => simp
  | some access =>
      by_cases named : access.object = name
      · simp only [Option.any_some, beq_iff_eq, named, if_true, Option.map_eq_some_iff,
          Option.some.injEq]
        constructor
        · rintro ⟨index, found, rfl⟩
          exact ⟨index, access, rfl, rfl, named, found⟩
        · rintro ⟨index, _, rfl, _, _, found⟩
          exact ⟨index, found, rfl⟩
      · simp [named]

theorem occurrence_places_iff (place : List Nat) :
    place ∈ occurrencePlaces source tree name ↔ tree.OccursAt source name place := by
  simp only [occurrencePlaces, OccursAt, List.mem_map, List.mem_filter, Prod.exists, located_iff,
    Option.any_eq_true, beq_iff_eq]
  constructor
  · rintro ⟨_, part, ⟨stands, _, span, occurs, rfl⟩, rfl⟩
    exact ⟨part, span, stands, occurs⟩
  · rintro ⟨part, span, stands, occurs⟩
    exact ⟨place, part, ⟨stands, name, span, occurs, rfl⟩, rfl⟩

theorem occurs_at_object (outer : List Nat) (index : Nat) (part : Tree) (access : MemberAccess)
    (stands : tree.at? outer = some part) (found : part.member? source = some access)
    (place : part.objectIndex? = some index) :
    tree.OccursAt source access.object (outer ++ [index]) := by
  obtain ⟨isOpen, other, child, here, listed, occurs⟩ := member_object source part access found
  obtain rfl := Option.some.inj (place.symm.trans here)
  refine ⟨child, child.span, ?_, occurs⟩
  rw [at_snoc, stands, Option.bind_some, isOpen, if_neg Bool.false_ne_true, listed]

theorem object_places_iff (place : List Nat) :
    place ∈ objectPlaces source tree name ↔ tree.OccursAt source name place ∧
    tree.IsObjectAt source place := by
  simp only [objectPlaces, List.mem_filterMap, Prod.exists, located_iff, object_place_iff]
  constructor
  · rintro ⟨outer, part, stands, index, access, rfl, found, rfl, object⟩
    exact ⟨occurs_at_object outer index part access stands found object, outer, index, part, access,
      rfl, stands, found, object⟩
  · rintro ⟨⟨child, span, here, occurs⟩, outer, index, part, access, rfl, stands, found, object⟩
    obtain ⟨other, _, again, named⟩ := occurs_at_object outer index part access stands found object
    obtain rfl := Option.some.inj (here.symm.trans again)
    obtain ⟨rfl, -⟩ := Prod.mk.inj (Option.some.inj (named.symm.trans occurs))
    exact ⟨outer, part, stands, index, access, rfl, found, rfl, object⟩

theorem occurrence_places_length :
    (occurrencePlaces source tree name).length =
      ((Facts.ofTree source tree).occurrencesOf name).length := by
  rw [occurrencePlaces, Facts.occurrencesOf, List.length_map, List.length_map,
    ← List.countP_eq_length_filter, ← List.countP_eq_length_filter, Facts.ofTree, ← located_nodes,
    List.countP_filterMap, List.countP_map]
  congr 1
  funext found
  cases occurs : found.2.occurrence? source <;> simp [occurs]

theorem object_places_length :
    (objectPlaces source tree name).length =
      ((Facts.ofTree source tree).members.filter fun access => access.object == name).length := by
  rw [objectPlaces, List.length_filterMap_eq_countP, ← List.countP_eq_length_filter, Facts.ofTree,
    ← located_nodes, List.countP_filterMap, List.countP_map]
  congr 1
  funext found
  rw [objectPlace?]
  cases taken : found.2.member? source with
  | none => simp [taken]
  | some access =>
      obtain ⟨-, index, _, place, -⟩ := member_object source found.2 access taken
      by_cases named : access.object = name <;> simp [taken, place, named]

theorem occurrence_places_apart : (occurrencePlaces source tree name).Nodup :=
  (located_apart tree).sublist (List.filter_sublist.map Prod.fst)

theorem object_places_apart : (objectPlaces source tree name).Nodup := by
  rw [List.Nodup, objectPlaces, List.pairwise_filterMap]
  refine (List.pairwise_map.mp (located_apart tree)).imp ?_
  rintro ⟨outer, part⟩ ⟨other, twin⟩ apart place found again same rfl
  obtain ⟨_, _, rfl, _⟩ := (object_place_iff outer place part).mp found
  obtain ⟨_, _, equal, _⟩ := (object_place_iff other _ twin).mp same
  exact apart (List.append_inj_left' equal rfl)

-- Different accesses have different objects, and each of these is an occurrence: there are as many
-- accesses as occurrences just when no occurrence is left over.
theorem objects_length_iff (source : String) (tree : Tree) (name : String) :
    (objectPlaces source tree name).length ≤ (occurrencePlaces source tree name).length ∧
      ((objectPlaces source tree name).length = (occurrencePlaces source tree name).length ↔
        ∀ place, tree.OccursAt source name place → tree.IsObjectAt source place) := by
  have within : objectPlaces source tree name ⊆ occurrencePlaces source tree name :=
    fun place member =>
    (occurrence_places_iff place).mpr ((object_places_iff place).mp member).1
  have subperm := List.subperm_of_subset object_places_apart within
  refine ⟨subperm.length_le, fun equal place occurs => ?_, fun every => ?_⟩
  · have perm := subperm.perm_of_length_le (Nat.le_of_eq equal.symm)
    exact ((object_places_iff place).mp
      (perm.mem_iff.mpr ((occurrence_places_iff place).mpr occurs))).2
  · have back : occurrencePlaces source tree name ⊆ objectPlaces source tree name :=
      fun place member =>
      have occurs := (occurrence_places_iff place).mp member
      (object_places_iff place).mpr ⟨occurs, every place occurs⟩
    exact Nat.le_antisymm subperm.length_le
      (List.subperm_of_subset occurrence_places_apart back).length_le

end Tree

namespace Project

theorem escapes_places (source : String) (tree : Tree) (binding : ImportBinding) :
    Escapes (Facts.ofTree source tree) binding ↔
      (∃ given ∈ (Facts.ofTree source tree).exports, given.origin = .own binding.bound) ∨
        ∃ place, tree.OccursAt source binding.bound place ∧ ¬ tree.IsObjectAt source place := by
  obtain ⟨most, equal⟩ := Tree.objects_length_iff source tree binding.bound
  rw [Escapes, List.countP_eq_length_filter, ← Tree.object_places_length,
    ← Tree.occurrence_places_length, or_comm, Nat.lt_iff_le_and_ne, and_iff_right most, Ne, equal]
  simp only [not_forall, exists_prop]

def memberSpans (facts : Facts) (name : String) (binding : ImportBinding) : List Span :=
  (facts.members.filter fun access => access.property == name && access.object == binding.bound).map
    MemberAccess.span

theorem everything_spans_cases (facts : Facts) (name : String) (binding : ImportBinding) :
    (everythingSpans facts name binding = binding.span :: memberSpans facts name binding ↔
      Escapes facts binding) ∧
      (everythingSpans facts name binding = memberSpans facts name binding ↔
        ¬ Escapes facts binding) := by
  rw [everythingSpans, ← escapes_iff, List.filter_filter, ← memberSpans]
  split
  next escapes => simp [escapes]
  next stays => simp [stays]

end Project

namespace Facts

-- No name has more accesses than occurrences, and it has as many just when each occurrence is the
-- object of an access. So an import of everything counts as a use just when its name is given out,
-- or occurs other than as such an object.
theorem accesses_tell_escape (source : String) (tree : Tree) :
    (∀ name : String,
      ((ofTree source tree).members.filter fun access => access.object == name).length ≤
        ((ofTree source tree).occurrencesOf name).length ∧
      (((ofTree source tree).members.filter fun access => access.object == name).length =
        ((ofTree source tree).occurrencesOf name).length ↔
          ∀ place, tree.OccursAt source name place → tree.IsObjectAt source place)) ∧
    ∀ (binding : ImportBinding) (name : String),
      let escapes := (∃ given ∈ (ofTree source tree).exports, given.origin = .own binding.bound) ∨
        ∃ place, tree.OccursAt source binding.bound place ∧ ¬ tree.IsObjectAt source place
      let members := Project.memberSpans (ofTree source tree) name binding
      (Project.everythingSpans (ofTree source tree) name binding = binding.span :: members ↔
        escapes) ∧
        (Project.everythingSpans (ofTree source tree) name binding = members ↔ ¬ escapes) := by
  refine ⟨fun name => ?_, fun binding name => ?_⟩
  · rw [← Tree.object_places_length, ← Tree.occurrence_places_length]
    exact Tree.objects_length_iff source tree name
  · rw [← Project.escapes_places]
    exact Project.everything_spans_cases (ofTree source tree) name binding

end Facts
end DeadExports
