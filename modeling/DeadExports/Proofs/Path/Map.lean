import DeadExports.Path.Map
import DeadExports.Proofs.Path.Order

set_option autoImplicit false

namespace DeadExports.PathMap

variable {α : Type}

def Sorted (map : PathMap α) : Prop :=
  map.entries.Pairwise fun a b => a.1.compare b.1 = .lt

def content (map : PathMap α) : List (List Part × α) :=
  map.entries.map fun entry => (entry.1.parts, entry.2)

theorem get_congr (map : PathMap α) (a b : Path) (same : a.parts = b.parts) :
    map.get? a = map.get? b := by
  have alike : (fun entry : Path × α => entry.1 == a) = fun entry => entry.1 == b := by
    funext entry
    simp only [Path.same_eq_decide, same]
  simp only [get?, alike]

theorem contains_eq (map : PathMap α) (path : Path) :
    map.contains path = (map.get? path).isSome := by
  rw [Bool.eq_iff_iff]
  simp [contains, get?]

theorem contains_congr (map : PathMap α) (a b : Path) (same : a.parts = b.parts) :
    map.contains a = map.contains b := by
  rw [contains_eq, contains_eq, get_congr map a b same]

theorem contains_iff_key (map : PathMap α) (path : Path) :
    map.contains path = true ↔ ∃ key ∈ map.keys, key.parts = path.parts := by
  simp [contains, keys, Path.same_iff]

theorem get_put (path query : Path) (value : α) (entries : List (Path × α)) :
    ((putEntry path value entries).find? fun entry => entry.1 == query).map Prod.snd =
      if path == query then some value
      else (entries.find? fun entry => entry.1 == query).map Prod.snd := by
  induction entries with
  | nil => by_cases hit : path == query <;> simp [putEntry, hit]
  | cons entry rest ih =>
      obtain ⟨key, old⟩ := entry
      cases order : path.compare key with
      | lt => by_cases hit : path == query <;> simp [putEntry, order, List.find?_cons, hit]
      | eq =>
          have same := (Path.compare_same_iff path key).mp order
          have alike : (key == query) = (path == query) := by simp only [Path.same_eq_decide, same]
          by_cases hit : path == query <;> simp [putEntry, order, alike, hit]
      | gt =>
          rw [Path.compare_gt_iff] at order
          by_cases here : key == query
          · have apart : (path == query) = false := by
              rw [Path.same_iff] at here
              rw [Path.same_eq_decide, ← here, ← Path.same_eq_decide, BEq.comm]
              exact Path.not_same_of_lt key path order
            rw [← Path.compare_gt_iff] at order
            simp [putEntry, order, here, apart]
          · rw [← Path.compare_gt_iff] at order
            simpa [putEntry, order, List.find?_cons, here] using ih

theorem get_insert (map : PathMap α) (path query : Path) (value : α) :
    (map.insert path value).get? query = if path == query then some value else map.get? query :=
  get_put path query value map.entries

theorem mem_put (path : Path) (value : α) (entries : List (Path × α)) (entry : Path × α)
    (member : entry ∈ putEntry path value entries) :
    entry ∈ entries ∨ entry.1.parts = path.parts := by
  induction entries with
  | nil => simp_all [putEntry]
  | cons first rest ih =>
      obtain ⟨key, old⟩ := first
      rw [putEntry] at member
      cases order : path.compare key with
      | lt =>
          rw [order] at member
          rcases List.mem_cons.mp member with rfl | member
          · exact .inr rfl
          · exact .inl member
      | eq =>
          rw [order] at member
          rcases List.mem_cons.mp member with rfl | member
          · exact .inr ((Path.compare_same_iff path key).mp order).symm
          · exact .inl (List.mem_cons_of_mem _ member)
      | gt =>
          rw [order] at member
          rcases List.mem_cons.mp member with rfl | member
          · exact .inl List.mem_cons_self
          · exact (ih member).imp_left (List.mem_cons_of_mem _)

theorem put_sorted (path : Path) (value : α) (entries : List (Path × α))
    (sorted : entries.Pairwise fun a b => a.1.compare b.1 = .lt) :
    (putEntry path value entries).Pairwise fun a b => a.1.compare b.1 = .lt := by
  induction entries with
  | nil => simp [putEntry]
  | cons first rest ih =>
      obtain ⟨key, old⟩ := first
      rw [List.pairwise_cons] at sorted
      rw [putEntry]
      cases order : path.compare key with
      | lt =>
          refine List.pairwise_cons.mpr ⟨?_, List.pairwise_cons.mpr sorted⟩
          intro later member
          rcases List.mem_cons.mp member with rfl | member
          · exact order
          · exact Path.compare_lt_trans _ _ _ order (sorted.1 later member)
      | eq => exact List.pairwise_cons.mpr sorted
      | gt =>
          refine List.pairwise_cons.mpr ⟨?_, ih sorted.2⟩
          intro later member
          rcases mem_put path value rest later member with old | fresh
          · exact sorted.1 later old
          · rw [Path.compare_congr key key later.1 path rfl fresh]
            exact (Path.compare_gt_iff path key).mp order

theorem insert_sorted (map : PathMap α) (path : Path) (value : α) (sorted : map.Sorted) :
    (map.insert path value).Sorted := put_sorted path value map.entries sorted

theorem empty_sorted : (empty : PathMap α).Sorted := List.Pairwise.nil

theorem filter_sorted (map : PathMap α) (keep : Path → Bool) (sorted : map.Sorted) :
    (map.filter keep).Sorted := List.Pairwise.filter _ sorted

theorem get_filter (map : PathMap α) (keep : Path → Bool) (path : Path)
    (stable : ∀ a b : Path, a.parts = b.parts → keep a = keep b) :
    (map.filter keep).get? path = if keep path then map.get? path else none := by
  have moved : ∀ entry : Path × α,
      (keep entry.1 && entry.1 == path) = (keep path && entry.1 == path) := by
    intro entry
    by_cases hit : entry.1 == path
    · rw [stable entry.1 path ((Path.same_iff _ _).mp hit)]
    · simp [hit]
  cases kept : keep path <;> simp [get?, filter, List.find?_filter, moved, kept]

theorem get_erase (map : PathMap α) (path query : Path) :
    (map.erase path).get? query = if path == query then none else map.get? query := by
  have filtered := get_filter map (fun key => !(key == path)) query
    (by intro a b same; simp only [Path.same_eq_decide, same])
  rw [BEq.comm]
  change (map.filter fun key => !(key == path)).get? query = _
  cases hit : query == path <;> simpa [hit] using filtered

theorem mem_of_get (map : PathMap α) (path : Path) (value : α)
    (found : map.get? path = some value) :
    ∃ key, (key, value) ∈ map.entries ∧ key.parts = path.parts := by
  obtain ⟨entry, hit, rfl⟩ := Option.map_eq_some_iff.mp found
  exact ⟨entry.1, List.mem_of_find?_eq_some hit, (Path.same_iff _ _).mp
    (by simpa using List.find?_some hit)⟩

theorem get_head (key : Path) (value : α) (rest : List (Path × α)) :
    (⟨(key, value) :: rest⟩ : PathMap α).get? key = some value := by
  simp [get?]

theorem get_tail (first : Path × α) (rest : List (Path × α)) (path : Path)
    (apart : (first.1 == path) = false) :
    (⟨first :: rest⟩ : PathMap α).get? path = (⟨rest⟩ : PathMap α).get? path := by
  simp [get?, apart]

theorem head_le_of_get (a : Path × α) (as : List (Path × α)) (path : Path) (value : α)
    (sorted : (⟨a :: as⟩ : PathMap α).Sorted)
    (found : (⟨a :: as⟩ : PathMap α).get? path = some value) :
    a.1.compare path ≠ .gt := by
  obtain ⟨key, member, same⟩ := mem_of_get _ path value found
  rw [Path.compare_congr a.1 a.1 path key rfl same.symm]
  rcases List.mem_cons.mp member with rfl | member
  · simp [(Path.compare_same_iff key key).mpr rfl]
  · simp [(List.pairwise_cons.mp sorted).1 _ member]

theorem content_ext (a b : PathMap α) (sortedA : a.Sorted) (sortedB : b.Sorted)
    (alike : ∀ path, a.get? path = b.get? path) : a.content = b.content := by
  obtain ⟨as⟩ := a
  obtain ⟨bs⟩ := b
  induction as generalizing bs with
  | nil =>
      cases bs with
      | nil => rfl
      | cons first rest => simpa [get?] using alike first.1
  | cons first rest ih =>
      cases bs with
      | nil => simpa [get?] using alike first.1
      | cons other others =>
          have inB : (⟨other :: others⟩ : PathMap α).get? first.1 = some first.2 := by
            rw [← alike]
            exact get_head first.1 first.2 rest
          have inA : (⟨first :: rest⟩ : PathMap α).get? other.1 = some other.2 := by
            rw [alike]
            exact get_head other.1 other.2 others
          have same : first.1.parts = other.1.parts := by
            apply (Path.compare_same_iff _ _).mp
            have lower := head_le_of_get first rest other.1 other.2 sortedA inA
            have upper := head_le_of_get other others first.1 first.2 sortedB inB
            rw [ne_eq, Path.compare_gt_iff] at upper
            cases order : first.1.compare other.1 <;> simp_all
          have value : first.2 = other.2 := by
            rw [get_congr _ _ _ same, get_head] at inB
            exact (Option.some.inj inB).symm
          have tails : ∀ path, (⟨rest⟩ : PathMap α).get? path = (⟨others⟩ : PathMap α).get?
              path := by
            intro path
            have whole := alike path
            by_cases here : first.1 == path
            · have gone (head : Path × α) (tail : List (Path × α))
                (sorted : (⟨head :: tail⟩ : PathMap α).Sorted)
                  (hit : head.1.parts = path.parts) : (⟨tail⟩ : PathMap α).get? path = none := by
                rw [← get_congr _ _ _ hit]
                cases found : (⟨tail⟩ : PathMap α).get? head.1 with
                | none => rfl
                | some value =>
                    obtain ⟨key, member, equal⟩ := mem_of_get _ _ _ found
                    have less := (List.pairwise_cons.mp sorted).1 _ member
                    rw [(Path.compare_same_iff head.1 key).mpr equal.symm] at less
                    cases less
              rw [Path.same_iff] at here
              rw [gone first rest sortedA here, gone other others sortedB (same ▸ here)]
            · have there : (other.1 == path) = false := by
                rw [Path.same_eq_decide, ← same, ← Path.same_eq_decide]
                simpa using here
              rwa [get_tail _ _ _ (by simpa using here), get_tail _ _ _ there] at whole
          have rests := ih (List.pairwise_cons.mp sortedA).2 others
            (List.pairwise_cons.mp sortedB).2 tails
          simp only [content, List.map_cons] at rests ⊢
          rw [rests, same, value]

theorem size_content (map : PathMap α) : map.size = map.content.length := by
  simp [size, content]

theorem get_content (map : PathMap α) (path : Path) :
    map.get? path = (map.content.find? fun entry => decide (entry.1 = path.parts)).map
      Prod.snd := by
  have alike : (fun entry : Path × α => entry.1 == path) = fun entry =>
    decide (entry.1.parts = path.parts) := by
    funext entry
    exact Path.same_eq_decide entry.1 path
  rw [get?, content, List.find?_map, Option.map_map, alike]
  rfl

theorem filter_size (map : PathMap α) (keep : Path → Bool)
    (full : (map.filter keep).size = map.size) (path : Path) (value : α)
    (found : map.get? path = some value)
    (stable : ∀ a b : Path, a.parts = b.parts → keep a = keep b) : keep path = true := by
  obtain ⟨key, member, same⟩ := mem_of_get map path value found
  have every := List.length_filter_eq_length_iff.mp full
  rw [← stable key path same]
  exact every _ member

theorem insert_keys (map : PathMap α) (path key : Path) (value : α)
    (member : key ∈ (map.insert path value).keys) :
    key ∈ map.keys ∨ key = path := by
  obtain ⟨entries⟩ := map
  simp only [insert, keys] at member ⊢
  induction entries with
  | nil => exact .inr (by simpa [putEntry] using member)
  | cons first rest ih =>
      rw [putEntry] at member
      split at member
      next => simpa [or_comm] using member
      next => exact .inl (by simpa using member)
      next =>
          rcases List.mem_cons.mp member with rfl | later
          · exact .inl List.mem_cons_self
          · exact (ih later).imp_left (List.mem_cons_of_mem _)

theorem erase_keys (map : PathMap α) (path key : Path) (member : key ∈ (map.erase path).keys) :
    key ∈ map.keys ∧ key.parts ≠ path.parts := by
  obtain ⟨entry, kept, rfl⟩ := List.mem_map.mp member
  obtain ⟨old, other⟩ := List.mem_filter.mp kept
  refine ⟨List.mem_map_of_mem old, fun same => ?_⟩
  rw [(Path.same_iff _ _).mpr same] at other
  cases other

theorem of_list_get (entries : List (Path × α)) (path : Path) :
    (∃ entry ∈ entries, entry.1.parts = path.parts ∧ (ofList entries).get? path = some entry.2) ∨
      ((∀ entry ∈ entries, entry.1.parts ≠ path.parts) ∧ (ofList entries).get? path = none) := by
  have folded : ∀ (entries : List (Path × α)) (map : PathMap α),
      (∃ entry ∈ entries, entry.1.parts = path.parts ∧
        (entries.foldl (fun map entry => map.insert entry.1 entry.2) map).get? path =
        some entry.2) ∨
      ((∀ entry ∈ entries, entry.1.parts ≠ path.parts) ∧
        (entries.foldl (fun map entry => map.insert entry.1 entry.2) map).get? path =
        map.get? path) := by
    intro entries
    induction entries with
    | nil => exact fun map => .inr ⟨fun _ member => absurd member List.not_mem_nil, rfl⟩
    | cons first rest ih =>
        intro map
        rcases ih (map.insert first.1 first.2) with ⟨entry, member, same, found⟩ | ⟨others, found⟩
        · exact .inl ⟨entry, List.mem_cons_of_mem _ member, same, found⟩
        · rw [get_insert] at found
          by_cases same : first.1.parts = path.parts
          · rw [if_pos ((Path.same_iff _ _).mpr same)] at found
            exact .inl ⟨first, List.mem_cons_self, same, found⟩
          · rw [if_neg fun hit => same ((Path.same_iff _ _).mp hit)] at found
            refine .inr ⟨fun entry member => ?_, found⟩
            rcases List.mem_cons.mp member with rfl | later
            · exact same
            · exact others entry later
  exact folded entries empty

theorem of_list_contains (entries : List (Path × α)) (entry : Path × α) (member : entry ∈ entries) :
    (ofList entries).contains entry.1 = true := by
  rw [contains_eq]
  rcases of_list_get entries entry.1 with ⟨other, -, -, found⟩ | ⟨others, -⟩
  · rw [found]
    rfl
  · exact absurd rfl (others entry member)

theorem of_list_keys (entries : List (Path × α)) (key : Path)
    (member : key ∈ (ofList entries).keys) :
    key ∈ entries.map Prod.fst := by
  have folded : ∀ (entries : List (Path × α)) (map : PathMap α),
      key ∈ (entries.foldl (fun map entry => map.insert entry.1 entry.2) map).keys →
        key ∈ map.keys ∨ key ∈ entries.map Prod.fst := by
    intro entries
    induction entries with
    | nil => exact fun map member => .inl member
    | cons first rest ih =>
        intro map member
        rcases ih _ member with old | new
        · rcases map.insert_keys first.1 key first.2 old with known | rfl
          · exact .inl known
          · exact .inr List.mem_cons_self
        · exact .inr (List.mem_cons_of_mem _ new)
  rcases folded entries empty member with none | listed
  · cases none
  · exact listed

end DeadExports.PathMap
