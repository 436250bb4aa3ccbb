import DeadExports.Graph.Basic
import DeadExports.Proofs.Path.Map
import Mathlib.Data.List.Induction

set_option autoImplicit false

namespace DeadExports.ModuleGraph

def Linked (graph : ModuleGraph) (source target : Path) (kind : LinkKind) : Prop :=
  ∃ link ∈ graph.links, link.source.parts = source.parts ∧ link.target.parts = target.parts ∧
    link.kind = kind

theorem link_same_iff (a b : Link) :
    a.same b = true ↔ a.source.parts = b.source.parts ∧ a.target.parts = b.target.parts ∧
    a.kind = b.kind := by
  simp [Link.same, Path.same_iff, and_assoc]

theorem contains_iff (graph : ModuleGraph) (path : Path) :
    graph.contains path = true ↔ ∃ known ∈ graph.modules, known.parts = path.parts := by
  rw [contains, List.contains_iff_exists_mem_beq]
  simp only [Path.same_iff, @eq_comm _ path.parts]

theorem contains_add_module (graph : ModuleGraph) (added path : Path) :
    (graph.addModule added).contains path = true ↔ graph.contains path = true ∨
    added.parts = path.parts := by
  by_cases known : graph.contains added = true
  · rw [addModule, if_pos known]
    constructor
    · exact .inl
    · rintro (held | same)
      · exact held
      · rw [contains_iff] at known ⊢
        rwa [same] at known
  · rw [addModule, if_neg known]
    simp [contains_iff, or_and_right, exists_or]

theorem linked_add_module (graph : ModuleGraph) (added source target : Path) (kind : LinkKind) :
    (graph.addModule added).Linked source target kind ↔ graph.Linked source target kind := by
  rw [addModule]
  split <;> rfl

theorem contains_add_link (graph : ModuleGraph) (a b path : Path) (kind : LinkKind) :
    (graph.addLink a b kind).contains path = true ↔
      graph.contains path = true ∨ a.parts = path.parts ∨ b.parts = path.parts := by
  rw [← or_assoc, ← contains_add_module, ← contains_add_module, addLink]
  split <;> rfl

theorem linked_add_link (graph : ModuleGraph) (a b source target : Path) (kind other : LinkKind) :
    (graph.addLink a b kind).Linked source target other ↔
      graph.Linked source target other ∨ a.parts = source.parts ∧ b.parts = target.parts ∧
      kind = other := by
  rw [← linked_add_module graph a, ← linked_add_module (graph.addModule a) b, addLink]
  split
  next known =>
      constructor
      · exact .inl
      · rintro (held | ⟨left, right, rfl⟩)
        · exact held
        · obtain ⟨link, member, same⟩ := List.any_eq_true.mp known
          rw [link_same_iff] at same
          exact ⟨link, member, same.1.symm.trans left, same.2.1.symm.trans right, same.2.2.symm⟩
  next => simp [Linked, or_and_right, exists_or]

theorem remove_link_split (front : List Link) (link : Link) (rest : List Link) :
    ∃ later, removeLink (front ++ link :: rest) front.length = front ++ later ∧
      later.Perm rest := by
  rcases List.eq_nil_or_concat rest with rfl | ⟨middle, last, rfl⟩
  · exact ⟨[], by simp [removeLink], .nil⟩
  · have whole : front ++ link :: middle.concat last = (front ++ link :: middle) ++
      [last] := by simp
    have shorter : front.length < ((front ++ link :: middle) ++ [last]).length := by simp
    have set : ((front ++ link :: middle) ++ [last]).set front.length last = (front ++ last ::
      middle) ++ [last] := by simp
    refine ⟨last :: middle, ?_, ?_⟩
    · rw [removeLink, whole, List.getLast?_concat]
      dsimp only
      rw [if_pos shorter, set, List.dropLast_concat]
    · rw [List.concat_eq_append]
      exact (List.perm_append_singleton last middle).symm

theorem leaving_snoc (links : List Link) (link : Link) (path : Path) :
    leaving (links ++ [link]) path = (if link.source == path then [links.length] else []) ++
      leaving links path := by
  have before : ((List.range links.length).filter fun number =>
        (links ++ [link])[number]?.any fun link => link.source == path) =
      (List.range links.length).filter fun number => links[number]?.any fun link => link.source ==
          path := by
    refine List.filter_congr fun number member => ?_
    rw [List.getElem?_append_left (List.mem_range.mp member)]
  rw [leaving, leaving, List.length_append, List.length_singleton, List.range_succ,
    List.filter_append, before, List.reverse_append]
  congr 1
  cases here : link.source == path <;> simp [here]

-- Taken from the back, each link goes while all that leave `path` before it stand where they stood:
-- only links that stay are behind it, and one of these takes its place.
theorem removed_links (links rest : List Link) (path : Path)
    (stay : ∀ link ∈ rest, (link.source == path) = false) :
    ((leaving links path).foldl removeLink (links ++ rest)).Perm
      ((links.filter fun link => !(link.source == path)) ++ rest) := by
  induction links using List.reverseRecOn generalizing rest with
  | nil => exact .refl rest
  | append_singleton front link ih =>
      rw [leaving_snoc, List.append_assoc, List.singleton_append, List.filter_append]
      cases leaves : link.source == path with
      | false =>
          simpa [leaves] using ih (link :: rest) (by simpa [leaves] using stay)
      | true =>
          obtain ⟨later, removed, perm⟩ := remove_link_split front link rest
          rw [if_pos rfl, List.singleton_append, List.foldl_cons, removed]
          have further := ih later fun other member => stay other (perm.mem_iff.mp member)
          simpa [leaves] using further.trans (perm.append_left _)

theorem clear_links (graph : ModuleGraph) (path : Path) :
    (graph.clearDependencies path).links.Perm
      (graph.links.filter fun link => !(link.source == path)) := by
  have removed := removed_links graph.links [] path nofun
  rwa [List.append_nil, List.append_nil] at removed

theorem linked_clear (graph : ModuleGraph) (path source target : Path) (kind : LinkKind) :
    (graph.clearDependencies path).Linked source target kind ↔
      graph.Linked source target kind ∧ source.parts ≠ path.parts := by
  simp only [Linked, (clear_links graph path).mem_iff, List.mem_filter, Path.same_eq_decide,
    Bool.not_eq_true', decide_eq_false_iff_not]
  constructor
  · rintro ⟨link, ⟨member, apart⟩, same, rest⟩
    exact ⟨⟨link, member, same, rest⟩, same ▸ apart⟩
  · rintro ⟨⟨link, member, same, rest⟩, apart⟩
    exact ⟨link, ⟨member, same ▸ apart⟩, same, rest⟩

theorem spelled_parts (graph : ModuleGraph) (path : Path) :
    (graph.spelled path).parts = path.parts := by
  rw [spelled]
  cases found : graph.modules.find? (· == path) with
  | none => rfl
  | some known => exact (Path.same_iff known path).mp (by simpa using List.find?_some found)

theorem importers_iff (graph : ModuleGraph) (file importer : Path) :
    (∃ entry ∈ graph.importers file, entry.1.parts = importer.parts) ↔
      ∃ kind, graph.Linked importer file kind := by
  simp only [importers, byPath, List.mem_mergeSort, List.mem_map, List.mem_filter, Path.same_iff]
  constructor
  · rintro ⟨_, ⟨link, ⟨member, target⟩, rfl⟩, same⟩
    exact ⟨link.kind, link, member, (spelled_parts graph link.source).symm.trans same, target, rfl⟩
  · rintro ⟨kind, link, member, source, target, -⟩
    exact ⟨_, ⟨link, ⟨member, target⟩, rfl⟩, (spelled_parts graph link.source).trans source⟩

theorem at_most_total (a b : Path) : (a.atMost b || b.atMost a) = true := by
  cases order : a.compare b with
  | gt =>
      have reverse := (Path.compare_gt_iff a b).mp order
      simp [Path.atMost, reverse]
  | _ => simp [Path.atMost, order]

theorem at_most_trans (a b c : Path) (first : a.atMost b = true) (second : b.atMost c = true) :
    a.atMost c = true := by
  simp only [Path.atMost, bne_iff_ne, ne_eq] at first second ⊢
  cases left : a.compare b with
  | gt => exact absurd left first
  | eq => rwa [Path.compare_congr a b c c ((Path.compare_same_iff a b).mp left) rfl]
  | lt =>
      cases right : b.compare c with
      | gt => exact absurd right second
      | eq =>
          rw [← Path.compare_congr a a b c rfl ((Path.compare_same_iff b c).mp right), left]
          simp
      | lt =>
          rw [Path.compare_lt_trans a b c left right]
          simp

theorem by_path_sorted (entries : List (Path × LinkKind)) :
    (byPath entries).Pairwise fun a b => a.1.atMost b.1 = true := by
  rw [byPath]
  apply List.pairwise_mergeSort
  · intro a b c
    exact at_most_trans a.1 b.1 c.1
  · intro a b
    exact at_most_total a.1 b.1

theorem importers_sorted (graph : ModuleGraph) (file : Path) :
    (graph.importers file).Pairwise fun a b => a.1.atMost b.1 = true := by_path_sorted _

end DeadExports.ModuleGraph
