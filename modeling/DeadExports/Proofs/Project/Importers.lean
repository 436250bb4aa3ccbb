import DeadExports.Project.Reference
import DeadExports.Proofs.Graph.Links

set_option autoImplicit false

namespace DeadExports

theorem erase_dups_induction (motive : List Path → Prop) (nil : motive [])
    (cons : ∀ first rest, motive (rest.filter fun path => !(path == first)) →
      motive (first :: rest))
    (paths : List Path) :
    motive paths := by
  induction size : paths.length using Nat.strongRecOn generalizing paths with
  | ind bound ih =>
      cases paths with
      | nil => exact nil
      | cons first rest =>
          have shorter := List.length_filter_le (fun path => !(path == first)) rest
          rw [List.length_cons] at size
          exact cons first rest (ih _ (by omega) _ rfl)

theorem member_of_erase_dups (paths : List Path) (path : Path) (member : path ∈ paths.eraseDups) :
    path ∈ paths := by
  induction paths using erase_dups_induction with
  | nil => exact member
  | cons first rest ih =>
      rw [List.eraseDups_cons] at member
      rcases List.mem_cons.mp member with rfl | later
      · exact List.mem_cons_self
      · exact List.mem_cons_of_mem _ (List.mem_filter.mp (ih later)).1

theorem erase_dups_listed (paths : List Path) (path : Path)
    (listed : ∃ known ∈ paths, known.parts = path.parts) :
    ∃ known ∈ paths.eraseDups, known.parts = path.parts := by
  induction paths using erase_dups_induction with
  | nil => exact listed
  | cons first rest ih =>
      obtain ⟨known, member, same⟩ := listed
      rw [List.eraseDups_cons]
      by_cases here : first.parts = path.parts
      · exact ⟨first, List.mem_cons_self, here⟩
      · rcases List.mem_cons.mp member with rfl | member
        · exact absurd same here
        · have apart : (!(known == first)) = true := by
            rw [Path.same_eq_decide, same]
            simpa using Ne.symm here
          obtain ⟨found, present, alike⟩ := ih ⟨known, List.mem_filter.mpr ⟨member, apart⟩, same⟩
          exact ⟨found, List.mem_cons_of_mem _ present, alike⟩

theorem erase_dups_ascending (paths : List Path)
    (sorted : paths.Pairwise fun a b => a.atMost b = true) :
    paths.eraseDups.Pairwise fun a b => a.compare b = .lt := by
  induction paths using erase_dups_induction with
  | nil => exact List.Pairwise.nil
  | cons first rest ih =>
      rw [List.pairwise_cons] at sorted
      rw [List.eraseDups_cons]
      refine List.pairwise_cons.mpr ⟨?_, ih (sorted.2.filter _)⟩
      intro later member
      obtain ⟨present, apart⟩ := List.mem_filter.mp (member_of_erase_dups _ _ member)
      have order := sorted.1 later present
      rw [Path.atMost, bne_iff_ne] at order
      rw [Path.same_eq_decide, Bool.not_eq_true', decide_eq_false_iff_not] at apart
      cases result : first.compare later with
      | lt => rfl
      | eq => exact absurd ((Path.compare_same_iff _ _).mp result).symm apart
      | gt => exact absurd result order

theorem ascending_ext (left right : List Path)
    (leftSorted : left.Pairwise fun a b => a.compare b = .lt)
    (rightSorted : right.Pairwise fun a b => a.compare b = .lt)
    (alike : ∀ path : Path, (∃ known ∈ left, known.parts = path.parts) ↔ ∃ known ∈ right,
      known.parts = path.parts) :
    left.map Path.parts = right.map Path.parts := by
  let marked (paths : List Path) : PathMap Unit := ⟨paths.map fun path => (path, ())⟩
  have held (paths : List Path) (path : Path) :
      (marked paths).contains path = true ↔ ∃ known ∈ paths, known.parts = path.parts := by
    rw [PathMap.contains_iff_key]
    simp [marked, PathMap.keys]
  have sorted (paths : List Path) (ascending : paths.Pairwise fun a b => a.compare b = .lt) :
      (marked paths).Sorted := List.pairwise_map.mpr ascending
  have content := PathMap.content_ext (marked left) (marked right) (sorted left leftSorted)
      (sorted right rightSorted) (by
    intro path
    have both : (marked left).contains path = (marked right).contains path := by
      rw [Bool.eq_iff_iff, held, held, alike]
    rw [PathMap.contains_eq, PathMap.contains_eq] at both
    cases first : (marked left).get? path <;> cases second : (marked right).get? path <;> simp_all)
  have names := congrArg (List.map Prod.fst) content
  simpa [PathMap.content, marked, Function.comp_def] using names

namespace Project

theorem importers_of_iff (project : Project) (file importer : Path) :
    (∃ known ∈ project.importersOf file, known.parts = importer.parts) ↔
      ∃ kind, project.graph.Linked importer file kind := by
  rw [← ModuleGraph.importers_iff]
  constructor
  · rintro ⟨known, member, same⟩
    obtain ⟨entry, present, rfl⟩ := List.mem_map.mp (member_of_erase_dups _ _ member)
    exact ⟨entry, present, same⟩
  · rintro ⟨entry, present, same⟩
    exact erase_dups_listed _ _ ⟨entry.1, List.mem_map_of_mem present, same⟩

theorem importers_of_ascending (project : Project) (file : Path) :
    (project.importersOf file).Pairwise fun a b => a.compare b = .lt :=
  erase_dups_ascending _ (List.pairwise_map.mpr (ModuleGraph.importers_sorted project.graph file))

end Project
end DeadExports
