import DeadExports.Proofs.Project.Referring

set_option autoImplicit false

namespace DeadExports.Reference

theorem compare_on_trans {α β : Type} (order : β → β → Ordering) [Std.TransCmp order]
    (key : α → β) :
    Std.TransCmp fun a b => order (key a) (key b) where
  eq_swap := Std.OrientedCmp.eq_swap
  isLE_trans := Std.TransCmp.isLE_trans

instance compare_trans : Std.TransCmp compare := by
  have lexicographic : compare =
      compareLex (fun a b => List.compareLex Part.compare a.file.parts b.file.parts)
        (compareLex (compareOn (·.span.start)) (compareOn (·.span.stop))) := by
    funext a b
    rw [compare, Path.compare_eq]
    rfl
  have files := compare_on_trans (List.compareLex Part.compare) fun reference : Reference =>
    reference.file.parts
  rw [lexicographic]
  infer_instance

theorem same_place_iff (a b : Reference) : a.compare b = .eq ↔ a.place = b.place := by
  constructor
  · exact same_place_of_compare a b
  · intro same
    rw [compare_place a b b b same rfl]
    exact Std.ReflCmp.compare_self

theorem member_of_enter (reference found : Reference) (ordered : List Reference)
    (member : found ∈ reference.enter ordered) :
    found = reference ∨ found ∈ ordered := by
  induction ordered with
  | nil => exact .inl (List.mem_singleton.mp member)
  | cons first rest ih =>
      rw [enter] at member
      cases order : reference.compare first with
      | lt =>
          rw [order] at member
          exact List.mem_cons.mp member
      | eq =>
          rw [order] at member
          exact .inr member
      | gt =>
          rw [order] at member
          rcases List.mem_cons.mp member with rfl | later
          · exact .inr List.mem_cons_self
          · exact (ih later).imp_right (List.mem_cons_of_mem _)

theorem enter_ascending (reference : Reference) (ordered : List Reference)
    (ascending : ordered.Pairwise fun a b => a.compare b = .lt) :
    (reference.enter ordered).Pairwise fun a b => a.compare b = .lt := by
  induction ordered with
  | nil => exact List.pairwise_singleton _ _
  | cons first rest ih =>
      obtain ⟨least, later⟩ := List.pairwise_cons.mp ascending
      rw [enter]
      cases order : reference.compare first with
      | lt =>
          refine List.pairwise_cons.mpr ⟨?_, ascending⟩
          intro other member
          rcases List.mem_cons.mp member with rfl | member
          · exact order
          · exact Std.TransCmp.lt_trans order (least other member)
      | eq => exact ascending
      | gt =>
          refine List.pairwise_cons.mpr ⟨?_, ih later⟩
          intro other member
          rcases member_of_enter reference other rest member with rfl | member
          · exact Std.OrientedCmp.gt_iff_lt.mp order
          · exact least other member

theorem enter_all (holds : List Reference → Prop) (references begun : List Reference)
    (start : holds begun)
    (step : ∀ reference ∈ references, ∀ ordered, holds ordered → holds (reference.enter ordered)) :
    holds (references.foldl (fun ordered reference => reference.enter ordered) begun) := by
  induction references generalizing begun with
  | nil => exact start
  | cons first rest ih =>
      refine ih (first.enter begun) (step first List.mem_cons_self begun start) ?_
      exact fun reference member => step reference (List.mem_cons_of_mem _ member)

theorem in_order_ascending (references : List Reference) :
    (inOrder references).Pairwise fun a b => a.compare b = .lt :=
  enter_all (fun ordered => ordered.Pairwise fun a b => a.compare b = .lt) references
    [] List.Pairwise.nil
    fun reference _ ordered => enter_ascending reference ordered

theorem in_order_sound (references : List Reference) (found : Reference)
    (member : found ∈ inOrder references) :
    found ∈ references := by
  refine enter_all (fun ordered => ∀ found ∈ ordered, found ∈ references) references
    [] ?_ ?_ found member
  · simp
  · intro reference listed ordered inside found entered
    rcases member_of_enter reference found ordered entered with rfl | old
    · exact listed
    · exact inside found old

theorem in_order_places (references : List Reference) (place : List Part × Span) :
    place ∈ (inOrder references).map Reference.place ↔ place ∈ references.map Reference.place := by
  constructor
  · intro listed
    obtain ⟨found, member, rfl⟩ := List.mem_map.mp listed
    exact List.mem_map_of_mem (in_order_sound references found member)
  · intro listed
    obtain ⟨reference, member, rfl⟩ := List.mem_map.mp listed
    obtain ⟨found, present, same⟩ := in_order_complete references reference member
    exact List.mem_map.mpr ⟨found, present, same⟩

theorem ascending_places_nodup (ordered : List Reference)
    (ascending : ordered.Pairwise fun a b => a.compare b = .lt) :
    (ordered.map Reference.place).Nodup := by
  refine List.pairwise_map.mpr (ascending.imp ?_)
  intro a b less same
  rw [(same_place_iff a b).mpr same] at less
  cases less

theorem in_order_ext (left right : List Reference)
    (alike : ∀ place, place ∈ left.map Reference.place ↔ place ∈ right.map Reference.place) :
    (inOrder left).map Reference.place = (inOrder right).map Reference.place := by
  have sorted (references : List Reference) : ((inOrder references).map Reference.place).Pairwise
      fun a b => ∀ x y : Reference, x.place = a → y.place = b → x.compare y = .lt := by
    refine List.pairwise_map.mpr ((in_order_ascending references).imp ?_)
    intro a b less x y sameX sameY
    rw [compare_place x a y b sameX sameY]
    exact less
  refine List.Perm.eq_of_pairwise ?_ (sorted left) (sorted right) ?_
  · intro a b memberA memberB less greater
    obtain ⟨x, -, rfl⟩ := List.mem_map.mp memberA
    obtain ⟨y, -, rfl⟩ := List.mem_map.mp memberB
    have round := Std.TransCmp.lt_trans (less x y rfl rfl) (greater y x rfl rfl)
    rw [(same_place_iff x x).mpr rfl] at round
    cases round
  · rw [List.perm_ext_iff_of_nodup (ascending_places_nodup _ (in_order_ascending left))
      (ascending_places_nodup _ (in_order_ascending right))]
    intro place
    rw [in_order_places, in_order_places, alike]

end DeadExports.Reference
