import DeadExports.Graph.Basic

set_option autoImplicit false

namespace DeadExports

variable {α : Type} [BEq α]

theorem contains_of_same [EquivBEq α] (items : List α) (a b : α) (same : (a == b) = true)
    (held : items.contains a = true) : items.contains b = true := by
  rw [List.contains_iff_exists_mem_beq] at held ⊢
  obtain ⟨item, member, hit⟩ := held
  exact ⟨item, member, BEq.trans (BEq.symm same) hit⟩

theorem contains_of_member [EquivBEq α] (items : List α) (a : α) (member : a ∈ items) :
    items.contains a = true :=
  List.contains_iff_exists_mem_beq.mpr ⟨a, member, BEq.refl a⟩

theorem contains_of_subset (first later : List α) (a : α) (wider : first ⊆ later)
    (held : first.contains a = true) :
    later.contains a = true := by
  obtain ⟨item, member, same⟩ := List.contains_iff_exists_mem_beq.mp held
  exact List.contains_iff_exists_mem_beq.mpr ⟨item, wider member, same⟩

theorem drop_seen_cases (pending seen : List α) :
    (pending.dropWhile (seen.contains ·) = [] ∧ ∀ x ∈ pending, seen.contains x = true) ∨
      ∃ dropped first rest, pending = dropped ++ first :: rest ∧
        (∀ x ∈ dropped, seen.contains x = true) ∧
        seen.contains first = false ∧ pending.dropWhile (seen.contains ·) = first :: rest := by
  induction pending with
  | nil => exact .inl ⟨rfl, by simp⟩
  | cons x pending ih =>
      cases held : seen.contains x with
      | false =>
          exact .inr ⟨[], x, pending, rfl,
            by simp, held, by simp only [List.dropWhile_cons, held]; rfl⟩
      | true =>
          have step : (x :: pending).dropWhile (seen.contains ·) = pending.dropWhile
              (seen.contains ·) := by
            simp only [List.dropWhile_cons, held, if_true]
          rcases ih with ⟨none, every⟩ | ⟨dropped, first, rest, split, every, fresh, left⟩
          · refine .inl ⟨step.trans none, ?_⟩
            simpa [held] using every
          · refine .inr ⟨x :: dropped, first, rest, by rw [split]; rfl, ?_, fresh, step.trans left⟩
            simpa [held] using every

def Closed (next : α → List α) (items : List α) :
    Prop := ∀ x ∈ items, ∀ y ∈ next x, items.contains y = true

def unseen (whole seen : List α) : Nat := (whole.filter fun x => !seen.contains x).length

theorem unseen_decreases [EquivBEq α] (whole seen : List α) (first : α)
    (inside : whole.contains first = true) (fresh : seen.contains first = false) :
    unseen whole (first :: seen) < unseen whole seen := by
  obtain ⟨item, member, same⟩ := List.contains_iff_exists_mem_beq.mp inside
  have again : (whole.filter fun x => !(first :: seen).contains x) =
      (whole.filter fun x => !seen.contains x).filter fun x => !(x == first) := by
    rw [List.filter_filter]
    congr 1
    funext x
    simp
  have sublist : (whole.filter fun x => !(first :: seen).contains x).Sublist (whole.filter fun x =>
    !seen.contains x) :=
    again ▸ List.filter_sublist
  refine Nat.lt_of_le_of_ne sublist.length_le fun equal => ?_
  have kept : item ∈ whole.filter fun x => !seen.contains x := by
    refine List.mem_filter.mpr ⟨member, ?_⟩
    cases held : seen.contains item with
    | false => rfl
    | true => simp [contains_of_same seen item first (BEq.symm same) held] at fresh
  rw [← sublist.eq_of_length equal] at kept
  have gone := (List.mem_filter.mp kept).2
  simp [BEq.symm same] at gone

theorem unseen_antitone (whole seen later : List α) (wider : seen ⊆ later) :
    unseen whole later ≤ unseen whole seen := by
  refine List.Sublist.length_le ?_
  have again : (whole.filter fun x => !later.contains x) =
      (whole.filter fun x => !seen.contains x).filter fun x => !later.contains x := by
    rw [List.filter_filter]
    refine List.filter_congr fun x _ => ?_
    cases held : seen.contains x with
    | false => simp
    | true => simp [contains_of_subset seen later x wider held]
  rw [again]
  exact List.filter_sublist

theorem closed_of_all_seen [EquivBEq α] (next : α → List α) (pending seen : List α)
    (all : ∀ x ∈ pending, seen.contains x = true)
    (led : ∀ x ∈ seen, ∀ y ∈ next x, seen.contains y = true ∨ pending.contains y = true) :
    Closed next seen := by
  intro x member y step
  rcases led x member y step with held | held
  · exact held
  · obtain ⟨item, present, same⟩ := List.contains_iff_exists_mem_beq.mp held
    exact contains_of_same seen item y (BEq.symm same) (all item present)

-- The loop keeps this: what was seen leads to what was seen or is pending. It ends with nothing
-- pending, since every round leaves less of the whole unseen.
theorem closure_from_closed [EquivBEq α] (next : α → List α) (whole : List α) (rounds : Nat)
    (pending seen : List α) (room : unseen whole seen ≤ rounds)
    (inside : ∀ x ∈ pending, whole.contains x = true)
    (steps : ∀ x, whole.contains x = true → ∀ y ∈ next x, whole.contains y = true)
    (led : ∀ x ∈ seen, ∀ y ∈ next x, seen.contains y = true ∨ pending.contains y = true) :
    (∀ x ∈ seen, x ∈ closureFrom next rounds pending seen) ∧
      (∀ x ∈ pending, (closureFrom next rounds pending seen).contains x = true) ∧
      Closed next (closureFrom next rounds pending seen) := by
  induction rounds generalizing pending seen with
  | zero =>
      have all : ∀ x ∈ pending, seen.contains x = true := by
        intro x member
        obtain ⟨item, present, same⟩ := List.contains_iff_exists_mem_beq.mp (inside x member)
        have none := List.filter_eq_nil_iff.mp (List.length_eq_zero_iff.mp (Nat.le_zero.mp room))
          item present
        exact contains_of_same seen item x (BEq.symm same) (by simpa using none)
      exact ⟨fun x member => member, all, closed_of_all_seen next pending seen all led⟩
  | succ rounds ih =>
      rw [closureFrom]
      rcases drop_seen_cases pending seen with ⟨none, all⟩ | ⟨dropped, first, rest, rfl, gone,
        fresh, left⟩
      · rw [none]
        exact ⟨fun x member => member, all, closed_of_all_seen next pending seen all led⟩
      · rw [left]
        dsimp only
        have here := inside first (by simp)
        have less := unseen_decreases whole seen first here fresh
        obtain ⟨kept, reached, closed⟩ := ih (next first ++ rest) (first :: seen) (by omega)
          (by
            intro x member
            rcases List.mem_append.mp member with step | later
            · exact steps first here x step
            · exact inside x (by simp [later]))
          (by
            intro x member y step
            rcases List.mem_cons.mp member with rfl | member
            · exact .inr (contains_of_member _ y (List.mem_append_left _ step))
            · rcases led x member y step with held | held
              · exact .inl (by simp [held])
              · obtain ⟨item, present, same⟩ := List.contains_iff_exists_mem_beq.mp held
                rcases List.mem_append.mp present with old | later
                · exact .inl (by simp [contains_of_same seen item y (BEq.symm same)
                    (gone item old)])
                · rcases List.mem_cons.mp later with rfl | later
                  · exact .inl (by simp [same])
                  · exact .inr (List.contains_iff_exists_mem_beq.mpr
                      ⟨item, List.mem_append_right _ later, same⟩))
        refine ⟨fun x member => kept x (List.mem_cons_of_mem _ member), ?_, closed⟩
        intro x member
        rcases List.mem_append.mp member with old | later
        · obtain ⟨item, present, same⟩ := List.contains_iff_exists_mem_beq.mp (gone x old)
          exact List.contains_iff_exists_mem_beq.mpr
            ⟨item, kept item (List.mem_cons_of_mem _ present), same⟩
        · rcases List.mem_cons.mp later with rfl | later
          · exact contains_of_member _ x (kept x List.mem_cons_self)
          · exact reached x (List.mem_append_right _ later)

theorem closure_closed [EquivBEq α] (next : α → List α) (whole start : List α) (bound : Nat)
    (room : whole.length ≤ bound) (inside : ∀ x ∈ start, whole.contains x = true)
    (steps : ∀ x, whole.contains x = true → ∀ y ∈ next x, whole.contains y = true) :
    (∀ x ∈ start, (closure next bound start).contains x = true) ∧
    Closed next (closure next bound start) := by
  have fits : unseen whole [] ≤ bound := Nat.le_trans (List.length_filter_le _ _) room
  exact (closure_from_closed next whole bound start [] fits inside steps (by simp)).2

theorem closure_from_sound (next : α → List α) (holds : α → Prop)
    (steps : ∀ x, holds x → ∀ y ∈ next x, holds y) (rounds : Nat) (pending seen : List α)
    (waiting : ∀ x ∈ pending, holds x) (known : ∀ x ∈ seen, holds x) :
    ∀ x ∈ closureFrom next rounds pending seen, holds x := by
  induction rounds generalizing pending seen with
  | zero => exact known
  | succ rounds ih =>
      rw [closureFrom]
      cases left : pending.dropWhile (seen.contains ·) with
      | nil => exact known
      | cons first rest =>
          have still : ∀ x ∈ first :: rest, holds x := fun x member =>
            waiting x ((List.dropWhile_sublist _).mem (left ▸ member))
          have here := still first List.mem_cons_self
          refine ih _ _ ?_ ?_
          · intro x member
            rcases List.mem_append.mp member with step | later
            · exact steps first here x step
            · exact still x (List.mem_cons_of_mem _ later)
          · intro x member
            rcases List.mem_cons.mp member with rfl | old
            · exact here
            · exact known x old

section Views

variable {γ : Type} [DecidableEq γ]

theorem contains_view (view : α → γ) (same : ∀ a b : α, (a == b) = decide (view a = view b))
    (items : List α) (a : α) :
    items.contains a = (items.map view).contains (view a) := by
  induction items with
  | nil => rfl
  | cons first rest ih => simp [ih, same]

theorem closure_from_view (view : α → γ) (same : ∀ a b : α, (a == b) = decide (view a = view b))
    (next other : α → List α)
    (steps : ∀ a b, view a = view b → (next a).map view = (other b).map view) (rounds : Nat)
    (pending waiting seen known : List α) (pendingAlike : pending.map view = waiting.map view)
    (seenAlike : seen.map view = known.map view) :
    (closureFrom next rounds pending seen).map view = (closureFrom other rounds waiting known).map
      view := by
  induction rounds generalizing pending waiting seen known with
  | zero => exact seenAlike
  | succ rounds ih =>
      have left : (pending.dropWhile (seen.contains ·)).map view = (waiting.dropWhile
          (known.contains ·)).map view := by
        have dropped (items old : List α) : (items.dropWhile (old.contains ·)).map view =
            (items.map view).dropWhile ((old.map view).contains ·) := by
          rw [List.dropWhile_map]
          congr 2
          funext a
          exact contains_view view same old a
        rw [dropped, dropped, pendingAlike, seenAlike]
      rw [closureFrom, closureFrom]
      cases first : pending.dropWhile (seen.contains ·) with
      | nil =>
          rw [first, List.map_nil, eq_comm, List.map_eq_nil_iff] at left
          rw [left]
          exact seenAlike
      | cons a as =>
          rw [first, List.map_cons, eq_comm, List.map_eq_cons_iff] at left
          obtain ⟨b, bs, second, head, tail⟩ := left
          rw [second]
          dsimp only
          apply ih
          · rw [List.map_append, List.map_append, steps a b head.symm, tail]
          · rw [List.map_cons, List.map_cons, head, seenAlike]

theorem closure_view (view : α → γ) (same : ∀ a b : α, (a == b) = decide (view a = view b))
    (next other : α → List α)
    (steps : ∀ a b, view a = view b → (next a).map view = (other b).map view) (bound : Nat)
    (start begun : List α) (alike : start.map view = begun.map view) :
    (closure next bound start).map view = (closure other bound begun).map view :=
  closure_from_view view same next other steps bound start begun [] [] alike rfl

end Views
end DeadExports
