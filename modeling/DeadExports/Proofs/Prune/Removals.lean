import DeadExports.Proofs.Prune.Batch
import DeadExports.Proofs.Store.Written

set_option autoImplicit false

namespace DeadExports

structure Removal.Located (text : String) (removal : Removal) : Prop where
  code : Text.slice? text removal.offset (removal.offset + Text.size removal.code) =
      some removal.code
  place : Text.lineColumn text removal.offset = (removal.line, removal.column)

namespace Batch

theorem removal_located (text : String) (span : Span) (piece : span.IsPiece text) :
    (removalOf text span).Located text where
  code := by
    obtain ⟨left, right, rfl, opens⟩ := Text.boundary_split text span.start piece.opens
    obtain ⟨middle, rest, rfl, closes⟩ :=
      Text.boundary_between left right span.stop piece.closes
        (by rw [opens]; exact Nat.le_of_lt piece.filled)
    have slice := Text.slice_of_split left middle rest
    rw [String.append_assoc, closes, opens] at slice
    have found : (removalOf (left ++ (middle ++ rest)) span).code = middle := by
      change (Text.slice? (left ++ (middle ++ rest)) span.start span.stop).getD "" = middle
      rw [slice, Option.getD_some]
    rw [found]
    change Text.slice? (left ++ (middle ++ rest)) span.start (span.start + Text.size middle) =
      some middle
    rw [← opens, closes, opens, slice]
  place := rfl

def Faithful (text : String) (batch : Batch) :
    Prop := ∀ removal ∈ batch.removals, removal.Located text

theorem record_faithful (text : String) (batch : Batch) (span : Span) (piece : span.IsPiece text)
    (faithful : batch.Faithful text) : (batch.record text span).Faithful text := by
  intro removal member
  rcases List.mem_append.mp member with earlier | last
  · exact faithful removal earlier
  · exact List.mem_singleton.mp last ▸ removal_located text span piece

theorem remove_faithful (text : String) (batch : Batch) (cut span : Span)
    (piece : span.IsPiece text) (faithful : batch.Faithful text) :
    (batch.remove text cut span).Faithful text :=
  record_faithful text { batch with changes := batch.changes ++ [Change.delete cut] } span
    piece faithful

theorem plan_clause_faithful (text : String) (unused : List Candidate) (candidate : Candidate)
    (clause : Clause) (plan : Plan) (placed : ∀ one ∈ unused, one.Placed text)
    (member : candidate ∈ unused) (faithful : plan.batch.Faithful text) :
    (planClause text unused candidate clause plan).batch.Faithful text := by
  rw [planClause]
  split
  next => exact faithful
  next =>
      dsimp only
      split
      next => exact remove_faithful text plan.batch _ _ (placed candidate member).statement faithful
      next =>
          split
          next => exact faithful
          next =>
              intro removal recorded
              rw [record_all] at recorded
              rcases List.mem_append.mp recorded with earlier | added
              · exact faithful removal earlier
              · obtain ⟨sibling, among, rfl⟩ := List.mem_map.mp added
                exact removal_located text _ (placed sibling (List.mem_filter.mp among).1).node

theorem plan_candidate_faithful (file : Path) (text : String) (unused : List Candidate)
    (plan next : Plan) (candidate : Candidate) (placed : ∀ one ∈ unused, one.Placed text)
    (member : candidate ∈ unused)
    (planned : planCandidate file text unused plan candidate = .ok next)
    (faithful : plan.batch.Faithful text) :
    next.batch.Faithful text := by
  have here := placed candidate member
  rw [planCandidate] at planned
  split at planned
  next =>
      split at planned
      next clause _ =>
          obtain rfl := Except.ok.inj planned
          exact plan_clause_faithful text unused candidate clause plan placed member faithful
      next => cases planned
  next =>
      obtain rfl := Except.ok.inj planned
      exact remove_faithful text plan.batch _ _ here.statement faithful
  all_goals
      next kind =>
          obtain ⟨word, found, piece, before⟩ := here.led (by simp [kind]) (by simp [kind])
          rw [found] at planned
          obtain rfl := Except.ok.inj planned
          have filled := piece.filled
          exact remove_faithful text plan.batch _ _
            ⟨by dsimp only; omega, piece.opens, here.node.opens⟩ faithful

theorem plan_all_faithful (file : Path) (text : String) (unused todo : List Candidate)
    (before after : Plan) (placed : ∀ one ∈ unused, one.Placed text) (within : todo ⊆ unused)
    (planned : todo.foldlM (planCandidate file text unused) before = .ok after)
    (faithful : before.batch.Faithful text) :
    after.batch.Faithful text := by
  induction todo generalizing before with
  | nil => exact Except.ok.inj planned ▸ faithful
  | cons first rest ih =>
      rw [List.foldlM_cons] at planned
      obtain ⟨middle, step, planned⟩ := except_bind_ok _ _ after planned
      have kept := plan_candidate_faithful file text unused before middle first placed
        (within List.mem_cons_self) step faithful
      exact ih middle (fun one later => within (List.mem_cons_of_mem _ later)) planned kept

theorem plan_faithful (file : Path) (text : String) (unused : List Candidate) (batch : Batch)
    (placed : ∀ candidate ∈ unused, candidate.Placed text)
    (planned : plan file text unused = .ok batch) :
    batch.Faithful text := by
  obtain ⟨last, done, same⟩ := except_bind_ok _ _ batch planned
  obtain rfl := Except.ok.inj same
  exact plan_all_faithful file text unused unused {} last placed (List.Subset.refl _) done
    fun _ none => absurd none List.not_mem_nil

end Batch
end DeadExports
