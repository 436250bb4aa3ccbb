import DeadExports.Path.Basic

set_option autoImplicit false

namespace DeadExports

namespace Part

def orderKey : Part → Nat × String
  | name text => (3, text)
  | other => (other.rank, "")

theorem compare_order_key (a b : Part) :
    a.compare b = compareLex (compareOn (·.orderKey.1)) (compareOn (·.orderKey.2)) a b := by
  cases a <;> cases b <;> rfl

theorem order_key_injective (a b : Part) (same : a.orderKey = b.orderKey) : a = b := by
  cases a <;> cases b <;> simp_all [orderKey, rank]

instance compare_trans : Std.TransCmp compare := by
  have lexicographic : compare =
      compareLex (compareOn (·.orderKey.1)) (compareOn (·.orderKey.2)) := by
    funext a b
    exact compare_order_key a b
  rw [lexicographic]
  infer_instance

instance compare_lawful : Std.LawfulEqCmp compare where
  compare_self := by
    intro a
    rw [compare_order_key]
    simp [compareLex, compareOn]
  eq_of_compare := by
    intro a b same
    rw [compare_order_key, compareLex_eq_eq] at same
    apply order_key_injective
    exact Prod.ext (Std.LawfulEqCmp.eq_of_compare same.1) (Std.LawfulEqCmp.eq_of_compare same.2)

end Part

namespace Path

theorem compare_parts_lex (as bs : List Part) :
    compareParts as bs = as.compareLex Part.compare bs := by
  induction as generalizing bs with
  | nil => cases bs <;> rfl
  | cons a as ih =>
      cases bs with
      | nil => rfl
      | cons b bs => rw [List.compareLex_cons_cons, compareParts, ih]

theorem compare_eq (a b : Path) : a.compare b = List.compareLex Part.compare a.parts b.parts :=
  compare_parts_lex a.parts b.parts

theorem same_iff (a b : Path) : (a == b) = true ↔ a.parts = b.parts := by
  change (a.parts == b.parts) = true ↔ a.parts = b.parts
  exact beq_iff_eq

theorem same_eq_decide (a b : Path) : (a == b) = decide (a.parts = b.parts) := by
  rw [Bool.eq_iff_iff, same_iff, decide_eq_true_iff]

theorem same_congr (a b : Path) (same : (a == b) = true) :
    (fun path : Path => path == a) = fun path => path == b := by
  funext path
  simp only [same_eq_decide, (same_iff a b).mp same]

instance same_equivalence : EquivBEq Path where
  rfl := by simp [same_iff]
  symm := by
    intro a b same
    rw [same_iff] at same ⊢
    exact same.symm
  trans := by
    intro a b c first second
    rw [same_iff] at first second ⊢
    exact first.trans second

theorem compare_same_iff (a b : Path) : a.compare b = .eq ↔ a.parts = b.parts := by
  rw [compare_eq]
  exact Std.LawfulEqCmp.compare_eq_iff_eq

theorem compare_gt_iff (a b : Path) : a.compare b = .gt ↔ b.compare a = .lt := by
  rw [compare_eq, compare_eq]
  exact Std.OrientedCmp.gt_iff_lt

theorem compare_lt_trans (a b c : Path) (first : a.compare b = .lt) (second : b.compare c = .lt) :
    a.compare c = .lt := by
  rw [compare_eq] at first second ⊢
  exact Std.TransCmp.lt_trans first second

theorem compare_congr (a b c d : Path) (left : a.parts = b.parts) (right : c.parts = d.parts) :
    a.compare c = b.compare d := by
  rw [compare_eq, compare_eq, left, right]

theorem not_same_of_lt (a b : Path) (less : a.compare b = .lt) : (a == b) = false := by
  rw [same_eq_decide, decide_eq_false_iff_not, ← compare_same_iff, less]
  simp

end Path
end DeadExports
