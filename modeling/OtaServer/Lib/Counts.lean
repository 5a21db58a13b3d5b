import Mathlib.Algebra.Group.Nat.Defs
import Mathlib.Data.Nat.Find

/-!
# Results that count

A call that transfers bytes returns how many, or 0 or a negative number if there are none.

* `passed`: what the first results of a sequence count together.
* `exists_end`: a sequence counts up to any number unless a result does not count.
-/

namespace Lib

/-- How many bytes the first `k` results count. -/
def passed (results : Nat → Int) : Nat → Nat
  | 0 => 0
  | k + 1 => passed results k + (results k).toNat

variable {results : Nat → Int}

theorem passed_mono {j k : Nat} (h : j ≤ k) : passed results j ≤ passed results k := by
  induction h with
  | refl => exact Nat.le_refl _
  | step _ ih => exact Nat.le_trans ih (Nat.le_add_right _ _)

theorem le_passed {k : Nat} (h : ∀ j < k, 0 < results j) : k ≤ passed results k := by
  induction k with
  | zero => exact Nat.zero_le _
  | succ k ih =>
    have hk := h k (Nat.lt_succ_self k)
    have hle := ih fun j hj => h j (Nat.lt_succ_of_lt hj)
    rw [passed]
    omega

theorem exists_end (results : Nat → Int) (n : Nat) :
    ∃ k, (∀ j < k, 0 < results j ∧ passed results j < n) ∧ (n ≤ passed results k ∨ results k ≤ 0) := by
  classical
  have hex : ∃ k, n ≤ passed results k ∨ results k ≤ 0 := by
    by_contra hno
    have hcounts : ∀ k, passed results k < n ∧ 0 < results k := fun k => by
      have hk := not_or.mp fun h => hno ⟨k, h⟩
      omega
    have hle : n ≤ passed results n := le_passed fun j _ => (hcounts j).2
    have hlt := (hcounts n).1
    omega
  refine ⟨Nat.find hex, fun j hj => ?_, Nat.find_spec hex⟩
  have hmin := not_or.mp (Nat.find_min hex hj)
  omega

theorem range_append_range' (a b : Nat) : List.range a ++ List.range' a b = List.range (a + b) := by
  have happend := @List.range'_append_1 0 a b
  rwa [Nat.zero_add, ← List.range_eq_range', ← List.range_eq_range'] at happend

end Lib
