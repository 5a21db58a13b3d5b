import Mathlib.Data.List.Basic

/-!
# Searching and replacing

* `searchFrom`: the first place of a text where a pattern stands, from a position on. `searchFrom_eq_some`,
  `searchFrom_eq_none`.
* `Replaced`: a text with another in place of each occurrence of the pattern, from left to right. Occurrences do not
  overlap, and what is put in is not looked at again. There is at most one such text (`Replaced.unique`).
-/

namespace Lib

variable {α : Type} {p w l : List α}

section

variable [DecidableEq α]

/-- The first place from `pos` on where `p` stands in `l`. -/
def searchFrom (p l : List α) (pos : Nat) : Option Nat :=
  (List.range (l.length + 1)).find? fun i => decide (pos ≤ i) && p.isPrefixOf (l.drop i)

theorem searchFrom_eq_some {pos i : Nat} : searchFrom p l pos = some i ↔
      pos ≤ i ∧ i ≤ l.length ∧ p <+: l.drop i ∧ ∀ j, pos ≤ j → j < i → ¬ p <+: l.drop j := by
  rw [searchFrom, List.find?_range_eq_some]
  simp only [Bool.and_eq_true, decide_eq_true_eq, List.isPrefixOf_iff_prefix, List.mem_range,
    Bool.not_eq_true', ← Bool.not_eq_true]
  constructor
  · rintro ⟨⟨hpos, hp⟩, hi, hfirst⟩
    exact ⟨hpos, Nat.lt_succ_iff.mp hi, hp, fun j hj hlt hpj => hfirst j hlt ⟨hj, hpj⟩⟩
  · rintro ⟨hpos, hi, hp, hfirst⟩
    exact ⟨⟨hpos, hp⟩, Nat.lt_succ_iff.mpr hi, fun j hlt hpj => hfirst j hpj.1 hlt hpj.2⟩

theorem searchFrom_eq_none {pos : Nat} :
    searchFrom p l pos = none ↔ ∀ i, pos ≤ i → i ≤ l.length → ¬ p <+: l.drop i := by
  rw [searchFrom, List.find?_eq_none]
  simp only [List.mem_range, Bool.and_eq_true, decide_eq_true_eq, List.isPrefixOf_iff_prefix, not_and,
    Nat.lt_succ_iff]
  exact forall_congr' fun i => ⟨fun h hpos hi => h hi hpos, fun h hi hpos => h hpos hi⟩

/-- A search behind the first part of a text. -/
theorem searchFrom_append (pre : List α) :
    searchFrom p (pre ++ l) pre.length = (searchFrom p l 0).map (pre.length + ·) := by
  have hdrop (i : Nat) : (pre ++ l).drop (pre.length + i) = l.drop i := by
    rw [← List.drop_drop, List.drop_left]
  cases h : searchFrom p l 0 with
  | none =>
    rw [Option.map_none, searchFrom_eq_none]
    intro i hi hlen
    obtain ⟨k, rfl⟩ := Nat.exists_eq_add_of_le hi
    rw [List.length_append] at hlen
    rw [hdrop]
    exact searchFrom_eq_none.mp h k (Nat.zero_le k) (Nat.le_of_add_le_add_left hlen)
  | some i =>
    obtain ⟨-, hi, hp, hfirst⟩ := searchFrom_eq_some.mp h
    rw [Option.map_some, searchFrom_eq_some, hdrop, List.length_append]
    refine ⟨Nat.le_add_right _ _, Nat.add_le_add_left hi _, hp, fun j hj hlt => ?_⟩
    obtain ⟨k, rfl⟩ := Nat.exists_eq_add_of_le hj
    rw [hdrop]
    exact hfirst k (Nat.zero_le k) (Nat.lt_of_add_lt_add_left hlt)

theorem searchFrom_nil {pos : Nat} (h : pos ≤ l.length) : searchFrom [] l pos = some pos :=
  searchFrom_eq_some.mpr ⟨Nat.le_refl _, h, List.nil_prefix, fun _ hj hlt => absurd hlt (Nat.not_lt.mpr hj)⟩

end

/-- `l'` is `l` with `w` in place of each occurrence of `p`, from left to right. -/
inductive Replaced (p w : List α) : List α → List α → Prop where
  | none {l : List α} : (∀ i ≤ l.length, ¬ p <+: l.drop i) → Replaced p w l l
  | first {a l l' : List α} : (∀ i < a.length, ¬ p <+: (a ++ p ++ l).drop i) → Replaced p w l l' →
    Replaced p w (a ++ p ++ l) (a ++ w ++ l')

namespace Replaced

theorem prefix_drop (a p l : List α) : p <+: (a ++ p ++ l).drop a.length := by
  rw [List.append_assoc, List.drop_left]
  exact List.prefix_append p l

theorem unique {r r' : List α} (h : Replaced p w l r) (h' : Replaced p w l r') : r = r' := by
  induction h generalizing r' with
  | none hnone =>
    cases h' with
    | none => rfl
    | @first a l l' hfirst _ =>
      exact absurd (prefix_drop a p l) (hnone _ (by rw [List.append_assoc, List.length_append]; omega))
  | @first a l l' hfirst hrest ih =>
    generalize heq : a ++ p ++ l = text at h'
    cases h' with
    | none hnone =>
      subst heq
      exact absurd (prefix_drop a p l) (hnone _ (by rw [List.append_assoc, List.length_append]; omega))
    | @first a' m m' hfirst' hrest' =>
      -- neither occurrence is in front of the other
      have hle : ¬ a.length < a'.length := fun hlt => hfirst' _ hlt (heq ▸ prefix_drop a p l)
      have hge : ¬ a'.length < a.length := fun hlt => hfirst _ hlt (heq ▸ prefix_drop a' p m)
      rw [List.append_assoc, List.append_assoc] at heq
      obtain ⟨rfl, htail⟩ := List.append_inj heq (by omega)
      obtain rfl := List.append_cancel_left htail
      rw [ih hrest']

variable [DecidableEq α]

theorem of_search_none (h : searchFrom p l 0 = Option.none) : Replaced p w l l :=
  .none fun i hi => searchFrom_eq_none.mp h i (Nat.zero_le i) hi

theorem of_search_some {i : Nat} {l' : List α} (h : searchFrom p l 0 = some i)
    (hrest : Replaced p w (l.drop (i + p.length)) l') : Replaced p w l (l.take i ++ w ++ l') := by
  obtain ⟨-, hi, hp, hfirst⟩ := searchFrom_eq_some.mp h
  have hsplit : l.take i ++ p ++ l.drop (i + p.length) = l := by
    rw [List.append_assoc, ← List.drop_drop, List.prefix_iff_eq_append.mp hp, List.take_append_drop]
  have hreplaced : Replaced p w (l.take i ++ p ++ l.drop (i + p.length)) (l.take i ++ w ++ l') := by
    refine .first (fun j hj => ?_) hrest
    rw [hsplit]
    rw [List.length_take_of_le hi] at hj
    exact hfirst j (Nat.zero_le j) hj
  rwa [hsplit] at hreplaced

end Replaced

end Lib
