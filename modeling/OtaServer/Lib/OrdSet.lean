import Mathlib.Data.List.Nodup
import Mathlib.Order.Defs.Unbundled

/-!
# Ordered sets

A set is the list of its elements in the order of a comparator. Places in it are indices; the length is the place
behind the end.

* `lowerBound`, `find`, `insert`, `erase`: the operations, which look at elements through the comparator only.
* `Sorted`: what they keep. `find_of_mem`, `erase_spec`, `sorted_insert`, `mem_insert`, `insert_front_iff`,
  `foldl_insert`.
* `Sorted.congr`: another comparator, which agrees on the elements.
-/

namespace Lib

namespace OrdSet

variable {α : Type} (r : α → α → Prop)

section

variable [DecidableRel r]

/-- The first place whose element is not before `x`. -/
def lowerBound (x : α) : List α → Nat
  | [] => 0
  | y :: l => if r y x then lowerBound x l + 1 else 0

/-- The element at the first place that is not before `x` is equivalent to `x`. -/
def present (x : α) (l : List α) : Bool := l[lowerBound r x l]?.any fun y => !decide (r x y)

/-- The place of `x`, or the end. -/
def find (x : α) (l : List α) : Nat := if present r x l then lowerBound r x l else l.length

/-- The set with `x`, and the place of `x`. -/
def insert (x : α) (l : List α) : List α × Nat :=
  let i := lowerBound r x l
  (if present r x l then l else l.take i ++ x :: l.drop i, i)

end

/-- The element at a place is erased. There is none at the end. -/
def erase (l : List α) (i : Nat) : Option (List α) := if i < l.length then some (l.eraseIdx i) else none

/-- The elements stand in the order of the comparator. -/
abbrev Sorted (l : List α) : Prop := l.Pairwise r

variable {r} {x y : α} {l : List α}

theorem Sorted.congr {q : α → α → Prop} (h : Sorted r l) (hq : ∀ a ∈ l, ∀ b ∈ l, (r a b ↔ q a b)) : Sorted q l :=
  h.imp_of_mem fun {a b} ha hb hab => (hq a ha b hb).mp hab

theorem Sorted.nodup [Std.Irrefl r] (h : Sorted r l) : l.Nodup := by
  refine h.imp ?_
  rintro a b hab rfl
  exact Std.Irrefl.irrefl a hab

variable [DecidableRel r]

theorem lowerBound_of_forall (h : ∀ y ∈ l, r y x) : lowerBound r x l = l.length := by
  induction l with
  | nil => rfl
  | cons y l ih =>
    rw [List.forall_mem_cons] at h
    rw [lowerBound, if_pos h.1, ih h.2, List.length_cons]

theorem insert_of_forall (h : ∀ y ∈ l, r y x) : (insert r x l).1 = l ++ [x] := by
  simp [insert, present, lowerBound_of_forall h]

theorem foldl_insert {s : List α} (h : Sorted r (s ++ l)) : l.foldl (fun s x => (insert r x s).1) s = s ++ l := by
  induction l generalizing s with
  | nil => rw [List.foldl_nil, List.append_nil]
  | cons x l ih =>
    have hbefore : ∀ y ∈ s, r y x := fun y hy =>
      (List.pairwise_append.mp h).2.2 y hy x List.mem_cons_self
    rw [List.foldl_cons, insert_of_forall hbefore, ih (by simpa using h), List.append_assoc, List.singleton_append]

/-- `find` finds the element that is equivalent to `x`. -/
theorem getElem?_find {e : α → Bool} (h : Sorted r l) (he : ∀ y ∈ l, e y = true ↔ ¬r y x ∧ ¬r x y)
    (htrans : ∀ y z, r x y → r y z → r x z) : l[find r x l]? = l.find? e := by
  induction l with
  | nil => rfl
  | cons y l ih =>
    obtain ⟨hy, hl⟩ := List.pairwise_cons.mp h
    obtain ⟨hey, hel⟩ := List.forall_mem_cons.mp he
    by_cases hyx : r y x
    · have hne : e y = false := by
        rw [Bool.eq_false_iff]
        exact fun h => (hey.mp h).1 hyx
      have hfind : find r x (y :: l) = find r x l + 1 := by
        simp only [find, present, lowerBound, if_pos hyx, List.getElem?_cons_succ, List.length_cons]
        exact (apply_ite (· + 1) _ _ _).symm
      rw [hfind, List.getElem?_cons_succ, ih hl hel, List.find?_cons_of_neg (by simp [hne])]
    · by_cases hxy : r x y
      · have hnone : (y :: l).find? e = none := by
          refine List.find?_eq_none.mpr (List.forall_mem_cons.mpr ⟨fun h => (hey.mp h).2 hxy, fun z hz h => ?_⟩)
          exact ((hel z hz).mp h).2 (htrans y z hxy (hy z hz))
        have hfind : find r x (y :: l) = (y :: l).length := by
          simp [find, present, lowerBound, if_neg hyx, hxy]
        rw [hfind, hnone, List.getElem?_eq_none (Nat.le_refl _)]
      · have hfind : find r x (y :: l) = 0 := by
          simp [find, present, lowerBound, if_neg hyx, hxy]
        rw [hfind, List.find?_cons_of_pos (hey.mpr ⟨hyx, hxy⟩), List.getElem?_cons_zero]

theorem before_lowerBound : ∀ y ∈ l.take (lowerBound r x l), r y x := by
  induction l with
  | nil => exact nofun
  | cons y l ih =>
    rw [lowerBound]
    split
    · next hy =>
      intro z hz
      rw [List.take_succ_cons, List.mem_cons] at hz
      obtain rfl | hz := hz
      · exact hy
      · exact ih z hz
    · exact nofun

variable [IsStrictTotalOrder α r]

theorem after_lowerBound (h : Sorted r l) : ∀ y ∈ l.drop (lowerBound r x l), ¬r y x := by
  induction l with
  | nil => exact nofun
  | cons y l ih =>
    obtain ⟨hy, hl⟩ := List.pairwise_cons.mp h
    rw [lowerBound]
    split
    · exact ih hl
    · next hnot =>
      intro z hz hzx
      rw [List.drop_zero, List.mem_cons] at hz
      obtain rfl | hz := hz
      · exact hnot hzx
      · exact hnot (IsTrans.trans _ _ _ (hy z hz) hzx)

theorem getElem?_lowerBound (h : Sorted r l) (hx : x ∈ l) : l[lowerBound r x l]? = some x := by
  have hmem : x ∈ l.take (lowerBound r x l) ++ l.drop (lowerBound r x l) := by rwa [List.take_append_drop]
  rw [← List.head?_drop]
  obtain hbefore | hafter := List.mem_append.mp hmem
  · exact absurd (before_lowerBound x hbefore) (Std.Irrefl.irrefl x)
  · have hsorted : Sorted r (l.drop (lowerBound r x l)) := h.sublist (List.drop_sublist _ _)
    have hnot := after_lowerBound (x := x) h
    cases hdrop : l.drop (lowerBound r x l) with
    | nil =>
      rw [hdrop] at hafter
      cases hafter
    | cons y rest =>
      rw [hdrop] at hafter hsorted hnot
      obtain rfl | hrest := List.mem_cons.mp hafter
      · rfl
      · exact absurd ((List.pairwise_cons.mp hsorted).1 x hrest) (hnot y List.mem_cons_self)

theorem present_iff (h : Sorted r l) : present r x l = true ↔ x ∈ l := by
  constructor
  · intro hp
    cases hget : l[lowerBound r x l]? with
    | none =>
      rw [present, hget] at hp
      cases hp
    | some y =>
      rw [present, hget] at hp
      have hxy : ¬r x y := by simpa using hp
      rw [← List.head?_drop] at hget
      have hy := List.mem_of_mem_head? hget
      have heq : x = y := Std.Trichotomous.trichotomous x y hxy (after_lowerBound h y hy)
      rw [heq]
      exact List.mem_of_mem_drop hy
  · intro hx
    rw [present, getElem?_lowerBound h hx]
    simp [Std.Irrefl.irrefl]

/-- **`find`** of an element. -/
theorem find_of_mem (h : Sorted r l) (hx : x ∈ l) : l[find r x l]? = some x := by
  rw [find, if_pos ((present_iff h).mpr hx)]
  exact getElem?_lowerBound h hx

/-- **`erase`** of an element that was found. -/
theorem erase_spec [DecidableEq α] (h : Sorted r l) (hx : x ∈ l) : erase l (find r x l) = some (l.erase x) := by
  obtain ⟨hlt, hget⟩ := List.getElem?_eq_some_iff.mp (find_of_mem h hx)
  rw [OrdSet.erase, if_pos hlt, ← h.nodup.erase_getElem _ hlt, hget]

/-- **`insert`** keeps the order. -/
theorem sorted_insert (h : Sorted r l) : Sorted r (insert r x l).1 := by
  simp only [insert]
  split
  · exact h
  · next hp =>
    rw [present_iff h] at hp
    have hbefore : ∀ y ∈ l.take (lowerBound r x l), r y x := before_lowerBound
    have hafter : ∀ y ∈ l.drop (lowerBound r x l), r x y := by
      intro y hy
      by_contra hxy
      have heq : x = y := Std.Trichotomous.trichotomous x y hxy (after_lowerBound h y hy)
      exact hp (heq ▸ List.mem_of_mem_drop hy)
    refine List.pairwise_append.mpr ⟨h.sublist (List.take_sublist _ _), ?_, ?_⟩
    · exact List.pairwise_cons.mpr ⟨hafter, h.sublist (List.drop_sublist _ _)⟩
    · intro y hy z hz
      obtain rfl | hz := List.mem_cons.mp hz
      · exact hbefore y hy
      · exact IsTrans.trans _ _ _ (hbefore y hy) (hafter z hz)

theorem mem_insert (h : Sorted r l) : y ∈ (insert r x l).1 ↔ y = x ∨ y ∈ l := by
  simp only [insert]
  split
  · next hp =>
    have hx := (present_iff h).mp hp
    refine ⟨.inr, ?_⟩
    rintro (rfl | hy)
    · exact hx
    · exact hy
  · rw [List.mem_append, List.mem_cons, or_left_comm, ← List.mem_append, List.take_append_drop]

/-- The element is at the front exactly if no other is before it. -/
theorem insert_front_iff (h : Sorted r l) : (insert r x l).2 = 0 ↔ ∀ y ∈ l, ¬r y x := by
  constructor
  · intro hfront
    have hafter := after_lowerBound (x := x) h
    rwa [show lowerBound r x l = 0 from hfront, List.drop_zero] at hafter
  · intro hall
    show lowerBound r x l = 0
    cases l with
    | nil => rfl
    | cons y l => rw [lowerBound, if_neg (hall y List.mem_cons_self)]

end OrdSet

end Lib
