import Mathlib.Data.List.Basic

/-!
# Lists with a separator

Pieces that are joined by a separator, and when they can be told apart again.

* `append_cons_eq_iff`: two pieces can be confused in exactly one way, by a middle piece that moves from one side to
  the other.
* `append_cons_inj`: where the first piece has no separator, both pieces can be read back.
* `split_cases`: a list is one piece, or a first piece, a separator and the rest.
* `splitOnP_eq_cons`, `splitOnP_eq_three`: what it says that a list has several pieces, or three.
-/

namespace Lib

variable {α : Type} {c : α}

/-! ## Two pieces -/

variable {s t : List α}

/-- Two ways to cut a list at a separator: the same cut, or a middle piece between the two cuts. -/
theorem append_cons_eq_iff {s' t' : List α} : s ++ c :: t = s' ++ c :: t' ↔
    (s = s' ∧ t = t') ∨ (∃ m, s' = s ++ c :: m ∧ t = m ++ c :: t') ∨ ∃ m, s = s' ++ c :: m ∧ t' = m ++ c :: t := by
  constructor
  · intro h
    obtain ⟨m, rfl, hm⟩ | ⟨m, rfl, hm⟩ := List.append_eq_append_iff.mp h
    · cases m with
      | nil => exact .inl ⟨(List.append_nil s).symm, (List.cons.inj hm).2⟩
      | cons x m =>
        obtain ⟨rfl, rfl⟩ := List.cons.inj hm
        exact .inr (.inl ⟨m, rfl, rfl⟩)
    · cases m with
      | nil => exact .inl ⟨List.append_nil s', (List.cons.inj hm).2.symm⟩
      | cons x m =>
        obtain ⟨rfl, rfl⟩ := List.cons.inj hm
        exact .inr (.inr ⟨m, rfl, rfl⟩)
  · rintro (⟨rfl, rfl⟩ | ⟨m, rfl, rfl⟩ | ⟨m, rfl, rfl⟩)
    · rfl
    · rw [List.append_assoc, List.cons_append]
    · rw [List.append_assoc, List.cons_append]

/-- First pieces without a separator can be read back. -/
theorem append_cons_inj {s' t' : List α} (h : c ∉ s) (h' : c ∉ s') :
    s ++ c :: t = s' ++ c :: t' ↔ s = s' ∧ t = t' := by
  rw [append_cons_eq_iff]
  refine ⟨fun hcut => ?_, .inl⟩
  obtain heq | ⟨m, rfl, -⟩ | ⟨m, rfl, -⟩ := hcut
  · exact heq
  · exact absurd (List.mem_append_right s List.mem_cons_self) h'
  · exact absurd (List.mem_append_right s' List.mem_cons_self) h

theorem drop_append_cons (s t : List α) : (s ++ c :: t).drop (s.length + 1) = t := by
  rw [← List.drop_drop, List.drop_left, List.drop_succ_cons, List.drop_zero]

/-! ## All pieces -/

variable [DecidableEq α]

theorem split_single (h : c ∉ s) : s.splitOnP (· == c) = [s] := by
  refine List.splitOnP_eq_singleton fun x hx => ?_
  have hne : x ≠ c := fun e => h (e ▸ hx)
  simpa using hne

theorem split_append (h : c ∉ s) (t : List α) :
    (s ++ c :: t).splitOnP (· == c) = s :: t.splitOnP (· == c) := by
  rw [List.splitOnP_append_cons (p := (· == c)) s t (beq_self_eq_true c), split_single h]
  rfl

/-- A list is one piece, or a first piece, a separator and the rest. -/
theorem split_cases (c : α) (t : List α) : (c ∉ t ∧ t.splitOnP (· == c) = [t]) ∨
      ∃ s t', c ∉ s ∧ t = s ++ c :: t' ∧ t.splitOnP (· == c) = s :: t'.splitOnP (· == c) := by
  by_cases hc : c ∈ t
  · obtain ⟨s, t', rfl, hs⟩ := List.eq_append_cons_of_mem hc
    exact .inr ⟨s, t', hs, rfl, split_append hs t'⟩
  · exact .inl ⟨hc, split_single hc⟩

theorem splitOnP_eq_single : t.splitOnP (· == c) = [s] ↔ t = s ∧ c ∉ s := by
  constructor
  · intro h
    obtain ⟨hc, hone⟩ | ⟨s', t', -, rfl, hmore⟩ := split_cases c t
    · rw [hone] at h
      obtain rfl := List.singleton_inj.mp h
      exact ⟨rfl, hc⟩
    · rw [hmore] at h
      exact absurd (List.cons.inj h).2 (List.splitOnP_ne_nil _ _)
  · rintro ⟨rfl, hc⟩
    exact split_single hc

theorem splitOnP_eq_cons {ps : List (List α)} (hps : ps ≠ []) :
    t.splitOnP (· == c) = s :: ps ↔ ∃ t', t = s ++ c :: t' ∧ c ∉ s ∧ t'.splitOnP (· == c) = ps := by
  constructor
  · intro h
    obtain ⟨-, hone⟩ | ⟨s', t', hc, rfl, hmore⟩ := split_cases c t
    · rw [hone] at h
      exact absurd (List.cons.inj h).2.symm hps
    · rw [hmore] at h
      obtain ⟨rfl, hrest⟩ := List.cons.inj h
      exact ⟨t', rfl, hc, hrest⟩
  · rintro ⟨t', rfl, hc, rfl⟩
    exact split_append hc t'

theorem splitOnP_eq_three {s₁ s₂ s₃ : List α} : t.splitOnP (· == c) = [s₁, s₂, s₃] ↔
    t = s₁ ++ c :: (s₂ ++ c :: s₃) ∧ c ∉ s₁ ∧ c ∉ s₂ ∧ c ∉ s₃ := by
  rw [splitOnP_eq_cons (List.cons_ne_nil _ _)]
  constructor
  · rintro ⟨t', rfl, h₁, h⟩
    obtain ⟨t'', rfl, h₂, h⟩ := (splitOnP_eq_cons (List.cons_ne_nil _ _)).mp h
    obtain ⟨rfl, h₃⟩ := splitOnP_eq_single.mp h
    exact ⟨rfl, h₁, h₂, h₃⟩
  · rintro ⟨rfl, h₁, h₂, h₃⟩
    refine ⟨_, rfl, h₁, ?_⟩
    rw [split_append h₂, split_single h₃]

end Lib
