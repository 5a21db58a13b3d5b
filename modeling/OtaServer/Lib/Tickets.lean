import Mathlib.Data.List.Nodup
import Mathlib.Logic.Function.Basic

/-!
# Tickets in slots

Each put takes a new ticket, which stays in its slot until it is taken out, in one of two ways.

* `Tickets`: the slots, the tickets that were used and those that were dropped. `Tickets.put`, `Tickets.use`,
  `Tickets.drop`: the operations.
* `Tickets.Ok`: a ticket is in one slot, or was used, or was dropped; the operations keep it.
* `Tickets.Ok.fate`: each ticket is still in a slot, or was used or dropped, once.
-/

namespace Lib

/-- Slots with tickets. -/
structure Tickets (ι : Type) where
  slot : ι → Option Nat
  used : List Nat
  dropped : List Nat
  /-- The number of tickets so far, which is the next ticket. -/
  issued : Nat

namespace Tickets

variable {ι : Type} {t : Tickets ι} {i : ι} {k : Nat}

/-- A ticket is in one slot, or was used, or was dropped. -/
structure Ok (t : Tickets ι) : Prop where
  slot : ∀ i k, t.slot i = some k → k < t.issued ∧ k ∉ t.used ++ t.dropped
  inj : ∀ i j k, t.slot i = some k → t.slot j = some k → i = j
  nodup : (t.used ++ t.dropped).Nodup
  lt : ∀ k ∈ t.used ++ t.dropped, k < t.issued
  total : ∀ k, k < t.issued → k ∈ t.used ++ t.dropped ∨ ∃ i, t.slot i = some k

theorem Ok.empty : Ok (⟨fun _ => none, [], [], 0⟩ : Tickets ι) :=
  ⟨nofun, nofun, List.nodup_nil, nofun, nofun⟩

/-- Where a ticket is. -/
theorem Ok.fate (h : Ok t) (hk : k < t.issued) :
    (∃ i, t.slot i = some k) ∧ t.used.count k = 0 ∧ t.dropped.count k = 0 ∨
      (∀ i, t.slot i ≠ some k) ∧ t.used.count k + t.dropped.count k = 1 := by
  obtain hmem | ⟨i, hi⟩ := h.total k hk
  · refine .inr ⟨fun i hi => (h.slot i k hi).2 hmem, ?_⟩
    rw [← List.count_append]
    exact List.count_eq_one_of_mem h.nodup hmem
  · have hout := (h.slot i k hi).2
    rw [List.mem_append, not_or] at hout
    exact .inl ⟨⟨i, hi⟩, List.count_eq_zero_of_not_mem hout.1, List.count_eq_zero_of_not_mem hout.2⟩

variable [DecidableEq ι]

/-- A new ticket is put into a slot. -/
def put (t : Tickets ι) (i : ι) : Tickets ι :=
  { t with slot := Function.update t.slot i (some t.issued), issued := t.issued + 1 }

/-- The ticket `k` of slot `i` is used. -/
def use (t : Tickets ι) (i : ι) (k : Nat) : Tickets ι :=
  { t with slot := Function.update t.slot i none, used := k :: t.used }

/-- The ticket `k` of slot `i` is dropped. -/
def drop (t : Tickets ι) (i : ι) (k : Nat) : Tickets ι :=
  { t with slot := Function.update t.slot i none, dropped := k :: t.dropped }

theorem Ok.put (h : Ok t) (hi : t.slot i = none) : Ok (t.put i) where
  slot := by
    intro j k hj
    change Function.update t.slot i (some t.issued) j = some k at hj
    by_cases hji : j = i
    · rw [hji, Function.update_self] at hj
      obtain rfl := Option.some.inj hj
      exact ⟨Nat.lt_succ_self _, fun hmem => Nat.lt_irrefl _ (h.lt _ hmem)⟩
    · rw [Function.update_of_ne hji] at hj
      exact ⟨Nat.lt_succ_of_lt (h.slot j k hj).1, (h.slot j k hj).2⟩
  inj := by
    intro a b k ha hb
    change Function.update t.slot i (some t.issued) a = some k at ha
    change Function.update t.slot i (some t.issued) b = some k at hb
    -- no other slot has the new ticket
    have hnew : ∀ j, t.slot j ≠ some t.issued := fun j hj => Nat.lt_irrefl _ (h.slot j _ hj).1
    by_cases hai : a = i <;> by_cases hbi : b = i
    · rw [hai, hbi]
    · rw [hai, Function.update_self] at ha
      rw [Function.update_of_ne hbi, ← ha] at hb
      exact absurd hb (hnew b)
    · rw [hbi, Function.update_self] at hb
      rw [Function.update_of_ne hai, ← hb] at ha
      exact absurd ha (hnew a)
    · rw [Function.update_of_ne hai] at ha
      rw [Function.update_of_ne hbi] at hb
      exact h.inj a b k ha hb
  nodup := h.nodup
  lt := fun k hk => Nat.lt_succ_of_lt (h.lt k hk)
  total := by
    intro k hk
    obtain hlt | rfl := Nat.lt_succ_iff_lt_or_eq.mp hk
    · obtain hmem | ⟨j, hj⟩ := h.total k hlt
      · exact .inl hmem
      · refine .inr ⟨j, ?_⟩
        show Function.update t.slot i (some t.issued) j = some k
        rw [Function.update_of_ne, hj]
        rintro rfl
        rw [hi] at hj
        cases hj
    · refine .inr ⟨i, ?_⟩
      exact Function.update_self i _ _

/-- A ticket is taken out of its slot: what was taken out is a permutation of the ticket and what was taken out
before. -/
theorem Ok.take {used dropped : List Nat} (h : Ok t) (hi : t.slot i = some k)
    (hperm : (used ++ dropped).Perm (k :: (t.used ++ t.dropped))) :
    Ok ⟨Function.update t.slot i none, used, dropped, t.issued⟩ where
  slot := by
    intro j l hj
    change Function.update t.slot i none j = some l at hj
    by_cases hji : j = i
    · rw [hji, Function.update_self] at hj
      cases hj
    · rw [Function.update_of_ne hji] at hj
      refine ⟨(h.slot j l hj).1, ?_⟩
      rw [hperm.mem_iff, List.mem_cons, not_or]
      -- two slots with one ticket would be one slot
      refine ⟨?_, (h.slot j l hj).2⟩
      rintro rfl
      exact hji (h.inj j i l hj hi)
  inj := by
    intro a b l ha hb
    change Function.update t.slot i none a = some l at ha
    change Function.update t.slot i none b = some l at hb
    have hold : ∀ {j}, Function.update t.slot i none j = some l → t.slot j = some l := by
      intro j hj
      by_cases hji : j = i
      · rw [hji, Function.update_self] at hj
        cases hj
      · rwa [Function.update_of_ne hji] at hj
    exact h.inj a b l (hold ha) (hold hb)
  nodup := hperm.nodup_iff.mpr (List.nodup_cons.mpr ⟨(h.slot i k hi).2, h.nodup⟩)
  lt := by
    intro l hl
    obtain rfl | hl := List.mem_cons.mp (hperm.mem_iff.mp hl)
    · exact (h.slot i l hi).1
    · exact h.lt l hl
  total := by
    intro l hl
    rw [hperm.mem_iff, List.mem_cons]
    obtain hmem | ⟨j, hj⟩ := h.total l hl
    · exact .inl (.inr hmem)
    · by_cases hji : j = i
      · rw [hji, hi] at hj
        exact .inl (.inl (Option.some.inj hj).symm)
      · refine .inr ⟨j, ?_⟩
        show Function.update t.slot i none j = some l
        rwa [Function.update_of_ne hji]

theorem Ok.use (h : Ok t) (hi : t.slot i = some k) : Ok (t.use i k) := h.take hi (List.Perm.refl _)

theorem Ok.drop (h : Ok t) (hi : t.slot i = some k) : Ok (t.drop i k) := h.take hi List.perm_middle

end Tickets

end Lib
