import Mathlib.Data.List.TakeWhile
import OtaServer.Timer.Order

/-!
# What `listExpiredCb` takes out, and what it makes of it

* `expired_eq_due`: without a rollover `lower_bound` and the loop behind it find the end of the timers that are due,
  wherever `now_timer` happens to be in memory.
* `expire_spec`, `foldl_expire`: the loop over these timers.
* `listExpiredCb_spec`: the whole call.
-/

namespace Sherry

open Lib

namespace TimerManager

variable {s : TimerManager} {a now tmp : Nat}

/-! ## The end of the timers that have expired -/

/-- The timers whose deadline has come. -/
def due (s : TimerManager) (now : Nat) : List Nat := s.timers.filter fun a => decide ((s.heap a).next ≤ now)

theorem mem_due : a ∈ s.due now ↔ a ∈ s.timers ∧ (s.heap a).next ≤ now := by
  rw [due, List.mem_filter, decide_eq_true_eq]

theorem pairwise_next {heap : Nat → Timer} {l : List Nat} (h : OrdSet.Sorted (less heap) l) :
    l.Pairwise fun a b => (heap a).next ≤ (heap b).next := by
  refine h.imp fun {a b} hab => ?_
  rw [less] at hab
  omega

/-- Behind the timers whose deadline is `now` come later ones only, if no earlier ones are left. -/
theorem later_of_dropWhile {l : List Nat} (h : OrdSet.Sorted (less s.heap) l)
    (hnow : ∀ a ∈ l, now ≤ (s.heap a).next) :
    ∀ a ∈ l.dropWhile fun a => (s.heap a).next == now, now < (s.heap a).next := by
  induction l with
  | nil => exact nofun
  | cons b l ih =>
    obtain ⟨hb, hl⟩ := List.pairwise_cons.mp (pairwise_next h)
    rw [List.dropWhile_cons]
    split
    · exact ih (List.pairwise_cons.mp h).2 fun a ha => hnow a (List.mem_cons_of_mem b ha)
    · next hne =>
      have hfirst := hnow b List.mem_cons_self
      have hlater : now < (s.heap b).next := by
        rw [beq_iff_eq] at hne
        omega
      intro a ha
      obtain rfl | ha := List.mem_cons.mp ha
      · exact hlater
      · exact Nat.lt_of_lt_of_le hlater (hb a ha)

/-- **Without a rollover** the timers that are due are taken out, and no others. -/
theorem expired_eq_due (h : OrdSet.Sorted (less s.heap) s.timers) (htmp : tmp ∉ s.timers)
    (hroll : detectClockRollover s.previouseTime now = false) : s.expired now tmp = s.due now := by
  have hsorted := sorted_setTimer (t := { next := now }) h htmp
  have hheap : ∀ a ∈ s.timers, (s.setTimer tmp { next := now }).heap a = s.heap a := by
    intro a ha
    have hne : a ≠ tmp := fun heq => htmp (heq ▸ ha)
    rw [setTimer_heap, if_neg hne]
  have htmpNext : (s.setTimer tmp { next := now }).heap tmp = { next := now } := by
    rw [setTimer_heap, if_pos rfl]
  -- `lower_bound` splits the set at `now`
  generalize hi : OrdSet.lowerBound (less (s.setTimer tmp { next := now }).heap) tmp s.timers = i
  have hbefore : ∀ a ∈ s.timers.take i, (s.heap a).next ≤ now := by
    intro a ha
    have hless := OrdSet.before_lowerBound a (hi ▸ ha)
    rw [less, hheap a (List.mem_of_mem_take ha), htmpNext] at hless
    dsimp only at hless
    omega
  have hafter : ∀ a ∈ s.timers.drop i, now ≤ (s.heap a).next := by
    intro a ha
    have hless := OrdSet.after_lowerBound hsorted a (hi ▸ ha)
    rw [less, hheap a (List.mem_of_mem_drop ha), htmpNext] at hless
    dsimp only at hless
    omega
  have hlater := later_of_dropWhile (h.sublist (List.drop_sublist i _)) hafter
  -- the loop adds the timers whose deadline is `now`
  have hexpired : s.expired now tmp =
      s.timers.take i ++ (s.timers.drop i).takeWhile fun a => (s.heap a).next == now := by
    have hend : s.expiredEnd now tmp false =
        i + ((s.timers.drop i).takeWhile fun a => (s.heap a).next == now).length := by
      rw [← hi]
      rfl
    rw [expired, hroll, hend, List.take_add, ← List.prefix_iff_eq_take.mp (List.takeWhile_prefix _)]
  have hdue : s.due now = (s.timers.take i ++ ((s.timers.drop i).takeWhile (fun a => (s.heap a).next == now) ++
      (s.timers.drop i).dropWhile fun a => (s.heap a).next == now)).filter
        fun a => decide ((s.heap a).next ≤ now) := by
    rw [List.takeWhile_append_dropWhile, List.take_append_drop, due]
  rw [hexpired, hdue, List.filter_append, List.filter_append, List.filter_eq_self.mpr, List.filter_eq_self.mpr,
    List.filter_eq_nil_iff.mpr, List.append_nil]
  · intro a ha
    rw [decide_eq_true_eq]
    exact Nat.not_le_of_lt (hlater a ha)
  · intro a ha
    have hnext := List.mem_takeWhile_imp ha
    rw [beq_iff_eq] at hnext
    exact decide_eq_true (Nat.le_of_eq hnext)
  · intro a ha
    exact decide_eq_true (hbefore a ha)

/-- **On a rollover** all timers are taken out. -/
theorem expired_of_rollover (hroll : detectClockRollover s.previouseTime now = true) :
    s.expired now tmp = s.timers := by
  rw [expired, hroll, expiredEnd, if_pos rfl]
  exact List.take_of_length_le (Nat.le_add_right _ _)

/-! ## The loop -/

/-- What becomes of a timer that has expired. -/
def Timer.fired (now : Nat) (t : Timer) : Timer :=
  if t.recurring then { t with next := (now + t.ms) % 2 ^ 64 } else { t with cb := none }

/-- One timer: its callback is taken, and it goes back into the set if it is recurring. -/
theorem expire_spec (now : Nat) {l : List Nat} {x : TimerManager × List (Option Nat)} (h : Expiring x.1 (a :: l)) :
    (expire now x a).2 = x.2 ++ [(x.1.heap a).cb] ∧
      (∀ b, (expire now x a).1.heap b = if b = a then (x.1.heap a).fired now else x.1.heap b) ∧
      (∀ b, b ∈ (expire now x a).1.timers ↔ b = a ∧ (x.1.heap a).recurring = true ∨ b ∈ x.1.timers) ∧
      (expire now x a).1.tickled = x.1.tickled := by
  have hnot := h.out a List.mem_cons_self
  refine ⟨rfl, ?_⟩
  simp only [expire, Timer.fired]
  split
  · next hrec =>
    refine ⟨fun b => setTimer_heap .., fun b => ?_, rfl⟩
    rw [(put_spec h.sorted hnot).2, and_iff_left hrec]
  · next hrec =>
    refine ⟨fun b => setTimer_heap .., fun b => ?_, rfl⟩
    rw [iff_false_intro hrec, and_false, false_or]
    rfl

theorem foldl_expire (now : Nat) {l : List Nat} {x : TimerManager × List (Option Nat)} (h : Expiring x.1 l) :
    (l.foldl (expire now) x).2 = x.2 ++ l.map (fun a => (x.1.heap a).cb) ∧
      (∀ b, (l.foldl (expire now) x).1.heap b = if b ∈ l then (x.1.heap b).fired now else x.1.heap b) ∧
      (∀ b, b ∈ (l.foldl (expire now) x).1.timers ↔ b ∈ l ∧ (x.1.heap b).recurring = true ∨ b ∈ x.1.timers) ∧
      (l.foldl (expire now) x).1.tickled = x.1.tickled := by
  induction l generalizing x with
  | nil => simp
  | cons a l ih =>
    obtain ⟨hal, -⟩ := List.nodup_cons.mp h.nodup
    obtain ⟨hcbs, hheap, htimers, htickled⟩ := expire_spec now h
    obtain ⟨hcbs', hheap', htimers', htickled'⟩ := ih (x := expire now x a) h.step
    have hother : ∀ b ∈ l, (expire now x a).1.heap b = x.1.heap b := by
      intro b hb
      have hne : b ≠ a := fun heq => hal (heq ▸ hb)
      rw [hheap, if_neg hne]
    rw [List.foldl_cons]
    refine ⟨?_, fun b => ?_, fun b => ?_, htickled'.trans htickled⟩
    · rw [hcbs', hcbs, List.append_assoc, List.map_cons, List.singleton_append]
      congr 2
      exact List.map_congr_left fun b hb => by rw [hother b hb]
    · rw [hheap', hheap]
      by_cases hb : b = a
      · subst hb
        rw [if_neg hal, if_pos rfl, if_pos List.mem_cons_self]
      · simp only [List.mem_cons, hb, false_or, if_false]
    · rw [htimers', htimers]
      by_cases hb : b = a
      · subst hb
        simp [hal]
      · have hmem : b ∈ l ∧ ((expire now x a).1.heap b).recurring = true ↔ b ∈ l ∧ (x.1.heap b).recurring = true :=
          and_congr_right fun hbl => by rw [hother b hbl]
        rw [hmem]
        simp only [List.mem_cons, hb, false_and, false_or]

theorem expired_eq_nil (h : Inv s) (htmp : tmp ∉ s.timers) {first : Nat} {rest : List Nat}
    (htimers : s.timers = first :: rest) (hroll : detectClockRollover s.previouseTime now = false)
    (hfirst : now < (s.heap first).next) : s.expired now tmp = [] := by
  rw [expired_eq_due h.sorted htmp hroll, due, List.filter_eq_nil_iff]
  intro a ha hdue
  have hnext := pairwise_next h.sorted
  rw [htimers, List.pairwise_cons] at hnext
  rw [decide_eq_true_eq] at hdue
  rw [htimers] at ha
  obtain rfl | ha := List.mem_cons.mp ha
  · omega
  · have := hnext.1 a ha
    omega

/-- **`listExpiredCb`**: the callbacks of the timers that have expired, in their order; the recurring ones are set
anew, and the others have no callback any more and are out of the set. -/
theorem listExpiredCb_spec (now : Nat) (h : Inv s) (htmp : tmp ∉ s.timers) :
    (s.listExpiredCb now tmp).2 = (s.expired now tmp).map (fun a => (s.heap a).cb) ∧
      (∀ b, (s.listExpiredCb now tmp).1.heap b =
        if b ∈ s.expired now tmp then (s.heap b).fired now else s.heap b) ∧
      (∀ b, b ∈ (s.listExpiredCb now tmp).1.timers ↔
        b ∈ s.timers ∧ (b ∈ s.expired now tmp → (s.heap b).recurring = true)) ∧
      (s.listExpiredCb now tmp).1.tickled = s.tickled := by
  have hexpiring := h.expiring now tmp
  unfold listExpiredCb
  split
  · next hempty =>
    have hnil : s.expired now tmp = [] := by rw [expired, hempty, List.take_nil]
    rw [hnil, hempty]
    simp
  · next first rest htimers =>
    dsimp only
    split
    · next hreturn =>
      rw [Bool.and_eq_true, Bool.not_eq_true', decide_eq_true_eq] at hreturn
      rw [expired_eq_nil h htmp htimers hreturn.1 hreturn.2]
      simp
    · obtain ⟨hcbs, hheap, hmem, htickled⟩ := foldl_expire now (x := (_, [])) hexpiring
      refine ⟨hcbs, hheap, fun b => (hmem b).trans ?_, htickled⟩
      -- a timer is either among those that have expired or left in the set
      have hsplit : b ∈ s.timers ↔ b ∈ s.expired now tmp ∨
          b ∈ s.timers.drop (s.expiredEnd now tmp (detectClockRollover s.previouseTime now)) := by
        rw [expired, ← List.mem_append, List.take_append_drop]
      have hout := hexpiring.out b
      rw [hsplit]
      dsimp only at hout ⊢
      tauto

end TimerManager

end Sherry
