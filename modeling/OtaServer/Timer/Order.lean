import OtaServer.Lib.Run
import OtaServer.Timer.Manager

/-!
# `m_timers` stays ordered

* `put_spec`, `takeOut_spec`: a timer goes into the set and out of it. Its deadline changes only while it is out.
* `Inv`: the set is ordered, and the timers with a callback are its elements. `Inv.addTimer`, `Inv.cancel`,
  `Inv.refresh`, `Inv.reset`, `Inv.listExpiredCb`: the operations keep it.
* `timers_ordered`: any sequence of operations.
-/

namespace Sherry

open Lib

namespace TimerManager

instance less_isStrictTotalOrder (heap : Nat → Timer) : IsStrictTotalOrder Nat (less heap) where
  trichotomous a b hab hba := by
    simp only [less] at hab hba
    omega
  irrefl a h := by
    simp only [less] at h
    omega
  trans a b c hab hbc := by
    simp only [less] at hab hbc ⊢
    omega

variable {s s' : TimerManager} {a b : Nat} {t : Timer}

variable {l : List Nat} {now : Nat}

theorem sorted_congr {heap heap' : Nat → Timer} (h : OrdSet.Sorted (less heap) l)
    (hnext : ∀ a ∈ l, (heap' a).next = (heap a).next) : OrdSet.Sorted (less heap') l := by
  refine h.congr fun a ha b hb => ?_
  rw [less, less, hnext a ha, hnext b hb]

theorem setTimer_heap (s : TimerManager) (a b : Nat) (t : Timer) :
    (s.setTimer a t).heap b = if b = a then t else s.heap b := by
  simp only [setTimer, Function.update_apply]

theorem sorted_setTimer (h : OrdSet.Sorted (less s.heap) s.timers) (ha : a ∉ s.timers) :
    OrdSet.Sorted (less (s.setTimer a t).heap) s.timers := by
  refine sorted_congr h fun b hb => ?_
  have hne : b ≠ a := fun heq => ha (heq ▸ hb)
  rw [setTimer_heap, if_neg hne]

@[simp] theorem put_heap : (s.put a t).heap = (s.setTimer a t).heap := rfl

theorem put_spec (h : OrdSet.Sorted (less s.heap) s.timers) (ha : a ∉ s.timers) :
    OrdSet.Sorted (less (s.put a t).heap) (s.put a t).timers ∧
      ∀ b, b ∈ (s.put a t).timers ↔ b = a ∨ b ∈ s.timers := by
  have hsorted := sorted_setTimer (t := t) h ha
  exact ⟨OrdSet.sorted_insert hsorted, fun b => OrdSet.mem_insert hsorted⟩

theorem takeOut_spec (h : OrdSet.Sorted (less s.heap) s.timers) (ha : a ∈ s.timers) :
    s.takeOut a = some { s with timers := s.timers.erase a } := by
  rw [takeOut, OrdSet.erase_spec h ha]
  rfl

theorem sorted_erase (h : OrdSet.Sorted (less s.heap) s.timers) (a : Nat) :
    OrdSet.Sorted (less s.heap) (s.timers.erase a) ∧ ∀ b, b ∈ s.timers.erase a ↔ b ≠ a ∧ b ∈ s.timers :=
  ⟨h.sublist List.erase_sublist, fun _ => h.nodup.mem_erase_iff⟩

/-- The set is ordered, and the timers with a callback are its elements. -/
structure Inv (s : TimerManager) : Prop where
  sorted : OrdSet.Sorted (less s.heap) s.timers
  cb : ∀ a, (s.heap a).cb.isSome = true ↔ a ∈ s.timers

theorem Inv.of_put (hsorted : OrdSet.Sorted (less s.heap) s.timers) (ha : a ∉ s.timers)
    (hcb : ∀ b, b ≠ a → ((s.heap b).cb.isSome = true ↔ b ∈ s.timers)) (ht : t.cb.isSome = true) :
    Inv (s.put a t) := by
  obtain ⟨hsorted', hmem⟩ := put_spec (t := t) hsorted ha
  refine ⟨hsorted', fun b => ?_⟩
  rw [hmem, put_heap, setTimer_heap]
  by_cases hb : b = a
  · simp [hb, ht]
  · simp only [hb, if_false, false_or]
    exact hcb b hb

theorem Inv.insertTimer (hsorted : OrdSet.Sorted (less s.heap) s.timers) (ha : a ∉ s.timers)
    (hcb : ∀ b, b ≠ a → ((s.heap b).cb.isSome = true ↔ b ∈ s.timers)) (ht : t.cb.isSome = true) :
    Inv (s.insertTimer a t).1 := by
  have h := Inv.of_put hsorted ha hcb ht
  exact ⟨h.sorted, h.cb⟩

/-! ## `Timer::cancel`, `refresh` and `reset` -/

/-- `Timer::cancel` finds a timer that has a callback. -/
theorem cancel_eq (h : Inv s) (ha : (s.heap a).cb.isSome = true) :
    s.cancel a = some ({ s.setTimer a { s.heap a with cb := none } with timers := s.timers.erase a }, true) := by
  -- the order does not see that the callback is gone
  have hsorted : OrdSet.Sorted (less (s.setTimer a { s.heap a with cb := none }).heap) s.timers := by
    refine sorted_congr h.sorted fun b _ => ?_
    rw [setTimer_heap]
    split
    · next heq => rw [heq]
    · rfl
  rw [cancel, if_pos ha, takeOut_spec hsorted ((h.cb a).mp ha)]
  rfl

theorem refresh_eq (now : Nat) (h : Inv s) (ha : (s.heap a).cb.isSome = true) :
    s.refresh a now = (put { s with timers := s.timers.erase a } a
      { s.heap a with next := (now + (s.heap a).ms) % 2 ^ 64 }, true) := by
  rw [refresh, if_pos ha, takeOut_spec h.sorted ((h.cb a).mp ha)]

theorem resetLocked_eq (ms now : Nat) (fromNow : Bool) (h : Inv s) (ha : (s.heap a).cb.isSome = true) :
    ∃ t : Timer, t.ms = ms ∧ t.cb = (s.heap a).cb ∧
      t.next = ((if fromNow then now else ((s.heap a).next + 2 ^ 64 - (s.heap a).ms) % 2 ^ 64) + ms) % 2 ^ 64 ∧
      s.resetLocked a ms fromNow now =
        ((insertTimer { s with timers := s.timers.erase a } a t).1, true,
          (insertTimer { s with timers := s.timers.erase a } a t).2) := by
  rw [resetLocked, if_pos ha, takeOut_spec h.sorted ((h.cb a).mp ha)]
  refine ⟨_, ?_, ?_, ?_, rfl⟩
  all_goals rfl

theorem Inv.erased (h : Inv s) (a : Nat) :
    a ∉ s.timers.erase a ∧ ∀ b, b ≠ a → ((s.heap b).cb.isSome = true ↔ b ∈ s.timers.erase a) := by
  obtain ⟨-, hmem⟩ := sorted_erase h.sorted a
  refine ⟨fun hin => ((hmem a).mp hin).1 rfl, fun b hb => ?_⟩
  rw [hmem, and_iff_right hb]
  exact h.cb b

theorem Inv.refresh (h : Inv s) : Inv (s.refresh a now).1 := by
  by_cases ha : (s.heap a).cb.isSome = true
  · rw [refresh_eq now h ha]
    obtain ⟨hnot, hcb⟩ := h.erased a
    exact Inv.of_put (s := { s with timers := s.timers.erase a }) (sorted_erase h.sorted a).1 hnot hcb ha
  · rw [TimerManager.refresh, if_neg ha]
    exact h

theorem Inv.resetLocked {ms : Nat} {fromNow : Bool} (h : Inv s) : Inv (s.resetLocked a ms fromNow now).1 := by
  by_cases ha : (s.heap a).cb.isSome = true
  · obtain ⟨t, -, htcb, -, heq⟩ := resetLocked_eq ms now fromNow h ha
    rw [heq]
    obtain ⟨hnot, hcb⟩ := h.erased a
    exact Inv.insertTimer (s := { s with timers := s.timers.erase a }) (sorted_erase h.sorted a).1 hnot hcb
      (htcb ▸ ha)
  · rw [TimerManager.resetLocked, if_neg ha]
    exact h

theorem Inv.cancel (h : Inv s) : ∃ x, s.cancel a = some x ∧ Inv x.1 := by
  by_cases ha : (s.heap a).cb.isSome = true
  · refine ⟨_, cancel_eq h ha, ?_, fun b => ?_⟩
    · refine sorted_congr (sorted_erase h.sorted a).1 fun b hb => ?_
      have hne : b ≠ a := ((sorted_erase h.sorted a).2 b |>.mp hb).1
      exact congrArg Timer.next ((setTimer_heap ..).trans (if_neg hne))
    · show ((s.setTimer a _).heap b).cb.isSome = true ↔ b ∈ s.timers.erase a
      rw [setTimer_heap]
      by_cases hb : b = a
      · rw [if_pos hb, hb]
        exact iff_of_false nofun (h.erased a).1
      · rw [if_neg hb]
        exact (h.erased a).2 b hb
  · exact ⟨_, if_neg ha, h⟩

/-! ## Expiry -/

/-- What holds while the timers of `l` have been taken out and are still to be looked at. -/
structure Expiring (s : TimerManager) (l : List Nat) : Prop where
  sorted : OrdSet.Sorted (less s.heap) s.timers
  nodup : l.Nodup
  out : ∀ a ∈ l, a ∉ s.timers
  cb : ∀ a, (s.heap a).cb.isSome = true ↔ a ∈ s.timers ∨ a ∈ l

theorem Expiring.step {cbs : List (Option Nat)} (h : Expiring s (a :: l)) :
    Expiring (expire now (s, cbs) a).1 l := by
  obtain ⟨hal, hl⟩ := List.nodup_cons.mp h.nodup
  have hnot := h.out a List.mem_cons_self
  have hne : ∀ b ∈ l, b ≠ a := fun b hb heq => hal (heq ▸ hb)
  simp only [expire]
  split
  · obtain ⟨hsorted, hmem⟩ := put_spec (t := { s.heap a with next := (now + (s.heap a).ms) % 2 ^ 64 }) h.sorted hnot
    refine ⟨hsorted, hl, fun b hb => ?_, fun b => ?_⟩
    · rw [hmem, not_or]
      exact ⟨hne b hb, h.out b (List.mem_cons_of_mem _ hb)⟩
    · rw [hmem, put_heap, setTimer_heap]
      have hcb := h.cb b
      rw [List.mem_cons] at hcb
      split
      · next heq =>
        subst heq
        exact iff_of_true (hcb.mpr (.inr (.inl rfl))) (.inl (.inl rfl))
      · next hb =>
        rw [hcb]
        tauto
  · refine ⟨sorted_setTimer h.sorted hnot, hl, fun b hb => h.out b (List.mem_cons_of_mem _ hb), fun b => ?_⟩
    rw [setTimer_heap]
    have hcb := h.cb b
    rw [List.mem_cons] at hcb
    split
    · next heq =>
      subst heq
      exact iff_of_false nofun fun hor => hor.elim hnot hal
    · next hb =>
      rw [hcb]
      simp only [hb, false_or]
      rfl

theorem Expiring.foldl {x : TimerManager × List (Option Nat)}
    (h : Expiring x.1 l) : Inv (l.foldl (expire now) x).1 := by
  induction l generalizing x with
  | nil => exact ⟨h.sorted, fun a => by simpa using h.cb a⟩
  | cons a l ih => exact ih h.step

/-- The timers that `listExpiredCb` takes out. -/
def expired (s : TimerManager) (now tmp : Nat) : List Nat :=
  s.timers.take (s.expiredEnd now tmp (detectClockRollover s.previouseTime now))

theorem Inv.expiring (h : Inv s) (now tmp : Nat) : Expiring { s with
      previouseTime := now
      timers := s.timers.drop (s.expiredEnd now tmp (detectClockRollover s.previouseTime now)) }
      (s.expired now tmp) where
  sorted := h.sorted.sublist (List.drop_sublist _ _)
  nodup := h.sorted.nodup.sublist (List.take_sublist _ _)
  out _ ha := List.disjoint_take_drop h.sorted.nodup (Nat.le_refl _) ha
  cb a := by rw [h.cb a, or_comm, expired, ← List.mem_append, List.take_append_drop]

/-- **`listExpiredCb`**: all that expire are taken out before the first goes in again. -/
theorem Inv.listExpiredCb {tmp : Nat} (h : Inv s) : Inv (s.listExpiredCb now tmp).1 := by
  unfold TimerManager.listExpiredCb
  split
  · exact h
  · dsimp only
    split
    · exact ⟨h.sorted, h.cb⟩
    · exact Expiring.foldl (x := (_, [])) (h.expiring now tmp)

/-! ## Runs -/

/-- **One operation** keeps the invariant, and erases nothing at the end of the set. -/
theorem Inv.run? {op : TimerOp} (h : Inv s) (halloc : s.allocates op = true) :
    ∃ s', s.run? op = some s' ∧ Inv s' := by
  cases op with
  | addTimer a ms cb recurring now =>
    have ha : a ∉ s.timers := by simpa [allocates] using halloc
    exact ⟨_, rfl, Inv.insertTimer h.sorted ha (fun b _ => h.cb b) rfl⟩
  | cancel a =>
    obtain ⟨x, hx, hinv⟩ : ∃ x, s.cancel a = some x ∧ Inv x.1 := h.cancel
    exact ⟨x.1, by rw [TimerManager.run?, hx]; rfl, hinv⟩
  | refresh a now => exact ⟨_, rfl, h.refresh⟩
  | reset a ms fromNow now =>
    refine ⟨_, rfl, ?_⟩
    rw [TimerManager.reset]
    split
    · exact h
    · exact h.resetLocked
  | getNextTimer now => exact ⟨_, rfl, h.sorted, h.cb⟩
  | listExpiredCb now tmp => exact ⟨_, rfl, h.listExpiredCb⟩

theorem inv_new (previouseTime : Nat) : Inv { previouseTime } :=
  ⟨List.Pairwise.nil, fun _ => iff_of_false nofun nofun⟩

end TimerManager

/-- Any sequence of operations: the set is strictly ordered, a timer has a callback if and only if it is in the set,
once, `find` finds each of these, and no operation erases the end. -/
theorem timers_ordered (previouseTime : Nat) {r : List (TimerOp × TimerManager)}
    (hr : Run (fun s op s' => s.run? op = some s') { previouseTime } r)
    (halloc : Meets (fun s op => s.allocates op = true) { previouseTime } r) {s : TimerManager}
    (hs : s = lastState { previouseTime } r) : s.timers.Pairwise (TimerManager.less s.heap) ∧ s.timers.Nodup ∧
      (∀ a, (s.heap a).cb.isSome = true ↔ a ∈ s.timers) ∧ (∀ a, (s.heap a).cb.isSome = true →
        s.timers[OrdSet.find (TimerManager.less s.heap) a s.timers]? = some a) ∧
      ∀ op, s.allocates op = true → ∃ s', s.run? op = some s' := by
  have hnew := TimerManager.inv_new previouseTime
  have hinv : s.Inv := by
    rw [hs]
    refine (Run.inv (fun s op s' hi hc hstep => ?_) hr halloc hnew).last hnew
    obtain ⟨s'', hs'', hi'⟩ := hi.run? hc
    cases hstep.symm.trans hs''
    exact hi'
  refine ⟨hinv.sorted, hinv.sorted.nodup, hinv.cb, fun a ha => ?_, fun op hop => ?_⟩
  · exact OrdSet.find_of_mem hinv.sorted ((hinv.cb a).mp ha)
  · obtain ⟨s', hs', -⟩ := hinv.run? hop
    exact ⟨s', hs'⟩

/-- A recurring timer expires and is set anew, another one is cancelled. -/
theorem timers_ordered_two : ∃ r : List (TimerOp × TimerManager),
      Run (fun s op s' => s.run? op = some s') { previouseTime := 1000 } r ∧
        (lastState { previouseTime := 1000 } r).timers = [8] ∧
        ((lastState { previouseTime := 1000 } r).heap 8).cb.isSome = true := by
  obtain ⟨r, hr, halloc, htimers⟩ := exists_run_of_trace? (f := TimerManager.run?) (s := { previouseTime := 1000 })
    [.addTimer 8 20 1 true 1000, .addTimer 3 30 2 false 1000, .refresh 8 1005, .listExpiredCb 1030 5,
      .addTimer 3 10 2 true 1031, .reset 3 5 false 1032, .cancel 3]
    (P := fun r => Meets (fun s op => s.allocates op = true) { previouseTime := 1000 } r ∧
      (lastState { previouseTime := 1000 } r).timers = [8]) (by decide +kernel)
  refine ⟨r, hr, htimers, ((timers_ordered 1000 hr halloc rfl).2.2.1 8).mpr ?_⟩
  rw [htimers]
  exact List.mem_singleton.mpr rfl

end Sherry
