import OtaServer.Timer.Expiry

/-!
# What the operations make of the deadlines

* `Keeps`: the timers that are left have no earlier deadline than before. `cancel_keeps`, `refresh_keeps`,
  `listExpiredCb_keeps`.
* `Inserts`: one timer has a new deadline, and if it is the first, `onTimerInsertedAtFront` is called, or was to be
  called before. `insertTimer_inserts`, `resetLocked_inserts`.
* `Spans`: a deadline is a reading of the clock and the interval. It holds while deadlines do not wrap.
-/

namespace Sherry

open Lib

namespace TimerManager

variable {s s' : TimerManager} {a b now tmp clock : Nat} {t : Timer}

/-- No timer comes in, and none has an earlier deadline. -/
structure Keeps (s s' : TimerManager) : Prop where
  later : ∀ a ∈ s'.timers, a ∈ s.timers ∧ (s.heap a).next ≤ (s'.heap a).next
  tickled : s'.tickled = s.tickled

/-- One timer has a new deadline. If it is not announced, that was done before, or it is not the first. -/
structure Inserts (s s' : TimerManager) (atFront : Bool) : Prop where
  tickled : s'.tickled = (atFront || s.tickled)
  first : atFront = true ∨ s.tickled = true ∨
    ∀ a ∈ s'.timers, ∃ b ∈ s.timers, (s.heap b).next ≤ (s'.heap a).next

/-- The deadlines are readings of the clock, and the intervals from there on. -/
def Spans (clock : Nat) (s : TimerManager) : Prop :=
  ∀ a ∈ s.timers, (s.heap a).ms ≤ (s.heap a).next ∧ (s.heap a).next ≤ clock + (s.heap a).ms

theorem Keeps.refl (s : TimerManager) : Keeps s s := ⟨fun _ ha => ⟨ha, Nat.le_refl _⟩, rfl⟩

theorem Spans.mono {clock' : Nat} (h : Spans clock s) (hclock : clock ≤ clock') : Spans clock' s := by
  intro a ha
  have hspan := h a ha
  omega

theorem Spans.of_same (h : Spans clock s) (hsame : ∀ a ∈ s'.timers, a ∈ s.timers ∧ (s'.heap a).ms = (s.heap a).ms ∧
      (s'.heap a).next = (s.heap a).next) : Spans clock s' := by
  intro a ha
  obtain ⟨hmem, hms, hnext⟩ := hsame a ha
  rw [hms, hnext]
  exact h a hmem

theorem Spans.put (h : Spans clock s) (hsorted : OrdSet.Sorted (less s.heap) s.timers) (ha : a ∉ s.timers)
    (hlow : t.ms ≤ t.next) (hhigh : t.next ≤ clock + t.ms) : Spans clock (s.put a t) := by
  intro b hb
  rw [(put_spec hsorted ha).2] at hb
  rw [put_heap, setTimer_heap]
  split
  · exact ⟨hlow, hhigh⟩
  · next hne => exact h b (hb.resolve_left hne)

/-! ## Insertion -/

theorem insertTimer_inserts (h : OrdSet.Sorted (less s.heap) s.timers) (ha : a ∉ s.timers) :
    Inserts s (s.insertTimer a t).1 (s.insertTimer a t).2 := by
  refine ⟨rfl, ?_⟩
  by_cases hfront : (s.insertTimer a t).2 = true
  · exact .inl hfront
  · refine .inr ?_
    cases htickled : s.tickled with
    | true => exact .inl rfl
    | false =>
      right
      have hsorted := sorted_setTimer (t := t) h ha
      -- the timer is not the first: another one is before it
      have hbefore : ∃ b ∈ s.timers, less (s.setTimer a t).heap b a := by
        by_contra hnone
        push Not at hnone
        refine hfront ?_
        simp only [insertTimer, htickled, (OrdSet.insert_front_iff hsorted).mpr hnone]
        rfl
      obtain ⟨b, hb, hless⟩ := hbefore
      have hne : b ≠ a := fun heq => ha (heq ▸ hb)
      have hnext : (s.heap b).next ≤ t.next := by
        rw [less, setTimer_heap, setTimer_heap, if_pos rfl, if_neg hne] at hless
        omega
      intro c hc
      have hheap : (s.insertTimer a t).1.heap c = if c = a then t else s.heap c := setTimer_heap s a c t
      rw [hheap]
      split
      · exact ⟨b, hb, hnext⟩
      · next hca =>
        exact ⟨c, ((put_spec h ha).2 c |>.mp hc).resolve_left hca, Nat.le_refl _⟩

theorem Inserts.of_takeOut {atFront : Bool} (h : Inserts s s' atFront) {s₀ : TimerManager}
    (hheap : s.heap = s₀.heap) (hmem : ∀ a ∈ s.timers, a ∈ s₀.timers) (htickled : s.tickled = s₀.tickled) :
    Inserts s₀ s' atFront := by
  refine ⟨htickled ▸ h.tickled, ?_⟩
  obtain hfront | hset | hfirst := h.first
  · exact .inl hfront
  · exact .inr (.inl (htickled ▸ hset))
  · refine .inr (.inr fun a ha => ?_)
    obtain ⟨b, hb, hnext⟩ := hfirst a ha
    exact ⟨b, hmem b hb, hheap ▸ hnext⟩

theorem resetLocked_inserts {ms : Nat} {fromNow : Bool} (h : Inv s) :
    Inserts s (s.resetLocked a ms fromNow now).1 (s.resetLocked a ms fromNow now).2.2 := by
  by_cases hcb : (s.heap a).cb.isSome = true
  · obtain ⟨t, -, -, -, heq⟩ := resetLocked_eq ms now fromNow h hcb
    rw [heq]
    obtain ⟨hsorted, hmem⟩ := sorted_erase h.sorted a
    have ha := (h.erased a).1
    exact (insertTimer_inserts (s := { s with timers := s.timers.erase a }) hsorted ha).of_takeOut rfl
      (fun b hb => ((hmem b).mp hb).2) rfl
  · rw [resetLocked, if_neg hcb]
    exact ⟨rfl, .inr (.inr fun b hb => ⟨b, hb, Nat.le_refl _⟩)⟩

theorem resetLocked_spans {ms : Nat} {fromNow : Bool} (h : Inv s) (hspans : Spans now s)
    (hfit : (if fromNow then now else ((s.heap a).next + 2 ^ 64 - (s.heap a).ms) % 2 ^ 64) + ms < 2 ^ 64) :
    Spans now (s.resetLocked a ms fromNow now).1 := by
  by_cases hcb : (s.heap a).cb.isSome = true
  · obtain ⟨t, hms, -, hnext, heq⟩ := resetLocked_eq ms now fromNow h hcb
    rw [heq]
    rw [Nat.mod_eq_of_lt hfit] at hnext
    obtain ⟨hsorted, hmem⟩ := sorted_erase h.sorted a
    have ha := (h.erased a).1
    have hstart : (if fromNow then now else ((s.heap a).next + 2 ^ 64 - (s.heap a).ms) % 2 ^ 64) ≤ now := by
      obtain ⟨hlow, hhigh⟩ := hspans a ((h.cb a).mp hcb)
      split
      · exact Nat.le_refl _
      · omega
    have hout : Spans now { s with timers := s.timers.erase a } :=
      hspans.of_same fun b hb => ⟨((hmem b).mp hb).2, rfl, rfl⟩
    exact hout.put hsorted ha (by omega) (by omega)
  · rw [resetLocked, if_neg hcb]
    exact hspans

/-! ## The operations that only put off -/

theorem cancel_keeps {x : TimerManager × Bool} (h : Inv s) (hx : s.cancel a = some x) :
    Keeps s x.1 ∧ ∀ b ∈ x.1.timers, (x.1.heap b).ms = (s.heap b).ms ∧ (x.1.heap b).next = (s.heap b).next := by
  by_cases hcb : (s.heap a).cb.isSome = true
  · rw [cancel_eq h hcb] at hx
    cases hx
    obtain ⟨-, hmem⟩ := sorted_erase h.sorted a
    have hheap : ∀ b ∈ s.timers.erase a, (s.setTimer a { s.heap a with cb := none }).heap b = s.heap b := by
      intro b hb
      rw [setTimer_heap, if_neg ((hmem b).mp hb).1]
    refine ⟨⟨fun b hb => ⟨((hmem b).mp hb).2, ?_⟩, rfl⟩, fun b hb => ?_⟩
    · exact Nat.le_of_eq (congrArg Timer.next (hheap b hb)).symm
    · exact ⟨congrArg Timer.ms (hheap b hb), congrArg Timer.next (hheap b hb)⟩
  · rw [cancel, if_neg hcb] at hx
    cases hx
    exact ⟨Keeps.refl _, fun _ _ => ⟨rfl, rfl⟩⟩

/-- **`Timer::refresh`** never makes a deadline earlier, as the clock has gone on. -/
theorem refresh_keeps (h : Inv s) (hspans : Spans now s) (hfit : now + (s.heap a).ms < 2 ^ 64) :
    Keeps s (s.refresh a now).1 ∧ Spans now (s.refresh a now).1 := by
  by_cases hcb : (s.heap a).cb.isSome = true
  · have ha := (h.cb a).mp hcb
    obtain ⟨hlow, hhigh⟩ := hspans a ha
    obtain ⟨hsorted, hmem⟩ := sorted_erase h.sorted a
    have hnot := (h.erased a).1
    rw [refresh_eq now h hcb, Nat.mod_eq_of_lt hfit]
    have hout : Spans now { s with timers := s.timers.erase a } :=
      hspans.of_same fun b hb => ⟨((hmem b).mp hb).2, rfl, rfl⟩
    refine ⟨⟨fun b hb => ?_, rfl⟩, hout.put hsorted hnot (Nat.le_add_left _ _) (Nat.le_refl _)⟩
    rw [(put_spec (s := { s with timers := s.timers.erase a }) hsorted hnot).2] at hb
    rw [put_heap, setTimer_heap]
    split
    · next heq =>
      rw [heq]
      exact ⟨ha, hhigh⟩
    · next hne => exact ⟨((hmem b).mp (hb.resolve_left hne)).2, Nat.le_refl _⟩
  · rw [refresh, if_neg hcb]
    exact ⟨Keeps.refl _, hspans⟩

/-! ## Expiry -/

/-- After `listExpiredCb`, each timer in the set is as it was, or has been set anew. -/
theorem listExpiredCb_rearmed (now : Nat) (h : Inv s) (htmp : tmp ∉ s.timers) :
    (s.listExpiredCb now tmp).1.tickled = s.tickled ∧
      ∀ b ∈ (s.listExpiredCb now tmp).1.timers, b ∈ s.timers ∧
        ((s.listExpiredCb now tmp).1.heap b = s.heap b ∨
          b ∈ s.expired now tmp ∧ (s.heap b).recurring = true ∧
            (s.listExpiredCb now tmp).1.heap b =
              { s.heap b with next := (now + (s.heap b).ms) % 2 ^ 64 }) := by
  obtain ⟨-, hheap, hmem, htickled⟩ := listExpiredCb_spec now h htmp
  refine ⟨htickled, fun b hb => ?_⟩
  obtain ⟨hb, hrec⟩ := (hmem b).mp hb
  refine ⟨hb, ?_⟩
  rw [hheap]
  split
  · next hexp => exact .inr ⟨hexp, hrec hexp, by rw [Timer.fired, if_pos (hrec hexp)]⟩
  · exact .inl rfl

/-- A rollover is seen, and a recurring timer would be set to an earlier deadline. -/
def rearmsEarlier (s : TimerManager) (now : Nat) : Bool :=
  detectClockRollover s.previouseTime now &&
    s.timers.any fun a => (s.heap a).recurring && decide (now + (s.heap a).ms < (s.heap a).next)

/-- **`listExpiredCb`** makes no deadline earlier, but after a rollover. -/
theorem listExpiredCb_keeps (h : Inv s) (htmp : tmp ∉ s.timers) (hspans : Spans clock s) (hnow : now ≤ clock)
    (hfit : ∀ a ∈ s.expired now tmp, (s.heap a).recurring = true → now + (s.heap a).ms < 2 ^ 64)
    (hearly : s.rearmsEarlier now = false) :
    Keeps s (s.listExpiredCb now tmp).1 ∧ Spans clock (s.listExpiredCb now tmp).1 := by
  obtain ⟨htickled, hrearmed⟩ := listExpiredCb_rearmed now h htmp
  have hlater : ∀ a ∈ s.expired now tmp, (s.heap a).recurring = true →
      (s.heap a).next ≤ now + (s.heap a).ms := by
    intro a ha hrec
    cases hroll : detectClockRollover s.previouseTime now with
    | false =>
      rw [expired_eq_due h.sorted htmp hroll] at ha
      exact Nat.le_trans (mem_due.mp ha).2 (Nat.le_add_right _ _)
    | true =>
      rw [rearmsEarlier, hroll, Bool.true_and, List.any_eq_false] at hearly
      have hnot := hearly a (List.mem_of_mem_take ha)
      simpa [hrec] using hnot
  refine ⟨⟨fun b hb => ?_, htickled⟩, fun b hb => ?_⟩
  · obtain ⟨hmem, hsame | ⟨hexp, hrec, hnew⟩⟩ := hrearmed b hb
    · exact ⟨hmem, Nat.le_of_eq (by rw [hsame])⟩
    · rw [hnew]
      dsimp only
      rw [Nat.mod_eq_of_lt (hfit b hexp hrec)]
      exact ⟨hmem, hlater b hexp hrec⟩
  · obtain ⟨hmem, hsame | ⟨hexp, hrec, hnew⟩⟩ := hrearmed b hb
    · rw [hsame]
      exact hspans b hmem
    · rw [hnew]
      dsimp only
      rw [Nat.mod_eq_of_lt (hfit b hexp hrec)]
      omega

end TimerManager

end Sherry
