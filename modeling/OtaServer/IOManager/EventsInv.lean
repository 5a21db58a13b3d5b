import OtaServer.IOManager.Events
import OtaServer.Lib.Run
import OtaServer.Lib.Threads
import OtaServer.Lib.Tickets
import Mathlib.Algebra.BigOperators.Group.Finset.Basic

/-!
# What holds of the events, one operation after the other

* `EventContext.Ok`: a context has a scheduler and one of fiber and callback if its bit is set, and is empty
  otherwise. `IOManager.Inv`: this, the counter, and where the continuations are (`Lib.Tickets`).
* `Core.set`: an operation that changes one bit and its context. `fire_spec`, `addEvent_spec`, `delEvent_spec`,
  `cancelEvent_spec`, `cancelAll_spec`, `processEvent_spec`: the operations.
* `run?_spec`: one operation. `events_sequential`: any sequence of operations.
-/

namespace Sherry

open Lib

namespace Events

theorem has_set (m : Events) (e e' : Event) (b : Bool) :
    (m.set e b).has e' = if e' = e then b else m.has e' := by
  cases e <;> cases e' <;> rfl

theorem bits_set (m : Events) (e : Event) (b : Bool) : (m.set e b).bits + (m.has e).toNat = m.bits + b.toNat := by
  cases e <;> simp only [set, bits, has] <;> omega

/-- What `epoll` has for a descriptor with these events. -/
def mask? (m : Events) : Option Events := if m.isNone then none else some m

end Events

namespace FdContext

@[simp] theorem setContext_events (ctx : FdContext) (e : Event) (ec : EventContext) :
    (ctx.setContext e ec).events = ctx.events := by
  cases e <;> rfl

theorem getContext_setContext (ctx : FdContext) (e e' : Event) (ec : EventContext) :
    (ctx.setContext e ec).getContext e' = if e' = e then ec else ctx.getContext e' := by
  cases e <;> cases e' <;> rfl

end FdContext

namespace EventContext

/-- What waits for the event. -/
def cont? (ec : EventContext) : Option ContId := ec.cb <|> ec.fiber

/-- The context of an event that is registered, or is not. -/
def Ok (ec : EventContext) (registered : Bool) : Prop :=
  if registered then ec.scheduler.isSome = true ∧ ec.fiber.isSome = !ec.cb.isSome else ec = {}

end EventContext

/-- A success of `epoll_ctl` leaves the descriptor with the events that are to be reported. -/
theorem epollCtl_some {epoll epoll' : Epoll} {op : CtlOp} {fd : Nat} {mask : Events} {ok : Bool}
    (hop : op = .del ↔ mask.isNone = true) (h : epollCtl epoll op fd mask ok = some epoll') :
    epoll' = Function.update epoll fd mask.mask? := by
  unfold epollCtl at h
  split at h
  · split at h
    · have hnone : ¬mask.isNone = true := fun hnone => nomatch hop.mpr hnone
      rw [Events.mask?, if_neg hnone]
      exact (Option.some.inj h).symm
    · have hnone : ¬mask.isNone = true := fun hnone => nomatch hop.mpr hnone
      rw [Events.mask?, if_neg hnone]
      exact (Option.some.inj h).symm
    · rw [Events.mask?, if_pos (hop.mp rfl)]
      exact (Option.some.inj h).symm
    · cases h
  · cases h

namespace IOManager

/-- Where the continuations are. -/
def tickets (s : IOManager) : Tickets (Nat × Event) where
  slot := fun x => ((s.ctxs x.1).getContext x.2).cont?
  used := s.scheduled.map Prod.snd
  dropped := s.discarded
  issued := s.added

/-- What holds of an `IOManager`, but for what `epoll` has. -/
structure Core (s : IOManager) : Prop where
  size : 32 ≤ s.size
  fd : ∀ i, (s.ctxs i).fd = i
  ctx : ∀ i e, ((s.ctxs i).getContext e).Ok ((s.ctxs i).events.has e)
  beyond : ∀ i, s.size ≤ i → (s.ctxs i).events = {}
  pending : s.pendingEventCount = ((∑ i ∈ Finset.range s.size, (s.ctxs i).events.bits : Nat) : Int)
  tickets : s.tickets.Ok

/-- What holds of an `IOManager` between two operations. -/
structure Inv (s : IOManager) : Prop where
  core : Core s
  epoll : ∀ i, s.epoll i = (s.ctxs i).events.mask?

variable {s s' : IOManager} {i : Nat} {e : Event}

theorem Core.lt_size (h : Core s) (he : (s.ctxs i).events.has e = true) : i < s.size := by
  by_contra hlt
  rw [h.beyond i (Nat.le_of_not_lt hlt)] at he
  cases e <;> cases he

/-- The context of the event `e` of descriptor `i`, with its bit, is changed. -/
def put (s : IOManager) (i : Nat) (e : Event) (b : Bool) (ec : EventContext) : Nat → FdContext :=
  Function.update s.ctxs i
    ({ s.ctxs i with events := (s.ctxs i).events.set e b }.setContext e ec)

section

variable {b : Bool} {ec : EventContext}

theorem put_events (j : Nat) :
    (s.put i e b ec j).events = if j = i then (s.ctxs i).events.set e b else (s.ctxs j).events := by
  unfold put
  by_cases hj : j = i
  · subst hj
    simp
  · simp [hj]

theorem put_has (j : Nat) (e' : Event) : (s.put i e b ec j).events.has e' =
    if j = i ∧ e' = e then b else (s.ctxs j).events.has e' := by
  rw [put_events]
  by_cases hj : j = i
  · subst hj
    simp [Events.has_set]
  · simp [hj]

theorem put_getContext (j : Nat) (e' : Event) : (s.put i e b ec j).getContext e' =
    if j = i ∧ e' = e then ec else (s.ctxs j).getContext e' := by
  unfold put
  by_cases hj : j = i
  · subst hj
    rw [Function.update_self, FdContext.getContext_setContext]
    by_cases he : e' = e
    · simp [he]
    · simp only [he, and_false, if_false]
      cases e' <;> rfl
  · simp [hj]

theorem put_slot (hctxs : s'.ctxs = s.put i e b ec) :
    s'.tickets.slot = Function.update s.tickets.slot (i, e) ec.cont? := by
  funext x
  obtain ⟨j, e'⟩ := x
  show ((s'.ctxs j).getContext e').cont? = _
  rw [hctxs, put_getContext]
  by_cases hx : j = i ∧ e' = e
  · obtain ⟨rfl, rfl⟩ := hx
    simp
  · rw [if_neg hx, Function.update_of_ne]
    · rfl
    · intro heq
      exact hx (Prod.mk.inj heq)

/-- **One bit and its context change.** -/
theorem Core.set (h : Core s) (hi : i < s.size) (hctxs : s'.ctxs = s.put i e b ec)
    (hsize : s'.size = s.size) (hec : ec.Ok b)
    (hpending : s'.pendingEventCount + ((s.ctxs i).events.has e).toNat = s.pendingEventCount + b.toNat)
    (htickets : s'.tickets.Ok) : Core s' where
  size := hsize ▸ h.size
  fd := by
    intro j
    rw [hctxs, put]
    by_cases hj : j = i
    · subst hj
      simpa using h.fd j
    · simpa [hj] using h.fd j
  ctx := by
    intro j e'
    rw [hctxs, put_has, put_getContext]
    by_cases hx : j = i ∧ e' = e
    · rw [if_pos hx, if_pos hx]
      exact hec
    · rw [if_neg hx, if_neg hx]
      exact h.ctx j e'
  beyond := by
    intro j hj
    rw [hsize] at hj
    rw [hctxs, put_events, if_neg (by omega)]
    exact h.beyond j hj
  pending := by
    -- only the events of descriptor `i` change
    have hsum := sum_change (f := fun j => (s.ctxs j).events.bits)
      (g := fun j => (s'.ctxs j).events.bits) (Finset.mem_range.mpr hi)
      fun j hj => by rw [hctxs, put_events, if_neg hj]
    have hbits := Events.bits_set (s.ctxs i).events e b
    have hi' : (s'.ctxs i).events.bits = ((s.ctxs i).events.set e b).bits := by
      rw [hctxs, put_events, if_pos rfl]
    have hold := h.pending
    rw [hsize]
    omega
  tickets := htickets

end

theorem Core.exists_cont (h : Core s) (he : (s.ctxs i).events.has e = true) :
    ∃ k, ((s.ctxs i).getContext e).cont? = some k := by
  have hok := h.ctx i e
  rw [he] at hok
  obtain ⟨-, hone⟩ := hok
  unfold EventContext.cont?
  cases hcb : ((s.ctxs i).getContext e).cb with
  | some k => exact ⟨k, rfl⟩
  | none =>
    rw [hcb] at hone
    exact Option.isSome_iff_exists.mp hone

theorem Core.register {ec : EventContext} (h : Core s) (hi : i < s.size)
    (hnew : (s.ctxs i).events.has e = false) (hctxs : s'.ctxs = s.put i e true ec)
    (hec : ec.Ok true) (hcont : ec.cont? = some s.added) (hsize : s'.size = s.size)
    (hpending : s'.pendingEventCount = s.pendingEventCount + 1) (hscheduled : s'.scheduled = s.scheduled)
    (hdiscarded : s'.discarded = s.discarded) (hadded : s'.added = s.added + 1) : Core s' := by
  refine h.set hi hctxs hsize hec ?_ ?_
  · rw [hpending, hnew]
    simp
  · have hslot := put_slot hctxs
    have htickets : s'.tickets = s.tickets.put (i, e) := by
      simp only [IOManager.tickets] at hslot
      simp only [IOManager.tickets, Tickets.put, hscheduled, hdiscarded, hadded, hslot, hcont]
    have hempty : s.tickets.slot (i, e) = none := by
      have hok := h.ctx i e
      rw [hnew] at hok
      show ((s.ctxs i).getContext e).cont? = none
      rw [show (s.ctxs i).getContext e = {} from hok]
      rfl
    rw [htickets]
    exact h.tickets.put hempty

variable {k : ContId} {fd : Nat} {ok : Bool}

/-- An event is triggered: its continuation is scheduled. -/
theorem Core.trigger (h : Core s) (scheduler : Nat)
    (he : (s.ctxs i).events.has e = true) (hk : ((s.ctxs i).getContext e).cont? = some k)
    (hctxs : s'.ctxs = s.put i e false {}) (hsize : s'.size = s.size)
    (hpending : s'.pendingEventCount = s.pendingEventCount - 1)
    (hscheduled : s'.scheduled = (scheduler, k) :: s.scheduled)
    (hdiscarded : s'.discarded = s.discarded) (hadded : s'.added = s.added) : Core s' := by
  refine h.set (h.lt_size he) hctxs hsize rfl ?_ ?_
  · rw [hpending, he]
    simp
  · have hslot := put_slot hctxs
    have htickets : s'.tickets = s.tickets.use (i, e) k := by
      simp only [IOManager.tickets] at hslot
      simp only [IOManager.tickets, Tickets.use, hscheduled, hdiscarded, hadded, List.map_cons, hslot]
      rfl
    rw [htickets]
    exact h.tickets.use hk

/-- An event is deleted: its continuation is discarded. -/
theorem Core.discard (h : Core s) (he : (s.ctxs i).events.has e = true)
    (hk : ((s.ctxs i).getContext e).cont? = some k) (hctxs : s'.ctxs = s.put i e false {})
    (hsize : s'.size = s.size) (hpending : s'.pendingEventCount = s.pendingEventCount - 1)
    (hscheduled : s'.scheduled = s.scheduled) (hdiscarded : s'.discarded = k :: s.discarded)
    (hadded : s'.added = s.added) : Core s' := by
  refine h.set (h.lt_size he) hctxs hsize rfl ?_ ?_
  · rw [hpending, he]
    simp
  · have hslot := put_slot hctxs
    have htickets : s'.tickets = s.tickets.drop (i, e) k := by
      simp only [IOManager.tickets] at hslot
      simp only [IOManager.tickets, Tickets.drop, hscheduled, hdiscarded, hadded, hslot]
      rfl
    rw [htickets]
    exact h.tickets.drop hk

/-- **`triggerEvent`** of a registered event schedules its continuation, and empties its context. -/
theorem fire_spec (h : Core s) (he : (s.ctxs i).events.has e = true) :
    ∃ s', s.fire i e = some s' ∧ Core s' ∧ s'.epoll = s.epoll ∧
      ∀ j, (s'.ctxs j).events = if j = i then (s.ctxs i).events.set e false else (s.ctxs j).events := by
  have hok := h.ctx i e
  rw [he] at hok
  obtain ⟨hsched, hone⟩ := hok
  obtain ⟨scheduler, hscheduler⟩ := Option.isSome_iff_exists.mp hsched
  obtain ⟨k, hk⟩ := h.exists_cont he
  unfold fire triggerEvent
  dsimp only
  rw [if_pos he, hscheduler]
  dsimp only
  rw [EventContext.cont?] at hk
  -- a callback, or else the fiber of the call
  cases hcb : ((s.ctxs i).getContext e).cb with
  | some l =>
    have hfiber : ((s.ctxs i).getContext e).fiber = none := by
      rw [hcb] at hone
      exact Option.isNone_iff_eq_none.mp (Option.isSome_eq_false_iff.mp hone)
    rw [hcb] at hk
    obtain rfl : l = k := Option.some.inj hk
    refine ⟨_, rfl, ?_, rfl, fun j => ?_⟩
    · refine h.trigger scheduler he (by rw [EventContext.cont?, hcb]; rfl) ?_ rfl rfl rfl rfl rfl
      simp only [setCtx, put, hfiber]
    · exact put_events j
  | none =>
    rw [hcb] at hk
    have hfiber : ((s.ctxs i).getContext e).fiber = some k := hk
    refine ⟨_, rfl, ?_, rfl, fun j => ?_⟩
    · refine h.trigger scheduler he (by rw [EventContext.cont?, hcb]; exact hk) ?_ rfl rfl ?_ rfl rfl
      · simp only [setCtx, put]
      · simp only [hfiber]
        rfl
    · exact put_events j

/-! ## The operations -/

theorem Core.ctxs_beyond (h : Core s) (hi : s.size ≤ i) : s.ctxs i = { fd := i } := by
  have hevents := h.beyond i hi
  have hread := h.ctx i .read
  have hwrite := h.ctx i .write
  rw [hevents] at hread hwrite
  have hfd := h.fd i
  generalize s.ctxs i = ctx at hevents hread hwrite hfd ⊢
  obtain ⟨fd, read, write, events⟩ := ctx
  obtain rfl : fd = i := hfd
  obtain rfl : read = {} := hread
  obtain rfl : write = {} := hwrite
  obtain rfl : events = {} := hevents
  rfl

/-- `contextResize` to a larger size adds empty contexts. -/
theorem Inv.resize (h : Inv s) {size : Nat} (hle : s.size ≤ size) : Inv (s.contextResize size) := by
  have hctxs : (s.contextResize size).ctxs = s.ctxs := by
    funext i
    show (if i < s.size ∧ i < size then s.ctxs i else { fd := i }) = s.ctxs i
    by_cases hi : i < s.size
    · rw [if_pos ⟨hi, Nat.lt_of_lt_of_le hi hle⟩]
    · rw [if_neg fun h => hi h.1, h.core.ctxs_beyond (Nat.le_of_not_lt hi)]
  have hsum : ∑ i ∈ Finset.range size, (s.ctxs i).events.bits =
      ∑ i ∈ Finset.range s.size, (s.ctxs i).events.bits := by
    refine (Finset.sum_subset (Finset.range_mono hle) fun i _ hi => ?_).symm
    rw [h.core.beyond i (Nat.le_of_not_lt fun hlt => hi (Finset.mem_range.mpr hlt))]
    rfl
  refine ⟨⟨Nat.le_trans h.core.size hle, ?_, ?_, ?_, ?_, ?_⟩, ?_⟩
  · rw [hctxs]
    exact h.core.fd
  · rw [hctxs]
    exact h.core.ctx
  · rw [hctxs]
    exact fun i hi => h.core.beyond i (Nat.le_trans hle hi)
  · rw [hctxs]
    exact h.core.pending.trans (congrArg Nat.cast hsum.symm)
  · have htickets : (s.contextResize size).tickets = s.tickets := by
      simp only [IOManager.tickets, hctxs]
      rfl
    rw [htickets]
    exact h.core.tickets
  · rw [hctxs]
    exact h.epoll

theorem epoll_update {i : Nat} {m : Events} (h : Inv s) (hepoll : s'.epoll = Function.update s.epoll i m.mask?)
    (hevents : ∀ j, (s'.ctxs j).events = if j = i then m else (s.ctxs j).events) :
    ∀ j, s'.epoll j = (s'.ctxs j).events.mask? := by
  intro j
  rw [hepoll, hevents]
  by_cases hj : j = i
  · rw [hj, Function.update_self, if_pos rfl]
  · rw [Function.update_of_ne hj, if_neg hj]
    exact h.epoll j

/-- `EPOLL_CTL_DEL` is for a descriptor without events. -/
theorem ctlOp_del (m : Events) : (if m.isNone then CtlOp.del else .mod) = .del ↔ m.isNone = true := by
  cases m.isNone <;> simp

/-- `EPOLL_CTL_ADD` and `EPOLL_CTL_MOD` are for a descriptor with events. -/
theorem ctlOp_add (m : Events) (e : Event) :
    (if m.isNone then CtlOp.add else .mod) = .del ↔ (m.set e true).isNone = true := by
  have hnone : (m.set e true).isNone = false := by
    cases e <;> simp [Events.set, Events.isNone]
  rw [hnone]
  cases m.isNone <;> simp

theorem addEvent_known (scheduler : Nat) (cb ok : Bool) (h : Inv s) (hfd : ¬fd < 1)
    (hlt : fd < s.size) (hnew : (s.ctxs fd).events.has e = false) :
    ∃ x, s.addEvent fd e scheduler cb ok = some x ∧ Inv x.1 := by
  have hempty : (s.ctxs fd).getContext e = {} := by
    have hok := h.core.ctx fd e
    rw [hnew] at hok
    exact hok
  unfold addEvent
  rw [if_neg hfd]
  dsimp only
  rw [if_pos hlt, if_neg (by rw [hnew]; exact Bool.false_ne_true)]
  cases hctl : epollCtl s.epoll (if (s.ctxs fd).events.isNone then .add else .mod) fd
      ((s.ctxs fd).events.set e true) ok with
  | none => exact ⟨_, rfl, h⟩
  | some epoll =>
    have hmask := epollCtl_some (ctlOp_add _ _) hctl
    dsimp only
    rw [if_pos hempty]
    refine ⟨_, rfl, ?_, epoll_update h hmask put_events⟩
    refine h.core.register hlt hnew rfl ?_ ?_ rfl rfl rfl rfl rfl
    · cases cb <;> exact ⟨rfl, rfl⟩
    · cases cb <;> rfl

theorem addEvent_spec (scheduler : Nat) (cb ok : Bool) (h : Inv s) (hnew : (s.ctxs fd).events.has e = false) :
    ∃ x, s.addEvent fd e scheduler cb ok = some x ∧ Inv x.1 := by
  by_cases hfd : fd < 1
  · exact ⟨(s, -1), if_pos hfd, h⟩
  · by_cases hlt : fd < s.size
    · exact addEvent_known scheduler cb ok h hfd hlt hnew
    · -- the vector grows: 32 ≤ size ≤ fd
      have hsize := h.core.size
      have hgrow : fd < fd * 3 / 2 := by omega
      have hinv : Inv (s.contextResize (fd * 3 / 2)) := h.resize (by omega)
      have hctx : (s.contextResize (fd * 3 / 2)).ctxs fd = { fd } := if_neg fun hand => hlt hand.1
      have hnew' : ((s.contextResize (fd * 3 / 2)).ctxs fd).events.has e = false := by
        rw [hctx]
        cases e <;> rfl
      obtain ⟨x, hx, hxinv⟩ := addEvent_known scheduler cb ok hinv hfd hgrow hnew'
      refine ⟨x, ?_, hxinv⟩
      rw [← hx]
      unfold addEvent
      simp only [if_neg hfd, if_neg hlt]
      rw [if_pos (show fd < (s.contextResize (fd * 3 / 2)).size from hgrow)]

theorem delEvent_spec (h : Inv s) : Inv (s.delEvent fd e ok).1 := by
  unfold delEvent
  split
  · exact h
  · dsimp only
    split
    · next hlt he =>
      cases hctl : epollCtl s.epoll (if ((s.ctxs fd).events.set e false).isNone then .del else .mod) fd
          ((s.ctxs fd).events.set e false) ok with
      | none => exact h
      | some epoll =>
        have hmask := epollCtl_some (ctlOp_del _) hctl
        obtain ⟨k, hk⟩ := h.core.exists_cont he
        refine ⟨h.core.discard he hk rfl rfl rfl rfl ?_ rfl, epoll_update h hmask put_events⟩
        rw [EventContext.cont?] at hk
        show Option.toList _ ++ s.discarded = k :: s.discarded
        rw [hk]
        rfl
    · exact h

theorem cancelEvent_spec (h : Inv s) : ∃ x, s.cancelEvent fd e ok = some x ∧ Inv x.1 := by
  unfold cancelEvent
  split
  · exact ⟨_, rfl, h⟩
  · dsimp only
    split
    · next hlt he =>
      cases hctl : epollCtl s.epoll (if ((s.ctxs fd).events.set e false).isNone then .del else .mod) fd
          ((s.ctxs fd).events.set e false) ok with
      | none => exact ⟨_, rfl, h⟩
      | some epoll =>
        have hmask := epollCtl_some (ctlOp_del _) hctl
        have hcore : Core { s with epoll } :=
          ⟨h.core.size, h.core.fd, h.core.ctx, h.core.beyond, h.core.pending, h.core.tickets⟩
        obtain ⟨s', hfire, hcore', hepoll, hevents⟩ := fire_spec hcore he
        dsimp only
        rw [hfire]
        exact ⟨_, rfl, hcore', epoll_update h (hepoll.trans hmask) hevents⟩
    · exact ⟨_, rfl, h⟩

theorem fireIf_spec {b : Bool} (h : Core s) (hb : b = true → (s.ctxs i).events.has e = true) :
    ∃ s', s.fireIf i e b = some s' ∧ Core s' ∧ s'.epoll = s.epoll ∧
      ∀ j, (s'.ctxs j).events = if j = i then
        (if b then (s.ctxs i).events.set e false else (s.ctxs i).events) else (s.ctxs j).events := by
  cases b with
  | true => exact fire_spec h (hb rfl)
  | false =>
    refine ⟨s, rfl, h, rfl, fun j => ?_⟩
    by_cases hj : j = i
    · rw [hj]
      simp
    · simp [hj]

/-- The events of a descriptor are triggered that are in the mask `real`. -/
theorem fireBoth_spec (real : Events) (h : Core s)
    (hread : real.read = true → (s.ctxs i).events.read = true)
    (hwrite : real.write = true → (s.ctxs i).events.write = true) :
    ∃ s₁ s', s.fireIf i .read real.read = some s₁ ∧ s₁.fireIf i .write real.write = some s' ∧ Core s' ∧
      s'.epoll = s.epoll ∧ (s₁.ctxs i).events.write = (s.ctxs i).events.write ∧
      ∀ j, (s'.ctxs j).events = if j = i then (s.ctxs i).events.diff real else (s.ctxs j).events := by
  obtain ⟨s₁, hfire₁, hcore₁, hepoll₁, hevents₁⟩ := fireIf_spec (e := .read) h hread
  have hi₁ := hevents₁ i
  rw [if_pos rfl] at hi₁
  have hsame : (s₁.ctxs i).events.write = (s.ctxs i).events.write := by
    rw [hi₁]
    cases real.read <;> rfl
  have hwrite₁ : real.write = true → (s₁.ctxs i).events.has .write = true := by
    intro hb
    exact hsame.trans (hwrite hb)
  obtain ⟨s', hfire', hcore', hepoll', hevents'⟩ := fireIf_spec hcore₁ hwrite₁
  refine ⟨s₁, s', hfire₁, hfire', hcore', hepoll'.trans hepoll₁, hsame, fun j => ?_⟩
  rw [hevents' j]
  by_cases hj : j = i
  · rw [if_pos hj, if_pos hj, hi₁]
    obtain ⟨read, write⟩ := real
    cases read <;> cases write <;> simp [Events.set, Events.diff]
  · rw [if_neg hj, if_neg hj, hevents₁ j, if_neg hj]

theorem cancelAll_spec (h : Inv s) : ∃ x, s.cancelAll fd ok = some x ∧ Inv x.1 := by
  unfold cancelAll
  split
  · exact ⟨_, rfl, h⟩
  · split
    · exact ⟨_, rfl, h⟩
    · cases hctl : epollCtl s.epoll .del fd {} ok with
      | none => exact ⟨_, rfl, h⟩
      | some epoll =>
        have hmask := epollCtl_some (by simp [Events.isNone]) hctl
        have hcore : Core { s with epoll } :=
          ⟨h.core.size, h.core.fd, h.core.ctx, h.core.beyond, h.core.pending, h.core.tickets⟩
        -- all events of the descriptor are triggered
        obtain ⟨s₁, s', hfire₁, hfire', hcore', hepoll', hsame, hevents'⟩ :=
          fireBoth_spec (i := fd) (s.ctxs fd).events hcore id id
        have hdiff : (s.ctxs fd).events.diff (s.ctxs fd).events = {} := by
          simp [Events.diff]
        have hnone : (s'.ctxs fd).events = {} := by
          rw [hevents' fd, if_pos rfl]
          exact hdiff
        refine ⟨(s', true), ?_, hcore', ?_⟩
        · refine Option.bind_eq_some_iff.mpr ⟨s₁, hfire₁, ?_⟩
          refine Option.bind_eq_some_iff.mpr ⟨s', hsame ▸ hfire', ?_⟩
          rw [hnone]
          rfl
        · refine epoll_update h (hepoll'.trans hmask) fun j => ?_
          rw [hevents' j]
          by_cases hj : j = fd
          · rw [if_pos hj, if_pos hj]
            exact hdiff
          · rw [if_neg hj, if_neg hj]

/-- What `idle` does for an event that is reported, if the events that it takes as reported are registered. -/
theorem processEvent_spec {report : Report} (h : Inv s)
    (hread : (realEvents report (s.ctxs i).events).read = true → (s.ctxs i).events.read = true)
    (hwrite : (realEvents report (s.ctxs i).events).write = true → (s.ctxs i).events.write = true) :
    ∃ s', s.processEvent i report ok = some s' ∧ Inv s' := by
  unfold processEvent
  dsimp only
  split
  · exact ⟨s, rfl, h⟩
  · cases hctl : epollCtl s.epoll
        (if ((s.ctxs i).events.diff (realEvents report (s.ctxs i).events)).isNone then .del else .mod)
        (s.ctxs i).fd ((s.ctxs i).events.diff (realEvents report (s.ctxs i).events)) ok with
    | none => exact ⟨s, rfl, h⟩
    | some epoll =>
      have hmask := epollCtl_some (ctlOp_del _) hctl
      rw [h.core.fd i] at hmask
      have hcore : Core { s with epoll } :=
        ⟨h.core.size, h.core.fd, h.core.ctx, h.core.beyond, h.core.pending, h.core.tickets⟩
      obtain ⟨s₁, s', hfire₁, hfire', hcore', hepoll', -, hevents'⟩ := fireBoth_spec _ hcore hread hwrite
      refine ⟨s', ?_, hcore', epoll_update h (hepoll'.trans hmask) hevents'⟩
      exact Option.bind_eq_some_iff.mpr ⟨s₁, hfire₁, hfire'⟩

theorem inv_new : Inv {} where
  core := by
    refine ⟨Nat.le_refl _, fun _ => rfl, ?_, fun _ _ => rfl, ?_, ?_⟩
    · intro i e
      cases e <;> rfl
    · simp [Events.bits]
    · have hslot : ({} : IOManager).tickets.slot = fun _ => none := by
        funext ⟨i, e⟩
        cases e <;> rfl
      have hempty : ({} : IOManager).tickets = ⟨fun _ => none, [], [], 0⟩ :=
        congrArg (fun slot => (⟨slot, [], [], 0⟩ : Tickets (Nat × Event))) hslot
      rw [hempty]
      exact Tickets.Ok.empty
  epoll := fun _ => rfl

theorem Inv.reported {report : Report} (h : Inv s) (hreports : s.reports i report = true) :
    ((realEvents report (s.ctxs i).events).read = true → (s.ctxs i).events.read = true) ∧
      ((realEvents report (s.ctxs i).events).write = true → (s.ctxs i).events.write = true) := by
  rw [reports, h.epoll i, Events.mask?] at hreports
  split at hreports
  · cases hreports
  · next heq =>
    split at heq
    · cases heq
    · cases heq
      simp only [Bool.and_eq_true, Bool.or_eq_true, Bool.not_eq_true'] at hreports
      simp only [realEvents, Bool.or_eq_true, Bool.and_eq_true]
      constructor
      · rintro (hin | ⟨-, hread⟩)
        · exact hreports.1.resolve_left (by simp [hin])
        · exact hread
      · rintro (hout | ⟨-, hwrite⟩)
        · exact hreports.2.resolve_left (by simp [hout])
        · exact hwrite

/-- **One operation** keeps the invariant, and fails no assertion. -/
theorem run?_spec {op : EventOp} (h : Inv s) (hallowed : s.allowed op = true) :
    ∃ s', s.run? op = some s' ∧ Inv s' := by
  cases op with
  | addEvent fd e scheduler cb ok =>
    obtain ⟨x, hx, hinv⟩ := addEvent_spec scheduler cb ok h (Bool.not_eq_true' _ ▸ hallowed)
    exact ⟨x.1, by rw [run?, hx]; rfl, hinv⟩
  | delEvent fd e ok => exact ⟨_, rfl, delEvent_spec h⟩
  | cancelEvent fd e ok =>
    obtain ⟨x, hx, hinv⟩ : ∃ x, s.cancelEvent fd e ok = some x ∧ Inv x.1 := cancelEvent_spec h
    exact ⟨x.1, by rw [run?, hx]; rfl, hinv⟩
  | cancelAll fd ok =>
    obtain ⟨x, hx, hinv⟩ : ∃ x, s.cancelAll fd ok = some x ∧ Inv x.1 := cancelAll_spec h
    exact ⟨x.1, by rw [run?, hx]; rfl, hinv⟩
  | deliver i report ok =>
    obtain ⟨hread, hwrite⟩ := h.reported hallowed
    exact processEvent_spec h hread hwrite

/-- The continuation of a successful `addEvent` is registered, or was scheduled or discarded, once. -/
theorem Core.fate (h : Core s) (hk : k < s.added) : (∃ i e, ((s.ctxs i).getContext e).cont? = some k) ∧
        (s.scheduled.map Prod.snd).count k = 0 ∧ s.discarded.count k = 0 ∨
      (∀ i e, ((s.ctxs i).getContext e).cont? ≠ some k) ∧
        (s.scheduled.map Prod.snd).count k + s.discarded.count k = 1 := by
  obtain ⟨⟨⟨i, e⟩, hslot⟩, hcounts⟩ | ⟨hslot, hcount⟩ := h.tickets.fate hk
  · exact .inl ⟨⟨i, e, hslot⟩, hcounts⟩
  · exact .inr ⟨fun i e => hslot (i, e), hcount⟩

end IOManager

/-- Any sequence of operations: the counter is the number of bits, a context is filled if and only if its bit is set,
each continuation is registered, or was scheduled or discarded, once, and no assertion fails. -/
theorem events_sequential {r : List (EventOp × IOManager)} (hr : Run (fun s op s' => s.run? op = some s') {} r)
    (hallowed : Meets (fun s op => s.allowed op = true) {} r) {s : IOManager} (hs : s = lastState {} r) :
    s.pendingEventCount = ((∑ i ∈ Finset.range s.size, (s.ctxs i).events.bits : Nat) : Int) ∧
      (∀ i, s.size ≤ i → (s.ctxs i).events = {}) ∧ (∀ i e, ((s.ctxs i).getContext e).Ok ((s.ctxs i).events.has e)) ∧
      (∀ k < s.added, (∃ i e, ((s.ctxs i).getContext e).cont? = some k) ∧
            (s.scheduled.map Prod.snd).count k = 0 ∧ s.discarded.count k = 0 ∨
          (∀ i e, ((s.ctxs i).getContext e).cont? ≠ some k) ∧
            (s.scheduled.map Prod.snd).count k + s.discarded.count k = 1) ∧
      ∀ op, s.allowed op = true → ∃ s', s.run? op = some s' := by
  have hinv : s.Inv := by
    rw [hs]
    refine (Run.inv (fun s op s' hi hc hstep => ?_) hr hallowed IOManager.inv_new).last
      IOManager.inv_new
    obtain ⟨s'', hs'', hi'⟩ := IOManager.run?_spec hi hc
    cases hstep.symm.trans hs''
    exact hi'
  refine ⟨hinv.core.pending, hinv.core.beyond, hinv.core.ctx, fun k hk => hinv.core.fate hk, ?_⟩
  intro op hop
  obtain ⟨s', hs', -⟩ := IOManager.run?_spec hinv hop
  exact ⟨s', hs'⟩

/-- A fiber waits for both events of a descriptor: one is reported, the other is deleted. -/
theorem events_sequential_both : ∃ r : List (EventOp × IOManager), Run (fun s op s' => s.run? op = some s') {} r ∧
      (lastState {} r).added = 2 ∧ (lastState {} r).pendingEventCount =
        ((∑ i ∈ Finset.range (lastState {} r).size, ((lastState {} r).ctxs i).events.bits : Nat) : Int) := by
  obtain ⟨r, hr, hallowed, hadded⟩ := exists_run_of_trace? (f := IOManager.run?) (s := {})
    [.addEvent 40 .read 0 false true, .addEvent 40 .write 0 true true, .addEvent 9 .read 0 true false,
      .deliver 40 { pollIn := true } true, .delEvent 40 .write true]
    (P := fun r => Meets (fun s op => s.allowed op = true) {} r ∧ (lastState {} r).added = 2) (by decide +kernel)
  exact ⟨r, hr, hadded, (events_sequential hr hallowed rfl).1⟩

end Sherry
