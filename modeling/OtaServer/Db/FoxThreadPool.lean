import Mathlib.Algebra.GroupWithZero.Nat
import OtaServer.Lib.Threads

/-!
# A `FoxThreadPool` in advance mode (`sherry/db/fox_thread.cc`)

Between `start` and `stop`, `check` takes a free thread and a callback from the queue, wraps both into a callback for
that thread and dispatches it there. The wrapped callback and the call of `check` share a pointer to the thread; when
the last of them is gone, its deleter puts the thread back and calls `check` again.

* `FoxPool`: the pool, the calls of `check` and `releaseFoxThread` in progress, and the threads. Calls that one thread
  makes inside another are taken as independent, so that there are more interleavings than the code has.
* `FoxLease`: a shared pointer to a thread, with its reference count.
* `FoxPool.Inv`: where each callback is, what the references are, and that each thread is free or leased.
  `pool_conserved`.
-/

namespace Sherry

open Lib

/-- A shared pointer to a thread, made by `check` for a callback. It is released when `releaseFoxThread` has put the
thread back. -/
structure FoxLease (n : Nat) where
  thread : Fin n
  cb : Nat
  refs : Nat
  released : Bool := false

/-- `std::bind(&FoxThreadPool::wrapcb, this, thr, cb)`. -/
structure WrapCb where
  lease : Nat
  cb : Nat

/-- A call in progress. -/
inductive FoxCall where
  /-- `check`, at the start of its loop. -/
  | check
  /-- `check` has taken a thread and a callback, and given up the lock. -/
  | took (l cb : Nat)
  /-- `check` has handed the callback over, and still has its pointer. -/
  | handed (l : Nat)
  /-- The deleter has been called. -/
  | release (l : Nat)

/-- A `FoxThread`: its queue, and the batch of `read_cb` with what has been run and what has not. -/
structure FoxThread where
  start : Bool := true
  queue : List WrapCb := []
  todo : List WrapCb := []
  done : List WrapCb := []

/-- The pool. Callbacks are numbered as they are submitted. -/
structure FoxShared (n : Nat) where
  /-- `m_callbacks`. -/
  callbacks : List Nat
  /-- `m_freeFoxThreads`. -/
  free : List (Fin n)
  submitted : Nat
  calls : List FoxCall := []
  leases : List (FoxLease n) := []
  executed : List Nat := []

/-- The pool, with its threads. -/
abbrev FoxPool (n : Nat) := Threads (Fin n) (FoxShared n) FoxThread

/-- What happens next. -/
inductive FoxStep (n : Nat) where
  /-- `dispatch` and `batchDispatch`, up to `check`. -/
  | submit (k : Nat)
  | check
  /-- A call goes on. -/
  | call (k : Nat)
  /-- `read_cb` takes the queue. -/
  | swap (t : Fin n)
  /-- `read_cb` runs a callback. -/
  | run (t : Fin n)
  /-- At the end of `read_cb` a callback of the batch is destroyed. -/
  | destroy (t : Fin n)

namespace FoxShared

variable {n : Nat}

/-- A copy of a shared pointer is destroyed. -/
def unref (s : FoxShared n) (l : Nat) (lease : FoxLease n) : FoxShared n :=
  { s with
    leases := s.leases.set l { lease with refs := lease.refs - 1 }
    calls := if lease.refs = 1 then .release l :: s.calls else s.calls }

end FoxShared

namespace FoxPool

variable {n : Nat}

/-- After `start`, with the callbacks that were submitted before. -/
def new (n submitted : Nat) : FoxPool n :=
  ⟨{ callbacks := List.range submitted, free := List.finRange n, submitted, calls := [.check] }, fun _ => {}⟩

/-- A call goes on. It is not among `s.shared.calls`. -/
def callStep (s : FoxPool n) : FoxCall → Option (FoxPool n)
  | .check =>
    match s.shared.free, s.shared.callbacks with
    | t :: free, cb :: callbacks => some { s with shared := { s.shared with
        free, callbacks
        leases := s.shared.leases ++ [{ thread := t, cb, refs := 1 }]
        calls := .took s.shared.leases.length cb :: s.shared.calls } }
    | _, _ => some s
  | .took l cb => do
    let lease ← s.shared.leases[l]?
    let thr := s.thread lease.thread
    if thr.start then
      return s.set lease.thread ({ s.shared with
          leases := s.shared.leases.set l { lease with refs := lease.refs + 1 }
          calls := .handed l :: s.shared.calls },
        { thr with queue := thr.queue ++ [{ lease := l, cb }] })
    else
      return { s with shared := { s.shared with
        callbacks := cb :: s.shared.callbacks
        calls := .handed l :: s.shared.calls } }
  | .handed l => do
    let lease ← s.shared.leases[l]?
    let shared := s.shared.unref l lease
    return { s with shared := { shared with calls := .check :: shared.calls } }
  | .release l => do
    let lease ← s.shared.leases[l]?
    return { s with shared := { s.shared with
      free := s.shared.free ++ [lease.thread]
      leases := s.shared.leases.set l { lease with released := true }
      calls := .check :: s.shared.calls } }

/-- The steps, where they are possible. -/
def step? (s : FoxPool n) : FoxStep n → Option (FoxPool n)
  | .submit k => some { s with shared := { s.shared with
      callbacks := s.shared.callbacks ++ List.range' s.shared.submitted k
      submitted := s.shared.submitted + k
      calls := .check :: s.shared.calls } }
  | .check => some { s with shared := { s.shared with calls := .check :: s.shared.calls } }
  | .call k => do
    let c ← s.shared.calls[k]?
    callStep { s with shared := { s.shared with calls := s.shared.calls.eraseIdx k } } c
  | .swap t =>
    let thr := s.thread t
    if thr.todo = [] ∧ thr.done = [] then
      some (s.set t (s.shared, { thr with queue := [], todo := thr.queue }))
    else none
  | .run t =>
    let thr := s.thread t
    match thr.todo with
    | i :: todo => some (s.set t ({ s.shared with executed := i.cb :: s.shared.executed },
        { thr with todo, done := thr.done ++ [i] }))
    | [] => none
  | .destroy t =>
    let thr := s.thread t
    match thr.todo, thr.done with
    | [], i :: done => do
      let lease ← s.shared.leases[i.lease]?
      return s.set t (s.shared.unref i.lease lease, { thr with done })
    | _, _ => none

end FoxPool

/-! ## What is counted -/

/-- The references of a lease that the call holds. -/
def FoxCall.uses (l : Nat) : FoxCall → Nat
  | .took l' _ | .handed l' => if l' = l then 1 else 0
  | .check | .release _ => 0

/-- The call releases the lease. -/
def FoxCall.releases (l : Nat) : FoxCall → Nat
  | .release l' => if l' = l then 1 else 0
  | _ => 0

/-- The call holds the callback. -/
def FoxCall.holds (cb : Nat) : FoxCall → Nat
  | .took _ cb' => if cb' = cb then 1 else 0
  | _ => 0

/-- The lease of a thread that has not been released. -/
def FoxLease.live {n : Nat} (t : Fin n) (l : FoxLease n) : Bool := l.thread == t && !l.released

/-- One, until the lease is released. -/
def FoxLease.unreleased {n : Nat} (l : FoxLease n) : Nat := if l.released then 0 else 1

/-- The references of a lease in a thread. -/
def FoxThread.uses (l : Nat) (thr : FoxThread) : Nat :=
  (thr.queue ++ thr.todo ++ thr.done).countP (·.lease = l)

/-- The callback waits or runs in the thread. -/
def FoxThread.holds (cb : Nat) (thr : FoxThread) : Nat := (thr.queue ++ thr.todo).countP (·.cb = cb)

/-- A number of the lease, if there is one. -/
def FoxLease.at {n : Nat} (f : FoxLease n → Nat) (ls : List (FoxLease n)) (l : Nat) : Nat := (ls[l]?.map f).getD 0

namespace FoxPool

variable {n : Nat}

/-- What is counted in the calls and in the threads. -/
def tally (s : FoxPool n) (w : FoxCall → Nat) (f : FoxThread → Nat) : Nat :=
  (s.shared.calls.map w).sum + ∑ t, f (s.thread t)

/-- The places of a callback: in the queue of the pool, in a call of `check`, in the queue or the batch of a thread,
or among those that have been run. -/
def places (s : FoxPool n) (cb : Nat) : Nat :=
  s.shared.callbacks.count cb + s.tally (FoxCall.holds cb) (FoxThread.holds cb) + s.shared.executed.count cb

/-- The references to a lease, one by one. -/
def uses (s : FoxPool n) (l : Nat) : Nat := s.tally (FoxCall.uses l) (FoxThread.uses l)

/-- Each callback that was submitted is at one place, and each thread is free or leased, once. -/
def Conserved (s : FoxPool n) : Prop :=
  (∀ cb < s.shared.submitted, s.places cb = 1) ∧
    ∀ t, s.shared.free.count t + s.shared.leases.countP (FoxLease.live t) = 1

/-- The invariant. A lease is released by one call, which is made when its counter has come to zero. -/
structure Inv (s : FoxPool n) : Prop where
  places : ∀ cb, s.places cb = (List.range s.shared.submitted).count cb
  free : ∀ t, s.shared.free.count t + s.shared.leases.countP (FoxLease.live t) = 1
  refs : ∀ l, s.uses l = FoxLease.at (·.refs) s.shared.leases l
  releases : ∀ l, (s.shared.calls.map (FoxCall.releases l)).sum + min 1 (FoxLease.at (·.refs) s.shared.leases l) =
    FoxLease.at FoxLease.unreleased s.shared.leases l

variable {s s' : FoxPool n}

/-- A call starts. -/
def push (s : FoxPool n) (c : FoxCall) : FoxPool n :=
  { s with shared := { s.shared with calls := c :: s.shared.calls } }

theorem tally_push (c : FoxCall) (w : FoxCall → Nat) (f : FoxThread → Nat) :
    (s.push c).tally w f = w c + s.tally w f := by
  simp only [tally, push, List.map_cons, List.sum_cons]
  omega

theorem tally_set (t : Fin n) (shared : FoxShared n) (thr : FoxThread) (w : FoxCall → Nat) (f : FoxThread → Nat) :
    tally (s.set t (shared, thr)) w f + (s.shared.calls.map w).sum + f (s.thread t) =
      s.tally w f + (shared.calls.map w).sum + f thr := by
  have hsum := s.sum_set (i := t) (x := (shared, thr)) f
  simp only [tally, Threads.set_shared]
  simp only at hsum
  omega

theorem tally_set_eq {t : Fin n} {shared : FoxShared n} {thr : FoxThread} {w : FoxCall → Nat} {f : FoxThread → Nat}
    (hcalls : (shared.calls.map w).sum = (s.shared.calls.map w).sum) (hf : f thr = f (s.thread t)) :
    tally (s.set t (shared, thr)) w f = s.tally w f := by
  have hset := tally_set (s := s) t shared thr w f
  omega

end FoxPool

namespace FoxLease

variable {n : Nat} {ls : List (FoxLease n)} {l l' : Nat} {x y : FoxLease n}

theorem at_some (h : ls[l]? = some x) (f : FoxLease n → Nat) : FoxLease.at f ls l = f x := by
  rw [FoxLease.at, h]
  rfl

theorem at_set (h : ls[l]? = some x) (y : FoxLease n) (f : FoxLease n → Nat) (l' : Nat) :
    FoxLease.at f (ls.set l y) l' = if l = l' then f y else FoxLease.at f ls l' := by
  rw [FoxLease.at, List.getElem?_set, if_pos (List.getElem?_eq_some_iff.mp h).1]
  split
  · rfl
  · rfl

theorem at_concat (y : FoxLease n) (f : FoxLease n → Nat) (l' : Nat) :
    FoxLease.at f (ls ++ [y]) l' = if ls.length = l' then f y else FoxLease.at f ls l' := by
  split
  · next h =>
    rw [FoxLease.at, ← h, List.getElem?_concat_length]
    rfl
  · next h =>
    rw [FoxLease.at, FoxLease.at, List.getElem?_append]
    split
    · rfl
    · rw [List.getElem?_eq_none (by simp only [List.length_singleton]; omega), List.getElem?_eq_none (by omega)]

theorem at_length (f : FoxLease n → Nat) : FoxLease.at f ls ls.length = 0 := by
  rw [FoxLease.at, List.getElem?_eq_none (Nat.le_refl _)]
  rfl

theorem countP_set (h : ls[l]? = some x) (y : FoxLease n) (p : FoxLease n → Bool) :
    (ls.set l y).countP p + (p x).toNat = ls.countP p + (p y).toNat := by
  obtain ⟨hl, rfl⟩ := List.getElem?_eq_some_iff.mp h
  have hpos : p ls[l] = true → 0 < ls.countP p := fun hp => List.countP_pos_iff.mpr ⟨_, List.getElem_mem hl, hp⟩
  rw [List.countP_set hl]
  cases hx : p ls[l] with
  | false => cases p y <;> rfl
  | true =>
    have := hpos hx
    cases p y <;> simp only [Bool.toNat_true, Bool.toNat_false, if_true, Bool.false_eq_true, if_false] <;> omega

theorem at_refs (h : ls[l]? = some x) (k l' : Nat) :
    FoxLease.at (·.refs) (ls.set l { x with refs := k }) l' = if l = l' then k else FoxLease.at (·.refs) ls l' :=
  at_set h ..

theorem unreleased_refs (h : ls[l]? = some x) (k l' : Nat) :
    FoxLease.at unreleased (ls.set l { x with refs := k }) l' = FoxLease.at unreleased ls l' := by
  rw [at_set h]
  split
  · next heq => exact heq ▸ (at_some h unreleased).symm
  · rfl

theorem live_refs (h : ls[l]? = some x) (k : Nat) (t : Fin n) :
    (ls.set l { x with refs := k }).countP (live t) = ls.countP (live t) := by
  have hcount := countP_set h { x with refs := k } (live t)
  simp only [live] at hcount
  omega

end FoxLease

namespace FoxPool

variable {n : Nat} {s s' : FoxPool n}

variable {s₀ : FoxPool n} {cb l : Nat} {t : Fin n} {c : FoxCall} {lease : FoxLease n}

theorem Inv.refs_pos (h : Inv (s.push c))
    (hl : s.shared.leases[l]? = some lease) (hc : FoxCall.uses l c = 1) : 0 < lease.refs := by
  have hr := h.refs l
  rw [uses, tally_push, hc] at hr
  simp only [push] at hr
  rw [FoxLease.at_some hl] at hr
  omega

theorem Inv.take {free : List (Fin n)} {callbacks : List Nat} (h : Inv (s.push .check))
    (hfree : s.shared.free = t :: free) (hcbs : s.shared.callbacks = cb :: callbacks) :
    Inv { s with shared := { s.shared with
      free, callbacks
      leases := s.shared.leases ++ [{ thread := t, cb, refs := 1 }]
      calls := .took s.shared.leases.length cb :: s.shared.calls } } := by
  refine ⟨fun cb' => ?_, fun t' => ?_, fun l => ?_, fun l => ?_⟩
  · have hp := h.places cb'
    simp only [FoxPool.places, tally, push, List.map_cons, List.sum_cons, FoxCall.holds, hcbs, List.count_cons,
      beq_iff_eq] at hp ⊢
    omega
  · have hf := h.free t'
    simp only [push, hfree, List.count_cons, beq_iff_eq] at hf
    simp only [List.countP_append, List.countP_singleton, FoxLease.live, Bool.not_false, Bool.and_true, beq_iff_eq]
      at hf ⊢
    omega
  · have hr := h.refs l
    simp only [uses, tally, push, List.map_cons, List.sum_cons, FoxCall.uses] at hr ⊢
    rw [FoxLease.at_concat]
    split
    · next hl =>
      subst hl
      rw [FoxLease.at_length] at hr
      dsimp only
      omega
    · omega
  · have hr := h.releases l
    simp only [push, List.map_cons, List.sum_cons, FoxCall.releases] at hr ⊢
    rw [FoxLease.at_concat, FoxLease.at_concat]
    split
    · next hl =>
      subst hl
      rw [FoxLease.at_length, FoxLease.at_length] at hr
      simpa [FoxLease.unreleased] using hr
    · exact hr

theorem Inv.hand (h : Inv (s.push (.took l cb))) (hl : s.shared.leases[l]? = some lease) :
    Inv (s.set lease.thread ({ s.shared with
        leases := s.shared.leases.set l { lease with refs := lease.refs + 1 }
        calls := .handed l :: s.shared.calls },
      { s.thread lease.thread with queue := (s.thread lease.thread).queue ++ [{ lease := l, cb }] })) := by
  -- the wrapped callback is in the queue of the thread now, and no longer with the call
  have htally := tally_set (s := s) lease.thread { s.shared with
      leases := s.shared.leases.set l { lease with refs := lease.refs + 1 }
      calls := .handed l :: s.shared.calls }
    { s.thread lease.thread with queue := (s.thread lease.thread).queue ++ [{ lease := l, cb }] }
  refine ⟨fun cb' => ?_, fun t' => ?_, fun l' => ?_, fun l' => ?_⟩
  · have hp := h.places cb'
    have hset := htally (FoxCall.holds cb') (FoxThread.holds cb')
    rw [FoxPool.places, tally_push] at hp
    simp only [FoxThread.holds, List.countP_append, List.countP_singleton, List.map_cons, List.sum_cons,
      FoxCall.holds, decide_eq_true_eq] at hset
    simp only [FoxPool.places, Threads.set_shared]
    simp only [push, FoxCall.holds] at hp
    omega
  · have hf := h.free t'
    simp only [push] at hf
    simp only [Threads.set_shared]
    rw [FoxLease.live_refs hl, hf]
  · have hr := h.refs l'
    have hset := htally (FoxCall.uses l') (FoxThread.uses l')
    rw [uses, tally_push] at hr
    simp only [FoxThread.uses, List.countP_append, List.countP_singleton, List.map_cons, List.sum_cons,
      FoxCall.uses, decide_eq_true_eq] at hset
    simp only [push, FoxCall.uses] at hr
    simp only [uses, Threads.set_shared]
    rw [FoxLease.at_refs hl]
    split
    · next heq =>
      subst heq
      rw [FoxLease.at_some hl] at hr
      simp only [if_true] at hr hset
      omega
    · next hne =>
      simp only [if_neg hne] at hr hset
      omega
  · have hr := h.releases l'
    have hpos := h.refs_pos hl (if_pos rfl)
    simp only [push, List.map_cons, List.sum_cons, FoxCall.releases] at hr
    simp only [Threads.set_shared, List.map_cons, List.sum_cons, FoxCall.releases]
    rw [FoxLease.at_refs hl, FoxLease.unreleased_refs hl, ← hr]
    split
    · next heq =>
      rw [← heq, FoxLease.at_some hl]
      omega
    · rfl

theorem Inv.giveBack (h : Inv (s.push (.took l cb))) : Inv { s with shared := { s.shared with
      callbacks := cb :: s.shared.callbacks
      calls := .handed l :: s.shared.calls } } := by
  refine ⟨fun cb' => ?_, fun t' => h.free t', fun l' => h.refs l', fun l' => h.releases l'⟩
  have hp := h.places cb'
  simp only [FoxPool.places, tally, push, List.map_cons, List.sum_cons, FoxCall.holds, List.count_cons,
    beq_iff_eq] at hp ⊢
  omega

/-- Nothing but references moves: the same callbacks and releases are counted, and the rest is as it was. -/
structure Alike (s₀ s : FoxPool n) : Prop where
  shared : { s.shared with calls := s₀.shared.calls } = s₀.shared
  holds : ∀ cb, s.tally (FoxCall.holds cb) (FoxThread.holds cb) = s₀.tally (FoxCall.holds cb) (FoxThread.holds cb)
  releases : ∀ l, (s.shared.calls.map (FoxCall.releases l)).sum = (s₀.shared.calls.map (FoxCall.releases l)).sum

theorem Alike.places (h : Alike s₀ s) (cb : Nat) : s.places cb = s₀.places cb := by
  rw [FoxPool.places, FoxPool.places, h.holds, ← h.shared]

theorem Inv.alike (h : Inv s₀) (ha : Alike s₀ s) (huses : ∀ l, s.uses l = s₀.uses l) : Inv s := by
  refine ⟨fun cb => ?_, fun t => ?_, fun l => ?_, fun l => ?_⟩
  · have hp := h.places cb
    rw [← ha.places, ← ha.shared] at hp
    exact hp
  · have hf := h.free t
    rw [← ha.shared] at hf
    exact hf
  · have hr := h.refs l
    rw [← huses, ← ha.shared] at hr
    exact hr
  · have hr := h.releases l
    rw [← ha.releases, ← ha.shared] at hr
    exact hr

theorem Inv.unref (h : Inv s₀) (ha : Alike s₀ s)
    (hl : s.shared.leases[l]? = some lease) (huses : ∀ l', s₀.uses l' = s.uses l' + if l = l' then 1 else 0) :
    Inv { s with shared := s.shared.unref l lease } := by
  have hw (w : FoxCall → Nat) (f : FoxThread → Nat) (hzero : w (.release l) = 0) :
      tally { s with shared := s.shared.unref l lease } w f = s.tally w f := by
    simp only [tally, FoxShared.unref]
    split
    · simp only [List.map_cons, List.sum_cons, hzero, Nat.zero_add]
    · rfl
  have hleases := congrArg FoxShared.leases ha.shared
  dsimp only at hleases
  -- the copy that is destroyed was counted
  have hpos : 0 < lease.refs := by
    have hr := h.refs l
    rw [huses, ← hleases, FoxLease.at_some hl, if_pos rfl] at hr
    omega
  refine ⟨fun cb => ?_, fun t => ?_, fun l' => ?_, fun l' => ?_⟩
  · have hp := h.places cb
    rw [← ha.places, ← ha.shared] at hp
    rw [FoxPool.places, hw _ _ rfl]
    exact hp
  · have hf := h.free t
    rw [← ha.shared, ← FoxLease.live_refs hl (lease.refs - 1)] at hf
    exact hf
  · have hr := h.refs l'
    rw [huses, ← hleases] at hr
    rw [uses, hw _ _ rfl, FoxShared.unref, FoxLease.at_refs hl]
    split
    · next heq =>
      rw [if_pos heq, ← heq, FoxLease.at_some hl] at hr
      rw [← heq, ← uses]
      omega
    · next hne =>
      rw [if_neg hne] at hr
      exact hr
  · have hr := h.releases l'
    rw [← hleases, ← ha.releases] at hr
    -- the last copy calls `releaseFoxThread`
    have hcalls : ((if lease.refs = 1 then .release l :: s.shared.calls else s.shared.calls).map
        (FoxCall.releases l')).sum = (s.shared.calls.map (FoxCall.releases l')).sum +
          if lease.refs = 1 ∧ l = l' then 1 else 0 := by
      by_cases hone : lease.refs = 1
      · simp only [hone, if_true, List.map_cons, List.sum_cons, FoxCall.releases, true_and]
        omega
      · simp only [hone, if_false, false_and, Nat.add_zero]
    simp only [FoxShared.unref]
    rw [FoxLease.at_refs hl, FoxLease.unreleased_refs hl, hcalls, ← hr]
    by_cases heq : l = l'
    · rw [if_pos heq, ← heq, FoxLease.at_some hl]
      simp only [and_true]
      split <;> omega
    · simp only [heq, and_false, if_false, Nat.add_zero]

theorem Inv.release (h : Inv (s.push (.release l))) (hl : s.shared.leases[l]? = some lease) :
    Inv { s with shared := { s.shared with
      free := s.shared.free ++ [lease.thread]
      leases := s.shared.leases.set l { lease with released := true }
      calls := .check :: s.shared.calls } } := by
  have hrel := h.releases l
  simp only [push, List.map_cons, List.sum_cons, FoxCall.releases, if_true] at hrel
  rw [FoxLease.at_some hl, FoxLease.at_some hl] at hrel
  -- one call releases a lease
  have hnot : lease.released = false := by
    cases hb : lease.released with
    | false => rfl
    | true =>
      rw [FoxLease.unreleased, if_pos hb] at hrel
      omega
  rw [FoxLease.unreleased, if_neg (by rw [hnot]; exact Bool.false_ne_true)] at hrel
  refine ⟨fun cb => h.places cb, fun t => ?_, fun l' => ?_, fun l' => ?_⟩
  · have hf := h.free t
    have hcount := FoxLease.countP_set hl { lease with released := true } (FoxLease.live t)
    simp only [push] at hf
    simp only [FoxLease.live, hnot, Bool.not_false, Bool.and_true, Bool.not_true, Bool.and_false, Bool.toNat_false,
      Nat.add_zero] at hcount
    simp only [List.count_append, List.count_singleton]
    -- the thread gets free, and is no longer leased
    cases hb : lease.thread == t with
    | true =>
      rw [hb, Bool.toNat_true] at hcount
      rw [if_pos rfl]
      omega
    | false =>
      rw [hb, Bool.toNat_false] at hcount
      rw [if_neg Bool.false_ne_true]
      omega
  · have hr := h.refs l'
    rw [FoxLease.at_set hl]
    split
    · next heq =>
      subst heq
      exact hr.trans (FoxLease.at_some (x := lease) hl _)
    · exact hr
  · have hr := h.releases l'
    simp only [push, List.map_cons, List.sum_cons, FoxCall.releases] at hr
    simp only [List.map_cons, List.sum_cons, FoxCall.releases]
    rw [FoxLease.at_set hl, FoxLease.at_set hl]
    split
    · next heq =>
      subst heq
      simp only [FoxLease.unreleased, if_true]
      omega
    · next hne =>
      rw [if_neg hne] at hr
      exact hr

theorem Inv.swap (h : Inv s) (htodo : (s.thread t).todo = []) (hdone : (s.thread t).done = []) :
    Inv (s.set t (s.shared, { s.thread t with queue := [], todo := (s.thread t).queue })) := by
  refine h.alike ⟨rfl, fun cb => tally_set_eq rfl ?_, fun l => rfl⟩ fun l => tally_set_eq rfl ?_
  · simp only [FoxThread.holds, htodo, List.append_nil, List.nil_append]
  · simp only [FoxThread.uses, htodo, hdone, List.append_nil, List.nil_append]

theorem Inv.run {i : WrapCb} {todo : List WrapCb} (h : Inv s) (htodo : (s.thread t).todo = i :: todo) :
    Inv (s.set t ({ s.shared with executed := i.cb :: s.shared.executed },
      { s.thread t with todo, done := (s.thread t).done ++ [i] })) := by
  refine ⟨fun cb => ?_, fun t' => h.free t', fun l => ?_, fun l => h.releases l⟩
  · have hp := h.places cb
    have hset := tally_set (s := s) t { s.shared with executed := i.cb :: s.shared.executed }
      { s.thread t with todo, done := (s.thread t).done ++ [i] } (FoxCall.holds cb) (FoxThread.holds cb)
    simp only [FoxThread.holds, htodo, List.countP_append, List.countP_cons, decide_eq_true_eq] at hset
    rw [FoxPool.places] at hp
    simp only [FoxPool.places, Threads.set_shared, List.count_cons, beq_iff_eq]
    omega
  · refine (tally_set_eq rfl ?_).trans (h.refs l)
    simp only [FoxThread.uses, htodo, List.countP_append, List.countP_cons, List.countP_nil]
    omega

theorem Inv.destroy {i : WrapCb} {done : List WrapCb} (h : Inv s)
    (hdone : (s.thread t).done = i :: done) (hl : s.shared.leases[i.lease]? = some lease) :
    Inv (s.set t (s.shared.unref i.lease lease, { s.thread t with done })) := by
  refine Inv.unref (s := s.set t (s.shared, { s.thread t with done })) h
    ⟨rfl, fun cb => tally_set_eq rfl rfl, fun l => rfl⟩ hl fun l => ?_
  have hset := tally_set (s := s) t s.shared { s.thread t with done } (FoxCall.uses l) (FoxThread.uses l)
  simp only [FoxThread.uses, hdone, List.countP_append, List.countP_cons, decide_eq_true_eq] at hset
  simp only [uses]
  omega

theorem Inv.submit (h : Inv s) (k : Nat) : Inv { s with shared := { s.shared with
    callbacks := s.shared.callbacks ++ List.range' s.shared.submitted k
    submitted := s.shared.submitted + k
    calls := .check :: s.shared.calls } } := by
  refine ⟨fun cb => ?_, fun t => h.free t, fun l => ?_, fun l => ?_⟩
  · have hp := h.places cb
    have hcount : (List.range (s.shared.submitted + k)).count cb =
        (List.range s.shared.submitted).count cb + (List.range' s.shared.submitted k).count cb := by
      rw [List.range_add, List.count_append, List.range'_eq_map_range]
    simp only [FoxPool.places, tally, List.map_cons, List.sum_cons, FoxCall.holds, List.count_append] at hp ⊢
    rw [hcount]
    omega
  · exact (tally_push .check _ _).trans ((Nat.zero_add _).trans (h.refs l))
  · have hr := h.releases l
    simp only [List.map_cons, List.sum_cons, FoxCall.releases]
    omega

/-- A call that does nothing starts or ends. -/
theorem inv_push_check : Inv (s.push .check) ↔ Inv s := by
  have hw (w : FoxCall → Nat) (f : FoxThread → Nat) (hzero : w .check = 0) :
      (s.push .check).tally w f = s.tally w f := by
    rw [tally_push, hzero, Nat.zero_add]
  have hr (l : Nat) : ((s.push .check).shared.calls.map (FoxCall.releases l)).sum =
      (s.shared.calls.map (FoxCall.releases l)).sum := by
    simp only [push, List.map_cons, List.sum_cons, FoxCall.releases, Nat.zero_add]
  constructor
  · intro h
    exact h.alike ⟨rfl, fun cb => (hw _ _ rfl).symm, fun l => (hr l).symm⟩ fun l => (hw _ _ rfl).symm
  · intro h
    exact h.alike ⟨rfl, fun cb => hw _ _ rfl, hr⟩ fun l => hw _ _ rfl

theorem Inv.front {k : Nat} (h : Inv s) (hk : s.shared.calls[k]? = some c) :
    Inv (push { s with shared := { s.shared with calls := s.shared.calls.eraseIdx k } } c) := by
  obtain ⟨hlt, rfl⟩ := List.getElem?_eq_some_iff.mp hk
  have hsum (w : FoxCall → Nat) : ((s.shared.calls[k] :: s.shared.calls.eraseIdx k).map w).sum =
      (s.shared.calls.map w).sum :=
    ((List.getElem_cons_eraseIdx_perm hlt).map w).sum_eq
  refine h.alike ⟨rfl, fun cb => ?_, fun l => hsum _⟩ fun l => ?_
  · rw [tally, tally]
    exact congrArg (· + _) (hsum _)
  · rw [uses, uses, tally, tally]
    exact congrArg (· + _) (hsum _)

theorem Inv.callStep (h : Inv (s.push c)) (hstep : FoxPool.callStep s c = some s') : Inv s' := by
  cases c with
  | check =>
    simp only [FoxPool.callStep] at hstep
    split at hstep
    · next hfree hcbs =>
      cases hstep
      exact h.take hfree hcbs
    · cases hstep
      exact inv_push_check.mp h
  | took l cb =>
    obtain ⟨lease, hl, hstep⟩ := Option.bind_eq_some_iff.mp hstep
    dsimp only at hstep
    split at hstep
    · cases hstep
      exact h.hand hl
    · cases hstep
      exact h.giveBack
  | handed l =>
    obtain ⟨lease, hl, hstep⟩ := Option.bind_eq_some_iff.mp hstep
    cases hstep
    refine inv_push_check.mpr (h.unref ⟨rfl, fun cb => ?_, fun l' => ?_⟩ hl fun l' => ?_)
    · exact ((tally_push ..).trans (Nat.zero_add _)).symm
    · simp only [push, List.map_cons, List.sum_cons, FoxCall.releases, Nat.zero_add]
    · rw [uses, tally_push, FoxCall.uses, Nat.add_comm]
      rfl
  | release l =>
    obtain ⟨lease, hl, hstep⟩ := Option.bind_eq_some_iff.mp hstep
    cases hstep
    exact h.release hl

theorem Inv.step {e : FoxStep n} (h : Inv s) (hstep : FoxPool.step? s e = some s') : Inv s' := by
  cases e with
  | submit k =>
    cases hstep
    exact h.submit k
  | check =>
    cases hstep
    exact inv_push_check.mpr h
  | call k =>
    obtain ⟨c, hk, hstep⟩ := Option.bind_eq_some_iff.mp hstep
    exact (h.front hk).callStep hstep
  | swap t =>
    simp only [FoxPool.step?] at hstep
    split at hstep
    · next hidle =>
      cases hstep
      exact h.swap hidle.1 hidle.2
    · cases hstep
  | run t =>
    simp only [FoxPool.step?] at hstep
    split at hstep
    · next htodo =>
      cases hstep
      exact h.run htodo
    · cases hstep
  | destroy t =>
    simp only [FoxPool.step?] at hstep
    split at hstep
    · next hdone =>
      obtain ⟨lease, hl, hstep⟩ := Option.bind_eq_some_iff.mp hstep
      cases hstep
      exact h.destroy hdone hl
    · cases hstep

theorem inv_new (n submitted : Nat) : Inv (new n submitted) := by
  refine ⟨fun cb => ?_, fun t => ?_, fun l => ?_, fun l => ?_⟩
  · simp [FoxPool.places, tally, new, FoxCall.holds, FoxThread.holds]
  · simp [new]
  · simp [uses, tally, new, FoxCall.uses, FoxThread.uses, FoxLease.at]
  · simp [new, FoxCall.releases, FoxLease.at]

theorem Inv.conserved (h : Inv s) : s.Conserved := by
  refine ⟨fun cb hcb => ?_, h.free⟩
  rw [h.places, List.count_range, if_pos hcb]

end FoxPool

/-- **Nothing is lost, nothing is leased twice.** After every run of a pool between `start` and `stop`. -/
theorem pool_conserved {n submitted : Nat} {r : List (FoxStep n × FoxPool n)}
    (hr : Run (fun s e s' => FoxPool.step? s e = some s') (FoxPool.new n submitted) r) :
    (lastState (FoxPool.new n submitted) r).Conserved :=
  (hr.inv_last (fun _ _ _ hs hstep => hs.step hstep) (FoxPool.inv_new n submitted)).conserved

/-- Two callbacks wait when the pool starts, and its only thread runs them one after the other. -/
theorem pool_conserved_two : ∃ r, Run (fun s e s' => FoxPool.step? s e = some s') (FoxPool.new 1 2) r ∧
    (lastState (FoxPool.new 1 2) r).shared.executed = [1, 0] ∧ (lastState (FoxPool.new 1 2) r).Conserved := by
  obtain ⟨r, hr, hlast⟩ := exists_run_of_trace? (f := FoxPool.step?) (s := FoxPool.new 1 2)
    [.call 0, .call 0, .call 0, .swap ⟨0, Nat.one_pos⟩, .run ⟨0, Nat.one_pos⟩, .destroy ⟨0, Nat.one_pos⟩, .call 0,
      .call 0, .call 0, .swap ⟨0, Nat.one_pos⟩, .run ⟨0, Nat.one_pos⟩]
    (P := fun r => (lastState (FoxPool.new 1 2) r).shared.executed = [1, 0]) (by decide +kernel)
  exact ⟨r, hr, hlast, pool_conserved hr⟩

end Sherry
