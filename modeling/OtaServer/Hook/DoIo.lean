import OtaServer.Fd.Manager
import OtaServer.IOManager.Events
import OtaServer.Lib.Threads

/-!
# Reads and writes that are suspended (`do_io`, `close` in `sherry/hook.cc`)

A fiber that would block registers for its event and is suspended. When it runs again it knows the number of its
descriptor and nothing else. In between others close the descriptor, and the kernel may give the number to a new
socket. A fiber runs from one suspension to the next in one step.

* `HookSystem`: the fibers, the events, the kernel's descriptors. `begin`, `resume`: the two parts of `do_io`.
  `close`, `socket`, `timeout`: what the others do.
* `doIo_reused`: what a fiber does whose number was given away.
-/

namespace Sherry

open Lib

/-- What the original function returns: a result, `EINTR`, `EAGAIN`, or another error. -/
inductive FunResult where
  | done (n : Nat)
  | intr
  | again
  | failed (errno : Nat)

/-- What `do_io` returns. -/
inductive IoResult where
  | done (n : Nat)
  | failed (errno : Nat)
  deriving DecidableEq

/-- `EINTR`. -/
def eintr : Nat := 4

/-- `EBADF`. -/
def ebadf : Nat := 9

/-- `EAGAIN`. -/
def eagain : Nat := 11

/-- `ETIMEDOUT`. -/
def etimedout : Nat := 110

/-- What the original function returns is returned. -/
def FunResult.toIo : FunResult → IoResult
  | .done n => .done n
  | .intr => .failed eintr
  | .again => .failed eagain
  | .failed e => .failed e

/-- A call of `do_io` that is suspended. -/
structure IoCall where
  fd : Nat
  event : Event
  /-- The socket that the call was made for. -/
  socket : Nat
  /-- `to` is not -1: a timer is set. -/
  timed : Bool
  /-- `tinfo->cancelled`. -/
  cancelled : Bool := false
  /-- What `addEvent` has registered. -/
  cont : ContId := 0

/-- Where a fiber is. -/
inductive IoPc where
  | out
  | suspended (call : IoCall)
  | returned (result : IoResult)

/-- What the fiber's last call has returned. -/
def IoPc.result? : IoPc → Option IoResult
  | .returned r => some r
  | _ => none

/-- How a suspended call has gone on. -/
structure Resumed where
  /-- The socket that the call was made for. -/
  socket : Nat
  /-- What its number stands for when it goes on. -/
  found : Option Nat
  /-- The sockets that it reads from or writes to. -/
  uses : List Nat
  /-- What it returns, if it does. -/
  result : Option IoResult
  deriving DecidableEq

/-- What the fibers share. -/
structure HookShared where
  io : IOManager := {}
  fds : FdManager := {}
  /-- The kernel's descriptors: the sockets that are open. -/
  files : Nat → Option Nat := fun _ => none
  /-- The number of sockets so far. -/
  sockets : Nat := 0
  /-- All suspended calls that have gone on. -/
  log : List Resumed := []

/-- What a fiber does next. The original function gives these results, `epoll_ctl` succeeds or fails. -/
inductive IoChoice where
  /-- `do_io`. -/
  | begin (fd : Nat) (event : Event) (type : TimeoutType) (results : List FunResult) (ok : Bool)
  /-- `do_io` behind `YieldToHold`. -/
  | resume (results : List FunResult) (ok : Bool)
  /-- The timer of the call expires. -/
  | timeout (ok : Bool)

/-- What the others do. -/
inductive HookOuter where
  | socket (fd : Nat)
  | close (fd : Nat) (ok : Bool)
  /-- `setsockopt`, and the other calls that change what is known of a descriptor. -/
  | setTimeout (fd : Nat) (type : TimeoutType) (v : Nat)
  | setUserNonblock (fd : Nat) (v : Bool)
  | deliver (i : Nat) (report : Report) (ok : Bool)

/-- The loop over `EINTR`: the number of calls of the original function, and the last result. -/
def callFun : List FunResult → Option (Nat × FunResult)
  | [] => none
  | .intr :: results => (callFun results).map fun x => (x.1 + 1, x.2)
  | r :: _ => some (1, r)

namespace HookShared

/-- `do_io` from `retry` on, until it returns or is suspended; and the sockets that it uses. -/
def retry (s : HookShared) (call : IoCall) (results : List FunResult) (ok : Bool) :
    Option (HookShared × IoPc × List Nat) :=
  match s.files call.fd with
  | none => some (s, .returned (.failed ebadf), [])
  | some k => do
    let (n, r) ← callFun results
    let uses := List.replicate n k
    match r with
    | .done m => some (s, .returned (.done m), uses)
    | .failed e => some (s, .returned (.failed e), uses)
    | .intr => none
    | .again =>
      let (io, rt) ← s.io.addEvent call.fd call.event 0 false ok
      -- an error is returned with the `errno` of `epoll_ctl`, which is left out
      if rt = 0 then some ({ s with io }, .suspended { call with cont := s.io.added }, uses)
      else some ({ s with io }, .returned (.failed eagain), uses)

/-- The original function, where `do_io` does nothing else. -/
def callOnce (s : HookShared) (fd : Nat) (results : List FunResult) : Option IoResult :=
  match s.files fd with
  | none => some (.failed ebadf)
  | some _ => results.head?.map FunResult.toIo

/-- `do_io`. -/
def begin (s : HookShared) (fd : Nat) (event : Event) (type : TimeoutType) (results : List FunResult)
    (ok : Bool) : Option (HookShared × IoPc) :=
  match s.fds.ctx? fd with
  | none => (s.callOnce fd results).map fun r => (s, .returned r)
  | some ctx =>
    if ctx.isClosed then some (s, .returned (.failed ebadf))
    else if !ctx.isSocket || ctx.userNonblock then (s.callOnce fd results).map fun r => (s, .returned r)
    else
      match s.files fd with
      | none => some (s, .returned (.failed ebadf))
      | some socket =>
        (s.retry { fd, event, socket, timed := ctx.getTimeout type != 2 ^ 64 - 1 } results ok).map
          fun x => (x.1, x.2.1)

/-- `do_io` behind `YieldToHold`. -/
def resume (s : HookShared) (call : IoCall) (results : List FunResult) (ok : Bool) :
    Option (HookShared × IoPc × List Nat) :=
  if call.cancelled then some (s, .returned (.failed etimedout), []) else s.retry call results ok

/-- A step of a fiber. -/
def step (s : HookShared) : IoPc → IoChoice → Option (HookShared × IoPc)
  | .out, .begin fd event type results ok => s.begin fd event type results ok
  | .returned _, .begin fd event type results ok => s.begin fd event type results ok
  | .suspended call, .resume results ok =>
    -- it has been scheduled
    if s.io.scheduled.any fun x => x.2 == call.cont then do
      let (s', pc, uses) ← s.resume call results ok
      return ({ s' with log := ⟨call.socket, s.files call.fd, uses, pc.result?⟩ :: s'.log }, pc)
    else none
  | .suspended call, .timeout ok =>
    if call.timed && !call.cancelled then do
      let (io, _) ← s.io.cancelEvent call.fd call.event ok
      return ({ s with io }, .suspended { call with cancelled := true })
    else none
  | _, _ => none

/-- `socket`: the kernel gives a number that is free. -/
def socket (s : HookShared) (fd : Nat) : Option HookShared :=
  if (s.files fd).isNone then
    some { s with
      files := Function.update s.files fd (some s.sockets)
      sockets := s.sockets + 1
      fds := (s.fds.get fd true (some true)).1 }
  else none

/-- The original `close`. The kernel also takes the descriptor out of `epoll`. -/
def closeFile (s : HookShared) (fd : Nat) : HookShared :=
  { s with
    files := Function.update s.files fd none
    io := { s.io with epoll := Function.update s.io.epoll fd none } }

/-- `close`. -/
def close (s : HookShared) (fd : Nat) (ok : Bool) : Option HookShared :=
  if (s.fds.ctx? fd).isSome then
    (s.io.cancelAll fd ok).map fun x => closeFile { s with io := x.1, fds := s.fds.del fd } fd
  else some (s.closeFile fd)

/-- What the others do. -/
def outer (s : HookShared) : HookOuter → Option HookShared
  | .socket fd => s.socket fd
  | .close fd ok => s.close fd ok
  | .setTimeout fd type v => some { s with fds := s.fds.modifyCtx fd fun ctx => ctx.setTimeout type v }
  | .setUserNonblock fd v => some { s with fds := s.fds.modifyCtx fd fun ctx => { ctx with userNonblock := v } }
  | .deliver i report ok =>
    if s.io.reports i report then (s.io.processEvent i report ok).map fun io => { s with io } else none

end HookShared

/-- The fibers. -/
abbrev HookSystem (n : Nat) := Threads (Fin n) HookShared IoPc

namespace HookSystem

/-- A step of a fiber, or of the system around it. -/
abbrev HLabel (n : Nat) := Threads.Label (Fin n) IoChoice HookOuter

/-- No socket is open. -/
def new (n : Nat) : HookSystem n := ⟨{}, fun _ => .out⟩

/-- One step. -/
def step? {n : Nat} (s : HookSystem n) (l : HLabel n) : Option (HookSystem n) :=
  Threads.step? (fun _ => HookShared.step) HookShared.outer s l

/-- A call whose number stands for another socket has been cancelled by its timer when it goes on. -/
def cancelledIfReused {n : Nat} (s : HookSystem n) : HLabel n → Bool
  | .thread i (.resume _ _) =>
    match s.thread i with
    | .suspended call =>
      match s.shared.files call.fd with
      | none => true
      | some k => k == call.socket || call.cancelled
    | _ => true
  | _ => true

end HookSystem

/-- A call whose number stands for another socket uses none, and fails. -/
def Resumed.Safe (x : Resumed) : Prop :=
  ∀ k, x.found = some k → k ≠ x.socket → x.uses = [] ∧ ∃ e, x.result = some (.failed e)

/-! ## What a fiber does that goes on -/

theorem callFun_pos {results : List FunResult} {x : Nat × FunResult} (h : callFun results = some x) : 0 < x.1 := by
  induction results generalizing x with
  | nil => cases h
  | cons r results ih =>
    cases r with
    | intr =>
      obtain ⟨y, -, rfl⟩ := Option.map_eq_some_iff.mp h
      exact Nat.succ_pos _
    | done n =>
      cases h
      exact Nat.one_pos
    | again =>
      cases h
      exact Nat.one_pos
    | failed e =>
      cases h
      exact Nat.one_pos

namespace HookShared

variable {s s' : HookShared} {call : IoCall} {results : List FunResult} {ok : Bool} {pc : IoPc}
  {uses : List Nat}

theorem retry_uses {k : Nat} (h : s.retry call results ok = some (s', pc, uses))
    (hk : s.files call.fd = some k) : k ∈ uses := by
  rw [retry, hk] at h
  obtain ⟨⟨n, r⟩, hcall, h⟩ := Option.bind_eq_some_iff.mp h
  have hpos := callFun_pos hcall
  have hmem : k ∈ List.replicate n k := List.mem_replicate.mpr ⟨Nat.pos_iff_ne_zero.mp hpos, rfl⟩
  cases r with
  | done m =>
    cases h
    exact hmem
  | failed e =>
    cases h
    exact hmem
  | intr => cases h
  | again =>
    obtain ⟨⟨io, rt⟩, -, h⟩ := Option.bind_eq_some_iff.mp h
    dsimp only at h
    split at h <;> cases h <;> exact hmem

theorem retry_log (h : s.retry call results ok = some (s', pc, uses)) : s'.log = s.log := by
  rw [retry] at h
  split at h
  · cases h
    rfl
  · obtain ⟨⟨n, r⟩, -, h⟩ := Option.bind_eq_some_iff.mp h
    cases r with
    | done m =>
      cases h
      rfl
    | failed e =>
      cases h
      rfl
    | intr => cases h
    | again =>
      obtain ⟨⟨io, rt⟩, -, h⟩ := Option.bind_eq_some_iff.mp h
      dsimp only at h
      split at h <;> cases h <;> rfl

theorem begin_log {fd : Nat} {event : Event} {type : TimeoutType}
    (h : s.begin fd event type results ok = some (s', pc)) : s'.log = s.log := by
  unfold begin at h
  split at h
  · obtain ⟨r, -, heq⟩ := Option.map_eq_some_iff.mp h
    cases heq
    rfl
  · split at h
    · cases h
      rfl
    · split at h
      · obtain ⟨r, -, heq⟩ := Option.map_eq_some_iff.mp h
        cases heq
        rfl
      · split at h
        · cases h
          rfl
        · obtain ⟨⟨s'', pc', uses⟩, hretry, heq⟩ := Option.map_eq_some_iff.mp h
          cases heq
          exact retry_log hretry

theorem resume_log (h : s.resume call results ok = some (s', pc, uses)) : s'.log = s.log := by
  rw [resume] at h
  split at h
  · cases h
    rfl
  · exact retry_log h

/-- A suspended call that goes on is safe if its number stands for its socket, or if it was cancelled. -/
theorem resume_safe_iff (h : s.resume call results ok = some (s', pc, uses)) :
    (Resumed.mk call.socket (s.files call.fd) uses pc.result?).Safe ↔
      ∀ k, s.files call.fd = some k → k = call.socket ∨ call.cancelled = true := by
  constructor
  · intro hsafe k hk
    by_contra hnot
    obtain ⟨hne, hcancelled⟩ := not_or.mp hnot
    rw [resume, if_neg hcancelled] at h
    have hmem := retry_uses h hk
    have hnone : uses = [] := (hsafe k hk hne).1
    rw [hnone] at hmem
    cases hmem
  · intro hcond k hk hne
    have hcancelled := (hcond k hk).resolve_left hne
    rw [resume, if_pos hcancelled] at h
    cases h
    exact ⟨rfl, etimedout, rfl⟩

/-- A step of a fiber adds to the log when a suspended call goes on, and only then. -/
theorem step_cases {c : IoChoice} {pc' : IoPc} (h : s.step pc c = some (s', pc')) :
    (∀ results ok, c ≠ .resume results ok) ∧ s'.log = s.log ∨
      ∃ call results ok s'' uses, pc = .suspended call ∧ c = .resume results ok ∧
        s.resume call results ok = some (s'', pc', uses) ∧
        s'.log = ⟨call.socket, s.files call.fd, uses, pc'.result?⟩ :: s.log := by
  unfold step at h
  split at h
  · exact .inl ⟨nofun, begin_log h⟩
  · exact .inl ⟨nofun, begin_log h⟩
  · split at h
    · obtain ⟨⟨s'', pc'', uses⟩, hresume, heq⟩ := Option.bind_eq_some_iff.mp h
      cases heq
      refine .inr ⟨_, _, _, s'', uses, rfl, rfl, hresume, ?_⟩
      dsimp only
      rw [resume_log hresume]
    · cases h
  · split at h
    · obtain ⟨⟨io, b⟩, -, heq⟩ := Option.bind_eq_some_iff.mp h
      cases heq
      exact .inl ⟨nofun, rfl⟩
    · cases h
  · cases h

theorem outer_log {e : HookOuter} (h : s.outer e = some s') : s'.log = s.log := by
  cases e with
  | socket fd =>
    simp only [outer, socket] at h
    split at h
    · cases h
      rfl
    · cases h
  | close fd ok =>
    simp only [outer, close] at h
    split at h
    · obtain ⟨x, -, rfl⟩ := Option.map_eq_some_iff.mp h
      rfl
    · cases h
      rfl
  | setTimeout fd type v =>
    cases h
    rfl
  | setUserNonblock fd v =>
    cases h
    rfl
  | deliver i report ok =>
    simp only [outer] at h
    split at h
    · obtain ⟨io, -, rfl⟩ := Option.map_eq_some_iff.mp h
      rfl
    · cases h

end HookShared

/-! ## Runs -/

namespace HookSystem

variable {n : Nat} {s s' : HookSystem n} {l : HLabel n}

/-- All calls that have gone on were safe. -/
def Safe (s : HookSystem n) : Prop := ∀ x ∈ s.shared.log, x.Safe

theorem safe_step_iff (h : Safe s) (hstep : step? s l = some s') : Safe s' ↔ cancelledIfReused s l = true := by
  obtain ⟨i, c, ⟨x, pc'⟩, rfl, hx, rfl⟩ | ⟨e, x, rfl, hx, rfl⟩ := Threads.step?_cases hstep
  · obtain ⟨hc, hlog⟩ | ⟨call, results, ok, s'', uses, hpc, rfl, hresume, hlog⟩ := HookShared.step_cases hx
    · have hsafe : Safe (s.set i (x, pc')) := by
        intro y hy
        rw [Threads.set_shared, hlog] at hy
        exact h y hy
      refine iff_of_true hsafe ?_
      cases c with
      | resume results ok => exact absurd rfl (hc results ok)
      | begin fd event type results ok => rfl
      | timeout ok => rfl
    · have hone : Safe (s.set i (x, pc')) ↔
          (Resumed.mk call.socket (s.shared.files call.fd) uses pc'.result?).Safe := by
        rw [Safe, Threads.set_shared, hlog, List.forall_mem_cons]
        exact and_iff_left h
      rw [hone, HookShared.resume_safe_iff hresume]
      simp only [cancelledIfReused, hpc]
      cases s.shared.files call.fd with
      | none => simp
      | some k => simp
  · refine iff_of_true ?_ rfl
    intro y hy
    rw [show ({ s with shared := x } : HookSystem n).shared.log = s.shared.log from HookShared.outer_log hx] at hy
    exact h y hy

end HookSystem

/-- A suspended call whose number the kernel has given to another socket returns an error and leaves that socket
alone, in exactly the runs in which each such call was cancelled by its timer before it goes on. -/
theorem doIo_reused (n : Nat) {r : List (HookSystem.HLabel n × HookSystem n)}
    (hr : Run (fun s l s' => HookSystem.step? s l = some s') (HookSystem.new n) r) :
    Reached (fun s : HookSystem n => ∀ x ∈ s.shared.log, x.Safe) r ↔
      Meets (fun s l => HookSystem.cancelledIfReused s l = true) (HookSystem.new n) r := by
  have hnew : HookSystem.Safe (HookSystem.new n) := fun x hx => nomatch hx
  exact Run.reached_iff (C := fun s l => HookSystem.cancelledIfReused s l = true) (I := HookSystem.Safe)
    (P := HookSystem.Safe) (fun _ _ _ h hstep => HookSystem.safe_step_iff h hstep)
    (fun _ _ _ h hc hstep => (HookSystem.safe_step_iff h hstep).mpr hc) hr hnew

/-- The timer of the reader expires after the number was given away. -/
theorem doIo_reused_timeout : ∃ r : List (HookSystem.HLabel 1 × HookSystem 1),
      Run (fun s l s' => HookSystem.step? s l = some s') (HookSystem.new 1) r ∧
        (lastState (HookSystem.new 1) r).shared.log.map Resumed.found = [some 1] ∧
        Reached (fun s : HookSystem 1 => ∀ x ∈ s.shared.log, x.Safe) r := by
  obtain ⟨r, hr, hfound, hcancelled⟩ := exists_run_of_trace? (f := HookSystem.step?) (s := HookSystem.new 1)
    [.outer (.socket 5), .outer (.setTimeout 5 .recv 100), .thread 0 (.begin 5 .read .recv [.again] true),
      .outer (.close 5 true), .outer (.socket 5), .thread 0 (.timeout true), .thread 0 (.resume [] true)]
    (P := fun r => (lastState (HookSystem.new 1) r).shared.log.map Resumed.found = [some 1] ∧
      Meets (fun s l => HookSystem.cancelledIfReused s l = true) (HookSystem.new 1) r) (by decide +kernel)
  exact ⟨r, hr, hfound, (doIo_reused 1 hr).mpr hcancelled⟩

/-- A fiber reads from a socket that another one closes. The number is given to a new socket, and the fiber reads what
was sent to that. -/
theorem doIo_reads_reused : ∃ r : List (HookSystem.HLabel 1 × HookSystem 1),
      Run (fun s l s' => HookSystem.step? s l = some s') (HookSystem.new 1) r ∧
        (lastState (HookSystem.new 1) r).shared.log = [⟨0, some 1, [1], some (.done 3)⟩] := by
  exact exists_run_of_trace?
    [.outer (.socket 5), .thread 0 (.begin 5 .read .recv [.again] true), .outer (.close 5 true), .outer (.socket 5),
      .thread 0 (.resume [.done 3] true)] (by decide +kernel)

end Sherry
