import OtaServer.Lib.Run
import OtaServer.Ota.SendFile

/-!
# The handler and the callback of a download

`ota_file_download` registers a callback for the `WRITE` event of the socket before the head of the response is sent.
The callback waits for the head in a loop over `isSending`, on a thread of its own, and then sends the file; the
handler sends the head, clears `isSending` and yields. Both use the one `WRITE` slot of the socket: where `send` has
no room, `do_io` registers the handler's fiber in it.

* `HandlerStage`, `CallbackStage`: how far the two are, and whether they hold a thread.
* `Handshake.step?`: one step, with `threads` threads. A thread that is free polls the events and takes what is
  scheduled. `addEvent` on a slot that is taken fails an assertion, and the process ends.
* `Handshake.Safe`: no byte of the file before the head, the slot never taken twice, and a thread left for the handler
  while the callback loops.
* `handshake_safe_iff`: every state of a run is safe exactly if `send` never lacks room while the callback is still
  registered. With one thread this means that it never does (`registered_of_single`).
-/

namespace Sherry

open Lib

namespace OTAHttpManager

/-! ## The two parties -/

/-- How far the handler's fiber is: in `ota_file_download` before `addEvent`; in `sendResponse`; in `do_io` behind
`addEvent`, and suspended there; behind `sendResponse`, at the test of `isSending`, at its assignment, and at
`YieldToHold`; suspended there, and resumed. -/
inductive HandlerStage where
  | registering | sending | waiting | parked | testing | clearing | yielding | holding | done
  deriving DecidableEq

/-- The fiber is on a thread. -/
@[grind] def HandlerStage.on : HandlerStage → Bool
  | parked | holding => false
  | _ => true

/-- The fiber has still to clear `isSending`. -/
@[grind] def HandlerStage.flag : HandlerStage → Bool
  | yielding | holding | done => false
  | _ => true

/-- `sendResponse` has returned. -/
@[grind] def HandlerStage.wrote : HandlerStage → Bool
  | testing | clearing | yielding | holding | done => true
  | _ => false

/-- How far the callback is: not yet run; in the loop; behind it, before `sendFile`; in `sendfile` of a link; in
`do_io` behind `addEvent`, and suspended there; registered as the next link; at its end. -/
inductive CallbackStage where
  | fresh | spinning | clearing
  | sending (l : Link)
  | waiting (l : Link)
  | parked (l : Link)
  | next (l : Link)
  | ended

/-- The callback is on a thread. -/
@[grind] def CallbackStage.on : CallbackStage → Bool
  | spinning | clearing | sending _ | waiting _ => true
  | _ => false

/-- The callback has left its loop. -/
@[grind] def CallbackStage.left : CallbackStage → Bool
  | fresh | spinning => false
  | _ => true

/-- The callback is registered as a function, or was. -/
@[grind] def CallbackStage.asTask : CallbackStage → Bool
  | fresh | next _ => true
  | _ => false

/-- The callback's fiber is registered, or was. -/
@[grind] def CallbackStage.asFiber : CallbackStage → Bool
  | waiting _ | parked _ => true
  | _ => false

/-- What waits in the `WRITE` slot: the callback, the fiber of the handler, or the fiber that the callback runs in. -/
inductive Waiter where
  | callback | handlerFiber | callbackFiber
  deriving DecidableEq

/-! ## Steps -/

/-- A download of which the head has `headLeft` bytes to go and `fileSent` bytes of the file are sent. A party that is
`Queued` is in the scheduler's list. -/
structure Handshake where
  handler : HandlerStage := .registering
  handlerQueued : Bool := false
  callback : CallbackStage := .fresh
  callbackQueued : Bool := false
  slot : Option Waiter := none
  isSending : Bool := true
  headLeft : Nat
  fileSent : Nat := 0
  aborted : Bool := false

/-- A step: of the handler, of a free thread, or of the callback. -/
inductive HandshakeStep where
  | register
  | send (count : Nat)
  | sendAgain
  | sent
  | test
  | clear
  | handlerYield
  | trigger
  | takeHandler
  | takeCallback
  | look
  | callbackClear
  | sendfile (result : Int)
  | sendfileAgain
  | callbackYield

namespace Handshake

/-- `addEvent(sockfd, WRITE, ...)`. -/
def addEvent (s : Handshake) (w : Waiter) : Handshake :=
  if s.slot = none then { s with slot := some w } else { s with aborted := true }

/-- The threads that the two parties hold. -/
def busy (s : Handshake) : Nat := s.handler.on.toNat + s.callback.on.toNat

/-- The steps of the handler's fiber. -/
def handlerStep? (s : Handshake) : HandshakeStep → Option Handshake
  | .register => if s.handler = .registering then some ({ s with handler := .sending }.addEvent .callback) else none
  | .send count =>
    if s.handler = .sending ∧ 1 ≤ count ∧ count ≤ s.headLeft then some { s with headLeft := s.headLeft - count }
    else none
  | .sendAgain =>
    if s.handler = .sending ∧ 0 < s.headLeft then some ({ s with handler := .waiting }.addEvent .handlerFiber)
    else none
  | .sent => if s.handler = .sending ∧ s.headLeft = 0 then some { s with handler := .testing } else none
  | .test =>
    if s.handler = .testing then some { s with handler := if s.isSending then .clearing else .done } else none
  | .clear => if s.handler = .clearing then some { s with handler := .yielding, isSending := false } else none
  | .handlerYield =>
    match s.handler with
    | .waiting => some { s with handler := .parked }
    | .yielding => some { s with handler := .holding }
    | _ => none
  | _ => none

/-- What a free thread does: it polls the event, or takes a party from the list. -/
def threadStep? (s : Handshake) : HandshakeStep → Option Handshake
  | .trigger =>
    match s.slot with
    | none => none
    | some .handlerFiber => some { s with slot := none, handlerQueued := true }
    | some .callback | some .callbackFiber => some { s with slot := none, callbackQueued := true }
  | .takeHandler =>
    if s.handlerQueued then
      match s.handler with
      | .parked => some { s with handler := .sending, handlerQueued := false }
      | .holding => some { s with handler := .done, handlerQueued := false }
      | _ => none
    else none
  | .takeCallback =>
    if s.callbackQueued then
      match s.callback with
      | .fresh => some { s with callback := .spinning, callbackQueued := false }
      | .next l | .parked l => some { s with callback := .sending l, callbackQueued := false }
      | _ => none
    else none
  | _ => none

/-- The steps of the callback, for a file of `size` bytes. -/
def callbackStep? (size : Nat) (s : Handshake) : HandshakeStep → Option Handshake
  | .look =>
    match s.callback with
    | .spinning => some { s with callback := if s.isSending then .spinning else .clearing }
    | _ => none
  | .callbackClear =>
    match s.callback with
    | .clearing => some { s with callback := .sending ⟨0, size⟩, isSending := false }
    | _ => none
  | .sendfile result =>
    match s.callback with
    | .sending l =>
      match sendFile l result with
      | .failed => some { s with callback := .ended, fileSent := s.fileSent + result.toNat }
      | .scheduled =>
        some { s with callback := .ended, fileSent := s.fileSent + result.toNat, handlerQueued := true }
      | .next l' =>
        some ({ s with callback := .next l', fileSent := s.fileSent + result.toNat }.addEvent .callback)
    | _ => none
  | .sendfileAgain =>
    match s.callback with
    | .sending l => some ({ s with callback := .waiting l }.addEvent .callbackFiber)
    | _ => none
  | .callbackYield =>
    match s.callback with
    | .waiting l => some { s with callback := .parked l }
    | _ => none
  | _ => none

/-- One step, with `threads` threads. -/
def step? (threads size : Nat) (s : Handshake) (a : HandshakeStep) : Option Handshake :=
  if s.aborted then none
  else
    match a with
    | .trigger | .takeHandler | .takeCallback => if s.busy < threads then s.threadStep? a else none
    | .register | .send _ | .sendAgain | .sent | .test | .clear | .handlerYield => s.handlerStep? a
    | .look | .callbackClear | .sendfile _ | .sendfileAgain | .callbackYield => s.callbackStep? size a

/-- The three requirements. -/
structure Safe (threads : Nat) (s : Handshake) : Prop where
  order : 0 < s.fileSent → s.headLeft = 0
  once : s.aborted = false
  thread : ¬ (s.callback = .spinning ∧ s.isSending = true ∧ s.handler.on = false ∧ s.busy = threads)

/-- `send` has room, or the slot is free. -/
def HasRoom (s : Handshake) (a : HandshakeStep) : Prop :=
  match a with
  | .sendAgain => s.slot = none
  | _ => True

instance (s : Handshake) : (a : HandshakeStep) → Decidable (HasRoom s a)
  | .sendAgain => inferInstanceAs (Decidable (s.slot = none))
  | .register | .send _ | .sent | .test | .clear | .handlerYield | .trigger | .takeHandler | .takeCallback
  | .look | .callbackClear | .sendfile _ | .sendfileAgain | .callbackYield => isTrue trivial

/-! ## The invariant -/

/-- What holds between the two parties as long as nothing has gone wrong. -/
structure Inv (threads : Nat) (s : Handshake) : Prop where
  flag : s.isSending = s.handler.flag
  head : s.handler.wrote = true → s.headLeft = 0
  left : s.callback.left = true → s.handler.flag = false
  file : 0 < s.fileSent → s.callback.left = true
  fiber : s.slot = some .handlerFiber →
    (s.handler = .waiting ∨ s.handler = .parked) ∧ s.handlerQueued = false
  wake : s.handlerQueued = true → s.handler = .waiting ∨ s.handler = .parked ∨ s.handler.flag = false
  task : s.slot = some .callback → s.callback.asTask = true ∧ s.callbackQueued = false
  taskFiber : s.slot = some .callbackFiber → s.callback.asFiber = true ∧ s.callbackQueued = false
  queued : s.callbackQueued = true → s.callback.asTask = true ∨ s.callback.asFiber = true
  first : s.handler = .registering → s.slot = none ∧ s.callback = .fresh ∧ s.callbackQueued = false
  single : threads = 1 → s.handler ≠ .waiting ∧ s.handler ≠ .parked ∧
    (s.handler.on = true → s.handler ≠ .registering → s.handler ≠ .done → s.slot = some .callback)
  once : s.aborted = false

variable {threads size : Nat} {s s' : Handshake} {a : HandshakeStep}

theorem inv_start (threads head : Nat) : Inv threads { headLeft := head } where
  flag := rfl
  head h := Bool.noConfusion h
  left h := Bool.noConfusion h
  file h := absurd h (Nat.lt_irrefl 0)
  fiber h := absurd h (Option.some_ne_none _).symm
  wake h := Bool.noConfusion h
  task h := absurd h (Option.some_ne_none _).symm
  taskFiber h := absurd h (Option.some_ne_none _).symm
  queued h := Bool.noConfusion h
  first _ := ⟨rfl, rfl, rfl⟩
  single _ := ⟨HandlerStage.noConfusion, HandlerStage.noConfusion, fun _ h => absurd rfl h⟩
  once := rfl

theorem Inv.safe (h : Inv threads s) : Safe threads s where
  order hfile := by
    have hflag := h.left (h.file hfile)
    have hwrote : s.handler.wrote = true := by
      cases hh : s.handler <;> rw [hh] at hflag <;> first | rfl | cases hflag
    exact h.head hwrote
  once := h.once
  thread := by
    rintro ⟨hspin, hsending, hoff, hbusy⟩
    -- only the callback has a thread, so there is one, and the handler is suspended in `sendResponse`
    rw [busy, hoff, hspin] at hbusy
    obtain ⟨-, hparked, -⟩ := h.single hbusy.symm
    rw [h.flag] at hsending
    cases hh : s.handler <;> rw [hh] at hoff hsending hparked
    all_goals first | exact absurd hoff (by decide) | exact absurd hsending (by decide) | exact hparked rfl

/-- The handler clears `isSending` only behind the head, and takes the slot only if it is free. -/
theorem Inv.handlerStep (h : Inv threads s) (hroom : HasRoom s a) (hs : s.handlerStep? a = some s') :
    Inv threads s' := by
  obtain ⟨hflag, hhead, hleft, hfile, hfiber, hwake, htask, htaskFiber, hqueued, hfirst, hsingle, honce⟩ := h
  cases a <;> simp only [handlerStep?, Option.ite_none_right_eq_some, Option.some.injEq, reduceCtorEq] at hs
  case register =>
    obtain ⟨hh, rfl⟩ := hs
    rw [addEvent, if_pos (hfirst hh).1]
    constructor <;> grind -linarith
  case send count =>
    obtain ⟨hh, rfl⟩ := hs
    constructor <;> grind -linarith
  case sendAgain =>
    -- with one thread the callback is still registered, so there was room
    obtain ⟨hh, rfl⟩ := hs
    have hslot : s.slot = none := hroom
    rw [addEvent, if_pos hslot]
    constructor <;> grind -linarith
  case sent =>
    obtain ⟨hh, rfl⟩ := hs
    constructor <;> grind -linarith
  case test =>
    obtain ⟨hh, rfl⟩ := hs
    constructor <;> grind -linarith
  case clear =>
    obtain ⟨hh, rfl⟩ := hs
    constructor <;> grind -linarith
  case handlerYield =>
    split at hs <;> cases hs
    · constructor <;> grind -linarith
    · constructor <;> grind -linarith

/-- A free thread, with one thread, means that the handler is suspended. -/
theorem off_of_free (hfree : s.busy < threads) (hone : threads = 1) : s.handler.on = false := by
  cases hon : s.handler.on with
  | false => rfl
  | true =>
    rw [busy, hon, hone, Bool.toNat_true] at hfree
    omega

theorem Inv.threadStep (h : Inv threads s) (hfree : s.busy < threads) (hs : s.threadStep? a = some s') :
    Inv threads s' := by
  obtain ⟨hflag, hhead, hleft, hfile, hfiber, hwake, htask, htaskFiber, hqueued, hfirst, hsingle, honce⟩ := h
  have hoff := off_of_free hfree
  cases a <;> simp only [threadStep?, Option.ite_none_right_eq_some, reduceCtorEq] at hs
  case trigger =>
    split at hs <;> cases hs
    · constructor <;> grind -linarith
    · constructor <;> grind -linarith
    · constructor <;> grind -linarith
  case takeHandler =>
    obtain ⟨hq, hs⟩ := hs
    split at hs <;> cases hs
    · constructor <;> grind -linarith
    · constructor <;> grind -linarith
  case takeCallback =>
    obtain ⟨hq, hs⟩ := hs
    split at hs <;> cases hs
    · constructor <;> grind -linarith
    · constructor <;> grind -linarith
    · constructor <;> grind -linarith

/-- While the callback sends, the slot is free: the handler is behind its head. -/
theorem Inv.slot_free (h : Inv threads s) {l : Link} (hl : s.callback = .sending l) : s.slot = none := by
  obtain ⟨hflag, hhead, hleft, hfile, hfiber, hwake, htask, htaskFiber, hqueued, hfirst, hsingle, honce⟩ := h
  cases hw : s.slot with
  | none => rfl
  | some w => cases w <;> grind -linarith

theorem Inv.callbackStep (h : Inv threads s) (hs : s.callbackStep? size a = some s') : Inv threads s' := by
  have hslot := fun l => h.slot_free (l := l)
  obtain ⟨hflag, hhead, hleft, hfile, hfiber, hwake, htask, htaskFiber, hqueued, hfirst, hsingle, honce⟩ := h
  cases a <;> simp only [callbackStep?, reduceCtorEq] at hs
  case look =>
    split at hs <;> cases hs
    constructor <;> grind -linarith
  case callbackClear =>
    split at hs <;> cases hs
    constructor <;> grind -linarith
  case sendfile result =>
    split at hs
    · rename_i l hl
      split at hs <;> cases hs
      · constructor <;> grind -linarith
      · constructor <;> grind -linarith
      · rw [addEvent, if_pos (hslot l hl)]
        constructor <;> grind -linarith
    · cases hs
  case sendfileAgain =>
    split at hs <;> cases hs
    rename_i l hl
    rw [addEvent, if_pos (hslot l hl)]
    constructor <;> grind -linarith
  case callbackYield =>
    split at hs <;> cases hs
    constructor <;> grind -linarith

/-- Every step keeps the invariant, but for a `send` without room while the slot is taken. -/
theorem Inv.step (h : Inv threads s) (hroom : HasRoom s a) (hs : s.step? threads size a = some s') :
    Inv threads s' := by
  unfold step? at hs
  rw [if_neg (by simp [h.once])] at hs
  cases a
  case trigger | takeHandler | takeCallback =>
    obtain ⟨hfree, hs⟩ := Option.ite_none_right_eq_some.mp hs
    exact h.threadStep hfree hs
  case register | send | sendAgain | sent | test | clear | handlerYield => exact h.handlerStep hroom hs
  case look | callbackClear | sendfile | sendfileAgain | callbackYield => exact h.callbackStep hs

/-- A `send` without room while the slot is taken ends the process. -/
theorem aborted_of_no_room (hs : s.step? threads size a = some s') (hroom : ¬ HasRoom s a) : s'.aborted = true := by
  cases a
  case sendAgain =>
    have hslot : s.slot ≠ none := hroom
    unfold step? at hs
    split at hs
    · cases hs
    · obtain ⟨-, hs⟩ := Option.ite_none_right_eq_some.mp hs
      rw [addEvent, if_neg hslot] at hs
      cases hs
      rfl
  all_goals exact absurd trivial hroom

end Handshake

open Handshake

/-- **The handshake.** For every number of threads, every size of the head and of the file, and every
interleaving: all states are safe exactly if `send` never lacks room while the `WRITE` slot is taken. -/
theorem handshake_safe_iff (threads size head : Nat) {r : List (HandshakeStep × Handshake)}
    (hr : Run (fun s a s' => step? threads size s a = some s') { headLeft := head } r) :
    Reached (Safe threads) r ↔ Meets HasRoom { headLeft := head } r := by
  refine Run.reached_iff (I := Inv threads) (fun s a s' hi hs => ⟨fun hsafe => ?_, fun hroom => ?_⟩)
    (fun s a s' hi hroom hs => hi.step hroom hs) hr (inv_start threads head)
  · by_contra hroom
    have habort := aborted_of_no_room hs hroom
    rw [hsafe.once] at habort
    cases habort
  · exact (hi.step hroom hs).safe

/-- With one thread, the callback is registered as long as the head is sent. -/
theorem registered_of_single {s : Handshake} (h : Inv 1 s) (hs : s.handler = .sending) : s.slot = some .callback :=
  (h.single rfl).2.2 (by rw [hs]; rfl) (by rw [hs]; exact HandlerStage.noConfusion)
    (by rw [hs]; exact HandlerStage.noConfusion)

/-- Two threads: the event comes while the head is sent, and a `send` that lacks room meanwhile does no harm. -/
theorem handshake_safe_two : ∃ r, Run (fun s a s' => step? 2 3 s a = some s') { headLeft := 2 } r ∧
      (lastState { headLeft := 2 } r).handler = .done ∧ (lastState { headLeft := 2 } r).fileSent = 3 ∧
      Reached (Safe 2) r := by
  obtain ⟨r, hr, hdone, hsent, hroom⟩ := exists_run_of_trace? (f := step? 2 3) (s := { headLeft := 2 })
    [.register, .trigger, .takeCallback, .look, .send 1, .sendAgain, .handlerYield, .trigger, .takeHandler, .look,
      .send 1, .sent, .test, .clear, .look, .callbackClear, .sendfile 3, .handlerYield, .takeHandler]
    (P := fun r => (lastState { headLeft := 2 } r).handler = .done ∧ (lastState { headLeft := 2 } r).fileSent = 3 ∧
      Meets HasRoom { headLeft := 2 } r) (by decide +kernel)
  exact ⟨r, hr, hdone, hsent, (handshake_safe_iff 2 3 2 hr).mpr hroom⟩

/-- One thread: the socket has room for one byte of the head, and the handler's fiber is registered while the callback
is. -/
theorem handshake_fails : ∃ r, Run (fun s a s' => step? 1 3 s a = some s') { headLeft := 2 } r ∧
      ¬ Safe 1 (lastState { headLeft := 2 } r) := by
  obtain ⟨r, hr, hlast⟩ := exists_run_of_trace? (f := step? 1 3) (s := { headLeft := 2 })
    [.register, .send 1, .sendAgain]
    (P := fun r => (lastState { headLeft := 2 } r).aborted = true) (by decide +kernel)
  refine ⟨r, hr, fun hsafe => ?_⟩
  rw [hsafe.once] at hlast
  cases hlast

end OTAHttpManager

end Sherry
