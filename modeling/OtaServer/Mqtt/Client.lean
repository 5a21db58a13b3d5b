import OtaServer.Lib.Bytes
import OtaServer.Lib.Prog
import OtaServer.Lib.Run

/-!
# The MQTT client (`sherry/mqtt_client.cc`)

There are two connection flags: `is_connected()` of the Paho library, and `m_isconnected` of `MqttClient`, which the
program sets after a successful `connect` and the library's callbacks set later. `MqttClient::connect`, `subscribe`
and `publish` assert what they need of them. The calls of a device (`OTADevice::start` and `stop`, and
`OTANotifier::publish_once` on a timer tick) run on different threads, next to the library.

* The functions of the source are programs over `MqttOp`, one operation for each read or change of a flag. A failed
  assertion is an operation too.
* A running call is at a place of its function (`Place`); `Place.prog` is what is left of it, and `prog_next` says
  that places follow the program.
* `mqtt_never_aborts`: no assertion fails in a run in which each step meets `MqttOk`.
-/

namespace Sherry

open Lib

/-- The operations on the client. `assertFailed` ends the process. -/
inductive MqttOp where
  | isConnected
  | getIsconnected
  | connect
  | setIsconnected
  | subscribe (topic : Bytes)
  | publish
  | disconnect
  | assertFailed

/-- The answers; that of `connect` says whether the attempt succeeded. -/
def MqttOp.Ret : MqttOp → Type
  | isConnected | getIsconnected | connect => Bool
  | _ => Unit

/-- A function of the program. -/
abbrev MqttProg := Prog MqttOp MqttOp.Ret Unit

namespace MqttClient

/-- `SYLAR_ASSERT(ok)`, and what follows it. -/
def sylarAssert (ok : Bool) (next : MqttProg) : MqttProg :=
  if ok then next else .op .assertFailed fun _ => .ret ()

/-- `MqttClient::connect(true)`, and what follows it. An attempt that fails is logged. -/
def connect (next : MqttProg) : MqttProg :=
  .op .isConnected fun (c : Bool) => sylarAssert (!c) <|
    .op .connect fun (ok : Bool) => if ok then .op .setIsconnected fun _ => next else next

/-- `MqttClient::subscribe`, and what follows it. -/
def subscribe (topic : Bytes) (next : MqttProg) : MqttProg :=
  .op .isConnected fun (c : Bool) => sylarAssert c <|
    .op .getIsconnected fun (f : Bool) => sylarAssert f <|
      .op (.subscribe topic) fun _ => next

/-- `MqttClient::publish`. The first test is only logged. -/
def publish : MqttProg :=
  .op .isConnected fun _ =>
    .op .isConnected fun (c : Bool) => sylarAssert c <|
      .op .getIsconnected fun (f : Bool) => sylarAssert f <|
        .op .publish fun _ => .ret ()

/-- `MqttClient::disconnect`. -/
def disconnect : MqttProg :=
  .op .isConnected fun (c : Bool) => if c then .op .disconnect fun _ => .ret () else .ret ()

end MqttClient

/-- The subscriptions of `OTADevice::start`. -/
def subscribeTopics : List Bytes → MqttProg
  | [] => .ret ()
  | topic :: topics => MqttClient.subscribe topic (subscribeTopics topics)

/-- `OTADevice::start` after its `connect`. -/
def startConnected (topics : List Bytes) : MqttProg :=
  .op .getIsconnected fun (f : Bool) => if f then subscribeTopics topics else .ret ()

/-- `OTADevice::start`, for a device with these topics. -/
def deviceStart (topics : List Bytes) : MqttProg := MqttClient.connect (startConnected topics)

/-- `OTADevice::stop`. -/
def deviceStop : MqttProg := MqttClient.disconnect

/-- `OTANotifier::publish_once`. -/
def publishOnce : MqttProg :=
  .op .getIsconnected fun (f : Bool) =>
    if f then MqttClient.publish else MqttClient.connect MqttClient.publish

/-! ## The client and its library -/

/-- A callback of the library that has not been delivered yet. -/
inductive MqttCallback where
  | connected
  | connectionLost

/-- The client. -/
structure Client where
  /-- `m_client->is_connected()`. -/
  connected : Bool
  /-- `m_isconnected`; the constructor does not set it. -/
  isconnected : Bool
  pending : List MqttCallback := []
  aborted : Bool := false

namespace Client

/-- An operation, where `ok` says whether an attempt to connect succeeds. -/
def handle (ok : Bool) : Handler MqttOp MqttOp.Ret Client
  | .isConnected, c => (c.connected, c)
  | .getIsconnected, c => (c.isconnected, c)
  | .connect, c =>
    (ok, if ok then { c with connected := true, pending := c.pending ++ [.connected] } else c)
  | .setIsconnected, c => ((), { c with isconnected := true })
  | .subscribe _, c => ((), c)
  | .publish, c => ((), c)
  | .disconnect, c => ((), { c with connected := false })
  | .assertFailed, c => ((), { c with aborted := true })

/-- The connection breaks. -/
def lose (c : Client) : Client :=
  { c with connected := false, pending := c.pending ++ [.connectionLost] }

/-- The library connects again by itself. -/
def reconnect (c : Client) : Client :=
  { c with connected := true, pending := c.pending ++ [.connected] }

/-- `MqttClient::connected` or `MqttClient::connection_lost` runs. -/
def deliver (c : Client) (k : Nat) : Client :=
  match c.pending[k]? with
  | none => c
  | some .connected => { c with isconnected := true, pending := c.pending.eraseIdx k }
  | some .connectionLost => { c with isconnected := false, pending := c.pending.eraseIdx k }

end Client

/-! ## Where a call is -/

/-- The function that called `connect`. -/
inductive Caller where
  | start (topics : List Bytes)
  | tick

/-- A place in a running call: the next operation. -/
inductive Place where
  | finished
  | tickTest
  | connectAssert (c : Caller)
  | connectTry (c : Caller)
  | connectSet (c : Caller)
  /-- `ok` remembers whether the attempt succeeded. -/
  | startTest (ok : Bool) (topics : List Bytes)
  | subscribeAssert (topic : Bytes) (topics : List Bytes)
  | subscribeAssert2 (topic : Bytes) (topics : List Bytes)
  | subscribe (topic : Bytes) (topics : List Bytes)
  | publishLog
  | publishAssert
  | publishAssert2
  | publish
  | stopTest
  | stop
  | failing

/-- What follows `connect`. -/
def Caller.rest : Caller → MqttProg
  | start topics => startConnected topics
  | tick => MqttClient.publish

/-- What is left of a call. -/
def Place.prog : Place → MqttProg
  | finished => .ret ()
  | tickTest => publishOnce
  | connectAssert c => MqttClient.connect c.rest
  | connectTry c => .op .connect fun (ok : Bool) => if ok then .op .setIsconnected fun _ => c.rest else c.rest
  | connectSet c => .op .setIsconnected fun _ => c.rest
  | startTest _ topics => startConnected topics
  | subscribeAssert topic topics => MqttClient.subscribe topic (subscribeTopics topics)
  | subscribeAssert2 topic topics =>
    .op .getIsconnected fun (f : Bool) => MqttClient.sylarAssert f <|
      .op (.subscribe topic) fun _ => subscribeTopics topics
  | subscribe topic topics => .op (.subscribe topic) fun _ => subscribeTopics topics
  | publishLog => MqttClient.publish
  | publishAssert =>
    .op .isConnected fun (c : Bool) => MqttClient.sylarAssert c <|
      .op .getIsconnected fun (f : Bool) => MqttClient.sylarAssert f <|
        .op .publish fun _ => .ret ()
  | publishAssert2 =>
    .op .getIsconnected fun (f : Bool) => MqttClient.sylarAssert f <|
      .op .publish fun _ => .ret ()
  | publish => .op .publish fun _ => .ret ()
  | stopTest => MqttClient.disconnect
  | stop => .op .disconnect fun _ => .ret ()
  | failing => .op .assertFailed fun _ => .ret ()

/-- The place at the start of the subscriptions. -/
def subscribePlace : List Bytes → Place
  | [] => .finished
  | topic :: topics => .subscribeAssert topic topics

/-- The place after `connect`. -/
def Caller.place (ok : Bool) : Caller → Place
  | start topics => .startTest ok topics
  | tick => .publishLog

/-- The place after the next operation. -/
def Place.next (ok : Bool) (cl : Client) : Place → Place
  | finished => .finished
  | tickTest => if cl.isconnected then .publishLog else .connectAssert .tick
  | connectAssert c => if cl.connected then .failing else .connectTry c
  | connectTry c => if ok then .connectSet c else c.place false
  | connectSet c => c.place true
  | startTest _ topics => if cl.isconnected then subscribePlace topics else .finished
  | subscribeAssert topic topics => if cl.connected then .subscribeAssert2 topic topics else .failing
  | subscribeAssert2 topic topics => if cl.isconnected then .subscribe topic topics else .failing
  | subscribe _ topics => subscribePlace topics
  | publishLog => .publishAssert
  | publishAssert => if cl.connected then .publishAssert2 else .failing
  | publishAssert2 => if cl.isconnected then .publish else .failing
  | publish => .finished
  | stopTest => if cl.connected then .stop else .finished
  | stop => .finished
  | failing => .finished

theorem prog_subscribePlace (topics : List Bytes) : (subscribePlace topics).prog = subscribeTopics topics := by
  cases topics <;> rfl

theorem Caller.prog_place (ok : Bool) (c : Caller) : (c.place ok).prog = c.rest := by
  cases c <;> rfl

variable {p : Place} {i : MqttOp} {cl : Client} {k : i.Ret → MqttProg}

/-- Places follow the program: the next place has what is left after the next operation. -/
theorem prog_next (ok : Bool) (cl : Client) (h : p.prog = .op i k) : (p.next ok cl).prog = k (cl.handle ok i).1 := by
  obtain ⟨connected, isconnected, pending, aborted⟩ := cl
  cases p with
  | finished => cases h
  | tickTest | startTest | subscribeAssert2 | publishAssert2 =>
    cases h
    cases isconnected
    · rfl
    · first | rfl | exact prog_subscribePlace _
  | connectAssert | subscribeAssert | publishAssert | stopTest =>
    cases h
    cases connected <;> rfl
  | connectTry c =>
    cases h
    cases ok
    · exact c.prog_place false
    · rfl
  | connectSet c =>
    cases h
    exact c.prog_place true
  | subscribe topic topics =>
    cases h
    exact prog_subscribePlace topics
  | publishLog | publish | stop | failing =>
    cases h
    rfl

/-! ## Calls next to the library -/

/-- A call of a device. -/
inductive MqttCall where
  | start (topics : List Bytes)
  | stop
  | tick

/-- Where a call begins. -/
def MqttCall.place : MqttCall → Place
  | start topics => .connectAssert (.start topics)
  | stop => .stopTest
  | tick => .tickTest

/-- The function that is called. -/
def MqttCall.prog : MqttCall → MqttProg
  | start topics => deviceStart topics
  | stop => deviceStop
  | tick => publishOnce

theorem MqttCall.prog_place (c : MqttCall) : c.place.prog = c.prog := by
  cases c <;> rfl

/-- The client and the running calls. -/
structure MqttState where
  client : Client
  calls : Nat → Place

/-- What happens next: the connection breaks or comes back, a callback is delivered, a call begins, or a call does its
next operation, where `ok` is the outcome of an attempt to connect. -/
inductive MqttLabel where
  | lose
  | reconnect
  | deliver (k : Nat)
  | call (j : Nat) (c : MqttCall)
  | op (j : Nat) (ok : Bool)

/-- The client after a step. -/
def MqttState.clientAfter (s : MqttState) : MqttLabel → Client
  | .lose => s.client.lose
  | .reconnect => s.client.reconnect
  | .deliver k => s.client.deliver k
  | .call _ _ => s.client
  | .op j ok =>
    match (s.calls j).prog with
    | .ret () => s.client
    | .op i _ => (Client.handle ok i s.client).2

/-- The step is possible. -/
def MqttState.enabled (s : MqttState) (l : MqttLabel) : Bool :=
  !s.client.aborted &&
    match l with
    | .lose => s.client.connected
    | .reconnect => !s.client.connected
    | .deliver k => k < s.client.pending.length
    | .call j _ => match (s.calls j).prog with
      | .ret () => true
      | .op _ _ => false
    | .op j _ => match (s.calls j).prog with
      | .ret () => false
      | .op _ _ => true

/-- The calls after a step. -/
def MqttState.callsAfter (s : MqttState) : MqttLabel → Nat → Place
  | .call j c => Function.update s.calls j c.place
  | .op j ok => Function.update s.calls j ((s.calls j).next ok s.client)
  | _ => s.calls

/-- One step, if it is possible. After a failed assertion there is none. -/
def mqttStep (s : MqttState) (l : MqttLabel) : Option MqttState :=
  if s.enabled l then some { client := s.clientAfter l, calls := s.callsAfter l } else none

/-- One step. -/
def MqttStep (s : MqttState) (l : MqttLabel) (s' : MqttState) : Prop := mqttStep s l = some s'

/-! ## What calls rely on -/

/-- What the call has found `is_connected()` to be, and still needs. -/
def Place.expectsConnected : Place → Option Bool
  | connectAssert .tick => some false
  | connectSet _ => some true
  | startTest true _ => some true
  | subscribeAssert _ _ | subscribeAssert2 _ _ | subscribe _ (_ :: _) => some true
  | publishLog | publishAssert => some true
  | _ => none

/-- What the call has found `m_isconnected` to be, and still needs. -/
def Place.expectsIsconnected : Place → Option Bool
  | startTest ok _ => some ok
  | subscribeAssert _ _ | subscribeAssert2 _ _ | subscribe _ (_ :: _) => some true
  | publishLog | publishAssert | publishAssert2 => some true
  | _ => none

/-- What an operation of a call needs. A tick tests `m_isconnected` when it is right, and its attempt to connect
succeeds; `start` is called when there is no connection, and its attempt succeeds or leaves a cleared `m_isconnected`.
-/
def Place.stepOk (cl : Client) (ok : Bool) : Place → Prop
  | tickTest => cl.isconnected = cl.connected
  | connectAssert (.start _) => cl.connected = false
  | connectTry .tick => ok = true
  | connectTry (.start _) => ok = true ∨ cl.isconnected = false
  | _ => True

/-- The call whose operation a step is. -/
def MqttLabel.actor : MqttLabel → Option Nat
  | op j _ => some j
  | _ => none

/-- The step changes no flag that another call has tested and still needs. -/
def Undisturbed (s : MqttState) (l : MqttLabel) : Prop :=
  ∀ j, l.actor ≠ some j → ∀ b,
    ((s.calls j).expectsConnected = some b → (s.clientAfter l).connected = b) ∧
    ((s.calls j).expectsIsconnected = some b → (s.clientAfter l).isconnected = b)

/-- What a step needs. -/
def MqttOk (s : MqttState) (l : MqttLabel) : Prop :=
  Undisturbed s l ∧ ∀ j ok, l = .op j ok → (s.calls j).stepOk s.client ok

/-- What a call at this place relies on is so. -/
structure Place.Holds (p : Place) (cl : Client) : Prop where
  notFailing : p ≠ .failing
  connected : ∀ b, p.expectsConnected = some b → cl.connected = b
  isconnected : ∀ b, p.expectsIsconnected = some b → cl.isconnected = b

theorem Place.holds_of_none (hf : p ≠ .failing)
    (hc : p.expectsConnected = none) (hi : p.expectsIsconnected = none) : p.Holds cl := by
  refine ⟨hf, fun b h => ?_, fun b h => ?_⟩
  · rw [hc] at h
    cases h
  · rw [hi] at h
    cases h

/-- Places of a call that has found itself connected. -/
theorem Place.holds_of_connected (hf : p ≠ .failing)
    (hc : p.expectsConnected ≠ some false) (hi : p.expectsIsconnected ≠ some false)
    (h₁ : cl.connected = true) (h₂ : cl.isconnected = true) : p.Holds cl := by
  refine ⟨hf, fun b h => ?_, fun b h => ?_⟩
  · cases b
    · exact absurd h hc
    · exact h₁
  · cases b
    · exact absurd h hi
    · exact h₂

theorem subscribePlace_holds (topics : List Bytes) (h : topics ≠ [] → cl.connected = true ∧ cl.isconnected = true) :
    (subscribePlace topics).Holds cl := by
  cases topics with
  | nil => exact Place.holds_of_none nofun rfl rfl
  | cons t ts =>
    obtain ⟨h₁, h₂⟩ := h nofun
    exact Place.holds_of_connected nofun nofun nofun h₁ h₂

/-- The next operation of a call leads to a place whose needs are met, and fails no assertion. -/
theorem Place.Holds.next {ok : Bool} (h : p.Holds cl) (hp : p.prog = .op i k) (hok : p.stepOk cl ok) :
    (p.next ok cl).Holds (Client.handle ok i cl).2 ∧ (Client.handle ok i cl).2.aborted = cl.aborted := by
  -- at each place, the operation that its program does next
  cases p with
  | finished => cases hp
  | failing => exact absurd rfl h.notFailing
  | tickTest =>
    cases hp
    refine ⟨?_, rfl⟩
    have heq : cl.isconnected = cl.connected := hok
    rw [Place.next]
    split
    · rename_i hf
      exact Place.holds_of_connected nofun nofun nofun (heq ▸ hf) hf
    · rename_i hf
      refine ⟨nofun, fun b hb => ?_, nofun⟩
      cases hb
      show cl.connected = false
      rw [← heq]
      simpa using hf
  | connectAssert c =>
    cases hp
    refine ⟨?_, rfl⟩
    have hc : cl.connected = false := by
      cases c with
      | start topics => exact hok
      | tick => exact h.connected false rfl
    rw [Place.next, hc]
    exact Place.holds_of_none nofun rfl rfl
  | connectTry c =>
    cases hp
    cases ok with
    | true => exact ⟨⟨nofun, fun b hb => by cases hb; rfl, nofun⟩, rfl⟩
    | false =>
      cases c with
      -- the condition excludes a `tick` that fails to connect
      | tick => cases hok
      | start topics =>
        obtain hok | hf := hok
        · cases hok
        · exact ⟨⟨nofun, nofun, fun b hb => by cases hb; exact hf⟩, rfl⟩
  | connectSet c =>
    cases hp
    refine ⟨?_, rfl⟩
    have hc : cl.connected = true := h.connected true rfl
    cases c with
    | start topics => exact Place.holds_of_connected nofun nofun nofun hc rfl
    | tick => exact Place.holds_of_connected nofun nofun nofun hc rfl
  | startTest ok' topics =>
    cases hp
    refine ⟨?_, rfl⟩
    rw [Place.next]
    split
    · rename_i hf
      have hok' : ok' = true := (h.isconnected ok' rfl).symm.trans hf
      subst hok'
      exact subscribePlace_holds topics fun _ => ⟨h.connected true rfl, hf⟩
    · exact Place.holds_of_none nofun rfl rfl
  | subscribeAssert topic topics =>
    cases hp
    have hc : cl.connected = true := h.connected true rfl
    refine ⟨?_, rfl⟩
    rw [Place.next, hc]
    exact Place.holds_of_connected nofun nofun nofun hc (h.isconnected true rfl)
  | subscribeAssert2 topic topics =>
    cases hp
    have hc : cl.connected = true := h.connected true rfl
    have hf : cl.isconnected = true := h.isconnected true rfl
    refine ⟨?_, rfl⟩
    rw [Place.next, hf]
    cases topics with
    | nil => exact Place.holds_of_none nofun rfl rfl
    | cons t ts => exact Place.holds_of_connected nofun nofun nofun hc hf
  | subscribe topic topics =>
    cases hp
    refine ⟨subscribePlace_holds topics fun hne => ?_, rfl⟩
    cases topics with
    | nil => exact absurd rfl hne
    | cons t ts => exact ⟨h.connected true rfl, h.isconnected true rfl⟩
  | publishLog =>
    cases hp
    exact ⟨Place.holds_of_connected nofun nofun nofun (h.connected true rfl) (h.isconnected true rfl), rfl⟩
  | publishAssert =>
    cases hp
    refine ⟨?_, rfl⟩
    rw [Place.next, h.connected true rfl]
    exact ⟨nofun, nofun, fun b hb => by cases hb; exact h.isconnected true rfl⟩
  | publishAssert2 =>
    cases hp
    refine ⟨?_, rfl⟩
    rw [Place.next, h.isconnected true rfl]
    exact Place.holds_of_none nofun rfl rfl
  | stopTest =>
    cases hp
    refine ⟨?_, rfl⟩
    rw [Place.next]
    split <;> exact Place.holds_of_none nofun rfl rfl
  | publish | stop =>
    cases hp
    exact ⟨Place.holds_of_none nofun rfl rfl, rfl⟩

/-! ## No assertion fails -/

/-- Every call has what it relies on, and no assertion has failed. -/
structure MqttInv (s : MqttState) : Prop where
  running : s.client.aborted = false
  holds : ∀ j, (s.calls j).Holds s.client

variable {s s' : MqttState} {l : MqttLabel}

theorem mqttStep_cases (h : MqttStep s l s') :
    s.enabled l = true ∧ s'.client = s.clientAfter l ∧ s'.calls = s.callsAfter l := by
  unfold MqttStep mqttStep at h
  split at h
  · rename_i he
    cases h
    exact ⟨he, rfl, rfl⟩
  · cases h

theorem Undisturbed.holds (h : Undisturbed s l) {j : Nat} (hj : l.actor ≠ some j)
    (hs : (s.calls j).Holds s.client) : (s.calls j).Holds (s.clientAfter l) :=
  ⟨hs.notFailing, fun b => (h j hj b).1, fun b => (h j hj b).2⟩

theorem MqttInv.step (hi : MqttInv s) (hok : MqttOk s l) (h : MqttStep s l s') : MqttInv s' := by
  obtain ⟨hen, hcl, hcalls⟩ := mqttStep_cases h
  obtain ⟨hun, hop⟩ := hok
  cases l with
  | lose | reconnect =>
    refine ⟨by rw [hcl]; exact hi.running, fun j => ?_⟩
    rw [hcl, hcalls]
    exact hun.holds nofun (hi.holds j)
  | deliver k =>
    have hrun : (s.client.deliver k).aborted = s.client.aborted := by
      unfold Client.deliver
      split <;> rfl
    refine ⟨by rw [hcl]; exact hrun.trans hi.running, fun j => ?_⟩
    rw [hcl, hcalls]
    exact hun.holds nofun (hi.holds j)
  | call j c =>
    refine ⟨by rw [hcl]; exact hi.running, fun j' => ?_⟩
    rw [hcl, hcalls]
    -- what the other calls rely on is not touched
    by_cases hj : j' = j
    · subst hj
      simp only [MqttState.callsAfter, Function.update_self]
      cases c <;> exact Place.holds_of_none nofun rfl rfl
    · simp only [MqttState.callsAfter, Function.update_of_ne hj]
      exact hun.holds nofun (hi.holds j')
  | op j ok =>
    cases hp : (s.calls j).prog with
    | ret u => simp [MqttState.enabled, hp] at hen
    | op i k =>
      obtain ⟨hnext, hab⟩ := (hi.holds j).next hp (hop j ok rfl)
      have hafter : s.clientAfter (.op j ok) = (Client.handle ok i s.client).2 := by
        simp [MqttState.clientAfter, hp]
      refine ⟨by rw [hcl, hafter, hab]; exact hi.running, fun j' => ?_⟩
      rw [hcl, hcalls]
      by_cases hj : j' = j
      · subst hj
        simp only [MqttState.callsAfter, Function.update_self, hafter]
        exact hnext
      · simp only [MqttState.callsAfter, Function.update_of_ne hj]
        exact hun.holds (fun e => hj (Option.some.inj e).symm) (hi.holds j')

/-- **Assertions.** In a run in which each step meets `MqttOk`, no assertion of `connect`,
`subscribe` or `publish` fails. -/
theorem mqtt_never_aborts (hs : s.client.aborted = false) (hcalls : ∀ j, s.calls j = .finished)
    {r : List (MqttLabel × MqttState)} (hr : Run MqttStep s r) (hok : Meets MqttOk s r) :
    Reached (fun s => s.client.aborted = false) r := by
  have hinit : MqttInv s :=
    ⟨hs, fun j => by rw [hcalls j]; exact Place.holds_of_none nofun rfl rfl⟩
  have hinv := hr.inv (fun _ _ _ hi hok h => hi.step hok h) hok hinit
  rw [reached_iff_forall] at hinv ⊢
  exact fun x hx => (hinv x hx).running

/-- A client with one running call. -/
def oneCall (cl : Client) (p : Place) : MqttState where
  client := cl
  calls := Function.update (fun _ => .finished) 0 p

theorem oneCall_step (ok : Bool) (hp : p.prog = .op i k) (hcl : cl.aborted = false) :
    MqttStep (oneCall cl p) (.op 0 ok) (oneCall (Client.handle ok i cl).2 (p.next ok cl)) := by
  simp [MqttStep, mqttStep, oneCall, MqttState.enabled, MqttState.clientAfter, MqttState.callsAfter, hp, hcl]

theorem oneCall_ok {ok : Bool} (h : p.stepOk cl ok) : MqttOk (oneCall cl p) (.op 0 ok) := by
  refine ⟨fun j hj b => ?_, fun j ok' he => ?_⟩
  · have hne : j ≠ 0 := fun e => hj (by rw [e]; rfl)
    simp [oneCall, Function.update_of_ne hne, Place.expectsConnected, Place.expectsIsconnected]
  · cases he
    exact h

/-- A client that has never been connected. -/
def newClient : MqttState where
  client := { connected := false, isconnected := false }
  calls _ := .finished

/-- A tick connects and publishes. -/
def tickRun : List (MqttLabel × MqttState) := [
  (.call 0 .tick, oneCall newClient.client .tickTest),
  (.op 0 true, oneCall newClient.client (.connectAssert .tick)),
  (.op 0 true, oneCall newClient.client (.connectTry .tick)),
  (.op 0 true, oneCall ⟨true, false, [.connected], false⟩ (.connectSet .tick)),
  (.op 0 true, oneCall ⟨true, true, [.connected], false⟩ .publishLog),
  (.op 0 true, oneCall ⟨true, true, [.connected], false⟩ .publishAssert),
  (.op 0 true, oneCall ⟨true, true, [.connected], false⟩ .publishAssert2),
  (.op 0 true, oneCall ⟨true, true, [.connected], false⟩ .publish),
  (.op 0 true, oneCall ⟨true, true, [.connected], false⟩ .finished)]

theorem tickRun_run : Run MqttStep newClient tickRun :=
  ⟨rfl, oneCall_step (i := .getIsconnected) true rfl rfl,
    oneCall_step (i := .isConnected) true rfl rfl, oneCall_step (i := .connect) true rfl rfl,
    oneCall_step (i := .setIsconnected) true rfl rfl, oneCall_step (i := .isConnected) true rfl rfl,
    oneCall_step (i := .isConnected) true rfl rfl, oneCall_step (i := .getIsconnected) true rfl rfl,
    oneCall_step (i := .publish) true rfl rfl, trivial⟩

theorem mqtt_never_aborts_tick : Reached (fun s => s.client.aborted = false) tickRun :=
  mqtt_never_aborts rfl (fun _ => rfl) tickRun_run
    ⟨⟨fun _ _ _ => ⟨fun h => (nomatch h), fun h => (nomatch h)⟩, fun _ _ h => (nomatch h)⟩,
      oneCall_ok (p := .tickTest) rfl, oneCall_ok (p := .connectAssert .tick) trivial,
      oneCall_ok (p := .connectTry .tick) rfl, oneCall_ok (p := .connectSet .tick) trivial,
      oneCall_ok (p := .publishLog) trivial, oneCall_ok (p := .publishAssert) trivial,
      oneCall_ok (p := .publishAssert2) trivial, oneCall_ok (p := .publish) trivial, trivial⟩

/-- A tick whose attempt to connect fails. -/
def failingTick : Option (List (MqttLabel × MqttState)) :=
  trace? mqttStep newClient ([.call 0 .tick] ++ List.replicate 6 (.op 0 false))

theorem failingTick_isSome : failingTick.isSome = true := by decide +kernel

/-- `publish_once` publishes whether or not its attempt to connect succeeded. -/
theorem mqtt_aborts_failing_tick : ¬ ∀ (s : MqttState) (r : List (MqttLabel × MqttState)), s.client.aborted = false →
      (∀ j, s.calls j = .finished) → Run MqttStep s r → Reached (fun s => s.client.aborted = false) r := by
  intro h
  have h := h newClient (failingTick.get failingTick_isSome) rfl (fun _ => rfl)
    (run_trace? (Option.some_get failingTick_isSome).symm)
  rw [reached_iff_forall] at h
  have habort : ∃ x ∈ failingTick.get failingTick_isSome, x.2.client.aborted = true := by decide +kernel
  obtain ⟨x, hx, hab⟩ := habort
  exact absurd (h x hx) (by simp [hab])

end Sherry
