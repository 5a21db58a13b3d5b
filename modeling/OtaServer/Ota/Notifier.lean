import OtaServer.Json
import OtaServer.Db.Redis
import OtaServer.Ota.Hash

/-!
# Notifiers and their timers (`sherry/ota_notifier.cc`)

`OTANotifier` publishes one message again and again: `start` adds a recurring timer whose callback captures the
notifier by its address, `stop` cancels the timer that the notifier remembers.

`World` is what the operations of a device act on: the Redis server, the device's `m_notifier` with the object it
owns, and the live timers of the device. `DeviceOp` lists the atomic operations: a Redis command, or one operation on
`m_notifier`. The test of `m_notifier` and what follows it are two operations, since other handlers of the same device
run next to this one.

A timer publishes what its notifier holds when it fires (`World.published`): the topic the notifier was built with and
the message that was set last. A timer can outlive its notifier; then what it does is not determined by the program. A
message whose text is not UTF-8 makes `json::dump` throw, and nothing is published.
-/

namespace Sherry

open Lib

/-- `OTAMessage`. -/
structure OTAMessage where
  name : Bytes := []
  version : Bytes := []
  time : Bytes := []
  fileName : Bytes := []
  fileSize : Nat := 0
  urlPath : Bytes := []
  md5Value : Bytes := []
  launchMode : Int := 0
  upgradeMode : Int := 1
  deriving DecidableEq

/-- `OTAMessage::to_json`, before it is written out. -/
def OTAMessage.toJson (m : OTAMessage) : Json :=
  .object [
    (str "name", .string m.name),
    (str "version", .string m.version),
    (str "file_name", .string m.fileName),
    (str "file_size", .numberUnsigned m.fileSize),
    (str "url_path", .string m.urlPath),
    (str "md5_value", .string m.md5Value),
    (str "launch_mode", .numberInteger m.launchMode),
    (str "upgrade_mode", .numberInteger m.upgradeMode),
    (str "time", .string m.time)]

/-- `json::dump` writes the message out: all its texts are UTF-8. -/
def OTAMessage.dumps (m : OTAMessage) : Bool :=
  [m.name, m.version, m.time, m.fileName, m.urlPath, m.md5Value].all utf8Valid

/-- `OTANotifier::get_notify_message`; `time` is what `getCurrentTimeString` gives. It never fails. -/
def getNotifyMessage (name version time : Bytes) : OTAMessage where
  name := name
  version := version
  time := time
  fileName := str "agsspds_20241110.zip"
  fileSize := 6773120
  urlPath := str "http://127.0.0.1:18882/download/ota/agsspds"
  md5Value := str "ed076287532e86365e841e92bfc50d8c"
  launchMode := 0
  upgradeMode := 1

/-- A notifier object. -/
structure OTANotifier where
  topic : Bytes
  msg : OTAMessage := {}
  /-- The timer that `stop` would cancel. -/
  timer : Option Nat := none
  intervalMs : Nat
  deriving DecidableEq

/-- A live timer; its callback runs `publish_once` of the notifier at this address. -/
structure Timer where
  id : Nat
  ms : Nat
  recurring : Bool
  notifier : Nat
  deriving DecidableEq

/-- What the operations of a device act on. -/
structure World where
  server : Server
  /-- `m_notifier`: the address of the object, and the object. -/
  notifier : Option (Nat × OTANotifier) := none
  /-- The live timers. -/
  timers : List Timer := []
  /-- The next unused address. -/
  fresh : Nat := 0

namespace World

/-- The world with another server state. -/
def withServer (w : World) (s : Server) : World := { w with server := s }

/-- The topic of `m_notifier`. -/
def topic (w : World) : Option Bytes := w.notifier.map (·.2.topic)

/-- What a timer publishes when it fires: topic and payload (`OTANotifier::publish_once`). -/
def published (w : World) (t : Timer) : Option (Bytes × Json) :=
  match w.notifier with
  | some (a, n) => if t.notifier = a ∧ n.msg.dumps then some (n.topic, n.msg.toJson) else none
  | none => none

/-- `m_notifier.reset()`: the object goes away, its timer stays. -/
def reset (w : World) : World := { w with notifier := none }

/-- `m_notifier = std::make_shared<OTANotifier>(...)`. An object that `m_notifier` held before goes away. -/
def newNotifier (w : World) (topic : Bytes) (intervalMs : Nat) : World :=
  { w with notifier := some (w.fresh, { topic, intervalMs }), fresh := w.fresh + 1 }

/-- `m_notifier->set_message(msg)`. This and the next two change nothing if there is no object: the program checks for
one before, and a handler that loses it in between is beyond what is modelled. -/
def setMessage (w : World) (msg : OTAMessage) : World :=
  { w with notifier := w.notifier.map fun (a, n) => (a, { n with msg }) }

/-- `m_notifier->start()`. The timer that the notifier remembered is forgotten, not cancelled. -/
def start (w : World) : World :=
  match w.notifier with
  | none => w
  | some (a, n) =>
    { w with
      notifier := some (a, { n with timer := some w.fresh })
      timers := w.timers ++ [{ id := w.fresh, ms := n.intervalMs, recurring := true, notifier := a }]
      fresh := w.fresh + 1 }

/-- `m_notifier->stop()`. -/
def stop (w : World) : World :=
  match w.notifier with
  | none => w
  | some (a, n) =>
    { w with
      notifier := some (a, { n with timer := none })
      timers := w.timers.filter fun t => some t.id ≠ n.timer }

@[simp] theorem withServer_server (w : World) (s : Server) : (w.withServer s).server = s := rfl

@[simp] theorem withServer_notifier (w : World) (s : Server) : (w.withServer s).notifier = w.notifier := rfl

@[simp] theorem withServer_timers (w : World) (s : Server) : (w.withServer s).timers = w.timers := rfl

@[simp] theorem withServer_self (w : World) : w.withServer w.server = w := rfl

@[simp] theorem stop_server (w : World) : w.stop.server = w.server := by
  unfold stop
  split <;> rfl

@[simp] theorem stop_topic (w : World) : w.stop.topic = w.topic := by
  unfold stop World.topic
  cases hn : w.notifier with
  | none => simp only [hn]
  | some x => rfl

@[simp] theorem stop_notifier_isSome (w : World) : w.stop.notifier.isSome = w.notifier.isSome := by
  unfold stop
  split
  · rfl
  · rename_i h
    rw [h]
    rfl

theorem stop_of_none {w : World} (h : w.notifier = none) : w.stop = w := by
  simp [stop, h]

end World

/-- The atomic operations of a device. -/
inductive DeviceOp where
  | redis (r : RedisOp)
  | hasNotifier
  | newNotifier (topic : Bytes) (intervalMs : Nat)
  | reset
  | setMessage (m : OTAMessage)
  | start
  | stop

/-- The answers. -/
def DeviceOp.Ret : DeviceOp → Type
  | redis _ => Option Reply
  | hasNotifier => Bool
  | _ => Unit

/-- A program of a device. -/
abbrev DeviceProg := Prog DeviceOp DeviceOp.Ret

/-- A program that only sends commands, as a program of a device. -/
def liftRedis {α : Type} (p : RedisProg α) : DeviceProg α :=
  p.rename (τ := DeviceOp.Ret) DeviceOp.redis fun _ r => r

namespace DeviceProg

/-- Whether `m_notifier` is set. -/
def hasNotifier : DeviceProg Bool := .op .hasNotifier .ret
/-- A new notifier in `m_notifier`. -/
def newNotifier (topic : Bytes) (intervalMs : Nat) : DeviceProg Unit :=
  .op (.newNotifier topic intervalMs) .ret
/-- `m_notifier.reset()`. -/
def reset : DeviceProg Unit := .op .reset .ret
/-- `m_notifier->set_message`. -/
def setMessage (m : OTAMessage) : DeviceProg Unit := .op (.setMessage m) .ret
/-- `m_notifier->start`. -/
def start : DeviceProg Unit := .op .start .ret
/-- `m_notifier->stop`. -/
def stop : DeviceProg Unit := .op .stop .ret

end DeviceProg

variable [Redis]

/-- What the operations answer and do. -/
def World.handle (m : RedisManager) : Handler DeviceOp DeviceOp.Ret World
  | .redis r, w => ((m.handle r w.server).1, w.withServer (m.handle r w.server).2)
  | .hasNotifier, w => (w.notifier.isSome, w)
  | .newNotifier topic ms, w => ((), w.newNotifier topic ms)
  | .reset, w => ((), w.reset)
  | .setMessage msg, w => ((), w.setMessage msg)
  | .start, w => ((), w.start)
  | .stop, w => ((), w.stop)

/-! ## Running a program operation by operation -/

section Run

variable {α : Type} (m : RedisManager) (w : World)

@[simp] theorem run_perform_bind (r : RedisOp) (k : Option Reply → DeviceProg α) :
    (liftRedis (Prog.perform r) >>= k).run (World.handle m) w =
      (k (m.handle r w.server).1).run (World.handle m) (w.withServer (m.handle r w.server).2) := rfl

@[simp] theorem run_hasNotifier_bind (k : Bool → DeviceProg α) :
    (DeviceProg.hasNotifier >>= k).run (World.handle m) w = (k w.notifier.isSome).run (World.handle m) w := rfl

@[simp] theorem run_newNotifier_bind (topic : Bytes) (ms : Nat) (k : Unit → DeviceProg α) :
    (DeviceProg.newNotifier topic ms >>= k).run (World.handle m) w =
      (k ()).run (World.handle m) (w.newNotifier topic ms) := rfl

@[simp] theorem run_reset_bind (k : Unit → DeviceProg α) :
    (DeviceProg.reset >>= k).run (World.handle m) w = (k ()).run (World.handle m) w.reset := rfl

@[simp] theorem run_setMessage_bind (msg : OTAMessage) (k : Unit → DeviceProg α) :
    (DeviceProg.setMessage msg >>= k).run (World.handle m) w = (k ()).run (World.handle m) (w.setMessage msg) := rfl

@[simp] theorem run_start_bind (k : Unit → DeviceProg α) :
    (DeviceProg.start >>= k).run (World.handle m) w = (k ()).run (World.handle m) w.start := rfl

@[simp] theorem run_stop_bind (k : Unit → DeviceProg α) :
    (DeviceProg.stop >>= k).run (World.handle m) w = (k ()).run (World.handle m) w.stop := rfl

end Run

end Sherry
