import OtaServer.Ota.Notifier

/-!
# Devices (`sherry/ota/ota_device.cc`)

`OTADevice::ota_notify` and `OTADevice::ota_stop_notify` as programs over `DeviceOp`, in the order of the source, and
what they do when they run alone.

`ota_notify` means to delete the old record with `RedisUtil::Cmd("DEL %s", key)`. The first argument of `Cmd` is the
name of a pool, so this asks for the pool `DEL %s` and passes the key as the format. The server has no command that
starts like a key (`Redis.commandOf_small_o`), so whatever pools there are, the call changes nothing
(`run_otaNotify`).
-/

namespace Sherry

open Lib

/-- `/ota/<type>/<name>/notify`. -/
def notifyTopic (deviceType : UInt16) (name : Bytes) : Bytes :=
  str "/ota/" ++ dec deviceType.toNat ++ str "/" ++ name ++ str "/notify"

/-- The key of the version record of a module. -/
def notifyKey (deviceType : UInt16) (name : Bytes) : Bytes :=
  getDeviceGroupMuduleHash (str "notify") deviceType name

theorem cstr_notifyKey (d : UInt16) (name : Bytes) : cstr (notifyKey d name) = notifyKey d (cstr name) :=
  cstr_getDeviceGroupMuduleHash (by decide) d name

theorem notifyKey_inj {d : UInt16} {a b : Bytes} : notifyKey d a = notifyKey d b ↔ a = b :=
  getDeviceGroupMuduleHash_inj

theorem notifyTopic_inj {d : UInt16} {a b : Bytes} : notifyTopic d a = notifyTopic d b ↔ a = b := by
  simp [notifyTopic]

/-- `reply->type == REDIS_REPLY_STRING && reply->str && reply->str[0] != '\0'`. -/
def replyHasText : Option Reply → Bool
  | some (.str (b :: _)) => b != 0
  | _ => false

namespace World

/-- `if(m_notifier) m_notifier->stop()` under a condition. -/
def stopIf (w : World) (b : Bool) : World := if b then w.stop else w

/-- `if(!m_notifier) m_notifier = std::make_shared<OTANotifier>(...)`. -/
def ensureNotifier (w : World) (topic : Bytes) : World :=
  if w.notifier.isSome then w else w.newNotifier topic 10000

@[simp] theorem stopIf_server (w : World) (b : Bool) : (w.stopIf b).server = w.server := by
  cases b with
  | false => rfl
  | true => exact stop_server w

@[simp] theorem stopIf_topic (w : World) (b : Bool) : (w.stopIf b).topic = w.topic := by
  cases b with
  | false => rfl
  | true => exact stop_topic w

@[simp] theorem ensureNotifier_server (w : World) (topic : Bytes) : (w.ensureNotifier topic).server = w.server := by
  unfold ensureNotifier
  split <;> rfl

end World

/-- No record, no notifier, no timer. -/
structure Initial (d : UInt16) (w : World) : Prop where
  records : ∀ name, w.server (notifyKey d name) = none
  notifier : w.notifier = none
  timers : w.timers = []

theorem initial_empty (d : UInt16) : Initial d { server := fun _ => none } :=
  ⟨fun _ => rfl, rfl, rfl⟩

section

variable [Redis]

/-- `OTADevice::ota_notify`; `time` is the clock reading of its message. -/
def otaNotify (deviceType : UInt16) (name version time redisPoolName : Bytes) : DeviceProg Int := do
  let msg := getNotifyMessage name version time
  let topic := notifyTopic deviceType name
  let key := notifyKey deviceType name
  let reply ← liftRedis (Cmd redisPoolName (str "GET %s") [.s key])
  if replyFailed reply then
    return 0
  if replyHasText reply then
    if ← DeviceProg.hasNotifier then
      DeviceProg.stop
    -- the reply is only logged
    let _ ← liftRedis (Cmd (str "DEL %s") key [])
  if !(← DeviceProg.hasNotifier) then
    DeviceProg.newNotifier topic 10000
  let reply3 ← liftRedis (Cmd redisPoolName (str "SET %s %s") [.s key, .s version])
  if replyFailed reply3 then
    DeviceProg.reset
    return 0
  DeviceProg.setMessage msg
  DeviceProg.start
  return 1

/-- `OTADevice::ota_stop_notify`. -/
def otaStopNotify (deviceType : UInt16) (name redisPoolName : Bytes) : DeviceProg Int := do
  if ← DeviceProg.hasNotifier then
    DeviceProg.stop
  let key := notifyKey deviceType name
  let reply ← liftRedis (Cmd redisPoolName (str "DEL %s") [.s key])
  if replyFailed reply then
    return 0
  return 1

theorem commandOf_notifyKey (d : UInt16) (name : Bytes) (args : List Arg) :
    Redis.commandOf (notifyKey d name) args = none := by
  obtain ⟨k, hk⟩ := getDeviceGroupMuduleHash_small_o (str "notify") d name
  unfold notifyKey
  rw [hk, Redis.commandOf_small_o]

/-! ## What the programs do alone -/

theorem Cmd_get_notifyKey (pool : Bytes) (d : UInt16) (name : Bytes) :
    Cmd pool (str "GET %s") [.s (notifyKey d name)] = Prog.perform ⟨pool, some (.get (notifyKey d (cstr name)))⟩ := by
  rw [Cmd, Redis.commandOf_get, cstr_notifyKey]

theorem Cmd_set_notifyKey (pool : Bytes) (d : UInt16) (name version : Bytes) :
    Cmd pool (str "SET %s %s") [.s (notifyKey d name), .s version] =
      Prog.perform ⟨pool, some (.set (notifyKey d (cstr name)) (cstr version))⟩ := by
  rw [Cmd, Redis.commandOf_set, cstr_notifyKey]

theorem Cmd_del_notifyKey (pool : Bytes) (d : UInt16) (name : Bytes) :
    Cmd pool (str "DEL %s") [.s (notifyKey d name)] = Prog.perform ⟨pool, some (.del (notifyKey d (cstr name)))⟩ := by
  rw [Cmd, Redis.commandOf_del, cstr_notifyKey]

theorem Cmd_format_notifyKey (pool : Bytes) (d : UInt16) (name : Bytes) (args : List Arg) :
    Cmd pool (notifyKey d name) args = Prog.perform ⟨pool, none⟩ := by
  rw [Cmd, commandOf_notifyKey]

open World Prog

variable {m : RedisManager} {d : UInt16} {name version time pool : Bytes} {w : World}

/-- `ota_notify`, run alone: the test of the record, the stop, the notifier, the record, and the new message with its
timer. -/
theorem run_otaNotify :
    (otaNotify d name version time pool).run (World.handle m) w =
      let get := m.handle ⟨pool, some (.get (notifyKey d (cstr name)))⟩ w.server
      if replyFailed get.1 then (0, w.withServer get.2)
      else
        let w₂ := ((w.withServer get.2).stopIf (replyHasText get.1)).ensureNotifier
          (notifyTopic d name)
        let set := m.handle ⟨pool, some (.set (notifyKey d (cstr name)) (cstr version))⟩ w₂.server
        if replyFailed set.1 then (0, (w₂.withServer set.2).reset)
        else (1, ((w₂.withServer set.2).setMessage (getNotifyMessage name version time)).start) := by
  unfold otaNotify
  simp only [Cmd_get_notifyKey, Cmd_set_notifyKey, Cmd_format_notifyKey, run_perform_bind]
  generalize m.handle ⟨pool, some (.get (notifyKey d (cstr name)))⟩ w.server = get
  by_cases hg : replyFailed get.1 = true
  · simp only [hg, if_true, pure_eq, run_ret]
  · -- the two tests of `m_notifier` answer alike, since nothing else runs
    simp only [hg, Bool.false_eq_true, if_false, run_ite, run_perform_bind, run_hasNotifier_bind,
      run_stop_bind, run_newNotifier_bind, run_reset_bind, run_setMessage_bind, run_start_bind,
      pure_eq, run_ret]
    cases ht : replyHasText get.1 <;> cases hn : w.notifier <;>
      simp only [stopIf, ensureNotifier, stop_of_none, hn, RedisManager.handle_none,
        withServer_notifier, withServer_server, withServer_self, stop_notifier_isSome, Option.isSome_none,
        Option.isSome_some, Bool.not_false, Bool.not_true, Bool.false_eq_true, if_true, if_false] <;>
      rfl

theorem run_otaStopNotify :
    (otaStopNotify d name pool).run (World.handle m) w =
      let del := m.handle ⟨pool, some (.del (notifyKey d (cstr name)))⟩ w.stop.server
      (if replyFailed del.1 then 0 else 1, w.stop.withServer del.2) := by
  unfold otaStopNotify
  simp only [Cmd_del_notifyKey, run_hasNotifier_bind, run_ite, run_stop_bind, run_perform_bind, pure_eq, run_ret]
  cases hn : w.notifier with
  | none =>
    simp only [Option.isSome_none, Bool.false_eq_true, if_false, stop_of_none hn]
    split <;> rfl
  | some x =>
    simp only [Option.isSome_some, if_true]
    split <;> rfl

/-! ## Calls -/

/-- A call on a device, with the clock reading of a message. Versions are not empty. -/
inductive DeviceCall where
  | notify (name version time : Bytes) (nonempty : version ≠ []) (clock : utf8Valid time = true)
  | stopNotify (name version : Bytes)

/-- The program of a call. -/
def DeviceCall.prog (d : UInt16) (pool : Bytes) : DeviceCall → DeviceProg Int
  | notify name version time _ _ => otaNotify d name version time pool
  | stopNotify name _ => otaStopNotify d name pool

/-- The world after a call. -/
def afterCall (m : RedisManager) (d : UInt16) (pool : Bytes) (w : World) (c : DeviceCall) : World :=
  ((c.prog d pool).run (World.handle m) w).2

/-- The worlds that calls lead to, whatever becomes of their Redis commands. -/
inductive Reachable (d : UInt16) (pool : Bytes) : World → Prop
  | init {w : World} : Initial d w → Reachable d pool w
  | call {w : World} (m : RedisManager) (c : DeviceCall) :
      Reachable d pool w → Reachable d pool (afterCall m d pool w c)

/-! ## Failed calls of `ota_notify` -/

/-- The record of the module, `m_notifier` with its message, and the live timers are the same. -/
structure Unchanged (d : UInt16) (name : Bytes) (w w' : World) : Prop where
  record : w'.server (notifyKey d (cstr name)) = w.server (notifyKey d (cstr name))
  notifier : w'.notifier = w.notifier
  timers : w'.timers = w.timers

/-- **Failed calls.** A call of `ota_notify` that returns 0 leaves record, notifier, message and
timers as they were exactly if `GET` failed, or `SET` did not, or there was no notifier and the
server did not execute `SET` or had this version before. -/
theorem otaNotify_failed_unchanged_iff (m : RedisManager) (d : UInt16) (name version time pool : Bytes) (w : World) :
    (((otaNotify d name version time pool).run (World.handle m) w).1 = 0 →
        Unchanged d name w ((otaNotify d name version time pool).run (World.handle m) w).2) ↔
      (replyFailed (m.handle ⟨pool, some (.get (notifyKey d (cstr name)))⟩ w.server).1 = true ∨ replyFailed (m.handle
          ⟨pool, some (.set (notifyKey d (cstr name)) (cstr version))⟩ w.server).1 = false ∨ w.notifier = none ∧
          (m.executes pool (.set (notifyKey d (cstr name)) (cstr version)) = false ∨
            w.server (notifyKey d (cstr name)) = some (.string (cstr version)))) := by
  rw [run_otaNotify]
  simp only [RedisManager.handle_reads (c := .get _) rfl, withServer_self, ensureNotifier_server, stopIf_server]
  by_cases hg : replyFailed (m.handle ⟨pool, some (.get (notifyKey d (cstr name)))⟩ w.server).1 = true
  · -- nothing has happened yet
    simp only [hg, if_true, true_or, iff_true]
    exact fun _ => ⟨rfl, rfl, rfl⟩
  · simp only [hg, Bool.false_eq_true, if_false, false_or]
    have hset := m.handle_self pool (.set (notifyKey d (cstr name)) (cstr version)) w.server
    generalize m.handle ⟨pool, some (.set (notifyKey d (cstr name)) (cstr version))⟩ w.server = set
      at hset ⊢
    have hrecord : set.2 (notifyKey d (cstr name)) = w.server (notifyKey d (cstr name)) ↔
        m.executes pool (.set (notifyKey d (cstr name)) (cstr version)) = false ∨
          w.server (notifyKey d (cstr name)) = some (.string (cstr version)) := by
      refine (congrArg (· = _) hset).to_iff.trans ?_
      simp only [Command.key, Redis.apply_set]
      cases m.executes pool (.set (notifyKey d (cstr name)) (cstr version)) <;> simp [eq_comm]
    by_cases hs : replyFailed set.1 = true
    · -- `m_notifier.reset()` is all that the call undoes
      simp only [hs, if_true, Bool.true_eq_false, false_or, forall_const, ← hrecord]
      constructor
      · intro h
        exact ⟨h.notifier.symm, h.record⟩
      · intro ⟨hn, hrec⟩
        refine ⟨hrec, hn.symm, ?_⟩
        simp [stopIf, ensureNotifier, stop_of_none hn, hn, reset, newNotifier]
    · simp [hs]

end

/-- The running notification of a version is lost when the `SET` of the next one fails. -/
theorem otaNotify_failed_set_loses_notifier :
    ¬ ∀ (m : RedisManager) (d : UInt16) (name version time pool : Bytes) (w : World), Reachable d pool w →
      ((otaNotify d name version time pool).run (World.handle m) w).1 = 0 →
      Unchanged d name w ((otaNotify d name version time pool).run (World.handle m) w).2 := by
  intro h
  have h := h ⟨fun _ => true, fun _ c => if c.reads then .ok else .null⟩ 1 (str "a") (str "2")
    (str "09:01") (str "pool") _
    (.call .reliable (.notify (str "a") (str "1") (str "09:00") (by decide) (by decide))
      (.init (initial_empty 1))) (by decide)
  exact absurd h.timers (by decide)

end Sherry
