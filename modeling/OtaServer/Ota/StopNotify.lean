import OtaServer.Ota.Agreement
import OtaServer.Ota.HttpManager

/-!
# Stopping a notification over HTTP

`OTAHttpManager::ota_stop_notify` is meant to pass a stop on to the devices if the version it names is the one that is
recorded. The devices record the version of a module under the key of the task `notify`; the handler asks for the key
of the task `stop_notify`, and with `RedisUtil::Cmd("GET %s", key)`, where the key stands in the place of the format.

* `recordOf`: the record that calls on a device leave (`server_afterCalls`).
* `ops_otaStopNotify`: the handler sends no command, whatever the record.
* `otaStopNotify_pushes_iff`: so it does the right thing exactly where there is nothing to stop.
-/

namespace Sherry

open Lib Http World

section

variable [Redis]

/-! ## The record -/

/-- The world after calls on a device. -/
def afterCalls (m : RedisManager) (d : UInt16) (pool : Bytes) (w : World) (calls : List DeviceCall) : World :=
  calls.foldl (afterCall m d pool) w

/-- The record of a module after one more call. -/
def recordStep (name : Bytes) (r : Option Bytes) : DeviceCall → Option Bytes
  | .notify name' version _ _ _ => if cstr name' = name then some (cstr version) else r
  | .stopNotify name' _ => if cstr name' = name then none else r

/-- The version of a module that calls leave recorded: that of the last `ota_notify` with no `ota_stop_notify` behind.
-/
def recordOf (name : Bytes) (calls : List DeviceCall) : Option Bytes := calls.foldl (recordStep name) none

variable {m : RedisManager} {d : UInt16} {pool : Bytes} {w : World}

theorem server_afterCall (hm : m.Succeeds pool) {rs : Bytes → Option Bytes}
    (hw : ∀ name, w.server (notifyKey d name) = (rs name).map .string) (c : DeviceCall) (name : Bytes) :
    (afterCall m d pool w c).server (notifyKey d name) = (recordStep name (rs name) c).map .string := by
  cases c with
  | notify name' version time nonempty clock =>
    have hrec : IsRecord (w.server (notifyKey d (cstr name'))) := by
      rw [hw]
      cases rs (cstr name') with
      | none => exact .inl rfl
      | some b => exact .inr ⟨b, rfl⟩
    obtain ⟨a, i, ms, hserver, -⟩ := start_effect
      (w.stopIf (recordHasText (w.server (notifyKey d (cstr name'))))) (notifyTopic d name')
      (Function.update w.server (notifyKey d (cstr name')) (some (.string (cstr version))))
      (getNotifyMessage name' version time)
    rw [afterCall, DeviceCall.prog, notify_result hm name' version time hrec, hserver, recordStep]
    by_cases hn : cstr name' = name
    · rw [if_pos hn, hn, Function.update_self]
      rfl
    · rw [if_neg hn, Function.update_of_ne fun e => hn (notifyKey_inj.mp e).symm, hw]
  | stopNotify name' version =>
    rw [afterCall, DeviceCall.prog, stopNotify_result hm, withServer_server, recordStep]
    by_cases hn : cstr name' = name
    · rw [if_pos hn, hn, Function.update_self]
      rfl
    · rw [if_neg hn, Function.update_of_ne fun e => hn (notifyKey_inj.mp e).symm, hw]

/-- Where every command succeeds, calls leave the record of the last of them. -/
theorem server_afterCalls (hm : m.Succeeds pool) (hi : Initial d w) (calls : List DeviceCall) (name : Bytes) :
    (afterCalls m d pool w calls).server (notifyKey d name) = (recordOf name calls).map .string := by
  have hgen : ∀ (calls : List DeviceCall) (w : World) (rs : Bytes → Option Bytes),
      (∀ name, w.server (notifyKey d name) = (rs name).map .string) →
      ∀ name, (afterCalls m d pool w calls).server (notifyKey d name) =
        (calls.foldl (recordStep name) (rs name)).map .string := by
    intro calls
    induction calls with
    | nil => exact fun w rs hw => hw
    | cons c calls ih =>
      intro w rs hw
      exact ih (afterCall m d pool w c) (fun name => recordStep name (rs name) c)
        fun name => server_afterCall hm hw c name
  exact hgen calls w (fun _ => none) (fun name => hi.records name) name

/-! ## The handler -/

variable (h : OTAHttpManager) (n : Nlohmann)

/-- A program pushes a value to the command queue. -/
def Pushes {α : Type} (m : RedisManager) (p : RedisProg α) (s : Server) : Prop :=
  ∃ o ∈ p.ops m.handle s, ∃ value, o.command = some (.lpush getMessageQueueHash value)

/-- The handler asks a pool of the name `GET %s` for no command, and gives up on the reply. -/
theorem ops_otaStopNotify (m : RedisManager) (d : UInt16) (name version command : Bytes)
    (rsp : HttpResponse) (s : Server) :
    (h.otaStopNotify n d name version command rsp).ops m.handle s = [⟨str "GET %s", none⟩] := by
  obtain ⟨k, hk⟩ := getDeviceGroupMuduleHash_small_o (str "stop_notify") d name
  have hcmd : Cmd (str "GET %s") (getDeviceGroupMuduleHash (str "stop_notify") d name) [] =
      Prog.perform ⟨str "GET %s", none⟩ := by
    rw [Cmd, hk, Redis.commandOf_small_o]
  have hfailed : replyFailed (m.handle ⟨str "GET %s", none⟩ s).1 = true := by
    simp only [RedisManager.handle]
    split <;> rfl
  simp only [OTAHttpManager.otaStopNotify, hcmd, Prog.perform_bind, Prog.ops, hfailed, if_true]
  rfl

theorem not_pushes_otaStopNotify (m : RedisManager) (d : UInt16) (name version command : Bytes)
    (rsp : HttpResponse) (s : Server) : ¬ Pushes m (h.otaStopNotify n d name version command rsp) s := by
  rintro ⟨o, ho, value, hvalue⟩
  rw [ops_otaStopNotify, List.mem_singleton] at ho
  rw [ho] at hvalue
  cases hvalue

/-- **Stopping.** After any calls on a device: the handler pushes its command exactly for the version that
is recorded, if and only if another version, or none, is recorded. -/
theorem otaStopNotify_pushes_iff (m : RedisManager) (d : UInt16) (pool : Bytes) (w : World)
    (calls : List DeviceCall) (name version command : Bytes) (rsp : HttpResponse) :
    (Pushes m (h.otaStopNotify n d name version command rsp) (afterCalls m d pool w calls).server ↔
        (afterCalls m d pool w calls).server (notifyKey d (cstr name)) = some (.string version)) ↔
      (afterCalls m d pool w calls).server (notifyKey d (cstr name)) ≠ some (.string version) := by
  have hno := not_pushes_otaStopNotify h n m d name version command rsp (afterCalls m d pool w calls).server
  exact ⟨fun hiff hrec => hno (hiff.mpr hrec), fun hne => ⟨fun hp => absurd hp hno, fun hrec => absurd hrec hne⟩⟩

end

/-- Version `1` of the module `cam` is recorded, and stopping it is not passed on. -/
theorem otaStopNotify_recorded :
    let calls := [DeviceCall.notify (str "cam") (str "1") (str "12:00") (by decide) (by decide)]
    let s := (afterCalls .reliable 7 (str "pool") { server := fun _ => none } calls).server
    s (notifyKey 7 (str "cam")) = some (.string (str "1")) ∧
      ∀ n, ¬ Pushes .reliable (OTAHttpManager.otaStopNotify ⟨str "pool"⟩ n 7 (str "cam") (str "1")
        (str "stop") {}) s := by
  refine ⟨?_, fun n => not_pushes_otaStopNotify _ n _ _ _ _ _ _ _⟩
  rw [server_afterCalls (RedisManager.reliable_succeeds _) (initial_empty 7)]
  decide

end Sherry
