import OtaServer.Lib.Run
import OtaServer.Ota.Device

/-!
# Version records and timers

The version record of a module in Redis and the timers of its device are written by different statements. `Agrees`
says that they tell the same: the record of a module holds a version exactly if one live timer publishes this version
of the module on its topic.

With every Redis command answered, the calls of a device keep this exactly as long as each call meets `CallOk`
(`agrees_iff_callOk`). A device has one notifier, and the notifier keeps the topic it was built with, so the calls
have to stay with one module; and a name or a version with a zero byte reaches Redis only up to that byte, while one
that is not UTF-8 is never published.

As long as the condition is met the device is in one of two phases (`Phase`): nothing is notified, or one version of
one module is, by one timer.
-/

namespace Sherry

open Lib World

/-- The timer publishes, again and again, on the topic of the module, a payload with this name and this version. -/
def World.publishesVersion (w : World) (d : UInt16) (name version : Bytes) (t : Timer) : Bool :=
  match w.published t with
  | some (topic, j) =>
    t.recurring && topic == notifyTopic d name && j.stringAt (str "name") == some name
      && j.stringAt (str "version") == some version
  | none => false

/-- Records and timers tell the same. -/
def Agrees (d : UInt16) (w : World) : Prop :=
  ∀ name,
    (∀ version, w.server (notifyKey d name) = some (.string version) ↔
      w.timers.countP (w.publishesVersion d name version) = 1) ∧
    (w.server (notifyKey d name) = none →
      ∀ t ∈ w.timers, ∀ j, w.published t ≠ some (notifyTopic d name, j))

/-- What a call needs. `ota_notify`: name and version are UTF-8 text without a zero byte, and `m_notifier` is empty or
was built for this module. `ota_stop_notify`: no timer is live, or `m_notifier` was built for this module. -/
def CallOk (d : UInt16) (w : World) : DeviceCall → Prop
  | .notify name version _ _ _ =>
    0 ∉ name ∧ 0 ∉ version ∧ utf8Valid name = true ∧ utf8Valid version = true ∧
      ∀ topic, w.topic = some topic → topic = notifyTopic d name
  | .stopNotify name _ => w.timers = [] ∨ w.topic = some (notifyTopic d (cstr name))

/-! ## One notifier, one message -/

theorem stringAt_name (msg : OTAMessage) : msg.toJson.stringAt (str "name") = some msg.name := rfl

theorem stringAt_version (msg : OTAMessage) : msg.toJson.stringAt (str "version") = some msg.version := rfl

variable {m : RedisManager} {d : UInt16} {pool : Bytes} {w w' : World}

theorem publishesVersion_iff {a : Nat} {n : OTANotifier} (hn : w.notifier = some (a, n)) (t : Timer)
    (name version : Bytes) : w.publishesVersion d name version t = true ↔
      t.notifier = a ∧ n.msg.dumps = true ∧ t.recurring = true ∧ n.topic = notifyTopic d name ∧
        n.msg.name = name ∧ n.msg.version = version := by
  unfold publishesVersion published
  rw [hn]
  by_cases h : t.notifier = a ∧ n.msg.dumps = true
  · simp [h, stringAt_name, stringAt_version, and_assoc]
  · simp only [h, if_false, Bool.false_eq_true, false_iff]
    tauto

theorem dumps_getNotifyMessage {name version time : Bytes} (ht : utf8Valid time = true) :
    (getNotifyMessage name version time).dumps = true ↔ utf8Valid name = true ∧ utf8Valid version = true := by
  have hf : utf8Valid (str "agsspds_20241110.zip") = true := by decide
  have hu : utf8Valid (str "http://127.0.0.1:18882/download/ota/agsspds") = true := by decide
  have hm : utf8Valid (str "ed076287532e86365e841e92bfc50d8c") = true := by decide
  simp [OTAMessage.dumps, getNotifyMessage, ht, hf, hu, hm]

/-! ## Records -/

/-- The record is a string with a first byte other than zero. -/
def recordHasText : Option Value → Bool
  | some (.string (b :: _)) => b != 0
  | _ => false

theorem recordHasText_of_version {v : Bytes} (h0 : 0 ∉ v) (hv : v ≠ []) :
    recordHasText (some (.string v)) = true := by
  obtain ⟨b, v, rfl⟩ := List.exists_cons_of_ne_nil hv
  have : b ≠ 0 := fun e => h0 (by simp [e])
  simpa [recordHasText] using this

/-- The record is absent or a string. -/
def IsRecord (v : Option Value) : Prop := v = none ∨ ∃ b, v = some (.string b)

/-- What the end of `ota_notify` leaves: the notifier of before, or one for this topic, with the new message, and one
more timer. -/
theorem start_effect (w : World) (topic : Bytes) (s : Server) (msg : OTAMessage) : ∃ a i ms,
      ((((w.ensureNotifier topic).withServer s).setMessage msg).start).server = s ∧
      ((((w.ensureNotifier topic).withServer s).setMessage msg).start).notifier =
        some (a, { topic := w.topic.getD topic, msg, timer := some i, intervalMs := ms }) ∧
      ((((w.ensureNotifier topic).withServer s).setMessage msg).start).timers =
        w.timers ++ [{ id := i, ms, recurring := true, notifier := a }] := by
  unfold ensureNotifier World.topic
  cases hn : w.notifier with
  | none => exact ⟨_, _, _, rfl, rfl, rfl⟩
  | some x => exact ⟨x.1, w.fresh, x.2.intervalMs, by simp [withServer, setMessage, start, hn]⟩

/-! ## The two phases -/

/-- Nothing is notified. -/
structure Idle (d : UInt16) (w : World) : Prop where
  records : ∀ name, w.server (notifyKey d name) = none
  timers : w.timers = []

/-- One version of one module is notified, by the timer of `m_notifier`. -/
structure Notifying (d : UInt16) (w : World) (name version : Bytes) : Prop where
  nameText : 0 ∉ name
  versionText : 0 ∉ version
  nonempty : version ≠ []
  records : ∀ name', w.server (notifyKey d name') =
    if name' = name then some (.string version) else none
  timer : ∃ a i n ms, w.notifier = some (a, n) ∧ n.timer = some i ∧
    w.timers = [{ id := i, ms, recurring := true, notifier := a }] ∧
    n.topic = notifyTopic d name ∧ n.msg.name = name ∧ n.msg.version = version ∧
    n.msg.dumps = true

/-- The state between two calls, as long as the calls meet the condition. -/
def Phase (d : UInt16) (w : World) : Prop := Idle d w ∨ ∃ name version, Notifying d w name version

theorem Initial.phase (h : Initial d w) : Phase d w := .inl ⟨h.records, h.timers⟩

theorem Idle.agrees (h : Idle d w) : Agrees d w := by
  intro name
  refine ⟨fun version => ?_, fun _ t ht => ?_⟩
  · simp [h.records, h.timers]
  · rw [h.timers] at ht
    cases ht

theorem Notifying.agrees {name version : Bytes} (h : Notifying d w name version) : Agrees d w := by
  obtain ⟨a, i, n, ms, hn, -, ht, htopic, hname, hversion, hdumps⟩ := h.timer
  intro name'
  refine ⟨fun version' => ?_, fun hnone t hmem j hp => ?_⟩
  · have hpub : w.publishesVersion d name' version' ⟨i, ms, true, a⟩ = true ↔
        name' = name ∧ version = version' := by
      rw [publishesVersion_iff hn, htopic, notifyTopic_inj, hname, hversion]
      simp only [hdumps, true_and]
      constructor
      · rintro ⟨rfl, -, rfl⟩; exact ⟨rfl, rfl⟩
      · rintro ⟨rfl, rfl⟩; exact ⟨rfl, rfl, rfl⟩
    rw [ht, h.records, List.countP_singleton]
    by_cases hp : name' = name ∧ version = version'
    · rw [if_pos (hpub.mpr hp), if_pos hp.1, hp.2]
      simp
    · simp only [hpub.not.mpr hp, Bool.false_eq_true, if_false]
      split <;> simp_all
  · -- the timer publishes on the topic of the module that has the record
    have htop : n.topic = notifyTopic d name' := by
      unfold published at hp
      rw [hn] at hp
      simp only at hp
      split at hp
      · exact congrArg Prod.fst (Option.some.inj hp)
      · cases hp
    rw [htopic, notifyTopic_inj] at htop
    rw [h.records, if_pos htop.symm] at hnone
    cases hnone

theorem Phase.isRecord (h : Phase d w) (name : Bytes) : IsRecord (w.server (notifyKey d name)) := by
  obtain h | ⟨name', version, h⟩ := h
  · exact .inl (h.records name)
  · rw [h.records]
    split
    · exact .inr ⟨_, rfl⟩
    · exact .inl rfl

/-! ## One call -/

section

variable [Redis]

/-- One call. -/
def CallStep (m : RedisManager) (d : UInt16) (pool : Bytes) (w : World) (c : DeviceCall) (w' : World) : Prop :=
  afterCall m d pool w c = w'

theorem notify_result (hm : m.Succeeds pool) (name version time : Bytes)
    (hrec : IsRecord (w.server (notifyKey d (cstr name)))) :
    ((otaNotify d name version time pool).run (World.handle m) w).2 =
      ((((w.stopIf (recordHasText (w.server (notifyKey d (cstr name))))).ensureNotifier
          (notifyTopic d name)).withServer (Function.update w.server (notifyKey d (cstr name))
            (some (.string (cstr version))))).setMessage (getNotifyMessage name version time)).start := by
  rw [run_otaNotify]
  simp only [RedisManager.handle_ok hm, Command.exec_reads (c := .get _) rfl, withServer_self, stopIf_server,
    ensureNotifier_server]
  obtain h | ⟨b, h⟩ := hrec
  · simp [Command.exec, Command.key, h, replyFailed, replyHasText, recordHasText]
  · have htext : replyHasText (some (.str b)) = recordHasText (some (.string b)) := by
      cases b <;> rfl
    simp [Command.exec, Command.key, h, replyFailed, htext]

theorem stopNotify_result (hm : m.Succeeds pool) (name : Bytes) :
    ((otaStopNotify d name pool).run (World.handle m) w).2 =
      w.stop.withServer (Function.update w.server (notifyKey d (cstr name)) none) := by
  rw [run_otaStopNotify]
  simp only [RedisManager.handle_ok hm, Command.exec, Command.key, stop_server, Redis.apply_del]

/-- A call that meets the condition leads to a phase. -/
theorem Phase.notify (hm : m.Succeeds pool) (h : Phase d w) {name version time : Bytes}
    (hv : version ≠ []) (ht : utf8Valid time = true) (hok : CallOk d w (.notify name version time hv ht)) :
    Notifying d ((otaNotify d name version time pool).run (World.handle m) w).2 name version := by
  obtain ⟨hn0, hv0, hnu, hvu, htopic⟩ := hok
  have hname := cstr_eq_self hn0
  have hgetD : w.topic.getD (notifyTopic d name) = notifyTopic d name := by
    cases hw : w.topic with
    | none => rfl
    | some t => exact htopic t hw
  rw [notify_result hm name version time (h.isRecord _), hname, cstr_eq_self hv0]
  obtain ⟨a, i, ms, hserver, hnotifier, htimers⟩ :=
    start_effect (w.stopIf (recordHasText (w.server (notifyKey d name)))) (notifyTopic d name)
      (Function.update w.server (notifyKey d name) (some (.string version)))
      (getNotifyMessage name version time)
  rw [stopIf_topic, hgetD] at hnotifier
  -- no timer is left from before
  have hbefore : (w.stopIf (recordHasText (w.server (notifyKey d name)))).timers = [] ∧
      ∀ name', name' ≠ name → w.server (notifyKey d name') = none := by
    obtain h | ⟨name₀, version₀, h⟩ := h
    · refine ⟨?_, fun name' _ => h.records name'⟩
      rw [h.records]
      exact h.timers
    · obtain ⟨a, i, n, ms, hn, hni, hts, htop, -⟩ := h.timer
      have hsame : name = name₀ := by
        have := htopic n.topic (by simp [World.topic, hn])
        rw [htop, notifyTopic_inj] at this
        exact this.symm
      subst hsame
      refine ⟨?_, fun name' hne => by rw [h.records, if_neg hne]⟩
      rw [h.records, if_pos rfl, recordHasText_of_version h.versionText h.nonempty]
      simp [stopIf, stop, hn, hts, hni]
  refine ⟨hn0, hv0, hv, fun name' => ?_, a, i, _, ms, hnotifier, rfl, ?_, rfl, rfl, rfl, ?_⟩
  · rw [hserver]
    by_cases hne : name' = name
    · simp [hne]
    · rw [Function.update_of_ne (fun e => hne (notifyKey_inj.mp e)), hbefore.2 name' hne, if_neg hne]
  · rw [htimers, hbefore.1]
    rfl
  · exact (dumps_getNotifyMessage ht).mpr ⟨hnu, hvu⟩

theorem Phase.stopNotify (hm : m.Succeeds pool) (h : Phase d w) {name version : Bytes}
    (hok : CallOk d w (.stopNotify name version)) :
    Idle d ((otaStopNotify d name pool).run (World.handle m) w).2 := by
  rw [stopNotify_result hm]
  obtain h | ⟨name₀, version₀, h⟩ := h
  · refine ⟨fun name' => ?_, ?_⟩
    · simp only [withServer_server]
      by_cases hk : notifyKey d name' = notifyKey d (cstr name)
      · rw [hk, Function.update_self]
      · rw [Function.update_of_ne hk, h.records]
    · unfold stop
      cases w.notifier <;> simp [h.timers]
  · obtain ⟨a, i, n, ms, hn, hni, hts, htop, -⟩ := h.timer
    have hsame : name₀ = cstr name := by
      obtain hnil | htopic := hok
      · rw [hnil] at hts
        cases hts
      · rw [World.topic, hn, Option.map_some, htop, Option.some.injEq, notifyTopic_inj] at htopic
        exact htopic
    refine ⟨fun name' => ?_, ?_⟩
    · simp only [withServer_server]
      by_cases hk : name' = name₀
      · rw [hk, hsame, Function.update_self]
      · rw [Function.update_of_ne (fun e => hk (by rw [notifyKey_inj.mp e, hsame])), h.records, if_neg hk]
    · simp [stop, hn, hts, hni]

/-- A call after which records and timers tell the same met the condition. -/
theorem Phase.callOk_notify (hm : m.Succeeds pool) (h : Phase d w) {name version time : Bytes}
    (hv : version ≠ []) (ht : utf8Valid time = true)
    (hag : Agrees d ((otaNotify d name version time pool).run (World.handle m) w).2) :
    CallOk d w (.notify name version time hv ht) := by
  rw [notify_result hm name version time (h.isRecord _)] at hag
  obtain ⟨a, i, ms, hserver, hnotifier, -⟩ :=
    start_effect (w.stopIf (recordHasText (w.server (notifyKey d (cstr name)))))
      (notifyTopic d name)
      (Function.update w.server (notifyKey d (cstr name)) (some (.string (cstr version))))
      (getNotifyMessage name version time)
  rw [stopIf_topic] at hnotifier
  -- the new record has a timer, and every timer publishes the message of `m_notifier`
  have hone := ((hag (cstr name)).1 (cstr version)).mp (by rw [hserver, Function.update_self])
  obtain ⟨t, -, hpub⟩ := List.countP_pos_iff.mp (Nat.lt_of_lt_of_eq Nat.zero_lt_one hone.symm)
  obtain ⟨-, hdumps, -, htopic, hname, hversion⟩ := (publishesVersion_iff hnotifier t _ _).mp hpub
  have hname : cstr name = name := hname.symm
  have hversion : cstr version = version := hversion.symm
  obtain ⟨hnu, hvu⟩ := (dumps_getNotifyMessage ht).mp hdumps
  refine ⟨cstr_eq_self_iff.mp hname, cstr_eq_self_iff.mp hversion, hnu, hvu, fun topic hw => ?_⟩
  simp only [hw, Option.getD_some] at htopic
  rw [htopic, hname]

theorem Phase.callOk_stopNotify (hm : m.Succeeds pool) (h : Phase d w) {name version : Bytes}
    (hag : Agrees d ((otaStopNotify d name pool).run (World.handle m) w).2) :
    CallOk d w (.stopNotify name version) := by
  rw [stopNotify_result hm] at hag
  obtain h | ⟨name₀, version₀, h⟩ := h
  · exact .inl h.timers
  · obtain ⟨a, i, n, ms, hn, hni, hts, htop, -⟩ := h.timer
    refine .inr ?_
    by_cases hsame : name₀ = cstr name
    · simp [World.topic, hn, htop, hsame]
    · -- the record of the other module stays, and no timer is left
      have hrec : (w.stop.withServer
          (Function.update w.server (notifyKey d (cstr name)) none)).server (notifyKey d name₀) =
          some (.string version₀) := by
        rw [withServer_server, Function.update_of_ne (fun e => hsame (notifyKey_inj.mp e)), h.records, if_pos rfl]
      have hone := ((hag name₀).1 version₀).mp hrec
      have hnil : w.stop.timers = [] := by simp [stop, hn, hts, hni]
      rw [withServer_timers, hnil] at hone
      cases hone

/-- From a phase, records and timers tell the same after a call exactly if the call meets the condition, and then the
device is in a phase again. -/
theorem Phase.call (hm : m.Succeeds pool) (h : Phase d w) (c : DeviceCall)
    (hs : CallStep m d pool w c w') : (Agrees d w' ↔ CallOk d w c) ∧ (CallOk d w c → Phase d w') := by
  subst hs
  cases c with
  | notify name version time hv ht =>
    exact ⟨⟨h.callOk_notify hm hv ht, fun hok => (h.notify hm hv ht hok).agrees⟩,
      fun hok => .inr ⟨_, _, h.notify hm hv ht hok⟩⟩
  | stopNotify name version =>
    exact ⟨⟨h.callOk_stopNotify hm, fun hok => (h.stopNotify hm hok).agrees⟩,
      fun hok => .inl (h.stopNotify hm hok)⟩

/-- **Records and timers.** Over every sequence of calls whose Redis commands succeed, records and
timers tell the same after each call exactly if each call meets `CallOk`. -/
theorem agrees_iff_callOk (hm : m.Succeeds pool) (hw : Initial d w)
    {r : List (DeviceCall × World)} (hr : Run (CallStep m d pool) w r) :
    Reached (Agrees d) r ↔ Meets (CallOk d) w r :=
  Run.reached_iff (fun _ c _ h hs => (h.call hm c hs).1) (fun _ c _ h hok hs => (h.call hm c hs).2 hok)
    hr hw.phase

end

theorem agrees_notify_stopNotify :
    Reached (Agrees 1) (trace (afterCall .reliable 1 (str "pool")) { server := fun _ => none }
      [.notify (str "agsspds") (str "1.1") (str "09:00") (by decide) (by decide),
       .notify (str "agsspds") (str "1.2") (str "09:01") (by decide) (by decide),
       .stopNotify (str "agsspds") (str "1.2")]) :=
  (agrees_iff_callOk (RedisManager.reliable_succeeds _) (initial_empty 1) (run_trace _ _ _)).mpr
    ⟨⟨by decide, by decide, by decide, by decide, fun _ h => by cases h⟩,
     ⟨by decide, by decide, by decide, by decide, fun _ h => (Option.some.inj h).symm⟩,
     .inr rfl, trivial⟩

/-- Two modules of one device: the second is published on the topic of the first. -/
theorem agrees_fails_two_modules :
    ¬ ∀ (m : RedisManager) (d : UInt16) (pool : Bytes) (w : World) (r : List (DeviceCall × World)),
      m.Succeeds pool → Initial d w → Run (CallStep m d pool) w r → Reached (Agrees d) r := by
  intro h
  obtain ⟨-, h₂, -⟩ := h .reliable 1 (str "pool") { server := fun _ => none }
    (trace (afterCall .reliable 1 (str "pool")) { server := fun _ => none }
      [.notify (str "a") (str "1") (str "09:00") (by decide) (by decide),
       .notify (str "b") (str "1") (str "09:01") (by decide) (by decide)])
    (RedisManager.reliable_succeeds _) (initial_empty 1) (run_trace _ _ _)
  have hone := ((h₂ (str "b")).1 (str "1")).mp (by decide)
  exact absurd hone (by decide)

end Sherry
