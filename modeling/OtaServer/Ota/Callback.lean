import OtaServer.Ota.HttpManager

/-!
# Reported states (`sherry/ota_client_callback.cc`, `sherry/ota/ota_device.cc`)

Each topic that a device subscribes to is mapped to a Redis key. The constructor of a device registers, for each
topic, a callback that stores the payload under the key; all devices share one registry, and a topic that is
registered again belongs to the later registration. `handle_query` reads the key back.

A payload passes two C strings on its way, the argument of `SET` and the reply of `GET`, so the answer is the payload
up to its first zero byte (`query_returns_payload_iff`).
-/

namespace Sherry

open Lib Http

/-- `MqttDeviceConfig`, without the address of the broker. The constructor of the device reads a key and an expiry for
each topic, so there are at least as many. -/
structure MqttDeviceConfig where
  deviceType : UInt16
  subTopics : List Bytes
  redisKeys : List Bytes
  expireSeconds : List Int
  keys_le : subTopics.length ≤ redisKeys.length
  expire_le : subTopics.length ≤ expireSeconds.length

/-- What the callback of a topic captures. -/
structure SubscribeCallback where
  redisPoolName : Bytes
  redisKey : Bytes
  redisExpireSecond : Int
  deriving DecidableEq

/-- `m_callbacks` of `OTAClientCallbackManager`. -/
abbrev Callbacks := Bytes → Option SubscribeCallback

/-- `OTAClientCallbackManager::regist_callback`. -/
def registCallback (cbs : Callbacks) (topic : Bytes) (cb : SubscribeCallback) : Callbacks :=
  Function.update cbs topic (some cb)

/-- `OTAClientCallbackManager::on_message`. That the value could not be set is only logged. -/
def onMessage [Redis] (cbs : Callbacks) (topic payload : Bytes) : RedisProg Unit :=
  match cbs topic with
  | none => pure ()
  | some cb => do
    let _ ← redisSafeSetKeyValue cb.redisPoolName cb.redisKey payload cb.redisExpireSecond

/-- The callbacks that `OTADevice::OTADevice` registers, in order. -/
def MqttDeviceConfig.callbacks (redisPoolName : Bytes) (cfg : MqttDeviceConfig) : List (Bytes × SubscribeCallback) :=
  (cfg.subTopics.zip (cfg.redisKeys.zip cfg.expireSeconds)).map fun (topic, key, expire) =>
    (topic, ⟨redisPoolName, key, expire⟩)

/-- The devices that `OTAMqttManager::add_device` adds, given the device types added before: of two devices of one
type only the first is built. -/
def addedDevices : List UInt16 → List MqttDeviceConfig → List MqttDeviceConfig
  | _, [] => []
  | added, cfg :: cfgs =>
    if cfg.deviceType ∈ added then addedDevices added cfgs
    else cfg :: addedDevices (cfg.deviceType :: added) cfgs

/-- All registrations of the constructor of `OTAMqttManager`, in order. -/
def registrations (redisPoolName : Bytes) (cfgs : List MqttDeviceConfig) : List (Bytes × SubscribeCallback) :=
  (addedDevices [] cfgs).flatMap (·.callbacks redisPoolName)

/-- The registry after them. -/
def registry (redisPoolName : Bytes) (cfgs : List MqttDeviceConfig) : Callbacks :=
  (registrations redisPoolName cfgs).foldl (fun cbs r => registCallback cbs r.1 r.2) fun _ => none

/-- A device is configured with the topic, mapped to the key, without expiry; no later registration takes the topic.
-/
def MapsTopic (redisPoolName : Bytes) (cfgs : List MqttDeviceConfig) (topic key : Bytes) : Prop :=
  ∃ before after expire, registrations redisPoolName cfgs =
      before ++ (topic, ⟨redisPoolName, key, expire⟩) :: after ∧
    expire ≤ 0 ∧ ∀ r ∈ after, r.1 ≠ topic

theorem foldl_registCallback_of_ne {topic : Bytes} {rs : List (Bytes × SubscribeCallback)}
    (h : ∀ r ∈ rs, r.1 ≠ topic) (cbs : Callbacks) :
    rs.foldl (fun cbs r => registCallback cbs r.1 r.2) cbs topic = cbs topic := by
  induction rs generalizing cbs with
  | nil => rfl
  | cons r rs ih =>
    rw [List.foldl_cons, ih fun r' hr' => h r' (List.mem_cons_of_mem _ hr')]
    exact Function.update_of_ne (h r List.mem_cons_self).symm _ _

theorem MapsTopic.registry {redisPoolName topic key : Bytes} {cfgs : List MqttDeviceConfig}
    (h : MapsTopic redisPoolName cfgs topic key) :
    ∃ expire, registry redisPoolName cfgs topic = some ⟨redisPoolName, key, expire⟩ := by
  obtain ⟨before, after, expire, hr, -, hafter⟩ := h
  refine ⟨expire, ?_⟩
  unfold Sherry.registry
  rw [hr, List.foldl_append, List.foldl_cons, foldl_registCallback_of_ne hafter]
  exact Function.update_self _ _ _

section

variable [Redis] {h : OTAHttpManager} {n : Nlohmann} {m : RedisManager}

/-- A stored payload, up to its first zero byte. -/
theorem run_onMessage {cbs : Callbacks} {topic pool key : Bytes} {expire : Int}
    (hcb : cbs topic = some ⟨pool, key, expire⟩) (hm : m.Succeeds pool) (payload : Bytes) (s : Server) :
    ((onMessage cbs topic payload).run m.handle s).2 (cstr key) = some (.string (cstr payload)) := by
  unfold onMessage
  rw [hcb]
  simp only [Prog.run_bind]
  exact run_redisSafeSetKeyValue hm

/-- A query that reads its fields and finds a value. -/
theorem run_handleQuery {req : HttpRequest} {rsp : HttpResponse} {s : Server} {j : Json}
    {deviceType : UInt16} {name v : Bytes} (hm : m.Succeeds h.redisPoolName)
    (hreq : req.method ≠ .options) (hj : n.parse req.body = some j)
    (hd : j.uint16At (str "device_type") = some deviceType)
    (hname : j.stringAt (str "name") = some name)
    (hv : s (cstr (getDeviceGroupMuduleHash (str "query") deviceType name)) = some (.string v)) :
    ((h.handleQuery n req rsp).run m.handle s).1 =
      (1, { rsp with status := .ok, body := cstr v }.setHeader (str "Content-Type")
        (str "application/json")) := by
  have hcd : j.contains (str "device_type") = true := by
    obtain ⟨x, hx, -⟩ := Option.bind_eq_some_iff.mp hd
    simp [Json.contains, hx]
  have hcn : j.contains (str "name") = true := by
    obtain ⟨x, hx, -⟩ := Option.bind_eq_some_iff.mp hname
    simp [Json.contains, hx]
  have hget : (m.handle ⟨h.redisPoolName, some (.get
      (cstr (getDeviceGroupMuduleHash (str "query") deviceType name)))⟩ s).1 = some (.str v) := by
    rw [RedisManager.handle_ok hm]
    simp [Command.exec, Command.key, hv]
  unfold OTAHttpManager.handleQuery
  simp only [hreq, if_false, hj, hcd, hcn, Bool.not_true, Bool.or_self, Bool.false_eq_true, hd,
    hname, Prog.run_bind, run_redisQueryByHttp hget]
  rfl

/-- **Reported states.** A payload on a topic that is mapped to the key of a module, with every
command succeeding and the key not written again, is the answer to a query of the module exactly if
it has no zero byte. -/
theorem query_returns_payload_iff {pool topic payload : Bytes} {cfgs : List MqttDeviceConfig}
    {deviceType : UInt16} {name : Bytes} {req : HttpRequest} {rsp : HttpResponse} {s s' : Server}
    {j : Json} (hm : m.Succeeds pool) (hh : m.Succeeds h.redisPoolName)
    (hcfg : MapsTopic pool cfgs topic (getDeviceGroupMuduleHash (str "query") deviceType name))
    (hs' : s' (cstr (getDeviceGroupMuduleHash (str "query") deviceType name)) =
      ((onMessage (registry pool cfgs) topic payload).run m.handle s).2
        (cstr (getDeviceGroupMuduleHash (str "query") deviceType name)))
    (hreq : req.method ≠ .options) (hj : n.parse req.body = some j)
    (hd : j.uint16At (str "device_type") = some deviceType)
    (hname : j.stringAt (str "name") = some name) :
    (((h.handleQuery n req rsp).run m.handle s').1.2.status = .ok ∧
        ((h.handleQuery n req rsp).run m.handle s').1.2.body = payload) ↔
      0 ∉ payload := by
  obtain ⟨expire, hcb⟩ := hcfg.registry
  rw [run_onMessage hcb hm] at hs'
  rw [run_handleQuery hh hreq hj hd hname hs']
  simp only [HttpResponse.setHeader, true_and, cstr_cstr]
  exact cstr_eq_self_iff

end

/-- A device of type 1 that maps one topic to the key of the module `agsspds`. -/
def reportConfig : MqttDeviceConfig where
  deviceType := 1
  subTopics := [str "/ota/agent/1/agsspds"]
  redisKeys := [getDeviceGroupMuduleHash (str "query") 1 (str "agsspds")]
  expireSeconds := [0]
  keys_le := le_rfl
  expire_le := le_rfl

theorem reportConfig_mapsTopic : MapsTopic (str "pool") [reportConfig] (str "/ota/agent/1/agsspds")
    (getDeviceGroupMuduleHash (str "query") 1 (str "agsspds")) :=
  ⟨[], [], 0, rfl, by decide, by simp⟩

/-- The body of a query of the module `agsspds` of device type 1. -/
def queryBody : Json := .object [
  (str "device_type", .numberUnsigned 1), (str "name", .string (str "agsspds"))]

/-- Its JSON text. -/
def queryText : Bytes := str "\x7b\"device_type\": 1, \"name\": \"agsspds\"\x7d"

theorem query_returns_payload_text :
    ((OTAHttpManager.handleQuery ⟨str "pool"⟩ (.ofTexts [(queryText, queryBody)])
      { method := .post, body := queryText } {}).run RedisManager.reliable.handle
      ((onMessage (registry (str "pool") [reportConfig]) (str "/ota/agent/1/agsspds")
        (str "up to date")).run RedisManager.reliable.handle fun _ => none).2).1.2.body =
      str "up to date" :=
  ((query_returns_payload_iff (RedisManager.reliable_succeeds _) (RedisManager.reliable_succeeds _)
    reportConfig_mapsTopic rfl (by decide) rfl rfl rfl).mpr (by decide)).2

/-- A payload with a zero byte in it comes back cut. -/
theorem query_cuts_payload : ¬ ∀ (h : OTAHttpManager) (n : Nlohmann) (m : RedisManager) (pool topic payload : Bytes)
      (cfgs : List MqttDeviceConfig) (deviceType : UInt16) (name : Bytes) (req : HttpRequest)
      (rsp : HttpResponse) (s s' : Server) (j : Json), m.Succeeds pool → m.Succeeds h.redisPoolName →
      MapsTopic pool cfgs topic (getDeviceGroupMuduleHash (str "query") deviceType name) →
      s' (cstr (getDeviceGroupMuduleHash (str "query") deviceType name)) =
        ((onMessage (registry pool cfgs) topic payload).run m.handle s).2
          (cstr (getDeviceGroupMuduleHash (str "query") deviceType name)) →
      req.method ≠ .options → n.parse req.body = some j →
      j.uint16At (str "device_type") = some deviceType → j.stringAt (str "name") = some name →
      ((h.handleQuery n req rsp).run m.handle s').1.2.status = .ok ∧
        ((h.handleQuery n req rsp).run m.handle s').1.2.body = payload := by
  intro hall
  have h := hall ⟨str "pool"⟩ (.ofTexts [(queryText, queryBody)]) .reliable (str "pool")
    (str "/ota/agent/1/agsspds") [97, 0, 98] [reportConfig] 1 (str "agsspds")
    { method := .post, body := queryText } {} (fun _ => none) _ queryBody (RedisManager.reliable_succeeds _)
      (RedisManager.reliable_succeeds _)
    reportConfig_mapsTopic rfl (by decide) rfl rfl rfl
  exact absurd h.2 (by decide)

end Sherry
