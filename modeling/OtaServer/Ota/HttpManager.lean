import OtaServer.Json
import OtaServer.Db.RedisUtil
import OtaServer.Ota.Hash

/-!
# The HTTP front end (`sherry/ota_http_manager.cc`)

The handlers of `/ota/notify` and `/ota/query`, and the stop handler. A handler parses the body, checks that fields
are there and converts them; every exception on the way is answered with `request error: invalid JSON`. `ota_notify`
refuses a version that the record already holds, and else pushes the body, as it came, to the command queue.
-/

namespace Sherry

open Lib Http

/-- `OTAHttpManager`: the pool it uses. -/
structure OTAHttpManager where
  redisPoolName : Bytes

namespace OTAHttpManager

variable [Redis] (h : OTAHttpManager) (n : Nlohmann)

/-- `setHttpResponse`. -/
def setHttpResponse (rsp : HttpResponse) (status : HttpStatus) (msg : Bytes) : HttpResponse :=
  { rsp with body := n.dump (.object [(str "msg", .string msg)]), status }

/-- `OTAHttpManager::set_options`. -/
def setOptions (rsp : HttpResponse) : HttpResponse :=
  (({ rsp with status := .ok }.setHeader (str "Access-Control-Allow-Origin") (str "*")).setHeader
    (str "Access-Control-Allow-Methods") (str "POST, GET, OPTIONS")).setHeader
    (str "Access-Control-Allow-Headers") (str "Content-Type")

/-- The answer to a request that is not understood. -/
def badRequest (rsp : HttpResponse) (text : Bytes) : HttpResponse :=
  { rsp with body := text, status := .badRequest }

/-- `reply->type == REDIS_REPLY_STRING && reply->str && strcmp(reply->str, version.c_str()) == 0`. -/
def replyIsVersion (version : Bytes) : Option Reply → Bool
  | some (.str b) => cstr b == cstr version
  | _ => false

/-- A version of a module, as the messages name it. -/
def describe (deviceType : UInt16) (name version text : Bytes) : Bytes :=
  str "device_type = " ++ dec deviceType.toNat ++ str ", name = " ++ name ++ str ", version = " ++
    version ++ text

/-- `OTAHttpManager::ota_notify`. -/
def otaNotify (deviceType : UInt16) (name version command : Bytes) (rsp : HttpResponse) :
    RedisProg (Int × HttpResponse) := do
  let key := getDeviceGroupMuduleHash (str "notify") deviceType name
  let reply ← Cmd h.redisPoolName (str "GET %s") [.s key]
  if replyFailed reply then
    return (0, setHttpResponse n rsp .internalServerError (str "system error."))
  if replyIsVersion version reply then
    return (1, setHttpResponse n rsp .ok
      (describe deviceType name version (str ", has been published.")))
  redisPushMessageQueueByHttp h.redisPoolName getMessageQueueHash command rsp

/-- `OTAHttpManager::ota_stop_notify`. The `GET` goes to a pool of the name `GET %s`, with the key in the place of the
format. -/
def otaStopNotify (deviceType : UInt16) (name version command : Bytes) (rsp : HttpResponse) :
    RedisProg (Int × HttpResponse) := do
  let key := getDeviceGroupMuduleHash (str "stop_notify") deviceType name
  let reply ← Cmd (str "GET %s") key []
  if replyFailed reply then
    return (0, setHttpResponse n rsp .internalServerError (str "system error."))
  match reply with
  | some (.str b) =>
    if cstr b ≠ cstr version then
      return (0, setHttpResponse n rsp .noContent
        (str "device_type = " ++ dec deviceType.toNat ++ str ", name = " ++ name ++
          str ", current version = " ++ cstr b ++ str ", need-stoping version = " ++ version))
    redisPushMessageQueueByHttp h.redisPoolName getMessageQueueHash command rsp
  | _ => return (0, setHttpResponse n rsp .internalServerError (str "unknown error."))

/-- The common part of `handle_notify` and `handle_stop_notify`: the body as an object with a device type, a name and
a version. -/
def handleVersioned (task : UInt16 → Bytes → Bytes → Bytes → HttpResponse → RedisProg (Int × HttpResponse))
    (req : HttpRequest) (rsp : HttpResponse) : RedisProg (Int × HttpResponse) :=
  if req.method = .options then pure (0, setOptions rsp)
  else match n.parse req.body with
    | none => pure (0, badRequest rsp (str "request error: invalid JSON"))
    | some j =>
      if !j.contains (str "device_type") || !j.contains (str "version") || !j.contains (str "name") then
        pure (0, badRequest rsp (str "request error: missing required fields"))
      else match j.uint16At (str "device_type"), j.stringAt (str "name"), j.stringAt (str "version") with
        | some deviceType, some name, some version => task deviceType name version req.body rsp
        | _, _, _ => pure (0, badRequest rsp (str "request error: invalid JSON"))

/-- `OTAHttpManager::handle_notify`. -/
def handleNotify : HttpRequest → HttpResponse → RedisProg (Int × HttpResponse) :=
  handleVersioned n (h.otaNotify n)

/-- `OTAHttpManager::handle_stop_notify`. -/
def handleStopNotify : HttpRequest → HttpResponse → RedisProg (Int × HttpResponse) :=
  handleVersioned n (h.otaStopNotify n)

/-- `OTAHttpManager::handle_query`. -/
def handleQuery (req : HttpRequest) (rsp : HttpResponse) : RedisProg (Int × HttpResponse) :=
  if req.method = .options then pure (0, setOptions rsp)
  else match n.parse req.body with
    | none => pure (0, badRequest rsp (str "request error: invalid JSON"))
    | some j =>
      if !j.contains (str "device_type") || !j.contains (str "name") then
        pure (0, badRequest rsp (str "request error: missing required fields"))
      else match j.uint16At (str "device_type"), j.stringAt (str "name") with
        | some deviceType, some name => do
          let key := getDeviceGroupMuduleHash (str "query") deviceType name
          let (ret, rsp) ← redisQueryByHttp h.redisPoolName key rsp
          let rsp := if ret = -1 then { rsp with body := str "device not exists." } else rsp
          return (ret, rsp.setHeader (str "Content-Type") (str "application/json"))
        | _, _ => pure (0, badRequest rsp (str "request error: invalid JSON"))

variable {h n}

/-- A handler that sends a command has read its fields. -/
theorem handleVersioned_reads
    {task : UInt16 → Bytes → Bytes → Bytes → HttpResponse → RedisProg (Int × HttpResponse)}
    {m : RedisManager} {req : HttpRequest} {rsp : HttpResponse} {s : Server} {o : RedisOp}
    (ho : o ∈ (handleVersioned n task req rsp).ops m.handle s) :
    ∃ j deviceType name version, n.parse req.body = some j ∧
      j.uint16At (str "device_type") = some deviceType ∧ j.stringAt (str "name") = some name ∧
      j.stringAt (str "version") = some version := by
  unfold handleVersioned at ho
  split at ho
  · cases ho
  split at ho
  · cases ho
  rename_i j hj
  split at ho
  · cases ho
  split at ho
  · rename_i deviceType name version hd hn hv
    exact ⟨j, deviceType, name, version, hj, hd, hn, hv⟩
  · cases ho

end OTAHttpManager

end Sherry
