import OtaServer.Ota.HttpManager

/-!
# The command dispatcher (`sherry/ota_command_dispatcher.cc`)

The consumer of the command queue hands each message to `OTACommandDispatcher::dispatch`. It parses the message again,
looks at the field `command`, and calls the manager with the fields of the message. An exception ends the dispatch; a
field that is missing is read with the `const` operator of the JSON library, whose assertion fails
(`Dispatched.aborted`).

The HTTP front end never looks at `command`, and it accepts a device type that it then converts to 16 bits.
`submitted_dispatches_iff` says which submitted bodies become the notification that they ask for.
-/

namespace Sherry

open Lib Http

/-- A call of `OTAMqttManager`. -/
inductive ManagerCall where
  | otaNotify (deviceType : UInt16) (name version : Bytes)
  | otaStopNotify (deviceType : UInt16) (name version : Bytes)
  deriving DecidableEq

/-- What a dispatch does: one call of the manager, nothing (a message is logged), or a failed assertion of the JSON
library. -/
inductive Dispatched where
  | call (c : ManagerCall)
  | nothing
  | aborted
  deriving DecidableEq

/-- A field of a `const` object, converted, and what follows. -/
def readField {α : Type} (j : Json) (key : Bytes) (convert : Json → Option α) (next : α → Dispatched) : Dispatched :=
  match j.find? key with
  | none => .aborted
  | some v =>
    match convert v with
    | none => .nothing
    | some a => next a

/-- The common part of `handle_notify` and `handle_stop_notify` of the dispatcher. -/
def handleCommand (call : UInt16 → Bytes → Bytes → ManagerCall) (cmd : Json) : Dispatched :=
  readField cmd (str "device_type") Json.getUInt16 fun deviceType =>
    readField cmd (str "name") Json.getString fun name =>
      readField cmd (str "version") Json.getString fun version =>
        .call (call deviceType name version)

/-- `m_command_handlers`. -/
def commandHandlers : List (Bytes × (Json → Dispatched)) := [
  (str "notify", handleCommand .otaNotify),
  (str "stop_notify", handleCommand .otaStopNotify)]

/-- `OTACommandDispatcher::dispatch`. -/
def dispatch (n : Nlohmann) (commandJson : Bytes) : Dispatched :=
  match n.parse commandJson with
  | none => .nothing
  | some cmd =>
    match cmd.stringAt (str "command") with
    | none => .nothing
    | some commandType =>
      match commandHandlers.lookup commandType with
      | none => .nothing
      | some handler => handler cmd

theorem readField_eq {α : Type} {j : Json} {key : Bytes} {convert : Json → Option α}
    {next : α → Dispatched} {a : α} (h : (j.find? key).bind convert = some a) :
    readField j key convert next = next a := by
  obtain ⟨v, hv, ha⟩ := Option.bind_eq_some_iff.mp h
  simp [readField, hv, ha]

theorem handleCommand_eq {call : UInt16 → Bytes → Bytes → ManagerCall} {cmd : Json} {d : UInt16}
    {name version : Bytes} (hd : cmd.uint16At (str "device_type") = some d)
    (hn : cmd.stringAt (str "name") = some name) (hv : cmd.stringAt (str "version") = some version) :
    handleCommand call cmd = .call (call d name version) := by
  unfold handleCommand
  rw [readField_eq hd, readField_eq hn, readField_eq hv]

/-- A notification comes out of a message with the command `notify` only. -/
theorem dispatch_otaNotify_iff {n : Nlohmann} {b : Bytes} {cmd : Json} {d d' : UInt16}
    {name version name' version' : Bytes} (hp : n.parse b = some cmd)
    (hd : cmd.uint16At (str "device_type") = some d) (hn : cmd.stringAt (str "name") = some name)
    (hv : cmd.stringAt (str "version") = some version) :
    dispatch n b = .call (.otaNotify d' name' version') ↔
      cmd.stringAt (str "command") = some (str "notify") ∧ d' = d ∧ name' = name ∧
        version' = version := by
  unfold dispatch
  rw [hp]
  simp only
  cases hc : cmd.stringAt (str "command") with
  | none => simp
  | some c =>
    by_cases h₁ : c = str "notify"
    · subst h₁
      simp [commandHandlers, handleCommand_eq hd hn hv, eq_comm]
    · by_cases h₂ : c = str "stop_notify"
      · subst h₂
        simp [commandHandlers, List.lookup_cons, h₁, beq_false_of_ne h₁, handleCommand_eq hd hn hv]
      · simp [commandHandlers, List.lookup_cons, h₁, beq_false_of_ne h₁, beq_false_of_ne h₂]

/-! ## From the request to the call -/

section

variable [Redis]

/-- `handle_notify` pushes the body to the command queue and answers that it did. -/
structure Submitted (h : OTAHttpManager) (n : Nlohmann) (m : RedisManager) (req : HttpRequest)
    (rsp : HttpResponse) (s : Server) : Prop where
  pushed : (⟨h.redisPoolName, some (.lpush getMessageQueueHash (cstr req.body))⟩ : RedisOp) ∈
    (h.handleNotify n req rsp).ops m.handle s
  answered : ((h.handleNotify n req rsp).run m.handle s).1.2.body = str "task submits successfully."

/-- The dispatch of a message is the notification that the message describes, and nothing else. -/
def DispatchesNotify (n : Nlohmann) (b : Bytes) (j : Json) : Prop :=
  ∃ deviceType name version, dispatch n b = .call (.otaNotify deviceType name version) ∧
    j.intAt (str "device_type") = some (deviceType.toNat : Int) ∧
    j.stringAt (str "name") = some name ∧
    j.stringAt (str "version") = some version

/-- **Submitted bodies.** A submitted body becomes the notification that it describes exactly if its
command is `notify` and its device type is an integer of 16 bits. -/
theorem submitted_dispatches_iff {h : OTAHttpManager} {n : Nlohmann} {m : RedisManager}
    {req : HttpRequest} {rsp : HttpResponse} {s : Server} {j : Json}
    (hsub : Submitted h n m req rsp s) (hj : n.parse req.body = some j) :
    DispatchesNotify n req.body j ↔
      j.stringAt (str "command") = some (str "notify") ∧
        ∃ k : Int, j.intAt (str "device_type") = some k ∧ 0 ≤ k ∧ k < 65536 := by
  obtain ⟨j', d, name, version, hj', hd, hn, hv⟩ :=
    OTAHttpManager.handleVersioned_reads hsub.pushed
  obtain rfl : j' = j := Option.some.inj (hj'.symm.trans hj)
  constructor
  · rintro ⟨d', name', version', hcall, hint, -, -⟩
    obtain ⟨hcmd, -⟩ := (dispatch_otaNotify_iff hj hd hn hv).mp hcall
    refine ⟨hcmd, d'.toNat, hint, ?_, ?_⟩
    · omega
    · have := d'.toNat_lt
      omega
  · rintro ⟨hcmd, k, hint, h0, hlt⟩
    have hk : d = Json.toUInt16 k := Option.some.inj (hd.symm.trans (Json.uint16At_of_intAt hint))
    have hnat : (d.toNat : Int) = k := by
      rw [hk]
      exact Json.toUInt16_toNat.mpr ⟨h0, hlt⟩
    refine ⟨d, name, version, (dispatch_otaNotify_iff hj hd hn hv).mpr ⟨hcmd, rfl, rfl, rfl⟩, ?_, hn, hv⟩
    rw [hint, hnat]

end

/-- The body of a command. -/
def commandBody (command : Bytes) (deviceType : Nat) (name version : Bytes) : Json := .object [
  (str "command", .string command), (str "device_type", .numberUnsigned deviceType),
  (str "name", .string name), (str "version", .string version)]

/-- The JSON text of the body, for texts without quotes and backslashes. -/
def commandText (command : Bytes) (deviceType : Nat) (name version : Bytes) : Bytes :=
  str "\x7b\"command\": \"" ++ command ++ str "\", \"device_type\": " ++ dec deviceType ++
    str ", \"name\": \"" ++ name ++ str "\", \"version\": \"" ++ version ++ str "\"\x7d"

/-- The library on one notification of the module `agsspds`. -/
def agsspdsTexts (deviceType : Nat) : Nlohmann := .ofTexts [
  (commandText (str "notify") deviceType (str "agsspds") (str "1.1"),
    commandBody (str "notify") deviceType (str "agsspds") (str "1.1"))]

/-- The request with this notification. -/
def agsspdsRequest (deviceType : Nat) : HttpRequest where
  method := .post
  body := commandText (str "notify") deviceType (str "agsspds") (str "1.1")

theorem submitted_dispatches_commandBody : DispatchesNotify (agsspdsTexts 1) (agsspdsRequest 1).body
      (commandBody (str "notify") 1 (str "agsspds") (str "1.1")) :=
  (@submitted_dispatches_iff _ ⟨str "pool"⟩ (agsspdsTexts 1) .reliable (agsspdsRequest 1) {}
    (fun _ => none) _ ⟨by decide, by decide⟩ rfl).mpr
    ⟨by decide, 1, rfl, by decide, by decide⟩

/-- The device type 65537 is accepted, and device type 1 is notified. -/
theorem submitted_dispatches_other_device :
    ¬ ∀ (h : OTAHttpManager) (n : Nlohmann) (m : RedisManager) (req : HttpRequest)
      (rsp : HttpResponse) (s : Server) (j : Json),
      Submitted h n m req rsp s → n.parse req.body = some j → DispatchesNotify n req.body j := by
  intro hall
  obtain ⟨d, name, version, -, hint, -⟩ := hall ⟨str "pool"⟩ (agsspdsTexts 65537) .reliable
    (agsspdsRequest 65537) {} (fun _ => none) _ ⟨by decide, by decide⟩ rfl
  have hd : (65537 : Int) = d.toNat := Option.some.inj hint
  have := d.toNat_lt
  omega

end Sherry
