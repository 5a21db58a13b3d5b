import OtaServer.Db.Redis
import OtaServer.Lib.Run

/-!
# The consumer of the command queue (`sherry/ota_mqtt_manager.cc`)

`OTAMqttManager::start` creates a thread that runs `redis_message_queue_thread_run`, and sets `m_running` at its end;
`stop` clears it. The loop of the thread tests `m_running`, waits for a reply of `BRPOP`, dispatches the command or
counts an error, and gives up after more than ten errors in a row.

Threads and calls of `start` and `stop` interleave (`ConsumerStep`); every call of `start` makes a consumer of its
own. A consumer whose loop test falls between its creation and the assignment at the end of `start` exits at once.
`consumer_exits_only`: loops exit only after `stop` or after eleven bad replies in a row, with the well-formed replies
dispatched once and in order, exactly if no loop test sees `m_running` cleared before a `stop`.
-/

namespace Sherry

open Lib

/-- `REDIS_MESSAGE_QUEUE_MAX_ERROR_COUNT`. -/
def redisMessageQueueMaxErrorCount : Nat := 10

/-- What the loop makes of a reply. -/
inductive QueueReply where
  /-- Two elements, the second a string: the command, as a `std::string` made from a `char *`. -/
  | command (b : Bytes)
  | nil
  /-- Null, of another format or of another type. -/
  | bad
  deriving DecidableEq

/-- The branches of the loop body. -/
def queueReply : Option Reply → QueueReply
  | some (.array [_, .str b]) => .command (cstr b)
  | some .nil => .nil
  | _ => .bad

/-- The command of a well-formed reply. -/
def QueueReply.command? : QueueReply → Option Bytes
  | command b => some b
  | _ => none

/-- `error_cnt` after a reply. -/
def QueueReply.errorCnt (r : QueueReply) (cnt : Nat) : Nat :=
  match r with
  | command _ | nil => 0
  | bad => cnt + 1

/-- Where a consumer is. -/
inductive ConsumerPlace where
  /-- Not created yet. -/
  | absent
  /-- At the test of `m_running`. -/
  | test
  /-- At `BRPOP`. -/
  | wait
  /-- The test of `m_running` ended the loop. -/
  | exitedByTest
  /-- The error count ended the loop. -/
  | exitedByErrors
  deriving DecidableEq

/-- A consumer thread, with its replies and what it has dispatched so far. -/
structure Consumer where
  place : ConsumerPlace := .absent
  errorCnt : Nat := 0
  replies : List (Option Reply) := []
  dispatched : List Bytes := []
  /-- The `start` that created the thread has set `m_running`. -/
  started : Bool := false
  /-- `stop` has cleared `m_running` since the thread was created. -/
  stopped : Bool := false

/-- The rest of the loop body after a reply. -/
def Consumer.receive (c : Consumer) (reply : Option Reply) : Consumer :=
  let r := queueReply reply
  { c with
    place := if r.errorCnt c.errorCnt > redisMessageQueueMaxErrorCount then .exitedByErrors else .test
    errorCnt := r.errorCnt c.errorCnt
    replies := c.replies ++ [reply]
    dispatched := c.dispatched ++ r.command?.toList }

/-- The manager: `m_running` and the consumers. -/
structure ManagerState where
  running : Bool
  consumers : Nat → Consumer

/-- What happens next: `start` creates consumer `i`, or reaches its end; `stop` clears `m_running`; consumer `i` tests
`m_running`, or gets a reply. -/
inductive ManagerLabel where
  | spawn (i : Nat)
  | setRunning (i : Nat)
  | clearRunning
  | test (i : Nat)
  | reply (i : Nat) (r : Option Reply)

/-- Consumer `i` changes. -/
def ManagerState.update (s : ManagerState) (i : Nat) (c : Consumer) : ManagerState :=
  { s with consumers := Function.update s.consumers i c }

/-- One step, if it is possible. -/
def managerStep (s : ManagerState) : ManagerLabel → Option ManagerState
  | .spawn i =>
    if (s.consumers i).place = .absent then some (s.update i { place := .test }) else none
  | .setRunning i =>
    if (s.consumers i).place ≠ .absent ∧ (s.consumers i).started = false then
      some { s.update i { s.consumers i with started := true } with running := true }
    else none
  | .clearRunning => some
      { running := false, consumers := fun i => { s.consumers i with stopped := true } }
  | .test i =>
    if (s.consumers i).place = .test then
      some (s.update i
        { s.consumers i with place := if s.running then .wait else .exitedByTest })
    else none
  | .reply i r =>
    if (s.consumers i).place = .wait then some (s.update i ((s.consumers i).receive r)) else none

/-- One step. -/
def ConsumerStep (s : ManagerState) (l : ManagerLabel) (s' : ManagerState) : Prop :=
  managerStep s l = some s'

/-- No consumer, and nothing is running. -/
def ManagerState.initial : ManagerState where
  running := false
  consumers _ := {}

/-- A reply that is null, malformed or of an unexpected type: no `nil`, and not two elements of which the second is a
string. -/
def BadReply (r : Option Reply) : Prop :=
  r ≠ some .nil ∧ ∀ key text, r ≠ some (.array [key, .str text])

/-- The commands of the well-formed replies, each once and in order. The text of a reply is passed on as a `char *`.
-/
inductive CommandsOf : List (Option Reply) → List Bytes → Prop
  | nil : CommandsOf [] []
  | command {rs : List (Option Reply)} {bs : List Bytes} (key : Reply) (text : Bytes) :
      CommandsOf rs bs → CommandsOf (rs ++ [some (.array [key, .str text])]) (bs ++ [cstr text])
  | other {rs : List (Option Reply)} {bs : List Bytes} {r : Option Reply} :
      (∀ key text, r ≠ some (.array [key, .str text])) → CommandsOf rs bs → CommandsOf (rs ++ [r]) bs

/-- The last `k` replies are bad. -/
def EndsBad (k : Nat) (replies : List (Option Reply)) : Prop :=
  ∃ before last, replies = before ++ last ∧ last.length = k ∧ ∀ r ∈ last, BadReply r

/-- The loop has exited for a reason, if it has, and the well-formed replies so far were dispatched once and in order.
-/
structure Consumer.Ok (c : Consumer) : Prop where
  test : c.place = .exitedByTest → c.stopped = true
  errors : c.place = .exitedByErrors → EndsBad 11 c.replies
  dispatched : CommandsOf c.replies c.dispatched

/-- A loop test needs that `m_running` is set, or that `stop` has been called since the thread was created. -/
def TestOk (s : ManagerState) : ManagerLabel → Prop
  | .test i => s.running = true ∨ (s.consumers i).stopped = true
  | _ => True

/-- What holds of a consumer. -/
structure ConsumerInv (c : Consumer) : Prop extends c.Ok where
  /-- `error_cnt` counts the bad replies at the end. -/
  bad : EndsBad c.errorCnt c.replies
  small : c.place = .test ∨ c.place = .wait → c.errorCnt ≤ redisMessageQueueMaxErrorCount

variable {c : Consumer}

/-- The branch of the loop body that a reply takes. -/
theorem queueReply_cases (r : Option Reply) :
    (∃ key text, r = some (.array [key, .str text]) ∧ queueReply r = .command (cstr text)) ∨
      (r = some .nil ∧ queueReply r = .nil) ∨ (BadReply r ∧ queueReply r = .bad) := by
  unfold queueReply
  split
  · exact .inl ⟨_, _, rfl, rfl⟩
  · exact .inr (.inl ⟨rfl, rfl⟩)
  · next hcommand hnil => exact .inr (.inr ⟨⟨hnil, hcommand⟩, rfl⟩)

theorem consumerInv_new (p : ConsumerPlace) (hp : p = .absent ∨ p = .test) : ConsumerInv { place := p } where
  test h := by rcases hp with rfl | rfl <;> cases h
  errors h := by rcases hp with rfl | rfl <;> cases h
  dispatched := .nil
  bad := ⟨[], [], rfl, rfl, by simp⟩
  small _ := Nat.zero_le _

theorem ConsumerInv.test_step (h : ConsumerInv c) (hp : c.place = .test) {running : Bool}
    (hok : running = true ∨ c.stopped = true) :
    ConsumerInv { c with place := if running then .wait else .exitedByTest } := by
  cases running with
  | true =>
    exact { h with
      test := fun h => by cases h
      errors := fun h => by cases h
      small := fun _ => h.small (.inl hp) }
  | false =>
    exact { h with
      test := fun _ => hok.resolve_left (by decide)
      errors := fun h => by cases h
      small := fun h => by rcases h with h | h <;> cases h }

/-- The count stays that of the bad replies at the end. -/
theorem EndsBad.receive {k : Nat} {rs : List (Option Reply)} (h : EndsBad k rs) (r : Option Reply) :
    EndsBad ((queueReply r).errorCnt k) (rs ++ [r]) := by
  obtain ⟨before, last, hsplit, hlen, hall⟩ := h
  obtain ⟨key, text, -, hr⟩ | ⟨-, hr⟩ | ⟨hbad, hr⟩ := queueReply_cases r
  · exact ⟨rs ++ [r], [], by simp, by rw [hr]; rfl, by simp⟩
  · exact ⟨rs ++ [r], [], by simp, by rw [hr]; rfl, by simp⟩
  · refine ⟨before, last ++ [r], by rw [hsplit, List.append_assoc], ?_, fun x hx => ?_⟩
    · rw [hr, List.length_append, hlen]
      rfl
    · rcases List.mem_append.mp hx with hx | hx
      · exact hall x hx
      · rw [List.mem_singleton.mp hx]
        exact hbad

theorem CommandsOf.receive {rs : List (Option Reply)} {bs : List Bytes} (h : CommandsOf rs bs)
    (r : Option Reply) : CommandsOf (rs ++ [r]) (bs ++ (queueReply r).command?.toList) := by
  obtain ⟨key, text, rfl, -⟩ | ⟨rfl, -⟩ | ⟨hbad, hr⟩ := queueReply_cases r
  · exact .command key text h
  · rw [show (queueReply (some .nil)).command?.toList = [] from rfl, List.append_nil]
    exact .other (by simp) h
  · rw [hr, show QueueReply.bad.command?.toList = [] from rfl, List.append_nil]
    exact .other hbad.2 h

/-- A reply: at eleven errors the loop ends, with eleven bad replies behind it. -/
theorem ConsumerInv.receive (h : ConsumerInv c) (hp : c.place = .wait) (r : Option Reply) :
    ConsumerInv (c.receive r) := by
  have hsmall := h.small (.inr hp)
  have hmax : redisMessageQueueMaxErrorCount = 10 := rfl
  have hle : (queueReply r).errorCnt c.errorCnt ≤ redisMessageQueueMaxErrorCount + 1 := by
    cases queueReply r <;> simp only [QueueReply.errorCnt] <;> omega
  refine ⟨⟨fun hpl => ?_, fun hpl => ?_, h.dispatched.receive r⟩, h.bad.receive r, fun hpl => ?_⟩
  · simp only [Consumer.receive] at hpl
    split at hpl <;> cases hpl
  · simp only [Consumer.receive] at hpl
    split at hpl
    · have heleven : (queueReply r).errorCnt c.errorCnt = 11 := by omega
      exact heleven ▸ h.bad.receive r
    · cases hpl
  · simp only [Consumer.receive] at hpl ⊢
    split at hpl
    · rcases hpl with hpl | hpl <;> cases hpl
    · omega

/-- What holds between steps. -/
def ManagerInv (s : ManagerState) : Prop := ∀ i, ConsumerInv (s.consumers i)

theorem ManagerInv.update {s : ManagerState} (hs : ManagerInv s) {i : Nat} {c : Consumer}
    (h : ConsumerInv c) : ManagerInv (s.update i c) := by
  intro j
  by_cases hj : j = i
  · subst hj
    simp only [ManagerState.update, Function.update_self]
    exact h
  · simp only [ManagerState.update, Function.update_of_ne hj]
    exact hs j

theorem ManagerInv.step {s s' : ManagerState} {l : ManagerLabel} (hs : ManagerInv s)
    (hok : TestOk s l) (h : ConsumerStep s l s') : ManagerInv s' := by
  unfold ConsumerStep at h
  cases l with
  | spawn i =>
    rw [managerStep] at h
    split at h
    · cases h
      exact hs.update (consumerInv_new _ (.inr rfl))
    · cases h
  | setRunning i =>
    rw [managerStep] at h
    split at h
    · cases h
      exact hs.update (c := { s.consumers i with started := true }) { hs i with }
    · cases h
  | clearRunning =>
    cases h
    exact fun j => { hs j with test := fun _ => rfl }
  | test i =>
    rw [managerStep] at h
    split at h
    · rename_i hp
      cases h
      exact hs.update ((hs i).test_step hp hok)
    · cases h
  | reply i r =>
    rw [managerStep] at h
    split at h
    · rename_i hp
      cases h
      exact hs.update ((hs i).receive hp r)
    · cases h

theorem testOk_of_ok {s s' : ManagerState} {l : ManagerLabel} (h : ConsumerStep s l s')
    (hok : ∀ i, (s'.consumers i).Ok) : TestOk s l := by
  cases l with
  | test i =>
    rw [ConsumerStep, managerStep] at h
    split at h
    · cases h
      have hi := hok i
      simp only [ManagerState.update, Function.update_self] at hi
      cases hrun : s.running with
      | true => exact .inl hrun
      | false => exact .inr (hi.test (by rw [hrun]; rfl))
    · cases h
  | spawn | setRunning | clearRunning | reply => trivial

/-- **The consumer.** In every run: loops have exited only after `stop` or after eleven bad replies in a
row, and the well-formed replies have been dispatched once and in order, exactly if each loop test
happens when `m_running` is set or after a `stop` since the thread was created. -/
theorem consumer_exits_only {r : List (ManagerLabel × ManagerState)} (hr : Run ConsumerStep .initial r) :
    Reached (fun s => ∀ i, (s.consumers i).Ok) r ↔ Meets TestOk .initial r :=
  Run.reached_iff (I := ManagerInv)
    (fun _ _ _ hs h => ⟨testOk_of_ok h, fun hok i => (hs.step hok h i).toOk⟩)
    (fun _ _ _ hs hok h => hs.step hok h) hr (fun _ => consumerInv_new _ (.inl rfl))

/-- A command is dispatched, then `stop` ends the loop. -/
def startAndStop : Option (List (ManagerLabel × ManagerState)) :=
  trace? managerStep .initial [.spawn 0, .setRunning 0, .test 0,
    .reply 0 (some (.array [.str (str "ota:device:message"), .str (str "command")])), .clearRunning,
    .test 0]

theorem startAndStop_isSome : startAndStop.isSome = true := by decide

theorem consumer_exits_only_startAndStop :
    Reached (fun s => ∀ i, (s.consumers i).Ok) (startAndStop.get startAndStop_isSome) :=
  (consumer_exits_only (run_trace? (Option.some_get startAndStop_isSome).symm)).mpr
    ⟨trivial, trivial, .inl (by decide), trivial, trivial, .inr (by decide), trivial⟩

/-- The new thread tests `m_running` before `start` sets it. -/
def earlyTest : Option (List (ManagerLabel × ManagerState)) :=
  trace? managerStep .initial [.spawn 0, .test 0, .setRunning 0]

theorem earlyTest_isSome : earlyTest.isSome = true := by decide

/-- The loop of a new thread can exit with no `stop` and no reply. -/
theorem consumer_exits_early : ¬ ∀ r : List (ManagerLabel × ManagerState), Run ConsumerStep .initial r →
      Reached (fun s => ∀ i, (s.consumers i).Ok) r := by
  intro h
  obtain ⟨-, hexit, -⟩ := h (earlyTest.get earlyTest_isSome)
    (run_trace? (Option.some_get earlyTest_isSome).symm)
  exact absurd ((hexit 0).test (by decide)) (by decide)

end Sherry
