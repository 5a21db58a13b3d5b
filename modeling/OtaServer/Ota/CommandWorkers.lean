import OtaServer.Lib.Run
import OtaServer.Ota.CommandDispatcher
import OtaServer.Ota.Device

/-!
# The command workers (`sherry/ota_mqtt_manager.cc`)

The consumer thread pops commands and schedules each as a task of the `IOManager` `ota_cmd_worker`. Its two threads
take tasks from the front of the list and run the handlers. Handlers of one device share the device's notifier and its
records, under a read lock only, so their operations interleave (`WorkerStep`).

`workers_sameNotifications`: when every two conflicting operations of different commands run in the order of the
queue, the end of the run is the end of the commands one after the other. Two operations conflict if they are commands
on one key, not both reading, or operations on `m_notifier`, not both testing it (`DeviceOp.conflicts`).
-/

namespace Sherry

open Lib Prog

/-! ## Conflicts -/

/-- Operations whose order matters. -/
def DeviceOp.conflicts : DeviceOp → DeviceOp → Bool
  | .redis r, .redis r' => r.conflicts r'
  | .redis _, _ => false
  | _, .redis _ => false
  | .hasNotifier, .hasNotifier => false
  | _, _ => true

section

variable [Redis] {m : RedisManager}

/-- An operation on `m_notifier` does not touch the server. -/
theorem World.handle_withServer {o : DeviceOp} (h : ∀ r, o ≠ .redis r) (w : World) (s : Server) :
    World.handle m o (w.withServer s) = ((World.handle m o w).1, (World.handle m o w).2.withServer s) ∧
      (World.handle m o w).2.server = w.server := by
  cases o with
  | redis r => exact absurd rfl (h r)
  | hasNotifier | newNotifier | reset | setMessage => exact ⟨rfl, rfl⟩
  | start | stop =>
    obtain ⟨server, notifier, timers, fresh⟩ := w
    cases notifier <;> exact ⟨rfl, rfl⟩

theorem World.commutes_redis (r : RedisOp) {o : DeviceOp} (h : ∀ r, o ≠ .redis r) :
    Commutes (World.handle m) (.redis r) o := by
  refine ⟨fun w => ?_, fun w => ?_, fun w => ?_⟩
  · show (m.handle r (World.handle m o w).2.server).1 = (m.handle r w.server).1
    rw [(World.handle_withServer h w w.server).2]
  · show (World.handle m o (w.withServer _)).1 = _
    rw [(World.handle_withServer h w _).1]
  · show (World.handle m o (w.withServer _)).2 = (World.handle m o w).2.withServer _
    rw [(World.handle_withServer h w _).1, (World.handle_withServer h w w.server).2]

/-- Operations that do not conflict commute. -/
theorem World.commutes {a b : DeviceOp} (h : a.conflicts b = false) : Commutes (World.handle m) a b := by
  by_cases ha : ∃ r, a = .redis r
  · obtain ⟨r, rfl⟩ := ha
    by_cases hb : ∃ r', b = .redis r'
    · obtain ⟨r', rfl⟩ := hb
      have hc : Commutes m.handle r r' := m.commutes h
      refine ⟨fun w => hc.left w.server, fun w => hc.right w.server, fun w => ?_⟩
      exact congrArg w.withServer (hc.state w.server)
    · exact World.commutes_redis r fun r' hr' => hb ⟨r', hr'⟩
  · by_cases hb : ∃ r', b = .redis r'
    · obtain ⟨r', rfl⟩ := hb
      exact (World.commutes_redis r' fun r hr => ha ⟨r, hr⟩).symm
    · cases a with
      | redis r => exact absurd ⟨r, rfl⟩ ha
      | hasNotifier =>
        cases b with
        | redis r => exact absurd ⟨r, rfl⟩ hb
        | hasNotifier => exact ⟨fun _ => rfl, fun _ => rfl, fun _ => rfl⟩
        | newNotifier | reset | setMessage | start | stop => cases h
      | newNotifier | reset | setMessage | start | stop =>
        cases b with
        | redis r => exact absurd ⟨r, rfl⟩ hb
        | hasNotifier | newNotifier | reset | setMessage | start | stop => cases h

/-! ## The workers -/

/-- The device type of a call. -/
def ManagerCall.deviceType : ManagerCall → UInt16
  | otaNotify d _ _ | otaStopNotify d _ _ => d

/-- A well-formed command for the device type `d`: a message of the queue whose dispatch calls the manager for this
type. `time` is the clock reading of its message, if it makes one. -/
structure DeviceCommand (n : Nlohmann) (d : UInt16) where
  message : Bytes
  call : ManagerCall
  time : Bytes
  dispatched : dispatch n message = .call call
  ofType : call.deviceType = d

/-- The handler of a command: `OTAMqttManager::ota_notify` or `ota_stop_notify`, which find the device and call it. -/
def DeviceCommand.prog {n : Nlohmann} {d : UInt16} (pool : Bytes) (c : DeviceCommand n d) : DeviceProg Unit :=
  match c.call with
  | .otaNotify d name version => do let _ ← otaNotify d name version c.time pool
  | .otaStopNotify d name _ => do let _ ← otaStopNotify d name pool

/-- The state of the consumer and of the workers. Commands are numbered in the order of the queue. -/
structure WorkerState where
  /-- The commands that the consumer has not popped yet. -/
  queue : List Nat
  /-- The scheduled tasks (`m_fibers`). -/
  fibers : List Nat
  /-- The command that a worker runs. -/
  running : Fin 2 → Option Nat
  /-- What is left of each handler, and the device with its Redis server. -/
  procs : Procs DeviceOp DeviceOp.Ret World
  /-- The operations so far, each with its command. -/
  done : List (Nat × DeviceOp)

/-- What happens next: the consumer pops a command and schedules it, or a worker takes a task, does the next operation
of its handler, or finishes it. -/
inductive WorkerLabel where
  | pop
  | take (w : Fin 2)
  | op (w : Fin 2)
  | finish (w : Fin 2)

/-- One step, if it is possible. -/
def workerStep (m : RedisManager) (s : WorkerState) : WorkerLabel → Option WorkerState
  | .pop =>
    match s.queue with
    | [] => none
    | j :: q => some { s with queue := q, fibers := s.fibers ++ [j] }
  | .take w =>
    match s.running w, s.fibers with
    | none, j :: fs => some { s with fibers := fs, running := Function.update s.running w (some j) }
    | _, _ => none
  | .op w =>
    match s.running w with
    | none => none
    | some j =>
      match s.procs.progs j with
      | .ret () => none
      | .op i k => some { s with
          procs := s.procs.set j (k (World.handle m i s.procs.shared).1)
            (World.handle m i s.procs.shared).2
          done := s.done ++ [(j, i)] }
  | .finish w =>
    match s.running w with
    | none => none
    | some j =>
      match s.procs.progs j with
      | .ret () => some { s with running := Function.update s.running w none }
      | .op _ _ => none

/-- One step. -/
def WorkerStep (m : RedisManager) (s : WorkerState) (l : WorkerLabel) (s' : WorkerState) : Prop :=
  workerStep m s l = some s'

/-- The commands in the queue, none of them popped, and a device. -/
def WorkerState.initial {n : Nlohmann} {d : UInt16} (pool : Bytes) (cs : List (DeviceCommand n d))
    (w : World) : WorkerState where
  queue := List.range cs.length
  fibers := []
  running _ := none
  procs := { progs := fun j => (cs[j]?.map (·.prog pool)).getD (.ret ()), shared := w }
  done := []

/-- All handlers have finished. -/
structure WorkerState.Finished (s : WorkerState) : Prop where
  queue : s.queue = []
  fibers : s.fibers = []
  running : ∀ w, s.running w = none

/-- Conflicting operations of different commands ran in the order of the queue. -/
def ConflictsInOrder (t : List (Nat × DeviceOp)) : Prop :=
  t.Pairwise fun a b => b.1 < a.1 → a.2.conflicts b.2 = false

variable {s s' : WorkerState} {l : WorkerLabel}

/-- What a step does: it moves a command on its way to a worker, or it retires a handler that has returned, or it does
the next operation of the handler of a worker. -/
theorem workerStep_cases (h : WorkerStep m s l s') : (s'.procs = s.procs ∧ s'.done = s.done ∧
      ∀ j, (j ∈ s.queue ∨ j ∈ s.fibers ∨ ∃ w, s.running w = some j) →
        (j ∈ s'.queue ∨ j ∈ s'.fibers ∨ ∃ w, s'.running w = some j) ∨ s.procs.progs j = .ret ()) ∨
    (∃ w j i k, s.running w = some j ∧ s.procs.progs j = .op i k ∧
      s'.procs = s.procs.set j (k (World.handle m i s.procs.shared).1) (World.handle m i s.procs.shared).2 ∧
      s'.done = s.done ++ [(j, i)] ∧ s'.queue = s.queue ∧ s'.fibers = s.fibers ∧ s'.running = s.running) := by
  unfold WorkerStep at h
  cases l with
  | pop =>
    rw [workerStep] at h
    split at h
    · cases h
    -- the command goes from the queue to the fibers
    rename_i j q hq
    cases h
    refine .inl ⟨rfl, rfl, fun j' hj' => .inl ?_⟩
    rw [hq] at hj'
    simp only [List.mem_cons, List.mem_append, List.not_mem_nil, or_false] at hj' ⊢
    tauto
  | take w =>
    rw [workerStep] at h
    split at h
    -- the first fiber goes to worker `w`, which was free
    · rename_i j fs hw hf
      cases h
      refine .inl ⟨rfl, rfl, fun j' hj' => .inl ?_⟩
      rw [hf] at hj'
      rcases hj' with hj' | hj' | ⟨w', hw'⟩
      · exact .inl hj'
      · rcases List.mem_cons.mp hj' with rfl | hj'
        · exact .inr (.inr ⟨w, Function.update_self _ _ _⟩)
        · exact .inr (.inl hj')
      · refine .inr (.inr ⟨w', ?_⟩)
        have hne : w' ≠ w := by
          rintro rfl
          rw [hw] at hw'
          cases hw'
        rw [← hw']
        exact Function.update_of_ne hne _ _
    · cases h
  | op w =>
    rw [workerStep] at h
    split at h
    · cases h
    rename_i j hw
    split at h
    · cases h
    rename_i i k hp
    cases h
    -- the next operation of the handler
    exact .inr ⟨w, j, i, k, hw, hp, rfl, rfl, rfl, rfl, rfl⟩
  | finish w =>
    rw [workerStep] at h
    split at h
    · cases h
    rename_i j hw
    split at h
    -- the handler has returned
    · rename_i hp
      cases h
      refine .inl ⟨rfl, rfl, fun j' hj' => ?_⟩
      rcases hj' with hj' | hj' | ⟨w', hw'⟩
      · exact .inl (.inl hj')
      · exact .inl (.inr (.inl hj'))
      · by_cases hne : w' = w
        · subst hne
          rw [hw] at hw'
          cases hw'
          exact .inr hp
        · refine .inl (.inr (.inr ⟨w', ?_⟩))
          rw [← hw']
          exact Function.update_of_ne hne _ _
    · cases h

/-- Every command is on its way, is run by a worker, or has returned. -/
def Accounted (s : WorkerState) : Prop :=
  ∀ j, (j ∈ s.queue ∨ j ∈ s.fibers ∨ ∃ w, s.running w = some j) ∨ s.procs.progs j = .ret ()

theorem Accounted.step (hs : Accounted s) (h : WorkerStep m s l s') : Accounted s' := by
  intro j
  obtain ⟨hp, -, hmove⟩ | ⟨w, j', i, k, hw, -, hp, -, hq, hf, hr⟩ := workerStep_cases h
  · rw [hp]
    rcases hs j with hj | hj
    · exact hmove j hj
    · exact .inr hj
  · rw [hp, hq, hf, hr]
    rcases hs j with hj | hj
    · exact .inl hj
    · by_cases hne : j = j'
      · exact .inl (.inr (.inr ⟨w, hne ▸ hw⟩))
      · refine .inr ?_
        rw [Procs.set_progs_ne _ _ _ hne]
        exact hj

theorem interleaving_step {P : Procs DeviceOp DeviceOp.Ret World}
    (hs : Interleaving (World.handle m) P s.done s.procs) (h : WorkerStep m s l s') :
    Interleaving (World.handle m) P s'.done s'.procs := by
  obtain ⟨hp, hd, -⟩ | ⟨-, j, i, k, -, hj, hp, hd, -⟩ := workerStep_cases h
  · rw [hp, hd]
    exact hs
  · rw [hp, hd]
    exact hs.snoc hj

omit [Redis] in
theorem WorkerState.Finished.returned (hf : s.Finished) (hs : Accounted s) (j : Nat) : s.procs.progs j = .ret () := by
  rcases hs j with hj | hj
  · rw [hf.queue, hf.fibers] at hj
    simp [hf.running] at hj
  · exact hj

/-! ## Interleaved and in order -/

section

variable {n : Nlohmann} {d : UInt16} {pool : Bytes} {cs : List (DeviceCommand n d)} {w : World}

theorem initial_progs_eq : (List.range cs.length).map (WorkerState.initial pool cs w).procs.progs =
    cs.map (·.prog pool) := by
  refine List.ext_getElem (by simp) fun j h₁ h₂ => ?_
  have hj : j < cs.length := by simpa using h₁
  simp [WorkerState.initial, hj]

theorem initial_accounted : Accounted (WorkerState.initial pool cs w) := by
  intro j
  by_cases hj : j < cs.length
  · exact .inl (.inl (List.mem_range.mpr hj))
  · exact .inr (by simp [WorkerState.initial, Nat.le_of_not_lt hj])

/-- The device and the server at the end are those of the commands one after the other. -/
theorem workers_eq_runSeq {r : List (WorkerLabel × WorkerState)} (hr : Run (WorkerStep m) (.initial pool cs w) r)
    (hfin : (lastState (.initial pool cs w) r).Finished)
    (hord : ConflictsInOrder (lastState (.initial pool cs w) r).done) :
    (lastState (.initial pool cs w) r).procs.shared = runSeq (World.handle m) (cs.map (·.prog pool)) w := by
  have hacc := hr.inv_last (fun _ _ _ hs h => hs.step h) initial_accounted
  have hint := hr.inv_last (I := fun s =>
      Interleaving (World.handle m) (WorkerState.initial pool cs w).procs s.done s.procs)
    (fun _ _ _ hs h => interleaving_step hs h) (.nil _)
  have hcomm : InOrder (World.handle m) (lastState (.initial pool cs w) r).done :=
    hord.imp fun h hlt => World.commutes (h hlt)
  have hrest : ∀ j, cs.length ≤ j → (WorkerState.initial pool cs w).procs.progs j = .ret () := by
    intro j hj
    simp [WorkerState.initial, hj]
  rw [hint.shared_eq_runSeq cs.length hrest hcomm (hfin.returned hacc), initial_progs_eq]
  rfl

/-- The version records, and the live timers with what they publish, are the same. -/
structure SameNotifications (d : UInt16) (w w' : World) : Prop where
  records : ∀ name, w.server (notifyKey d name) = w'.server (notifyKey d name)
  timers : w.timers.map (fun t => (t.ms, t.recurring, w.published t)) =
    w'.timers.map fun t => (t.ms, t.recurring, w'.published t)

/-- **Queue order.** Whatever the workers interleave: if conflicting operations of different
commands ran in the order of the queue, then the records and the timers, once all handlers have
finished, are those of the commands one after the other. -/
theorem workers_sameNotifications {r : List (WorkerLabel × WorkerState)}
    (hr : Run (WorkerStep m) (.initial pool cs w) r) (hfin : (lastState (.initial pool cs w) r).Finished)
    (hord : ConflictsInOrder (lastState (.initial pool cs w) r).done) :
    SameNotifications d (lastState (.initial pool cs w) r).procs.shared
      (runSeq (World.handle m) (cs.map (·.prog pool)) w) := by
  rw [workers_eq_runSeq hr hfin hord]
  exact ⟨fun _ => rfl, rfl⟩

end

end

/-- The message that notifies a version of the module `a`. -/
def versionText (version : Bytes) : Bytes := commandText (str "notify") 1 (str "a") version

/-- The library on the messages for the versions 1 and 2. -/
def versionTexts : Nlohmann := .ofTexts ([str "1", str "2"].map fun version =>
  (versionText version, commandBody (str "notify") 1 (str "a") version))

/-- The command for one of these versions. -/
def versionCommand (version : Bytes) (h : dispatch versionTexts (versionText version) =
    .call (.otaNotify 1 (str "a") version)) : DeviceCommand versionTexts 1 where
  message := versionText version
  call := .otaNotify 1 (str "a") version
  time := str "09:00"
  dispatched := h
  ofType := rfl

/-- The commands for the versions 1 and 2, in this order. -/
def versionCommands : List (DeviceCommand versionTexts 1) :=
  [versionCommand (str "1") (by decide), versionCommand (str "2") (by decide)]

/-- The commands for the versions 1 and 2, on a new device. -/
def twoVersions : WorkerState :=
  .initial (str "pool") versionCommands { server := fun _ => none }

/-- Both workers have a task. The second starts when the first has written its record, and goes on when the first has
finished. -/
def overlapping : Option (List (WorkerLabel × WorkerState)) :=
  trace? (workerStep .reliable) twoVersions
    ([.pop, .pop, .take 0, .take 1] ++ List.replicate 4 (.op 0) ++ [.op 1, .op 0, .op 0, .finish 0] ++
      List.replicate 7 (.op 1) ++ [.finish 1])

theorem overlapping_isSome : overlapping.isSome = true := by decide +kernel

theorem workers_sameNotifications_overlapping :
    SameNotifications 1 (lastState twoVersions (overlapping.get overlapping_isSome)).procs.shared
      (runSeq (World.handle .reliable) (versionCommands.map (·.prog (str "pool")))
        { server := fun _ => none }) :=
  workers_sameNotifications (run_trace? (Option.some_get overlapping_isSome).symm)
    ⟨by decide +kernel, by decide +kernel, by decide +kernel⟩
    (show List.Pairwise _ _ by decide +kernel)

/-- Both workers have a task, and the one with the later command is faster. -/
def overtaking : Option (List (WorkerLabel × WorkerState)) :=
  trace? (workerStep .reliable) twoVersions
    ([.pop, .pop, .take 0, .take 1] ++ List.replicate 6 (.op 1) ++ [.finish 1] ++
      List.replicate 8 (.op 0) ++ [.finish 0])

theorem overtaking_isSome : overtaking.isSome = true := by decide +kernel

/-- The record says version 1 at the end, and version 2 when the commands run in order. -/
theorem workers_overtaking_differs :
    ¬ ∀ (m : RedisManager) (n : Nlohmann) (d : UInt16) (pool : Bytes) (cs : List (DeviceCommand n d))
      (w : World) (r : List (WorkerLabel × WorkerState)),
      Run (WorkerStep m) (.initial pool cs w) r → (lastState (.initial pool cs w) r).Finished →
      SameNotifications d (lastState (.initial pool cs w) r).procs.shared
        (runSeq (World.handle m) (cs.map (·.prog pool)) w) := by
  intro h
  have h := h .reliable versionTexts 1 (str "pool") versionCommands { server := fun _ => none }
    (overtaking.get overtaking_isSome)
    (run_trace? (Option.some_get overtaking_isSome).symm)
    ⟨by decide +kernel, by decide +kernel, by decide +kernel⟩
  exact absurd (h.records (str "a")) (by decide +kernel)

end Sherry
