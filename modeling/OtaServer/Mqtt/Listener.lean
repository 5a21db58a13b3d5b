import OtaServer.Lib.Bytes
import OtaServer.Lib.Run

/-!
# The listener of an MQTT client (`sherry/mqtt_listener.h`, `sherry/mqtt_client.cc`)

`MqttClient::subscribe` and `publish` start an operation of the library and give its token a listener that is to call
the callback of the caller. All operations of a client share one listener, `m_listener`, and each call puts its topic
and its callback into it.

* `MqttOperations`: the operations of a client, its listener, the results that have come and the callbacks that were
  invoked. A callback has the number of its operation.
* `MqttOperations.Right`: for each result, the operation's own callback was invoked once, with its topic and the
  result.
* `callbacks_iff`: this holds exactly if every operation has its result before the next one is started.
-/

namespace Sherry

open Lib

/-- An operation: its topic, and whether the caller has passed a callback. -/
structure MqttOperation where
  topic : Bytes
  callback : Bool

/-- A call of a callback. -/
structure Invocation where
  callback : Nat
  topic : Bytes
  code : Int
  deriving DecidableEq

/-- `MqttActionListener`. The callback is that of an operation. -/
structure MqttActionListener where
  topic : Bytes := []
  callback : Option Nat := none

namespace MqttActionListener

/-- What both `on_success` and `on_failure` do, with their codes. -/
def invoke (l : MqttActionListener) (code : Int) : List Invocation :=
  l.callback.toList.map fun c => ⟨c, l.topic, code⟩

theorem invoke_of_some {l : MqttActionListener} {c : Nat} (h : l.callback = some c) (code : Int) :
    l.invoke code = [⟨c, l.topic, code⟩] := by
  rw [invoke, h]
  rfl

/-- `on_success`. -/
def onSuccess (l : MqttActionListener) : List Invocation := l.invoke 0

/-- `on_failure`. -/
def onFailure (l : MqttActionListener) : List Invocation := l.invoke (-1)

end MqttActionListener

/-- The operations of a client, in the order of their calls. -/
structure MqttOperations where
  ops : List MqttOperation := []
  listener : MqttActionListener := {}
  results : List (Nat × Bool) := []
  invoked : List Invocation := []

/-- A call of the program, with whether the library accepts it, or the result of an operation. -/
inductive MqttEvent where
  | subscribe (topic : Bytes) (callback : Bool) (accepted : Bool)
  | publish (topic : Bytes) (callback : Bool) (accepted : Bool)
  | complete (op : Nat) (ok : Bool)

/-- The code that a callback gets. -/
def resultCode (ok : Bool) : Int := if ok then 0 else -1

namespace MqttOperations

/-- The `try` block of `subscribe` and of `publish`: the operation is started, and if there is a callback, the
listener is set (`set_topic_cb`) and given to the token (`set_action_callback`). -/
def start (s : MqttOperations) (topic : Bytes) (callback : Bool) : MqttOperations :=
  { s with
    ops := s.ops ++ [⟨topic, callback⟩]
    listener := if callback then ⟨topic, some s.ops.length⟩ else s.listener }

/-- The `catch` block of `publish`: the callback is called at once. -/
def refuse (s : MqttOperations) (topic : Bytes) (callback : Bool) : MqttOperations :=
  { s with
    ops := s.ops ++ [⟨topic, callback⟩]
    results := s.results ++ [(s.ops.length, false)]
    invoked := s.invoked ++ if callback then [⟨s.ops.length, topic, -1⟩] else [] }

/-- `MqttClient::subscribe`. A call that the library does not accept only writes to the log. -/
def subscribe (s : MqttOperations) (topic : Bytes) (callback accepted : Bool) : MqttOperations :=
  if accepted then s.start topic callback else s

/-- `MqttClient::publish`. -/
def publish (s : MqttOperations) (topic : Bytes) (callback accepted : Bool) : MqttOperations :=
  if accepted then s.start topic callback else s.refuse topic callback

/-- The result of an operation that is under way: the library calls the listener of its token, if it has one. -/
def complete? (s : MqttOperations) (op : Nat) (ok : Bool) : Option MqttOperations :=
  match s.ops[op]? with
  | none => none
  | some o =>
    if op ∈ s.results.map (·.1) then none
    else
      some { s with
        results := s.results ++ [(op, ok)]
        invoked := s.invoked ++
          if o.callback then (if ok then s.listener.onSuccess else s.listener.onFailure) else [] }

/-- An event, where it can happen. -/
def step? (s : MqttOperations) : MqttEvent → Option MqttOperations
  | .subscribe topic callback accepted => some (s.subscribe topic callback accepted)
  | .publish topic callback accepted => some (s.publish topic callback accepted)
  | .complete op ok => s.complete? op ok

/-- For the result of each operation with a callback, if it has come, this callback was invoked, once, with the
operation's topic and the result; and it was not invoked otherwise. -/
def Right (s : MqttOperations) : Prop :=
  ∀ i o, s.ops[i]? = some o → o.callback = true →
    s.invoked.filter (·.callback == i) =
      (s.results.filter (·.1 == i)).map fun x => ⟨i, o.topic, resultCode x.2⟩

/-- An operation that has its result is the last one with a callback that was started. -/
def Alone (s : MqttOperations) : MqttEvent → Prop
  | .complete op _ => ∀ o, s.ops[op]? = some o → o.callback = true → s.listener.callback = some op
  | _ => True

instance (s : MqttOperations) : (e : MqttEvent) → Decidable (s.Alone e)
  | .subscribe .. => instDecidableTrue
  | .publish .. => instDecidableTrue
  | .complete op _ =>
    inferInstanceAs (Decidable (∀ o ∈ s.ops[op]?, o.callback = true → s.listener.callback = some op))

/-- What holds as long as the results come one by one. -/
structure Inv (s : MqttOperations) : Prop where
  right : s.Right
  listener : ∀ c, s.listener.callback = some c →
    ∃ o, s.ops[c]? = some o ∧ o.callback = true ∧ o.topic = s.listener.topic
  invoked : ∀ v ∈ s.invoked, v.callback < s.ops.length
  results : ∀ x ∈ s.results, x.1 < s.ops.length

/-- An operation has its result, and its callback is lost. -/
def Lost (s : MqttOperations) : Prop :=
  ∃ i o, s.ops[i]? = some o ∧ o.callback = true ∧ (∃ ok, (i, ok) ∈ s.results) ∧
    (∀ v ∈ s.invoked, v.callback ≠ i) ∧ s.listener.callback ≠ some i

variable {s s' : MqttOperations}

theorem invoke_resultCode (l : MqttActionListener) (ok : Bool) :
    (if ok then l.onSuccess else l.onFailure) = l.invoke (resultCode ok) := by
  cases ok <;> rfl

variable {o : MqttOperation} {i op : Nat} {ok : Bool} {e : MqttEvent}

/-- An event starts an operation, or refuses it, or brings its result. -/
theorem step?_cases (h : s.step? e = some s') :
    s' = s ∨ (∃ topic callback, s' = s.start topic callback) ∨ (∃ topic callback, s' = s.refuse topic callback) ∨
      ∃ op ok, e = .complete op ok ∧ s.complete? op ok = some s' := by
  cases e with
  | subscribe topic callback accepted =>
    cases h
    cases accepted with
    | false => exact .inl rfl
    | true => exact .inr (.inl ⟨topic, callback, rfl⟩)
  | publish topic callback accepted =>
    cases h
    cases accepted with
    | false => exact .inr (.inr (.inl ⟨topic, callback, rfl⟩))
    | true => exact .inr (.inl ⟨topic, callback, rfl⟩)
  | complete op ok => exact .inr (.inr (.inr ⟨op, ok, rfl, h⟩))

theorem complete?_eq_some (h : s.complete? op ok = some s') : ∃ o, s.ops[op]? = some o ∧ op ∉ s.results.map (·.1) ∧
      s' = { s with
        results := s.results ++ [(op, ok)]
        invoked := s.invoked ++ if o.callback then s.listener.invoke (resultCode ok) else [] } := by
  unfold complete? at h
  split at h
  · exact absurd h (Option.some_ne_none s').symm
  · rename_i o ho
    obtain ⟨hnew, hs⟩ := Option.ite_none_left_eq_some.mp h
    rw [invoke_resultCode, Option.some.injEq] at hs
    exact ⟨o, ho, hnew, hs.symm⟩

theorem lt_of_getElem? (h : s.ops[i]? = some o) : i < s.ops.length :=
  (List.getElem?_eq_some_iff.mp h).1

/-- An operation behind the call of another is that one or an earlier one. -/
theorem getElem?_snoc {topic : Bytes} {callback : Bool} (h : (s.ops ++ [⟨topic, callback⟩])[i]? = some o) :
    s.ops[i]? = some o ∨ i = s.ops.length ∧ o = ⟨topic, callback⟩ := by
  rcases Nat.lt_trichotomy i s.ops.length with hi | hi | hi
  · rw [List.getElem?_append_left hi] at h
    exact .inl h
  · subst hi
    rw [List.getElem?_concat_length, Option.some.injEq] at h
    exact .inr ⟨rfl, h.symm⟩
  · rw [List.getElem?_eq_none (by simpa [Nat.succ_le_iff] using hi)] at h
    exact absurd h (Option.some_ne_none o).symm

theorem getElem?_snoc_of_some {op : MqttOperation} (h : s.ops[i]? = some o) : (s.ops ++ [op])[i]? = some o := by
  rw [List.getElem?_append_left (lt_of_getElem? h)]
  exact h

/-! ## Results that come one by one -/

theorem inv_empty : Inv {} where
  right _ o h := absurd h (Option.some_ne_none o).symm
  listener c h := absurd h (Option.some_ne_none c).symm
  invoked _ h := absurd h List.not_mem_nil
  results _ h := absurd h List.not_mem_nil

theorem Inv.fresh (h : Inv s) :
    s.invoked.filter (·.callback == s.ops.length) = [] ∧ s.results.filter (·.1 == s.ops.length) = [] := by
  constructor
  · refine List.filter_eq_nil_iff.mpr fun v hv hc => ?_
    have := h.invoked v hv
    rw [beq_iff_eq] at hc
    omega
  · refine List.filter_eq_nil_iff.mpr fun x hx hc => ?_
    have := h.results x hx
    rw [beq_iff_eq] at hc
    omega

theorem Inv.start (h : Inv s) (topic : Bytes) (callback : Bool) : Inv (s.start topic callback) where
  right i o ho hcb := by
    rcases getElem?_snoc ho with ho | ⟨rfl, rfl⟩
    · exact h.right i o ho hcb
    · simp only [MqttOperations.start, h.fresh, List.map_nil]
  listener c hc := by
    cases callback with
    | false =>
      obtain ⟨o, ho, hcb, ht⟩ := h.listener c hc
      exact ⟨o, getElem?_snoc_of_some ho, hcb, ht⟩
    | true =>
      cases hc
      exact ⟨⟨topic, true⟩, List.getElem?_concat_length, rfl, rfl⟩
  invoked v hv := by
    have := h.invoked v hv
    simp only [MqttOperations.start, List.length_append, List.length_singleton]
    omega
  results x hx := by
    have := h.results x hx
    simp only [MqttOperations.start, List.length_append, List.length_singleton]
    omega

theorem Inv.refuse (h : Inv s) (topic : Bytes) (callback : Bool) : Inv (s.refuse topic callback) where
  right i o ho hcb := by
    rcases getElem?_snoc ho with ho | ⟨rfl, rfl⟩
    · have hi := lt_of_getElem? ho
      have hne : (s.ops.length == i) = false := beq_eq_false_iff_ne.mpr (by omega)
      have hr := h.right i o ho hcb
      cases callback <;> simp [MqttOperations.refuse, hne, hr]
    · cases hcb
      simp [MqttOperations.refuse, h.fresh, resultCode]
  listener c hc := by
    obtain ⟨o, ho, hcb, ht⟩ := h.listener c hc
    exact ⟨o, getElem?_snoc_of_some ho, hcb, ht⟩
  invoked v hv := by
    simp only [MqttOperations.refuse, List.length_append, List.length_singleton]
    rcases List.mem_append.mp hv with hv | hv
    · have := h.invoked v hv
      omega
    · cases callback with
      | false => exact absurd hv List.not_mem_nil
      | true =>
        rw [List.mem_singleton.mp hv]
        exact Nat.lt_succ_self _
  results x hx := by
    simp only [MqttOperations.refuse, List.length_append, List.length_singleton]
    rcases List.mem_append.mp hx with hx | hx
    · have := h.results x hx
      omega
    · rw [List.mem_singleton.mp hx]
      exact Nat.lt_succ_self _

/-- The listener belongs to the operation, so its own callback gets its own topic. -/
theorem Inv.invoke_eq (h : Inv s) (ho : s.ops[op]? = some o)
    (hl : s.listener.callback = some op) (code : Int) : s.listener.invoke code = [⟨op, o.topic, code⟩] := by
  obtain ⟨o', ho', -, ht⟩ := h.listener op hl
  rw [ho, Option.some.injEq] at ho'
  rw [MqttActionListener.invoke_of_some hl, ho', ht]

theorem Inv.complete (h : Inv s) (halone : s.Alone (.complete op ok))
    (hs : s.complete? op ok = some s') : Inv s' := by
  obtain ⟨o, ho, -, rfl⟩ := complete?_eq_some hs
  have hinvoke : (if o.callback then s.listener.invoke (resultCode ok) else []) =
      if o.callback then [⟨op, o.topic, resultCode ok⟩] else [] := by
    split
    · rename_i hcb
      exact h.invoke_eq ho (halone o ho hcb) _
    · rfl
  rw [hinvoke]
  refine ⟨fun i p hp hcb => ?_, h.listener, fun v hv => ?_, fun x hx => ?_⟩
  · have hr := h.right i p hp hcb
    by_cases hi : op = i
    · subst hi
      obtain rfl : o = p := Option.some.inj (ho.symm.trans hp)
      simp [hr, hcb]
    · have hne : (op == i) = false := beq_eq_false_iff_ne.mpr hi
      cases o.callback <;> simp [hr, hne]
  · rcases List.mem_append.mp hv with hv | hv
    · exact h.invoked v hv
    · obtain ⟨-, hv⟩ := List.mem_ite_nil_right.mp hv
      rw [List.mem_singleton.mp hv]
      exact lt_of_getElem? ho
  · rcases List.mem_append.mp hx with hx | hx
    · exact h.results x hx
    · rw [List.mem_singleton.mp hx]
      exact lt_of_getElem? ho

theorem Inv.step (h : Inv s) (halone : s.Alone e) (hs : s.step? e = some s') : Inv s' := by
  rcases step?_cases hs with rfl | ⟨topic, callback, rfl⟩ | ⟨topic, callback, rfl⟩ | ⟨op, ok, rfl, hs⟩
  · exact h
  · exact h.start topic callback
  · exact h.refuse topic callback
  · exact h.complete halone hs

/-! ## A callback that is lost -/

/-- The result of an operation that is not the last one goes to another callback. -/
theorem lost_of_not_alone (h : Inv s) (halone : ¬ s.Alone e) (hs : s.step? e = some s') : Lost s' := by
  cases e with
  | subscribe => exact absurd trivial halone
  | publish => exact absurd trivial halone
  | complete op ok =>
    obtain ⟨o, ho, hnew, rfl⟩ := complete?_eq_some hs
    obtain ⟨hcb, hl⟩ : o.callback = true ∧ s.listener.callback ≠ some op := by
      simp only [Alone, not_forall] at halone
      obtain ⟨p, hp, hcb, hl⟩ := halone
      obtain rfl : o = p := Option.some.inj (ho.symm.trans hp)
      exact ⟨hcb, hl⟩
    refine ⟨op, o, ho, hcb, ⟨ok, List.mem_append_right _ (List.mem_singleton_self _)⟩, fun v hv heq => ?_, hl⟩
    rcases List.mem_append.mp hv with hv | hv
    · -- its callback was not invoked before it had a result
      have hmem : v ∈ s.invoked.filter (·.callback == op) := List.mem_filter.mpr ⟨hv, beq_iff_eq.mpr heq⟩
      rw [h.right op o ho hcb] at hmem
      obtain ⟨x, hx, -⟩ := List.mem_map.mp hmem
      obtain ⟨hx, hxop⟩ := List.mem_filter.mp hx
      exact hnew (List.mem_map.mpr ⟨x, hx, beq_iff_eq.mp hxop⟩)
    · rw [if_pos hcb, MqttActionListener.invoke] at hv
      obtain ⟨c, hc, rfl⟩ := List.mem_map.mp hv
      rw [Option.mem_toList] at hc
      exact hl (heq ▸ hc)

theorem Lost.start (h : Lost s) (topic : Bytes) (callback : Bool) : Lost (s.start topic callback) := by
  obtain ⟨i, o, ho, hcb, hr, hv, hl⟩ := h
  refine ⟨i, o, getElem?_snoc_of_some ho, hcb, hr, hv, ?_⟩
  cases callback with
  | false => exact hl
  | true =>
    have := lt_of_getElem? ho
    intro heq
    have := Option.some.inj heq
    omega

theorem Lost.refuse (h : Lost s) (topic : Bytes) (callback : Bool) : Lost (s.refuse topic callback) := by
  obtain ⟨i, o, ho, hcb, ⟨ok, hok⟩, hv, hl⟩ := h
  refine ⟨i, o, getElem?_snoc_of_some ho, hcb, ⟨ok, List.mem_append_left _ hok⟩, fun v hmem => ?_, hl⟩
  rcases List.mem_append.mp hmem with hmem | hmem
  · exact hv v hmem
  · obtain ⟨-, hmem⟩ := List.mem_ite_nil_right.mp hmem
    rw [List.mem_singleton.mp hmem]
    have := lt_of_getElem? ho
    dsimp only
    omega

theorem Lost.complete (h : Lost s) (hs : s.complete? op ok = some s') : Lost s' := by
  obtain ⟨i, o, ho, hcb, ⟨ok', hok⟩, hv, hl⟩ := h
  obtain ⟨p, -, -, rfl⟩ := complete?_eq_some hs
  refine ⟨i, o, ho, hcb, ⟨ok', List.mem_append_left _ hok⟩, fun v hmem => ?_, hl⟩
  rcases List.mem_append.mp hmem with hmem | hmem
  · exact hv v hmem
  · obtain ⟨-, hmem⟩ := List.mem_ite_nil_right.mp hmem
    obtain ⟨c, hc, rfl⟩ := List.mem_map.mp hmem
    rw [Option.mem_toList] at hc
    exact fun heq => hl (heq ▸ hc)

theorem Lost.step (h : Lost s) (hs : s.step? e = some s') : Lost s' := by
  rcases step?_cases hs with rfl | ⟨topic, callback, rfl⟩ | ⟨topic, callback, rfl⟩ | ⟨op, ok, rfl, hs⟩
  · exact h
  · exact h.start topic callback
  · exact h.refuse topic callback
  · exact h.complete hs

theorem Lost.not_right (h : Lost s) : ¬ Right s := by
  obtain ⟨i, o, ho, hcb, ⟨ok, hok⟩, hv, -⟩ := h
  intro hright
  have hnone : s.invoked.filter (·.callback == i) = [] :=
    List.filter_eq_nil_iff.mpr fun v hmem hc => hv v hmem (beq_iff_eq.mp hc)
  have hmem : (i, ok) ∈ s.results.filter (·.1 == i) := List.mem_filter.mpr ⟨hok, beq_self_eq_true i⟩
  have heq := hright i o ho hcb
  rw [hnone] at heq
  rw [List.map_eq_nil_iff.mp heq.symm] at hmem
  exact List.not_mem_nil hmem

end MqttOperations

open MqttOperations

/-- **Callbacks.** For any operations and any order of their results: every result has reached the callback of
its operation, once, with the operation's topic, exactly if no operation had its result after another one with
a callback was started. -/
theorem callbacks_iff {r : List (MqttEvent × MqttOperations)}
    (hr : Run (fun s e s' => step? s e = some s') {} r) : Right (lastState {} r) ↔ Meets Alone {} r :=
  hr.last_iff (I := Inv) (B := Lost) (fun _ _ _ hi hc hs => hi.step hc hs)
    (fun _ _ _ hi hc hs => lost_of_not_alone hi hc hs) (fun _ _ _ hb hs => hb.step hs) (fun _ hi => hi.right)
    (fun _ hb => hb.not_right) inv_empty

/-- A subscription that succeeds, then a message that is not delivered: both callbacks are right. -/
theorem callbacks_one_by_one : ∃ r,
    Run (fun s e s' => step? s e = some s') {} r ∧ (lastState {} r).results = [(0, true), (1, false)] ∧
      Right (lastState {} r) := by
  obtain ⟨r, hr, hresults, halone⟩ := exists_run_of_trace? (f := step?) (s := {})
    [.subscribe (str "a") true true, .complete 0 true, .publish (str "b") true true, .complete 1 false]
    (P := fun r => (lastState {} r).results = [(0, true), (1, false)] ∧ Meets Alone {} r) (by decide +kernel)
  exact ⟨r, hr, hresults, (callbacks_iff hr).mpr halone⟩

/-- Two topics, as in `OTADevice::start`: both results go to the second callback, with the second topic. -/
theorem callbacks_fail : ∃ r,
    Run (fun s e s' => step? s e = some s') {} r ∧ (lastState {} r).results = [(0, true), (1, false)] ∧
      (lastState {} r).invoked = [⟨1, str "b", 0⟩, ⟨1, str "b", -1⟩] ∧ ¬ Right (lastState {} r) := by
  obtain ⟨r, hr, hresults, hinvoked, hop⟩ := exists_run_of_trace? (f := step?) (s := {})
    [.subscribe (str "a") true true, .subscribe (str "b") true true, .complete 0 true, .complete 1 false]
    (P := fun r => (lastState {} r).results = [(0, true), (1, false)] ∧
      (lastState {} r).invoked = [⟨1, str "b", 0⟩, ⟨1, str "b", -1⟩] ∧
      (lastState {} r).ops[0]?.map (·.callback) = some true) (by decide +kernel)
  refine ⟨r, hr, hresults, hinvoked, fun hright => ?_⟩
  obtain ⟨o, ho, hcb⟩ := Option.map_eq_some_iff.mp hop
  have heq := hright 0 o ho hcb
  rw [hresults, hinvoked] at heq
  cases heq

end Sherry
