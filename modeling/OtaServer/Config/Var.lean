import OtaServer.Lib.Bytes
import OtaServer.Lib.Threads

/-!
# A configuration variable (`sherry/config.h`)

`setValue` compares and notifies the listeners under the read lock, and stores under the write lock. Two calls can be
between their phases at a time, and a listener that throws ends a call between them.

* `ConfigVar`: a call at a time.
* `VarSystem`: the calls of any number of threads, in their phases. `performs_setValue`: a call that nothing disturbs
  does what `ConfigVar.setValue` does.
* `VarSystem.Calm`: calls that overlap set one value, and no listener throws. `setValue_agrees`.
-/

namespace Sherry

open Lib

/-- `ConfigVar<T>`. Listeners are given by their keys in `m_cbs`. -/
structure ConfigVar (T V : Type) where
  ty : T
  val : V
  cbs : List Nat := []

namespace ConfigVar

variable {T V : Type} [DecidableEq V]

/-- `setValue`, when `throws` says which listeners throw. -/
def setValue (throws : Nat → V → V → Bool) (x : ConfigVar T V) (v : V) : ConfigVar T V :=
  if v = x.val then x
  else if x.cbs.any (throws · x.val v) then x
  else { x with val := v }

/-- `fromString`: an exception of the conversion or of a listener is caught. -/
def fromString (fromStr : T → Bytes → Option V) (throws : Nat → V → V → Bool) (x : ConfigVar T V) (val : Bytes) :
    ConfigVar T V :=
  match fromStr x.ty val with
  | some v => x.setValue throws v
  | none => x

end ConfigVar

/-! ## The phases -/

/-- Where a call of `setValue` is. -/
inductive SetPc (V : Type) where
  | idle
  /-- Under the read lock, with the listeners that have not been called. -/
  | notifying (v : V) (rest : List Nat)
  /-- Before the write lock. -/
  | storing (v : V)
  deriving DecidableEq

namespace SetPc

variable {V : Type}

/-- The value of the call. -/
def value : SetPc V → Option V
  | .idle => none
  | .notifying v _ | .storing v => some v

/-- The listeners that the call has still to notify. -/
def rest : SetPc V → List Nat
  | .notifying _ rest => rest
  | _ => []

end SetPc

/-- The variable, `s_fun_id`, the number of read locks, and what was last delivered to each listener. -/
structure VarShared (T V : Type) where
  var : ConfigVar T V
  funId : Nat
  readers : Nat := 0
  last : Nat → Option V := fun _ => none

/-- A thread calls `setValue`, or its call goes on; a listener that is called returns or throws. -/
inductive SetChoice (V : Type) where
  | call (v : V)
  | next (throws : Bool)

/-- Other calls take the write lock. Listeners of other variables have keys of the same sequence. -/
inductive VarEvent where
  | addListener (others : Nat)
  | delListener (key : Nat)
  | clearListener

namespace VarShared

variable {T V : Type}

/-- `i.second(m_val, v)`. -/
def deliver (s : VarShared T V) (key : Nat) (v : V) : VarShared T V :=
  { s with last := fun k => if k = key then some v else s.last k }

/-- The value is stored. -/
def setVal (s : VarShared T V) (v : V) : VarShared T V := { s with var := { s.var with val := v } }

/-- `m_cbs` is changed. -/
def setCbs (s : VarShared T V) (cbs : List Nat) : VarShared T V := { s with var := { s.var with cbs } }

/-- A step of `setValue`. -/
def step [DecidableEq V] (s : VarShared T V) : SetPc V → SetChoice V → Option (VarShared T V × SetPc V)
  | .idle, .call v =>
    if v = s.var.val then some (s, .idle)
    else some ({ s with readers := s.readers + 1 }, .notifying v s.var.cbs)
  | .notifying v (key :: rest), .next throws =>
    if throws then some ({ s.deliver key v with readers := s.readers - 1 }, .idle)
    else some (s.deliver key v, .notifying v rest)
  | .notifying v [], .next _ => some ({ s with readers := s.readers - 1 }, .storing v)
  | .storing v, .next _ => if s.readers = 0 then some (s.setVal v, .idle) else none
  | _, _ => none

/-- `addListener`, `delListener`, `clearListener`. -/
def outer (s : VarShared T V) (e : VarEvent) : Option (VarShared T V) :=
  if s.readers = 0 then
    match e with
    | .addListener others =>
      let key := s.funId + others + 1
      some { s.setCbs (s.var.cbs ++ [key]) with funId := key }
    | .delListener key => some (s.setCbs (s.var.cbs.filter (· ≠ key)))
    | .clearListener => some (s.setCbs [])
  else none

/-- The value that was last delivered to each listener is the stored one. -/
def Agrees (s : VarShared T V) : Prop := ∀ key ∈ s.var.cbs, ∀ v, s.last key = some v → v = s.var.val

instance decidableAgrees [DecidableEq V] (s : VarShared T V) : Decidable s.Agrees :=
  inferInstanceAs (Decidable (∀ key ∈ s.var.cbs, ∀ v ∈ s.last key, v = s.var.val))

end VarShared

/-- A variable, and the calls of the threads. -/
abbrev VarSystem (ι T V : Type) := Threads ι (VarShared T V) (SetPc V)

/-- A step of a call, or another call. -/
abbrev VarLabel (ι V : Type) := Threads.Label ι (SetChoice V) VarEvent

namespace VarSystem

variable {ι T V : Type}

/-- No call is in progress. -/
def Quiet (s : VarSystem ι T V) : Prop := ∀ i, s.thread i = .idle

instance decidableQuiet [Fintype ι] [DecidableEq V] (s : VarSystem ι T V) : Decidable s.Quiet :=
  inferInstanceAs (Decidable (∀ i, s.thread i = .idle))

/-- The variable has been made. -/
def new (ty : T) (val : V) (funId : Nat) : VarSystem ι T V := ⟨{ var := { ty, val }, funId }, fun _ => .idle⟩

/-- A call that changes the value begins only when the calls in progress have the same value, and a listener that is
called does not throw. -/
def Calm (s : VarSystem ι T V) : VarLabel ι V → Prop
  | .thread _ (.call v) => v = s.shared.var.val ∨ ∀ j, (s.thread j).value = none ∨ (s.thread j).value = some v
  | .thread i (.next throws) => throws = false ∨ (s.thread i).rest = []
  | .outer _ => True

instance decidableCalm [Fintype ι] [DecidableEq V] (s : VarSystem ι T V) : ∀ l, Decidable (Calm s l)
  | .thread _ (.call v) =>
    inferInstanceAs (Decidable (v = s.shared.var.val ∨ ∀ j, (s.thread j).value = none ∨ (s.thread j).value = some v))
  | .thread i (.next throws) => inferInstanceAs (Decidable (throws = false ∨ (s.thread i).rest = []))
  | .outer _ => isTrue trivial

/-- A call in progress sets `u`. -/
def Sets (u : V) (pc : SetPc V) : Prop := ∀ v, pc.value = some v → v = u

/-- What the listeners have that the call is through with. -/
def Through (s : VarShared T V) (pc : SetPc V) : Prop :=
  ∀ v, pc.value = some v → ∀ key ∈ s.var.cbs, key ∉ pc.rest → ∀ w, s.last key = some w → w = v

/-- The listeners that the call has still to notify have keys up to `n`. -/
def RestLe (n : Nat) (pc : SetPc V) : Prop := ∀ key ∈ pc.rest, key ≤ n

/-- The invariant of calm runs. -/
structure SetInv (s : VarSystem ι T V) : Prop where
  same : ∃ u, ∀ i, Sets u (s.thread i)
  /-- What was delivered has been stored, or is the value of a call in progress. -/
  delivered : ∀ key ∈ s.shared.var.cbs, ∀ v, s.shared.last key = some v →
    v = s.shared.var.val ∨ ∃ i, (s.thread i).value = some v
  through : ∀ i, Through s.shared (s.thread i)
  cbs_le : ∀ key ∈ s.shared.var.cbs, key ≤ s.shared.funId
  rest_le : ∀ i, RestLe s.shared.funId (s.thread i)
  last_le : ∀ key v, s.shared.last key = some v → key ≤ s.shared.funId

theorem SetInv.agrees {s : VarSystem ι T V} (h : SetInv s) (hq : s.Quiet) : s.shared.Agrees := by
  intro key hkey v hv
  obtain hv | ⟨i, hi⟩ := h.delivered key hkey v hv
  · exact hv
  · rw [hq i] at hi
    cases hi

/-- The listeners change: a new one has not been notified. -/
theorem SetInv.setCbs {s : VarSystem ι T V} {cbs : List Nat} {funId : Nat} (h : SetInv s) (hle : s.shared.funId
    ≤ funId)
    (hcbs : ∀ key ∈ cbs, key ≤ funId ∧ (key ∈ s.shared.var.cbs ∨ s.shared.funId < key)) :
    SetInv { s with shared := { s.shared.setCbs cbs with funId } } := by
  have hold {key w} (hkey : key ∈ cbs) (hw : s.shared.last key = some w) : key ∈ s.shared.var.cbs :=
    (hcbs key hkey).2.resolve_right (Nat.not_lt.mpr (h.last_le key w hw))
  exact ⟨h.same, fun key hkey w hw => h.delivered key (hold hkey hw) w hw,
    fun i v hv key hkey hrest w hw => h.through i v hv key (hold hkey hw) hrest w hw, fun key hkey =>
      (hcbs key hkey).1,
    fun i key hkey => (h.rest_le i key hkey).trans hle, fun key w hw => (h.last_le key w hw).trans hle⟩

theorem SetInv.outer {s : VarSystem ι T V} {e : VarEvent} {shared : VarShared T V} (h : SetInv s)
    (he : s.shared.outer e = some shared) : SetInv { s with shared } := by
  unfold VarShared.outer at he
  split at he
  · cases e with
    | addListener others =>
      cases he
      refine h.setCbs (by omega) fun key hkey => ?_
      obtain hkey | hkey := List.mem_append.mp hkey
      · have := h.cbs_le key hkey
        exact ⟨by omega, .inl hkey⟩
      · rw [List.mem_singleton.mp hkey]
        exact ⟨Nat.le_refl _, .inr (by omega)⟩
    | delListener key =>
      cases he
      refine h.setCbs (Nat.le_refl _) fun k hk => ?_
      have hmem := List.mem_of_mem_filter hk
      exact ⟨h.cbs_le k hmem, .inl hmem⟩
    | clearListener =>
      cases he
      exact h.setCbs (Nat.le_refl _) fun k hk => absurd hk List.not_mem_nil
  · cases he

theorem setInv_new (ty : T) (val : V) (funId : Nat) : SetInv (new ty val funId : VarSystem ι T V) :=
  ⟨⟨val, fun _ _ hv => absurd hv.symm (Option.some_ne_none _)⟩, fun _ hkey => absurd hkey List.not_mem_nil,
    fun _ _ hv => absurd hv.symm (Option.some_ne_none _), fun _ hkey => absurd hkey List.not_mem_nil,
    fun _ _ hkey => absurd hkey List.not_mem_nil, fun _ _ hv => absurd hv.symm (Option.some_ne_none _)⟩

variable [DecidableEq ι]

/-- A step of the system. -/
def step? [DecidableEq V] (s : VarSystem ι T V) (l : VarLabel ι V) : Option (VarSystem ι T V) :=
  Threads.step? (fun _ => VarShared.step) VarShared.outer s l

variable {s s' : VarSystem ι T V} {i : ι} {v : V}

theorem SetInv.delivered_set {x : VarShared T V × SetPc V} (h : SetInv s) (hval : x.1.var.val = s.shared.var.val)
    (hpc : ∀ w, (s.thread i).value = some w → x.2.value = some w) {key : Nat} (hkey : key ∈ s.shared.var.cbs) {w : V}
    (hw : s.shared.last key = some w) :
    w = (s.set i x).shared.var.val ∨ ∃ j, ((s.set i x).thread j).value = some w := by
  obtain hw | hw := h.delivered key hkey w hw
  · exact .inl (hw.trans hval.symm)
  · exact .inr (Threads.exists_set (P := fun pc : SetPc V => pc.value = some w) hw (hpc w))

theorem SetInv.call (h : SetInv s) (hpc : s.thread i = .idle) (hcalm : ∀ j, Sets v (s.thread j)) :
    SetInv (s.set i ({ s.shared with readers := s.shared.readers + 1 }, .notifying v s.shared.var.cbs)) := by
  refine ⟨⟨v, Threads.forall_set hcalm fun w hw => (Option.some.inj hw).symm⟩, fun key hkey w hw =>
    h.delivered_set rfl (fun u hu => ?_) hkey hw, Threads.forall_set h.through fun w _ key hkey hrest =>
    absurd hkey hrest, h.cbs_le, Threads.forall_set h.rest_le h.cbs_le, h.last_le⟩
  rw [hpc] at hu
  cases hu

/-- A listener is called, and returns. -/
theorem SetInv.notify {key : Nat} {rest : List Nat} (h : SetInv s) (hpc : s.thread i = .notifying v (key :: rest)) :
    SetInv (s.set i (s.shared.deliver key v, .notifying v rest)) := by
  have hthrough := h.through i
  have hle := h.rest_le i
  rw [hpc] at hthrough hle
  obtain ⟨u, hu⟩ := h.same
  have huv : v = u := hu i v (by rw [hpc]; rfl)
  refine ⟨⟨u, Threads.forall_set hu fun w hw => (Option.some.inj hw).symm.trans huv⟩, fun k hk w hw => ?_,
    Threads.forall_set (fun j w hj k hk hrest x hx => ?_) fun w hw k hk hrest x hx => ?_, h.cbs_le,
    Threads.forall_set h.rest_le fun k hk => hle k (List.mem_cons_of_mem _ hk), fun k w hw => ?_⟩
  · simp only [Threads.set_shared, VarShared.deliver] at hw
    split at hw
    · exact .inr ⟨i, by rw [Threads.set_thread_self]; exact hw⟩
    · exact h.delivered_set rfl (fun w hw => by rw [hpc] at hw; exact hw) hk hw
  · simp only [Threads.set_shared, VarShared.deliver] at hx
    split at hx
    · exact (Option.some.inj hx).symm.trans (huv.trans (hu j w hj).symm)
    · exact h.through j w hj k hk hrest x hx
  · simp only [Threads.set_shared, VarShared.deliver] at hx
    cases hw
    split at hx
    · exact (Option.some.inj hx).symm
    · next hne => exact hthrough v rfl k hk (fun hmem => (List.mem_cons.mp hmem).elim hne hrest) x hx
  · simp only [Threads.set_shared, VarShared.deliver] at hw
    split at hw
    · next heq => exact heq ▸ hle key List.mem_cons_self
    · exact h.last_le k w hw

theorem SetInv.unlock (h : SetInv s) (hpc : s.thread i = .notifying v []) :
    SetInv (s.set i ({ s.shared with readers := s.shared.readers - 1 }, .storing v)) := by
  obtain ⟨u, hu⟩ := h.same
  have hui := hu i
  have hthrough := h.through i
  rw [hpc] at hui hthrough
  refine ⟨⟨u, Threads.forall_set hu hui⟩, fun k hk w hw =>
    h.delivered_set rfl (fun w hw => by rw [hpc] at hw; exact hw) hk hw, Threads.forall_set h.through hthrough,
    h.cbs_le, Threads.forall_set h.rest_le fun k hk => absurd hk List.not_mem_nil, h.last_le⟩

theorem SetInv.store (h : SetInv s) (hpc : s.thread i = .storing v) :
    SetInv (s.set i (s.shared.setVal v, .idle)) := by
  obtain ⟨u, hu⟩ := h.same
  have hthrough := h.through i
  rw [hpc] at hthrough
  exact ⟨⟨u, Threads.forall_set hu fun w hw => absurd hw.symm (Option.some_ne_none w)⟩,
    fun k hk w hw => .inl (hthrough v rfl k hk List.not_mem_nil w hw),
    Threads.forall_set h.through fun w hw => absurd hw.symm (Option.some_ne_none w), h.cbs_le,
    Threads.forall_set h.rest_le fun k hk => absurd hk List.not_mem_nil, h.last_le⟩

theorem SetInv.step [DecidableEq V] {l : VarLabel ι V} (h : SetInv s) (hcalm : Calm s l) (hstep : step? s l = some s')
    :
    SetInv s' := by
  obtain ⟨i, c, x, rfl, hx, rfl⟩ | ⟨e, shared, rfl, he, rfl⟩ := Threads.step?_cases hstep
  · unfold VarShared.step at hx
    split at hx
    · next v hpc =>
      split at hx
      · cases hx
        rw [← hpc, Threads.set_thread]
        exact h
      · next hne =>
        cases hx
        refine h.call hpc fun j w hw => ?_
        obtain hj | hj := hcalm.resolve_left hne j <;> rw [hj] at hw <;> cases hw
        rfl
    · next v key rest throws hpc =>
      split at hx
      · next hthrows =>
        rw [Calm, hpc, hthrows] at hcalm
        obtain hcalm | hcalm := hcalm <;> cases hcalm
      · cases hx
        exact h.notify hpc
    · next v _ hpc =>
      cases hx
      exact h.unlock hpc
    · next v _ hpc =>
      split at hx
      · cases hx
        exact h.store hpc
      · cases hx
    · cases hx
  · exact h.outer he

/-! ## A call alone -/

/-- What a call does while it notifies: a listener that throws ends it. -/
def replies (throws : Nat → V → V → Bool) (old v : V) : List Nat → List (SetChoice V)
  | [] => [.next false, .next false]
  | key :: rest => if throws key old v then [.next true] else .next false :: replies throws old v rest

/-- The steps of a call. -/
def callOf [DecidableEq V] (throws : Nat → V → V → Bool) (x : ConfigVar T V) (v : V) : List (SetChoice V) :=
  .call v :: if v = x.val then [] else replies throws x.val v x.cbs

/-- Thread `i` takes these steps, and nobody else takes one. Its call is then over, with the variable as given. -/
def Performs [DecidableEq V] (s : VarSystem ι T V) (i : ι) (cs : List (SetChoice V)) (var : ConfigVar T V) : Prop :=
  ∃ r, Run (fun s l s' => step? s l = some s') s r ∧ r.map (·.1) = cs.map (.thread i) ∧
    (lastState s r).thread i = .idle ∧ (lastState s r).shared.var = var

theorem Performs.cons [DecidableEq V] {c : SetChoice V} {cs : List (SetChoice V)} {var : ConfigVar T V}
    (x : VarShared T V × SetPc V) (hx : s.shared.step (s.thread i) c = some x) (h : Performs (s.set i x) i cs var) :
    Performs s i (c :: cs) var := by
  obtain ⟨r, hr, hlabels, hlast⟩ := h
  have hstep : step? s (.thread i c) = some (s.set i x) := congrArg (Option.map (s.set i)) hx
  exact ⟨(.thread i c, s.set i x) :: r, ⟨hstep, hr⟩, by rw [List.map_cons, hlabels, List.map_cons], hlast⟩

theorem performs_nil [DecidableEq V] (x : VarShared T V) : Performs (s.set i (x, .idle)) i [] x.var :=
  ⟨[], trivial, rfl, Threads.set_thread_self, rfl⟩

theorem performs_replies [DecidableEq V] (throws : Nat → V → V → Bool) {rest : List Nat}
    (hpc : s.thread i = .notifying v rest) (hreaders : s.shared.readers = 1) :
    Performs s i (replies throws s.shared.var.val v rest)
      (if rest.any (throws · s.shared.var.val v) then s.shared.var else { s.shared.var with val := v }) := by
  induction rest generalizing s with
  | nil =>
    refine .cons ({ s.shared with readers := s.shared.readers - 1 }, .storing v) (by rw [hpc]; rfl) ?_
    refine .cons (VarShared.setVal { s.shared with readers := s.shared.readers - 1 } v, .idle) ?_ (performs_nil _)
    rw [Threads.set_thread_self]
    exact if_pos (by rw [Threads.set_shared, hreaders])
  | cons key rest ih =>
    rw [List.any_cons, replies]
    cases throws key s.shared.var.val v with
    | true =>
      exact .cons ({ s.shared.deliver key v with readers := s.shared.readers - 1 }, .idle) (by rw [hpc]; rfl)
        (performs_nil _)
    | false =>
      exact .cons (s.shared.deliver key v, .notifying v rest) (by rw [hpc]; rfl) (ih Threads.set_thread_self hreaders)

/-- **A call that nothing disturbs** does what `ConfigVar.setValue` does. -/
theorem performs_setValue [DecidableEq V] (throws : Nat → V → V → Bool) (hpc : s.thread i = .idle)
    (hreaders : s.shared.readers = 0) (v : V) :
    Performs s i (callOf throws s.shared.var v) (s.shared.var.setValue throws v) := by
  rw [ConfigVar.setValue, callOf]
  split
  · next heq => exact .cons (s.shared, .idle) (by rw [hpc]; exact if_pos heq) (performs_nil _)
  · next hne =>
    exact .cons ({ s.shared with readers := s.shared.readers + 1 }, .notifying v s.shared.var.cbs)
      (by rw [hpc]; exact if_neg hne) (performs_replies throws Threads.set_thread_self (congrArg (· + 1) hreaders))

/-- A variable with two listeners. -/
theorem performs_setValue_two : Performs (⟨{ var := ⟨(), 0, [1, 2]⟩, funId := 2 }, fun _ => .idle⟩ : VarSystem Bool
    Unit Nat)
    true [.call 5, .next false, .next false, .next false, .next false] ⟨(), 5, [1, 2]⟩ :=
  performs_setValue (fun _ _ _ => false) rfl rfl 5

end VarSystem

section

variable {ι T V : Type} [DecidableEq ι] [DecidableEq V]

/-- **The listeners have the stored value.** After a run in which the calls that overlap set one value and no listener
throws, when no call is in progress. -/
theorem setValue_agrees {ty : T} {val : V} {funId : Nat} {r : List (VarLabel ι V × VarSystem ι T V)}
    (hr : Run (fun s l s' => VarSystem.step? s l = some s') (VarSystem.new ty val funId) r)
    (hcalm : Meets VarSystem.Calm (VarSystem.new ty val funId) r)
    (hquiet : (lastState (VarSystem.new ty val funId) r).Quiet) :
    (lastState (VarSystem.new ty val funId) r).shared.Agrees := by
  have hnew := VarSystem.setInv_new (ι := ι) ty val funId
  have hinv := Run.inv (C := VarSystem.Calm) (fun s l s' hs hc hstep => hs.step hc hstep) hr hcalm hnew
  exact (Reached.last hnew hinv).agrees hquiet

end

/-- Two threads set the value one after the other; a listener is added between the phases of the first call. -/
theorem setValue_agrees_twice : ∃ r, Run (fun s l s' => VarSystem.step? s l = some s')
      (VarSystem.new () 0 0 : VarSystem Bool Unit Nat) r ∧
    Meets VarSystem.Calm (VarSystem.new () 0 0) r ∧ (lastState (VarSystem.new () 0 0) r).shared.last 1 = some 2 ∧
    (lastState (VarSystem.new () 0 0) r).shared.Agrees := by
  obtain ⟨r, hr, hcalm, hquiet, hlast⟩ := exists_run_of_trace?
    (f := VarSystem.step?) (s := (VarSystem.new () 0 0 : VarSystem Bool Unit Nat))
    [.outer (.addListener 0), .thread false (.call 1), .thread false (.next false), .thread false (.next false),
      .outer (.addListener 0), .thread false (.next false), .thread true (.call 2), .thread true (.next false),
      .thread true (.next false), .thread true (.next false), .thread true (.next false)]
    (P := fun r => Meets VarSystem.Calm (VarSystem.new () 0 0) r ∧ (lastState (VarSystem.new () 0 0) r).Quiet ∧
      (lastState (VarSystem.new () 0 0) r).shared.last 1 = some 2) (by decide +kernel)
  exact ⟨r, hr, hcalm, hlast, setValue_agrees hr hcalm hquiet⟩

/-- Two calls overlap: the listener is told of `1` and then of `2`, and then `2` is stored, and then `1`. Or a
listener throws: it was told of `1`, and `0` stays. -/
theorem setValue_overtaken :
    (∃ r, Run (fun s l s' => VarSystem.step? s l = some s') (VarSystem.new () 0 0 : VarSystem Bool Unit Nat) r ∧
      (lastState (VarSystem.new () 0 0) r).Quiet ∧ ¬(lastState (VarSystem.new () 0 0) r).shared.Agrees) ∧
    ∃ r, Run (fun s l s' => VarSystem.step? s l = some s') (VarSystem.new () 0 0 : VarSystem Unit Unit Nat) r ∧
      (lastState (VarSystem.new () 0 0) r).Quiet ∧ ¬(lastState (VarSystem.new () 0 0) r).shared.Agrees := by
  constructor
  · exact exists_run_of_trace?
      [.outer (.addListener 0), .thread false (.call 1), .thread true (.call 2), .thread false (.next false),
        .thread true (.next false), .thread false (.next false), .thread true (.next false),
        .thread true (.next false), .thread false (.next false)] (by decide +kernel)
  · exact exists_run_of_trace? [.outer (.addListener 0), .thread () (.call 1), .thread () (.next true)]
      (by decide +kernel)

end Sherry
