import Mathlib.Logic.Function.Basic
import OtaServer.Scheduler.Steps

/-!
# The life of one fiber

What the workers do with one fiber, without the rest of the scheduler.

* `Grip`: where a worker is with the fiber. `FiberView`: the fiber, how often someone is going to run it (`owed`: it
  is queued, or someone has it and is going to queue it), and the grips.
* `FiberMove`: the steps. A worker that takes the fiber from the queue finds no worker that is on its way out of it.
* `FiberInv`: at most one worker has a grip on the fiber. `FiberMove.inv`: every step keeps it.
-/

namespace Sherry

/-- Where a worker is with a fiber. `isCb`: the fiber is its `cb_fiber`. -/
inductive Grip where
  | free
  /-- Taken from the queue. -/
  | carries
  /-- It is going to start a callback. -/
  | starts
  | inside (isCb : Bool)
  | leaving (isCb : Bool)
  /-- Before the test for `READY`. -/
  | after (isCb : Bool)
  /-- Before the test for `TERM` and `EXCEPT`. -/
  | unready (isCb : Bool)
  /-- Before `m_state = HOLD`. -/
  | holds (isCb : Bool)
  deriving DecidableEq

namespace Grip

/-- The worker has the fiber as its `cb_fiber`. -/
def isCb : Grip → Bool
  | free | carries => false
  | starts => true
  | inside b | leaving b | after b | unready b | holds b => b

/-- The worker is on its way out of the fiber. -/
def isOut : Grip → Bool
  | leaving _ | after _ | unready _ | holds _ => true
  | _ => false

end Grip

/-- A fiber that was left: its state, and that only a fiber on hold is owed. `m` is how often a fiber may be owed
while it is executed. -/
structure Left (m : Nat) (state : FiberState) (owed : Nat) : Prop where
  exec : state ≠ .exec
  init : state ≠ .init
  kept : state ≠ .hold → owed = 0
  le : owed ≤ m

/-- What holds of a fiber that a worker has a grip on. -/
def Grip.Ok (m : Nat) (fiber : Fiber) (owed : Nat) : Grip → Prop
  | free => False
  | carries | starts => owed = 0 ∧ fiber.saved = true ∧ fiber.state ≠ .exec
  | inside _ => owed ≤ m ∧ fiber.state = .exec
  | leaving _ => Left m fiber.state owed
  | after _ => fiber.saved = true ∧ Left m fiber.state owed
  | unready _ => fiber.saved = true ∧ fiber.state ≠ .ready ∧ Left m fiber.state owed
  | holds _ => fiber.saved = true ∧ owed ≤ m

theorem Grip.Ok.le_of_isOut {m owed : Nat} {fiber : Fiber} {g : Grip} (h : g.Ok m fiber owed)
    (hout : g.isOut = true) : owed ≤ m := by
  cases g with
  | leaving => exact h.le
  | after => exact h.2.le
  | unready => exact h.2.2.le
  | holds => exact h.2
  | _ => cases hout

/-- One fiber of a scheduler. -/
structure FiberView (ι : Type) where
  owed : Nat
  fiber : Fiber
  made : Bool
  grip : ι → Grip
  /-- The workers with the fiber as `cb_fiber`. -/
  cb : ι → Bool

variable {ι : Type} {m : Nat} {v v' : FiberView ι}

/-- What holds of a fiber. -/
inductive FiberInv (m : Nat) (v : FiberView ι) : Prop where
  | unmade (made : v.made = false) (owed : v.owed = 0) (free : ∀ j, v.grip j = .free)
    (cb : ∀ j, v.cb j = false)
  /-- No worker has a grip on it. It may be the `cb_fiber` of one. -/
  | idle (made : v.made = true) (owed : v.owed ≤ 1) (free : ∀ j, v.grip j = .free)
    (saved : v.fiber.saved = true) (exec : v.fiber.state ≠ .exec)
    (cb : (∀ j, v.cb j = false) ∨
      v.owed = 0 ∧ v.fiber.state = .init ∧ ∃ i, ∀ j, v.cb j = true ↔ j = i)
  /-- One worker has a grip on it. -/
  | held (i : ι) (made : v.made = true) (only : ∀ j, j ≠ i → v.grip j = .free)
    (ok : (v.grip i).Ok m v.fiber v.owed)
    (cb : ∀ j, v.cb j = true ↔ j = i ∧ (v.grip i).isCb = true)

namespace FiberInv

theorem unique (h : FiberInv m v) {i j : ι} (hi : v.grip i ≠ .free) (hj : v.grip j ≠ .free) : i = j := by
  cases h with
  | unmade _ _ free => exact absurd (free i) hi
  | idle _ _ free => exact absurd (free i) hi
  | held k _ only =>
    have heq : ∀ j, v.grip j ≠ .free → j = k := by
      intro j hj
      by_contra hne
      exact hj (only j hne)
    rw [heq i hi, heq j hj]

/-- What holds of a fiber that worker `i` has a grip on. -/
theorem of_grip (h : FiberInv m v) {i : ι} {g : Grip} (hi : v.grip i = g) (hg : g ≠ .free) :
    v.made = true ∧ (∀ j, j ≠ i → v.grip j = .free) ∧ g.Ok m v.fiber v.owed ∧
      ∀ j, v.cb j = true ↔ j = i ∧ g.isCb = true := by
  subst hi
  have hinv := h
  cases h with
  | unmade _ _ free => exact absurd (free i) hg
  | idle _ _ free => exact absurd (free i) hg
  | held k made only ok cb =>
    have hk : v.grip k ≠ .free := by
      intro hfree
      rw [hfree] at ok
      exact ok
    obtain rfl := hinv.unique hg hk
    exact ⟨made, only, ok, cb⟩

/-- A fiber that is owed and is neither executed nor left has no worker with a grip on it. -/
theorem free_of_owed (h : FiberInv m v) (owed : 0 < v.owed) (exec : v.fiber.state ≠ .exec)
    (back : 0 < m → ∀ j, (v.grip j).isOut = false) :
    v.made = true ∧ v.owed = 1 ∧ (∀ j, v.grip j = .free) ∧ v.fiber.saved = true ∧ ∀ j, v.cb j = false := by
  cases h with
  | unmade _ howed => exact absurd howed (Nat.ne_of_gt owed)
  | idle made le free saved _ cb =>
    refine ⟨made, Nat.le_antisymm le owed, free, saved, ?_⟩
    obtain hcb | ⟨hzero, -⟩ := cb
    · exact hcb
    · exact absurd hzero (Nat.ne_of_gt owed)
  | held i made only ok cb =>
    -- a fiber that is owed while a worker has a grip on it is executed, or left
    exfalso
    have hout := fun hm => back hm i
    generalize v.grip i = g at ok hout
    cases g with
    | free => exact ok
    | carries | starts => exact absurd ok.1 (Nat.ne_of_gt owed)
    | inside => exact exec ok.2
    | leaving | after | unready | holds => cases hout (Nat.lt_of_lt_of_le owed (ok.le_of_isOut rfl))

theorem not_cb {cb : ι → Bool} {P : ι → Prop} (h : ∀ j, cb j = true ↔ P j ∧ false = true) (j : ι) : cb j = false := by
  rw [Bool.eq_false_iff]
  intro hj
  cases ((h j).mp hj).2

end FiberInv

variable [DecidableEq ι]

/-- The steps of the workers and of others, as far as one fiber is concerned. -/
inductive FiberMove (m : Nat) (v : FiberView ι) : FiberView ι → Prop where
  | same : FiberMove m v v
  /-- The fiber is made, by one who is going to schedule it. -/
  | make {owed : Nat} (made : v.made = false) (once : v.owed = 0 → owed = 1) :
    FiberMove m v { v with owed, fiber := {}, made := true }
  | makeCb {i : ι} (made : v.made = false) (grip : v.grip i = .free) :
    FiberMove m v
      { v with
        fiber := {}
        made := true
        grip := Function.update v.grip i .starts
        cb := Function.update v.cb i true }
  /-- The fiber is taken from the queue. -/
  | take {i : ι} (grip : v.grip i = .free) (owed : 0 < v.owed) (state : v.fiber.state ≠ .exec)
    (back : 0 < m → ∀ j, (v.grip j).isOut = false) :
    FiberMove m v { v with owed := v.owed - 1, grip := Function.update v.grip i .carries }
  | drop {i : ι} (grip : v.grip i = .carries) :
    FiberMove m v { v with grip := Function.update v.grip i .free }
  | reuse {i : ι} (grip : v.grip i = .free) (cb : v.cb i = true) :
    FiberMove m v { v with fiber := {}, grip := Function.update v.grip i .starts }
  | enter {i : ι} (grip : v.grip i = .carries ∨ v.grip i = .starts) :
    FiberMove m v
      { v with
        fiber := { state := .exec, saved := false }
        grip := Function.update v.grip i (.inside (v.grip i).isCb) }
  /-- The fiber is registered for an event, or handed to another thread. -/
  | giveAway {i : ι} {isCb : Bool} {owed : Nat} (grip : v.grip i = .inside isCb) (once : owed ≤ m) :
    FiberMove m v { v with owed }
  | leave {i : ι} {isCb : Bool} {state : FiberState} (grip : v.grip i = .inside isCb)
    (exec : state ≠ .exec) (init : state ≠ .init) (kept : state ≠ .hold → v.owed = 0) :
    FiberMove m v
      { v with fiber := { v.fiber with state }, grip := Function.update v.grip i (.leaving isCb) }
  | save {i : ι} {isCb : Bool} (grip : v.grip i = .leaving isCb) :
    FiberMove m v
      { v with fiber := { v.fiber with saved := true }, grip := Function.update v.grip i (.after isCb) }
  | requeue {i : ι} {isCb : Bool} {owed : Nat} (grip : v.grip i = .after isCb)
    (state : v.fiber.state = .ready) (once : v.owed = 0 → owed = 1) :
    FiberMove m v
      { v with
        owed
        grip := Function.update v.grip i .free
        cb := Function.update v.cb i (!isCb && v.cb i) }
  | notReady {i : ι} {isCb : Bool} (grip : v.grip i = .after isCb) (state : v.fiber.state ≠ .ready) :
    FiberMove m v { v with grip := Function.update v.grip i (.unready isCb) }
  | ended {i : ι} {isCb : Bool} (grip : v.grip i = .unready isCb) (state : v.fiber.state.Ended) :
    FiberMove m v
      { v with fiber := if isCb then {} else v.fiber, grip := Function.update v.grip i .free }
  | notEnded {i : ι} {isCb : Bool} (grip : v.grip i = .unready isCb) :
    FiberMove m v { v with grip := Function.update v.grip i (.holds isCb) }
  | hold {i : ι} {isCb : Bool} (grip : v.grip i = .holds isCb) :
    FiberMove m v
      { v with
        fiber := { v.fiber with state := .hold }
        grip := Function.update v.grip i .free
        cb := Function.update v.cb i (!isCb && v.cb i) }

namespace FiberInv

variable {cb : ι → Bool} {i : ι}

/-- The one worker with a grip on the fiber changes it to `g`. -/
theorem regrip {g : Grip} {made : Bool} {grip : ι → Grip} {owed : Nat} {fiber : Fiber}
    (hmade : made = true) (only : ∀ j, j ≠ i → grip j = .free) (ok : g.Ok m fiber owed)
    (hcb : ∀ j, cb j = true ↔ j = i ∧ g.isCb = true) :
    FiberInv m ⟨owed, fiber, made, Function.update grip i g, cb⟩ := by
  refine .held i hmade ?_ ?_ ?_
  · intro j hj
    show Function.update grip i g j = .free
    rw [Function.update_of_ne hj]
    exact only j hj
  · show (Function.update grip i g i).Ok m fiber owed
    rwa [Function.update_self]
  · show ∀ j, cb j = true ↔ j = i ∧ (Function.update grip i g i).isCb = true
    rwa [Function.update_self]

/-- The one worker with a grip on the fiber lets it go. -/
theorem letGo {made : Bool} {grip : ι → Grip} {owed : Nat} {fiber : Fiber}
    (hmade : made = true) (only : ∀ j, j ≠ i → grip j = .free) (howed : owed ≤ 1) (saved : fiber.saved = true)
    (exec : fiber.state ≠ .exec)
    (hcb : (∀ j, cb j = false) ∨ owed = 0 ∧ fiber.state = .init ∧ ∃ i, ∀ j, cb j = true ↔ j = i) :
    FiberInv m ⟨owed, fiber, made, Function.update grip i .free, cb⟩ := by
  refine .idle hmade howed ?_ saved exec hcb
  intro j
  show Function.update grip i .free j = .free
  by_cases hj : j = i
  · rw [hj, Function.update_self]
  · rw [Function.update_of_ne hj]
    exact only j hj

/-- A worker lets a fiber go that was its `cb_fiber`, or is that of none. -/
theorem clear_cb {isCb : Bool} (h : ∀ j, cb j = true ↔ j = i ∧ isCb = true) :
    ∀ j, Function.update cb i (!isCb && cb i) j = false := by
  intro j
  rw [Bool.eq_false_iff]
  intro hj
  by_cases hji : j = i
  · rw [hji, Function.update_self, Bool.and_eq_true] at hj
    obtain ⟨hcb, hi⟩ := hj
    rw [((h i).mp hi).2] at hcb
    cases hcb
  · rw [Function.update_of_ne hji] at hj
    exact hji ((h j).mp hj).1

end FiberInv

/-- **One step** keeps what holds of a fiber. -/
theorem FiberMove.inv (h : FiberMove m v v') (hm : m ≤ 1) (hinv : FiberInv m v) : FiberInv m v' := by
  cases h with
  | same => exact hinv
  -- a fiber is made only once
  | @make owed made once =>
    cases hinv with
    | unmade _ howed free cb => exact .idle rfl (Nat.le_of_eq (once howed)) free rfl (by simp) (.inl cb)
    | idle hmade | held _ hmade =>
      rw [hmade] at made
      cases made
  | @makeCb i made grip =>
    cases hinv with
    | unmade _ howed free cb =>
      refine .regrip rfl (fun j _ => free j) ⟨howed, rfl, by simp⟩ fun j => ?_
      by_cases hj : j = i
      · simp [hj, Grip.isCb]
      · simp [cb j, hj]
    | idle hmade | held _ hmade =>
      rw [hmade] at made
      cases made
  -- here the fiber comes into the hands of a worker, and nobody has a grip on it
  | @take i grip owed state back =>
    obtain ⟨hmade, hone, free, saved, cb⟩ := hinv.free_of_owed owed state back
    refine .regrip hmade (fun j _ => free j) ⟨by rw [hone], saved, state⟩ fun j => ?_
    simp [cb j, Grip.isCb]
  | @reuse i grip cb =>
    cases hinv with
    | unmade _ _ _ hcb =>
      rw [hcb i] at cb
      cases cb
    | idle hmade le free saved exec hcb =>
      obtain hcb | ⟨howed, -, k, hcb⟩ := hcb
      · rw [hcb i] at cb
        cases cb
      · refine .regrip hmade (fun j _ => free j) ⟨howed, rfl, by simp⟩ fun j => ?_
        rw [hcb j, (hcb i).mp cb]
        simp [Grip.isCb]
    | held k _ _ ok hcb =>
      obtain ⟨rfl, -⟩ := (hcb i).mp cb
      rw [grip] at ok
      exact absurd ok id
  -- from here on it is the step of the one worker with a grip
  | @enter i grip =>
    obtain ⟨hmade, only, ok, cb⟩ := hinv.of_grip (i := i) rfl (by obtain h | h := grip <;> simp [h])
    refine .regrip hmade only ⟨?_, rfl⟩ cb
    obtain h | h := grip <;> rw [h] at ok <;> rw [ok.1] <;> exact Nat.zero_le m
  | @giveAway i isCb owed grip once =>
    obtain ⟨hmade, only, ok, cb⟩ := hinv.of_grip grip (by simp)
    refine .held i hmade only ?_ (by rwa [grip])
    show (v.grip i).Ok m v.fiber owed
    rw [grip]
    exact ⟨once, ok.2⟩
  | @leave i isCb state grip exec init kept =>
    obtain ⟨hmade, only, ok, cb⟩ := hinv.of_grip grip (by simp)
    exact .regrip hmade only ⟨exec, init, kept, ok.1⟩ cb
  | @save i isCb grip =>
    obtain ⟨hmade, only, ok, cb⟩ := hinv.of_grip grip (by simp)
    exact .regrip hmade only ⟨rfl, ok⟩ cb
  | @notReady i isCb grip state =>
    obtain ⟨hmade, only, ok, cb⟩ := hinv.of_grip grip (by simp)
    exact .regrip hmade only ⟨ok.1, state, ok.2⟩ cb
  | @notEnded i isCb grip =>
    obtain ⟨hmade, only, ok, cb⟩ := hinv.of_grip grip (by simp)
    exact .regrip hmade only ⟨ok.1, ok.2.2.le⟩ cb
  -- these let the fiber go
  | @drop i grip =>
    obtain ⟨hmade, only, ok, cb⟩ := hinv.of_grip grip (by simp)
    exact .letGo hmade only (by rw [ok.1]; exact Nat.zero_le 1) ok.2.1 ok.2.2 (.inl (FiberInv.not_cb cb))
  | @requeue i isCb owed grip state once =>
    obtain ⟨hmade, only, ok, cb⟩ := hinv.of_grip grip (by simp)
    have hzero : v.owed = 0 := ok.2.kept (by simp [state])
    exact .letGo hmade only (Nat.le_of_eq (once hzero)) ok.1 ok.2.exec (.inl (FiberInv.clear_cb cb))
  | @ended i isCb grip state =>
    obtain ⟨hmade, only, ok, cb⟩ := hinv.of_grip grip (by simp)
    have hzero : v.owed = 0 := ok.2.2.kept (by obtain h | h := state <;> simp [h])
    have hle : v.owed ≤ 1 := by rw [hzero]; exact Nat.zero_le 1
    cases isCb with
    | true => exact .letGo hmade only hle rfl (by simp) (.inr ⟨hzero, rfl, i, fun j => (cb j).trans
      (and_iff_left rfl)⟩)
    | false => exact .letGo hmade only hle ok.1 ok.2.2.exec (.inl (FiberInv.not_cb cb))
  | @hold i isCb grip =>
    obtain ⟨hmade, only, ok, cb⟩ := hinv.of_grip grip (by simp)
    exact .letGo hmade only (Nat.le_trans ok.2 hm) ok.1 (by simp) (.inl (FiberInv.clear_cb cb))

end Sherry
