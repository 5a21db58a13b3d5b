import OtaServer.IOManager.Events
import OtaServer.Lib.Threads

/-!
# The table of the contexts (`IOManager::contextResize`)

`addEvent` tests the size of `m_fdContexts` under the read lock, gives the lock up, and resizes under the write lock.
Other threads resize in between. A context that is cut off is not freed: it keeps its events, and nobody finds it.

* `FdTable`: the table, and all contexts that were made. `contextResize`.
* `FdTable.step`: what a thread does between two locks.
* `fdTable_reachable`: contexts stay in the table as long as no resize is for a descriptor that is too small.
-/

namespace Sherry

open Lib

/-- A context, by the order in which they were made. -/
abbrev CtxId := Nat

/-- `m_fdContexts`, and the contexts that were made. -/
structure FdTable where
  /-- `m_fdContexts`. -/
  vec : List CtxId := []
  made : List FdContext := []
  epoll : Epoll := fun _ => none

/-- Where a thread is. -/
inductive TablePc where
  | out
  /-- `addEvent` has seen that the table is too small, and is to lock it for writing. -/
  | resize (fd : Nat) (e : Event) (ec : EventContext)
  /-- `addEvent` has its context, and is to lock that. -/
  | add (c : CtxId) (fd : Nat) (e : Event) (ec : EventContext)
  /-- `delEvent`, `cancelEvent` or `cancelAll` has its context, and is to lock that. -/
  | remove (c : CtxId) (fd : Nat) (gone : Events)

/-- What a thread does next: it calls an operation, or goes on (`epoll_ctl` succeeds, or it fails). -/
inductive TableChoice where
  | addEvent (fd : Nat) (e : Event) (ec : EventContext)
  /-- `delEvent` or `cancelEvent`, which are for one event, or `cancelAll`. -/
  | remove (fd : Nat) (gone : Events)
  | go (ok : Bool)

namespace FdTable

/-- `contextResize`. -/
def contextResize (t : FdTable) (size : Nat) : FdTable :=
  { t with
    vec := t.vec.take size ++ List.range' t.made.length (size - t.vec.length)
    made := t.made ++ (List.range' t.vec.length (size - t.vec.length)).map fun i => { fd := i } }

/-- `addEvent` from the lock of the context on. `none` is a failed assertion. -/
def lockedAdd (t : FdTable) (c : CtxId) (fd : Nat) (e : Event) (ec : EventContext) (ok : Bool) :
    Option FdTable := do
  let ctx ← t.made[c]?
  if ctx.events.has e then none
  else
    let op := if ctx.events.isNone then .add else .mod
    match epollCtl t.epoll op fd (ctx.events.set e true) ok with
    | none => some t
    | some epoll =>
      if ctx.getContext e = {} then
        some { t with
          epoll
          made := t.made.set c ({ ctx with events := ctx.events.set e true }.setContext e ec) }
      else none

/-- `delEvent`, `cancelEvent` and `cancelAll` from the lock of the context on, and the loop body of `idle`. -/
def lockedRemove (t : FdTable) (c : CtxId) (fd : Nat) (gone : Events) (ok : Bool) : Option FdTable := do
  let ctx ← t.made[c]?
  if (ctx.events.inter gone).isNone then some t
  else
    let left := ctx.events.diff gone
    match epollCtl t.epoll (if left.isNone then .del else .mod) fd left ok with
    | none => some t
    | some epoll =>
      some { t with
        epoll
        made := t.made.set c { ctx with
          events := left
          read := if gone.read then {} else ctx.read
          write := if gone.write then {} else ctx.write } }

/-- A step of a thread. -/
def step (t : FdTable) : TablePc → TableChoice → Option (FdTable × TablePc)
  | .out, .addEvent fd e ec =>
    if fd < 1 then some (t, .out)
    else
      match t.vec[fd]? with
      | some c => some (t, .add c fd e ec)
      | none => some (t, .resize fd e ec)
  | .out, .remove fd gone =>
    match t.vec[fd]? with
    | some c => some (t, .remove c fd gone)
    | none => some (t, .out)
  | .resize fd e ec, .go _ => do
    let t := t.contextResize (fd * 3 / 2)
    let c ← t.vec[fd]?
    return (t, .add c fd e ec)
  | .add c fd e ec, .go ok => (t.lockedAdd c fd e ec ok).map (·, .out)
  | .remove c fd gone, .go ok => (t.lockedRemove c fd gone ok).map (·, .out)
  | _, _ => none

/-- `idle` handles what `epoll` has reported for the context `c`. -/
def deliver (t : FdTable) (x : CtxId × Events × Bool) : Option FdTable := do
  let ctx ← t.made[x.1]?
  t.lockedRemove x.1 ctx.fd x.2.1 x.2.2

/-- The contexts that were made are in the table, each at its descriptor. -/
def Reachable (t : FdTable) : Prop := ∀ c (ctx : FdContext), t.made[c]? = some ctx → t.vec[ctx.fd]? = some c

/-- The descriptor for which a thread that is here resizes is not too small for the table. -/
def fits (t : FdTable) : TablePc → Bool
  | .resize fd _ _ => decide (t.vec.length ≤ fd * 3 / 2)
  | _ => true

variable {t t' : FdTable}

/-- A resize that does not shrink the table keeps what is in it. -/
theorem Reachable.contextResize {size : Nat} (h : t.Reachable) (hsize : t.vec.length ≤ size) :
    (t.contextResize size).Reachable := by
  intro c ctx hc
  simp only [FdTable.contextResize, List.take_of_length_le hsize] at hc ⊢
  rw [List.getElem?_append] at hc
  split at hc
  · have hold := h c ctx hc
    rw [List.getElem?_append_left (List.getElem?_eq_some_iff.mp hold).1]
    exact hold
  · next hnew =>
    simp only [List.getElem?_map, Option.map_eq_some_iff] at hc
    obtain ⟨i, hi, rfl⟩ := hc
    obtain ⟨hlt, rfl⟩ := List.getElem?_eq_some_iff.mp hi
    rw [List.length_range'] at hlt
    simp only [List.getElem_range']
    rw [List.getElem?_append_right (by omega)]
    rw [List.getElem?_eq_some_iff]
    refine ⟨by rw [List.length_range']; omega, ?_⟩
    rw [List.getElem_range', Nat.one_mul, Nat.one_mul, Nat.add_sub_cancel_left]
    exact Nat.add_sub_cancel' (Nat.le_of_not_lt hnew)

/-- An operation on a context leaves the table as it is. -/
structure SameTable (t t' : FdTable) : Prop where
  vec : t'.vec = t.vec
  fds : t'.made.map FdContext.fd = t.made.map FdContext.fd

theorem Reachable.of_sameTable (h : t.Reachable) (hsame : SameTable t t') : t'.Reachable := by
  intro c ctx hc
  have hfd : (t'.made.map FdContext.fd)[c]? = some ctx.fd := by
    rw [List.getElem?_map, hc]
    rfl
  rw [hsame.fds, List.getElem?_map] at hfd
  obtain ⟨old, hold, hfd⟩ := Option.map_eq_some_iff.mp hfd
  rw [hsame.vec, ← hfd]
  exact h c old hold

theorem sameTable_set {c : CtxId} {ctx ctx' : FdContext} {epoll : Epoll} (hc : t.made[c]? = some ctx)
    (hfd : ctx'.fd = ctx.fd) : SameTable t { t with epoll, made := t.made.set c ctx' } := by
  refine ⟨rfl, ?_⟩
  rw [List.map_set, hfd]
  refine List.ext_getElem? fun i => ?_
  rw [List.getElem?_set]
  split
  · next hi =>
    subst hi
    obtain ⟨hlt, rfl⟩ := List.getElem?_eq_some_iff.mp hc
    rw [List.length_map, if_pos hlt, List.getElem?_map, hc]
    rfl
  · rfl

theorem lockedAdd_same {c : CtxId} {fd : Nat} {e : Event} {ec : EventContext} {ok : Bool}
    (h : t.lockedAdd c fd e ec ok = some t') : SameTable t t' := by
  obtain ⟨ctx, hctx, h⟩ := Option.bind_eq_some_iff.mp h
  dsimp only at h
  split at h
  · cases h
  · cases hctl : epollCtl t.epoll (if ctx.events.isNone then .add else .mod) fd (ctx.events.set e true) ok with
    | none =>
      rw [hctl] at h
      cases h
      exact ⟨rfl, rfl⟩
    | some epoll =>
      rw [hctl] at h
      dsimp only at h
      split at h
      · cases h
        exact sameTable_set hctx (FdContext.setContext_fd _ _ _)
      · cases h

theorem lockedRemove_same {c : CtxId} {fd : Nat} {gone : Events} {ok : Bool}
    (h : t.lockedRemove c fd gone ok = some t') : SameTable t t' := by
  obtain ⟨ctx, hctx, h⟩ := Option.bind_eq_some_iff.mp h
  dsimp only at h
  split at h
  · cases h
    exact ⟨rfl, rfl⟩
  · cases hctl : epollCtl t.epoll (if (ctx.events.diff gone).isNone then .del else .mod) fd
        (ctx.events.diff gone) ok with
    | none =>
      rw [hctl] at h
      cases h
      exact ⟨rfl, rfl⟩
    | some epoll =>
      rw [hctl] at h
      cases h
      exact sameTable_set hctx rfl

/-- A step of a thread leaves the table as it is, or resizes it. -/
theorem step_cases {pc pc' : TablePc} {c : TableChoice} (h : t.step pc c = some (t', pc')) :
    SameTable t t' ∧ t.fits pc = true ∨ ∃ fd e ec, pc = .resize fd e ec ∧ t' = t.contextResize (fd * 3 / 2) := by
  unfold step at h
  split at h
  · left
    split at h
    · cases h
      exact ⟨⟨rfl, rfl⟩, rfl⟩
    · split at h <;> cases h <;> exact ⟨⟨rfl, rfl⟩, rfl⟩
  · left
    split at h <;> cases h <;> exact ⟨⟨rfl, rfl⟩, rfl⟩
  · right
    obtain ⟨c, -, h⟩ := Option.bind_eq_some_iff.mp h
    cases h
    exact ⟨_, _, _, rfl, rfl⟩
  · obtain ⟨t'', ht'', h⟩ := Option.map_eq_some_iff.mp h
    cases h
    exact .inl ⟨lockedAdd_same ht'', rfl⟩
  · obtain ⟨t'', ht'', h⟩ := Option.map_eq_some_iff.mp h
    cases h
    exact .inl ⟨lockedRemove_same ht'', rfl⟩
  · cases h

theorem length_contextResize (size : Nat) : (t.contextResize size).vec.length = size := by
  simp only [contextResize, List.length_append, List.length_take, List.length_range']
  omega

end FdTable

/-! ## Runs -/

/-- A table and its threads. -/
abbrev TableSystem (n : Nat) := Threads (Fin n) FdTable TablePc

namespace TableSystem

/-- A step of a thread, or an event with its result. -/
abbrev TLabel (n : Nat) := Threads.Label (Fin n) TableChoice (CtxId × Events × Bool)

/-- A new `IOManager`. -/
def new (n : Nat) : TableSystem n := ⟨FdTable.contextResize {} 32, fun _ => .out⟩

/-- One step. -/
def step? {n : Nat} (s : TableSystem n) (l : TLabel n) : Option (TableSystem n) :=
  Threads.step? (fun _ => FdTable.step) FdTable.deliver s l

/-- The step does not shrink the table. -/
def NoShrink {n : Nat} (s : TableSystem n) (l : TLabel n) : Prop :=
  ∀ s', step? s l = some s' → s.shared.vec.length ≤ s'.shared.vec.length

/-- If the step is a resize, its descriptor is not too small for the table as it is now. -/
def resizeFits {n : Nat} (s : TableSystem n) : TLabel n → Bool
  | .thread i _ => s.shared.fits (s.thread i)
  | .outer _ => true

variable {n : Nat} {s s' : TableSystem n} {l : TLabel n}

theorem step_same_or (hstep : step? s l = some s') : FdTable.SameTable s.shared s'.shared ∧ resizeFits s l = true ∨
      ∃ fd, s'.shared = s.shared.contextResize (fd * 3 / 2) ∧
        (resizeFits s l = true ↔ s.shared.vec.length ≤ fd * 3 / 2) := by
  obtain ⟨i, c, ⟨t', pc'⟩, rfl, hx, rfl⟩ | ⟨x, t', rfl, hx, rfl⟩ := Threads.step?_cases hstep
  · obtain ⟨hsame, hfits⟩ | ⟨fd, e, ec, hpc, rfl⟩ := FdTable.step_cases hx
    · exact .inl ⟨hsame, hfits⟩
    · refine .inr ⟨fd, rfl, ?_⟩
      simp only [resizeFits, hpc, FdTable.fits, decide_eq_true_eq]
  · obtain ⟨ctx, -, hx⟩ := Option.bind_eq_some_iff.mp hx
    exact .inl ⟨FdTable.lockedRemove_same hx, rfl⟩

/-- A step shrinks the table exactly if it is a resize for a descriptor that is too small. -/
theorem noShrink_iff (hstep : step? s l = some s') : NoShrink s l ↔ resizeFits s l = true := by
  have hone : NoShrink s l ↔ s.shared.vec.length ≤ s'.shared.vec.length := by
    refine ⟨fun h => h s' hstep, fun h s'' hstep'' => ?_⟩
    cases hstep.symm.trans hstep''
    exact h
  rw [hone]
  obtain ⟨hsame, hfits⟩ | ⟨fd, hshared, hfits⟩ := step_same_or hstep
  · rw [hsame.vec, hfits]
    exact iff_of_true (Nat.le_refl _) rfl
  · rw [hfits, hshared, FdTable.length_contextResize]

/-- A step that does not shrink the table keeps the contexts in it. -/
theorem step_reachable (h : s.shared.Reachable) (hfits : resizeFits s l = true)
    (hstep : step? s l = some s') : s'.shared.Reachable := by
  obtain ⟨hsame, -⟩ | ⟨fd, hshared, hiff⟩ := step_same_or hstep
  · exact h.of_sameTable hsame
  · rw [hshared]
    exact h.contextResize (hiff.mp hfits)

theorem new_reachable : (new n).shared.Reachable :=
  FdTable.Reachable.contextResize (nofun : FdTable.Reachable {}) (Nat.zero_le _)

end TableSystem

/-- The table never shrinks, and every context with events is found at its descriptor, in exactly the runs in which no
resize is for a descriptor that is too small for the table. -/
theorem fdTable_reachable (n : Nat) {r : List (TableSystem.TLabel n × TableSystem n)}
    (hr : Run (fun s l s' => TableSystem.step? s l = some s') (TableSystem.new n) r) :
    Meets TableSystem.NoShrink (TableSystem.new n) r ∧
        Reached (fun s => ∀ c (ctx : FdContext), s.shared.made[c]? = some ctx →
          ctx.events.isNone = false → s.shared.vec[ctx.fd]? = some c) r ↔
      Meets (fun s l => TableSystem.resizeFits s l = true) (TableSystem.new n) r := by
  have hiff := hr.meets_iff (C := TableSystem.NoShrink)
    (D := fun s l => TableSystem.resizeFits s l = true) fun _ _ _ => TableSystem.noShrink_iff
  rw [hiff]
  refine and_iff_left_of_imp fun hfits => ?_
  have hreach := Run.inv (I := fun s : TableSystem n => s.shared.Reachable)
    (fun _ _ _ => TableSystem.step_reachable) hr hfits TableSystem.new_reachable
  exact hreach.mono fun s h c ctx hc _ => h c ctx hc

/-- Two threads add events for two descriptors. -/
theorem fdTable_reachable_two : ∃ r : List (TableSystem.TLabel 2 × TableSystem 2),
      Run (fun s l s' => TableSystem.step? s l = some s') (TableSystem.new 2) r ∧
        (lastState (TableSystem.new 2) r).shared.vec.length = 150 ∧
        Meets TableSystem.NoShrink (TableSystem.new 2) r := by
  obtain ⟨r, hr, hlength, hfits⟩ := exists_run_of_trace? (f := TableSystem.step?) (s := TableSystem.new 2)
    [.thread 0 (.addEvent 100 .read { scheduler := some 0, fiber := some 0 }),
      .thread 1 (.addEvent 40 .read { scheduler := some 0, fiber := some 1 }), .thread 1 (.go true),
      .thread 0 (.go true), .thread 0 (.go true), .thread 1 (.go true)]
    (P := fun r => (lastState (TableSystem.new 2) r).shared.vec.length = 150 ∧
      Meets (fun s l => TableSystem.resizeFits s l = true) (TableSystem.new 2) r) (by decide +kernel)
  exact ⟨r, hr, hlength, ((fdTable_reachable 2 hr).mpr hfits).1⟩

/-- The other way round: the second resize cuts off the context for which the first thread has registered its event.
-/
theorem fdTable_cut : ∃ r : List (TableSystem.TLabel 2 × TableSystem 2),
      Run (fun s l s' => TableSystem.step? s l = some s') (TableSystem.new 2) r ∧
        (lastState (TableSystem.new 2) r).shared.vec.length = 60 ∧
        (lastState (TableSystem.new 2) r).shared.made[100]?.map (fun ctx => (ctx.fd, ctx.events)) =
          some (100, { read := true }) ∧
        (lastState (TableSystem.new 2) r).shared.vec[100]? = none := by
  exact exists_run_of_trace?
    [.thread 0 (.addEvent 100 .read { scheduler := some 0, fiber := some 0 }),
      .thread 1 (.addEvent 40 .read { scheduler := some 0, fiber := some 1 }), .thread 0 (.go true),
      .thread 0 (.go true), .thread 1 (.go true)] (by decide +kernel)

end Sherry
