import OtaServer.Fd.Manager
import OtaServer.Lib.Threads

/-!
# Threads that call `FdManager::get`

`get(fd, true)` looks the descriptor up under the read lock and creates a context under the write lock, without
looking again. Threads that are in between for one descriptor create a context each.

* `GetShared`: the manager, what the callers have got, and what they have made of it.
* `GetInv`: each caller has got what is in `m_datas`, with what all callers have set.
* `get_agrees`: this holds exactly as long as no thread creates what is already there.
-/

namespace Sherry

open Lib

/-- A change to a context by someone who has got it. -/
inductive CtxChange where
  | setTimeout (type : TimeoutType) (v : Nat)
  | setUserNonblock (v : Bool)

/-- The change. -/
def CtxChange.apply : CtxChange → FdCtx → FdCtx
  | .setTimeout type v, ctx => ctx.setTimeout type v
  | .setUserNonblock v, ctx => { ctx with userNonblock := v }

/-- What the threads share. -/
structure GetShared where
  mgr : FdManager := {}
  /-- The results of `get`: a descriptor, and the context. -/
  got : List (Nat × Nat) := []
  /-- The context of a descriptor, with all changes that were made through what `get` has returned. -/
  made : Nat → Option FdCtx := fun _ => none

/-- Where a thread is: it has seen that there is no context, and is to lock for writing. -/
inductive GetPc where
  | out
  | create (fd : Nat)

/-- What a thread does next. -/
inductive GetChoice where
  /-- `get(fd, true)`. -/
  | get (fd : Nat)
  /-- It goes on; `fstat` says this. -/
  | go (stat : Option Bool)
  /-- It changes a context that it has got for `fd`. -/
  | change (fd c : Nat) (f : CtxChange)

namespace GetShared

/-- A step of a thread. -/
def step (s : GetShared) : GetPc → GetChoice → Option (GetShared × GetPc)
  | .out, .get fd =>
    match s.mgr.lookup fd true with
    | some (some c) => some ({ s with got := (fd, c) :: s.got }, .out)
    | some none => some (s, .out)
    | none => some (s, .create fd)
  | .create fd, .go stat =>
    let x := s.mgr.create fd stat
    some ({ mgr := x.1
            got := (fd, x.2) :: s.got
            made := Function.update s.made fd (s.made fd <|> some (.init fd stat)) }, .out)
  | .out, .change fd c f =>
    if (fd, c) ∈ s.got then
      some ({ s with
        mgr := { s.mgr with ctxs := s.mgr.ctxs.modify c f.apply }
        made := Function.update s.made fd ((s.made fd).map f.apply) }, .out)
    else none
  | _, _ => none

/-- There is no context for the descriptor for which a thread that is here creates one. -/
def stillNone (s : GetShared) : GetPc → Bool
  | .create fd => s.mgr.datas[fd]?.join.isNone
  | .out => true

end GetShared

namespace FdManager

variable {m : FdManager} {fd fd' c : Nat} {stat : Option Bool}

theorem lookup_some_iff : m.lookup fd true = some (some c) ↔ m.datas[fd]? = some (some c) := by
  unfold lookup
  cases m.datas[fd]? with
  | none => exact iff_of_false nofun nofun
  | some data =>
    cases data with
    | none => exact iff_of_false nofun nofun
    | some c' => rfl

theorem create_datas_self (h : 64 ≤ m.datas.length) :
    (m.create fd stat).1.datas[fd]? = some (some m.ctxs.length) := by
  simp only [create]
  rw [List.getElem?_set_self]
  split
  · rw [List.length_append, List.length_replicate]
    omega
  · omega

theorem create_datas_ne (hne : fd' ≠ fd) :
    (m.create fd stat).1.datas[fd']? = some (some c) ↔ m.datas[fd']? = some (some c) := by
  simp only [create]
  rw [List.getElem?_set_ne (Ne.symm hne)]
  split
  · rw [List.getElem?_append]
    split
    · rfl
    · next hout =>
      rw [List.getElem?_eq_none (Nat.le_of_not_lt hout)]
      refine iff_of_false (fun h => ?_) nofun
      have hmem := List.mem_of_getElem? h
      rw [List.mem_replicate] at hmem
      cases hmem.2
  · rfl

theorem le_length_create (h : 64 ≤ m.datas.length) : 64 ≤ (m.create fd stat).1.datas.length := by
  simp only [create]
  rw [List.length_set]
  split
  · rw [List.length_append]
    omega
  · exact h

end FdManager

namespace GetShared

variable {s s' : GetShared} {pc pc' : GetPc} {c : GetChoice}

/-- What every caller has got is what `get` finds now, with what all callers have set. -/
def Agrees (s : GetShared) : Prop :=
  ∀ fd c, (fd, c) ∈ s.got → s.mgr.datas[fd]? = some (some c) ∧ s.mgr.ctxs[c]? = s.made fd

theorem agrees_iff : s.Agrees ↔ (∀ fd c c', (fd, c) ∈ s.got → (fd, c') ∈ s.got → c = c') ∧
      ∀ fd c, (fd, c) ∈ s.got → s.mgr.lookup fd true = some (some c) ∧ s.mgr.ctxs[c]? = s.made fd := by
  constructor
  · intro h
    refine ⟨fun fd c c' hc hc' => ?_, fun fd c hc => ?_⟩
    · have hsame := (h fd c hc).1.symm.trans (h fd c' hc').1
      exact Option.some.inj (Option.some.inj hsame)
    · exact ⟨FdManager.lookup_some_iff.mpr (h fd c hc).1, (h fd c hc).2⟩
  · rintro ⟨-, h⟩ fd c hc
    exact ⟨FdManager.lookup_some_iff.mp (h fd c hc).1, (h fd c hc).2⟩

/-- What holds as long as all callers agree. -/
structure GetInv (s : GetShared) : Prop where
  agrees : s.Agrees
  length : 64 ≤ s.mgr.datas.length
  /-- What is in `m_datas` was given to someone. -/
  given : ∀ fd c, s.mgr.datas[fd]? = some (some c) → (fd, c) ∈ s.got
  fd : ∀ fd c, (fd, c) ∈ s.got → ∃ ctx, s.mgr.ctxs[c]? = some ctx ∧ ctx.fd = fd
  made : ∀ fd ctx, s.made fd = some ctx → ∃ c, (fd, c) ∈ s.got

theorem apply_fd (f : CtxChange) (ctx : FdCtx) : (f.apply ctx).fd = ctx.fd := by
  cases f with
  | setTimeout type v => cases type <;> rfl
  | setUserNonblock v => rfl

theorem GetInv.create {fd : Nat} {stat : Option Bool} (h : GetInv s)
    (hnone : s.mgr.datas[fd]?.join = none) {s' : GetShared}
    (hstep : s.step (.create fd) (.go stat) = some (s', pc')) : GetInv s' := by
  cases hstep
  -- nobody has got a context for the descriptor
  have hfresh : ∀ c, (fd, c) ∉ s.got := by
    intro c hc
    rw [(h.agrees fd c hc).1] at hnone
    cases hnone
  have hmade : s.made fd = none := by
    cases hm : s.made fd with
    | none => rfl
    | some ctx =>
      obtain ⟨c, hc⟩ := h.made fd ctx hm
      exact absurd hc (hfresh c)
  have hold : ∀ fd' c', (fd', c') ∈ s.got → fd' ≠ fd ∧ c' < s.mgr.ctxs.length := by
    intro fd' c' hc
    refine ⟨fun heq => hfresh c' (heq ▸ hc), ?_⟩
    obtain ⟨ctx, hctx, -⟩ := h.fd fd' c' hc
    exact (List.getElem?_eq_some_iff.mp hctx).1
  refine ⟨fun fd' c' hc => ?_, FdManager.le_length_create h.length, fun fd' c' hc => ?_, fun fd' c' hc => ?_,
    fun fd' ctx hctx => ?_⟩
  · obtain heq | hc := List.mem_cons.mp hc
    · cases heq
      refine ⟨FdManager.create_datas_self h.length, ?_⟩
      simp [FdManager.create, hmade]
    · obtain ⟨hne, hlt⟩ := hold fd' c' hc
      refine ⟨(FdManager.create_datas_ne hne).mpr (h.agrees fd' c' hc).1, ?_⟩
      simp only [FdManager.create, Function.update_of_ne hne]
      rw [List.getElem?_append_left hlt]
      exact (h.agrees fd' c' hc).2
  · by_cases hne : fd' = fd
    · subst hne
      rw [FdManager.create_datas_self h.length] at hc
      cases hc
      exact List.mem_cons_self
    · exact List.mem_cons_of_mem _ (h.given fd' c' ((FdManager.create_datas_ne hne).mp hc))
  · obtain heq | hc := List.mem_cons.mp hc
    · cases heq
      exact ⟨.init fd stat, by simp [FdManager.create], rfl⟩
    · obtain ⟨ctx, hctx, hfd⟩ := h.fd fd' c' hc
      refine ⟨ctx, ?_, hfd⟩
      simp only [FdManager.create]
      rw [List.getElem?_append_left (hold fd' c' hc).2]
      exact hctx
  · by_cases hne : fd' = fd
    · exact ⟨s.mgr.ctxs.length, hne ▸ List.mem_cons_self⟩
    · simp only [Function.update_of_ne hne] at hctx
      obtain ⟨c, hc⟩ := h.made fd' ctx hctx
      exact ⟨c, List.mem_cons_of_mem _ hc⟩

/-- A context is created where there is one: its first owner is left with another one. -/
theorem GetInv.not_agrees {fd : Nat} {stat : Option Bool} (h : GetInv s)
    (hsome : s.mgr.datas[fd]?.join ≠ none) {s' : GetShared}
    (hstep : s.step (.create fd) (.go stat) = some (s', pc')) : ¬s'.Agrees := by
  cases hstep
  intro hagrees
  obtain ⟨c, hc⟩ := Option.ne_none_iff_exists'.mp hsome
  have hdatas : s.mgr.datas[fd]? = some (some c) := Option.join_eq_some_iff.mp hc
  have hgot := h.given fd c hdatas
  obtain ⟨ctx, hctx, -⟩ := h.fd fd c hgot
  have hlt := (List.getElem?_eq_some_iff.mp hctx).1
  have hnew := (hagrees fd c (List.mem_cons_of_mem _ hgot)).1
  rw [FdManager.create_datas_self h.length] at hnew
  simp only [Option.some.injEq] at hnew
  omega

theorem GetInv.got {fd c : Nat} (h : GetInv s) (hc : (fd, c) ∈ s.got) :
    GetInv { s with got := (fd, c) :: s.got } := by
  have hmem : ∀ x, x ∈ (fd, c) :: s.got → x ∈ s.got := by
    intro x hx
    obtain rfl | hx := List.mem_cons.mp hx
    · exact hc
    · exact hx
  refine ⟨fun fd' c' hc' => h.agrees fd' c' (hmem _ hc'), h.length,
    fun fd' c' hc' => List.mem_cons_of_mem _ (h.given fd' c' hc'),
    fun fd' c' hc' => h.fd fd' c' (hmem _ hc'), fun fd' ctx hctx => ?_⟩
  obtain ⟨c', hc'⟩ := h.made fd' ctx hctx
  exact ⟨c', List.mem_cons_of_mem _ hc'⟩

theorem GetInv.change {fd c : Nat} {f : CtxChange} (h : GetInv s) (hc : (fd, c) ∈ s.got) : GetInv { s with
      mgr := { s.mgr with ctxs := s.mgr.ctxs.modify c f.apply }
      made := Function.update s.made fd ((s.made fd).map f.apply) } := by
  have hget : ∀ c', (s.mgr.ctxs.modify c f.apply)[c']? =
      if c = c' then s.mgr.ctxs[c']?.map f.apply else s.mgr.ctxs[c']? := by
    intro c'
    rw [List.getElem?_modify]
    split <;> simp
  refine ⟨fun fd' c' hc' => ⟨(h.agrees fd' c' hc').1, ?_⟩, h.length, h.given, fun fd' c' hc' => ?_,
    fun fd' ctx hctx => ?_⟩
  · dsimp only
    rw [hget]
    by_cases hfd : fd' = fd
    · subst hfd
      -- both are the one context of the descriptor
      obtain rfl : c = c' := (agrees_iff.mp h.agrees).1 fd' c c' hc hc'
      rw [if_pos rfl, Function.update_self, (h.agrees fd' c hc).2]
    · have hcc : c ≠ c' := by
        rintro rfl
        obtain ⟨ctx, hctx, hctxfd⟩ := h.fd fd c hc
        obtain ⟨ctx', hctx', hctxfd'⟩ := h.fd fd' c hc'
        cases hctx.symm.trans hctx'
        exact hfd (hctxfd'.symm.trans hctxfd)
      rw [if_neg hcc, Function.update_of_ne hfd]
      exact (h.agrees fd' c' hc').2
  · obtain ⟨ctx, hctx, hfd⟩ := h.fd fd' c' hc'
    dsimp only
    rw [hget]
    split
    · exact ⟨f.apply ctx, by rw [hctx]; rfl, (apply_fd f ctx).trans hfd⟩
    · exact ⟨ctx, hctx, hfd⟩
  · by_cases hfd : fd' = fd
    · exact ⟨c, hfd ▸ hc⟩
    · simp only [Function.update_of_ne hfd] at hctx
      exact h.made fd' ctx hctx

/-- **One step**: all agree after it exactly if it creates nothing that is already there. -/
theorem step_agrees (h : GetInv s) (hstep : s.step pc c = some (s', pc')) :
    (s'.Agrees ↔ s.stillNone pc = true) ∧ (s.stillNone pc = true → GetInv s') := by
  have hgood : GetInv s' → s.stillNone pc = true →
      (s'.Agrees ↔ s.stillNone pc = true) ∧ (s.stillNone pc = true → GetInv s') :=
    fun hinv htrue => ⟨iff_of_true hinv.agrees htrue, fun _ => hinv⟩
  have hcases := hstep
  unfold step at hcases
  split at hcases
  · split at hcases
    · next hlookup =>
      cases hcases
      exact hgood (h.got (h.given _ _ (FdManager.lookup_some_iff.mp hlookup))) rfl
    · cases hcases
      exact hgood h rfl
    · cases hcases
      exact hgood h rfl
  · next fd stat =>
    by_cases hnone : s.mgr.datas[fd]?.join = none
    · refine hgood (h.create hnone hstep) ?_
      rw [stillNone, hnone]
      rfl
    · have hfalse : ¬s.stillNone (.create fd) = true := by
        simpa [stillNone] using hnone
      exact ⟨iff_of_false (h.not_agrees hnone hstep) hfalse, fun htrue => absurd htrue hfalse⟩
  · split at hcases
    · next hmem =>
      cases hcases
      exact hgood (h.change hmem) rfl
    · cases hcases
  · cases hcases

end GetShared

/-! ## Runs -/

/-- The threads that use an `FdManager`. -/
abbrev GetSystem (n : Nat) := Threads (Fin n) GetShared GetPc

namespace GetSystem

/-- A step of a thread. -/
abbrev GLabel (n : Nat) := Threads.Label (Fin n) GetChoice Empty

/-- A new manager. -/
def new (n : Nat) : GetSystem n := ⟨{}, fun _ => .out⟩

/-- One step. -/
def step? {n : Nat} (s : GetSystem n) (l : GLabel n) : Option (GetSystem n) :=
  Threads.step? (fun _ => GetShared.step) (fun _ => nofun) s l

/-- If the step creates a context, there is none for the descriptor. -/
def stillNone {n : Nat} (s : GetSystem n) : GLabel n → Bool
  | .thread i _ => s.shared.stillNone (s.thread i)
  | .outer e => nomatch e

end GetSystem

namespace GetSystem

variable {n : Nat} {s s' : GetSystem n} {l : GLabel n}

theorem step_agrees (h : s.shared.GetInv) (hstep : step? s l = some s') :
    (s'.shared.Agrees ↔ stillNone s l = true) ∧ (stillNone s l = true → s'.shared.GetInv) := by
  obtain ⟨i, c, ⟨x, pc'⟩, rfl, hx, rfl⟩ | ⟨e, -⟩ := Threads.step?_cases hstep
  · exact GetShared.step_agrees h hx
  · exact nomatch e

theorem getInv_new : (new n).shared.GetInv := by
  refine ⟨nofun, Nat.le_refl _, fun fd c hc => ?_, nofun, nofun⟩
  have hmem := List.mem_of_getElem? hc
  simp [new] at hmem

end GetSystem

/-- All callers of `get` for a descriptor have got one context, a later `get` finds it, and it has everything that was
set through any of them, in exactly the runs in which no context is created for a descriptor that has one. -/
theorem get_agrees (n : Nat) {r : List (GetSystem.GLabel n × GetSystem n)}
    (hr : Run (fun s l s' => GetSystem.step? s l = some s') (GetSystem.new n) r) : Reached (fun s : GetSystem n =>
        (∀ fd c c', (fd, c) ∈ s.shared.got → (fd, c') ∈ s.shared.got → c = c') ∧ ∀ fd c, (fd, c) ∈ s.shared.got →
          s.shared.mgr.lookup fd true = some (some c) ∧ s.shared.mgr.ctxs[c]? = s.shared.made fd) r ↔
      Meets (fun s l => GetSystem.stillNone s l = true) (GetSystem.new n) r := by
  have hagrees := Run.reached_iff (C := fun s l => GetSystem.stillNone s l = true)
    (I := fun s : GetSystem n => s.shared.GetInv) (P := fun s : GetSystem n => s.shared.Agrees)
    (fun _ _ _ h hstep => (GetSystem.step_agrees h hstep).1)
    (fun _ _ _ h hc hstep => (GetSystem.step_agrees h hstep).2 hc) hr GetSystem.getInv_new
  rw [← hagrees]
  exact ⟨Reached.mono fun _ => GetShared.agrees_iff.mpr, Reached.mono fun _ => GetShared.agrees_iff.mp⟩

/-- A second caller comes when the first has created the context and set a timeout. -/
theorem get_agrees_later : ∃ r : List (GetSystem.GLabel 2 × GetSystem 2),
      Run (fun s l s' => GetSystem.step? s l = some s') (GetSystem.new 2) r ∧
        (lastState (GetSystem.new 2) r).shared.got = [(7, 0), (7, 0)] ∧
        (lastState (GetSystem.new 2) r).shared.mgr.lookup 7 true = some (some 0) := by
  obtain ⟨r, hr, hgot, hnone⟩ := exists_run_of_trace? (f := GetSystem.step?) (s := GetSystem.new 2)
    [.thread 0 (.get 7), .thread 0 (.go (some true)), .thread 0 (.change 7 0 (.setTimeout .recv 100)),
      .thread 1 (.get 7)]
    (P := fun r => (lastState (GetSystem.new 2) r).shared.got = [(7, 0), (7, 0)] ∧
      Meets (fun s l => GetSystem.stillNone s l = true) (GetSystem.new 2) r) (by decide +kernel)
  have hall := ((get_agrees 2 hr).mpr hnone).last (s := GetSystem.new 2) ⟨nofun, nofun⟩
  refine ⟨r, hr, hgot, (hall.2 7 0 ?_).1⟩
  rw [hgot]
  exact List.mem_cons_self

/-- Two threads look the descriptor up before one of them has created a context. The first sets a timeout, the second
replaces the context by one without it. -/
theorem get_differs : ∃ r : List (GetSystem.GLabel 2 × GetSystem 2),
      Run (fun s l s' => GetSystem.step? s l = some s') (GetSystem.new 2) r ∧
        (lastState (GetSystem.new 2) r).shared.got = [(7, 1), (7, 0)] ∧
        ((lastState (GetSystem.new 2) r).shared.made 7).map FdCtx.recvTimeout = some 100 ∧
        ((lastState (GetSystem.new 2) r).shared.mgr.ctx? 7).map FdCtx.recvTimeout = some (2 ^ 64 - 1) := by
  exact exists_run_of_trace?
    [.thread 0 (.get 7), .thread 1 (.get 7), .thread 0 (.go (some true)),
      .thread 0 (.change 7 0 (.setTimeout .recv 100)), .thread 1 (.go (some true))] (by decide +kernel)

end Sherry
