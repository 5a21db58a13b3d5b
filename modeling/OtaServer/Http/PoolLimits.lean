import OtaServer.Http.ConnectionPool

/-!
# The limits of an `HttpConnectionPool` (`sherry/http/http_connection.cc`)

`m_createTime` is never assigned, the checks of the age are the wrong way round, and `m_maxSize` is not read. So an
idle connection is handed out whatever its age, as soon as the clock is past `m_maxAliveTime`, and before that none is
handed out and none is kept.

* `PoolShared.Enforced`, `PoolSystem.SizeOk`: what the limits are for.
* `PoolSystem.Within`: the limits are not reached. `limits_iff`.
-/

namespace Sherry.Http

open Lib

/-- Less than `m_maxAliveTime` has passed since the connection was made. -/
def PooledConn.Young (lim : PoolLimits) (x : PooledConn) (now : Nat) : Prop := now < x.made + lim.maxAliveTime

instance decidableYoung (lim : PoolLimits) (x : PooledConn) (now : Nat) : Decidable (x.Young lim now) :=
  inferInstanceAs (Decidable (now < x.made + lim.maxAliveTime))

/-- The connection that `getConnection` has taken from the idle list. -/
def PoolPc.ptr : PoolPc → Option Nat
  | .got _ _ ptr => ptr
  | _ => none

namespace PoolShared

/-- A connection that is taken from the idle list is young and has served fewer than `m_maxRequest` requests, and one
that is connected and within both limits is kept on release. -/
def Enforced (lim : PoolLimits) (s : PoolShared) (pc : PoolPc) (choice : PoolChoice) : Prop :=
  ∀ x, s.step lim pc choice = some x → match pc, choice with
    | .asking now, .take _ => ∀ c, x.2.ptr = some c →
      (s.conn c).Young lim now ∧ (s.conn c).request < lim.maxRequest
    | .idle, .release c connected now => connected = true → (s.conn c).Young lim now →
      (s.conn c).request + 1 < lim.maxRequest → x.2 = .keeping c
    | _, _ => True

/-- The limits are not reached, with `number` connections: the first idle connection that is connected is young, there
is room for a connection that is made, and a connection that should be kept is released after the time
`m_maxAliveTime`. -/
def Within (lim : PoolLimits) (s : PoolShared) (number : Nat) : PoolPc → PoolChoice → Prop
  | .asking now, .take connected => lim.maxAliveTime ≤ now → ∀ c ∈ s.conns.find? connected,
    (s.conn c).Young lim now
  | .connecting, .connect (some _) => number < lim.maxSize
  | .idle, .release c connected now => c ∈ s.leased → connected = true → (s.conn c).Young lim now →
    (s.conn c).request + 1 < lim.maxRequest → lim.maxAliveTime < now
  | _, _ => True

instance decidableWithin (lim : PoolLimits) (s : PoolShared) (number : Nat) (pc : PoolPc) (choice : PoolChoice) :
    Decidable (s.Within lim number pc choice) := by
  unfold Within
  split <;> infer_instance

end PoolShared

theorem takeUsable_ptr (usable : Nat → Bool) (conns : List Nat) :
    (takeUsable usable conns).2.1 = conns.find? usable := by
  induction conns with
  | nil => rfl
  | cons c conns ih =>
    rw [takeUsable, List.find?_cons]
    cases usable c
    · exact ih
    · rfl

theorem takeUsable_rest (usable : Nat → Bool) (conns : List Nat) : (takeUsable usable conns).2.2.Sublist conns := by
  have happ := takeUsable_append usable conns
  have hsub := List.sublist_append_right ((takeUsable usable conns).1 ++ (takeUsable usable conns).2.1.toList)
    (takeUsable usable conns).2.2
  rwa [happ] at hsub

namespace PoolShared

variable {lim : PoolLimits} {s s' : PoolShared} {pc pc' : PoolPc} {choice : PoolChoice}

/-- Nothing assigns `m_createTime`. -/
def NoTimes (s : PoolShared) : Prop := ∀ x ∈ s.all, x.createTime = 0

theorem NoTimes.conn (h : NoTimes s) (c : Nat) : (s.conn c).createTime = 0 := by
  rw [PoolShared.conn]
  cases hc : s.all[c]? with
  | none => rfl
  | some x => exact h x (List.mem_of_getElem? hc)

theorem NoTimes.step (h : NoTimes s) (hstep : s.step lim pc choice = some (s', pc')) : NoTimes s' := by
  unfold PoolShared.step at hstep
  split at hstep
  case h_7 now =>
    cases hstep
    intro x hx
    obtain hx | hx := List.mem_append.mp hx
    · exact h x hx
    · rw [List.mem_singleton.mp hx]
  case h_9 c connected now =>
    split at hstep
    · cases hstep
      intro x hx
      obtain hx | hx := List.mem_or_eq_of_mem_set hx
      · exact h x hx
      · rw [hx]
        exact h.conn c
    · cases hstep
  all_goals cases hstep <;> exact h

/-- The first idle connection that is connected, once the clock is past `m_maxAliveTime`. -/
theorem NoTimes.ptr_eq_some_iff (h : NoTimes s) {now c : Nat} {connected : Nat → Bool} :
    (takeUsable (s.usable lim now connected) s.conns).2.1 = some c ↔
      lim.maxAliveTime ≤ now ∧ s.conns.find? connected = some c := by
  have husable : s.usable lim now connected = fun c => connected c && decide (lim.maxAliveTime ≤ now) := by
    funext c
    simp only [PoolShared.usable, h.conn c, Nat.zero_add, gt_iff_lt, ← decide_not, Nat.not_lt]
  rw [takeUsable_ptr, husable]
  by_cases hle : lim.maxAliveTime ≤ now
  · simp [hle]
  · have hnone : s.conns.find? (fun c => connected c && decide (lim.maxAliveTime ≤ now)) = none :=
      List.find?_eq_none.mpr fun c _ => by simp [hle]
    rw [hnone]
    exact iff_of_false (Option.some_ne_none c).symm fun h => hle h.1

theorem NoTimes.drops_eq_false_iff (h : NoTimes s) {now c : Nat} {connected : Bool} :
    drops lim { s.conn c with request := (s.conn c).request + 1 } now connected = false ↔
      connected = true ∧ lim.maxAliveTime < now ∧ (s.conn c).request + 1 < lim.maxRequest := by
  simp only [drops, h.conn c, Nat.zero_add, Bool.or_eq_false_iff, Bool.not_eq_false', decide_eq_false_iff_not,
    Nat.not_le, ge_iff_le, and_assoc]

theorem step_conn (hstep : s.step lim pc choice = some (s', pc')) {c : Nat} (hc : c < s.all.length)
    (hleased : c ∉ s.leased) : s'.conn c = s.conn c := by
  unfold PoolShared.step at hstep
  split at hstep
  case h_7 now =>
    cases hstep
    rw [PoolShared.conn, PoolShared.conn, List.getElem?_append_left hc]
  case h_9 c' connected now =>
    split at hstep
    · next hc' =>
      cases hstep
      have hne : c' ≠ c := fun heq => hleased (heq ▸ hc')
      exact congrArg (fun x : Option PooledConn => x.getD {}) (List.getElem?_set_ne hne)
    · cases hstep
  all_goals cases hstep <;> rfl

theorem step_conns (hstep : s.step lim pc choice = some (s', pc')) {c : Nat} (hc : c ∈ s'.conns) :
    c ∈ s.conns ∨ pc = .keeping c := by
  unfold PoolShared.step at hstep
  split at hstep
  case h_2 now connected =>
    cases hstep
    exact .inl ((takeUsable_rest _ _).subset hc)
  case h_9 c' connected now =>
    split at hstep
    · cases hstep
      exact .inl hc
    · cases hstep
  case h_12 c' =>
    cases hstep
    obtain hc | hc := List.mem_append.mp hc
    · exact .inl hc
    · rw [List.mem_singleton.mp hc]
      exact .inr rfl
  all_goals cases hstep <;> exact .inl hc

/-- A connection that is kept is within the limit of requests. -/
theorem step_keeping {c : Nat} (htimes : NoTimes s) (hlength : ∀ c ∈ s.leased, c < s.all.length)
    (hstep : s.step lim pc choice = some (s', .keeping c)) : (s'.conn c).request < lim.maxRequest := by
  unfold PoolShared.step at hstep
  split at hstep
  case h_9 c' connected now =>
    split at hstep
    · next hc' =>
      obtain ⟨rfl, hpc⟩ := Prod.mk.inj (Option.some.inj hstep)
      split at hpc
      · cases hpc
      · next hkeep =>
        cases hpc
        rw [PoolShared.conn, List.getElem?_set_self (hlength c hc')]
        exact (htimes.drops_eq_false_iff.mp (Bool.eq_false_iff.mpr hkeep)).2.2
    · cases hstep
  all_goals cases hstep

/-- A connection is made. -/
def Makes (pc : PoolPc) (choice : PoolChoice) : Prop := pc = .connecting ∧ ∃ now, choice = .connect (some now)

/-- The connections of the pool and of the call become more only when one is made. -/
theorem step_number (hstep : s.step lim pc choice = some (s', pc')) :
    s'.size + pc'.held.length ≤ s.size + pc.held.length ∧ ¬Makes pc choice ∨
      Makes pc choice ∧ s'.size + pc'.held.length = s.size + pc.held.length + 1 := by
  unfold PoolShared.step at hstep
  split at hstep
  case h_2 now connected =>
    cases hstep
    have hlength := congrArg List.length (takeUsable_append (s.usable lim now connected) s.conns)
    simp only [List.length_append] at hlength
    refine .inl ⟨?_, fun h => PoolPc.noConfusion h.1⟩
    simp only [PoolShared.size, PoolPc.held, List.length_append, List.length_nil]
    omega
  -- only `HttpConnection::Create` makes one more
  case h_7 now =>
    cases hstep
    exact .inr ⟨⟨rfl, now, rfl⟩, rfl⟩
  case h_9 c connected now =>
    split at hstep
    · next hc =>
      have hheld : pc'.held = [c] := by
        cases hstep
        split <;> rfl
      have hlength := (List.perm_cons_erase hc).length_eq
      rw [hheld]
      cases hstep
      refine .inl ⟨?_, fun h => PoolPc.noConfusion h.1⟩
      simp only [List.length_cons] at hlength
      simp only [PoolShared.size, PoolPc.held, List.length_singleton, List.length_nil]
      omega
    · cases hstep
  case h_6 =>
    cases hstep
    refine .inl ⟨Nat.le_refl _, ?_⟩
    rintro ⟨-, now, h⟩
    cases h
  case h_13 => cases hstep
  all_goals
    cases hstep
    refine .inl ⟨?_, fun h => PoolPc.noConfusion h.1⟩
    simp only [PoolShared.size, PoolPc.held, List.length_append, List.length_cons, List.length_nil,
      Option.toList_some, Option.toList_none, List.nil_append, List.cons_append]
    omega

/-- A step does what the limits are for exactly if they are not reached, but for the number of connections. -/
theorem enforced_iff {number : Nat} {x : PoolShared × PoolPc} (htimes : NoTimes s)
    (hidle : ∀ c ∈ s.conns, (s.conn c).request < lim.maxRequest) (hstep : s.step lim pc choice = some x) :
    s.Enforced lim pc choice ∧ (Makes pc choice → number < lim.maxSize) ↔ s.Within lim number pc choice := by
  -- most steps hand out, make and put back nothing
  have htrivial {P : Prop} (hP : P) (hmakes : ¬Makes pc choice) : P ∧ (Makes pc choice → number < lim.maxSize) ↔
    True :=
    iff_true_intro ⟨hP, fun h => absurd h hmakes⟩
  unfold PoolShared.step at hstep
  split at hstep
  case h_2 now connected =>
    constructor
    · intro h hle c hc
      exact (h.1 _ rfl c (htimes.ptr_eq_some_iff.mpr ⟨hle, hc⟩)).1
    · intro h
      refine ⟨fun x hx c hc => ?_, fun h => PoolPc.noConfusion h.1⟩
      cases hx
      obtain ⟨hle, hfind⟩ := htimes.ptr_eq_some_iff.mp hc
      exact ⟨h hle c hfind, hidle c (List.mem_of_find?_eq_some hfind)⟩
  case h_6 => exact htrivial (fun _ _ => trivial) fun ⟨_, now, h⟩ => by cases h
  case h_7 now => exact ⟨fun h => h.2 ⟨rfl, now, rfl⟩, fun h => ⟨fun _ _ => trivial, fun _ => h⟩⟩
  case h_9 c connected now =>
    split at hstep
    · next hc =>
      constructor
      · intro h _ hconnected hyoung hrequest
        have hkept := h.1 _ (if_pos hc) hconnected hyoung hrequest
        dsimp only at hkept
        split at hkept
        · cases hkept
        · next hdrops => exact (htimes.drops_eq_false_iff.mp (Bool.eq_false_iff.mpr hdrops)).2.1
      · intro h
        refine ⟨fun x hx hconnected hyoung hrequest => ?_, fun h => PoolPc.noConfusion h.1⟩
        obtain rfl := Option.some.inj ((if_pos hc).symm.trans hx)
        have hdrops := htimes.drops_eq_false_iff.mpr ⟨hconnected, h hc hconnected hyoung hrequest, hrequest⟩
        exact if_neg (Bool.eq_false_iff.mp hdrops)
    · cases hstep
  case h_13 => cases hstep
  all_goals exact htrivial (fun _ _ => trivial) fun h => PoolPc.noConfusion h.1

end PoolShared

namespace PoolSystem

variable {ι : Type} {lim : PoolLimits}

/-- What the limits are for, at a step. -/
def Enforced (lim : PoolLimits) (s : PoolSystem ι) : PoolLabel ι → Prop
  | .thread i choice => s.shared.Enforced lim (s.thread i) choice
  | .outer _ => True

section

variable [Fintype ι]

/-- The connections: idle, leased, and in the hands of the calls in progress. -/
def number (s : PoolSystem ι) : Nat := s.shared.size + ∑ i, (s.thread i).held.length

/-- There are no more connections than `m_maxSize`. -/
def SizeOk (lim : PoolLimits) (s : PoolSystem ι) : Prop := s.number ≤ lim.maxSize

/-- The limits are not reached. -/
def Within (lim : PoolLimits) (s : PoolSystem ι) : PoolLabel ι → Prop
  | .thread i choice => s.shared.Within lim s.number (s.thread i) choice
  | .outer _ => True

instance decidableSystemWithin (lim : PoolLimits) (s : PoolSystem ι) : ∀ l, Decidable (Within lim s l)
  | .thread i choice => inferInstanceAs (Decidable (s.shared.Within lim s.number (s.thread i) choice))
  | .outer _ => isTrue trivial

variable {s s' : PoolSystem ι}

/-- A connection that is idle, or in the hands of a call, is not leased. -/
theorem PlacesInv.unleased {c : Nat} (h : PlacesInv s)
    (hc : 0 < s.shared.conns.count c + ∑ i, (s.thread i).held.count c) :
    c < s.shared.all.length ∧ c ∉ s.shared.leased := by
  have hplaces := h.places c
  rw [List.count_range, PoolShared.places] at hplaces
  split at hplaces
  · next hlt =>
    refine ⟨hlt, fun hleased => ?_⟩
    have := List.count_pos_iff.mpr hleased
    omega
  · omega

theorem PlacesInv.leased {c : Nat} (h : PlacesInv s) (hc : c ∈ s.shared.leased) : c < s.shared.all.length := by
  have hplaces := h.places c
  have hpos := List.count_pos_iff.mpr hc
  rw [List.count_range, PoolShared.places] at hplaces
  split at hplaces
  · next hlt => exact hlt
  · omega

/-- The places, and that the connections that are idle or are put back are within the limit of requests. -/
structure LimitInv (lim : PoolLimits) (s : PoolSystem ι) : Prop where
  places : PlacesInv s
  times : s.shared.NoTimes
  idle : ∀ c ∈ s.shared.conns, (s.shared.conn c).request < lim.maxRequest
  keeping : ∀ i c, s.thread i = .keeping c → (s.shared.conn c).request < lim.maxRequest
  size : SizeOk lim s

theorem PlacesInv.idle {c : Nat} (h : PlacesInv s) (hc : c ∈ s.shared.conns) :
    c < s.shared.all.length ∧ c ∉ s.shared.leased :=
  h.unleased (Nat.add_pos_left (List.count_pos_iff.mpr hc) _)

theorem PlacesInv.keeping {i : ι} {c : Nat} (h : PlacesInv s) (hi : s.thread i = .keeping c) :
    c < s.shared.all.length ∧ c ∉ s.shared.leased := by
  have hle := s.le_sum (fun pc => pc.held.count c) i
  have hone : (s.thread i).held.count c = 1 := by
    rw [hi]
    exact List.count_singleton_self
  exact h.unleased (by omega)

theorem limitInv_new : LimitInv lim (new : PoolSystem ι) := by
  refine ⟨placesInv_new, fun x hx => absurd hx List.not_mem_nil, fun c hc => absurd hc List.not_mem_nil,
    fun i c hi => PoolPc.noConfusion hi, ?_⟩
  rw [SizeOk, number, sum_new (fun pc => pc.held.length) rfl]
  exact Nat.zero_le _

variable [DecidableEq ι] {l : PoolLabel ι}

theorem LimitInv.step (h : LimitInv lim s) (hstep : step? lim s l = some s') (hsize : SizeOk lim s') :
    LimitInv lim s' := by
  have hplaces := h.places.step hstep
  obtain ⟨i, choice, x, rfl, hx, rfl⟩ | ⟨e, -⟩ := Threads.step?_cases hstep
  · have hconn {c : Nat} (hc : c < s.shared.all.length ∧ c ∉ s.shared.leased)
        (hlt : (s.shared.conn c).request < lim.maxRequest) : (x.1.conn c).request < lim.maxRequest := by
      rw [PoolShared.step_conn hx hc.1 hc.2]
      exact hlt
    refine ⟨hplaces, h.times.step hx, fun c hc => ?_, ?_, hsize⟩
    · obtain hc | hpc := PoolShared.step_conns hx hc
      · exact hconn (h.places.idle hc) (h.idle c hc)
      · exact hconn (h.places.keeping hpc) (h.keeping i c hpc)
    · refine Threads.forall_set (P := fun pc => ∀ c, pc = PoolPc.keeping c →
        (x.1.conn c).request < lim.maxRequest) (fun j c hj => hconn (h.places.keeping hj) (h.keeping j c hj)) ?_
      intro c hpc
      obtain ⟨shared, pc⟩ := x
      subst hpc
      exact PoolShared.step_keeping h.times (fun c hc => h.places.leased hc) hx
  · exact e.elim

theorem number_set {i : ι} {x : PoolShared × PoolPc} :
    number (s.set i x) + (s.shared.size + (s.thread i).held.length) = s.number + (x.1.size + x.2.held.length) := by
  have hsum := s.sum_set (i := i) (x := x) fun pc => pc.held.length
  simp only [number, Threads.set_shared]
  omega

/-- A step is good exactly if the limits are not reached at it. -/
theorem LimitInv.within_iff (h : LimitInv lim s) (hstep : step? lim s l = some s') :
    Enforced lim s l ∧ SizeOk lim s' ↔ Within lim s l := by
  obtain ⟨i, choice, x, rfl, hx, rfl⟩ | ⟨e, -⟩ := Threads.step?_cases hstep
  · have hsize := h.size
    have hnumber := number_set (s := s) (i := i) (x := x)
    have hlocal := PoolShared.step_number hx
    have hsizes : SizeOk lim (s.set i x) ↔ (PoolShared.Makes (s.thread i) choice → s.number < lim.maxSize) := by
      rw [SizeOk] at hsize ⊢
      obtain ⟨hle, hmakes⟩ | ⟨hmakes, heq⟩ := hlocal
      · exact ⟨fun _ h => absurd h hmakes, fun _ => by omega⟩
      · exact ⟨fun h _ => by omega, fun h => by have := h hmakes; omega⟩
    rw [Enforced, Within, hsizes]
    exact PoolShared.enforced_iff h.times h.idle hx
  · exact e.elim

end

end PoolSystem

/-- **The limits of the pool.** Over every run they are kept to exactly when they are not reached. -/
theorem limits_iff {ι : Type} [Fintype ι] [DecidableEq ι] (lim : PoolLimits) {r : List (PoolLabel ι × PoolSystem ι)}
    (hr : Run (fun s l s' => PoolSystem.step? lim s l = some s') .new r) :
    Meets (PoolSystem.Enforced lim) .new r ∧ Reached (PoolSystem.SizeOk lim) r ↔
      Meets (PoolSystem.Within lim) .new r :=
  Run.meets_reached_iff (C := PoolSystem.Within lim) (I := PoolSystem.LimitInv lim)
    (fun _ _ _ hs hstep => hs.within_iff hstep)
    (fun _ _ _ hs hwithin hstep => hs.step hstep ((hs.within_iff hstep).mpr hwithin).2) hr PoolSystem.limitInv_new

/-- One connection is made, and handed out again while it is young. -/
theorem limits_kept : ∃ r, Run (fun s l s' => PoolSystem.step? ⟨1, 10, 5⟩ s l = some s') (.new : PoolSystem Unit) r ∧
    (lastState .new r).shared.leased = [0] ∧ Meets (PoolSystem.Enforced ⟨1, 10, 5⟩) .new r := by
  obtain ⟨r, hr, hleased, hwithin⟩ := exists_run_of_trace?
    (f := PoolSystem.step? ⟨1, 10, 5⟩) (s := (.new : PoolSystem Unit))
    [.thread () (.getConnection 20), .thread () (.take fun _ => true), .thread () .next,
      .thread () (.connect (some 20)), .thread () .next, .thread () (.release 0 true 21), .thread () .next,
      .thread () (.getConnection 29), .thread () (.take fun _ => true), .thread () .next]
    (P := fun r => (lastState .new r).shared.leased = [0] ∧ Meets (PoolSystem.Within ⟨1, 10, 5⟩) .new r)
    (by decide +kernel)
  exact ⟨r, hr, hleased, ((limits_iff _ hr).mpr hwithin).1⟩

/-- With room for one connection that lives for 10: two connections are made; one that was made at 20 is handed out at
100; and one that was made at 5 is not kept at 6. -/
theorem limits_ignored :
    (∃ r, Run (fun s l s' => PoolSystem.step? ⟨1, 10, 5⟩ s l = some s') (.new : PoolSystem Unit) r ∧
      ¬PoolSystem.SizeOk ⟨1, 10, 5⟩ (lastState .new r)) ∧
    (∃ r, Run (fun s l s' => PoolSystem.step? ⟨1, 10, 5⟩ s l = some s') (.new : PoolSystem Unit) r ∧
      ¬PoolSystem.Enforced ⟨1, 10, 5⟩ (lastState .new r) (.thread () (.take fun _ => true))) ∧
    ∃ r, Run (fun s l s' => PoolSystem.step? ⟨1, 10, 5⟩ s l = some s') (.new : PoolSystem Unit) r ∧
      ¬PoolSystem.Enforced ⟨1, 10, 5⟩ (lastState .new r) (.thread () (.release 0 true 6)) := by
  refine ⟨?_, ?_, ?_⟩
  -- a second connection where one is allowed
  · obtain ⟨r, hr, hlast⟩ := exists_run_of_trace? (f := PoolSystem.step? ⟨1, 10, 5⟩) (s := (.new : PoolSystem Unit))
      [.thread () (.getConnection 20), .thread () (.take fun _ => true), .thread () .next,
        .thread () (.connect (some 20)), .thread () .next, .thread () (.getConnection 20),
        .thread () (.take fun _ => true), .thread () .next, .thread () (.connect (some 20)), .thread () .next]
      (P := fun r => (lastState .new r).number = 2) (by decide +kernel)
    refine ⟨r, hr, fun hsize => ?_⟩
    rw [PoolSystem.SizeOk, hlast] at hsize
    exact absurd hsize (by decide)
  -- a connection of time 20 is handed out at 100
  · obtain ⟨r, hr, hpc, hconns, htime, hmade⟩ := exists_run_of_trace?
      (f := PoolSystem.step? ⟨1, 10, 5⟩) (s := (.new : PoolSystem Unit))
      [.thread () (.getConnection 20), .thread () (.take fun _ => true), .thread () .next,
        .thread () (.connect (some 20)), .thread () .next, .thread () (.release 0 true 21), .thread () .next,
        .thread () (.getConnection 100)]
      (P := fun r => (lastState .new r).thread () = .asking 100 ∧ (lastState .new r).shared.conns = [0] ∧
        ((lastState .new r).shared.conn 0).createTime = 0 ∧ ((lastState .new r).shared.conn 0).made = 20)
      (by decide +kernel)
    refine ⟨r, hr, fun henforced => ?_⟩
    rw [PoolSystem.Enforced, hpc] at henforced
    have hptr : (takeUsable ((lastState .new r).shared.usable ⟨1, 10, 5⟩ 100 fun _ => true)
        (lastState .new r).shared.conns).2.1 = some 0 := by
      rw [takeUsable_ptr, hconns, List.find?_cons, PoolShared.usable, htime]
      rfl
    have hyoung := (henforced _ rfl 0 hptr).1
    rw [PooledConn.Young, hmade] at hyoung
    exact absurd hyoung (by decide)
  -- a connection of time 5 is dropped at 6
  · obtain ⟨r, hr, hpc, hleased, htime, hrequest, hmade⟩ := exists_run_of_trace?
      (f := PoolSystem.step? ⟨1, 10, 5⟩) (s := (.new : PoolSystem Unit))
      [.thread () (.getConnection 5), .thread () (.take fun _ => true), .thread () .next,
        .thread () (.connect (some 5)), .thread () .next]
      (P := fun r => (lastState .new r).thread () = .idle ∧ (lastState .new r).shared.leased = [0] ∧
        ((lastState .new r).shared.conn 0).createTime = 0 ∧ ((lastState .new r).shared.conn 0).request = 0 ∧
        ((lastState .new r).shared.conn 0).made = 5) (by decide +kernel)
    refine ⟨r, hr, fun henforced => ?_⟩
    rw [PoolSystem.Enforced, hpc] at henforced
    have hkept := henforced _ (if_pos (by rw [hleased]; exact List.mem_singleton_self 0)) rfl
      (by rw [PooledConn.Young, hmade]; decide) (by rw [hrequest]; decide)
    dsimp only at hkept
    rw [if_pos (by rw [PoolShared.drops, htime, hrequest]; rfl)] at hkept
    cases hkept

end Sherry.Http
