import OtaServer.Lib.Threads

/-!
# The connections of an `HttpConnectionPool` (`sherry/http/http_connection.cc`)

`getConnection` takes the idle connections that cannot be used, up to one that can, out of the list under the lock,
and deletes them and counts them down after it. `ReleasePtr` puts a connection back, or deletes it and counts it down.

* `PoolShared.step`: the steps of the two functions for one thread. `PoolMoves`: what a step makes of the places of
  the connections and of the counter.
* `PoolSystem.Conserved`: the counter, and that each connection is at one place. `pool_total`.
-/

namespace Sherry.Http

open Lib

/-- `m_maxSize`, `m_maxAliveTime` and `m_maxRequest`. -/
structure PoolLimits where
  maxSize : Nat
  maxAliveTime : Nat
  maxRequest : Nat

/-- A connection: `m_createTime`, which nothing assigns, `m_request`, and the time at which it was made. -/
structure PooledConn where
  createTime : Nat := 0
  request : Nat := 0
  made : Nat := 0

/-- The pool, with the connections that were ever made, those that the callers have, and those that were deleted.
Connections are given by their numbers. -/
structure PoolShared where
  /-- `m_conns`. -/
  conns : List Nat := []
  /-- `m_total`, an `int32_t`. -/
  total : BitVec 32 := 0
  all : List PooledConn := []
  leased : List Nat := []
  deleted : List Nat := []

/-- Where a call is. -/
inductive PoolPc where
  | idle
  /-- `getConnection` has read the clock. -/
  | asking (now : Nat)
  /-- It has left the lock, with the connections that are still to be deleted, the number of those that have been, and
  the one to return. -/
  | got (invalid : List Nat) (n : Nat) (ptr : Option Nat)
  | connecting
  | made (c : Nat)
  /-- `ReleasePtr` deletes the connection. -/
  | dropping (c : Nat)
  | dropped
  /-- `ReleasePtr` puts the connection back. -/
  | keeping (c : Nat)
  deriving DecidableEq

/-- What happens next. The checks of the connections are given with the critical section that makes them; a successful
connect is given with the time. -/
inductive PoolChoice where
  | getConnection (now : Nat)
  | take (connected : Nat → Bool)
  | connect (now : Option Nat)
  | release (c : Nat) (connected : Bool) (now : Nat)
  | next

/-- The loop of `getConnection`: the connections that cannot be used, the first that can, and the rest. -/
def takeUsable (usable : Nat → Bool) : List Nat → List Nat × Option Nat × List Nat
  | [] => ([], none, [])
  | c :: conns =>
    if usable c then ([], some c, conns)
    else
      let x := takeUsable usable conns
      (c :: x.1, x.2)

namespace PoolShared

/-- The connection with a number. -/
def conn (s : PoolShared) (c : Nat) : PooledConn := s.all[c]?.getD {}

/-- The checks of `getConnection`. -/
def usable (lim : PoolLimits) (s : PoolShared) (now : Nat) (connected : Nat → Bool) (c : Nat) : Bool :=
  connected c && !decide ((s.conn c).createTime + lim.maxAliveTime > now)

/-- The checks of `ReleasePtr`. -/
def drops (lim : PoolLimits) (x : PooledConn) (now : Nat) (connected : Bool) : Bool :=
  !connected || decide (x.createTime + lim.maxAliveTime ≥ now) || decide (x.request ≥ lim.maxRequest)

/-- A step of `getConnection` or `ReleasePtr`. -/
def step (lim : PoolLimits) (s : PoolShared) : PoolPc → PoolChoice → Option (PoolShared × PoolPc)
  | .idle, .getConnection now => some (s, .asking now)
  | .asking now, .take connected =>
    let x := takeUsable (s.usable lim now connected) s.conns
    some ({ s with conns := x.2.2 }, .got x.1 0 x.2.1)
  | .got (c :: invalid) n ptr, .next => some ({ s with deleted := c :: s.deleted }, .got invalid (n + 1) ptr)
  | .got [] n (some c), .next =>
    some ({ s with total := s.total - BitVec.ofNat 32 n, leased := c :: s.leased }, .idle)
  | .got [] n none, .next => some ({ s with total := s.total - BitVec.ofNat 32 n }, .connecting)
  | .connecting, .connect none => some (s, .idle)
  | .connecting, .connect (some now) => some ({ s with all := s.all ++ [{ made := now }] }, .made s.all.length)
  | .made c, .next => some ({ s with total := s.total + 1, leased := c :: s.leased }, .idle)
  | .idle, .release c connected now =>
    if c ∈ s.leased then
      let x := { s.conn c with request := (s.conn c).request + 1 }
      some ({ s with leased := s.leased.erase c, all := s.all.set c x },
        if drops lim x now connected then .dropping c else .keeping c)
    else none
  | .dropping c, .next => some ({ s with deleted := c :: s.deleted }, .dropped)
  | .dropped, .next => some ({ s with total := s.total - 1 }, .idle)
  | .keeping c, .next => some ({ s with conns := s.conns ++ [c] }, .idle)
  | _, _ => none

/-- The places of a connection outside the calls. -/
def places (s : PoolShared) (c : Nat) : Nat := s.conns.count c + s.leased.count c + s.deleted.count c

/-- The idle connections and the leased ones. -/
def size (s : PoolShared) : Nat := s.conns.length + s.leased.length

end PoolShared

namespace PoolPc

/-- The connections that a call has. -/
def held : PoolPc → List Nat
  | .got invalid _ ptr => invalid ++ ptr.toList
  | .made c | .dropping c | .keeping c => [c]
  | _ => []

/-- The connections of a call that are in the counter. -/
def counted : PoolPc → Nat
  | .got invalid n ptr => invalid.length + n + ptr.toList.length
  | .dropping _ | .dropped | .keeping _ => 1
  | _ => 0

end PoolPc

theorem takeUsable_append (usable : Nat → Bool) (conns : List Nat) :
    (takeUsable usable conns).1 ++ (takeUsable usable conns).2.1.toList ++ (takeUsable usable conns).2.2 = conns := by
  induction conns with
  | nil => rfl
  | cons c conns ih =>
    rw [takeUsable]
    split
    · rfl
    · exact congrArg (c :: ·) ih

/-- What a step makes of the places of the connections, and of the counter. -/
structure PoolMoves (s : PoolShared) (pc : PoolPc) (s' : PoolShared) (pc' : PoolPc) : Prop where
  places : ∀ c, s'.places c + pc'.held.count c + (List.range s.all.length).count c =
    s.places c + pc.held.count c + (List.range s'.all.length).count c
  counted : s'.total + BitVec.ofNat 32 (s.size + pc.counted) = s.total + BitVec.ofNat 32 (s'.size + pc'.counted)

variable {lim : PoolLimits} {s s' : PoolShared} {pc pc' : PoolPc}

theorem PoolMoves.of_perm (hplaces : ∀ c, s'.places c + pc'.held.count c = s.places c + pc.held.count c)
    (hall : s'.all.length = s.all.length) (htotal : s'.total = s.total)
    (hcounted : s'.size + pc'.counted = s.size + pc.counted) : PoolMoves s pc s' pc' := by
  refine ⟨fun c => ?_, ?_⟩
  · rw [hplaces c, hall]
  · rw [htotal, hcounted]

theorem sub_add_ofNat (total : BitVec 32) (n k : Nat) :
    total - BitVec.ofNat 32 n + BitVec.ofNat 32 (n + k) = total + BitVec.ofNat 32 k := by
  rw [BitVec.ofNat_add, ← BitVec.add_assoc, BitVec.sub_add_cancel]

theorem add_one_ofNat (total : BitVec 32) (k : Nat) :
    total + 1 + BitVec.ofNat 32 k = total + BitVec.ofNat 32 (1 + k) := by
  rw [BitVec.ofNat_add, ← BitVec.add_assoc]
  rfl

theorem step_moves {choice : PoolChoice} (h : s.step lim pc choice = some (s', pc')) : PoolMoves s pc s' pc' := by
  unfold PoolShared.step at h
  -- one case for each step of `getConnection` and `ReleasePtr`
  split at h
  · cases h
    exact .of_perm (fun _ => rfl) rfl rfl rfl
  -- the call holds what the search has passed
  · next now connected =>
    cases h
    have happ := takeUsable_append (s.usable lim now connected) s.conns
    refine .of_perm (fun c => ?_) rfl rfl ?_
    · have hcount := congrArg (List.count c) happ
      simp only [List.count_append] at hcount
      simp only [PoolShared.places, PoolPc.held, List.count_append, List.count_nil]
      omega
    · have hlength := congrArg List.length happ
      simp only [List.length_append] at hlength
      simp only [PoolShared.size, PoolPc.counted]
      omega
  · refine .of_perm (fun c => ?_) ?_ ?_ ?_ <;> cases h
    · simp only [PoolShared.places, PoolPc.held, List.cons_append, List.count_cons]
      omega
    · rfl
    · rfl
    · simp only [PoolShared.size, PoolPc.counted, List.length_cons]
      omega
  · next n c =>
    cases h
    refine ⟨fun c' => ?_, ?_⟩
    · simp only [PoolShared.places, PoolPc.held, Option.toList_some, List.nil_append, List.count_cons, List.count_nil]
      omega
    · rw [← sub_add_ofNat s.total n]
      congr 2
      simp only [PoolShared.size, PoolPc.counted, List.length_cons, List.length_nil, Option.toList_some]
      omega
  · next n =>
    cases h
    refine ⟨fun c' => rfl, ?_⟩
    rw [← sub_add_ofNat s.total n]
    congr 2
    simp only [PoolShared.size, PoolPc.counted, List.length_nil, Option.toList_none]
    omega
  · cases h
    exact .of_perm (fun _ => rfl) rfl rfl rfl
  -- a new connection is with the call only
  · next now =>
    cases h
    refine ⟨fun c => ?_, rfl⟩
    simp only [PoolShared.places, PoolPc.held, List.length_append, List.length_singleton, List.range_succ,
      List.count_append, List.count_nil]
    omega
  · next c =>
    cases h
    refine ⟨fun c' => ?_, ?_⟩
    · simp only [PoolShared.places, PoolPc.held, List.count_cons, List.count_nil]
      omega
    · refine (add_one_ofNat s.total _).trans ?_
      congr 2
      simp only [PoolShared.size, PoolPc.counted, List.length_cons]
      omega
  -- a leased connection goes to the call that releases it
  · next c connected now =>
    split at h
    · next hc =>
      have hperm := List.perm_cons_erase hc
      have hheld : pc'.held = [c] ∧ pc'.counted = 1 := by
        cases h
        split <;> exact ⟨rfl, rfl⟩
      refine .of_perm (fun c' => ?_) ?_ ?_ ?_
      · have hcount := hperm.count_eq c'
        rw [hheld.1]
        cases h
        simp only [List.count_cons] at hcount
        simp only [PoolShared.places, PoolPc.held, List.count_cons, List.count_nil]
        omega
      · cases h
        exact List.length_set
      · cases h
        rfl
      · have hlength := hperm.length_eq
        rw [hheld.2]
        cases h
        simp only [List.length_cons] at hlength
        simp only [PoolShared.size, PoolPc.counted]
        omega
    · cases h
  · refine .of_perm (fun c => ?_) ?_ ?_ ?_ <;> cases h
    · simp only [PoolShared.places, PoolPc.held, List.count_cons, List.count_nil]
      omega
    · rfl
    · rfl
    · rfl
  · cases h
    refine ⟨fun c' => rfl, ?_⟩
    rw [← sub_add_ofNat s.total 1]
    congr 2
    simp only [PoolShared.size, PoolPc.counted]
    omega
  · refine .of_perm (fun c => ?_) ?_ ?_ ?_ <;> cases h
    · simp only [PoolShared.places, PoolPc.held, List.count_append, List.count_nil]
      omega
    · rfl
    · rfl
    · simp only [PoolShared.size, PoolPc.counted, List.length_append, List.length_singleton]
      omega
  · cases h

/-- The pool, with the threads that use it. -/
abbrev PoolSystem (ι : Type) := Lib.Threads ι PoolShared PoolPc

/-- A step of a thread. -/
abbrev PoolLabel (ι : Type) := Lib.Threads.Label ι PoolChoice Empty

namespace PoolSystem

variable {ι : Type}

/-- No connection, and no call. -/
def new : PoolSystem ι := ⟨{}, fun _ => .idle⟩

/-- No call is in progress. -/
def Quiet (s : PoolSystem ι) : Prop := ∀ i, s.thread i = .idle

/-- A step of a thread. -/
def step? [DecidableEq ι] (lim : PoolLimits) (s : PoolSystem ι) (l : PoolLabel ι) : Option (PoolSystem ι) :=
  Threads.step? (fun _ => PoolShared.step lim) (fun _ e => e.elim) s l

/-- When no call is in progress the counter is the number of idle and leased connections; no connection is idle and
leased or leased twice; and none of them has been deleted. -/
structure Conserved (s : PoolSystem ι) : Prop where
  total : s.Quiet → s.shared.total = BitVec.ofNat 32 (s.shared.conns.length + s.shared.leased.length)
  once : (s.shared.conns ++ s.shared.leased).Nodup
  alive : ∀ c ∈ s.shared.conns ++ s.shared.leased, c ∉ s.shared.deleted

variable [Fintype ι]

/-- Each connection that was made is at one place, and the counter has those that it should. -/
structure PlacesInv (s : PoolSystem ι) : Prop where
  places : ∀ c, s.shared.places c + ∑ i, (s.thread i).held.count c = (List.range s.shared.all.length).count c
  counted : s.shared.total = BitVec.ofNat 32 (s.shared.size + ∑ i, (s.thread i).counted)

variable {s s' : PoolSystem ι}

theorem PlacesInv.conserved (h : PlacesInv s) : s.Conserved := by
  have hle (c : Nat) : s.shared.places c ≤ 1 := by
    have hc := h.places c
    rw [List.count_range] at hc
    split at hc <;> omega
  refine ⟨fun hquiet => ?_, List.nodup_iff_count_le_one.mpr fun c => ?_, fun c hc hdeleted => ?_⟩
  · rw [h.counted, Finset.sum_eq_zero fun i _ => ?_]
    · rfl
    · rw [hquiet i]
      rfl
  · have := hle c
    rw [PoolShared.places] at this
    rw [List.count_append]
    omega
  · have hpos := List.count_pos_iff.mpr hc
    have hpos' := List.count_pos_iff.mpr hdeleted
    have := hle c
    rw [PoolShared.places] at this
    rw [List.count_append] at hpos
    omega

theorem sum_new (f : PoolPc → Nat) (hf : f .idle = 0) : ∑ i, f ((new : PoolSystem ι).thread i) = 0 :=
  Finset.sum_eq_zero fun _ _ => hf

theorem placesInv_new : PlacesInv (new : PoolSystem ι) := by
  refine ⟨fun c => ?_, ?_⟩
  · rw [sum_new (fun pc => pc.held.count c) rfl]
    rfl
  · rw [sum_new PoolPc.counted rfl]
    rfl

variable [DecidableEq ι] {lim : PoolLimits} {l : PoolLabel ι}

theorem PlacesInv.step (h : PlacesInv s) (hstep : step? lim s l = some s') : PlacesInv s' := by
  obtain ⟨i, choice, x, rfl, hx, rfl⟩ | ⟨e, -⟩ := Threads.step?_cases hstep
  · have hmoves := step_moves hx
    refine ⟨fun c => ?_, ?_⟩
    · have hsum := s.sum_set (i := i) (x := x) fun pc => pc.held.count c
      have hlocal := hmoves.places c
      have hplaces := h.places c
      simp only [Threads.set_shared]
      omega
    · have hsum := s.sum_set (i := i) (x := x) PoolPc.counted
      have hlocal := hmoves.counted
      rw [h.counted, ← BitVec.ofNat_add] at hlocal
      refine (BitVec.add_left_inj (BitVec.ofNat 32 (s.shared.size + (s.thread i).counted))).mp (hlocal.trans ?_)
      rw [← BitVec.ofNat_add]
      congr 1
      simp only [Threads.set_shared]
      omega
  · exact e.elim

end PoolSystem

/-- **Connections are conserved.** After every run of any number of threads. -/
theorem pool_total {ι : Type} [Fintype ι] [DecidableEq ι] {lim : PoolLimits}
    {r : List (PoolLabel ι × PoolSystem ι)}
    (hr : Run (fun s l s' => PoolSystem.step? lim s l = some s') .new r) : (lastState .new r).Conserved :=
  (hr.inv_last (fun _ _ _ hs hstep => hs.step hstep) PoolSystem.placesInv_new).conserved

/-- Two connections are made; one is kept, taken by another thread, and found broken when it is released. -/
theorem pool_total_two : ∃ r, Run (fun s l s' => PoolSystem.step? ⟨1, 10, 5⟩ s l = some s')
      (.new : PoolSystem Bool) r ∧ (lastState .new r).shared.leased = [1] ∧ (lastState .new r).shared.deleted = [0] ∧
    (lastState .new r).shared.total = 1 ∧ (lastState .new r).Conserved := by
  obtain ⟨r, hr, hleased, hdeleted, htotal⟩ := exists_run_of_trace?
    (f := PoolSystem.step? ⟨1, 10, 5⟩) (s := (.new : PoolSystem Bool))
    [.thread false (.getConnection 20), .thread false (.take fun _ => true), .thread false .next,
      .thread true (.getConnection 20), .thread true (.take fun _ => true), .thread true .next,
      .thread false (.connect (some 20)), .thread true (.connect (some 20)), .thread true .next, .thread false .next,
      .thread false (.release 0 true 21), .thread false .next, .thread true (.getConnection 22),
      .thread true (.take fun _ => true), .thread true .next, .thread true (.release 0 false 23), .thread true .next,
      .thread true .next]
    (P := fun r => (lastState .new r).shared.leased = [1] ∧ (lastState .new r).shared.deleted = [0] ∧
      (lastState .new r).shared.total = 1) (by decide +kernel)
  exact ⟨r, hr, hleased, hdeleted, htotal, pool_total hr⟩

end Sherry.Http
