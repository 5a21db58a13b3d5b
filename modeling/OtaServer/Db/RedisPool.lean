import OtaServer.Lib.Bytes
import OtaServer.Lib.Threads

/-!
# The connections of `RedisManager` (`sherry/db/redis.cc`)

`get` takes a connection out of its pool under the lock, tests it without the lock, and puts it back or hands it out;
the deleter of what it hands out puts it back.

* `RedisPools`: the connections, `m_datas`, and the leases. `RedisPools.init`.
* `RedisPools.step`: `get`, cut at its locks. `freeRedis`: the end of a lease.
* `PoolInv`: what is counted in a pool, with what is out of it, stays the same. `redis_conserved`.
-/

namespace Sherry

open Lib

/-- `IRedis::Type`. -/
inductive RedisType where
  | redis | redisCluster | foxRedis | foxRedisCluster

namespace RedisType

/-- The type in the configuration. -/
def ofName (type : Bytes) : Option RedisType :=
  if type = str "redis" then some .redis
  else if type = str "redis_cluster" then some .redisCluster
  else if type = str "fox_redis" then some .foxRedis
  else if type = str "fox_redis_cluster" then some .foxRedisCluster
  else none

/-- An `ISyncRedis`. -/
def sync : RedisType → Bool
  | .redis | .redisCluster => true
  | .foxRedis | .foxRedisCluster => false

end RedisType

/-- An `IRedis`. -/
structure RedisConn where
  name : Bytes
  type : RedisType
  lastActiveTime : Nat

/-- The configuration of a pool. -/
structure RedisConf where
  name : Bytes
  type : Bytes
  pool : Int

/-- The connections of a `RedisManager`, each by its number. -/
structure RedisPools where
  conns : List RedisConn := []
  /-- `m_datas`. A name that is not in the map has an empty list. -/
  datas : Bytes → List Nat := fun _ => []
  /-- The connections that `get` has handed out. -/
  leases : List Nat := []

/-- Where a thread is: it has taken a connection out of the pool, and tests it. -/
inductive RedisPc where
  | out
  | probe (name : Bytes) (c : Nat)

/-- What the call of `get` holds. -/
def RedisPc.held : RedisPc → List Nat
  | .out => []
  | .probe _ c => [c]

/-- What a thread does next. -/
inductive RedisChoice where
  | get (name : Bytes)
  /-- It goes on, at this time, with what `cmd("ping")` and `reconnect` return. -/
  | go (now : Nat) (ping reconnect : Bool)

namespace RedisPools

/-- A connection is made and put into its pool. -/
def add (s : RedisPools) (name : Bytes) (type : RedisType) (now : Nat → Nat) : RedisPools :=
  { s with
    conns := s.conns ++ [{ name, type, lastActiveTime := now s.conns.length }]
    datas := Function.update s.datas name (s.datas name ++ [s.conns.length]) }

/-- The connections of one pool. -/
def addPool (now : Nat → Nat) (s : RedisPools) (conf : RedisConf) : RedisPools :=
  match RedisType.ofName conf.type with
  | some type => (fun s => add s conf.name type now)^[conf.pool.toNat] s
  | none => s

/-- `RedisManager::init`, at the end. -/
def init (config : List RedisConf) (now : Nat → Nat) : RedisPools := config.foldl (addPool now) {}

/-- `get`: up to where it gives up the lock, and from there on. -/
def step (s : RedisPools) : RedisPc → RedisChoice → Option (RedisPools × RedisPc)
  | .out, .get name =>
    match s.datas name with
    | [] => some (s, .out)
    | c :: rest => do
      let conn ← s.conns[c]?
      if conn.type.sync then
        return ({ s with datas := Function.update s.datas name rest }, .probe name c)
      else return ({ s with datas := Function.update s.datas name (rest ++ [c]) }, .out)
  | .probe name c, .go now ping reconnect => do
    let conn ← s.conns[c]?
    if (now + 2 ^ 64 - conn.lastActiveTime) % 2 ^ 64 > 30 && !ping && !reconnect then
      return ({ s with datas := Function.update s.datas name (s.datas name ++ [c]) }, .out)
    else
      return ({ s with
        conns := s.conns.set c { conn with lastActiveTime := now }
        leases := c :: s.leases }, .out)
  | _, _ => none

/-- `freeRedis`: a lease ends. -/
def freeRedis (s : RedisPools) (c : Nat) : Option RedisPools :=
  if c ∈ s.leases then do
    let conn ← s.conns[c]?
    return { s with
      datas := Function.update s.datas conn.name (s.datas conn.name ++ [c])
      leases := s.leases.erase c }
  else none

/-- The name and the type of a connection. -/
def ident (s : RedisPools) (c : Nat) : Option (Bytes × RedisType) :=
  s.conns[c]?.map fun conn => (conn.name, conn.type)

/-- The connection belongs to the pool. -/
def inPool (s : RedisPools) (name : Bytes) (c : Nat) : Bool := (s.ident c).any fun x => x.1 == name

end RedisPools

/-- The threads that use a `RedisManager`. -/
abbrev RedisSystem (n : Nat) := Threads (Fin n) RedisPools RedisPc

namespace RedisSystem

/-- A step of a thread, or of time. -/
abbrev RLabel (n : Nat) := Threads.Label (Fin n) RedisChoice Nat

/-- After `init`. -/
def new (n : Nat) (config : List RedisConf) (now : Nat → Nat) : RedisSystem n := ⟨.init config now, fun _ => .out⟩

/-- One step: of a call of `get`, or the end of a lease. -/
def step? {n : Nat} (s : RedisSystem n) (l : RLabel n) : Option (RedisSystem n) :=
  Threads.step? (fun _ => RedisPools.step) RedisPools.freeRedis s l

/-- Every synchronous connection is free in its own pool, handed out, or held by a call of `get`, at one place and
once; and each pool has as many connections as `s₀` has in its list. -/
def Conserved {n : Nat} (s₀ : RedisPools) (s : RedisSystem n) : Prop :=
  (∀ c conn, s.shared.conns[c]? = some conn → conn.type.sync = true →
    (s.shared.datas conn.name).count c + s.shared.leases.count c + ∑ i, (s.thread i).held.count c = 1 ∧
      ∀ name, name ≠ conn.name → c ∉ s.shared.datas name) ∧
  ∀ name, (s.shared.datas name).length + s.shared.leases.countP (s.shared.inPool name) +
      ∑ i, (s.thread i).held.countP (s.shared.inPool name) = (s₀.datas name).length

/-- The connections of a pool that are tested by `p`, wherever they are. -/
def count {n : Nat} (s : RedisSystem n) (name : Bytes) (p : Nat → Bool) : Nat :=
  (s.shared.datas name).countP p + s.shared.leases.countP (fun c => s.shared.inPool name c && p c) +
    ∑ i, (s.thread i).held.countP fun c => s.shared.inPool name c && p c

end RedisSystem

namespace RedisPools

variable {s s' : RedisPools} {pc pc' : RedisPc} {name name' : Bytes} {c : Nat}

theorem inPool_iff : s.inPool name c = true ↔ ∃ type, s.ident c = some (name, type) := by
  unfold inPool
  cases s.ident c with
  | none => exact iff_of_false nofun (fun ⟨_, h⟩ => nomatch h)
  | some x =>
    rw [Option.any_some, beq_iff_eq]
    constructor
    · rintro rfl
      exact ⟨x.2, rfl⟩
    · rintro ⟨type, h⟩
      cases h
      rfl

theorem inPool_ne (h : s.inPool name c = true) (hne : name' ≠ name) : s.inPool name' c = false := by
  refine Bool.eq_false_iff.mpr fun h' => hne ?_
  obtain ⟨type, htype⟩ := inPool_iff.mp h
  obtain ⟨type', htype'⟩ := inPool_iff.mp h'
  cases htype.symm.trans htype'
  rfl

theorem inPool_of_ident (h : ∀ c, s'.ident c = s.ident c) (name : Bytes) (c : Nat) :
    s'.inPool name c = s.inPool name c := by
  rw [inPool, inPool, h c]

/-- The lists hold connections of their pools, and so does a call of `get`. -/
structure Placed (s : RedisPools) (pc : RedisPc) : Prop where
  free : ∀ name, ∀ c ∈ s.datas name, s.inPool name c = true
  probe : ∀ name c, pc = .probe name c → s.inPool name c = true

/-- The connections of a pool that are tested by `p`: free, handed out, or held by this call. -/
def tally (s : RedisPools) (pc : RedisPc) (name : Bytes) (p : Nat → Bool) : Nat :=
  (s.datas name).countP p + s.leases.countP (fun c => s.inPool name c && p c) +
    pc.held.countP fun c => s.inPool name c && p c

theorem countP_push (name' : Bytes) (p : Nat → Bool) (hc : s.inPool name c = true) :
    (Function.update s.datas name (s.datas name ++ [c]) name').countP p =
      (s.datas name').countP p + [c].countP fun c => s.inPool name' c && p c := by
  by_cases hne : name' = name
  · subst hne
    rw [Function.update_self, List.countP_append, List.countP_singleton, List.countP_singleton, hc, Bool.true_and]
  · rw [Function.update_of_ne hne, List.countP_singleton, inPool_ne hc hne]
    rfl

theorem countP_pop (name' : Bytes) (p : Nat → Bool) {rest : List Nat} (hdatas : s.datas name = c :: rest)
    (hc : s.inPool name c = true) :
    (Function.update s.datas name rest name').countP p + ([c].countP fun c => s.inPool name' c && p c) =
      (s.datas name').countP p := by
  by_cases hne : name' = name
  · subst hne
    rw [Function.update_self, hdatas, List.countP_singleton, List.countP_cons, hc, Bool.true_and]
  · rw [Function.update_of_ne hne, List.countP_singleton, inPool_ne hc hne]
    rfl

theorem free_update {l : List Nat} (h : ∀ name, ∀ c ∈ s.datas name, s.inPool name c = true)
    (hl : ∀ c ∈ l, s.inPool name c = true) (name' : Bytes) :
    ∀ c ∈ Function.update s.datas name l name', s.inPool name' c = true := by
  intro c hc
  by_cases hne : name' = name
  · subst hne
    rw [Function.update_self] at hc
    exact hl c hc
  · rw [Function.update_of_ne hne] at hc
    exact h name' c hc

theorem ident_set {conn : RedisConn} (hconn : s.conns[c]? = some conn) (now : Nat) (leases : List Nat) (d : Nat) :
    ident { s with conns := s.conns.set c { conn with lastActiveTime := now }, leases } d = s.ident d := by
  unfold ident
  dsimp only
  rw [List.getElem?_set]
  split
  · next heq =>
    subst heq
    rw [hconn, if_pos (List.getElem?_eq_some_iff.mp hconn).1]
    rfl
  · rfl

/-- **One step of `get`** loses no connection and makes none. -/
theorem step_tally {choice : RedisChoice} (h : Placed s pc) (hstep : s.step pc choice = some (s', pc')) :
    (∀ c, s'.ident c = s.ident c) ∧ Placed s' pc' ∧ ∀ name p, s'.tally pc' name p = s.tally pc name p := by
  unfold step at hstep
  split at hstep
  · next name =>
    split at hstep
    · cases hstep
      exact ⟨fun _ => rfl, h, fun _ _ => rfl⟩
    · next c rest hdatas =>
      have hc : s.inPool name c = true := h.free name c (hdatas ▸ List.mem_cons_self)
      have hrest : ∀ d ∈ rest, s.inPool name d = true := fun d hd =>
        h.free name d (hdatas ▸ List.mem_cons_of_mem _ hd)
      obtain ⟨conn, -, hstep⟩ := Option.bind_eq_some_iff.mp hstep
      split at hstep
      · -- it is taken out of the pool
        cases hstep
        refine ⟨fun _ => rfl, ⟨free_update h.free hrest, fun name' d heq => ?_⟩, fun name' p => ?_⟩
        · cases heq
          exact hc
        · have hpop := countP_pop name' p hdatas hc
          simp only [tally, RedisPc.held, List.countP_nil]
          change _ + List.countP (fun c => s.inPool name' c && p c) s.leases +
            List.countP (fun c => s.inPool name' c && p c) [c] = _
          omega
      · -- it goes to the end of the list
        cases hstep
        have hend : ∀ d ∈ rest ++ [c], s.inPool name d = true :=
          List.forall_mem_append.mpr ⟨hrest, List.forall_mem_singleton.mpr hc⟩
        refine ⟨fun _ => rfl, ⟨free_update h.free hend, nofun⟩, fun name' p => ?_⟩
        have hsame : (Function.update s.datas name (rest ++ [c]) name').countP p = (s.datas name').countP p := by
          by_cases hne : name' = name
          · rw [hne, Function.update_self, hdatas]
            exact (List.perm_append_singleton c rest).countP_eq p
          · rw [Function.update_of_ne hne]
        simp only [tally, RedisPc.held, List.countP_nil, hsame]
        rfl
  · next name c now ping reconnect =>
    have hc := h.probe name c rfl
    obtain ⟨conn, hconn, hstep⟩ := Option.bind_eq_some_iff.mp hstep
    split at hstep
    · -- it is put back
      cases hstep
      have hend : ∀ d ∈ s.datas name ++ [c], s.inPool name d = true :=
        List.forall_mem_append.mpr ⟨h.free name, List.forall_mem_singleton.mpr hc⟩
      refine ⟨fun _ => rfl, ⟨free_update h.free hend, nofun⟩, fun name' p => ?_⟩
      have hpush := countP_push name' p hc
      simp only [tally, RedisPc.held, List.countP_nil, hpush]
      change _ + _ + List.countP (fun c => s.inPool name' c && p c) s.leases + 0 = _
      omega
    · -- it is handed out
      cases hstep
      have hident := ident_set hconn now (c :: s.leases)
      have hpool := fun name => inPool_of_ident hident name
      refine ⟨hident, ⟨fun name' d hd => (hpool name' d).trans (h.free name' d hd), nofun⟩, fun name' p => ?_⟩
      simp only [tally, RedisPc.held, List.countP_nil, hpool, List.countP_cons]
      omega
  · cases hstep

/-- **The end of a lease** loses no connection and makes none. -/
theorem freeRedis_tally (h : Placed s pc) (hstep : s.freeRedis c = some s') :
    (∀ c, s'.ident c = s.ident c) ∧ Placed s' pc ∧ ∀ name p, s'.tally pc name p = s.tally pc name p := by
  unfold freeRedis at hstep
  split at hstep
  · next hmem =>
    obtain ⟨conn, hconn, heq⟩ := Option.bind_eq_some_iff.mp hstep
    cases heq
    have hc : s.inPool conn.name c = true := inPool_iff.mpr ⟨conn.type, by rw [ident, hconn]; rfl⟩
    have hend : ∀ d ∈ s.datas conn.name ++ [c], s.inPool conn.name d = true :=
      List.forall_mem_append.mpr ⟨h.free conn.name, List.forall_mem_singleton.mpr hc⟩
    refine ⟨fun _ => rfl, ⟨free_update h.free hend, h.probe⟩, fun name p => ?_⟩
    have hpush := countP_push name p hc
    have herase := (List.perm_cons_erase hmem).countP_eq fun d => s.inPool name d && p d
    rw [List.countP_cons] at herase
    rw [List.countP_singleton] at hpush
    simp only [tally, hpush]
    change _ + _ + List.countP (fun d => s.inPool name d && p d) (s.leases.erase c) +
      List.countP (fun d => s.inPool name d && p d) pc.held = _
    omega
  · cases hstep

/-! ## `init` -/

/-- Each connection is in its pool, once. -/
structure Fresh (s : RedisPools) : Prop where
  count : ∀ name c, (s.datas name).count c = if s.inPool name c then 1 else 0
  leases : s.leases = []

theorem Fresh.add {type : RedisType} {now : Nat → Nat} (h : Fresh s) : Fresh (s.add name type now) := by
  refine ⟨fun name' c => ?_, h.leases⟩
  have hold := h.count name' c
  have hlen : s.inPool name' s.conns.length = false := by simp [inPool, ident]
  by_cases hc : c = s.conns.length
  · subst hc
    rw [hlen] at hold
    by_cases hne : name' = name
    · subst hne
      simp [RedisPools.add, inPool, ident, hold]
    · simp [RedisPools.add, inPool, ident, hne, hold, Ne.symm hne]
  · have hsame : (s.add name type now).inPool name' c = s.inPool name' c := by
      unfold inPool ident RedisPools.add
      dsimp only
      rw [List.getElem?_append]
      split
      · rfl
      · next hlt =>
        rw [List.getElem?_eq_none (Nat.le_of_not_lt hlt), List.getElem?_eq_none]
        simp only [List.length_singleton]
        omega
    rw [hsame, ← hold]
    by_cases hne : name' = name
    · subst hne
      simp [RedisPools.add, List.count_append, Ne.symm hc]
    · simp [RedisPools.add, hne]

theorem Fresh.addPool {now : Nat → Nat} {conf : RedisConf} (h : Fresh s) : Fresh (s.addPool now conf) := by
  unfold RedisPools.addPool
  split
  · next type _ =>
    induction conf.pool.toNat with
    | zero => exact h
    | succ k ih =>
      rw [Function.iterate_succ_apply']
      exact ih.add
  · exact h

theorem fresh_init (config : List RedisConf) (now : Nat → Nat) : Fresh (init config now) := by
  unfold init
  have hempty : Fresh {} := ⟨fun _ _ => rfl, rfl⟩
  generalize ({} : RedisPools) = s at hempty
  induction config generalizing s with
  | nil => exact hempty
  | cons conf config ih => exact ih _ hempty.addPool

theorem Fresh.placed (h : Fresh s) : Placed s .out := by
  refine ⟨fun name c hc => ?_, nofun⟩
  have hcount := h.count name c
  have hpos := List.count_pos_iff.mpr hc
  by_contra hnot
  rw [if_neg hnot] at hcount
  omega

end RedisPools

/-! ## Runs -/

namespace RedisSystem

open RedisPools (Placed)

variable {n : Nat} {s s' : RedisSystem n} {s₀ : RedisPools} {l : RLabel n}

/-- What holds in every state, where `s₀` is what `init` has made. -/
structure PoolInv (s₀ : RedisPools) (s : RedisSystem n) : Prop where
  ident : ∀ c, s.shared.ident c = s₀.ident c
  free : Placed s.shared .out
  probe : ∀ i, Placed s.shared (s.thread i)
  count : ∀ name p, count s name p = (s₀.datas name).countP p

theorem PoolInv.step (h : PoolInv s₀ s) (hstep : step? s l = some s') : PoolInv s₀ s' := by
  obtain ⟨i, c, ⟨x, pc'⟩, rfl, hx, rfl⟩ | ⟨c, x, rfl, hx, rfl⟩ := Threads.step?_cases hstep
  · obtain ⟨hident, hplaced, htally⟩ := RedisPools.step_tally (h.probe i) hx
    have hpool := RedisPools.inPool_of_ident hident
    refine ⟨fun d => (hident d).trans (h.ident d), ⟨hplaced.free, nofun⟩, fun k => ?_, fun name p => ?_⟩
    · by_cases hk : k = i
      · rw [hk, Threads.set_thread_self]
        exact hplaced
      · rw [Threads.set_thread_ne hk]
        exact ⟨hplaced.free, fun name d hd => (hpool name d).trans ((h.probe k).probe name d hd)⟩
    · have hsum := Threads.sum_set (s := s) (i := i) (x := (x, pc')) fun pc =>
        pc.held.countP fun d => s.shared.inPool name d && p d
      dsimp only at hsum
      have hone := htally name p
      rw [← h.count name p]
      simp only [RedisPools.tally, hpool] at hone
      simp only [RedisSystem.count, Threads.set_shared, hpool]
      omega
  · obtain ⟨hident, hplaced, -⟩ := RedisPools.freeRedis_tally h.free hx
    have hpool := RedisPools.inPool_of_ident hident
    refine ⟨fun d => (hident d).trans (h.ident d), hplaced, fun k => ?_, fun name p => ?_⟩
    · exact (RedisPools.freeRedis_tally (h.probe k) hx).2.1
    · have hone := (RedisPools.freeRedis_tally h.free hx).2.2 name p
      rw [← h.count name p]
      simp only [RedisPools.tally, hpool] at hone
      simp only [RedisSystem.count, hpool]
      omega

theorem poolInv_new (config : List RedisConf) (now : Nat → Nat) : PoolInv (.init config now) (new n config now) := by
  have hfresh := RedisPools.fresh_init config now
  refine ⟨fun _ => rfl, hfresh.placed, fun _ => hfresh.placed, fun name p => ?_⟩
  simp only [count, new, hfresh.leases, RedisPc.held, List.countP_nil, Finset.sum_const_zero, Nat.add_zero]

/-- A connection that `init` has made is in its pool, handed out, or held by a call of `get`; it is there once. -/
theorem PoolInv.once {config : List RedisConf} {now : Nat → Nat} (h : PoolInv (.init config now) s) {c : Nat}
    {conn : RedisConn} (hconn : s.shared.conns[c]? = some conn) :
    (s.shared.datas conn.name).count c + s.shared.leases.count c + ∑ i, (s.thread i).held.count c = 1 ∧
      ∀ name, name ≠ conn.name → c ∉ s.shared.datas name := by
  have hident : s.shared.ident c = some (conn.name, conn.type) := by
    rw [RedisPools.ident, hconn]
    rfl
  have hpool : s.shared.inPool conn.name c = true := RedisPools.inPool_iff.mpr ⟨_, hident⟩
  have hpool₀ : (RedisPools.init config now).inPool conn.name c = true :=
    RedisPools.inPool_iff.mpr ⟨_, (h.ident c).symm.trans hident⟩
  constructor
  · have hmine : ∀ l : List Nat, l.countP (fun d => s.shared.inPool conn.name d && d == c) = l.count c := by
      intro l
      refine List.countP_congr fun d _ => ?_
      rw [Bool.and_eq_true, beq_iff_eq]
      constructor
      · exact fun hd => hd.2
      · rintro rfl
        exact ⟨hpool, rfl⟩
    have hcount := h.count conn.name (· == c)
    have hfresh := (RedisPools.fresh_init config now).count conn.name c
    rw [hpool₀, if_pos rfl] at hfresh
    simp only [RedisSystem.count, hmine] at hcount
    exact hcount.trans hfresh
  · intro name hne hmem
    have hother := h.free.free name c hmem
    rw [RedisPools.inPool_ne hpool hne] at hother
    cases hother

end RedisSystem

/-- In every run after `init` no synchronous connection is lost, and none is at two places. -/
theorem redis_conserved (n : Nat) (config : List RedisConf) (now : Nat → Nat)
    {r : List (RedisSystem.RLabel n × RedisSystem n)}
    (hr : Run (fun s l s' => RedisSystem.step? s l = some s') (RedisSystem.new n config now) r) :
    Reached (RedisSystem.Conserved (.init config now)) r := by
  have hinv := Run.inv (C := fun _ _ => True) (I := RedisSystem.PoolInv (.init config now))
    (fun _ _ _ h _ hstep => h.step hstep) hr (Meets.of_forall fun _ _ => trivial)
    (RedisSystem.poolInv_new config now)
  refine hinv.mono fun s h => ⟨fun c conn hconn _ => h.once hconn, fun name => ?_⟩
  have hcount := h.count name fun _ => true
  simp only [RedisSystem.count, Bool.and_true, List.countP_true] at hcount
  exact hcount

/-- A connection does not answer and cannot be made again, so it comes back to its pool. Another one is handed out. -/
theorem redis_conserved_two : ∃ r : List (RedisSystem.RLabel 2 × RedisSystem 2),
      Run (fun s l s' => RedisSystem.step? s l = some s')
          (RedisSystem.new 2 [⟨str "a", str "redis", 2⟩] fun _ => 0) r ∧
        (lastState (RedisSystem.new 2 [⟨str "a", str "redis", 2⟩] fun _ => 0) r).shared.leases = [1] ∧
        Reached (RedisSystem.Conserved (.init [⟨str "a", str "redis", 2⟩] fun _ => 0)) r := by
  obtain ⟨r, hr, hp⟩ := exists_run_of_trace?
    (f := RedisSystem.step?) (s := RedisSystem.new 2 [⟨str "a", str "redis", 2⟩] fun _ => 0)
    [.thread 0 (.get (str "a")), .thread 1 (.get (str "a")), .thread 0 (.go 40 false false),
      .thread 1 (.go 20 false false)]
    (P := fun r => (lastState (RedisSystem.new 2 [⟨str "a", str "redis", 2⟩] fun _ => 0) r).shared.leases = [1])
    (by decide +kernel)
  exact ⟨r, hr, hp, redis_conserved 2 _ _ hr⟩

end Sherry
