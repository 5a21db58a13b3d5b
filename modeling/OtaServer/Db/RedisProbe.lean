import OtaServer.Db.Redis
import OtaServer.Db.RedisPool

/-!
# The test of an idle connection (`RedisManager::get`)

`get` sends a `ping` on a synchronous connection that has been idle for more than 30 seconds. If there is no answer it
calls `reconnect`, which for `Redis` returns the `int` of `redisReconnect` as a `bool`.

* `Link`: what hiredis gives a connection. `pinged` and `reconnected` say what has succeeded, `reconnect` what the
  code sees of it.
* `RedisPools.get`: one call. `RedisPools.get_steps`: its two parts in `RedisPools.step`.
* `get_tested_iff`: when a call hands out a connection, and when it gives up.
-/

namespace Sherry

open Lib

/-- What hiredis gives a connection that is tested: the reply to `ping`, and what `redisReconnect` returns. -/
structure Link where
  ping : Option Reply
  redisReconnect : Int

namespace Link

/-- `cmd("ping")` gives a reply. -/
def pinged (l : Link) : Bool := !replyFailed l.ping

/-- `Redis::reconnect` and `RedisCluster::reconnect`. -/
def reconnect (l : Link) : RedisType → Bool
  | .redis => l.redisReconnect != 0
  | _ => true

/-- The connection has been made again: `redisReconnect` has returned `REDIS_OK`. A cluster makes its connections
itself. -/
def reconnected (l : Link) : RedisType → Bool
  | .redis => l.redisReconnect == 0
  | _ => true

end Link

/-- `time(0) - getLastActiveTime()`. -/
def RedisConn.idle (conn : RedisConn) (now : Nat) : Nat := (now + 2 ^ 64 - conn.lastActiveTime) % 2 ^ 64

namespace RedisPools

/-- `get`, with the connection that it returns. -/
def get (s : RedisPools) (name : Bytes) (now : Nat) (link : Link) : Option (RedisPools × Option Nat) :=
  match s.datas name with
  | [] => some (s, none)
  | c :: rest => do
    let conn ← s.conns[c]?
    if conn.type.sync then
      if conn.idle now > 30 && !link.pinged && !link.reconnect conn.type then
        return ({ s with datas := Function.update s.datas name (rest ++ [c]) }, none)
      else
        return ({ s with
          datas := Function.update s.datas name rest
          conns := s.conns.set c { conn with lastActiveTime := now }
          leases := c :: s.leases }, some c)
    else return ({ s with datas := Function.update s.datas name (rest ++ [c]) }, some c)

variable {s s' : RedisPools} {name : Bytes} {now : Nat} {link : Link} {r : Option Nat}

theorem step_probe {c : Nat} {conn : RedisConn} (hconn : s.conns[c]? = some conn) (name : Bytes) (now : Nat)
    (ping reconnect : Bool) : s.step (.probe name c) (.go now ping reconnect) = some (
      if conn.idle now > 30 && !ping && !reconnect then
        ({ s with datas := Function.update s.datas name (s.datas name ++ [c]) }, .out)
      else ({ s with
        conns := s.conns.set c { conn with lastActiveTime := now }
        leases := c :: s.leases }, .out)) := by
  rw [step, hconn, Option.bind_eq_bind, Option.bind_some, RedisConn.idle, apply_ite some]
  rfl

/-- The call in the steps of a thread: it ends under the lock, or it takes the connection and tests it. -/
theorem get_steps (h : s.get name now link = some (s', r)) : s.step .out (.get name) = some (s', .out) ∨
      ∃ s₁ c conn, s.conns[c]? = some conn ∧ s.step .out (.get name) = some (s₁, .probe name c) ∧
        s₁.step (.probe name c) (.go now link.pinged (link.reconnect conn.type)) = some (s', .out) := by
  unfold get at h
  cases hd : s.datas name with
  | nil =>
    rw [hd] at h
    cases h
    exact .inl (by simp only [step, hd])
  | cons c rest =>
    rw [hd] at h
    obtain ⟨conn, hconn, h⟩ := Option.bind_eq_some_iff.mp h
    cases hsync : conn.type.sync with
    | false =>
      simp only [hsync, Bool.false_eq_true, if_false] at h
      cases h
      exact .inl (by simp [step, hd, hconn, hsync])
    | true =>
      refine .inr ⟨{ s with datas := Function.update s.datas name rest }, c, conn, hconn,
        by simp [step, hd, hconn, hsync], ?_⟩
      simp only [hsync, if_true] at h
      rw [step_probe (by exact hconn)]
      split at h <;> rename_i htest <;> cases h
      · rw [if_pos htest]
        simp only [Function.update_self, Function.update_idem]
      · rw [if_neg htest]

/-- `get` gives up the connection at the front of its pool. -/
def givesUp (conn : RedisConn) (now : Nat) (link : Link) : Bool :=
  conn.type.sync && (conn.idle now > 30 && !link.pinged && !link.reconnect conn.type)

/-- It comes to that only for a `Redis`, and only if `redisReconnect` has succeeded. -/
theorem givesUp_iff {conn : RedisConn} : givesUp conn now link = true ↔
    conn.type = .redis ∧ 30 < conn.idle now ∧ link.pinged = false ∧ link.redisReconnect = 0 := by
  unfold givesUp
  cases conn.type with
  | redis => simp [RedisType.sync, Link.reconnect, and_assoc]
  | redisCluster | foxRedis | foxRedisCluster => simp [Link.reconnect]

theorem get_cons {c : Nat} {rest : List Nat} {conn : RedisConn} (hd : s.datas name = c :: rest)
    (hconn : s.conns[c]? = some conn) (now : Nat) (link : Link) :
    ∃ s', s.get name now link = some (s', if givesUp conn now link then none else some c) := by
  rw [get, hd]
  simp only [hconn, Option.bind_eq_bind, Option.bind_some]
  by_cases hsync : conn.type.sync = true
  · by_cases htest : (conn.idle now > 30 && !link.pinged && !link.reconnect conn.type) = true
    · rw [if_pos hsync, if_pos htest, if_pos (by rw [givesUp, hsync, htest]; rfl)]
      exact ⟨_, rfl⟩
    · rw [if_pos hsync, if_neg htest, if_neg (by rwa [givesUp, hsync, Bool.true_and])]
      exact ⟨_, rfl⟩
  · rw [if_neg hsync, if_neg (by rw [givesUp, Bool.eq_false_iff.mpr hsync]; exact Bool.false_ne_true)]
    exact ⟨_, rfl⟩

end RedisPools

/-- A synchronous connection that has been idle for more than 30 seconds is handed out only if its ping or its
reconnect has succeeded, and nothing is handed out only if there is no connection or both have failed. -/
def GetTested (s : RedisPools) (name : Bytes) (now : Nat) (link : Link) : Prop :=
  (∀ s' c, s.get name now link = some (s', some c) → ∀ conn, s.conns[c]? = some conn →
    conn.type.sync = true → 30 < (now : Int) - conn.lastActiveTime →
      link.pinged = true ∨ link.reconnected conn.type = true) ∧
  ∀ s', s.get name now link = some (s', none) → s.datas name = [] ∨
    ∃ c conn, (s.datas name).head? = some c ∧ s.conns[c]? = some conn ∧
      link.pinged = false ∧ link.reconnected conn.type = false

/-- **The test of an idle connection.** The result of `redisReconnect` is taken the wrong way round, so that a call
goes wrong exactly if it comes to it, or should have: the connection at the front is a `Redis` that does not answer
and has been idle for more than 30 seconds. (The code computes the idle time without a sign.) -/
theorem get_tested_iff (s : RedisPools) (name : Bytes) (now : Nat) (link : Link) :
    GetTested s name now link ↔
      ∀ c, (s.datas name).head? = some c → ∀ conn, s.conns[c]? = some conn → conn.type = .redis →
        link.pinged = false →
          if link.redisReconnect = 0 then conn.idle now ≤ 30
          else (now : Int) - conn.lastActiveTime ≤ 30 := by
  cases hd : s.datas name with
  | nil =>
    refine iff_of_true ⟨fun s' c h => ?_, fun _ _ => .inl hd⟩ nofun
    rw [RedisPools.get, hd] at h
    cases h
  | cons c rest =>
    cases hconn : s.conns[c]? with
    | none =>
      have hnone : s.get name now link = none := by
        rw [RedisPools.get, hd]
        simp only [hconn, Option.bind_eq_bind, Option.bind_none]
      simp [GetTested, hnone, hconn]
    | some conn =>
      obtain ⟨s', hget⟩ := RedisPools.get_cons hd hconn now link
      cases hgives : RedisPools.givesUp conn now link with
      | true =>
        -- it gives up a connection that has been made again
        obtain ⟨htype, hidle, hping, hok⟩ := RedisPools.givesUp_iff.mp hgives
        rw [hgives, if_pos rfl] at hget
        refine iff_of_false (fun h => ?_) fun h => ?_
        · obtain hnil | ⟨c', conn', hc', hconn', -, hfailed⟩ := h.2 s' hget
          · cases hd.symm.trans hnil
          · rw [hd] at hc'
            cases hc'
            cases hconn.symm.trans hconn'
            simp [htype, Link.reconnected, hok] at hfailed
        · have hle := h c rfl conn hconn htype hping
          rw [if_pos hok] at hle
          exact Nat.not_le_of_lt hidle hle
      | false =>
        rw [hgives, if_neg Bool.false_ne_true] at hget
        have hkeeps := mt RedisPools.givesUp_iff.mpr (Bool.eq_false_iff.mp hgives)
        constructor
        · rintro ⟨hhanded, -⟩ c' hc' conn' hconn' htype hping
          cases hc'
          cases hconn.symm.trans hconn'
          split
          · next hok => exact Nat.not_lt.mp fun hidle => hkeeps ⟨htype, hidle, hping, hok⟩
          · next hfail =>
            refine Int.not_lt.mp fun hidle => ?_
            have hany := hhanded s' c hget conn hconn (by rw [htype]; rfl) hidle
            simp [hping, htype, Link.reconnected, hfail] at hany
        · intro h
          refine ⟨fun s₁ c' heq conn' hconn' hsync hidle => ?_, fun s₁ heq => ?_⟩
          · cases hget.symm.trans heq
            cases hconn.symm.trans hconn'
            cases htype : conn.type with
            | redis =>
              -- an idle one that does not answer is only handed out if `redisReconnect` has failed
              refine or_iff_not_imp_left.mpr fun hping => ?_
              have hle := h c rfl conn hconn htype (Bool.eq_false_iff.mpr hping)
              split at hle
              · next hok => simp [Link.reconnected, hok]
              · exact absurd hidle (Int.not_lt.mpr hle)
            | redisCluster | foxRedis | foxRedisCluster => exact .inr rfl
          · cases hget.symm.trans heq

/-- A pool with one connection that has been idle for 31 seconds. -/
def idlePool : RedisPools where
  conns := [{ name := str "a", type := .redis, lastActiveTime := 0 }]
  datas name := if name = str "a" then [0] else []

/-- The connection is given up although it has been made again, and handed out although it could not be. -/
theorem get_reconnect_reversed : ¬ GetTested idlePool (str "a") 31 { ping := none, redisReconnect := 0 } ∧
      ¬ GetTested idlePool (str "a") 31 { ping := none, redisReconnect := -1 } := by
  constructor
  · rintro ⟨-, hnull⟩
    obtain hnil | ⟨c, conn, hc, hconn, -, hfailed⟩ := hnull _ rfl
    · cases hnil
    · cases hc
      cases hconn
      cases hfailed
  · rintro ⟨hhanded, -⟩
    exact absurd (hhanded _ 0 rfl _ rfl rfl (by decide)) (by decide)

end Sherry
