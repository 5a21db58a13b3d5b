import OtaServer.Db.Redis
import OtaServer.Http.Message

/-!
# Helpers over Redis (`sherry/db/redis_util.cc`)

`redis_safe_set_key_value` replaces a value in three commands: `EXISTS`, `DEL`, `SET`. What a concurrent `GET` sees in
between, and after a failed command, is `safeSet_old_or_new_iff`.
-/

namespace Sherry

open Lib Http

section

variable [Redis]

/-- `redis_set_key_value`. -/
def redisSetKeyValue (poolName key value : Bytes) (expireSeconds : Int) : RedisProg Int := do
  let reply ←
    if expireSeconds > 0 then
      Cmd poolName (str "SET %s %s EX %d") [.s key, .s value, .d expireSeconds]
    else
      Cmd poolName (str "SET %s %s") [.s key, .s value]
  if replyFailed reply then return 0
  return 1

/-- What `redis_del_key` and `redis_key_exists` make of their replies: `1` if the reply counts at least one key, else
`0`. -/
def replyCounts : Option Reply → Int
  | some (.integer n) => if n > 0 then 1 else 0
  | _ => 0

/-- `redis_del_key`. -/
def redisDelKey (poolName key : Bytes) : RedisProg Int := do
  return replyCounts (← Cmd poolName (str "DEL %s") [.s key])

/-- `redis_reset_value`. That the key could not be deleted is only logged. -/
def redisResetValue (poolName key value : Bytes) (expireSeconds : Int) : RedisProg Int := do
  let _ ← redisDelKey poolName key
  redisSetKeyValue poolName key value expireSeconds

/-- `redis_key_exists`. -/
def redisKeyExists (poolName key : Bytes) : RedisProg Int := do
  return replyCounts (← Cmd poolName (str "EXISTS %s") [.s key])

/-- `redis_safe_set_key_value`. -/
def redisSafeSetKeyValue (poolName key value : Bytes) (expireSeconds : Int) : RedisProg Int := do
  if (← redisKeyExists poolName key) = 1 then
    redisResetValue poolName key value expireSeconds
  else
    redisSetKeyValue poolName key value expireSeconds

/-- `redis_query_by_http`: the result is `-1` if there is no value, `0` on an error, `1` on success. The body is
assigned from a `char *`. -/
def redisQueryByHttp (poolName key : Bytes) (rsp : HttpResponse) :
    RedisProg (Int × HttpResponse) := do
  match ← Cmd poolName (str "GET %s") [.s key] with
  | none => return (0, { rsp with status := .internalServerError })
  | some (.str b) => return (1, { rsp with status := .ok, body := cstr b })
  | some .nil => return (-1, { rsp with status := .ok })
  | some (.error _) => return (0, { rsp with status := .internalServerError })
  | some _ => return (0, rsp)

/-- `redis_push_message_queue_by_http`. -/
def redisPushMessageQueueByHttp (poolName key value : Bytes) (rsp : HttpResponse) :
    RedisProg (Int × HttpResponse) := do
  match ← Cmd poolName (str "LPUSH %s %s") [.s key, .s value] with
  | some (.integer _) =>
    return (1, { rsp with status := .ok, body := str "task submits successfully." })
  | _ => return (0, { rsp with status := .internalServerError })

/-! ## What a concurrent `GET` sees -/

/-- The `SET` of `redis_set_key_value`. -/
def setCommand (key value : Bytes) (expireSeconds : Int) : Command :=
  if expireSeconds > 0 then .setEx (cstr key) (cstr value) (decInt expireSeconds)
  else .set (cstr key) (cstr value)

omit [Redis] in
theorem key_setCommand (key value : Bytes) (expireSeconds : Int) :
    (setCommand key value expireSeconds).key = cstr key := by
  unfold setCommand
  split <;> rfl

theorem apply_setCommand (key value : Bytes) (expireSeconds : Int) (v : Option Value) :
    Redis.apply (setCommand key value expireSeconds) v = (.status (str "OK"), some (.string (cstr value))) := by
  unfold setCommand
  split
  · exact Redis.apply_setEx _ _ _ v
  · exact Redis.apply_set _ _ v

theorem redisSetKeyValue_eq (pool key value : Bytes) (expireSeconds : Int) :
    redisSetKeyValue pool key value expireSeconds =
      .op ⟨pool, some (setCommand key value expireSeconds)⟩
        fun reply => if replyFailed reply then .ret 0 else .ret 1 := by
  by_cases h : expireSeconds > 0
  · have hset : setCommand key value expireSeconds = _ := if_pos h
    rw [hset]
    rw [redisSetKeyValue, if_pos h, Cmd, Redis.commandOf_setEx]
    rfl
  · have hset : setCommand key value expireSeconds = _ := if_neg h
    rw [hset]
    rw [redisSetKeyValue, if_neg h, Cmd, Redis.commandOf_set]
    rfl

variable {m : RedisManager} {pool key value : Bytes} {expireSeconds : Int} {s : Server}

theorem states_redisSetKeyValue : (redisSetKeyValue pool key value expireSeconds).states m.handle s =
      [s, (m.handle ⟨pool, some (setCommand key value expireSeconds)⟩ s).2] := by
  rw [redisSetKeyValue_eq, Prog.states]
  split <;> rfl

theorem states_redisDelKey :
    (redisDelKey pool key).states m.handle s = [s, (m.handle ⟨pool, some (.del (cstr key))⟩ s).2] := by
  rw [redisDelKey, Cmd, Redis.commandOf_del]
  rfl

theorem run_redisDelKey_state :
    ((redisDelKey pool key).run m.handle s).2 = (m.handle ⟨pool, some (.del (cstr key))⟩ s).2 := by
  rw [redisDelKey, Cmd, Redis.commandOf_del]
  rfl

theorem states_redisKeyExists : (redisKeyExists pool key).states m.handle s = [s, s] := by
  have h := RedisManager.handle_reads (c := .exists (cstr key)) rfl m pool s
  rw [redisKeyExists, Cmd, Redis.commandOf_exists]
  exact congrArg (fun s' => [s, s']) h

theorem run_redisKeyExists {v : Value} (h : s (cstr key) = some v) :
    (redisKeyExists pool key).run m.handle s =
      (if m.answers pool (.exists (cstr key)) then 1 else 0, s) := by
  have hs := RedisManager.handle_reads (c := .exists (cstr key)) rfl m pool s
  rw [redisKeyExists, Cmd, Redis.commandOf_exists]
  refine Prod.ext ?_ hs
  show replyCounts (m.handle ⟨pool, some (.exists (cstr key))⟩ s).1 = _
  cases ha : m.answers pool (.exists (cstr key)) with
  | true =>
    rw [RedisManager.handle_of_answers ha]
    simp [Command.key, h, replyCounts]
  | false =>
    have hf := RedisManager.handle_failed ha s
    generalize (m.handle ⟨pool, some (.exists (cstr key))⟩ s).1 = reply at hf
    match reply, hf with
    | none, _ => rfl
    | some (.error _), _ => rfl

theorem handle_setCommand (s : Server) :
    (m.handle ⟨pool, some (setCommand key value expireSeconds)⟩ s).2 (cstr key) =
      if m.executes pool (setCommand key value expireSeconds) then some (.string (cstr value))
      else s (cstr key) := by
  have h := m.handle_self pool (setCommand key value expireSeconds) s
  rwa [key_setCommand, apply_setCommand] at h

/-- `redis_safe_set_key_value` with every command succeeding leaves the value, up to its first zero byte. -/
theorem run_redisSafeSetKeyValue (hm : m.Succeeds pool) :
    ((redisSafeSetKeyValue pool key value expireSeconds).run m.handle s).2 (cstr key) =
      some (.string (cstr value)) := by
  have hset : ∀ s₁, ((redisSetKeyValue pool key value expireSeconds).run m.handle s₁).2 (cstr key) =
      some (.string (cstr value)) := by
    intro s₁
    have hrun : ((redisSetKeyValue pool key value expireSeconds).run m.handle s₁).2 =
        (m.handle ⟨pool, some (setCommand key value expireSeconds)⟩ s₁).2 := by
      rw [redisSetKeyValue_eq, Prog.run_op]
      split <;> rfl
    rw [hrun, handle_setCommand, hm.executes, if_pos rfl]
  unfold redisSafeSetKeyValue
  rw [Prog.run_bind]
  split
  · rw [redisResetValue, Prog.run_bind]
    exact hset _
  · exact hset _

theorem run_redisQueryByHttp {b : Bytes} {rsp : HttpResponse}
    (h : (m.handle ⟨pool, some (.get (cstr key))⟩ s).1 = some (.str b)) :
    ((redisQueryByHttp pool key rsp).run m.handle s).1 = (1, { rsp with status := .ok, body := cstr b }) := by
  rw [redisQueryByHttp, Cmd, Redis.commandOf_get]
  simp only [Prog.perform_bind, Prog.run_op, h, Prog.pure_eq, Prog.run_ret]

theorem handle_del (s : Server) :
    (m.handle ⟨pool, some (.del (cstr key))⟩ s).2 (cstr key) =
      if m.executes pool (.del (cstr key)) then none else s (cstr key) := by
  have h := m.handle_self pool (.del (cstr key)) s
  rwa [Redis.apply_del] at h

/-- **Old or new.** While `redis_safe_set_key_value` runs on a key that holds `old`, and after it,
`GET` gives `old` or the new value exactly if `DEL` is not sent or not executed, and the new value
is written as it is (or not written, or cut to the old one). -/
theorem safeSet_old_or_new_iff {old : Bytes} (hold : s (cstr key) = some (.string old)) :
    (∀ s' ∈ (redisSafeSetKeyValue pool key value expireSeconds).states m.handle s,
        s' (cstr key) = some (.string old) ∨ s' (cstr key) = some (.string value)) ↔
      (m.answers pool (.exists (cstr key)) = false ∨ m.executes pool (.del (cstr key)) = false) ∧
        (m.executes pool (setCommand key value expireSeconds) = false ∨ 0 ∉ value ∨ cstr value = old) := by
  unfold redisSafeSetKeyValue
  rw [Prog.forall_mem_states_bind, states_redisKeyExists, run_redisKeyExists hold]
  -- what `SET` leaves, seen from a key that holds `old`
  have hset : ∀ s₁, s₁ (cstr key) = some (.string old) →
      ((∀ s' ∈ (redisSetKeyValue pool key value expireSeconds).states m.handle s₁,
          s' (cstr key) = some (.string old) ∨ s' (cstr key) = some (.string value)) ↔
        (m.executes pool (setCommand key value expireSeconds) = false ∨ 0 ∉ value ∨
          cstr value = old)) := by
    intro s₁ h₁
    simp only [states_redisSetKeyValue, List.forall_mem_cons, handle_setCommand, h₁]
    cases m.executes pool (setCommand key value expireSeconds)
    · simp
    · simp [cstr_eq_self_iff, or_comm]
  cases ha : m.answers pool (.exists (cstr key)) with
  | false =>
    rw [if_neg (by decide : ¬ (false = true)), if_neg (by decide : ¬ ((0 : Int) = 1)), hset s hold]
    simp [hold]
  | true =>
    simp only [if_true, redisResetValue, Prog.forall_mem_states_bind, states_redisDelKey,
      run_redisDelKey_state, List.forall_mem_cons, hold, true_or, true_and, handle_del,
      Bool.true_eq_false, false_or]
    cases hd : m.executes pool (.del (cstr key)) with
    | true => simp
    | false =>
      have hkeep : (m.handle ⟨pool, some (.del (cstr key))⟩ s).2 (cstr key) = some (.string old) := by
        rw [handle_del, hd]
        exact hold
      simp [hset _ hkeep]

end

/-- A server that does not answer `EXISTS`. -/
def silentServer : RedisManager := ⟨fun _ => true, fun _ c => if c.reads then .null else .ok⟩

theorem safeSet_old_or_new_failed_exists : silentServer.answers (str "pool") (.exists (str "k")) = false ∧
      ∀ s' ∈ (redisSafeSetKeyValue (str "pool") (str "k") (str "new") 0).states silentServer.handle
          (fun _ => some (.string (str "old"))),
        s' (str "k") = some (.string (str "old")) ∨ s' (str "k") = some (.string (str "new")) :=
  ⟨rfl, (safeSet_old_or_new_iff rfl).mpr ⟨.inl rfl, .inr (.inl (by decide))⟩⟩

/-- With every command succeeding, the key is absent between `DEL` and `SET`. -/
theorem safeSet_absent_between :
    ¬ ∀ (m : RedisManager) (pool key old value : Bytes) (expireSeconds : Int) (s : Server),
      s (cstr key) = some (.string old) →
      ∀ s' ∈ (redisSafeSetKeyValue pool key value expireSeconds).states m.handle s,
        s' (cstr key) = some (.string old) ∨ s' (cstr key) = some (.string value) := by
  intro h
  have h := h .reliable (str "pool") (str "k") (str "old") (str "new") 0
    (fun _ => some (.string (str "old"))) rfl
  have habsent : none ∈ ((redisSafeSetKeyValue (str "pool") (str "k") (str "new") 0).states
      RedisManager.reliable.handle (fun _ => some (.string (str "old")))).map (· (str "k")) := by
    decide
  obtain ⟨s', hs', hnone⟩ := List.mem_map.mp habsent
  obtain hval | hval := h s' hs'
  · exact absurd (hnone.symm.trans hval) (by decide)
  · exact absurd (hnone.symm.trans hval) (by decide)

end Sherry
