import OtaServer.Lib.Bytes
import OtaServer.Lib.Prog

/-!
# Redis (`sherry/db/redis.cc`)

The Redis server as a map from keys to values, and `RedisUtil::Cmd`.

* **hiredis and the server** are not part of the source. What the program relies on is the class `Redis`: an argument
  of `Cmd` ends at its first zero byte, since `%s` stands for a C string; a key of the program in the place of a
  format is no command; and the server is a map from keys to values. Expiry is left out: `SET k v EX n` acts as `SET k
  v`. The instance reads a format word by word (`redisvFormatCommand`) and has the commands of the program
  (`Command.apply`).
* **The pools** (`RedisManager`). `Cmd` on a pool that is not configured gives a null reply and reaches no server. On
  a configured pool each command meets a fate (`Fate`): it is executed and answered, or the reply is null or an error.
  A null reply leaves open whether the server executed the command.
-/

namespace Sherry

open Lib

/-- A reply of the server (`redisReply`), by its type. -/
inductive Reply where
  | str (b : Bytes)
  | array (es : List Reply)
  | integer (n : Int)
  | nil
  | status (b : Bytes)
  | error (b : Bytes)

/-- `!reply || reply->type == REDIS_REPLY_ERROR`. -/
def replyFailed : Option Reply → Bool
  | none | some (.error _) => true
  | some _ => false

/-- A value of the server. -/
inductive Value where
  | string (b : Bytes)
  | list (l : List Bytes)
  deriving DecidableEq

/-- The keys and values of the server. -/
abbrev Server := Bytes → Option Value

/-- The commands that the program sends, with their key first. -/
inductive Command where
  | get (key : Bytes)
  | set (key value : Bytes)
  | setEx (key value seconds : Bytes)
  | del (key : Bytes)
  | exists (key : Bytes)
  | lpush (key value : Bytes)
  deriving DecidableEq

namespace Command

/-- The key that the command reads or writes. -/
def key : Command → Bytes
  | get k | set k _ | setEx k _ _ | del k | .exists k | lpush k _ => k

/-- The command changes nothing. -/
def reads : Command → Bool
  | get _ | .exists _ => true
  | _ => false

end Command

/-- An argument of a format: a C string or an `int`. -/
inductive Arg where
  | s (b : Bytes)
  | d (n : Int)

/-- hiredis and the Redis server, as far as the program relies on them. -/
class Redis where
  /-- The command that a format and its arguments stand for. -/
  commandOf : Bytes → List Arg → Option Command
  /-- What the server answers and leaves, seen from the value of the command's key. -/
  apply : Command → Option Value → Reply × Option Value
  commandOf_get (k : Bytes) : commandOf (str "GET %s") [.s k] = some (.get (cstr k))
  commandOf_del (k : Bytes) : commandOf (str "DEL %s") [.s k] = some (.del (cstr k))
  commandOf_exists (k : Bytes) : commandOf (str "EXISTS %s") [.s k] = some (.exists (cstr k))
  commandOf_set (k v : Bytes) :
    commandOf (str "SET %s %s") [.s k, .s v] = some (.set (cstr k) (cstr v))
  commandOf_setEx (k v : Bytes) (n : Int) :
    commandOf (str "SET %s %s EX %d") [.s k, .s v, .d n] =
      some (.setEx (cstr k) (cstr v) (decInt n))
  /-- A key of the program in the place of the format asks the server for nothing. -/
  commandOf_small_o (fmt : Bytes) (args : List Arg) : commandOf (111 :: fmt) args = none
  apply_reads {c : Command} (h : c.reads = true) (v : Option Value) : (apply c v).2 = v
  apply_get_none (k : Bytes) : (apply (.get k) none).1 = .nil
  apply_get_string (k b : Bytes) : (apply (.get k) (some (.string b))).1 = .str b
  apply_set (k v : Bytes) (old : Option Value) :
    apply (.set k v) old = (.status (str "OK"), some (.string v))
  apply_setEx (k v n : Bytes) (old : Option Value) :
    apply (.setEx k v n) old = (.status (str "OK"), some (.string v))
  apply_del (k : Bytes) (old : Option Value) : (apply (.del k) old).2 = none
  apply_exists (k : Bytes) (v : Value) : (apply (.exists k) (some v)).1 = .integer 1

attribute [simp] Redis.apply_get_none Redis.apply_get_string Redis.apply_set Redis.apply_del
  Redis.apply_exists

/-! ## The pools -/

/-- What happens to a command on its way: it is executed and answered (`ok`); its reply is null, after (`lost`) or
before (`null`) the server executed it; or the reply is an error (`error`). -/
inductive Fate where
  | ok | lost | null | error
  deriving DecidableEq

/-- The server executes the command. -/
def Fate.applied : Fate → Bool
  | .ok | .lost => true
  | _ => false

/-- The configured pools, and the fate of each command on them. -/
structure RedisManager where
  pools : Bytes → Bool
  fate : Bytes → Command → Fate

/-- A command on a pool: `RedisUtil::Cmd` after the format. -/
structure RedisOp where
  pool : Bytes
  command : Option Command
  deriving DecidableEq

/-- The answer to a `RedisOp` (a `ReplyPtr`). -/
abbrev RedisOp.Ret (_ : RedisOp) : Type := Option Reply

/-- A program that sends commands. -/
abbrev RedisProg := Prog RedisOp RedisOp.Ret

namespace RedisManager

/-- The command is executed, and its answer arrives. -/
def answers (m : RedisManager) (pool : Bytes) (c : Command) : Bool :=
  m.pools pool && m.fate pool c == .ok

/-- The server executes the command. -/
def executes (m : RedisManager) (pool : Bytes) (c : Command) : Bool :=
  m.pools pool && (m.fate pool c).applied

/-- Every command on the pool succeeds. -/
structure Succeeds (m : RedisManager) (pool : Bytes) : Prop where
  configured : m.pools pool = true
  fate : ∀ c, m.fate pool c = .ok

/-- Pools on which nothing fails. -/
def reliable : RedisManager where
  pools _ := true
  fate _ _ := .ok

theorem reliable_succeeds (pool : Bytes) : reliable.Succeeds pool := ⟨rfl, fun _ => rfl⟩

theorem Succeeds.executes {m : RedisManager} {pool : Bytes} (h : m.Succeeds pool) (c : Command) :
    m.executes pool c = true := by
  simp [RedisManager.executes, h.configured, h.fate c, Fate.applied]

end RedisManager

section

variable [Redis]

namespace Command

/-- The command on the whole server. -/
def exec (c : Command) (s : Server) : Reply × Server :=
  ((Redis.apply c (s c.key)).1, Function.update s c.key (Redis.apply c (s c.key)).2)

theorem exec_reads {c : Command} (h : c.reads = true) (s : Server) : (c.exec s).2 = s := by
  unfold exec
  rw [Redis.apply_reads h, Function.update_eq_self]

@[simp] theorem exec_self (c : Command) (s : Server) : (c.exec s).2 c.key = (Redis.apply c (s c.key)).2 := by
  simp [exec]

end Command

namespace RedisManager

/-- What a command answers and does. -/
def handle (m : RedisManager) : Handler RedisOp RedisOp.Ret Server
  | ⟨pool, some c⟩, s =>
    if m.pools pool then
      match m.fate pool c with
      | .ok => (some (c.exec s).1, (c.exec s).2)
      | .lost => (none, (c.exec s).2)
      | .null => (none, s)
      | .error => (some (.error (str "ERR")), s)
    else (none, s)
  | ⟨pool, none⟩, s =>
    if m.pools pool then (some (.error (str "ERR unknown command")), s) else (none, s)

variable {pool : Bytes} {m : RedisManager} {c : Command}

theorem handle_ok (h : m.Succeeds pool) (c : Command) (s : Server) :
    m.handle ⟨pool, some c⟩ s = (some (c.exec s).1, (c.exec s).2) := by
  simp [handle, h.configured, h.fate c]

theorem handle_none (m : RedisManager) (pool : Bytes) (s : Server) : (m.handle ⟨pool, none⟩ s).2 = s := by
  simp only [handle]
  split <;> rfl

/-- A command acts exactly if the server executes it. -/
theorem handle_state (m : RedisManager) (pool : Bytes) (c : Command) (s : Server) :
    (m.handle ⟨pool, some c⟩ s).2 = if m.executes pool c then (c.exec s).2 else s := by
  unfold handle executes
  by_cases h : m.pools pool = true
  · simp only [h, if_true, Bool.true_and]
    cases m.fate pool c <;> rfl
  · simp [h]

theorem handle_reads (h : c.reads = true) (m : RedisManager) (pool : Bytes)
    (s : Server) : (m.handle ⟨pool, some c⟩ s).2 = s := by
  rw [handle_state, Command.exec_reads h, ite_self]

theorem handle_self (m : RedisManager) (pool : Bytes) (c : Command) (s : Server) :
    (m.handle ⟨pool, some c⟩ s).2 c.key =
      if m.executes pool c then (Redis.apply c (s c.key)).2 else s c.key := by
  rw [handle_state]
  split
  · exact Command.exec_self c s
  · rfl

theorem handle_of_answers (h : m.answers pool c = true) (s : Server) :
    (m.handle ⟨pool, some c⟩ s).1 = some (Redis.apply c (s c.key)).1 := by
  simp only [answers, Bool.and_eq_true, beq_iff_eq] at h
  simp [handle, h.1, h.2, Command.exec]

theorem handle_failed (h : m.answers pool c = false) (s : Server) :
    replyFailed (m.handle ⟨pool, some c⟩ s).1 = true := by
  unfold handle
  by_cases hp : m.pools pool = true
  · simp only [answers, hp, Bool.true_and] at h
    simp only [hp, if_true]
    cases hf : m.fate pool c with
    | ok => rw [hf] at h; cases h
    | lost => rfl
    | null => rfl
    | error => rfl
  · simp [hp, replyFailed]

/-! ### Commands that commute -/

/-- A command answers from the value of its key and changes no other key. -/
theorem handle_local (m : RedisManager) (pool : Bytes) (c : Command) :
    ∃ (f : Option Value → Option Reply) (g : Option Value → Option Value),
      ∀ s, m.handle ⟨pool, some c⟩ s = (f (s c.key), Function.update s c.key (g (s c.key))) := by
  refine ⟨fun v => if m.pools pool then
      match m.fate pool c with
      | .ok => some (Redis.apply c v).1
      | .lost | .null => none
      | .error => some (.error (str "ERR"))
    else none, fun v => if m.executes pool c then (Redis.apply c v).2 else v, fun s => Prod.ext ?_ ?_⟩
  · unfold handle
    by_cases hp : m.pools pool = true
    · simp only [hp, if_true]
      cases m.fate pool c <;> rfl
    · simp [hp]
  · rw [handle_state]
    by_cases he : m.executes pool c = true
    · simp only [he, if_true]
      rfl
    · simp [he]

end RedisManager

/-- Two commands on one key, at least one of which writes. -/
def RedisOp.conflicts (r r' : RedisOp) : Bool :=
  match r.command, r'.command with
  | some c, some c' => c.key == c'.key && !(c.reads && c'.reads)
  | _, _ => false

theorem RedisManager.handle_no_command (m : RedisManager) (pool : Bytes) :
    ∃ a, ∀ s, m.handle ⟨pool, none⟩ s = (a, s) := by
  by_cases hp : m.pools pool = true
  · exact ⟨some (.error (str "ERR unknown command")), fun s => by simp only [handle, hp, if_true]⟩
  · exact ⟨none, fun s => by simp only [handle, hp, Bool.false_eq_true, if_false]⟩

/-- Commands that do not conflict commute. -/
theorem RedisManager.commutes (m : RedisManager) {r r' : RedisOp} (h : r.conflicts r' = false) :
    Prog.Commutes m.handle r r' := by
  obtain ⟨pool, _ | c⟩ := r
  · obtain ⟨a, ha⟩ := m.handle_no_command pool
    exact ⟨fun s => by rw [ha, ha], fun s => by rw [ha], fun s => by rw [ha, ha]⟩
  obtain ⟨pool', _ | c'⟩ := r'
  · obtain ⟨a, ha⟩ := m.handle_no_command pool'
    exact ⟨fun s => by rw [ha], fun s => by rw [ha, ha], fun s => by rw [ha, ha]⟩
  obtain ⟨f, g, hf⟩ := m.handle_local pool c
  obtain ⟨f', g', hf'⟩ := m.handle_local pool' c'
  by_cases hk : c.key = c'.key
  · -- both only read
    have hrr : c.reads = true ∧ c'.reads = true := by
      simpa [RedisOp.conflicts, hk] using h
    have hg : ∀ s, (m.handle ⟨pool, some c⟩ s).2 = s := fun s => m.handle_reads hrr.1 pool s
    have hg' : ∀ s, (m.handle ⟨pool', some c'⟩ s).2 = s := fun s => m.handle_reads hrr.2 pool' s
    exact ⟨fun s => by rw [hg'], fun s => by rw [hg], fun s => by rw [hg, hg', hg]⟩
  · refine ⟨fun s => ?_, fun s => ?_, fun s => ?_⟩
    · simp only [hf, hf', Function.update_of_ne hk]
    · simp only [hf, hf', Function.update_of_ne (Ne.symm hk)]
    · simp only [hf, hf', Function.update_of_ne hk, Function.update_of_ne (Ne.symm hk)]
      exact Function.update_comm hk _ _ _

/-- `RedisUtil::Cmd(name, fmt, ...)`. -/
def Cmd (name fmt : Bytes) (args : List Arg) : RedisProg (Option Reply) :=
  Prog.perform ⟨name, Redis.commandOf fmt args⟩

end

/-! ## The formats and commands of the program -/

namespace Command

/-- The command with these words. -/
def ofArgs : List Bytes → Option Command
  | [c, k] =>
    if c = str "GET" then some (get k)
    else if c = str "DEL" then some (del k)
    else if c = str "EXISTS" then some (.exists k)
    else none
  | [c, k, v] =>
    if c = str "SET" then some (set k v)
    else if c = str "LPUSH" then some (lpush k v)
    else none
  | [c, k, v, x, n] => if c = str "SET" ∧ x = str "EX" then some (setEx k v n) else none
  | _ => none

/-- The answer to a command on a value of another type. -/
def wrongType : Reply :=
  .error (str "WRONGTYPE Operation against a key holding the wrong kind of value")

/-- What the server answers and does, seen from the value of the command's key. -/
def apply : Command → Option Value → Reply × Option Value
  | get _, none => (.nil, none)
  | get _, some (.string v) => (.str v, some (.string v))
  | get _, some (.list l) => (wrongType, some (.list l))
  | set _ v, _ | setEx _ v _, _ => (.status (str "OK"), some (.string v))
  | del _, none => (.integer 0, none)
  | del _, some _ => (.integer 1, none)
  | .exists _, none => (.integer 0, none)
  | .exists _, some v => (.integer 1, some v)
  | lpush _ v, none => (.integer 1, some (.list [v]))
  | lpush _ v, some (.list l) => (.integer (l.length + 1), some (.list (v :: l)))
  | lpush _ _, some (.string b) => (wrongType, some (.string b))

end Command

/-- The words of a format with its arguments put in (hiredis `redisvFormatCommand`). `cur` is the word that is being
built and `touched` says that there is one: a `%s` with an empty argument gives an empty word, two blanks give none.
Conversions that the program never writes, and a conversion without an argument, give no command. -/
def redisvFormatCommand : Bytes → List Arg → Bytes → Bool → Option (List Bytes)
  | [], _, cur, touched => some (if touched then [cur] else [])
  | [c], args, cur, touched =>
    if c = 32 then redisvFormatCommand [] args [] false |>.map ((if touched then [cur] else []) ++ ·)
    else redisvFormatCommand [] args (cur ++ [c]) true
  | c :: c' :: fmt, args, cur, touched =>
    if c = 32 then
      redisvFormatCommand (c' :: fmt) args [] false |>.map ((if touched then [cur] else []) ++ ·)
    else if c = 37 then
      if c' = 37 then redisvFormatCommand fmt args (cur ++ [37]) true
      else match args with
        | .s b :: args =>
          if c' = 115 then redisvFormatCommand fmt args (cur ++ cstr b) true else none
        | .d n :: args =>
          if c' = 100 then redisvFormatCommand fmt args (cur ++ decInt n) true else none
        | [] => none
    else redisvFormatCommand (c' :: fmt) args (cur ++ [c]) true

/-- The command that a format and its arguments stand for. -/
def commandOf (fmt : Bytes) (args : List Arg) : Option Command :=
  (redisvFormatCommand (cstr fmt) args [] false).bind Command.ofArgs

theorem redisvFormatCommand_head {b : UInt8} (fmt : Bytes) (args : List Arg) (c : Bytes)
    (touched : Bool) {cur : Bytes} {ws : List Bytes} (hc : c = b :: cur) (ht : touched = true)
    (h : redisvFormatCommand fmt args c touched = some ws) : ∃ w ws', ws = (b :: w) :: ws' := by
  fun_induction redisvFormatCommand fmt args c touched generalizing cur ws with
  | case1 args c touched =>
    subst hc ht
    exact ⟨cur, [], by simpa using h.symm⟩
  | case2 | case4 =>
    -- a blank ends the word
    subst hc ht
    obtain ⟨ws', -, rfl⟩ := Option.map_eq_some_iff.mp h
    exact ⟨cur, ws', rfl⟩
  | case7 | case9 | case10 => cases h
  | case3 _ _ _ _ _ ih | case5 _ _ _ _ _ ih | case6 _ _ _ _ _ _ _ ih | case8 _ _ _ _ _ _ _ ih
  | case11 _ _ _ _ _ _ _ _ ih =>
    -- the word grows
    exact ih (by rw [hc]; rfl) rfl h

theorem commandOf_small_o (fmt : Bytes) (args : List Arg) : commandOf (111 :: fmt) args = none := by
  unfold commandOf
  have hc : cstr (111 :: fmt) = 111 :: cstr fmt := rfl
  rw [hc, Option.bind_eq_none_iff]
  intro ws h
  have h' : redisvFormatCommand (cstr fmt) args [111] true = some ws := by
    cases hf : cstr fmt with
    | nil => rw [hf] at h; exact h
    | cons x xs => rw [hf] at h; exact h
  obtain ⟨w, ws', rfl⟩ := redisvFormatCommand_head _ _ _ _ rfl rfl h'
  rcases ws' with _ | ⟨_, _ | ⟨_, _ | ⟨_, _ | ⟨_, _ | ⟨_, _⟩⟩⟩⟩⟩ <;> simp [Command.ofArgs, str]

instance : Redis where
  commandOf := commandOf
  apply := Command.apply
  commandOf_get _ := rfl
  commandOf_del _ := rfl
  commandOf_exists _ := rfl
  commandOf_set _ _ := rfl
  commandOf_setEx _ _ _ := rfl
  commandOf_small_o := commandOf_small_o
  apply_reads {c} h v := by
    rcases c with k | k | k | k | k | k <;> simp only [Command.reads, Bool.false_eq_true] at h <;>
      rcases v with _ | _ | _ <;> rfl
  apply_get_none _ := rfl
  apply_get_string _ _ := rfl
  apply_set _ _ _ := rfl
  apply_setEx _ _ _ _ := rfl
  apply_del _ old := by cases old <;> rfl
  apply_exists _ _ := rfl

end Sherry
