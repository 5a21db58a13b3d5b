import OtaServer.Lib.Number
import OtaServer.Lib.Separator

/-!
# Redis keys (`sherry/hash.h`)

`OTAHash` builds the keys of the version records, of the reported states and of the command queue. The parts of a key
are joined with colons. Only the last part is free text, so a key can be read back (`keys_apart`).
-/

namespace Sherry

open Lib

/-- The start of every key. -/
def otaRedisKeyPrefix : Bytes := str "ota:device:"

/-- `OTAHash::get_device_group_mudule_hash`. -/
def getDeviceGroupMuduleHash (task : Bytes) (groupId : UInt16) (name : Bytes) : Bytes :=
  otaRedisKeyPrefix ++ task ++ str ":" ++ dec groupId.toNat ++ str ":" ++ name

/-- `OTAHash::get_message_queue_hash`. -/
def getMessageQueueHash : Bytes := otaRedisKeyPrefix ++ str "message"

/-- The key of a module behind a `const char *`: the module's name ends at its first zero byte. -/
theorem cstr_getDeviceGroupMuduleHash {task : Bytes} (ht : 0 ∉ task) (g : UInt16) (name : Bytes) :
    cstr (getDeviceGroupMuduleHash task g name) = getDeviceGroupMuduleHash task g (cstr name) := by
  unfold getDeviceGroupMuduleHash
  refine cstr_append ?_ name
  have hp : 0 ∉ otaRedisKeyPrefix := by decide
  have hc : 0 ∉ str ":" := by decide
  simp [hp, ht, hc, zero_notMem_dec]

theorem getDeviceGroupMuduleHash_inj {task : Bytes} {g : UInt16} {a b : Bytes} :
    getDeviceGroupMuduleHash task g a = getDeviceGroupMuduleHash task g b ↔ a = b := by
  simp [getDeviceGroupMuduleHash]

/-- **Keys.** Tasks without a colon: task, group and module can be read back from a key, and no key is the
key of the command queue. -/
theorem keys_apart {task task' : Bytes} (ht : 58 ∉ task) (ht' : 58 ∉ task') (g g' : UInt16) (name name' : Bytes) :
    (getDeviceGroupMuduleHash task g name = getDeviceGroupMuduleHash task' g' name' ↔
        task = task' ∧ g = g' ∧ name = name') ∧ getDeviceGroupMuduleHash task g name ≠ getMessageQueueHash := by
  have hcolon : str ":" = [58] := by decide
  have hdec : ∀ g : UInt16, 58 ∉ dec g.toNat := fun g hm => absurd (digit_of_mem_dec hm).2 (by decide)
  have hkey : ∀ (task : Bytes) (g : UInt16) (name : Bytes), getDeviceGroupMuduleHash task g name =
      otaRedisKeyPrefix ++ (task ++ 58 :: (dec g.toNat ++ 58 :: name)) := by
    intro task g name
    simp only [getDeviceGroupMuduleHash, hcolon, List.append_assoc, List.cons_append, List.nil_append]
  refine ⟨?_, fun hqueue => ?_⟩
  · rw [hkey, hkey, List.append_cancel_left_eq, append_cons_inj ht ht', append_cons_inj (hdec g) (hdec g'),
      dec_inj, UInt16.toNat_inj]
  · -- the last part of the queue's key has no colon
    rw [hkey, getMessageQueueHash, List.append_cancel_left_eq] at hqueue
    have hmem : (58 : UInt8) ∈ str "message" := hqueue ▸ List.mem_append_right task List.mem_cons_self
    exact absurd hmem (by decide)

theorem keys_apart_colon :
    getDeviceGroupMuduleHash (str "query") 1 (str "2:cam") ≠ getDeviceGroupMuduleHash (str "query") 12 (str "cam") ∧
      getDeviceGroupMuduleHash (str "message") 1 (str "cam") ≠ getMessageQueueHash := by
  have ht : 58 ∉ str "query" := by decide
  have hq : 58 ∉ str "message" := by decide
  refine ⟨fun h => ?_, (keys_apart hq hq 1 1 (str "cam") (str "cam")).2⟩
  have hg := (((keys_apart ht ht 1 12 (str "2:cam") (str "cam")).1).mp h).2.1
  exact absurd hg (by decide)

/-- No key of a module is a format that asks the server for something. -/
theorem getDeviceGroupMuduleHash_small_o (task : Bytes) (g : UInt16) (name : Bytes) :
    ∃ k, getDeviceGroupMuduleHash task g name = 111 :: k :=
  ⟨_, rfl⟩

end Sherry
