import Mathlib.Algebra.Group.Int.Defs
import Mathlib.Algebra.Group.Nat.Defs
import Mathlib.Data.List.TakeWhile

/-!
# Byte strings

A byte string is a list of bytes: it may hold any byte, the zero byte too. A C string ends at its first zero byte, so
a byte string that is passed on through a `const char *` loses what follows that byte.

* `str`: the bytes of an ASCII literal; `dec`, `decInt`: a number in decimal.
* `cstr`: what is left of a byte string behind a `const char *`. It is the byte string itself exactly when there is no
  zero byte in it (`cstr_eq_self_iff`).
* `strncmpEq`: `strncmp(a, b, n) == 0`.
* `toLower`: `tolower`. `utf8Valid`: the byte string is UTF-8 text.
-/

namespace Lib

/-- A byte string (`std::string`, a payload, the bytes of a socket). -/
abbrev Bytes := List UInt8

theorem forall_byte {P : UInt8 → Prop} (h : ∀ n : Fin 256, P (UInt8.ofFin n)) (b : UInt8) : P b :=
  h b.toFin

/-- The bytes of an ASCII literal. -/
def str (s : String) : Bytes := s.toList.map fun c => UInt8.ofNat c.toNat

/-- A number in decimal, as `operator<<` and `std::to_string` print it. -/
def dec (n : Nat) : Bytes := (Nat.toDigits 10 n).map fun c => UInt8.ofNat c.toNat

/-- An `int` in decimal. -/
def decInt : Int → Bytes
  | .ofNat n => dec n
  | .negSucc n => str "-" ++ dec (n + 1)

/-- `tolower` in the C locale. -/
def toLower (b : UInt8) : UInt8 := if 65 ≤ b ∧ b ≤ 90 then b + 32 else b

/-- The bytes before the first zero byte. -/
def cstr (b : Bytes) : Bytes := b.takeWhile (· != 0)

/-- `strncmp(a, b, n) == 0`: at most `n` bytes are compared, and none after a zero byte. -/
def strncmpEq (a b : Bytes) (n : Nat) : Bool := (cstr a).take n == (cstr b).take n

/-- The ranges that the next bytes of a UTF-8 text have to lie in, after one more byte. No range is open at the start
of a character. -/
def utf8Next : List (UInt8 × UInt8) → UInt8 → Option (List (UInt8 × UInt8))
  | (lo, hi) :: open', b => if lo ≤ b ∧ b ≤ hi then some open' else none
  | [], b =>
    if b < 0x80 then some []
    else if b < 0xC2 then none
    else if b < 0xE0 then some [(0x80, 0xBF)]
    else if b = 0xE0 then some [(0xA0, 0xBF), (0x80, 0xBF)]
    else if b = 0xED then some [(0x80, 0x9F), (0x80, 0xBF)]
    else if b < 0xF0 then some [(0x80, 0xBF), (0x80, 0xBF)]
    else if b = 0xF0 then some [(0x90, 0xBF), (0x80, 0xBF), (0x80, 0xBF)]
    else if b < 0xF4 then some [(0x80, 0xBF), (0x80, 0xBF), (0x80, 0xBF)]
    else if b = 0xF4 then some [(0x80, 0x8F), (0x80, 0xBF), (0x80, 0xBF)]
    else none

/-- The byte string is UTF-8 text. -/
def utf8Valid (b : Bytes) : Bool := b.foldlM utf8Next [] == some []

theorem zero_notMem_cstr (b : Bytes) : 0 ∉ cstr b := by
  intro h
  simpa using List.mem_takeWhile_imp h

theorem cstr_eq_self {b : Bytes} (h : 0 ∉ b) : cstr b = b := by
  refine List.takeWhile_eq_self_iff.mpr fun x hx => ?_
  have : x ≠ 0 := fun e => h (e ▸ hx)
  simpa using this

theorem cstr_eq_self_iff {b : Bytes} : cstr b = b ↔ 0 ∉ b :=
  ⟨fun h => h ▸ zero_notMem_cstr b, cstr_eq_self⟩

@[simp] theorem cstr_cstr (b : Bytes) : cstr (cstr b) = cstr b :=
  cstr_eq_self (zero_notMem_cstr b)

/-- The bytes in front of a zero byte stay. -/
theorem cstr_append {a : Bytes} (h : 0 ∉ a) (b : Bytes) : cstr (a ++ b) = a ++ cstr b := by
  refine List.takeWhile_append_of_pos fun x hx => ?_
  have : x ≠ 0 := fun e => h (e ▸ hx)
  simpa using this

theorem cstr_append_of_mem {a : Bytes} (h : 0 ∈ a) (b : Bytes) : cstr (a ++ b) = cstr a := by
  have hne : (cstr a).length ≠ a.length := by
    intro hlen
    have hself : cstr a = a := (List.takeWhile_sublist _).eq_of_length hlen
    exact cstr_eq_self_iff.mp hself h
  unfold cstr at hne ⊢
  rw [List.takeWhile_append, if_neg hne]

theorem strncmpEq_append {text : Bytes} {n : Nat} (h : n ≤ text.length) (tail v : Bytes) :
    strncmpEq (text ++ tail) v n = strncmpEq text v n := by
  unfold strncmpEq cstr
  rw [List.take_takeWhile, List.take_append_of_le_length h, ← List.take_takeWhile]

theorem digit_of_mem_dec {n : Nat} {b : UInt8} (h : b ∈ dec n) : 48 ≤ b ∧ b ≤ 57 := by
  obtain ⟨c, hc, rfl⟩ := List.mem_map.mp h
  have hd := Nat.isDigit_of_mem_toDigits (by decide) (by decide) hc
  simp only [Char.isDigit, Bool.and_eq_true, decide_eq_true_eq] at hd
  have hlo : 48 ≤ c.toNat := hd.1
  have hhi : c.toNat ≤ 57 := hd.2
  rw [UInt8.le_iff_toNat_le, UInt8.le_iff_toNat_le, UInt8.toNat_ofNat']
  have h48 : (48 : UInt8).toNat = 48 := rfl
  have h57 : (57 : UInt8).toNat = 57 := rfl
  omega

theorem dec_ne_nil (n : Nat) : dec n ≠ [] := by
  rw [dec, ne_eq, List.map_eq_nil_iff]
  exact Nat.toDigits_ne_nil

theorem zero_notMem_dec (n : Nat) : 0 ∉ dec n := by
  intro h
  exact absurd (digit_of_mem_dec h).1 (by decide)

end Lib
