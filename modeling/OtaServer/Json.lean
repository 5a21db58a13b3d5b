import Mathlib.Data.Rat.Defs
import OtaServer.Lib.Bytes

/-!
# JSON values (`include/json/json.hpp`)

The part of `nlohmann::json` that the program uses: values, access by key, and the conversions of a value to
`uint16_t` and to `std::string`. The text side of the library (`parse`, `dump`) is a parameter (`Nlohmann`).

A conversion that throws is `none`. The program reads `device_type` with an implicit conversion to `uint16_t`: an
integer is taken modulo `2 ^ 16`, a floating-point number loses its fraction first, a boolean becomes `0` or `1`, and
every other value throws.
-/

namespace Sherry

open Lib

/-- A JSON value. A floating-point number is the rational number that it stands for. -/
inductive Json where
  | null
  | boolean (b : Bool)
  | numberInteger (n : Int)
  | numberUnsigned (n : Nat)
  | numberFloat (q : Rat)
  | string (b : Bytes)
  | array (l : List Json)
  | object (fields : List (Bytes × Json))

namespace Json

/-- The value of a key of an object. -/
def find? : Json → Bytes → Option Json
  | object fields, key => fields.lookup key
  | _, _ => none

/-- `j.contains(key)`. -/
def contains (j : Json) (key : Bytes) : Bool := (j.find? key).isSome

/-- `static_cast<uint16_t>`. -/
def toUInt16 (n : Int) : UInt16 := UInt16.ofNat (n % 2 ^ 16).toNat

/-- The conversion to `uint16_t`. -/
def getUInt16 : Json → Option UInt16
  | numberInteger n => some (toUInt16 n)
  | numberUnsigned n => some (toUInt16 n)
  | numberFloat q => some (toUInt16 (q.num.tdiv q.den))
  | boolean b => some (if b then 1 else 0)
  | _ => none

/-- The conversion to `std::string`. -/
def getString : Json → Option Bytes
  | string b => some b
  | _ => none

/-- The integer that a number stands for, if it stands for one. -/
def intValue : Json → Option Int
  | numberInteger n => some n
  | numberUnsigned n => some n
  | numberFloat q => if q.den = 1 then some q.num else none
  | _ => none

theorem toUInt16_toNat {n : Int} : ((toUInt16 n).toNat : Int) = n ↔ 0 ≤ n ∧ n < 65536 := by
  have h : ((toUInt16 n).toNat : Int) = n % 65536 := by
    have hmod : (n % 2 ^ 16).toNat < 2 ^ 16 := by omega
    rw [toUInt16, UInt16.toNat_ofNat', Nat.mod_eq_of_lt hmod]
    omega
  omega

/-- The conversion takes the integer that a number stands for modulo `2 ^ 16`. -/
theorem getUInt16_of_intValue {j : Json} {n : Int} (h : j.intValue = some n) : j.getUInt16 = some (toUInt16 n) := by
  cases j with
  | numberInteger k => rw [intValue, Option.some.injEq] at h; rw [getUInt16, h]
  | numberUnsigned k => rw [intValue, Option.some.injEq] at h; rw [getUInt16, h]
  | numberFloat q =>
    rw [intValue] at h
    split at h
    · rename_i hq
      rw [Option.some.injEq] at h
      rw [getUInt16, hq, h]
      simp
    · cases h
  | null | boolean | string | array | object => cases h

/-- The string of a key of an object. -/
def stringAt (j : Json) (key : Bytes) : Option Bytes := (j.find? key).bind getString

/-- The `uint16_t` of a key of an object. -/
def uint16At (j : Json) (key : Bytes) : Option UInt16 := (j.find? key).bind getUInt16

/-- The integer of a key of an object. -/
def intAt (j : Json) (key : Bytes) : Option Int := (j.find? key).bind intValue

theorem uint16At_of_intAt {j : Json} {key : Bytes} {n : Int} (h : j.intAt key = some n) :
    j.uint16At key = some (toUInt16 n) := by
  obtain ⟨v, hv, hn⟩ := Option.bind_eq_some_iff.mp h
  exact Option.bind_eq_some_iff.mpr ⟨v, hv, getUInt16_of_intValue hn⟩

end Json

/-- The text side of the library: `parse` gives no value where the library throws. -/
structure Nlohmann where
  parse : Bytes → Option Json
  dump : Json → Bytes

/-- The library on some texts with their values, in a run that parses no other text and dumps nothing. -/
def Nlohmann.ofTexts (texts : List (Bytes × Json)) : Nlohmann := ⟨fun b => texts.lookup b, fun _ => []⟩

end Sherry
