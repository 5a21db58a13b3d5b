import Mathlib.Data.List.Basic
import OtaServer.Lib.Bytes

/-!
# Numbers in a text

How the C library reads a number at the start of a text, and how a number is printed in decimal.

* `digitsOf`, `valueOf`: the digits at the start of a text and the number they stand for.
* `strtol`, `stoi`: blanks, a sign and digits are read; what follows them is not looked at. `stoi` gives nothing where
  it throws.
* `numeral`: the number of a text that is digits throughout.
* `valueOf_dec`: reading back a number that was printed; so `dec` is injective (`dec_inj`).
* `hex`, `valueOf_hex`: the same for a number that is printed in hexadecimal.
-/

namespace Lib

/-- The value of a digit, 36 for another byte. -/
def digitValue (b : UInt8) : Nat :=
  if 48 ≤ b ∧ b ≤ 57 then b.toNat - 48
  else if 97 ≤ b ∧ b ≤ 122 then b.toNat - 87
  else if 65 ≤ b ∧ b ≤ 90 then b.toNat - 55
  else 36

/-- The digits at the start of a text. -/
def digitsOf (base : Nat) (text : Bytes) : Bytes := text.takeWhile fun b => digitValue b < base

/-- The number that digits stand for. -/
def valueOf (base : Nat) (digits : Bytes) : Nat :=
  digits.foldl (fun n b => n * base + digitValue b) 0

/-- `isspace`. -/
def isSpace (b : UInt8) : Bool := (9 ≤ b && b ≤ 13) || b == 32

/-- `0x` in front of a hexadecimal digit. -/
def dropHexPrefix : Bytes → Bytes
  | 48 :: x :: d :: ds =>
    if (x = 120 ∨ x = 88) ∧ digitValue d < 16 then d :: ds else 48 :: x :: d :: ds
  | ds => ds

/-- The sign in front of a number, and the rest. -/
def splitSign : Bytes → Int × Bytes
  | 45 :: ds => (-1, ds)
  | 43 :: ds => (1, ds)
  | ds => (1, ds)

/-- `strtol(text, NULL, base)` with a 64-bit `long`. -/
def strtol (base : Nat) (text : Bytes) : Int :=
  let (sign, ds) := splitSign (text.dropWhile isSpace)
  let ds := if base = 16 then dropHexPrefix ds else ds
  max (-2 ^ 63) (min (2 ^ 63 - 1) (sign * (valueOf base (digitsOf base ds) : Int)))

/-- `std::stoi(text)` with a 32-bit `int`. Nothing if there are no digits (`std::invalid_argument`) or the number is
no `int` (`std::out_of_range`). -/
def stoi (text : Bytes) : Option Int :=
  if digitsOf 10 (splitSign (text.dropWhile isSpace)).2 = [] then none
  else if -2 ^ 31 ≤ strtol 10 text ∧ strtol 10 text < 2 ^ 31 then some (strtol 10 text)
  else none

/-- The number that a text of decimal digits stands for. -/
def numeral (text : Bytes) : Option Nat :=
  if text ≠ [] ∧ text.all (digitValue · < 10) then some (valueOf 10 text) else none

/-- A number in hexadecimal, as `operator<<` prints it behind `std::hex`. -/
def hex (n : Nat) : Bytes := (Nat.toDigits 16 n).map fun c => UInt8.ofNat c.toNat

/-! ## Reading digits -/

variable {ds : Bytes} {n : Nat} {b : UInt8}

theorem digitsOf_append {base : Nat} (h : ∀ b ∈ ds, digitValue b < base)
    (hb : ¬ digitValue b < base) (rest : Bytes) : digitsOf base (ds ++ b :: rest) = ds := by
  rw [digitsOf, List.takeWhile_append_of_pos (by simpa using h),
    List.takeWhile_cons_of_neg (by simpa using hb), List.append_nil]

theorem digitValue_lt_ten_iff : digitValue b < 10 ↔ 48 ≤ b ∧ b ≤ 57 := by
  simp only [digitValue, UInt8.le_iff_toNat_le, UInt8.reduceToNat]
  split_ifs <;> omega

theorem digitValue_lt_sixteen_iff :
    digitValue b < 16 ↔ (48 ≤ b ∧ b ≤ 57) ∨ (97 ≤ b ∧ b ≤ 102) ∨ (65 ≤ b ∧ b ≤ 70) := by
  simp only [digitValue, UInt8.le_iff_toNat_le, UInt8.reduceToNat]
  split_ifs <;> omega

theorem isSpace_of_digit (h : digitValue b < 16) : isSpace b = false := by
  rw [digitValue_lt_sixteen_iff] at h
  grind -linarith [isSpace]

theorem ne_of_digit (h : digitValue b < 16) : b ≠ 45 ∧ b ≠ 43 ∧ b ≠ 120 ∧ b ≠ 88 := by
  rw [digitValue_lt_sixteen_iff] at h
  grind -linarith

/-- Digits in front of a byte that is none do not start with `0x`, if that byte is not the `x`. -/
theorem dropHexPrefix_digits (h : ∀ b ∈ ds, digitValue b < 16)
    (hb : ¬digitValue b < 16) (hx : b ≠ 120 ∧ b ≠ 88) (rest : Bytes) :
    dropHexPrefix (ds ++ b :: rest) = ds ++ b :: rest := by
  match ds with
  | [] =>
    rw [List.nil_append, dropHexPrefix]
    rintro x d' ds' heq
    obtain ⟨rfl, -⟩ := List.cons.inj heq
    exact hb (by decide)
  | [d] =>
    by_cases hd : d = 48
    · subst hd
      cases rest with
      | nil => rfl
      | cons x rest => exact if_neg (by simp [hx.1, hx.2])
    · rw [List.cons_append, List.nil_append, dropHexPrefix]
      intro x d' ds' heq
      exact hd (List.cons.inj heq).1
  | d :: x :: ds =>
    have hx := ne_of_digit (h x (by simp))
    by_cases hd : d = 48
    · subst hd
      cases ds with
      | nil => exact if_neg (by simp [hx.2.2.1, hx.2.2.2])
      | cons y ds => exact if_neg (by simp [hx.2.2.1, hx.2.2.2])
    · rw [List.cons_append, dropHexPrefix]
      intro x' d' ds' heq
      exact hd (List.cons.inj heq).1

theorem splitSign_digits (hne : ds ≠ []) (h : ∀ b ∈ ds, digitValue b < 16)
    (rest : Bytes) : splitSign ((ds ++ rest).dropWhile isSpace) = (1, ds ++ rest) := by
  obtain ⟨d, ds', rfl⟩ := List.exists_cons_of_ne_nil hne
  have hd := h d List.mem_cons_self
  have hsign := ne_of_digit hd
  rw [List.cons_append, List.dropWhile_cons_of_neg (by simp [isSpace_of_digit hd]), splitSign]
  · exact fun _ heq => hsign.1 (List.cons.inj heq).1
  · exact fun _ heq => hsign.2.1 (List.cons.inj heq).1

theorem strtol_hex (hne : ds ≠ []) (h : ∀ b ∈ ds, digitValue b < 16)
    (hb : ¬digitValue b < 16) (hx : b ≠ 120 ∧ b ≠ 88) (rest : Bytes) :
    strtol 16 (ds ++ b :: rest) = min (2 ^ 63 - 1) (valueOf 16 ds : Int) := by
  rw [strtol, splitSign_digits hne h]
  dsimp only
  rw [if_pos rfl, dropHexPrefix_digits h hb hx, digitsOf_append h hb]
  omega

theorem strtol_dec (hne : ds ≠ []) (h : ∀ b ∈ ds, digitValue b < 10) (hlt : valueOf 10 ds < 2 ^ 63) (rest : Bytes) :
    strtol 10 (ds ++ 32 :: rest) = valueOf 10 ds := by
  rw [strtol, splitSign_digits hne fun b hb => Nat.lt_trans (h b hb) (by decide)]
  dsimp only
  rw [if_neg (by decide), digitsOf_append h (by decide)]
  omega

/-! ## Printed numbers -/

theorem digitValue_lt_of_mem_dec (h : b ∈ dec n) : digitValue b < 10 :=
  digitValue_lt_ten_iff.mpr (digit_of_mem_dec h)

theorem digitValue_ofNat {c : Char} (h : c.isDigit) : digitValue (UInt8.ofNat c.toNat) = c.toNat - '0'.toNat := by
  simp only [Char.isDigit, Bool.and_eq_true, decide_eq_true_eq] at h
  have hlo : 48 ≤ c.toNat := h.1
  have hhi : c.toNat ≤ 57 := h.2
  have hb : (UInt8.ofNat c.toNat).toNat = c.toNat := by
    rw [UInt8.toNat_ofNat']
    omega
  have h48 : (48 : UInt8) ≤ UInt8.ofNat c.toNat := by rw [UInt8.le_iff_toNat_le, hb]; exact hlo
  have h57 : UInt8.ofNat c.toNat ≤ (57 : UInt8) := by rw [UInt8.le_iff_toNat_le, hb]; exact hhi
  rw [digitValue, if_pos ⟨h48, h57⟩, hb]
  rfl

theorem valueOf_dec (n : Nat) : valueOf 10 (dec n) = n := by
  have hdigits : ∀ c ∈ Nat.toDigits 10 n, c.isDigit := fun c hc =>
    Nat.isDigit_of_mem_toDigits (by decide) (by decide) hc
  rw [valueOf, dec, List.foldl_map]
  refine Eq.trans ?_ Nat.ofDigitChars_ten_toDigits
  rw [Nat.ofDigitChars]
  refine List.foldl_ext _ _ _ fun v c hc => ?_
  rw [digitValue_ofNat (hdigits c hc), Nat.mul_comm]

theorem dec_inj {m : Nat} : dec m = dec n ↔ m = n := by
  refine ⟨fun h => ?_, fun h => h ▸ rfl⟩
  rw [← valueOf_dec m, h, valueOf_dec]

theorem numeral_eq_some {text : Bytes} :
    numeral text = some n ↔ text ≠ [] ∧ (∀ b ∈ text, digitValue b < 10) ∧ valueOf 10 text = n := by
  rw [numeral, Option.ite_none_right_eq_some, Option.some.injEq, List.all_eq_true, and_assoc]
  simp only [decide_eq_true_eq]

/-- Where `stoi` and `numeral` agree. -/
theorem stoi_of_numeral {text : Bytes} (h : numeral text = some n) (hn : n < 2 ^ 31) :
    stoi text = some (n : Int) := by
  obtain ⟨hne, hdec, hvalue⟩ := numeral_eq_some.mp h
  have hsplit := splitSign_digits hne (fun b hb => Nat.lt_trans (hdec b hb) (by decide)) []
  rw [List.append_nil] at hsplit
  have hof : digitsOf 10 text = text := List.takeWhile_eq_self_iff.mpr (by simpa using hdec)
  have hread : strtol 10 text = n := by
    rw [strtol, hsplit]
    dsimp only
    rw [if_neg (by decide), hof, hvalue]
    omega
  rw [stoi, hsplit, hof, if_neg hne, hread, if_pos (by omega)]

theorem numeral_dec (n : Nat) : numeral (dec n) = some n :=
  numeral_eq_some.mpr ⟨dec_ne_nil n, fun _ => digitValue_lt_of_mem_dec, valueOf_dec n⟩

theorem digitValue_digitChar {d : Nat} (h : d < 16) : digitValue (UInt8.ofNat (Nat.digitChar d).toNat) = d := by
  have hall : ∀ e : Fin 16, digitValue (UInt8.ofNat (Nat.digitChar e).toNat) = e := by decide +kernel
  exact hall ⟨d, h⟩

theorem hex_eq (n : Nat) : hex n =
    if n < 16 then [UInt8.ofNat (Nat.digitChar n).toNat]
    else hex (n / 16) ++ [UInt8.ofNat (Nat.digitChar (n % 16)).toNat] := by
  rw [hex, Nat.toDigits_eq_if (by decide)]
  split
  · rfl
  · rw [List.map_append, hex]
    rfl

theorem hex_ne_nil (n : Nat) : hex n ≠ [] := by
  rw [hex_eq]
  split
  · exact List.cons_ne_nil _ _
  · exact List.append_ne_nil_of_right_ne_nil _ (List.cons_ne_nil _ _)

theorem digitValue_lt_of_mem_hex (h : b ∈ hex n) : digitValue b < 16 := by
  induction n using Nat.strongRecOn with
  | ind n ih =>
    rw [hex_eq] at h
    split at h
    · next hlt =>
      rw [List.mem_singleton.mp h, digitValue_digitChar hlt]
      exact hlt
    · next hge =>
      obtain hfront | hlast := List.mem_append.mp h
      · exact ih (n / 16) (by omega) hfront
      · have hmod := Nat.mod_lt n (show 16 > 0 by decide)
        rw [List.mem_singleton.mp hlast, digitValue_digitChar hmod]
        exact hmod

theorem valueOf_hex (n : Nat) : valueOf 16 (hex n) = n := by
  induction n using Nat.strongRecOn with
  | ind n ih =>
    rw [hex_eq]
    split
    · next hlt =>
      rw [valueOf, List.foldl_cons, List.foldl_nil, digitValue_digitChar hlt]
      omega
    · next hge =>
      have hfront := ih (n / 16) (by omega)
      rw [valueOf] at hfront
      rw [valueOf, List.foldl_append, hfront, List.foldl_cons, List.foldl_nil,
        digitValue_digitChar (Nat.mod_lt n (by decide))]
      omega

theorem length_hex_le {k : Nat} (hk : 0 < k) (h : n < 16 ^ k) : (hex n).length ≤ k := by
  rw [hex, List.length_map]
  exact (Nat.length_toDigits_le_iff (by decide) hk).mpr h

end Lib
