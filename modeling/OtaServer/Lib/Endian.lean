import OtaServer.Lib.Bytes

/-!
# Numbers as bytes

* `leBytes`, `leValue`: the bytes of a number, the lowest first, and the number of some bytes.
* `byteSwap`: the number with its bytes in the opposite order. `getLsbD_byteSwap` is one bit of it, so that it
  commutes with the operations on bits.
-/

namespace Lib

/-- The first `k` bytes of a number, the lowest first. -/
def leBytes : Nat → Nat → Bytes
  | 0, _ => []
  | k + 1, v => UInt8.ofNat v :: leBytes k (v / 256)

/-- The number of some bytes, the lowest first. -/
def leValue : Bytes → Nat
  | [] => 0
  | b :: bs => b.toNat + 256 * leValue bs

@[simp] theorem length_leBytes (k v : Nat) : (leBytes k v).length = k := by
  induction k generalizing v with
  | zero => rfl
  | succ k ih => rw [leBytes, List.length_cons, ih]

theorem leValue_lt (bs : Bytes) : leValue bs < 256 ^ bs.length := by
  induction bs with
  | nil => exact Nat.one_pos
  | cons b bs ih =>
    have hb := b.toNat_lt
    rw [leValue, List.length_cons, Nat.pow_succ]
    omega

theorem leValue_leBytes {k v : Nat} (h : v < 256 ^ k) : leValue (leBytes k v) = v := by
  induction k generalizing v with
  | zero =>
    rw [Nat.pow_zero] at h
    rw [leBytes, leValue]
    omega
  | succ k ih =>
    rw [Nat.pow_succ] at h
    rw [leBytes, leValue, ih (by omega), UInt8.toNat_ofNat']
    omega

theorem leBytes_leValue (bs : Bytes) : leBytes bs.length (leValue bs) = bs := by
  induction bs with
  | nil => rfl
  | cons b bs ih =>
    have hb := b.toNat_lt
    have hhead : UInt8.ofNat (b.toNat + 256 * leValue bs) = b := by
      rw [← UInt8.toNat_inj, UInt8.toNat_ofNat']
      omega
    have htail : (b.toNat + 256 * leValue bs) / 256 = leValue bs := by omega
    rw [List.length_cons, leBytes, leValue, hhead, htail, ih]

/-- A number of `k` bytes with its bytes in the opposite order. -/
def byteSwap {k : Nat} (v : BitVec (8 * k)) : BitVec (8 * k) :=
  BitVec.ofNat _ (leValue (leBytes k v.toNat).reverse)

theorem leValue_toNat {k : Nat} (v : BitVec (8 * k)) : leValue (leBytes k v.toNat) = v.toNat :=
  leValue_leBytes (by
    have := v.isLt
    rwa [Nat.pow_mul] at this)

theorem toNat_byteSwap {k : Nat} (v : BitVec (8 * k)) : (byteSwap v).toNat = leValue (leBytes k v.toNat).reverse := by
  have hlt := leValue_lt (leBytes k v.toNat).reverse
  rw [List.length_reverse, length_leBytes] at hlt
  rw [byteSwap, BitVec.toNat_ofNat, Nat.pow_mul, Nat.mod_eq_of_lt hlt]

theorem leBytes_byteSwap {k : Nat} (v : BitVec (8 * k)) :
    leBytes k (byteSwap v).toNat = (leBytes k v.toNat).reverse := by
  have hback := leBytes_leValue (leBytes k v.toNat).reverse
  rw [List.length_reverse, length_leBytes] at hback
  rw [toNat_byteSwap, hback]

theorem byteSwap_byteSwap {k : Nat} (v : BitVec (8 * k)) : byteSwap (byteSwap v) = v := by
  apply BitVec.eq_of_toNat_eq
  rw [toNat_byteSwap, leBytes_byteSwap, List.reverse_reverse, leValue_toNat]

/-! ## Bits -/

theorem getElem?_leBytes {k i : Nat} (v : Nat) (hi : i < k) :
    (leBytes k v)[i]? = some (UInt8.ofNat (v / 256 ^ i)) := by
  induction k generalizing v i with
  | zero => exact absurd hi (Nat.not_lt_zero i)
  | succ k ih =>
    cases i with
    | zero => rw [leBytes, List.getElem?_cons_zero, Nat.pow_zero, Nat.div_one]
    | succ i =>
      rw [leBytes, List.getElem?_cons_succ, ih _ (Nat.lt_of_succ_lt_succ hi), Nat.div_div_eq_div_mul, Nat.pow_succ']

theorem testBit_leValue (bs : Bytes) (i : Nat) :
    (leValue bs).testBit i = (bs[i / 8]?.getD 0).toNat.testBit (i % 8) := by
  induction bs generalizing i with
  | nil => simp [leValue]
  | cons b bs ih =>
    have hsum : leValue (b :: bs) = 2 ^ 8 * leValue bs + b.toNat := Nat.add_comm _ _
    rw [hsum, Nat.testBit_two_pow_mul_add _ b.toNat_lt]
    by_cases hi : i < 8
    · rw [if_pos hi, Nat.div_eq_of_lt hi, Nat.mod_eq_of_lt hi]
      rfl
    · have hdiv : i / 8 = (i - 8) / 8 + 1 := by omega
      have hmod : i % 8 = (i - 8) % 8 := by omega
      rw [if_neg hi, ih, hdiv, hmod, List.getElem?_cons_succ]

theorem getLsbD_byteSwap {k i : Nat} (v : BitVec (8 * k)) (hi : i < 8 * k) :
    (byteSwap v).getLsbD i = v.getLsbD (8 * (k - 1 - i / 8) + i % 8) := by
  have hbyte : i / 8 < k := by omega
  have hmod := Nat.mod_lt i (show 8 > 0 by decide)
  rw [← BitVec.testBit_toNat, ← BitVec.testBit_toNat, toNat_byteSwap, testBit_leValue,
    List.getElem?_reverse (by rwa [length_leBytes]), length_leBytes,
    getElem?_leBytes _ (by omega : k - 1 - i / 8 < k), Option.getD_some, UInt8.toNat_ofNat',
    Nat.testBit_mod_two_pow, decide_eq_true hmod, Bool.true_and,
    show (256 : Nat) = 2 ^ 8 from rfl, ← Nat.pow_mul, Nat.testBit_div_two_pow, Nat.add_comm]

section

variable {k : Nat} (v w : BitVec (8 * k))

theorem byteSwap_and : byteSwap (v &&& w) = byteSwap v &&& byteSwap w := by
  apply BitVec.eq_of_getLsbD_eq
  intro i hi
  simp only [BitVec.getLsbD_and, getLsbD_byteSwap _ hi]

theorem byteSwap_or : byteSwap (v ||| w) = byteSwap v ||| byteSwap w := by
  apply BitVec.eq_of_getLsbD_eq
  intro i hi
  simp only [BitVec.getLsbD_or, getLsbD_byteSwap _ hi]

theorem byteSwap_not : byteSwap (~~~ v) = ~~~ byteSwap v := by
  apply BitVec.eq_of_getLsbD_eq
  intro i hi
  have hin : 8 * (k - 1 - i / 8) + i % 8 < 8 * k := by omega
  simp only [BitVec.getLsbD_not, getLsbD_byteSwap _ hi, decide_eq_true hi, decide_eq_true hin]

end

end Lib
