import OtaServer.Address.Basic

/-!
# Subnets

`CreateMask` gives the bits of the host, those behind the prefix. `subnetMask` takes its complement,
`broadcastAddress` sets these bits, and `networkAddress` keeps them in place of the others.

* `createMask_eq`: the mask, where it is defined.
* `IPv4Address.SubnetLaw`, `IPv6Address.SubnetLaw`: what the three functions are for. `ipv4_subnetLaw_iff` and
  `ipv6_subnetLaw_iff` say where they do it.
-/

namespace Sherry

open Lib

/-! ## Masks -/

section

variable {w m j : Nat}

/-- The lowest `m` bits. -/
def lowBits (w m : Nat) : BitVec w := BitVec.ofNat w (2 ^ m - 1)

theorem getLsbD_lowBits : (lowBits w m).getLsbD j = (decide (j < w) && decide (j < m)) := by
  rw [lowBits, BitVec.getLsbD_ofNat, Nat.testBit_two_pow_sub_one]

theorem getMsbD_not_lowBits (hm : m ≤ w) (hj : j < w) : (~~~ lowBits w m).getMsbD j = decide (j < w - m) := by
  rw [BitVec.getMsbD_not, BitVec.getMsbD_eq_getLsbD, getLsbD_lowBits, decide_eq_true hj,
    decide_eq_true (by omega : w - 1 - j < w), Bool.true_and, Bool.true_and, Bool.true_and,
    ← decide_not, decide_eq_decide]
  omega

theorem and_eq_and_not_iff {x y : BitVec w} : x &&& y = x &&& ~~~ y ↔ x = 0#w := by
  constructor
  · intro h
    apply BitVec.eq_of_getLsbD_eq
    intro i hi
    have hbit := congrArg (·.getLsbD i) h
    simp only [BitVec.getLsbD_and, BitVec.getLsbD_not, decide_eq_true hi, Bool.true_and] at hbit
    rw [BitVec.getLsbD_zero]
    cases hx : x.getLsbD i with
    | false => rfl
    | true =>
      rw [hx] at hbit
      cases hy : y.getLsbD i with
      | false => rw [hy] at hbit; cases hbit
      | true => rw [hy] at hbit; cases hbit
  · rintro rfl
    rw [BitVec.zero_and, BitVec.zero_and]

end

/-- **`CreateMask`**, where the shift is smaller than 31. -/
theorem createMask_eq {w bits : Nat} (hle : bits ≤ w) (hshift : w - bits ≤ 30) :
    createMask w bits = .ok (lowBits w (w - bits)) := by
  have hpow : 2 ^ (w - bits) ≤ 2 ^ 30 := Nat.pow_le_pow_right Nat.two_pos hshift
  have hnat : (1#32 <<< (w - bits)).toNat = 2 ^ (w - bits) := by
    rw [BitVec.toNat_shiftLeft, Nat.shiftLeft_eq, show (1#32).toNat = 1 from rfl, Nat.one_mul,
      Nat.mod_eq_of_lt (by omega)]
  have hint : (1#32 <<< (w - bits)).toInt - 1 = ((2 ^ (w - bits) - 1 : Nat) : Int) := by
    have hpos := Nat.two_pow_pos (w - bits)
    rw [BitVec.toInt_eq_toNat_of_lt (by omega), hnat]
    omega
  rw [createMask, if_neg (by omega), hint, if_neg (by omega), BitVec.ofInt_natCast, lowBits]

/-- A shift by 31 or 32 is undefined, or the difference is. -/
theorem createMask_undefined {bits : Nat} (h : bits < 2) : ∃ e, createMask 32 bits = .error e := by
  obtain rfl | rfl : bits = 0 ∨ bits = 1 := by omega
  · exact ⟨.shift, rfl⟩
  · exact ⟨.overflow, rfl⟩

/-! ## IPv4 -/

namespace IPv4Address

variable {a : IPv4Address} {p : Nat} {m : BitVec 32}

/-- The three functions fit together: the mask has the first `p` bits, and the others are the address inside and
outside of it. -/
def SubnetLaw (a : IPv4Address) (p : Nat) : Prop :=
  ∃ mask net broad, a.subnetMask p = .ok mask ∧ a.networkAddress p = .ok (some net) ∧
    a.broadcastAddress p = .ok (some broad) ∧
    (∀ i < 32, mask.host.getMsbD i = decide (i < p)) ∧
    net.host = a.host &&& mask.host ∧ broad.host = a.host ||| ~~~ mask.host ∧
    net.host ≤ a.host ∧ a.host ≤ broad.host ∧
    net.networkAddress p = .ok (some net) ∧ broad.broadcastAddress p = .ok (some broad)

theorem host_and (port : BitVec 16) : host ⟨port, a.sAddr &&& byteswapOnLittleEndian (k := 4) m⟩ = a.host &&& m :=
  (byteSwap_and (k := 4) _ _).trans (congrArg (a.host &&& ·) (byteSwap_byteSwap (k := 4) m))

theorem host_or (port : BitVec 16) : host ⟨port, a.sAddr ||| byteswapOnLittleEndian (k := 4) m⟩ = a.host ||| m :=
  (byteSwap_or (k := 4) _ _).trans (congrArg (a.host ||| ·) (byteSwap_byteSwap (k := 4) m))

theorem host_not (port : BitVec 16) : host ⟨port, ~~~ byteswapOnLittleEndian (k := 4) m⟩ = ~~~ m :=
  (byteSwap_not (k := 4) _).trans (congrArg (~~~ ·) (byteSwap_byteSwap (k := 4) m))

theorem subnet_of_mask (hle : p ≤ 32) (hmask : createMask 32 p = .ok m) :
    a.subnetMask p = .ok ⟨0, ~~~ byteswapOnLittleEndian (k := 4) m⟩ ∧
      a.networkAddress p = .ok (some ⟨a.sinPort, a.sAddr &&& byteswapOnLittleEndian (k := 4) m⟩) ∧
      a.broadcastAddress p = .ok (some ⟨a.sinPort, a.sAddr ||| byteswapOnLittleEndian (k := 4) m⟩) := by
  rw [subnetMask, networkAddress, broadcastAddress, if_neg (by omega), if_neg (by omega), hmask]
  exact ⟨rfl, rfl, rfl⟩

/-- **The subnet functions** of an IPv4 address fit together for the address 0 and a prefix of at least
two bits, and only there. -/
theorem ipv4_subnetLaw_iff (a : IPv4Address) (p : Nat) : a.SubnetLaw p ↔ 2 ≤ p ∧ p ≤ 32 ∧ a.host = 0#32 := by
  constructor
  · rintro ⟨mask, net, broad, hmask, hnet, -, -, hand, -⟩
    have hle : p ≤ 32 := by
      by_contra hgt
      rw [networkAddress, if_pos (by omega)] at hnet
      cases hnet
    have hge : 2 ≤ p := by
      by_contra hlt
      obtain ⟨e, he⟩ := createMask_undefined (Nat.lt_of_not_le hlt)
      rw [subnetMask, he] at hmask
      cases hmask
    obtain ⟨hmask', hnet', -⟩ := subnet_of_mask (a := a) hle (createMask_eq hle (by omega))
    rw [hmask', Except.ok.injEq] at hmask
    rw [hnet', Except.ok.injEq, Option.some.injEq] at hnet
    rw [← hmask, ← hnet, host_and, host_not] at hand
    exact ⟨hge, hle, and_eq_and_not_iff.mp hand⟩
  · rintro ⟨hge, hle, hzero⟩
    have hmask := createMask_eq hle (by omega)
    obtain ⟨hmask', hnet', hbroad'⟩ := subnet_of_mask (a := a) hle hmask
    refine ⟨_, _, _, hmask', hnet', hbroad', fun i hi => ?_, ?_, ?_, ?_, ?_, ?_, ?_⟩
    · rw [host_not, getMsbD_not_lowBits (by omega) hi, decide_eq_decide]
      omega
    · rw [host_and, host_not, hzero, BitVec.zero_and, BitVec.zero_and]
    · rw [host_or, host_not, BitVec.not_not]
    · rw [host_and, hzero, BitVec.zero_and]
      exact BitVec.le_refl _
    · rw [hzero, BitVec.le_def]
      exact Nat.zero_le _
    · rw [(subnet_of_mask hle hmask).2.1, BitVec.and_assoc, BitVec.and_self]
    · rw [(subnet_of_mask hle hmask).2.2, BitVec.or_assoc, BitVec.or_self]

/-- The network of 192.168.1.10/24 is 0.0.0.10. -/
theorem ipv4_subnetLaw_fails : (new 0xC0A8010A 0).networkAddress 24 = .ok (some (new 0x0000000A 0)) ∧
      (new 0xC0A8010A 0).subnetMask 24 = .ok (new 0xFFFFFF00 0) ∧ ¬ (new 0xC0A8010A 0).SubnetLaw 24 := by
  have hnet : (new 0xC0A8010A 0).networkAddress 24 = .ok (some (new 0x0000000A 0)) := by decide
  have hmask : (new 0xC0A8010A 0).subnetMask 24 = .ok (new 0xFFFFFF00 0) := by decide
  refine ⟨hnet, hmask, ?_⟩
  rintro ⟨mask, net, broad, hmask', hnet', -, -, hand, -⟩
  rw [hmask] at hmask'
  rw [hnet] at hnet'
  cases hmask'
  cases hnet'
  exact absurd hand (by decide)

end IPv4Address

/-! ## IPv6 -/

namespace IPv6Address

variable {a : IPv6Address} {p i : Nat}

theorem getElem_setBytes_of_notMem {bytes : Vector UInt8 16} {places : List Nat} {v : UInt8} (hi : i < 16)
    (hin : i ∉ places) : (setBytes bytes places v)[i] = bytes[i] := by
  unfold setBytes
  induction places generalizing bytes with
  | nil => rfl
  | cons place places ih =>
    rw [List.mem_cons, not_or] at hin
    obtain ⟨hne, hin⟩ := hin
    rw [List.foldl_cons, ih hin, Vector.getElem_setIfInBounds_ne hi (Ne.symm hne)]

theorem getElem_setBytes_of_mem {bytes : Vector UInt8 16} {places : List Nat} {v : UInt8} (hi : i < 16)
    (hin : i ∈ places) : (setBytes bytes places v)[i] = v := by
  induction places generalizing bytes with
  | nil => exact absurd hin List.not_mem_nil
  | cons place places ih =>
    by_cases hrest : i ∈ places
    · exact ih hrest
    · obtain rfl := (List.mem_cons.mp hin).resolve_right hrest
      refine (getElem_setBytes_of_notMem hi hrest).trans ?_
      exact Vector.getElem_setIfInBounds_self hi

theorem createMask_byte (p : Nat) : createMask 8 (p % 8) = .ok (lowBits 8 (8 - p % 8)) :=
  createMask_eq (by omega) (by omega)

/-- A byte of the mask. -/
def maskByte (p i : Nat) : UInt8 :=
  if i < p / 8 then 0xff else if i = p / 8 then UInt8.ofBitVec (~~~ lowBits 8 (8 - p % 8)) else 0

theorem subnetMask_eq (hp : p / 8 < 16) :
    ∃ mask, a.subnetMask p = .ok mask ∧ ∀ (i : Nat) (hi : i < 16), mask.s6Addr[i] = maskByte p i := by
  rw [subnetMask, dif_pos hp, createMask_byte]
  refine ⟨_, rfl, fun i hi => ?_⟩
  unfold maskByte
  by_cases hlt : i < p / 8
  · rw [if_pos hlt, getElem_setBytes_of_mem hi (List.mem_range.mpr hlt)]
  · rw [if_neg hlt, getElem_setBytes_of_notMem hi fun h => hlt (List.mem_range.mp h), Vector.getElem_set hp hi]
    by_cases heq : p / 8 = i
    · rw [if_pos heq, if_pos heq.symm]
    · rw [if_neg heq, if_neg fun h => heq h.symm, Vector.getElem_replicate]

theorem networkAddress_eq (hp : p / 8 < 16) :
    ∃ net, a.networkAddress p = .ok net ∧ ∀ (i : Nat) (hi : i < 16), net.s6Addr[i] =
      if i = p / 8 then a.s6Addr[i] &&& UInt8.ofBitVec (lowBits 8 (8 - p % 8)) else a.s6Addr[i] := by
  rw [networkAddress, dif_pos hp, createMask_byte]
  refine ⟨_, rfl, fun i hi => ?_⟩
  rw [Vector.getElem_set hp hi]
  by_cases heq : p / 8 = i
  · subst heq
    rw [if_pos rfl]
  · rw [if_neg heq, if_neg fun h => heq h.symm]

theorem broadcastAddress_eq (hp : p / 8 < 16) : ∃ broad, a.broadcastAddress p = .ok broad ∧
      ∀ (i : Nat) (hi : i < 16), broad.s6Addr[i] = a.s6Addr[i] ||| ~~~ maskByte p i := by
  rw [broadcastAddress, dif_pos hp, createMask_byte]
  refine ⟨_, rfl, fun i hi => ?_⟩
  unfold maskByte
  by_cases hgt : p / 8 < i
  · rw [getElem_setBytes_of_mem hi (List.mem_range'_1.mpr (by omega)), if_neg (by omega), if_neg (by omega)]
    exact UInt8.or_neg_one.symm
  · rw [getElem_setBytes_of_notMem hi fun h => hgt (by have := List.mem_range'_1.mp h; omega),
      Vector.getElem_set hp hi]
    by_cases heq : p / 8 = i
    · subst heq
      rw [if_pos rfl, if_neg (Nat.lt_irrefl _), if_pos rfl, UInt8.ofBitVec_not, UInt8.not_not]
    · rw [if_neg heq, if_pos (by omega)]
      exact UInt8.or_zero.symm

theorem getMsbD_maskByte {j : Nat} (hj : j < 8) : (maskByte p i).toBitVec.getMsbD j = decide (8 * i + j < p) := by
  have hsplit := Nat.div_add_mod p 8
  have hmod := Nat.mod_lt p (show 8 > 0 by decide)
  unfold maskByte
  split
  · next hlt =>
    have hones : (0xff : UInt8).toBitVec = ~~~ lowBits 8 0 := rfl
    rw [hones, getMsbD_not_lowBits (by omega) hj, decide_eq_decide]
    omega
  · split
    · next heq =>
      rw [UInt8.toBitVec_ofBitVec, getMsbD_not_lowBits (by omega) hj, decide_eq_decide]
      omega
    · next hlt hne =>
      have hzeros : (0 : UInt8).toBitVec = ~~~ lowBits 8 8 := rfl
      rw [hzeros, getMsbD_not_lowBits (by omega) hj, decide_eq_decide]
      omega

/-- The three functions fit together, byte by byte, and use only bytes of the address. -/
def SubnetLaw (a : IPv6Address) (p : Nat) : Prop :=
  ∃ mask net broad, a.subnetMask p = .ok mask ∧ a.networkAddress p = .ok net ∧
    a.broadcastAddress p = .ok broad ∧
    ∀ (i : Nat) (hi : i < 16),
      (∀ j < 8, mask.s6Addr[i].toBitVec.getMsbD j = decide (8 * i + j < p)) ∧
      net.s6Addr[i] = a.s6Addr[i] &&& mask.s6Addr[i] ∧
      broad.s6Addr[i] = a.s6Addr[i] ||| ~~~ mask.s6Addr[i]

theorem network_byte_iff {b : UInt8} :
    (if i = p / 8 then b &&& UInt8.ofBitVec (lowBits 8 (8 - p % 8)) else b) = b &&& maskByte p i ↔
      (p / 8 ≤ i → b = 0) := by
  unfold maskByte
  by_cases hlt : i < p / 8
  · rw [if_neg (by omega), if_pos hlt]
    exact ⟨fun _ hle => absurd hlt (Nat.not_lt.mpr hle), fun _ => (UInt8.and_neg_one).symm⟩
  · rw [if_neg hlt]
    by_cases heq : i = p / 8
    · rw [if_pos heq, if_pos heq, UInt8.ofBitVec_not, ← UInt8.toBitVec_inj, UInt8.toBitVec_and,
        UInt8.toBitVec_and, UInt8.toBitVec_not, and_eq_and_not_iff]
      exact ⟨fun h _ => UInt8.toBitVec_inj.mp h, fun h => congrArg UInt8.toBitVec (h (by omega))⟩
    · rw [if_neg heq, if_neg heq, UInt8.and_zero]
      exact ⟨fun h _ => h, fun h => h (by omega)⟩

/-- **The subnet functions** of an IPv6 address fit together for a prefix of less than 128 bits behind
which the bytes of the address are 0, from the byte of the boundary on, and only there. -/
theorem ipv6_subnetLaw_iff (a : IPv6Address) (p : Nat) :
    a.SubnetLaw p ↔ p < 128 ∧ ∀ (i : Nat) (hi : i < 16), p / 8 ≤ i → a.s6Addr[i] = 0 := by
  by_cases hp : p / 8 < 16
  · obtain ⟨mask, hmask, hmaskBytes⟩ := subnetMask_eq (a := a) hp
    obtain ⟨net, hnet, hnetBytes⟩ := networkAddress_eq (a := a) hp
    obtain ⟨broad, hbroad, hbroadBytes⟩ := broadcastAddress_eq (a := a) hp
    constructor
    · rintro ⟨mask', net', broad', hmask', hnet', -, hlaw⟩
      rw [hmask] at hmask'
      rw [hnet] at hnet'
      cases hmask'
      cases hnet'
      refine ⟨by omega, fun i hi => ?_⟩
      have hbyte := (hlaw i hi).2.1
      rw [hnetBytes i hi, hmaskBytes i hi] at hbyte
      exact network_byte_iff.mp hbyte
    · rintro ⟨-, hzero⟩
      refine ⟨mask, net, broad, hmask, hnet, hbroad, fun i hi => ⟨fun j hj => ?_, ?_, ?_⟩⟩
      · rw [hmaskBytes i hi, getMsbD_maskByte hj]
      · rw [hnetBytes i hi, hmaskBytes i hi]
        exact network_byte_iff.mpr (hzero i hi)
      · rw [hbroadBytes i hi, hmaskBytes i hi]
  · refine ⟨?_, fun h => absurd h.1 (by omega)⟩
    rintro ⟨mask, net, broad, hmask, -⟩
    rw [subnetMask, dif_neg hp] at hmask
    cases hmask

/-- The network of an address with a byte behind the prefix of 8 bits, and a prefix of 128 bits. -/
theorem ipv6_subnetLaw_fails : ¬ (new (Vector.replicate 16 1) 0).SubnetLaw 8 ∧
      (new (Vector.replicate 16 1) 0).subnetMask 128 = .error .bounds ∧
      ¬ (new (Vector.replicate 16 1) 0).SubnetLaw 128 := by
  have hbounds : (new (Vector.replicate 16 1) 0).subnetMask 128 = .error .bounds := rfl
  refine ⟨?_, hbounds, ?_⟩
  · rintro ⟨mask, net, broad, hmask, hnet, -, hlaw⟩
    obtain ⟨mask', hmask', hmaskBytes⟩ := subnetMask_eq (a := new (Vector.replicate 16 1) 0) (p := 8) (by decide)
    obtain ⟨net', hnet', hnetBytes⟩ := networkAddress_eq (a := new (Vector.replicate 16 1) 0) (p := 8) (by decide)
    rw [hmask'] at hmask
    rw [hnet'] at hnet
    cases hmask
    cases hnet
    have hbyte := (hlaw 2 (by decide)).2.1
    rw [hnetBytes 2 (by decide), hmaskBytes 2 (by decide)] at hbyte
    exact absurd hbyte (by decide)
  · rintro ⟨mask, net, broad, hmask, -⟩
    rw [hbounds] at hmask
    cases hmask

end IPv6Address

end Sherry
