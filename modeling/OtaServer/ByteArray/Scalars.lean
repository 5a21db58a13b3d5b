import OtaServer.ByteArray.Layout
import OtaServer.Lib.Endian

/-!
# Numbers in a byte array (`sherry/bytearray.cc`, `sherry/endian.h`)

The host is little-endian, so that `SYLAR_BYTE_ORDER` is `SYLAR_LITTLE_ENDIAN`: `endian.h` defines no
`SYLAR_BYTE_ORDER` for a big-endian host. A signed number is its bit pattern, and so are `float` and `double`.

* `writeFint8` to `writeDouble`, `readFint8` to `readDouble`: the operations.
* `Reads`: what a reader makes of its own bytes, wherever they are. `Reads.bind` puts readers together.
* `Format.reads`: one number. `scalars_readBack`: any numbers.
-/

namespace Sherry.ByteArray

open Lib

/-! ## Fixed widths -/

/-- `memcpy` of a number from the memory of the host. -/
def hostBytes {n : Nat} (v : BitVec (8 * n)) : Bytes := leBytes n v.toNat

/-- `memcpy` of a number to the memory of the host. -/
def hostValue (n : Nat) (bytes : Bytes) : BitVec (8 * n) := BitVec.ofNat _ (leValue bytes)

/-- `writeFint16` and the like: the bytes are swapped if `m_endian` is not the order of the host. -/
def writeFixed {n : Nat} (value : BitVec (8 * n)) : ByteArrayM Unit := do
  let b ← get
  let value := if b.littleEndian then value else byteSwap value
  write (hostBytes value)

/-- One byte has no byte order. -/
def writeFint8 (value : BitVec 8) : ByteArrayM Unit := write (hostBytes (n := 1) value)

/-- The same, unsigned. -/
def writeFuint8 (value : BitVec 8) : ByteArrayM Unit := write (hostBytes (n := 1) value)

/-- Two bytes, in the byte order of the array. -/
def writeFint16 (value : BitVec 16) : ByteArrayM Unit := writeFixed (n := 2) value

/-- The same, unsigned. -/
def writeFuint16 (value : BitVec 16) : ByteArrayM Unit := writeFixed (n := 2) value

/-- Four bytes, in the byte order of the array. -/
def writeFint32 (value : BitVec 32) : ByteArrayM Unit := writeFixed (n := 4) value

/-- The same, unsigned. -/
def writeFuint32 (value : BitVec 32) : ByteArrayM Unit := writeFixed (n := 4) value

/-- Eight bytes, in the byte order of the array. -/
def writeFint64 (value : BitVec 64) : ByteArrayM Unit := writeFixed (n := 8) value

/-- The same, unsigned. -/
def writeFuint64 (value : BitVec 64) : ByteArrayM Unit := writeFixed (n := 8) value

/-- The macro `XX` of `readFint16` and the like. -/
def readFixed (n : Nat) : ByteArrayM (BitVec (8 * n)) := do
  let v := hostValue n (← read n)
  let b ← get
  pure (if b.littleEndian then v else byteSwap v)

/-- Reads one byte. -/
def readFint8 : ByteArrayM (BitVec 8) := do return hostValue 1 (← read 1)

/-- The same, unsigned. -/
def readFuint8 : ByteArrayM (BitVec 8) := do return hostValue 1 (← read 1)

/-- Reads two bytes. -/
def readFint16 : ByteArrayM (BitVec 16) := readFixed 2

/-- The same, unsigned. -/
def readFuint16 : ByteArrayM (BitVec 16) := readFixed 2

/-- Reads four bytes. -/
def readFint32 : ByteArrayM (BitVec 32) := readFixed 4

/-- The same, unsigned. -/
def readFuint32 : ByteArrayM (BitVec 32) := readFixed 4

/-- Reads eight bytes. -/
def readFint64 : ByteArrayM (BitVec 64) := readFixed 8

/-- The same, unsigned. -/
def readFuint64 : ByteArrayM (BitVec 64) := readFixed 8

/-- `writeFloat`, for the bits of the number. -/
def writeFloat (value : BitVec 32) : ByteArrayM Unit := writeFuint32 value

/-- `writeDouble`, for the bits of the number. -/
def writeDouble (value : BitVec 64) : ByteArrayM Unit := writeFuint64 value

/-- The bits of a `float`. -/
def readFloat : ByteArrayM (BitVec 32) := readFuint32

/-- The bits of a `double`. -/
def readDouble : ByteArrayM (BitVec 64) := readFuint64

/-! ## Variable widths -/

/-- `EncodeZigzag32` and `EncodeZigzag64`. -/
def encodeZigzag {w : Nat} (v : BitVec w) : BitVec w := if v.slt 0#w then -v * 2#w - 1#w else v * 2#w

/-- `DecodeZigzag32` and `DecodeZigzag64`. -/
def decodeZigzag {w : Nat} (v : BitVec w) : BitVec w := (v >>> 1) ^^^ -(v &&& 1#w)

/-- The loop of `writeUint32` and `writeUint64`, with `slots` bytes of `tmp` left: what it puts there, unless it puts
more. -/
def varintLoop {w : Nat} : Nat → BitVec w → Option Bytes
  | 0, _ => none
  | slots + 1, value =>
    if 0x80#w ≤ value then
      (varintLoop slots (value >>> 7)).map
        (UInt8.ofBitVec (((value &&& 0x7F#w) ||| 0x80#w).setWidth 8) :: ·)
    else some [UInt8.ofBitVec (value.setWidth 8)]

/-- `writeUint32` and `writeUint64`. -/
def writeVarint {w : Nat} (slots : Nat) (value : BitVec w) : ByteArrayM Unit :=
  match varintLoop slots value with
  | none => throw .undefined
  | some tmp => write tmp

/-- At most five groups of seven bits. -/
def writeUint32 (value : BitVec 32) : ByteArrayM Unit := writeVarint 5 value

/-- The zigzag code, as a varint. -/
def writeInt32 (value : BitVec 32) : ByteArrayM Unit := writeUint32 (encodeZigzag value)

/-- At most ten groups of seven bits. -/
def writeUint64 (value : BitVec 64) : ByteArrayM Unit := writeVarint 10 value

/-- The zigzag code, as a varint. -/
def writeInt64 (value : BitVec 64) : ByteArrayM Unit := writeUint64 (encodeZigzag value)

/-- The loop of `readUint32` and `readUint64` for the shifts `i`, `i + 7` and so on. -/
def readVarintLoop {w : Nat} : Nat → Nat → BitVec w → ByteArrayM (BitVec w)
  | 0, _, result => pure result
  | rounds + 1, i, result => do
    let b ← readFuint8
    if b < 0x80#8 then pure (result ||| (b.setWidth w <<< i))
    else readVarintLoop rounds (i + 7) (result ||| ((b &&& 0x7F#8).setWidth w <<< i))

/-- `readUint32`: `i` is 0, 7, 14, 21, 28. -/
def readUint32 : ByteArrayM (BitVec 32) := readVarintLoop 5 0 0#32

/-- A varint, with its zigzag code undone. -/
def readInt32 : ByteArrayM (BitVec 32) := decodeZigzag <$> readUint32

/-- `readUint64`: `i` is 0, 7 and so on up to 63. -/
def readUint64 : ByteArrayM (BitVec 64) := readVarintLoop 10 0 0#64

/-- A varint, with its zigzag code undone. -/
def readInt64 : ByteArrayM (BitVec 64) := decodeZigzag <$> readUint64

/-! ## Readers -/

section

variable {α β : Type} {b b' : ByteArray} {le : Bool} {bs cs : Bytes}

theorem bind_ok {x : ByteArrayM α} {a : α} (f : α → ByteArrayM β) (h : x b = .ok a b') : (x >>= f) b = f a b' := by
  simp only [bind, EStateM.bind, h]

theorem Moved.trans {b'' : ByteArray} {v u : Nat} (h : Moved b v b') (h' : Moved b' u b'')
    (hvu : v ≤ u) : Moved b u b'' where
  wellFormed := h'.wellFormed
  baseSize := h'.baseSize.trans h.baseSize
  littleEndian := h'.littleEndian.trans h.littleEndian
  position := h'.position
  size := by
    rw [h'.size, h.size]
    omega
  nodes := h'.nodes.trans h.nodes
  capacity := h'.capacity.trans h.capacity

theorem Moved.self (h : WellFormed b) : Moved b b.position b where
  wellFormed := h
  baseSize := rfl
  littleEndian := rfl
  position := rfl
  size := (Nat.max_eq_left h.position).symm
  nodes := rfl
  capacity := rfl

/-- A reader gives `a` for the bytes `bs` behind the position, and moves behind them. -/
def Reads (le : Bool) (r : ByteArrayM α) (bs : Bytes) (a : α) : Prop :=
  ∀ b, WellFormed b → b.littleEndian = le → bs <+: b.content.drop b.position →
    ∃ b', r b = .ok a b' ∧ Moved b (b.position + bs.length) b'

theorem position_add_le (h : WellFormed b) (hbs : bs <+: b.content.drop b.position) :
    b.position + bs.length ≤ b.size := by
  have hlen := hbs.length_le
  have hpos := h.position
  rw [List.length_drop, h.length_content] at hlen
  omega

theorem prefix_moved (h : WellFormed b) (hbs : bs ++ cs <+: b.content.drop b.position)
    (hmoved : Moved b (b.position + bs.length) b') : cs <+: b'.content.drop b'.position := by
  have hfront := position_add_le h ((List.prefix_append bs cs).trans hbs)
  obtain ⟨rest, hrest⟩ := hbs
  refine ⟨rest, ?_⟩
  rw [hmoved.content_eq hfront, hmoved.position, ← List.drop_drop, ← hrest, List.append_assoc, List.drop_left]

theorem Reads.pure (le : Bool) (a : α) : Reads le (Pure.pure a) [] a :=
  fun b hb _ _ => ⟨b, rfl, Moved.self hb⟩

theorem Reads.bind {r : ByteArrayM α} {a : α} {f : α → ByteArrayM β} {c : β}
    (hr : Reads le r bs a) (hf : Reads le (f a) cs c) : Reads le (r >>= f) (bs ++ cs) c := by
  intro b hb hle hstart
  obtain ⟨b₁, hrun₁, hmoved₁⟩ := hr b hb hle ((List.prefix_append bs cs).trans hstart)
  obtain ⟨b₂, hrun₂, hmoved₂⟩ := hf b₁ hmoved₁.wellFormed (hmoved₁.littleEndian.trans hle)
    (prefix_moved hb hstart hmoved₁)
  rw [hmoved₁.position, Nat.add_assoc, ← List.length_append] at hmoved₂
  refine ⟨b₂, (bind_ok f hrun₁).trans hrun₂, hmoved₁.trans hmoved₂ ?_⟩
  rw [List.length_append]
  omega

theorem Reads.map {r : ByteArrayM α} {a : α} (f : α → β) (hr : Reads le r bs a) : Reads le (f <$> r) bs (f a) := by
  intro b hb hle hstart
  obtain ⟨b', hrun, hmoved⟩ := hr b hb hle hstart
  refine ⟨b', ?_, hmoved⟩
  simp only [Functor.map, EStateM.map, hrun]

theorem reads_read (hbs : bs ≠ []) : Reads le (read bs.length) bs bs := by
  intro b hb _ hstart
  obtain ⟨b', hrun, hmoved⟩ :=
    read_eq hb (List.length_pos_of_ne_nil hbs) (position_add_le hb hstart)
  rw [← List.prefix_iff_eq_take.mp hstart] at hrun
  exact ⟨b', hrun, hmoved⟩

end

/-! ## Numbers -/

section

variable {n w : Nat} {le : Bool}

/-- The bytes of a number in the order of the array. -/
def fixedBytes (le : Bool) (v : BitVec (8 * n)) : Bytes := hostBytes (if le then v else byteSwap v)

theorem hostValue_hostBytes (v : BitVec (8 * n)) : hostValue n (hostBytes v) = v := by
  rw [hostValue, hostBytes, leValue_toNat, BitVec.ofNat_toNat, BitVec.setWidth_eq]

theorem length_hostBytes (v : BitVec (8 * n)) : (hostBytes v).length = n := length_leBytes n _

theorem hostBytes_ne_nil (hn : 0 < n) (v : BitVec (8 * n)) : hostBytes v ≠ [] :=
  List.ne_nil_of_length_pos (by rw [length_hostBytes]; exact hn)

theorem writeFixed_eq {b : ByteArray} (hle : b.littleEndian = le) (v : BitVec (8 * n)) :
    writeFixed v b = write (fixedBytes le v) b := by
  rw [fixedBytes, ← hle]
  rfl

theorem reads_host (hn : 0 < n) (v : BitVec (8 * n)) :
    Reads le (do return hostValue n (← read n)) (hostBytes v) v := by
  have hbytes : Reads le (read (hostBytes v).length) (hostBytes v) (hostBytes v) :=
    reads_read (hostBytes_ne_nil hn v)
  have hread := hbytes.map (hostValue n)
  rw [hostValue_hostBytes, length_hostBytes] at hread
  exact hread

theorem reads_littleEndian {α : Type} (le : Bool) (f : Bool → α) :
    Reads le (do let b ← get; pure (f b.littleEndian)) [] (f le) := by
  intro b hb hle _
  refine ⟨b, ?_, Moved.self hb⟩
  rw [← hle]
  rfl

theorem reads_fixed (hn : 0 < n) (v : BitVec (8 * n)) : Reads le (readFixed n) (fixedBytes le v) v := by
  have hbytes : Reads le (read (fixedBytes le v).length) (fixedBytes le v) (fixedBytes le v) :=
    reads_read (hostBytes_ne_nil hn _)
  have horder : Reads le (do
      let b ← get
      pure (if b.littleEndian then hostValue n (fixedBytes le v)
        else byteSwap (hostValue n (fixedBytes le v)))) [] v := by
    have hback : (if le then hostValue n (fixedBytes le v)
        else byteSwap (hostValue n (fixedBytes le v))) = v := by
      rw [fixedBytes, hostValue_hostBytes]
      cases le with
      | true => rfl
      | false => exact byteSwap_byteSwap v
    have hget := reads_littleEndian le fun endian =>
      if endian then hostValue n (fixedBytes le v) else byteSwap (hostValue n (fixedBytes le v))
    rw [hback] at hget
    exact hget
  have hread := hbytes.bind (f := fun bytes => do
    let b ← get
    pure (if b.littleEndian then hostValue n bytes else byteSwap (hostValue n bytes))) horder
  rw [List.append_nil, fixedBytes, length_hostBytes] at hread
  exact hread

/-! ### Zigzag -/

theorem toNat_mul_two (v : BitVec w) : (v * 2#w).toNat = 2 * v.toNat % 2 ^ w := by
  rw [BitVec.toNat_mul, BitVec.toNat_ofNat, Nat.mul_mod_mod, Nat.mul_comm]

theorem toNat_one (hw : 0 < w) : (1#w).toNat = 1 := by
  rw [BitVec.toNat_ofNat, Nat.mod_eq_of_lt (Nat.one_lt_two_pow hw.ne')]

variable {slots : Nat} {v : BitVec w}

theorem decodeZigzag_even {x : Nat} (hw : 0 < w) (h : v.toNat = 2 * x) : decodeZigzag v = BitVec.ofNat w x := by
  have hbit : v &&& 1#w = 0#w := by
    apply BitVec.eq_of_toNat_eq
    rw [BitVec.toNat_and, h, toNat_one hw, Nat.and_one_is_mod, Nat.mul_mod_right]
    exact (BitVec.toNat_zero ..).symm
  have hshift : (v >>> 1) = BitVec.ofNat w x := by
    apply BitVec.eq_of_toNat_eq
    have := v.isLt
    rw [BitVec.toNat_ushiftRight, h, Nat.shiftRight_eq_div_pow, Nat.pow_one, Nat.mul_div_cancel_left _ Nat.two_pos,
      BitVec.toNat_ofNat, Nat.mod_eq_of_lt (by omega)]
  rw [decodeZigzag, hbit, hshift]
  simp

theorem decodeZigzag_odd {x : Nat} (hw : 0 < w) (h : v.toNat = 2 * x + 1) :
    decodeZigzag v = ~~~ BitVec.ofNat w x := by
  have hbit : v &&& 1#w = 1#w := by
    apply BitVec.eq_of_toNat_eq
    rw [BitVec.toNat_and, h, toNat_one hw, Nat.and_one_is_mod]
    omega
  have hshift : (v >>> 1) = BitVec.ofNat w x := by
    apply BitVec.eq_of_toNat_eq
    have := v.isLt
    rw [BitVec.toNat_ushiftRight, h, Nat.shiftRight_eq_div_pow, Nat.pow_one,
      BitVec.toNat_ofNat, Nat.mod_eq_of_lt (by omega)]
    omega
  rw [decodeZigzag, hbit, hshift, BitVec.neg_one_eq_allOnes, BitVec.xor_allOnes]

theorem decodeZigzag_encodeZigzag (v : BitVec w) : decodeZigzag (encodeZigzag v) = v := by
  obtain rfl | hw := Nat.eq_zero_or_pos w
  · exact Subsingleton.elim _ _
  have hlt := v.isLt
  have hhalf : 2 ^ w = 2 * 2 ^ (w - 1) := by
    rw [← Nat.pow_succ', Nat.succ_eq_add_one, Nat.sub_add_cancel hw]
  have hsign : v.slt 0#w = v.msb := by
    rw [Bool.eq_iff_iff]
    exact BitVec.slt_zero_iff_msb_cond
  rw [encodeZigzag, hsign]
  cases hmsb : v.msb with
  | false =>
    have hx : v.toNat < 2 ^ (w - 1) := BitVec.toNat_lt_of_msb_false hmsb
    have hdouble : (v * 2#w).toNat = 2 * v.toNat := by
      rw [toNat_mul_two, Nat.mod_eq_of_lt (by omega)]
    simp only [Bool.false_eq_true, if_false]
    rw [decodeZigzag_even hw hdouble, BitVec.ofNat_toNat, BitVec.setWidth_eq]
  | true =>
    have hx : 2 ^ (w - 1) ≤ v.toNat := BitVec.le_toNat_of_msb_true hmsb
    have hneg : (-v).toNat = 2 ^ w - v.toNat := by
      rw [BitVec.toNat_neg, Nat.mod_eq_of_lt (by have := Nat.two_pow_pos (w - 1); omega)]
    have hodd : (-v * 2#w - 1#w).toNat = 2 * (2 ^ w - v.toNat - 1) + 1 := by
      rw [BitVec.toNat_sub, toNat_one hw, toNat_mul_two, hneg]
      obtain hmin | hmin : v.toNat = 2 ^ (w - 1) ∨ 2 ^ (w - 1) < v.toNat := by omega
      · -- the minimum: the double of its negation is 0
        rw [show 2 * (2 ^ w - v.toNat) = 2 ^ w by omega, Nat.mod_self, Nat.add_zero, Nat.mod_eq_of_lt (by omega)]
        omega
      · rw [Nat.mod_eq_of_lt (a := 2 * _) (by omega),
          show 2 ^ w - 1 + 2 * (2 ^ w - v.toNat) = 2 ^ w + (2 * (2 ^ w - v.toNat) - 1) by omega,
          Nat.add_mod_left, Nat.mod_eq_of_lt (by omega)]
        omega
    rw [if_pos rfl, decodeZigzag_odd hw hodd]
    apply BitVec.eq_of_toNat_eq
    rw [BitVec.toNat_not, BitVec.toNat_ofNat, Nat.mod_eq_of_lt (by omega)]
    omega

/-! ### Varint -/

/-- The bits of a number below and above its seventh bit. -/
theorem low_or_high (v : BitVec w) : (v &&& 0x7F#w) ||| (v >>> 7 <<< 7) = v := by
  apply BitVec.eq_of_getLsbD_eq
  intro i hi
  have hmask : (0x7F#w).getLsbD i = decide (i < 7) := by
    rw [BitVec.getLsbD_ofNat, decide_eq_true hi, Bool.true_and]
    exact Nat.testBit_two_pow_sub_one 7 i
  simp only [BitVec.getLsbD_or, BitVec.getLsbD_and, BitVec.getLsbD_shiftLeft, BitVec.getLsbD_ushiftRight, hmask]
  by_cases h7 : i < 7
  · simp [h7]
  · rw [show 7 + (i - 7) = i by omega]
    simp [h7, hi]

/-- The byte for the lowest seven bits, with the bit for more. -/
def moreByte (v : BitVec w) : BitVec 8 := ((v &&& 0x7F#w) ||| 0x80#w).setWidth 8

theorem toNat_low (hw : 8 ≤ w) (v : BitVec w) : (v &&& 0x7F#w).toNat = v.toNat % 128 := by
  have hpow : 2 ^ 8 ≤ 2 ^ w := Nat.pow_le_pow_right Nat.two_pos hw
  rw [BitVec.toNat_and, BitVec.toNat_ofNat, Nat.mod_eq_of_lt (by omega)]
  exact Nat.and_two_pow_sub_one_eq_mod v.toNat 7

theorem toNat_moreByte (hw : 8 ≤ w) (v : BitVec w) : (moreByte v).toNat = v.toNat % 128 + 128 := by
  have hpow : 2 ^ 8 ≤ 2 ^ w := Nat.pow_le_pow_right Nat.two_pos hw
  have hlow : v.toNat % 128 < 2 ^ 7 := Nat.mod_lt _ (by decide)
  have hor : 128 + v.toNat % 128 = 128 ||| v.toNat % 128 := Nat.two_pow_add_eq_or_of_lt hlow 1
  rw [moreByte, BitVec.toNat_setWidth, BitVec.toNat_or, toNat_low hw, BitVec.toNat_ofNat,
    Nat.mod_eq_of_lt (a := 0x80) (by omega), Nat.or_comm]
  omega

theorem low_moreByte (hw : 8 ≤ w) (v : BitVec w) : (moreByte v &&& 0x7F#8).setWidth w = v &&& 0x7F#w := by
  have hlt := (v &&& 0x7F#w).isLt
  apply BitVec.eq_of_toNat_eq
  rw [toNat_low hw] at hlt
  rw [BitVec.toNat_setWidth, toNat_low (Nat.le_refl 8), toNat_moreByte hw, toNat_low hw,
    Nat.add_mod_right, Nat.mod_mod, Nat.mod_eq_of_lt hlt]

theorem varintLoop_more (hw : 8 ≤ w) (h : 128 ≤ v.toNat) : varintLoop (slots + 1) v =
      (varintLoop slots (v >>> 7)).map (UInt8.ofBitVec (moreByte v) :: ·) := by
  have hpow : 2 ^ 8 ≤ 2 ^ w := Nat.pow_le_pow_right Nat.two_pos hw
  have hle : 0x80#w ≤ v := by
    rw [BitVec.le_def, BitVec.toNat_ofNat, Nat.mod_eq_of_lt (by omega)]
    exact h
  rw [varintLoop, if_pos hle, moreByte]

theorem varintLoop_last (hw : 8 ≤ w) (h : v.toNat < 128) :
    varintLoop (slots + 1) v = some [UInt8.ofBitVec (v.setWidth 8)] := by
  have hpow : 2 ^ 8 ≤ 2 ^ w := Nat.pow_le_pow_right Nat.two_pos hw
  have hlt : ¬ 0x80#w ≤ v := by
    rw [BitVec.le_def, BitVec.toNat_ofNat, Nat.mod_eq_of_lt (by omega)]
    omega
  rw [varintLoop, if_neg hlt]

theorem toNat_shift_seven (v : BitVec w) : (v >>> 7).toNat = v.toNat / 128 := by
  rw [BitVec.toNat_ushiftRight, Nat.shiftRight_eq_div_pow]

theorem exists_varintLoop (hw : 8 ≤ w) (h : v.toNat < 128 ^ (slots + 1)) :
    ∃ tmp, varintLoop (slots + 1) v = some tmp ∧ tmp.length ≤ slots + 1 := by
  induction slots generalizing v with
  | zero => exact ⟨_, varintLoop_last hw h, Nat.le_refl 1⟩
  | succ slots ih =>
    by_cases hlast : v.toNat < 128
    · exact ⟨_, varintLoop_last hw hlast, by simp only [List.length_singleton]; omega⟩
    · have hrest : (v >>> 7).toNat < 128 ^ (slots + 1) := by
        rw [toNat_shift_seven]
        rw [Nat.pow_succ] at h
        omega
      obtain ⟨tmp, htmp, hlen⟩ := ih hrest
      refine ⟨UInt8.ofBitVec (moreByte v) :: tmp, ?_, Nat.succ_le_succ hlen⟩
      rw [varintLoop_more hw (Nat.le_of_not_lt hlast), htmp, Option.map_some]

theorem reads_byte (v : BitVec 8) : Reads le readFuint8 [UInt8.ofBitVec v] v := by
  have hbyte : hostBytes (n := 1) v = [UInt8.ofBitVec v] := by
    have hself : UInt8.ofNat v.toNat = UInt8.ofBitVec v := by
      rw [← UInt8.toBitVec_inj, UInt8.toBitVec_ofNat', BitVec.ofNat_toNat, BitVec.setWidth_eq]
    rw [hostBytes, leBytes, leBytes, hself]
  rw [← hbyte]
  exact reads_host (n := 1) Nat.one_pos v

/-- The reader of a varint adds the bits of its value to what it has. -/
theorem reads_varint {rounds i : Nat} {result : BitVec w} {tmp : Bytes} (hw : 8 ≤ w)
    (h : varintLoop slots v = some tmp) (hrounds : slots ≤ rounds) :
    Reads le (readVarintLoop rounds i result) tmp (result ||| v <<< i) := by
  induction slots generalizing v tmp rounds i result with
  | zero => cases h
  | succ slots ih =>
    obtain ⟨rounds, rfl⟩ : ∃ r, rounds = r + 1 := ⟨rounds - 1, by omega⟩
    by_cases hlast : v.toNat < 128
    · rw [varintLoop_last hw hlast] at h
      cases h
      have hbyte : (v.setWidth 8).toNat = v.toNat := by
        rw [BitVec.toNat_setWidth, Nat.mod_eq_of_lt (by omega)]
      have hlt : v.setWidth 8 < 0x80#8 := by
        rw [BitVec.lt_def, hbyte]
        exact hlast
      have hback : (v.setWidth 8).setWidth w = v := by
        apply BitVec.eq_of_toNat_eq
        rw [BitVec.toNat_setWidth, hbyte, Nat.mod_eq_of_lt v.isLt]
      have hdone := Reads.pure le (result ||| v <<< i)
      refine (reads_byte _).bind ?_
      rw [if_pos hlt, hback]
      exact hdone
    · rw [varintLoop_more hw (Nat.le_of_not_lt hlast)] at h
      obtain ⟨tmp, htmp, rfl⟩ := Option.map_eq_some_iff.mp h
      have hge : ¬ moreByte v < 0x80#8 := by
        rw [BitVec.lt_def, toNat_moreByte hw]
        exact Nat.not_lt.mpr (Nat.le_add_left _ _)
      -- the bits of this byte and of the rest are the bits of the value
      have hbits : (v &&& 0x7F#w) <<< i ||| (v >>> 7) <<< (i + 7) = v <<< i := by
        rw [Nat.add_comm, BitVec.shiftLeft_add, ← BitVec.shiftLeft_or_distrib, low_or_high]
      refine (reads_byte _).bind ?_
      rw [if_neg hge, low_moreByte hw, ← hbits, ← BitVec.or_assoc]
      exact ih htmp (by omega)

end

/-! ## Sequences -/

/-- The forms of a number in a byte array. -/
inductive Format where
  | fint8 | fuint8 | fint16 | fuint16 | fint32 | fuint32 | fint64 | fuint64
  | int32 | uint32 | int64 | uint64 | float | double
  deriving DecidableEq

namespace Format

/-- The number of bits of the numbers of a form. -/
def width : Format → Nat
  | fint8 | fuint8 => 8
  | fint16 | fuint16 => 16
  | fint32 | fuint32 | int32 | uint32 | float => 32
  | fint64 | fuint64 | int64 | uint64 | double => 64

/-- The writer of a form. -/
def write : (f : Format) → BitVec f.width → ByteArrayM Unit
  | fint8, v => writeFint8 v
  | fuint8, v => writeFuint8 v
  | fint16, v => writeFint16 v
  | fuint16, v => writeFuint16 v
  | fint32, v => writeFint32 v
  | fuint32, v => writeFuint32 v
  | fint64, v => writeFint64 v
  | fuint64, v => writeFuint64 v
  | int32, v => writeInt32 v
  | uint32, v => writeUint32 v
  | int64, v => writeInt64 v
  | uint64, v => writeUint64 v
  | float, v => writeFloat v
  | double, v => writeDouble v

/-- The reader of a form. -/
def read : (f : Format) → ByteArrayM (BitVec f.width)
  | fint8 => readFint8
  | fuint8 => readFuint8
  | fint16 => readFint16
  | fuint16 => readFuint16
  | fint32 => readFint32
  | fuint32 => readFuint32
  | fint64 => readFint64
  | fuint64 => readFuint64
  | int32 => readInt32
  | uint32 => readUint32
  | int64 => readInt64
  | uint64 => readUint64
  | float => readFloat
  | double => readDouble

end Format

/-- A number with the form it is written in. -/
abbrev Scalar := (f : Format) × BitVec f.width

/-- Numbers are written one after the other. -/
def writeScalars : List Scalar → ByteArrayM Unit
  | [] => pure ()
  | s :: ss => do
    s.1.write s.2
    writeScalars ss

/-- Numbers are read one after the other. -/
def readScalars : List Format → ByteArrayM (List Scalar)
  | [] => pure []
  | f :: fs => do
    let v ← f.read
    let ss ← readScalars fs
    pure (⟨f, v⟩ :: ss)

/-- A writer writes some bytes, and its reader reads them. -/
structure Codec {α : Type} (le : Bool) (w : ByteArrayM Unit) (r : ByteArrayM α) (bs : Bytes) (a : α) :
    Prop where
  write : ∀ b, b.littleEndian = le → w b = ByteArray.write bs b
  read : Reads le r bs a

section

variable {n : Nat} {le : Bool}

theorem codec_host (hn : 0 < n) (v : BitVec (8 * n)) :
    Codec le (write (hostBytes v)) (do return hostValue n (← read n)) (hostBytes v) v :=
  ⟨fun _ _ => rfl, reads_host hn v⟩

theorem codec_fixed (hn : 0 < n) (v : BitVec (8 * n)) : Codec le (writeFixed v) (readFixed n) (fixedBytes le v) v :=
  ⟨fun _ hle => writeFixed_eq hle v, reads_fixed hn v⟩

theorem codec_varint {w slots : Nat} (hw : 8 ≤ w) (hslots : 2 ^ w ≤ 128 ^ (slots + 1)) (v : BitVec w) :
    ∃ tmp, varintLoop (slots + 1) v = some tmp ∧ tmp.length ≤ slots + 1 ∧
      Codec le (writeVarint (slots + 1) v) (readVarintLoop (slots + 1) 0 0#w) tmp v := by
  obtain ⟨tmp, htmp, hlen⟩ := exists_varintLoop hw (Nat.lt_of_lt_of_le v.isLt hslots)
  have hreads : Reads le (readVarintLoop (slots + 1) 0 0#w) tmp (0#w ||| v <<< 0) :=
    reads_varint hw htmp (Nat.le_refl _)
  rw [BitVec.shiftLeft_zero, BitVec.zero_or] at hreads
  refine ⟨tmp, htmp, hlen, fun b _ => ?_, hreads⟩
  rw [writeVarint, htmp]

theorem codec_uint32 (le : Bool) (v : BitVec 32) :
    ∃ tmp, varintLoop 5 v = some tmp ∧ tmp.length ≤ 5 ∧ Codec le (writeUint32 v) readUint32 tmp v :=
  codec_varint (by decide) (by decide) v

theorem codec_uint64 (le : Bool) (v : BitVec 64) :
    ∃ tmp, varintLoop 10 v = some tmp ∧ tmp.length ≤ 10 ∧ Codec le (writeUint64 v) readUint64 tmp v :=
  codec_varint (by decide) (by decide) v

theorem Codec.zigzag {w : Nat} {wr : ByteArrayM Unit} {r : ByteArrayM (BitVec w)} {tmp : Bytes}
    {v : BitVec w} (h : Codec le wr r tmp (encodeZigzag v)) : Codec le wr (decodeZigzag <$> r) tmp v := by
  have hread := h.read.map decodeZigzag
  rw [decodeZigzag_encodeZigzag] at hread
  exact ⟨h.write, hread⟩

theorem codec_int32 (le : Bool) (v : BitVec 32) :
    ∃ tmp, tmp.length ≤ 5 ∧ Codec le (writeInt32 v) readInt32 tmp v := by
  obtain ⟨tmp, -, hlen, hcodec⟩ := codec_uint32 le (encodeZigzag v)
  exact ⟨tmp, hlen, hcodec.zigzag⟩

theorem codec_int64 (le : Bool) (v : BitVec 64) :
    ∃ tmp, tmp.length ≤ 10 ∧ Codec le (writeInt64 v) readInt64 tmp v := by
  obtain ⟨tmp, -, hlen, hcodec⟩ := codec_uint64 le (encodeZigzag v)
  exact ⟨tmp, hlen, hcodec.zigzag⟩

/-- **One number**: the bytes that its writer writes are read by its reader. -/
theorem Format.codec (le : Bool) (f : Format) (v : BitVec f.width) : ∃ bs, Codec le (f.write v) f.read bs v := by
  cases f with
  | fint8 | fuint8 => exact ⟨_, codec_host (n := 1) (by decide) v⟩
  | fint16 | fuint16 => exact ⟨_, codec_fixed (n := 2) (by decide) v⟩
  | fint32 | fuint32 | float => exact ⟨_, codec_fixed (n := 4) (by decide) v⟩
  | fint64 | fuint64 | double => exact ⟨_, codec_fixed (n := 8) (by decide) v⟩
  | int32 =>
    obtain ⟨tmp, -, hcodec⟩ := codec_int32 le v
    exact ⟨tmp, hcodec⟩
  | uint32 =>
    obtain ⟨tmp, -, -, hcodec⟩ := codec_uint32 le v
    exact ⟨tmp, hcodec⟩
  | int64 =>
    obtain ⟨tmp, -, hcodec⟩ := codec_int64 le v
    exact ⟨tmp, hcodec⟩
  | uint64 =>
    obtain ⟨tmp, -, -, hcodec⟩ := codec_uint64 le v
    exact ⟨tmp, hcodec⟩

end

/-! ## Arrays that are filled -/

/-- An array into which some bytes were written, and nothing else. -/
structure Filled (base : Nat) (le : Bool) (bs : Bytes) (b : ByteArray) : Prop where
  wellFormed : WellFormed b
  baseSize : b.baseSize = base
  littleEndian : b.littleEndian = le
  content : b.content = bs
  position : b.position = bs.length
  nodes : b.nodes.length = max 1 ((bs.length + base - 1) / base)

section

variable {baseSize : Nat} {le : Bool} {bs cs : Bytes} {b b' : ByteArray}

theorem Filled.size (h : Filled baseSize le bs b) : b.size = bs.length := by
  rw [← h.wellFormed.length_content, h.content]

theorem filled_new (h : 0 < baseSize) (fresh : Nat → Nat → UInt8) (le : Bool) :
    Filled baseSize le [] ((new baseSize fresh).setIsLittleEndian le) where
  wellFormed := { new_wellFormed h fresh with }
  baseSize := rfl
  littleEndian := rfl
  content := List.take_zero
  position := rfl
  nodes := by
    rw [List.length_nil, Nat.zero_add, Nat.div_eq_of_lt (Nat.sub_lt h Nat.one_pos)]
    rfl

theorem Filled.write (h : Filled baseSize le cs b) (bs : Bytes) :
    ∃ b', ByteArray.write bs b = .ok () b' ∧ Filled baseSize le (cs ++ bs) b' := by
  obtain ⟨b', hrun, hwrote⟩ := write_eq h.wellFormed bs
  refine ⟨b', hrun, hwrote.wellFormed, hwrote.baseSize.trans h.baseSize,
    hwrote.littleEndian.trans h.littleEndian, ?_, ?_, ?_⟩
  · rw [hwrote.content, h.content, h.position, splice, List.take_length,
      List.drop_of_length_le (Nat.le_add_right _ _), List.append_nil]
  · rw [hwrote.position, h.position, List.length_append]
  · rw [hwrote.nodes, h.nodes, h.baseSize, h.position, List.length_append]
    split
    · next hnil => rw [hnil, List.length_nil, Nat.add_zero]
    · have hmono : (cs.length + baseSize - 1) / baseSize ≤
          (cs.length + bs.length + baseSize - 1) / baseSize :=
        Nat.div_le_div_right (by omega)
      omega

/-- A writer appends some bytes to an array that is filled. -/
def Appends (baseSize : Nat) (le : Bool) (w : ByteArrayM Unit) (bs : Bytes) : Prop :=
  ∀ cs b, Filled baseSize le cs b → ∃ b', w b = .ok () b' ∧ Filled baseSize le (cs ++ bs) b'

theorem appends_pure : Appends baseSize le (pure ()) [] := fun cs b hb =>
  ⟨b, rfl, by rwa [List.append_nil]⟩

theorem appends_write : Appends baseSize le (ByteArray.write bs) bs := fun _ _ hb => hb.write bs

theorem Appends.bind {w w' : ByteArrayM Unit} (h : Appends baseSize le w bs)
    (h' : Appends baseSize le w' cs) : Appends baseSize le (do w; w') (bs ++ cs) := by
  intro ds b hb
  obtain ⟨b₁, hrun₁, hfilled₁⟩ := h ds b hb
  obtain ⟨b₂, hrun₂, hfilled₂⟩ := h' (ds ++ bs) b₁ hfilled₁
  rw [List.append_assoc] at hfilled₂
  exact ⟨b₂, (bind_ok _ hrun₁).trans hrun₂, hfilled₂⟩

theorem Codec.appends {α : Type} {w : ByteArrayM Unit} {r : ByteArrayM α} {a : α}
    (h : Codec le w r bs a) : Appends baseSize le w bs := by
  intro cs b hb
  rw [h.write b hb.littleEndian]
  exact hb.write bs

/-- `w` writes to an empty array, and `r` reads the whole array from its start on and gives `a`. -/
def ReadsBack {α : Type} (baseSize : Nat) (fresh : Nat → Nat → UInt8) (le : Bool) (w : ByteArrayM Unit)
    (r : ByteArrayM α) (a : α) : Prop :=
  ∃ b₁ b₂ b₃, w ((new baseSize fresh).setIsLittleEndian le) = .ok () b₁ ∧
    setPosition 0 b₁ = .ok () b₂ ∧ r b₂ = .ok a b₃ ∧ b₃.getReadSize = 0

theorem Filled.rewind (h : Filled baseSize le bs b) :
    ∃ b', setPosition 0 b = .ok () b' ∧ Moved b 0 b' ∧ b'.content = bs := by
  obtain ⟨b', hrun, hmoved⟩ := setPosition_eq h.wellFormed (Nat.zero_le _)
  exact ⟨b', hrun, hmoved, (hmoved.content_eq (Nat.zero_le _)).trans h.content⟩

theorem readsBack {α : Type} {w : ByteArrayM Unit} {r : ByteArrayM α} {a : α} (h : 0 < baseSize)
    (fresh : Nat → Nat → UInt8) (hw : Appends baseSize le w bs) (hr : Reads le r bs a) :
    ReadsBack baseSize fresh le w r a := by
  obtain ⟨b₁, hrun₁, hfilled⟩ := hw [] _ (filled_new h fresh le)
  obtain ⟨b₂, hrun₂, hmoved, hcontent⟩ := hfilled.rewind
  rw [List.nil_append] at hfilled hcontent
  have hrest : b₂.content.drop b₂.position = bs := by
    rw [hmoved.position, List.drop_zero, hcontent]
  have hstart : bs <+: b₂.content.drop b₂.position := hrest ▸ List.prefix_rfl
  obtain ⟨b₃, hrun₃, hmoved'⟩ :=
    hr b₂ hmoved.wellFormed (hmoved.littleEndian.trans hfilled.littleEndian) hstart
  refine ⟨b₁, b₂, b₃, hrun₁, hrun₂, hrun₃, ?_⟩
  rw [getReadSize, hmoved'.size, hmoved'.position, hmoved.size, hmoved.position, hfilled.size]
  omega

end

theorem scalars_codec (baseSize : Nat) (le : Bool) (ss : List Scalar) :
    ∃ bs, Appends baseSize le (writeScalars ss) bs ∧ Reads le (readScalars (ss.map (·.1))) bs ss := by
  induction ss with
  | nil => exact ⟨[], appends_pure, Reads.pure le []⟩
  | cons s ss ih =>
    obtain ⟨f, v⟩ := s
    obtain ⟨bs, hcodec⟩ := f.codec le v
    obtain ⟨cs, happends, hreads⟩ := ih
    refine ⟨bs ++ cs, hcodec.appends.bind happends, hcodec.read.bind ?_⟩
    have hall := hreads.bind (f := fun ss => pure (⟨f, v⟩ :: ss)) (Reads.pure le (⟨f, v⟩ :: ss))
    rw [List.append_nil] at hall
    exact hall

theorem Codec.position_le {α : Type} {le : Bool} {w : ByteArrayM Unit} {r : ByteArrayM α} {a : α}
    {bs : Bytes} {b b' : ByteArray} {k : Nat} (h : Codec le w r bs a) (hlen : bs.length ≤ k)
    (hb : WellFormed b) (hle : b.littleEndian = le) (hrun : w b = .ok () b') :
    b'.position ≤ b.position + k := by
  rw [h.write b hle] at hrun
  obtain ⟨b₁, hrun₁, hwrote⟩ := write_eq hb bs
  rw [hrun] at hrun₁
  cases hrun₁
  rw [hwrote.position]
  exact Nat.add_le_add_left hlen _

/-- **Numbers** are read back, and a varint takes at most five or ten bytes. -/
theorem scalars_readBack {baseSize : Nat} (h : 0 < baseSize) (fresh : Nat → Nat → UInt8) (le : Bool)
    (ss : List Scalar) : ReadsBack baseSize fresh le (writeScalars ss) (readScalars (ss.map (·.1))) ss ∧
      ∀ b b', WellFormed b →
        (∀ v, writeUint32 v b = .ok () b' ∨ writeInt32 v b = .ok () b' → b'.position ≤ b.position + 5) ∧
        (∀ v, writeUint64 v b = .ok () b' ∨ writeInt64 v b = .ok () b' → b'.position ≤ b.position + 10) := by
  obtain ⟨bs, happends, hreads⟩ := scalars_codec baseSize le ss
  refine ⟨readsBack h fresh happends hreads, fun b b' hb => ⟨fun v hrun => ?_, fun v hrun => ?_⟩⟩
  · obtain ⟨tmp, -, hlen, hcodec⟩ := codec_uint32 b.littleEndian v
    obtain ⟨tmp', hlen', hcodec'⟩ := codec_int32 b.littleEndian v
    obtain hrun | hrun := hrun
    · exact hcodec.position_le hlen hb rfl hrun
    · exact hcodec'.position_le hlen' hb rfl hrun
  · obtain ⟨tmp, -, hlen, hcodec⟩ := codec_uint64 b.littleEndian v
    obtain ⟨tmp', hlen', hcodec'⟩ := codec_int64 b.littleEndian v
    obtain hrun | hrun := hrun
    · exact hcodec.position_le hlen hb rfl hrun
    · exact hcodec'.position_le hlen' hb rfl hrun

/-- The least signed number of 32 bits as a varint, and a fixed number, in blocks of two bytes. -/
theorem scalars_readBack_two : ReadsBack 2 (fun _ _ => 0) false
      (writeScalars [⟨.int32, BitVec.intMin 32⟩, ⟨.fuint16, 0xABCD#16⟩])
      (readScalars [.int32, .fuint16]) [⟨.int32, BitVec.intMin 32⟩, ⟨.fuint16, 0xABCD#16⟩] :=
  (scalars_readBack (by decide) (fun _ _ => 0) false
    [⟨.int32, BitVec.intMin 32⟩, ⟨.fuint16, 0xABCD#16⟩]).1

end Sherry.ByteArray
