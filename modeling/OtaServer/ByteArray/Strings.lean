import Mathlib.Algebra.GroupWithZero.Nat
import OtaServer.ByteArray.Scalars

/-!
# Strings in a byte array (`sherry/bytearray.cc`)

A string is written with its length in front of it. The length is narrowed to the width of its form, and the reader of
an empty string calls `read` with the size 0.

* `read_zero`: `read` of nothing follows `m_cur`, which is null at the end of the capacity.
* `readString_eq`: one string whose length fits.
* `strings_readBack_iff`: any strings.
-/

namespace Sherry.ByteArray

open Lib

/-- `writeStringF16` and the like, for the form of the length. -/
def writeString (f : Format) (value : Bytes) : ByteArrayM Unit := do
  f.write (BitVec.ofNat _ value.length)
  write value

/-- `readStringF16` and the like. The memory for the string is there. -/
def readString (f : Format) : ByteArrayM Bytes := do
  let len ← f.read
  read len.toNat

/-- A length of two bytes. -/
def writeStringF16 (value : Bytes) : ByteArrayM Unit := writeString .fuint16 value

/-- A length of four bytes. -/
def writeStringF32 (value : Bytes) : ByteArrayM Unit := writeString .fuint32 value

/-- A length of eight bytes. -/
def writeStringF64 (value : Bytes) : ByteArrayM Unit := writeString .fuint64 value

/-- A varint as the length. -/
def writeStringVint (value : Bytes) : ByteArrayM Unit := writeString .uint64 value

/-- Reads a length of two bytes. -/
def readStringF16 : ByteArrayM Bytes := readString .fuint16

/-- Reads a length of four bytes. -/
def readStringF32 : ByteArrayM Bytes := readString .fuint32

/-- Reads a length of eight bytes. -/
def readStringF64 : ByteArrayM Bytes := readString .fuint64

/-- Reads a varint as the length. -/
def readStringVint : ByteArrayM Bytes := readString .uint64

/-! ## Forms -/

/-- The forms of a string. -/
inductive StringForm where
  | f16 | f32 | f64 | vint
  deriving DecidableEq

namespace StringForm

/-- The writer of a form. -/
def write : StringForm → Bytes → ByteArrayM Unit
  | f16 => writeStringF16
  | f32 => writeStringF32
  | f64 => writeStringF64
  | vint => writeStringVint

/-- The reader of a form. -/
def read : StringForm → ByteArrayM Bytes
  | f16 => readStringF16
  | f32 => readStringF32
  | f64 => readStringF64
  | vint => readStringVint

/-- The form of the length. -/
def format : StringForm → Format
  | f16 => .fuint16
  | f32 => .fuint32
  | f64 => .fuint64
  | vint => .uint64

theorem write_eq (f : StringForm) : f.write = writeString f.format := by
  cases f <;> rfl

theorem read_eq (f : StringForm) : f.read = readString f.format := by
  cases f <;> rfl

/-- The number of bytes of a length. -/
def prefixLength : StringForm → Nat → Nat
  | f16, _ => 2
  | f32, _ => 4
  | f64, _ => 8
  | vint, n => ((varintLoop 10 (BitVec.ofNat 64 n)).getD []).length

/-- The bytes of a length. -/
def prefixBytes (le : Bool) : StringForm → Nat → Bytes
  | f16, n => fixedBytes (n := 2) le (BitVec.ofNat 16 n)
  | f32, n => fixedBytes (n := 4) le (BitVec.ofNat 32 n)
  | f64, n => fixedBytes (n := 8) le (BitVec.ofNat 64 n)
  | vint, n => (varintLoop 10 (BitVec.ofNat 64 n)).getD []

theorem length_prefixBytes (le : Bool) (f : StringForm) (n : Nat) :
    (f.prefixBytes le n).length = f.prefixLength n := by
  cases f with
  | f16 | f32 | f64 => exact length_hostBytes _
  | vint => rfl

theorem codec (le : Bool) (f : StringForm) (n : Nat) :
    Codec le (f.format.write (BitVec.ofNat _ n)) f.format.read (f.prefixBytes le n) (BitVec.ofNat _ n) := by
  cases f with
  | f16 => exact codec_fixed (n := 2) (by decide) _
  | f32 => exact codec_fixed (n := 4) (by decide) _
  | f64 => exact codec_fixed (n := 8) (by decide) _
  | vint =>
    obtain ⟨tmp, htmp, -, hcodec⟩ := codec_uint64 le (BitVec.ofNat 64 n)
    rw [prefixBytes, htmp]
    exact hcodec

theorem prefixLength_pos (f : StringForm) (n : Nat) : 0 < f.prefixLength n := by
  cases f with
  | f16 | f32 | f64 => exact Nat.succ_pos _
  | vint =>
    obtain ⟨tmp, htmp, -⟩ := codec_uint64 false (BitVec.ofNat 64 n)
    rw [prefixLength, htmp]
    rw [varintLoop] at htmp
    split at htmp
    · obtain ⟨_, -, rfl⟩ := Option.map_eq_some_iff.mp htmp
      exact Nat.succ_pos _
    · cases htmp
      exact Nat.one_pos

end StringForm

/-- Strings are written one after the other. -/
def writeStrings : List (StringForm × Bytes) → ByteArrayM Unit
  | [] => pure ()
  | s :: ss => do
    s.1.write s.2
    writeStrings ss

/-- Strings are read one after the other. -/
def readStrings : List StringForm → ByteArrayM (List (StringForm × Bytes))
  | [] => pure []
  | f :: fs => do
    let value ← f.read
    let ss ← readStrings fs
    pure ((f, value) :: ss)

/-- The number of bytes of some strings. -/
def totalLength (ss : List (StringForm × Bytes)) : Nat :=
  (ss.map fun s => s.1.prefixLength s.2.length + s.2.length).sum

/-- Every length fits into its form, and the bytes do not end with the last block if the last string is empty. -/
def StringsFit (baseSize : Nat) (ss : List (StringForm × Bytes)) : Prop :=
  (∀ s ∈ ss, s.2.length < 2 ^ s.1.format.width) ∧
    ¬ ((∃ f, ss.getLast? = some (f, [])) ∧ baseSize ∣ totalLength ss)

/-! ## Reading -/

section

variable {b b' : ByteArray} {le : Bool} {bs : Bytes}

theorem read_zero (h : WellFormed b) (hlt : b.position < b.capacity) : read 0 b = .ok [] b := by
  have hin : b.position / b.baseSize < b.nodes.length := by
    rw [Nat.div_lt_iff_lt_mul h.base, Nat.mul_comm, ← h.capacity]
    exact hlt
  unfold read
  rw [if_neg (Nat.not_lt_zero _), h.cur_eq hlt]
  simp only [readLoop, nodeAt, Nat.add_zero, if_pos hin, ← h.cur_eq hlt]

theorem read_zero_undefined (h : WellFormed b) (heq : b.position = b.capacity) : read 0 b = .error .undefined b := by
  unfold read
  rw [if_neg (Nat.not_lt_zero _), h.cur, if_pos heq]

theorem bind_error {α β : Type} {x : ByteArrayM α} {e : Fault} (f : α → ByteArrayM β)
    (h : x b = .error e b') : (x >>= f) b = .error e b' := by
  simp only [bind, EStateM.bind, h]

/-- **One string**: it is read unless it is empty and ends with the last block. -/
theorem readString_eq {f : StringForm} {value pre : Bytes} {w : ByteArrayM Unit}
    (hfit : value.length < 2 ^ f.format.width)
    (hcodec : Codec le w f.format.read pre (BitVec.ofNat _ value.length)) (h : WellFormed b)
    (hle : b.littleEndian = le) (hstart : pre ++ value <+: b.content.drop b.position) :
    (value ≠ [] ∨ b.position + (pre ++ value).length < b.capacity →
      ∃ b', f.read b = .ok value b' ∧ Moved b (b.position + (pre ++ value).length) b') ∧
    (value = [] → b.position + (pre ++ value).length = b.capacity → ∃ b', f.read b = .error .undefined b') := by
  have hnarrow : (BitVec.ofNat f.format.width value.length).toNat = value.length := by
    rw [BitVec.toNat_ofNat, Nat.mod_eq_of_lt hfit]
  obtain ⟨b₁, hrun₁, hmoved₁⟩ := hcodec.read b h hle ((List.prefix_append _ _).trans hstart)
  rw [StringForm.read_eq, readString]
  rw [bind_ok _ hrun₁, hnarrow, List.length_append]
  have hbehind := prefix_moved h hstart hmoved₁
  refine ⟨fun hne => ?_, fun hnil hend => ?_⟩
  · have hread : ∃ b₂, read value.length b₁ = .ok value b₂ ∧
        Moved b₁ (b₁.position + value.length) b₂ := by
      by_cases hnil : value = []
      · rw [hnil] at hne ⊢
        refine ⟨b₁, read_zero hmoved₁.wellFormed ?_, Moved.self hmoved₁.wellFormed⟩
        rw [hmoved₁.position, hmoved₁.capacity]
        simpa using hne
      · exact reads_read hnil b₁ hmoved₁.wellFormed (hmoved₁.littleEndian.trans hle) hbehind
    obtain ⟨b₂, hrun₂, hmoved₂⟩ := hread
    rw [hmoved₁.position, Nat.add_assoc] at hmoved₂
    exact ⟨b₂, hrun₂, hmoved₁.trans hmoved₂ (by omega)⟩
  · rw [hnil] at hend ⊢
    refine ⟨b₁, read_zero_undefined hmoved₁.wellFormed ?_⟩
    rw [hmoved₁.position, hmoved₁.capacity, ← hend, List.length_nil, Nat.add_zero]

/-- The bytes of some strings. -/
def encodeStrings (le : Bool) (ss : List (StringForm × Bytes)) : Bytes :=
  ss.flatMap fun s => s.1.prefixBytes le s.2.length ++ s.2

theorem encodeStrings_cons (le : Bool) (s : StringForm × Bytes) (ss : List (StringForm × Bytes)) :
    encodeStrings le (s :: ss) = s.1.prefixBytes le s.2.length ++ s.2 ++ encodeStrings le ss :=
  List.flatMap_cons

theorem length_encodeStrings (le : Bool) (ss : List (StringForm × Bytes)) :
    (encodeStrings le ss).length = totalLength ss := by
  rw [encodeStrings, List.length_flatMap, totalLength]
  congr 2
  funext s
  rw [List.length_append, StringForm.length_prefixBytes]

variable {ss : List (StringForm × Bytes)}

theorem totalLength_pos (h : ss ≠ []) : 0 < totalLength ss := by
  cases ss with
  | nil => exact absurd rfl h
  | cons s ss =>
    have := s.1.prefixLength_pos s.2.length
    rw [totalLength, List.map_cons, List.sum_cons]
    omega

theorem appends_writeStrings (baseSize : Nat) (le : Bool) (ss : List (StringForm × Bytes)) :
    Appends baseSize le (writeStrings ss) (encodeStrings le ss) := by
  induction ss with
  | nil => exact appends_pure
  | cons s ss ih =>
    have hlength : Appends baseSize le (s.1.format.write (BitVec.ofNat _ s.2.length)) _ :=
      (s.1.codec le s.2.length).appends
    have hvalue : Appends baseSize le (write s.2) s.2 := appends_write
    rw [encodeStrings_cons, writeStrings, StringForm.write_eq]
    exact (hlength.bind hvalue).bind ih

/-- **Strings** that are the rest of the array are read, unless the last one is empty and ends with the
last block. -/
theorem readStrings_eq
    (hfit : ∀ s ∈ ss, s.2.length < 2 ^ s.1.format.width) (h : WellFormed b)
    (hle : b.littleEndian = le) (hrest : b.content.drop b.position = encodeStrings le ss) :
    ((∃ f, ss.getLast? = some (f, [])) ∧ b.size = b.capacity →
      ∃ b', readStrings (ss.map (·.1)) b = .error .undefined b') ∧
    (¬ ((∃ f, ss.getLast? = some (f, [])) ∧ b.size = b.capacity) →
      ∃ b', readStrings (ss.map (·.1)) b = .ok ss b' ∧ Moved b b.size b') := by
  induction ss generalizing b with
  | nil =>
    have hend : b.position = b.size := by
      have hlen := congrArg List.length hrest
      have hpos := h.position
      rw [List.length_drop, h.length_content] at hlen
      simp only [encodeStrings, List.flatMap_nil, List.length_nil] at hlen
      omega
    refine ⟨?_, fun _ => ⟨b, rfl, hend ▸ Moved.self h⟩⟩
    rintro ⟨⟨f, hf⟩, -⟩
    cases hf
  | cons s ss ih =>
    obtain ⟨f, value⟩ := s
    have hcap := h.size
    have hfits : value.length < 2 ^ f.format.width := hfit (f, value) (List.mem_cons_self ..)
    rw [encodeStrings_cons] at hrest
    dsimp only at hrest
    have hstart : f.prefixBytes le value.length ++ value <+: b.content.drop b.position :=
      ⟨_, hrest.symm⟩
    have hle' := position_add_le h hstart
    have hsize : b.size = b.position + (f.prefixBytes le value.length ++ value).length +
        totalLength ss := by
      have hlen := congrArg List.length hrest
      have hpos := h.position
      rw [List.length_drop, h.length_content, List.length_append, length_encodeStrings] at hlen
      omega
    obtain ⟨hok, herror⟩ := readString_eq hfits (f.codec le _) h hle hstart
    rw [List.map_cons, readStrings]
    by_cases hend : value = [] ∧
        b.position + (f.prefixBytes le value.length ++ value).length = b.capacity
    · -- nothing is behind this string, which is the last one
      have hnil : ss = [] := by
        by_contra hne
        have := totalLength_pos hne
        omega
      obtain ⟨b₁, hrun⟩ := herror hend.1 hend.2
      refine ⟨fun _ => ⟨b₁, bind_error _ hrun⟩, fun hno => ?_⟩
      refine absurd ⟨⟨f, ?_⟩, ?_⟩ hno
      · rw [hnil, hend.1]
        rfl
      · omega
    · obtain ⟨b₁, hrun, hmoved⟩ := hok (by
        by_cases hnil : value = []
        · exact .inr (Nat.lt_of_le_of_ne (hle'.trans hcap) fun hfull => hend ⟨hnil, hfull⟩)
        · exact .inl hnil)
      have hsame : b₁.size = b.size := by
        rw [hmoved.size]
        omega
      have hrest₁ : b₁.content.drop b₁.position = encodeStrings le ss := by
        rw [hmoved.content_eq hle', hmoved.position, ← List.drop_drop, hrest, List.drop_left]
      obtain ⟨herror', hok'⟩ := ih (fun s hs => hfit s (List.mem_cons_of_mem _ hs)) hmoved.wellFormed
        (hmoved.littleEndian.trans hle) hrest₁
      -- the last string of all is the last string of the rest, if there is a rest
      have hlast : (∃ g, ((f, value) :: ss).getLast? = some (g, [])) ∧ b.size = b.capacity ↔
          (∃ g, ss.getLast? = some (g, [])) ∧ b₁.size = b₁.capacity := by
        rw [hsame, hmoved.capacity]
        cases ss with
        | nil =>
          have hnone : ¬ ∃ g, ([] : List (StringForm × Bytes)).getLast? = some (g, []) := by
            rintro ⟨g, hg⟩
            cases hg
          refine ⟨?_, fun hno => absurd hno.1 hnone⟩
          rintro ⟨⟨g, hg⟩, hfull⟩
          cases hg
          exact absurd ⟨rfl, hsize.symm.trans hfull⟩ hend
        | cons s ss => rw [List.getLast?_cons_cons]
      rw [hlast, bind_ok _ hrun]
      refine ⟨fun hbad => ?_, fun hgood => ?_⟩
      · obtain ⟨b₂, hrun₂⟩ := herror' hbad
        exact ⟨b₂, bind_error _ hrun₂⟩
      · obtain ⟨b₂, hrun₂, hmoved₂⟩ := hok' hgood
        refine ⟨b₂, bind_ok _ hrun₂, ?_⟩
        rw [hsame] at hmoved₂
        exact hmoved.trans hmoved₂ hle'

/-! ### Lengths that do not fit -/

theorem length_readLoop {nodes : List Node} {npos size passed : Nat} {bytes : Bytes}
    (h : readLoop nodes npos size = some (bytes, passed)) : bytes.length ≤ size := by
  induction nodes generalizing npos size bytes passed with
  | nil =>
    cases size with
    | zero =>
      cases h
      exact Nat.le_refl _
    | succ size => cases h
  | cons node nodes ih =>
    cases size with
    | zero =>
      cases h
      exact Nat.le_refl _
    | succ size =>
      simp only [readLoop] at h
      split at h
      · cases h
        exact List.length_take_le _ _
      · obtain ⟨⟨more, n⟩, hmore, heq⟩ := Option.map_eq_some_iff.mp h
        obtain ⟨rfl, -⟩ := Prod.mk.inj heq
        have hfirst := List.length_take_le (node.length - npos) (node.drop npos)
        have hrest := ih hmore
        simp only [List.length_append]
        omega

theorem length_read {n : Nat} {bytes : Bytes} (h : read n b = .ok bytes b') : bytes.length ≤ n := by
  unfold read at h
  split at h
  · cases h
  · split at h
    · cases h
    · split at h
      · cases h
      · next hloop =>
        cases h
        exact length_readLoop hloop

theorem exists_of_bind {α β : Type} {x : ByteArrayM α} {f : α → ByteArrayM β} {c : β}
    (h : (x >>= f) b = .ok c b') : ∃ a b₁, x b = .ok a b₁ ∧ f a b₁ = .ok c b' := by
  simp only [bind, EStateM.bind] at h
  split at h
  · next a b₁ hx => exact ⟨a, b₁, hx, h⟩
  · cases h

theorem length_readStrings {fs : List StringForm}
    (h : readStrings fs b = .ok ss b') : ∀ s ∈ ss, s.2.length < 2 ^ s.1.format.width := by
  induction fs generalizing b ss b' with
  | nil =>
    cases h
    exact fun _ hs => absurd hs List.not_mem_nil
  | cons f fs ih =>
    obtain ⟨value, b₁, hvalue, h⟩ := exists_of_bind h
    obtain ⟨rest, b₂, hrest, h⟩ := exists_of_bind h
    cases h
    rw [StringForm.read_eq] at hvalue
    obtain ⟨len, b₃, -, hread⟩ := exists_of_bind hvalue
    intro s hs
    obtain rfl | hs := List.mem_cons.mp hs
    · exact Nat.lt_of_le_of_lt (length_read hread) len.isLt
    · exact ih hrest s hs

end

/-! ## The round trip -/

theorem Filled.size_eq_capacity_iff {baseSize : Nat} {le : Bool} {bs : Bytes} {b : ByteArray}
    (h : Filled baseSize le bs b) (hne : bs ≠ []) : b.size = b.capacity ↔ baseSize ∣ bs.length := by
  have hbase := h.wellFormed.base
  have hpos := List.length_pos_of_ne_nil hne
  rw [h.baseSize] at hbase
  rw [h.size, h.wellFormed.capacity, h.baseSize, h.nodes]
  refine ⟨fun heq => ⟨_, heq⟩, ?_⟩
  rintro ⟨k, hk⟩
  have hkpos : 0 < k := Nat.pos_of_ne_zero fun h0 => by
    rw [h0, Nat.mul_zero] at hk
    omega
  have hceil : (bs.length + baseSize - 1) / baseSize = k := by
    rw [hk, Nat.add_sub_assoc hbase, Nat.mul_add_div hbase, Nat.div_eq_of_lt (by omega), Nat.add_zero]
  rw [hceil, Nat.max_eq_right hkpos]
  exact hk

/-- **Strings** are read back iff every length fits into its form and no empty string is read at the end
of the last block. -/
theorem strings_readBack_iff {baseSize : Nat} (h : 0 < baseSize) (fresh : Nat → Nat → UInt8) (le : Bool)
    (ss : List (StringForm × Bytes)) : ReadsBack baseSize fresh le (writeStrings ss) (readStrings (ss.map (·.1))) ss ↔
      StringsFit baseSize ss := by
  obtain ⟨b₁, hwrite, hfilled⟩ := appends_writeStrings baseSize le ss [] _ (filled_new h fresh le)
  rw [List.nil_append] at hfilled
  obtain ⟨b₂, hseek, hmoved, hcontent⟩ := hfilled.rewind
  have hsize : b₂.size = b₁.size := by
    rw [hmoved.size, Nat.max_eq_left (Nat.zero_le _)]
  have hrest : b₂.content.drop b₂.position = encodeStrings le ss := by
    rw [hmoved.position, List.drop_zero, hcontent]
  -- an empty last string is read at the end of the array
  have hend : (∃ f, ss.getLast? = some (f, [])) ∧ b₂.size = b₂.capacity ↔
      (∃ f, ss.getLast? = some (f, [])) ∧ baseSize ∣ totalLength ss := by
    refine and_congr_right fun ⟨f, hf⟩ => ?_
    have hne : encodeStrings le ss ≠ [] := by
      refine List.ne_nil_of_length_pos ?_
      rw [length_encodeStrings]
      refine totalLength_pos ?_
      rintro rfl
      cases hf
    rw [hsize, hmoved.capacity, hfilled.size_eq_capacity_iff hne, length_encodeStrings]
  have hread := fun hfit : ∀ s ∈ ss, s.2.length < 2 ^ s.1.format.width =>
    readStrings_eq hfit hmoved.wellFormed (hmoved.littleEndian.trans hfilled.littleEndian) hrest
  rw [hend] at hread
  constructor
  · rintro ⟨c₁, c₂, c₃, hc₁, hc₂, hc₃, -⟩
    rw [hwrite] at hc₁
    cases hc₁
    rw [hseek] at hc₂
    cases hc₂
    have hfit := length_readStrings hc₃
    refine ⟨hfit, fun hbad => ?_⟩
    obtain ⟨b₃, herror⟩ := (hread hfit).1 hbad
    rw [herror] at hc₃
    cases hc₃
  · rintro ⟨hfit, hgood⟩
    obtain ⟨b₃, hrun, hmoved₃⟩ := (hread hfit).2 hgood
    refine ⟨b₁, b₂, b₃, hwrite, hseek, hrun, ?_⟩
    rw [getReadSize, hmoved₃.size, hmoved₃.position]
    omega

/-- A string and an empty one, in blocks of two bytes. -/
theorem strings_readBack_two : ReadsBack 2 (fun _ _ => 0) false (writeStrings [(.f16, str "a"), (.f32, [])])
      (readStrings [.f16, .f32]) [(.f16, str "a"), (.f32, [])] :=
  (strings_readBack_iff (by decide) (fun _ _ => 0) false [(.f16, str "a"), (.f32, [])]).mpr
    ⟨by decide, fun hend => absurd hend.2 (by decide)⟩

/-- The length of an empty string fills the block of two bytes, and its reader follows `m_cur`. -/
theorem strings_readBack_empty : ¬ ReadsBack 2 (fun _ _ => 0) false (writeStrings [(.f16, [])]) (readStrings [.f16])
      [(.f16, [])] := by
  rintro ⟨b₁, b₂, b₃, hwrite, hseek, hread, -⟩
  cases hwrite
  cases hseek
  cases hread

end Sherry.ByteArray
