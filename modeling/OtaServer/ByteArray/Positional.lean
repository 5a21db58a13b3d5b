import OtaServer.ByteArray.Buffers

/-!
# Reads at a given position

`read(buf, size, position)` and `getReadBuffers(buffers, len, position)` are given a position of their own. The first
starts in the block of `m_cur` nevertheless, and the second compares the length with what is left behind `m_position`.

* `readAt_eq`: what `read` gives, in terms of the memory.
* `Positional`: what the two are for. `positional_iff` says where they do it.
-/

namespace Sherry.ByteArray

open Lib

variable {b : ByteArray} {size len position : Nat}

/-- The place in the memory where `read(buf, size, position)` starts. -/
def readStart (b : ByteArray) (position : Nat) : Nat :=
  b.baseSize * (b.position / b.baseSize) + position % b.baseSize

theorem readStart_eq (h : position / b.baseSize = b.position / b.baseSize) : b.readStart position = position := by
  rw [readStart, ← h, Nat.div_add_mod]

theorem readAt_outOfRange (h : sizeSub b.size position < size) :
    b.readAt size position = .error (.outOfRange "not enough len") := if_pos h

theorem readAt_eq (h : WellFormed b) (hsize : size ≤ sizeSub b.size position) :
    b.readAt size position =
      if b.position < b.capacity ∧ (size = 0 ∨ b.readStart position + size ≤ b.capacity) then
        .ok ((b.nodes.flatten.drop (b.readStart position)).take size)
      else .error .undefined := by
  unfold readAt
  rw [if_neg (Nat.not_lt.mpr hsize)]
  by_cases hlt : b.position < b.capacity
  · have hfit : position % b.baseSize + size ≤
        b.baseSize * (b.nodes.drop (b.position / b.baseSize)).length ↔
        b.readStart position + size ≤ b.capacity := by
      have := Nat.mul_div_le b.position b.baseSize
      rw [h.length_drop, readStart]
      omega
    have hsome : (readLoop (b.nodes.drop (b.position / b.baseSize)) (position % b.baseSize) size).isSome ↔
        _ := readLoop_isSome_iff h.base (h.blocks.drop _) (Nat.mod_lt position h.base)
    rw [hfit] at hsome
    rw [h.cur_eq hlt]
    dsimp only
    by_cases hin : size = 0 ∨ b.readStart position + size ≤ b.capacity
    · rw [if_pos ⟨hlt, hin⟩]
      obtain rfl | hpos := Nat.eq_zero_or_pos size
      · simp only [readLoop, List.take_zero]
      · have hloop := readLoop_eq h.base (h.blocks.drop _) (Nat.mod_lt position h.base) hpos
          (hfit.mpr (hin.resolve_left hpos.ne'))
        rw [h.flatten_drop hlt.le, List.drop_drop] at hloop
        simp only [hloop, readStart]
    · rw [if_neg fun hc => hin hc.2]
      rw [← hsome, Bool.not_eq_true, Option.isSome_eq_false_iff, Option.isNone_iff_eq_none] at hin
      simp only [hin]
  · rw [if_neg fun hc => hlt hc.1, h.cur_eq_none hlt]

/-! ## What they are for -/

/-- `read(buf, size, position)` delivers the bytes of the array, and throws if there are not so many. -/
def ReadsAt (b : ByteArray) (size position : Nat) : Prop :=
  if position + size ≤ b.size then b.readAt size position = .ok ((b.content.drop position).take size)
  else ∃ what, b.readAt size position = .error (.outOfRange what)

/-- `getReadBuffers(buffers, len, position)` returns buffers for the bytes of the array. -/
def BuffersAt (b : ByteArray) (len position : Nat) : Prop :=
  ∃ iovs, b.getReadBuffersAt len position = .ok (min len (b.size - position), iovs) ∧
    Shows b iovs ((b.content.drop position).take (min len (b.size - position)))

/-- Both, whatever `m_position` is. -/
structure Positional (b : ByteArray) (size len position : Nat) : Prop where
  read : ReadsAt b size position
  buffers : BuffersAt b len position

/-- Where `read(buf, size, position)` is right: within the size, `m_cur` is the block of `position`, or the block of
`m_cur` has the same bytes. Behind the size, the difference of the check must not be a large number. -/
def ReadAtOk (b : ByteArray) (size position : Nat) : Prop :=
  if position + size ≤ b.size then
    b.position < b.capacity ∧ (position / b.baseSize = b.position / b.baseSize ∨
      (b.nodes.flatten.drop (b.readStart position)).take size = (b.content.drop position).take size)
  else position ≤ b.size ∨ 2 ^ 64 + b.size < position + size

/-- Where `getReadBuffers(buffers, len, position)` is right: what is left behind `position` and behind `m_position` is
the same, or enough for the length. -/
def BuffersAtOk (b : ByteArray) (len position : Nat) : Prop :=
  b.size - position = b.size - b.position ∨ len ≤ b.size - position ∧ len ≤ b.size - b.position

theorem content_slice (h : position + size ≤ b.size) :
    (b.content.drop position).take size = (b.nodes.flatten.drop position).take size := by
  rw [content, List.drop_take, List.take_take, Nat.min_eq_left (by omega)]

theorem readsAt_iff_of_le (h : WellFormed b) (hin : position + size ≤ b.size) :
    ReadsAt b size position ↔ ReadAtOk b size position := by
  unfold ReadsAt ReadAtOk
  have hcap := h.size
  have hsub : size ≤ sizeSub b.size position := by
    rw [sizeSub, if_pos (by omega)]
    omega
  have hlength : ((b.content.drop position).take size).length = size := by
    rw [List.length_take, List.length_drop, h.length_content]
    omega
  rw [if_pos hin, if_pos hin, readAt_eq h hsub]
  constructor
  · intro hread
    split at hread
    · next hok => exact ⟨hok.1, .inr (Except.ok.inj hread)⟩
    · cases hread
  · rintro ⟨hlt, hsame⟩
    have hbytes : (b.nodes.flatten.drop (b.readStart position)).take size =
        (b.content.drop position).take size := by
      obtain hblock | hbytes := hsame
      · rw [readStart_eq hblock, content_slice hin]
      · exact hbytes
    -- bytes behind the capacity would be missing
    have hfit : size = 0 ∨ b.readStart position + size ≤ b.capacity := by
      have hshort := congrArg List.length hbytes
      rw [hlength, List.length_take, List.length_drop, h.length_flatten] at hshort
      omega
    rw [if_pos ⟨hlt, hfit⟩, hbytes]

/-- Bytes that are not all in the array. For a position behind the size, the difference that is checked wraps around.
-/
theorem readsAt_iff_of_lt (h : WellFormed b) (hposition : position < 2 ^ 64) (hout : b.size < position + size) :
    ReadsAt b size position ↔ ReadAtOk b size position := by
  unfold ReadsAt ReadAtOk
  rw [if_neg (Nat.not_le.mpr hout), if_neg (Nat.not_le.mpr hout)]
  by_cases hle : position ≤ b.size
  · have hsub : sizeSub b.size position < size := by
      rw [sizeSub, if_pos hle]
      omega
    exact ⟨fun _ => .inl hle, fun _ => ⟨_, readAt_outOfRange hsub⟩⟩
  · have hsub : sizeSub b.size position < size ↔ 2 ^ 64 + b.size < position + size := by
      rw [sizeSub, if_neg hle]
      omega
    constructor
    · rintro ⟨what, hthrow⟩
      refine .inr (hsub.mp (Nat.lt_of_not_le fun hsize => ?_))
      rw [readAt_eq h hsize] at hthrow
      split at hthrow <;> cases hthrow
    · intro hok
      exact ⟨_, readAt_outOfRange (hsub.mpr (hok.resolve_left hle))⟩

theorem readsAt_iff (h : WellFormed b) (hposition : position < 2 ^ 64) :
    ReadsAt b size position ↔ ReadAtOk b size position := by
  by_cases hin : position + size ≤ b.size
  · exact readsAt_iff_of_le h hin
  · exact readsAt_iff_of_lt h hposition (Nat.not_le.mp hin)

theorem buffersAt_iff (h : WellFormed b) : BuffersAt b len position ↔ BuffersAtOk b len position := by
  have hpos := h.position
  have hmin : min len (b.size - position) = min len b.getReadSize ↔ BuffersAtOk b len position := by
    unfold BuffersAtOk getReadSize
    omega
  rw [← hmin]
  constructor
  · rintro ⟨iovs, hok, -⟩
    unfold getReadBuffersAt at hok
    dsimp only at hok
    split at hok
    · next hzero =>
      rw [Except.ok.injEq, Prod.mk.injEq] at hok
      rw [← hok.1, hzero]
    · cases hfrom : b.buffersFrom (b.nodeAt (position / b.baseSize)) (position % b.baseSize)
          (min len b.getReadSize) with
      | error e =>
        rw [hfrom] at hok
        cases hok
      | ok iovs' =>
        rw [hfrom, Except.map, Except.ok.injEq, Prod.mk.injEq] at hok
        exact hok.1.symm
  · intro hsame
    have hshows := getReadBuffersAt_shows h len position fun _ => by omega
    unfold BuffersAt
    rw [hsame]
    exact hshows

/-- **Reads at a position** are right where the block and the rest of `m_position` are those of the given
one, and only there. -/
theorem positional_iff (hr : Reachable b) (size len position : UInt64) :
    Positional b size.toNat len.toNat position.toNat ↔
      ReadAtOk b size.toNat position.toNat ∧ BuffersAtOk b len.toNat position.toNat := by
  have h := hr.wellFormed
  rw [← readsAt_iff h position.toNat_lt, ← buffersAt_iff h]
  exact ⟨fun hp => ⟨hp.read, hp.buffers⟩, fun hp => ⟨hp.1, hp.2⟩⟩

/-- Three bytes in blocks of two, at the third: there the reads at the position 2 are right. -/
theorem positional_iff_written : Positional (written 2 (str "abc") 2) 1 1 2 :=
  (positional_iff (written_reachable Nat.two_pos (str "abc") 2) 1 1 2).mpr
    ⟨⟨by decide, .inl rfl⟩, .inl rfl⟩

/-- At the first byte, `read(buf, 1, 2)` delivers it in place of the third, and `getReadBuffers(buffers, 3, 2)`, with
one byte left, looks for three and comes to the null pointer behind the last block. -/
theorem positional_fails : Reachable (written 2 (str "abc") 0) ∧
      (written 2 (str "abc") 0).readAt 1 2 = .ok (str "a") ∧ (written 2 (str "abc") 0).content = str "abc" ∧
      ¬ ReadsAt (written 2 (str "abc") 0) 1 2 ∧
      (written 2 (str "abc") 0).getReadBuffersAt 3 2 = .error .undefined ∧
      ¬ BuffersAt (written 2 (str "abc") 0) 3 2 := by
  have hr := written_reachable Nat.two_pos (str "abc") 0
  refine ⟨hr, rfl, rfl, ?_, rfl, ?_⟩
  · rw [readsAt_iff hr.wellFormed (by decide)]
    intro hok
    exact hok.2.elim (by decide) (by decide)
  · rw [buffersAt_iff hr.wellFormed]
    intro hok
    exact hok.elim (by decide) (by decide)

end Sherry.ByteArray
