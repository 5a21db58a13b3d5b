import OtaServer.ByteArray.Buffers

/-!
# A byte array in a file

`writeToFile` goes through the blocks from `m_cur` on. The length of each round is counted from the start of the
block, so that the first round ends too early if less than a block is left.

* `writeToFile_eq`: the content of the file.
* `readFileLoop_eq`: the bytes of a file are appended.
* `savedAndLoaded_iff`: where an array is saved and loaded again as it was.
-/

namespace Sherry.ByteArray

open Lib

variable {b : ByteArray}

/-- Where `writeToFile` is right: there is nothing to write, or the position is at the start of a block, or a block or
more is left. The offset in the block is an `int`. -/
def FileOk (b : ByteArray) : Prop :=
  b.position = b.size ∨ b.position % b.baseSize < 2 ^ 31 ∧
    (b.position % b.baseSize = 0 ∨ b.baseSize ≤ b.size - b.position)

theorem writeToFile_eq (h : WellFormed b) (hok : FileOk b) :
    b.writeToFile true = .ok (some (b.content.drop b.position)) := by
  have hpos := h.position
  have hcap := h.size
  unfold writeToFile
  rw [if_neg nofun]
  by_cases hzero : b.getReadSize = 0
  · rw [if_pos hzero]
    unfold getReadSize at hzero
    rw [List.drop_eq_nil_of_le (by rw [h.length_content]; omega)]
  · have hfit : b.position + b.getReadSize ≤ b.size := by
      unfold getReadSize
      omega
    have hlt : b.position < b.capacity := by omega
    obtain ⟨hint, hgood⟩ := hok.resolve_left (by omega)
    have hloop := fileLoop_eq h.base (h.blocks.drop (b.position / b.baseSize)) (Nat.pos_of_ne_zero hzero)
      (h.fits (hfit.trans hcap)) hint hgood
    have hrest : (b.nodes.flatten.drop b.position).take b.getReadSize = b.content.drop b.position := by
      rw [content, List.drop_take, getReadSize]
    rw [h.flatten_drop hlt.le, List.drop_drop, Nat.div_add_mod, hrest] at hloop
    rw [if_neg hzero, h.cur_eq hlt]
    simp only [hloop]

theorem fileOk_of_writeToFile (h : WellFormed b) (hbase : b.baseSize ≤ 2 ^ 32)
    (hdef : b.writeToFile true ≠ .error .undefined) : FileOk b := by
  have hpos := h.position
  obtain hzero | hread := Nat.eq_zero_or_pos b.getReadSize
  · unfold getReadSize at hzero
    exact .inl (by omega)
  · rw [writeToFile_defined_iff h hread] at hdef
    exact .inr (of_fileLoop_isSome h.base hbase (h.blocks.drop _) hread hdef)

theorem write_end (h : WellFormed b) (hend : b.position = b.size) (buf : Bytes) :
    ∃ b', write buf b = .ok () b' ∧ WellFormed b' ∧ b'.position = b'.size ∧ b'.content = b.content ++ buf := by
  obtain ⟨b', hrun, hwrote⟩ := write_eq h buf
  refine ⟨b', hrun, hwrote.wellFormed, ?_, ?_⟩
  · rw [hwrote.position, hwrote.size]
    omega
  · have hlength : b.position = b.content.length := by rw [hend, h.length_content]
    rw [hwrote.content, hlength, splice, List.take_length, List.drop_eq_nil_of_le (by omega), List.append_nil]

/-- The loop of `readFromFile` appends what is left of the file, a block in each round. -/
theorem readFileLoop_eq {k fuel : Nat} {bytes : Bytes} (h : WellFormed b) (hend : b.position = b.size)
    (hfuel : bytes.length < k * fuel) :
    ∃ b', readFileLoop k fuel bytes b = .ok () b' ∧ WellFormed b' ∧ b'.content = b.content ++ bytes := by
  induction fuel generalizing b bytes with
  | zero =>
    rw [Nat.mul_zero] at hfuel
    omega
  | succ fuel ih =>
    obtain ⟨b₁, hwrite, hw, hend₁, hcontent⟩ := write_end h hend (bytes.take k)
    rw [readFileLoop, bind_ok _ hwrite]
    by_cases hlast : bytes.length < k
    · rw [if_pos hlast]
      refine ⟨b₁, rfl, hw, ?_⟩
      rw [hcontent, List.take_of_length_le (by omega)]
    · rw [if_neg hlast]
      have hshort : (bytes.drop k).length < k * fuel := by
        rw [Nat.mul_succ] at hfuel
        rw [List.length_drop]
        omega
      obtain ⟨b₂, hrest, hw₂, hcontent₂⟩ := ih hw hend₁ hshort
      refine ⟨b₂, hrest, hw₂, ?_⟩
      rw [hcontent₂, hcontent, List.append_assoc, List.take_append_drop]

/-- **A file is loaded** into an array that is empty. -/
theorem readFromFile_eq (h : WellFormed b) (hempty : b.size = 0) (bytes : Bytes) :
    ∃ b₁ b₂, readFromFile (some bytes) b = .ok true b₁ ∧ setPosition 0 b₁ = .ok () b₂ ∧ b₂.toString = .ok bytes := by
  have hpos := h.position
  have hbase := h.base
  have hfuel : bytes.length < b.baseSize * (bytes.length + 1) :=
    Nat.lt_of_lt_of_le (Nat.lt_succ_self _) (Nat.le_mul_of_pos_left _ hbase)
  have hnil : b.content = [] := by rw [content, hempty, List.take_zero]
  obtain ⟨b₁, hloop, hw, hcontent⟩ := readFileLoop_eq h (by omega) hfuel
  obtain ⟨b₂, hset, hmoved⟩ := setPosition_eq hw (Nat.zero_le _)
  refine ⟨b₁, b₂, ?_, hset, ?_⟩
  · show (do readFileLoop b.baseSize (bytes.length + 1) bytes; pure true : ByteArrayM Bool) b = _
    rw [bind_ok _ hloop]
    rfl
  · rw [toString_eq hmoved.wellFormed, hmoved.position, List.drop_zero,
      hmoved.content_eq (Nat.zero_le _), hcontent, hnil, List.nil_append]

/-- The array is saved in a file as `toString` gives it, and loaded from there into any array that is empty. -/
def SavedAndLoaded (b : ByteArray) : Prop :=
  ∃ bytes, b.toString = .ok bytes ∧ b.writeToFile true = .ok (some bytes) ∧
    ∀ e, Reachable e → e.size = 0 → ∃ e₁ e₂, readFromFile (some bytes) e = .ok true e₁ ∧
      setPosition 0 e₁ = .ok () e₂ ∧ e₂.toString = .ok bytes

/-- **A byte array is saved and loaded** where `FileOk` says so, and for blocks of up to 4 GiB only
there. -/
theorem savedAndLoaded_iff (hr : Reachable b) :
    (FileOk b → SavedAndLoaded b) ∧ (b.baseSize ≤ 2 ^ 32 → SavedAndLoaded b → FileOk b) := by
  have h := hr.wellFormed
  refine ⟨fun hok => ?_, fun hbase hsaved => ?_⟩
  · exact ⟨b.content.drop b.position, toString_eq h, writeToFile_eq h hok,
      fun e he hempty => readFromFile_eq he.wellFormed hempty _⟩
  · obtain ⟨bytes, -, hwrite, -⟩ := hsaved
    refine fileOk_of_writeToFile h hbase ?_
    rw [hwrite]
    intro hundefined
    cases hundefined

/-- Three bytes in blocks of two, at the third. -/
theorem savedAndLoaded_iff_written : SavedAndLoaded (written 2 (str "abc") 2) :=
  (savedAndLoaded_iff (written_reachable Nat.two_pos (str "abc") 2)).1 (.inr ⟨by decide, .inl rfl⟩)

/-- At the second byte of three in a block of four, the first round writes one byte of two, and the loop goes on
behind the last block. -/
theorem savedAndLoaded_fails :
    Reachable (written 4 (str "abc") 1) ∧ (written 4 (str "abc") 1).toString = .ok (str "bc") ∧
      (written 4 (str "abc") 1).writeToFile true = .error .undefined ∧
      ¬ SavedAndLoaded (written 4 (str "abc") 1) := by
  have hwrite : (written 4 (str "abc") 1).writeToFile true = .error .undefined := rfl
  refine ⟨written_reachable (by decide) _ _, rfl, hwrite, ?_⟩
  rintro ⟨bytes, -, hok, -⟩
  rw [hwrite] at hok
  cases hok

end Sherry.ByteArray
