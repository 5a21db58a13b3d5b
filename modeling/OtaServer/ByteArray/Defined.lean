import OtaServer.ByteArray.Strings
import OtaServer.Lib.Run

/-!
# Where the operations of a byte array are defined

An operation is undefined if it follows a null pointer or uses memory outside a block. An array stays well-formed
under all operations, also under those that throw.

* `Total`: an operation that is defined on every well-formed array. `Total.bind` puts operations together.
* `readLoop_isSome_iff`, `buffersLoop_isSome_iff`, `fileLoop_eq`, `of_fileLoop_isSome`: where the other loops end.
* `Op.Ok`: where an operation is defined. `Op.defined_iff` is one operation, and `byteArray_reachable_defined` any
  array that the operations reach.
-/

namespace Sherry.ByteArray

open Lib

/-- The array that an operation leaves, also if it throws. -/
def after {α : Type} : EStateM.Result Fault ByteArray α → ByteArray
  | .ok _ b => b
  | .error _ b => b

/-- The operation returns or throws. -/
def Defined {α : Type} (r : EStateM.Result Fault ByteArray α) : Prop := ∀ b, r ≠ .error .undefined b

/-- What every operation leaves as it is. -/
structure Kept (b b' : ByteArray) : Prop where
  wellFormed : WellFormed b'
  baseSize : b'.baseSize = b.baseSize

/-- An operation keeps the layout. -/
def Keeps {α : Type} (m : ByteArrayM α) : Prop := ∀ b, WellFormed b → Kept b (after (m b))

/-- An operation keeps the layout, and it is defined. -/
structure Total {α : Type} (m : ByteArrayM α) : Prop where
  keeps : Keeps m
  defined : ∀ b, WellFormed b → Defined (m b)

section

variable {α β : Type} {b b' b'' : ByteArray}

theorem Kept.refl (h : WellFormed b) : Kept b b := ⟨h, rfl⟩

theorem Kept.trans (h : Kept b b') (h' : Kept b' b'') : Kept b b'' :=
  ⟨h'.wellFormed, h'.baseSize.trans h.baseSize⟩

theorem defined_ok (a : α) : Defined (.ok a b) := nofun

theorem defined_throw (what : String) : Defined (.error (.outOfRange what) b : EStateM.Result _ _ α) :=
  nofun

theorem keeps_pure (a : α) : Keeps (pure a : ByteArrayM α) := fun _ h => Kept.refl h

variable {m : ByteArrayM α}

theorem Keeps.bind {f : α → ByteArrayM β} (hm : Keeps m) (hf : ∀ a, Keeps (f a)) :
    Keeps (m >>= f) := by
  intro b h
  have hkept := hm b h
  cases hrun : m b with
  | ok a b' =>
    rw [hrun] at hkept
    rw [bind_ok f hrun]
    exact hkept.trans (hf a b' hkept.wellFormed)
  | error e b' =>
    rw [hrun] at hkept
    rw [bind_error f hrun]
    exact hkept

theorem total_pure (a : α) : Total (pure a : ByteArrayM α) := ⟨keeps_pure a, fun _ _ => defined_ok a⟩

theorem Total.bind {f : α → ByteArrayM β} (hm : Total m) (hf : ∀ a, Total (f a)) :
    Total (m >>= f) := by
  refine ⟨hm.keeps.bind fun a => (hf a).keeps, fun b h => ?_⟩
  have hkept := hm.keeps b h
  have hdefined := hm.defined b h
  cases hrun : m b with
  | ok a b' =>
    rw [hrun] at hkept
    rw [bind_ok f hrun]
    exact (hf a).defined b' hkept.wellFormed
  | error e b' =>
    rw [hrun] at hdefined
    rw [bind_error f hrun]
    intro c hc
    cases hc
    exact hdefined b' rfl

theorem total_of_run (h : ∀ b, WellFormed b →
    (∃ a b', m b = .ok a b' ∧ Kept b b') ∨ ∃ what, m b = .error (.outOfRange what) b) : Total m := by
  refine ⟨fun b hb => ?_, fun b hb => ?_⟩
  · obtain ⟨a, b', hrun, hkept⟩ | ⟨what, hrun⟩ := h b hb
    · rw [hrun]
      exact hkept
    · rw [hrun]
      exact Kept.refl hb
  · obtain ⟨a, b', hrun, -⟩ | ⟨what, hrun⟩ := h b hb
    · rw [hrun]
      exact defined_ok a
    · rw [hrun]
      exact defined_throw what

theorem Total.map (f : α → β) (hm : Total m) : Total (f <$> m) := by
  have hbind := hm.bind fun a => total_pure (f a)
  rwa [bind_pure_comp] at hbind

end

/-! ## Total operations -/

theorem total_get : Total (get : ByteArrayM ByteArray) :=
  ⟨fun _ h => Kept.refl h, fun b _ => defined_ok b⟩

theorem total_write (buf : Bytes) : Total (write buf) := by
  refine total_of_run fun b h => .inl ?_
  obtain ⟨b', hrun, hwrote⟩ := write_eq h buf
  exact ⟨(), b', hrun, hwrote.wellFormed, hwrote.baseSize⟩

theorem total_setPosition (v : Nat) : Total (setPosition v) := by
  refine total_of_run fun b h => ?_
  by_cases hv : v ≤ b.capacity
  · obtain ⟨b', hrun, hmoved⟩ := setPosition_eq h hv
    exact .inl ⟨(), b', hrun, hmoved.wellFormed, hmoved.baseSize⟩
  · exact .inr ⟨_, setPosition_outOfRange (Nat.lt_of_not_le hv)⟩

theorem total_read {n : Nat} (hn : 0 < n) : Total (read n) := by
  refine total_of_run fun b h => ?_
  by_cases hle : b.position + n ≤ b.size
  · obtain ⟨b', hrun, hmoved⟩ := read_eq h hn hle
    exact .inl ⟨_, b', hrun, hmoved.wellFormed, hmoved.baseSize⟩
  · exact .inr ⟨_, read_outOfRange (by unfold getReadSize; omega)⟩

theorem keeps_read (n : Nat) : Keeps (read n) := by
  obtain rfl | hn := Nat.eq_zero_or_pos n
  · intro b h
    by_cases hlt : b.position < b.capacity
    · rw [read_zero h hlt]
      exact Kept.refl h
    · have hend := Nat.le_antisymm (h.position.trans h.size) (Nat.le_of_not_lt hlt)
      rw [read_zero_undefined h hend]
      exact Kept.refl h
  · exact (total_read hn).keeps

theorem total_writeFixed {n : Nat} (v : BitVec (8 * n)) : Total (writeFixed v) :=
  total_get.bind fun _ => total_write _

theorem total_writeVarint {w slots : Nat} (hw : 8 ≤ w) (hslots : 2 ^ w ≤ 128 ^ (slots + 1))
    (v : BitVec w) : Total (writeVarint (slots + 1) v) := by
  obtain ⟨tmp, htmp, -⟩ := exists_varintLoop hw (Nat.lt_of_lt_of_le v.isLt hslots)
  rw [writeVarint, htmp]
  exact total_write tmp

theorem total_readFixed {n : Nat} (hn : 0 < n) : Total (readFixed n) :=
  (total_read hn).bind fun _ => total_get.bind fun _ => total_pure _

theorem total_readFuint8 : Total readFuint8 := (total_read Nat.one_pos).bind fun _ => total_pure _

theorem total_readVarintLoop {w : Nat} (rounds i : Nat) (result : BitVec w) :
    Total (readVarintLoop rounds i result) := by
  induction rounds generalizing i result with
  | zero => exact total_pure result
  | succ rounds ih =>
    refine total_readFuint8.bind fun b => ?_
    split
    · exact total_pure _
    · exact ih _ _

theorem Format.total_write (f : Format) (v : BitVec f.width) : Total (f.write v) := by
  cases f with
  | fint8 | fuint8 => exact ByteArray.total_write (hostBytes (n := 1) v)
  | fint16 | fuint16 => exact total_writeFixed (n := 2) v
  | fint32 | fuint32 | float => exact total_writeFixed (n := 4) v
  | fint64 | fuint64 | double => exact total_writeFixed (n := 8) v
  | int32 | uint32 => exact total_writeVarint (w := 32) (by decide) (by decide) _
  | int64 | uint64 => exact total_writeVarint (w := 64) (by decide) (by decide) _

theorem Format.total_read (f : Format) : Total f.read := by
  cases f with
  | fint8 | fuint8 => exact total_readFuint8
  | fint16 | fuint16 => exact total_readFixed (n := 2) (by decide)
  | fint32 | fuint32 | float => exact total_readFixed (n := 4) (by decide)
  | fint64 | fuint64 | double => exact total_readFixed (n := 8) (by decide)
  | uint32 | uint64 => exact total_readVarintLoop _ _ _
  | int32 | int64 => exact (total_readVarintLoop _ _ _).map _

theorem total_writeString (f : StringForm) (value : Bytes) : Total (f.write value) := by
  rw [StringForm.write_eq]
  exact (f.format.total_write _).bind fun _ => total_write value

theorem keeps_readString (f : StringForm) : Keeps f.read := by
  rw [StringForm.read_eq]
  exact f.format.total_read.keeps.bind fun _ => keeps_read _

theorem total_readFileLoop (baseSize fuel : Nat) (content : Bytes) : Total (readFileLoop baseSize fuel content) := by
  induction fuel generalizing content with
  | zero => exact total_pure ()
  | succ fuel ih =>
    refine (total_write _).bind fun _ => ?_
    split
    · exact total_pure ()
    · exact ih _

theorem total_readFromFile (content : Option Bytes) : Total (readFromFile content) := by
  cases content with
  | none => exact total_pure false
  | some bytes =>
    have hloop : ∀ k, Total (do readFileLoop k (bytes.length + 1) bytes; pure true) := fun k =>
      (total_readFileLoop k _ _).bind fun _ => total_pure true
    exact ⟨fun b h => (hloop b.baseSize).keeps b h, fun b h => (hloop b.baseSize).defined b h⟩

/-! ## The other loops -/

section

variable {k npos size len : Nat} {nodes : List Node}

theorem readLoop_isSome_iff (hk : 0 < k) (hnodes : Blocks k nodes) (hpos : npos < k) :
    (readLoop nodes npos size).isSome ↔ size = 0 ∨ npos + size ≤ k * nodes.length := by
  obtain rfl | hsize := Nat.eq_zero_or_pos size
  · simp [readLoop]
  · by_cases hfit : npos + size ≤ k * nodes.length
    · rw [readLoop_eq hk hnodes hpos hsize hfit]
      exact ⟨fun _ => .inr hfit, fun _ => rfl⟩
    · refine ⟨fun hsome => ?_, fun h => absurd h (by omega)⟩
      -- each block that is left takes at most its rest
      induction nodes generalizing npos size with
      | nil =>
        obtain ⟨size, rfl⟩ : ∃ s, size = s + 1 := ⟨size - 1, by omega⟩
        cases hsome
      | cons node nodes ih =>
        obtain ⟨hnode, hnodes⟩ := Blocks.cons_iff.mp hnodes
        obtain ⟨size, rfl⟩ : ∃ s, size = s + 1 := ⟨size - 1, by omega⟩
        rw [List.length_cons, Nat.mul_succ] at hfit
        have hmore : ¬ size + 1 ≤ node.length - npos := by
          have := Nat.zero_le (k * nodes.length)
          omega
        rw [readLoop, if_neg hmore, Option.isSome_map] at hsome
        have := ih hnodes hk (by omega) (by omega) hsome
        omega

theorem buffersLoop_isSome_iff {i : Nat} (hk : 0 < k) (hnodes : Blocks k nodes) (hpos : npos < k)
    (hlen : 0 < len) : (buffersLoop nodes i npos len).isSome ↔ npos + len ≤ k * nodes.length := by
  induction nodes generalizing i npos len with
  | nil =>
    rw [List.length_nil, Nat.mul_zero]
    exact ⟨nofun, fun h => absurd h (by omega)⟩
  | cons node nodes ih =>
    obtain ⟨hnode, hnodes⟩ := Blocks.cons_iff.mp hnodes
    rw [List.length_cons, Nat.mul_succ, buffersLoop]
    by_cases hin : len ≤ node.length - npos
    · rw [if_pos hin]
      refine ⟨fun _ => ?_, fun _ => rfl⟩
      have := Nat.zero_le (k * nodes.length)
      omega
    · rw [if_neg hin, Option.isSome_map, ih hnodes hk (by omega)]
      omega

theorem toInt32_eq {n : Nat} (h : n < 2 ^ 31) : toInt32 n = n := by
  have hnat : (BitVec.ofNat 32 n).toNat = n := by
    rw [BitVec.toNat_ofNat, Nat.mod_eq_of_lt (by omega)]
  rw [toInt32, BitVec.toInt_eq_toNat_of_lt (by omega), hnat]

variable {pos readSize : Nat} {node : Node}

theorem fileLoop_round (hnode : node.length = k) (hread : 0 < readSize) (hpos : pos % k < 2 ^ 31) :
    fileLoop k (node :: nodes) pos readSize =
      if pos % k ≤ min readSize k then
        (fileLoop k nodes (pos + (min readSize k - pos % k)) (readSize - (min readSize k - pos % k))).map
          fun bytes => (node.drop (pos % k)).take (min readSize k - pos % k) ++ bytes
      else none := by
  obtain ⟨readSize, rfl⟩ : ∃ r, readSize = r + 1 := ⟨readSize - 1, by omega⟩
  rw [fileLoop, toInt32_eq hpos]
  by_cases hle : pos % k ≤ min (readSize + 1) k
  · have hin : ¬ ((pos % k : Nat) : Int) < 0 ∧
        ¬ ((min (readSize + 1) k : Nat) : Int) - (pos % k : Nat) < 0 ∧
        ¬ (node.length : Int) < (pos % k : Nat) +
          (((min (readSize + 1) k : Nat) : Int) - (pos % k : Nat)) := by
      rw [hnode]
      omega
    have hlen : (((min (readSize + 1) k : Nat) : Int) - (pos % k : Nat)).toNat =
        min (readSize + 1) k - pos % k := by
      omega
    rw [if_neg (by tauto), if_pos hle, hlen, Int.toNat_natCast]
  · rw [if_pos (.inr (.inl (by omega))), if_neg hle]

theorem fileLoop_step (hnode : node.length = k) (hread : 0 < readSize) (hpos : pos % k < 2 ^ 31) :
    (fileLoop k (node :: nodes) pos readSize).isSome ↔ pos % k ≤ min readSize k ∧
        (fileLoop k nodes (pos + (min readSize k - pos % k)) (readSize - (min readSize k - pos % k))).isSome := by
  rw [fileLoop_round hnode hread hpos]
  split
  · next hle =>
    rw [Option.isSome_map]
    exact ⟨fun h => ⟨hle, h⟩, fun h => h.2⟩
  · next hle => exact ⟨nofun, fun h => absurd h.1 hle⟩

theorem fileLoop_aligned (hnodes : Blocks k nodes) (hpos : pos % k = 0) (hfit : readSize ≤ k * nodes.length) :
    fileLoop k nodes pos readSize = some (nodes.flatten.take readSize) := by
  induction nodes generalizing pos readSize with
  | nil =>
    rw [List.length_nil, Nat.mul_zero, Nat.le_zero] at hfit
    rw [hfit]
    rfl
  | cons node nodes ih =>
    obtain ⟨hnode, hnodes⟩ := Blocks.cons_iff.mp hnodes
    rw [List.length_cons, Nat.mul_succ] at hfit
    obtain rfl | hread := Nat.eq_zero_or_pos readSize
    · rfl
    rw [fileLoop_round hnode hread (by omega), hpos, if_pos (Nat.zero_le _), Nat.sub_zero, List.drop_zero,
      List.flatten_cons, List.take_append]
    by_cases hlast : readSize ≤ k
    · have hnone : readSize - node.length = 0 := by omega
      have hdone : fileLoop k nodes (pos + readSize) 0 = some [] := by cases nodes <;> rfl
      rw [Nat.min_eq_left hlast, Nat.sub_self, hnone, List.take_zero, hdone, Option.map_some]
    · have hall : node.take k = node := List.take_of_length_le hnode.le
      have hmore : node.take readSize = node := List.take_of_length_le (by omega)
      rw [Nat.min_eq_right (by omega), ih hnodes (by rw [Nat.add_mod_right, hpos]) (by omega),
        Option.map_some, hall, hmore, hnode]

/-- Behind the first round with nothing left of a block, the loop of `writeToFile` runs off the blocks. -/
theorem fileLoop_stuck (hnodes : Blocks k nodes) (hread : 0 < readSize) (hle : readSize ≤ pos % k)
    (hpos : pos % k < 2 ^ 31) (hk : 0 < k) : ¬ (fileLoop k nodes pos readSize).isSome := by
  induction nodes with
  | nil =>
    obtain ⟨readSize, rfl⟩ : ∃ r, readSize = r + 1 := ⟨readSize - 1, by omega⟩
    exact nofun
  | cons node nodes ih =>
    obtain ⟨hnode, hnodes⟩ := Blocks.cons_iff.mp hnodes
    have hlt := Nat.mod_lt pos hk
    rw [fileLoop_step hnode hread hpos, Nat.min_eq_left (by omega)]
    rintro ⟨hge, hrest⟩
    rw [Nat.sub_eq_zero_of_le hle, Nat.sub_zero, Nat.add_zero] at hrest
    exact ih hnodes hrest

theorem fileLoop_negative (hread : 0 < readSize) (hle : 2 ^ 31 ≤ pos % k) (hlt : pos % k < 2 ^ 32) :
    fileLoop k nodes pos readSize = none := by
  obtain ⟨readSize, rfl⟩ : ∃ r, readSize = r + 1 := ⟨readSize - 1, by omega⟩
  cases nodes with
  | nil => rfl
  | cons node nodes =>
    have hneg : toInt32 (pos % k) < 0 := by
      rw [toInt32, BitVec.toInt_neg_iff, BitVec.toNat_ofNat, Nat.mod_eq_of_lt hlt]
      omega
    rw [fileLoop, if_pos (.inl hneg)]

/-- What the loop of `writeToFile` writes from the start of a block on, or with a block or more to write. -/
theorem fileLoop_eq (hk : 0 < k) (hnodes : Blocks k nodes) (hread : 0 < readSize)
    (hfit : pos % k + readSize ≤ k * nodes.length) (hpos : pos % k < 2 ^ 31) (h : pos % k = 0 ∨ k ≤ readSize) :
    fileLoop k nodes pos readSize = some ((nodes.flatten.drop (pos % k)).take readSize) := by
  obtain h0 | hge := h
  · rw [fileLoop_aligned hnodes h0 (by omega), h0, List.drop_zero]
  · cases nodes with
    | nil =>
      rw [List.length_nil, Nat.mul_zero] at hfit
      omega
    | cons node nodes =>
      obtain ⟨hnode, hnodes⟩ := Blocks.cons_iff.mp hnodes
      have hlt := Nat.mod_lt pos hk
      have hnext : pos + (k - pos % k) = k * (pos / k + 1) := by
        have := Nat.div_add_mod pos k
        rw [Nat.mul_succ]
        omega
      have hdrop : (node.drop (pos % k)).length = k - pos % k := by rw [List.length_drop, hnode]
      have hall : (node.drop (pos % k)).take (k - pos % k) = node.drop (pos % k) :=
        List.take_of_length_le hdrop.le
      have hmore : (node.drop (pos % k)).take readSize = node.drop (pos % k) :=
        List.take_of_length_le (by omega)
      rw [List.length_cons, Nat.mul_succ] at hfit
      rw [fileLoop_round hnode hread hpos, Nat.min_eq_right hge, if_pos hlt.le,
        fileLoop_aligned hnodes (by rw [hnext, Nat.mul_mod_right]) (by omega), Option.map_some,
        List.flatten_cons, List.drop_append_of_le_length (by omega), List.take_append, hdrop, hall, hmore]

/-- Where the loop of `writeToFile` ends. -/
theorem of_fileLoop_isSome (hk : 0 < k) (hbase : k ≤ 2 ^ 32) (hnodes : Blocks k nodes)
    (hread : 0 < readSize) (h : (fileLoop k nodes pos readSize).isSome) :
    pos % k < 2 ^ 31 ∧ (pos % k = 0 ∨ k ≤ readSize) := by
  have hlt := Nat.mod_lt pos hk
  have hpos : pos % k < 2 ^ 31 := by
    by_contra hge
    rw [fileLoop_negative hread (by omega) (by omega)] at h
    cases h
  refine ⟨hpos, ?_⟩
  by_contra hno
  cases nodes with
  | nil =>
    obtain ⟨readSize, rfl⟩ : ∃ r, readSize = r + 1 := ⟨readSize - 1, by omega⟩
    cases h
  | cons node nodes =>
    obtain ⟨hnode, hnodes⟩ := Blocks.cons_iff.mp hnodes
    rw [fileLoop_step hnode hread hpos, Nat.min_eq_left (by omega)] at h
    obtain ⟨hle, hrest⟩ := h
    -- the round ends inside the block of the position, as if that were the next one
    have hmod : (pos + (readSize - pos % k)) % k = readSize := by
      have hsplit : pos + (readSize - pos % k) = k * (pos / k) + readSize := by
        have := Nat.div_add_mod pos k
        omega
      rw [hsplit, Nat.mul_add_mod, Nat.mod_eq_of_lt (by omega)]
    by_cases hsmall : readSize < 2 ^ 31
    · exact fileLoop_stuck hnodes (by omega) (by omega) (by omega) hk hrest
    · rw [fileLoop_negative (by omega) (by omega) (by omega)] at hrest
      cases hrest

end

/-! ## The public operations -/

/-- A call of an operation that is public, but for those that only return a member. -/
inductive Op where
  | write (buf : Bytes)
  | writeScalar (s : Scalar)
  | writeString (f : StringForm) (value : Bytes)
  | writeStringWithoutLength (value : Bytes)
  | read (size : Nat)
  | readScalar (f : Format)
  | readString (f : StringForm)
  | readAt (size position : Nat)
  | setPosition (v : Nat)
  | clear
  | setIsLittleEndian (val : Bool)
  | toString | toHexString
  | getReadBuffers (len : Nat)
  | getReadBuffersAt (len position : Nat)
  | getWriteBuffers (len : Nat)
  | writeToFile (opened : Bool)
  | readFromFile (content : Option Bytes)

/-- A `const` operation. -/
def observe {α : Type} (f : ByteArray → Except Fault α) : ByteArrayM Unit := fun b =>
  match f b with
  | .ok _ => .ok () b
  | .error e => .error e b

namespace Op

/-- An operation, without its result. -/
def run : Op → ByteArrayM Unit
  | write buf => ByteArray.write buf
  | writeScalar s => s.1.write s.2
  | writeString f value => f.write value
  | writeStringWithoutLength value => ByteArray.write value
  | read size => do let _ ← ByteArray.read size
  | readScalar f => do let _ ← f.read
  | readString f => do let _ ← f.read
  | readAt size position => observe fun b => b.readAt size position
  | setPosition v => ByteArray.setPosition v
  | clear => modify ByteArray.clear
  | setIsLittleEndian val => modify fun b => b.setIsLittleEndian val
  | toString => observe ByteArray.toString
  | toHexString => observe ByteArray.toHexString
  | getReadBuffers len => observe fun b => b.getReadBuffers len
  | getReadBuffersAt len position => observe fun b => b.getReadBuffersAt len position
  | getWriteBuffers len => do let _ ← ByteArray.getWriteBuffers len
  | writeToFile opened => observe fun b => b.writeToFile opened
  | readFromFile content => do let _ ← ByteArray.readFromFile content

/-- Where an operation is defined. -/
def Ok (b : ByteArray) : Op → Prop
  | read size => size = 0 → b.position < b.capacity
  | readString f => ∀ b', f.format.read b = .ok 0 b' → b'.position < b'.capacity
  | readAt size position => sizeSub b.size position < size ∨ b.position < b.capacity ∧
      (size = 0 ∨ position % b.baseSize + size ≤ b.capacity - b.baseSize * (b.position / b.baseSize))
  | getReadBuffersAt len position =>
    min len b.getReadSize = 0 ∨ position + min len b.getReadSize ≤ b.capacity
  | writeToFile opened => opened = true → 0 < b.getReadSize →
      b.position % b.baseSize < 2 ^ 31 ∧
        (b.position % b.baseSize = 0 ∨ b.baseSize ≤ b.getReadSize)
  | _ => True

end Op

section

variable {α : Type} {b : ByteArray}

theorem keeps_observe (f : ByteArray → Except Fault α) : Keeps (observe f) := by
  intro b h
  unfold observe
  split <;> exact Kept.refl h

theorem defined_observe_iff (f : ByteArray → Except Fault α) (b : ByteArray) :
    Defined (observe f b) ↔ f b ≠ .error .undefined := by
  unfold observe
  cases hf : f b with
  | ok a => exact ⟨fun _ => nofun, fun _ => defined_ok ()⟩
  | error e =>
    refine ⟨fun h he => ?_, fun h b' hb => ?_⟩
    · cases he
      exact h b rfl
    · cases hb
      exact h rfl

theorem defined_bind_pure_iff {m : ByteArrayM α} :
    Defined ((do let _ ← m : ByteArrayM Unit) b) ↔ Defined (m b) := by
  cases hm : m b with
  | ok a b' =>
    rw [bind_ok _ hm]
    exact ⟨fun _ => defined_ok a, fun _ c hc => by cases hc⟩
  | error e b' =>
    rw [bind_error _ hm]
    refine ⟨fun h c hc => ?_, fun h c hc => ?_⟩
    · cases hc
      exact h b' rfl
    · cases hc
      exact h b' rfl

theorem WellFormed.length_drop (h : WellFormed b) (v : Nat) :
    b.baseSize * (b.nodes.drop (v / b.baseSize)).length = b.capacity - b.baseSize * (v / b.baseSize) := by
  rw [List.length_drop, Nat.mul_sub, ← h.capacity]

theorem WellFormed.cur_eq_none (h : WellFormed b) (hlt : ¬ b.position < b.capacity) : b.cur = none := by
  rw [h.cur, if_pos (Nat.le_antisymm (h.position.trans h.size) (Nat.le_of_not_lt hlt))]

theorem readAt_defined_iff (h : WellFormed b) (size position : Nat) :
    b.readAt size position ≠ .error .undefined ↔ Op.Ok b (.readAt size position) := by
  simp only [Op.Ok]
  unfold readAt
  by_cases hrange : sizeSub b.size position < size
  · rw [if_pos hrange]
    exact ⟨fun _ => .inl hrange, fun _ => nofun⟩
  rw [if_neg hrange]
  by_cases hlt : b.position < b.capacity
  · have hloop : (readLoop (b.nodes.drop (b.position / b.baseSize)) (position % b.baseSize) size).isSome ↔
        _ := readLoop_isSome_iff h.base (h.blocks.drop _) (Nat.mod_lt position h.base)
    rw [h.length_drop] at hloop
    rw [← hloop, h.cur_eq hlt]
    dsimp only
    cases readLoop (b.nodes.drop (b.position / b.baseSize)) (position % b.baseSize) size with
    | none => exact ⟨fun hne => absurd rfl hne, fun hok => hok.elim (absurd · hrange) (nomatch ·.2)⟩
    | some x => exact ⟨fun _ => .inr ⟨hlt, rfl⟩, fun _ => nofun⟩
  · rw [h.cur_eq_none hlt]
    exact ⟨fun hne => absurd rfl hne, fun hok => hok.elim (absurd · hrange) (absurd ·.1 hlt)⟩

theorem buffersFrom_defined_iff (h : WellFormed b) {v len : Nat} (hlen : 0 < len) :
    b.buffersFrom (b.nodeAt (v / b.baseSize)) (v % b.baseSize) len ≠ .error .undefined ↔ v + len ≤ b.capacity := by
  have hsplit := Nat.div_add_mod v b.baseSize
  have hmod := Nat.mod_lt v h.base
  by_cases hlt : v < b.capacity
  · have hloop := buffersLoop_isSome_iff (i := v / b.baseSize) h.base
      (h.blocks.drop (v / b.baseSize)) hmod hlen
    rw [h.length_drop] at hloop
    have hfit : v % b.baseSize + len ≤ b.capacity - b.baseSize * (v / b.baseSize) ↔
        v + len ≤ b.capacity := by omega
    unfold buffersFrom
    rw [h.nodeAt_eq hlt.le, if_neg hlt.ne, ← hfit, ← hloop]
    dsimp only
    cases buffersLoop (b.nodes.drop (v / b.baseSize)) (v / b.baseSize) (v % b.baseSize) len with
    | none => exact ⟨fun hne => absurd rfl hne, nofun⟩
    | some iovs => exact ⟨fun _ => rfl, fun _ => nofun⟩
  · have hnull : b.nodeAt (v / b.baseSize) = none := by
      refine if_neg (Nat.not_lt.mpr ((Nat.le_div_iff_mul_le h.base).mpr ?_))
      rw [Nat.mul_comm, ← h.capacity]
      exact Nat.le_of_not_lt hlt
    unfold buffersFrom
    rw [hnull]
    exact ⟨fun hne => absurd rfl hne, fun hle => by omega⟩

theorem exists_of_buffersFrom {cur : Option Nat} {npos len : Nat}
    (h : b.buffersFrom cur npos len ≠ .error .undefined) : ∃ iovs, b.buffersFrom cur npos len = .ok iovs := by
  unfold buffersFrom at h ⊢
  split at h
  · exact absurd rfl h
  · split at h
    · exact absurd rfl h
    · next iovs hloop => exact ⟨iovs, rfl⟩

theorem map_ne_undefined_iff {β : Type} {x : Except Fault α} (f : α → β) :
    x.map f ≠ .error .undefined ↔ x ≠ .error .undefined := by
  cases x with
  | ok a => exact ⟨fun _ => nofun, fun _ => nofun⟩
  | error e =>
    refine not_congr ⟨fun he => ?_, fun he => ?_⟩
    · cases he
      rfl
    · cases he
      rfl

theorem WellFormed.cur_eq_nodeAt (h : WellFormed b) : b.cur = b.nodeAt (b.position / b.baseSize) := by
  rw [h.cur, h.nodeAt_eq (h.position.trans h.size)]

theorem getReadBuffers_defined (h : WellFormed b) (len : Nat) : b.getReadBuffers len ≠ .error .undefined := by
  unfold getReadBuffers
  by_cases hzero : min len b.getReadSize = 0
  · rw [if_pos hzero]
    exact nofun
  · have hpos := h.position
    have hcap := h.size
    rw [if_neg hzero, map_ne_undefined_iff, h.cur_eq_nodeAt, buffersFrom_defined_iff h (Nat.pos_of_ne_zero hzero)]
    unfold getReadSize
    omega

theorem getReadBuffersAt_defined_iff (h : WellFormed b) (len position : Nat) :
    b.getReadBuffersAt len position ≠ .error .undefined ↔ Op.Ok b (.getReadBuffersAt len position) := by
  simp only [Op.Ok]
  unfold getReadBuffersAt
  by_cases hzero : min len b.getReadSize = 0
  · rw [if_pos hzero]
    exact ⟨fun _ => .inl hzero, fun _ => nofun⟩
  · rw [if_neg hzero, map_ne_undefined_iff, buffersFrom_defined_iff h (Nat.pos_of_ne_zero hzero)]
    exact ⟨.inr, fun hok => hok.resolve_left hzero⟩

/-- `getWriteBuffers` of at least one byte: the buffers from the position on, with the new capacity. -/
theorem getWriteBuffers_ok (h : WellFormed b) {len : Nat} (hlen : 0 < len) :
    ∃ iovs, getWriteBuffers len b = .ok (len, iovs) (b.addCapacity len) ∧
      (b.addCapacity len).buffersFrom ((b.addCapacity len).nodeAt (b.position / b.baseSize))
        (b.position % b.baseSize) len = .ok iovs := by
  have hext := addCapacity_extended h hlen
  have hcur := hext.wellFormed.cur_eq_nodeAt
  rw [hext.position, hext.baseSize] at hcur
  have hbuffers := (buffersFrom_defined_iff hext.wellFormed hlen).mpr hext.fits
  rw [hext.baseSize] at hbuffers
  obtain ⟨iovs, hok⟩ := exists_of_buffersFrom hbuffers
  refine ⟨iovs, ?_, hok⟩
  rw [getWriteBuffers, if_neg hlen.ne']
  simp only [hext.position, hext.baseSize, hcur, hok]

theorem total_getWriteBuffers (len : Nat) : Total (getWriteBuffers len) := by
  obtain rfl | hlen := Nat.eq_zero_or_pos len
  · exact total_pure (0, [])
  · refine total_of_run fun b h => .inl ?_
    obtain ⟨iovs, hrun, -⟩ := getWriteBuffers_ok h hlen
    have hext := addCapacity_extended h hlen
    exact ⟨_, _, hrun, hext.wellFormed, hext.baseSize⟩

/-- `writeToFile` of a file that is opened, with something to write. -/
theorem writeToFile_defined_iff (h : WellFormed b) (hread : 0 < b.getReadSize) :
    b.writeToFile true ≠ .error .undefined ↔
      (fileLoop b.baseSize (b.nodes.drop (b.position / b.baseSize)) b.position b.getReadSize).isSome := by
  have hlt : b.position < b.capacity := by
    have := h.size
    unfold getReadSize at hread
    omega
  unfold writeToFile
  rw [h.cur_eq hlt, if_neg nofun, if_neg hread.ne']
  dsimp only
  cases fileLoop b.baseSize (b.nodes.drop (b.position / b.baseSize)) b.position b.getReadSize with
  | none => exact ⟨fun hne => absurd rfl hne, nofun⟩
  | some bytes => exact ⟨fun _ => rfl, fun _ => nofun⟩

theorem writeToFile_defined (h : WellFormed b) {opened : Bool} (hok : Op.Ok b (.writeToFile opened)) :
    b.writeToFile opened ≠ .error .undefined := by
  cases opened with
  | false => exact nofun
  | true =>
    obtain hzero | hread := Nat.eq_zero_or_pos b.getReadSize
    · rw [writeToFile, if_neg nofun, if_pos hzero]
      exact nofun
    · obtain ⟨hpos, hgood⟩ := hok rfl hread
      have hfit : b.position + b.getReadSize ≤ b.capacity := by
        have := h.position
        have := h.size
        unfold getReadSize
        omega
      rw [writeToFile_defined_iff h hread, fileLoop_eq h.base (h.blocks.drop _) hread (h.fits hfit) hpos hgood]
      rfl

theorem of_writeToFile_defined (h : WellFormed b) (hbase : b.baseSize ≤ 2 ^ 31) {opened : Bool}
    (hdef : b.writeToFile opened ≠ .error .undefined) : Op.Ok b (.writeToFile opened) := by
  rintro rfl hread
  rw [writeToFile_defined_iff h hread] at hdef
  exact of_fileLoop_isSome h.base (by omega) (h.blocks.drop _) hread hdef

theorem read_defined_iff (h : WellFormed b) (size : Nat) : Defined (read size b) ↔ Op.Ok b (.read size) := by
  simp only [Op.Ok]
  obtain rfl | hsize := Nat.eq_zero_or_pos size
  · by_cases hlt : b.position < b.capacity
    · rw [read_zero h hlt]
      exact ⟨fun _ _ => hlt, fun _ => defined_ok _⟩
    · have hend := Nat.le_antisymm (h.position.trans h.size) (Nat.le_of_not_lt hlt)
      rw [read_zero_undefined h hend]
      exact ⟨fun hdef => absurd rfl (hdef b), fun hok => absurd (hok rfl) hlt⟩
  · exact ⟨fun _ h0 => absurd h0 hsize.ne', fun _ => (total_read hsize).defined b h⟩

theorem readString_defined_iff (h : WellFormed b) (f : StringForm) :
    Defined (f.read b) ↔ Op.Ok b (.readString f) := by
  simp only [Op.Ok]
  rw [StringForm.read_eq, readString]
  have hkept := f.format.total_read.keeps b h
  have hlength := f.format.total_read.defined b h
  cases hrun : f.format.read b with
  | error e b' =>
    rw [hrun] at hlength
    rw [bind_error _ hrun]
    refine ⟨fun _ c hc => ?_, fun _ c hc => ?_⟩
    · cases hc
    · cases hc
      exact hlength b' rfl
  | ok len b' =>
    rw [hrun] at hkept
    rw [bind_ok _ hrun]
    refine (read_defined_iff hkept.wellFormed len.toNat).trans ?_
    refine ⟨fun hok c hc => ?_, fun hok hzero => ?_⟩
    · cases hc
      exact hok rfl
    · have hlen : len = 0 := by
        apply BitVec.eq_of_toNat_eq
        rw [hzero]
        exact BitVec.toNat_zero.symm
      exact hok b' (by rw [hlen])

/-- **One operation** keeps the layout. -/
theorem Op.keeps (op : Op) : Keeps op.run := by
  cases op with
  | write buf | writeStringWithoutLength buf => exact (total_write buf).keeps
  | writeScalar s => exact (s.1.total_write s.2).keeps
  | writeString f value => exact (total_writeString f value).keeps
  | read size => exact (keeps_read size).bind fun _ => keeps_pure _
  | readScalar f => exact f.total_read.keeps.bind fun _ => keeps_pure _
  | readString f => exact (keeps_readString f).bind fun _ => keeps_pure _
  | setPosition v => exact (total_setPosition v).keeps
  | clear => exact fun b h => ⟨clear_wellFormed h, rfl⟩
  | setIsLittleEndian val => exact fun b h => ⟨{ h with }, rfl⟩
  | getWriteBuffers len => exact (total_getWriteBuffers len).keeps.bind fun _ => keeps_pure _
  | readFromFile content => exact (total_readFromFile content).keeps.bind fun _ => keeps_pure _
  | readAt | toString | toHexString | getReadBuffers | getReadBuffersAt | writeToFile =>
    exact keeps_observe _

/-- **One operation** is defined where `Op.Ok` says so. -/
theorem Op.defined (h : WellFormed b) {op : Op} (hok : op.Ok b) : Defined (op.run b) := by
  cases op with
  | write buf | writeStringWithoutLength buf => exact (total_write buf).defined b h
  | writeScalar s => exact (s.1.total_write s.2).defined b h
  | writeString f value => exact (total_writeString f value).defined b h
  | read size => exact defined_bind_pure_iff.mpr ((read_defined_iff h size).mpr hok)
  | readScalar f => exact defined_bind_pure_iff.mpr (f.total_read.defined b h)
  | readString f => exact defined_bind_pure_iff.mpr ((readString_defined_iff h f).mpr hok)
  | readAt size position =>
    exact (defined_observe_iff (fun b => b.readAt size position) b).mpr
      ((readAt_defined_iff h size position).mpr hok)
  | setPosition v => exact (total_setPosition v).defined b h
  | clear | setIsLittleEndian => exact defined_ok ()
  | toString =>
    refine (defined_observe_iff ByteArray.toString b).mpr ?_
    rw [toString_eq h]
    exact nofun
  | toHexString =>
    refine (defined_observe_iff ByteArray.toHexString b).mpr ?_
    rw [ByteArray.toHexString, toString_eq h]
    exact nofun
  | getReadBuffers len =>
    exact (defined_observe_iff (fun b => b.getReadBuffers len) b).mpr (getReadBuffers_defined h len)
  | getReadBuffersAt len position =>
    exact (defined_observe_iff (fun b => b.getReadBuffersAt len position) b).mpr
      ((getReadBuffersAt_defined_iff h len position).mpr hok)
  | getWriteBuffers len => exact defined_bind_pure_iff.mpr ((total_getWriteBuffers len).defined b h)
  | writeToFile opened =>
    exact (defined_observe_iff (fun b => b.writeToFile opened) b).mpr (writeToFile_defined h hok)
  | readFromFile content =>
    exact defined_bind_pure_iff.mpr ((total_readFromFile content).defined b h)

/-- **One operation** is defined only where `Op.Ok` says so. -/
theorem Op.ok_of_defined (h : WellFormed b) (hbase : b.baseSize ≤ 2 ^ 31) {op : Op}
    (hdef : Defined (op.run b)) : op.Ok b := by
  cases op with
  | read size => exact (read_defined_iff h size).mp (defined_bind_pure_iff.mp hdef)
  | readString f => exact (readString_defined_iff h f).mp (defined_bind_pure_iff.mp hdef)
  | readAt size position =>
    exact (readAt_defined_iff h size position).mp
      ((defined_observe_iff (fun b => b.readAt size position) b).mp hdef)
  | getReadBuffersAt len position =>
    exact (getReadBuffersAt_defined_iff h len position).mp
      ((defined_observe_iff (fun b => b.getReadBuffersAt len position) b).mp hdef)
  | writeToFile opened =>
    exact of_writeToFile_defined h hbase
      ((defined_observe_iff (fun b => b.writeToFile opened) b).mp hdef)
  | _ => trivial

end

/-- A step: an operation that is defined. -/
def OpStep (b : ByteArray) (op : Op) (b' : ByteArray) : Prop :=
  Defined (op.run b) ∧ after (op.run b) = b'

/-- **Every array that the operations reach** is well-formed, and an operation is defined on it where
`Op.Ok` says so. Reading nothing changes nothing in front of the end of the capacity. -/
theorem byteArray_reachable_defined {baseSize : Nat} (h : 0 < baseSize) (fresh : Nat → Nat → UInt8)
    {r : List (Op × ByteArray)} (hr : Run OpStep (new baseSize fresh) r) :
    let b := lastState (new baseSize fresh) r
    WellFormed b ∧ b.baseSize = baseSize ∧
      (∀ op : Op, (op.Ok b → Defined (op.run b)) ∧
        (baseSize ≤ 2 ^ 31 → Defined (op.run b) → op.Ok b)) ∧
      (b.position < b.capacity →
        read 0 b = .ok [] b ∧ ∀ position ≤ b.size, b.readAt 0 position = .ok []) := by
  have hkept : Kept (new baseSize fresh) (lastState (new baseSize fresh) r) :=
    hr.inv_last (fun b op b' hb (hstep : OpStep b op b') => hb.trans (hstep.2 ▸ op.keeps b hb.wellFormed))
      (Kept.refl (new_wellFormed h fresh))
  generalize lastState (new baseSize fresh) r = b at hkept
  have hw := hkept.wellFormed
  have hbase : b.baseSize = baseSize := hkept.baseSize
  refine ⟨hw, hbase, fun op => ⟨Op.defined hw, fun hle => Op.ok_of_defined hw (hbase ▸ hle)⟩,
    fun hlt => ⟨?_, fun position _ => ?_⟩⟩
  · exact read_zero hw hlt
  · unfold readAt
    rw [if_neg (Nat.not_lt_zero _), hw.cur_eq hlt]
    simp only [readLoop]

/-- One byte is written. -/
def oneByte (baseSize : Nat) : List (Op × ByteArray) :=
  [(.write [7], after (write [7] (new baseSize fun _ _ => 0)))]

theorem oneByte_run {baseSize : Nat} (h : 0 < baseSize) : Run OpStep (new baseSize fun _ _ => 0) (oneByte baseSize) :=
  ⟨⟨(total_write [7]).defined _ (new_wellFormed h _), rfl⟩, trivial⟩

/-- Behind one byte of a block of two, `read` of nothing is defined. -/
theorem byteArray_reachable_defined_oneByte :
    Defined (Op.run (.read 0) (lastState (new 2 fun _ _ => 0) (oneByte 2))) :=
  ((byteArray_reachable_defined (by decide) (fun _ _ => 0) (oneByte_run (by decide))).2.2.1
    (.read 0)).1 fun _ => by decide

/-- Behind the byte of a block of one, `read` of nothing follows `m_cur`, with and without a position. -/
theorem byteArray_undefined_oneByte : Run OpStep (new 1 fun _ _ => 0) (oneByte 1) ∧
      ¬ Defined (Op.run (.read 0) (lastState (new 1 fun _ _ => 0) (oneByte 1))) ∧
      ¬ Defined (Op.run (.readAt 0 1) (lastState (new 1 fun _ _ => 0) (oneByte 1))) :=
  ⟨oneByte_run (by decide), fun h => h _ rfl, fun h => h _ rfl⟩

end Sherry.ByteArray
