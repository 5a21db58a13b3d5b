import OtaServer.ByteArray.Basic

/-!
# The layout of a byte array

The blocks of a byte array one after the other are its memory, and `m_cur` is the block of `m_position`.

* `WellFormed`: what holds of every byte array. `bytes` is its memory.
* `writeLoop_eq`, `readLoop_eq`, `seekLoop_eq`: the loops, in terms of the memory.
* `write_eq`, `read_eq`, `setPosition_eq`, `clear_wellFormed`: the operations keep the layout.
-/

namespace Sherry.ByteArray

open Lib

/-! ## The loops -/

section

variable {k npos size v : Nat} {nodes : List Node} {buf : Bytes}

/-- How far `m_cur` moves within a block: to the next one from its end on. -/
theorem passed_within {n : Nat} (hk : 0 < k) (h : n ≤ k) : (if k = n then 1 else 0) = n / k := by
  split
  · next heq => rw [← heq, Nat.div_self hk]
  · next hne => rw [Nat.div_eq_of_lt (by omega)]

theorem writeLoop_eq (hk : 0 < k) (hnodes : Blocks k nodes) (hpos : npos < k) (hne : buf ≠ [])
    (hfit : npos + buf.length ≤ k * nodes.length) :
    ∃ nodes', writeLoop nodes npos buf = some (nodes', (npos + buf.length) / k) ∧
      Blocks k nodes' ∧ nodes'.length = nodes.length ∧ nodes'.flatten = splice nodes.flatten npos buf := by
  have hlen := List.length_pos_of_ne_nil hne
  induction nodes generalizing npos buf with
  | nil =>
    rw [List.length_nil, Nat.mul_zero] at hfit
    omega
  | cons node nodes ih =>
    obtain ⟨hnode, hnodes⟩ := Blocks.cons_iff.mp hnodes
    rw [List.length_cons, Nat.mul_succ] at hfit
    unfold writeLoop
    by_cases hin : buf.length ≤ node.length - npos
    · -- the rest of this block is large enough
      have hput : npos + buf.length ≤ node.length := by omega
      rw [if_pos hin]
      refine ⟨put node npos buf :: nodes, ?_, Blocks.cons_iff.mpr ⟨?_, hnodes⟩, rfl, ?_⟩
      · have hpassed : (if node.length = npos + buf.length then 1 else 0) =
            (npos + buf.length) / k := by
          rw [hnode]
          exact passed_within hk (hnode ▸ hput)
        rw [hpassed]
      · rw [put, length_splice hput, hnode]
      · rw [put, List.flatten_cons, List.flatten_cons, splice_append_left hput]
    · rw [if_neg hin]
      have htake : (buf.take (node.length - npos)).length = node.length - npos := by
        rw [List.length_take]
        omega
      have hdrop : (buf.drop (node.length - npos)).length = buf.length - (node.length - npos) :=
        List.length_drop
      have hrest : buf.drop (node.length - npos) ≠ [] := List.ne_nil_of_length_pos (by omega)
      obtain ⟨nodes', hloop, hblocks, hlength, hflatten⟩ :=
        ih hnodes hk hrest (by omega) (by omega)
      rw [hloop]
      refine ⟨put node npos (buf.take (node.length - npos)) :: nodes', ?_, Blocks.cons_iff.mpr ⟨?_, hblocks⟩, ?_, ?_⟩
      · have hpassed : (0 + (buf.drop (node.length - npos)).length) / k + 1 =
            (npos + buf.length) / k := by
          rw [← Nat.add_div_right _ hk]
          congr 1
          omega
        rw [Option.map_some, hpassed]
      · rw [put, length_splice (by omega), hnode]
      · rw [List.length_cons, List.length_cons, hlength]
      · rw [List.flatten_cons, List.flatten_cons, hflatten, put,
          ← splice_append_both (by omega), List.take_append_drop]

theorem readLoop_eq (hk : 0 < k) (hnodes : Blocks k nodes) (hpos : npos < k) (hsize : 0 < size)
    (hfit : npos + size ≤ k * nodes.length) :
    readLoop nodes npos size = some ((nodes.flatten.drop npos).take size, (npos + size) / k) := by
  induction nodes generalizing npos size with
  | nil =>
    rw [List.length_nil, Nat.mul_zero] at hfit
    omega
  | cons node nodes ih =>
    obtain ⟨hnode, hnodes⟩ := Blocks.cons_iff.mp hnodes
    rw [List.length_cons, Nat.mul_succ] at hfit
    obtain ⟨size, rfl⟩ : ∃ s, size = s + 1 := ⟨size - 1, by omega⟩
    unfold readLoop
    rw [List.flatten_cons, List.drop_append_of_le_length (by omega)]
    by_cases hin : size + 1 ≤ node.length - npos
    · have hpassed : (if node.length = npos + (size + 1) then 1 else 0) = (npos + (size + 1)) / k := by
        rw [hnode]
        exact passed_within hk (by omega)
      rw [if_pos hin, hpassed, List.take_append_of_le_length (by rw [List.length_drop]; exact hin)]
    · have hpassed : (0 + (size + 1 - (node.length - npos))) / k + 1 = (npos + (size + 1)) / k := by
        rw [← Nat.add_div_right _ hk]
        congr 1
        omega
      have hall : (node.drop npos).take (node.length - npos) = node.drop npos :=
        List.take_of_length_le (by rw [List.length_drop])
      have hmore : (node.drop npos).take (size + 1) = node.drop npos :=
        List.take_of_length_le (by rw [List.length_drop]; omega)
      rw [if_neg hin, ih hnodes hk (by omega) (by omega), Option.map_some, hpassed, hall,
        List.drop_zero, List.take_append, hmore, List.length_drop]

theorem seekLoop_eq (hk : 0 < k) (hnodes : Blocks k nodes) (hne : nodes ≠ [])
    (hv : v ≤ k * nodes.length) : seekLoop nodes v = some (v / k) := by
  induction nodes generalizing v with
  | nil => exact absurd rfl hne
  | cons node nodes ih =>
    obtain ⟨hnode, hnodes⟩ := Blocks.cons_iff.mp hnodes
    rw [List.length_cons, Nat.mul_succ] at hv
    unfold seekLoop
    by_cases hlt : node.length < v
    · have hne : nodes ≠ [] := by
        rintro rfl
        rw [List.length_nil, Nat.mul_zero] at hv
        omega
      have hpassed : (v - node.length) / k + 1 = v / k := by
        rw [← Nat.add_div_right _ hk]
        congr 1
        omega
      rw [if_pos hlt, ih hnodes hne (by omega), Option.map_some, hpassed]
    · rw [if_neg hlt]
      split
      · next heq => rw [heq, hnode, Nat.div_self hk]
      · next hne => rw [Nat.div_eq_of_lt (by omega)]

end

/-! ## The layout -/

/-- What holds of every byte array. -/
structure WellFormed (b : ByteArray) : Prop where
  base : 0 < b.baseSize
  blocks : Blocks b.baseSize b.nodes
  root : b.nodes ≠ []
  capacity : b.capacity = b.baseSize * b.nodes.length
  position : b.position ≤ b.size
  size : b.size ≤ b.capacity
  /-- `m_cur` is the node of the position, and null at the end of the capacity. -/
  cur : b.cur = if b.position = b.capacity then none else some (b.position / b.baseSize)

/-- The bytes of the array. -/
def content (b : ByteArray) : Bytes := b.nodes.flatten.take b.size

variable {b : ByteArray}

theorem length_newNode (s : Nat) (fresh : Nat → UInt8) : (newNode s fresh).length = s := by
  rw [newNode, List.length_map, List.length_range]

theorem new_wellFormed {baseSize : Nat} (h : 0 < baseSize) (fresh : Nat → Nat → UInt8) :
    WellFormed (new baseSize fresh) where
  base := h
  blocks := fun node hnode => by
    rw [List.mem_singleton.mp hnode]
    exact length_newNode baseSize (fresh 0)
  root := List.cons_ne_nil _ _
  capacity := (Nat.mul_one baseSize).symm
  position := Nat.le_refl 0
  size := Nat.zero_le _
  cur := by
    have hne : (new baseSize fresh).position ≠ (new baseSize fresh).capacity := Nat.ne_of_lt h
    rw [if_neg hne]
    exact congrArg some (Nat.zero_div _).symm

namespace WellFormed

theorem length_flatten (h : WellFormed b) : b.nodes.flatten.length = b.capacity := by
  rw [h.blocks.length_flatten, h.capacity]

theorem length_content (h : WellFormed b) : b.content.length = b.size := by
  rw [content, List.length_take, h.length_flatten, Nat.min_eq_left h.size]

theorem nodeAt_eq (h : WellFormed b) {v : Nat} (hv : v ≤ b.capacity) :
    b.nodeAt (v / b.baseSize) = if v = b.capacity then none else some (v / b.baseSize) := by
  have hlt : v / b.baseSize < b.nodes.length ↔ v ≠ b.capacity := by
    rw [Nat.div_lt_iff_lt_mul h.base, Nat.mul_comm, ← h.capacity]
    omega
  rw [nodeAt]
  split
  · next hin => rw [if_neg (hlt.mp hin)]
  · next hin => rw [if_pos (Classical.not_not.mp fun hne => hin (hlt.mpr hne))]

theorem cur_eq (h : WellFormed b) (hlt : b.position < b.capacity) : b.cur = some (b.position / b.baseSize) := by
  rw [h.cur, if_neg (Nat.ne_of_lt hlt)]

theorem flatten_drop (h : WellFormed b) {v : Nat} (hv : v ≤ b.capacity) :
    (b.nodes.drop (v / b.baseSize)).flatten = b.nodes.flatten.drop (b.baseSize * (v / b.baseSize)) := by
  refine h.blocks.flatten_drop ?_
  rw [h.capacity] at hv
  exact (Nat.div_le_iff_le_mul_add_pred h.base).mpr (by omega)

theorem fits (h : WellFormed b) {v n : Nat} (hfit : v + n ≤ b.capacity) :
    v % b.baseSize + n ≤ b.baseSize * (b.nodes.drop (v / b.baseSize)).length := by
  have hsplit := Nat.div_add_mod v b.baseSize
  rw [List.length_drop, Nat.mul_sub, ← h.capacity]
  omega

end WellFormed

/-! ## Operations -/

/-- What `addCapacity` makes of an array. -/
structure Extended (b : ByteArray) (n : Nat) (b' : ByteArray) : Prop where
  wellFormed : WellFormed b'
  baseSize : b'.baseSize = b.baseSize
  littleEndian : b'.littleEndian = b.littleEndian
  position : b'.position = b.position
  size : b'.size = b.size
  fits : b.position + n ≤ b'.capacity
  nodes : b'.nodes.length =
    max b.nodes.length ((b.position + n + b.baseSize - 1) / b.baseSize)
  prefixed : b.nodes.flatten <+: b'.nodes.flatten

variable {n v : Nat}

/-- Bytes that are put at the position. The memory behind the old size is not part of the array. -/
theorem Extended.take_splice_flatten {b' : ByteArray} (hext : Extended b n b') (h : WellFormed b)
    {buf : Bytes} (hle : buf.length ≤ n) :
    (splice b'.nodes.flatten b.position buf).take (max b.size (b.position + buf.length)) =
      splice b.content b.position buf := by
  have hfits := hext.fits
  have hroom : b.position + buf.length ≤ b'.nodes.flatten.length := by
    rw [hext.wellFormed.length_flatten]
    omega
  obtain ⟨junk, hjunk⟩ := hext.prefixed
  have hsize : b.size ≤ b.nodes.flatten.length := by
    rw [h.length_flatten]
    exact h.size
  rw [take_splice h.position hroom, ← hjunk, List.take_append_of_le_length hsize, content]

theorem le_mul_ceil {k : Nat} (hk : 0 < k) (n : Nat) : n ≤ k * ((n + k - 1) / k) := by
  have := Nat.div_add_mod (n + k - 1) k
  have := Nat.mod_lt (n + k - 1) hk
  omega

theorem addCapacity_extended (h : WellFormed b) (hn : 0 < n) : Extended b n (b.addCapacity n) := by
  have hcap := h.capacity
  have hpos : b.position ≤ b.capacity := h.position.trans h.size
  unfold addCapacity
  rw [if_neg (Nat.ne_of_gt hn)]
  by_cases hroom : n ≤ b.getCapacity
  · rw [if_pos hroom]
    unfold getCapacity at hroom
    refine ⟨h, rfl, rfl, rfl, rfl, by omega, ?_, List.prefix_rfl⟩
    refine (Nat.max_eq_left ?_).symm
    refine (Nat.div_le_iff_le_mul_add_pred h.base).mpr ?_
    omega
  · rw [if_neg hroom]
    dsimp only
    generalize hcount : (n - b.getCapacity + b.baseSize - 1) / b.baseSize = count
    unfold getCapacity at hroom hcount ⊢
    have hneed : n - (b.capacity - b.position) ≤ b.baseSize * count :=
      hcount ▸ le_mul_ceil h.base _
    have hcountPos : 0 < count := Nat.pos_of_ne_zero fun h0 => by
      rw [h0, Nat.mul_zero] at hneed
      omega
    have hextra : Blocks b.baseSize
        ((List.range count).map fun k => newNode b.baseSize (b.fresh k)) := by
      intro node hnode
      obtain ⟨k, -, rfl⟩ := List.mem_map.mp hnode
      exact length_newNode b.baseSize (b.fresh k)
    have hlength : (b.nodes ++ (List.range count).map fun k =>
        newNode b.baseSize (b.fresh k)).length = b.nodes.length + count := by
      rw [List.length_append, List.length_map, List.length_range]
    have hmore : b.capacity + count * b.baseSize = b.baseSize * (b.nodes.length + count) := by
      rw [hcap, Nat.mul_add, Nat.mul_comm count]
    have hlt : b.position < b.capacity + count * b.baseSize := by
      have := Nat.mul_pos hcountPos h.base
      omega
    refine ⟨⟨h.base, h.blocks.append hextra, List.append_ne_nil_of_left_ne_nil h.root _, ?_,
      h.position, ?_, ?_⟩, rfl, rfl, rfl, rfl, ?_, ?_, ?_⟩
    · rw [hlength, hmore]
    · exact h.size.trans (Nat.le_add_right _ _)
    · rw [if_neg (Nat.ne_of_lt hlt)]
      split
      · -- the position is at the end of the old capacity, which is where the new blocks start
        next h0 =>
        have hend : b.nodes.length = b.position / b.baseSize := by
          rw [show b.position = b.baseSize * b.nodes.length by omega, Nat.mul_div_cancel_left _ h.base]
        exact congrArg some hend
      · next h0 => exact h.cur_eq (by omega)
    · show b.position + n ≤ b.capacity + count * b.baseSize
      rw [Nat.mul_comm count]
      omega
    · have hsum : b.position + n + b.baseSize - 1 =
          b.baseSize * b.nodes.length + (n - (b.capacity - b.position) + b.baseSize - 1) := by
        omega
      rw [hlength, hsum, Nat.mul_add_div h.base, hcount, Nat.max_eq_right (Nat.le_add_right _ _)]
    · rw [List.flatten_append]
      exact List.prefix_append _ _

/-- What `write` makes of an array. -/
structure Wrote (b : ByteArray) (buf : Bytes) (b' : ByteArray) : Prop where
  wellFormed : WellFormed b'
  baseSize : b'.baseSize = b.baseSize
  littleEndian : b'.littleEndian = b.littleEndian
  position : b'.position = b.position + buf.length
  size : b'.size = max b.size (b.position + buf.length)
  nodes : b'.nodes.length = if buf = [] then b.nodes.length
    else max b.nodes.length ((b.position + buf.length + b.baseSize - 1) / b.baseSize)
  content : b'.content = splice b.content b.position buf

/-- **`write`** overwrites the bytes at the position and extends the array. -/
theorem write_eq (h : WellFormed b) (buf : Bytes) : ∃ b', write buf b = .ok () b' ∧ Wrote b buf b' := by
  unfold write
  by_cases hbuf : buf = []
  · rw [if_pos hbuf, hbuf]
    exact ⟨b, rfl, h, rfl, rfl, rfl, (Nat.max_eq_left h.position).symm, (if_pos rfl).symm, (splice_nil _ _).symm⟩
  · rw [if_neg hbuf]
    have hext := addCapacity_extended h (List.length_pos_of_ne_nil hbuf)
    have hw := hext.wellFormed
    have hpos := hext.position
    have hfits := hext.fits
    have hlen := List.length_pos_of_ne_nil hbuf
    dsimp only
    rw [hw.cur_eq (by omega)]
    obtain ⟨nodes', hloop, hblocks, hlength, hflatten⟩ := writeLoop_eq hw.base
      (hw.blocks.drop _) (Nat.mod_lt _ hw.base) hbuf (hw.fits (hpos ▸ hfits))
    simp only [hloop]
    -- `e` is the array with the new capacity, `i` the block of its position
    generalize hi : (b.addCapacity buf.length).position / (b.addCapacity buf.length).baseSize = i at *
    generalize b.addCapacity buf.length = e at *
    have hsplit := Nat.div_add_mod e.position e.baseSize
    rw [hi] at hsplit
    have hile : i ≤ e.nodes.length := by
      rw [← hi]
      exact (Nat.div_le_iff_le_mul_add_pred hw.base).mpr (by rw [← hw.capacity]; omega)
    have hcount : (e.nodes.take i ++ nodes').length = e.nodes.length := by
      rw [List.length_append, hlength, List.length_take, List.length_drop]
      omega
    have hpassed : i + (e.position % e.baseSize + buf.length) / e.baseSize =
        (e.position + buf.length) / e.baseSize := by
      rw [← Nat.mul_add_div hw.base, ← Nat.add_assoc, hsplit]
    -- the blocks in front of the position stay as they are
    have hmemory : (e.nodes.take i ++ nodes').flatten = splice e.nodes.flatten e.position buf := by
      have hfront : (e.nodes.take i).flatten.length = e.baseSize * i := by
        rw [(hw.blocks.take i).length_flatten, List.length_take, Nat.min_eq_left hile]
      have hall : e.nodes.flatten = (e.nodes.take i).flatten ++ (e.nodes.drop i).flatten := by
        rw [← List.flatten_append, List.take_append_drop]
      rw [List.flatten_append, hflatten, hall, ← splice_append_right, hfront, hsplit]
    have hlenMemory := hw.length_flatten
    refine ⟨_, rfl, ⟨hw.base, (hw.blocks.take i).append hblocks, ?_, ?_, ?_, ?_, ?_⟩, hext.baseSize,
      hext.littleEndian, ?_, ?_, ?_, ?_⟩ <;> try dsimp only
    · rw [← List.length_pos_iff, hcount, List.length_pos_iff]
      exact hw.root
    · rw [hcount, hw.capacity]
    · exact Nat.le_max_right _ _
    · exact Nat.max_le.mpr ⟨hw.size, by omega⟩
    · rw [hpassed, hw.nodeAt_eq (by omega)]
    · rw [hpos]
    · rw [hext.size, hpos]
    · rw [if_neg hbuf, hcount, hext.nodes]
    · rw [content, hmemory, hpos, hext.size]
      exact hext.take_splice_flatten h (Nat.le_refl _)

/-- What `read` and `setPosition` make of an array. -/
structure Moved (b : ByteArray) (v : Nat) (b' : ByteArray) : Prop where
  wellFormed : WellFormed b'
  baseSize : b'.baseSize = b.baseSize
  littleEndian : b'.littleEndian = b.littleEndian
  position : b'.position = v
  size : b'.size = max b.size v
  nodes : b'.nodes = b.nodes
  capacity : b'.capacity = b.capacity

theorem moved (h : WellFormed b) (hv : v ≤ b.capacity) :
    Moved b v { b with position := v, size := max b.size v, cur := b.nodeAt (v / b.baseSize) } where
  wellFormed := {
    base := h.base
    blocks := h.blocks
    root := h.root
    capacity := h.capacity
    position := Nat.le_max_right _ _
    size := Nat.max_le.mpr ⟨h.size, hv⟩
    cur := h.nodeAt_eq hv }
  baseSize := rfl
  littleEndian := rfl
  position := rfl
  size := rfl
  nodes := rfl
  capacity := rfl

theorem Moved.content_eq {b' : ByteArray} (h : Moved b v b') (hv : v ≤ b.size) : b'.content = b.content := by
  rw [content, content, h.nodes, h.size, Nat.max_eq_left hv]

theorem readLoop_content (h : WellFormed b) (hn : 0 < n) (hfit : v + n ≤ b.size) :
    readLoop (b.nodes.drop (v / b.baseSize)) (v % b.baseSize) n =
      some ((b.content.drop v).take n, (v % b.baseSize + n) / b.baseSize) := by
  have hcap := h.size
  rw [readLoop_eq h.base (h.blocks.drop _) (Nat.mod_lt _ h.base) hn (h.fits (by omega)),
    h.flatten_drop (by omega), List.drop_drop, Nat.div_add_mod, content, List.drop_take,
    List.take_take, Nat.min_eq_left (by omega)]

/-- **`read`** of at least one byte. -/
theorem read_eq (h : WellFormed b) (hn : 0 < n) (hle : b.position + n ≤ b.size) :
    ∃ b', read n b = .ok ((b.content.drop b.position).take n) b' ∧ Moved b (b.position + n) b' := by
  have hcap := h.size
  have hread : ¬ b.getReadSize < n := by
    unfold getReadSize
    omega
  have hpassed : b.position / b.baseSize + (b.position % b.baseSize + n) / b.baseSize =
      (b.position + n) / b.baseSize := by
    rw [← Nat.mul_add_div h.base, ← Nat.add_assoc, Nat.div_add_mod]
  refine ⟨_, ?_, moved h (by omega)⟩
  unfold read
  rw [if_neg hread, h.cur_eq (by omega)]
  simp only [readLoop_content h hn hle, hpassed, Nat.max_eq_left hle]

theorem read_outOfRange (hn : b.getReadSize < n) : read n b = .error (.outOfRange "not enough len") b := if_pos hn

theorem setPosition_eq (h : WellFormed b) (hv : v ≤ b.capacity) :
    ∃ b', setPosition v b = .ok () b' ∧ Moved b v b' := by
  refine ⟨_, ?_, moved h hv⟩
  unfold setPosition
  rw [if_neg (Nat.not_lt.mpr hv), seekLoop_eq h.base h.blocks h.root (h.capacity ▸ hv)]

theorem setPosition_outOfRange (hv : b.capacity < v) :
    setPosition v b = .error (.outOfRange "set_position out of range") b := if_pos hv

/-- **`toString`** gives the bytes from the position on. -/
theorem toString_eq (h : WellFormed b) : b.toString = .ok (b.content.drop b.position) := by
  have hlen := h.length_content
  have hpos := h.position
  have hcap := h.size
  unfold toString getReadSize
  by_cases hzero : b.size - b.position = 0
  · rw [if_pos hzero, List.drop_eq_nil_of_le (by omega)]
  · have hsub : sizeSub b.size b.position = b.size - b.position := if_pos hpos
    have hall : (b.content.drop b.position).take (b.size - b.position) = b.content.drop b.position :=
      List.take_of_length_le (by rw [List.length_drop]; omega)
    have hloop := readLoop_content h (Nat.pos_of_ne_zero hzero)
      (show b.position + (b.size - b.position) ≤ b.size by omega)
    rw [if_neg hzero, readAt, hsub, if_neg (Nat.lt_irrefl _), h.cur_eq (by omega)]
    simp only [hloop, hall]

theorem clear_wellFormed (h : WellFormed b) : WellFormed b.clear where
  base := h.base
  blocks := h.blocks.take 1
  root := by
    rw [← List.length_pos_iff]
    have := List.length_pos_of_ne_nil h.root
    simp only [clear, List.length_take]
    omega
  capacity := by
    have := List.length_pos_of_ne_nil h.root
    simp only [clear, List.length_take, Nat.min_eq_left this, Nat.mul_one]
  position := Nat.le_refl 0
  size := Nat.zero_le _
  cur := by
    have hne : b.clear.position ≠ b.clear.capacity := Nat.ne_of_lt h.base
    rw [if_neg hne]
    exact congrArg some (Nat.zero_div _).symm

theorem clear_content : b.clear.content = [] := List.take_zero

end Sherry.ByteArray
