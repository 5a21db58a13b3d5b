import Mathlib.Data.List.Nodup
import OtaServer.ByteArray.Defined

/-!
# The buffers of a byte array

`getReadBuffers` and `getWriteBuffers` hand out `iovec`s that point into the blocks, for `writev` and `readv`.

* `gather`, `fill`: what is read through `iovec`s, and what is left when bytes are stored through them.
* `Covers`: `iovec`s that are a part of the memory, piece by piece. `buffersLoop_covers` is the loop, and
  `Covers.gather_eq`, `Covers.fill_eq` and `Covers.addresses` say what the pieces are good for.
* `Reachable`: the arrays that operations and stores through `iovec`s reach.
-/

namespace Sherry.ByteArray

open Lib

/-! ## Access through `iovec`s -/

/-- The bytes an `iovec` points to. -/
def IoVec.bytes (nodes : List Node) (v : IoVec) : Bytes := ((nodes[v.node]?.getD []).drop v.base).take v.len

/-- The addresses of these bytes: a node and a place in its block. -/
def IoVec.addresses (v : IoVec) : List (Nat × Nat) := (List.range' v.base v.len).map fun i => (v.node, i)

/-- The `iovec` points into a block. -/
def IoVec.Within (nodes : List Node) (v : IoVec) : Prop :=
  ∃ node, nodes[v.node]? = some node ∧ v.base + v.len ≤ node.length

/-- `writev`: the bytes of the `iovec`s one after the other. -/
def gather (nodes : List Node) (iovs : List IoVec) : Bytes := iovs.flatMap (IoVec.bytes nodes)

/-- `readv`: bytes are stored through the `iovec`s, in their order. -/
def fill : List Node → List IoVec → Bytes → List Node
  | nodes, [], _ => nodes
  | nodes, v :: iovs, buf =>
    fill (nodes.modify v.node fun node => put node v.base (buf.take v.len)) iovs (buf.drop v.len)

/-- An array that is reached by operations that are defined, and by stores through `iovec`s that point into its
blocks. -/
inductive Reachable : ByteArray → Prop
  | new {baseSize : Nat} (h : 0 < baseSize) (fresh : Nat → Nat → UInt8) : Reachable (new baseSize fresh)
  | op {b : ByteArray} (h : Reachable b) (op : Op) (hdef : Defined (op.run b)) : Reachable (after (op.run b))
  | fill {b : ByteArray} (h : Reachable b) {iovs : List IoVec} (hin : ∀ v ∈ iovs, v.Within b.nodes)
      (buf : Bytes) : Reachable { b with nodes := fill b.nodes iovs buf }

/-! ## Pieces of the memory -/

/-- The `iovec`s are the `n` bytes from the place `s` on in `count` blocks of `k` bytes. -/
def Covers (k count : Nat) : List IoVec → Nat → Nat → Prop
  | [], _, n => n = 0
  | v :: iovs, s, n => v.node < count ∧ s = k * v.node + v.base ∧ v.base + v.len ≤ k ∧ v.len ≤ n ∧
      Covers k count iovs (s + v.len) (n - v.len)

section

variable {k count npos len s n : Nat} {nodes : List Node} {iovs : List IoVec}

theorem buffersLoop_covers {i : Nat} (hnodes : Blocks k nodes) (hcount : count = i + nodes.length)
    (hpos : npos < k) (hloop : buffersLoop nodes i npos len = some iovs) :
    Covers k count iovs (k * i + npos) len := by
  induction nodes generalizing i npos len iovs with
  | nil => cases hloop
  | cons node nodes ih =>
    obtain ⟨hnode, hnodes⟩ := Blocks.cons_iff.mp hnodes
    rw [List.length_cons] at hcount
    rw [buffersLoop] at hloop
    by_cases hin : len ≤ node.length - npos
    · rw [if_pos hin, Option.some_inj] at hloop
      subst hloop
      exact ⟨show i < count by omega, rfl, show npos + len ≤ k by omega, Nat.le_refl _, Nat.sub_self _⟩
    · rw [if_neg hin, Option.map_eq_some_iff] at hloop
      obtain ⟨iovs, hrest, rfl⟩ := hloop
      have hcovers := ih hnodes (by omega) (by omega) hrest
      have hnext : k * (i + 1) + 0 = k * i + npos + (node.length - npos) := by
        rw [Nat.mul_succ]
        omega
      rw [hnext] at hcovers
      exact ⟨show i < count by omega, rfl, show npos + (node.length - npos) ≤ k by omega,
        Nat.le_of_not_le hin, hcovers⟩

namespace Covers

theorem within (h : Covers k count iovs s n) (hnodes : Blocks k nodes) (hcount : count = nodes.length) :
    ∀ v ∈ iovs, v.Within nodes := by
  induction iovs generalizing s n with
  | nil => exact fun _ hv => absurd hv List.not_mem_nil
  | cons v iovs ih =>
    obtain ⟨hnode, -, hlen, -, hrest⟩ := h
    refine List.forall_mem_cons.mpr ⟨?_, ih hrest⟩
    rw [hcount] at hnode
    exact ⟨nodes[v.node], List.getElem?_eq_getElem hnode, hnodes _ (List.getElem_mem hnode) ▸ hlen⟩

theorem gather_eq (h : Covers k count iovs s n) (hnodes : Blocks k nodes)
    (hcount : count = nodes.length) : gather nodes iovs = (nodes.flatten.drop s).take n := by
  induction iovs generalizing s n with
  | nil => rw [show n = 0 from h, List.take_zero, gather, List.flatMap_nil]
  | cons v iovs ih =>
    obtain ⟨hnode, hs, hlen, hle, hrest⟩ := h
    have hfirst : v.bytes nodes = (nodes.flatten.drop s).take v.len := by
      rw [IoVec.bytes, hs, hnodes.slice (hcount ▸ hnode) hlen]
    calc gather nodes (v :: iovs)
        = v.bytes nodes ++ gather nodes iovs := List.flatMap_cons
      _ = (nodes.flatten.drop s).take v.len ++ ((nodes.flatten.drop s).drop v.len).take (n - v.len) := by
        rw [hfirst, ih hrest, List.drop_drop]
      _ = (nodes.flatten.drop s).take (v.len + (n - v.len)) := List.take_add.symm
      _ = (nodes.flatten.drop s).take n := by rw [Nat.add_sub_cancel' hle]

theorem fill_eq (h : Covers k count iovs s n) (hnodes : Blocks k nodes)
    (hcount : count = nodes.length) (hfit : s + n ≤ k * count) (buf : Bytes) (hbuf : buf.length ≤ n) :
    Blocks k (fill nodes iovs buf) ∧ (fill nodes iovs buf).length = nodes.length ∧
      (fill nodes iovs buf).flatten = splice nodes.flatten s buf := by
  induction iovs generalizing s n nodes buf with
  | nil =>
    rw [show n = 0 from h, Nat.le_zero, List.length_eq_zero_iff] at hbuf
    rw [hbuf, splice_nil]
    exact ⟨hnodes, rfl, rfl⟩
  | cons v iovs ih =>
    obtain ⟨hnode, hs, hlen, hle, hrest⟩ := h
    have htake : (buf.take v.len).length = min v.len buf.length := List.length_take
    have hblocks : Blocks k (nodes.modify v.node fun node => put node v.base (buf.take v.len)) := by
      refine hnodes.modify fun node hlength => ?_
      rw [put, length_splice (by omega), hlength]
    have hlength : (nodes.modify v.node fun node => put node v.base (buf.take v.len)).length =
        nodes.length := List.length_modify _ _ _
    have hflatten : (nodes.modify v.node fun node => put node v.base (buf.take v.len)).flatten =
        splice nodes.flatten s (buf.take v.len) := by
      rw [hs]
      exact hnodes.flatten_modify_splice (hcount ▸ hnode) (by omega)
    obtain ⟨hb, hl, hf⟩ := ih hrest hblocks (hlength ▸ hcount) (by omega)
      (buf.drop v.len) (by rw [List.length_drop]; omega)
    refine ⟨hb, hl.trans hlength, hf.trans ?_⟩
    rw [hflatten]
    by_cases hmore : v.len ≤ buf.length
    · -- this piece is filled, and the rest goes on behind it
      have hall : (buf.take v.len).length = v.len := by omega
      have hroom : s + (buf.take v.len).length ≤ nodes.flatten.length := by
        rw [hnodes.length_flatten, ← hcount]
        omega
      nth_rewrite 2 [← hall]
      rw [splice_splice hroom, List.take_append_drop]
    · rw [List.drop_eq_nil_of_le (by omega), splice_nil, List.take_of_length_le (by omega)]

theorem map_addresses (h : Covers k count iovs s n) :
    (iovs.flatMap IoVec.addresses).map (fun a => k * a.1 + a.2) = List.range' s n := by
  induction iovs generalizing s n with
  | nil => rw [show n = 0 from h, List.flatMap_nil, List.map_nil, List.range'_zero]
  | cons v iovs ih =>
    obtain ⟨-, hs, -, hle, hrest⟩ := h
    have hfirst : v.addresses.map (fun a => k * a.1 + a.2) = List.range' s v.len := by
      rw [IoVec.addresses, List.map_map, hs, List.range'_eq_map_range, List.range'_eq_map_range, List.map_map]
      refine List.map_congr_left fun i _ => ?_
      simp only [Function.comp_apply]
      omega
    rw [List.flatMap_cons, List.map_append, hfirst, ih hrest, List.range'_append_1, Nat.add_sub_cancel' hle]

theorem nodup_addresses (h : Covers k count iovs s n) : (iovs.flatMap IoVec.addresses).Nodup := by
  refine List.Nodup.of_map (fun a => k * a.1 + a.2) ?_
  rw [h.map_addresses]
  exact List.nodup_range' _

theorem length_addresses (h : Covers k count iovs s n) : (iovs.flatMap IoVec.addresses).length = n := by
  have hlength := congrArg List.length h.map_addresses
  rwa [List.length_map, List.length_range'] at hlength

end Covers

end

/-! ## Reachable arrays -/

section

variable {b : ByteArray} {iovs : List IoVec} {len v : Nat}

theorem length_fill (nodes : List Node) (iovs : List IoVec) (buf : Bytes) :
    (fill nodes iovs buf).length = nodes.length := by
  induction iovs generalizing nodes buf with
  | nil => rfl
  | cons v iovs ih => rw [fill, ih, List.length_modify]

theorem blocks_fill {k : Nat} {nodes : List Node} (hnodes : Blocks k nodes)
    (hin : ∀ v ∈ iovs, v.Within nodes) (buf : Bytes) : Blocks k (fill nodes iovs buf) := by
  induction iovs generalizing nodes buf with
  | nil => exact hnodes
  | cons v iovs ih =>
    obtain ⟨⟨node, hnode, hlen⟩, hrest⟩ := List.forall_mem_cons.mp hin
    have hk : node.length = k := hnodes _ (List.mem_of_getElem? hnode)
    have htake : (buf.take v.len).length ≤ v.len := List.length_take_le _ _
    have hblocks : Blocks k (nodes.modify v.node fun node => put node v.base (buf.take v.len)) := by
      refine hnodes.modify fun node hlength => ?_
      rw [put, length_splice (by omega), hlength]
    refine ih hblocks (fun w hw => ?_) _
    obtain ⟨old, hold, hwlen⟩ := hrest w hw
    have hlt : w.node < (nodes.modify v.node fun node => put node v.base (buf.take v.len)).length := by
      rw [List.length_modify]
      exact (List.getElem?_eq_some_iff.mp hold).1
    refine ⟨_, List.getElem?_eq_getElem hlt, ?_⟩
    rw [hblocks _ (List.getElem_mem hlt), ← hnodes _ (List.mem_of_getElem? hold)]
    exact hwlen

theorem WellFormed.withNodes {nodes : List Node} (h : WellFormed b) (hnodes : Blocks b.baseSize nodes)
    (hlength : nodes.length = b.nodes.length) : WellFormed { b with nodes := nodes } :=
  { h with
    blocks := hnodes
    root := by
      rw [← List.length_pos_iff, hlength, List.length_pos_iff]
      exact h.root
    capacity := by
      rw [hlength]
      exact h.capacity }

/-- **Every reachable array** is well-formed. -/
theorem Reachable.wellFormed (h : Reachable b) : WellFormed b := by
  induction h with
  | new h fresh => exact new_wellFormed h fresh
  | op h op hdef ih => exact (op.keeps _ ih).wellFormed
  | fill h hin buf ih => exact ih.withNodes (blocks_fill ih.blocks hin buf) (length_fill _ _ _)

/-- An array in which bytes are written, at a position. -/
def written (baseSize : Nat) (buf : Bytes) (v : Nat) : ByteArray :=
  after ((Op.setPosition v).run (after ((Op.write buf).run (new baseSize fun _ _ => 0))))

theorem written_reachable {baseSize : Nat} (h : 0 < baseSize) (buf : Bytes) (v : Nat) :
    Reachable (written baseSize buf v) := by
  have hnew := Reachable.new h fun _ _ => 0
  have hwrite := hnew.op (.write buf) (Op.defined hnew.wellFormed trivial)
  exact hwrite.op (.setPosition v) (Op.defined hwrite.wellFormed trivial)

/-! ## The buffers -/

/-- The `iovec`s point into the blocks, at these bytes. -/
structure Shows (b : ByteArray) (iovs : List IoVec) (bytes : Bytes) : Prop where
  within : ∀ v ∈ iovs, v.Within b.nodes
  gather : gather b.nodes iovs = bytes

theorem covers_of_buffersFrom (h : WellFormed b) (hlen : 0 < len)
    (hok : b.buffersFrom (b.nodeAt (v / b.baseSize)) (v % b.baseSize) len = .ok iovs) :
    Covers b.baseSize b.nodes.length iovs v len := by
  have hfit : v + len ≤ b.capacity := by
    rw [← buffersFrom_defined_iff h hlen, hok]
    intro hundefined
    cases hundefined
  have hlt : v / b.baseSize < b.nodes.length := by
    rw [Nat.div_lt_iff_lt_mul h.base, Nat.mul_comm, ← h.capacity]
    omega
  unfold buffersFrom at hok
  rw [nodeAt, if_pos hlt] at hok
  dsimp only at hok
  split at hok
  · cases hok
  · next iovs' hloop =>
    cases hok
    have hcount : b.nodes.length = v / b.baseSize + (b.nodes.drop (v / b.baseSize)).length := by
      rw [List.length_drop]
      omega
    have hcovers := buffersLoop_covers (h.blocks.drop _) hcount (Nat.mod_lt v h.base) hloop
    rwa [Nat.div_add_mod] at hcovers

theorem Covers.shows (h : WellFormed b) (hcovers : Covers b.baseSize b.nodes.length iovs v len)
    (hfit : v + len ≤ b.size) : Shows b iovs ((b.content.drop v).take len) where
  within := hcovers.within h.blocks rfl
  gather := by
    rw [hcovers.gather_eq h.blocks rfl, content, List.drop_take, List.take_take, Nat.min_eq_left (by omega)]

theorem shows_nil : Shows b [] [] := ⟨fun _ hv => absurd hv List.not_mem_nil, rfl⟩

/-- `getReadBuffers(buffers, len, position)`, as far as what it returns is in front of the size. -/
theorem getReadBuffersAt_shows (h : WellFormed b) (len position : Nat)
    (hfit : 0 < min len b.getReadSize → position + min len b.getReadSize ≤ b.size) :
    ∃ iovs, b.getReadBuffersAt len position = .ok (min len b.getReadSize, iovs) ∧
      Shows b iovs ((b.content.drop position).take (min len b.getReadSize)) := by
  unfold getReadBuffersAt
  by_cases hzero : min len b.getReadSize = 0
  · rw [if_pos hzero, hzero, List.take_zero]
    exact ⟨[], rfl, shows_nil⟩
  · have hlen := Nat.pos_of_ne_zero hzero
    obtain ⟨iovs, hok⟩ :=
      exists_of_buffersFrom ((buffersFrom_defined_iff h hlen).mpr ((hfit hlen).trans h.size))
    rw [if_neg hzero, hok]
    exact ⟨iovs, rfl, (covers_of_buffersFrom h hlen hok).shows h (hfit hlen)⟩

theorem getReadBuffers_eq (h : WellFormed b) (len : Nat) :
    b.getReadBuffers len = b.getReadBuffersAt len b.position := by
  unfold getReadBuffers getReadBuffersAt
  rw [h.cur_eq_nodeAt]

/-- **The buffers to read from** hold what `toString` and `read` give, and nothing changes. -/
theorem readBuffers_hold (hr : Reachable b) (len : Nat) :
    let k := min len b.getReadSize
    ∃ text, b.toString = .ok text ∧
      (∃ iovs, b.getReadBuffers len = .ok (k, iovs) ∧ Shows b iovs (text.take k)) ∧
      (∃ iovs, b.getReadBuffersAt len b.position = .ok (k, iovs) ∧ Shows b iovs (text.take k)) ∧
      (1 ≤ k → ∃ b', read k b = .ok (text.take k) b') ∧
      ∀ op ∈ [Op.getReadBuffers len, Op.getReadBuffersAt len b.position, Op.toString],
        op.run b = .ok () b := by
  intro k
  have h := hr.wellFormed
  have hpos := h.position
  have hfit : b.position + k ≤ b.size := by
    have : k ≤ b.getReadSize := Nat.min_le_right _ _
    unfold getReadSize at this
    omega
  obtain ⟨iovs, hat, hshows⟩ := getReadBuffersAt_shows h len b.position fun _ => hfit
  refine ⟨b.content.drop b.position, toString_eq h, ⟨iovs, ?_, hshows⟩, ⟨iovs, hat, hshows⟩,
    fun hk => ?_, ?_⟩
  · rw [getReadBuffers_eq h, hat]
  · obtain ⟨b', hread, -⟩ := read_eq h hk hfit
    exact ⟨b', hread⟩
  · intro op hop
    simp only [List.mem_cons, List.not_mem_nil, or_false] at hop
    obtain rfl | rfl | rfl := hop
    · simp only [Op.run, observe, getReadBuffers_eq h, hat]
    · simp only [Op.run, observe, hat]
    · simp only [Op.run, observe, toString_eq h]

/-- Three bytes in blocks of two. -/
theorem readBuffers_hold_written : ∃ text, (written 2 (str "abc") 0).toString = .ok text ∧
      ∃ iovs, (written 2 (str "abc") 0).getReadBuffers 3 = .ok (3, iovs) ∧
        Shows (written 2 (str "abc") 0) iovs (text.take 3) := by
  obtain ⟨text, htext, hbuffers, -⟩ := readBuffers_hold (written_reachable Nat.two_pos (str "abc") 0) 3
  exact ⟨text, htext, hbuffers⟩

/-- **Bytes stored through the buffers to write to**, and then `setPosition`, are a `write`. -/
theorem writeBuffers_write (hr : Reachable b) {d : Bytes} {rt : Nat} (hrt : 1 ≤ rt) (hle : rt ≤ d.length) :
    ∃ iovs b₁, getWriteBuffers d.length b = .ok (d.length, iovs) b₁ ∧
      (iovs.flatMap IoVec.addresses).length = d.length ∧ (iovs.flatMap IoVec.addresses).Nodup ∧
      (∀ v ∈ iovs, v.Within b₁.nodes) ∧
      ∃ b₂ b₃, setPosition (b₁.position + rt) { b₁ with nodes := fill b₁.nodes iovs (d.take rt) } =
          .ok () b₂ ∧
        write (d.take rt) b = .ok () b₃ ∧
        b₂.content = b₃.content ∧ b₂.position = b₃.position ∧ b₂.size = b₃.size ∧
        ∀ i, i < b.position ∨ b.position + rt ≤ i → b₂.content[i]? = b.content[i]? := by
  have h := hr.wellFormed
  have hlen : 0 < d.length := by omega
  have htake : (d.take rt).length = rt := List.length_take_of_le hle
  have hext := addCapacity_extended h hlen
  obtain ⟨iovs, hrun, hok⟩ := getWriteBuffers_ok h hlen
  -- `b₁` is the array with room for all of `d`
  generalize b.addCapacity d.length = b₁ at hext hrun hok
  have hw := hext.wellFormed
  have hfits := hext.fits
  rw [← hext.baseSize] at hok
  have hcovers := covers_of_buffersFrom hw hlen hok
  obtain ⟨hblocks, hlength, hflatten⟩ := hcovers.fill_eq hw.blocks rfl (hw.capacity ▸ hfits)
    (d.take rt) (by omega)
  have hfilled := hw.withNodes hblocks hlength
  obtain ⟨b₂, hset, hmoved⟩ := setPosition_eq hfilled (v := b₁.position + rt)
    (show b₁.position + rt ≤ b₁.capacity by rw [hext.position]; omega)
  obtain ⟨b₃, hwrite, hwrote⟩ := write_eq h (d.take rt)
  have hsize : b₂.size = max b.size (b.position + rt) := by
    rw [hmoved.size, hext.position]
    exact congrArg (max · _) hext.size
  -- what was stored through the pieces is what `write` stores
  have hcontent : b₂.content = splice b.content b.position (d.take rt) := by
    have hspliced := hext.take_splice_flatten h (htake.trans_le hle)
    rw [htake] at hspliced
    rw [content, hmoved.nodes, hsize]
    dsimp only
    rw [hflatten, hspliced]
  refine ⟨iovs, b₁, hrun, hcovers.length_addresses, hcovers.nodup_addresses,
    hcovers.within hw.blocks rfl, b₂, b₃, hset, hwrite, ?_, ?_, ?_, fun i hi => ?_⟩
  · rw [hcontent, hwrote.content]
  · rw [hmoved.position, hwrote.position, htake, hext.position]
  · rw [hsize, hwrote.size, htake]
  · rw [hcontent]
    exact getElem?_splice_of_outside (h.length_content ▸ h.position) (htake.symm ▸ hi)

/-- Two of three bytes are stored behind the first byte of a block of two. -/
theorem writeBuffers_write_written : ∃ iovs b₁, getWriteBuffers 3 (written 2 (str "abc") 1) = .ok (3, iovs) b₁ ∧
      ∃ b₂ b₃, setPosition (b₁.position + 2) { b₁ with nodes := fill b₁.nodes iovs (str "xy") } =
          .ok () b₂ ∧
        write (str "xy") (written 2 (str "abc") 1) = .ok () b₃ ∧ b₂.content = b₃.content := by
  obtain ⟨iovs, b₁, hrun, -, -, -, b₂, b₃, hset, hwrite, hcontent, -⟩ := writeBuffers_write
    (written_reachable Nat.two_pos (str "abc") 1) (show 1 ≤ 2 by decide)
    (show 2 ≤ (str "xyz").length by decide)
  exact ⟨iovs, b₁, hrun, b₂, b₃, hset, hwrite, hcontent⟩

end

end Sherry.ByteArray
