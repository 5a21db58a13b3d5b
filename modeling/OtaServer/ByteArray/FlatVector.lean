import Mathlib.Data.List.Forall2
import OtaServer.ByteArray.Layout

/-!
# A byte array is a flat vector of bytes

`FlatVector` is what a byte array is for: a vector of bytes that grows, with one cursor. A byte that was never written
is not specified.

* `FlatVector.call`, `ByteArray.call`: one call of an operation.
* `Simulates`: the bytes and the cursor are the same. `Simulates.call` is one call.
* `byteArray_simulates`: the answers to any calls, and that they depend on the size of the blocks by the bound of
  `setPosition` only.
-/

namespace Sherry

open Lib

/-- A call of an operation. At least one byte is read. -/
inductive Call where
  | write (buf : Bytes)
  | read (n : Nat) (pos : 0 < n)
  | setPosition (v : Nat)
  | clear | getSize | getPosition | getReadSize | toString

/-- What a call gives, for bytes in `β`. -/
inductive Answer (β : Type) where
  | done
  | number (n : Nat)
  | bytes (bs : List β)
  | fault (f : Fault)

/-! ## The flat vector -/

/-- A vector of bytes with a cursor, and the number of blocks that bounds the cursor. -/
structure FlatVector where
  data : List (Option UInt8)
  position : Nat
  blocks : Nat
  position_le : position ≤ data.length

namespace FlatVector

/-- No bytes, with the cursor at 0. -/
def empty : FlatVector := ⟨[], 0, 1, Nat.le_refl 0⟩

theorem position_le_splice (f : FlatVector) (buf : Bytes) :
    f.position + buf.length ≤ (splice f.data f.position (buf.map some)).length := by
  have := f.position_le
  simp only [splice, List.length_append, List.length_take, List.length_map, List.length_drop]
  omega

/-- Bytes at the cursor. -/
def write (f : FlatVector) (baseSize : Nat) (buf : Bytes) : FlatVector where
  data := splice f.data f.position (buf.map some)
  position := f.position + buf.length
  blocks := if buf = [] then f.blocks
    else max f.blocks ((f.position + buf.length + baseSize - 1) / baseSize)
  position_le := f.position_le_splice buf

/-- The cursor behind bytes that are read. -/
def skip (f : FlatVector) (n : Nat) (h : f.position + n ≤ f.data.length) : FlatVector :=
  { f with position := f.position + n, position_le := h }

/-- The cursor anywhere, and bytes up to it. -/
def seek (f : FlatVector) (v : Nat) : FlatVector where
  data := f.data ++ List.replicate (v - f.data.length) none
  position := v
  blocks := f.blocks
  position_le := by
    rw [List.length_append, List.length_replicate]
    omega

/-- One call. -/
def call (baseSize : Nat) (f : FlatVector) : Call → Answer (Option UInt8) × FlatVector
  | .write buf => (.done, f.write baseSize buf)
  | .read n _ =>
    if h : f.position + n ≤ f.data.length then (.bytes ((f.data.drop f.position).take n), f.skip n h)
    else (.fault (.outOfRange "not enough len"), f)
  | .setPosition v =>
    if v ≤ baseSize * f.blocks then (.done, f.seek v)
    else (.fault (.outOfRange "set_position out of range"), f)
  | .clear => (.done, empty)
  | .getSize => (.number f.data.length, f)
  | .getPosition => (.number f.position, f)
  | .getReadSize => (.number (f.data.length - f.position), f)
  | .toString => (.bytes (f.data.drop f.position), f)

/-- The answers to some calls. -/
def answers (baseSize : Nat) : FlatVector → List Call → List (Answer (Option UInt8))
  | _, [] => []
  | f, c :: cs => (f.call baseSize c).1 :: answers baseSize (f.call baseSize c).2 cs

end FlatVector

/-! ## The byte array -/

namespace ByteArray

/-- The answer and the array after an operation. -/
def answer {α : Type} (r : EStateM.Result Fault ByteArray α) (f : α → Answer UInt8) : Answer UInt8 × ByteArray :=
  match r with
  | .ok a b => (f a, b)
  | .error e b => (.fault e, b)

/-- One call. -/
def call (b : ByteArray) : Call → Answer UInt8 × ByteArray
  | .write buf => answer (write buf b) fun _ => .done
  | .read n _ => answer (read n b) .bytes
  | .setPosition v => answer (setPosition v b) fun _ => .done
  | .clear => (.done, b.clear)
  | .getSize => (.number b.size, b)
  | .getPosition => (.number b.position, b)
  | .getReadSize => (.number b.getReadSize, b)
  | .toString =>
    match b.toString with
    | .ok bytes => (.bytes bytes, b)
    | .error e => (.fault e, b)

/-- The answers to some calls. -/
def answers : ByteArray → List Call → List (Answer UInt8)
  | _, [] => []
  | b, c :: cs => (b.call c).1 :: answers (b.call c).2 cs

end ByteArray

/-! ## Simulation -/

/-- A byte of the array is the byte of the vector, if that is specified. -/
def Specified (x : UInt8) (y : Option UInt8) : Prop := ∀ z, y = some z → x = z

/-- The same answers, apart from bytes that are not specified. -/
inductive Answer.Agrees : Answer UInt8 → Answer (Option UInt8) → Prop where
  | done : Agrees .done .done
  | number (n : Nat) : Agrees (.number n) (.number n)
  | bytes {bs : Bytes} {cs : List (Option UInt8)} (h : List.Forall₂ Specified bs cs) :
    Agrees (.bytes bs) (.bytes cs)
  | fault (f : Fault) : Agrees (.fault f) (.fault f)

/-- The array and the vector hold the same bytes and have the same cursor. -/
structure Simulates (b : ByteArray) (f : FlatVector) : Prop where
  wellFormed : b.WellFormed
  position : b.position = f.position
  blocks : b.nodes.length = f.blocks
  content : List.Forall₂ Specified b.content f.data

theorem specified_some (buf : Bytes) : List.Forall₂ Specified buf (buf.map some) := by
  rw [List.forall₂_map_right_iff]
  exact List.forall₂_same.mpr fun x _ z hz => Option.some.inj hz

theorem forall₂_splice {α β : Type} {R : α → β → Prop} {l xs : List α} {l' ys : List β}
    (hl : List.Forall₂ R l l') (hxs : List.Forall₂ R xs ys) (n : Nat) :
    List.Forall₂ R (splice l n xs) (splice l' n ys) := by
  rw [splice, splice, hxs.length_eq]
  exact List.rel_append (List.rel_append (List.forall₂_take n hl) hxs) (List.forall₂_drop _ hl)

namespace Simulates

variable {b b' : ByteArray} {f : FlatVector} {baseSize : Nat}

theorem length_data (h : Simulates b f) : f.data.length = b.size := by
  rw [← h.content.length_eq, h.wellFormed.length_content]

theorem write (h : Simulates b f) (hbase : b.baseSize = baseSize) {buf : Bytes}
    (hwrote : ByteArray.Wrote b buf b') : Simulates b' (f.write baseSize buf) where
  wellFormed := hwrote.wellFormed
  position := by rw [hwrote.position, h.position, FlatVector.write]
  blocks := by rw [hwrote.nodes, h.blocks, h.position, hbase, FlatVector.write]
  content := by
    rw [hwrote.content, h.position]
    exact forall₂_splice h.content (specified_some buf) _

theorem skip (h : Simulates b f) {n : Nat} (hn : f.position + n ≤ f.data.length)
    (hmoved : ByteArray.Moved b (b.position + n) b') : Simulates b' (f.skip n hn) where
  wellFormed := hmoved.wellFormed
  position := by rw [hmoved.position, h.position, FlatVector.skip]
  blocks := by rw [hmoved.nodes, h.blocks, FlatVector.skip]
  content := by
    rw [hmoved.content_eq (by rw [← h.length_data, h.position]; exact hn)]
    exact h.content

theorem seek (h : Simulates b f) {v : Nat} (hmoved : ByteArray.Moved b v b') : Simulates b' (f.seek v) where
  wellFormed := hmoved.wellFormed
  position := hmoved.position
  blocks := by rw [hmoved.nodes, h.blocks, FlatVector.seek]
  content := by
    have hsize := h.wellFormed.size
    have hlen := hmoved.wellFormed.length_content
    have hsplit : b'.content = b.content ++ b'.content.drop b.size := by
      have hfront : b'.content.take b.size = b.content := by
        rw [ByteArray.content, ByteArray.content, hmoved.nodes, hmoved.size, List.take_take,
          Nat.min_eq_left (Nat.le_max_left _ _)]
      rw [← hfront, List.take_append_drop]
    have hrest : List.Forall₂ Specified (b'.content.drop b.size)
        (List.replicate (v - f.data.length) none) := by
      refine List.forall₂_iff_get.mpr ⟨?_, fun i hi hi' z hz => ?_⟩
      · rw [List.length_drop, hlen, hmoved.size, List.length_replicate, h.length_data]
        omega
      · rw [List.get_eq_getElem, List.getElem_replicate] at hz
        cases hz
    rw [hsplit]
    exact List.rel_append h.content hrest

/-- **One call.** -/
theorem call (h : Simulates b f) (hbase : b.baseSize = baseSize) (c : Call) :
    Answer.Agrees (b.call c).1 (f.call baseSize c).1 ∧
      Simulates (b.call c).2 (f.call baseSize c).2 ∧ (b.call c).2.baseSize = baseSize := by
  have hlen := h.length_data
  have hpos := h.position
  have hle := h.wellFormed.position
  -- cursor and length of the vector are position and size of the array
  cases c with
  | write buf =>
    obtain ⟨b', hrun, hwrote⟩ := ByteArray.write_eq h.wellFormed buf
    simp only [ByteArray.call, hrun, ByteArray.answer, FlatVector.call]
    exact ⟨.done, h.write hbase hwrote, hwrote.baseSize.trans hbase⟩
  | read n hn =>
    simp only [ByteArray.call, FlatVector.call]
    by_cases hfit : f.position + n ≤ f.data.length
    · obtain ⟨b', hrun, hmoved⟩ := ByteArray.read_eq h.wellFormed hn
        (show b.position + n ≤ b.size by omega)
      rw [hrun, dif_pos hfit]
      refine ⟨.bytes ?_, h.skip hfit hmoved, hmoved.baseSize.trans hbase⟩
      rw [hpos]
      exact List.forall₂_take n (List.forall₂_drop f.position h.content)
    · have hshort : b.getReadSize < n := by
        unfold ByteArray.getReadSize
        omega
      rw [ByteArray.read_outOfRange hshort, dif_neg hfit]
      exact ⟨.fault _, h, hbase⟩
  | setPosition v =>
    simp only [ByteArray.call, FlatVector.call]
    have hcap : baseSize * f.blocks = b.capacity := by
      rw [h.wellFormed.capacity, hbase, h.blocks]
    rw [hcap]
    by_cases hv : v ≤ b.capacity
    · obtain ⟨b', hrun, hmoved⟩ := ByteArray.setPosition_eq h.wellFormed hv
      rw [hrun, if_pos hv]
      exact ⟨.done, h.seek hmoved, hmoved.baseSize.trans hbase⟩
    · rw [ByteArray.setPosition_outOfRange (Nat.lt_of_not_le hv), if_neg hv]
      exact ⟨.fault _, h, hbase⟩
  | clear =>
    refine ⟨.done, ⟨ByteArray.clear_wellFormed h.wellFormed, rfl, ?_, ?_⟩, hbase⟩
    · have := List.length_pos_of_ne_nil h.wellFormed.root
      simp only [ByteArray.call, ByteArray.clear, List.length_take, FlatVector.call, FlatVector.empty]
      omega
    · simp only [ByteArray.call, ByteArray.clear_content]
      exact .nil
  | getSize =>
    simp only [ByteArray.call, FlatVector.call, hlen]
    exact ⟨.number _, h, hbase⟩
  | getPosition =>
    simp only [ByteArray.call, FlatVector.call, hpos]
    exact ⟨.number _, h, hbase⟩
  | getReadSize =>
    simp only [ByteArray.call, FlatVector.call, ByteArray.getReadSize, hlen, hpos]
    exact ⟨.number _, h, hbase⟩
  | toString =>
    simp only [ByteArray.call, ByteArray.toString_eq h.wellFormed, FlatVector.call, hpos]
    exact ⟨.bytes (List.forall₂_drop _ h.content), h, hbase⟩

theorem answers (h : Simulates b f) (hbase : b.baseSize = baseSize) (cs : List Call) :
    List.Forall₂ Answer.Agrees (b.answers cs) (f.answers baseSize cs) := by
  induction cs generalizing b f with
  | nil => exact .nil
  | cons c cs ih =>
    obtain ⟨hagrees, hnext, hbase'⟩ := h.call hbase c
    exact .cons hagrees (ih hnext hbase')

end Simulates

theorem simulates_new {baseSize : Nat} (h : 0 < baseSize) (fresh : Nat → Nat → UInt8) :
    Simulates (ByteArray.new baseSize fresh) FlatVector.empty where
  wellFormed := ByteArray.new_wellFormed h fresh
  position := rfl
  blocks := rfl
  content := by
    rw [ByteArray.content, ByteArray.new, List.take_zero]
    exact .nil

/-! ## The size of the blocks -/

/-- The answers to the calls of `setPosition`. -/
def seeks {β : Type} : List Call → List (Answer β) → List (Answer β)
  | .setPosition _ :: cs, a :: as => a :: seeks cs as
  | _ :: cs, _ :: as => seeks cs as
  | _, _ => []

namespace FlatVector

/-- The same bytes and the same cursor. -/
def Same (f g : FlatVector) : Prop := f.data = g.data ∧ f.position = g.position

variable {f g : FlatVector} {m n : Nat}

/-- A call does not see the size of the blocks, but for the bound of the cursor. -/
theorem Same.call (h : Same f g) {c : Call}
    (hseek : ∀ v, c = .setPosition v → (v ≤ m * f.blocks ↔ v ≤ n * g.blocks)) :
    (f.call m c).1 = (g.call n c).1 ∧ Same (f.call m c).2 (g.call n c).2 := by
  obtain ⟨hdata, hpos⟩ := h
  cases c with
  | read k hk =>
    by_cases hfit : f.position + k ≤ f.data.length
    · have hfit' : g.position + k ≤ g.data.length := by rw [← hdata, ← hpos]; exact hfit
      simp only [FlatVector.call, dif_pos hfit, dif_pos hfit']
      exact ⟨by rw [hdata, hpos], hdata, congrArg (· + k) hpos⟩
    · have hfit' : ¬ g.position + k ≤ g.data.length := by rw [← hdata, ← hpos]; exact hfit
      simp only [FlatVector.call, dif_neg hfit, dif_neg hfit']
      exact ⟨trivial, hdata, hpos⟩
  | setPosition v =>
    by_cases hv : v ≤ m * f.blocks
    · simp only [FlatVector.call, if_pos hv, if_pos ((hseek v rfl).mp hv)]
      refine ⟨trivial, ?_, rfl⟩
      show f.data ++ List.replicate (v - f.data.length) none = _
      rw [hdata]
      rfl
    · simp only [FlatVector.call, if_neg hv, if_neg fun h => hv ((hseek v rfl).mpr h)]
      exact ⟨trivial, hdata, hpos⟩
  | write buf =>
    exact ⟨rfl, by simp only [FlatVector.call, write, hdata, hpos], by simp only [FlatVector.call, write, hpos]⟩
  | clear => exact ⟨rfl, rfl, rfl⟩
  | getSize | getPosition | getReadSize | toString =>
    simp only [FlatVector.call, hdata, hpos]
    exact ⟨trivial, hdata, hpos⟩

/-- Two cursors that are set with the same answer are both in the range, or none is. -/
theorem le_iff_of_call_eq {v : Nat} (h : (f.call m (.setPosition v)).1 = (g.call n (.setPosition v)).1) :
    v ≤ m * f.blocks ↔ v ≤ n * g.blocks := by
  simp only [call] at h
  by_cases hm : v ≤ m * f.blocks <;> by_cases hn : v ≤ n * g.blocks
  · exact ⟨fun _ => hn, fun _ => hm⟩
  · rw [if_pos hm, if_neg hn] at h
    cases h
  · rw [if_neg hm, if_pos hn] at h
    cases h
  · exact ⟨fun h => absurd h hm, fun h => absurd h hn⟩

theorem Same.answers (h : Same f g) {cs : List Call}
    (hseeks : seeks cs (f.answers m cs) = seeks cs (g.answers n cs)) : f.answers m cs = g.answers n cs := by
  induction cs generalizing f g with
  | nil => rfl
  | cons c cs ih =>
    have hstep : (∀ v, c = .setPosition v → (v ≤ m * f.blocks ↔ v ≤ n * g.blocks)) ∧
        seeks cs ((f.call m c).2.answers m cs) = seeks cs ((g.call n c).2.answers n cs) := by
      cases c with
      | setPosition v =>
        obtain ⟨hhead, htail⟩ := List.cons.inj hseeks
        refine ⟨fun w hw => ?_, htail⟩
        cases hw
        exact le_iff_of_call_eq hhead
      | _ => exact ⟨nofun, hseeks⟩
    obtain ⟨hanswer, hnext⟩ := h.call hstep.1
    rw [FlatVector.answers, FlatVector.answers, hanswer, ih hnext hstep.2]

end FlatVector

/-- **A flat vector**: a byte array gives the answers of the vector to any calls, and blocks of another
size that let `setPosition` through in the same places give the same answers. -/
theorem byteArray_simulates {baseSize : Nat} (h : 0 < baseSize) (fresh : Nat → Nat → UInt8) (cs : List Call) :
    List.Forall₂ Answer.Agrees ((ByteArray.new baseSize fresh).answers cs) (FlatVector.empty.answers baseSize cs) ∧
      ∀ other, seeks cs (FlatVector.empty.answers baseSize cs) = seeks cs (FlatVector.empty.answers other cs) →
        FlatVector.empty.answers baseSize cs = FlatVector.empty.answers other cs :=
  ⟨(simulates_new h fresh).answers rfl cs, fun _ hseeks => FlatVector.Same.answers ⟨rfl, rfl⟩ hseeks⟩

/-- Four bytes in blocks of three, the cursor behind the capacity, and the last byte. -/
theorem byteArray_simulates_three :
    List.Forall₂ Answer.Agrees
      ((ByteArray.new 3 fun _ _ => 0).answers
        [.write [1, 2, 3, 4], .setPosition 7, .setPosition 3, .read 1 (by decide), .getReadSize])
      [.done, .fault (.outOfRange "set_position out of range"), .done, .bytes [some 4], .number 0] :=
  (byteArray_simulates (by decide) (fun _ _ => 0)
    [.write [1, 2, 3, 4], .setPosition 7, .setPosition 3, .read 1 (by decide), .getReadSize]).1

end Sherry
