import OtaServer.ByteArray.Buffers
import OtaServer.Lib.Run

/-!
# Byte arrays over a socket (`SocketStream::read`, `SocketStream::write` in `sherry/socket_stream.cc`)

One side sends from a byte array, the other receives into one. A call moves as many bytes as the kernel takes or has,
through `iovec`s, and moves the position by that.

* `SocketStream.write`, `SocketStream.read`: the functions, with the result of `send` or `recv`.
* `Transfer`: both arrays and the bytes on the way; `step`: a call on either side.
* `transfer_conserved`: over every run of calls no byte is lost, repeated or moved.
-/

namespace Sherry

open Lib Sherry.ByteArray

/-- `write(ba, length)`, where `send` takes `rt` bytes, none if it fails: the array, and what is sent. -/
def SocketStream.write (length rt : Nat) (b : ByteArray) : Option (ByteArray × Bytes) :=
  match b.getReadBuffers length with
  | .error _ => none
  | .ok (_, iovs) =>
    if rt = 0 then some (b, [])
    else
      match setPosition (b.position + rt) b with
      | .error _ _ => none
      | .ok _ b' => some (b', (gather b.nodes iovs).take rt)

/-- `read(ba, length)`, where `recv` stores these bytes. The capacity is added before. -/
def SocketStream.read (length : Nat) (got : Bytes) (b : ByteArray) : Option ByteArray :=
  match getWriteBuffers length b with
  | .error _ _ => none
  | .ok (_, iovs) b =>
    if got = [] then some b
    else
      match setPosition (b.position + got.length) { b with nodes := fill b.nodes iovs got } with
      | .error _ _ => none
      | .ok _ b' => some b'

/-- The two sides, and the bytes on the way. -/
structure Transfer where
  sender : ByteArray
  wire : Bytes := []
  receiver : ByteArray

/-- A call for `length` bytes, and the bytes that it moves. -/
inductive TransferCall where
  | send (length rt : Nat)
  | recv (length rt : Nat)

namespace Transfer

/-- Before the first call. -/
def start (s r : ByteArray) : Transfer := { sender := s, receiver := r }

/-- `send` takes at most what it is shown, and `recv` gives at most what is there. -/
def Allowed (t : Transfer) : TransferCall → Prop
  | .send length rt => rt ≤ min length t.sender.getReadSize
  | .recv length rt => rt ≤ min length t.wire.length

instance (t : Transfer) : (c : TransferCall) → Decidable (t.Allowed c)
  | .send _ _ | .recv _ _ => inferInstanceAs (Decidable (_ ≤ _))

/-- A call; nothing where its array is not defined. -/
def step (t : Transfer) (c : TransferCall) : Option Transfer :=
  if t.Allowed c then
    match c with
    | .send length rt =>
      (SocketStream.write length rt t.sender).map fun x => { t with sender := x.1, wire := t.wire ++ x.2 }
    | .recv length rt =>
      (SocketStream.read length (t.wire.take rt) t.receiver).map fun b =>
        { t with receiver := b, wire := t.wire.drop rt }
  else none

/-- The bytes of `s` from its position on: some of them are in the receiving array, from the position of `r` on, some
are on the way, and the others are not sent yet. -/
structure Conserved (s r : ByteArray) (t : Transfer) : Prop where
  sender : WellFormed t.sender
  receiver : WellFormed t.receiver
  content : t.sender.content = s.content
  received : ∃ got, t.receiver.content = splice r.content r.position got ∧
    t.receiver.position = r.position + got.length ∧
    got ++ t.wire ++ t.sender.content.drop t.sender.position = s.content.drop s.position

end Transfer

/-! ## The calls -/

variable {b : ByteArray} {length : Nat}

theorem SocketStream.exists_write (h : WellFormed b) {rt : Nat} (hrt : rt ≤ min length b.getReadSize) :
    ∃ b' bytes, SocketStream.write length rt b = some (b', bytes) ∧ WellFormed b' ∧ b'.content = b.content ∧
      bytes ++ b'.content.drop b'.position = b.content.drop b.position := by
  have hread : b.getReadSize = b.size - b.position := rfl
  have hpos := h.position
  obtain ⟨iovs, hbuffers, hshows⟩ := getReadBuffersAt_shows h length b.position fun _ => by omega
  rw [SocketStream.write, getReadBuffers_eq h, hbuffers]
  by_cases hzero : rt = 0
  · exact ⟨b, [], if_pos hzero, h, rfl, rfl⟩
  · obtain ⟨b', hset, hmoved⟩ := setPosition_eq h (v := b.position + rt) (by have := h.size; omega)
    have hcontent : b'.content = b.content := by
      rw [content, content, hmoved.nodes, hmoved.size, Nat.max_eq_left (by omega)]
    refine ⟨b', (gather b.nodes iovs).take rt, ?_, hmoved.wellFormed, hcontent, ?_⟩
    · simp only [if_neg hzero, hset]
    · rw [hshows.gather, List.take_take, Nat.min_eq_left hrt, hcontent, hmoved.position, ← List.drop_drop,
        List.take_append_drop]

theorem SocketStream.exists_read (h : WellFormed b) {got : Bytes} (hgot : got.length ≤ length) :
    ∃ b', SocketStream.read length got b = some b' ∧ WellFormed b' ∧ b'.content = splice b.content b.position got ∧
      b'.position = b.position + got.length := by
  rcases Nat.eq_zero_or_pos length with rfl | hlen
  · obtain rfl : got = [] := List.length_eq_zero_iff.mp (Nat.le_zero.mp hgot)
    exact ⟨b, rfl, h, (splice_nil _ _).symm, rfl⟩
  · have hext := addCapacity_extended h hlen
    obtain ⟨iovs, hrun, hok⟩ := getWriteBuffers_ok h hlen
    generalize b.addCapacity length = b₁ at hext hrun hok
    have hw := hext.wellFormed
    have hfits := hext.fits
    have hspliced := hext.take_splice_flatten h hgot
    rw [SocketStream.read, hrun]
    by_cases hnil : got = []
    · refine ⟨b₁, if_pos hnil, hw, ?_, by rw [hext.position, hnil]; rfl⟩
      rw [hnil, splice_nil, List.length_nil, Nat.add_zero, Nat.max_eq_left h.position] at hspliced
      rw [hnil, ← hspliced, content, hext.size]
    · rw [← hext.baseSize] at hok
      have hcovers := covers_of_buffersFrom hw hlen hok
      obtain ⟨hblocks, hlength, hflatten⟩ := hcovers.fill_eq hw.blocks rfl (hw.capacity ▸ hfits) got hgot
      obtain ⟨b₂, hset, hmoved⟩ := setPosition_eq (hw.withNodes hblocks hlength) (v := b₁.position + got.length)
        (show b₁.position + got.length ≤ b₁.capacity by rw [hext.position]; omega)
      refine ⟨b₂, ?_, hmoved.wellFormed, ?_, by rw [hmoved.position, hext.position]⟩
      · simp only [if_neg hnil, hset]
      · rw [content, hmoved.nodes, hmoved.size]
        dsimp only
        rw [hflatten, hext.position, hext.size, hspliced]

namespace Transfer

variable {s r : ByteArray} {t : Transfer}

/-- A call that is allowed is defined, and keeps all bytes. -/
theorem Conserved.exists_step (h : Conserved s r t) (hr : r.position ≤ r.content.length) {c : TransferCall}
    (hc : t.Allowed c) : ∃ t', t.step c = some t' ∧ Conserved s r t' := by
  obtain ⟨got, hcontent, hposition, hall⟩ := h.received
  cases c with
  | send length rt =>
    obtain ⟨b', bytes, hwrite, hw, hsame, hsent⟩ := SocketStream.exists_write h.sender hc
    refine ⟨{ t with sender := b', wire := t.wire ++ bytes }, ?_, hw, h.receiver, hsame.trans h.content,
      got, hcontent, hposition, ?_⟩
    · rw [step, if_pos hc]
      simp only [hwrite, Option.map_some]
    · rw [← hall, ← hsent]
      simp only [List.append_assoc]
  | recv length rt =>
    have hle : rt ≤ min length t.wire.length := hc
    have htake : (t.wire.take rt).length = rt := List.length_take_of_le (by omega)
    obtain ⟨b', hread, hw, hsplice, hpos⟩ :=
      SocketStream.exists_read h.receiver (show (t.wire.take rt).length ≤ length by omega)
    refine ⟨{ t with receiver := b', wire := t.wire.drop rt }, ?_, h.sender, hw, h.content,
      got ++ t.wire.take rt, ?_, ?_, ?_⟩
    · rw [step, if_pos hc]
      simp only [hread, Option.map_some]
    · rw [hsplice, hcontent, hposition, splice_behind hr]
    · rw [hpos, hposition, List.length_append, Nat.add_assoc]
    · rw [← hall, List.append_assoc got, List.take_append_drop]

/-- **Transfers.** After every sequence of calls, the bytes that were to be sent are those that have arrived, in their
places and in order, those on the way, and those that are still to be sent; and the next call is defined. -/
theorem transfer_conserved (hs : ByteArray.Reachable s) (hr : ByteArray.Reachable r)
    {run : List (TransferCall × Transfer)} (h : Run (fun t c t' => step t c = some t') (start s r) run) :
    let t := lastState (start s r) run
    Conserved s r t ∧ ∀ c, t.Allowed c → (t.step c).isSome := by
  have hpos : r.position ≤ r.content.length := by
    rw [hr.wellFormed.length_content]
    exact hr.wellFormed.position
  have hrun := h.inv_last (I := Conserved s r) (fun t c t' ht hstep => by
    have hc : t.Allowed c := by
      by_contra hc
      simp [step, hc] at hstep
    obtain ⟨t'', hstep', hkept⟩ := ht.exists_step hpos hc
    rwa [Option.some.inj (hstep.symm.trans hstep')])
    ⟨hs.wellFormed, hr.wellFormed, rfl, [], (splice_nil _ _).symm, rfl, rfl⟩
  refine ⟨hrun, fun c hc => ?_⟩
  obtain ⟨t', hstep, -⟩ := hrun.exists_step hpos hc
  rw [hstep]
  rfl

/-- Two bytes are taken, one of them arrives. -/
theorem transfer_conserved_abc :
    ∃ t, Conserved (written 2 (str "abc") 0) (written 2 (str "xyz") 1) t ∧ t.wire = str "b" := by
  obtain ⟨run, hrun, hwire⟩ := exists_run_of_trace? (f := step)
    (s := start (written 2 (str "abc") 0) (written 2 (str "xyz") 1)) [.send 3 2, .recv 5 1]
    (P := fun r => (lastState (start (written 2 (str "abc") 0) (written 2 (str "xyz") 1)) r).wire = str "b")
    (by decide +kernel)
  exact ⟨_, (transfer_conserved (written_reachable Nat.two_pos _ 0) (written_reachable Nat.two_pos _ 1) hrun).1,
    hwire⟩

end Transfer

end Sherry
