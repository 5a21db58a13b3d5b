import OtaServer.ByteArray.Buffers

/-!
# Reads of data that is not complete

A reader that throws leaves the array where it was at that point: a varint is read byte by byte, and a string after
its length.

* `Format.decode`: the number at the start of some bytes. `Format.outcome` says what a reader makes of the bytes
  behind the position.
* `Unchanged`: a read that throws can be repeated. `unchanged_iff` says where.
-/

namespace Sherry.ByteArray

open Lib

/-- The bytes behind the position. -/
def unread (b : ByteArray) : Bytes := b.content.drop b.position

section

variable {α β : Type} {b b' : ByteArray} {n : Nat}

theorem WellFormed.length_unread (h : WellFormed b) : b.unread.length = b.size - b.position := by
  rw [unread, List.length_drop, h.length_content]

theorem Moved.unread_eq (h : Moved b (b.position + n) b') (hn : b.position + n ≤ b.size) :
    b'.unread = b.unread.drop n := by
  rw [unread, unread, h.content_eq hn, h.position, List.drop_drop]

/-! ## Outcomes -/

/-- How a read ends: with a value and behind `n` bytes, or with `std::out_of_range`, behind the bytes it has read
until then. -/
def Outcome (b : ByteArray) (lost : Nat) (r : EStateM.Result Fault ByteArray α) : Option (α × Nat) → Prop
  | some x => b.position + x.2 ≤ b.size ∧ ∃ b', r = .ok x.1 b' ∧ Moved b (b.position + x.2) b'
  | none => b.position + lost ≤ b.size ∧
      ∃ what b', r = .error (.outOfRange what) b' ∧ Moved b (b.position + lost) b'

theorem Outcome.map {r : ByteArrayM α} {d : Option (α × Nat)} {lost : Nat} (h : Outcome b lost (r b) d)
    (f : α → β) : Outcome b lost ((f <$> r) b) (d.map fun x => (f x.1, x.2)) := by
  cases d with
  | none =>
    obtain ⟨hle, what, b', hrun, hmoved⟩ := h
    refine ⟨hle, what, b', ?_, hmoved⟩
    simp only [Functor.map, EStateM.map, hrun]
  | some x =>
    obtain ⟨hle, b', hrun, hmoved⟩ := h
    refine ⟨hle, b', ?_, hmoved⟩
    simp only [Functor.map, EStateM.map, hrun]

/-- A read behind another one that has read `n` bytes. -/
theorem Outcome.after {r : EStateM.Result Fault ByteArray α} {d : Option (α × Nat)} {lost : Nat}
    (hmoved : Moved b (b.position + n) b') (hle : b.position + n ≤ b.size) (h : Outcome b' lost r d) :
    Outcome b (n + lost) r (d.map fun x => (x.1, n + x.2)) := by
  have hsize : b'.size = b.size := by rw [hmoved.size, Nat.max_eq_left hle]
  have hposition := hmoved.position
  cases d with
  | none =>
    obtain ⟨hle', what, b'', hrun, hmoved'⟩ := h
    have hplace : b'.position + lost = b.position + (n + lost) := by omega
    rw [hplace] at hle' hmoved'
    exact ⟨by omega, what, b'', hrun, hmoved.trans hmoved' (by omega)⟩
  | some x =>
    obtain ⟨hle', b'', hrun, hmoved'⟩ := h
    have hplace : b'.position + x.2 = b.position + (n + x.2) := by omega
    rw [hplace] at hle' hmoved'
    have hfar : b.position + n ≤ b.position + (n + x.2) := by omega
    exact ⟨show b.position + (n + x.2) ≤ b.size by omega, b'', hrun, hmoved.trans hmoved' hfar⟩

theorem outcome_read (h : WellFormed b) (hn : 0 < n) :
    Outcome b 0 (read n b) (if n ≤ b.unread.length then some (b.unread.take n, n) else none) := by
  have hpos := h.position
  have hlength := h.length_unread
  split
  · next hle =>
    obtain ⟨b', hrun, hmoved⟩ := read_eq h hn (by omega)
    exact ⟨show b.position + n ≤ b.size by omega, b', hrun, hmoved⟩
  · next hle => exact ⟨hpos, _, b, read_outOfRange (by unfold getReadSize; omega), Moved.self h⟩

end

/-! ## Numbers -/

/-- A number of `n` bytes at the start of some bytes. -/
def decodeFixed (le : Bool) (n : Nat) (bs : Bytes) : Option (BitVec (8 * n) × Nat) :=
  if n ≤ bs.length then
    some (if le then hostValue n (bs.take n) else byteSwap (hostValue n (bs.take n)), n)
  else none

/-- A varint of at most `rounds` bytes at the start of some bytes. -/
def decodeVarint {w : Nat} : Nat → Nat → BitVec w → Bytes → Option (BitVec w × Nat)
  | 0, _, result, _ => some (result, 0)
  | _ + 1, _, _, [] => none
  | rounds + 1, i, result, c :: bs =>
    if c.toBitVec < 0x80#8 then some (result ||| (c.toBitVec.setWidth w <<< i), 1)
    else (decodeVarint rounds (i + 7) (result ||| ((c.toBitVec &&& 0x7F#8).setWidth w <<< i)) bs).map
      fun x => (x.1, 1 + x.2)

namespace Format

/-- The number at the start of some bytes, and how many of them it takes. -/
def decode (le : Bool) : (f : Format) → Bytes → Option (BitVec f.width × Nat)
  | fint8, bs | fuint8, bs => decodeFixed true 1 bs
  | fint16, bs | fuint16, bs => decodeFixed le 2 bs
  | fint32, bs | fuint32, bs | float, bs => decodeFixed le 4 bs
  | fint64, bs | fuint64, bs | double, bs => decodeFixed le 8 bs
  | uint32, bs => decodeVarint 5 0 0#32 bs
  | uint64, bs => decodeVarint 10 0 0#64 bs
  | int32, bs => (decodeVarint 5 0 0#32 bs).map fun x => (decodeZigzag x.1, x.2)
  | int64, bs => (decodeVarint 10 0 0#64 bs).map fun x => (decodeZigzag x.1, x.2)

/-- The number of bytes that are read one by one, at most. -/
def rounds : Format → Nat
  | int32 | uint32 => 5
  | int64 | uint64 => 10
  | _ => 0

/-- How many bytes a reader has read when it throws. -/
def lost (f : Format) (bs : Bytes) : Nat := if f.rounds = 0 then 0 else bs.length

end Format

section

variable {w n : Nat} {b : ByteArray} {bs : Bytes}

theorem outcome_readFixed (h : WellFormed b) (hn : 0 < n) :
    Outcome b 0 (readFixed n b) (decodeFixed b.littleEndian n b.unread) := by
  have hread := outcome_read h hn
  unfold decodeFixed
  split
  · next hle =>
    rw [if_pos hle] at hread
    obtain ⟨hfit, b', hrun, hmoved⟩ := hread
    refine ⟨hfit, b', ?_, hmoved⟩
    rw [readFixed, bind_ok _ hrun, ← hmoved.littleEndian]
    rfl
  · next hle =>
    rw [if_neg hle] at hread
    obtain ⟨hfit, what, b', hrun, hmoved⟩ := hread
    exact ⟨hfit, what, b', bind_error _ hrun, hmoved⟩

theorem outcome_readFuint8 (h : WellFormed b) : Outcome b 0 (readFuint8 b) (decodeFixed true 1 b.unread) := by
  have hread := (outcome_read h Nat.one_pos).map (hostValue 1)
  unfold decodeFixed
  split
  · next hle =>
    rw [if_pos hle] at hread
    exact hread
  · next hle =>
    rw [if_neg hle] at hread
    exact hread

theorem decodeFixed_one_cons (c : UInt8) (bs : Bytes) : decodeFixed true 1 (c :: bs) = some (c.toBitVec, 1) := by
  have hvalue : hostValue 1 [c] = c.toBitVec := by
    apply BitVec.eq_of_toNat_eq
    rw [hostValue, BitVec.toNat_ofNat, leValue, leValue, Nat.mul_zero, Nat.add_zero, UInt8.toNat_toBitVec]
    exact Nat.mod_eq_of_lt c.toNat_lt
  rw [decodeFixed, if_pos (by rw [List.length_cons]; omega), if_pos rfl, List.take_succ_cons, List.take_zero, hvalue]

theorem outcome_readVarintLoop (h : WellFormed b) (rounds i : Nat) (result : BitVec w) :
    Outcome b b.unread.length (readVarintLoop rounds i result b) (decodeVarint rounds i result b.unread) := by
  induction rounds generalizing b i result with
  | zero => exact ⟨h.position, b, rfl, Moved.self h⟩
  | succ rounds ih =>
    have hbyte := outcome_readFuint8 h
    cases hunread : b.unread with
    | nil =>
      rw [hunread] at hbyte
      obtain ⟨hfit, what, b', hrun, hmoved⟩ := hbyte
      exact ⟨hfit, what, b', bind_error _ hrun, hmoved⟩
    | cons c bs =>
      rw [hunread, decodeFixed_one_cons] at hbyte
      obtain ⟨hfit, b', hrun, hmoved⟩ := hbyte
      have hrest : b'.unread = bs := by
        rw [hmoved.unread_eq hfit, hunread]
        rfl
      rw [readVarintLoop, bind_ok _ hrun, decodeVarint]
      dsimp only
      split
      · exact ⟨hfit, b', rfl, hmoved⟩
      · have hnext := (ih hmoved.wellFormed (i + 7)
          (result ||| ((c.toBitVec &&& 0x7F#8).setWidth w <<< i))).after hmoved hfit
        rw [hrest, Nat.add_comm] at hnext
        exact hnext

/-- **A number is read** as it is decoded. -/
theorem Format.outcome (f : Format) (h : WellFormed b) :
    Outcome b (f.lost b.unread) (f.read b) (f.decode b.littleEndian b.unread) := by
  cases f with
  | fint8 | fuint8 => exact outcome_readFuint8 h
  | fint16 | fuint16 => exact outcome_readFixed (n := 2) h (by decide)
  | fint32 | fuint32 | float => exact outcome_readFixed (n := 4) h (by decide)
  | fint64 | fuint64 | double => exact outcome_readFixed (n := 8) h (by decide)
  | uint32 | uint64 => exact outcome_readVarintLoop h _ _ _
  | int32 | int64 => exact (outcome_readVarintLoop h _ _ _).map decodeZigzag

/-- The last byte of a varint is not there. -/
def Cut (rounds : Nat) (bs : Bytes) : Prop := bs.length < rounds ∧ ∀ c ∈ bs, 0x80#8 ≤ c.toBitVec

theorem decodeVarint_eq_none_iff {rounds i : Nat} {result : BitVec w} :
    decodeVarint rounds i result bs = none ↔ Cut rounds bs := by
  induction rounds generalizing i result bs with
  | zero => exact ⟨nofun, fun h => absurd h.1 (Nat.not_lt_zero _)⟩
  | succ rounds ih =>
    cases bs with
    | nil => exact ⟨fun _ => ⟨Nat.succ_pos _, fun _ hc => absurd hc List.not_mem_nil⟩, fun _ => rfl⟩
    | cons c bs =>
      rw [decodeVarint, Cut, List.forall_mem_cons, List.length_cons]
      split
      · next hlast => exact ⟨nofun, fun h => absurd hlast (BitVec.not_lt.mpr h.2.1)⟩
      · next hmore =>
        rw [Option.map_eq_none_iff, ih, Cut]
        exact ⟨fun h => ⟨Nat.succ_lt_succ h.1, BitVec.not_lt.mp hmore, h.2⟩,
          fun h => ⟨Nat.lt_of_succ_lt_succ h.1, h.2.2⟩⟩

theorem decodeFixed_pos {le : Bool} {x : BitVec (8 * n) × Nat} (hn : 0 < n)
    (h : decodeFixed le n bs = some x) : 0 < x.2 := by
  unfold decodeFixed at h
  split at h
  · cases h
    exact hn
  · cases h

theorem decodeVarint_pos {rounds i : Nat} {result : BitVec w} {x : BitVec w × Nat}
    (h : decodeVarint (rounds + 1) i result bs = some x) : 0 < x.2 := by
  cases bs with
  | nil => cases h
  | cons c bs =>
    rw [decodeVarint] at h
    split at h
    · cases h
      exact Nat.one_pos
    · obtain ⟨y, -, rfl⟩ := Option.map_eq_some_iff.mp h
      exact Nat.add_pos_left Nat.one_pos _

namespace Format

theorem decode_pos {le : Bool} {f : Format} {x : BitVec f.width × Nat} (h : f.decode le bs = some x) : 0 < x.2 := by
  cases f with
  | fint8 | fuint8 => exact decodeFixed_pos (n := 1) (by decide) h
  | fint16 | fuint16 => exact decodeFixed_pos (n := 2) (by decide) h
  | fint32 | fuint32 | float => exact decodeFixed_pos (n := 4) (by decide) h
  | fint64 | fuint64 | double => exact decodeFixed_pos (n := 8) (by decide) h
  | uint32 | uint64 => exact decodeVarint_pos h
  | int32 | int64 =>
    obtain ⟨y, hy, rfl⟩ := Option.map_eq_some_iff.mp h
    show 0 < y.2
    exact decodeVarint_pos hy

/-- Bytes are lost if the last byte of a varint is missing, and not its first. -/
theorem lost_iff {le : Bool} {f : Format} :
    (f.decode le bs = none → f.lost bs = 0) ↔ (bs ≠ [] → ¬ Cut f.rounds bs) := by
  have hvarint : ∀ {p : Prop} {rounds : Nat}, (p ↔ Cut rounds bs) →
      ((p → bs.length = 0) ↔ (bs ≠ [] → ¬ Cut rounds bs)) := by
    intro p rounds hp
    rw [hp, List.length_eq_zero_iff]
    exact ⟨fun h hne hcut => hne (h hcut), fun h hcut => by_contra fun hne => h hne hcut⟩
  cases f with
  | int32 | int64 => exact hvarint (Option.map_eq_none_iff.trans decodeVarint_eq_none_iff)
  | uint32 | uint64 => exact hvarint decodeVarint_eq_none_iff
  | _ => exact ⟨fun _ _ hcut => absurd hcut.1 (Nat.not_lt_zero _), fun _ _ => rfl⟩

end Format

end

/-! ## Reads that throw -/

/-- A read with a type. -/
inductive TypedRead where
  | scalar (f : Format)
  | string (f : StringForm)

/-- The read as an operation of the array. -/
def TypedRead.run : TypedRead → ByteArrayM Unit
  | scalar f => Op.run (.readScalar f)
  | string f => Op.run (.readString f)

/-- If the read throws `std::out_of_range`, the array is as it was before. -/
def Unchanged {α : Type} (r : ByteArrayM α) (b : ByteArray) : Prop :=
  ∀ what b', r b = .error (.outOfRange what) b' →
    b'.position = b.position ∧ b'.size = b.size ∧ b'.content = b.content

/-- Where a read is repeatable: a varint has its last byte, or nothing of it is there. The bytes that the length of a
string announces are there if the length is. -/
def RepeatOk (b : ByteArray) : TypedRead → Prop
  | .scalar f => b.unread ≠ [] → ¬ Cut f.rounds b.unread
  | .string f => (b.unread ≠ [] → ¬ Cut f.format.rounds b.unread) ∧
      ∀ x, f.format.decode b.littleEndian b.unread = some x → x.2 + x.1.toNat ≤ b.unread.length

section

variable {α : Type} {b b' : ByteArray} {n : Nat}

theorem unchanged_bind_pure_iff {r : ByteArrayM α} :
    Unchanged (do let _ ← r : ByteArrayM Unit) b ↔ Unchanged r b := by
  refine forall_congr' fun what => forall_congr' fun b' => imp_congr_left ?_
  cases hr : r b with
  | ok a b'' =>
    rw [bind_ok _ hr]
    constructor <;> (intro h; cases h)
  | error e b'' =>
    rw [bind_error _ hr]
    constructor <;> (intro h; cases h; rfl)

theorem unchanged_iff_of_throws {r : ByteArrayM α} {what : String}
    (hrun : r b = .error (.outOfRange what) b') (hmoved : Moved b (b.position + n) b')
    (hle : b.position + n ≤ b.size) : Unchanged r b ↔ n = 0 := by
  constructor
  · intro h
    have hposition := (h what b' hrun).1
    rw [hmoved.position] at hposition
    omega
  · rintro rfl what' b'' hthrow
    rw [hrun] at hthrow
    cases hthrow
    exact ⟨hmoved.position, by rw [hmoved.size, Nat.max_eq_left hle], hmoved.content_eq hle⟩

theorem unchanged_of_ne {r : ByteArrayM α} (h : ∀ what b', r b ≠ .error (.outOfRange what) b') :
    Unchanged r b := fun what b' hthrow => absurd hthrow (h what b')

theorem unchanged_read_iff (f : Format) (h : WellFormed b) :
    Unchanged f.read b ↔ (f.decode b.littleEndian b.unread = none → f.lost b.unread = 0) := by
  have houtcome := f.outcome h
  cases hdecode : f.decode b.littleEndian b.unread with
  | none =>
    rw [hdecode] at houtcome
    obtain ⟨hle, what, b', hrun, hmoved⟩ := houtcome
    rw [unchanged_iff_of_throws hrun hmoved hle]
    exact ⟨fun h _ => h, fun h => h rfl⟩
  | some x =>
    rw [hdecode] at houtcome
    obtain ⟨-, b', hrun, -⟩ := houtcome
    refine ⟨fun _ hnone => ?_, fun _ => unchanged_of_ne fun what b'' hthrow => ?_⟩
    · cases hnone
    · rw [hrun] at hthrow
      cases hthrow

theorem unchanged_readString_iff (f : Format) (h : WellFormed b) :
    Unchanged (readString f) b ↔ (f.decode b.littleEndian b.unread = none → f.lost b.unread = 0) ∧
      ∀ x, f.decode b.littleEndian b.unread = some x → x.2 + x.1.toNat ≤ b.unread.length := by
  have houtcome := f.outcome h
  have hlength := h.length_unread
  cases hdecode : f.decode b.littleEndian b.unread with
  | none =>
    rw [hdecode] at houtcome
    obtain ⟨hle, what, b', hrun, hmoved⟩ := houtcome
    have hthrow : readString f b = .error (.outOfRange what) b' := bind_error _ hrun
    rw [unchanged_iff_of_throws hthrow hmoved hle]
    refine ⟨fun h => ⟨fun _ => h, fun x hx => ?_⟩, fun h => h.1 rfl⟩
    cases hx
  | some x =>
    rw [hdecode] at houtcome
    obtain ⟨hle, b', hrun, hmoved⟩ := houtcome
    have hpos := Format.decode_pos hdecode
    have hsize : b'.size = b.size := by rw [hmoved.size, Nat.max_eq_left hle]
    have hposition := hmoved.position
    have hstring : readString f b = read x.1.toNat b' := bind_ok _ hrun
    by_cases hthere : x.2 + x.1.toNat ≤ b.unread.length
    · refine ⟨fun _ => ⟨fun hnone => ?_, fun y hy => ?_⟩,
        fun _ => unchanged_of_ne fun what b'' hthrow => ?_⟩
      · cases hnone
      · cases hy
        exact hthere
      · -- behind its check, `read` does not throw
        rw [hstring, read, if_neg (by unfold getReadSize; omega)] at hthrow
        split at hthrow
        · cases hthrow
        · split at hthrow <;> cases hthrow
    · have hthrow := read_outOfRange (show b'.getReadSize < x.1.toNat by unfold getReadSize; omega)
      rw [unchanged_iff_of_throws (hstring.trans hthrow) hmoved hle]
      exact ⟨fun h0 => by omega, fun h => absurd (h.2 x rfl) hthere⟩

/-- **A typed read that throws** leaves the array as it was where `RepeatOk` says so, and only there. -/
theorem unchanged_iff (hr : Reachable b) (t : TypedRead) : Unchanged t.run b ↔ RepeatOk b t := by
  have h := hr.wellFormed
  cases t with
  | scalar f => exact unchanged_bind_pure_iff.trans ((unchanged_read_iff f h).trans Format.lost_iff)
  | string f =>
    refine unchanged_bind_pure_iff.trans ?_
    rw [StringForm.read_eq, unchanged_readString_iff f.format h, Format.lost_iff]
    rfl

/-- One byte of a number of two. -/
theorem unchanged_iff_written : Unchanged (TypedRead.scalar .fuint16).run (written 2 [1] 0) :=
  (unchanged_iff (written_reachable Nat.two_pos [1] 0) (.scalar .fuint16)).mpr fun _ hcut =>
    absurd hcut.1 (Nat.not_lt_zero _)

/-- The first byte of a varint is gone when its second byte is missing, and so is the length of a string that is cut
off. -/
theorem unchanged_fails :
    Reachable (written 4 [0x80] 0) ∧ ¬ Unchanged (TypedRead.scalar .uint32).run (written 4 [0x80] 0) ∧
      Reachable (written 4 [0, 2, 97] 0) ∧ ¬ Unchanged (TypedRead.string .f16).run (written 4 [0, 2, 97] 0) := by
  refine ⟨written_reachable (by decide) _ _, fun h => ?_, written_reachable (by decide) _ _, fun h => ?_⟩
  · exact absurd (h _ _ rfl).1 (by decide)
  · exact absurd (h _ _ rfl).1 (by decide)

end

end Sherry.ByteArray
