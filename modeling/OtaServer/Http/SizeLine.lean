import OtaServer.Http.Chunked
import OtaServer.Lib.RagelRun

/-!
# The size line of a chunk

`content_len` is an `int`, and `strtol` reads as many digits as there are. The machine takes a size line with any
number of digits, and with extensions, which it puts into the headers.

* `SizePhase`: where the machine is behind the digits. `SizePhase.moves`: where it goes from there, and what it does.
* `SizeLine`: a line that the grammar accepts. `execute_line`: what the parser makes of it.
* `sizeTaken_iff`: it finds the size, and `recvResponse` can go on with it, exactly if the size is small enough.
-/

namespace Sherry.Http

open Lib Ragel

/-! ## The machine behind the digits -/

/-- Behind the digits: a semicolon, the name of an extension, an equals sign, a value, or a carriage return. -/
inductive SizePhase where
  | semicolon | name | equals | value | cr
  deriving DecidableEq

namespace SizePhase

/-- The state of the machine in a phase. -/
def state : SizePhase → State ClientAction
  | semicolon => behind sizeState 59
  | name => behind (behind sizeState 59) 97
  | equals => behind (behind (behind sizeState 59) 97) 61
  | value => behind (behind (behind (behind sizeState 59) 97) 61) 97
  | cr => sizeCr

/-- The state behind a byte: in another phase, or at the end of the line. -/
def target : Option SizePhase → State ClientAction
  | none => sizeEnd
  | some ph => ph.state

/-- Where the machine can go, and the actions on the way. -/
def moves : SizePhase → List (Option SizePhase × List ClientAction)
  | semicolon => [(some name, [.startField])]
  | name => [(some name, []), (some equals, [.writeField, .startValue]),
      (some semicolon, [.writeField, .startValue, .writeValue]), (some cr, [.writeField, .startValue, .writeValue]),
      (none, [.writeField, .startValue, .writeValue, .done])]
  | equals => [(some value, [.startValue])]
  | value => [(some value, []), (some semicolon, [.writeValue]), (some cr, [.writeValue]),
    (none, [.writeValue, .done])]
  | cr => [(none, [.done])]

/-- All bytes, in ranges that no class of the grammar for size lines divides. -/
def byteRanges : List (UInt8 × UInt8) :=
  [(0, 9), (10, 10), (11, 12), (13, 13), (14, 32), (33, 33), (34, 34), (35, 39), (40, 41), (42, 43), (44, 44),
    (45, 46), (47, 47), (48, 57), (58, 58), (59, 59), (60, 60), (61, 61), (62, 64), (65, 90), (91, 93), (94, 122),
    (123, 123), (124, 124), (125, 125), (126, 126), (127, 255)]

theorem inRanges_byteRanges : ∀ b, inRanges byteRanges b = true := forall_byte (by decide +kernel)

theorem among_moves (ph : SizePhase) :
    ph.state.among byteRanges (ph.moves.map fun m => (target m.1, m.2)) = true := by
  have hall : [semicolon, name, equals, value, cr].all (fun ph : SizePhase =>
      ph.state.among byteRanges (ph.moves.map fun m => (target m.1, m.2))) = true := by
    decide +kernel
  exact List.all_eq_true.mp hall ph (by cases ph <;> decide)

theorem advance_state {ph : SizePhase} {b : UInt8} {out : State ClientAction × List ClientAction}
    (h : advance ph.state b = some out) : ∃ m ∈ ph.moves, out = (target m.1, m.2) := by
  obtain ⟨m, hm, rfl⟩ := List.mem_map.mp (mem_of_among ph.among_moves (inRanges_byteRanges b) h)
  exact ⟨m, hm, rfl⟩

/-- The line ends with `done`, and only there. -/
theorem done_mem_iff {ph : SizePhase} {m : Option SizePhase × List ClientAction} (h : m ∈ ph.moves) :
    .done ∈ m.2 ↔ m.1 = none := by
  revert m
  cases ph <;> decide

end SizePhase

theorem advance_size_newline : advance sizeState 10 = some (sizeEnd, [.chunkSize, .done]) := by decide +kernel

theorem advance_size_semicolon : advance sizeState 59 = some (SizePhase.semicolon.state, [.chunkSize]) := by
  decide +kernel

/-- The byte behind the digits of a size line. -/
theorem end_of_digits {b : UInt8} (hb : ¬digitValue b < 16) (h : advance sizeState b ≠ none) :
    b = 10 ∨ b = 13 ∨ b = 59 := by
  have hother : sizeState.among [(0, 9), (11, 12), (14, 47), (58, 58), (60, 64), (71, 96), (103, 255)] [] = true := by
    decide +kernel
  have hranges : ∀ b : UInt8, ¬digitValue b < 16 → (b = 10 ∨ b = 13 ∨ b = 59) ∨
      inRanges [(0, 9), (11, 12), (14, 47), (58, 58), (60, 64), (71, 96), (103, 255)] b = true :=
    forall_byte (by decide +kernel)
  obtain hb | hin := hranges b hb
  · exact hb
  · obtain ⟨out, hout⟩ := Option.ne_none_iff_exists'.mp h
    exact absurd (mem_of_among hother hin hout) List.not_mem_nil

/-! ## The parser behind the digits -/

namespace HttpResponseParser

/-- What the bytes behind the digits leave alone. -/
structure SameSize (p p' : HttpResponseParser) : Prop where
  contentLen : p'.contentLen = p.contentLen
  chunksDone : p'.chunksDone = p.chunksDone
  error : p'.error = p.error

theorem SameSize.trans {p₁ p₂ p₃ : HttpResponseParser} (h : p₁.SameSize p₂) (h' : p₂.SameSize p₃) : p₁.SameSize p₃ :=
  ⟨h'.contentLen.trans h.contentLen, h'.chunksDone.trans h.chunksDone, h'.error.trans h.error⟩

/-- The name of an extension is known where its value follows. -/
def Named (p : HttpResponseParser) (memory : Bytes) (ph : SizePhase) : Prop :=
  ph = .equals ∨ ph = .value → p.fieldStart + p.fieldLen ≤ memory.length

variable {memory : Bytes} {fpc : Nat} {p : HttpResponseParser}

theorem substr_isSome {start length : Nat} (h : start + length ≤ memory.length) :
    ∃ v, substr memory start length = some v := ⟨_, if_pos h⟩

theorem act_extension (hmark : p.mark ≤ fpc) (hfpc : fpc ≤ memory.length)
    (hfield : p.fieldStart + p.fieldLen ≤ memory.length) :
    ∃ d, p.act memory fpc .writeValue = some { p with data := d } := by
  have hdist : distance p.mark fpc = fpc - p.mark := if_pos hmark
  obtain ⟨name, hname⟩ := substr_isSome hfield
  have hmarked : p.mark + (fpc - p.mark) ≤ memory.length := by omega
  obtain ⟨value, hvalue⟩ := substr_isSome hmarked
  simp only [act, onResponseHttpField, hdist, hname, hvalue]
  split
  · exact ⟨p.data, rfl⟩
  · exact ⟨_, rfl⟩

theorem actAll_append (as bs : List ClientAction) :
    p.actAll memory fpc (as ++ bs) = (p.actAll memory fpc as).bind fun p' => p'.actAll memory fpc bs :=
  List.foldlM_append

/-- What a byte behind the digits does. -/
structure Moved (p p' : HttpResponseParser) (memory : Bytes) (fpc : Nat) (target : Option SizePhase) : Prop where
  same : p.SameSize p'
  inside : p'.Inside (fpc + 1)
  named : ∀ ph, target = some ph → p'.Named memory ph

theorem named_of_ne {ph : SizePhase} (h₁ : ph ≠ .equals) (h₂ : ph ≠ .value) : p.Named memory ph :=
  fun h => absurd h (not_or.mpr ⟨h₁, h₂⟩)

/-- `done` is the last action of a line. -/
theorem moved_done {p' : HttpResponseParser} {as : List ClientAction} {target : Option SizePhase}
    (has : p.actAll memory fpc as = some p') (h : p.Moved p' memory fpc target) :
    ∃ p'', p.actAll memory fpc (as ++ [.done]) = some p'' ∧ p.Moved p'' memory fpc none := by
  refine ⟨{ p' with bodyStart := fpc + 1 }, ?_, ⟨h.same.contentLen, h.same.chunksDone, h.same.error⟩,
    ⟨h.inside.mark, h.inside.fieldStart, h.inside.fieldLen, Nat.le_refl _⟩, fun ph hph => by cases hph⟩
  rw [actAll_append, has]
  rfl

/-- The name of an extension ends, and its value is empty so far. -/
theorem moved_name (hin : p.Inside (fpc + 1)) (hfpc : fpc < memory.length) (ph : SizePhase) :
    ∃ p', p.actAll memory fpc [.writeField, .startValue] = some p' ∧
      p'.fieldStart + p'.fieldLen ≤ memory.length ∧ p.Moved p' memory fpc (some ph) := by
  have hstart := hin.fieldStart
  have hdist := distance_eq hstart
  have hfield : p.fieldStart + (fpc - p.fieldStart) ≤ memory.length := by omega
  refine ⟨{ p with fieldLen := fpc - p.fieldStart, mark := fpc }, ?_, hfield, ⟨rfl, rfl, rfl⟩,
    ⟨Nat.lt_succ_self fpc, hstart, ?_, hin.bodyStart⟩, fun _ _ _ => hfield⟩
  · simp [actAll, act, hdist]
  · dsimp only
    omega

theorem moved_value (hin : p.Inside (fpc + 1)) (hfpc : fpc < memory.length)
    (hfield : p.fieldStart + p.fieldLen ≤ memory.length) (ph : SizePhase) :
    ∃ p', p.actAll memory fpc [.writeValue] = some p' ∧ p.Moved p' memory fpc (some ph) := by
  obtain ⟨d, hd⟩ := act_extension (Nat.le_of_lt_succ hin.mark) (Nat.le_of_lt hfpc) hfield
  refine ⟨{ p with data := d }, ?_, ⟨rfl, rfl, rfl⟩, ⟨hin.mark, hin.fieldStart, hin.fieldLen, hin.bodyStart⟩,
    fun _ _ _ => hfield⟩
  simp [actAll, hd]

theorem moved_name_value (hin : p.Inside (fpc + 1)) (hfpc : fpc < memory.length) (ph : SizePhase) :
    ∃ p', p.actAll memory fpc [.writeField, .startValue, .writeValue] = some p' ∧
      p.Moved p' memory fpc (some ph) := by
  obtain ⟨p₁, h₁, hfield, hmoved₁⟩ := moved_name hin hfpc ph
  obtain ⟨p₂, h₂, hmoved₂⟩ := moved_value hmoved₁.inside hfpc hfield ph
  refine ⟨p₂, ?_, hmoved₁.same.trans hmoved₂.same, hmoved₂.inside, hmoved₂.named⟩
  rw [show [ClientAction.writeField, .startValue, .writeValue] = [.writeField, .startValue] ++ [.writeValue] from rfl,
    actAll_append, h₁, Option.bind_some, h₂]

theorem actAll_moves {ph : SizePhase} (hin : p.Inside (fpc + 1)) (hnamed : p.Named memory ph)
    (hfpc : fpc < memory.length) {m : Option SizePhase × List ClientAction} (hm : m ∈ ph.moves) :
    ∃ p', p.actAll memory fpc m.2 = some p' ∧ p.Moved p' memory fpc m.1 := by
  cases ph with
  | semicolon =>
    obtain rfl := List.mem_singleton.mp hm
    refine ⟨{ p with fieldStart := fpc }, rfl, ⟨rfl, rfl, rfl⟩,
      ⟨hin.mark, Nat.lt_succ_self fpc, hin.fieldLen, hin.bodyStart⟩, ?_⟩
    rintro ph ⟨⟩
    exact named_of_ne (by decide) (by decide)
  | name =>
    simp only [SizePhase.moves, List.mem_cons, List.not_mem_nil, or_false] at hm
    -- more of the name, `=`, `;`, a carriage return, a line feed
    obtain rfl | rfl | rfl | rfl | rfl := hm
    · refine ⟨p, rfl, ⟨rfl, rfl, rfl⟩, hin, ?_⟩
      rintro ph ⟨⟩
      exact named_of_ne (by decide) (by decide)
    · obtain ⟨p', h, -, hmoved⟩ := moved_name hin hfpc .equals
      exact ⟨p', h, hmoved⟩
    · exact moved_name_value hin hfpc .semicolon
    · exact moved_name_value hin hfpc .cr
    · obtain ⟨p', h, hmoved⟩ := moved_name_value hin hfpc .cr
      exact moved_done h hmoved
  | equals =>
    obtain rfl := List.mem_singleton.mp hm
    have hfield := hnamed (.inl rfl)
    exact ⟨{ p with mark := fpc }, rfl, ⟨rfl, rfl, rfl⟩,
      ⟨Nat.lt_succ_self fpc, hin.fieldStart, hin.fieldLen, hin.bodyStart⟩, fun _ _ _ => hfield⟩
  | value =>
    have hfield := hnamed (.inr rfl)
    simp only [SizePhase.moves, List.mem_cons, List.not_mem_nil, or_false] at hm
    obtain rfl | rfl | rfl | rfl := hm
    · exact ⟨p, rfl, ⟨rfl, rfl, rfl⟩, hin, fun _ _ _ => hfield⟩
    · exact moved_value hin hfpc hfield .semicolon
    · exact moved_value hin hfpc hfield .cr
    · obtain ⟨p', h, hmoved⟩ := moved_value hin hfpc hfield .cr
      exact moved_done h hmoved
  | cr =>
    obtain rfl := List.mem_singleton.mp hm
    refine ⟨{ p with bodyStart := fpc + 1 }, rfl, ⟨rfl, rfl, rfl⟩,
      ⟨hin.mark, hin.fieldStart, hin.fieldLen, Nat.le_refl _⟩, ?_⟩
    rintro ph ⟨⟩

theorem exec_phase {ph : SizePhase} {w : Bytes} (hscan : (clientScan ph.state w).isSome)
    (hcs : p.cs = some ph.state) (hin : p.Inside (fpc + 1)) (hnamed : p.Named memory ph)
    (hlen : fpc + w.length ≤ memory.length) (more : Bytes) :
    ∃ p', exec memory fpc (w ++ more) p = some (p', fpc + w.length) ∧ p'.cs = some sizeEnd ∧ p.SameSize p' ∧
      p'.Inside (fpc + w.length) := by
  induction w generalizing ph p fpc with
  | nil => cases hscan
  | cons b w ih =>
    rw [List.length_cons] at hlen
    rw [clientScan] at hscan
    cases hadv : advance ph.state b with
    | none =>
      rw [hadv] at hscan
      cases hscan
    | some out =>
      obtain ⟨m, hm, rfl⟩ := SizePhase.advance_state hadv
      obtain ⟨p₁, hact, hmoved⟩ := actAll_moves hin hnamed (by omega) hm
      rw [hadv] at hscan
      dsimp only at hscan
      rw [List.cons_append, List.length_cons]
      obtain ⟨target, as⟩ := m
      cases target with
      | none =>
        -- the line ends with this byte
        have hdone : ClientAction.done ∈ as := (SizePhase.done_mem_iff hm).mpr rfl
        rw [if_pos hdone] at hscan
        split at hscan
        · rename_i hnil
          subst hnil
          exact ⟨_, exec_done hcs hadv hact hdone rfl, rfl, ⟨hmoved.same.contentLen, hmoved.same.chunksDone,
            hmoved.same.error⟩, ⟨hmoved.inside.mark, hmoved.inside.fieldStart, hmoved.inside.fieldLen,
            hmoved.inside.bodyStart⟩⟩
        · cases hscan
      | some ph' =>
        have hdone : ClientAction.done ∉ as := fun h => Option.some_ne_none ph' ((SizePhase.done_mem_iff hm).mp h)
        rw [if_neg hdone, Option.isSome_map] at hscan
        have hin' := hmoved.inside.mono (Nat.le_succ (fpc + 1))
        obtain ⟨p₂, hexec, hend, hsame, hinside⟩ := ih (p := { p₁ with cs := some ph'.state }) hscan rfl
          ⟨hin'.mark, hin'.fieldStart, hin'.fieldLen, hin'.bodyStart⟩ (hmoved.named ph' rfl) (by omega)
        refine ⟨p₂, ?_, hend, ?_, ?_⟩
        · rw [exec_byte hcs hadv hact hdone rfl, Nat.add_comm w.length 1, ← Nat.add_assoc]
          exact hexec
        · exact ⟨hsame.contentLen.trans hmoved.same.contentLen, hsame.chunksDone.trans hmoved.same.chunksDone,
            hsame.error.trans hmoved.same.error⟩
        · rw [Nat.add_comm w.length 1, ← Nat.add_assoc]
          exact hinside

theorem exec_none {b : UInt8} {bs : Bytes} {s s' : State ClientAction} {as : List ClientAction}
    (hcs : p.cs = some s) (hadv : advance s b = some (s', as)) (hact : p.actAll memory fpc as = none) :
    exec memory fpc (b :: bs) p = none := by
  rw [exec, hcs, Option.bind_some, hadv]
  dsimp only
  rw [hact]

end HttpResponseParser

/-! ## Size lines -/

/-- A line that the grammar for chunks accepts, with digits in front. -/
structure SizeLine where
  bytes : Bytes
  accepted : (clientScan (start ClientGrammar.main) bytes).isSome
  digits_ne : digitsOf 16 bytes ≠ []

namespace SizeLine

/-- The number that the digits stand for. -/
def value (l : SizeLine) : Nat := valueOf 16 (digitsOf 16 l.bytes)

/-- `strtol` of the digits, as an `int`. -/
def contentLen (l : SizeLine) : Int := toInt (min (2 ^ 63 - 1) (l.value : Int))

theorem clientScan_digits {ds rest : Bytes} (h : ∀ b ∈ ds, digitValue b < 16)
    (hscan : (clientScan sizeState (ds ++ rest)).isSome) : (clientScan sizeState rest).isSome := by
  induction ds with
  | nil => exact hscan
  | cons d ds ih =>
    rw [List.cons_append, clientScan, advance_digit d (h d List.mem_cons_self)] at hscan
    dsimp only at hscan
    rw [if_neg List.not_mem_nil, Option.isSome_map] at hscan
    exact ih (fun b hb => h b (List.mem_cons_of_mem d hb)) hscan

/-- A line is digits, a byte that is none, and the rest. -/
theorem exists_parts (l : SizeLine) : ∃ d ds b w, l.bytes = d :: ds ++ b :: w ∧ digitsOf 16 l.bytes = d :: ds ∧
    (∀ c ∈ d :: ds, digitValue c < 16) ∧ (b = 10 ∨ b = 13 ∨ b = 59) ∧ (clientScan sizeState (b :: w)).isSome := by
  obtain ⟨d, ds, hdigits⟩ := List.exists_cons_of_ne_nil l.digits_ne
  have hsplit : l.bytes = d :: ds ++ l.bytes.dropWhile fun b => digitValue b < 16 := by
    rw [← hdigits, digitsOf, List.takeWhile_append_dropWhile]
  have hhex : ∀ c ∈ d :: ds, digitValue c < 16 := by
    intro c hc
    rw [← hdigits] at hc
    exact of_decide_eq_true (List.mem_takeWhile_imp (p := fun b => decide (digitValue b < 16)) hc)
  have hscan := l.accepted
  rw [hsplit, List.cons_append, clientScan, advance_start_digit d (hhex d List.mem_cons_self)] at hscan
  dsimp only at hscan
  rw [if_neg (by decide), Option.isSome_map] at hscan
  have hrest := clientScan_digits (fun b hb => hhex b (List.mem_cons_of_mem d hb)) hscan
  cases hw : l.bytes.dropWhile fun b => digitValue b < 16 with
  | nil =>
    rw [hw] at hrest
    cases hrest
  | cons b w =>
    rw [hw] at hsplit hrest
    have hb : ¬digitValue b < 16 := by
      have hhead := List.head?_dropWhile_not (fun b => decide (digitValue b < 16)) l.bytes
      rw [hw] at hhead
      exact of_decide_eq_false hhead
    refine ⟨d, ds, b, w, hsplit, hdigits, hhex, end_of_digits hb fun hnone => ?_, hrest⟩
    rw [clientScan, hnone] at hrest
    cases hrest

/-- The number that the parser reads off the buffer. -/
theorem strtol_eq (l : SizeLine) (tail : Bytes) : strtol 16 (l.bytes ++ tail) = min (2 ^ 63 - 1) (l.value : Int) := by
  obtain ⟨d, ds, b, w, hbytes, hdigits, hhex, hb, -⟩ := l.exists_parts
  have hterm : ¬digitValue b < 16 ∧ b ≠ 120 ∧ b ≠ 88 := by
    obtain rfl | rfl | rfl := hb <;> decide
  rw [value, hdigits, hbytes, List.append_assoc]
  exact strtol_hex (List.cons_ne_nil d ds) hhex hterm.1 hterm.2 (w ++ tail)

end SizeLine

namespace HttpResponseParser

/-- The parser behind the digits of a line, with its size. -/
def counted (p : HttpResponseParser) (l : SizeLine) : HttpResponseParser :=
  { p.init with
    cs := some sizeState, chunked := true, contentLen := l.contentLen, chunksDone := decide (l.contentLen ≤ 0) }

theorem actAll_line (l : SizeLine) (p : HttpResponseParser) {memory : Bytes}
    (hval : strtol 16 memory = min (2 ^ 63 - 1) (l.value : Int)) (fpc : Nat) :
    ({ p.init with cs := some sizeState } : HttpResponseParser).actAll memory fpc [.chunkSize] =
      if l.contentLen ≤ 0 ∧ p.lastChunk = true then none else some (p.counted l) := by
  refine actAll_size (v := l.contentLen) ?_
  change toInt (strtol 16 (memory.drop 0)) = _
  rw [List.drop_zero, hval, SizeLine.contentLen]

/-- The line ends behind its digits. -/
theorem exec_line_newline (l : SizeLine) (p : HttpResponseParser) {memory : Bytes} {n : Nat}
    (hval : strtol 16 memory = min (2 ^ 63 - 1) (l.value : Int)) (more : Bytes) :
    (l.contentLen ≤ 0 ∧ p.lastChunk = true → exec memory n (10 :: more) { p.init with cs := some sizeState } = none) ∧
    (¬(l.contentLen ≤ 0 ∧ p.lastChunk = true) →
      ∃ p', exec memory n (10 :: more) { p.init with cs := some sizeState } = some (p', n + 1) ∧
        p'.cs = some sizeEnd ∧ (p.counted l).SameSize p' ∧ p'.Inside (n + 1)) := by
  have hact : ({ p.init with cs := some sizeState } : HttpResponseParser).actAll memory n [.chunkSize, .done] =
      if l.contentLen ≤ 0 ∧ p.lastChunk = true then none else some { p.counted l with bodyStart := n + 1 } := by
    rw [show [ClientAction.chunkSize, .done] = [.chunkSize] ++ [.done] from rfl, actAll_append, actAll_line l p hval]
    split <;> rfl
  refine ⟨fun hset => exec_none rfl advance_size_newline (hact.trans (if_pos hset)), fun hnot => ?_⟩
  rw [exec_done rfl advance_size_newline (hact.trans (if_neg hnot)) (by decide) rfl]
  exact ⟨_, rfl, rfl, ⟨rfl, rfl, rfl⟩, ⟨Nat.succ_pos _, Nat.succ_pos _, Nat.zero_le _, Nat.le_refl _⟩⟩

theorem exec_line_phase (l : SizeLine) (p : HttpResponseParser) {memory w : Bytes} {b : UInt8} {n : Nat}
    (ph : SizePhase)
    (hval : strtol 16 memory = min (2 ^ 63 - 1) (l.value : Int))
    (hadv : advance sizeState b = some (ph.state, [.chunkSize])) (hnamed : ph ≠ .equals ∧ ph ≠ .value)
    (hscan : (clientScan sizeState (b :: w)).isSome) (hlen : n + 1 + w.length ≤ memory.length) (more : Bytes) :
    (l.contentLen ≤ 0 ∧ p.lastChunk = true →
      exec memory n (b :: (w ++ more)) { p.init with cs := some sizeState } = none) ∧
    (¬(l.contentLen ≤ 0 ∧ p.lastChunk = true) →
      ∃ p', exec memory n (b :: (w ++ more)) { p.init with cs := some sizeState } = some (p', n + 1 + w.length) ∧
        p'.cs = some sizeEnd ∧ (p.counted l).SameSize p' ∧ p'.Inside (n + 1 + w.length)) := by
  have hact := actAll_line l p hval n
  refine ⟨fun hset => exec_none rfl hadv (hact.trans (if_pos hset)), fun hnot => ?_⟩
  rw [clientScan, hadv] at hscan
  dsimp only at hscan
  rw [if_neg (by decide), Option.isSome_map] at hscan
  have hin : ({ p.counted l with cs := some ph.state } : HttpResponseParser).Inside (n + 1 + 1) :=
    ⟨Nat.succ_pos _, Nat.succ_pos _, Nat.zero_le _, Nat.zero_le _⟩
  obtain ⟨p', hexec, hend, hsame, hinside⟩ := exec_phase hscan rfl hin (named_of_ne hnamed.1 hnamed.2) hlen more
  rw [exec_byte rfl hadv (hact.trans (if_neg hnot)) (by decide) rfl, hexec]
  exact ⟨p', rfl, hend, ⟨hsame.contentLen, hsame.chunksDone, hsame.error⟩, hinside⟩

/-- The run over a line: a size that is not positive ends in a call through `last_chunk`, if that is set. -/
theorem exec_line (l : SizeLine) (p : HttpResponseParser) (more tail : Bytes) :
    (l.contentLen ≤ 0 ∧ p.lastChunk = true → exec (l.bytes ++ tail) 0 (l.bytes ++ more) p.init = none) ∧
    (¬(l.contentLen ≤ 0 ∧ p.lastChunk = true) → ∃ p', exec (l.bytes ++ tail) 0 (l.bytes ++ more) p.init =
      some (p', l.bytes.length) ∧ p'.cs = some sizeEnd ∧ (p.counted l).SameSize p' ∧ p'.Inside l.bytes.length) := by
  obtain ⟨d, ds, b, w, hbytes, -, hhex, hb, hscan⟩ := l.exists_parts
  have hval := l.strtol_eq tail
  have hlen : l.bytes.length = ds.length + 1 + 1 + w.length := by
    rw [hbytes, List.length_append, List.length_cons, List.length_cons]
    omega
  have hmem : ds.length + 1 + 1 + w.length ≤ (l.bytes ++ tail).length := by
    rw [List.length_append, hlen]
    exact Nat.le_add_right _ _
  generalize l.bytes ++ tail = memory at hval hmem
  have hdigits : exec memory 0 (l.bytes ++ more) p.init =
      exec memory (ds.length + 1) (b :: (w ++ more)) { p.init with cs := some sizeState } := by
    rw [hbytes, List.cons_append, List.cons_append, List.append_assoc, List.cons_append, exec_digits hhex]
  rw [hdigits, hlen]
  obtain rfl | rfl | rfl := hb
  · -- the newline ends the line
    rw [clientScan, advance_size_newline] at hscan
    dsimp only at hscan
    rw [if_pos (by decide)] at hscan
    obtain rfl : w = [] := by
      by_contra hw
      rw [if_neg hw] at hscan
      cases hscan
    exact exec_line_newline l p hval more
  · exact exec_line_phase l p .cr hval advance_size_cr ⟨by decide, by decide⟩ hscan hmem more
  · exact exec_line_phase l p .semicolon hval advance_size_semicolon ⟨by decide, by decide⟩ hscan hmem more

theorem execute_line (l : SizeLine) (p : HttpResponseParser) {more : Bytes} (behind : Bytes)
    (hlen : (l.bytes ++ more).length < 2 ^ 31) :
    (l.contentLen ≤ 0 ∧ p.lastChunk = true → p.init.execute ⟨l.bytes ++ more, 0 :: behind⟩ = none) ∧
    (¬(l.contentLen ≤ 0 ∧ p.lastChunk = true) → ∃ p' b', p.init.execute ⟨l.bytes ++ more, 0 :: behind⟩ =
      some (p', b') ∧ p'.cs = some sizeEnd ∧ (p.counted l).SameSize p') := by
  obtain ⟨hset, hnot⟩ := exec_line l p more (more ++ 0 :: behind)
  rw [← List.append_assoc] at hset hnot
  constructor
  · intro h
    rw [execute, if_neg (by simp only [List.head?_cons, ne_eq, not_true_eq_false, false_or]; omega)]
    simp only [Buffer.memory, hset h, Option.bind_eq_bind, Option.bind_none]
  · intro h
    obtain ⟨p', hexec, hend, hsame, hin⟩ := hnot h
    have hle : l.bytes.length ≤ (l.bytes ++ more).length := by
      rw [List.length_append]
      exact Nat.le_add_right _ _
    have hin' := hin.mono hle
    refine ⟨_, _, execute_eq hlen hexec ?_, hend, ⟨hsame.contentLen, hsame.chunksDone, hsame.error⟩⟩
    refine ⟨?_, hin'.bodyStart, hin'.mark, hin'.fieldLen, hin'.fieldStart⟩
    exact Nat.le_trans (Nat.le_of_eq (Nat.zero_add _)) hle

end HttpResponseParser

/-! ## What `recvResponse` makes of the size -/

theorem length_readLeft {e : ConnectionEnv} {fuel left : Nat} {memory memory' got : Bytes} {ps ps' : Pieces}
    (h : readLeft e fuel left memory ps = some (got, memory', ps')) : got.length = left := by
  induction fuel generalizing left memory memory' ps ps' got with
  | zero =>
    cases left with
    | zero => cases h; rfl
    | succ left => cases h
  | succ fuel ih =>
    cases left with
    | zero => cases h; rfl
    | succ left =>
      have hlen := length_read_le (min (left + 1) e.bufferSize) ps
      rw [readLeft] at h
      generalize Http.read (min (left + 1) e.bufferSize) ps = r at hlen h
      obtain ⟨first, ps₁⟩ := r
      dsimp only at hlen h
      split at h
      · cases h
      · obtain ⟨⟨got', memory₁, ps₂⟩, hrec, heq⟩ := Option.map_eq_some_iff.mp h
        obtain ⟨rfl, -⟩ := Prod.mk.inj heq
        have hgot := ih hrec
        rw [List.length_append]
        dsimp only
        omega

/-- No length is negative or more than an `int` exactly if the size is one, with the line break behind the data. -/
theorem recvData_not_failed {p : HttpResponseParser} {n : Nat} (hlen : p.contentLen = n) (b : Buffer) :
    (∀ e body ps, recvData e p b body ps ≠ .error .failed) ↔ n + 2 < 2 ^ 31 := by
  constructor
  · intro h
    by_contra hge
    refine h ⟨0, by decide, [], false, fun _ => none, id, id⟩ [] [] ?_
    rw [recvData, hlen, if_pos (by omega)]
  · intro hlt e body ps
    rw [recvData, hlen, if_neg (by omega)]
    split
    · rw [if_neg (by omega)]
      intro hf
      cases hf
    · rename_i hmore
      dsimp only
      split
      · intro hf
        cases hf
      · rename_i got memory ps' hread
        have hgot := length_readLeft hread
        rw [if_neg (by rw [List.length_append, List.length_append]; omega)]
        intro hf
        cases hf

/-- The parser reports an error; or `content_len` is the size, `chunks_done` tells a size of 0, and no length that
`recvResponse` derives from `content_len` is negative or more than an `int` (a call that fails). -/
def SizeTaken (l : SizeLine) (p : HttpResponseParser) (more behind : Bytes) : Prop :=
  ∃ p' b, p.init.execute ⟨l.bytes ++ more, 0 :: behind⟩ = some (p', b) ∧
    (p'.hasError = true ∨ p'.contentLen = l.value ∧ (p'.chunksDone = true ↔ l.value = 0) ∧
      ∀ e body ps, recvData e p' b body ps ≠ .error .failed)

theorem SizeLine.contentLen_eq {l : SizeLine} (h : l.value < 2 ^ 31) : l.contentLen = l.value := by
  have hmin : min (2 ^ 63 - 1) (l.value : Int) = l.value := by omega
  rw [contentLen, hmin, toInt_of_lt h]

/-- **Size lines.** The parser finds the size and `recvResponse` can go on with it exactly if the buffer is one that
the parser takes, `last_chunk` is not called, and the size is small enough. -/
theorem sizeTaken_iff (l : SizeLine) (p : HttpResponseParser) (more behind : Bytes) :
    SizeTaken l p more behind ↔ (l.bytes ++ more).length < 2 ^ 31 ∧ ¬(l.contentLen ≤ 0 ∧ p.lastChunk = true) ∧
      (p.error ≠ 0 ∨ l.value + 2 < 2 ^ 31) := by
  constructor
  · rintro ⟨p', b, hexec, htaken⟩
    have hlen : (l.bytes ++ more).length < 2 ^ 31 := by
      by_contra hge
      rw [HttpResponseParser.execute, if_pos (.inr (Nat.le_of_not_lt hge))] at hexec
      cases hexec
    obtain ⟨hset, hnot⟩ := HttpResponseParser.execute_line l p behind hlen
    -- `last_chunk` would be called through the null pointer
    have hnull : ¬(l.contentLen ≤ 0 ∧ p.lastChunk = true) := by
      intro h
      rw [hset h] at hexec
      cases hexec
    obtain ⟨p'', b', hexec', hend, hsame⟩ := hnot hnull
    obtain ⟨rfl, rfl⟩ := Prod.mk.inj (Option.some.inj (hexec'.symm.trans hexec))
    refine ⟨hlen, hnull, ?_⟩
    obtain herr | ⟨hval, -, hdata⟩ := htaken
    · have herror : p''.error = p.error := hsame.error
      rw [HttpResponseParser.hasError, hend, herror] at herr
      exact .inl (by simpa using herr)
    · exact .inr ((recvData_not_failed hval b').mp hdata)
  · rintro ⟨hlen, hnull, hcond⟩
    obtain ⟨p', b, hexec, hend, hsame⟩ := (HttpResponseParser.execute_line l p behind hlen).2 hnull
    refine ⟨p', b, hexec, ?_⟩
    obtain herr | hlt := hcond
    · have herr' : p'.error ≠ 0 := by
        rw [hsame.error]
        exact herr
      exact .inl (by rw [HttpResponseParser.hasError]; simp [herr'])
    · have hval : p'.contentLen = l.value := hsame.contentLen.trans (SizeLine.contentLen_eq (by omega))
      refine .inr ⟨hval, ?_, (recvData_not_failed hval b).mpr hlt⟩
      have hdone : p'.chunksDone = decide (p'.contentLen ≤ 0) := by
        rw [hsame.chunksDone, hsame.contentLen]
        rfl
      rw [hdone, hval, decide_eq_true_iff]
      omega

/-- The size 2^32. -/
def wrappedLine : SizeLine where
  bytes := str "100000000\r\n"
  accepted := by decide +kernel
  digits_ne := by decide +kernel

/-- A chunk of 2^32 bytes is taken for the last one. -/
theorem sizeTaken_fails : wrappedLine.value = 2 ^ 32 ∧ ¬SizeTaken wrappedLine (.new false) [] [] ∧
      ((HttpResponseParser.new false).init.execute ⟨wrappedLine.bytes, [0]⟩).map
        (fun x => (x.1.hasError, x.1.contentLen, x.1.chunksDone)) = some (false, 0, true) := by
  have hvalue : wrappedLine.value = 2 ^ 32 := by decide +kernel
  have hrun : ((HttpResponseParser.new false).init.execute ⟨wrappedLine.bytes, [0]⟩).map
      (fun x => (x.1.hasError, x.1.contentLen, x.1.chunksDone)) = some (false, 0, true) := by decide +kernel
  refine ⟨hvalue, ?_, hrun⟩
  rintro ⟨p', b, hexec, htaken⟩
  rw [List.append_nil] at hexec
  rw [hexec] at hrun
  obtain ⟨herr, hrun⟩ := Prod.mk.inj (Option.some.inj hrun)
  obtain ⟨hlen, -⟩ := Prod.mk.inj hrun
  obtain herr' | ⟨hval, -⟩ := htaken
  · rw [herr'] at herr
    cases herr
  · rw [hlen, hvalue] at hval
    exact absurd hval (by decide)

end Sherry.Http
