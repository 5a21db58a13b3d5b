import OtaServer.Http.Connection
import OtaServer.Http.ResponseHead

/-!
# Chunked responses

When `recvResponse` puts the chunks of a response together. Every call of the parser on a size line starts anew, so
that a size line has to be in the buffer as a whole when it is parsed: of a line in two reads only the second part
counts. In the head nothing starts anew, but `nread` adds up, so that a head in two reads is lost as well.

* `Chunk`, `wire`: the chunks of a body and how they are sent; `ChunkedHead`: the head before them.
* `LinesWhole`: each size line is in the buffer as a whole when it is parsed. The reads that fill the buffer are
  followed one by one.
* `recvChunks_eq`: then the loop over the chunks makes up their data.
* `recvResponse_chunked`: then the body of the response is the data of the chunks.
-/

namespace Sherry.Http

open Lib Ragel

/-! ## Chunks -/

/-- A chunk: its size in hexadecimal, and its data. -/
structure Chunk where
  size : Bytes
  data : Bytes
  size_ne : size ≠ []
  size_hex : ∀ b ∈ size, digitValue b < 16
  size_eq : valueOf 16 size = data.length

namespace Chunk

/-- The size line. -/
def line (c : Chunk) : Bytes := c.size ++ str "\r\n"

/-- The chunk as it is sent. -/
def bytes (c : Chunk) : Bytes := c.line ++ (c.data ++ str "\r\n")

theorem line_pos (c : Chunk) : 0 < c.line.length := by
  simp [line, str]

/-- The chunk of size 0 at the end. -/
def last : Chunk where
  size := str "0"
  data := []
  size_ne := by decide
  size_hex := by decide +kernel
  size_eq := by decide

end Chunk

/-- The wire form of a body: its chunks, and the last chunk. -/
def wire (cs : List Chunk) : Bytes := (cs ++ [Chunk.last]).flatMap Chunk.bytes

/-- The data of the chunks. -/
def payload (cs : List Chunk) : Bytes := cs.flatMap (·.data)

/-! ## The machine over a size line -/

/-- The state behind a byte. -/
def behind (s : State ClientAction) (b : UInt8) : State ClientAction :=
  ((advance s b).map (·.1)).getD []

/-- Inside the digits of a size line. -/
def sizeState : State ClientAction := behind (start ClientGrammar.main) 48

/-- Behind the carriage return of a size line. -/
def sizeCr : State ClientAction := behind sizeState 13

/-- Behind a size line. -/
def sizeEnd : State ClientAction := behind sizeCr 10

theorem advance_start_digit :
    ∀ b, digitValue b < 16 → advance (start ClientGrammar.main) b = some (sizeState, [.mark]) :=
  forall_byte (by decide +kernel)

theorem advance_digit : ∀ b, digitValue b < 16 → advance sizeState b = some (sizeState, []) :=
  forall_byte (by decide +kernel)

theorem advance_size_cr : advance sizeState 13 = some (sizeCr, [.chunkSize]) := by decide +kernel

theorem advance_size_lf : advance sizeCr 10 = some (sizeEnd, [.done]) := by decide +kernel

theorem sizeEnd_finished : (sizeEnd.final && !sizeEnd.live) = true := by decide +kernel

namespace HttpResponseParser

variable {p : HttpResponseParser}

/-- `chunk_size`: the size as an `int`. A size that is not positive is passed to `last_chunk`, if that is set. -/
theorem actAll_size {memory : Bytes} {fpc : Nat} {v : Int}
    (hval : toInt (strtol 16 (memory.drop p.mark)) = v) :
    p.actAll memory fpc [.chunkSize] = if v ≤ 0 ∧ p.lastChunk = true then none else some { p with
      chunked := true, contentLen := v, chunksDone := decide (v ≤ 0) } := by
  subst hval
  simp only [actAll, List.foldlM_cons, List.foldlM_nil, act]
  split <;> rfl

theorem exec_digits {memory ds rest : Bytes} {d : UInt8} (hhex : ∀ b ∈ d :: ds, digitValue b < 16)
    (p : HttpResponseParser) : exec memory 0 (d :: (ds ++ rest)) p.init =
      exec memory (ds.length + 1) rest { p.init with cs := some sizeState } := by
  have hfirst : exec memory 0 (d :: (ds ++ rest)) p.init =
      exec memory 1 (ds ++ rest) { p.init with cs := some sizeState } :=
    exec_byte rfl (advance_start_digit d (hhex d List.mem_cons_self)) rfl (by simp) rfl
  rw [hfirst, exec_loop (fun b hb => advance_digit b (hhex b (List.mem_cons_of_mem d hb))) rfl, Nat.add_comm 1]

/-- The parser behind the size line of a chunk. -/
def sized (p : HttpResponseParser) (c : Chunk) : HttpResponseParser :=
  { p.init with
    cs := some sizeEnd, chunked := true, contentLen := c.data.length,
    chunksDone := decide ((c.data.length : Int) ≤ 0), bodyStart := c.line.length,
    nread := c.line.length }

theorem exec_sizeLine (c : Chunk) (hlt : c.data.length < 2 ^ 31) (hlast : p.lastChunk = false) (more tail : Bytes) :
    exec (c.line ++ tail) 0 (c.line ++ more) p.init = some ({ p.sized c with nread := 0 }, c.line.length) := by
  obtain ⟨d, ds, hds⟩ := List.exists_cons_of_ne_nil c.size_ne
  have hhex := c.size_hex
  have hline : ∀ rest, c.line ++ rest = d :: (ds ++ (13 :: 10 :: rest)) := by
    intro rest
    rw [Chunk.line, hds]
    simp [str]
  -- `strtol` stops at the carriage return
  have hval : toInt (strtol 16 ((c.line ++ tail).drop 0)) = c.data.length := by
    have hmem : (c.line ++ tail).drop 0 = c.size ++ 13 :: 10 :: tail := by
      rw [hline, hds]
      rfl
    have hmin : min (2 ^ 63 - 1) (c.data.length : Int) = c.data.length := by omega
    rw [hmem, strtol_hex c.size_ne hhex (by decide) (by decide), c.size_eq, hmin, toInt_of_lt hlt]
  have hlen : c.line.length = ds.length + 3 := by
    rw [Chunk.line, hds]
    simp [str]
  rw [hds] at hhex
  generalize c.line ++ tail = memory at hval
  have hact : ({ p.init with cs := some sizeState } : HttpResponseParser).actAll memory (ds.length + 1) [.chunkSize] =
      some { p.init with
        cs := some sizeState, chunked := true, contentLen := c.data.length,
        chunksDone := decide ((c.data.length : Int) ≤ 0) } :=
    (actAll_size (p := { p.init with cs := some sizeState }) hval).trans
      (if_neg fun h => Bool.false_ne_true (hlast.symm.trans h.2))
  have hcr : exec memory (ds.length + 1) (13 :: 10 :: more) { p.init with cs := some sizeState } =
      exec memory (ds.length + 1 + 1) (10 :: more) { p.init with
        cs := some sizeCr, chunked := true, contentLen := c.data.length,
        chunksDone := decide ((c.data.length : Int) ≤ 0) } :=
    exec_byte rfl advance_size_cr hact (by simp) rfl
  rw [hline, exec_digits hhex, hcr, hlen]
  refine exec_done rfl advance_size_lf rfl (by simp) ?_
  rw [sized, hlen]
  simp only [init]

/-- **A size line.** If it is in the buffer as a whole, the parser finds the size and is finished. -/
theorem execute_sizeLine (c : Chunk) (hlt : c.data.length < 2 ^ 31)
    (hlast : p.lastChunk = false) {more behind : Bytes} (hlen : (c.line ++ more).length < 2 ^ 31) :
    p.init.execute ⟨c.line ++ more, 0 :: behind⟩ =
      some (p.sized c, Buffer.shift ⟨c.line ++ more, 0 :: behind⟩ c.line.length) := by
  have hexec := exec_sizeLine c hlt hlast more (more ++ 0 :: behind)
  have hpos := c.line_pos
  rw [← List.append_assoc] at hexec
  rw [execute_eq hlen hexec ?_]
  · simp [init, sized]
  · simp only [Checked, sized, init, List.length_append]
    omega

theorem sized_hasError (h : p.error = 0) (c : Chunk) : (p.sized c).hasError = false := by
  simp [hasError, sized, init, h]

theorem sized_isFinished (p : HttpResponseParser) (c : Chunk) : (p.sized c).isFinished = true :=
  sizeEnd_finished

end HttpResponseParser

/-! ## The reads of the loop -/

/-- The bytes in the buffer and the pieces left when a size line is parsed: an empty buffer is filled by one read. -/
def fill (bufferSize : Nat) : Nat × Pieces → Nat × Pieces
  | (0, ps) => ((read bufferSize ps).1.length, (read bufferSize ps).2)
  | s => s

/-- The same behind `n` bytes. The bytes of a chunk that are not in the buffer are read one for one, and then the
buffer is empty. -/
def skip (n : Nat) : Nat × Pieces → Nat × Pieces
  | (k, ps) => if n ≤ k then (k - n, ps) else (0, dropBytes (n - k) ps)

/-- Each size line of the chunks is in the buffer as a whole when it is parsed. -/
def LinesWhole (bufferSize : Nat) : List Chunk → Nat × Pieces → Prop
  | [], _ => True
  | c :: cs, s => c.line.length ≤ (fill bufferSize s).1 ∧
      LinesWhole bufferSize cs (skip c.bytes.length (fill bufferSize s))

instance decidableLinesWhole (bufferSize : Nat) :
    ∀ cs s, Decidable (LinesWhole bufferSize cs s)
  | [], _ => .isTrue trivial
  | c :: cs, s =>
    have := decidableLinesWhole bufferSize cs (skip c.bytes.length (fill bufferSize s))
    inferInstanceAs (Decidable (_ ∧ _))

/-- The pieces of a stream that still has to be read, of which `text` is in the buffer. -/
structure Stream (text : Bytes) (ps : Pieces) (rest : Bytes) : Prop where
  nonEmpty : NonEmpty ps
  eq : text ++ ps.flatten = rest

theorem length_read_le (n : Nat) (ps : Pieces) : (read n ps).1.length ≤ n := by
  cases ps with
  | nil => exact Nat.zero_le n
  | cons p ps =>
    rw [length_read]
    exact Nat.min_le_left n _

variable {e : ConnectionEnv} {b : Buffer} {p : HttpResponseParser} {rest : Bytes} {ps : Pieces}

theorem refill_eq (h : Stream b.text ps rest) (hle : b.text.length ≤ e.bufferSize)
    (hpos : 0 < (fill e.bufferSize (b.text.length, ps)).1) :
    ∃ b' ps', refill e true b ps = some (b', ps') ∧ Stream b'.text ps' rest ∧ b'.text.length ≤ e.bufferSize ∧
      fill e.bufferSize (b.text.length, ps) = (b'.text.length, ps') := by
  obtain ⟨text, behind⟩ := b
  cases text with
  | cons x text => exact ⟨⟨x :: text, behind⟩, ps, rfl, h, hle, rfl⟩
  | nil =>
    have happ := read_append e.bufferSize ps
    have hsnd := read_snd (n := e.bufferSize) h.nonEmpty
    have hlen := length_read_le e.bufferSize ps
    have hgot : (Http.read e.bufferSize ps).1 ≠ [] := List.length_pos_iff.mp hpos
    refine ⟨Buffer.append ⟨[], behind⟩ (Http.read e.bufferSize ps).1, (Http.read e.bufferSize ps).2,
      if_neg hgot, ⟨?_, ?_⟩, hlen, rfl⟩
    · rw [hsnd]
      exact h.nonEmpty.dropBytes _
    · rw [← h.eq, ← happ]
      rfl

theorem readLeft_eq (hpos : 0 < e.bufferSize) {fuel left : Nat} {memory : Bytes} (hne : NonEmpty ps)
    (hfuel : left ≤ fuel) (hleft : left ≤ ps.flatten.length) :
    ∃ memory', readLeft e fuel left memory ps = some (ps.flatten.take left, memory', dropBytes left ps) := by
  induction fuel generalizing left memory ps with
  | zero =>
    obtain rfl : left = 0 := by omega
    exact ⟨memory, by rw [readLeft, List.take_zero, dropBytes_zero hne]⟩
  | succ fuel ih =>
    cases left with
    | zero => exact ⟨memory, by rw [readLeft, List.take_zero, dropBytes_zero hne]⟩
    | succ left =>
      cases ps with
      | nil => simp at hleft
      | cons p ps =>
        have hp : p ≠ [] := hne p List.mem_cons_self
        have hgot : (Http.read (min (left + 1) e.bufferSize) (p :: ps)).1 ≠ [] :=
          read_ne_nil (by omega) hp
        have happ := read_append (min (left + 1) e.bufferSize) (p :: ps)
        have hlen := length_read (min (left + 1) e.bufferSize) p ps
        have hsnd := read_snd (n := min (left + 1) e.bufferSize) hne
        rw [readLeft]
        generalize Http.read (min (left + 1) e.bufferSize) (p :: ps) = r at *
        obtain ⟨got, ps₁⟩ := r
        dsimp only at *
        subst hsnd
        have hgotPos := List.length_pos_iff.mpr hgot
        have hle : got.length ≤ left + 1 := by omega
        rw [← happ, List.length_append] at hleft
        -- what is left, behind what this round has got
        have hrec : ∃ memory', readLeft e fuel (left + 1 - got.length)
            (got ++ memory.drop got.length) (dropBytes got.length (p :: ps)) = some
              ((dropBytes got.length (p :: ps)).flatten.take (left + 1 - got.length), memory',
                dropBytes (left + 1 - got.length) (dropBytes got.length (p :: ps))) :=
          ih (hne.dropBytes got.length) (by omega) (by omega)
        obtain ⟨memory', hrec⟩ := hrec
        refine ⟨memory', ?_⟩
        rw [if_neg hgot, hrec, dropBytes_add, Nat.add_sub_cancel' hle, ← happ, List.take_append,
          List.take_of_length_le hle]
        rfl

/-! ## The loop over the chunks -/

theorem recvSizeLine_eq (fuel : Nat) {c : Chunk} (hlt : c.data.length < 2 ^ 31) (herr : p.error = 0)
    (hlast : p.lastChunk = false) (h : Stream b.text ps (c.line ++ rest)) (hle : b.text.length ≤ e.bufferSize)
    (hline : c.line.length ≤ (fill e.bufferSize (b.text.length, ps)).1) :
    ∃ b' ps', recvSizeLine e (fuel + 1) true p b ps = .ok (p.sized c, b', ps') ∧
      Stream b'.text ps' rest ∧ c.line.length + b'.text.length ≤ e.bufferSize ∧
      fill e.bufferSize (b.text.length, ps) = (c.line.length + b'.text.length, ps') := by
  have hpos := c.line_pos
  obtain ⟨b₁, ps₁, hrefill, hstream, hle₁, hfill⟩ := refill_eq h hle (by omega)
  rw [hfill] at hline
  -- the buffer has the line as a whole
  obtain ⟨more, hmore⟩ := List.prefix_of_prefix_length_le (List.prefix_append c.line rest)
    (hstream.eq ▸ List.prefix_append b₁.text ps₁.flatten) hline
  obtain ⟨text, behind⟩ := b₁
  dsimp only at *
  subst hmore
  have hsize := e.bufferSize_lt
  have hexec : p.init.execute ⟨c.line ++ more, 0 :: behind.drop 1⟩ = some (p.sized c,
      Buffer.shift ⟨c.line ++ more, 0 :: behind.drop 1⟩ c.line.length) :=
    HttpResponseParser.execute_sizeLine c hlt hlast (by omega)
  rw [List.length_append] at hle₁ hfill
  refine ⟨Buffer.shift ⟨c.line ++ more, 0 :: behind.drop 1⟩ c.line.length, ps₁, ?_, ⟨hstream.nonEmpty, ?_⟩, ?_, ?_⟩
  · rw [recvSizeLine, hrefill]
    dsimp only [Buffer.terminate]
    rw [hexec]
    dsimp only
    rw [HttpResponseParser.sized_hasError herr, if_neg (by simp), if_neg ?_,
      if_pos (HttpResponseParser.sized_isFinished p c)]
    simp only [Buffer.shift, List.drop_left]
    omega
  · have := hstream.eq
    rw [List.append_assoc] at this
    rw [Buffer.shift, List.drop_left]
    exact List.append_cancel_left this
  · simpa [Buffer.shift] using hle₁
  · simpa [Buffer.shift] using hfill

theorem recvData_eq (body : Bytes) {data : Bytes} (hpos : 0 < e.bufferSize) (hlen : p.contentLen = data.length)
    (hlt : data.length < 2 ^ 31 - 2) (h : Stream b.text ps ((data ++ str "\r\n") ++ rest)) :
    ∃ b' ps', recvData e p b body ps = .ok (body ++ data, b', ps') ∧ Stream b'.text ps' rest ∧
      b'.text.length ≤ b.text.length ∧ skip (data.length + 2) (b.text.length, ps) = (b'.text.length, ps') := by
  have hcr : (data ++ str "\r\n").length = data.length + 2 := by simp [str]
  rw [recvData, hlen, if_neg (by omega)]
  by_cases hfit : data.length + 2 ≤ b.text.length
  · -- the data is in the buffer
    rw [if_pos (by omega), if_neg (by omega), Int.toNat_natCast]
    obtain ⟨more, hmore⟩ := List.prefix_of_prefix_length_le (List.prefix_append _ rest)
      (h.eq ▸ List.prefix_append b.text ps.flatten) (hcr ▸ hfit)
    have htake : b.text.take data.length = data := by
      rw [← hmore, List.append_assoc, List.take_left]
    have hdrop : b.text.drop (data.length + 2) = more := by
      rw [← hmore, List.drop_left' hcr]
    refine ⟨b.shift (data.length + 2), ps, by rw [htake], ⟨h.nonEmpty, ?_⟩, ?_, ?_⟩
    · have heq := h.eq
      rw [← hmore, List.append_assoc] at heq
      rw [Buffer.shift, hdrop]
      exact List.append_cancel_left heq
    · simp [Buffer.shift]
    · rw [skip, if_pos hfit, Buffer.shift, List.length_drop]
  · -- the data goes on in the pieces
    have hlenStream := congrArg List.length h.eq
    rw [List.length_append, List.length_append, hcr] at hlenStream
    have hleft : ((data.length : Int) - b.text.length + 2).toNat = data.length + 2 - b.text.length := by
      omega
    have hread : ∃ memory, readLeft e (data.length + 2 - b.text.length)
        (data.length + 2 - b.text.length) b.memory ps = some
          (ps.flatten.take (data.length + 2 - b.text.length), memory,
            dropBytes (data.length + 2 - b.text.length) ps) :=
      readLeft_eq hpos h.nonEmpty (Nat.le_refl _) (by omega)
    obtain ⟨memory, hread⟩ := hread
    have hgot : b.text ++ ps.flatten.take (data.length + 2 - b.text.length) = data ++ str "\r\n" := by
      have htake := congrArg (List.take (data.length + 2)) h.eq
      rwa [List.take_append, List.take_of_length_le (by omega), List.take_left' hcr] at htake
    have hlenBody : (body ++ data ++ str "\r\n").length = (body ++ data).length + 2 := by
      rw [List.length_append]
      rfl
    have hbody : body ++ b.text ++ ps.flatten.take (data.length + 2 - b.text.length) =
        body ++ data ++ str "\r\n" := by
      rw [List.append_assoc, hgot, List.append_assoc]
    rw [if_neg (by omega)]
    dsimp only
    rw [hleft, hread]
    dsimp only
    rw [hbody, if_neg (by omega)]
    refine ⟨⟨[], memory⟩, dropBytes (data.length + 2 - b.text.length) ps, ?_,
      ⟨h.nonEmpty.dropBytes _, ?_⟩, Nat.zero_le _, ?_⟩
    · rw [hlenBody, Nat.add_sub_cancel, List.take_left]
    · rw [flatten_dropBytes, List.nil_append]
      have hdrop := congrArg (List.drop (data.length + 2)) h.eq
      rwa [List.drop_append, List.drop_eq_nil_of_le (by omega), List.nil_append,
        List.drop_left' hcr] at hdrop
    · rw [skip, if_neg hfit]
      rfl

theorem skip_line {n k m : Nat} : skip (n + m) (n + k, ps) = skip m (k, ps) := by
  simp only [skip]
  by_cases h : m ≤ k
  · rw [if_pos h, if_pos (by omega), Nat.add_sub_add_left]
  · rw [if_neg h, if_neg (by omega), Nat.add_sub_add_left]

/-- What the chunks ask of the code: sizes that are an `int` together with the line break. -/
def SizesFit (cs : List Chunk) : Prop := ∀ c ∈ cs, c.data.length < 2 ^ 31 - 2

/-- **One round.** The data of a chunk is appended to the body. -/
theorem recvChunks_succ (fuel : Nat) (body : Bytes) {c : Chunk} (hlt : c.data.length < 2 ^ 31 - 2)
    (herr : p.error = 0) (hlast : p.lastChunk = false) (h : Stream b.text ps (c.bytes ++ rest))
    (hle : b.text.length ≤ e.bufferSize)
    (hline : c.line.length ≤ (fill e.bufferSize (b.text.length, ps)).1) :
    ∃ b' ps', recvChunks e (fuel + 1) p b body ps =
        (if c.data = [] then .ok (p.sized c, body ++ c.data, ps')
          else recvChunks e fuel (p.sized c) b' (body ++ c.data) ps') ∧
      Stream b'.text ps' rest ∧ b'.text.length ≤ e.bufferSize ∧
      skip c.bytes.length (fill e.bufferSize (b.text.length, ps)) = (b'.text.length, ps') := by
  rw [Chunk.bytes, List.append_assoc] at h
  obtain ⟨b₁, ps₁, hsize, hstream₁, hle₁, hfill⟩ :=
    recvSizeLine_eq (ps.flatten.length + 1) (by omega) herr hlast h hle hline
  have hpos := c.line_pos
  have hbuffer : 0 < e.bufferSize := by omega
  obtain ⟨b₂, ps₂, hdata, hstream₂, hle₂, hskip⟩ :=
    recvData_eq body (p := p.sized c) hbuffer rfl hlt hstream₁
  refine ⟨b₂, ps₂, ?_, hstream₂, by omega, ?_⟩
  · have hdone : (p.sized c).chunksDone = true ↔ c.data = [] := by
      simp only [HttpResponseParser.sized, decide_eq_true_eq]
      rw [← List.length_eq_zero_iff]
      omega
    rw [recvChunks, hsize]
    simp only [bind, Except.bind, hdata, hdone]
    rfl
  · have hlen : c.bytes.length = c.line.length + (c.data.length + 2) := by
      simp [Chunk.bytes, str]
    rw [hfill, hlen, skip_line, hskip]

/-- **The loop over the chunks.** If each size line is in the buffer as a whole when it is parsed, the
data of the chunks is appended to the body. -/
theorem recvChunks_eq (fuel : Nat) (body : Bytes) {cs : List Chunk}
    (hne : ∀ c ∈ cs, c.data ≠ []) (hfit : SizesFit cs) (hfuel : cs.length < fuel) (herr : p.error = 0)
    (hlast : p.lastChunk = false) (h : Stream b.text ps (wire cs)) (hle : b.text.length ≤ e.bufferSize)
    (hlines : LinesWhole e.bufferSize (cs ++ [.last]) (b.text.length, ps)) :
    ∃ p' ps', recvChunks e fuel p b body ps = .ok (p', body ++ payload cs, ps') ∧ p'.data = p.data := by
  induction cs generalizing p b ps body fuel with
  | nil =>
    obtain ⟨fuel, rfl⟩ : ∃ k, fuel = k + 1 := ⟨fuel - 1, by omega⟩
    have h' : Stream b.text ps (Chunk.last.bytes ++ []) := h
    obtain ⟨b', ps', heq, -⟩ := recvChunks_succ fuel body (by decide) herr hlast h' hle hlines.1
    exact ⟨p.sized .last, ps', heq, rfl⟩
  | cons c cs ih =>
    obtain ⟨fuel, rfl⟩ : ∃ k, fuel = k + 1 := ⟨fuel - 1, by omega⟩
    have h' : Stream b.text ps (c.bytes ++ wire cs) := h
    obtain ⟨b', ps', heq, hstream, hle', hskip⟩ :=
      recvChunks_succ fuel body (hfit c List.mem_cons_self) herr hlast h' hle hlines.1
    have hlines' := hlines.2
    rw [hskip] at hlines'
    have hrec : ∃ p' ps'', recvChunks e fuel (p.sized c) b' (body ++ c.data) ps' =
        .ok (p', (body ++ c.data) ++ payload cs, ps'') ∧ p'.data = (p.sized c).data :=
      ih fuel (body ++ c.data) (fun d hd => hne d (List.mem_cons_of_mem c hd))
        (fun d hd => hfit d (List.mem_cons_of_mem c hd)) (Nat.lt_of_succ_lt_succ hfuel) herr hlast
        hstream hle' hlines'
    obtain ⟨p', ps'', hrec, hdata⟩ := hrec
    refine ⟨p', ps'', ?_, hdata⟩
    rw [heq, if_neg (hne c List.mem_cons_self), hrec, List.append_assoc]
    rfl

/-! ## The head -/

/-- A complete response head with the header `Transfer-Encoding: chunked`, as the grammar reads it. -/
structure ChunkedHead where
  text : Bytes
  acts : List ClientAction
  accepted : clientScan (start ClientGrammar.main) text = some acts
  chunked : .transChunked ∈ acts

namespace ChunkedHead

/-- The parser behind the head, if there is nothing else in the buffer. -/
def parsed (h : ChunkedHead) : Option HttpResponseParser :=
  (HttpResponseParser.exec h.text 0 h.text (.new false)).map (·.1)

/-- The parser takes the head: its version is known, and the machine is in the state `first_final` behind it. -/
def Taken (h : ChunkedHead) : Prop :=
  (h.parsed.any fun p => p.error == 0 && p.isFinished) = true

/-- The body is not compressed. -/
def NoContentEncoding (h : ChunkedHead) : Prop :=
  (h.parsed.bind fun p => p.data.headers.find? (str "content-encoding")) = none

theorem Taken.exists_parsed {h : ChunkedHead} (htaken : h.Taken) (henc : h.NoContentEncoding) :
    ∃ p, h.parsed = some p ∧ p.error = 0 ∧ p.isFinished = true ∧
      p.data.headers.find? (str "content-encoding") = none := by
  unfold Taken at htaken
  unfold NoContentEncoding at henc
  cases hp : h.parsed with
  | none => simp [hp] at htaken
  | some p =>
    simp only [hp, Option.any_some, Bool.and_eq_true, beq_iff_eq] at htaken
    rw [hp, Option.bind_some] at henc
    exact ⟨p, rfl, htaken.1, htaken.2, henc⟩

theorem execute_eq {h : ChunkedHead} (htaken : h.Taken) (henc : h.NoContentEncoding)
    (more behind : Bytes) (hlen : (h.text ++ more).length < 2 ^ 31) :
    ∃ p b, (HttpResponseParser.new false).execute ⟨h.text ++ more, 0 :: behind⟩ = some (p, b) ∧
      b.text = more ∧ p.error = 0 ∧ p.isFinished = true ∧ p.chunked = true ∧ p.lastChunk = false ∧ p.data.body = [] ∧
      p.data.headers.find? (str "content-encoding") = none := by
  obtain ⟨p, hparsed, herr, hfin, hnone⟩ := htaken.exists_parsed henc
  obtain ⟨⟨p, stop⟩, hexec, rfl⟩ := Option.map_eq_some_iff.mp hparsed
  have hin : (HttpResponseParser.new false).Inside (0 + 1) :=
    ⟨Nat.zero_lt_one, Nat.zero_lt_one, Nat.zero_le _, Nat.zero_le _⟩
  obtain ⟨q, hq, hlike, rfl, hinside, hnread, hlast, hbody, hchunked⟩ :=
    HttpResponseParser.exec_like more (more ++ 0 :: behind) h.accepted (Nat.zero_add _) rfl hexec
      (.refl _) hin rfl
  obtain ⟨len, done, status, rfl⟩ := hlike
  rw [← List.append_assoc] at hq
  have hle : h.text.length ≤ (h.text ++ more).length := by simp
  have hinside' := hinside.mono hle
  have hexecute := HttpResponseParser.execute_eq hlen hq
    ⟨by rw [HttpResponseParser.new, HttpResponseParser.init, Nat.zero_add]; exact hle,
      hinside'.bodyStart, hinside'.mark, hinside'.fieldLen, hinside'.fieldStart⟩
  have hnread₀ : (HttpResponseParser.new false).nread + h.text.length = h.text.length := Nat.zero_add _
  rw [hnread₀] at hexecute
  exact ⟨_, _, hexecute, List.drop_left, herr, hfin, hchunked (.inr h.chunked), hlast, hbody, hnone⟩

end ChunkedHead

/-! ## The response -/

/-- The body of a response that was received. -/
def Received.body? : Received → Option Bytes
  | .response r => some r.body
  | _ => none

/-- The pieces are cut so that nothing is parsed in parts: the first read takes the whole head, and each size line is
in the buffer as a whole when it is parsed. -/
structure CutWhole (e : ConnectionEnv) (h : ChunkedHead) (cs : List Chunk) (ps : Pieces) : Prop where
  head : h.text.length ≤ (read e.bufferSize ps).1.length
  lines : LinesWhole e.bufferSize (cs ++ [.last])
    ((read e.bufferSize ps).1.length - h.text.length, (read e.bufferSize ps).2)

theorem withBody_plain {r : HttpResponse} {body : Bytes}
    (hnone : r.headers.find? (str "content-encoding") = none) (hempty : r.body = []) :
    (withBody e r body).body = body := by
  rw [withBody]
  split
  · next hnil => rw [hempty, hnil]
  · rw [HttpResponse.getHeader, hnone, Option.getD_none]
    dsimp only
    rw [if_neg (by decide), if_neg (by decide)]

theorem length_le_wire (cs : List Chunk) : cs.length ≤ (wire cs).length := by
  induction cs with
  | nil => simp
  | cons c cs ih =>
    have hpos := c.line_pos
    have hcons : wire (c :: cs) = c.bytes ++ wire cs := rfl
    rw [hcons, Chunk.bytes, List.length_append, List.length_append, List.length_cons]
    omega

/-- The first loop, if the first read takes the whole head. -/
theorem recvResponseHead_eq {h : ChunkedHead} {cs : List Chunk}
    (hps : NonEmpty ps) (hflat : ps.flatten = h.text ++ wire cs) (henc : h.NoContentEncoding)
    (hnull : e.lastChunk = false) (htaken : h.Taken) (hcut : CutWhole e h cs ps) :
    ∃ p b ps', recvResponseHead e (ps.flatten.length + 1) (.new e.lastChunk) ⟨[], e.fresh⟩ ps = .ok (p, b, ps') ∧
      p.error = 0 ∧ p.chunked = true ∧ p.lastChunk = false ∧ p.data.body = [] ∧
      p.data.headers.find? (str "content-encoding") = none ∧ Stream b.text ps' (wire cs) ∧
      b.text.length ≤ e.bufferSize ∧ LinesWhole e.bufferSize (cs ++ [.last]) (b.text.length, ps') := by
  have happ := read_append e.bufferSize ps
  have hsnd := read_snd (n := e.bufferSize) hps
  have hread := length_read_le e.bufferSize ps
  obtain ⟨hhead, hlines⟩ := hcut
  rw [recvResponseHead]
  simp only [List.length_nil, Nat.sub_zero]
  generalize Http.read e.bufferSize ps = r at *
  obtain ⟨got, ps'⟩ := r
  dsimp only at *
  subst hsnd
  -- the first read takes the whole head
  obtain ⟨more, rfl⟩ : h.text <+: got :=
    List.prefix_of_prefix_length_le (List.prefix_append h.text (wire cs))
      (by rw [← hflat, ← happ]; exact List.prefix_append _ _) hhead
  have hne : h.text ≠ [] := by
    intro hnil
    have := h.accepted
    rw [hnil] at this
    cases this
  have hpos := List.length_pos_iff.mpr hne
  have hsize := e.bufferSize_lt
  obtain ⟨p, b, hexec, rfl, herr, hfin, hchunked, hlast, hbody, hnone⟩ :=
    h.execute_eq htaken henc more ((e.fresh.drop (h.text ++ more).length).drop 1) (by omega)
  rw [List.length_append] at hread hlines
  -- a machine in a final state is without an error
  have hnoError : p.hasError = false := by
    unfold HttpResponseParser.isFinished at hfin
    cases hcs : p.cs with
    | none => simp [hcs] at hfin
    | some cs => simp [HttpResponseParser.hasError, herr, hcs]
  refine ⟨p, b, dropBytes (h.text ++ b.text).length ps, ?_, herr, hchunked, hlast, hbody, hnone, ⟨hps.dropBytes _,
    ?_⟩, by omega, ?_⟩
  · rw [if_neg (by simp [hne]), hnull]
    simp only [Buffer.append, Buffer.terminate, List.nil_append, hexec, hnoError, hfin,
      Bool.false_eq_true, if_false, if_true]
    exact if_neg (by omega)
  · rw [hflat, List.append_assoc] at happ
    exact List.append_cancel_left happ
  · rw [Nat.add_sub_cancel_left] at hlines
    rwa [List.length_append]

/-- **Chunked responses.** The body of the response is the data of the chunks, if `last_chunk` happens to
be null, the head is taken, the sizes are small enough, and nothing is parsed in parts. -/
theorem recvResponse_chunked (e : ConnectionEnv) (h : ChunkedHead) (cs : List Chunk) (ps : Pieces)
    (hne : ∀ c ∈ cs, c.data ≠ []) (hps : NonEmpty ps) (hflat : ps.flatten = h.text ++ wire cs)
    (henc : h.NoContentEncoding) (hnull : e.lastChunk = false) (htaken : h.Taken)
    (hfit : SizesFit cs) (hcut : CutWhole e h cs ps) : (recvResponse e ps).1.body? = some (payload cs) := by
  obtain ⟨p, b, ps', hhead, herr, hchunked, hlast, hbody, hnone, hstream, hle, hlines⟩ :=
    recvResponseHead_eq hps hflat henc hnull htaken hcut
  have hlen := congrArg List.length hstream.eq
  rw [List.length_append] at hlen
  have hwire := length_le_wire cs
  obtain ⟨p', ps'', hchunks, hdata⟩ := recvChunks_eq (b.text.length + ps'.flatten.length + 1) []
    hne hfit (by omega) herr hlast hstream hle hlines
  rw [recvResponse, hhead]
  simp only [bind, Except.bind, recvResponseBody, hchunked, if_true, hchunks, pure, Except.pure,
    Received.body?, List.nil_append]
  rw [hdata, withBody_plain hnone hbody]

/-- A connection with the default buffer. -/
def defaultConnection : ConnectionEnv where
  bufferSize := 4096
  bufferSize_lt := default_bufferSize_lt
  fresh := []
  lastChunk := false
  lexicalCast _ := none
  gunzip := id
  inflate := id

theorem clientScan_ok : ∃ acts, clientScan (start ClientGrammar.main)
    (str "HTTP/1.1 200 OK\r\nTransfer-Encoding: chunked\r\n\r\n") = some acts ∧ .transChunked ∈ acts := by
  have hscan : (clientScan (start ClientGrammar.main)
      (str "HTTP/1.1 200 OK\r\nTransfer-Encoding: chunked\r\n\r\n")).any (·.contains .transChunked) = true := by
    decide +kernel
  obtain ⟨acts, hacts, hmem⟩ := (Option.any_eq_true _ _).mp hscan
  exact ⟨acts, hacts, List.contains_iff_mem.mp hmem⟩

/-- A head of a chunked response. -/
def okHead : ChunkedHead where
  text := str "HTTP/1.1 200 OK\r\nTransfer-Encoding: chunked\r\n\r\n"
  acts := (clientScan (start ClientGrammar.main)
    (str "HTTP/1.1 200 OK\r\nTransfer-Encoding: chunked\r\n\r\n")).getD []
  accepted := by
    obtain ⟨acts, hacts, -⟩ := clientScan_ok
    rw [hacts, Option.getD_some]
  chunked := by
    obtain ⟨acts, hacts, hmem⟩ := clientScan_ok
    rw [hacts, Option.getD_some]
    exact hmem

/-- Two chunks, of 5 and of 16 bytes. -/
def twoChunks : List Chunk := [
  ⟨str "5", str "hello", by decide, by decide +kernel, by decide⟩,
  ⟨str "10", str "0123456789abcdef", by decide, by decide +kernel, by decide⟩]

theorem okHead_parsed : okHead.Taken ∧ okHead.NoContentEncoding := by
  unfold ChunkedHead.Taken ChunkedHead.NoContentEncoding
  decide +kernel

/-- A cut in the data, and one between the line breaks at the end. -/
theorem recvResponse_chunked_two : (recvResponse defaultConnection [okHead.text ++ str "5\r\nhel",
      str "lo\r\n10\r\n0123456789abcdef\r\n0\r\n\r", str "\n"]).1.body? = some (payload twoChunks) :=
  recvResponse_chunked defaultConnection okHead twoChunks _ (by decide) (by decide) (by decide)
    okHead_parsed.2 rfl okHead_parsed.1 (by unfold SizesFit; decide) ⟨by decide, by decide⟩

/-- A cut between the digits of the size `10`: the second read starts with `0`, which ends the body. -/
theorem recvResponse_loses_chunk :
    NonEmpty [okHead.text ++ str "5\r\nhello\r\n1", str "0\r\n0123456789abcdef\r\n0\r\n\r\n"] ∧
      [okHead.text ++ str "5\r\nhello\r\n1", str "0\r\n0123456789abcdef\r\n0\r\n\r\n"].flatten =
        okHead.text ++ wire twoChunks ∧ okHead.NoContentEncoding ∧
      (recvResponse defaultConnection [okHead.text ++ str "5\r\nhello\r\n1",
        str "0\r\n0123456789abcdef\r\n0\r\n\r\n"]).1.body? = some (str "hello") ∧
      str "hello" ≠ payload twoChunks := by
  refine ⟨by decide, by decide, okHead_parsed.2, ?_, by decide⟩
  decide +kernel

end Sherry.Http
