import OtaServer.Http.Parser

/-!
# Receiving a request (`HttpSession::recvRequest`, `sherry/http/http_session.cc`)

The peer's bytes arrive in pieces. `read` returns at most as many bytes as it is asked for, all from one piece, and
reports the end behind the last piece. `recvRequest` reads into a buffer of `http.request.buffer_size` bytes until the
machine has found the end of a head, and then reads what is missing of the body.

* `read`, `readFixSize`, `recvHead`, `recvRequest`: the functions of the source.
* `Recv`: what a call of `recvRequest` ends with.
-/

namespace Sherry.Http

open Lib Ragel

/-- The pieces that `read` still has to deliver. -/
abbrev Pieces := List Bytes

/-- `SocketStream::read`: the bytes read, and the pieces left. No bytes: the peer has closed. -/
def read (n : Nat) : Pieces → Bytes × Pieces
  | [] => ([], [])
  | p :: ps => (p.take n, if p.length ≤ n then ps else p.drop n :: ps)

/-- `Stream::readFixSize`: the bytes read and the pieces left, or nothing if the end comes first. Each round reads at
least one byte, so that `fuel` is at most the number of bytes. -/
def readFixSize : Nat → Nat → Pieces → Option (Bytes × Pieces)
  | _, 0, ps => some ([], ps)
  | 0, _ + 1, _ => none
  | fuel + 1, left + 1, ps =>
    let (got, ps') := read (left + 1) ps
    if got = [] then none
    else (readFixSize fuel (left + 1 - got.length) ps').map fun r => (got ++ r.1, r.2)

/-- What `recvRequest` needs from outside: the size of the request buffer, which is an `int` where it is compared with
the offset, `boost::lexical_cast<uint64_t>`, and `uri_relaxed` of a new parser. -/
structure SessionEnv where
  bufferSize : Nat
  bufferSize_lt : bufferSize < 2 ^ 31
  lexicalCast : Bytes → Option UInt64
  uriRelaxed : Bool

theorem default_bufferSize_lt : 4096 < 2 ^ 31 := by decide

/-- How a call of `recvRequest` ends: with a request, with a closed session and no request, or with an exception. -/
inductive Recv where
  | request (r : HttpRequest)
  | closed
  | threw

namespace HttpRequest

/-- `getHeaderAs<uint64_t>(key, 0)`. -/
def getHeaderAs (e : SessionEnv) (r : HttpRequest) (key : Bytes) : UInt64 :=
  ((r.headers.find? key).bind e.lexicalCast).getD 0

end HttpRequest

/-- `HttpRequestParser::getContentLength`: a `uint64_t` returned as a `uint32_t`. -/
def HttpRequestParser.getContentLength (e : SessionEnv) (p : HttpRequestParser) : Nat :=
  (p.data.getHeaderAs e (str "content-length")).toNat % 2 ^ 32

/-- The loop of `recvRequest`: the parser, the bytes of the buffer behind the head, and the pieces left, or how the
call ends without a head. `rest` is `data[0, offset)`. -/
def recvHead (e : SessionEnv) : Nat → HttpRequestParser → Bytes → Pieces →
    Except Recv (HttpRequestParser × Bytes × Pieces)
  | 0, _, _, _ => .error .closed
  | fuel + 1, p, rest, ps =>
    let (got, ps') := read (e.bufferSize - rest.length) ps
    if got = [] then .error .closed
    else
      match p.execute (rest ++ got) with
      | none => .error .threw
      | some (p', nparse) =>
        if p'.hasError then .error .closed
        else
          let rest' := (rest ++ got).drop nparse
          if rest'.length = e.bufferSize then .error .closed
          else if p'.isFinished then .ok (p', rest', ps')
          else recvHead e fuel p' rest' ps'

/-- The return value of `readFixSize` as an `int`. -/
def returned (length : Nat) : Int := Int.bmod length (2 ^ 32)

/-- `recvRequest` after the head. -/
def recvBody (e : SessionEnv) (p : HttpRequestParser) (rest : Bytes) (ps : Pieces) : Recv × Pieces :=
  let length := p.getContentLength e
  if 0 < length then
    if rest.length < length then
      match readFixSize ps.flatten.length (length - rest.length) ps with
      | none => (.closed, ps)
      | some (got, ps') =>
        if returned (length - rest.length) ≤ 0 then (.closed, ps')
        else (.request ({ p.data with body := rest ++ got } : HttpRequest).init, ps')
    else (.request ({ p.data with body := rest.take length } : HttpRequest).init, ps)
  else (.request p.data.init, ps)

/-- `HttpSession::recvRequest`. Each round of the loop reads at least one byte. -/
def recvRequest (e : SessionEnv) (ps : Pieces) : Recv × Pieces :=
  match recvHead e (ps.flatten.length + 1) (.new e.uriRelaxed) [] ps with
  | .error r => (r, ps)
  | .ok (p, rest, ps') => recvBody e p rest ps'

/-! ## Reading pieces -/

/-- Every piece has a byte. -/
def NonEmpty (ps : Pieces) : Prop := ∀ p ∈ ps, p ≠ []

instance (ps : Pieces) : Decidable (NonEmpty ps) := inferInstanceAs (Decidable (∀ p ∈ ps, p ≠ []))

/-- What is read and what is left make up what there was. -/
theorem read_append (n : Nat) (ps : Pieces) : (read n ps).1 ++ (read n ps).2.flatten = ps.flatten := by
  cases ps with
  | nil => rfl
  | cons p ps =>
    simp only [read, List.flatten_cons]
    split
    · next h => rw [List.take_of_length_le h]
    · rw [List.flatten_cons, ← List.append_assoc, List.take_append_drop]

theorem length_read (n : Nat) (p : Bytes) (ps : Pieces) :
    (read n (p :: ps)).1.length = min n p.length := List.length_take

variable {ps ps' : Pieces}

theorem read_ne_nil {n : Nat} {p : Bytes} (hn : 0 < n) (hp : p ≠ []) : (read n (p :: ps)).1 ≠ [] := by
  intro h
  have hl := length_read n p ps
  have := List.length_pos_iff.mpr hp
  rw [h, List.length_nil] at hl
  omega

/-- The pieces behind the first `n` bytes. -/
def dropBytes : Nat → Pieces → Pieces
  | _, [] => []
  | n, p :: ps => if n < p.length then p.drop n :: ps else dropBytes (n - p.length) ps

theorem flatten_dropBytes (n : Nat) (ps : Pieces) : (dropBytes n ps).flatten = ps.flatten.drop n := by
  induction ps generalizing n with
  | nil => simp [dropBytes]
  | cons p ps ih =>
    rw [dropBytes, List.flatten_cons, List.drop_append]
    split
    · next h => rw [List.flatten_cons, Nat.sub_eq_zero_of_le (Nat.le_of_lt h), List.drop_zero]
    · next h => rw [ih, List.drop_eq_nil_of_le (Nat.le_of_not_lt h), List.nil_append]

theorem NonEmpty.tail {p : Bytes} (h : NonEmpty (p :: ps)) : NonEmpty ps :=
  fun q hq => h q (List.mem_cons_of_mem p hq)

theorem NonEmpty.dropBytes (h : NonEmpty ps) (n : Nat) : NonEmpty (dropBytes n ps) := by
  induction ps generalizing n with
  | nil => exact h
  | cons p ps ih =>
    rw [Http.dropBytes]
    split
    · next hn =>
      intro q hq
      rcases List.mem_cons.mp hq with rfl | hq
      · intro hnil
        have := List.drop_eq_nil_iff.mp hnil
        omega
      · exact h.tail q hq
    · exact ih h.tail _

theorem dropBytes_zero (h : NonEmpty ps) : dropBytes 0 ps = ps := by
  cases ps with
  | nil => rfl
  | cons p ps => rw [dropBytes, if_pos (List.length_pos_iff.mpr (h p List.mem_cons_self)), List.drop_zero]

theorem dropBytes_add (a b : Nat) (ps : Pieces) : dropBytes b (dropBytes a ps) = dropBytes (a + b) ps := by
  induction ps generalizing a with
  | nil => rfl
  | cons p ps ih =>
    rw [dropBytes]
    split
    · next h =>
      rw [dropBytes, dropBytes, List.length_drop, List.drop_drop]
      by_cases hb : a + b < p.length
      · rw [if_pos (by omega), if_pos hb]
      · rw [if_neg (by omega), if_neg hb]
        congr 1
        omega
    · next h =>
      rw [ih]
      conv_rhs => rw [dropBytes, if_neg (by omega)]
      congr 1
      omega

theorem read_snd {n : Nat} (h : NonEmpty ps) : (read n ps).2 = dropBytes (read n ps).1.length ps := by
  cases ps with
  | nil => rfl
  | cons p ps =>
    rw [length_read, dropBytes, read]
    by_cases hn : p.length ≤ n
    · rw [if_pos hn, if_neg (by omega), Nat.min_eq_right hn, Nat.sub_self, dropBytes_zero h.tail]
    · rw [if_neg hn, if_pos (by omega), Nat.min_eq_left (by omega)]

/-- `readFixSize` returns the next bytes of the stream, if there are enough. -/
theorem readFixSize_eq {fuel left : Nat} (hne : NonEmpty ps) (hfuel : left ≤ fuel)
    (hleft : left ≤ ps.flatten.length) :
    readFixSize fuel left ps = some (ps.flatten.take left, dropBytes left ps) := by
  induction fuel generalizing left ps with
  | zero =>
    obtain rfl : left = 0 := by omega
    rw [readFixSize, List.take_zero, dropBytes_zero hne]
  | succ fuel ih =>
    cases left with
    | zero => rw [readFixSize, List.take_zero, dropBytes_zero hne]
    | succ left =>
      cases ps with
      | nil => simp at hleft
      | cons p ps =>
        have hp : p ≠ [] := hne p List.mem_cons_self
        have hgot : (Http.read (left + 1) (p :: ps)).1 ≠ [] := read_ne_nil (Nat.succ_pos left) hp
        have happ := read_append (left + 1) (p :: ps)
        have hlen := length_read (left + 1) p ps
        have hsnd := read_snd (n := left + 1) hne
        rw [readFixSize]
        generalize Http.read (left + 1) (p :: ps) = r at *
        obtain ⟨got, ps₁⟩ := r
        dsimp only at *
        subst hsnd
        have hpos := List.length_pos_iff.mpr hgot
        have hle : got.length ≤ left + 1 := by omega
        rw [← happ, List.length_append] at hleft
        have hfuel' : left + 1 - got.length ≤ fuel := by omega
        rw [if_neg hgot, ih (hne.dropBytes _) hfuel' (by omega), dropBytes_add,
          Nat.add_sub_cancel' hle, ← happ, List.take_append, List.take_of_length_le hle]
        rfl

/-! ## Progress -/

theorem length_flatten_read (n : Nat) (ps : Pieces) :
    (read n ps).1.length + (read n ps).2.flatten.length = ps.flatten.length := by
  rw [← List.length_append, read_append]

theorem readFixSize_le {fuel left : Nat} {got : Bytes} (h : readFixSize fuel left ps = some (got, ps')) :
    ps'.flatten.length ≤ ps.flatten.length := by
  induction fuel generalizing left ps got with
  | zero =>
    cases left with
    | zero => cases h; exact Nat.le_refl _
    | succ left => cases h
  | succ fuel ih =>
    cases left with
    | zero => cases h; exact Nat.le_refl _
    | succ left =>
      have hlen := length_flatten_read (left + 1) ps
      rw [readFixSize] at h
      generalize Http.read (left + 1) ps = r at hlen h
      obtain ⟨got₁, ps₁⟩ := r
      dsimp only at hlen h
      split at h
      · cases h
      · obtain ⟨⟨got', ps₂⟩, hrec, heq⟩ := Option.map_eq_some_iff.mp h
        obtain ⟨-, rfl⟩ := Prod.mk.inj heq
        have := ih hrec
        omega

/-- The loop ends without a request, or with a head that takes at least a byte from the stream. -/
theorem recvHead_cases (e : SessionEnv) (fuel : Nat) (p : HttpRequestParser) (rest : Bytes) (ps : Pieces) :
    recvHead e fuel p rest ps = .error .closed ∨ recvHead e fuel p rest ps = .error .threw ∨
      ∃ p' rest' ps', recvHead e fuel p rest ps = .ok (p', rest', ps') ∧ ps'.flatten.length < ps.flatten.length := by
  induction fuel generalizing p rest ps with
  | zero => exact .inl rfl
  | succ fuel ih =>
    have hlen := length_flatten_read (e.bufferSize - rest.length) ps
    rw [recvHead]
    generalize Http.read (e.bufferSize - rest.length) ps = r at hlen ⊢
    obtain ⟨got, ps₁⟩ := r
    dsimp only at hlen ⊢
    split
    · exact .inl rfl
    · next hgot =>
      have hpos := List.length_pos_iff.mpr hgot
      split
      · exact .inr (.inl rfl)
      · next p₁ n _ =>
        split
        · exact .inl rfl
        · split
          · exact .inl rfl
          · split
            · exact .inr (.inr ⟨p₁, _, ps₁, rfl, by omega⟩)
            · obtain h | h | ⟨p', rest', ps', h, hlt⟩ := ih p₁ ((rest ++ got).drop n) ps₁
              · exact .inl h
              · exact .inr (.inl h)
              · exact .inr (.inr ⟨p', rest', ps', h, by omega⟩)

theorem recvBody_le {e : SessionEnv} {p : HttpRequestParser} {rest : Bytes}
    {r : Recv} (h : recvBody e p rest ps = (r, ps')) : ps'.flatten.length ≤ ps.flatten.length := by
  rw [recvBody] at h
  dsimp only at h
  split at h
  · split at h
    · split at h
      · cases h
        exact Nat.le_refl _
      · next got ps₁ hread =>
        have hle := readFixSize_le hread
        split at h <;> cases h <;> exact hle
    · cases h
      exact Nat.le_refl _
  · cases h
    exact Nat.le_refl _

theorem recvRequest_lt {e : SessionEnv} {r : HttpRequest}
    (h : recvRequest e ps = (.request r, ps')) : ps'.flatten.length < ps.flatten.length := by
  rw [recvRequest] at h
  obtain hhead | hhead | ⟨p, rest, ps₁, hhead, hlt⟩ :=
    recvHead_cases e (ps.flatten.length + 1) (.new e.uriRelaxed) [] ps
  · rw [hhead] at h
    cases h
  · rw [hhead] at h
    cases h
  · rw [hhead] at h
    exact Nat.lt_of_le_of_lt (recvBody_le h) hlt

end Sherry.Http
