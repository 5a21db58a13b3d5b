import OtaServer.Http.ResponseParser

/-!
# A response head in one buffer

The bytes behind a head do not change what the parser makes of it, apart from two numbers that are read from the
buffer without regard to its length: the status, and `content_len` (with `chunks_done`).

* `clientScan`: the actions of a run that ends with `done` on the last byte of a text.
* `Like`: two parsers that differ in those numbers only; `Inside`: positions behind a byte.
* `act_like`, `actAll_like`: one action, the actions of one byte; `exec_like`: the run over a head.
-/

namespace Sherry.Http

open Lib Ragel

/-- The actions of the run over a text, if it ends with `done` on the last byte of the text. -/
def clientScan : State ClientAction → Bytes → Option (List ClientAction)
  | _, [] => none
  | s, b :: bs =>
    match advance s b with
    | none => none
    | some (s', as) =>
      if .done ∈ as then if bs = [] then some as else none
      else (clientScan s' bs).map (as ++ ·)

namespace HttpResponseParser

/-- The positions that the parser keeps are before `n`. -/
structure Inside (p : HttpResponseParser) (n : Nat) : Prop where
  mark : p.mark < n
  fieldStart : p.fieldStart < n
  fieldLen : p.fieldLen ≤ n
  bodyStart : p.bodyStart ≤ n

variable {head : Bytes} {p p' q : HttpResponseParser} {fpc : Nat}

theorem Inside.mono {n m : Nat} (h : p.Inside n) (hle : n ≤ m) : p.Inside m :=
  ⟨Nat.lt_of_lt_of_le h.mark hle, Nat.lt_of_lt_of_le h.fieldStart hle, Nat.le_trans h.fieldLen hle,
    Nat.le_trans h.bodyStart hle⟩

/-- `q` is `p` with other numbers. -/
def Like (p q : HttpResponseParser) : Prop :=
  ∃ len done status, q = { p with
    contentLen := len, chunksDone := done, data := { p.data with status := status } }

theorem Like.refl (p : HttpResponseParser) : p.Like p :=
  ⟨p.contentLen, p.chunksDone, p.data.status, rfl⟩

theorem distance_eq {start : Nat} (h : start < fpc + 1) : distance start fpc = fpc - start :=
  if_pos (Nat.le_of_lt_succ h)

theorem substr_append {memory : Bytes} {start length : Nat} {v : Bytes}
    (h : substr memory start length = some v) (tail : Bytes) : substr (memory ++ tail) start length = some v := by
  unfold substr at h ⊢
  split at h
  · next hle =>
    rw [if_pos (by rw [List.length_append]; omega), ← h, List.drop_append_of_le_length (by omega),
      List.take_append_of_le_length (by rw [List.length_drop]; omega)]
  · cases h

/-- What one action does to two parsers that are alike, the second with more bytes behind the head. -/
structure Kept (p p' q' : HttpResponseParser) (fpc : Nat) (a : ClientAction) : Prop where
  like : p'.Like q'
  inside : p'.Inside (fpc + 1)
  lastChunk : p'.lastChunk = p.lastChunk
  cs : p'.cs = p.cs
  nread : p'.nread = p.nread
  body : p'.data.body = p.data.body
  chunked : p.chunked = true ∨ a = .transChunked → p'.chunked = true

theorem act_like {a : ClientAction} (hact : p.act head fpc a = some p') (hlike : p.Like q) (hin : p.Inside (fpc + 1))
    (hfpc : fpc < head.length) (hlast : p.lastChunk = false) (tail : Bytes) :
    ∃ q', q.act (head ++ tail) fpc a = some q' ∧ Kept p p' q' fpc a := by
  -- what the later bytes can change is left open
  obtain ⟨len, done, status, rfl⟩ := hlike
  have hmark := distance_eq hin.mark
  cases a with
  | mark | startValue =>
    cases hact
    exact ⟨_, rfl, ⟨len, done, status, rfl⟩, { hin with mark := Nat.lt_succ_self fpc }, rfl, rfl, rfl, rfl, by simp⟩
  | startField =>
    cases hact
    exact ⟨_, rfl, ⟨len, done, status, rfl⟩, { hin with fieldStart := Nat.lt_succ_self fpc }, rfl, rfl,
      rfl, rfl, by simp⟩
  | writeField =>
    cases hact
    refine ⟨_, rfl, ⟨len, done, status, rfl⟩, { hin with fieldLen := ?_ }, rfl, rfl, rfl, rfl, by simp⟩
    have := distance_eq hin.fieldStart
    dsimp only
    omega
  | writeContentLen =>
    cases hact
    exact ⟨_, rfl, ⟨_, done, status, rfl⟩, { hin with }, rfl, rfl, rfl, rfl, by simp⟩
  | writeConnectionClose =>
    cases hact
    exact ⟨_, rfl, ⟨len, done, status, rfl⟩, hin, rfl, rfl, rfl, rfl, by simp⟩
  | writeValue =>
    simp only [act, onResponseHttpField] at hact ⊢
    split at hact
    · next h0 =>
      cases hact
      exact ⟨_, if_pos h0, ⟨len, done, status, rfl⟩, hin, rfl, rfl, rfl, rfl, by simp⟩
    · next h0 =>
      -- both texts are in the head, where the buffers agree
      obtain ⟨field, hfield, hact⟩ := Option.bind_eq_some_iff.mp hact
      obtain ⟨value, hvalue, hact⟩ := Option.bind_eq_some_iff.mp hact
      cases hact
      refine ⟨_, ?_, ⟨len, done, status, rfl⟩, { hin with }, rfl, rfl, rfl, rfl, by simp⟩
      rw [if_neg h0, substr_append hfield, substr_append hvalue]
      rfl
  | reasonPhrase =>
    simp only [act] at hact ⊢
    obtain ⟨text, htext, rfl⟩ := Option.map_eq_some_iff.mp hact
    refine ⟨_, ?_, ⟨len, done, status, rfl⟩, { hin with }, rfl, rfl, rfl, rfl, ?_⟩
    · rw [substr_append htext]
      rfl
    · simp [onResponseReason]
  | statusCode =>
    cases hact
    exact ⟨_, rfl, ⟨len, done, _, rfl⟩, { hin with }, rfl, rfl, rfl, rfl, by simp [onResponseStaus]⟩
  | httpVersion =>
    have hmarkLt := hin.mark
    simp only [act, onResponseVersion, hmark, Option.some.injEq] at hact ⊢
    rw [List.drop_append_of_le_length (by omega), strncmpEq_append (by rw [List.length_drop]; omega),
      strncmpEq_append (by rw [List.length_drop]; omega)]
    split at hact
    · next h₁ =>
      subst hact
      exact ⟨_, if_pos h₁, ⟨len, done, status, rfl⟩, { hin with }, rfl, rfl, rfl, rfl, by simp⟩
    · next h₁ =>
      rw [if_neg h₁]
      split at hact
      · next h₂ =>
        subst hact
        exact ⟨_, if_pos h₂, ⟨len, done, status, rfl⟩, { hin with }, rfl, rfl, rfl, rfl, by simp⟩
      · next h₂ =>
        subst hact
        exact ⟨_, if_neg h₂, ⟨len, done, status, rfl⟩, { hin with }, rfl, rfl, rfl, rfl,
          by simp [setError]⟩
  | chunkSize =>
    simp only [act, hlast, Bool.false_eq_true, and_false, if_false, Option.some.injEq] at hact ⊢
    subst hact
    exact ⟨_, rfl, ⟨_, _, status, rfl⟩, { hin with }, hlast.symm, rfl, rfl, rfl, by simp⟩
  | transChunked =>
    cases hact
    exact ⟨_, rfl, ⟨len, done, status, rfl⟩, { hin with }, rfl, rfl, rfl, rfl, by simp⟩
  | done =>
    cases hact
    exact ⟨_, rfl, ⟨len, done, status, rfl⟩, { hin with bodyStart := Nat.le_refl _ }, rfl, rfl, rfl, rfl,
      by simp⟩

theorem actAll_like (hfpc : fpc < head.length) (tail : Bytes)
    {as : List ClientAction} (hact : p.actAll head fpc as = some p')
    (hlike : p.Like q) (hin : p.Inside (fpc + 1)) (hlast : p.lastChunk = false) :
    ∃ q', q.actAll (head ++ tail) fpc as = some q' ∧ p'.Like q' ∧ p'.Inside (fpc + 1) ∧
      p'.lastChunk = false ∧ p'.nread = p.nread ∧ p'.data.body = p.data.body ∧
      (p.chunked = true ∨ .transChunked ∈ as → p'.chunked = true) := by
  induction as generalizing p q with
  | nil =>
    cases hact
    exact ⟨q, rfl, hlike, hin, hlast, rfl, rfl, by simp⟩
  | cons a as ih =>
    rw [actAll, List.foldlM_cons] at hact
    obtain ⟨p₁, hact₁, hrest⟩ := Option.bind_eq_some_iff.mp hact
    obtain ⟨q₁, hq₁, hkept⟩ := act_like hact₁ hlike hin hfpc hlast tail
    obtain ⟨q', hq', hlike', hin', hlast', hnread, hbody, hchunked⟩ :=
      ih hrest hkept.like hkept.inside (hkept.lastChunk.trans hlast)
    refine ⟨q', ?_, hlike', hin', hlast', hnread.trans hkept.nread, hbody.trans hkept.body, ?_⟩
    · rw [actAll, List.foldlM_cons, hq₁]
      exact hq'
    · rintro (h | h)
      · exact hchunked (.inl (hkept.chunked (.inl h)))
      · rcases List.mem_cons.mp h with rfl | h
        · exact hchunked (.inl (hkept.chunked (.inr rfl)))
        · exact hchunked (.inr h)

theorem Like.withCs (h : p.Like q) (cs : Option (State ClientAction)) :
    Like { p with cs := cs } { q with cs := cs } := by
  obtain ⟨len, done, status, rfl⟩ := h
  exact ⟨len, done, status, rfl⟩

/-- **The run over a head.** More bytes behind it do not change where it ends and what it makes of the
head. -/
theorem exec_like (more tail : Bytes) {bs : Bytes} {s : State ClientAction}
    {acts : List ClientAction} (hscan : clientScan s bs = some acts) {stop : Nat}
    (hlen : fpc + bs.length = head.length) (hcs : p.cs = some s)
    (hexec : exec head fpc bs p = some (p', stop)) (hlike : p.Like q) (hin : p.Inside (fpc + 1))
    (hlast : p.lastChunk = false) :
    ∃ q', exec (head ++ tail) fpc (bs ++ more) q = some (q', head.length) ∧ p'.Like q' ∧
      stop = head.length ∧ p'.Inside head.length ∧ p'.nread = p.nread ∧ p'.lastChunk = false ∧
      p'.data.body = p.data.body ∧ (p.chunked = true ∨ .transChunked ∈ acts → p'.chunked = true) := by
  induction bs generalizing s fpc acts p q with
  | nil => cases hscan
  | cons b bs ih =>
    have hqcs : q.cs = some s := by
      obtain ⟨len, done, status, rfl⟩ := hlike
      exact hcs
    rw [List.length_cons] at hlen
    simp only [clientScan] at hscan
    split at hscan
    · cases hscan
    · next s' as hadv =>
      rw [exec, hcs, Option.bind_some, hadv] at hexec
      dsimp only at hexec
      split at hexec
      · cases hexec
      · next p₁ hact =>
        obtain ⟨q₁, hq₁, hlike₁, hin₁, hlast₁, hnread₁, hbody₁, hchunked₁⟩ :=
          actAll_like (by omega) tail hact hlike hin hlast
        -- `done` runs on the last byte of the head
        by_cases hdone : .done ∈ as
        · rw [if_pos hdone] at hexec hscan
          split at hscan
          · next hnil =>
            subst hnil
            cases hscan
            cases hexec
            have hend : fpc + 1 = head.length := by simpa using hlen
            refine ⟨_, hend ▸ exec_done hqcs hadv hq₁ hdone rfl, hlike₁.withCs _, hend,
              hend ▸ { hin₁ with }, hnread₁, hlast₁, hbody₁, hchunked₁⟩
          · cases hscan
        · rw [if_neg hdone] at hexec hscan
          obtain ⟨acts', hscan', rfl⟩ := Option.map_eq_some_iff.mp hscan
          have hin' : Inside { p₁ with cs := some s' } (fpc + 1) := { hin₁ with }
          obtain ⟨q', hq', hlike', hstop, hin'', hnread, hlast', hbody, hchunked⟩ :=
            ih hscan' (by omega) rfl hexec (hlike₁.withCs _) (hin'.mono (Nat.le_succ _)) hlast₁
          refine ⟨q', ?_, hlike', hstop, hin'', hnread.trans hnread₁, hlast', hbody.trans hbody₁, ?_⟩
          · rw [List.cons_append, exec_byte hqcs hadv hq₁ hdone rfl]
            exact hq'
          · intro h
            refine hchunked ?_
            rw [List.mem_append, ← or_assoc] at h
            exact h.imp_left hchunked₁

end HttpResponseParser

end Sherry.Http
