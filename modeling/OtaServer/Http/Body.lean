import OtaServer.Http.Segmentation
import OtaServer.Lib.Number
import OtaServer.Stream.FixSize

/-!
# The body of a request (`HttpSession::recvRequest`)

The head is in the buffer, with some of the bytes behind it. The length of the body has come through a `uint32_t`, and
what is missing of the body is read by `readFixSize`, whose reads can fail.

* `recvBodyAfter`, `recvRequestAfter`: `recvRequest` with the results of these reads, and the bytes they get.
* `BodyReceived`: the call returns what the head announces, or closes.
* `bodyReceived_iff`: exactly when it does.
-/

namespace Sherry.Http

open Lib Ragel Sherry.Stream

/-- Each of these places behind `rest` is in `body`. After an error the next place is one in front. -/
def InBody (rest : Bytes) (missing : Nat) (moved : List Nat) : Prop :=
  ∀ place ∈ moved, (rest.length + place) % 2 ^ 64 < rest.length + missing

instance (rest : Bytes) (missing : Nat) (moved : List Nat) : Decidable (InBody rest missing moved) :=
  inferInstanceAs (Decidable (∀ place ∈ moved, _))

/-- `body` when the bytes that were read have been written to these places behind `rest`. -/
def writeBody (rest : Bytes) (missing : Nat) (bytes : Nat → UInt8) (moved : List Nat) : Bytes :=
  moved.zipIdx.foldl (fun body x => body.set ((rest.length + x.1) % 2 ^ 64) (bytes x.2))
    (rest ++ List.replicate missing 0)

/-- Where a call of `recvRequest` is. -/
inductive BodyRead where
  /-- `readFixSize` still reads. -/
  | reading
  /-- A byte was stored outside of `body`. -/
  | fault
  | done (r : Recv)

/-- `recvRequest` after the head, when `readFixSize` has had `k` results. `bytes` are the bytes that the reads get,
one after the other. -/
def recvBodyAfter (e : SessionEnv) (p : HttpRequestParser) (rest : Bytes) (results : Nat → Int)
    (bytes : Nat → UInt8) (k : Nat) : BodyRead :=
  let length := p.getContentLength e
  if 0 < length then
    if rest.length < length then
      let s := FixSize.after .readBuffer (length - rest.length) results k
      if InBody rest (length - rest.length) s.moved then
        match s.returned with
        | none => .reading
        | some v =>
          if v ≤ 0 then .done .closed
          else .done (.request ({ p.data with
            body := writeBody rest (length - rest.length) bytes s.moved } : HttpRequest).init)
      else .fault
    else .done (.request ({ p.data with body := rest.take length } : HttpRequest).init)
  else .done (.request p.data.init)

/-- `recvRequest` when its first read has got `got`, with the end of the head in it. -/
def recvRequestAfter (e : SessionEnv) (got : Bytes) (results : Nat → Int) (bytes : Nat → UInt8) (k : Nat) :
    BodyRead :=
  match recvHead e (got.length + 1) (.new e.uriRelaxed) [] [got] with
  | .error r => .done r
  | .ok (p, rest, _) => recvBodyAfter e p rest results bytes k

/-- A head that the grammar accepts, the parser that has had it, and the number in its `Content-Length`. -/
structure SizedHead (e : SessionEnv) (head : Bytes) (q : HttpRequestParser) (n : Nat) : Prop where
  accepted : (scan (start (Grammar.main e.uriRelaxed)) head).isSome
  parsed : (HttpRequestParser.new e.uriRelaxed).execute head = some (q, head.length)
  size : (q.data.headers.find? (str "content-length")).bind numeral = some n
  size_lt : n < 2 ^ 64

/-- `boost::lexical_cast<uint64_t>` of a decimal number. -/
def CastsDecimals (e : SessionEnv) : Prop :=
  ∀ text v, numeral text = some v → v < 2 ^ 64 → e.lexicalCast text = some (UInt64.ofNat v)

/-- The `n` bytes behind the head: those in the buffer, and then those that are read. -/
def following (rest : Bytes) (bytes : Nat → UInt8) (n : Nat) : Bytes :=
  rest.take n ++ (List.range (n - rest.length)).map bytes

/-- Whatever the bytes are that are read, a call closes the session, or it returns a request whose body is the `n`
bytes behind the head, and not longer than `GetHttpRequestMaxBodySize()`. -/
def BodyRight (maxBodySize n : Nat) (rest : Bytes) (recv : (Nat → UInt8) → Nat → BodyRead) : Prop :=
  ∀ bytes, ∃ k, recv bytes k = .done .closed ∨
    ∃ r, recv bytes k = .done (.request r) ∧ r.body = following rest bytes n ∧ r.body.length ≤ maxBodySize

/-- The same of `recvRequest`, with the head and some of what follows in its first read. -/
def BodyReceived (e : SessionEnv) (maxBodySize n : Nat) (head rest : Bytes) (results : Nat → Int) : Prop :=
  BodyRight maxBodySize n rest (recvRequestAfter e (head ++ rest) results)

/-- The length is a `uint32_t` and not too large, and what is missing arrives without an error; or no byte is stored
outside of the body, and `readFixSize` ends with a result 0, or behind its loop with a length that is no positive
`int`. -/
def BodySafe (maxBodySize n : Nat) (rest : Bytes) (results : Nat → Int) : Prop :=
  let missing := n % 2 ^ 32 - rest.length
  let read := FixSize.after .readBuffer missing results
  (n < 2 ^ 32 ∧ n ≤ maxBodySize ∧ ∃ k, (∀ j < k, 0 < results j) ∧ passed results k = missing) ∨
  (∃ k, (read k).returned = none ∧ results k = 0 ∧ InBody rest missing (read k).moved) ∨
  2 ^ 31 ≤ missing ∧ ∃ k, (read k).returned ≠ none ∧ InBody rest missing (read k).moved

/-! ## The head -/

namespace HttpRequestParser

/-- No callback sets the body. -/
theorem act_body {B : Bytes} {i : Nat} {p p' : HttpRequestParser} {a : Action} (h : p.act B i a = some p') :
    p'.data.body = p.data.body := by
  cases a with
  | mark | startField | writeField | startValue | startQuery | requestUri | done | xml | json =>
    obtain rfl := Option.some.inj h
    rfl
  | writeValue =>
    obtain ⟨t, -, rfl⟩ := Option.map_eq_some_iff.mp h
    unfold onRequestHttpField
    split <;> rfl
  | requestMethod =>
    obtain rfl := Option.some.inj h
    unfold onRequestMethod
    split <;> rfl
  | httpVersion =>
    obtain rfl := Option.some.inj h
    unfold onRequestVersion
    split
    · rfl
    · split <;> rfl
  | fragment | queryString | requestPath =>
    obtain ⟨t, -, rfl⟩ := Option.map_eq_some_iff.mp h
    rfl

end HttpRequestParser

theorem body_init (r : HttpRequest) : r.init.body = r.body := by
  unfold HttpRequest.init
  dsimp only
  split <;> rfl

namespace SizedHead

variable {e : SessionEnv} {head rest : Bytes} {q : HttpRequestParser} {n : Nat}

theorem length_pos (h : SizedHead e head q n) : 0 < head.length := (at_start h.accepted).lt

theorem exec_eq (h : SizedHead e head q n) :
    HttpRequestParser.exec head 0 (head.drop 0) (.new e.uriRelaxed) = some (q, head.length) := by
  have hne : head ≠ [] := List.ne_nil_of_length_pos h.length_pos
  have hparsed := h.parsed
  rwa [HttpRequestParser.execute_eq _ hne] at hparsed

theorem body_eq (h : SizedHead e head q n) : q.data.body = [] :=
  HttpRequestParser.exec_inv (P := fun p => p.data.body = [])
    (fun _ _ _ _ ha hp => (HttpRequestParser.act_body ha).trans hp) (fun _ _ hp => hp) h.exec_eq rfl

theorem getContentLength_eq (h : SizedHead e head q n) (hcast : CastsDecimals e) {p : HttpRequestParser}
    (hdata : p.data = q.data) : p.getContentLength e = n % 2 ^ 32 := by
  obtain ⟨text, hfind, hnum⟩ := Option.bind_eq_some_iff.mp h.size
  have hvalue : p.data.getHeaderAs e (str "content-length") = UInt64.ofNat n := by
    rw [hdata, HttpRequest.getHeaderAs, hfind, Option.bind_some, hcast text n hnum h.size_lt, Option.getD_some]
  rw [HttpRequestParser.getContentLength, hvalue, UInt64.toNat_ofNat_of_lt' h.size_lt]

theorem recvHead_eq (h : SizedHead e head q n) (hfit : (head ++ rest).length ≤ e.bufferSize) (fuel : Nat) :
    (q.error ≠ 0 → recvHead e (fuel + 1) (.new e.uriRelaxed) [] [head ++ rest] = .error .closed) ∧
    (q.error = 0 → ∃ p ps, p.data = q.data ∧
      recvHead e (fuel + 1) (.new e.uriRelaxed) [] [head ++ rest] = .ok (p, rest, ps)) := by
  have hlen : (head ++ rest).length = head.length + rest.length := List.length_append
  have hpos := h.length_pos
  have hflat : (head ++ rest) ++ ([] : Pieces).flatten = head.drop 0 ++ rest := List.append_nil _
  have hne : NonEmpty [head ++ rest] := by
    intro x hx
    obtain rfl := List.mem_singleton.mp hx
    exact List.ne_nil_of_length_pos (by omega)
  have hsize : head.length ≤ e.bufferSize := by omega
  obtain ⟨hbad, hgood⟩ := recvHead_last fuel (at_start h.accepted) (sim_new e.uriRelaxed) rfl hflat hne hsize
    (isSome_follow_start h.accepted) h.exec_eq (by omega)
  refine ⟨hbad, fun herr => ?_⟩
  obtain ⟨p, rest', hdata, hrecv, hrest, happ⟩ := hgood herr
  have hbuf : rest'.length = rest.length := by
    rw [hrest, buffered, if_neg (by omega)]
    omega
  obtain rfl : rest' = rest := (List.append_inj (happ.trans (List.append_nil rest).symm) hbuf).1
  exact ⟨p, _, hdata, hrecv⟩

end SizedHead

/-! ## The bytes of the body -/

variable {e : SessionEnv} {head rest : Bytes} {missing n : Nat}

theorem inBody_range {j : Nat} (hj : j ≤ missing) : InBody rest missing (List.range j) := by
  intro place hplace
  have := List.mem_range.mp hplace
  omega

theorem writeBody_range (bytes : Nat → UInt8) (hlt : rest.length + missing < 2 ^ 64) :
    writeBody rest missing bytes (List.range missing) = rest ++ (List.range missing).map bytes := by
  -- after `j` bytes, those are written and the others are still 0
  have hfold : ∀ j ≤ missing,
      (List.range j).zipIdx.foldl (fun body x => body.set ((rest.length + x.1) % 2 ^ 64) (bytes x.2))
        (rest ++ List.replicate missing 0) =
      rest ++ ((List.range j).map bytes ++ List.replicate (missing - j) 0) := by
    intro j hj
    induction j with
    | zero => rfl
    | succ j ih =>
      have hplace : (rest.length + j) % 2 ^ 64 = rest.length + j := Nat.mod_eq_of_lt (by omega)
      obtain ⟨m, hm⟩ : ∃ m, missing - j = m + 1 := ⟨missing - j - 1, by omega⟩
      have hm' : missing - (j + 1) = m := by omega
      have hlen : ((List.range j).map bytes).length = j := by rw [List.length_map, List.length_range]
      rw [List.range_succ, List.zipIdx_append, List.foldl_append, ih (by omega)]
      simp only [List.length_range, Nat.zero_add, List.zipIdx_singleton, List.foldl_cons, List.foldl_nil, hplace]
      rw [List.set_append_right _ _ (Nat.le_add_right _ _), Nat.add_sub_cancel_left,
        List.set_append_right _ _ (Nat.le_of_eq hlen), hlen, Nat.sub_self, hm, hm', List.replicate_succ,
        List.set_cons_zero, List.map_append, List.append_assoc]
      rfl
  rw [writeBody, hfold missing (Nat.le_refl _), Nat.sub_self, List.replicate_zero, List.append_nil]

/-- A byte that is not at its place: no byte of the body shows it. -/
theorem writeBody_displaced (rest : Bytes) {c : Nat} {moved : List Nat}
    (hlt : rest.length + missing < 2 ^ 64) (hc : c < missing)
    (h : ∀ place, moved[c]? = some place → place % 2 ^ 64 ≠ c) :
    (writeBody rest missing (fun j => if j = c then 1 else 0) moved)[rest.length + c]? = some 0 := by
  have hfold : ∀ (l : List (Nat × Nat)) (body : Bytes),
      (∀ x ∈ l, (rest.length + x.1) % 2 ^ 64 = rest.length + c → x.2 ≠ c) → body[rest.length + c]? = some 0 →
      (l.foldl (fun body x => body.set ((rest.length + x.1) % 2 ^ 64) (if x.2 = c then 1 else 0))
        body)[rest.length + c]? = some 0 := by
    intro l
    induction l with
    | nil => exact fun body _ hbody => hbody
    | cons x l ih =>
      intro body hl hbody
      refine ih _ (fun y hy => hl y (List.mem_cons_of_mem x hy)) ?_
      have hin := (List.getElem?_eq_some_iff.mp hbody).1
      rw [List.getElem?_set]
      split
      · rename_i hplace
        rw [if_pos (by omega), if_neg (hl x List.mem_cons_self hplace)]
      · exact hbody
  refine hfold moved.zipIdx _ (fun x hx hplace heq => ?_) ?_
  · have hmoved := List.mem_zipIdx_iff_getElem?.mp hx
    rw [heq] at hmoved
    exact h x.1 hmoved (by omega)
  · rw [List.getElem?_append_right (Nat.le_add_right _ _), Nat.add_sub_cancel_left, List.getElem?_replicate,
      if_pos hc]

theorem length_following (rest : Bytes) (bytes : Nat → UInt8) (n : Nat) : (following rest bytes n).length = n := by
  rw [following, List.length_append, List.length_take, List.length_map, List.length_range]
  omega

theorem getElem?_following {c : Nat} (bytes : Nat → UInt8) (h : rest.length + c < n) :
    (following rest bytes n)[rest.length + c]? = some (bytes c) := by
  rw [following, List.take_of_length_le (by omega), List.getElem?_append_right (Nat.le_add_right _ _),
    Nat.add_sub_cancel_left, List.getElem?_map, List.getElem?_range (by omega), Option.map_some]

/-! ## Reading what is missing -/

section

variable {missing k : Nat} {results : Nat → Int}

theorem after_of_passed (hlt : missing < 2 ^ 64) (hcounts : ∀ j < k, 0 < results j)
    (hpassed : passed results k = missing) :
    (FixSize.after .readBuffer missing results k).returned = some (toInt missing) ∧
      (FixSize.after .readBuffer missing results k).moved = List.range missing := by
  have hk : ∀ j < k, 0 < results j ∧ passed results j < missing := by
    intro j hj
    have hmono : passed results (j + 1) ≤ passed results k := passed_mono hj
    have hpos := hcounts j hj
    rw [passed] at hmono
    exact ⟨hpos, by omega⟩
  rw [FixSize.after_counts .readBuffer hlt hk (Nat.le_of_eq hpassed)]
  exact FixSize.counted_of_eq hpassed

theorem after_unique {k' n : Nat} {form : FixSizeForm} (h : (FixSize.after form n results k).returned ≠ none)
    (h' : (FixSize.after form n results k').returned ≠ none) :
    FixSize.after form n results k = FixSize.after form n results k' := by
  obtain hle | hle := Nat.le_total k k'
  · exact (FixSize.after_of_returned h hle).symm
  · exact FixSize.after_of_returned h' hle

/-- `readFixSize` returns 0 or less exactly if a result is 0, or if the length is no positive `int`. What it has
stored then, it has stored before the last result. -/
theorem returned_nonpos_iff (hpos : 0 < missing) (hlt : missing < 2 ^ 32)
    (h : Results .readBuffer missing results) {P : List Nat → Prop} :
    (∃ k v, (FixSize.after .readBuffer missing results k).returned = some v ∧ v ≤ 0 ∧
        P (FixSize.after .readBuffer missing results k).moved) ↔
      (∃ k, (FixSize.after .readBuffer missing results k).returned = none ∧ results k = 0 ∧
        P (FixSize.after .readBuffer missing results k).moved) ∨
      2 ^ 31 ≤ missing ∧ ∃ k, (FixSize.after .readBuffer missing results k).returned ≠ none ∧
        P (FixSize.after .readBuffer missing results k).moved := by
  have hsign := toInt_pos_iff hpos hlt
  have hn : missing < 2 ^ 64 := by omega
  have hzero_succ : ∀ {k}, (FixSize.after .readBuffer missing results k).returned = none → results k = 0 →
      FixSize.after .readBuffer missing results (k + 1) =
        { FixSize.after .readBuffer missing results k with returned := some 0 } := by
    intro k hrunning hzero
    rw [FixSize.after_succ hrunning, hzero, FixSize.round_zero]
  constructor
  · rintro ⟨k, v, hr, hv, hP⟩
    have hsome : (FixSize.after .readBuffer missing results k).returned ≠ none := by
      rw [hr]
      exact Option.some_ne_none v
    obtain ⟨-, j, hrunning, hzero⟩ | heq := returned_cases hn h hr
    · -- the call returned at this result, so nothing was stored later
      have hj := hzero_succ hrunning hzero
      rw [after_unique hsome (by rw [hj]; exact Option.some_ne_none 0), hj] at hP
      exact .inl ⟨j, hrunning, hzero, hP⟩
    · exact .inr ⟨by omega, k, hsome, hP⟩
  · rintro (⟨k, hrunning, hzero, hP⟩ | ⟨hge, k, hr, hP⟩)
    · have hk := hzero_succ hrunning hzero
      exact ⟨k + 1, 0, by rw [hk], Int.le_refl 0, by rw [hk]; exact hP⟩
    · obtain ⟨v, hv⟩ := Option.ne_none_iff_exists'.mp hr
      refine ⟨k, v, hv, ?_, hP⟩
      obtain ⟨heq, -⟩ | heq := returned_cases hn h hv
      · exact Int.le_of_eq heq
      · omega

end

/-! ## The body behind the head -/

section

variable {e : SessionEnv} {p : HttpRequestParser} {rest : Bytes} {results : Nat → Int} {maxBodySize n : Nat}

theorem received_of_buffered (hlength : p.getContentLength e = n % 2 ^ 32) (hbody : p.data.body = [])
    (hle : n % 2 ^ 32 ≤ rest.length) :
    BodyRight maxBodySize n rest (recvBodyAfter e p rest results) ↔ n < 2 ^ 32 ∧ n ≤ maxBodySize := by
  have hrecv : ∀ bytes k, ∃ r, recvBodyAfter e p rest results bytes k = .done (.request r) ∧
      r.body = rest.take (n % 2 ^ 32) := by
    intro bytes k
    rw [recvBodyAfter, hlength]
    dsimp only
    split
    · rw [if_neg (Nat.not_lt.mpr hle)]
      exact ⟨_, rfl, body_init _⟩
    · have hzero : n % 2 ^ 32 = 0 := by omega
      refine ⟨_, rfl, ?_⟩
      rw [body_init, hbody, hzero, List.take_zero]
  constructor
  · intro h
    obtain ⟨k, hclosed | ⟨r, hr, hfollowing, hmax⟩⟩ := h fun _ => 0
    · obtain ⟨r, hr, -⟩ := hrecv (fun _ => 0) k
      cases hr.symm.trans hclosed
    · obtain ⟨r', hr', hbody'⟩ := hrecv (fun _ => 0) k
      obtain rfl := Recv.request.inj (BodyRead.done.inj (hr.symm.trans hr'))
      have hlen := congrArg List.length (hbody'.symm.trans hfollowing)
      rw [length_following, List.length_take] at hlen
      rw [hfollowing, length_following] at hmax
      exact ⟨by omega, hmax⟩
  · rintro ⟨hlt, hmax⟩ bytes
    obtain ⟨r, hr, hbody'⟩ := hrecv bytes 0
    have hmod : n % 2 ^ 32 = n := Nat.mod_eq_of_lt hlt
    have hfollowing : r.body = following rest bytes n := by
      rw [hbody', hmod, following, Nat.sub_eq_zero_of_le (by omega)]
      exact (List.append_nil _).symm
    refine ⟨0, .inr ⟨r, hr, hfollowing, ?_⟩⟩
    rw [hfollowing, length_following]
    exact hmax

theorem bodySafe_of_buffered (hle : n % 2 ^ 32 ≤ rest.length) :
    BodySafe maxBodySize n rest results ↔ n < 2 ^ 32 ∧ n ≤ maxBodySize := by
  have hmissing : n % 2 ^ 32 - rest.length = 0 := Nat.sub_eq_zero_of_le hle
  unfold BodySafe
  dsimp only
  rw [hmissing]
  have hreturned : ∀ k, (FixSize.after .readBuffer 0 results k).returned ≠ none := by
    intro k
    have hstart : (FixSize.after .readBuffer 0 results 0).returned ≠ none := Option.some_ne_none _
    rw [FixSize.after_of_returned hstart (Nat.zero_le k)]
    exact hstart
  constructor
  · rintro (⟨hlt, hmax, -⟩ | ⟨k, hrunning, -⟩ | ⟨hge, -⟩)
    · exact ⟨hlt, hmax⟩
    · exact absurd hrunning (hreturned k)
    · omega
  · rintro ⟨hlt, hmax⟩
    exact .inl ⟨hlt, hmax, 0, fun j hj => absurd hj (Nat.not_lt_zero j), rfl⟩

theorem recvBodyAfter_eq (hlength : p.getContentLength e = n % 2 ^ 32) (hlt : rest.length < n % 2 ^ 32)
    (bytes : Nat → UInt8) (k : Nat) :
    recvBodyAfter e p rest results bytes k =
      let s := FixSize.after .readBuffer (n % 2 ^ 32 - rest.length) results k
      if InBody rest (n % 2 ^ 32 - rest.length) s.moved then
        match s.returned with
        | none => .reading
        | some v =>
          if v ≤ 0 then .done .closed
          else .done (.request ({ p.data with
            body := writeBody rest (n % 2 ^ 32 - rest.length) bytes s.moved } : HttpRequest).init)
      else .fault := by
  rw [recvBodyAfter, hlength, if_pos (Nat.zero_lt_of_lt hlt), if_pos hlt]

variable {bytes : Nat → UInt8} {k : Nat}

theorem recvBodyAfter_closed (hlength : p.getContentLength e = n % 2 ^ 32) (hlt : rest.length < n % 2 ^ 32) :
    recvBodyAfter e p rest results bytes k = .done .closed ↔
      ∃ v, (FixSize.after .readBuffer (n % 2 ^ 32 - rest.length) results k).returned = some v ∧ v ≤ 0 ∧
        InBody rest (n % 2 ^ 32 - rest.length)
          (FixSize.after .readBuffer (n % 2 ^ 32 - rest.length) results k).moved := by
  rw [recvBodyAfter_eq hlength hlt]
  dsimp only
  generalize FixSize.after .readBuffer (n % 2 ^ 32 - rest.length) results k = s
  generalize n % 2 ^ 32 - rest.length = missing
  by_cases hin : InBody rest missing s.moved
  · rw [if_pos hin]
    cases s.returned with
    | none => simp
    | some v =>
      by_cases hv : v ≤ 0
      · simp [hv, hin]
      · simp [hv]
  · simp [hin]

/-- A request has the bytes where `readFixSize` has written them. -/
theorem recvBodyAfter_request (hlength : p.getContentLength e = n % 2 ^ 32) (hlt : rest.length < n % 2 ^ 32)
    {r : HttpRequest} (h : recvBodyAfter e p rest results bytes k = .done (.request r)) :
    (FixSize.after .readBuffer (n % 2 ^ 32 - rest.length) results k).returned ≠ none ∧
      r.body = writeBody rest (n % 2 ^ 32 - rest.length) bytes
        (FixSize.after .readBuffer (n % 2 ^ 32 - rest.length) results k).moved := by
  rw [recvBodyAfter_eq hlength hlt] at h
  dsimp only at h
  split at h
  · split at h
    · cases h
    · next v hr =>
      refine ⟨by rw [hr]; exact Option.some_ne_none v, ?_⟩
      split at h
      · cases h
      · rw [← Recv.request.inj (BodyRead.done.inj h), body_init]
  · cases h

theorem body_of_passed (hlength : p.getContentLength e = n % 2 ^ 32) (hlt : rest.length < n % 2 ^ 32)
    (hcounts : ∀ j < k, 0 < results j) (hpassed : passed results k = n % 2 ^ 32 - rest.length)
    {k' : Nat} {r : HttpRequest}
    (h : recvBodyAfter e p rest results bytes k' = .done (.request r)) :
    r.body = following rest bytes (n % 2 ^ 32) := by
  have hmissing : n % 2 ^ 32 - rest.length < 2 ^ 64 := by omega
  obtain ⟨hr', hbody⟩ := recvBodyAfter_request hlength hlt h
  obtain ⟨hr, hmoved⟩ := after_of_passed hmissing hcounts hpassed
  rw [after_unique hr' (by rw [hr]; exact Option.some_ne_none _), hmoved, writeBody_range bytes (by omega)] at hbody
  rw [hbody, following, List.take_of_length_le (Nat.le_of_lt hlt)]

/-- An error comes first: a byte that is read after it is not at its place, and not every body shows it. -/
theorem not_received_of_error (hlength : p.getContentLength e = n % 2 ^ 32) (hlt : rest.length < n % 2 ^ 32)
    (h : Results .readBuffer (n % 2 ^ 32 - rest.length) results)
    (hopen : ∀ bytes k, recvBodyAfter e p rest results bytes k ≠ .done .closed)
    (hk : ∀ j < k, 0 < results j ∧ passed results j < n % 2 ^ 32 - rest.length)
    (hpassed : passed results k < n % 2 ^ 32 - rest.length) (herr : results k = -1) :
    ¬BodyRight maxBodySize n rest (recvBodyAfter e p rest results) := by
  intro hreceived
  have hmissing : n % 2 ^ 32 - rest.length < 2 ^ 64 := by omega
  obtain ⟨k', hclosed | ⟨r, hr, hfollowing, -⟩⟩ := hreceived fun j => if j = passed results k then 1 else 0
  · exact hopen _ k' hclosed
  obtain ⟨hreturned, hbody⟩ := recvBodyAfter_request hlength hlt hr
  have hlater : k + 1 ≤ k' := by
    by_contra hge
    refine hreturned (request_counts .readBuffer hmissing (fun j hj => hk j (by omega)) ?_ (fun hform => ?_)).1
    · exact Nat.lt_of_le_of_lt (passed_mono (by omega)) hpassed
    · exact absurd hform (by decide)
  have hplace : ∀ place, (FixSize.after .readBuffer (n % 2 ^ 32 - rest.length) results k').moved[passed results k]? =
      some place → place % 2 ^ 64 ≠ passed results k := by
    intro place hmoved
    obtain ⟨hlen, -⟩ | ⟨place', hplace', hne⟩ := displaced_of_error hmissing h hk hpassed herr hlater
    · rw [List.getElem?_eq_none (Nat.le_of_eq hlen)] at hmoved
      exact absurd hmoved (Option.some_ne_none place).symm
    · obtain rfl := Option.some.inj (hmoved.symm.trans hplace')
      exact hne
  have hzero := writeBody_displaced rest (by omega) hpassed hplace
  have hle : n % 2 ^ 32 ≤ n := Nat.mod_le n _
  rw [← hbody, hfollowing, getElem?_following _ (by omega), if_pos rfl] at hzero
  exact absurd (Option.some.inj hzero) (by decide)

theorem received_of_missing (hlength : p.getContentLength e = n % 2 ^ 32) (hlt : rest.length < n % 2 ^ 32)
    (h : Results .readBuffer (n % 2 ^ 32 - rest.length) results) :
    BodyRight maxBodySize n rest (recvBodyAfter e p rest results) ↔ BodySafe maxBodySize n rest results := by
  have hmissing : n % 2 ^ 32 - rest.length < 2 ^ 64 := by omega
  have hclosing := returned_nonpos_iff (Nat.sub_pos_of_lt hlt) (by omega) h
    (P := InBody rest (n % 2 ^ 32 - rest.length))
  unfold BodySafe
  dsimp only
  rw [← hclosing]
  -- a session that is closed is right whatever the body is
  by_cases hclosed : ∃ k v,
      (FixSize.after .readBuffer (n % 2 ^ 32 - rest.length) results k).returned = some v ∧ v ≤ 0 ∧
        InBody rest (n % 2 ^ 32 - rest.length)
          (FixSize.after .readBuffer (n % 2 ^ 32 - rest.length) results k).moved
  · obtain ⟨k, hv⟩ := hclosed
    exact iff_of_true (fun bytes => ⟨k, .inl ((recvBodyAfter_closed hlength hlt).mpr hv)⟩) (.inr ⟨k, hv⟩)
  have hopen : ∀ bytes k, recvBodyAfter e p rest results bytes k ≠ .done .closed := fun bytes k hk =>
    hclosed ⟨k, (recvBodyAfter_closed hlength hlt).mp hk⟩
  rw [or_iff_left hclosed]
  constructor
  -- the results count up to one that does not, or to the last byte
  · intro hreceived
    obtain ⟨k, hk, hend⟩ := exists_end results (n % 2 ^ 32 - rest.length)
    have hle := h.passed_le hmissing hk fun hform => absurd hform (by decide)
    obtain hpassed | heq := Nat.lt_or_eq_of_le hle
    · exfalso
      obtain ⟨hrunning, -⟩ := request_counts .readBuffer hmissing hk hpassed fun hform => absurd hform (by decide)
      -- an error comes first, or the end of the stream
      obtain herr | ⟨hge, -⟩ := h k hrunning
      · exact not_received_of_error hlength hlt h hopen hk hpassed herr hreceived
      · have hzero : results k = 0 := Int.le_antisymm (hend.resolve_left (Nat.not_le.mpr hpassed)) hge
        refine hclosed (hclosing.mpr (.inl ⟨k, hrunning, hzero, ?_⟩))
        rw [FixSize.after_counts .readBuffer hmissing hk hle, FixSize.counted_of_lt hpassed]
        exact inBody_range hle
    · have hcounts : ∀ j < k, 0 < results j := fun j hj => (hk j hj).1
      obtain ⟨k', hk' | ⟨r, hr, hfollowing, hmax⟩⟩ := hreceived fun _ => 0
      · exact absurd hk' (hopen _ k')
      have hlen := congrArg List.length (hfollowing.symm.trans (body_of_passed hlength hlt hcounts heq hr))
      rw [length_following, length_following] at hlen
      rw [hfollowing, length_following] at hmax
      exact ⟨by omega, hmax, k, hcounts, heq⟩
  -- every byte is at its place
  · rintro ⟨hn, hmax, k, hcounts, hpassed⟩ bytes
    obtain ⟨hr, hmoved⟩ := after_of_passed hmissing hcounts hpassed
    have hmod : n % 2 ^ 32 = n := Nat.mod_eq_of_lt hn
    have hin : InBody rest (n % 2 ^ 32 - rest.length)
        (FixSize.after .readBuffer (n % 2 ^ 32 - rest.length) results k).moved := by
      rw [hmoved]
      exact inBody_range (Nat.le_refl _)
    obtain ⟨r, hrecv⟩ : ∃ r, recvBodyAfter e p rest results bytes k = .done (.request r) := by
      have hpos : ¬toInt (n % 2 ^ 32 - rest.length : Nat) ≤ 0 := fun hv => hclosed ⟨k, _, hr, hv, hin⟩
      rw [recvBodyAfter_eq hlength hlt]
      dsimp only
      rw [if_pos hin, hr]
      dsimp only
      rw [if_neg hpos]
      exact ⟨_, rfl⟩
    have hbody := body_of_passed hlength hlt hcounts hpassed hrecv
    rw [hmod] at hbody
    refine ⟨k, .inr ⟨r, hrecv, hbody, ?_⟩⟩
    rw [hbody, length_following]
    exact hmax

end

theorem SizedHead.bodyReceived_iff_right {q : HttpRequestParser}
    (hhead : SizedHead e head q n) (rest : Bytes) (hcast : CastsDecimals e) (hfit : (head ++ rest).length
      ≤ e.bufferSize)
    (herr : q.error = 0) (maxBodySize : Nat) (results : Nat → Int) :
    ∃ p : HttpRequestParser, p.getContentLength e = n % 2 ^ 32 ∧ p.data.body = [] ∧
      (BodyReceived e maxBodySize n head rest results ↔
        BodyRight maxBodySize n rest (recvBodyAfter e p rest results)) := by
  obtain ⟨p, ps, hdata, hrecv⟩ := (hhead.recvHead_eq hfit (head ++ rest).length).2 herr
  have hafter : recvRequestAfter e (head ++ rest) results = recvBodyAfter e p rest results := by
    funext bytes k
    rw [recvRequestAfter, hrecv]
  refine ⟨p, hhead.getContentLength_eq hcast hdata, by rw [hdata, hhead.body_eq], ?_⟩
  rw [BodyReceived, hafter]

/-- **The body of a request.** A head and any bytes behind it in one read: `recvRequest` returns the bytes that the
`Content-Length` announces, or closes, exactly if the parser refuses the head or the length is safe. -/
theorem bodyReceived_iff {q : HttpRequestParser}
    {results : Nat → Int} (maxBodySize : Nat) (hcast : CastsDecimals e) (hhead : SizedHead e head q n)
    (hfit : (head ++ rest).length ≤ e.bufferSize) (h : Results .readBuffer (n % 2 ^ 32 - rest.length) results) :
    BodyReceived e maxBodySize n head rest results ↔ q.error ≠ 0 ∨ BodySafe maxBodySize n rest results := by
  by_cases herr : q.error = 0
  · obtain ⟨p, hlength, hbody, hiff⟩ := hhead.bodyReceived_iff_right rest hcast hfit herr maxBodySize results
    rw [hiff, or_iff_right (not_not.mpr herr)]
    by_cases hlt : rest.length < n % 2 ^ 32
    · exact received_of_missing hlength hlt h
    · have hle := Nat.le_of_not_lt hlt
      rw [received_of_buffered hlength hbody hle, bodySafe_of_buffered hle]
  · refine iff_of_true (fun bytes => ⟨0, .inl ?_⟩) (.inl herr)
    rw [recvRequestAfter, (hhead.recvHead_eq hfit (head ++ rest).length).1 herr]

/-! ## The default configuration -/

theorem castsDecimals_default : CastsDecimals defaultEnv := by
  intro text v hnum hlt
  obtain ⟨hne, hdigits, hvalue⟩ := numeral_eq_some.mp hnum
  have hall : text.all (fun d => 48 ≤ d && d ≤ 57) = true :=
    List.all_eq_true.mpr fun b hb => by simpa using digitValue_lt_ten_iff.mp (hdigits b hb)
  have hfold : text.foldl (fun n d => 10 * n + (d.toNat - 48)) 0 = v := by
    rw [← hvalue, valueOf]
    refine List.foldl_ext _ _ 0 fun n b hb => ?_
    rw [digitValue, if_pos (digitValue_lt_ten_iff.mp (hdigits b hb)), Nat.mul_comm]
  rw [show defaultEnv.lexicalCast text = decimal text from rfl, decimal, if_pos ⟨hne, hall⟩]
  dsimp only
  rw [hfold, if_pos hlt]

/-- A head, from what the parser finds in it. -/
theorem exists_sizedHead (h : (scan (start (Grammar.main e.uriRelaxed)) head).isSome ∧
      ((HttpRequestParser.new e.uriRelaxed).execute head).bind
        (fun r => (r.1.data.headers.find? (str "content-length")).bind numeral) = some n ∧
      ((HttpRequestParser.new e.uriRelaxed).execute head).map (fun r => r.1.error) = some 0 ∧ n < 2 ^ 64) :
    ∃ q, SizedHead e head q n ∧ q.error = 0 := by
  obtain ⟨haccepted, hsize, hknown, hlt⟩ := h
  have hat := at_start haccepted
  obtain ⟨q, hq⟩ := Http.exists_exec hat (sim_new _) rfl (isSome_follow_start haccepted)
  have hparsed : (HttpRequestParser.new e.uriRelaxed).execute head = some (q, head.length) := by
    rw [HttpRequestParser.execute_eq _ (List.ne_nil_of_length_pos hat.lt)]
    exact hq
  rw [hparsed] at hsize hknown
  exact ⟨q, ⟨haccepted, hparsed, hsize, hlt⟩, Option.some.inj hknown⟩

/-- Three bytes, of which two come with the head. -/
theorem bodyReceived_three :
    BodyReceived defaultEnv (64 * 1024 * 1024) 3 (str "PUT /a HTTP/1.1\r\nContent-Length:3\r\n\r\n") (str "xy")
      fun _ => 1 := by
  obtain ⟨q, hhead, -⟩ := @exists_sizedHead defaultEnv (str "PUT /a HTTP/1.1\r\nContent-Length:3\r\n\r\n") 3
    (by decide +kernel)
  rw [bodyReceived_iff _ castsDecimals_default hhead (by decide +kernel)
    (results_one .readBuffer (by decide) fun _ => .inr rfl)]
  exact .inr (.inl ⟨by decide, by decide, 1, fun _ _ => Int.one_pos, rfl⟩)

/-- A `Content-Length` of 2^32 is one of 0, and a body of two bytes is longer than a maximum of one. -/
theorem bodyReceived_fails :
    (∃ q, SizedHead defaultEnv (str "PUT /a HTTP/1.1\r\nContent-Length:4294967296\r\n\r\n") q (2 ^ 32)) ∧
    ¬BodyReceived defaultEnv (64 * 1024 * 1024) (2 ^ 32)
      (str "PUT /a HTTP/1.1\r\nContent-Length:4294967296\r\n\r\n") [] (fun _ => 0) ∧
    (∃ q, SizedHead defaultEnv (str "PUT /a HTTP/1.1\r\nContent-Length:2\r\n\r\n") q 2) ∧
    ¬BodyReceived defaultEnv 1 2 (str "PUT /a HTTP/1.1\r\nContent-Length:2\r\n\r\n") (str "xy") fun _ => 0 := by
  obtain ⟨q, hhead, herr⟩ := @exists_sizedHead defaultEnv
    (str "PUT /a HTTP/1.1\r\nContent-Length:4294967296\r\n\r\n") (2 ^ 32)
    (by decide +kernel)
  obtain ⟨q', hhead', herr'⟩ := @exists_sizedHead defaultEnv
    (str "PUT /a HTTP/1.1\r\nContent-Length:2\r\n\r\n") 2
    (by decide +kernel)
  refine ⟨⟨q, hhead⟩, ?_, ⟨q', hhead'⟩, ?_⟩
  · obtain ⟨p, hlength, hbody, hiff⟩ :=
      hhead.bodyReceived_iff_right [] castsDecimals_default (by decide +kernel) herr
        (64 * 1024 * 1024) fun _ => 0
    rw [hiff, received_of_buffered hlength hbody (by decide)]
    decide
  · obtain ⟨p, hlength, hbody, hiff⟩ :=
      hhead'.bodyReceived_iff_right (str "xy") castsDecimals_default (by decide +kernel) herr' 1 fun _ => 0
    rw [hiff, received_of_buffered hlength hbody (by decide)]
    decide

end Sherry.Http
