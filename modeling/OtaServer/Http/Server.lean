import OtaServer.Http.Segmentation

/-!
# Requests on one connection (`HttpServer::handleClient`, `sherry/http/http_server.cc`)

`handleClient` calls `recvRequest` until it gets no request, or one that closes the connection. The buffer belongs to
the call: bytes behind the request that are in it are lost when the call returns. A round whose response is still
being sent when `sendResponse` returns, as for a file download, calls `YieldToHold`; whoever sends the rest has to
schedule the fiber again.

* `handleClient`: the requests that the calls return, and what each call leaves to read.
* `Delivered`: the calls return what was sent, in order, and leave the bytes of the later requests.
* `Fits`: the read that gets the head does not go beyond the request.
* `delivered_cons_iff` is one call, `handleClient_delivers_iff` all of them.
-/

namespace Sherry.Http

open Lib Ragel

/-! ## The loop -/

/-- How a round ends: whether its response is being sent when `sendResponse` returns (`isSending`), and whether the
fiber is scheduled again behind the `YieldToHold` that follows then. -/
structure Round where
  sending : Bool := false
  resumed : Bool := false

/-- The fiber comes to the end of the round. -/
def Round.goesOn (x : Round) : Bool := !x.sending || x.resumed

/-- The loop of `handleClient`, with the ends of its rounds. No servlet reads from the session. -/
def clientLoop (e : SessionEnv) (keepalive : Bool) :
    Nat → (Nat → Round) → Pieces → List (HttpRequest × Pieces)
  | 0, _, _ => []
  | fuel + 1, rounds, ps =>
    match recvRequest e ps with
    | (.request r, ps') =>
      (r, ps') :: if !(rounds 0).goesOn || !keepalive || r.close then []
        else clientLoop e keepalive fuel (fun n => rounds (n + 1)) ps'
    | (.closed, _) | (.threw, _) => []

/-- `HttpServer::handleClient`: the requests that the calls of `recvRequest` return, each with the pieces that are
left behind it. Each request takes at least a byte. -/
def handleClient (e : SessionEnv) (keepalive : Bool) (rounds : Nat → Round) (ps : Pieces) :
    List (HttpRequest × Pieces) :=
  clientLoop e keepalive (ps.flatten.length + 1) rounds ps

/-- A call returns a request and takes at least a byte, or it returns none. -/
theorem recvRequest_cases (e : SessionEnv) (ps : Pieces) :
    (∃ r ps', recvRequest e ps = (.request r, ps') ∧ ps'.flatten.length < ps.flatten.length) ∨
      ∀ r, (recvRequest e ps).1 ≠ .request r := by
  generalize h : recvRequest e ps = out
  obtain ⟨out, ps'⟩ := out
  cases out with
  | request r => exact .inl ⟨r, ps', rfl, recvRequest_lt h⟩
  | closed => exact .inr nofun
  | threw => exact .inr nofun

variable {e : SessionEnv} {keepalive : Bool} {rounds : Nat → Round}

variable {later : Bytes} {ps ps' : Pieces} {r : HttpRequest} {m : Sent} {ms : List Sent} {n : Nat}

theorem clientLoop_request {fuel : Nat} (h : recvRequest e ps = (.request r, ps')) :
    clientLoop e keepalive (fuel + 1) rounds ps =
      (r, ps') :: if !(rounds 0).goesOn || !keepalive || r.close then []
        else clientLoop e keepalive fuel (fun n => rounds (n + 1)) ps' := by
  rw [clientLoop, h]

theorem clientLoop_none {fuel : Nat} (h : ∀ r, (recvRequest e ps).1 ≠ .request r) :
    clientLoop e keepalive (fuel + 1) rounds ps = [] := by
  rw [clientLoop]
  split
  · next r ps' hr => exact absurd (by rw [hr]) (h r)
  · rfl
  · rfl

/-- With enough fuel the loop does not run out of it. -/
theorem clientLoop_eq {m : Nat} (hn : ps.flatten.length < n) (hm : ps.flatten.length < m) :
    clientLoop e keepalive n rounds ps = clientLoop e keepalive m rounds ps := by
  induction n generalizing m rounds ps with
  | zero => omega
  | succ n ih =>
    obtain ⟨m, rfl⟩ : ∃ k, m = k + 1 := ⟨m - 1, by omega⟩
    obtain ⟨r, ps', hreq, hlt⟩ | hnone := recvRequest_cases e ps
    · rw [clientLoop_request hreq, clientLoop_request hreq, ih (m := m) (by omega) (by omega)]
    · rw [clientLoop_none hnone, clientLoop_none hnone]

theorem handleClient_request (h : recvRequest e ps = (.request r, ps')) :
    handleClient e keepalive rounds ps =
      (r, ps') :: if !(rounds 0).goesOn || !keepalive || r.close then []
        else handleClient e keepalive (fun n => rounds (n + 1)) ps' := by
  have hlt := recvRequest_lt h
  rw [handleClient, clientLoop_request h, handleClient, clientLoop_eq hlt (Nat.lt_succ_self _)]

theorem handleClient_none (h : ∀ r, (recvRequest e ps).1 ≠ .request r) : handleClient e keepalive rounds ps = [] :=
  clientLoop_none h

/-! ## What is sent -/

/-- A request as it is sent. -/
structure Sent where
  head : Bytes
  body : Bytes

namespace Sent

/-- Its bytes. -/
def bytes (m : Sent) : Bytes := m.head ++ m.body

/-- The parser that has had the head, and nothing else, in its buffer. -/
def parsed (e : SessionEnv) (m : Sent) : Option HttpRequestParser :=
  ((HttpRequestParser.new e.uriRelaxed).execute m.head).map (·.1)

/-- The request that is sent. -/
def request? (e : SessionEnv) (m : Sent) : Option HttpRequest :=
  (m.parsed e).map fun q => requestOf q.data m.body.length m.body

/-- The parser knows the method and the version. -/
def Known (e : SessionEnv) (m : Sent) : Prop := (m.parsed e).map (·.error) = some 0

instance (e : SessionEnv) (m : Sent) : Decidable (m.Known e) :=
  inferInstanceAs (Decidable (_ = some 0))

/-- A complete request that does not close the connection. -/
structure KeepAlive (e : SessionEnv) (m : Sent) : Prop where
  complete : CompleteRequest e m.head m.body
  stays : (m.request? e).map (·.close) = some false

instance (e : SessionEnv) (m : Sent) : Decidable (m.KeepAlive e) :=
  decidable_of_iff (CompleteRequest e m.head m.body ∧ (m.request? e).map (·.close) = some false)
    ⟨fun h => ⟨h.1, h.2⟩, fun h => ⟨h.complete, h.stays⟩⟩

end Sent

/-- The bytes of requests that are sent back to back. -/
def stream (ms : List Sent) : Bytes := ms.flatMap Sent.bytes

/-- Each head lies within one piece. -/
def HeadsWhole : List Sent → Pieces → Prop
  | [], _ => True
  | m :: ms, ps =>
    m.head.length ≤ (ps.headD []).length ∧ HeadsWhole ms (dropBytes m.bytes.length ps)

instance instDecidableHeadsWhole : (ms : List Sent) → (ps : Pieces) → Decidable (HeadsWhole ms ps)
  | [], _ => .isTrue trivial
  | m :: ms, ps =>
    have := instDecidableHeadsWhole ms (dropBytes m.bytes.length ps)
    inferInstanceAs (Decidable (_ ∧ _))

/-- The calls return the requests in order, and each leaves the bytes of the later ones, all of them and no others. -/
def Delivered (e : SessionEnv) : List Sent → List (HttpRequest × Pieces) → Prop
  | [], rs => rs = []
  | _ :: _, [] => False
  | m :: ms, (r, ps) :: rs => m.request? e = some r ∧ ps.flatten = stream ms ∧ Delivered e ms rs

theorem Delivered.length_eq {rs : List (HttpRequest × Pieces)} (h : Delivered e ms rs) : rs.length = ms.length := by
  induction ms generalizing rs with
  | nil =>
    obtain rfl : rs = [] := h
    rfl
  | cons m ms ih =>
    cases rs with
    | nil => exact h.elim
    | cons c rs => rw [List.length_cons, List.length_cons, ih h.2.2]

/-- How many bytes the first read gets. -/
def firstRead (e : SessionEnv) (ps : Pieces) : Nat := min e.bufferSize (ps.headD []).length

/-- The parser knows the method and the version, the read that gets the head gets no byte of a later request, and what
it leaves of the body is less than `2 ^ 31` bytes. -/
structure Fits (e : SessionEnv) (m : Sent) (ps : Pieces) : Prop where
  known : m.Known e
  within : firstRead e ps ≤ m.bytes.length
  missing : m.bytes.length - firstRead e ps < 2 ^ 31

instance (e : SessionEnv) (m : Sent) (ps : Pieces) : Decidable (Fits e m ps) :=
  decidable_of_iff (m.Known e ∧ firstRead e ps ≤ m.bytes.length ∧
      m.bytes.length - firstRead e ps < 2 ^ 31)
    ⟨fun h => ⟨h.1, h.2.1, h.2.2⟩, fun h => ⟨h.known, h.within, h.missing⟩⟩

/-- Each request fits the read at its start. -/
def AllFit (e : SessionEnv) : List Sent → Pieces → Prop
  | [], _ => True
  | m :: ms, ps => Fits e m ps ∧ AllFit e ms (dropBytes m.bytes.length ps)

instance instDecidableAllFit (e : SessionEnv) :
    (ms : List Sent) → (ps : Pieces) → Decidable (AllFit e ms ps)
  | [], _ => .isTrue trivial
  | m :: ms, ps =>
    have := instDecidableAllFit e ms (dropBytes m.bytes.length ps)
    inferInstanceAs (Decidable (_ ∧ _))

/-! ## One call -/

theorem le_of_mem_cutPositions {c : Nat} (h : n ∈ cutPositions c ps) : c ≤ n := by
  induction ps generalizing c with
  | nil => cases h
  | cons p ps ih =>
    rcases List.mem_cons.mp h with rfl | h
    · omega
    · have := ih h
      omega

/-- A head that the first piece holds is not cut. -/
theorem not_cut_of_whole {c : Nat} {p : Bytes} (h : n ≤ p.length) (hc : c ∈ cutPositions 0 (p :: ps)) : ¬ c < n := by
  rcases List.mem_cons.mp hc with rfl | hc
  · omega
  · have := le_of_mem_cutPositions hc
    omega

theorem requestOf_append (d : HttpRequest) (body later : Bytes) :
    requestOf d body.length (body ++ later) = requestOf d body.length body := by
  rw [requestOf, requestOf, List.take_left, List.take_length]

/-- What a call makes of a request whose head is in the first piece. -/
theorem recvRequest_whole (hm : m.KeepAlive e) (hflat : ps.flatten = m.bytes ++ later) (hne : NonEmpty ps)
    (hwhole : m.head.length ≤ (ps.headD []).length) {q : HttpRequestParser} (hq : m.parsed e = some q) :
    (q.error ≠ 0 → (recvRequest e ps).1 = .closed) ∧ (q.error = 0 →
        (2 ^ 31 ≤ m.body.length % 2 ^ 32 - (firstRead e ps - m.head.length) → (recvRequest e ps).1 = .closed) ∧
        (m.body.length % 2 ^ 32 - (firstRead e ps - m.head.length) < 2 ^ 31 → recvRequest e ps =
            (.request (requestOf q.data (m.body.length % 2 ^ 32) (m.body ++ later)),
              dropBytes (m.head.length + max (m.body.length % 2 ^ 32) (firstRead e ps - m.head.length)) ps))) := by
  have hpos : 0 < m.head.length := (at_start hm.complete.accepted).lt
  cases ps with
  | nil =>
    rw [List.headD_nil, List.length_nil] at hwhole
    omega
  | cons p ps =>
    rw [List.headD_cons] at hwhole
    rw [Sent.bytes, List.append_assoc] at hflat
    obtain ⟨q', hrun, -⟩ := hm.complete.exists_exec
    have hq' : m.parsed e = some q' := by
      rw [Sent.parsed, HttpRequestParser.execute_eq _ (List.ne_nil_of_length_pos hpos)]
      exact congrArg (Option.map (·.1)) hrun
    obtain rfl : q' = q := Option.some.inj (hq'.symm.trans hq)
    have hbuf : buffered e.bufferSize m.head.length (p :: ps) =
        firstRead e (p :: ps) - m.head.length := by
      rw [buffered, if_neg (by omega)]
      rfl
    rw [← hbuf]
    exact recvRequest_eq hm.complete hflat hne
      (fun c hc hlt => absurd hlt (not_cut_of_whole hwhole hc)) hrun

theorem firstRead_le (ps : Pieces) : firstRead e ps ≤ ps.flatten.length := by
  cases ps with
  | nil => exact Nat.min_le_right _ _
  | cons p ps =>
    have := Nat.min_le_right e.bufferSize p.length
    rw [firstRead, List.headD_cons, List.flatten_cons, List.length_append]
    omega

/-- **One call.** It returns the request that is sent and leaves the later bytes, if the request
fits. -/
theorem recvRequest_of_fits (hm : m.KeepAlive e) (hflat : ps.flatten = m.bytes ++ later) (hne : NonEmpty ps)
    (hwhole : m.head.length ≤ (ps.headD []).length) (hfits : Fits e m ps) : ∃ r, m.request? e = some r ∧
      recvRequest e ps = (.request r, dropBytes m.bytes.length ps) := by
  obtain ⟨q, hq, herr⟩ := Option.map_eq_some_iff.mp hfits.known
  have hbytes : m.bytes.length = m.head.length + m.body.length := List.length_append
  have hwithin := hfits.within
  have hmissing := hfits.missing
  have hfirst : firstRead e ps < 2 ^ 31 :=
    Nat.lt_of_le_of_lt (Nat.min_le_left _ _) e.bufferSize_lt
  have hmod : m.body.length % 2 ^ 32 = m.body.length := Nat.mod_eq_of_lt (by omega)
  obtain ⟨-, hgood⟩ := recvRequest_whole hm hflat hne hwhole hq
  refine ⟨requestOf q.data m.body.length m.body, by rw [Sent.request?, hq]; rfl, ?_⟩
  rw [(hgood herr).2 (by omega), hmod, requestOf_append, Nat.max_eq_left (by omega), hbytes]

/-- A call that returns a request and leaves the later bytes has had one that fits. -/
theorem fits_of_recvRequest (hm : m.KeepAlive e) (hflat : ps.flatten = m.bytes ++ later)
    (hne : NonEmpty ps) (hwhole : m.head.length ≤ (ps.headD []).length)
    (hrecv : recvRequest e ps = (.request r, ps')) (hleft : ps'.flatten = later) : Fits e m ps := by
  obtain ⟨r', hr', -⟩ := Option.map_eq_some_iff.mp hm.stays
  obtain ⟨q, hq, -⟩ := Option.map_eq_some_iff.mp hr'
  obtain ⟨hbad, hgood⟩ := recvRequest_whole hm hflat hne hwhole hq
  rw [hrecv] at hbad hgood
  have herr : q.error = 0 := by
    by_contra h
    cases hbad h
  have hsmall : m.body.length % 2 ^ 32 - (firstRead e ps - m.head.length) < 2 ^ 31 := by
    by_contra h
    cases (hgood herr).1 (by omega)
  obtain ⟨-, rfl⟩ := Prod.mk.inj ((hgood herr).2 hsmall)
  have hfirst := firstRead_le (e := e) ps
  have hlen := congrArg List.length hleft
  rw [flatten_dropBytes, List.length_drop] at hlen
  rw [hflat, List.length_append] at hlen hfirst
  have hbytes : m.bytes.length = m.head.length + m.body.length := List.length_append
  have hmod := Nat.mod_le m.body.length (2 ^ 32)
  have hhead : m.head.length ≤ firstRead e ps :=
    Nat.le_min.mpr ⟨Nat.le_of_lt hm.complete.short, hwhole⟩
  -- as many bytes are taken as the request has
  have htaken : max (m.body.length % 2 ^ 32) (firstRead e ps - m.head.length) = m.body.length := by
    omega
  refine ⟨by rw [Sent.Known, hq, Option.map_some, herr], ?_, ?_⟩
  · omega
  · omega

/-! ## All calls -/

theorem handleClient_empty (h : ps.flatten = []) : handleClient e keepalive rounds ps = [] := by
  obtain ⟨r, ps', -, hlt⟩ | hnone := recvRequest_cases e ps
  · rw [h] at hlt
    exact absurd hlt (Nat.not_lt_zero _)
  · exact handleClient_none hnone

/-- A round with a request that fits, and the rounds behind it. -/
theorem handleClient_of_fits (hm : m.KeepAlive e)
    (hflat : ps.flatten = m.bytes ++ later) (hne : NonEmpty ps)
    (hwhole : m.head.length ≤ (ps.headD []).length) (hfits : Fits e m ps) :
    ∃ r, m.request? e = some r ∧ handleClient e keepalive rounds ps =
      (r, dropBytes m.bytes.length ps) ::
        if keepalive && (rounds 0).goesOn then
          handleClient e keepalive (fun n => rounds (n + 1)) (dropBytes m.bytes.length ps)
        else [] := by
  obtain ⟨r, hr, hrecv⟩ := recvRequest_of_fits hm hflat hne hwhole hfits
  have hstays : r.close = false := by
    have := hm.stays
    rw [hr] at this
    exact Option.some.inj this
  refine ⟨r, hr, ?_⟩
  rw [handleClient_request hrecv, hstays]
  cases keepalive <;> cases (rounds 0).goesOn <;> rfl

/-- The first of the calls that deliver requests has had one that fits. -/
theorem fits_of_delivered (hm : m.KeepAlive e) (hflat : ps.flatten = m.bytes ++ stream ms) (hne : NonEmpty ps)
    (hwhole : m.head.length ≤ (ps.headD []).length)
    (h : Delivered e (m :: ms) (handleClient e keepalive rounds ps)) : Fits e m ps := by
  obtain ⟨r, ps', hreq, -⟩ | hnone := recvRequest_cases e ps
  · rw [handleClient_request hreq] at h
    exact fits_of_recvRequest hm hflat hne hwhole hreq h.2.1
  · rw [handleClient_none hnone] at h
    exact h.elim

theorem delivered_cons_iff (hm : m.KeepAlive e)
    (hflat : ps.flatten = m.bytes ++ stream ms) (hne : NonEmpty ps)
    (hwhole : m.head.length ≤ (ps.headD []).length) :
    Delivered e (m :: ms) (handleClient e keepalive rounds ps) ↔
      Fits e m ps ∧ Delivered e ms
        (if keepalive && (rounds 0).goesOn then
          handleClient e keepalive (fun n => rounds (n + 1)) (dropBytes m.bytes.length ps)
        else []) := by
  constructor
  · intro h
    have hfits := fits_of_delivered hm hflat hne hwhole h
    obtain ⟨r, -, hloop⟩ := handleClient_of_fits hm hflat hne hwhole hfits
    rw [hloop] at h
    exact ⟨hfits, h.2.2⟩
  · rintro ⟨hfits, hrest⟩
    obtain ⟨r, hr, hloop⟩ := handleClient_of_fits hm hflat hne hwhole hfits
    rw [hloop]
    exact ⟨hr, by rw [flatten_dropBytes, hflat, List.drop_left], hrest⟩

/-- **Requests back to back.** If no head is cut, the calls of `handleClient` return the requests that are sent, in
order and with nothing lost or mixed up, exactly if each request fits the read at its start, the server keeps
connections open, or there is no second request, and the fiber comes to the end of each round but the last. -/
theorem handleClient_delivers_iff {keepalive : Bool} {rounds : Nat → Round} (hms : ∀ m ∈ ms, m.KeepAlive e)
    (hflat : ps.flatten = stream ms) (hne : NonEmpty ps) (hwhole : HeadsWhole ms ps) :
    Delivered e ms (handleClient e keepalive rounds ps) ↔
      AllFit e ms ps ∧ (keepalive = true ∨ ms.length ≤ 1) ∧ ∀ n, n + 1 < ms.length → (rounds n).goesOn = true := by
  induction ms generalizing rounds ps with
  | nil => exact ⟨fun _ => ⟨trivial, .inr (Nat.zero_le 1), by simp⟩, fun _ => handleClient_empty hflat⟩
  | cons m ms ih =>
    obtain ⟨hhead, hwhole'⟩ := hwhole
    have hcons : ps.flatten = m.bytes ++ stream ms := hflat
    have hleft : (dropBytes m.bytes.length ps).flatten = stream ms := by
      rw [flatten_dropBytes, hcons, List.drop_left]
    rw [delivered_cons_iff (hms m List.mem_cons_self) hcons hne hhead, AllFit, and_assoc]
    refine and_congr_right fun _ => ?_
    by_cases hon : keepalive = true ∧ (rounds 0).goesOn = true
    · rw [if_pos (by simp [hon]), ih (fun m' hm' => hms m' (List.mem_cons_of_mem m hm')) hleft
        (hne.dropBytes _) hwhole']
      refine and_congr_right fun _ => and_congr (by simp [hon.1]) ⟨fun h n hn => ?_, fun h n hn => ?_⟩
      · cases n with
        | zero => exact hon.2
        | succ n => exact h n (Nat.lt_of_succ_lt_succ hn)
      · exact h (n + 1) (Nat.succ_lt_succ hn)
    · -- there is no second call
      rw [if_neg (by simpa using hon)]
      cases ms with
      | nil => exact ⟨fun _ => ⟨trivial, .inr (Nat.le_refl 1), by simp⟩, fun _ => rfl⟩
      | cons m' ms =>
        refine ⟨fun h => h.elim, fun ⟨_, hkeep, hgoes⟩ => hon ⟨?_, ?_⟩⟩
        · simpa using hkeep
        · exact hgoes 0 (by simp)

/-- Two requests, the second of which starts in the piece that ends the body of the first. The fiber waits for the
rest of each response. -/
theorem handleClient_delivers_two : Delivered defaultEnv
      [⟨str "PUT /a HTTP/1.1\r\nConnection:keep-alive\r\nContent-Length:2\r\n\r\n", str "xy"⟩,
        ⟨str "GET /b HTTP/1.1\r\nConnection:keep-alive\r\n\r\n", []⟩]
      (handleClient defaultEnv true (fun _ => ⟨true, true⟩)
        [str "PUT /a HTTP/1.1\r\nConnection:keep-alive\r\nContent-Length:2\r\n\r\nx",
          str "yGET /b HTTP/1.1\r\nConnection:keep-alive\r\n\r\n"]) := by
  refine (handleClient_delivers_iff ?_ ?_ ?_ ?_).mpr ⟨?_, .inl rfl, fun _ _ => rfl⟩
  all_goals decide +kernel

/-- Two requests in one piece: the second one is lost. -/
theorem handleClient_loses_second :
    let m₁ : Sent := ⟨str "GET /a HTTP/1.1\r\nConnection:keep-alive\r\n\r\n", []⟩
    let m₂ : Sent := ⟨str "GET /b HTTP/1.1\r\nConnection:keep-alive\r\n\r\n", []⟩
    (∀ m ∈ [m₁, m₂], m.KeepAlive defaultEnv) ∧ HeadsWhole [m₁, m₂] [stream [m₁, m₂]] ∧
      (handleClient defaultEnv true (fun _ => {}) [stream [m₁, m₂]]).map (fun c => (c.1.path, c.2)) =
        [(str "/a", [])] ∧
      ¬ Delivered defaultEnv [m₁, m₂] (handleClient defaultEnv true (fun _ => {}) [stream [m₁, m₂]]) := by
  intro m₁ m₂
  have hcalls : (handleClient defaultEnv true (fun _ => {}) [stream [m₁, m₂]]).map (fun c => (c.1.path, c.2)) =
      [(str "/a", [])] := by decide +kernel
  refine ⟨by decide +kernel, by decide +kernel, hcalls, fun h => ?_⟩
  have hlen := congrArg List.length hcalls
  rw [List.length_map, h.length_eq] at hlen
  cases hlen

end Sherry.Http
