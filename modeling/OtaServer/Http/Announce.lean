import OtaServer.Http.Server

/-!
# What a response announces (`HttpServer::handleClient`, `sherry/http/http_server.cc`)

A response is sent with `connection: close` or `connection: keep-alive` after its own flag, which a servlet can set.
Whether the session is closed is decided by the request and by the server.

* `serve`: what `handleClient` does with the session, for any servlets.
* `Announced`: after a response the session is closed or read from, as the response said. `serve_announced_iff`.
-/

namespace Sherry.Http

open Lib

/-- What a servlet makes of the request and of the response. -/
abbrev Servlet := HttpRequest → HttpResponse → HttpRequest × HttpResponse

/-- What `handleClient` does with the session. -/
inductive ServerEvent where
  | recv
  | send (rsp : HttpResponse)
  | close

/-- The response that the servlets get. -/
def HttpResponse.forRequest (keepalive : Bool) (r : HttpRequest) : HttpResponse :=
  { version := r.version, close := r.close || !keepalive }

section

variable (e : SessionEnv) (keepalive : Bool) (servlet : Nat → Servlet)

/-- The request and the response after the servlet of round `n`. -/
def handled (n : Nat) (r : HttpRequest) : HttpRequest × HttpResponse := servlet n r (.forRequest keepalive r)

/-- The loop of `handleClient`, from round `n` on. A fiber that waits for the rest of its response is scheduled again.
-/
def serveLoop : Nat → Nat → Pieces → List ServerEvent
  | 0, _, _ => []
  | fuel + 1, n, ps =>
    match recvRequest e ps with
    | (.request r, ps') =>
      let x := handled keepalive servlet n r
      .recv :: .send x.2 :: if !keepalive || x.1.close then [.close] else serveLoop fuel (n + 1) ps'
    | (.closed, _) | (.threw, _) => [.recv, .close]

/-- `HttpServer::handleClient`. -/
def serve (ps : Pieces) : List ServerEvent := serveLoop e keepalive servlet (ps.flatten.length + 1) 0 ps

/-- What the servlets leave in the rounds of the loop. -/
def servedLoop : Nat → Nat → Pieces → List (HttpRequest × HttpResponse)
  | 0, _, _ => []
  | fuel + 1, n, ps =>
    match recvRequest e ps with
    | (.request r, ps') =>
      let x := handled keepalive servlet n r
      x :: if !keepalive || x.1.close then [] else servedLoop fuel (n + 1) ps'
    | (.closed, _) | (.threw, _) => []

/-- What the servlets leave in all rounds. -/
def served (ps : Pieces) : List (HttpRequest × HttpResponse) :=
  servedLoop e keepalive servlet (ps.flatten.length + 1) 0 ps

end

/-- After a response with `connection: close` the session is closed, and after one with `connection: keep-alive` it is
read from. -/
def Announced (events : List ServerEvent) : Prop :=
  ∀ i rsp, events[i]? = some (.send rsp) →
    (events[i + 1]? = some .close ↔ connectionText rsp.close = str "close") ∧
      (events[i + 1]? = some .recv ↔ connectionText rsp.close = str "keep-alive")

theorem connectionText_close {close : Bool} : connectionText close = str "close" ↔ close = true := by
  cases close <;> decide +kernel

theorem connectionText_keepAlive {close : Bool} : connectionText close = str "keep-alive" ↔ close = false := by
  cases close <;> decide +kernel

theorem announced_cons {events : List ServerEvent} {rsp : HttpResponse} : Announced (.recv :: .send rsp :: events) ↔
      (events.head? = some .close ↔ rsp.close = true) ∧ (events.head? = some .recv ↔ rsp.close = false) ∧
        Announced events := by
  constructor
  · intro h
    have hfirst := h 1 rsp rfl
    rw [connectionText_close, connectionText_keepAlive, List.head?_eq_getElem?] at *
    exact ⟨hfirst.1, hfirst.2, fun i => h (i + 2)⟩
  · rintro ⟨hclose, hrecv, hrest⟩ i rsp' hi
    match i with
    | 0 => cases hi
    | 1 =>
      cases hi
      rw [connectionText_close, connectionText_keepAlive]
      rw [List.head?_eq_getElem?] at hclose hrecv
      exact ⟨hclose, hrecv⟩
    | i + 2 => exact hrest i rsp' hi

theorem announced_recv_close : Announced [.recv, .close] := by
  intro i rsp hi
  match i with
  | 0 | 1 => cases hi
  | i + 2 => cases hi

theorem announced_close : Announced [.close] := by
  intro i rsp hi
  match i with
  | 0 => cases hi
  | i + 1 => cases hi

section

variable {e : SessionEnv} {keepalive : Bool} {servlet : Nat → Servlet} {fuel n : Nat} {ps ps' : Pieces}

theorem serveLoop_head : (serveLoop e keepalive servlet (fuel + 1) n ps).head? = some .recv := by
  rw [serveLoop]
  split <;> rfl

theorem serveLoop_announced_iff (hfuel : ps.flatten.length < fuel) :
    Announced (serveLoop e keepalive servlet fuel n ps) ↔
      ∀ x ∈ servedLoop e keepalive servlet fuel n ps, x.2.close = (!keepalive || x.1.close) := by
  induction fuel generalizing n ps with
  | zero => omega
  | succ fuel ih =>
    rw [serveLoop, servedLoop]
    split
    · next r ps' hreq =>
      have hlt := recvRequest_lt hreq
      dsimp only
      generalize handled keepalive servlet n r = x
      rw [announced_cons]
      cases hstop : !keepalive || x.1.close with
      | true =>
        simp only [if_true, List.forall_mem_singleton, hstop, announced_close, and_true, List.head?_cons]
        cases x.2.close <;> simp
      | false =>
        obtain ⟨fuel, rfl⟩ : ∃ k, fuel = k + 1 := ⟨fuel - 1, by omega⟩
        simp only [Bool.false_eq_true, if_false, List.forall_mem_cons, hstop, serveLoop_head]
        rw [← ih (by omega)]
        cases x.2.close <;> simp
    · exact iff_of_true announced_recv_close fun x hx => absurd hx List.not_mem_nil
    · exact iff_of_true announced_recv_close fun x hx => absurd hx List.not_mem_nil

theorem served_requests (hservlet : ∀ n r rsp, (servlet n r rsp).1 = r) {rounds : Nat → Round}
    (hrounds : ∀ n, (rounds n).goesOn = true) (ps : Pieces) :
    (served e keepalive servlet ps).map (·.1) = (handleClient e keepalive rounds ps).map (·.1) := by
  have hloop (fuel n : Nat) {rounds : Nat → Round} (hrounds : ∀ n, (rounds n).goesOn = true) (ps : Pieces) :
      (servedLoop e keepalive servlet fuel n ps).map (·.1) =
        (clientLoop e keepalive fuel rounds ps).map (·.1) := by
    induction fuel generalizing n rounds ps with
    | zero => rfl
    | succ fuel ih =>
      rw [servedLoop, clientLoop]
      generalize recvRequest e ps = out
      obtain ⟨out, ps'⟩ := out
      cases out with
      | request r =>
        simp only [List.map_cons, handled, hservlet, hrounds, Bool.not_true, Bool.false_or]
        split
        · rfl
        · rw [ih _ fun n => hrounds (n + 1)]
      | closed => rfl
      | threw => rfl
  exact hloop _ _ hrounds _

end

/-- **What was announced is done.** Exactly when every servlet that is called leaves the flag of the response as the
request and the server have it. -/
theorem serve_announced_iff (e : SessionEnv) (keepalive : Bool) (servlet : Nat → Servlet) (ps : Pieces) :
    Announced (serve e keepalive servlet ps) ↔
      ∀ x ∈ served e keepalive servlet ps, x.2.close = (!keepalive || x.1.close) :=
  serveLoop_announced_iff (Nat.lt_succ_self _)

/-- A servlet that calls `setClose(true)`, as the file download does, for a request with `keep-alive`: the response
says that the session will be closed, and it is read from. -/
theorem serve_setClose_reads : ¬Announced (serve defaultEnv true (fun _ r rsp => (r, { rsp with close := true }))
      [str "GET /a HTTP/1.1\r\nConnection:keep-alive\r\n\r\n"]) := by
  rw [serve, serveLoop_announced_iff (Nat.lt_succ_self _)]
  decide +kernel

end Sherry.Http
