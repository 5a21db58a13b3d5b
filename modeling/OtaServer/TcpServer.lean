import OtaServer.Lib.Run

/-!
# The server (`sherry/tcp_server.cc`)

`start` and `stop` leave their work to tasks: a loop over `accept` for each socket, and one task that closes the
sockets. Both are called at any time, and the tasks run in between.

* `TcpServer.step?`: `bind`, `start`, `stop`, and the steps of the tasks.
* `stopped_accepts_nothing`: once the sockets have been closed, `start` starts nothing until there is another `bind`.
-/

namespace Sherry

open Lib

/-- `TcpServer`, with its tasks. Sockets are numbered as they are made. -/
structure TcpServer where
  isStop : Bool := true
  sockets : List Nat := []
  made : Nat := 0
  /-- The sockets that were closed. -/
  closed : List Nat := []
  /-- The tasks `startAccept` before the test of `m_isStop`, by their sockets, and those in `accept`. -/
  loops : List Nat := []
  accepting : List Nat := []
  /-- The tasks of `stop` that have not run. -/
  closers : Nat := 0
  /-- The clients that were handed to `handleClient`, by the sockets they came from. -/
  clients : List Nat := []

/-- A call, or a step of a task. -/
inductive TcpEvent where
  /-- Whether each address can be bound and listened to. -/
  | bind (oks : List Bool)
  | start
  | stop
  /-- The task of `stop`. -/
  | close
  /-- `startAccept` tests `m_isStop`. -/
  | test (socket : Nat)
  /-- `accept` returns, maybe with a client. -/
  | accept (socket : Nat) (client : Bool)

namespace TcpServer

/-- A step, if it is possible. The descriptor of a closed socket is not given to another listening socket. -/
def step? (s : TcpServer) : TcpEvent → Option TcpServer
  | .bind oks =>
    -- a failure takes all sockets away, those of earlier calls as well
    let sockets := if oks.all id then s.sockets ++ List.range' s.made oks.length else []
    some { s with sockets, made := s.made + oks.length }
  | .start => some (if s.isStop then { s with isStop := false, loops := s.loops ++ s.sockets } else s)
  | .stop => some { s with isStop := true, closers := s.closers + 1 }
  | .close =>
    if 0 < s.closers then
      some { s with closers := s.closers - 1, closed := s.closed ++ s.sockets, sockets := [] }
    else none
  | .test k =>
    if k ∈ s.loops then
      some { s with loops := s.loops.erase k, accepting := if s.isStop then s.accepting else k :: s.accepting }
    else none
  | .accept k client =>
    if k ∈ s.accepting then
      some { s with
        accepting := s.accepting.erase k
        loops := k :: s.loops
        clients := if client ∧ k ∉ s.closed then k :: s.clients else s.clients }
    else none

/-- No address fails. -/
def binds (e : TcpEvent) : Prop := ∀ oks, e = .bind oks → oks.all id

/-- Every loop is one of a socket that is known, or closed. -/
def Known (s : TcpServer) : Prop := ∀ k, k ∈ s.loops ∨ k ∈ s.accepting → k ∈ s.sockets ∨ k ∈ s.closed

/-- There are no sockets, and the loops are of sockets that are closed. -/
structure Down (s : TcpServer) : Prop where
  sockets : s.sockets = []
  loops : ∀ k, k ∈ s.loops ∨ k ∈ s.accepting → k ∈ s.closed

variable {s s' : TcpServer} {e : TcpEvent}

theorem Known.step (h : s.Known) (hbinds : binds e) (hs : s.step? e = some s') : s'.Known := by
  unfold Known at *
  cases e <;> simp only [step?, Option.ite_none_right_eq_some, Option.some.injEq] at hs
  case bind oks =>
    rw [if_pos (hbinds oks rfl)] at hs
    obtain rfl := hs
    exact fun k hk => (h k hk).imp_left (List.mem_append_left _)
  case start | stop =>
    obtain rfl := hs
    grind -linarith
  case close | test | accept =>
    obtain ⟨hp, rfl⟩ := hs
    grind -linarith [List.mem_of_mem_erase]

/-- The task of `stop` takes the server down, whatever was called since. -/
theorem Known.down (h : s.Known) (hs : s.step? .close = some s') : s'.Down := by
  obtain ⟨-, hs⟩ := Option.ite_none_right_eq_some.mp hs
  obtain rfl := Option.some.inj hs
  exact ⟨rfl, fun k hk => List.mem_append.mpr (h k hk).symm⟩

theorem Down.step (h : s.Down) (hbind : ∀ oks, e ≠ .bind oks) (hs : s.step? e = some s') :
    s'.Down ∧ s'.clients = s.clients := by
  obtain ⟨hsockets, hloops⟩ := h
  cases e <;> simp only [step?, Option.ite_none_right_eq_some, Option.some.injEq] at hs
  case bind oks => exact absurd rfl (hbind oks)
  case start | stop =>
    obtain rfl := hs
    constructor
    · constructor <;> grind -linarith
    · grind -linarith
  case close | test | accept =>
    obtain ⟨hp, rfl⟩ := hs
    constructor
    · constructor <;> grind -linarith [List.mem_of_mem_erase]
    · grind -linarith

/-- **A server that was stopped.** However calls and tasks follow each other up to the end of a task of `stop`,
after it no client is accepted without another `bind`, though `start` returns true. -/
theorem stopped_accepts_nothing {r r' : List (TcpEvent × TcpServer)}
    (hr : Run (fun s e s' => step? s e = some s') {} r) (hbinds : Meets (fun _ e => binds e) {} r)
    (hclose : step? (lastState {} r) .close = some s') (hr' : Run (fun s e s' => step? s e = some s') s' r')
    (hnone : Meets (fun _ e => ∀ oks, e ≠ .bind oks) s' r') : Reached (fun s => s.clients = s'.clients) r' := by
  have hnew : Known {} := fun k hk => by simp at hk
  have hknown : Known (lastState {} r) :=
    (hr.inv (I := Known) (fun s e s' h hc hs => h.step hc hs) hbinds hnew).last hnew
  have hdown := hr'.inv (I := fun s => s.Down ∧ s.clients = s'.clients) (fun s e s' h hc hs => by
    obtain ⟨hd, hsame⟩ := h.1.step hc hs
    exact ⟨hd, hsame.trans h.2⟩) hnone ⟨hknown.down hclose, rfl⟩
  exact hdown.mono fun _ h => h.2

/-- The loop is in `accept` when the socket is closed, and `start` lets it go on. -/
theorem stopped_accepts_nothing_restart : Reached (fun s : TcpServer => s.clients = [])
    [(TcpEvent.start, { isStop := false, made := 1, closed := [0], accepting := [0] }),
      (.accept 0 true, { isStop := false, made := 1, closed := [0], loops := [0] })] :=
  stopped_accepts_nothing (r := [(.bind [true], { sockets := [0], made := 1 }),
      (.start, { isStop := false, sockets := [0], made := 1, loops := [0] }),
      (.test 0, { isStop := false, sockets := [0], made := 1, accepting := [0] }),
      (.stop, { sockets := [0], made := 1, accepting := [0], closers := 1 })])
    ⟨rfl, rfl, rfl, rfl, trivial⟩ (by simp [Meets, binds]) rfl ⟨rfl, rfl, trivial⟩ (by simp [Meets])

end TcpServer

end Sherry
