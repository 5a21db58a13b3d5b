import Mathlib.Algebra.Group.Nat.Defs
import Mathlib.Data.List.Basic

/-!
# What is known of a descriptor (`sherry/fd_manager.h`, `sherry/fd_manager.cc`)

* `FdCtx`: the state of a descriptor that the hooks keep. `FdCtx.init`, `setTimeout`, `getTimeout`.
* `FdManager`: `m_datas`, and the contexts that were made, which are shared by all who have them. `lookup` and
  `create` are the two locked sections of `FdManager::get`, `del` is one.
-/

namespace Sherry

/-- `SO_RCVTIMEO`, `SO_SNDTIMEO`. -/
inductive TimeoutType where
  | recv | send

/-- `FdCtx`. -/
structure FdCtx where
  fd : Nat
  isInit : Bool
  isSocket : Bool
  sysNonblock : Bool
  userNonblock : Bool := false
  isClosed : Bool := false
  recvTimeout : Nat := 2 ^ 64 - 1
  sendTimeout : Nat := 2 ^ 64 - 1
  deriving DecidableEq

namespace FdCtx

/-- The constructor, with what `fstat` says: it fails, or the descriptor is a socket, or it is not. -/
def init (fd : Nat) (stat : Option Bool) : FdCtx where
  fd
  isInit := stat.isSome
  isSocket := stat.getD false
  sysNonblock := stat.getD false

/-- `setTimeout`. -/
def setTimeout (ctx : FdCtx) (type : TimeoutType) (v : Nat) : FdCtx :=
  match type with
  | .recv => { ctx with recvTimeout := v }
  | .send => { ctx with sendTimeout := v }

/-- `getTimeout`. -/
def getTimeout (ctx : FdCtx) : TimeoutType → Nat
  | .recv => ctx.recvTimeout
  | .send => ctx.sendTimeout

end FdCtx

/-- `FdManager`. A context is known by the order in which they were made. -/
structure FdManager where
  /-- `m_datas`. -/
  datas : List (Option Nat) := List.replicate 64 none
  ctxs : List FdCtx := []

namespace FdManager

/-- `FdManager::get` up to where it gives up the read lock: what it returns, or `none` if it is to create. -/
def lookup (m : FdManager) (fd : Nat) (autoCreate : Bool) : Option (Option Nat) :=
  match m.datas[fd]? with
  | none => if autoCreate then none else some none
  | some data => if data.isSome || !autoCreate then some data else none

/-- `FdManager::get` under the write lock. It does not look again whether there is a context by now. -/
def create (m : FdManager) (fd : Nat) (stat : Option Bool) : FdManager × Nat :=
  let datas :=
    if m.datas.length ≤ fd then m.datas ++ List.replicate (fd * 3 / 2 - m.datas.length) none else m.datas
  ({ datas := datas.set fd (some m.ctxs.length), ctxs := m.ctxs ++ [.init fd stat] }, m.ctxs.length)

/-- `FdManager::get`, when no other thread comes in between. -/
def get (m : FdManager) (fd : Nat) (autoCreate : Bool) (stat : Option Bool) : FdManager × Option Nat :=
  match m.lookup fd autoCreate with
  | some data => (m, data)
  | none => ((m.create fd stat).1, some (m.create fd stat).2)

/-- `FdManager::del`. -/
def del (m : FdManager) (fd : Nat) : FdManager := { m with datas := m.datas.set fd none }

/-- The context of a descriptor, if there is one. -/
def ctx? (m : FdManager) (fd : Nat) : Option FdCtx := do
  let data ← m.datas[fd]?
  let c ← data
  m.ctxs[c]?

/-- The context of a descriptor is changed, if there is one. -/
def modifyCtx (m : FdManager) (fd : Nat) (f : FdCtx → FdCtx) : FdManager :=
  match m.datas[fd]? with
  | some (some c) => { m with ctxs := m.ctxs.modify c f }
  | _ => m

end FdManager

end Sherry
