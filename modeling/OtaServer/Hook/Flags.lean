import OtaServer.Fd.Manager
import OtaServer.Lib.Run

/-!
# `O_NONBLOCK` (`fcntl` and `ioctl` in `sherry/hook.cc`)

The hooks keep a socket non-blocking in the kernel, and show the user the mode that the user has set.

* `SocketFlags`: the flags in the kernel, and the context. `fcntlSetfl`, `fcntlGetfl`, `ioctlFionbio`: the hooks.
* `nonblock_kept`: the flag stays set exactly as long as no `ioctl` asks for blocking mode.
-/

namespace Sherry

open Lib

/-- `O_NONBLOCK`. -/
def oNonblock : BitVec 32 := BitVec.twoPow 32 11

/-- The flag is set. -/
def nonblock (flags : BitVec 32) : Bool := flags &&& oNonblock != 0#32

/-- The flags that `F_SETFL` changes: `O_APPEND`, `O_NONBLOCK`, `O_ASYNC`, `O_DIRECT`, `O_NOATIME`. -/
def settable : BitVec 32 := 0x46c00#32

/-- `F_SETFL` in the kernel. -/
def kernelSetfl (flags arg : BitVec 32) : BitVec 32 := (flags &&& ~~~settable) ||| (arg &&& settable)

/-- `FIONBIO` in the kernel. -/
def kernelFionbio (flags : BitVec 32) (v : Int) : BitVec 32 :=
  if v = 0 then flags &&& ~~~oNonblock else flags ||| oNonblock

/-- A descriptor and what is known of it. -/
structure SocketFlags where
  /-- The flags in the kernel. -/
  kernel : BitVec 32
  ctx : FdCtx
  /-- The mode that the user has last asked for. -/
  asked : Bool := false

namespace SocketFlags

/-- A socket with these flags becomes known: `FdCtx::init`. -/
def new (fd : Nat) (flags : BitVec 32) : SocketFlags where
  kernel := if nonblock flags then flags else kernelSetfl flags (flags ||| oNonblock)
  ctx := .init fd (some true)

/-- The hooks pass the call on. -/
def passes (s : SocketFlags) : Bool := s.ctx.isClosed || !s.ctx.isSocket

/-- The kernel sets the flags, or refuses to. -/
def setKernel (s : SocketFlags) (flags : BitVec 32) (ok : Bool) : SocketFlags :=
  if ok then { s with kernel := flags } else s

/-- `fcntl(F_SETFL)`. -/
def fcntlSetfl (s : SocketFlags) (arg : BitVec 32) (ok : Bool) : SocketFlags :=
  if s.passes then s.setKernel (kernelSetfl s.kernel arg) ok
  else
    let s := { s with ctx := { s.ctx with userNonblock := nonblock arg } }
    let arg := if s.ctx.sysNonblock then arg ||| oNonblock else arg &&& ~~~oNonblock
    s.setKernel (kernelSetfl s.kernel arg) ok

/-- `fcntl(F_GETFL)`. -/
def fcntlGetfl (s : SocketFlags) : BitVec 32 :=
  if s.passes then s.kernel
  else if s.ctx.userNonblock then s.kernel ||| oNonblock
  else s.kernel &&& ~~~oNonblock

/-- `ioctl(FIONBIO)`. The value is passed on as it is. -/
def ioctlFionbio (s : SocketFlags) (v : Int) (ok : Bool) : SocketFlags :=
  let s := if s.passes then s else { s with ctx := { s.ctx with userNonblock := v != 0 } }
  s.setKernel (kernelFionbio s.kernel v) ok

end SocketFlags

/-- A call on the socket, which the kernel grants or refuses. -/
inductive FlagOp where
  | setfl (arg : BitVec 32) (ok : Bool)
  | getfl
  | fionbio (v : Int) (ok : Bool)

namespace SocketFlags

/-- A call. -/
def run (s : SocketFlags) : FlagOp → SocketFlags
  | .setfl arg ok => { s.fcntlSetfl arg ok with asked := nonblock arg }
  | .getfl => s
  | .fionbio v ok => { s.ioctlFionbio v ok with asked := v != 0 }

/-- The call is no `ioctl` that asks for blocking mode and is granted. -/
def keepsNonblock : FlagOp → Bool
  | .fionbio v ok => v != 0 || !ok
  | _ => true

end SocketFlags

/-! ## The flag -/

theorem nonblock_eq (flags : BitVec 32) : nonblock flags = flags.getLsbD 11 := by
  rw [nonblock, oNonblock, BitVec.and_twoPow]
  cases flags.getLsbD 11 with
  | true => rfl
  | false => rfl

theorem nonblock_or (flags : BitVec 32) : nonblock (flags ||| oNonblock) = true := by
  rw [nonblock_eq, BitVec.getLsbD_or, oNonblock, BitVec.getLsbD_twoPow]
  simp

theorem nonblock_andNot (flags : BitVec 32) : nonblock (flags &&& ~~~oNonblock) = false := by
  rw [nonblock_eq, BitVec.getLsbD_and, BitVec.getLsbD_not, oNonblock, BitVec.getLsbD_twoPow]
  simp

theorem nonblock_kernelSetfl (flags arg : BitVec 32) : nonblock (kernelSetfl flags arg) = nonblock arg := by
  have hset : settable.getLsbD 11 = true := rfl
  rw [nonblock_eq, nonblock_eq, kernelSetfl, BitVec.getLsbD_or, BitVec.getLsbD_and, BitVec.getLsbD_and,
    BitVec.getLsbD_not, hset]
  simp

theorem nonblock_kernelFionbio (flags : BitVec 32) (v : Int) : nonblock (kernelFionbio flags v) = (v != 0) := by
  rw [kernelFionbio]
  split
  · next hv =>
    rw [nonblock_andNot, hv]
    rfl
  · next hv =>
    rw [nonblock_or]
    exact (bne_iff_ne.mpr hv).symm

namespace SocketFlags

variable {s : SocketFlags}

/-- What holds as long as the flag is set. -/
structure FlagsInv (s : SocketFlags) : Prop where
  kernel : nonblock s.kernel = true
  passes : s.passes = false
  sys : s.ctx.sysNonblock = true
  user : s.ctx.userNonblock = s.asked

theorem setKernel_kernel (flags : BitVec 32) (ok : Bool) :
    (s.setKernel flags ok).kernel = if ok then flags else s.kernel := by
  cases ok <;> rfl

theorem setKernel_ctx (flags : BitVec 32) (ok : Bool) : (s.setKernel flags ok).ctx = s.ctx := by
  cases ok <;> rfl

/-- **`F_GETFL`** shows what the user has asked for. -/
theorem nonblock_fcntlGetfl (hpasses : s.passes = false) : nonblock s.fcntlGetfl = s.ctx.userNonblock := by
  rw [fcntlGetfl, hpasses, if_neg Bool.false_ne_true]
  split
  · next huser => rw [nonblock_or, huser]
  · next huser => rw [nonblock_andNot, Bool.eq_false_iff.mpr huser]

theorem FlagsInv.run_ctx (h : FlagsInv s) (op : FlagOp) :
    (s.run op).passes = false ∧ (s.run op).ctx.sysNonblock = true ∧
      (s.run op).ctx.userNonblock = (s.run op).asked := by
  have hpasses := h.passes
  cases op with
  | setfl arg ok =>
    simp only [run, fcntlSetfl, h.passes, if_neg Bool.false_ne_true, setKernel_ctx, and_true]
    exact ⟨hpasses, h.sys⟩
  | getfl => exact ⟨h.passes, h.sys, h.user⟩
  | fionbio v ok =>
    simp only [run, ioctlFionbio, h.passes, if_neg Bool.false_ne_true, setKernel_ctx, and_true]
    exact ⟨hpasses, h.sys⟩

/-- **The flag in the kernel** after a call. -/
theorem FlagsInv.run_kernel (h : FlagsInv s) (op : FlagOp) : nonblock (s.run op).kernel = keepsNonblock op := by
  cases op with
  | setfl arg ok =>
    simp only [run, fcntlSetfl, h.passes, if_neg Bool.false_ne_true, setKernel_kernel, h.sys, if_true]
    cases ok with
    | true => exact (nonblock_kernelSetfl _ _).trans (nonblock_or arg)
    | false => exact h.kernel
  | getfl => exact h.kernel
  | fionbio v ok =>
    simp only [run, ioctlFionbio, h.passes, if_neg Bool.false_ne_true, setKernel_kernel, keepsNonblock]
    cases ok with
    | true => simpa using nonblock_kernelFionbio s.kernel v
    | false => simpa using h.kernel

theorem flagsInv_new (fd : Nat) (flags : BitVec 32) : FlagsInv (new fd flags) := by
  refine ⟨?_, rfl, rfl, rfl⟩
  rw [new]
  dsimp only
  split
  · next hset => exact hset
  · rw [nonblock_kernelSetfl]
    exact nonblock_or flags

end SocketFlags

/-- The kernel's `O_NONBLOCK` stays set and `F_GETFL` shows the mode that the user has last asked for, in exactly the
runs in which no `ioctl` asks for blocking mode. -/
theorem nonblock_kept (fd : Nat) (flags : BitVec 32) {r : List (FlagOp × SocketFlags)}
    (hr : Run (fun s op s' => s.run op = s') (SocketFlags.new fd flags) r) :
    Reached (fun s => nonblock s.kernel = true ∧ (nonblock s.fcntlGetfl = true ↔ s.asked = true)) r ↔
      Meets (fun _ op => SocketFlags.keepsNonblock op = true) (SocketFlags.new fd flags) r := by
  refine Run.reached_iff (I := SocketFlags.FlagsInv) ?_ ?_ hr (SocketFlags.flagsInv_new fd flags)
  · rintro s op _ h rfl
    obtain ⟨hpasses, -, huser⟩ := h.run_ctx op
    rw [h.run_kernel op, SocketFlags.nonblock_fcntlGetfl hpasses, huser]
    exact and_iff_left Iff.rfl
  · rintro s op _ h hc rfl
    obtain ⟨hpasses, hsys, huser⟩ := h.run_ctx op
    exact ⟨(h.run_kernel op).trans hc, hpasses, hsys, huser⟩

/-- The user sets blocking and non-blocking mode with `fcntl`. -/
theorem nonblock_kept_fcntl : Meets (fun _ op => SocketFlags.keepsNonblock op = true) (SocketFlags.new 5 2#32)
        (trace SocketFlags.run (SocketFlags.new 5 2#32) [.setfl oNonblock true, .setfl 0 true, .fionbio 1 true]) ∧
      Reached (fun s => nonblock s.kernel = true ∧ (nonblock s.fcntlGetfl = true ↔ s.asked = true))
        (trace SocketFlags.run (SocketFlags.new 5 2#32) [.setfl oNonblock true, .setfl 0 true, .fionbio 1 true]) := by
  have hmeets : Meets (fun _ op => SocketFlags.keepsNonblock op = true) (SocketFlags.new 5 2#32)
      (trace SocketFlags.run (SocketFlags.new 5 2#32) [.setfl oNonblock true, .setfl 0 true, .fionbio 1 true]) := by
    decide
  exact ⟨hmeets, (nonblock_kept 5 2#32 (run_trace _ _ _)).mpr hmeets⟩

/-- `ioctl(FIONBIO)` with the value 0 makes the socket blocking in the kernel. -/
theorem ioctl_blocks : nonblock (SocketFlags.new 5 2#32).kernel = true ∧
      nonblock ((SocketFlags.new 5 2#32).run (.fionbio 0 true)).kernel = false := by
  decide

end Sherry
