import Mathlib.Data.List.Basic

/-!
# Memory of blocks

Blocks by their addresses. An allocation is put behind the others, so that an address is given out once; a block that
is freed leaves its address empty.

* `Kept n m m'`: the blocks below `n` are the same. Allocations and stores behind them keep them.
* `free`: some addresses are emptied. `getElem?_free`: the others are as before.
-/

namespace Lib

/-- The blocks by their addresses. -/
abbrev Memory (β : Type) := List (Option β)

namespace Memory

variable {β : Type} {m m' m'' : Memory β} {n k i : Nat}

/-- The blocks below `n` are the same. -/
def Kept (n : Nat) (m m' : Memory β) : Prop := ∀ y < n, m'[y]? = m[y]?

namespace Kept

theorem refl (n : Nat) (m : Memory β) : Kept n m m := fun _ _ => rfl

theorem trans (h : Kept n m m') (h' : Kept k m' m'') (hle : n ≤ k) : Kept n m m'' := fun y hy =>
  (h' y (Nat.lt_of_lt_of_le hy hle)).trans (h y hy)

theorem append (m x : Memory β) (h : n ≤ m.length) : Kept n m (m ++ x) := fun _ hy =>
  List.getElem?_append_left (Nat.lt_of_lt_of_le hy h)

end Kept

/-- The blocks at some addresses are freed. -/
def free (m : Memory β) (addresses : List Nat) : Memory β := addresses.foldl (fun m a => m.set a none) m

theorem getElem?_free {addresses : List Nat} (h : i ∉ addresses) : (m.free addresses)[i]? = m[i]? := by
  induction addresses generalizing m with
  | nil => rfl
  | cons a addresses ih =>
    rw [List.mem_cons, not_or] at h
    rw [free, List.foldl_cons]
    exact (ih h.2).trans (List.getElem?_set_ne (Ne.symm h.1))

end Memory

end Lib
