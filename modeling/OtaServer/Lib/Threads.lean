import Mathlib.Algebra.Order.BigOperators.Group.Finset
import Mathlib.Data.Fintype.Basic
import OtaServer.Lib.Run

/-!
# Threads over shared state

A system has shared state, a state for each thread, and an environment that changes the shared state.

* `Threads.step?`: one thread takes a step on the shared state and its own, or the environment does.
  `Threads.step?_cases` inverts it.
* `Threads.sum_set`, `Threads.exists_set_of_ne`: what one step makes of a sum over the threads, and of a thread that
  another thread needs.
-/

namespace Lib

theorem sum_change {ι : Type} [DecidableEq ι] {t : Finset ι} {f g : ι → Nat} {i : ι} (hi : i ∈ t)
    (hg : ∀ j, j ≠ i → g j = f j) : (∑ j ∈ t, g j) + f i = (∑ j ∈ t, f j) + g i := by
  have hrest : ∑ j ∈ t.erase i, g j = ∑ j ∈ t.erase i, f j :=
    Finset.sum_congr rfl fun j hj => hg j (Finset.ne_of_mem_erase hj)
  have hnew := Finset.add_sum_erase t g hi
  have hold := Finset.add_sum_erase t f hi
  omega

/-- Shared state, and the state of each thread. -/
structure Threads (ι σ τ : Type) where
  shared : σ
  thread : ι → τ

namespace Threads

variable {ι σ τ κ ε : Type}

/-- A step of a thread, or of the environment. -/
inductive Label (ι κ ε : Type) where
  | thread (i : ι) (c : κ)
  | outer (e : ε)

section

variable [DecidableEq ι]

/-- Thread `i` has made a step. -/
def set (s : Threads ι σ τ) (i : ι) (x : σ × τ) : Threads ι σ τ :=
  ⟨x.1, fun j => if j = i then x.2 else s.thread j⟩

/-- One step. -/
def step? (f : ι → σ → τ → κ → Option (σ × τ)) (g : σ → ε → Option σ) (s : Threads ι σ τ) :
    Label ι κ ε → Option (Threads ι σ τ)
  | .thread i c => (f i s.shared (s.thread i) c).map (s.set i)
  | .outer e => (g s.shared e).map fun shared => { s with shared }

variable {f : ι → σ → τ → κ → Option (σ × τ)} {g : σ → ε → Option σ} {s s' : Threads ι σ τ}
  {l : Label ι κ ε} {i j : ι} {x : σ × τ}

theorem step?_cases (h : step? f g s l = some s') :
    (∃ i c x, l = .thread i c ∧ f i s.shared (s.thread i) c = some x ∧ s' = s.set i x) ∨
      ∃ e shared, l = .outer e ∧ g s.shared e = some shared ∧ s' = { s with shared } := by
  cases l with
  | thread i c =>
    obtain ⟨x, hx, rfl⟩ := Option.map_eq_some_iff.mp h
    exact .inl ⟨i, c, x, rfl, hx, rfl⟩
  | outer e =>
    obtain ⟨shared, hshared, rfl⟩ := Option.map_eq_some_iff.mp h
    exact .inr ⟨e, shared, rfl, hshared, rfl⟩

@[simp] theorem set_shared : (s.set i x).shared = x.1 := rfl

@[simp] theorem set_thread_self : (s.set i x).thread i = x.2 := if_pos rfl

theorem set_thread_ne (h : j ≠ i) : (s.set i x).thread j = s.thread j := if_neg h

theorem set_thread (s : Threads ι σ τ) (i : ι) (shared : σ) : s.set i (shared, s.thread i) = { s with shared } := by
  have hthread : (fun j => if j = i then s.thread i else s.thread j) = s.thread := by
    funext j
    split
    · next h => rw [h]
    · rfl
  simp only [set, hthread]

theorem exists_set_of_ne {P : τ → Prop} (h : P (s.thread j)) (hne : j ≠ i) : ∃ k, P ((s.set i x).thread k) :=
  ⟨j, by rwa [set_thread_ne hne]⟩

theorem exists_set {P : τ → Prop} (h : ∃ j, P (s.thread j)) (hi : P (s.thread i) → P x.2) :
    ∃ k, P ((s.set i x).thread k) := by
  obtain ⟨j, hj⟩ := h
  by_cases hne : j = i
  · subst hne
    exact ⟨j, by rw [set_thread_self]; exact hi hj⟩
  · exact exists_set_of_ne hj hne

theorem forall_set {P : τ → Prop} (h : ∀ j, P (s.thread j)) (hi : P x.2) : ∀ k, P ((s.set i x).thread k) := by
  intro k
  by_cases hne : k = i
  · subst hne
    rwa [set_thread_self]
  · rw [set_thread_ne hne]
    exact h k

theorem sum_set [Fintype ι] (count : τ → Nat) :
    (∑ k, count ((s.set i x).thread k)) + count (s.thread i) = (∑ k, count (s.thread k)) + count x.2 := by
  have hsum := sum_change (f := fun k => count (s.thread k)) (g := fun k => count ((s.set i x).thread k))
    (Finset.mem_univ i) fun k hk => by rw [set_thread_ne hk]
  simp only [set_thread_self] at hsum
  exact hsum

end

theorem le_sum {s : Threads ι σ τ} [Fintype ι] (count : τ → Nat) (i : ι) : count (s.thread i) ≤ ∑ k, count
    (s.thread k) :=
  Finset.single_le_sum (f := fun k => count (s.thread k)) (fun _ _ => Nat.zero_le _) (Finset.mem_univ i)

end Threads

end Lib
