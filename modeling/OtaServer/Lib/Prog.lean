import Mathlib.Logic.Function.Basic

/-!
# Programs as trees of atomic operations

A program (`Prog`) is a tree: it returns, or it does one atomic operation and goes on with the operation's answer. A
`Handler` says what each operation answers and does to the shared state. The same tree is run in two ways: alone
(`run`), and next to other programs, one operation at a time (`Interleaving`). `states` lists the states that another
program can see while this one runs alone.

The result on interleavings (`Interleaving.shared_eq_runSeq`) is the classical one on conflicts. Programs are
numbered. If every two operations that ran out of the programs' order commute, the run ends in the state that the
programs reach one after the other, in order. The proof pulls the operations of the first program to the front
(`Interleaving.pull`), one operation at a time (`run_comm`), and goes on with the rest.
-/

namespace Lib

/-- A program that does atomic operations `ι` with answers `ρ` and returns an `α`. -/
inductive Prog (ι : Type) (ρ : ι → Type) (α : Type) where
  | ret (a : α)
  | op (i : ι) (k : ρ i → Prog ι ρ α)

/-- What each operation answers and does to the shared state. -/
abbrev Handler (ι : Type) (ρ : ι → Type) (σ : Type) := (i : ι) → σ → ρ i × σ

namespace Prog

variable {ι κ : Type} {ρ : ι → Type} {α β σ : Type}

/-- The second program takes the result of the first. -/
def bind : Prog ι ρ α → (α → Prog ι ρ β) → Prog ι ρ β
  | ret a, f => f a
  | op i k, f => op i fun r => (k r).bind f

instance : Monad (Prog ι ρ) where
  pure := ret
  bind := bind

/-- One operation. -/
def perform (i : ι) : Prog ι ρ (ρ i) := op i ret

/-- The same program with its operations renamed. -/
def rename {τ : κ → Type} (f : ι → κ) (g : (i : ι) → τ (f i) → ρ i) : Prog ι ρ α → Prog κ τ α
  | ret a => ret a
  | op i k => op (f i) fun r => (k (g i r)).rename f g

/-- The program run alone. -/
def run (h : Handler ι ρ σ) : Prog ι ρ α → σ → α × σ
  | ret a, s => (a, s)
  | op i k, s => (k (h i s).1).run h (h i s).2

/-- The states before, between and after the operations of the program run alone. -/
def states (h : Handler ι ρ σ) : Prog ι ρ α → σ → List σ
  | ret _, s => [s]
  | op i k, s => s :: (k (h i s).1).states h (h i s).2

/-- The operations of the program run alone. -/
def ops (h : Handler ι ρ σ) : Prog ι ρ α → σ → List ι
  | ret _, _ => []
  | op i k, s => i :: (k (h i s).1).ops h (h i s).2

@[simp] theorem pure_eq (a : α) : (pure a : Prog ι ρ α) = ret a := rfl

@[simp] theorem ret_bind (a : α) (f : α → Prog ι ρ β) : (ret a >>= f) = f a := rfl

@[simp] theorem op_bind (i : ι) (k : ρ i → Prog ι ρ α) (f : α → Prog ι ρ β) :
    (op i k >>= f) = op i fun r => k r >>= f := rfl

@[simp] theorem perform_bind (i : ι) (f : ρ i → Prog ι ρ β) : (perform i >>= f) = op i f := rfl

@[simp] theorem run_ret (h : Handler ι ρ σ) (a : α) (s : σ) : (ret a : Prog ι ρ α).run h s = (a, s) := rfl

@[simp] theorem run_op (h : Handler ι ρ σ) (i : ι) (k : ρ i → Prog ι ρ α) (s : σ) :
    (op i k).run h s = (k (h i s).1).run h (h i s).2 := rfl

@[simp] theorem run_ite (h : Handler ι ρ σ) (c : Prop) [Decidable c] (p q : Prog ι ρ α) (s : σ) :
    (if c then p else q).run h s = if c then p.run h s else q.run h s := by
  split <;> rfl

theorem run_bind (h : Handler ι ρ σ) (p : Prog ι ρ α) (f : α → Prog ι ρ β) (s : σ) :
    (p >>= f).run h s = (f (p.run h s).1).run h (p.run h s).2 := by
  induction p generalizing s with
  | ret a => rfl
  | op i k ih => exact ih _ _

theorem mem_states_self (h : Handler ι ρ σ) (p : Prog ι ρ α) (s : σ) : s ∈ p.states h s := by
  cases p <;> simp [states]

/-- What can be seen while two programs run one after the other. -/
theorem forall_mem_states_bind {h : Handler ι ρ σ} {P : σ → Prop} (p : Prog ι ρ α) (f : α → Prog ι ρ β) (s : σ) :
    (∀ x ∈ (p >>= f).states h s, P x) ↔
      (∀ x ∈ p.states h s, P x) ∧ ∀ x ∈ (f (p.run h s).1).states h (p.run h s).2, P x := by
  induction p generalizing s with
  | ret a =>
    rw [ret_bind, run_ret]
    constructor
    · intro hall
      exact ⟨by simpa [states] using hall s (mem_states_self h _ s), hall⟩
    · exact fun hall => hall.2
  | op i k ih =>
    simp only [op_bind, states, List.forall_mem_cons, ih, run_op]
    exact and_assoc.symm

/-! ## Operations that commute -/

/-- The operations `i` and `o` answer and do the same in either order. -/
structure Commutes (h : Handler ι ρ σ) (i o : ι) : Prop where
  left : ∀ s, (h i (h o s).2).1 = (h i s).1
  right : ∀ s, (h o (h i s).2).1 = (h o s).1
  state : ∀ s, (h o (h i s).2).2 = (h i (h o s).2).2

theorem Commutes.symm {h : Handler ι ρ σ} {i o : ι} (hc : Commutes h i o) : Commutes h o i :=
  ⟨hc.right, hc.left, fun s => (hc.state s).symm⟩

/-- An operation that commutes with every operation of a program can be done before the program or after it. -/
theorem run_comm {h : Handler ι ρ σ} {i : ι} (p : Prog ι ρ α) (s : σ) (hc : ∀ o ∈ p.ops h (h i s).2, Commutes h i o) :
    p.run h (h i s).2 = ((p.run h s).1, (h i (p.run h s).2).2) ∧
      (h i (p.run h s).2).1 = (h i s).1 ∧ p.ops h (h i s).2 = p.ops h s := by
  induction p generalizing s with
  | ret a => exact ⟨rfl, rfl, rfl⟩
  | op o k ih =>
    have ho : Commutes h i o := hc o (by simp [ops])
    have hk : ∀ x ∈ (k (h o s).1).ops h (h i (h o s).2).2, Commutes h i x := by
      intro x hx
      refine hc x ?_
      simp only [ops, ho.right, ho.state]
      exact List.mem_cons_of_mem _ hx
    obtain ⟨hrun, hans, hops⟩ := ih (h o s).1 (h o s).2 hk
    refine ⟨?_, ?_, ?_⟩
    · simp only [run_op, ho.right, ho.state, hrun]
    · rw [run_op, hans, ho.left]
    · simp only [ops, ho.right, ho.state, hops]

/-- The programs run one after the other. -/
def runSeq (h : Handler ι ρ σ) : List (Prog ι ρ Unit) → σ → σ
  | [], s => s
  | p :: ps, s => runSeq h ps (p.run h s).2

end Prog

/-! ## Interleavings -/

/-- Numbered programs next to a shared state. -/
structure Procs (ι : Type) (ρ : ι → Type) (σ : Type) where
  progs : Nat → Prog ι ρ Unit
  shared : σ

namespace Procs

variable {ι : Type} {ρ : ι → Type} {σ : Type}

/-- Program `j` goes on as `p`, in the shared state `s`. -/
def set (P : Procs ι ρ σ) (j : Nat) (p : Prog ι ρ Unit) (s : σ) : Procs ι ρ σ where
  progs := Function.update P.progs j p
  shared := s

/-- Program `j` run to its end. -/
def finish (h : Handler ι ρ σ) (P : Procs ι ρ σ) (j : Nat) : Procs ι ρ σ :=
  P.set j (.ret ()) ((P.progs j).run h P.shared).2

@[simp] theorem set_shared (P : Procs ι ρ σ) (j : Nat) (p : Prog ι ρ Unit) (s : σ) : (P.set j p s).shared = s := rfl

@[simp] theorem set_progs_self (P : Procs ι ρ σ) (j : Nat) (p : Prog ι ρ Unit) (s : σ) :
    (P.set j p s).progs j = p := by simp [set]

theorem set_progs_ne (P : Procs ι ρ σ) {j k : Nat} (p : Prog ι ρ Unit) (s : σ) (hk : k ≠ j) :
    (P.set j p s).progs k = P.progs k := by simp [set, hk]

theorem set_set_self (P : Procs ι ρ σ) (j : Nat) (p q : Prog ι ρ Unit) (s t : σ) :
    (P.set j p s).set j q t = P.set j q t := by simp [set]

end Procs

open Prog

/-- `Interleaving h P t Q`: from `P` the operations of `t`, each of the program it is listed with, lead to `Q`. -/
inductive Interleaving {ι : Type} {ρ : ι → Type} {σ : Type} (h : Handler ι ρ σ) :
    Procs ι ρ σ → List (Nat × ι) → Procs ι ρ σ → Prop
  | nil (P : Procs ι ρ σ) : Interleaving h P [] P
  | cons {P Q : Procs ι ρ σ} {t : List (Nat × ι)} (j : Nat) (i : ι) (k : ρ i → Prog ι ρ Unit) :
      P.progs j = .op i k →
      Interleaving h (P.set j (k (h i P.shared).1) (h i P.shared).2) t Q →
      Interleaving h P ((j, i) :: t) Q

/-- Operations that ran out of the programs' order commute. -/
def InOrder {ι : Type} {ρ : ι → Type} {σ : Type} (h : Handler ι ρ σ) (t : List (Nat × ι)) : Prop :=
  t.Pairwise fun a b => b.1 < a.1 → Commutes h a.2 b.2

namespace Interleaving

variable {ι : Type} {ρ : ι → Type} {σ : Type} {h : Handler ι ρ σ}

variable {P Q : Procs ι ρ σ} {t : List (Nat × ι)} {j : Nat}

theorem snoc (hr : Interleaving h P t Q) {i : ι}
    {k : ρ i → Prog ι ρ Unit} (hj : Q.progs j = .op i k) :
    Interleaving h P (t ++ [(j, i)]) (Q.set j (k (h i Q.shared).1) (h i Q.shared).2) := by
  induction hr with
  | nil P => exact .cons j i k hj (.nil _)
  | cons j' i' k' hp _ ih => exact .cons j' i' k' hp (ih hj)

theorem ne_of_ret (hr : Interleaving h P t Q) (hj : P.progs j = .ret ()) : ∀ x ∈ t, x.1 ≠ j := by
  induction hr with
  | nil => intro x hx; cases hx
  | @cons P Q t j' i k hp _ ih =>
    have hne : j' ≠ j := by
      rintro rfl
      rw [hj] at hp
      cases hp
    intro x hx
    rcases List.mem_cons.mp hx with rfl | hx
    · exact hne
    · exact ih (by rw [Procs.set_progs_ne _ _ _ hne.symm]; exact hj) x hx

/-- The operations of the first program, pulled to the front: the first program runs to its end, then the other
operations follow as before. -/
theorem pull (hr : Interleaving h P t Q)
    (hfirst : ∀ x ∈ t, j ≤ x.1) (hord : InOrder h t) (hend : Q.progs j = .ret ()) :
    Interleaving h (P.finish h j) (t.filter fun x => x.1 ≠ j) Q ∧
      (t.filter fun x => x.1 = j).map (·.2) = (P.progs j).ops h P.shared := by
  induction hr with
  | nil P =>
    have : P.finish h j = P := by
      unfold Procs.finish Procs.set
      rw [hend, run_ret, ← hend, Function.update_eq_self]
    rw [this]
    exact ⟨.nil P, by simp [hend, ops]⟩
  | @cons P Q t j' i k hp hr ih =>
    obtain ⟨hhead, htail⟩ := List.pairwise_cons.mp hord
    obtain ⟨ih₁, ih₂⟩ := ih (fun x hx => hfirst x (List.mem_cons_of_mem _ hx)) htail hend
    by_cases hj : j' = j
    · -- an operation of the first program: it is already in front
      subst hj
      rw [Procs.set_progs_self, Procs.set_shared] at ih₂
      have hfin : (P.set j' (k (h i P.shared).1) (h i P.shared).2).finish h j' = P.finish h j' := by
        simp [Procs.finish, Procs.set_set_self, hp]
      rw [hfin] at ih₁
      refine ⟨by simpa using ih₁, ?_⟩
      rw [hp]
      simp only [ops, ← ih₂]
      simp
    · -- an operation of a later program: it commutes with what is left of the first one
      rw [Procs.set_progs_ne _ _ _ (Ne.symm hj), Procs.set_shared] at ih₂
      have hlt : j < j' := Nat.lt_of_le_of_ne (hfirst (j', i) (by simp)) (Ne.symm hj)
      have hcomm : ∀ o ∈ (P.progs j).ops h (h i P.shared).2, Commutes h i o := by
        intro o ho
        rw [← ih₂] at ho
        obtain ⟨x, hx, rfl⟩ := List.mem_map.mp ho
        obtain ⟨hx, hxj⟩ := List.mem_filter.mp hx
        have : x.1 = j := by simpa using hxj
        exact hhead x hx (by omega)
      obtain ⟨hrun, hans, hops⟩ := run_comm (P.progs j) P.shared hcomm
      refine ⟨?_, ?_⟩
      · have hstep : (P.finish h j).progs j' = .op i k := by
          unfold Procs.finish
          rw [Procs.set_progs_ne _ _ _ hj]
          exact hp
        have hnext : (P.finish h j).set j' (k (h i (P.finish h j).shared).1)
            (h i (P.finish h j).shared).2 =
            (P.set j' (k (h i P.shared).1) (h i P.shared).2).finish h j := by
          simp only [Procs.finish, Procs.set_shared, Procs.set_progs_ne _ _ _ (Ne.symm hj), hans, hrun]
          simp [Procs.set, Function.update_comm hj]
        have hne : ((j', i) :: t).filter (fun x => x.1 ≠ j) = (j', i) :: t.filter fun x => x.1 ≠ j := by
          simp [hj]
        rw [hne]
        refine .cons j' i k hstep ?_
        rw [hnext]
        exact ih₁
      · rw [List.filter_cons_of_neg (by simpa using hj), ih₂, hops]

/-- The programs from `m` on, `k` of them. -/
def progsFrom (P : Procs ι ρ σ) (m k : Nat) : List (Prog ι ρ Unit) :=
  (List.range' m k).map P.progs

theorem progsFrom_finish (P : Procs ι ρ σ) (m k : Nat) :
    progsFrom (P.finish h m) (m + 1) k = progsFrom P (m + 1) k := by
  refine List.map_congr_left fun x hx => ?_
  have : m + 1 ≤ x := (List.mem_range'_1.mp hx).1
  exact Procs.set_progs_ne _ _ _ (by omega)

theorem shared_eq_from (m k : Nat) (hr : Interleaving h P t Q) (hbefore : ∀ j, j < m → P.progs j = .ret ())
    (hafter : ∀ j, m + k ≤ j → P.progs j = .ret ()) (hord : InOrder h t) (hend : ∀ j, Q.progs j = .ret ()) :
    Q.shared = runSeq h (progsFrom P m k) P.shared := by
  induction k generalizing P t m with
  | zero =>
    -- every program has returned, so nothing has run
    cases hr with
    | nil => rfl
    | cons j i k hp _ =>
      have : P.progs j = .ret () := by
        by_cases hj : j < m
        · exact hbefore j hj
        · exact hafter j (by omega)
      rw [this] at hp
      cases hp
  | succ k ih =>
    have hfirst : ∀ x ∈ t, m ≤ x.1 := by
      intro x hx
      refine Nat.le_of_not_lt fun hlt => ?_
      exact hr.ne_of_ret (hbefore x.1 hlt) x hx rfl
    obtain ⟨hpull, -⟩ := hr.pull hfirst hord (hend m)
    have hsub : InOrder h (t.filter fun x => x.1 ≠ m) := hord.filter _
    have := ih (m + 1) hpull (fun j hj => ?_) (fun j hj => ?_) hsub
    · rw [this, progsFrom_finish]
      simp [progsFrom, List.range'_succ, runSeq, Procs.finish]
    · by_cases hjm : j = m
      · subst hjm; simp [Procs.finish]
      · unfold Procs.finish
        rw [Procs.set_progs_ne _ _ _ hjm]
        exact hbefore j (by omega)
    · unfold Procs.finish
      rw [Procs.set_progs_ne _ _ _ (by omega)]
      exact hafter j (by omega)

/-- **Conflicts in order.** A complete interleaving of the first `n` programs whose out-of-order
operations commute ends where the programs end one after the other. -/
theorem shared_eq_runSeq (n : Nat)
    (hr : Interleaving h P t Q) (hn : ∀ j, n ≤ j → P.progs j = .ret ()) (hord : InOrder h t)
    (hend : ∀ j, Q.progs j = .ret ()) : Q.shared = runSeq h ((List.range n).map P.progs) P.shared := by
  have := shared_eq_from 0 n hr (by omega) (by simpa using hn) hord hend
  rwa [progsFrom, ← List.range_eq_range'] at this

end Interleaving

end Lib
