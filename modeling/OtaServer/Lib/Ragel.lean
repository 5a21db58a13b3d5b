import Mathlib.Data.List.Sort
import OtaServer.Lib.Bytes

/-!
# Ragel machines

Regular expressions over bytes with the operators of the Ragel state machine compiler, and the deterministic machine
that such an expression stands for.

* `Re`: the expressions. `r > a` runs `a` on the first byte of `r`, `r % a` on the byte after `r`, `r @ a` on each
  byte that may be the last one of `r`. If `r` matches nothing, its entering actions run with its leaving ones, so
  that they are not skipped.
* `Re.step`: the ways to go on with one byte (`Edge`): the actions, the priorities and the rest of the expression.
* `Re.number`: actions on one byte run in the order of their numbers, an entering action before those of the machine
  inside, a leaving or finishing action after them.
* `advance`: one byte of the machine. A way to go on is dropped when another one has a higher priority under the same
  name; the actions of the others are merged.
* `State.OnlyOn`: an action runs on one byte value only, which `State.OnlyOn.advance` carries along.
* `State.Finishes`: an action runs exactly on the bytes that end a match.
-/

namespace Lib.Ragel

/-! ## Expressions -/

/-- An expression with actions in `α`. A priority is a name and a value. -/
inductive Re (α : Type) where
  | eps
  | cls (ranges : List (UInt8 × UInt8))
  | cat (r s : Re α)
  | alt (r s : Re α)
  | star (r : Re α)
  /-- `r > a`. -/
  | enter (r : Re α) (a : α)
  /-- `r % a`. -/
  | leave (r : Re α) (a : α)
  /-- `r @ a`. -/
  | finish (r : Re α) (a : α)
  /-- `r $ (name, value)`: all bytes of `r`. -/
  | prio (r : Re α) (p : Nat × Nat)
  /-- `r > (name, value)`: the first byte of `r`. -/
  | enterPrio (r : Re α) (p : Nat × Nat)
  /-- `r @ (name, value)`: the bytes that may be the last one of `r`. -/
  | finishPrio (r : Re α) (p : Nat × Nat)
  deriving DecidableEq

namespace Re

variable {α : Type}

/-- One byte. -/
def byte (b : UInt8) : Re α := cls [(b, b)]

/-- A literal. -/
def lit : Bytes → Re α
  | [] => eps
  | [b] => byte b
  | b :: c :: bs => cat (byte b) (lit (c :: bs))

/-- One of the bytes of a text. -/
def oneOf (bs : Bytes) : Re α := cls (bs.map fun b => (b, b))

/-- `r1 r2 ...`. -/
def seq : List (Re α) → Re α
  | [] => eps
  | [r] => r
  | r :: s :: rs => cat r (seq (s :: rs))

/-- `r1 | r2 | ...`. -/
def any : List (Re α) → Re α
  | [] => cls []
  | [r] => r
  | r :: s :: rs => alt r (any (s :: rs))

/-- `r?`. -/
def opt (r : Re α) : Re α := alt r eps

/-- `r+`. -/
def plus (r : Re α) : Re α := cat r (star r)

/-- `r{n}`. -/
def rep (r : Re α) (n : Nat) : Re α := seq (List.replicate n r)

/-- `r{,k}`. -/
def upTo (r : Re α) : Nat → Re α
  | 0 => eps
  | k + 1 => opt (cat r (upTo r k))

/-- `r{n,m}`, with `m = n + k`. -/
def repTo (r : Re α) (n k : Nat) : Re α := seq (List.replicate n r ++ [upTo r k])

/-- `r{n,}`. -/
def repFrom (r : Re α) (n : Nat) : Re α := seq (List.replicate n r ++ [star r])

/-- `r :> s`: `r` ends as soon as `s` can start. The name is one that nothing else uses. -/
def entryGuard (name : Nat) (r s : Re α) : Re α := cat (prio r (name, 0)) (enterPrio s (name, 1))

/-- `r :>> s`: `r` ends as soon as `s` can end. -/
def finishGuard (name : Nat) (r s : Re α) : Re α := cat (prio r (name, 0)) (finishPrio s (name, 1))

/-- The actions with their numbers, counted from `n`, and the next free number. -/
def number : Re α → Nat → Re (Nat × α) × Nat
  | eps, n => (eps, n)
  | cls rs, n => (cls rs, n)
  | cat r s, n =>
    let (r', n') := r.number n
    let (s', n'') := s.number n'
    (cat r' s', n'')
  | alt r s, n =>
    let (r', n') := r.number n
    let (s', n'') := s.number n'
    (alt r' s', n'')
  | star r, n => let (r', n') := r.number n; (star r', n')
  | enter r a, n => let (r', n') := r.number (n + 1); (enter r' (n, a), n')
  | leave r a, n => let (r', n') := r.number n; (leave r' (n', a), n' + 1)
  | finish r a, n => let (r', n') := r.number n; (finish r' (n', a), n' + 1)
  | prio r p, n => let (r', n') := r.number n; (prio r' p, n')
  | enterPrio r p, n => let (r', n') := r.number n; (enterPrio r' p, n')
  | finishPrio r p, n => let (r', n') := r.number n; (finishPrio r' p, n')

/-- The expression matches the empty string. -/
@[grind =]
def nullable : Re α → Bool
  | eps => true
  | cls _ => false
  | cat r s => r.nullable && s.nullable
  | alt r s => r.nullable || s.nullable
  | star _ => true
  | enter r _ | leave r _ | finish r _ => r.nullable
  | prio r _ | enterPrio r _ | finishPrio r _ => r.nullable

/-- Some byte goes on in the expression. -/
def live : Re α → Bool
  | eps => false
  | cls rs => rs.any fun r => r.1 ≤ r.2
  | cat r s => r.live || (r.nullable && s.live)
  | alt r s => r.live || s.live
  | star r => r.live
  | enter r _ | leave r _ | finish r _ => r.live
  | prio r _ | enterPrio r _ | finishPrio r _ => r.live

/-- What runs when the expression is left here. -/
@[grind =]
def leaving : Re α → List α
  | eps | cls _ | star _ => []
  | cat r s => r.leaving ++ s.leaving
  | alt r s => (if r.nullable then r.leaving else []) ++ (if s.nullable then s.leaving else [])
  | enter r a => a :: r.leaving
  | leave r a => r.leaving ++ [a]
  | finish r _ => r.leaving
  | prio r _ | enterPrio r _ | finishPrio r _ => r.leaving

end Re

/-- A way to go on with a byte. -/
structure Edge (α : Type) where
  acts : List α
  prios : List (Nat × Nat)
  next : Re α
  deriving DecidableEq

namespace Re

variable {α : Type}

/-- The ways to go on with the byte `b`. -/
@[grind =]
def step : Re α → UInt8 → List (Edge α)
  | eps, _ => []
  | cls rs, b => if rs.any fun r => r.1 ≤ b && b ≤ r.2 then [⟨[], [], eps⟩] else []
  | cat r s, b =>
    (r.step b).map (fun e => { e with next := cat e.next s }) ++
      if r.nullable then (s.step b).map (fun e => { e with acts := r.leaving ++ e.acts }) else []
  | alt r s, b => r.step b ++ s.step b
  | star r, b => (r.step b).map fun e => { e with next := cat e.next (star r) }
  | enter r a, b => (r.step b).map fun e => { e with acts := a :: e.acts }
  | leave r a, b => (r.step b).map fun e => { e with next := leave e.next a }
  | finish r a, b => (r.step b).map fun e =>
      { e with acts := e.acts ++ if e.next.nullable then [a] else [], next := finish e.next a }
  | prio r p, b => (r.step b).map fun e => { e with prios := p :: e.prios, next := prio e.next p }
  | enterPrio r p, b => (r.step b).map fun e => { e with prios := p :: e.prios }
  | finishPrio r p, b => (r.step b).map fun e =>
      { e with prios := (if e.next.nullable then [p] else []) ++ e.prios
               next := finishPrio e.next p }

end Re

/-! ## The machine -/

section Machine

variable {α : Type}

/-- Another way to go on has a higher priority under the same name. -/
def Edge.beaten (es : List (Edge α)) (e : Edge α) : Bool :=
  e.prios.any fun p => es.any fun e' => e'.prios.any fun q => q.1 == p.1 && p.2 < q.2

/-- The ways to go on that are not beaten. -/
def survivors (es : List (Edge α)) : List (Edge α) := es.filter fun e => !e.beaten es

/-- The actions of the ways to go on, in the order of their numbers, each once. -/
def actions [DecidableEq α] (es : List (Edge (Nat × α))) : List α :=
  (((es.flatMap (·.acts)).insertionSort (·.1 ≤ ·.1)).map (·.2)).eraseDups

/-- The state of a machine: the expressions that the rest of the input may match. -/
abbrev State (α : Type) := List (Re (Nat × α))

/-- The start of the machine of an expression. -/
def start (r : Re α) : State α := [(r.number 0).1]

/-- What has been read matches. -/
def State.final (s : State α) : Bool := s.any (·.nullable)

/-- Some byte goes on. -/
def State.live (s : State α) : Bool := s.any (·.live)

/-- The next state and the actions for one byte, or nothing if the byte is an error. -/
def advance [DecidableEq α] (s : State α) (b : UInt8) : Option (State α × List α) :=
  match survivors (s.flatMap (·.step b)) with
  | [] => none
  | e :: es => some (((e :: es).map (·.next)).eraseDups, actions (e :: es))

end Machine

/-! ## Actions that run on one byte value only -/

namespace Re

variable {α : Type} {P : α → Bool} {b c : UInt8}

variable {e : Edge α} {r : Re α}

theorem mem_step_cat {s : Re α} : e ∈ (cat r s).step c ↔ (∃ e' ∈ r.step c, { e' with next := cat e'.next s } = e) ∨
      r.nullable = true ∧ ∃ e' ∈ s.step c, { e' with acts := r.leaving ++ e'.acts } = e := by
  rw [step, List.mem_append, List.mem_map]
  by_cases hn : r.nullable = true
  · simp [hn]
  · simp [hn]

theorem mem_step_cls {rs : List (UInt8 × UInt8)} :
    e ∈ (cls rs).step c ↔ (∃ r ∈ rs, r.1 ≤ c ∧ c ≤ r.2) ∧ e = ⟨[], [], eps⟩ := by
  have hany : (rs.any fun r => r.1 ≤ c && c ≤ r.2) = true ↔ ∃ r ∈ rs, r.1 ≤ c ∧ c ≤ r.2 := by
    simp [List.any_eq_true]
  rw [step, ← hany]
  split
  · next h => rw [List.mem_singleton, and_iff_right h]
  · next h => exact ⟨fun hm => absurd hm List.not_mem_nil, fun hm => absurd hm.1 h⟩

/-- Every first byte of the expression is `b`. -/
@[grind =]
def starts (b : UInt8) : Re α → Bool
  | eps => true
  | cls rs => rs.all fun r => r.1 == b && r.2 == b
  | cat r s => r.starts b && (!r.nullable || s.starts b)
  | alt r s => r.starts b && s.starts b
  | star r => r.starts b
  | enter r _ | leave r _ | finish r _ => r.starts b
  | prio r _ | enterPrio r _ | finishPrio r _ => r.starts b

/-- An action of `P` may run when the expression is left, here or later. -/
@[grind =]
def mayLeave (P : α → Bool) : Re α → Bool
  | eps | cls _ => false
  | cat r s => (s.nullable && r.mayLeave P) || s.mayLeave P
  | alt r s => r.mayLeave P || s.mayLeave P
  | star r => r.mayLeave P
  | enter r a | leave r a => P a || r.mayLeave P
  | finish r _ => r.mayLeave P
  | prio r _ | enterPrio r _ | finishPrio r _ => r.mayLeave P

/-- Inside the expression the actions of `P` run on the byte `b` only. -/
@[grind =]
def onlyOn (P : α → Bool) (b : UInt8) : Re α → Bool
  | eps | cls _ => true
  | cat r s => r.onlyOn P b && s.onlyOn P b && (!r.mayLeave P || s.starts b)
  | alt r s => r.onlyOn P b && s.onlyOn P b
  | star r => r.onlyOn P b && (!r.mayLeave P || r.starts b)
  | enter r a => r.onlyOn P b && (!P a || r.starts b)
  | leave r _ => r.onlyOn P b
  | finish r a => r.onlyOn P b && !P a
  | prio r _ | enterPrio r _ | finishPrio r _ => r.onlyOn P b

theorem eq_of_mem_step (h : r.starts b = true) (he : e ∈ r.step c) : c = b := by
  induction r generalizing e with
  | eps => simp [step] at he
  | cls rs =>
    obtain ⟨⟨r, hmem, hlo, hhi⟩, -⟩ := mem_step_cls.mp he
    have hb := List.all_eq_true.mp h r hmem
    simp only [Bool.and_eq_true, beq_iff_eq] at hb
    rw [hb.1] at hlo
    rw [hb.2] at hhi
    exact UInt8.le_antisymm hhi hlo
  | cat r s ihr ihs =>
    simp only [starts, Bool.and_eq_true, Bool.or_eq_true, Bool.not_eq_true'] at h
    obtain ⟨hr, hs⟩ := h
    rcases mem_step_cat.mp he with ⟨e', he', rfl⟩ | ⟨hn, e', he', rfl⟩
    · exact ihr hr he'
    · exact ihs (hs.resolve_left (by simp [hn])) he'
  | alt r s ihr ihs =>
    simp only [starts, Bool.and_eq_true] at h
    rcases List.mem_append.mp he with h' | h'
    · exact ihr h.1 h'
    · exact ihs h.2 h'
  | star r ih | enter r _ ih | leave r _ ih | finish r _ ih | prio r _ ih | enterPrio r _ ih
  | finishPrio r _ ih =>
    obtain ⟨e', he', rfl⟩ := List.mem_map.mp he
    exact ih h he'

theorem mayLeave_of_leaving (hn : r.nullable = true) {x : α} (hx : x ∈ r.leaving)
    (hP : P x = true) : r.mayLeave P = true := by
  induction r with
  | eps | cls _ | star _ => simp [leaving] at hx
  | cat r s ihr ihs =>
    simp only [nullable, Bool.and_eq_true] at hn
    simp only [mayLeave, Bool.or_eq_true, Bool.and_eq_true]
    rcases List.mem_append.mp hx with h | h
    · exact .inl ⟨hn.2, ihr hn.1 h⟩
    · exact .inr (ihs hn.2 h)
  | alt r s ihr ihs =>
    simp only [mayLeave, Bool.or_eq_true]
    rcases List.mem_append.mp hx with h | h
    · by_cases hr : r.nullable = true
      · exact .inl (ihr hr (by rwa [if_pos hr] at h))
      · simp [hr] at h
    · by_cases hs : s.nullable = true
      · exact .inr (ihs hs (by rwa [if_pos hs] at h))
      · simp [hs] at h
  | enter r a ih =>
    simp only [mayLeave, Bool.or_eq_true]
    rcases List.mem_cons.mp hx with rfl | h
    · exact .inl hP
    · exact .inr (ih hn h)
  | leave r a ih =>
    simp only [mayLeave, Bool.or_eq_true]
    rcases List.mem_append.mp hx with h | h
    · exact .inr (ih hn h)
    · obtain rfl := List.mem_singleton.mp h
      exact .inl hP
  | finish r _ ih | prio r _ ih | enterPrio r _ ih | finishPrio r _ ih => exact ih hn hx

theorem mayLeave_of_next (he : e ∈ r.step c) (h : e.next.mayLeave P = true) : r.mayLeave P = true := by
  induction r generalizing e with
  | eps => simp [step] at he
  | cls rs =>
    obtain ⟨-, rfl⟩ := mem_step_cls.mp he
    exact h
  | cat r s ihr ihs =>
    simp only [mayLeave, Bool.or_eq_true, Bool.and_eq_true]
    rcases mem_step_cat.mp he with ⟨e', he', rfl⟩ | ⟨-, e', he', rfl⟩
    · simp only [mayLeave, Bool.or_eq_true, Bool.and_eq_true] at h
      exact h.imp_left fun h => ⟨h.1, ihr he' h.2⟩
    · exact .inr (ihs he' h)
  | alt r s ihr ihs =>
    simp only [mayLeave, Bool.or_eq_true]
    rcases List.mem_append.mp he with h' | h'
    · exact .inl (ihr h' h)
    · exact .inr (ihs h' h)
  | star r ih =>
    obtain ⟨e', he', rfl⟩ := List.mem_map.mp he
    simp only [mayLeave, nullable, Bool.true_and, Bool.or_eq_true] at h
    exact h.elim (fun h => ih he' h) id
  | enter r a ih =>
    obtain ⟨e', he', rfl⟩ := List.mem_map.mp he
    simp only [mayLeave, Bool.or_eq_true]
    exact .inr (ih he' h)
  | leave r a ih =>
    obtain ⟨e', he', rfl⟩ := List.mem_map.mp he
    simp only [mayLeave, Bool.or_eq_true] at h ⊢
    exact h.imp_right fun h => ih he' h
  | finish r _ ih | prio r _ ih | enterPrio r _ ih | finishPrio r _ ih =>
    obtain ⟨e', he', rfl⟩ := List.mem_map.mp he
    exact ih he' h

/-- What `onlyOn` says of one byte, and that it stays true. -/
theorem onlyOn_step (h : r.onlyOn P b = true) (he : e ∈ r.step c) :
    e.next.onlyOn P b = true ∧ ∀ x ∈ e.acts, P x = true → c = b := by
  induction r generalizing e with
  | eps => simp [step] at he
  | cls rs =>
    obtain ⟨-, rfl⟩ := mem_step_cls.mp he
    exact ⟨rfl, by simp⟩
  | cat r s ihr ihs =>
    simp only [onlyOn, Bool.and_eq_true, Bool.or_eq_true, Bool.not_eq_true'] at h
    obtain ⟨⟨hr, hs⟩, hleave⟩ := h
    rcases mem_step_cat.mp he with ⟨e', he', rfl⟩ | ⟨hn, e', he', rfl⟩
    · obtain ⟨hnext, hacts⟩ := ihr hr he'
      refine ⟨?_, hacts⟩
      simp only [onlyOn, Bool.and_eq_true, Bool.or_eq_true, Bool.not_eq_true']
      refine ⟨⟨hnext, hs⟩, hleave.imp_left fun hl => ?_⟩
      exact Bool.eq_false_iff.mpr fun hq => by simp [mayLeave_of_next he' hq] at hl
    -- the byte leaves `r`: what runs then is in front of the actions of `s`
    · obtain ⟨hnext, hacts⟩ := ihs hs he'
      refine ⟨hnext, fun x hx hP => ?_⟩
      rcases List.mem_append.mp hx with hx | hx
      · have hl := mayLeave_of_leaving hn hx hP
        exact eq_of_mem_step (hleave.resolve_left (by simp [hl])) he'
      · exact hacts x hx hP
  | alt r s ihr ihs =>
    simp only [onlyOn, Bool.and_eq_true] at h
    rcases List.mem_append.mp he with h' | h'
    · exact ihr h.1 h'
    · exact ihs h.2 h'
  | star r ih =>
    have hstar := h
    simp only [onlyOn, Bool.and_eq_true, Bool.or_eq_true, Bool.not_eq_true'] at h
    obtain ⟨e', he', rfl⟩ := List.mem_map.mp he
    obtain ⟨hnext, hacts⟩ := ih h.1 he'
    refine ⟨?_, hacts⟩
    simp only [onlyOn, starts, Bool.and_eq_true, Bool.or_eq_true, Bool.not_eq_true']
    refine ⟨⟨hnext, by simpa [onlyOn] using h⟩, h.2.imp_left fun hl => ?_⟩
    exact Bool.eq_false_iff.mpr fun hq => by simp [mayLeave_of_next he' hq] at hl
  | enter r a ih =>
    simp only [onlyOn, Bool.and_eq_true, Bool.or_eq_true, Bool.not_eq_true'] at h
    obtain ⟨e', he', rfl⟩ := List.mem_map.mp he
    obtain ⟨hnext, hacts⟩ := ih h.1 he'
    refine ⟨hnext, fun x hx hP => ?_⟩
    -- an entering action runs on a first byte
    rcases List.mem_cons.mp hx with rfl | hx
    · exact eq_of_mem_step (h.2.resolve_left (by simp [hP])) he'
    · exact hacts x hx hP
  | finish r a ih =>
    simp only [onlyOn, Bool.and_eq_true, Bool.not_eq_true'] at h
    obtain ⟨e', he', rfl⟩ := List.mem_map.mp he
    obtain ⟨hnext, hacts⟩ := ih h.1 he'
    refine ⟨by simp [onlyOn, hnext, h.2], fun x hx hP => ?_⟩
    rcases List.mem_append.mp hx with hx | hx
    · exact hacts x hx hP
    · split at hx
      · obtain rfl := List.mem_singleton.mp hx
        simp [h.2] at hP
      · simp at hx
  | leave r _ ih | prio r _ ih | enterPrio r _ ih | finishPrio r _ ih =>
    obtain ⟨e', he', rfl⟩ := List.mem_map.mp he
    obtain ⟨hnext, hacts⟩ := ih h he'
    exact ⟨hnext, hacts⟩

/-! ## The last byte -/

/-- Every match that is not empty ends with the byte `b`. -/
@[grind =]
def ends (b : UInt8) : Re α → Bool
  | eps => true
  | cls rs => rs.all fun r => r.1 == b && r.2 == b
  | cat r s => s.ends b && (!s.nullable || r.ends b)
  | alt r s => r.ends b && s.ends b
  | star r => r.ends b
  | enter r _ | leave r _ | finish r _ => r.ends b
  | prio r _ | enterPrio r _ | finishPrio r _ => r.ends b

theorem ends_step (h : r.ends b = true) (he : e ∈ r.step c) :
    e.next.ends b = true ∧ (e.next.nullable = true → c = b) := by
  induction r generalizing e with
  | eps => simp [step] at he
  | cls rs =>
    have hcb := eq_of_mem_step (r := cls rs) h he
    obtain ⟨-, rfl⟩ := mem_step_cls.mp he
    exact ⟨rfl, fun _ => hcb⟩
  | cat r s ihr ihs =>
    simp only [ends, Bool.and_eq_true, Bool.or_eq_true, Bool.not_eq_true'] at h
    rcases mem_step_cat.mp he with ⟨e', he', rfl⟩ | ⟨-, e', he', rfl⟩
    · simp only [ends, nullable, Bool.and_eq_true, Bool.or_eq_true, Bool.not_eq_true']
      refine ⟨⟨h.1, h.2.imp_right fun hr => (ihr hr he').1⟩, fun hn => ?_⟩
      exact (ihr (h.2.resolve_left (by simp [hn.2])) he').2 hn.1
    · obtain ⟨hnext, hnull⟩ := ihs h.1 he'
      exact ⟨hnext, hnull⟩
  | alt r s ihr ihs =>
    simp only [ends, Bool.and_eq_true] at h
    rcases List.mem_append.mp he with h' | h'
    · exact ihr h.1 h'
    · exact ihs h.2 h'
  | star r ih =>
    obtain ⟨e', he', rfl⟩ := List.mem_map.mp he
    obtain ⟨hnext, hnull⟩ := ih h he'
    have hr : r.ends b = true := h
    simp only [ends, nullable, Bool.and_true, hnext, hr, Bool.or_true, true_and]
    exact hnull
  | enter r _ ih | leave r _ ih | finish r _ ih | prio r _ ih | enterPrio r _ ih
  | finishPrio r _ ih =>
    obtain ⟨e', he', rfl⟩ := List.mem_map.mp he
    obtain ⟨hnext, hnull⟩ := ih h he'
    exact ⟨hnext, hnull⟩

/-! ## Actions that run at the end only -/

/-- An action of `P` occurs in the expression. -/
@[grind =]
def mentions (P : α → Bool) : Re α → Bool
  | eps | cls _ => false
  | cat r s | alt r s => r.mentions P || s.mentions P
  | star r => r.mentions P
  | enter r a | leave r a | finish r a => P a || r.mentions P
  | prio r _ | enterPrio r _ | finishPrio r _ => r.mentions P

theorem not_of_mem_leaving (h : r.mentions P = false) {x : α} (hx : x ∈ r.leaving) : P x = false := by
  induction r with
  | eps | cls _ | star _ => simp [leaving] at hx
  | cat r s ihr ihs =>
    simp only [mentions, Bool.or_eq_false_iff] at h
    rcases List.mem_append.mp hx with hx | hx
    · exact ihr h.1 hx
    · exact ihs h.2 hx
  | alt r s ihr ihs =>
    simp only [mentions, Bool.or_eq_false_iff] at h
    rcases List.mem_append.mp hx with hx | hx
    · split at hx
      · exact ihr h.1 hx
      · simp at hx
    · split at hx
      · exact ihs h.2 hx
      · simp at hx
  | enter r a ih =>
    simp only [mentions, Bool.or_eq_false_iff] at h
    rcases List.mem_cons.mp hx with rfl | hx
    · exact h.1
    · exact ih h.2 hx
  | leave r a ih =>
    simp only [mentions, Bool.or_eq_false_iff] at h
    rcases List.mem_append.mp hx with hx | hx
    · exact ih h.2 hx
    · obtain rfl := List.mem_singleton.mp hx
      exact h.1
  | finish r a ih =>
    simp only [mentions, Bool.or_eq_false_iff] at h
    exact ih h.2 hx
  | prio r _ ih | enterPrio r _ ih | finishPrio r _ ih => exact ih h hx

theorem mentions_step (h : r.mentions P = false) (he : e ∈ r.step c) :
    e.next.mentions P = false ∧ ∀ x ∈ e.acts, P x = false := by
  induction r generalizing e with
  | eps => simp [step] at he
  | cls rs =>
    obtain ⟨-, rfl⟩ := mem_step_cls.mp he
    exact ⟨rfl, by simp⟩
  | cat r s ihr ihs =>
    simp only [mentions, Bool.or_eq_false_iff] at h
    rcases mem_step_cat.mp he with ⟨e', he', rfl⟩ | ⟨-, e', he', rfl⟩
    · obtain ⟨hnext, hacts⟩ := ihr h.1 he'
      exact ⟨by simp [mentions, hnext, h.2], hacts⟩
    · obtain ⟨hnext, hacts⟩ := ihs h.2 he'
      refine ⟨hnext, fun x hx => ?_⟩
      rcases List.mem_append.mp hx with hx | hx
      -- the actions of leaving `r` run with the first byte of `s`
      · exact not_of_mem_leaving h.1 hx
      · exact hacts x hx
  | alt r s ihr ihs =>
    simp only [mentions, Bool.or_eq_false_iff] at h
    rcases List.mem_append.mp he with h' | h'
    · exact ihr h.1 h'
    · exact ihs h.2 h'
  | star r ih =>
    obtain ⟨e', he', rfl⟩ := List.mem_map.mp he
    obtain ⟨hnext, hacts⟩ := ih h he'
    have hr : r.mentions P = false := h
    exact ⟨by simp [mentions, hnext, hr], hacts⟩
  | enter r a ih =>
    simp only [mentions, Bool.or_eq_false_iff] at h
    obtain ⟨e', he', rfl⟩ := List.mem_map.mp he
    obtain ⟨hnext, hacts⟩ := ih h.2 he'
    refine ⟨hnext, fun x hx => ?_⟩
    rcases List.mem_cons.mp hx with rfl | hx
    · exact h.1
    · exact hacts x hx
  | leave r a ih =>
    simp only [mentions, Bool.or_eq_false_iff] at h
    obtain ⟨e', he', rfl⟩ := List.mem_map.mp he
    obtain ⟨hnext, hacts⟩ := ih h.2 he'
    exact ⟨by simp [mentions, hnext, h.1], hacts⟩
  | finish r a ih =>
    simp only [mentions, Bool.or_eq_false_iff] at h
    obtain ⟨e', he', rfl⟩ := List.mem_map.mp he
    obtain ⟨hnext, hacts⟩ := ih h.2 he'
    refine ⟨by simp [mentions, hnext, h.1], fun x hx => ?_⟩
    rcases List.mem_append.mp hx with hx | hx
    · exact hacts x hx
    · split at hx
      · obtain rfl := List.mem_singleton.mp hx
        exact h.1
      · simp at hx
  | prio r _ ih | enterPrio r _ ih | finishPrio r _ ih =>
    obtain ⟨e', he', rfl⟩ := List.mem_map.mp he
    obtain ⟨hnext, hacts⟩ := ih h he'
    exact ⟨hnext, hacts⟩

end Re

section

variable {α : Type} [DecidableEq α]

variable {s s' : State α} {a : α} {as : List α}

theorem mem_actions {es : List (Edge (Nat × α))} : a ∈ actions es ↔ ∃ e ∈ es, ∃ n, (n, a) ∈ e.acts := by
  simp only [actions, List.mem_eraseDups, List.mem_map, List.mem_insertionSort, List.mem_flatMap]
  constructor
  · rintro ⟨⟨n, x⟩, ⟨e, he, hx⟩, rfl⟩
    exact ⟨e, he, n, hx⟩
  · rintro ⟨e, he, n, hx⟩
    exact ⟨(n, a), ⟨e, he, hx⟩, rfl⟩

theorem Edge.beaten_mono {β : Type} {es es' : List (Edge β)} (hsub : ∀ e ∈ es, e ∈ es') {e : Edge β}
    (h : e.beaten es = true) : e.beaten es' = true := by
  simp only [Edge.beaten, List.any_eq_true] at h ⊢
  obtain ⟨p, hp, e', he', hq⟩ := h
  exact ⟨p, hp, e', hsub e' he', hq⟩

/-- Where the next state and the actions of a byte come from. -/
theorem advance_eq_some {b : UInt8} (h : advance s b = some (s', as)) :
    ∃ es : List (Edge (Nat × α)), (∀ e ∈ es, ∃ r ∈ s, e ∈ r.step b ∧ e.beaten (r.step b) = false) ∧
      (∀ r', r' ∈ s' ↔ ∃ e ∈ es, e.next = r') ∧ ∀ a, a ∈ as ↔ ∃ e ∈ es, ∃ n, (n, a) ∈ e.acts := by
  refine ⟨survivors (s.flatMap (·.step b)), fun e he => ?_, ?_⟩
  · obtain ⟨hmem, hbeaten⟩ := List.mem_filter.mp he
    obtain ⟨r, hr, hstep⟩ := List.mem_flatMap.mp hmem
    refine ⟨r, hr, hstep, Bool.eq_false_iff.mpr fun h' => ?_⟩
    rw [Edge.beaten_mono (fun e' he' => List.mem_flatMap.mpr ⟨r, hr, he'⟩) h'] at hbeaten
    simp at hbeaten
  · unfold advance at h
    split at h
    · simp at h
    · next e es hes =>
      rw [hes]
      simp only [Option.some.injEq, Prod.mk.injEq] at h
      obtain ⟨rfl, rfl⟩ := h
      refine ⟨fun r' => ?_, fun a => mem_actions⟩
      rw [List.mem_eraseDups, List.mem_map]

/-- The action `a` runs on the byte `b` only. -/
def State.OnlyOn (s : State α) (a : α) (b : UInt8) : Prop :=
  ∀ r ∈ s, r.onlyOn (fun x => x.2 == a) b = true

/-- **One byte.** The action runs on no other byte, and that stays so. -/
theorem State.OnlyOn.advance {b c : UInt8} (h : s.OnlyOn a b) (hs : Ragel.advance s c = some (s', as)) :
    s'.OnlyOn a b ∧ (a ∈ as → c = b) := by
  obtain ⟨es, hes, hnext, hacts⟩ := advance_eq_some hs
  constructor
  · intro r' hr'
    obtain ⟨e, he, rfl⟩ := (hnext r').mp hr'
    obtain ⟨r, hr, hstep, -⟩ := hes e he
    exact (Re.onlyOn_step (h r hr) hstep).1
  · intro ha
    obtain ⟨e, he, n, hn⟩ := (hacts a).mp ha
    obtain ⟨r, hr, hstep, -⟩ := hes e he
    exact (Re.onlyOn_step (h r hr) hstep).2 (n, a) hn (by simp)

/-- The action `a` is a finishing action of the whole expression and occurs nowhere else. -/
def State.Finishes (s : State α) (a : α) : Prop :=
  ∀ r ∈ s, ∃ r' n, r = .finish r' (n, a) ∧ r'.mentions (fun x => x.2 == a) = false

/-- **One byte.** The finishing action runs exactly on the bytes that make the state final. -/
theorem State.Finishes.advance {c : UInt8} (h : s.Finishes a) (hs : Ragel.advance s c = some (s', as)) :
    s'.Finishes a ∧ (a ∈ as ↔ s'.final = true) := by
  obtain ⟨es, hes, hnext, hacts⟩ := advance_eq_some hs
  have hedge : ∀ e ∈ es, (∃ r' n, e.next = .finish r' (n, a) ∧
      r'.mentions (fun x => x.2 == a) = false) ∧
      ((∃ n, (n, a) ∈ e.acts) ↔ e.next.nullable = true) := by
    intro e he
    obtain ⟨r, hr, hstep, -⟩ := hes e he
    obtain ⟨r', n, rfl, hr'⟩ := h r hr
    obtain ⟨e', he', rfl⟩ := List.mem_map.mp hstep
    obtain ⟨hnone, hrun⟩ := Re.mentions_step hr' he'
    refine ⟨⟨e'.next, n, rfl, hnone⟩, ?_⟩
    simp only [Re.nullable, List.mem_append]
    constructor
    · rintro ⟨k, hk | hk⟩
      · simpa using hrun _ hk
      · split at hk
        · assumption
        · simp at hk
    · intro hn
      exact ⟨n, .inr (by simp [hn])⟩
  constructor
  · intro r' hr'
    obtain ⟨e, he, rfl⟩ := (hnext r').mp hr'
    exact (hedge e he).1
  · rw [hacts, State.final, List.any_eq_true]
    constructor
    · rintro ⟨e, he, hn⟩
      exact ⟨e.next, (hnext _).mpr ⟨e, he, rfl⟩, (hedge e he).2.mp hn⟩
    · rintro ⟨r', hr', hn⟩
      obtain ⟨e, he, rfl⟩ := (hnext r').mp hr'
      exact ⟨e, he, (hedge e he).2.mpr hn⟩

end

end Lib.Ragel
