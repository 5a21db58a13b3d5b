import OtaServer.Lib.Ragel

/-!
# Runner of Ragel machines

Three ways to say something about every text, from finitely many facts that are checked by computation.

* `Re.uniform`: a range of bytes with the same ways to go on. What holds for its first byte holds for all
  (`advance_of_ranges`, `mem_of_among`).
* `Re.residuals`: all that can ever be left of an expression (`next_mem_residuals`), and `Re.arrows`: its ways to go
  on with the bytes of each. What holds for all residuals and arrows holds for every thread of every run.
* `walk`: the run over a text, with the actions of each byte; `State.run`: the state behind a text.
* `Runner`: a parser that runs a machine. `Runner.walk` is its run over a text, from the states and actions of the
  machine.
* `Re.after`: what is left of a thread behind a text. If nothing is left of any thread, the machine stops on the text
  (`run_eq_none`).
-/

namespace Lib.Ragel

variable {α : Type}

/-- A byte lies in one of the ranges. -/
def inRanges (rs : List (UInt8 × UInt8)) (b : UInt8) : Bool := rs.any fun r => r.1 ≤ b && b ≤ r.2

namespace Re

/-! ## Ranges of bytes -/

/-- The bytes from `lo` to `hi` have the same ways to go on. -/
def uniform (lo hi : UInt8) : Re α → Bool
  | eps => true
  | cls rs => rs.all fun r => (r.1 ≤ lo && hi ≤ r.2) || hi < r.1 || r.2 < lo
  | cat r s => r.uniform lo hi && (!r.nullable || s.uniform lo hi)
  | alt r s => r.uniform lo hi && s.uniform lo hi
  | star r => r.uniform lo hi
  | enter r _ | leave r _ | finish r _ => r.uniform lo hi
  | prio r _ | enterPrio r _ | finishPrio r _ => r.uniform lo hi

theorem step_eq_of_uniform {r : Re α} {lo hi b : UInt8} (h : r.uniform lo hi = true) (hlo : lo ≤ b)
    (hhi : b ≤ hi) : r.step b = r.step lo := by
  induction r with
  | eps => rfl
  | cls rs =>
    have hany : inRanges rs b = inRanges rs lo := by
      have hiff : ∀ r ∈ rs, (r.1 ≤ b ∧ b ≤ r.2) ↔ (r.1 ≤ lo ∧ lo ≤ r.2) := by
        intro r hr
        have hr := List.all_eq_true.mp h r hr
        simp only [Bool.or_eq_true, Bool.and_eq_true, decide_eq_true_eq, UInt8.le_iff_toNat_le,
          UInt8.lt_iff_toNat_lt] at hr hlo hhi ⊢
        omega
      rw [Bool.eq_iff_iff]
      simp only [inRanges, List.any_eq_true, Bool.and_eq_true, decide_eq_true_eq]
      exact exists_congr fun r => and_congr_right fun hr => hiff r hr
    simp only [step]
    unfold inRanges at hany
    rw [hany]
  | cat r s ihr ihs =>
    simp only [uniform, Bool.and_eq_true, Bool.or_eq_true, Bool.not_eq_true'] at h
    simp only [step]
    rw [ihr h.1]
    split
    · next hn => rw [ihs (h.2.resolve_left (by simp [hn]))]
    · rfl
  | alt r s ihr ihs =>
    simp only [uniform, Bool.and_eq_true] at h
    simp only [step]
    rw [ihr h.1, ihs h.2]
  | star r ih | enter r _ ih | leave r _ ih | finish r _ ih | prio r _ ih | enterPrio r _ ih
  | finishPrio r _ ih =>
    simp only [step]
    rw [ih h]

end Re

/-- The machine does the same on all bytes of some ranges. -/
def State.onRanges [DecidableEq α] (s : State α) (rs : List (UInt8 × UInt8)) (out : State α × List α) : Bool :=
  rs.all fun r => s.all (·.uniform r.1 r.2) && decide (advance s r.1 = some out)

theorem advance_of_uniform [DecidableEq α] {s : State α} {lo hi b : UInt8}
    (h : s.all (·.uniform lo hi) = true) (hlo : lo ≤ b) (hhi : b ≤ hi) : advance s b = advance s lo := by
  have hstep : s.flatMap (·.step b) = s.flatMap (·.step lo) := by
    refine List.flatMap_congr fun x hx => ?_
    exact Re.step_eq_of_uniform (List.all_eq_true.mp h x hx) hlo hhi
  rw [advance, advance, hstep]

theorem advance_of_ranges [DecidableEq α] {s : State α} {rs : List (UInt8 × UInt8)}
    {out : State α × List α} (h : s.onRanges rs out = true) {b : UInt8} (hb : inRanges rs b = true) :
    advance s b = some out := by
  obtain ⟨r, hr, hin⟩ := List.any_eq_true.mp hb
  have hr := List.all_eq_true.mp h r hr
  simp only [Bool.and_eq_true, decide_eq_true_eq] at hr hin
  rw [← hr.2, advance_of_uniform hr.1 hin.1 hin.2]

/-- The machine goes one of these ways, if any, on the bytes of some ranges. -/
def State.among [DecidableEq α] (s : State α) (rs : List (UInt8 × UInt8)) (outs : List (State α × List α)) : Bool :=
  rs.all fun r => s.all (·.uniform r.1 r.2) && (advance s r.1).all (decide <| · ∈ outs)

theorem mem_of_among [DecidableEq α] {s : State α} {rs : List (UInt8 × UInt8)} {outs : List (State α × List α)}
    (h : s.among rs outs = true) {b : UInt8} (hb : inRanges rs b = true) {out : State α × List α}
    (hout : advance s b = some out) : out ∈ outs := by
  obtain ⟨r, hr, hin⟩ := List.any_eq_true.mp hb
  have hr := List.all_eq_true.mp h r hr
  simp only [Bool.and_eq_true, decide_eq_true_eq] at hr hin
  rw [advance_of_uniform hr.1 hin.1 hin.2] at hout
  rw [hout] at hr
  exact of_decide_eq_true hr.2

/-! ## All that can be left -/

namespace Re

/-- The expressions that can be left of an expression. -/
def residuals : Re α → List (Re α)
  | eps => [eps]
  | cls rs => [cls rs, eps]
  | cat r s => r.residuals.map (cat · s) ++ s.residuals
  | alt r s => alt r s :: (r.residuals ++ s.residuals)
  | star r => star r :: r.residuals.map (cat · (star r))
  | enter r a => enter r a :: r.residuals
  | leave r a => r.residuals.map (leave · a)
  | finish r a => r.residuals.map (finish · a)
  | prio r p => r.residuals.map (prio · p)
  | enterPrio r p => enterPrio r p :: r.residuals
  | finishPrio r p => r.residuals.map (finishPrio · p)

/-- The ways to go on, each with the ranges of its bytes. -/
def arrows : Re α → List (List (UInt8 × UInt8) × Edge α)
  | eps => []
  | cls rs => [(rs, ⟨[], [], eps⟩)]
  | cat r s =>
    r.arrows.map (fun x => (x.1, { x.2 with next := cat x.2.next s })) ++
      if r.nullable then s.arrows.map (fun x => (x.1, { x.2 with acts := r.leaving ++ x.2.acts }))
      else []
  | alt r s => r.arrows ++ s.arrows
  | star r => r.arrows.map fun x => (x.1, { x.2 with next := cat x.2.next (star r) })
  | enter r a => r.arrows.map fun x => (x.1, { x.2 with acts := a :: x.2.acts })
  | leave r a => r.arrows.map fun x => (x.1, { x.2 with next := leave x.2.next a })
  | finish r a => r.arrows.map fun x => (x.1, { x.2 with
      acts := x.2.acts ++ if x.2.next.nullable then [a] else [], next := finish x.2.next a })
  | prio r p => r.arrows.map fun x =>
      (x.1, { x.2 with prios := p :: x.2.prios, next := prio x.2.next p })
  | enterPrio r p => r.arrows.map fun x => (x.1, { x.2 with prios := p :: x.2.prios })
  | finishPrio r p => r.arrows.map fun x => (x.1, { x.2 with
      prios := (if x.2.next.nullable then [p] else []) ++ x.2.prios, next := finishPrio x.2.next p })

theorem mem_step_iff {r : Re α} {b : UInt8} {e : Edge α} :
    e ∈ r.step b ↔ ∃ rs, (rs, e) ∈ r.arrows ∧ inRanges rs b = true := by
  induction r generalizing e with
  | eps => simp [step, arrows]
  | cls rs =>
    simp only [step, arrows, inRanges, List.mem_singleton, Prod.mk.injEq]
    split
    · next h => simp [h]
    · next h =>
      simp only [List.not_mem_nil, false_iff]
      rintro ⟨_, ⟨rfl, -⟩, h'⟩
      exact h h'
  | cat r s ihr ihs =>
    -- through `r`, or past it if it can be empty
    rw [mem_step_cat]
    simp only [arrows, List.mem_append, List.mem_map, Prod.mk.injEq]
    constructor
    · rintro (⟨e', he', rfl⟩ | ⟨hn, e', he', rfl⟩)
      · obtain ⟨rs, hrs, hb⟩ := ihr.mp he'
        exact ⟨rs, .inl ⟨_, hrs, rfl, rfl⟩, hb⟩
      · obtain ⟨rs, hrs, hb⟩ := ihs.mp he'
        exact ⟨rs, .inr (by rw [if_pos hn]; exact List.mem_map_of_mem hrs), hb⟩
    · rintro ⟨rs, ⟨⟨rs', e'⟩, hrs, rfl, rfl⟩ | hrs, hb⟩
      · exact .inl ⟨e', ihr.mpr ⟨rs', hrs, hb⟩, rfl⟩
      · split at hrs
        · next hn =>
          obtain ⟨⟨rs', e'⟩, hmem, heq⟩ := List.mem_map.mp hrs
          obtain ⟨rfl, rfl⟩ := Prod.mk.inj heq
          exact .inr ⟨hn, e', ihs.mpr ⟨rs', hmem, hb⟩, rfl⟩
        · cases hrs
  | alt r s ihr ihs =>
    simp only [step, arrows, List.mem_append, ihr, ihs]
    constructor
    · rintro (⟨rs, h, hb⟩ | ⟨rs, h, hb⟩)
      · exact ⟨rs, .inl h, hb⟩
      · exact ⟨rs, .inr h, hb⟩
    · rintro ⟨rs, h | h, hb⟩
      · exact .inl ⟨rs, h, hb⟩
      · exact .inr ⟨rs, h, hb⟩
  | star r ih | enter r _ ih | leave r _ ih | finish r _ ih | prio r _ ih | enterPrio r _ ih
  | finishPrio r _ ih =>
    simp only [step, arrows, List.mem_map, Prod.mk.injEq]
    constructor
    · rintro ⟨e', he', rfl⟩
      obtain ⟨rs, hrs, hb⟩ := ih.mp he'
      exact ⟨rs, ⟨_, hrs, rfl, rfl⟩, hb⟩
    · rintro ⟨rs, ⟨⟨rs', e'⟩, hrs, rfl, rfl⟩, hb⟩
      exact ⟨e', ih.mpr ⟨rs', hrs, hb⟩, rfl⟩

theorem self_mem_residuals (r : Re α) : r ∈ r.residuals := by
  induction r with
  | eps | cls _ | alt _ _ | star _ | enter _ _ | enterPrio _ _ => exact List.mem_cons_self
  | cat r s ihr _ => exact List.mem_append_left _ (List.mem_map_of_mem ihr)
  | leave r _ ih | finish r _ ih | prio r _ ih | finishPrio r _ ih => exact List.mem_map_of_mem ih

/-- A step from what can be left leads to what can be left. -/
theorem next_mem_residuals {r t : Re α} (ht : t ∈ r.residuals) {b : UInt8} {e : Edge α}
    (he : e ∈ t.step b) : e.next ∈ r.residuals := by
  induction r generalizing t e with
  | eps =>
    obtain rfl := List.mem_singleton.mp ht
    cases he
  | cls rs =>
    rcases List.mem_cons.mp ht with rfl | ht
    · obtain ⟨-, rfl⟩ := mem_step_cls.mp he
      exact List.mem_cons_of_mem _ List.mem_cons_self
    · obtain rfl := List.mem_singleton.mp ht
      cases he
  | cat r s ihr ihs =>
    rcases List.mem_append.mp ht with ht | ht
    · obtain ⟨r', hr', rfl⟩ := List.mem_map.mp ht
      rcases mem_step_cat.mp he with ⟨e', he', rfl⟩ | ⟨-, e', he', rfl⟩
      · exact List.mem_append_left _ (List.mem_map_of_mem (ihr hr' he'))
      -- `r` has ended, and `s` begins
      · have hnext : e'.next ∈ s.residuals := ihs s.self_mem_residuals he'
        exact List.mem_append_right _ hnext
    · exact List.mem_append_right _ (ihs ht he)
  | alt r s ihr ihs =>
    have hmem : ∀ t, t ∈ r.residuals ∨ t ∈ s.residuals → t ∈ (alt r s).residuals := fun t ht =>
      List.mem_cons_of_mem _ (List.mem_append.mpr ht)
    rcases List.mem_cons.mp ht with rfl | ht
    · rcases List.mem_append.mp he with he | he
      · exact hmem _ (.inl (ihr r.self_mem_residuals he))
      · exact hmem _ (.inr (ihs s.self_mem_residuals he))
    · rcases List.mem_append.mp ht with ht | ht
      · exact hmem _ (.inl (ihr ht he))
      · exact hmem _ (.inr (ihs ht he))
  | star r ih =>
    -- a round begins with the whole expression
    have hstar : ∀ e ∈ (star r).step b, e.next ∈ (star r).residuals := by
      intro e he
      obtain ⟨e', he', rfl⟩ := List.mem_map.mp he
      exact List.mem_cons_of_mem _ (List.mem_map_of_mem (ih r.self_mem_residuals he'))
    rcases List.mem_cons.mp ht with rfl | ht
    · exact hstar e he
    · obtain ⟨r', hr', rfl⟩ := List.mem_map.mp ht
      rcases mem_step_cat.mp he with ⟨e', he', rfl⟩ | ⟨-, e', he', rfl⟩
      · exact List.mem_cons_of_mem _ (List.mem_map_of_mem (ih hr' he'))
      · exact hstar e' he'
  | enter r _ ih | enterPrio r _ ih =>
    rcases List.mem_cons.mp ht with rfl | ht
    · obtain ⟨e', he', rfl⟩ := List.mem_map.mp he
      have hnext : e'.next ∈ r.residuals := ih r.self_mem_residuals he'
      exact List.mem_cons_of_mem _ hnext
    · exact List.mem_cons_of_mem _ (ih ht he)
  | leave r _ ih | finish r _ ih | prio r _ ih | finishPrio r _ ih =>
    obtain ⟨r', hr', rfl⟩ := List.mem_map.mp ht
    obtain ⟨e', he', rfl⟩ := List.mem_map.mp he
    exact List.mem_map_of_mem (ih hr' he')

/-- What is left of a thread behind a text, by ways to go on that its own do not beat. -/
def after : Re α → Bytes → List (Re α)
  | r, [] => [r]
  | r, b :: bs => ((r.step b).filter fun e => !e.beaten (r.step b)).flatMap fun e => e.next.after bs

end Re

/-! ## Repetitions -/

namespace Re

variable {r : Re α} {b : UInt8} {k : Nat}

theorem nullable_upTo (r : Re α) (k : Nat) : (upTo r k).nullable = true := by
  cases k <;> simp [upTo, opt, nullable]

theorem leaving_upTo (hr : r.nullable = false) (k : Nat) : (upTo r k).leaving = [] := by
  cases k <;> simp [upTo, opt, leaving, nullable, hr]

theorem step_upTo_succ (hr : r.nullable = false) (hb : r.step b = [⟨[], [], eps⟩]) :
    (upTo r (k + 1)).step b = [⟨[], [], cat eps (upTo r k)⟩] := by
  simp [upTo, opt, step, hr, hb]

theorem step_upTo_of_nil (hr : r.nullable = false) (hb : r.step b = []) : (upTo r k).step b = [] := by
  cases k <;> simp [upTo, opt, step, hr, hb]

end Re

/-! ## Runner -/

section

variable [DecidableEq α]

variable {w : Bytes} {s s₂ : State α} {b : UInt8} {ass : List (List α)}

theorem advance_single {r : Re (Nat × α)} {as : List (Nat × α)} {next : Re (Nat × α)}
    (h : r.step b = [⟨as, [], next⟩]) : advance [r] b = some ([next], actions [⟨as, [], next⟩]) := by
  have hedges : [r].flatMap (·.step b) = [⟨as, [], next⟩] := by rw [List.flatMap_singleton, h]
  rw [advance, hedges]
  rfl

/-- The state behind a text, and the actions of each byte. -/
def walk : State α → Bytes → Option (State α × List (List α))
  | s, [] => some (s, [])
  | s, b :: bs =>
    match advance s b with
    | none => none
    | some (s', as) => (walk s' bs).map fun x => (x.1, as :: x.2)

theorem walk_cons {s₁ : State α} {as : List α}
    (hadv : advance s b = some (s₁, as)) (hw : walk s₁ w = some (s₂, ass)) :
    walk s (b :: w) = some (s₂, as :: ass) := by
  rw [walk, hadv]
  simp only [hw, Option.map_some]

theorem exists_of_walk_cons (h : walk s (b :: w) = some (s₂, ass)) :
    ∃ s₁ as ass', advance s b = some (s₁, as) ∧ walk s₁ w = some (s₂, ass') ∧ ass = as :: ass' := by
  unfold walk at h
  cases hadv : advance s b with
  | none =>
    rw [hadv] at h
    cases h
  | some out =>
    obtain ⟨s₁, as⟩ := out
    rw [hadv] at h
    obtain ⟨⟨s₂, ass'⟩, hwalk, heq⟩ := Option.map_eq_some_iff.mp h
    obtain ⟨rfl, rfl⟩ := Prod.mk.inj heq
    exact ⟨s₁, as, ass', rfl, hwalk, rfl⟩

theorem walk_append {s₁ : State α} {v : Bytes} {bss : List (List α)}
    (hv : walk s v = some (s₁, ass)) (hw : walk s₁ w = some (s₂, bss)) : walk s (v ++ w) = some (s₂, ass ++ bss) := by
  induction v generalizing s ass with
  | nil =>
    cases hv
    exact hw
  | cons b v ih =>
    obtain ⟨s', as, ass', hadv, hv', rfl⟩ := exists_of_walk_cons hv
    exact walk_cons hadv (ih hv')

/-- The states of `P` run no action on the bytes of a text. -/
theorem walk_loop {P : State α → Prop} {Q : UInt8 → Prop}
    (h : ∀ s b, P s → Q b → ∃ s', P s' ∧ advance s b = some (s', [])) (hs : P s) (hw : ∀ b ∈ w, Q b) : ∃ s', P s' ∧
    walk s w = some (s', List.replicate w.length []) := by
  induction w generalizing s with
  | nil => exact ⟨s, hs, rfl⟩
  | cons b w ih =>
    obtain ⟨s₁, hs₁, hadv⟩ := h s b hs (hw b List.mem_cons_self)
    obtain ⟨s', hs', hwalk⟩ := ih hs₁ fun c hc => hw c (List.mem_cons_of_mem b hc)
    exact ⟨s', hs', walk_cons hadv hwalk⟩

namespace State

/-- The state behind a text. -/
def run : State α → Bytes → Option (State α)
  | s, [] => some s
  | s, b :: bs => (advance s b).bind fun x => run x.1 bs

/-- No byte of the text runs the action `a`, as far as the machine goes. -/
def Quiet (a : α) : State α → Bytes → Prop
  | _, [] => True
  | s, b :: bs => ∀ s' as, advance s b = some (s', as) → a ∉ as ∧ Quiet a s' bs

variable {s s' : State α} {w : Bytes}

theorem run_of_walk {ass : List (List α)} (h : walk s w = some (s', ass)) : s.run w = some s' := by
  induction w generalizing s ass with
  | nil =>
    cases h
    rfl
  | cons b w ih =>
    obtain ⟨s₁, as, ass', hadv, hwalk, -⟩ := exists_of_walk_cons h
    rw [run, hadv]
    exact ih hwalk

theorem run_append (s : State α) (v w : Bytes) : s.run (v ++ w) = (s.run v).bind (·.run w) := by
  induction v generalizing s with
  | nil => rfl
  | cons b v ih =>
    rw [List.cons_append, run, run, Option.bind_assoc]
    exact Option.bind_congr fun x _ => ih x.1

/-- Every thread behind a text comes from a thread before it. -/
theorem mem_after_of_run (h : s.run w = some s') {r' : Re (Nat × α)} (hr' : r' ∈ s') : ∃ r ∈ s, r' ∈ r.after w := by
  induction w generalizing s with
  | nil =>
    cases h
    exact ⟨r', hr', List.mem_singleton_self r'⟩
  | cons b w ih =>
    obtain ⟨⟨s₁, as⟩, hadv, hrun⟩ := Option.bind_eq_some_iff.mp h
    obtain ⟨r₁, hr₁, hafter⟩ := ih hrun
    obtain ⟨es, hes, hnext, -⟩ := advance_eq_some hadv
    obtain ⟨e, he, rfl⟩ := (hnext r₁).mp hr₁
    obtain ⟨r, hr, hstep, hbeaten⟩ := hes e he
    exact ⟨r, hr, List.mem_flatMap.mpr ⟨e, List.mem_filter.mpr ⟨hstep, by simp [hbeaten]⟩, hafter⟩⟩

theorem advance_ne_nil {b : UInt8} {as : List α} (h : Ragel.advance s b = some (s', as)) : s' ≠ [] := by
  unfold Ragel.advance at h
  split at h
  · cases h
  · next e es _ =>
    cases h
    intro hnil
    have : e.next ∈ ((e :: es).map (·.next)).eraseDups := by simp
    rw [hnil] at this
    cases this

theorem run_ne_nil (hne : s ≠ []) (h : s.run w = some s') : s' ≠ [] := by
  induction w generalizing s with
  | nil =>
    cases h
    exact hne
  | cons b w ih =>
    obtain ⟨⟨s₁, as⟩, hadv, hrun⟩ := Option.bind_eq_some_iff.mp h
    exact ih (advance_ne_nil hadv) hrun

/-- If nothing is left of any thread, the machine stops. -/
theorem run_eq_none (hne : s ≠ []) (h : ∀ r ∈ s, r.after w = []) : s.run w = none := by
  refine Option.eq_none_iff_forall_ne_some.mpr fun s' hrun => ?_
  obtain ⟨r', hr'⟩ := List.exists_mem_of_ne_nil s' (run_ne_nil hne hrun)
  obtain ⟨r, hr, hafter⟩ := mem_after_of_run hrun hr'
  rw [h r hr] at hafter
  cases hafter

end State

/-! ## Parsers -/

section

variable {σ ρ : Type}

/-- The actions of the bytes from a position on, one list for each byte. -/
def actsFrom (act : Nat → σ → α → Option σ) : Nat → σ → List (List α) → Option σ
  | _, p, [] => some p
  | n, p, as :: ass => (as.foldlM (act n) p).bind fun p' => actsFrom act (n + 1) p' ass

variable {act : Nat → σ → α → Option σ}

omit [DecidableEq α] in
theorem actsFrom_append (n : Nat) (p : σ) (ass bss : List (List α)) : actsFrom act n p (ass ++ bss) =
      (actsFrom act n p ass).bind fun p' => actsFrom act (n + ass.length) p' bss := by
  induction ass generalizing n p with
  | nil => rfl
  | cons as ass ih =>
    rw [List.cons_append, actsFrom, actsFrom, Option.bind_assoc, List.length_cons]
    refine Option.bind_congr fun p' _ => ?_
    rw [ih, Nat.add_right_comm, Nat.add_assoc]

omit [DecidableEq α] in
theorem actsFrom_replicate (n k : Nat) (p : σ) : actsFrom act n p (List.replicate k []) = some p := by
  induction k generalizing n with
  | zero => rfl
  | succ k ih =>
    rw [List.replicate_succ]
    exact ih (n + 1)

/-- A parser `p` keeps the state of the machine, `exec n w p` runs it over the text `w` at the position `n`, and
`stop` is the action that ends the run. -/
structure Runner (cs : σ → Option (State α)) (setCs : σ → State α → σ) (act : Nat → σ → α → Option σ)
    (stop : α) (exec : Nat → Bytes → σ → ρ) : Prop where
  byte : ∀ {n b bs p p' s s' as}, cs p = some s → advance s b = some (s', as) →
    as.foldlM (act n) p = some p' → stop ∉ as → exec n (b :: bs) p = exec (n + 1) bs (setCs p' s')
  cs_setCs : ∀ p s, cs (setCs p s) = some s
  setCs_self : ∀ {p s}, cs p = some s → setCs p s = p
  setCs_setCs : ∀ p s s', setCs (setCs p s) s' = setCs p s'
  act_setCs : ∀ n p s a, act n (setCs p s) a = (act n p a).map (setCs · s)

namespace Runner

variable {cs : σ → Option (State α)} {setCs : σ → State α → σ} {stop : α} {exec : Nat → Bytes → σ → ρ}

theorem foldlM_setCs (h : Runner cs setCs act stop exec) (n : Nat) (p : σ) (s : State α)
    (as : List α) : as.foldlM (act n) (setCs p s) = (as.foldlM (act n) p).map (setCs · s) := by
  induction as generalizing p with
  | nil => rfl
  | cons a as ih =>
    rw [List.foldlM_cons, List.foldlM_cons, h.act_setCs]
    cases act n p a with
    | none => rfl
    | some q => exact ih q

theorem actsFrom_setCs (h : Runner cs setCs act stop exec) (n : Nat) (p : σ) (s : State α) (ass : List (List α)) :
    actsFrom act n (setCs p s) ass = (actsFrom act n p ass).map (setCs · s) := by
  induction ass generalizing n p with
  | nil => rfl
  | cons as ass ih =>
    rw [actsFrom, actsFrom, h.foldlM_setCs]
    cases as.foldlM (act n) p with
    | none => rfl
    | some q => exact ih (n + 1) q

/-- **A text on which the run of the machine is known.** -/
theorem walk (h : Runner cs setCs act stop exec) {w rest : Bytes} {s s' : State α}
    {ass : List (List α)} (hwalk : Ragel.walk s w = some (s', ass)) (hstop : ∀ as ∈ ass, stop ∉ as)
    {n : Nat} {p p' : σ} (hcs : cs p = some s) (hacts : actsFrom act n p ass = some p') :
    exec n (w ++ rest) p = exec (n + w.length) rest (setCs p' s') := by
  induction w generalizing s n p p' ass with
  | nil =>
    cases hwalk
    cases hacts
    rw [h.setCs_self hcs]
    rfl
  | cons b w ih =>
    obtain ⟨s₁, as, ass', hadv, hwalk', rfl⟩ := exists_of_walk_cons hwalk
    obtain ⟨p₁, hact, hrest⟩ := Option.bind_eq_some_iff.mp hacts
    have hrest' : actsFrom act (n + 1) (setCs p₁ s₁) ass' = some (setCs p' s₁) := by
      rw [h.actsFrom_setCs, hrest]
      rfl
    rw [List.cons_append, h.byte hcs hadv hact (hstop as List.mem_cons_self),
      ih hwalk' (fun as' h => hstop as' (List.mem_cons_of_mem as h)) (h.cs_setCs p₁ s₁) hrest',
      h.setCs_setCs, List.length_cons, Nat.add_right_comm, Nat.add_assoc]

end Runner

end

end

end Lib.Ragel
