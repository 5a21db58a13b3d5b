/-!
# Runs of a step relation

A run is written as the list of its steps, each with the state it leads to. Rules for it:

* `Run.inv`: an invariant that every step meeting a condition keeps holds in every state of a run whose steps all meet
  the condition.
* `Run.reached_iff`: when, from a state with the invariant, a step meets the condition exactly if the state it leads
  to is good, then all states of a run are good exactly if all its steps meet the condition. After the first step that
  misses the condition nothing is claimed, and nothing is needed: the state behind that step is already bad.
  `Run.meets_reached_iff`: the same, when the steps have to be good too.
* `Run.last_iff`: when a step that misses the condition leads to a state that stays bad, the last state of a run is
  good exactly if all its steps meet the condition.
-/

namespace Lib

variable {σ ℓ : Type} {step : σ → ℓ → σ → Prop}

/-- The steps of `r` lead from `s` through the states of `r`. -/
def Run (step : σ → ℓ → σ → Prop) : σ → List (ℓ × σ) → Prop
  | _, [] => True
  | s, (l, s') :: r => step s l s' ∧ Run step s' r

/-- The state at the end of `r`. -/
def lastState : σ → List (ℓ × σ) → σ
  | s, [] => s
  | _, (_, s') :: r => lastState s' r

/-- Every step of `r` meets `C` in the state before it. -/
def Meets (C : σ → ℓ → Prop) : σ → List (ℓ × σ) → Prop
  | _, [] => True
  | s, (l, s') :: r => C s l ∧ Meets C s' r

/-- `P` holds after every step of `r`. -/
def Reached (P : σ → Prop) : List (ℓ × σ) → Prop
  | [] => True
  | (_, s') :: r => P s' ∧ Reached P r

/-- The run that a function makes from a list of labels. -/
def trace (f : σ → ℓ → σ) : σ → List ℓ → List (ℓ × σ)
  | _, [] => []
  | s, l :: ls => (l, f s l) :: trace f (f s l) ls

theorem run_trace (f : σ → ℓ → σ) (s : σ) (ls : List ℓ) : Run (fun s l s' => f s l = s') s (trace f s ls) := by
  induction ls generalizing s with
  | nil => trivial
  | cons l ls ih => exact ⟨rfl, ih _⟩

/-- The run that a partial function makes from a list of labels. -/
def trace? (f : σ → ℓ → Option σ) : σ → List ℓ → Option (List (ℓ × σ))
  | _, [] => some []
  | s, l :: ls => do
    let s' ← f s l
    let r ← trace? f s' ls
    return (l, s') :: r

variable {P : σ → Prop} {r : List (ℓ × σ)} {s : σ}

theorem run_trace? {f : σ → ℓ → Option σ} {ls : List ℓ}
    (h : trace? f s ls = some r) : Run (fun s l s' => f s l = some s') s r := by
  induction ls generalizing s r with
  | nil =>
    cases h
    trivial
  | cons l ls ih =>
    obtain ⟨s', hs', h⟩ := Option.bind_eq_some_iff.mp h
    obtain ⟨r', hr', h⟩ := Option.bind_eq_some_iff.mp h
    cases h
    exact ⟨hs', ih hr'⟩

/-- A run of a partial function, with a property that can be evaluated. -/
theorem exists_run_of_trace? {f : σ → ℓ → Option σ} {P : List (ℓ × σ) → Prop} [DecidablePred P] (ls : List ℓ)
    (h : (trace? f s ls).any (fun r => decide (P r)) = true) :
    ∃ r, Run (fun s l s' => f s l = some s') s r ∧ P r := by
  cases hr : trace? f s ls with
  | none =>
    rw [hr] at h
    cases h
  | some r =>
    rw [hr] at h
    exact ⟨r, run_trace? hr, of_decide_eq_true h⟩

instance decidableMeets {C : σ → ℓ → Prop} [∀ s l, Decidable (C s l)] :
    ∀ (s : σ) (r : List (ℓ × σ)), Decidable (Meets C s r)
  | _, [] => isTrue trivial
  | s, (l, s') :: r =>
    have := decidableMeets (C := C) s' r
    inferInstanceAs (Decidable (C s l ∧ Meets C s' r))

theorem Meets.of_forall {C : σ → ℓ → Prop} (h : ∀ s l, C s l) : Meets C s r := by
  induction r generalizing s with
  | nil => trivial
  | cons x r ih => exact ⟨h s x.1, ih⟩

theorem Meets.and {C D : σ → ℓ → Prop} (hC : Meets C s r)
    (hD : Meets D s r) : Meets (fun s l => C s l ∧ D s l) s r := by
  induction r generalizing s with
  | nil => trivial
  | cons x r ih => exact ⟨⟨hC.1, hD.1⟩, ih hC.2 hD.2⟩

theorem Reached.mono {Q : σ → Prop} (h : ∀ s, P s → Q s) (hP : Reached P r) : Reached Q r := by
  induction r with
  | nil => trivial
  | cons x r ih => exact ⟨h x.2 hP.1, ih hP.2⟩

theorem Reached.last (hs : P s) (hP : Reached P r) : P (lastState s r) := by
  induction r generalizing s with
  | nil => exact hs
  | cons x r ih => exact ih hP.1 hP.2

theorem reached_iff_forall : Reached P r ↔ ∀ x ∈ r, P x.2 := by
  induction r with
  | nil => simp [Reached]
  | cons x r ih => simp [Reached, ih]

namespace Run

variable {I P : σ → Prop} {r : List (ℓ × σ)} {C : σ → ℓ → Prop} {s : σ}

theorem inv (hstep : ∀ s l s', I s → C s l → step s l s' → I s') :
    ∀ {s : σ} {r : List (ℓ × σ)}, Run step s r → Meets C s r → I s → Reached I r
  | _, [], _, _, _ => trivial
  | s, (l, s') :: _, ⟨hs, hr⟩, ⟨hc, hm⟩, hi =>
    have hi' := hstep s l s' hi hc hs
    ⟨hi', inv hstep hr hm hi'⟩

/-- A run whose steps meet a condition. -/
theorem guarded (hr : Run step s r) (hm : Meets C s r) : Run (fun s l s' => C s l ∧ step s l s') s r := by
  induction r generalizing s with
  | nil => trivial
  | cons x r ih => exact ⟨⟨hm.1, hr.1⟩, ih hr.2 hm.2⟩

/-- An invariant of all steps holds at the end of a run. -/
theorem inv_last (hstep : ∀ s l s', I s → step s l s' → I s') (hr : Run step s r) (hi : I s) : I (lastState s r) := by
  induction r generalizing s with
  | nil => exact hi
  | cons x r ih => exact ih hr.2 (hstep s x.1 x.2 hi hr.1)

/-- Two conditions that agree on the steps of a run. -/
theorem meets_iff {D : σ → ℓ → Prop} (h : ∀ s l s', step s l s' → (C s l ↔ D s l)) (hr : Run step s r) : Meets C s r ↔
    Meets D s r := by
  induction r generalizing s with
  | nil => exact Iff.rfl
  | cons x r ih => exact and_congr (h s x.1 x.2 hr.1) (ih hr.2)

/-- The steps and the states of a run are good exactly if its steps meet the condition. -/
theorem meets_reached_iff {A : σ → ℓ → Prop}
    (hstep : ∀ s l s', I s → step s l s' → (A s l ∧ P s' ↔ C s l))
    (hI : ∀ s l s', I s → C s l → step s l s' → I s') :
    ∀ {s : σ} {r : List (ℓ × σ)}, Run step s r → I s → (Meets A s r ∧ Reached P r ↔ Meets C s r)
  | _, [], _, _ => and_self_iff
  | s, (l, s') :: r, ⟨hs, hr⟩, hi => by
    have hP := hstep s l s' hi hs
    constructor
    · intro ⟨⟨ha, hmeets⟩, hp, hreached⟩
      have hc := hP.mp ⟨ha, hp⟩
      exact ⟨hc, (meets_reached_iff hstep hI hr (hI s l s' hi hc hs)).mp ⟨hmeets, hreached⟩⟩
    · intro ⟨hc, hrest⟩
      obtain ⟨ha, hp⟩ := hP.mpr hc
      obtain ⟨hmeets, hreached⟩ := (meets_reached_iff hstep hI hr (hI s l s' hi hc hs)).mpr hrest
      exact ⟨⟨ha, hmeets⟩, hp, hreached⟩

/-- The states of a run are good exactly if its steps meet the condition. -/
theorem reached_iff (hstep : ∀ s l s', I s → step s l s' → (P s' ↔ C s l))
    (hI : ∀ s l s', I s → C s l → step s l s' → I s') (hr : Run step s r) (hi : I s) : Reached P r ↔ Meets C s r := by
  have hiff := meets_reached_iff (A := fun _ _ => True)
    (fun s l s' hi hs => (and_iff_right trivial).trans (hstep s l s' hi hs)) hI hr hi
  exact (and_iff_right (Meets.of_forall fun _ _ => trivial)).symm.trans hiff

/-- The last state of a run is good exactly if its steps meet the condition, when a step that misses it does lasting
damage. -/
theorem last_iff {B : σ → Prop}
    (hI : ∀ s l s', I s → C s l → step s l s' → I s') (hB : ∀ s l s', I s → ¬ C s l → step s l s' → B s')
    (hstay : ∀ s l s', B s → step s l s' → B s') (hgood : ∀ s, I s → P s) (hbad : ∀ s, B s → ¬ P s) :
    ∀ {s : σ} {r : List (ℓ × σ)}, Run step s r → I s → (P (lastState s r) ↔ Meets C s r)
  | s, [], _, hi => iff_of_true (hgood s hi) trivial
  | s, (l, s') :: r, ⟨hs, hr⟩, hi => by
    rw [lastState, Meets]
    by_cases hc : C s l
    · rw [last_iff hI hB hstay hgood hbad hr (hI s l s' hi hc hs)]
      exact ⟨fun hm => ⟨hc, hm⟩, fun hm => hm.2⟩
    · have hlast := hr.inv_last hstay (hB s l s' hi hc hs)
      exact iff_of_false (hbad _ hlast) fun hm => hc hm.1

end Run

end Lib
