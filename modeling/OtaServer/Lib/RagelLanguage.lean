import Mathlib.Computability.Language
import OtaServer.Lib.RagelRun

/-!
# The language of an expression

The texts that an expression matches, and a way to follow a machine along all of them.

* `Re.language`: the texts, whatever actions and priorities there are. `exists_arrow_of_mem` is its first byte.
* `reads`, `closed`: what is left of the expression and the state of the machine, as pairs. If each arrow of each pair
  leads to a pair, the machine reads every text of the expression (`walk_of_mem`).
-/

namespace Lib.Ragel

open Computability

variable {α β : Type}

namespace Re

/-- The texts that an expression matches. -/
def language : Re α → Language UInt8
  | eps => 1
  | cls rs => {w | ∃ b, inRanges rs b = true ∧ w = [b]}
  | cat r s => r.language * s.language
  | alt r s => r.language + s.language
  | star r => r.language∗
  | enter r _ | leave r _ | finish r _ => r.language
  | prio r _ | enterPrio r _ | finishPrio r _ => r.language

theorem nullable_of_nil_mem {r : Re α} (h : [] ∈ r.language) : r.nullable = true := by
  induction r with
  | eps | star _ => rfl
  | cls rs =>
    obtain ⟨b, -, hb⟩ := h
    cases hb
  | cat r s ihr ihs =>
    obtain ⟨v, hv, w, hw, heq⟩ := Language.mem_mul.mp h
    obtain ⟨rfl, rfl⟩ := List.append_eq_nil_iff.mp heq
    simp only [nullable, ihr hv, ihs hw, Bool.and_self]
  | alt r s ihr ihs =>
    rcases h with h | h
    · simp only [nullable, ihr h, Bool.true_or]
    · simp only [nullable, ihs h, Bool.or_true]
  | enter r _ ih | leave r _ ih | finish r _ ih | prio r _ ih | enterPrio r _ ih
  | finishPrio r _ ih => exact ih h

/-- **The first byte** goes along an arrow, and the other bytes match what is left behind it. -/
theorem exists_arrow_of_mem {r : Re α} {b : UInt8} {w : Bytes} (h : b :: w ∈ r.language) :
    ∃ x ∈ r.arrows, inRanges x.1 b = true ∧ w ∈ x.2.next.language := by
  induction r generalizing w with
  | eps => cases h
  | cls rs =>
    obtain ⟨c, hc, heq⟩ := h
    obtain ⟨rfl, rfl⟩ := List.cons.inj heq
    exact ⟨_, List.mem_singleton_self _, hc, rfl⟩
  | cat r s ihr ihs =>
    obtain ⟨v, hv, u, hu, heq⟩ := Language.mem_mul.mp h
    -- the byte is the first of `s` if `r` takes none
    cases v with
    | nil =>
      rw [List.nil_append] at heq
      obtain ⟨x, hx, hb, hw⟩ := ihs (heq ▸ hu)
      refine ⟨(x.1, { x.2 with acts := r.leaving ++ x.2.acts }), List.mem_append_right _ ?_, hb, hw⟩
      rw [if_pos (nullable_of_nil_mem hv)]
      exact List.mem_map_of_mem hx
    | cons c v =>
      obtain ⟨rfl, rfl⟩ := List.cons.inj heq
      obtain ⟨x, hx, hb, hv'⟩ := ihr hv
      exact ⟨_, List.mem_append_left _ (List.mem_map_of_mem hx), hb, Language.mem_mul.mpr ⟨v, hv', u, hu, rfl⟩⟩
  | alt r s ihr ihs =>
    rcases h with h | h
    · obtain ⟨x, hx, hb, hw⟩ := ihr h
      exact ⟨x, List.mem_append_left _ hx, hb, hw⟩
    · obtain ⟨x, hx, hb, hw⟩ := ihs h
      exact ⟨x, List.mem_append_right _ hx, hb, hw⟩
  | star r ih =>
    -- rounds that take no byte are left out
    obtain ⟨S, heq, hS⟩ := Language.mem_kstar_iff_exists_nonempty.mp h
    cases S with
    | nil => cases heq
    | cons v S =>
      obtain ⟨hv, hne⟩ := hS v List.mem_cons_self
      obtain ⟨c, v, rfl⟩ := List.exists_cons_of_ne_nil hne
      obtain ⟨rfl, rfl⟩ := List.cons.inj heq
      obtain ⟨x, hx, hb, hv'⟩ := ih hv
      refine ⟨_, List.mem_map_of_mem hx, hb, Language.mem_mul.mpr ⟨v, hv', S.flatten, ?_, rfl⟩⟩
      exact Language.join_mem_kstar fun y hy => (hS y (List.mem_cons_of_mem _ hy)).1
  | enter r _ ih | leave r _ ih | finish r _ ih | prio r _ ih | enterPrio r _ ih
  | finishPrio r _ ih =>
    obtain ⟨x, hx, hb, hw⟩ := ih h
    exact ⟨_, List.mem_map_of_mem hx, hb, hw⟩

end Re

/-! ## Machines that read a language -/

section

variable [DecidableEq α] [DecidableEq β]

/-- On each arrow of the expression the machine runs the actions `as` and gets to one of the pairs. -/
def reads (as : List β) (r : Re α) (s : State β) (pairs : List (Re α × State β)) : Bool :=
  r.arrows.all fun x => pairs.any fun p => decide (p.1 = x.2.next) && s.onRanges x.1 (p.2, as)

/-- The machine goes from pair to pair without actions. -/
def closed (pairs : List (Re α × State β)) : Bool := pairs.all fun p => reads [] p.1 p.2 pairs

variable {pairs : List (Re α × State β)} {w : Bytes}

theorem advance_of_reads {as : List β} {r : Re α} {s : State β}
    (h : reads as r s pairs = true) {b : UInt8} (hw : b :: w ∈ r.language) :
    ∃ p ∈ pairs, w ∈ p.1.language ∧ advance s b = some (p.2, as) := by
  obtain ⟨x, hx, hb, hrest⟩ := Re.exists_arrow_of_mem hw
  obtain ⟨p, hp, hgo⟩ := List.any_eq_true.mp (List.all_eq_true.mp h x hx)
  obtain ⟨heq, hranges⟩ := Bool.and_eq_true_iff.mp hgo
  rw [← of_decide_eq_true heq] at hrest
  exact ⟨p, hp, hrest, advance_of_ranges hranges hb⟩

theorem walk_of_closed (h : closed pairs = true)
    {p : Re α × State β} (hp : p ∈ pairs) (hw : w ∈ p.1.language) :
    ∃ q ∈ pairs, q.1.nullable = true ∧ walk p.2 w = some (q.2, List.replicate w.length []) := by
  induction w generalizing p with
  | nil => exact ⟨p, hp, Re.nullable_of_nil_mem hw, rfl⟩
  | cons b w ih =>
    obtain ⟨p', hp', hw', hadv⟩ := advance_of_reads (List.all_eq_true.mp h p hp) hw
    obtain ⟨q, hq, hnull, hwalk⟩ := ih hp' hw'
    exact ⟨q, hq, hnull, walk_cons hadv hwalk⟩

/-- On the byte `c` the machine leaves the expression with `out`, wherever the expression can end. -/
def leaves (c : UInt8) (pairs : List (Re α × State β)) (out : State β × List β) : Bool :=
  pairs.all fun p => !p.1.nullable || p.2.onRanges [(c, c)] out

/-- **A text of the language, and the byte behind it.** The machine runs `as` on the first byte of the
text, nothing on its other bytes, and `bs` on the byte behind it. -/
theorem walk_of_mem {as bs : List β} {r : Re α} {s s' : State β}
    {c : UInt8} (hfirst : reads as r s pairs = true) (hclosed : closed pairs = true)
    (hleaves : leaves c pairs (s', bs) = true) {b : UInt8} (hw : b :: w ∈ r.language) :
    walk s (b :: w ++ [c]) = some (s', as :: (List.replicate w.length [] ++ [bs])) := by
  obtain ⟨p, hp, hrest, hadv⟩ := advance_of_reads hfirst hw
  obtain ⟨q, hq, hnull, hwalk⟩ := walk_of_closed hclosed hp hrest
  have hlast : q.2.onRanges [(c, c)] (s', bs) = true := by
    have := List.all_eq_true.mp hleaves q hq
    rwa [hnull, Bool.not_true, Bool.false_or] at this
  have hbehind : walk q.2 [c] = some (s', [bs]) :=
    walk_cons (advance_of_ranges hlast (by simp [inRanges])) rfl
  exact walk_cons hadv (walk_append hwalk hbehind)

end

end Lib.Ragel
