import Mathlib.Data.List.Nodup

/-!
# Histories of a table

Additions under keys and deletions of keys, in the order they are made.

* `live`: what is left of them, in the order of the last addition under each key.
* `live_concat_add`, `live_concat_del`: what one more update does to it; a table that does the same to its list of
  entries holds `live` of its history.
* `lastAdded`: what is left under one key, with `lastAdded_concat_add`, `lastAdded_concat_del` for a table that is
  only looked up.
-/

namespace Lib

/-- One update of a table. -/
inductive Update (κ β : Type) where
  | add (k : κ) (v : β)
  | del (k : κ)

variable {κ β : Type}

/-- The key that an update is about. -/
def Update.key : Update κ β → κ
  | add k _ | del k => k

variable [DecidableEq κ]

/-- The additions after which no update has the same key, in their order. -/
def live : List (Update κ β) → List (κ × β)
  | [] => []
  | .add k v :: us => if k ∈ us.map Update.key then live us else (k, v) :: live us
  | .del _ :: us => live us

/-- The value last added under a key and not deleted since. -/
def lastAdded (us : List (Update κ β)) (k : κ) : Option β := (live us).lookup k

/-- An entry comes from an addition that no update with its key follows. -/
theorem mem_live_iff {k : κ} {v : β} {us : List (Update κ β)} :
    (k, v) ∈ live us ↔ ∃ before after, us = before ++ .add k v :: after ∧ k ∉ after.map Update.key := by
  induction us with
  | nil => simp [live]
  | cons u us ih =>
    have hcons : (∃ before after, u :: us = before ++ .add k v :: after ∧ k ∉ after.map Update.key) ↔
        (u = .add k v ∧ k ∉ us.map Update.key) ∨
          ∃ before after, us = before ++ .add k v :: after ∧ k ∉ after.map Update.key := by
      constructor
      · rintro ⟨before, after, h, hkey⟩
        cases before with
        | nil =>
          obtain ⟨rfl, rfl⟩ := List.cons.inj h
          exact .inl ⟨rfl, hkey⟩
        | cons u' before => exact .inr ⟨before, after, (List.cons.inj h).2, hkey⟩
      · rintro (⟨rfl, hkey⟩ | ⟨before, after, rfl, hkey⟩)
        · exact ⟨[], us, rfl, hkey⟩
        · exact ⟨u :: before, after, rfl, hkey⟩
    rw [hcons, ← ih]
    cases u with
    | del k' => simp [live]
    | add k' v' =>
      rw [live, Update.add.injEq]
      split_ifs with h
      · refine ⟨.inr, ?_⟩
        rintro (⟨⟨rfl, -⟩, hkey⟩ | hmem)
        · exact absurd h hkey
        · exact hmem
      · rw [List.mem_cons, Prod.mk.injEq]
        refine or_congr_left ⟨?_, fun hk => ⟨hk.1.1.symm, hk.1.2.symm⟩⟩
        rintro ⟨rfl, rfl⟩
        exact ⟨⟨rfl, rfl⟩, h⟩

theorem key_mem_of_mem_live {e : κ × β} {us : List (Update κ β)} (h : e ∈ live us) : e.1 ∈ us.map Update.key := by
  obtain ⟨before, after, rfl, -⟩ := mem_live_iff.mp h
  simp [Update.key]

theorem nodup_live (us : List (Update κ β)) : ((live us).map Prod.fst).Nodup := by
  induction us with
  | nil => exact List.nodup_nil
  | cons u us ih =>
    cases u with
    | del k => exact ih
    | add k v =>
      rw [live]
      split_ifs with h
      · exact ih
      · refine List.nodup_cons.mpr ⟨fun hk => h ?_, ih⟩
        obtain ⟨e, he, rfl⟩ := List.mem_map.mp hk
        exact key_mem_of_mem_live he

/-! ## One more update -/

theorem live_concat (u : Update κ β) (us : List (Update κ β)) :
    live (us ++ [u]) = (live us).filter (fun e => e.1 ≠ u.key) ++ live [u] := by
  induction us with
  | nil => rfl
  | cons u' us ih =>
    cases u' with
    | del k => exact ih
    | add k v =>
      rw [List.cons_append, live, live, ih]
      by_cases hk : k = u.key
      · subst hk
        split_ifs <;> simp_all
      · simp only [List.map_append, List.map_cons, List.map_nil, List.mem_append, List.mem_singleton, hk, or_false]
        split_ifs <;> simp [hk]

theorem live_concat_del (k : κ) (us : List (Update κ β)) :
    live (us ++ [.del k]) = (live us).filter fun e => e.1 ≠ k := by
  rw [live_concat]
  exact List.append_nil _

theorem live_concat_add (k : κ) (v : β) (us : List (Update κ β)) :
    live (us ++ [.add k v]) = (live us).filter (fun e => e.1 ≠ k) ++ [(k, v)] :=
  live_concat _ _

/-- Taking out the first entry of a key takes out all of them where no key is there twice. -/
theorem eraseP_eq_filter {k : κ} {es : List (κ × β)} (h : (es.map Prod.fst).Nodup) :
    es.eraseP (fun e => e.1 = k) = es.filter fun e => e.1 ≠ k := by
  induction es with
  | nil => rfl
  | cons e es ih =>
    obtain ⟨hhead, htail⟩ := List.nodup_cons.mp h
    by_cases hk : e.1 = k
    · rw [List.eraseP_cons_of_pos (by simpa using hk), List.filter_cons_of_neg (by simpa using hk)]
      symm
      refine List.filter_eq_self.mpr fun e' he' => ?_
      have hne : e'.1 ≠ k := fun he => hhead (List.mem_map.mpr ⟨e', he', he.trans hk.symm⟩)
      simpa using hne
    · rw [List.eraseP_cons_of_neg (by simpa using hk), List.filter_cons_of_pos (by simpa using hk), ih htail]

theorem lookup_filter_ne (k k' : κ) (es : List (κ × β)) :
    (es.filter fun e => e.1 ≠ k).lookup k' = if k = k' then none else es.lookup k' := by
  induction es with
  | nil => simp
  | cons e es ih =>
    obtain ⟨k₁, v₁⟩ := e
    by_cases hk : k₁ = k
    · subst hk
      rw [List.filter_cons_of_neg (by simp), ih]
      split_ifs with h
      · rfl
      · rw [List.lookup_cons, beq_false_of_ne (Ne.symm h)]
    · rw [List.filter_cons_of_pos (by simpa using hk), List.lookup_cons, List.lookup_cons, ih]
      by_cases h : k' = k₁
      · subst h
        simp [Ne.symm hk]
      · rw [beq_false_of_ne h]

theorem lastAdded_concat_del (k k' : κ) (us : List (Update κ β)) :
    lastAdded (us ++ [.del k]) k' = if k = k' then none else lastAdded us k' := by
  rw [lastAdded, live_concat_del, lookup_filter_ne, lastAdded]

theorem lastAdded_concat_add (k k' : κ) (v : β) (us : List (Update κ β)) :
    lastAdded (us ++ [.add k v]) k' = if k = k' then some v else lastAdded us k' := by
  rw [lastAdded, live_concat_add, List.lookup_append, lookup_filter_ne]
  by_cases h : k = k'
  · subst h
    simp
  · rw [if_neg h, if_neg h, List.lookup_cons, beq_false_of_ne (Ne.symm h), List.lookup_nil, Option.or_none, lastAdded]

end Lib
