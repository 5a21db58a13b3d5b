import Mathlib.Data.List.Lex
import Mathlib.Data.Nat.Basic
import Mathlib.Order.Lattice

/-!
# Sorted maps

`std::map` with a comparator, as the list of its entries in ascending order. The comparator compares keys through a
function into a linear order, so different keys can be equivalent; an assignment to a key that is equivalent to one in
the map keeps the key and replaces the value.
-/

namespace Lib

variable {α β κ : Type} [LinearOrder κ]

/-- The entries after an assignment. -/
def insertEntry (f : α → κ) (k : α) (v : β) : List (α × β) → List (α × β)
  | [] => [(k, v)]
  | (k', v') :: es =>
    if f k < f k' then (k, v) :: (k', v') :: es
    else if f k = f k' then (k', v) :: es
    else (k', v') :: insertEntry f k v es

variable {f : α → κ} {es : List (α × β)}

theorem mem_insertEntry {k : α} {v : β} {e : α × β}
    (h : e ∈ insertEntry f k v es) : f e.1 = f k ∨ ∃ e' ∈ es, f e.1 = f e'.1 := by
  induction es with
  | nil =>
    rw [insertEntry, List.mem_singleton] at h
    exact .inl (by rw [h])
  | cons e' es ih =>
    obtain ⟨k', v'⟩ := e'
    rw [insertEntry] at h
    split_ifs at h with h₁ h₂
    · rcases List.mem_cons.mp h with rfl | h
      · exact .inl rfl
      · exact .inr ⟨e, h, rfl⟩
    · rcases List.mem_cons.mp h with rfl | h
      · exact .inl h₂.symm
      · exact .inr ⟨e, List.mem_cons_of_mem _ h, rfl⟩
    · rcases List.mem_cons.mp h with rfl | h
      · exact .inr ⟨_, List.mem_cons_self, rfl⟩
      · obtain h | ⟨e', he, h⟩ := ih h
        · exact .inl h
        · exact .inr ⟨e', List.mem_cons_of_mem _ he, h⟩

theorem pairwise_insertEntry (k : α) (v : β) (h : es.Pairwise fun a b => f a.1 < f b.1) :
    (insertEntry f k v es).Pairwise fun a b => f a.1 < f b.1 := by
  induction es with
  | nil => exact List.pairwise_singleton _ _
  | cons e es ih =>
    obtain ⟨k', v'⟩ := e
    obtain ⟨hhead, htail⟩ := List.pairwise_cons.mp h
    rw [insertEntry]
    split_ifs with h₁ h₂
    · refine List.pairwise_cons.mpr ⟨fun e he => ?_, h⟩
      rcases List.mem_cons.mp he with rfl | he
      · exact h₁
      · exact h₁.trans (hhead e he)
    · exact List.pairwise_cons.mpr ⟨hhead, htail⟩
    · refine List.pairwise_cons.mpr ⟨fun e he => ?_, ih htail⟩
      obtain he | ⟨e', he', he⟩ := mem_insertEntry he
      · exact he ▸ lt_of_le_of_ne (not_lt.mp h₁) (Ne.symm h₂)
      · exact he ▸ hhead e' he'

theorem forall_insertEntry {P : α → Prop} {Q : β → Prop} {k : α} {v : β} (hk : P k) (hv : Q v) (h : ∀ e ∈ es, P e.1 ∧
    Q e.2) : ∀ e ∈ insertEntry f k v es, P e.1 ∧ Q e.2 := by
  induction es with
  | nil => exact List.forall_mem_singleton.mpr ⟨hk, hv⟩
  | cons e es ih =>
    obtain ⟨hhead, htail⟩ := List.forall_mem_cons.mp h
    rw [insertEntry]
    split_ifs
    · exact List.forall_mem_cons.mpr ⟨⟨hk, hv⟩, h⟩
    · exact List.forall_mem_cons.mpr ⟨⟨hhead.1, hv⟩, htail⟩
    · exact List.forall_mem_cons.mpr ⟨hhead, ih htail⟩

theorem find?_insertEntry (f : α → κ) (k k' : α) (v : β) (es : List (α × β)) :
    ((insertEntry f k v es).find? fun e => f e.1 = f k').map (·.2) =
      if f k = f k' then some v else (es.find? fun e => f e.1 = f k').map (·.2) := by
  induction es with
  | nil => by_cases hk : f k = f k' <;> simp [insertEntry, hk]
  | cons e es ih =>
    obtain ⟨k₁, v₁⟩ := e
    rw [insertEntry]
    split_ifs with h₁ h₂ h₃ h₄ h₅
    · simp [h₂]
    · simp [List.find?_cons, h₂]
    · simp [← h₃, h₄]
    · have hne : f k₁ ≠ f k' := h₃ ▸ h₄
      simp [hne]
    · have hne : f k₁ ≠ f k' := fun h => h₃ (h₅.trans h.symm)
      rw [List.find?_cons_of_neg (by simpa using hne), ih, if_pos h₅]
    · rw [List.find?_cons, List.find?_cons]
      by_cases hk : f k₁ = f k'
      · simp [hk]
      · simp only [hk, decide_false]
        rw [ih, if_neg h₅]

/-- A map from keys `α`, compared by `f`, to values `β`. -/
structure KeyMap (f : α → κ) (β : Type) where
  entries : List (α × β)
  sorted : entries.Pairwise fun a b => f a.1 < f b.1

namespace KeyMap

variable {f : α → κ}

/-- No entry. -/
def empty : KeyMap f β := ⟨[], .nil⟩

/-- `m[k] = v`. -/
def set (m : KeyMap f β) (k : α) (v : β) : KeyMap f β :=
  ⟨insertEntry f k v m.entries, pairwise_insertEntry k v m.sorted⟩

/-- `m.find(k)`. -/
def find? (m : KeyMap f β) (k : α) : Option β :=
  (m.entries.find? fun e => f e.1 = f k).map (·.2)

theorem find?_set (m : KeyMap f β) (k k' : α) (v : β) :
    (m.set k v).find? k' = if f k = f k' then some v else m.find? k' :=
  find?_insertEntry f k k' v m.entries

/-- `m.erase(k)`. -/
def erase (m : KeyMap f β) (k : α) : KeyMap f β :=
  ⟨m.entries.filter fun e => f e.1 ≠ f k, m.sorted.filter _⟩

theorem find?_erase (m : KeyMap f β) (k k' : α) :
    (m.erase k).find? k' = if f k = f k' then none else m.find? k' := by
  rw [find?, find?, erase, List.find?_filter]
  split_ifs with h
  · rw [Option.map_eq_none_iff, List.find?_eq_none]
    intro e _
    simp [h]
  · congr 2
    funext e
    by_cases hk : f e.1 = f k'
    · simp [hk, Ne.symm h]
    · simp [hk]

/-- Assignments to the keys of a list without equivalent keys, one after the other. -/
theorem find?_foldl_set (m : KeyMap f β) {es : List (α × β)} (h : es.Pairwise fun a b => f a.1 < f b.1) (k : α) :
    (es.foldl (fun m e => m.set e.1 e.2) m).find? k = ((es.find? fun e => f e.1 = f k).map (·.2)).or (m.find? k) := by
  induction es generalizing m with
  | nil => rfl
  | cons e es ih =>
    obtain ⟨hhead, htail⟩ := List.pairwise_cons.mp h
    rw [List.foldl_cons, ih (m.set e.1 e.2) htail, find?_set]
    by_cases hk : f e.1 = f k
    · have hnone : (es.find? fun e => f e.1 = f k) = none := by
        refine List.find?_eq_none.mpr fun e' he' => ?_
        simpa [← hk] using (hhead e' he').ne'
      simp [hnone, hk]
    · simp [hk]

/-- Assignments one after the other: of equivalent keys the last one counts. -/
theorem find?_foldl_set_last (m : KeyMap f β) (es : List (α × β)) (k : α) :
    (es.foldl (fun m e => m.set e.1 e.2) m).find? k =
      ((es.reverse.find? fun e => f e.1 = f k).map (·.2)).or (m.find? k) := by
  induction es generalizing m with
  | nil => rfl
  | cons e es ih =>
    rw [List.foldl_cons, ih (m.set e.1 e.2), find?_set, List.reverse_cons, List.find?_append]
    by_cases hk : f e.1 = f k
    · cases es.reverse.find? fun e => f e.1 = f k <;> simp [hk]
    · simp [hk]

theorem forall_foldl_set {P : α → Prop} {Q : β → Prop} {m : KeyMap f β} {es : List (α × β)}
    (hm : ∀ e ∈ m.entries, P e.1 ∧ Q e.2) (h : ∀ e ∈ es, P e.1 ∧ Q e.2) :
    ∀ e ∈ (es.foldl (fun m e => m.set e.1 e.2) m).entries, P e.1 ∧ Q e.2 := by
  induction es generalizing m with
  | nil => exact hm
  | cons e es ih =>
    obtain ⟨⟨hk, hv⟩, htail⟩ := List.forall_mem_cons.mp h
    exact ih (forall_insertEntry hk hv hm) htail

theorem flatMap_key {γ : Type} (m : KeyMap f β) (k : α) (g : β → γ) :
    (m.entries.flatMap fun e => if f e.1 = f k then [g e.2] else []) = ((m.find? k).map g).toList := by
  rw [find?]
  have hsorted := m.sorted
  generalize m.entries = es at hsorted ⊢
  induction es with
  | nil => rfl
  | cons e es ih =>
    obtain ⟨hhead, htail⟩ := List.pairwise_cons.mp hsorted
    rw [List.flatMap_cons]
    by_cases hk : f e.1 = f k
    · -- the entries behind have other keys
      have hnone : (es.flatMap fun e => if f e.1 = f k then [g e.2] else []) = [] := by
        refine List.flatMap_eq_nil_iff.mpr fun e' he' => if_neg ?_
        exact hk ▸ (hhead e' he').ne'
      rw [hnone, if_pos hk]
      simp [hk]
    · rw [if_neg hk, List.nil_append, ih htail, List.find?_cons_of_neg (by simpa using hk)]

end KeyMap

end Lib
