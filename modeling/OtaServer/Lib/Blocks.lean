import Mathlib.Data.List.Basic

/-!
# Blocks of one size

A list that is kept as a list of blocks.

* `splice`: a list with a part of it replaced.
* `Blocks`: all blocks have the same size. `Blocks.flatten_drop` is the list from a block on, `Blocks.slice` a part of
  a block, and `Blocks.flatten_modify_splice` a part of a block replaced.
-/

namespace Lib

variable {α : Type}

/-- The list with the elements from `n` on replaced by `xs`. -/
def splice (l : List α) (n : Nat) (xs : List α) : List α := l.take n ++ xs ++ l.drop (n + xs.length)

variable {n : Nat} {l xs : List α}

@[simp] theorem length_splice (h : n + xs.length ≤ l.length) : (splice l n xs).length = l.length := by
  simp only [splice, List.length_append, List.length_take, List.length_drop]
  omega

theorem splice_append_left (h : n + xs.length ≤ l.length)
    (m : List α) : splice (l ++ m) n xs = splice l n xs ++ m := by
  rw [splice, splice, List.take_append_of_le_length (by omega), List.drop_append_of_le_length h,
    List.append_assoc, List.append_assoc, List.append_assoc]

theorem splice_append_right (l m : List α) (n : Nat) (xs : List α) :
    splice (l ++ m) (l.length + n) xs = l ++ splice m n xs := by
  rw [splice, splice, Nat.add_assoc, List.take_length_add_append, List.drop_length_add_append,
    List.append_assoc, List.append_assoc, List.append_assoc]

theorem splice_append_both (h : n + xs.length = l.length)
    (m ys : List α) : splice (l ++ m) n (xs ++ ys) = splice l n xs ++ splice m 0 ys := by
  have hdrop : (l ++ m).drop (n + (xs ++ ys).length) = m.drop (0 + ys.length) := by
    rw [List.length_append, ← Nat.add_assoc, h, List.drop_length_add_append, Nat.zero_add]
  rw [splice, splice, splice, hdrop, List.take_append_of_le_length (by omega), h, List.drop_length,
    List.take_zero, List.append_nil, List.nil_append, List.append_assoc, List.append_assoc,
    List.append_assoc]

theorem take_splice {s : Nat} (hn : n ≤ s) (h : n + xs.length ≤ l.length) :
    (splice l n xs).take (max s (n + xs.length)) = splice (l.take s) n xs := by
  have hfront : (l.take n ++ xs).length = n + xs.length := by
    rw [List.length_append, List.length_take]
    omega
  rw [splice, splice, List.take_append, hfront, List.take_of_length_le (by omega), List.take_take,
    Nat.min_eq_left hn, List.drop_take]
  congr 2
  omega

theorem splice_behind (h : n ≤ l.length) (ys : List α) :
    splice (splice l n xs) (n + xs.length) ys = splice l n (xs ++ ys) := by
  have hfront : (l.take n ++ xs).length = n + xs.length := by
    rw [List.length_append, List.length_take]
    omega
  have htake : (splice l n xs).take (n + xs.length) = l.take n ++ xs := by
    rw [splice, ← hfront, List.take_left]
  have hdrop : (splice l n xs).drop (n + xs.length + ys.length) =
      l.drop (n + (xs ++ ys).length) := by
    have hback : (splice l n xs).drop (n + xs.length) = l.drop (n + xs.length) := by
      rw [splice]
      exact List.drop_left' hfront
    rw [← List.drop_drop, hback, List.drop_drop, List.length_append, Nat.add_assoc]
  rw [splice, htake, hdrop, splice, List.append_assoc (l.take n) xs ys]

theorem splice_splice (h : n + xs.length ≤ l.length)
    (ys : List α) : splice (splice l n xs) (n + xs.length) ys = splice l n (xs ++ ys) := splice_behind (by omega) ys

theorem splice_nil (l : List α) (n : Nat) : splice l n [] = l := by
  rw [splice, List.append_nil, List.length_nil, Nat.add_zero, List.take_append_drop]

theorem getElem?_splice_of_outside {i : Nat} (hn : n ≤ l.length)
    (hi : i < n ∨ n + xs.length ≤ i) : (splice l n xs)[i]? = l[i]? := by
  have hfront : (l.take n ++ xs).length = n + xs.length := by
    rw [List.length_append, List.length_take, Nat.min_eq_left hn]
  obtain hlt | hge := hi
  · rw [splice, List.append_assoc, List.getElem?_append_left (by rw [List.length_take]; omega),
      List.getElem?_take_of_lt hlt]
  · rw [splice, List.getElem?_append_right (by omega), hfront, List.getElem?_drop]
    congr 1
    omega

/-- All blocks have the size `k`. -/
def Blocks (k : Nat) (bs : List (List α)) : Prop := ∀ b ∈ bs, b.length = k

namespace Blocks

variable {k : Nat} {b : List α} {bs cs : List (List α)}

theorem cons_iff : Blocks k (b :: bs) ↔ b.length = k ∧ Blocks k bs := List.forall_mem_cons

theorem append (h : Blocks k bs) (h' : Blocks k cs) : Blocks k (bs ++ cs) := fun b hb =>
  (List.mem_append.mp hb).elim (h b) (h' b)

theorem take (h : Blocks k bs) (i : Nat) : Blocks k (bs.take i) := fun b hb =>
  h b (List.mem_of_mem_take hb)

theorem drop (h : Blocks k bs) (i : Nat) : Blocks k (bs.drop i) := fun b hb =>
  h b (List.mem_of_mem_drop hb)

theorem length_flatten (h : Blocks k bs) : bs.flatten.length = k * bs.length := by
  induction bs with
  | nil => rfl
  | cons b bs ih =>
    obtain ⟨hb, hbs⟩ := cons_iff.mp h
    rw [List.flatten_cons, List.length_append, hb, ih hbs, List.length_cons, Nat.mul_succ, Nat.add_comm]

theorem flatten_drop (h : Blocks k bs) {i : Nat} (hi : i ≤ bs.length) :
    (bs.drop i).flatten = bs.flatten.drop (k * i) := by
  have hsplit : bs.flatten = (bs.take i).flatten ++ (bs.drop i).flatten := by
    rw [← List.flatten_append, List.take_append_drop]
  have hlen : (bs.take i).flatten.length = k * i := by
    rw [(h.take i).length_flatten, List.length_take, Nat.min_eq_left hi]
  rw [hsplit, ← hlen, List.drop_left]

theorem exists_split (h : Blocks k bs) {i : Nat} (hi : i < bs.length) :
    ∃ front block rest, bs = front ++ block :: rest ∧ front.length = i ∧ block.length = k ∧
      front.flatten.length = k * i := by
  have hfront : (bs.take i).length = i := by
    rw [List.length_take]
    omega
  refine ⟨bs.take i, bs[i], bs.drop (i + 1), ?_, hfront, h _ (List.getElem_mem hi), ?_⟩
  · rw [← List.drop_eq_getElem_cons hi, List.take_append_drop]
  · rw [(h.take i).length_flatten, hfront]

theorem slice (h : Blocks k bs) {i m n : Nat} (hi : i < bs.length) (hn : m + n ≤ k) :
    (bs.flatten.drop (k * i + m)).take n = ((bs[i]?.getD []).drop m).take n := by
  obtain ⟨front, block, rest, rfl, rfl, hblock, hfront⟩ := h.exists_split hi
  have hget : (front ++ block :: rest)[front.length]?.getD [] = block := by
    rw [List.getElem?_append_right (Nat.le_refl _), Nat.sub_self]
    rfl
  rw [hget, List.flatten_append, List.flatten_cons, ← hfront, List.drop_length_add_append,
    List.drop_append_of_le_length (by omega),
    List.take_append_of_le_length (by rw [List.length_drop]; omega)]

theorem modify (h : Blocks k bs) {i : Nat} {f : List α → List α}
    (hf : ∀ b : List α, b.length = k → (f b).length = k) : Blocks k (bs.modify i f) := by
  intro b hb
  obtain ⟨j, hj, rfl⟩ := List.mem_iff_getElem.mp hb
  rw [List.getElem_modify]
  split
  · exact hf _ (h _ (List.getElem_mem _))
  · exact h _ (List.getElem_mem _)

theorem flatten_modify_splice (h : Blocks k bs) {i m : Nat} {xs : List α} (hi : i < bs.length)
    (hm : m + xs.length ≤ k) : (bs.modify i fun b => splice b m xs).flatten = splice bs.flatten (k * i + m) xs := by
  obtain ⟨front, block, rest, rfl, rfl, hblock, hfront⟩ := h.exists_split hi
  have hmodify : (front ++ block :: rest).modify front.length (fun b => splice b m xs) =
      front ++ splice block m xs :: rest := by
    rw [List.modify_eq_take_drop, List.take_left, List.drop_left, List.modifyHead_cons]
  rw [hmodify, List.flatten_append, List.flatten_append, List.flatten_cons, List.flatten_cons,
    ← hfront, splice_append_right, splice_append_left (by omega)]

end Blocks

end Lib
