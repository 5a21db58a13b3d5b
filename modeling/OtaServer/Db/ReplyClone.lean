import OtaServer.Db.Redis
import OtaServer.Lib.Memory

/-!
# Copies of replies (`RedisReplyClone`, `sherry/db/redis.cc`)

hiredis frees a reply behind the callback that gets it, so the callback hands on a copy. A reply is a tree of
`redisReply` structures with their buffers, each of them a block of the memory.

* `redisReplyClone`: the copy.
* `Holds m t a fp`: at the address `a` there is the reply `t` as hiredis makes it, in the blocks `fp`.
* `Clones`, `clones_of_holds`: a copy holds the same reply, in blocks of its own.
-/

namespace Sherry

open Lib

/-- The types of a `redisReply`. -/
inductive ReplyType where
  | string | array | integer | nil | status | error
  deriving DecidableEq

/-- `redisReply`. Pointers are addresses of blocks. -/
structure RedisReply where
  type : ReplyType
  integer : Int := 0
  len : Nat := 0
  str : Option Nat := none
  elements : Nat := 0
  element : Option Nat := none
  deriving DecidableEq

/-- What is in a block. -/
inductive ReplyBlock where
  | reply (r : RedisReply)
  | chars (text : Bytes)
  | pointers (ps : List (Option Nat))
  deriving DecidableEq

/-- The heap. -/
abbrev ReplyMemory := Memory ReplyBlock

namespace ReplyMemory

/-- The structure at an address. -/
def reply? (m : ReplyMemory) (a : Nat) : Option RedisReply :=
  match m[a]? with
  | some (some (.reply r)) => some r
  | _ => none

/-- The characters at an address. -/
def chars? (m : ReplyMemory) (a : Nat) : Option Bytes :=
  match m[a]? with
  | some (some (.chars text)) => some text
  | _ => none

/-- The array of pointers at an address. -/
def pointers? (m : ReplyMemory) (a : Nat) : Option (List (Option Nat)) :=
  match m[a]? with
  | some (some (.pointers ps)) => some ps
  | _ => none

end ReplyMemory

open ReplyMemory

/-- `c->element[i] = RedisReplyClone(r->element[i])`, for the arrays of pointers at `e` and `ce`. -/
def cloneElement (clone : ReplyMemory → Nat → Option (ReplyMemory × Nat)) (e ce : Nat) (m : ReplyMemory)
    (i : Nat) : Option ReplyMemory := do
  let p ← (← (← pointers? m e)[i]?)
  let (m, c) ← clone m p
  let cs ← pointers? m ce
  if i < cs.length then some (m.set ce (some (.pointers (cs.set i (some c))))) else none

/-- `RedisReplyClone` for the reply at `a`: the memory afterwards and the address of the copy. Nothing if it reads or
writes outside a block, or needs more than `fuel` nested calls. -/
def redisReplyClone : Nat → ReplyMemory → Nat → Option (ReplyMemory × Nat)
  | 0, _, _ => none
  | fuel + 1, m, a =>
    (reply? m a).bind fun r =>
      let c := m.length
      let m := m ++ [some (.reply { type := r.type })]
      match r.type with
      | .integer => some (m.set c (some (.reply { type := r.type, integer := r.integer })), c)
      | .array =>
        match r.element with
        | none => some (m, c)
        | some e =>
          if 0 < r.elements then
            let ce := m.length
            let m := m ++ [some (.pointers (List.replicate r.elements none))]
            let m := m.set c (some (.reply { type := r.type, element := some ce, elements := r.elements }))
            ((List.range r.elements).foldlM (cloneElement (redisReplyClone fuel) e ce) m).map (·, c)
          else some (m, c)
      | .error | .status | .string =>
        match r.str with
        | none => some (m.set c (some (.reply { type := r.type, len := r.len })), c)
        | some s =>
          (chars? m s).bind fun text =>
            if r.len ≤ text.length then
              let cs := m.length
              let m := m ++ [some (.chars (text.take r.len ++ [0]))]
              some (m.set c (some (.reply { type := r.type, str := some cs, len := r.len })), c)
            else none
      | .nil => some (m, c)

/-! ## Replies in the memory -/

/-- The replies with a text, by their types. -/
inductive TextReply : ReplyType → Bytes → Reply → Prop where
  | string (text : Bytes) : TextReply .string text (.str text)
  | status (text : Bytes) : TextReply .status text (.status text)
  | error (text : Bytes) : TextReply .error text (.error text)

/-- At `a` there is the reply `t` as hiredis makes it, in the blocks `fp`: texts have a length and a zero byte behind
them, and an empty array has no array of pointers. The children of an array are given with their addresses and blocks.
-/
inductive Holds (m : ReplyMemory) : Reply → Nat → List Nat → Prop where
  | integer {a : Nat} {n : Int} : reply? m a = some { type := .integer, integer := n } → Holds m (.integer n) a [a]
  | nil {a : Nat} : reply? m a = some { type := .nil } → Holds m .nil a [a]
  | text {a s : Nat} {k : ReplyType} {text : Bytes} {t : Reply} : TextReply k text t →
    reply? m a = some { type := k, len := text.length, str := some s } → chars? m s = some (text ++ [0]) →
    Holds m t a [a, s]
  | empty {a : Nat} : reply? m a = some { type := .array } → Holds m (.array []) a [a]
  | array {a e : Nat} {cs : List (Reply × Nat × List Nat)} : cs ≠ [] →
    reply? m a = some { type := .array, elements := cs.length, element := some e } →
    pointers? m e = some (cs.map fun x => some x.2.1) → (∀ x ∈ cs, Holds m x.1 x.2.1 x.2.2) →
    Holds m (.array (cs.map (·.1))) a (a :: e :: cs.flatMap (·.2.2))

section

variable {m m' : ReplyMemory} {a : Nat}

theorem reply?_congr (h : m'[a]? = m[a]?) : reply? m' a = reply? m a := by rw [reply?, reply?, h]

theorem chars?_congr (h : m'[a]? = m[a]?) : chars? m' a = chars? m a := by rw [chars?, chars?, h]

theorem pointers?_congr (h : m'[a]? = m[a]?) : pointers? m' a = pointers? m a := by rw [pointers?, pointers?, h]

theorem reply?_eq_some {r : RedisReply} : reply? m a = some r ↔ m[a]? = some (some (.reply r)) := by
  unfold reply?
  split
  · next r' h => simp [h]
  · next h =>
    refine ⟨fun h' => ?_, fun h' => absurd h' (h r)⟩
    cases h'

theorem chars?_eq_some {text : Bytes} : chars? m a = some text ↔ m[a]? = some (some (.chars text)) := by
  unfold chars?
  split
  · next r' h => simp [h]
  · next h =>
    refine ⟨fun h' => ?_, fun h' => absurd h' (h text)⟩
    cases h'

theorem pointers?_eq_some {ps : List (Option Nat)} :
    pointers? m a = some ps ↔ m[a]? = some (some (.pointers ps)) := by
  unfold pointers?
  split
  · next r' h => simp [h]
  · next h =>
    refine ⟨fun h' => ?_, fun h' => absurd h' (h ps)⟩
    cases h'

theorem lt_of_block {b : Option ReplyBlock} (h : m[a]? = some b) : a < m.length :=
  (List.getElem?_eq_some_iff.mp h).1

namespace Holds

variable {t : Reply} {fp : List Nat}

theorem lt (h : Holds m t a fp) : ∀ x ∈ fp, x < m.length := by
  induction h with
  | integer hr | nil hr | empty hr =>
    intro x hx
    obtain rfl := List.mem_singleton.mp hx
    exact lt_of_block (reply?_eq_some.mp hr)
  | text _ hr hs =>
    intro x hx
    simp only [List.mem_cons, List.not_mem_nil, or_false] at hx
    obtain rfl | rfl := hx
    · exact lt_of_block (reply?_eq_some.mp hr)
    · exact lt_of_block (chars?_eq_some.mp hs)
  | array _ hr hp _ ih =>
    intro x hx
    rw [List.mem_cons, List.mem_cons, List.mem_flatMap] at hx
    obtain rfl | rfl | ⟨y, hy, hx⟩ := hx
    · exact lt_of_block (reply?_eq_some.mp hr)
    · exact lt_of_block (pointers?_eq_some.mp hp)
    · exact ih y hy x hx

theorem congr (h : Holds m t a fp) (hsame : ∀ x ∈ fp, m'[x]? = m[x]?) : Holds m' t a fp := by
  induction h with
  | integer hr => exact .integer ((reply?_congr (hsame _ List.mem_cons_self)).trans hr)
  | nil hr => exact .nil ((reply?_congr (hsame _ List.mem_cons_self)).trans hr)
  | empty hr => exact .empty ((reply?_congr (hsame _ List.mem_cons_self)).trans hr)
  | text hk hr hs =>
    exact .text hk ((reply?_congr (hsame _ List.mem_cons_self)).trans hr)
      ((chars?_congr (hsame _ (List.mem_cons_of_mem _ List.mem_cons_self))).trans hs)
  | array hne hr hp _ ih =>
    refine .array hne ((reply?_congr (hsame _ List.mem_cons_self)).trans hr)
      ((pointers?_congr (hsame _ (List.mem_cons_of_mem _ List.mem_cons_self))).trans hp) fun x hx => ?_
    exact ih x hx fun y hy =>
      hsame y (List.mem_cons_of_mem _ (List.mem_cons_of_mem _ (List.mem_flatMap.mpr ⟨x, hx, hy⟩)))

end Holds

end

/-! ## The copy -/

/-- With enough nested calls, a copy is made of the reply at `a` in every memory that still has the blocks of `m`. It
is a tree of new blocks with the same reply, and all blocks that were there stay. -/
def Clones (m : ReplyMemory) (t : Reply) (a : Nat) : Prop :=
  ∃ n, ∀ fuel ≥ n, ∀ mem, m.length ≤ mem.length → Memory.Kept m.length m mem →
    ∃ mem' fp, redisReplyClone fuel mem a = some (mem', mem.length) ∧
      mem.length ≤ mem'.length ∧ Memory.Kept mem.length mem mem' ∧
      Holds mem' t mem.length fp ∧ fp.Nodup ∧ ∀ x ∈ fp, mem.length ≤ x

section

variable {m : ReplyMemory} {a e : Nat}

theorem cloneElements_eq {ps : List (Option Nat)} (hp : pointers? m e = some ps)
    {cs : List (Reply × Nat × List Nat)} (hcs : ∀ x ∈ cs, Clones m x.1 x.2.1) :
    ∃ n, ∀ fuel ≥ n, ∀ (mem : ReplyMemory) (ce : Nat) (done : List (Option Nat)),
      m.length ≤ ce → Memory.Kept m.length m mem → ps.drop done.length = cs.map (fun x => some x.2.1) →
      pointers? mem ce = some (done ++ List.replicate cs.length none) →
      ∃ (mem' : ReplyMemory) (cs' : List (Reply × Nat × List Nat)),
        (List.range' done.length cs.length).foldlM (cloneElement (redisReplyClone fuel) e ce) mem = some mem' ∧
        mem.length ≤ mem'.length ∧ (∀ x < mem.length, x ≠ ce → mem'[x]? = mem[x]?) ∧
        cs'.map (·.1) = cs.map (·.1) ∧ pointers? mem' ce = some (done ++ cs'.map fun x => some x.2.1) ∧
        (∀ x ∈ cs', Holds mem' x.1 x.2.1 x.2.2) ∧ (cs'.flatMap (·.2.2)).Nodup ∧
        ∀ x ∈ cs'.flatMap (·.2.2), mem.length ≤ x := by
  induction cs with
  | nil =>
    refine ⟨0, fun fuel _ mem ce done _ _ _ hce => ⟨mem, [], rfl, Nat.le_refl _, fun _ _ _ => rfl, rfl, ?_, ?_⟩⟩
    · simpa using hce
    · simp
  | cons x cs ih =>
    obtain ⟨n₁, hclone⟩ := hcs x List.mem_cons_self
    obtain ⟨n₂, hloop⟩ := ih fun y hy => hcs y (List.mem_cons_of_mem x hy)
    refine ⟨max n₁ n₂, fun fuel hfuel mem ce done hbase hkept hdrop hce => ?_⟩
    have hlt : ce < mem.length := lt_of_block (pointers?_eq_some.mp hce)
    obtain ⟨mem₁, fp, hcopy, hgrown, hkept₁, hholds, hnodup, hnew⟩ :=
      hclone fuel (le_trans (le_max_left _ _) hfuel) mem (by omega) hkept
    -- the first element of the rest
    have hread : ps[done.length]? = some (some x.2.1) := by
      rw [← List.head?_drop, hdrop]
      rfl
    have helem : pointers? mem e = some ps := by
      rw [pointers?_congr (hkept e (lt_of_block (pointers?_eq_some.mp hp))), hp]
    have hce₁ : pointers? mem₁ ce = some (done ++ List.replicate (cs.length + 1) none) :=
      (pointers?_congr (hkept₁ ce hlt)).trans hce
    have hset : (done ++ List.replicate (cs.length + 1) none).set done.length (some mem.length) =
        (done ++ [some mem.length]) ++ List.replicate cs.length none := by
      simp [List.replicate_succ]
    generalize hmem₂ : mem₁.set ce (some (.pointers ((done ++ [some mem.length]) ++
      List.replicate cs.length none))) = mem₂
    have hround : cloneElement (redisReplyClone fuel) e ce mem done.length = some mem₂ := by
      rw [cloneElement, helem, ← hmem₂, ← hset]
      simp [hread, hcopy, hce₁]
    have hsame₂ : ∀ y, y ≠ ce → mem₂[y]? = mem₁[y]? := fun y hy => by
      rw [← hmem₂, List.getElem?_set_ne (Ne.symm hy)]
    have hlen₂ : mem₂.length = mem₁.length := by rw [← hmem₂, List.length_set]
    have hce₂ : pointers? mem₂ ce = some ((done ++ [some mem.length]) ++ List.replicate cs.length none) := by
      rw [pointers?_eq_some, ← hmem₂, List.getElem?_set_self (by omega)]
    have hkept₂ : Memory.Kept m.length m mem₂ := fun y hy =>
      (hsame₂ y (by omega)).trans ((hkept₁ y (by omega)).trans (hkept y hy))
    obtain ⟨mem', cs', hrest, hgrown', hsame', hreplies, hpointers, hall, hnodup', hnew'⟩ :=
      hloop fuel (le_trans (le_max_right _ _) hfuel) mem₂ ce (done ++ [some mem.length]) hbase hkept₂
        (by rw [List.length_append, List.length_singleton, ← List.drop_drop, hdrop]; rfl) hce₂
    have hfp : ∀ y ∈ fp, mem.length ≤ y ∧ y < mem₂.length := fun y hy => ⟨hnew y hy, hlen₂ ▸ hholds.lt y hy⟩
    refine ⟨mem', (x.1, mem.length, fp) :: cs', ?_, by omega, ?_, ?_, ?_, ?_, ?_, ?_⟩
    · rw [List.length_cons, List.range'_succ, List.foldlM_cons, hround]
      rw [List.length_append, List.length_singleton] at hrest
      exact hrest
    · intro y hy hne
      rw [hsame' y (by omega) hne, hsame₂ y hne, hkept₁ y hy]
    · rw [List.map_cons, List.map_cons, hreplies]
    · rw [hpointers, List.map_cons, List.append_assoc]
      rfl
    · intro y hy
      obtain rfl | hy := List.mem_cons.mp hy
      · refine hholds.congr fun z hz => ?_
        have hz' := hfp z hz
        rw [hsame' z hz'.2 (by omega), hsame₂ z (by omega)]
      · exact hall y hy
    · rw [List.flatMap_cons, List.nodup_append]
      refine ⟨hnodup, hnodup', fun y hy z hz heq => ?_⟩
      have hlow := (hfp y hy).2
      have hhigh := hnew' z hz
      omega
    · intro y hy
      rw [List.flatMap_cons, List.mem_append] at hy
      obtain hy | hy := hy
      · exact (hfp y hy).1
      · have hhigh := hnew' y hy
        omega

end

section

variable {m mem : ReplyMemory} {t : Reply} {a : Nat} {fp : List Nat} {r : RedisReply}

theorem set_length_append (l x : ReplyMemory) (b c : Option ReplyBlock) :
    (l ++ [b] ++ x).set l.length c = l ++ [c] ++ x := by simp

theorem reply?_concat (mem x : ReplyMemory) (r : RedisReply) :
    reply? (mem ++ [some (.reply r)] ++ x) mem.length = some r := by
  rw [reply?_eq_some, List.append_assoc, List.getElem?_append_right (Nat.le_refl _), Nat.sub_self]
  rfl

theorem chars?_concat (mem : ReplyMemory) (b : Option ReplyBlock) (text : Bytes) :
    chars? (mem ++ [b] ++ [some (.chars text)]) (mem.length + 1) = some text := by
  rw [chars?_eq_some, List.getElem?_append_right (by simp)]
  simp

/-- A reply of one block: only its structure is copied. -/
theorem clones_of_node (hr : reply? m a = some r)
    (hclone : ∀ fuel mem, reply? mem a = some r →
      redisReplyClone (fuel + 1) mem a = some (mem ++ [some (.reply r)], mem.length))
    (hholds : ∀ mem c, reply? mem c = some r → Holds mem t c [c]) : Clones m t a := by
  refine ⟨1, fun fuel hfuel mem _ hkept => ?_⟩
  obtain ⟨fuel, rfl⟩ := Nat.exists_eq_add_of_le' hfuel
  have hread := (reply?_congr (hkept a (lt_of_block (reply?_eq_some.mp hr)))).trans hr
  have hcopy := reply?_concat mem [] r
  rw [List.append_nil] at hcopy
  exact ⟨_, [mem.length], hclone fuel mem hread, by simp, .append _ _ (Nat.le_refl _), hholds _ _ hcopy, by simp,
    by simp⟩

theorem clones_of_holds (h : Holds m t a fp) : Clones m t a := by
  induction h with
  | integer hr => exact clones_of_node hr (fun _ _ h => by simp [redisReplyClone, h]) fun _ _ => .integer
  | nil hr => exact clones_of_node hr (fun _ _ h => by simp [redisReplyClone, h]) fun _ _ => .nil
  | empty hr => exact clones_of_node hr (fun _ _ h => by simp [redisReplyClone, h]) fun _ _ => .empty
  | @text a s k text t hk hr hs =>
    refine ⟨1, fun fuel hfuel mem _ hkept => ?_⟩
    obtain ⟨fuel, rfl⟩ := Nat.exists_eq_add_of_le' hfuel
    have hread := (reply?_congr (hkept a (lt_of_block (reply?_eq_some.mp hr)))).trans hr
    have hslt := lt_of_block (chars?_eq_some.mp hs)
    have hchars : chars? (mem ++ [some (.reply { type := k })]) s = some (text ++ [0]) := by
      have hsame := hkept s hslt
      rw [chars?_congr (List.getElem?_append_left (by omega)), chars?_congr hsame, hs]
    refine ⟨mem ++ [some (.reply { type := k, len := text.length, str := some (mem.length + 1) })] ++
      [some (.chars (text ++ [0]))], [mem.length, mem.length + 1], ?_, by simp, ?_,
      .text hk (reply?_concat mem _ _) (chars?_concat mem _ _), by simp, by simp⟩
    · cases hk <;> simp [redisReplyClone, hread, hchars]
    · rw [List.append_assoc]
      exact .append _ _ (Nat.le_refl _)
  | @array a e cs hne hr hp _ ih =>
    obtain ⟨n, hloop⟩ := cloneElements_eq hp ih
    refine ⟨n + 1, fun fuel hfuel mem hlen hkept => ?_⟩
    obtain ⟨fuel, rfl⟩ := Nat.exists_eq_add_of_le' (Nat.le_of_add_left_le hfuel)
    have hread := (reply?_congr (hkept a (lt_of_block (reply?_eq_some.mp hr)))).trans hr
    -- the structure and the array of pointers, in front of the copies
    generalize hmem₁ : mem ++ [some (.reply
      { type := .array, elements := cs.length, element := some (mem.length + 1) })] ++
      [some (.pointers (List.replicate cs.length none))] = mem₁
    have hlen₁ : mem₁.length = mem.length + 2 := by simp [← hmem₁]
    have hkept₁ : Memory.Kept mem.length mem mem₁ := by
      rw [← hmem₁, List.append_assoc]
      exact .append _ _ (Nat.le_refl _)
    have hnode : reply? mem₁ mem.length =
        some { type := .array, elements := cs.length, element := some (mem.length + 1) } := by
      rw [← hmem₁]
      exact reply?_concat mem _ _
    have hpointers : pointers? mem₁ (mem.length + 1) = some ([] ++ List.replicate cs.length none) := by
      rw [pointers?_eq_some, ← hmem₁, List.getElem?_append_right (by simp)]
      simp
    obtain ⟨mem', cs', hrun, hgrown, hsame, hreplies, hpointers', hall, hnodup, hnew⟩ :=
      hloop fuel (Nat.le_of_succ_le_succ hfuel) mem₁ (mem.length + 1) [] (by omega)
        (hkept.trans hkept₁ hlen) rfl hpointers
    have hcount : cs'.length = cs.length := by
      have := congrArg List.length hreplies
      simpa using this
    refine ⟨mem', mem.length :: (mem.length + 1) :: cs'.flatMap (·.2.2), ?_, by omega, ?_, ?_, ?_, ?_⟩
    · have hpos : 0 < cs.length := List.length_pos_of_ne_nil hne
      rw [List.length_nil, ← List.range_eq_range'] at hrun
      have hset := set_length_append mem [some (.pointers (List.replicate cs.length none))]
        (some (.reply { type := .array }))
        (some (.reply { type := .array, elements := cs.length, element := some (mem.length + 1) }))
      rw [hmem₁] at hset
      simp only [redisReplyClone, hread, Option.bind_some, if_pos hpos, List.length_append, List.length_singleton]
      rw [hset, hrun]
      rfl
    · intro y hy
      rw [hsame y (by omega) (by omega), hkept₁ y hy]
    · rw [← hreplies]
      refine .array (List.ne_nil_of_length_pos (by rw [hcount]; exact List.length_pos_of_ne_nil hne)) ?_ hpointers'
        hall
      rw [reply?_congr (hsame mem.length (by omega) (by omega)), hnode, hcount]
    · rw [List.nodup_cons, List.nodup_cons, List.mem_cons, not_or]
      refine ⟨⟨by omega, fun hy => ?_⟩, fun hy => ?_, hnodup⟩
      · have := hnew _ hy
        omega
      · have := hnew _ hy
        omega
    · intro y hy
      rw [List.mem_cons, List.mem_cons] at hy
      obtain rfl | rfl | hy := hy
      · exact Nat.le_refl _
      · exact Nat.le_succ _
      · have := hnew y hy
        omega

/-- **A copy of a reply.** Every reply of hiredis is copied: with enough nested calls, the copy holds the same
reply, in blocks none of which were there before. It still does when the blocks of the original are freed. -/
theorem redisReplyClone_copies (h : Holds m t a fp) :
    ∃ n, ∀ fuel ≥ n, ∃ m' c fp', redisReplyClone fuel m a = some (m', c) ∧
      Holds m' t a fp ∧ Holds m' t c fp' ∧ fp'.Nodup ∧ (∀ x ∈ fp', x ∉ fp) ∧ Holds (m'.free fp) t c fp' := by
  obtain ⟨n, hclone⟩ := clones_of_holds h
  refine ⟨n, fun fuel hfuel => ?_⟩
  obtain ⟨m', fp', hrun, -, hkept, hcopy, hnodup, hnew⟩ :=
    hclone fuel hfuel m (Nat.le_refl _) (Memory.Kept.refl _ _)
  have hdisjoint : ∀ x ∈ fp', x ∉ fp := fun x hx hmem =>
    absurd (h.lt x hmem) (Nat.not_lt.mpr (hnew x hx))
  exact ⟨m', m.length, fp', hrun, h.congr fun x hx => hkept x (h.lt x hx), hcopy, hnodup, hdisjoint,
    hcopy.congr fun x hx => Memory.getElem?_free (hdisjoint x hx)⟩

/-- The reply `["a\0b", [], 7]`. -/
theorem redisReplyClone_copies_nested : ∃ n, ∀ fuel ≥ n, ∃ m' c fp', redisReplyClone fuel [
        some (.reply { type := .array, elements := 3, element := some 1 }), some (.pointers [some 2, some 4, some 5]),
        some (.reply { type := .string, len := 3, str := some 3 }), some (.chars [97, 0, 98, 0]),
        some (.reply { type := .array }), some (.reply { type := .integer, integer := 7 })] 0 = some (m', c) ∧
      Holds m' (.array [.str [97, 0, 98], .array [], .integer 7]) c fp' := by
  have hholds : Holds [
      some (.reply { type := .array, elements := 3, element := some 1 }), some (.pointers [some 2, some 4, some 5]),
      some (.reply { type := .string, len := 3, str := some 3 }), some (.chars [97, 0, 98, 0]),
      some (.reply { type := .array }), some (.reply { type := .integer, integer := 7 })]
      (.array [.str [97, 0, 98], .array [], .integer 7]) 0 [0, 1, 2, 3, 4, 5] := by
    refine @Holds.array _ 0 1 [(.str [97, 0, 98], 2, [2, 3]), (.array [], 4, [4]), (.integer 7, 5, [5])]
      (by simp) rfl rfl fun x hx => ?_
    simp only [List.mem_cons, List.not_mem_nil, or_false] at hx
    obtain rfl | rfl | rfl := hx
    · exact .text (.string _) rfl rfl
    · exact .empty rfl
    · exact .integer rfl
  obtain ⟨n, hcopies⟩ := redisReplyClone_copies hholds
  refine ⟨n, fun fuel hfuel => ?_⟩
  obtain ⟨m', c, fp', hrun, -, hcopy, -⟩ := hcopies fuel hfuel
  exact ⟨m', c, fp', hrun, hcopy⟩

end

end Sherry
