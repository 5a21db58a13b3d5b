import OtaServer.Lib.Bytes
import OtaServer.Lib.Search

/-!
# Replacing in a string (`sherry/util/hash_util.cc`)

The three overloads of `replace` go through a string in the same loop: the string is rebuilt at the place that was
found, and the search goes on behind what was put in.

* `replaceLoop`: the loop. `Finds.loop`: it ends, with the replaced text, if what is searched for is not empty.
* `replace_iff`: for an empty `find` it does not end, since an empty string is found again behind each replacement.
-/

namespace Sherry

open Lib

/-- `str.find(c, pos)` for a character. -/
def findChar (str : Bytes) (c : UInt8) (pos : Nat) : Option Nat :=
  (List.range str.length).find? fun i => decide (pos ≤ i) && str[i]? == some c

/-- `while(index != npos)`: the string is changed at the index by `put`, and `next` searches from `skip` places behind
it. Nothing for a loop that has not ended after `fuel` rounds. -/
def replaceLoop (next : Bytes → Nat → Option Nat) (put : Bytes → Nat → Bytes) (skip : Nat) :
    Nat → Bytes → Option Nat → Option Bytes
  | _, str, none => some str
  | 0, _, some _ => none
  | fuel + 1, str, some index =>
    let str := put str index
    replaceLoop next put skip fuel str (next str (index + skip))

/-- `replace(const std::string&, char, char)`. -/
def replaceCharByChar (str : Bytes) (find replaceWith : UInt8) (fuel : Nat) : Option Bytes :=
  replaceLoop (findChar · find) (fun str index => str.set index replaceWith) 1 fuel str (findChar str find 0)

/-- `replace(const std::string&, char, const std::string&)`. -/
def replaceChar (str : Bytes) (find : UInt8) (replaceWith : Bytes) (fuel : Nat) : Option Bytes :=
  replaceLoop (findChar · find) (fun str index => str.take index ++ replaceWith ++ str.drop (index + 1))
    replaceWith.length fuel str (findChar str find 0)

/-- `replace(const std::string&, const std::string&, const std::string&)`. -/
def replace (str find replaceWith : Bytes) (fuel : Nat) : Option Bytes :=
  replaceLoop (searchFrom find) (fun str index => str.take index ++ replaceWith ++ str.drop (index + find.length))
    replaceWith.length fuel str (searchFrom find str 0)

/-- A call ends with a result. -/
def Returns (f : Nat → Option Bytes) (r : Bytes) : Prop := ∃ fuel, f fuel = some r

/-! ## The loop -/

section

variable {next : Bytes → Nat → Option Nat} {put : Bytes → Nat → Bytes} {skip : Nat} {p w : Bytes}

theorem replaceLoop_mono {fuel k : Nat} {str r : Bytes} {index : Option Nat}
    (h : replaceLoop next put skip fuel str index = some r) :
    replaceLoop next put skip (fuel + k) str index = some r := by
  induction fuel generalizing str index with
  | zero =>
    cases index with
    | none => simpa [replaceLoop] using h
    | some i => cases h
  | succ fuel ih =>
    cases index with
    | none => simpa [replaceLoop] using h
    | some i =>
      rw [Nat.add_right_comm]
      exact ih h

theorem Returns.unique {str r r' : Bytes} {index : Option Nat} (h : Returns (replaceLoop next put skip · str index) r)
    (h' : Returns (replaceLoop next put skip · str index) r') : r = r' := by
  obtain ⟨fuel, h⟩ := h
  obtain ⟨fuel', h'⟩ := h'
  have h := replaceLoop_mono (k := fuel') h
  have h' := replaceLoop_mono (k := fuel) h'
  rw [Nat.add_comm, h] at h'
  exact Option.some.inj h'

/-- A loop that searches for `p` and puts in `w`. -/
structure Finds (next : Bytes → Nat → Option Nat) (put : Bytes → Nat → Bytes) (skip : Nat) (p w : Bytes) : Prop where
  next_eq : next = searchFrom p
  put_eq : ∀ str i, i + p.length ≤ str.length → put str i = str.take i ++ w ++ str.drop (i + p.length)
  skip_eq : skip = w.length

namespace Finds

/-- What is in front of the search stays, and what is behind it is replaced. -/
theorem loop (h : Finds next put skip p w) (hp : p ≠ []) {fuel : Nat} (pre : Bytes) {l : Bytes}
    (hfuel : l.length < fuel) :
    ∃ r, replaceLoop next put skip fuel (pre ++ l) (next (pre ++ l) pre.length) = some (pre ++ r) ∧
      Replaced p w l r := by
  induction fuel generalizing pre l with
  | zero => exact absurd hfuel (Nat.not_lt_zero _)
  | succ fuel ih =>
    rw [h.next_eq, searchFrom_append]
    cases hsearch : searchFrom p l 0 with
    | none => exact ⟨l, rfl, .of_search_none hsearch⟩
    | some i =>
      obtain ⟨-, -, hpl, -⟩ := searchFrom_eq_some.mp hsearch
      have hle := hpl.length_le
      rw [List.length_drop] at hle
      have hpos := List.length_pos_of_ne_nil hp
      have hput : put (pre ++ l) (pre.length + i) = (pre ++ l.take i ++ w) ++ l.drop (i + p.length) := by
        rw [h.put_eq _ _ (by rw [List.length_append]; omega), Nat.add_assoc, List.take_length_add_append,
          List.drop_length_add_append]
      have hskip : pre.length + i + skip = (pre ++ l.take i ++ w).length := by
        rw [List.length_append, List.length_append, List.length_take_of_le (by omega), h.skip_eq]
      obtain ⟨r, hloop, hr⟩ := ih (pre ++ l.take i ++ w) (l := l.drop (i + p.length))
        (by rw [List.length_drop]; omega)
      refine ⟨l.take i ++ w ++ r, ?_, .of_search_some hsearch hr⟩
      rw [Option.map_some, replaceLoop, hput, hskip, ← h.next_eq, hloop]
      simp only [List.append_assoc]

theorem exists_returns (h : Finds next put skip p w) (hp : p ≠ []) (str : Bytes) :
    ∃ r, Returns (replaceLoop next put skip · str (next str 0)) r ∧ Replaced p w str r := by
  obtain ⟨r, hloop, hr⟩ := h.loop hp [] (Nat.lt_succ_self str.length)
  exact ⟨r, ⟨_, hloop⟩, hr⟩

theorem returns_iff (h : Finds next put skip p w) (hp : p ≠ []) {str r : Bytes} :
    Returns (replaceLoop next put skip · str (next str 0)) r ↔ Replaced p w str r := by
  obtain ⟨r', hreturns, hr'⟩ := h.exists_returns hp str
  constructor
  · intro hr
    exact hr.unique hreturns ▸ hr'
  · intro hr
    exact hr.unique hr' ▸ hreturns

end Finds

end

/-! ## The overloads -/

theorem singleton_prefix_drop {str : Bytes} {c : UInt8} {i : Nat} : [c] <+: str.drop i ↔ str[i]? = some c := by
  rw [List.singleton_prefix_iff_head?_eq_some, List.head?_drop]

theorem findChar_eq (c : UInt8) : (findChar · c) = searchFrom [c] := by
  funext str pos
  refine Option.ext fun i => ?_
  rw [searchFrom_eq_some, findChar, List.find?_range_eq_some]
  simp only [Bool.and_eq_true, decide_eq_true_eq, beq_iff_eq, List.mem_range, Bool.not_eq_true',
    ← Bool.not_eq_true, singleton_prefix_drop]
  constructor
  · rintro ⟨⟨hpos, hc⟩, hi, hfirst⟩
    exact ⟨hpos, Nat.le_of_lt hi, hc, fun j hj hlt hcj => hfirst j hlt ⟨hj, hcj⟩⟩
  · rintro ⟨hpos, -, hc, hfirst⟩
    exact ⟨⟨hpos, hc⟩, (List.getElem?_eq_some_iff.mp hc).1, fun j hlt hcj => hfirst j hcj.1 hlt hcj.2⟩

theorem finds_replace (find replaceWith : Bytes) :
    Finds (searchFrom find) (fun str index => str.take index ++ replaceWith ++ str.drop (index + find.length))
      replaceWith.length find replaceWith :=
  ⟨rfl, fun _ _ _ => rfl, rfl⟩

theorem finds_replaceChar (find : UInt8) (replaceWith : Bytes) :
    Finds (findChar · find) (fun str index => str.take index ++ replaceWith ++ str.drop (index + 1))
      replaceWith.length [find] replaceWith :=
  ⟨findChar_eq find, fun _ _ _ => rfl, rfl⟩

theorem finds_replaceCharByChar (find replaceWith : UInt8) :
    Finds (findChar · find) (fun str index => str.set index replaceWith) 1 [find] [replaceWith] := by
  refine ⟨findChar_eq find, fun str i hi => ?_, rfl⟩
  have hlt : i < str.length := hi
  rw [List.set_eq_take_append_cons_drop, if_pos hlt, List.append_assoc]
  rfl

/-- An empty string is found at every place. -/
theorem replace_nil_running {replaceWith : Bytes} {fuel : Nat} {str : Bytes} {index : Nat} (h : index ≤ str.length) :
    replaceLoop (searchFrom []) (fun str index => str.take index ++ replaceWith ++ str.drop (index + 0))
      replaceWith.length fuel str (some index) = none := by
  induction fuel generalizing str index with
  | zero => rfl
  | succ fuel ih =>
    have hle : index + replaceWith.length ≤ (str.take index ++ replaceWith ++ str.drop (index + 0)).length := by
      simp only [List.length_append, List.length_take_of_le h]
      omega
    rw [replaceLoop, searchFrom_nil hle]
    exact ih hle

/-- What a call of `replace` owes: it ends with the replaced text, and for one character the other overloads give the
same. -/
structure ReplaceRight (str find replaceWith : Bytes) : Prop where
  returns : ∃ r, Returns (replace str find replaceWith) r ∧ Replaced find replaceWith str r
  char : ∀ c, find = [c] → ∀ r, Returns (replace str find replaceWith) r ↔ Returns (replaceChar str c replaceWith) r
  charByChar : ∀ c d, find = [c] → replaceWith = [d] → ∀ r,
    Returns (replace str find replaceWith) r ↔ Returns (replaceCharByChar str c d) r

/-- **`replace` is right exactly for what is not empty.** -/
theorem replace_iff (str find replaceWith : Bytes) : ReplaceRight str find replaceWith ↔ find ≠ [] := by
  constructor
  · rintro h rfl
    obtain ⟨r, ⟨fuel, hr⟩, -⟩ := h.returns
    rw [replace, searchFrom_nil (Nat.zero_le _), List.length_nil, replace_nil_running (Nat.zero_le _)] at hr
    cases hr
  · intro hfind
    refine ⟨(finds_replace find replaceWith).exists_returns hfind str, ?_, ?_⟩
    · rintro c rfl r
      exact ((finds_replace [c] replaceWith).returns_iff hfind).trans
        ((finds_replaceChar c replaceWith).returns_iff hfind).symm
    · rintro c d rfl rfl r
      exact ((finds_replace [c] [d]).returns_iff hfind).trans
        ((finds_replaceCharByChar c d).returns_iff hfind).symm

example : replace (str "a\r\nb\r\n") (str "\r\n") (str "\\r\\n") 3 = some (str "a\\r\\nb\\r\\n") := by decide +kernel

/-- With an empty `find` the loop does not end. -/
theorem replace_runs_on : ¬ ReplaceRight (str "ab") [] (str "-") ∧
    ∀ r, ¬ Returns (replace (str "ab") [] (str "-")) r := by
  have hrun : ∀ fuel, replace (str "ab") [] (str "-") fuel = none := fun fuel => by
    rw [replace, searchFrom_nil (Nat.zero_le _)]
    exact replace_nil_running (Nat.zero_le _)
  refine ⟨fun h => ?_, ?_⟩
  · obtain ⟨r, ⟨fuel, hr⟩, -⟩ := h.returns
    rw [hrun] at hr
    cases hr
  · rintro r ⟨fuel, hr⟩
    rw [hrun] at hr
    cases hr

end Sherry
