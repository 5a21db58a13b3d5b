import OtaServer.Lib.Counts
import OtaServer.Lib.MachineInt

/-!
# Transfers of a fixed size (`sherry/stream.cc`)

`readFixSize` and `writeFixSize` repeat `read` or `write` until `length` bytes are through. They keep the result in a
`size_t`, where an error is a large count, and return `length` through an `int`.

* `FixSizeForm`: the four functions. `request`, `advance`: where they differ.
* `FixSize`: a call. `round`: one pass of its loop. `after`: the call after the first results.
* `fixSized_iff`: when a call does what it is for, for every length and every sequence of results.
-/

namespace Sherry.Stream

open Lib

/-- The functions: `readFixSize` and `writeFixSize`, for a buffer and for a `ByteArray`. -/
inductive FixSizeForm where
  | readBuffer | readByteArray | writeBuffer | writeByteArray
  deriving DecidableEq

/-- A call that is under way, or has returned. -/
structure FixSize where
  /-- Where the next byte belongs: `offset`, or how far the `ByteArray` has been moved. -/
  offset : Nat := 0
  left : Nat
  /-- The places of the bytes that were transferred, in order. -/
  moved : List Nat := []
  returned : Option Int := none

/-- The length that is passed to `read` or `write`. `readFixSize(ByteArray)` passes `length`. -/
def FixSizeForm.request (form : FixSizeForm) (length left : Nat) : Nat :=
  match form with
  | readBuffer | writeBuffer | writeByteArray => left
  | readByteArray => length

/-- The place behind a result: `offset += len` with a `size_t`, or `setPosition` if the result is positive. -/
def FixSizeForm.advance (form : FixSizeForm) (offset : Nat) (result : Int) : Nat :=
  match form with
  | readBuffer | writeBuffer => ((offset + result) % 2 ^ 64).toNat
  | readByteArray | writeByteArray => offset + result.toNat

namespace FixSize

/-- The condition of the loop, and the `return` behind it. -/
def test (length : Nat) (s : FixSize) : FixSize :=
  if s.left > 0 then s else { s with returned := some (toInt length) }

/-- The body of the loop, with the result of its `read` or `write`. -/
def round (form : FixSizeForm) (length : Nat) (s : FixSize) (result : Int) : FixSize :=
  let s := { s with moved := s.moved ++ List.range' s.offset result.toNat }
  let len := (result % 2 ^ 64).toNat
  if len = 0 then { s with returned := some (toInt len) }
  else test length { s with offset := form.advance s.offset result, left := ((s.left - result) % 2 ^ 64).toNat }

/-- A call for `length` bytes after its first `k` results. -/
def after (form : FixSizeForm) (length : Nat) (results : Nat → Int) : Nat → FixSize
  | 0 => test length { left := length }
  | k + 1 =>
    let s := after form length results k
    if s.returned.isSome then s else round form length s (results k)

end FixSize

open FixSize

/-- Each result of a call that has not returned is `-1`, 0, or at most what was requested. -/
def Results (form : FixSizeForm) (n : Nat) (results : Nat → Int) : Prop :=
  ∀ k, (after form n results k).returned = none →
    results k = -1 ∨ 0 ≤ results k ∧ results k ≤ form.request n (after form n results k).left

/-- The call returns. It returns `n` exactly if the bytes from the first to the last were transferred, and otherwise
its last result, which is the first that is not positive. No request is for more than what is missing. -/
def FixSized (form : FixSizeForm) (n : Nat) (results : Nat → Int) : Prop :=
  ∃ k r, (after form n results k).returned = some r ∧ (r = n ↔ (after form n results k).moved = List.range n) ∧
    (r ≠ n → ∃ j, k = j + 1 ∧ (∀ i < j, 0 < results i) ∧ results j ≤ 0 ∧ r = results j) ∧
    ∀ j < k, (after form n results j).returned = none ∧
      form.request n (after form n results j).left ≤ n - (after form n results j).moved.length

/-- No error comes before the last byte or a result 0, and a length that is transferred is an `int`. Where all of
`length` is requested again, there is one call only. An error of a call for 2^64 - 1 bytes ends the loop. -/
def Faultless (form : FixSizeForm) (n : Nat) (results : Nat → Int) : Prop :=
  n = 2 ^ 64 - 1 ∧ results 0 = -1 ∨
  ∃ k, (∀ j < k, 0 < results j) ∧
    (passed results k = n ∧ n < 2 ^ 31 ∧ (form = .readByteArray → k ≤ 1) ∨
      passed results k < n ∧ results k = 0 ∧ (form = .readByteArray → k = 0))

/-! ## One result -/

namespace FixSize

variable {form : FixSizeForm} {n : Nat} {s : FixSize} {r : Int}

theorem test_of_pos (h : 0 < s.left) : test n s = s := if_pos h

theorem round_pos (hr : 0 < r) (hle : r ≤ s.left) (hlt : s.offset + s.left < 2 ^ 64) :
    round form n s r = test n { s with
      offset := s.offset + r.toNat, left := s.left - r.toNat, moved := s.moved ++ List.range' s.offset r.toNat } := by
  have hlen : ¬(r % 2 ^ 64).toNat = 0 := by omega
  have hadvance : form.advance s.offset r = s.offset + r.toNat := by
    unfold FixSizeForm.advance
    split <;> omega
  have hleft : ((s.left - r) % 2 ^ 64).toNat = s.left - r.toNat := by omega
  rw [round, if_neg hlen, hadvance, hleft]

theorem round_zero : round form n s 0 = { s with returned := some 0 } := by
  have hmoved : s.moved ++ List.range' s.offset 0 = s.moved := List.append_nil _
  unfold round
  simp only [Int.toNat_zero, hmoved]
  rfl

/-- A result that does not count makes `left` larger. -/
theorem round_error : round form n s (-1) = test n { s with
    offset := form.advance s.offset (-1), left := (s.left + 1) % 2 ^ 64 } := by
  have hmoved : s.moved ++ List.range' s.offset 0 = s.moved := List.append_nil _
  have hlen : ¬((-1 : Int) % 2 ^ 64).toNat = 0 := by decide
  have hleft : (((s.left : Int) - -1) % 2 ^ 64).toNat = (s.left + 1) % 2 ^ 64 := by omega
  have hcount : (-1 : Int).toNat = 0 := rfl
  rw [round, if_neg hlen]
  simp only [hcount, hmoved, hleft]

/-- What a result transfers, it transfers from the offset on. -/
theorem round_moved : (round form n s r).moved = s.moved ++ List.range' s.offset r.toNat := by
  have htest : ∀ s' : FixSize, (test n s').moved = s'.moved := fun s' => by
    rw [test]
    split <;> rfl
  rw [round]
  dsimp only
  split
  · rfl
  · rw [htest]

theorem round_running (hs : s.returned = none) (hlen : ¬(r % 2 ^ 64).toNat = 0)
    (hleft : 0 < ((s.left - r) % 2 ^ 64).toNat) : (round form n s r).returned = none := by
  rw [round, if_neg hlen, test_of_pos hleft]
  exact hs

/-! ## Results that count -/

variable {results : Nat → Int} {k : Nat}

/-- A call after results that count. -/
def counted (n : Nat) (results : Nat → Int) (k : Nat) : FixSize :=
  test n { offset := passed results k, left := n - passed results k, moved := List.range (passed results k) }

theorem counted_of_lt (h : passed results k < n) : counted n results k =
    { offset := passed results k, left := n - passed results k, moved := List.range (passed results k) } :=
  test_of_pos (Nat.sub_pos_of_lt h)

theorem counted_of_eq (h : passed results k = n) : (counted n results k).returned = some (toInt n) ∧
    (counted n results k).moved = List.range n := by
  rw [counted, h, Nat.sub_self]
  exact ⟨rfl, rfl⟩

theorem after_succ (h : (after form n results k).returned = none) :
    after form n results (k + 1) = round form n (after form n results k) (results k) := by
  rw [after, h]
  rfl

/-- As long as the results count and do not go too far, the call is where the counts say. -/
theorem after_counts (form : FixSizeForm) (hn : n < 2 ^ 64) (hk : ∀ j < k, 0 < results j ∧ passed results j < n)
    (hle : passed results k ≤ n) : after form n results k = counted n results k := by
  induction k with
  | zero => rfl
  | succ k ih =>
    obtain ⟨hpos, hlt⟩ := hk k (Nat.lt_succ_self k)
    have hafter := ih (fun j hj => hk j (Nat.lt_succ_of_lt hj)) (Nat.le_of_lt hlt)
    rw [counted_of_lt hlt] at hafter
    rw [passed] at hle
    rw [after_succ (by rw [hafter]), hafter, round_pos hpos (by dsimp only; omega) (by dsimp only; omega), counted,
      range_append_range', passed, Nat.sub_add_eq]

/-! ## Calls that have returned -/

theorem after_of_returned {j : Nat} (h : (after form n results k).returned ≠ none) (hj : k ≤ j) :
    after form n results j = after form n results k := by
  induction hj with
  | refl => rfl
  | step _ ih =>
    rw [after, ih]
    exact if_pos (Option.isSome_iff_ne_none.mpr h)

/-- A round returns 0 for a result 0, and `length` behind the loop. -/
theorem round_returned {v : Int} (hs : s.returned = none) (h : (round form n s r).returned = some v) :
    (r % 2 ^ 64).toNat = 0 ∧ v = 0 ∨ v = toInt n := by
  unfold round at h
  dsimp only at h
  split at h
  · rename_i hlen
    rw [hlen] at h
    exact .inl ⟨hlen, (Option.some.inj h).symm⟩
  · rw [test] at h
    split at h
    · exact absurd (hs.symm.trans h) (Option.some_ne_none v).symm
    · exact .inr (Option.some.inj h).symm

end FixSize

variable {form : FixSizeForm} {n : Nat} {results : Nat → Int} {k : Nat}

theorem request_counts (form : FixSizeForm) (hn : n < 2 ^ 64) (hk : ∀ j < k, 0 < results j ∧ passed results j < n)
    (hlt : passed results k < n) (hone : form = .readByteArray → k = 0) : (after form n results k).returned = none ∧
      form.request n (after form n results k).left ≤ n - (after form n results k).moved.length := by
  rw [after_counts form hn hk (Nat.le_of_lt hlt), counted_of_lt hlt]
  refine ⟨rfl, ?_⟩
  dsimp only
  rw [List.length_range]
  cases form with
  | readBuffer | writeBuffer | writeByteArray => exact Nat.le_refl _
  | readByteArray =>
    obtain rfl := hone rfl
    exact Nat.le_refl n

/-- The results do not go too far, if one call is all that is made of a `readFixSize(ByteArray)`. -/
theorem Results.passed_le (h : Results form n results) (hn : n < 2 ^ 64)
    (hk : ∀ j < k, 0 < results j ∧ passed results j < n) (hone : form = .readByteArray → k ≤ 1) :
    passed results k ≤ n := by
  cases k with
  | zero => exact Nat.zero_le n
  | succ k =>
    obtain ⟨hpos, hlt⟩ := hk k (Nat.lt_succ_self k)
    have hbefore : ∀ j < k, 0 < results j ∧ passed results j < n := fun j hj => hk j (Nat.lt_succ_of_lt hj)
    have hone' : form = .readByteArray → k = 0 := fun hform => Nat.le_zero.mp (Nat.le_of_succ_le_succ (hone hform))
    obtain ⟨hrunning, hreq⟩ := request_counts form hn hbefore hlt hone'
    have hle : results k ≤ form.request n (after form n results k).left := by
      obtain herr | ⟨-, hle⟩ := h k hrunning
      · omega
      · exact hle
    rw [after_counts form hn hbefore (Nat.le_of_lt hlt), counted_of_lt hlt] at hreq hle
    rw [List.length_range] at hreq
    rw [passed]
    omega

theorem fixSized_iff_of_returned {r : Int} (hr : (after form n results k).returned = some r)
    (hbefore : ∀ j < k, (after form n results j).returned = none ∧
      form.request n (after form n results j).left ≤ n - (after form n results j).moved.length) :
    FixSized form n results ↔ (r = n ↔ (after form n results k).moved = List.range n) ∧
      (r ≠ n → ∃ j, k = j + 1 ∧ (∀ i < j, 0 < results i) ∧ results j ≤ 0 ∧ r = results j) := by
  constructor
  · rintro ⟨k', r', hr', hall, hfirst, hrunning⟩
    obtain hlt | rfl | hlt := Nat.lt_trichotomy k' k
    · rw [(hbefore k' hlt).1] at hr'
      exact absurd hr' (Option.some_ne_none r').symm
    · obtain rfl := Option.some_inj.mp (hr.symm.trans hr')
      exact ⟨hall, hfirst⟩
    · rw [(hrunning k hlt).1] at hr
      exact absurd hr (Option.some_ne_none r).symm
  · rintro ⟨hall, hfirst⟩
    exact ⟨k, r, hr, hall, hfirst, hbefore⟩

/-! ## How a call ends -/

theorem fixSized_of_passed (hn : n < 2 ^ 64) (hk : ∀ j < k, 0 < results j ∧ passed results j < n)
    (hone : form = .readByteArray → k ≤ 1) (hpassed : passed results k = n) :
    FixSized form n results ↔ n < 2 ^ 31 := by
  have hafter := after_counts form hn hk (Nat.le_of_eq hpassed)
  obtain ⟨hr, hmoved⟩ := counted_of_eq hpassed
  rw [← hafter] at hr hmoved
  have hreq : ∀ j < k, (after form n results j).returned = none ∧
      form.request n (after form n results j).left ≤ n - (after form n results j).moved.length := fun j hj =>
    request_counts form hn (fun i hi => hk i (Nat.lt_trans hi hj)) (hk j hj).2 fun hform =>
      Nat.lt_one_iff.mp (Nat.lt_of_lt_of_le hj (hone hform))
  rw [fixSized_iff_of_returned hr hreq, hmoved]
  constructor
  · rintro ⟨hall, -⟩
    have hint : toInt n = n := hall.mpr rfl
    by_contra hge
    have hlt : toInt n < n := toInt_lt_of_wraps (by omega)
    omega
  · intro hlt
    have hint : toInt n = n := toInt_of_lt hlt
    exact ⟨iff_of_true hint rfl, fun hne => absurd hint hne⟩

theorem fixSized_of_returned (hn : n < 2 ^ 64) (hk : ∀ j < k, 0 < results j ∧ passed results j < n)
    (hone : form = .readByteArray → k = 0) (hlt : passed results k < n) (hle : results k ≤ 0)
    (hr : (after form n results (k + 1)).returned = some (results k)) : FixSized form n results := by
  have hreq : ∀ j < k + 1, (after form n results j).returned = none ∧
      form.request n (after form n results j).left ≤ n - (after form n results j).moved.length := by
    intro j hj
    refine request_counts form hn (fun i hi => hk i (by omega)) ?_ fun hform => ?_
    · exact Nat.lt_of_le_of_lt (passed_mono (Nat.le_of_lt_succ hj)) hlt
    · have := hone hform
      omega
  have hmoved : (after form n results (k + 1)).moved = List.range (passed results k) := by
    have hafter := after_counts form hn hk (Nat.le_of_lt hlt)
    rw [counted_of_lt hlt] at hafter
    have hcount : (results k).toNat = 0 := Int.toNat_of_nonpos hle
    rw [after_succ (by rw [hafter]), round_moved, hafter, hcount]
    exact List.append_nil _
  rw [fixSized_iff_of_returned hr hreq]
  have hne : results k ≠ n := by omega
  refine ⟨iff_of_false hne fun hall => ?_, fun _ => ⟨k, rfl, fun i hi => (hk i hi).1, hle, rfl⟩⟩
  have hlen := congrArg List.length (hmoved.symm.trans hall)
  rw [List.length_range, List.length_range] at hlen
  omega

/-- A call that goes on goes on with a request for what is missing. -/
theorem FixSized.request_le (h : FixSized form n results)
    (hrunning : ∀ j ≤ k, (after form n results j).returned = none) :
    form.request n (after form n results k).left ≤ n - (after form n results k).moved.length := by
  obtain ⟨k', r, hr, -, -, hreq⟩ := h
  have hlt : k < k' := by
    by_contra hge
    rw [hrunning k' (Nat.le_of_not_lt hge)] at hr
    exact absurd hr (Option.some_ne_none r).symm
  exact (hreq k hlt).2

/-- After an error the call goes on, with one byte more to do. -/
theorem after_error (form : FixSizeForm) (hn : n < 2 ^ 64) (hk : ∀ j < k, 0 < results j ∧ passed results j < n)
    (hlt : passed results k < n) (herr : results k = -1) (hend : ¬(n = 2 ^ 64 - 1 ∧ k = 0)) :
    (after form n results (k + 1)).returned = none ∧ (after form n results (k + 1)).left = n - passed results k + 1 ∧
      (after form n results (k + 1)).moved = List.range (passed results k) := by
  have hle := le_passed fun j hj => (hk j hj).1
  have hafter := after_counts form hn hk (Nat.le_of_lt hlt)
  rw [counted_of_lt hlt] at hafter
  have hleft : (n - passed results k + 1) % 2 ^ 64 = n - passed results k + 1 := Nat.mod_eq_of_lt (by omega)
  rw [after_succ (by rw [hafter]), herr, round_error, hafter, hleft, test_of_pos (Nat.succ_pos _)]
  exact ⟨rfl, rfl, rfl⟩

/-- After an error more is requested than what is missing. -/
theorem not_fixSized_of_error (hn : n < 2 ^ 64) (hk : ∀ j < k, 0 < results j ∧ passed results j < n)
    (hform : form ≠ .readByteArray) (hlt : passed results k < n) (herr : results k = -1)
    (hend : ¬(n = 2 ^ 64 - 1 ∧ k = 0)) : ¬FixSized form n results := by
  intro h
  obtain ⟨hr, hleft, hmoved⟩ := after_error form hn hk hlt herr hend
  have hreq := h.request_le (k := k + 1) fun j hj => by
    obtain hj | rfl := Nat.le_succ_iff.mp hj
    · refine (request_counts form hn (fun i hi => hk i (by omega)) ?_ fun hform' => absurd hform' hform).1
      exact Nat.lt_of_le_of_lt (passed_mono hj) hlt
    · exact hr
  rw [hleft, hmoved, List.length_range] at hreq
  cases form with
  | readBuffer | writeBuffer | writeByteArray =>
    rw [FixSizeForm.request] at hreq
    omega
  | readByteArray => exact hform rfl

/-- A `readFixSize(ByteArray)` that makes another call after it has read something requests what it has already read.
-/
theorem not_fixSized_of_second (hn : n < 2 ^ 64) (hpos : 0 < results 0) (hlt : passed results 1 < n) :
    ¬FixSized .readByteArray n results := by
  intro h
  have hcount : passed results 1 = (results 0).toNat := Nat.zero_add _
  have hzero : passed results 0 < n := Nat.zero_lt_of_lt hlt
  have hk : ∀ j < 1, 0 < results j ∧ passed results j < n := by
    intro j hj
    obtain rfl := Nat.lt_one_iff.mp hj
    exact ⟨hpos, hzero⟩
  have hone := after_counts .readByteArray hn hk (Nat.le_of_lt hlt)
  rw [counted_of_lt hlt] at hone
  have hreq := h.request_le (k := 1) fun j hj => by
    obtain rfl | rfl := Nat.le_one_iff_eq_zero_or_eq_one.mp hj
    · exact (request_counts .readByteArray hn (fun i hi => absurd hi (Nat.not_lt_zero i)) hzero fun _ => rfl).1
    · rw [hone]
  rw [hone, FixSizeForm.request, List.length_range] at hreq
  omega

/-- As long as nothing is read, all results are errors. -/
theorem after_errors (h : Results .readByteArray n results) (hpos : 0 < n) (hn : n < 2 ^ 64)
    (hk : ∀ j ≤ k, (after .readByteArray n results j).returned = none ∧
      (after .readByteArray n results j).moved = []) :
    (after .readByteArray n results k).left = n + k ∧ n + k < 2 ^ 64 := by
  induction k with
  | zero =>
    rw [after, test_of_pos hpos]
    exact ⟨rfl, hn⟩
  | succ k ih =>
    obtain ⟨hleft, hlt⟩ := ih fun j hj => hk j (Nat.le_succ_of_le hj)
    obtain ⟨hrunning, -⟩ := hk k (Nat.le_succ k)
    obtain ⟨hrunning', hmoved⟩ := hk (k + 1) (Nat.le_refl _)
    rw [after_succ hrunning] at hrunning' hmoved ⊢
    have herr : results k = -1 := by
      have hcount : (results k).toNat = 0 := by
        rw [round_moved] at hmoved
        have hlen := congrArg List.length (List.append_eq_nil_iff.mp hmoved).2
        rwa [List.length_range'] at hlen
      have hne : results k ≠ 0 := by
        intro hzero
        rw [hzero, round_zero] at hrunning'
        exact absurd hrunning' (Option.some_ne_none 0)
      obtain herr | ⟨hge, -⟩ := h k hrunning
      · exact herr
      · omega
    rw [herr, round_error, hleft, test] at hrunning' ⊢
    dsimp only at hrunning' ⊢
    split at hrunning'
    · rename_i hmod
      rw [if_pos hmod]
      dsimp only
      omega
    · exact absurd hrunning' (Option.some_ne_none _)

/-- A `readFixSize(ByteArray)` whose first result is an error does not know it. -/
theorem not_fixSized_of_first_error (h : Results .readByteArray n results) (hpos : 0 < n) (hn : n < 2 ^ 64 - 1)
    (herr : results 0 = -1) : ¬FixSized .readByteArray n results := by
  rintro ⟨k, r, hr, hall, hfirst, hreq⟩
  have hrunning : ∀ j < k, (after .readByteArray n results j).returned = none ∧
      (after .readByteArray n results j).moved = [] := by
    intro j hj
    obtain ⟨hnone, hle⟩ := hreq j hj
    rw [FixSizeForm.request] at hle
    exact ⟨hnone, List.eq_nil_of_length_eq_zero (by omega)⟩
  cases k with
  | zero =>
    rw [after, test_of_pos hpos] at hr
    exact absurd hr (Option.some_ne_none r).symm
  | succ m =>
    obtain ⟨hleft, hlt⟩ := after_errors h hpos (by omega) fun j hj => hrunning j (Nat.lt_succ_of_le hj)
    obtain ⟨hnone, hmoved⟩ := hrunning m (Nat.lt_succ_self m)
    -- what is returned is not the first result, so everything was read by the last call
    have hlast : results m = n ∨ m = 0 := by
      by_cases hrn : r = n
      · have hlen := congrArg List.length (hall.mp hrn)
        rw [after_succ hnone, round_moved, hmoved, List.nil_append, List.length_range', List.length_range] at hlen
        exact .inl (by omega)
      · obtain ⟨j, hj, hcounts, -⟩ := hfirst hrn
        obtain rfl : m = j := Nat.succ.inj hj
        refine .inr (Nat.eq_zero_of_not_pos fun hm => ?_)
        have := hcounts 0 hm
        omega
    have hrun : (after .readByteArray n results (m + 1)).returned = none := by
      rw [after_succ hnone]
      obtain hm | rfl := hlast
      · rw [hm]
        have hm₀ : m ≠ 0 := by
          rintro rfl
          omega
        exact round_running hnone (by omega) (by omega)
      · rw [herr]
        exact round_running hnone (by omega) (by omega)
    rw [hrun] at hr
    exact absurd hr (Option.some_ne_none r).symm

/-! ## The condition -/

theorem faultless_of_passed (hk : ∀ j < k, 0 < results j ∧ passed results j < n) (hpassed : passed results k = n) :
    Faultless form n results ↔ n < 2 ^ 31 ∧ (form = .readByteArray → k ≤ 1) := by
  constructor
  · rintro (⟨rfl, herr⟩ | ⟨k', hcounts, hend⟩)
    · obtain rfl : k = 0 := Nat.eq_zero_of_not_pos fun hpos => by
        have := (hk 0 hpos).1
        omega
      rw [passed] at hpassed
      omega
    · have hle : k ≤ k' := by
        by_contra hgt
        obtain ⟨hpos, hlt⟩ := hk k' (Nat.lt_of_not_le hgt)
        omega
      have hmono : passed results k ≤ passed results k' := passed_mono hle
      obtain ⟨-, hlt, hone⟩ | ⟨hlt, -⟩ := hend
      · exact ⟨hlt, fun hform => Nat.le_trans hle (hone hform)⟩
      · omega
  · rintro ⟨hlt, hone⟩
    exact .inr ⟨k, fun j hj => (hk j hj).1, .inl ⟨hpassed, hlt, hone⟩⟩

theorem faultless_of_stop (hk : ∀ j < k, 0 < results j ∧ passed results j < n) (hlt : passed results k < n)
    (hle : results k ≤ 0) : Faultless form n results ↔
      n = 2 ^ 64 - 1 ∧ results 0 = -1 ∨ results k = 0 ∧ (form = .readByteArray → k = 0) := by
  refine or_congr_right ⟨?_, ?_⟩
  · rintro ⟨k', hcounts, hend⟩
    have hle' : k' ≤ k := by
      by_contra hgt
      have := hcounts k (Nat.lt_of_not_le hgt)
      omega
    have hmono : passed results k' ≤ passed results k := passed_mono hle'
    obtain ⟨hpassed, -⟩ | ⟨-, hzero, hone⟩ := hend
    · omega
    · obtain rfl : k' = k := by
        by_contra hne
        have := (hk k' (by omega)).1
        omega
      exact ⟨hzero, hone⟩
  · rintro ⟨hzero, hone⟩
    exact ⟨k, fun j hj => (hk j hj).1, .inr ⟨hlt, hzero, hone⟩⟩

theorem not_faultless_of_second (hpos : 0 < results 0) (hlt : passed results 1 < n) :
    ¬Faultless .readByteArray n results := by
  rintro (⟨-, herr⟩ | ⟨k, -, ⟨hpassed, -, hone⟩ | ⟨-, hzero, hone⟩⟩)
  · omega
  · have hle : passed results k ≤ passed results 1 := passed_mono (hone rfl)
    omega
  · rw [hone rfl] at hzero
    omega

/-- An error of a call for 2^64 - 1 bytes makes `left` 0, and `length` is `-1` as an `int`. -/
theorem after_largest (form : FixSizeForm) (herr : results 0 = -1) :
    (after form (2 ^ 64 - 1) results 1).returned = some (-1) := by
  have hstart : after form (2 ^ 64 - 1) results 0 = { left := 2 ^ 64 - 1 } := rfl
  rw [after_succ (by rw [hstart]), herr, round_error, hstart]
  rfl

theorem fixSized_iff_of_stop (hn : n < 2 ^ 64) (h : Results form n results)
    (hk : ∀ j < k, 0 < results j ∧ passed results j < n) (hone : form = .readByteArray → k = 0)
    (hlt : passed results k < n) (hle : results k ≤ 0) : FixSized form n results ↔ Faultless form n results := by
  obtain ⟨hrunning, -⟩ := request_counts form hn hk hlt hone
  rw [faultless_of_stop hk hlt hle]
  obtain herr | ⟨hge, -⟩ := h k hrunning
  · by_cases hlargest : n = 2 ^ 64 - 1 ∧ k = 0
    · obtain ⟨rfl, rfl⟩ := hlargest
      refine iff_of_true (fixSized_of_returned hn hk hone hlt hle ?_) (.inl ⟨rfl, herr⟩)
      rw [after_largest form herr, herr]
    · refine iff_of_false ?_ ?_
      · by_cases hform : form = .readByteArray
        · obtain rfl := hone hform
          subst hform
          exact not_fixSized_of_first_error h hlt (by omega) herr
        · exact not_fixSized_of_error hn hk hform hlt herr hlargest
      · rintro (⟨rfl, hfirst⟩ | ⟨hzero, -⟩)
        · refine hlargest ⟨rfl, Nat.eq_zero_of_not_pos fun hpos => ?_⟩
          have := (hk 0 hpos).1
          omega
        · omega
  · have hzero : results k = 0 := by omega
    refine iff_of_true (fixSized_of_returned hn hk hone hlt hle ?_) (.inr ⟨hzero, hone⟩)
    rw [after_succ hrunning, hzero, round_zero]

/-- A call transfers what it is to transfer, or stops where it is to stop, exactly if it meets none of the faults. -/
theorem fixSized_iff (form : FixSizeForm) (hn : n < 2 ^ 64) (h : Results form n results) :
    FixSized form n results ↔ Faultless form n results := by
  by_cases hsecond : form = .readByteArray ∧ 0 < results 0 ∧ passed results 1 < n
  · obtain ⟨rfl, hpos, hlt⟩ := hsecond
    exact iff_of_false (not_fixSized_of_second hn hpos hlt) (not_faultless_of_second hpos hlt)
  obtain ⟨k, hk, hend⟩ := exists_end results n
  have hfirst : form = .readByteArray → 1 ≤ k → n ≤ passed results 1 := fun hform hk₁ =>
    Nat.le_of_not_lt fun hlt => hsecond ⟨hform, (hk 0 hk₁).1, hlt⟩
  have hone : form = .readByteArray → k ≤ 1 := by
    intro hform
    by_contra hgt
    have hle := hfirst hform (by omega)
    have hlt := (hk 1 (by omega)).2
    omega
  obtain hlt | heq := Nat.lt_or_eq_of_le (h.passed_le hn hk hone)
  · refine fixSized_iff_of_stop hn h hk (fun hform => ?_) hlt (hend.resolve_left (Nat.not_le.mpr hlt))
    by_contra hne
    have hle := hfirst hform (by omega)
    have hmono : passed results 1 ≤ passed results k := passed_mono (by omega)
    omega
  · rw [fixSized_of_passed hn hk hone heq, faultless_of_passed hk heq, and_iff_left hone]

/-- A call that goes on has something left. -/
theorem left_pos (h : (after form n results k).returned = none) : 0 < (after form n results k).left := by
  have htest : ∀ s : FixSize, (test n s).returned = none → 0 < (test n s).left := by
    intro s hs
    by_cases hpos : 0 < s.left
    · rwa [test_of_pos hpos]
    · rw [test, if_neg hpos] at hs
      exact absurd hs (Option.some_ne_none _)
  cases k with
  | zero => exact htest _ h
  | succ k =>
    by_cases hrunning : (after form n results k).returned = none
    · rw [after_succ hrunning] at h ⊢
      unfold FixSize.round at h ⊢
      dsimp only at h ⊢
      split at h
      · exact absurd h (Option.some_ne_none _)
      · rename_i hlen
        rw [if_neg hlen]
        exact htest _ h
    · rw [after, if_pos (Option.isSome_iff_ne_none.mpr hrunning)] at h
      exact absurd h hrunning

/-- Bytes that come one by one. -/
theorem results_one (form : FixSizeForm) (hpos : 0 < n) {results : Nat → Int}
    (hone : ∀ k, results k = -1 ∨ results k = 1) : Results form n results := by
  intro k hrunning
  have hleft := left_pos hrunning
  obtain herr | hr := hone k
  · exact .inl herr
  · rw [hr]
    refine .inr ⟨by decide, ?_⟩
    unfold FixSizeForm.request
    split <;> omega

/-- Two bytes that are sent one by one. -/
theorem fixSized_two : FixSized .writeByteArray 2 fun _ => 1 :=
  (fixSized_iff .writeByteArray (by decide) (results_one .writeByteArray (by decide) fun _ => .inr rfl)).mpr
    (.inr ⟨2, fun _ _ => Int.one_pos, .inl ⟨rfl, by decide, fun h => absurd h (by decide)⟩⟩)

/-- The first `read` of a `readFixSize` of 10 bytes fails: the next one is for 11 bytes, and for the byte in front of
the buffer first. A `readFixSize(ByteArray)` of 2 bytes that has read one requests two again. -/
theorem fixSized_fails :
    let failing : Nat → Int := fun k => if k = 0 then -1 else 1
    let single : Nat → Int := fun _ => 1
    (Results .readBuffer 10 failing ∧ (after .readBuffer 10 failing 1).returned = none ∧
      (after .readBuffer 10 failing 1).left = 11 ∧ (after .readBuffer 10 failing 1).offset = 2 ^ 64 - 1 ∧
      ¬FixSized .readBuffer 10 failing) ∧
    Results .readByteArray 2 single ∧ (after .readByteArray 2 single 1).moved = [0] ∧
      FixSizeForm.request .readByteArray 2 (after .readByteArray 2 single 1).left = 2 ∧
      ¬FixSized .readByteArray 2 single := by
  refine ⟨⟨?_, by decide, by decide, by decide, ?_⟩, ?_, by decide, by decide, ?_⟩
  · refine results_one .readBuffer (by decide) fun k => ?_
    by_cases hk : k = 0
    · exact .inl (if_pos hk)
    · exact .inr (if_neg hk)
  · exact not_fixSized_of_error (k := 0) (by decide) (fun j hj => absurd hj (Nat.not_lt_zero j)) (by decide)
      (by decide) rfl (by decide)
  · exact results_one .readByteArray (by decide) fun _ => .inr rfl
  · exact not_fixSized_of_second (by decide) (by decide) (by decide)

/-! ## What a call returns, and where the bytes are -/

theorem left_lt (form : FixSizeForm) (results : Nat → Int) (hn : n < 2 ^ 64) (k : Nat) :
    (after form n results k).left < 2 ^ 64 := by
  have htest : ∀ s : FixSize, (test n s).left = s.left := by
    intro s
    rw [test]
    split <;> rfl
  induction k with
  | zero =>
    rw [after, htest]
    exact hn
  | succ k ih =>
    rw [after]
    split
    · exact ih
    · rw [FixSize.round]
      dsimp only
      split
      · exact ih
      · rw [htest]
        dsimp only
        omega

/-- What is returned is a result 0, or `length` behind the loop. -/
theorem returned_cases (hn : n < 2 ^ 64) (h : Results form n results) {v : Int}
    (hr : (after form n results k).returned = some v) :
    (v = 0 ∧ ∃ j, (after form n results j).returned = none ∧ results j = 0) ∨ v = toInt n := by
  induction k with
  | zero =>
    rw [after, test] at hr
    split at hr
    · exact absurd hr (Option.some_ne_none v).symm
    · exact .inr (Option.some.inj hr).symm
  | succ k ih =>
    by_cases hrunning : (after form n results k).returned = none
    · rw [after_succ hrunning] at hr
      obtain ⟨hlen, rfl⟩ | hv := round_returned hrunning hr
      · refine .inl ⟨rfl, k, hrunning, ?_⟩
        have hlt := left_lt form results hn k
        have hreq : form.request n (after form n results k).left < 2 ^ 64 := by
          cases form with
          | readBuffer | writeBuffer | writeByteArray => exact hlt
          | readByteArray => exact hn
        obtain herr | ⟨hge, hle⟩ := h k hrunning
        · rw [herr] at hlen
          exact absurd hlen (by decide)
        · omega
      · exact .inr hv
    · rw [after_of_returned hrunning (Nat.le_succ k)] at hr
      exact ih hr

/-- The `c`-th byte of a transfer to a buffer will not be, or is not, at its place. -/
def Displaced (n c : Nat) (s : FixSize) : Prop :=
  (s.moved.length = c ∧ (s.returned = none →
    ∃ e, 0 < e ∧ n - c + e < 2 ^ 64 ∧ s.left = n - c + e ∧ (s.offset + e) % 2 ^ 64 = c)) ∨
  ∃ place, s.moved[c]? = some place ∧ place % 2 ^ 64 ≠ c

/-- An error moves the place of the next byte one to the front. -/
theorem displaced_error {c e : Nat} {s : FixSize} (hlen : s.moved.length = c) (hlt : n - c + e < 2 ^ 64)
    (hleft : s.left = n - c + e) (hoffset : (s.offset + e) % 2 ^ 64 = c) :
    Displaced n c (FixSize.round .readBuffer n s (-1)) := by
  have hmoved : (FixSize.round .readBuffer n s (-1)).moved = s.moved := by
    rw [round_moved]
    exact List.append_nil _
  refine .inl ⟨by rw [hmoved, hlen], fun hnext => ?_⟩
  rw [round_error, hleft, test] at hnext ⊢
  dsimp only at hnext ⊢
  split at hnext
  · rename_i hmod
    rw [if_pos hmod]
    refine ⟨e + 1, Nat.succ_pos e, ?_, ?_, ?_⟩
    · omega
    · dsimp only
      omega
    · dsimp only [FixSizeForm.advance]
      omega
  · exact absurd hnext (Option.some_ne_none _)

theorem Displaced.round {c : Nat} {s : FixSize} {r : Int} (h : Displaced n c s) (hs : s.returned = none)
    (hr : r = -1 ∨ 0 ≤ r) : Displaced n c (FixSize.round .readBuffer n s r) := by
  obtain ⟨hlen, hrunning⟩ | ⟨place, hplace, hne⟩ := h
  · obtain ⟨e, he, hlt, hleft, hoffset⟩ := hrunning hs
    obtain rfl | hge := hr
    · exact displaced_error hlen hlt hleft hoffset
    by_cases hzero : r = 0
    · rw [hzero, round_zero]
      exact .inl ⟨hlen, fun hnext => absurd hnext (Option.some_ne_none 0)⟩
    · -- the byte is transferred, to a place that is `e` in front of its own
      refine .inr ⟨s.offset, ?_, by omega⟩
      obtain ⟨m, hm⟩ : ∃ m, r.toNat = m + 1 := ⟨r.toNat - 1, by omega⟩
      rw [round_moved, ← hlen, List.getElem?_append_right (Nat.le_refl _), Nat.sub_self, hm, List.range'_succ,
        List.getElem?_cons_zero]
  · refine .inr ⟨place, ?_, hne⟩
    have hlt := (List.getElem?_eq_some_iff.mp hplace).1
    rw [round_moved, List.getElem?_append_left hlt]
    exact hplace

/-- After an error the next byte is not at its place any more. -/
theorem displaced_of_error (hn : n < 2 ^ 64) (h : Results .readBuffer n results)
    (hk : ∀ j < k, 0 < results j ∧ passed results j < n) (hlt : passed results k < n) (herr : results k = -1)
    {m : Nat} (hm : k + 1 ≤ m) : Displaced n (passed results k) (after .readBuffer n results m) := by
  induction hm with
  | refl =>
    have hafter := after_counts .readBuffer hn hk (Nat.le_of_lt hlt)
    rw [counted_of_lt hlt] at hafter
    rw [after_succ (by rw [hafter]), herr, hafter]
    refine displaced_error (e := 0) List.length_range ?_ rfl ?_
    · omega
    · dsimp only
      omega
  | step _ ih =>
    rename_i m _
    by_cases hrunning : (after .readBuffer n results m).returned = none
    · rw [after_succ hrunning]
      refine ih.round hrunning ?_
      obtain herr | ⟨hge, -⟩ := h m hrunning
      · exact .inl herr
      · exact .inr hge
    · rw [after_of_returned hrunning (Nat.le_succ m)]
      exact ih

end Sherry.Stream
