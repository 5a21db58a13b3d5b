import OtaServer.Lib.Counts
import OtaServer.Ota.FileDownload

/-!
# Sending a file (`getFileDetail`, `sendFile`)

A file is sent by a chain of callbacks. Each link calls `sendfile` once with the offset and the size that are left,
and registers the next link with what is left then; the last link schedules the handler's fiber. The descriptor of the
file goes from link to link.

* `sendFile`: one link. The result of `sendfile` goes through an `int`.
* `Transfer`: a chain on its way; `Transfer.after`: the chain after its first calls, for any results.
* `transfers_iff`: when a chain sends the file and schedules the fiber. An error of `sendfile` ends the chain without
  scheduling it.
* `Downloads`, `closed_iff`: the descriptors of any number of downloads. Only a failed `fstat` closes one.
-/

namespace Sherry

open Lib Http

namespace OTAHttpManager

/-! ## One transfer -/

/-- What a link of the chain has captured: the offset and the size that is left. -/
structure Link where
  offset : Nat
  fileSize : Nat

/-- What becomes of a link: an error, the fiber is scheduled, or there is a next link. -/
inductive LinkEnd where
  | failed
  | scheduled
  | next (l : Link)

/-- `OTAHttpManager::sendFile`, for a result of `sendfile`. The result is an `ssize_t`, which `Socket::sendFile`
returns as an `int`; `sendfile` itself advances the offset. -/
def sendFile (l : Link) (result : Int) : LinkEnd :=
  if toInt result = -1 then .failed
  else if (l.fileSize - toInt result) % 2 ^ 64 = 0 then .scheduled
  else .next ⟨l.offset + result.toNat, ((l.fileSize - toInt result) % 2 ^ 64).toNat⟩

/-- A chain: its next link, the positions of the bytes that `sendfile` was passed, in order, and how often the fiber
was scheduled. -/
structure Transfer where
  link : Option Link
  sent : List Nat
  scheduled : Nat

namespace Transfer

/-- The chain that `ota_file_download` registers for a file of this size. -/
def start (size : Nat) : Transfer := ⟨some ⟨0, size⟩, [], 0⟩

/-- The next link runs, and `sendfile` has this result. -/
def call (t : Transfer) (result : Int) : Transfer :=
  match t.link with
  | none => t
  | some l =>
    match sendFile l result with
    | .failed => ⟨none, t.sent ++ List.range' l.offset result.toNat, t.scheduled⟩
    | .scheduled => ⟨none, t.sent ++ List.range' l.offset result.toNat, t.scheduled + 1⟩
    | .next l' => ⟨some l', t.sent ++ List.range' l.offset result.toNat, t.scheduled⟩

/-- The chain for a file of this size after its first `k` calls, with these results. -/
def after (size : Nat) (results : Nat → Int) : Nat → Transfer
  | 0 => start size
  | k + 1 => (after size results k).call (results k)

end Transfer

/-- Results of `sendfile` on a file: each is `-1` or a count between 1 and what is left of the file, and 0 only if
nothing is left. -/
def Results (size : Nat) (results : Nat → Int) : Prop :=
  ∀ k, results k = -1 ∨ (1 ≤ results k ∧ results k + passed results k ≤ size) ∨
    (results k = 0 ∧ passed results k = size)

/-- The chain ends, the fiber is scheduled exactly once, by its last call, and unless a result is `-1` the bytes of
the file have been sent from the first to the last. -/
def Transfers (size : Nat) (results : Nat → Int) : Prop :=
  ∃ k, (∀ j < k, ((Transfer.after size results j).link.isSome ∧ (Transfer.after size results j).scheduled = 0)) ∧
    (Transfer.after size results k).link = none ∧ (Transfer.after size results k).scheduled = 1 ∧
    ((∀ j < k, results j ≠ -1) → (Transfer.after size results k).sent = List.range size)

variable {size : Nat} {results : Nat → Int}

/-- The counts never add up to more than the file. -/
theorem Results.passed_le (h : Results size results) (k : Nat) : passed results k ≤ size := by
  induction k with
  | zero => exact Nat.zero_le size
  | succ k ih =>
    rw [passed]
    obtain hr | ⟨h₁, hr⟩ | ⟨hr, -⟩ := h k
    · rw [hr]
      exact ih
    · omega
    · rw [hr]
      exact ih

/-! ### Results through an `int` -/

namespace Transfer

variable {l : Link} {sent : List Nat} {n : Nat} {r : Int}

theorem call_failed (hr : toInt r = -1) :
    (call ⟨some l, sent, n⟩ r) = ⟨none, sent ++ List.range' l.offset r.toNat, n⟩ := by
  simp only [call, sendFile, hr, if_true]

theorem call_last (hr : toInt r ≠ -1) (hz : (l.fileSize - toInt r) % 2 ^ 64 = 0) :
    (call ⟨some l, sent, n⟩ r) = ⟨none, sent ++ List.range' l.offset r.toNat, n + 1⟩ := by
  simp only [call, sendFile, hr, hz, if_true, if_false]

theorem call_next (hr : toInt r ≠ -1) {z : Nat} (hz : (l.fileSize - toInt r) % 2 ^ 64 = z) (hpos : 0 < z) :
    (call ⟨some l, sent, n⟩ r) = ⟨some ⟨l.offset + r.toNat, z⟩, sent ++ List.range' l.offset r.toNat, n⟩ := by
  have hne : ¬ (z : Int) = 0 := by omega
  simp only [call, sendFile, hr, hz, hne, if_false, Int.toNat_natCast]

theorem after_of_none {k : Nat} (h : (after size results k).link = none) {j : Nat} (hj : k ≤ j) :
    after size results j = after size results k := by
  induction hj with
  | refl => rfl
  | step _ ih =>
    rw [after, ih, call, h]

end Transfer

open Transfer

/-! ### Results that count -/

/-- As long as the results count and something is left, the chain is where the counts say. -/
theorem after_of_counts (h : Results size results) (hsize : size < 2 ^ 63) {k : Nat}
    (hcounts : ∀ j < k, results j ≠ -1 ∧ results j < 2 ^ 31) (hleft : k = 0 ∨ passed results k < size) :
    after size results k = ⟨some ⟨passed results k, size - passed results k⟩, List.range (passed results k), 0⟩ := by
  induction k with
  | zero => rfl
  | succ k ih =>
    have hlt : passed results (k + 1) < size := hleft.resolve_left (Nat.succ_ne_zero k)
    have hpassed : passed results (k + 1) = passed results k + (results k).toNat := rfl
    have hk := hcounts k (Nat.lt_succ_self k)
    rw [after, ih (fun j hj => hcounts j (Nat.lt_succ_of_lt hj)) (.inr (by omega))]
    obtain hr | ⟨h₁, hr⟩ | ⟨-, hr⟩ := h k
    · exact absurd hr hk.1
    · have hint := toInt_of_count (by omega) hk.2
      have hz : (((size - passed results k : Nat) : Int) - toInt (results k)) % 2 ^ 64 =
          (size - passed results (k + 1) : Nat) := by
        rw [hint]
        omega
      rw [call_next (by omega) hz (by omega), range_append_range']
      rfl
    · omega

/-- Results that count come to the end of the file. -/
theorem exists_passed (h : Results size results)
    (hcounts : ∀ k, k = 0 ∨ passed results k < size → results k ≠ -1 ∧ results k < 2 ^ 31) :
    ∃ k, 0 < k ∧ size ≤ passed results k := by
  obtain ⟨k, -, hend⟩ := exists_end results size
  have hk : size ≤ passed results k := by
    rcases hend with hend | hstop
    · exact hend
    · by_contra hlt
      obtain hr | ⟨hr, -⟩ | ⟨-, hr⟩ := h k
      · exact (hcounts k (.inr (Nat.not_le.mp hlt))).1 hr
      · omega
      · omega
  exact ⟨k + 1, Nat.succ_pos k, Nat.le_trans hk (passed_mono (Nat.le_succ k))⟩

theorem after_last (h : Results size results) (hsize : size < 2 ^ 63) {k : Nat}
    (hcounts : ∀ j ≤ k, results j ≠ -1 ∧ results j < 2 ^ 31) (hleft : k = 0 ∨ passed results k < size)
    (hend : size ≤ passed results (k + 1)) : after size results (k + 1) = ⟨none, List.range size, 1⟩ := by
  have hk := hcounts k (Nat.le_refl k)
  have hle := h.passed_le (k + 1)
  have hpassed : passed results (k + 1) = passed results k + (results k).toNat := rfl
  have hr₀ : 0 ≤ results k := by
    obtain hr | ⟨h₁, -⟩ | ⟨hr, -⟩ := h k
    · exact absurd hr hk.1
    · omega
    · omega
  have hint := toInt_of_count hr₀ hk.2
  have hz : (((size - passed results k : Nat) : Int) - toInt (results k)) % 2 ^ 64 = 0 := by
    rw [hint]
    omega
  rw [after, after_of_counts h hsize (fun j hj => hcounts j (Nat.le_of_lt hj)) hleft,
    call_last (by omega) hz, range_append_range', ← hpassed, Nat.le_antisymm hle hend]

/-- If the results count, the chain sends the file. -/
theorem transfers_of_counts (h : Results size results) (hsize : size < 2 ^ 63)
    (hcounts : ∀ k, k = 0 ∨ passed results k < size → results k ≠ -1 ∧ results k < 2 ^ 31) :
    Transfers size results := by
  classical
  have hex := exists_passed h hcounts
  obtain ⟨hpos, hend⟩ := Nat.find_spec hex
  obtain ⟨k, hk⟩ := Nat.exists_eq_succ_of_ne_zero (Nat.ne_of_gt hpos)
  have hbefore : ∀ j ≤ k, j = 0 ∨ passed results j < size := by
    intro j hj
    have hmin := Nat.find_min hex (m := j) (by omega)
    by_cases hj0 : j = 0
    · exact .inl hj0
    · exact .inr (Nat.not_le.mp fun hle => hmin ⟨Nat.pos_of_ne_zero hj0, hle⟩)
  rw [hk] at hend
  have hlast := after_last h hsize (fun j hj => hcounts j (hbefore j hj)) (hbefore k (Nat.le_refl k)) hend
  refine ⟨k + 1, fun j hj => ?_, ?_⟩
  · rw [after_of_counts h hsize (fun i hi => hcounts i (hbefore i (by omega))) (hbefore j (by omega))]
    exact ⟨rfl, rfl⟩
  · rw [hlast]
    exact ⟨rfl, rfl, fun _ => rfl⟩

/-! ### Results that do not count -/

/-- From a result of 2 GiB or more on, the chain expects more than is left of the file. -/
structure Astray (size : Nat) (results : Nat → Int) (k : Nat) : Prop where
  unscheduled : (after size results k).scheduled = 0
  excess : ∀ l, (after size results k).link = some l →
    size - passed results k < l.fileSize ∧ l.fileSize ≤ size + passed results k

/-- A call of a chain that expects too much, or does so from this call on. -/
theorem astray_call {k : Nat} {l : Link} {sent : List Nat}
    (ht : after size results k = ⟨some l, sent, 0⟩) (h : Results size results) (hsize : size < 2 ^ 63)
    (hlo : (size : Int) - passed results (k + 1) < l.fileSize - toInt (results k))
    (hhi : l.fileSize ≤ size + passed results k) : Astray size results (k + 1) := by
  have hle := h.passed_le (k + 1)
  have hpassed : passed results (k + 1) = passed results k + (results k).toNat := rfl
  by_cases hr : toInt (results k) = -1
  · constructor
    · rw [after, ht, call_failed hr]
    · intro l' hl'
      rw [after, ht, call_failed hr] at hl'
      cases hl'
  · have hr₀ : 0 ≤ results k := by
      obtain hneg | ⟨h₁, -⟩ | ⟨h₀, -⟩ := h k
      · exact absurd (hneg ▸ toInt_error) hr
      · omega
      · omega
    have hbounds := toInt_bounds hr₀
    obtain ⟨z, hz⟩ : ∃ z : Nat, (l.fileSize : Int) - toInt (results k) = z :=
      ⟨_, (Int.toNat_of_nonneg (by omega)).symm⟩
    have hmod : ((l.fileSize : Int) - toInt (results k)) % 2 ^ 64 = z := by
      rw [hz]
      omega
    constructor
    · rw [after, ht, call_next hr hmod (by omega)]
    · intro l' hl'
      rw [after, ht, call_next hr hmod (by omega)] at hl'
      obtain rfl := Option.some.inj hl'
      dsimp only
      omega

theorem Astray.succ (h : Results size results) (hsize : size < 2 ^ 63) {k : Nat}
    (hk : Astray size results k) : Astray size results (k + 1) := by
  obtain ⟨hzero, hexcess⟩ := hk
  have hle := h.passed_le (k + 1)
  have hpassed : passed results (k + 1) = passed results k + (results k).toNat := rfl
  cases ht : after size results k with
  | mk link sent n =>
    rw [ht] at hzero hexcess
    obtain rfl : n = 0 := hzero
    cases link with
    | none =>
      have hstay := after_of_none (by rw [ht]) (Nat.le_succ k)
      constructor
      · rw [hstay, ht]
      · intro l hl
        rw [hstay, ht] at hl
        cases hl
    | some l =>
      obtain ⟨hlo, hhi⟩ := hexcess l rfl
      refine astray_call ht h hsize ?_ hhi
      -- what is left of the file shrinks by the count, what is expected by no more
      obtain hneg | ⟨h₁, -⟩ | ⟨h₀, -⟩ := h k
      · rw [hneg, toInt_error]
        omega
      · have hbounds := toInt_bounds (Int.le_trans (by decide) h₁)
        omega
      · have hbounds := toInt_bounds (Int.le_of_eq h₀.symm)
        omega

/-- The first result that does not count leads astray. -/
theorem astray_of_first (h : Results size results) (hsize : size < 2 ^ 63) {k : Nat}
    (hcounts : ∀ j < k, results j ≠ -1 ∧ results j < 2 ^ 31) (hleft : k = 0 ∨ passed results k < size)
    (hk : results k = -1 ∨ 2 ^ 31 ≤ results k) : Astray size results (k + 1) := by
  have hle := h.passed_le (k + 1)
  have hpassed : passed results (k + 1) = passed results k + (results k).toNat := rfl
  refine astray_call (after_of_counts h hsize hcounts hleft) h hsize ?_ ?_
  · dsimp only
    obtain hneg | hwraps := hk
    · rw [hneg] at hpassed ⊢
      rw [toInt_error]
      omega
    · have hlt := toInt_lt_of_wraps hwraps
      omega
  · dsimp only
    omega

/-- **Transfers.** For every size of a file and all results of `sendfile`: the chain sends the file and
schedules the fiber once, at its end, exactly if no call up to the end of the file has the result `-1` or
counts 2 GiB or more. -/
theorem transfers_iff (hsize : size < 2 ^ 63) (h : Results size results) : Transfers size results ↔
      ∀ k, k = 0 ∨ passed results k < size → results k ≠ -1 ∧ results k < 2 ^ 31 := by
  refine ⟨fun ht => ?_, transfers_of_counts h hsize⟩
  by_contra hno
  classical
  have hex : ∃ k, (k = 0 ∨ passed results k < size) ∧ (results k = -1 ∨ 2 ^ 31 ≤ results k) := by
    simp only [not_forall, not_and_or, not_not, Int.not_lt] at hno
    obtain ⟨k, hleft, hk⟩ := hno
    exact ⟨k, hleft, hk⟩
  obtain ⟨hleft, hfirst⟩ := Nat.find_spec hex
  have hbefore : ∀ j ≤ Nat.find hex, j = 0 ∨ passed results j < size := by
    intro j hj
    obtain h0 | hlt := hleft
    · exact .inl (by omega)
    · exact .inr (Nat.lt_of_le_of_lt (passed_mono hj) hlt)
  have hcounts : ∀ j < Nat.find hex, results j ≠ -1 ∧ results j < 2 ^ 31 := by
    intro j hj
    have hmin := Nat.find_min hex hj
    simp only [hbefore j (Nat.le_of_lt hj), true_and, not_or, Int.not_le] at hmin
    exact hmin
  have hastray : ∀ j, Nat.find hex + 1 ≤ j → Astray size results j := by
    intro j hj
    induction hj with
    | refl => exact astray_of_first h hsize hcounts hleft hfirst
    | step _ ih => exact ih.succ h hsize
  obtain ⟨k, -, hnone, hone, -⟩ := ht
  by_cases hk : k ≤ Nat.find hex
  · rw [after_of_counts h hsize (fun j hj => hcounts j (by omega)) (hbefore k hk)] at hnone
    cases hnone
  · have hzero := (hastray k (by omega)).unscheduled
    omega

/-- Two bytes, then one. -/
def twoThenOne : Nat → Int
  | 0 => 2
  | 1 => 1
  | _ => 0

theorem results_twoThenOne : Results 3 twoThenOne := by
  have hpassed : ∀ k, passed twoThenOne (k + 2) = 3 := by
    intro k
    induction k with
    | zero => rfl
    | succ k ih => rw [passed, ih, twoThenOne] <;> simp
  intro k
  rcases k with _ | _ | k
  · exact .inr (.inl ⟨by decide, by decide⟩)
  · exact .inr (.inl ⟨by decide, by decide⟩)
  · exact .inr (.inr ⟨rfl, hpassed k⟩)

theorem transfers_twoThenOne : Transfers 3 twoThenOne := by
  refine (transfers_iff (by decide) results_twoThenOne).mpr fun k _ => ?_
  match k with
  | 0 => decide
  | 1 => decide
  | k + 2 => exact ⟨by simp [twoThenOne], by simp [twoThenOne]⟩

/-- The first `sendfile` fails, and the fiber is never scheduled. -/
theorem transfers_fails : Results 3 (fun _ => -1) ∧ ¬ Transfers 3 (fun _ => -1) := by
  have hresults : Results 3 (fun _ => -1) := fun _ => .inl rfl
  refine ⟨hresults, ?_⟩
  rintro ⟨k, -, hnone, hone, -⟩
  cases k with
  | zero => cases hnone
  | succ k =>
    have hastray : ∀ k, Astray 3 (fun _ => -1) (k + 1) := by
      intro k
      induction k with
      | zero =>
        refine astray_of_first hresults (by decide) (fun j hj => ?_) (.inl rfl) (.inl rfl)
        exact absurd hj (Nat.not_lt_zero j)
      | succ k ih => exact ih.succ hresults (by decide)
    have hzero := (hastray k).unscheduled
    omega

/-! ## Descriptors -/

/-- What `open` and `fstat` answer for the file of a request: there is no file, the descriptor and a failed `fstat`,
or the descriptor and the size. -/
inductive OpenResult where
  | missing
  | fstatFails (fd : Nat)
  | found (fd size : Nat)

/-- The downloads of a server: the chains of its transfers, and the descriptors that were opened and closed. -/
structure Downloads where
  transfers : List Transfer := []
  opened : List Nat := []
  closed : List Nat := []

/-- A request comes in, or `sendfile` has a result in one of the transfers. -/
inductive DownloadStep where
  | request (r : OpenResult)
  | result (transfer : Nat) (r : Int)

/-- `OTAHttpManager::getFileDetail`: what it opens and closes, and the descriptor and the detail it returns. -/
def getFileDetail (s : Downloads) : OpenResult → Option (Nat × FileDetail) × Downloads
  | .missing => (none, s)
  | .fstatFails fd => (none, { s with opened := s.opened ++ [fd], closed := s.closed ++ [fd] })
  | .found fd size =>
    (some (fd, ⟨size, str "ed076287532e86365e841e92bfc50d8c"⟩), { s with opened := s.opened ++ [fd] })

namespace Downloads

/-- `ota_file_download` starts a transfer if there is a file; a link of a transfer closes nothing. -/
def step (s : Downloads) : DownloadStep → Downloads
  | .request r =>
    match getFileDetail s r with
    | (none, s') => s'
    | (some (_, detail), s') => { s' with transfers := s'.transfers ++ [.start detail.size] }
  | .result i r => { s with transfers := s.transfers.modify i (·.call r) }

/-- Steps, one after the other. -/
def run (s : Downloads) (steps : List DownloadStep) : Downloads := steps.foldl step s

/-- Every descriptor was closed as often as it was opened. -/
def Closed (s : Downloads) : Prop := ∀ fd, s.closed.count fd = s.opened.count fd

/-- The transfers have ended. -/
def Ended (s : Downloads) : Prop := ∀ t ∈ s.transfers, t.link = none

instance (s : Downloads) : Decidable (Ended s) := inferInstanceAs (Decidable (∀ t ∈ s.transfers, t.link = none))

end Downloads

/-- The step opens a file and leaves it open. -/
def DownloadStep.leaves : DownloadStep → List Nat
  | .request (.found fd _) => [fd]
  | _ => []

theorem count_step (s : Downloads) (a : DownloadStep) (fd : Nat) : (s.step a).opened.count fd + s.closed.count fd =
      (s.step a).closed.count fd + s.opened.count fd + a.leaves.count fd := by
  rcases a with (_ | fd' | ⟨fd', size⟩) | ⟨i, r⟩ <;>
    simp only [Downloads.step, getFileDetail, DownloadStep.leaves, List.count_append, List.count_nil] <;> omega

/-- Over any steps, the descriptors that are open are those of the files that were found. -/
theorem count_run (steps : List DownloadStep) (fd : Nat) :
    ∀ s : Downloads, (s.run steps).opened.count fd + s.closed.count fd =
      (s.run steps).closed.count fd + s.opened.count fd + (steps.flatMap DownloadStep.leaves).count fd := by
  induction steps with
  | nil =>
    intro s
    rw [List.flatMap_nil, List.count_nil]
    exact Nat.add_comm _ _
  | cons a steps ih =>
    intro s
    have hrest := ih (s.step a)
    have hstep := count_step s a fd
    rw [List.flatMap_cons, List.count_append]
    change (((s.step a).run steps).opened.count fd + _ = ((s.step a).run steps).closed.count fd + _ + _)
    omega

/-- **Descriptors.** After any requests and results, in particular when all transfers have ended: every
descriptor that was opened has been closed, once, exactly if no request found its file. -/
theorem closed_iff (steps : List DownloadStep) :
    (Downloads.run {} steps).Closed ↔ ∀ fd size, .request (.found fd size) ∉ steps := by
  have hleaves : (Downloads.run {} steps).Closed ↔ ∀ fd, fd ∉ steps.flatMap DownloadStep.leaves := by
    refine forall_congr' fun fd => ?_
    have hcount : (Downloads.run {} steps).opened.count fd + 0 =
        (Downloads.run {} steps).closed.count fd + 0 + (steps.flatMap DownloadStep.leaves).count fd :=
      count_run steps fd {}
    rw [← List.count_eq_zero]
    omega
  rw [hleaves]
  constructor
  · intro h fd size hmem
    exact h fd (List.mem_flatMap.mpr ⟨_, hmem, List.mem_singleton_self fd⟩)
  · intro h fd hfd
    obtain ⟨a, ha, hfd⟩ := List.mem_flatMap.mp hfd
    match a, hfd with
    | .request (.found fd' size), _ => exact h fd' size ha

/-- A file of three bytes is sent as a whole, and its descriptor stays open. -/
theorem closed_fails :
    let s := Downloads.run {} [.request (.found 5 3), .result 0 3]
    s.Ended ∧ s.transfers.map (·.sent) = [[0, 1, 2]] ∧ ¬ s.Closed := by
  refine ⟨by decide, by decide, fun h => ?_⟩
  exact absurd (h 5) (by decide)

end OTAHttpManager

end Sherry
