import Mathlib.Data.Finset.Card
import OtaServer.Lib.Threads

/-!
# The devices of an `OTAMqttManager` (`sherry/ota_mqtt_manager.cc`)

`add_device` tests and inserts in one critical section. `remove_device` tests in one and erases in another, and does
not look again: a device that is gone by then is counted down once more.

* `DeviceSystem`: any number of threads, each critical section a step.
* `DeviceShared.Alternate`: for each device type, the calls that returned true are in turn additions and removals.
* `DeviceSystem.StillThere`: what `remove_device` found is there when it erases. `counts_iff`.
-/

namespace Sherry

open Lib

/-- `m_devices` by their types, `m_device_counts`, and the calls that have returned true, the latest first: the device
type, and whether it was added. -/
structure DeviceShared where
  devices : Finset UInt16 := ∅
  counts : UInt64 := 0
  calls : List (UInt16 × Bool) := []

/-- A thread outside `remove_device`, or between its critical sections. -/
inductive RemovePc where
  | idle
  | found (deviceType : UInt16)
  deriving DecidableEq

/-- What was found is among the devices. -/
def RemovePc.Among (devices : Finset UInt16) : RemovePc → Prop
  | .idle => True
  | .found d => d ∈ devices

instance decidableAmong (devices : Finset UInt16) : ∀ pc : RemovePc, Decidable (pc.Among devices)
  | .idle => isTrue trivial
  | .found d => inferInstanceAs (Decidable (d ∈ devices))

/-- The calls of a thread. -/
inductive DeviceChoice where
  | addDevice (deviceType : UInt16)
  | removeDevice (deviceType : UInt16)
  | erase

namespace DeviceShared

/-- A device is added. -/
def insert (s : DeviceShared) (deviceType : UInt16) : DeviceShared where
  devices := Insert.insert deviceType s.devices
  counts := s.counts + 1
  calls := (deviceType, true) :: s.calls

/-- A device is removed. -/
def erase (s : DeviceShared) (deviceType : UInt16) : DeviceShared where
  devices := s.devices.erase deviceType
  counts := s.counts - 1
  calls := (deviceType, false) :: s.calls

/-- A critical section of `add_device` or `remove_device`. -/
def step (s : DeviceShared) : RemovePc → DeviceChoice → Option (DeviceShared × RemovePc)
  | .idle, .addDevice d => some (if d ∈ s.devices then s else s.insert d, .idle)
  | .idle, .removeDevice d => some (s, if d ∈ s.devices then .found d else .idle)
  | .found d, .erase => some (s.erase d, .idle)
  | _, _ => none

/-- The calls for a device type that returned true, the latest first. -/
def callsOf (s : DeviceShared) (d : UInt16) : List Bool := (s.calls.filter (·.1 = d)).map (·.2)

/-- Additions and removals take turns. -/
def Alternate (s : DeviceShared) : Prop := ∀ d, (s.callsOf d).IsChain (· ≠ ·)

/-- The counter is right, the calls take turns, and the latest one says whether the device is there. -/
structure DeviceInv (s : DeviceShared) : Prop where
  counts : s.counts.toNat = s.devices.card
  alternate : s.Alternate
  latest : ∀ d, (s.callsOf d).head? = some true ↔ d ∈ s.devices

variable {s : DeviceShared} {d d' : UInt16}

theorem callsOf_insert (s : DeviceShared) (d d' : UInt16) :
    (s.insert d).callsOf d' = if d = d' then true :: s.callsOf d' else s.callsOf d' := by
  simp only [callsOf, insert, List.filter_cons, decide_eq_true_eq]
  split <;> rfl

theorem callsOf_erase (s : DeviceShared) (d d' : UInt16) :
    (s.erase d).callsOf d' = if d = d' then false :: s.callsOf d' else s.callsOf d' := by
  simp only [callsOf, erase, List.filter_cons, decide_eq_true_eq]
  split <;> rfl

theorem card_devices_le (s : DeviceShared) : s.devices.card ≤ 65536 := by
  have h := Finset.card_le_card_of_injOn (s := s.devices) (t := Finset.range 65536) UInt16.toNat
    (fun d _ => Finset.mem_coe.mpr (Finset.mem_range.mpr d.toNat_lt)) (fun a _ b _ => UInt16.toNat_inj.mp)
  rwa [Finset.card_range] at h

theorem DeviceInv.insert (h : DeviceInv s) (hd : d ∉ s.devices) : DeviceInv (s.insert d) := by
  refine ⟨?_, fun d' => ?_, fun d' => ?_⟩
  · have hle := s.card_devices_le
    have hcounts := h.counts
    simp only [DeviceShared.insert]
    rw [Finset.card_insert_of_notMem hd, UInt64.toNat_add, hcounts]
    simp only [UInt64.toNat_one]
    omega
  · rw [callsOf_insert]
    split
    · next heq =>
      subst heq
      refine List.isChain_cons.mpr ⟨fun b hb htrue => hd ((h.latest d).mp ?_), h.alternate d⟩
      rw [htrue]
      exact hb
    · exact h.alternate d'
  · rw [callsOf_insert]
    simp only [DeviceShared.insert, Finset.mem_insert]
    split
    · next heq => simp [heq]
    · next hne => rw [h.latest d', or_iff_right (Ne.symm hne)]

theorem DeviceInv.erase (h : DeviceInv s) (hd : d ∈ s.devices) : DeviceInv (s.erase d) := by
  refine ⟨?_, fun d' => ?_, fun d' => ?_⟩
  · have hpos := Finset.card_pos.mpr ⟨d, hd⟩
    have hcounts := h.counts
    simp only [DeviceShared.erase]
    rw [Finset.card_erase_of_mem hd, UInt64.toNat_sub_of_le, hcounts]
    · rfl
    · rw [UInt64.le_iff_toNat_le, hcounts]
      exact hpos
  · rw [callsOf_erase]
    split
    · next heq =>
      subst heq
      refine List.isChain_cons.mpr ⟨fun b hb hfalse => ?_, h.alternate d⟩
      rw [(h.latest d).mpr hd] at hb
      cases hb
      cases hfalse
    · exact h.alternate d'
  · rw [callsOf_erase]
    simp only [DeviceShared.erase, Finset.mem_erase]
    split
    · next heq => simp [heq]
    · next hne => rw [h.latest d', and_iff_right (Ne.symm hne)]

/-- Two removals in a row. -/
theorem DeviceInv.not_alternate (h : DeviceInv s) (hd : d ∉ s.devices) (hcalls : s.callsOf d ≠ []) :
    ¬(s.erase d).Alternate := by
  intro halt
  have hchain := halt d
  rw [callsOf_erase, if_pos rfl] at hchain
  cases hhead : (s.callsOf d).head? with
  | none => exact hcalls (List.head?_eq_none_iff.mp hhead)
  | some b =>
    have hne := (List.isChain_cons.mp hchain).1 b hhead
    cases b with
    | false => exact hne rfl
    | true => exact hd ((h.latest d).mp hhead)

end DeviceShared

/-- The set, with the threads that change it. -/
abbrev DeviceSystem (ι : Type) := Threads ι DeviceShared RemovePc

/-- A step of a thread. -/
abbrev DeviceLabel (ι : Type) := Threads.Label ι DeviceChoice Empty

namespace DeviceSystem

variable {ι : Type}

/-- No device, and no call. -/
def new : DeviceSystem ι := ⟨{}, fun _ => .idle⟩

/-- No call is in progress. -/
def Quiet (s : DeviceSystem ι) : Prop := ∀ i, s.thread i = .idle

/-- When no call is in progress the counter is the number of devices, and additions and removals take turns. -/
def Right (s : DeviceSystem ι) : Prop :=
  (s.Quiet → s.shared.counts.toNat = s.shared.devices.card) ∧ s.shared.Alternate

/-- A device that `remove_device` has found is still there when it is erased. -/
def StillThere (s : DeviceSystem ι) : DeviceLabel ι → Prop
  | .thread i .erase => (s.thread i).Among s.shared.devices
  | _ => True

instance decidableStillThere (s : DeviceSystem ι) : ∀ l, Decidable (StillThere s l)
  | .thread i .erase => inferInstanceAs (Decidable ((s.thread i).Among s.shared.devices))
  | .thread _ (.addDevice _) | .thread _ (.removeDevice _) | .outer _ => isTrue trivial

/-- What has been found was added at some time. -/
structure SystemInv (s : DeviceSystem ι) : Prop where
  shared : s.shared.DeviceInv
  added : ∀ i d, s.thread i = .found d → s.shared.callsOf d ≠ []

theorem SystemInv.right {s : DeviceSystem ι} (h : SystemInv s) : s.Right :=
  ⟨fun _ => h.shared.counts, h.shared.alternate⟩

theorem systemInv_new : SystemInv (new : DeviceSystem ι) := by
  refine ⟨⟨rfl, fun _ => List.isChain_nil, fun d => ?_⟩, fun _ _ h => absurd h RemovePc.noConfusion⟩
  exact iff_of_false (Option.some_ne_none true).symm (Finset.notMem_empty d)

variable [DecidableEq ι]

/-- A step of a thread. -/
def step? (s : DeviceSystem ι) (l : DeviceLabel ι) : Option (DeviceSystem ι) :=
  Threads.step? (fun _ => DeviceShared.step) (fun _ e => e.elim) s l

variable {s s' : DeviceSystem ι} {l : DeviceLabel ι}

theorem SystemInv.set {i : ι} {x : DeviceShared × RemovePc} (h : SystemInv s) (hx : x.1.DeviceInv)
    (hcalls : ∀ d, s.shared.callsOf d ≠ [] → x.1.callsOf d ≠ [])
    (hfound : ∀ d, x.2 = .found d → x.1.callsOf d ≠ []) : SystemInv (s.set i x) :=
  ⟨hx, Threads.forall_set (P := fun pc => ∀ d, pc = RemovePc.found d → x.1.callsOf d ≠ [])
    (fun j d hj => hcalls d (h.added j d hj)) hfound⟩

/-- A step that erases only what is there keeps the invariant; after any other, two removals are in a row. -/
theorem SystemInv.step (h : SystemInv s) (hstep : step? s l = some s') :
    (StillThere s l → SystemInv s') ∧ (s'.Right → StillThere s l) := by
  obtain ⟨i, c, x, rfl, hx, rfl⟩ | ⟨e, -⟩ := Threads.step?_cases hstep
  · unfold DeviceShared.step at hx
    split at hx
    · next d hpc =>
      cases hx
      refine ⟨fun _ => ?_, fun _ => trivial⟩
      split
      · exact h.set h.shared (fun _ hc => hc) fun d hd => absurd hd RemovePc.noConfusion
      · next hd =>
        refine h.set (h.shared.insert hd) (fun d' hc => ?_) fun d hd => absurd hd RemovePc.noConfusion
        rw [DeviceShared.callsOf_insert]
        split
        · exact List.cons_ne_nil _ _
        · exact hc
    · next d hpc =>
      cases hx
      refine ⟨fun _ => h.set h.shared (fun _ hc => hc) fun d' hd' => ?_, fun _ => trivial⟩
      split at hd'
      · next hd =>
        cases hd'
        intro hnil
        have hhead := (h.shared.latest d).mpr hd
        rw [hnil] at hhead
        cases hhead
      · cases hd'
    · next d hpc =>
      cases hx
      constructor
      · intro hthere
        rw [StillThere, hpc] at hthere
        refine h.set (h.shared.erase hthere) (fun d' hc => ?_) fun d hd => absurd hd RemovePc.noConfusion
        rw [DeviceShared.callsOf_erase]
        split
        · exact List.cons_ne_nil _ _
        · exact hc
      · intro hright
        rw [StillThere, hpc]
        -- another thread has removed the device in between
        by_contra hgone
        exact h.shared.not_alternate hgone (h.added i d hpc) hright.2
    · cases hx
  · exact e.elim

end DeviceSystem

/-- **Devices are counted.** Over every run, exactly when each device that `remove_device` erases is still there. -/
theorem counts_iff {ι : Type} [DecidableEq ι] {r : List (DeviceLabel ι × DeviceSystem ι)}
    (hr : Run (fun s l s' => DeviceSystem.step? s l = some s') .new r) :
    Reached DeviceSystem.Right r ↔ Meets DeviceSystem.StillThere .new r :=
  Run.reached_iff (C := DeviceSystem.StillThere) (I := DeviceSystem.SystemInv) (P := DeviceSystem.Right)
    (fun _ _ _ hs hstep => ⟨(hs.step hstep).2, fun hthere => ((hs.step hstep).1 hthere).right⟩)
    (fun _ _ _ hs hthere hstep => (hs.step hstep).1 hthere) hr DeviceSystem.systemInv_new

/-- A device is added, and two threads remove it one after the other: the second call returns false. -/
theorem counts_in_turn : ∃ r, Run (fun s l s' => DeviceSystem.step? s l = some s') (.new : DeviceSystem Bool) r ∧
    (lastState .new r).shared.calls = [(7, false), (7, true)] ∧ Reached DeviceSystem.Right r := by
  obtain ⟨r, hr, hcalls, hthere⟩ := exists_run_of_trace? (f := DeviceSystem.step?) (s := (.new : DeviceSystem Bool))
    [.thread false (.addDevice 7), .thread false (.removeDevice 7), .thread false .erase,
      .thread true (.removeDevice 7)]
    (P := fun r => (lastState .new r).shared.calls = [(7, false), (7, true)] ∧ Meets DeviceSystem.StillThere .new r)
    (by decide +kernel)
  exact ⟨r, hr, hcalls, (counts_iff hr).mpr hthere⟩

/-- Two threads find the device before one of them erases it: both return true, and the counter wraps. -/
theorem counts_wrap : ∃ r, Run (fun s l s' => DeviceSystem.step? s l = some s') (.new : DeviceSystem Bool) r ∧
    (lastState .new r).Quiet ∧ (lastState .new r).shared.devices.card = 0 ∧
    (lastState .new r).shared.counts = 0xFFFFFFFFFFFFFFFF ∧
    (lastState .new r).shared.calls = [(7, false), (7, false), (7, true)] ∧ ¬(lastState .new r).Right := by
  obtain ⟨r, hr, hquiet, hcard, hcounts, hcalls⟩ := exists_run_of_trace?
    (f := DeviceSystem.step?) (s := (.new : DeviceSystem Bool))
    [.thread false (.addDevice 7), .thread false (.removeDevice 7), .thread true (.removeDevice 7),
      .thread false .erase, .thread true .erase]
    (P := fun r => (∀ i, (lastState .new r).thread i = .idle) ∧ (lastState .new r).shared.devices.card = 0 ∧
      (lastState .new r).shared.counts = 0xFFFFFFFFFFFFFFFF ∧
      (lastState .new r).shared.calls = [(7, false), (7, false), (7, true)]) (by decide +kernel)
  refine ⟨r, hr, hquiet, hcard, hcounts, hcalls, fun hright => ?_⟩
  have heq := hright.1 hquiet
  rw [hcard, hcounts] at heq
  cases heq

end Sherry
