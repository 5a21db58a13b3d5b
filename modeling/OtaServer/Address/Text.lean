import OtaServer.Address.Basic
import OtaServer.Lib.AddressText

/-!
# Addresses as text

`IPv6Address::insert` goes over the eight groups once, and prints `::` for the first zeros.

* `Progress`: what the loop has printed after some groups. `insertRound_progress` is one round, and `insertAddr_eq`
  the whole text.
* `ipv6_text_parses`: the text is read back as the address.
* `IPAddress.PortIs`: the port of an object. `made_portIs_iff` is about the objects that the constructors make.
-/

namespace Sherry

open Lib AddressText

namespace IPv6Address

section

variable {addr : Nat → BitVec 16} {i k : Nat} {os : Printed} {fs bs : List Nat}

/-- The number of a group. -/
def groupValue (addr : Nat → BitVec 16) (i : Nat) : Nat := (byteswapOnLittleEndian (k := 2) (addr i)).toNat

theorem groupValue_eq_zero_iff : groupValue addr i = 0 ↔ addr i = 0 := by
  have hzero : byteSwap (k := 2) 0#16 = 0#16 := by decide
  refine ⟨fun h => ?_, fun h => ?_⟩
  · have hswap : byteSwap (k := 2) (addr i) = 0#16 := BitVec.eq_of_toNat_eq h
    rw [← byteSwap_byteSwap (k := 2) (addr i), hswap]
    exact hzero
  · rw [groupValue, byteswapOnLittleEndian, h]
    exact congrArg BitVec.toNat hzero

theorem groupValue_lt : groupValue addr i < 65536 := (byteswapOnLittleEndian (k := 2) (addr i)).isLt

/-- The first `i` groups. -/
def firstGroups (addr : Nat → BitVec 16) (i : Nat) : List Nat := (List.range i).map (groupValue addr)

theorem firstGroups_succ : firstGroups addr (i + 1) = firstGroups addr i ++ [groupValue addr i] := by
  rw [firstGroups, List.range_succ, List.map_append, List.map_cons, List.map_nil, firstGroups]

/-- What is printed after `i` groups: groups that are not 0, then zeros that are left out, and the groups behind them.
-/
structure Progress (addr : Nat → BitVec 16) (i : Nat) (os : Printed) (fs : List Nat) (k : Nat)
    (bs : List Nat) : Prop where
  groups : firstGroups addr i = fs ++ List.replicate k 0 ++ bs
  front : 0 ∉ fs
  zeros : bs ≠ [] → 0 < k
  usedZeros : os.usedZeros = true ↔ bs ≠ []
  text : os.text = if bs = [] then joined fs else joined fs ++ 58 :: 58 :: joined bs

namespace Progress

theorem usedZeros_eq_false (h : Progress addr i os fs k bs) : os.usedZeros = false ↔ bs = [] := by
  rw [← Bool.not_eq_true, h.usedZeros, not_not]

/-- In front of the groups behind the zeros, the last group is 0 if one was left out. -/
theorem last_zero_iff (h : Progress addr i os fs k []) : (i ≠ 0 ∧ addr (i - 1) = 0) ↔ 0 < k := by
  have hgroups := h.groups
  rw [List.append_nil] at hgroups
  cases i with
  | zero =>
    have hnil := congrArg List.length hgroups
    rw [List.length_append, List.length_replicate] at hnil
    have hk : k = 0 := by
      have : (firstGroups addr 0).length = 0 := rfl
      omega
    rw [hk]
    exact ⟨fun h => absurd rfl h.1, fun h => absurd h (Nat.lt_irrefl 0)⟩
  | succ i =>
    rw [firstGroups_succ] at hgroups
    rw [Nat.add_sub_cancel, ← groupValue_eq_zero_iff]
    cases k with
    | zero =>
      rw [List.replicate_zero, List.append_nil] at hgroups
      have hmem : groupValue addr i ∈ fs := hgroups ▸ List.mem_append_right _ List.mem_cons_self
      exact ⟨fun hz => absurd (hz.2 ▸ hmem) h.front, fun hz => absurd hz (Nat.lt_irrefl 0)⟩
    | succ k =>
      rw [List.replicate_succ', ← List.append_assoc] at hgroups
      obtain ⟨-, hlast⟩ := List.append_inj' hgroups rfl
      exact ⟨fun _ => Nat.succ_pos k, fun _ => ⟨Nat.succ_ne_zero i, List.singleton_inj.mp hlast⟩⟩

theorem round_zero (h : Progress addr i os fs k []) (hzero : addr i = 0) :
    Progress addr (i + 1) (insertRound addr os i) fs (k + 1) [] := by
  have hround : insertRound addr os i = os := if_pos ⟨hzero, h.usedZeros_eq_false.mpr rfl⟩
  have hgroups := h.groups
  rw [List.append_nil] at hgroups
  rw [hround]
  refine ⟨?_, h.front, fun hne => absurd rfl hne, h.usedZeros, h.text⟩
  rw [firstGroups_succ, hgroups, groupValue_eq_zero_iff.mpr hzero, List.append_nil,
    List.replicate_succ', List.append_assoc]

theorem round_front (h : Progress addr i os fs 0 []) (hzero : addr i ≠ 0) :
    Progress addr (i + 1) (insertRound addr os i) (fs ++ [groupValue addr i]) 0 [] := by
  have hround : insertRound addr os i = _ := if_neg fun hc => hzero hc.1
  have hprev : ¬ (i ≠ 0 ∧ addr (i - 1) = 0 ∧ os.usedZeros = false) := fun hc =>
    Nat.lt_irrefl 0 (h.last_zero_iff.mp ⟨hc.1, hc.2.1⟩)
  have hgroups := h.groups
  rw [List.replicate_zero, List.append_nil, List.append_nil] at hgroups
  have htext := h.text
  rw [if_pos rfl] at htext
  rw [hround]
  dsimp only
  rw [if_neg hprev]
  refine ⟨?_, ?_, fun hne => absurd rfl hne, ?_, ?_⟩
  · rw [firstGroups_succ, hgroups, List.replicate_zero, List.append_nil, List.append_nil]
  · rw [List.mem_append, List.mem_singleton, not_or]
    exact ⟨h.front, fun h0 => hzero (groupValue_eq_zero_iff.mp h0.symm)⟩
  · split <;> exact h.usedZeros
  · rw [if_pos rfl]
    by_cases hi : i = 0
    · have hnil : fs = [] := by
        rw [← hgroups, hi]
        rfl
      rw [if_neg (not_not.mpr hi), htext, hnil]
      exact (List.append_nil _).symm
    · have hne : fs ≠ [] := by
        rw [← hgroups, firstGroups]
        simpa using hi
      rw [if_pos hi, joined_concat hne, ← htext]
      simp [str, groupValue]

theorem round_behind (h : Progress addr i os fs k []) (hk : 0 < k) (hzero : addr i ≠ 0) :
    Progress addr (i + 1) (insertRound addr os i) fs k [groupValue addr i] := by
  obtain ⟨hi, hprev⟩ := h.last_zero_iff.mpr hk
  have hround : insertRound addr os i = ⟨os.text ++ str "::" ++ hex (groupValue addr i), true⟩ := by
    rw [insertRound, if_neg fun hc => hzero hc.1]
    simp [hi, hprev, h.usedZeros_eq_false.mpr rfl, str, groupValue]
  have hgroups := h.groups
  rw [List.append_nil] at hgroups
  have htext := h.text
  rw [if_pos rfl] at htext
  rw [hround]
  refine ⟨?_, h.front, fun _ => hk, by simp, ?_⟩
  · rw [firstGroups_succ, hgroups]
  · simp [htext, joined, str]

theorem round_back (h : Progress addr i os fs k bs) (hbs : bs ≠ []) :
    Progress addr (i + 1) (insertRound addr os i) fs k (bs ++ [groupValue addr i]) := by
  have hused : os.usedZeros = true := h.usedZeros.mpr hbs
  have hi : i ≠ 0 := by
    rintro rfl
    have hnil : fs ++ List.replicate k 0 ++ bs = [] := h.groups.symm
    exact hbs (List.append_eq_nil_iff.mp hnil).2
  have hround : insertRound addr os i = ⟨os.text ++ str ":" ++ hex (groupValue addr i), true⟩ := by
    simp [insertRound, hused, hi, groupValue]
  have htext := h.text
  rw [if_neg hbs] at htext
  rw [hround]
  refine ⟨?_, h.front, fun _ => h.zeros hbs, by simp, ?_⟩
  · rw [firstGroups_succ, h.groups, List.append_assoc]
  · rw [if_neg (by simp), joined_concat hbs]
    simp [htext, str]

end Progress

/-- **One round** of the loop. -/
theorem insertRound_progress (h : Progress addr i os fs k bs) :
    ∃ fs' k' bs', Progress addr (i + 1) (insertRound addr os i) fs' k' bs' := by
  by_cases hbs : bs = []
  · subst hbs
    by_cases hzero : addr i = 0
    · exact ⟨_, _, _, h.round_zero hzero⟩
    · obtain rfl | hk := Nat.eq_zero_or_pos k
      · exact ⟨_, _, _, h.round_front hzero⟩
      · exact ⟨_, _, _, h.round_behind hk hzero⟩
  · exact ⟨_, _, _, h.round_back hbs⟩

theorem foldl_progress (addr : Nat → BitVec 16) (i : Nat) :
    ∃ fs k bs, Progress addr i ((List.range i).foldl (insertRound addr) ⟨[], false⟩) fs k bs := by
  induction i with
  | zero => exact ⟨[], 0, [], rfl, List.not_mem_nil, fun h => absurd rfl h, by simp, rfl⟩
  | succ i ih =>
    obtain ⟨fs, k, bs, h⟩ := ih
    rw [List.range_succ, List.foldl_append]
    exact insertRound_progress h

/-- **The text of the groups**: all of them, or `::` for some zeros. -/
theorem insertAddr_eq (addr : Nat → BitVec 16) : insertAddr addr = joined (firstGroups addr 8) ∨
      ∃ fs k bs, firstGroups addr 8 = fs ++ List.replicate k 0 ++ bs ∧ 0 < k ∧
        insertAddr addr = joined fs ++ 58 :: 58 :: joined bs := by
  obtain ⟨fs, k, bs, h⟩ := foldl_progress addr 8
  have htext := h.text
  unfold insertAddr
  dsimp only
  by_cases hbs : bs = []
  · subst hbs
    have hused := h.usedZeros_eq_false.mpr rfl
    rw [if_pos rfl] at htext
    by_cases hlast : addr 7 = 0
    · refine .inr ⟨fs, k, [], h.groups, h.last_zero_iff.mp ⟨by decide, hlast⟩, ?_⟩
      rw [if_pos ⟨hused, hlast⟩, htext]
      rfl
    · have hk : k = 0 := Nat.eq_zero_of_not_pos fun hk => hlast (h.last_zero_iff.mpr hk).2
      have hgroups := h.groups
      rw [hk, List.replicate_zero, List.append_nil, List.append_nil] at hgroups
      refine .inl ?_
      rw [if_neg fun hc => hlast hc.2, htext, hgroups]
  · refine .inr ⟨fs, k, bs, h.groups, h.zeros hbs, ?_⟩
    have hused := h.usedZeros.mpr hbs
    rw [if_neg hbs] at htext
    rw [if_neg fun hc => Bool.false_ne_true (hc.1.symm.trans hused), htext]

end

/-! ## The address -/

section

variable {a : IPv6Address}

theorem groupValue_word (a : IPv6Address) (i : Nat) :
    groupValue a.word i = 256 * (a.s6Addr.getD (2 * i) 0).toNat + (a.s6Addr.getD (2 * i + 1) 0).toNat := by
  generalize hhi : a.s6Addr.getD (2 * i) 0 = hi
  generalize hlo : a.s6Addr.getD (2 * i + 1) 0 = lo
  have hlt := hi.toNat_lt
  have hlt' := lo.toNat_lt
  have hword : (a.word i).toNat = leValue [hi, lo] := by
    rw [word, hhi, hlo, BitVec.toNat_ofNat, leValue, leValue, leValue, Nat.mod_eq_of_lt (by omega)]
  have hswap : groupValue a.word i = leValue (leBytes 2 (a.word i).toNat).reverse :=
    toNat_byteSwap (k := 2) (a.word i)
  rw [hswap, hword, show leBytes 2 (leValue [hi, lo]) = [hi, lo] from leBytes_leValue [hi, lo]]
  show lo.toNat + 256 * (hi.toNat + 256 * 0) = _
  omega

theorem groupBytes_cons {hi lo : UInt8} (gs : List Nat) :
    groupBytes ((256 * hi.toNat + lo.toNat) :: gs) = hi :: lo :: groupBytes gs := by
  have hlt := lo.toNat_lt
  have hhigh : UInt8.ofNat ((256 * hi.toNat + lo.toNat) / 256) = hi := by
    rw [show (256 * hi.toNat + lo.toNat) / 256 = hi.toNat by omega, UInt8.ofNat_toNat]
  have hlow : UInt8.ofNat (256 * hi.toNat + lo.toNat) = lo := by
    rw [← UInt8.toNat_inj, UInt8.toNat_ofNat']
    omega
  rw [groupBytes, List.flatMap_cons, hhigh, hlow, groupBytes]
  rfl

theorem groupBytes_pairs {n : Nat} (bytes : Bytes) (h : bytes.length = 2 * n) :
    groupBytes ((List.range n).map fun i =>
      256 * (bytes.getD (2 * i) 0).toNat + (bytes.getD (2 * i + 1) 0).toNat) = bytes := by
  induction n generalizing bytes with
  | zero => rw [List.length_eq_zero_iff.mp h]; rfl
  | succ n ih =>
    rcases bytes with _ | ⟨hi, _ | ⟨lo, bytes⟩⟩
    · cases h
    · rw [List.length_singleton] at h
      omega
    · have hrest := ih bytes (by rw [List.length_cons, List.length_cons] at h; omega)
      rw [List.range_succ_eq_map, List.map_cons, List.map_map]
      exact (groupBytes_cons _).trans (congrArg (fun rest => hi :: lo :: rest) hrest)

theorem getD_toList (bytes : Vector UInt8 16) (i : Nat) : bytes.toList.getD i 0 = bytes.getD i 0 := by
  simp [Vector.getD]

theorem groupBytes_firstGroups (a : IPv6Address) : groupBytes (firstGroups a.word 8) = a.s6Addr.toList := by
  have hpairs := groupBytes_pairs (n := 8) a.s6Addr.toList a.s6Addr.length_toList
  simp only [getD_toList] at hpairs
  rw [firstGroups, List.map_congr_left fun i _ => groupValue_word a i]
  exact hpairs

/-- **The text between the brackets** is an address of RFC 4291, and it is read back as the same bytes. -/
theorem ipv6_text_parses (a : IPv6Address) :
    ∃ text, a.insert = str "[" ++ text ++ str "]:" ++ dec (byteswapOnLittleEndian (k := 2) a.sin6Port).toNat ∧
      parse text = some a.s6Addr.toList ∧ doubleColons text ≤ 1 := by
  have hlt : ∀ g ∈ firstGroups a.word 8, g < 65536 := by
    intro g hg
    obtain ⟨i, -, rfl⟩ := List.mem_map.mp hg
    exact groupValue_lt
  have hlength : (firstGroups a.word 8).length = 8 := by
    rw [firstGroups, List.length_map, List.length_range]
  refine ⟨insertAddr a.word, rfl, ?_⟩
  rw [← groupBytes_firstGroups]
  obtain htext | ⟨fs, k, bs, hgroups, hk, htext⟩ := insertAddr_eq a.word
  · rw [htext]
    have hnone := doubleColons_joined (firstGroups a.word 8) []
    rw [List.append_nil] at hnone
    exact ⟨parse_joined hlt hlength, hnone ▸ Nat.zero_le 1⟩
  · rw [hgroups, List.length_append, List.length_append, List.length_replicate] at hlength
    rw [hgroups] at hlt
    have hfs : ∀ g ∈ fs, g < 65536 := fun g hg =>
      hlt g (List.mem_append_left _ (List.mem_append_left _ hg))
    have hbs : ∀ g ∈ bs, g < 65536 := fun g hg => hlt g (List.mem_append_right _ hg)
    rw [htext, hgroups]
    exact ⟨parse_compressed hfs hbs hk hlength, Nat.le_of_eq doubleColons_compressed⟩

end

end IPv6Address

/-! ## Ports -/

/-- `IPAddress`: one of the two kinds. -/
inductive IPAddress where
  | ipv4 (a : IPv4Address)
  | ipv6 (a : IPv6Address)

namespace IPAddress

/-- The port, of either family. -/
def getPort : IPAddress → BitVec 32
  | ipv4 a => a.getPort
  | ipv6 a => a.getPort

/-- Sets the port, of either family. -/
def setPort : IPAddress → BitVec 16 → IPAddress
  | ipv4 a, v => ipv4 (a.setPort v)
  | ipv6 a, v => ipv6 (a.setPort v)

/-- The text, of either family. -/
def insert : IPAddress → Bytes
  | ipv4 a => a.insert
  | ipv6 a => a.insert

/-- The object has the port `p` and prints it behind the last `:`, as it does after `setPort(p)`. -/
structure PortIs (a : IPAddress) (p : BitVec 16) : Prop where
  getPort : a.getPort = p.setWidth 32
  insert : ∃ front, a.insert = front ++ str ":" ++ dec p.toNat
  getPort_setPort : a.getPort = (a.setPort p).getPort
  insert_setPort : a.insert = (a.setPort p).insert

/-- The objects that are made with a port, for the `inet_pton` of the two families. -/
inductive Made (inetPton : Bytes → Option (BitVec 32)) (inetPton6 : Bytes → Option (Vector UInt8 16))
    (port : BitVec 32) : IPAddress → Prop
  | new4 (address : BitVec 32) : Made inetPton inetPton6 port (ipv4 (.new address port))
  | create4 {text : Bytes} {a : IPv4Address} :
    IPv4Address.create inetPton text port = some a → Made inetPton inetPton6 port (ipv4 a)
  | new6 (address : Vector UInt8 16) : Made inetPton inetPton6 port (ipv6 (.new address port))
  | create6 {text : Bytes} {a : IPv6Address} :
    IPv6Address.create inetPton6 text port = some a → Made inetPton inetPton6 port (ipv6 a)

/-- The port as it is stored. -/
def portField : IPAddress → BitVec 16
  | ipv4 a => a.sinPort
  | ipv6 a => a.sin6Port

variable {a : IPAddress} {p : BitVec 16}

theorem getPort_eq (a : IPAddress) : a.getPort = (byteswapOnLittleEndian (k := 2) a.portField).setWidth 32 := by
  cases a <;> rfl

theorem setPort_eq (h : a.portField = byteswapOnLittleEndian (k := 2) p) : a.setPort p = a := by
  cases a with
  | ipv4 a => exact congrArg (fun port => ipv4 { a with sinPort := port }) h.symm
  | ipv6 a => exact congrArg (fun port => ipv6 { a with sin6Port := port }) h.symm

theorem insert_eq (a : IPAddress) :
    ∃ front, a.insert = front ++ str ":" ++ dec (byteswapOnLittleEndian (k := 2) a.portField).toNat := by
  cases a with
  | ipv4 a => exact ⟨_, rfl⟩
  | ipv6 a =>
    refine ⟨str "[" ++ IPv6Address.insertAddr a.word ++ str "]", ?_⟩
    show str "[" ++ IPv6Address.insertAddr a.word ++ (str "]" ++ str ":") ++ _ = _
    rw [← List.append_assoc (str "[" ++ _)]
    rfl

theorem setWidth_inj {v w : BitVec 16} (h : v.setWidth 32 = w.setWidth 32) : v = w := by
  apply BitVec.eq_of_toNat_eq
  have hnat := congrArg BitVec.toNat h
  have := v.isLt
  have := w.isLt
  rwa [BitVec.toNat_setWidth, BitVec.toNat_setWidth, Nat.mod_eq_of_lt (by omega),
    Nat.mod_eq_of_lt (by omega)] at hnat

theorem portIs_iff : a.PortIs p ↔ a.portField = byteswapOnLittleEndian (k := 2) p := by
  constructor
  · intro h
    have hport := h.getPort
    rw [getPort_eq] at hport
    rw [← setWidth_inj hport]
    exact (byteSwap_byteSwap (k := 2) _).symm
  · intro h
    have hback : byteswapOnLittleEndian (k := 2) a.portField = p := by
      rw [h]
      exact byteSwap_byteSwap (k := 2) p
    obtain ⟨front, hinsert⟩ := insert_eq a
    rw [hback] at hinsert
    refine ⟨?_, ⟨front, hinsert⟩, ?_, ?_⟩
    · rw [getPort_eq, hback]
    · rw [setPort_eq h]
    · rw [setPort_eq h]

/-- The bytes of a port that is swapped as a `uint32_t` are in the upper half. -/
theorem swapped_port (p : BitVec 16) : (byteswapOnLittleEndian (k := 4) (p.setWidth 32)).setWidth 16 = 0#16 := by
  apply BitVec.eq_of_getLsbD_eq
  intro i hi
  have hbit := getLsbD_byteSwap (k := 4) (p.setWidth 32) (show i < 8 * 4 by omega)
  rw [BitVec.getLsbD_setWidth, decide_eq_true hi, Bool.true_and, BitVec.getLsbD_zero]
  refine hbit.trans ?_
  rw [BitVec.getLsbD_setWidth, BitVec.getLsbD_of_ge p _ (by omega), Bool.and_false]

/-- **An object that is made with a port** has it only if it is 0. -/
theorem made_portIs_iff {inetPton : Bytes → Option (BitVec 32)}
    {inetPton6 : Bytes → Option (Vector UInt8 16)} (h : Made inetPton inetPton6 (p.setWidth 32) a) :
    a.PortIs p ↔ p = 0 := by
  have hfield : a.portField = 0#16 := by
    cases h with
    | new4 address | new6 address => exact swapped_port p
    | create4 hcreate | create6 hcreate =>
      obtain ⟨addr, -, rfl⟩ := Option.map_eq_some_iff.mp hcreate
      exact swapped_port p
  have hzero : byteSwap (k := 2) 0#16 = 0#16 := by decide
  rw [portIs_iff, hfield]
  constructor
  · intro hp
    rw [← byteSwap_byteSwap (k := 2) p]
    exact (congrArg (byteSwap (k := 2)) hp.symm).trans hzero
  · rintro rfl
    exact hzero.symm

/-- 127.0.0.1:0. -/
theorem made_portIs_iff_zero : (ipv4 (.new 0x7F000001 0)).PortIs 0 := by
  have hmade : Made (fun _ => none) (fun _ => none) ((0 : BitVec 16).setWidth 32)
      (ipv4 (.new 0x7F000001 0)) := .new4 0x7F000001
  exact (made_portIs_iff hmade).mpr rfl

/-- 127.0.0.1:8080 has the port 0, and after `setPort` the port 8080. -/
theorem made_portIs_fails : Made (fun _ => none) (fun _ => none) 8080 (ipv4 (.new 0x7F000001 8080)) ∧
      (ipv4 (.new 0x7F000001 8080)).getPort = 0 ∧ (ipv4 (.new 0x7F000001 8080)).insert = str "127.0.0.1:0" ∧
      ((ipv4 (.new 0x7F000001 8080)).setPort 8080).insert = str "127.0.0.1:8080" ∧
      ¬ (ipv4 (.new 0x7F000001 8080)).PortIs 8080 := by
  refine ⟨.new4 _, by decide, by decide +kernel, by decide +kernel, fun h => ?_⟩
  exact absurd h.getPort (by decide)

end IPAddress

end Sherry
