import OtaServer.Http.ContentLength
import OtaServer.Http.ResponseParser
import OtaServer.Lib.Separator
import OtaServer.Ota.HttpManager

/-!
# File downloads (`handle_file_download`, `ota_file_download`)

`handle_file_download` cuts the path behind `/ota/file_download/` at its slashes with three loops over one index, and
hands the three parts on to `ota_file_download`, which makes a file name of them.

* `handleFileDownload`: the three loops. The size of the path is an `int`.
* `handleFileDownload_eq`: what the loops come to, over the parts between the slashes.
* `decided_iff`: when the handler accepts exactly the paths it is meant for. `std::stoi` throws, and it reads signs,
  blanks and numbers with something behind them.
* `confined`: whatever the path, the file is one of the configured directory.
* `fileName_distinct_iff`: when two images have different files.
-/

namespace Sherry

open Lib Http

namespace OTAHttpManager

/-! ## The handler -/

/-- What `handle_file_download` comes to: an answer, an exception, or a call of `ota_file_download`. -/
inductive Handled where
  | answered (rsp : HttpResponse)
  | threw
  | download (deviceType : UInt16) (name version : Bytes)

/-- `while (idx < (int)uri.size() && uri[idx] != '/') ++idx;`, over the bytes from `idx` to the size. -/
def scan : Bytes → Nat → Nat
  | [], idx => idx
  | b :: rest, idx => if b = 47 then idx else scan rest (idx + 1)

/-- The bytes that the loops go over: `(int)uri.size()` many. -/
def visible (uri : Bytes) : Bytes := uri.take (toInt uri.length).toNat

/-- Where a loop ends that starts at `start`. -/
def nextSlash (uri : Bytes) (start : Nat) : Nat := scan ((visible uri).drop start) start

/-- `uri.substr(start, idx - start)`. -/
def substr (uri : Bytes) (start idx : Nat) : Bytes := (uri.drop start).take (idx - start)

/-- The answer to a path that is not understood. -/
def invalidUri (rsp : HttpResponse) : HttpResponse :=
  badRequest rsp (str "request error: invalid URI format")

/-- The third loop of `handle_file_download`, and the call behind it. -/
def handleVersion (uri : Bytes) (rsp : HttpResponse) (deviceType : UInt16) (name : Bytes) (start : Nat) : Handled :=
  if (nextSlash uri start : Int) ≠ toInt uri.length then .answered (invalidUri rsp)
  else .download deviceType name (substr uri start (nextSlash uri start))

/-- The second loop of `handle_file_download`, and what follows. -/
def handleName (uri : Bytes) (rsp : HttpResponse) (deviceType : UInt16) (start : Nat) : Handled :=
  if toInt uri.length ≤ nextSlash uri start then .answered (invalidUri rsp)
  else handleVersion uri rsp deviceType (substr uri start (nextSlash uri start)) (nextSlash uri start + 1)

/-- `OTAHttpManager::handle_file_download`. The number is read before the other two parts are looked at, and its lower
16 bits are the device type. -/
def handleFileDownload (req : HttpRequest) (rsp : HttpResponse) : Handled :=
  if req.method = .options then .answered (setOptions rsp)
  else if toInt req.path.length ≤ nextSlash req.path 19 then .answered (invalidUri rsp)
  else match stoi (substr req.path 19 (nextSlash req.path 19)) with
    | none => .threw
    | some v => handleName req.path rsp (UInt16.ofInt v) (nextSlash req.path 19 + 1)

/-- The parts of a path behind `/ota/file_download/`. -/
def segments (uri : Bytes) : List Bytes := (uri.drop 19).splitOnP (· == 47)

/-- The handler over the parts of a path. -/
def handleSegments (rsp : HttpResponse) : List Bytes → Handled
  | s :: p :: ps => match stoi s with
    | none => .threw
    | some v => match ps with
      | [version] => .download (UInt16.ofInt v) p version
      | _ => .answered (invalidUri rsp)
  | _ => .answered (invalidUri rsp)

/-! ## The loops -/

theorem scan_of_notMem {t : Bytes} (h : 47 ∉ t) (idx : Nat) : scan t idx = idx + t.length := by
  induction t generalizing idx with
  | nil => rfl
  | cons b t ih =>
    obtain ⟨hb, ht⟩ := not_or.mp (fun hm => h (List.mem_cons.mpr hm))
    rw [scan, if_neg (Ne.symm hb), ih ht, List.length_cons]
    omega

variable {rsp : HttpResponse} {name s tail uri version : Bytes} {d : UInt16} {start : Nat} {req : HttpRequest}

theorem scan_append (h : 47 ∉ s) (t : Bytes) (idx : Nat) : scan (s ++ 47 :: t) idx = idx + s.length := by
  induction s generalizing idx with
  | nil => rfl
  | cons b s ih =>
    obtain ⟨hb, hs⟩ := not_or.mp (fun hm => h (List.mem_cons.mpr hm))
    rw [List.cons_append, scan, if_neg (Ne.symm hb), ih hs, List.length_cons]
    omega

/-- A loop runs to the end of the size exactly if it finds no slash. -/
theorem length_visible (uri : Bytes) : (visible uri).length = (toInt uri.length).toNat := by
  have hle := toInt_bounds (Int.natCast_nonneg uri.length)
  rw [visible, List.length_take]
  omega

theorem visible_append (uri : Bytes) : ∃ w, uri = visible uri ++ w :=
  ⟨_, (List.take_append_drop _ uri).symm⟩

theorem visible_eq_self (h : uri.length < 2 ^ 31) : visible uri = uri := by
  rw [visible, toInt_of_lt h]
  exact List.take_length

/-- One loop: it finds no slash and runs to the end, or it stops at the first one. -/
theorem nextSlash_cases (h : start ≤ (visible uri).length) :
    (((visible uri).drop start).splitOnP (· == 47) = [(visible uri).drop start] ∧
        nextSlash uri start = (visible uri).length ∧
        substr uri start (nextSlash uri start) = (visible uri).drop start) ∨
      ∃ s, ((visible uri).drop start).splitOnP (· == 47) =
          s :: ((visible uri).drop (nextSlash uri start + 1)).splitOnP (· == 47) ∧
        nextSlash uri start < (visible uri).length ∧ substr uri start (nextSlash uri start) = s := by
  obtain ⟨w, hw⟩ := visible_append uri
  have hdrop : uri.drop start = (visible uri).drop start ++ w := by
    conv => lhs; rw [hw]
    exact List.drop_append_of_le_length h
  have hlen : ((visible uri).drop start).length = (visible uri).length - start := List.length_drop
  unfold substr nextSlash
  rw [hdrop]
  obtain ⟨hc, hone⟩ | ⟨s, t, hc, heq, hmore⟩ := split_cases 47 ((visible uri).drop start)
  · refine .inl ⟨hone, ?_, ?_⟩
    · rw [scan_of_notMem hc]
      omega
    · rw [scan_of_notMem hc, Nat.add_sub_cancel_left, List.take_left']
      rfl
  · have hbehind : (visible uri).drop (start + s.length + 1) = t := by
      rw [Nat.add_assoc, ← List.drop_drop, heq, List.drop_append, List.drop_eq_nil_of_le (by omega)]
      simp
    rw [heq, List.length_append, List.length_cons] at hlen
    rw [heq, scan_append hc, Nat.add_sub_cancel_left, hbehind, ← heq]
    refine .inr ⟨s, hmore, by omega, ?_⟩
    rw [heq, List.append_assoc, List.take_left']
    rfl

theorem handleVersion_eq (hpos : 0 < start) (h : start ≤ (visible uri).length)
    (rsp : HttpResponse) {v : Int} (hv : stoi s = some v) (name : Bytes) :
    handleVersion uri rsp (UInt16.ofInt v) name start =
      handleSegments rsp (s :: name :: ((visible uri).drop start).splitOnP (· == 47)) := by
  have hvis := length_visible uri
  unfold handleVersion
  obtain ⟨hone, hend, hversion⟩ | ⟨version, hmore, hlt, -⟩ := nextSlash_cases h
  · rw [if_neg (by omega), hversion, hone]
    simp only [handleSegments, hv]
  · obtain ⟨p, ps, hps⟩ := List.exists_cons_of_ne_nil
      (List.splitOnP_ne_nil (· == 47) ((visible uri).drop (nextSlash uri start + 1)))
    rw [if_pos (by omega), hmore, hps]
    simp only [handleSegments, hv]

theorem handleName_eq (h : start ≤ (visible uri).length) (rsp : HttpResponse)
    {v : Int} (hv : stoi s = some v) :
    handleName uri rsp (UInt16.ofInt v) start =
      handleSegments rsp (s :: ((visible uri).drop start).splitOnP (· == 47)) := by
  have hvis := length_visible uri
  unfold handleName
  obtain ⟨hone, hend, -⟩ | ⟨name, hmore, hlt, hname⟩ := nextSlash_cases h
  · rw [if_pos (by omega), hone]
    simp only [handleSegments, hv]
  · rw [if_neg (by omega), hname, hmore]
    exact handleVersion_eq (Nat.succ_pos _) hlt rsp hv name

/-- The loops cut the visible part of the path at its slashes. -/
theorem handleFileDownload_eq (hm : req.method ≠ .options) (rsp : HttpResponse) :
    handleFileDownload req rsp = handleSegments rsp (segments (visible req.path)) := by
  have hvis := length_visible req.path
  unfold handleFileDownload segments
  rw [if_neg hm]
  by_cases h19 : 19 ≤ (visible req.path).length
  · obtain ⟨hone, hend, -⟩ | ⟨s, hmore, hlt, hs⟩ := nextSlash_cases h19
    · rw [if_pos (by omega), hone]
      simp [handleSegments]
    · rw [if_neg (by omega), hs, hmore]
      cases hv : stoi s with
      | none =>
        obtain ⟨p, ps, hps⟩ := List.exists_cons_of_ne_nil
          (List.splitOnP_ne_nil (· == 47) ((visible req.path).drop (nextSlash req.path 19 + 1)))
        rw [hps]
        simp only [handleSegments, hv]
      | some v => exact handleName_eq hlt rsp hv
  · have hnil : (visible req.path).drop 19 = [] := List.drop_eq_nil_of_le (by omega)
    have hidx : nextSlash req.path 19 = 19 := by
      rw [nextSlash, hnil, scan]
    rw [hidx, if_pos (by omega), hnil]
    simp [handleSegments]

/-! ## The paths that are accepted -/

/-- The path of the downloads. -/
def downloadRoute : Bytes := str "/ota/file_download/"

/-- The path asks for the image of a device type, a module and a version. -/
def Names (path : Bytes) (deviceType : UInt16) (name version : Bytes) : Prop :=
  ∃ s, path = downloadRoute ++ s ++ str "/" ++ name ++ str "/" ++ version ∧ 47 ∉ name ∧ 47 ∉ version ∧
    numeral s = some deviceType.toNat

/-- The handler returns, calls `ota_file_download` for what the path asks for and for nothing else, and answers every
other path with 400. -/
structure Decided (req : HttpRequest) (rsp : HttpResponse) : Prop where
  returns : handleFileDownload req rsp ≠ .threw
  calls : ∀ d name version, handleFileDownload req rsp = .download d name version ↔
    Names req.path d name version
  refuses : (¬ ∃ d name version, Names req.path d name version) →
    ∃ rsp', handleFileDownload req rsp = .answered rsp' ∧ rsp'.status = .badRequest

/-- If there is a slash behind it, `std::stoi` accepts the first part; if there are two, it is a number of 16 bits. -/
def FirstReadable (parts : List Bytes) : Prop :=
  ∀ s rest, parts = s :: rest → rest ≠ [] →
    (stoi s).isSome ∧ (rest.length = 2 → ∃ d : UInt16, numeral s = some d.toNat)

theorem slash_notMem_of_numeral {n : Nat} (h : numeral s = some n) : 47 ∉ s := by
  obtain ⟨-, hdigits, -⟩ := numeral_eq_some.mp h
  exact fun hmem => absurd (hdigits 47 hmem) (by decide)

theorem names_iff {path : Bytes} (hp : path = downloadRoute ++ tail) : Names path d name version ↔
      ∃ s, segments path = [s, name, version] ∧ numeral s = some d.toNat := by
  subst hp
  have hdrop : (downloadRoute ++ tail).drop 19 = tail := rfl
  have hslash : str "/" = [47] := by decide
  simp only [Names, segments, hdrop, splitOnP_eq_three, hslash, List.append_assoc, List.singleton_append,
    List.append_cancel_left_eq]
  constructor
  · rintro ⟨s, htail, hname, hversion, hs⟩
    exact ⟨s, ⟨htail, slash_notMem_of_numeral hs, hname, hversion⟩, hs⟩
  · rintro ⟨s, ⟨htail, -, hname, hversion⟩, hs⟩
    exact ⟨s, htail, hname, hversion, hs⟩

theorem ofInt_toNat (d : UInt16) : UInt16.ofInt (d.toNat : Int) = d := by
  apply UInt16.toNat_inj.mp
  rw [UInt16.ofInt, UInt16.toNat_ofNat']
  have hlt := d.toNat_lt
  omega

/-- What the parts of a path come to. -/
theorem handleSegments_cases (rsp : HttpResponse) (parts : List Bytes) :
    (parts.length ≤ 1 ∧ handleSegments rsp parts = .answered (invalidUri rsp)) ∨
    (∃ s p ps, parts = s :: p :: ps ∧ stoi s = none ∧ handleSegments rsp parts = .threw) ∨
    (∃ s v name version, parts = [s, name, version] ∧ stoi s = some v ∧
      handleSegments rsp parts = .download (UInt16.ofInt v) name version) ∨
    (∃ s v p ps, parts = s :: p :: ps ∧ stoi s = some v ∧ ps.length ≠ 1 ∧
      handleSegments rsp parts = .answered (invalidUri rsp)) := by
  match parts with
  | [] => exact .inl ⟨Nat.zero_le 1, rfl⟩
  | [s] => exact .inl ⟨Nat.le_refl 1, rfl⟩
  | s :: p :: ps =>
    refine .inr ?_
    cases hv : stoi s with
    | none =>
      refine .inl ⟨s, p, ps, rfl, hv, ?_⟩
      simp only [handleSegments, hv]
    | some v =>
      refine .inr ?_
      match ps with
      | [version] =>
        refine .inl ⟨s, v, p, version, rfl, hv, ?_⟩
        simp only [handleSegments, hv]
      | [] =>
        refine .inr ⟨s, v, p, [], rfl, hv, by simp, ?_⟩
        simp only [handleSegments, hv]
      | q :: r :: ps =>
        refine .inr ⟨s, v, p, q :: r :: ps, rfl, hv, by simp, ?_⟩
        simp only [handleSegments, hv]

theorem decided_of_refused (hh : handleFileDownload req rsp = .answered (invalidUri rsp))
    (hn : ¬ ∃ d name version, Names req.path d name version) : Decided req rsp where
  returns := by
    rw [hh]
    exact fun h => Handled.noConfusion h
  calls d name version := by
    rw [hh]
    exact ⟨fun h => Handled.noConfusion h, fun h => absurd ⟨d, name, version, h⟩ hn⟩
  refuses _ := ⟨invalidUri rsp, hh, rfl⟩

/-- An `OPTIONS` request is answered with 200, whatever its path. -/
theorem not_decided_of_options (hm : req.method = .options) : ¬ Decided req rsp := by
  intro h
  have hh : handleFileDownload req rsp = .answered (setOptions rsp) := if_pos hm
  by_cases hn : ∃ d name version, Names req.path d name version
  · obtain ⟨d, name, version, hn⟩ := hn
    have hcall := (h.calls d name version).mpr hn
    rw [hh] at hcall
    exact Handled.noConfusion hcall
  · obtain ⟨rsp', hrsp, hstatus⟩ := h.refuses hn
    rw [hh] at hrsp
    obtain rfl := Handled.answered.inj hrsp
    exact HttpStatus.noConfusion hstatus

/-- The handler reads less than the whole of a path of 2 GiB or more, so it never finds what such a path asks for. -/
theorem visible_ne_of_names {path : Bytes} (hp : path = downloadRoute ++ tail) (hlong : 2 ^ 31 ≤ path.length)
    (hn : Names path d name version) : segments (visible path) ≠ [s, name, version] := by
  intro hvis
  obtain ⟨s', hs', hnum⟩ := (names_iff hp).mp hn
  obtain ⟨hseen, h₁, h₂, -⟩ := splitOnP_eq_three.mp hvis
  obtain ⟨hall, h₃, h₄, -⟩ := splitOnP_eq_three.mp hs'
  obtain ⟨w, hw⟩ := visible_append path
  have hlen : (visible path).length < path.length := by
    have hwraps := toInt_lt_of_wraps (v := path.length) (by omega)
    rw [length_visible]
    omega
  have h19 : 19 ≤ (visible path).length := by
    have hpos : 0 < ((visible path).drop 19).length := by
      rw [hseen]
      exact List.length_pos_of_mem (List.mem_append_right s List.mem_cons_self)
    rw [List.length_drop] at hpos
    omega
  have hwhole : path.drop 19 = (visible path).drop 19 ++ w := by
    conv => lhs; rw [hw]
    exact List.drop_append_of_le_length h19
  rw [hall, hseen, List.append_assoc, List.cons_append, List.append_assoc, List.cons_append] at hwhole
  obtain ⟨-, hwhole⟩ := (append_cons_inj h₃ h₁).mp hwhole
  obtain ⟨-, hwhole⟩ := (append_cons_inj h₄ h₂).mp hwhole
  have hnil : w = [] := List.self_eq_append_right.mp hwhole
  rw [hnil, List.append_nil] at hw
  rw [← hw] at hlen
  exact Nat.lt_irrefl _ hlen

theorem decided_iff_of_short (hp : req.path = downloadRoute ++ tail)
    (hm : req.method ≠ .options) (hshort : req.path.length < 2 ^ 31) (rsp : HttpResponse) :
    Decided req rsp ↔ FirstReadable (segments req.path) := by
  have heq := handleFileDownload_eq hm rsp
  rw [visible_eq_self hshort] at heq
  obtain ⟨hlen, hh⟩ | ⟨s, p, ps, hparts, hv, hh⟩ | ⟨s, v, name, version, hparts, hv, hh⟩ |
    ⟨s, v, p, ps, hparts, hv, hlen, hh⟩ := handleSegments_cases rsp (segments req.path)
  · -- no slash
    have hn : ¬ ∃ d name version, Names req.path d name version := by
      rintro ⟨d, name, version, hn⟩
      obtain ⟨s, hs, -⟩ := (names_iff hp).mp hn
      rw [hs, List.length_cons, List.length_cons] at hlen
      omega
    refine ⟨fun _ s rest hparts hrest => ?_, fun _ => decided_of_refused (heq.trans hh) hn⟩
    rw [hparts, List.length_cons] at hlen
    exact absurd (List.length_eq_zero_iff.mp (by omega)) hrest
  · -- `std::stoi` throws
    refine ⟨fun h => absurd (heq.trans hh) h.returns, fun h => ?_⟩
    have hsome := (h s (p :: ps) hparts (List.cons_ne_nil p ps)).1
    rw [hv] at hsome
    cases hsome
  · -- three parts: the call has to be the one that the path asks for
    constructor
    · intro h
      obtain ⟨s', hs', hnum⟩ := (names_iff hp).mp ((h.calls _ _ _).mp (heq.trans hh))
      intro s₁ rest h₁ _
      obtain ⟨rfl, -⟩ := List.cons.inj (hparts.symm.trans h₁)
      obtain ⟨rfl, -⟩ := List.cons.inj (hparts.symm.trans hs')
      exact ⟨Option.isSome_iff_exists.mpr ⟨v, hv⟩, fun _ => ⟨_, hnum⟩⟩
    · intro h
      obtain ⟨d, hd⟩ := (h s _ hparts (List.cons_ne_nil _ _)).2 rfl
      have hlt := d.toNat_lt
      have hvd : v = d.toNat := Option.some.inj (hv.symm.trans (stoi_of_numeral hd (by omega)))
      rw [hvd, ofInt_toNat] at hh
      have hn : Names req.path d name version := (names_iff hp).mpr ⟨s, hparts, hd⟩
      refine ⟨?_, fun d' name' version' => ?_, fun hnone => absurd ⟨d, name, version, hn⟩ hnone⟩
      · rw [heq, hh]
        exact fun h => Handled.noConfusion h
      · rw [heq, hh, names_iff hp, hparts]
        constructor
        · intro h
          obtain ⟨rfl, rfl, rfl⟩ := Handled.download.inj h
          exact ⟨s, rfl, hd⟩
        · rintro ⟨s', hs', hd'⟩
          obtain ⟨rfl, rfl, rfl⟩ : s = s' ∧ name = name' ∧ version = version' := by simpa using hs'
          rw [UInt16.toNat_inj.mp (Option.some.inj (hd.symm.trans hd'))]
  · -- one slash, or more than two
    have hn : ¬ ∃ d name version, Names req.path d name version := by
      rintro ⟨d, name, version, hn⟩
      obtain ⟨s', hs', -⟩ := (names_iff hp).mp hn
      obtain ⟨-, -, rfl⟩ : s = s' ∧ p = name ∧ ps = [version] := by simpa [hparts] using hs'
      exact hlen rfl
    refine ⟨fun _ s₁ rest h₁ _ => ?_, fun _ => decided_of_refused (heq.trans hh) hn⟩
    obtain ⟨rfl, rfl⟩ := List.cons.inj (hparts.symm.trans h₁)
    refine ⟨Option.isSome_iff_exists.mpr ⟨v, hv⟩, fun htwo => ?_⟩
    rw [List.length_cons] at htwo
    exact absurd (by omega) hlen

theorem decided_iff_of_long (hp : req.path = downloadRoute ++ tail)
    (hm : req.method ≠ .options) (hlong : 2 ^ 31 ≤ req.path.length) (rsp : HttpResponse) :
    Decided req rsp ↔ (¬ ∃ d name version, Names req.path d name version) ∧
      ∀ s rest, segments (visible req.path) = s :: rest → rest ≠ [] → (stoi s).isSome ∧ rest.length ≠ 2 := by
  have heq := handleFileDownload_eq hm rsp
  have hrefused (h : Decided req rsp) : ¬ ∃ d name version, Names req.path d name version := by
    rintro ⟨d, name, version, hn⟩
    have hcall := heq.symm.trans ((h.calls d name version).mpr hn)
    obtain ⟨-, hh⟩ | ⟨_, _, _, -, -, hh⟩ | ⟨s, v, name', version', hparts, -, hh⟩ | ⟨_, _, _, _, -, -, -, hh⟩ :=
      handleSegments_cases rsp (segments (visible req.path))
    · exact Handled.noConfusion (hh.symm.trans hcall)
    · exact Handled.noConfusion (hh.symm.trans hcall)
    · obtain ⟨-, rfl, rfl⟩ := Handled.download.inj (hh.symm.trans hcall)
      exact visible_ne_of_names hp hlong hn hparts
    · exact Handled.noConfusion (hh.symm.trans hcall)
  obtain ⟨hlen, hh⟩ | ⟨s, p, ps, hparts, hv, hh⟩ | ⟨s, v, name, version, hparts, hv, hh⟩ |
    ⟨s, v, p, ps, hparts, hv, hlen, hh⟩ := handleSegments_cases rsp (segments (visible req.path))
  · refine ⟨fun h => ⟨hrefused h, fun s rest hparts hrest => ?_⟩,
      fun h => decided_of_refused (heq.trans hh) h.1⟩
    rw [hparts, List.length_cons] at hlen
    exact absurd (List.length_eq_zero_iff.mp (by omega)) hrest
  · refine ⟨fun h => absurd (heq.trans hh) h.returns, fun h => ?_⟩
    have hsome := (h.2 s (p :: ps) hparts (List.cons_ne_nil p ps)).1
    rw [hv] at hsome
    cases hsome
  · refine ⟨fun h => absurd ⟨_, _, _, (h.calls _ _ _).mp (heq.trans hh)⟩ (hrefused h), fun h => ?_⟩
    exact absurd rfl (h.2 s _ hparts (List.cons_ne_nil _ _)).2
  · refine ⟨fun h => ⟨hrefused h, fun s₁ rest h₁ _ => ?_⟩,
      fun h => decided_of_refused (heq.trans hh) h.1⟩
    obtain ⟨rfl, rfl⟩ := List.cons.inj (hparts.symm.trans h₁)
    refine ⟨Option.isSome_iff_exists.mpr ⟨v, hv⟩, fun htwo => ?_⟩
    rw [List.length_cons] at htwo
    exact absurd (by omega) hlen

/-- **Accepted paths.** The handler decides a path as it should exactly if the request is no `OPTIONS`
request and, for a path of less than 2 GiB, what is in front of a first slash is a text that `std::stoi`
accepts, and a number of 16 bits if there is exactly one slash behind. -/
theorem decided_iff (hp : req.path = downloadRoute ++ tail) (rsp : HttpResponse) :
    Decided req rsp ↔ req.method ≠ .options ∧ (req.path.length < 2 ^ 31 → FirstReadable (segments req.path)) ∧
      (2 ^ 31 ≤ req.path.length → (¬ ∃ d name version, Names req.path d name version) ∧
        ∀ s rest, segments (visible req.path) = s :: rest → rest ≠ [] → (stoi s).isSome ∧ rest.length ≠ 2) := by
  by_cases hm : req.method = .options
  · exact ⟨fun h => absurd h (not_decided_of_options hm), fun h => absurd hm h.1⟩
  by_cases hlen : req.path.length < 2 ^ 31
  · rw [decided_iff_of_short hp hm hlen]
    exact ⟨fun h => ⟨hm, fun _ => h, fun hge => absurd hlen (Nat.not_lt.mpr hge)⟩, fun h => h.2.1 hlen⟩
  · rw [decided_iff_of_long hp hm (Nat.not_lt.mp hlen)]
    exact ⟨fun h => ⟨hm, fun hlt => absurd hlt hlen, fun _ => h⟩, fun h => h.2.2 (Nat.not_lt.mp hlen)⟩

theorem decided_seven : Decided { path := str "/ota/file_download/7/cam/v1" } {} := by
  have hpath : str "/ota/file_download/7/cam/v1" = downloadRoute ++ str "7/cam/v1" := by decide +kernel
  have hparts : segments (str "/ota/file_download/7/cam/v1") = [str "7", str "cam", str "v1"] := by
    decide +kernel
  refine (decided_iff hpath {}).mpr ⟨?_, ?_, ?_⟩
  · exact fun h => HttpMethod.noConfusion h
  · intro _ s rest h _
    obtain ⟨rfl, -⟩ := List.cons.inj (hparts.symm.trans h)
    exact ⟨by decide, fun _ => ⟨7, by decide +kernel⟩⟩
  · intro h
    exact absurd h (by decide +kernel)

/-- A text that is no number throws, and a number with a sign is taken for a device type. -/
theorem decided_fails : ¬ Decided { path := str "/ota/file_download/x/cam/v1" } {} ∧
    ¬ Decided { path := str "/ota/file_download/-1/cam/v1" } {} := by
  constructor
  · have hpath : str "/ota/file_download/x/cam/v1" = downloadRoute ++ str "x/cam/v1" := by decide +kernel
    have hparts : segments (str "/ota/file_download/x/cam/v1") = [str "x", str "cam", str "v1"] := by
      decide +kernel
    rw [decided_iff_of_short hpath (fun h => HttpMethod.noConfusion h) (by decide +kernel), hparts]
    intro h
    exact absurd (h _ _ rfl (List.cons_ne_nil _ _)).1 (by decide)
  · have hpath : str "/ota/file_download/-1/cam/v1" = downloadRoute ++ str "-1/cam/v1" := by decide +kernel
    have hparts : segments (str "/ota/file_download/-1/cam/v1") = [str "-1", str "cam", str "v1"] := by
      decide +kernel
    rw [decided_iff_of_short hpath (fun h => HttpMethod.noConfusion h) (by decide +kernel), hparts]
    intro h
    obtain ⟨d, hd⟩ := (h _ _ rfl (List.cons_ne_nil _ _)).2 rfl
    have hnone : numeral (str "-1") = none := by decide
    rw [hnone] at hd
    cases hd

/-! ## The file -/

/-- The name of the file of an image. -/
def fileName (deviceType : UInt16) (name version : Bytes) : Bytes :=
  str "ota_" ++ dec deviceType.toNat ++ str "_" ++ version ++ str "_" ++ name ++ str ".jpg"

/-- `file_path`, behind the configured directory. -/
def filePath (filePrevPath : Bytes) (deviceType : UInt16) (name version : Bytes) : Bytes :=
  filePrevPath ++ fileName deviceType name version

/-- A name of a file in a directory. -/
structure IsFileName (c : Bytes) : Prop where
  noSlash : 47 ∉ c
  nonempty : c ≠ []
  notDot : c ≠ str "."
  notDotDot : c ≠ str ".."

/-- What stands up to the last slash of a path. -/
def directoryOf (path : Bytes) : Bytes := (path.reverse.dropWhile (· != 47)).reverse

theorem directoryOf_append {dir c : Bytes} (hdir : dir.getLast? = some 47) (hc : 47 ∉ c) :
    directoryOf (dir ++ c) = dir := by
  obtain ⟨up, rfl⟩ := List.getLast?_eq_some_iff.mp hdir
  have hback : ∀ b ∈ c.reverse, (b != 47) = true := by
    intro b hb
    have hne : b ≠ 47 := fun e => hc (e ▸ List.mem_reverse.mp hb)
    simpa using hne
  rw [directoryOf, List.reverse_append, List.dropWhile_append_of_pos hback, List.reverse_append,
    List.reverse_singleton, List.singleton_append, List.dropWhile_cons_of_neg (by decide),
    List.reverse_cons, List.reverse_reverse]

/-- The parts that `ota_file_download` gets have no slash. -/
theorem handleFileDownload_download (h : handleFileDownload req rsp = .download d name version) :
    47 ∉ name ∧ 47 ∉ version := by
  have hm : req.method ≠ .options := by
    intro hm
    rw [handleFileDownload, if_pos hm] at h
    cases h
  rw [handleFileDownload_eq hm] at h
  obtain ⟨-, hh⟩ | ⟨_, _, _, -, -, hh⟩ | ⟨s, v, name', version', hparts, -, hh⟩ | ⟨_, _, _, _, -, -, -, hh⟩ :=
    handleSegments_cases rsp (segments (visible req.path))
  · exact Handled.noConfusion (hh.symm.trans h)
  · exact Handled.noConfusion (hh.symm.trans h)
  · obtain ⟨-, rfl, rfl⟩ := Handled.download.inj (hh.symm.trans h)
    obtain ⟨-, -, hname, hversion⟩ := splitOnP_eq_three.mp hparts
    exact ⟨hname, hversion⟩
  · exact Handled.noConfusion (hh.symm.trans h)

theorem isFileName_ota {t : Bytes} (ht : 47 ∉ t) : IsFileName (str "ota_" ++ t) where
  noSlash := by
    have hota : 47 ∉ str "ota_" := by decide
    exact fun h => (List.mem_append.mp h).elim hota ht
  nonempty h := List.cons_ne_nil _ _ h
  notDot h := absurd (List.cons.inj h).1 (by decide)
  notDotDot h := absurd (List.cons.inj h).1 (by decide)

/-- **Confinement.** Whatever the path of the request: the path of the file is the configured directory
and a file name. What `open` reads of it, up to a zero byte, is the directory and a file name too; only if
the configured directory has a zero byte itself, it is a part of that, whatever the request. -/
theorem confined (h : handleFileDownload req rsp = .download d name version) {dir : Bytes}
    (hdir : dir.getLast? = some 47) : IsFileName (fileName d name version) ∧
      filePath dir d name version = dir ++ fileName d name version ∧ directoryOf (filePath dir d name version) = dir ∧
      IsFileName (cstr (fileName d name version)) ∧
      (0 ∉ dir → cstr (filePath dir d name version) = dir ++ cstr (fileName d name version) ∧
        directoryOf (cstr (filePath dir d name version)) = dir) ∧
      (0 ∈ dir → cstr (filePath dir d name version) = cstr dir) := by
  obtain ⟨hname, hversion⟩ := handleFileDownload_download h
  have hrest : 47 ∉ dec d.toNat ++ str "_" ++ version ++ str "_" ++ name ++ str ".jpg" := by
    have hdec : 47 ∉ dec d.toNat := fun hm => absurd (digit_of_mem_dec hm).1 (by decide)
    have hbar : 47 ∉ str "_" := by decide
    have hjpg : 47 ∉ str ".jpg" := by decide
    simp only [List.mem_append, not_or]
    exact ⟨⟨⟨⟨⟨hdec, hbar⟩, hversion⟩, hbar⟩, hname⟩, hjpg⟩
  have hfile : fileName d name version =
      str "ota_" ++ (dec d.toNat ++ str "_" ++ version ++ str "_" ++ name ++ str ".jpg") := by
    simp only [fileName, List.append_assoc]
  have hread : IsFileName (cstr (fileName d name version)) := by
    rw [hfile, cstr_append (by decide)]
    exact isFileName_ota fun hm => hrest ((List.takeWhile_sublist _).subset hm)
  have hwhole : IsFileName (fileName d name version) := hfile ▸ isFileName_ota hrest
  refine ⟨hwhole, rfl, directoryOf_append hdir hwhole.noSlash, hread, fun h0 => ?_, fun h0 => ?_⟩
  · rw [filePath, cstr_append h0]
    exact ⟨rfl, directoryOf_append hdir hread.noSlash⟩
  · exact cstr_append_of_mem h0 _

theorem confined_seven : 47 ∉ fileName 7 (str "..") (str "v1") ∧
    filePath (str "/srv/ota/") 7 (str "..") (str "v1") = str "/srv/ota/ota_7_v1_...jpg" := by
  have hparts : segments (visible (str "/ota/file_download/7/../v1")) = [str "7", str "..", str "v1"] := by
    decide +kernel
  have hv : stoi (str "7") = some 7 := by decide
  have h : handleFileDownload { path := str "/ota/file_download/7/../v1" } {} =
      .download 7 (str "..") (str "v1") := by
    rw [handleFileDownload_eq fun h => HttpMethod.noConfusion h, hparts]
    simp only [handleSegments, hv]
    rfl
  have hdir : (str "/srv/ota/").getLast? = some 47 := by decide
  exact ⟨(confined h hdir).1.noSlash, by decide +kernel⟩

/-- Two images have the same file exactly if they are of one device type and their versions and names come to the same
text. -/
theorem fileName_eq_iff {d' : UInt16} {name' version' : Bytes} :
    fileName d name version = fileName d' name' version' ↔
      d = d' ∧ version ++ 95 :: name = version' ++ 95 :: name' := by
  have hbar : str "_" = [95] := by decide
  have hdec : ∀ d : UInt16, 95 ∉ dec d.toNat := fun d hm => absurd (digit_of_mem_dec hm).2 (by decide)
  have hcut : ∀ (d : UInt16) (name version : Bytes), fileName d name version =
      str "ota_" ++ (dec d.toNat ++ 95 :: (version ++ 95 :: name ++ str ".jpg")) := by
    intro d name version
    simp only [fileName, hbar, List.append_assoc, List.cons_append, List.nil_append]
  rw [hcut, hcut, List.append_cancel_left_eq, append_cons_inj (hdec d) (hdec d'), dec_inj, UInt16.toNat_inj,
    List.append_cancel_right_eq]

/-- **Files of different images.** Only equal images have one file exactly if it is not so that, for one
device type, a piece between two bars ends the one version and begins the other name. -/
theorem fileName_distinct_iff (d d' : UInt16) (name version name' version' : Bytes) :
    (fileName d name version = fileName d' name' version' → d = d' ∧ name = name' ∧ version = version') ↔
      ¬ (d = d' ∧ ∃ m, (version' = version ++ str "_" ++ m ∧ name = m ++ str "_" ++ name') ∨
        (version = version' ++ str "_" ++ m ∧ name' = m ++ str "_" ++ name)) := by
  have hbar : str "_" = [95] := by decide
  simp only [fileName_eq_iff, append_cons_eq_iff, hbar, List.append_assoc, List.singleton_append]
  have hlonger : ∀ a m : Bytes, a ≠ a ++ 95 :: m := fun a m h =>
    List.cons_ne_nil _ _ (List.self_eq_append_right.mp h)
  constructor
  · rintro h ⟨hd, m, ⟨hv, hn⟩ | ⟨hv, hn⟩⟩
    · obtain ⟨-, -, heq⟩ := h ⟨hd, .inr (.inl ⟨m, hv, hn⟩)⟩
      exact hlonger version m (heq.trans hv)
    · obtain ⟨-, -, heq⟩ := h ⟨hd, .inr (.inr ⟨m, hv, hn⟩)⟩
      exact hlonger version' m (heq.symm.trans hv)
  · rintro h ⟨hd, ⟨hv, hn⟩ | ⟨m, hm⟩ | ⟨m, hm⟩⟩
    · exact ⟨hd, hn, hv⟩
    · exact absurd ⟨hd, m, .inl hm⟩ h
    · exact absurd ⟨hd, m, .inr hm⟩ h

/-- Version `1_0` of the module `cam` and version `1` of the module `0_cam` have one file. -/
theorem fileName_shared : fileName 7 (str "cam") (str "1_0") = fileName 7 (str "0_cam") (str "1") ∧
    ¬ (fileName 7 (str "cam") (str "1_0") = fileName 7 (str "0_cam") (str "1") →
      (7 : UInt16) = 7 ∧ str "cam" = str "0_cam" ∧ str "1_0" = str "1") := by
  decide +kernel

/-! ## The response -/

/-- `FileDetail`. -/
structure FileDetail where
  size : Nat
  md5 : Bytes

/-- The response that `ota_file_download` prepares, for what `getFileDetail` has found. The bytes of the file follow
the head; they are no body of the response. -/
def downloadResponse (deviceType : UInt16) (name version : Bytes) (rsp : HttpResponse) :
    Option FileDetail → HttpResponse
  | none => { rsp with status := .notFound, body := str "no file." }
  | some detail =>
    { ((({ rsp with status := .ok }.setHeader (str "Content-Length") (dec detail.size)).setHeader
        (str "X-Content-MD5") detail.md5).setHeader (str "Content-Disposition")
        (str "attachment; filename=" ++ fileName deviceType name version)).setHeader
        (str "Content-Type") (str "image/jpeg") with close := true }

theorem lf_notMem_fileName (hname : 10 ∉ name) (hversion : 10 ∉ version) : 10 ∉ fileName d name version := by
  have hdec : 10 ∉ dec d.toNat := fun hm => absurd (digit_of_mem_dec hm).1 (by decide)
  have h₁ : 10 ∉ str "ota_" := by decide
  have h₂ : 10 ∉ str "_" := by decide
  have h₃ : 10 ∉ str ".jpg" := by decide
  simp only [fileName, List.mem_append, not_or]
  exact ⟨⟨⟨⟨⟨⟨h₁, hdec⟩, h₂⟩, hversion⟩, h₂⟩, hname⟩, h₃⟩

/-- The head of a download announces the size of the file, and nothing else. -/
theorem contentLengths_download (hname : 10 ∉ name)
    (hversion : 10 ∉ version) {detail : FileDetail} (hmd5 : 10 ∉ detail.md5)
    (hplain : PlainHead rsp) (hbody : rsp.body = []) :
    contentLengths (downloadResponse d name version rsp (some detail)).dumpHead = [some detail.size] := by
  have hsize : 10 ∉ dec detail.size := fun hm => absurd (digit_of_mem_dec hm).1 (by decide)
  have hfile : 10 ∉ str "attachment; filename=" ++ fileName d name version := by
    have hfront : 10 ∉ str "attachment; filename=" := by decide
    exact fun hm => (List.mem_append.mp hm).elim hfront (lf_notMem_fileName hname hversion)
  have hset : PlainHead (downloadResponse d name version rsp (some detail)) := by
    have h₀ : PlainHead { rsp with status := .ok } := ⟨hplain.reason, hplain.names, hplain.values⟩
    have hnames : IsToken (str "Content-Length") ∧ IsToken (str "X-Content-MD5") ∧
        IsToken (str "Content-Disposition") ∧ IsToken (str "Content-Type") := by decide +kernel
    have h₄ := (((h₀.setHeader hnames.1 hsize).setHeader hnames.2.1 hmd5).setHeader hnames.2.2.1
      hfile).setHeader hnames.2.2.2 (by decide : 10 ∉ str "image/jpeg")
    exact ⟨h₄.reason, h₄.names, h₄.values⟩
  have hkeys : caseKey (str "Content-Length") = caseKey (str "content-length") ∧
      caseKey (str "X-Content-MD5") ≠ caseKey (str "content-length") ∧
      caseKey (str "Content-Disposition") ≠ caseKey (str "content-length") ∧
      caseKey (str "Content-Type") ≠ caseKey (str "content-length") := by decide +kernel
  have hlength : (downloadResponse d name version rsp (some detail)).headers.find? (str "content-length") =
      some (dec detail.size) := by
    simp only [downloadResponse, HttpResponse.setHeader, KeyMap.find?_set, hkeys, if_true, if_false]
  have hempty : (downloadResponse d name version rsp (some detail)).body = [] := hbody
  have hdigit : ∀ b ∈ dec detail.size, isFieldBlank b = false := fun b hb =>
    (isFieldBlank_of_digit b (digit_of_mem_dec hb)).1
  have htrim : trimField (32 :: dec detail.size) = dec detail.size := by
    have hblanks := trimField_of_blanks (dec_ne_nil _) hdigit (List.forall_mem_nil _)
    rwa [List.append_nil] at hblanks
  rw [contentLengths_dumpHead, if_pos hempty, givenLengths_of_plain hset, hlength, List.append_nil,
    Option.map_some, htrim, numeral_dec]
  rfl

theorem contentLengths_download_three :
    contentLengths (downloadResponse 7 (str "x") (str "1") {} (some ⟨3, str "m"⟩)).dumpHead = [some 3] :=
  contentLengths_download (by decide) (by decide) (by decide) ⟨by decide, by decide, by decide⟩ rfl

end OTAHttpManager

end Sherry
