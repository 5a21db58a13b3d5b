import OtaServer.Lib.Bytes
import OtaServer.Lib.Separator

/-!
# Names of hosts (`Address::Lookup` in `sherry/address.cc`)

`Address::Lookup` takes a host string apart into a node and a service for `getaddrinfo`.

* `lookupNames`: what it hands `getaddrinfo`.
* `lookupNames_bracketed`, `lookupNames_plain`: the two ways it goes.
* `Wanted`: the node and the service that a host string stands for. `lookup_iff` says where they are handed over.
-/

namespace Sherry

open Lib

/-- `memchr`: the place of the first such byte. -/
def memchr (s : Bytes) (c : UInt8) : Option Nat := s.findIdx? (· == c)

/-- The node and the place of the service of a host that starts with `[`, if there is a `]`. -/
def lookupBracket (host : Bytes) : Bytes × Option Nat :=
  match host with
  | 91 :: rest =>
    match memchr rest 93 with
    | some e => (rest.take e, if (rest.drop (e + 1)).head? == some 58 then some (e + 3) else none)
    | none => ([], none)
  | _ => ([], none)

/-- The node and the place of the service of a host with a `:`. The service is left at the first `:` if there are
more. -/
def lookupColon (host : Bytes) : Bytes × Option Nat :=
  match memchr host 58 with
  | some c =>
    if (memchr (host.drop (c + 1)) 58).isNone then (host.take c, some (c + 1)) else ([], some c)
  | none => ([], none)

/-- What `Address::Lookup` hands `getaddrinfo`: a node and a service, both as C strings. -/
def lookupNames (host : Bytes) : Bytes × Option Bytes :=
  let names := lookupBracket host
  let names := if names.1.isEmpty then lookupColon host else names
  let node := if names.1.isEmpty then host else names.1
  (cstr node, names.2.map fun place => cstr (host.drop place))

/-! ## The two ways -/

section

variable {host x x' y s : Bytes} {c : UInt8}

theorem memchr_append (hx : c ∉ x) (y : Bytes) : memchr (x ++ c :: y) c = some x.length := by
  have hnone : x.findIdx? (· == c) = none := by
    rw [List.findIdx?_eq_none_iff]
    intro b hb
    exact beq_false_of_ne fun h => hx (h ▸ hb)
  rw [memchr, List.findIdx?_append, hnone, List.findIdx?_cons, if_pos (beq_self_eq_true c)]
  simp

theorem memchr_eq_none_iff : memchr x c = none ↔ c ∉ x := by
  rw [memchr, List.findIdx?_eq_none_iff]
  refine ⟨fun h hc => ?_, fun h b hb => beq_false_of_ne fun hbc => h (hbc ▸ hb)⟩
  have := h c hc
  rw [beq_self_eq_true] at this
  cases this

/-- The host starts with an address in brackets. -/
def Bracket (x y host : Bytes) : Prop := host = 91 :: (x ++ 93 :: y) ∧ x ≠ [] ∧ 93 ∉ x

/-- **A host with brackets**: the service is what follows `]:`. -/
theorem lookupNames_bracketed (h : Bracket x y host) :
    lookupNames host = (cstr x, if y.head? == some 58 then some (cstr y.tail) else none) := by
  obtain ⟨rfl, hne, hx⟩ := h
  have hbracket : lookupBracket (91 :: (x ++ 93 :: y)) =
      (x, if y.head? == some 58 then some (x.length + 3) else none) := by
    simp only [lookupBracket, memchr_append hx, List.take_left, drop_append_cons]
  have hservice : (91 :: (x ++ 93 :: y)).drop (x.length + 3) = y.tail := by
    rw [List.drop_succ_cons, ← List.drop_drop, List.drop_left, List.drop_succ_cons, List.drop_one]
  have hnode : ¬ x.isEmpty := by rwa [List.isEmpty_iff]
  rw [lookupNames, hbracket]
  dsimp only
  rw [if_neg hnode, if_neg hnode]
  split
  · rw [Option.map_some, hservice]
  · rfl

theorem lookupBracket_eq_nil (h : ∀ x y, ¬ Bracket x y host) : (lookupBracket host).1 = [] := by
  unfold lookupBracket
  split
  · next rest =>
    split
    · next e he =>
      have hin : 93 ∈ rest := by
        by_contra hno
        rw [memchr_eq_none_iff.mpr hno] at he
        cases he
      obtain ⟨x, y, rfl, hx⟩ := List.eq_append_cons_of_mem hin
      rw [memchr_append hx, Option.some_inj] at he
      have hnil : x = [] := by_contra fun hne => h x y ⟨rfl, hne, hx⟩
      rw [← he, hnil]
      rfl
    · rfl
  · rfl

/-- **A host without brackets** is taken apart at its `:`. -/
theorem lookupNames_plain (h : ∀ x y, ¬ Bracket x y host) :
    lookupNames host = (cstr (if (lookupColon host).1.isEmpty then host else (lookupColon host).1),
      (lookupColon host).2.map fun place => cstr (host.drop place)) := by
  rw [lookupNames, lookupBracket_eq_nil h, if_pos List.isEmpty_nil]

theorem lookupNames_noColon (h : ∀ x y, ¬ Bracket x y host) (hc : 58 ∉ host) :
    lookupNames host = (cstr host, none) := by
  have hcolon : lookupColon host = ([], none) := by
    rw [lookupColon, memchr_eq_none_iff.mpr hc]
  rw [lookupNames_plain h, hcolon]
  rfl

theorem lookupNames_oneColon (h : ∀ x y, ¬ Bracket x y (x' ++ 58 :: s)) (hne : x' ≠ []) (hx : 58 ∉ x')
    (hs : 58 ∉ s) : lookupNames (x' ++ 58 :: s) = (cstr x', some (cstr s)) := by
  have hcolon : lookupColon (x' ++ 58 :: s) = (x', some (x'.length + 1)) := by
    simp only [lookupColon, memchr_append hx, drop_append_cons, memchr_eq_none_iff.mpr hs, Option.isNone_none,
      if_true,
      List.take_left]
  have hnode : ¬ x'.isEmpty := by rwa [List.isEmpty_iff]
  rw [lookupNames_plain h, hcolon]
  dsimp only
  rw [if_neg hnode, Option.map_some, drop_append_cons]

theorem lookupNames_colons (h : ∀ x y, ¬ Bracket x y (x' ++ 58 :: s)) (hx : 58 ∉ x') (hs : 58 ∈ s) :
    lookupNames (x' ++ 58 :: s) = (cstr (x' ++ 58 :: s), some (cstr (58 :: s))) := by
  have hmore : (memchr s 58).isNone = false := by
    rw [Option.isNone_eq_false_iff, Option.isSome_iff_ne_none, Ne, memchr_eq_none_iff, not_not]
    exact hs
  have hcolon : lookupColon (x' ++ 58 :: s) = ([], some x'.length) := by
    simp only [lookupColon, memchr_append hx, drop_append_cons, hmore, Bool.false_eq_true, if_false]
  rw [lookupNames_plain h, hcolon]
  dsimp only
  rw [if_pos List.isEmpty_nil, Option.map_some, List.drop_left]

end

/-! ## What a host stands for -/

/-- The host is an address in brackets, with or without a service. -/
def Bracketed (host : Bytes) : Prop := ∃ x y, Bracket x y host ∧ (y = [] ∨ y.head? = some 58)

/-- Something else follows the brackets. -/
def Junk (host : Bytes) : Prop := ∃ x y, Bracket x y host ∧ y ≠ [] ∧ y.head? ≠ some 58

/-- The host has two or more `:`, and does not start with a bracket. -/
def Bare (host : Bytes) : Prop := host.head? ≠ some 91 ∧ ∃ x s, host = x ++ 58 :: s ∧ 58 ∉ x ∧ 58 ∈ s

/-- The host stands for nothing. -/
def Silent (host : Bytes) : Prop :=
  ¬ Bracketed host ∧ ((∃ s, host = 58 :: s ∧ 58 ∉ s) ∨
    host.head? = some 91 ∧ ∃ x s, host = x ++ 58 :: s ∧ 58 ∉ x ∧ 58 ∈ s)

/-- The node and the service that a host string stands for. -/
inductive Wanted : Bytes → Bytes → Option Bytes → Prop
  /-- `[x]`. -/
  | bracketed {x host : Bytes} : Bracket x [] host → Wanted host x none
  /-- `[x]:s`. -/
  | bracketedService {x s host : Bytes} : Bracket x (58 :: s) host → Wanted host x (some s)
  /-- `x:s`, with one `:`. -/
  | service {x s : Bytes} : ¬ Bracketed (x ++ 58 :: s) → x ≠ [] → 58 ∉ x → 58 ∉ s →
    Wanted (x ++ 58 :: s) x (some s)
  /-- No `:`. -/
  | plain {host : Bytes} : ¬ Bracketed host → 58 ∉ host → Wanted host host none
  /-- An IPv6 address without brackets. -/
  | bare {host : Bytes} : Bare host → Wanted host host none

/-- `getaddrinfo` is handed what the host stands for. -/
def LookupRight (host : Bytes) : Prop :=
  ∀ node service, Wanted host node service → lookupNames host = (node, service)

section

variable {host x x' y y' s : Bytes}

theorem Bracket.inj (h : Bracket x y host) (h' : Bracket x' y' host) : x = x' ∧ y = y' :=
  (append_cons_inj h.2.2 h'.2.2).mp (List.cons.inj (h.1.symm.trans h'.1)).2

theorem no_bracket (hb : ¬ Bracketed host) (hj : ¬ Junk host) : ∀ x y, ¬ Bracket x y host := by
  intro x y h
  by_cases hy : y = [] ∨ y.head? = some 58
  · exact hb ⟨x, y, h, hy⟩
  · rw [not_or] at hy
    exact hj ⟨x, y, h, hy.1, hy.2⟩

theorem no_bracket_of_head (h : host.head? ≠ some 91) : ∀ x y, ¬ Bracket x y host := by
  rintro x y ⟨rfl, -⟩
  exact h rfl

theorem not_junk_of_bracket (h : Bracket x y host) (hy : y = [] ∨ y.head? = some 58) : ¬ Junk host := by
  rintro ⟨x', y', h', hne, hhead⟩
  obtain ⟨-, rfl⟩ := h.inj h'
  exact hy.elim hne hhead

theorem not_bare_of_bracket (h : Bracket x y host) : ¬ Bare host := by
  rintro ⟨hhead, -⟩
  exact no_bracket_of_head hhead x y h

theorem lookupNames_junk (h : Bracket x y host) (hhead : y.head? ≠ some 58) : lookupNames host = (cstr x, none) := by
  rw [lookupNames_bracketed h, if_neg]
  rwa [beq_iff_eq]

theorem zero_notMem_iff (h : Bracket x y host) : 0 ∉ host ↔ 0 ∉ x ∧ 0 ∉ y := by
  rw [h.1]
  simp

/-- If the names are right, the host has no zero byte, is not followed by junk, and is not bare. -/
theorem of_lookupNames {node : Bytes} {service : Option Bytes} (hw : Wanted host node service)
    (h : lookupNames host = (node, service)) : 0 ∉ host ∧ ¬ Junk host ∧ ¬ Bare host := by
  cases hw with
  | bracketed hb =>
    rw [lookupNames_bracketed hb] at h
    have hx := cstr_eq_self_iff.mp (Prod.mk.inj h).1
    exact ⟨(zero_notMem_iff hb).mpr ⟨hx, List.not_mem_nil⟩, not_junk_of_bracket hb (.inl rfl), not_bare_of_bracket hb⟩
  | bracketedService hb =>
    rw [lookupNames_bracketed hb] at h
    obtain ⟨hnode, hservice⟩ := Prod.mk.inj h
    have hx := cstr_eq_self_iff.mp hnode
    have hs := cstr_eq_self_iff.mp (Option.some.inj hservice)
    refine ⟨(zero_notMem_iff hb).mpr ⟨hx, ?_⟩, not_junk_of_bracket hb (.inr rfl), not_bare_of_bracket hb⟩
    rw [List.mem_cons, not_or]
    exact ⟨by decide, hs⟩
  | @service _ s hbracketed hne hx hs =>
    have hjunk : ¬ Junk (node ++ 58 :: s) := by
      rintro ⟨x', y', hb, -, hhead⟩
      rw [lookupNames_junk hb hhead] at h
      cases (Prod.mk.inj h).2
    rw [lookupNames_oneColon (no_bracket hbracketed hjunk) hne hx hs] at h
    obtain ⟨hnode, hservice⟩ := Prod.mk.inj h
    refine ⟨?_, hjunk, ?_⟩
    · have hx0 := cstr_eq_self_iff.mp hnode
      have hs0 := cstr_eq_self_iff.mp (Option.some.inj hservice)
      simp [hx0, hs0]
    · rintro ⟨-, x', s', heq, hx', hs'⟩
      obtain ⟨-, rfl⟩ := (append_cons_inj hx hx').mp heq
      exact hs hs'
  | plain hbracketed hc =>
    have hjunk : ¬ Junk host := by
      rintro ⟨x', y', hb, -, hhead⟩
      rw [lookupNames_junk hb hhead] at h
      -- the node is shorter than the host
      have hlength := congrArg List.length (Prod.mk.inj h).1
      have hle : (cstr x').length ≤ x'.length := (List.takeWhile_prefix _).length_le
      have hhost := congrArg List.length hb.1
      rw [List.length_cons, List.length_append, List.length_cons] at hhost
      omega
    rw [lookupNames_noColon (no_bracket hbracketed hjunk) hc] at h
    refine ⟨cstr_eq_self_iff.mp (Prod.mk.inj h).1, hjunk, ?_⟩
    rintro ⟨-, x', s', rfl, -⟩
    exact hc (List.mem_append_right _ List.mem_cons_self)
  | bare hbare =>
    obtain ⟨hhead, x', s', rfl, hx', hs'⟩ := hbare
    rw [lookupNames_colons (no_bracket_of_head hhead) hx' hs'] at h
    cases (Prod.mk.inj h).2

theorem lookupNames_of_wanted {node : Bytes} {service : Option Bytes} (hw : Wanted host node service)
    (h0 : 0 ∉ host) (hjunk : ¬ Junk host) (hbare : ¬ Bare host) : lookupNames host = (node, service) := by
  cases hw with
  | bracketed hb =>
    rw [lookupNames_bracketed hb, cstr_eq_self ((zero_notMem_iff hb).mp h0).1]
    rfl
  | @bracketedService _ s _ hb =>
    obtain ⟨hx, hs⟩ := (zero_notMem_iff hb).mp h0
    rw [List.mem_cons, not_or] at hs
    have hservice : cstr (58 :: s).tail = s := cstr_eq_self hs.2
    rw [lookupNames_bracketed hb, cstr_eq_self hx, hservice]
    rfl
  | service hbracketed hne hx hs =>
    simp only [List.mem_cons, List.mem_append, not_or] at h0
    rw [lookupNames_oneColon (no_bracket hbracketed hjunk) hne hx hs, cstr_eq_self h0.1, cstr_eq_self h0.2.2]
  | plain hbracketed hc => rw [lookupNames_noColon (no_bracket hbracketed hjunk) hc, cstr_eq_self h0]
  | bare hb => exact absurd hb hbare

/-- **A host that stands for nothing**: there is no node in front of its only `:`, or it starts with `[`
and has two or more `:` without being an address in brackets. -/
theorem silent_iff : Silent host ↔ ∀ node service, ¬ Wanted host node service := by
  constructor
  · rintro ⟨hbracketed, hcolon⟩ node service hw
    cases hw with
    | bracketed hb => exact hbracketed ⟨_, _, hb, .inl rfl⟩
    | bracketedService hb => exact hbracketed ⟨_, _, hb, .inr rfl⟩
    | @service _ s _ hne hx hs =>
      obtain ⟨s', heq, -⟩ | ⟨-, x', s', heq, hx', hs'⟩ := hcolon
      · have hfront : node ++ 58 :: s = [] ++ 58 :: s' := heq
        exact hne ((append_cons_inj hx List.not_mem_nil).mp hfront).1
      · exact hs (((append_cons_inj hx hx').mp heq).2 ▸ hs')
    | plain _ hc =>
      obtain ⟨s', rfl, -⟩ | ⟨-, x', s', rfl, -⟩ := hcolon
      · exact hc List.mem_cons_self
      · exact hc (List.mem_append_right _ List.mem_cons_self)
    | bare hbare =>
      obtain ⟨hhead, x', s', heq, hx', hs'⟩ := hbare
      obtain ⟨s'', rfl, hs''⟩ | ⟨hhead', -⟩ := hcolon
      · exact hs'' (((append_cons_inj (s := []) List.not_mem_nil hx').mp heq).2 ▸ hs')
      · exact hhead hhead'
  · intro hno
    have hbracketed : ¬ Bracketed host := by
      rintro ⟨x, y, hb, rfl | hhead⟩
      · exact hno x none (.bracketed hb)
      · obtain ⟨s, rfl⟩ := List.head?_eq_some_iff.mp hhead
        exact hno x (some s) (.bracketedService hb)
    refine ⟨hbracketed, ?_⟩
    -- without a colon the whole host is the node
    have hin : 58 ∈ host := by_contra fun hc => hno host none (.plain hbracketed hc)
    obtain ⟨x, s, rfl, hx⟩ := List.eq_append_cons_of_mem hin
    -- a bare address, or a service behind one colon
    by_cases hs : 58 ∈ s
    · refine .inr ⟨?_, x, s, rfl, hx, hs⟩
      by_contra hhead
      exact hno _ none (.bare ⟨hhead, x, s, rfl, hx, hs⟩)
    · have hnil : x = [] := by_contra fun hne => hno x (some s) (.service hbracketed hne hx hs)
      exact .inl ⟨s, by rw [hnil, List.nil_append], hs⟩

/-- **`Address::Lookup`** hands over what the host stands for unless it has a zero byte, other things
follow the brackets, or it is an IPv6 address without brackets. -/
theorem lookup_iff (host : Bytes) : LookupRight host ↔ Silent host ∨ 0 ∉ host ∧ ¬ Junk host ∧ ¬ Bare host := by
  constructor
  · intro h
    by_cases hsilent : Silent host
    · exact .inl hsilent
    · simp only [silent_iff, not_forall, not_not] at hsilent
      obtain ⟨node, service, hw⟩ := hsilent
      exact .inr (of_lookupNames hw (h node service hw))
  · rintro (hsilent | ⟨h0, hjunk, hbare⟩) node service hw
    · exact absurd hw (silent_iff.mp hsilent node service)
    · exact lookupNames_of_wanted hw h0 hjunk hbare

/-- An IPv6 address without brackets has a service, from its first `:` on. -/
theorem lookup_fails : Wanted (str "2001:db8::1") (str "2001:db8::1") none ∧
      lookupNames (str "2001:db8::1") = (str "2001:db8::1", some (str ":db8::1")) ∧
      ¬ LookupRight (str "2001:db8::1") := by
  have hw : Wanted (str "2001:db8::1") (str "2001:db8::1") none :=
    .bare ⟨by decide, str "2001", str "db8::1", rfl, by decide, by decide⟩
  have hnames : lookupNames (str "2001:db8::1") = (str "2001:db8::1", some (str ":db8::1")) := by decide
  refine ⟨hw, hnames, fun h => ?_⟩
  have hright := h _ _ hw
  rw [hnames] at hright
  cases (Prod.mk.inj hright).2

end

end Sherry
