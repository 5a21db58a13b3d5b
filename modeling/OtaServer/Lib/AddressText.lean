import OtaServer.Lib.Number
import OtaServer.Lib.Separator

/-!
# IPv6 addresses as text (RFC 4291, section 2.2)

An address is eight groups of one to four hexadecimal digits with colons between them. Once, `::` may stand for one or
more groups of zeros, and the last two groups may be written as an IPv4 address.

* `parse`: the bytes of an address. `doubleColons` counts the places of `::`.
* `joined`: groups with colons between them. `parse_joined` and `parse_compressed` read them back.
-/

namespace Lib.AddressText

/-- A group: one to four hexadecimal digits. -/
def group (piece : Bytes) : Option Nat :=
  if piece ≠ [] ∧ piece.length ≤ 4 ∧ piece.all (digitValue · < 16) then some (valueOf 16 piece) else none

/-- An IPv4 address as two groups: four decimal numbers below 256 with dots between them. -/
def dotted (piece : Bytes) : Option (List Nat) :=
  match (piece.splitOnP (· == 46)).mapM numeral with
  | some [a, b, c, d] =>
    if a < 256 ∧ b < 256 ∧ c < 256 ∧ d < 256 then some [256 * a + b, 256 * c + d] else none
  | _ => none

/-- The groups of some pieces. The last piece of an address may be an IPv4 address. -/
def groups (last : Bool) : List Bytes → Option (List Nat)
  | [] => some []
  | [piece] =>
    match group piece with
    | some g => some [g]
    | none => if last then dotted piece else none
  | piece :: next :: pieces =>
    match group piece with
    | some g => (groups last (next :: pieces)).map (g :: ·)
    | none => none

/-- The groups of a text without `::`, which may be empty beside `::`. -/
def side (last : Bool) (text : Bytes) : Option (List Nat) :=
  if text.isEmpty then some [] else groups last (text.splitOnP (· == 58))

/-- The text in front of the first `::` and the text behind it. -/
def splitDouble : Bytes → Option (Bytes × Bytes)
  | 58 :: 58 :: text => some ([], text)
  | c :: text => (splitDouble text).map fun x => (c :: x.1, x.2)
  | [] => none

/-- The bytes of some groups. -/
def groupBytes (gs : List Nat) : Bytes := gs.flatMap fun g => [UInt8.ofNat (g / 256), UInt8.ofNat g]

/-- The bytes of an address. -/
def parse (text : Bytes) : Option Bytes :=
  match splitDouble text with
  | none => (side true text).bind fun gs => if gs.length = 8 then some (groupBytes gs) else none
  | some (front, back) =>
    (side false front).bind fun fs => (side true back).bind fun bs =>
      if fs.length + bs.length < 8 then
        some (groupBytes (fs ++ List.replicate (8 - (fs.length + bs.length)) 0 ++ bs))
      else none

/-- The number of places of `::`. -/
def doubleColons : Bytes → Nat
  | 58 :: 58 :: text => doubleColons (58 :: text) + 1
  | _ :: text => doubleColons text
  | [] => 0

/-- Groups in hexadecimal with colons between them. -/
def joined : List Nat → Bytes
  | [] => []
  | g :: gs => hex g ++ gs.flatMap fun g => 58 :: hex g

example : parse (str "2001:DB8::192.0.2.33") =
    some [0x20, 0x01, 0x0D, 0xB8, 0, 0, 0, 0, 0, 0, 0, 0, 192, 0, 2, 33] := by decide +kernel

example : parse (str "1::2::3") = none := by decide +kernel

/-! ## Components -/

section

variable {g : Nat} {gs : List Nat}

theorem colon_notMem_hex (g : Nat) : 58 ∉ hex g := by
  intro h
  exact absurd (digitValue_lt_of_mem_hex h) (by decide)

theorem group_hex (hg : g < 65536) : group (hex g) = some g := by
  have hdigits : (hex g).all (digitValue · < 16) := by
    rw [List.all_eq_true]
    exact fun b hb => decide_eq_true (digitValue_lt_of_mem_hex hb)
  rw [group, if_pos ⟨hex_ne_nil g, length_hex_le (by decide) hg, hdigits⟩, valueOf_hex]

theorem groups_map_hex {last : Bool} (hgs : ∀ g ∈ gs, g < 65536) : groups last (gs.map hex) = some gs := by
  induction gs with
  | nil => rfl
  | cons g gs ih =>
    obtain ⟨hg, hgs⟩ := List.forall_mem_cons.mp hgs
    cases gs with
    | nil => rw [List.map_cons, List.map_nil, groups, group_hex hg]
    | cons g' gs =>
      have hrest := ih hgs
      rw [List.map_cons] at hrest
      rw [List.map_cons, List.map_cons, groups, group_hex hg, hrest]
      rfl

end

/-! ## Splitting -/

section

variable {s x : Bytes} {g : Nat} {gs : List Nat}

theorem joined_cons_cons (g g' : Nat) (gs : List Nat) :
    joined (g :: g' :: gs) = hex g ++ 58 :: joined (g' :: gs) := by
  rw [joined, joined, List.flatMap_cons, List.cons_append]

theorem joined_ne_nil (g : Nat) (gs : List Nat) : joined (g :: gs) ≠ [] :=
  List.append_ne_nil_of_left_ne_nil (hex_ne_nil g) _

theorem joined_concat (hgs : gs ≠ []) (g : Nat) : joined (gs ++ [g]) = joined gs ++ 58 :: hex g := by
  obtain ⟨g', gs, rfl⟩ := List.exists_cons_of_ne_nil hgs
  rw [List.cons_append, joined, joined, List.flatMap_append, List.flatMap_cons, List.flatMap_nil,
    List.append_nil, List.append_assoc]

theorem split_joined (g : Nat) (gs : List Nat) : (joined (g :: gs)).splitOnP (· == 58) = (g :: gs).map hex := by
  induction gs generalizing g with
  | nil =>
    have hone : joined [g] = hex g := List.append_nil _
    rw [hone, split_single (colon_notMem_hex g)]
    rfl
  | cons g' gs ih =>
    rw [joined_cons_cons, split_append (colon_notMem_hex g), ih g']
    rfl

theorem side_joined {last : Bool} (hgs : ∀ g ∈ gs, g < 65536) : side last (joined gs) = some gs := by
  cases gs with
  | nil => rfl
  | cons g gs =>
    have hne : ¬ (joined (g :: gs)).isEmpty := by
      rw [List.isEmpty_iff]
      exact joined_ne_nil g gs
    rw [side, if_neg hne, split_joined, groups_map_hex hgs]

theorem splitDouble_cons {c : UInt8} (h : c ≠ 58 ∨ ∀ t, x ≠ 58 :: t) :
    splitDouble (c :: x) = (splitDouble x).map fun y => (c :: y.1, y.2) := by
  rw [splitDouble]
  rintro t rfl rfl
  exact h.elim (fun hc => hc rfl) fun ht => ht t rfl

theorem doubleColons_cons {c : UInt8} (h : c ≠ 58 ∨ ∀ t, x ≠ 58 :: t) : doubleColons (c :: x) = doubleColons x := by
  rw [doubleColons]
  rintro t rfl rfl
  exact h.elim (fun hc => hc rfl) fun ht => ht t rfl

theorem splitDouble_append (hs : 58 ∉ s) : splitDouble (s ++ x) = (splitDouble x).map fun y => (s ++ y.1, y.2) := by
  induction s with
  | nil => simp
  | cons c s ih =>
    rw [List.mem_cons, not_or] at hs
    rw [List.cons_append, splitDouble_cons (.inl (Ne.symm hs.1)), ih hs.2, Option.map_map]
    rfl

theorem doubleColons_append (hs : 58 ∉ s) : doubleColons (s ++ x) = doubleColons x := by
  induction s with
  | nil => rfl
  | cons c s ih =>
    rw [List.mem_cons, not_or] at hs
    rw [List.cons_append, doubleColons_cons (.inl (Ne.symm hs.1)), ih hs.2]

theorem joined_append_ne (g : Nat) (gs : List Nat) (x t : Bytes) : joined (g :: gs) ++ x ≠ 58 :: t := by
  intro h
  obtain ⟨c, s, hcs⟩ := List.exists_cons_of_ne_nil (hex_ne_nil g)
  have hmem := colon_notMem_hex g
  rw [joined, hcs] at h
  rw [hcs] at hmem
  exact hmem ((List.cons.inj h).1 ▸ List.mem_cons_self)

/-- The first `::` is behind the groups. -/
theorem splitDouble_joined (gs : List Nat) (x : Bytes) :
    splitDouble (joined gs ++ x) = (splitDouble x).map fun y => (joined gs ++ y.1, y.2) := by
  cases gs with
  | nil => simp [joined]
  | cons g gs =>
    induction gs generalizing g with
    | nil =>
      have hone : joined [g] = hex g := List.append_nil _
      rw [hone, splitDouble_append (colon_notMem_hex g)]
    | cons g' gs ih =>
      rw [joined_cons_cons, List.append_assoc, List.cons_append, splitDouble_append (colon_notMem_hex g),
        splitDouble_cons (.inr (joined_append_ne g' gs x)), ih g', Option.map_map, Option.map_map]
      congr 1
      funext y
      simp

theorem doubleColons_joined (gs : List Nat) (x : Bytes) : doubleColons (joined gs ++ x) = doubleColons x := by
  cases gs with
  | nil => rfl
  | cons g gs =>
    induction gs generalizing g with
    | nil =>
      have hone : joined [g] = hex g := List.append_nil _
      rw [hone, doubleColons_append (colon_notMem_hex g)]
    | cons g' gs ih =>
      rw [joined_cons_cons, List.append_assoc, List.cons_append, doubleColons_append (colon_notMem_hex g),
        doubleColons_cons (.inr (joined_append_ne g' gs x)), ih g']

end

/-! ## Reading back -/

section

variable {gs fs bs : List Nat}

/-- **Eight groups** are read back. -/
theorem parse_joined (hgs : ∀ g ∈ gs, g < 65536) (hlength : gs.length = 8) :
    parse (joined gs) = some (groupBytes gs) := by
  have hdouble := splitDouble_joined gs []
  rw [List.append_nil] at hdouble
  rw [parse, hdouble]
  show (side true (joined gs)).bind _ = _
  rw [side_joined hgs, Option.bind_some, if_pos hlength]

/-- **Groups with `::`** are read back, with zeros in between. -/
theorem parse_compressed {k : Nat} (hfs : ∀ g ∈ fs, g < 65536) (hbs : ∀ g ∈ bs, g < 65536) (hk : 0 < k)
    (hlength : fs.length + k + bs.length = 8) : parse (joined fs ++ 58 :: 58 :: joined bs) =
      some (groupBytes (fs ++ List.replicate k 0 ++ bs)) := by
  have hcount : 8 - (fs.length + bs.length) = k := by omega
  have hsplit : splitDouble (joined fs ++ 58 :: 58 :: joined bs) = some (joined fs, joined bs) := by
    rw [splitDouble_joined, splitDouble, Option.map_some, List.append_nil]
  rw [parse, hsplit]
  show (side false (joined fs)).bind _ = _
  rw [side_joined hfs, Option.bind_some, side_joined hbs, Option.bind_some, if_pos (by omega), hcount]

theorem doubleColons_compressed : doubleColons (joined fs ++ 58 :: 58 :: joined bs) = 1 := by
  rw [doubleColons_joined, doubleColons]
  cases bs with
  | nil => rfl
  | cons b bs =>
    have hback := doubleColons_joined (b :: bs) []
    rw [← List.append_nil (joined (b :: bs)), doubleColons_cons (.inr (joined_append_ne b bs [])), hback]
    rfl

end

end Lib.AddressText
