import OtaServer.Log.Formatter

/-!
# What the patterns of the log mean

* `Piece`: the parts a pattern is meant to have. `FormatsRight`: an event is written as the parts say.
* `countP_loop`, `count_percent_loop`: where a pattern is read without an error, which of its bytes end up in
  literals, and how many items there are.
* `known_loop_eq_false`: a bad item is found wherever it is, since no round leaves out a `%`.
* `logFormatter_iff`: a pattern is read as it is meant exactly if it has no `%%` and no braces. A pattern with an
  unknown item or an open brace is an error.
-/

namespace Sherry

open Lib

/-! ## What a pattern means -/

/-- The parts of a pattern. -/
inductive Piece where
  | lit (b : UInt8)
  /-- `%%`. -/
  | percent
  /-- `%` and a letter. -/
  | item (letter : UInt8)
  /-- `%`, a letter and a text in braces. -/
  | braced (letter : UInt8) (fmt : Bytes)

namespace Piece

/-- The text of a piece in a pattern. -/
def text : Piece → Bytes
  | .lit b => [b]
  | .percent => [37, 37]
  | .item letter => [37, letter]
  | .braced letter fmt => 37 :: letter :: 123 :: (fmt ++ [125])

/-- The pattern of the parts. -/
def pattern (ps : List Piece) : Bytes := ps.flatMap text

/-- A letter with an entry in the table. -/
def Known (letter : UInt8) : Prop := (findFormatItem [letter]).isSome = true

/-- No letter and no brace comes next. -/
def Ends (rest : Bytes) : Prop := ∀ b ∈ rest.head?, itemByte b = false

/-- The parts can be told from each other in the pattern, and their letters are known. -/
def WellFormed : List Piece → Prop
  | [] => True
  | .lit b :: ps => b ≠ 37 ∧ WellFormed ps
  | .percent :: ps => WellFormed ps
  | .item letter :: ps => Known letter ∧ Ends (pattern ps) ∧ WellFormed ps
  | .braced letter fmt :: ps => Known letter ∧ 125 ∉ fmt ∧ WellFormed ps

/-- The item that a part stands for. -/
def toItem : Piece → FormatItem
  | .lit b => .string [b]
  | .percent => .string [37]
  | .item letter => ((findFormatItem [letter]).map (· [])).getD (.string [])
  | .braced letter fmt => ((findFormatItem [letter]).map (· fmt)).getD (.string [])

/-- A part that is neither `%%` nor an item with braces. -/
def plain : Piece → Bool
  | .lit _ | .item _ => true
  | .percent | .braced _ _ => false

/-- The pattern of the parts is no error, and an event is written as the parts say. -/
def FormatsRight (ps : List Piece) : Prop :=
  (LogFormatter.init (pattern ps)).isError = false ∧
    ∀ clock level event, (LogFormatter.init (pattern ps)).format clock level event =
      (ps.map toItem).flatMap (·.format clock level event)

end Piece

/-- Behind a `%`, there is an unknown item or a brace that nothing closes. -/
inductive BadItem : Bytes → Prop where
  | unknown {name rest : Bytes} (hname : name.all isalpha = true) (hnone : findFormatItem name = none)
      (hrest : Piece.Ends rest) (hpercent : (name ++ rest).head? ≠ some 37) : BadItem (name ++ rest)
  | unknownBraced {name fmt rest : Bytes} (hname : name.all isalpha = true) (hnone : findFormatItem name = none)
      (hfmt : 125 ∉ fmt) : BadItem (name ++ 123 :: (fmt ++ 125 :: rest))
  | unclosed {name rest : Bytes} (hname : name.all isalpha = true) (hrest : 125 ∉ rest) :
      BadItem (name ++ 123 :: rest)

/-! ## The inner loop -/

variable {fmt name name' rest v x : Bytes}

theorem scanFmt_eq_braced {fmt' : Bytes} (h : scanFmt name fmt rest = .braced name' fmt') :
    name' = name ∧ ∃ x more, fmt' = fmt ++ x ∧ rest = x ++ 125 :: more ∧ ∀ b ∈ x, isalpha b = true ∨ b = 123 := by
  induction rest generalizing fmt with
  | nil => cases h
  | cons b rest ih =>
    rw [scanFmt] at h
    split at h
    next hitem =>
      split at h
      next hb =>
        cases h
        exact ⟨rfl, [], rest, by simp [hb]⟩
      next hb =>
        obtain ⟨hname, x, more, rfl, rfl, hx⟩ := ih h
        refine ⟨hname, b :: x, more, by simp, rfl, ?_⟩
        rintro c (_ | ⟨_, hc⟩)
        · simpa [itemByte, hb] using hitem
        · exact hx c hc
    next => cases h

theorem scanFmt_ne_plain : scanFmt name fmt rest ≠ .plain name' := by
  induction rest generalizing fmt with
  | nil => exact Scan.noConfusion
  | cons b rest ih =>
    rw [scanFmt]
    split
    · split
      · exact Scan.noConfusion
      · exact ih
    · exact Scan.noConfusion

theorem scanName_eq_plain (h : scanName name rest = .plain name') :
    ∃ x more, name' = name ++ x ∧ rest = x ++ more := by
  induction rest generalizing name with
  | nil =>
    cases h
    exact ⟨[], [], by simp⟩
  | cons b rest ih =>
    rw [scanName] at h
    split at h
    next =>
      split at h
      next =>
        exact absurd h scanFmt_ne_plain
      next =>
        obtain ⟨x, more, rfl, rfl⟩ := ih h
        exact ⟨b :: x, more, by simp⟩
    next =>
      cases h
      exact ⟨[], b :: rest, by simp⟩

theorem scanName_eq_braced (h : scanName name rest = .braced name' fmt) :
    ∃ x more, name' = name ++ x ∧ rest = x ++ 123 :: (fmt ++ 125 :: more) ∧
      ∀ b ∈ fmt, isalpha b = true ∨ b = 123 := by
  induction rest generalizing name with
  | nil => cases h
  | cons b rest ih =>
    rw [scanName] at h
    split at h
    next =>
      split at h
      next hb =>
        obtain ⟨rfl, x, more, rfl, rfl, hx⟩ := scanFmt_eq_braced h
        exact ⟨[], more, by simp, by simp [hb], by simpa using hx⟩
      next =>
        obtain ⟨x, more, rfl, rfl, hfmt⟩ := ih h
        exact ⟨b :: x, more, by simp, rfl, hfmt⟩
    next => cases h

theorem scanName_append (hx : x.all isalpha = true) (name rest : Bytes) :
    scanName name (x ++ rest) = scanName (name ++ x) rest := by
  induction x generalizing name with
  | nil => simp
  | cons b x ih =>
    rw [List.all_cons, Bool.and_eq_true] at hx
    have hb : b ≠ 123 := by
      rintro rfl
      cases hx.1
    have hitem : itemByte b = true := by simp [itemByte, hx.1]
    rw [List.cons_append, scanName, if_pos hitem, if_neg hb, ih hx.2, List.append_assoc, List.singleton_append]

theorem scanName_of_ends (h : Piece.Ends rest) (name : Bytes) : scanName name rest = .plain name := by
  cases rest with
  | nil => rfl
  | cons b rest => rw [scanName, h b rfl, if_neg Bool.false_ne_true]

theorem scanName_brace (name rest : Bytes) : scanName name (123 :: rest) = scanFmt name [] rest := rfl

theorem scanFmt_of_notMem (h : 125 ∉ rest) (name fmt : Bytes) : scanFmt name fmt rest = .unclosed := by
  induction rest generalizing fmt with
  | nil => rfl
  | cons b rest ih =>
    rw [List.mem_cons, not_or] at h
    rw [scanFmt, if_neg (Ne.symm h.1), ih h.2, ite_self]

/-- A closing brace ends the text, unless something else has. -/
theorem scanFmt_append (hx : 125 ∉ x) (name fmt rest : Bytes) :
    scanFmt name fmt (x ++ 125 :: rest) = .unclosed ∨
      scanFmt name fmt (x ++ 125 :: rest) = .braced name (fmt ++ x) := by
  induction x generalizing fmt with
  | nil => exact .inr (by simp [scanFmt, itemByte])
  | cons b x ih =>
    rw [List.mem_cons, not_or] at hx
    rw [List.cons_append, scanFmt, if_neg (Ne.symm hx.1)]
    split
    · have := ih hx.2 (fmt ++ [b])
      rwa [List.append_assoc, List.singleton_append] at this
    · exact .inl rfl

/-- How the inner loop ends on a bad item. -/
theorem BadItem.scan (h : BadItem v) : v.head? ≠ some 37 ∧ (scanName [] v = .unclosed ∨
    ∃ name, findFormatItem name = none ∧
      (scanName [] v = .plain name ∨ ∃ fmt, scanName [] v = .braced name fmt)) := by
  have hhead : ∀ {name rest : Bytes}, name.all isalpha = true → (name ++ 123 :: rest).head? ≠ some 37 := by
    intro name rest hname heq
    cases name with
    | nil => cases heq
    | cons b name =>
      rw [List.all_cons, Bool.and_eq_true] at hname
      cases heq
      cases hname.1
  cases h with
  | unknown hname hnone hrest hpercent =>
    refine ⟨hpercent, .inr ⟨_, hnone, .inl ?_⟩⟩
    rw [scanName_append hname, scanName_of_ends hrest, List.nil_append]
  | unknownBraced hname hnone hfmt =>
    refine ⟨hhead hname, ?_⟩
    rw [scanName_append hname, scanName_brace, List.nil_append]
    rcases scanFmt_append hfmt _ [] _ with hscan | hscan
    · exact .inl hscan
    · exact .inr ⟨_, hnone, .inr ⟨_, hscan⟩⟩
  | unclosed hname hrest =>
    refine ⟨hhead hname, .inl ?_⟩
    rw [scanName_append hname, scanName_brace, scanFmt_of_notMem hrest]

theorem BadItem.find_of_plain (h : BadItem v) (hscan : scanName [] v = .plain name) : findFormatItem name = none := by
  obtain ⟨-, hopen | ⟨name', hnone, hplain | ⟨fmt, hbraced⟩⟩⟩ := h.scan
  · cases hscan.symm.trans hopen
  · cases hscan.symm.trans hplain
    exact hnone
  · cases hscan.symm.trans hbraced

theorem BadItem.find_of_braced (h : BadItem v) (hscan : scanName [] v = .braced name fmt) :
    findFormatItem name = none := by
  obtain ⟨-, hopen | ⟨name', hnone, hplain | ⟨fmt, hbraced⟩⟩⟩ := h.scan
  · cases hscan.symm.trans hopen
  · cases hscan.symm.trans hplain
  · cases hscan.symm.trans hbraced
    exact hnone

theorem ne_of_isalpha {b c : UInt8} (h : isalpha b = true) (hc : isalpha c = false) : b ≠ c := by
  rintro rfl
  cases h.symm.trans hc

theorem percent_notMem (h : ∀ b ∈ x, isalpha b = true ∨ b = 123) : 37 ∉ x := by
  intro hmem
  rcases h 37 hmem with hb | hb <;> cases hb

/-! ## The table -/

/-- An item that is not a literal. -/
def FormatItem.isString : FormatItem → Bool
  | .string _ => true
  | _ => false

/-- The text of a literal. -/
def FormatItem.literal : FormatItem → Bytes
  | .string text => text
  | _ => []

theorem findFormatItem_eq_some {make : Bytes → FormatItem} (h : findFormatItem name = some make) :
    (∃ letter, name = [letter] ∧ isalpha letter = true) ∧ ∀ fmt, (make fmt).isString = false := by
  obtain ⟨e, he, rfl⟩ := Option.map_eq_some_iff.mp h
  have hname : e.1 = name := by simpa using List.find?_some he
  have hmem := List.mem_of_find?_eq_some he
  have hletters : ∀ e ∈ formatItems, e.1.length = 1 ∧ e.1.all isalpha = true := by
    simp only [formatItems, List.forall_mem_cons]
    decide
  have hmake : ∀ e ∈ formatItems, ∀ fmt, (e.2 fmt).isString = false := by
    simp [formatItems, FormatItem.isString, FormatItem.makeDateTime]
  obtain ⟨hlen, halpha⟩ := hletters e hmem
  obtain ⟨letter, hletter⟩ := List.length_eq_one_iff.mp hlen
  refine ⟨⟨letter, hname.symm.trans hletter, ?_⟩, hmake e hmem⟩
  rw [hletter] at halpha
  simpa using halpha

theorem FormatItem.literal_eq_nil {item : FormatItem} (h : item.isString = false) : item.literal = [] := by
  cases item <;> first | rfl | cases h

/-! ## The outer loop -/

namespace InitState

/-- No error so far. -/
def known (s : InitState) : Bool := !s.error && s.vec.all fun part => !part.toItem.2

/-- The bytes of the literals. -/
def literals (s : InitState) : Bytes := s.vec.flatMap (·.toItem.1.literal) ++ s.nstr

/-- How many items there are. -/
def itemCount (s : InitState) : Nat := s.vec.countP fun part => !part.toItem.1.isString

/-- What the items write, with the literal that is not finished. -/
def written (s : InitState) (clock : Clock) (level : LogLevel) (event : LogEvent) : Bytes :=
  s.vec.flatMap (·.toItem.1.format clock level event) ++ s.nstr

variable {s : InitState} {name fmt : Bytes} {make : Bytes → FormatItem}

theorem known_flush (s : InitState) : s.flush.known = s.known := by
  unfold flush
  split
  · rfl
  · simp [known, PatternPart.toItem]

theorem literals_flush (s : InitState) : s.flush.literals = s.literals := by
  unfold flush
  split
  · rfl
  · simp [literals, PatternPart.toItem, FormatItem.literal]

theorem itemCount_flush (s : InitState) : s.flush.itemCount = s.itemCount := by
  unfold flush
  split
  · rfl
  · simp [itemCount, PatternPart.toItem, FormatItem.isString]

theorem written_flush (s : InitState) (clock : Clock) (level : LogLevel) (event : LogEvent) :
    s.flush.written clock level event = s.written clock level event := by
  unfold flush
  split
  · rfl
  · simp [written, PatternPart.toItem, FormatItem.format]

theorem nstr_flush (s : InitState) : s.flush.nstr = [] := by
  unfold flush
  split
  · assumption
  · rfl

theorem known_pushItem (s : InitState) (name fmt : Bytes) :
    (s.pushItem name fmt).known = (s.known && (findFormatItem name).isSome) := by
  rw [← known_flush s]
  cases h : findFormatItem name <;> simp [pushItem, known, PatternPart.toItem, h]

theorem literals_appendChar (s : InitState) (b : UInt8) : (s.appendChar b).literals = s.literals ++ [b] := by
  simp [literals, appendChar]

theorem itemCount_appendChar (s : InitState) (b : UInt8) : (s.appendChar b).itemCount = s.itemCount := rfl

theorem written_appendChar (s : InitState) (b : UInt8) (clock : Clock) (level : LogLevel) (event : LogEvent) :
    (s.appendChar b).written clock level event = s.written clock level event ++ [b] := by
  simp [written, appendChar]

theorem literals_pushItem (h : findFormatItem name = some make) : (s.pushItem name fmt).literals = s.literals := by
  have hnil := FormatItem.literal_eq_nil ((findFormatItem_eq_some h).2 fmt)
  rw [← literals_flush s]
  simp [pushItem, literals, PatternPart.toItem, h, hnil]

theorem itemCount_pushItem (h : findFormatItem name = some make) :
    (s.pushItem name fmt).itemCount = s.itemCount + 1 := by
  have hstring := (findFormatItem_eq_some h).2 fmt
  rw [← itemCount_flush s]
  simp [pushItem, itemCount, PatternPart.toItem, h, hstring]

theorem written_pushItem (h : findFormatItem name = some make) (clock : Clock) (level : LogLevel)
    (event : LogEvent) : (s.pushItem name fmt).written clock level event =
      s.written clock level event ++ (make fmt).format clock level event := by
  rw [← written_flush s]
  simp [pushItem, written, PatternPart.toItem, h, nstr_flush]

variable {w : Bytes} {k : Nat}

theorem known_of_loop (h : (loop k s w).known = true) : s.known = true := by
  fun_induction loop k s w with
  | case1 => exact h
  | case2 _ _ _ _ ih => exact ih h
  | case3 _ _ _ _ ih => exact ih h
  | case4 _ _ _ _ _ ih => exact ih h
  | case5 _ _ _ _ _ _ _ ih =>
    have := ih h
    rw [known_pushItem, Bool.and_eq_true] at this
    exact this.1
  | case6 _ _ _ _ _ _ ih => cases ih h
  | case7 _ _ _ _ _ _ _ _ ih =>
    have := ih h
    rw [known_pushItem, Bool.and_eq_true] at this
    exact this.1

theorem find_of_known_pushItem (h : (s.pushItem name fmt).known = true) : ∃ letter make, name = [letter] ∧
    isalpha letter = true ∧ findFormatItem name = some make := by
  rw [known_pushItem, Bool.and_eq_true] at h
  obtain ⟨make, hmake⟩ := Option.isSome_iff_exists.mp h.2
  obtain ⟨⟨letter, hletter, halpha⟩, -⟩ := findFormatItem_eq_some hmake
  exact ⟨letter, make, hletter, halpha, hmake⟩

theorem plain_of_known {rest : Bytes} (hscan : scanName [] rest = .plain name)
    (h : (s.pushItem name fmt).known = true) : ∃ letter make, isalpha letter = true ∧
      findFormatItem name = some make ∧ rest = letter :: rest.drop name.length := by
  obtain ⟨letter, make, rfl, halpha, hmake⟩ := find_of_known_pushItem h
  obtain ⟨x, more, hx, rfl⟩ := scanName_eq_plain hscan
  cases hx
  exact ⟨letter, make, halpha, hmake, rfl⟩

theorem braced_of_known {rest : Bytes} (hscan : scanName [] rest = .braced name fmt)
    (h : (s.pushItem name fmt).known = true) : ∃ letter make, isalpha letter = true ∧
      findFormatItem name = some make ∧ (∀ b ∈ fmt, isalpha b = true ∨ b = 123) ∧
      rest = letter :: 123 :: (fmt ++ rest.drop (name.length + 1 + fmt.length)) := by
  obtain ⟨letter, make, rfl, halpha, hmake⟩ := find_of_known_pushItem h
  obtain ⟨x, more, hx, rfl, hfmt⟩ := scanName_eq_braced hscan
  cases hx
  have hdrop : (letter :: 123 :: (fmt ++ 125 :: more)).drop (1 + 1 + fmt.length) = 125 :: more := by
    rw [Nat.add_comm, List.drop_succ_cons, List.drop_succ_cons, List.drop_left]
  exact ⟨letter, make, halpha, hmake, hfmt, congrArg (letter :: 123 :: fmt ++ ·) hdrop.symm⟩

/-- **Bytes that are in no item** end up in literals, if there is no error. -/
theorem countP_loop {q : UInt8 → Bool} (halpha : ∀ b, isalpha b = true → q b = false) (hbrace : q 123 = false)
    (hpercent : q 37 = false) (h : (loop k s w).known = true) :
    (loop k s w).literals.countP q = s.literals.countP q + (w.drop k).countP q := by
  fun_induction loop k s w with
  | case1 => simp
  | case2 s skip _ rest ih => exact ih h
  | case3 s b rest hb ih =>
    rw [ih h, literals_appendChar, List.countP_append, Nat.add_assoc, ← List.countP_append]
    rfl
  | case4 s b rest hb hhead ih =>
    obtain rfl : b = 37 := not_not.mp hb
    rw [ih h, literals_appendChar]
    simp [hpercent]
  | case5 s b rest hb hhead name hscan ih =>
    obtain rfl : b = 37 := not_not.mp hb
    obtain ⟨letter, make, hletter, hmake, hrest⟩ := plain_of_known hscan (known_of_loop h)
    have hcount : rest.countP q = (rest.drop name.length).countP q :=
      (congrArg (List.countP q) hrest).trans (by simp [halpha letter hletter])
    rw [ih h, literals_pushItem hmake, ← hcount]
    simp [hpercent]
  | case6 s b rest hb hhead hscan ih => cases known_of_loop h
  | case7 s b rest hb hhead name fmt hscan ih =>
    obtain rfl : b = 37 := not_not.mp hb
    obtain ⟨letter, make, hletter, hmake, hfmt, hrest⟩ := braced_of_known hscan (known_of_loop h)
    -- neither the letters nor the brace of an item count
    have hzero : fmt.countP q = 0 := by
      rw [List.countP_eq_zero]
      intro b hb
      rcases hfmt b hb with hb | rfl
      · simp [halpha b hb]
      · simp [hbrace]
    have hcount : rest.countP q = (rest.drop (name.length + 1 + fmt.length)).countP q :=
      (congrArg (List.countP q) hrest).trans (by simp [hbrace, halpha letter hletter, hzero])
    rw [ih h, literals_pushItem hmake, ← hcount]
    simp [hpercent]

/-- **Each `%`** ends up in a literal or starts an item, if there is no error. -/
theorem count_percent_loop (h : (loop k s w).known = true) : (loop k s w).literals.count 37 + (loop k s w).itemCount =
      s.literals.count 37 + s.itemCount + (w.drop k).count 37 := by
  fun_induction loop k s w with
  | case1 => simp
  | case2 s skip _ rest ih => exact ih h
  | case3 s b rest hb ih =>
    rw [ih h, literals_appendChar, itemCount_appendChar]
    simp [hb]
  | case4 s b rest hb hhead ih =>
    obtain rfl : b = 37 := not_not.mp hb
    rw [ih h, literals_appendChar, itemCount_appendChar]
    simp
    omega
  | case5 s b rest hb hhead name hscan ih =>
    obtain rfl : b = 37 := not_not.mp hb
    obtain ⟨letter, make, halpha, hmake, hrest⟩ := plain_of_known hscan (known_of_loop h)
    have hcount : rest.count 37 = (rest.drop name.length).count 37 :=
      (congrArg (List.count 37) hrest).trans (List.count_cons_of_ne (ne_of_isalpha halpha rfl))
    rw [ih h, literals_pushItem hmake, itemCount_pushItem hmake, ← hcount, List.drop_zero, List.count_cons_self]
    omega
  | case6 s b rest hb hhead hscan ih => cases known_of_loop h
  | case7 s b rest hb hhead name fmt hscan ih =>
    obtain rfl : b = 37 := not_not.mp hb
    obtain ⟨letter, make, halpha, hmake, hfmt, hrest⟩ := braced_of_known hscan (known_of_loop h)
    have hne : letter ≠ 37 := ne_of_isalpha halpha rfl
    have hzero : fmt.count 37 = 0 := List.count_eq_zero.mpr (percent_notMem hfmt)
    have hcount : rest.count 37 = (rest.drop (name.length + 1 + fmt.length)).count 37 :=
      (congrArg (List.count 37) hrest).trans (by simp [hne, hzero])
    rw [ih h, literals_pushItem hmake, itemCount_pushItem hmake, ← hcount, List.drop_zero, List.count_cons_self]
    omega

theorem exists_of_append_eq {x y u v : Bytes} (hx : 37 ∉ x) (h : x ++ y = u ++ 37 :: v) :
    ∃ u', y = u' ++ 37 :: v := by
  induction x generalizing u with
  | nil => exact ⟨u, h⟩
  | cons b x ih =>
    rw [List.mem_cons, not_or] at hx
    cases u with
    | nil =>
      cases h
      exact absurd rfl hx.1
    | cons c u => exact ih hx.2 (List.cons.inj h).2

/-- **A bad item** is found wherever it is. -/
theorem known_loop_eq_false {v : Bytes} (hv : BadItem v) {u : Bytes} (hw : w.drop k = u ++ 37 :: v) :
    (loop k s w).known = false := by
  by_contra h
  rw [Bool.not_eq_false] at h
  have hhead := hv.scan.1
  -- the loop comes to the bad item, unless another error is in front of it
  fun_induction loop k s w generalizing u with
  | case1 => simp at hw
  | case2 s skip _ rest ih => exact ih hw h
  | case3 s b rest hb ih =>
    cases u with
    | nil =>
      cases hw
      exact hb rfl
    | cons c u =>
      cases hw
      exact ih rfl h
  | case4 s b rest hb hnext ih =>
    cases u with
    | nil =>
      cases hw
      exact hhead hnext
    | cons c u =>
      cases hw
      exact ih rfl h
  | case5 s b rest hb hnext name hscan ih =>
    obtain ⟨letter, make, halpha, hmake, hrest⟩ := plain_of_known hscan (known_of_loop h)
    cases u with
    | nil =>
      cases hw
      cases hmake.symm.trans (hv.find_of_plain hscan)
    | cons c u =>
      cases hw
      -- an item takes no `%`, so the bad one is behind it
      have hletter : 37 ∉ [letter] := fun hmem => ne_of_isalpha halpha rfl (List.mem_singleton.mp hmem).symm
      obtain ⟨u', hu'⟩ := exists_of_append_eq hletter hrest.symm
      exact ih hu' h
  | case6 s b rest hb hnext hscan ih => cases known_of_loop h
  | case7 s b rest hb hnext name fmt hscan ih =>
    obtain ⟨letter, make, halpha, hmake, hfmt, hrest⟩ := braced_of_known hscan (known_of_loop h)
    cases u with
    | nil =>
      cases hw
      cases hmake.symm.trans (hv.find_of_braced hscan)
    | cons c u =>
      cases hw
      have hread : ∀ b ∈ letter :: 123 :: fmt, isalpha b = true ∨ b = 123 := by
        simpa [halpha] using hfmt
      obtain ⟨u', hu'⟩ := exists_of_append_eq (percent_notMem hread) hrest.symm
      exact ih hu' h

end InitState

/-! ## Counting in what is written -/

/-- An event whose texts are new lines and whose numbers are zero. -/
def lineEvent : LogEvent where
  file := [10]
  line := 0
  elapse := 0
  threadId := 0
  fiberId := 0
  time := 0
  threadName := [10]
  loggerName := [10]
  content := [10]

/-- A clock whose text is a line feed. -/
def lineClock : Clock := fun _ _ => [10]

/-- A tab, a new line or a zero. -/
def markByte (b : UInt8) : Bool := b == 9 || b == 10 || b == 48

theorem markByte_of_isalpha {b : UInt8} (h : isalpha b = true) : markByte b = false := by
  rw [Bool.eq_false_iff]
  intro hb
  simp only [markByte, Bool.or_eq_true, beq_iff_eq] at hb
  rcases hb with (rfl | rfl) | rfl <;> cases h

/-- What is written of that event. -/
def lines (level : LogLevel) (items : List FormatItem) : Bytes :=
  items.flatMap (·.format lineClock level lineEvent)

namespace FormatItem

/-- The item `%p`. -/
def isLevel : FormatItem → Bool
  | .level => true
  | _ => false

theorem format_line (item : FormatItem) :
    (item.isString = true ∧ item.isLevel = false ∧ ∀ level, item.format lineClock level lineEvent = item.literal) ∨
    item = .level ∨ (item.isString = false ∧ item.isLevel = false ∧ item.literal = [] ∧
      ∃ b, markByte b = true ∧ ∀ level, item.format lineClock level lineEvent = [b]) := by
  have hzero : dec 0 = [48] := by decide
  cases item with
  | string text => exact .inl ⟨rfl, rfl, fun _ => rfl⟩
  | level => exact .inr (.inl rfl)
  | tab => exact .inr (.inr ⟨rfl, rfl, rfl, 9, rfl, fun _ => rfl⟩)
  | elapse | line | fiberId | threadId => exact .inr (.inr ⟨rfl, rfl, rfl, 48, rfl, fun _ => hzero⟩)
  | message | name | newLine | dateTime | filename | threadName =>
    exact .inr (.inr ⟨rfl, rfl, rfl, 10, rfl, fun _ => rfl⟩)

end FormatItem

theorem countP_lines {q : UInt8 → Bool} (hmark : ∀ b, markByte b = true → q b = false) {level : LogLevel}
    (hlevel : level.toString.countP q = 0) (items : List FormatItem) :
    (lines level items).countP q = (items.flatMap (·.literal)).countP q := by
  induction items with
  | nil => rfl
  | cons item items ih =>
    unfold lines at ih ⊢
    rw [List.flatMap_cons, List.flatMap_cons, List.countP_append, List.countP_append, ih]
    congr 1
    obtain ⟨-, -, hformat⟩ | rfl | ⟨-, -, hnil, b, hb, hformat⟩ := item.format_line
    · rw [hformat]
    · exact hlevel
    · rw [hformat, hnil]
      simp [hmark b hb]

theorem countP_mark_lines (items : List FormatItem) : (lines .debug items).countP markByte =
    (items.flatMap (·.literal)).countP markByte + items.countP fun item => !item.isString && !item.isLevel := by
  induction items with
  | nil => rfl
  | cons item items ih =>
    unfold lines at ih ⊢
    rw [List.flatMap_cons, List.flatMap_cons, List.countP_append, List.countP_append, ih, List.countP_cons]
    obtain ⟨hstring, hlevel, hformat⟩ | rfl | ⟨hstring, hlevel, hnil, b, hb, hformat⟩ := item.format_line
    · rw [hformat, hstring]
      simp
      omega
    · have hzero : LogLevel.debug.toString.countP markByte = 0 := by decide
      simp [FormatItem.format, FormatItem.literal, FormatItem.isLevel, hzero]
    · rw [hformat, hnil, hstring, hlevel]
      simp [hb]
      omega

/-- The name of one level is longer than the name of another. -/
theorem length_lines (items : List FormatItem) :
    (lines .debug items).length = (lines .info items).length + items.countP (·.isLevel) := by
  induction items with
  | nil => rfl
  | cons item items ih =>
    unfold lines at ih ⊢
    rw [List.flatMap_cons, List.flatMap_cons, List.length_append, List.length_append, ih, List.countP_cons]
    obtain ⟨hstring, hlevel, hformat⟩ | rfl | ⟨hstring, hlevel, hnil, b, hb, hformat⟩ := item.format_line
    · rw [hformat, hformat, hlevel]
      simp
      omega
    · have hlen : LogLevel.debug.toString.length = LogLevel.info.toString.length + 1 := rfl
      simp only [FormatItem.format, FormatItem.isLevel, hlen, if_pos]
      omega
    · rw [hformat, hformat, hlevel]
      simp
      omega

theorem countP_isString (items : List FormatItem) : items.countP (fun item => !item.isString) =
    items.countP (fun item => !item.isString && !item.isLevel) + items.countP (·.isLevel) := by
  induction items with
  | nil => rfl
  | cons item items ih =>
    rw [List.countP_cons, List.countP_cons, List.countP_cons, ih]
    obtain ⟨hstring, hlevel, -⟩ | rfl | ⟨hstring, hlevel, -⟩ := item.format_line
    · simp [hstring, hlevel]
    · simp [FormatItem.isString, FormatItem.isLevel]
      omega
    · simp [hstring, hlevel]
      omega

/-- **Two lists of items that write the same** have the same number of items, if their literals have the same
  marks. -/
theorem countP_items_eq {items items' : List FormatItem}
    (h : ∀ clock level event, items.flatMap (·.format clock level event) = items'.flatMap (·.format clock level
      event))
    (hmarks : (items.flatMap (·.literal)).countP markByte = (items'.flatMap (·.literal)).countP markByte) :
    items.countP (fun item => !item.isString) = items'.countP fun item => !item.isString := by
  have hlines : ∀ level, lines level items = lines level items' := fun level => h lineClock level lineEvent
  have hmark := countP_mark_lines items
  have hmark' := countP_mark_lines items'
  have hlen := length_lines items
  have hlen' := length_lines items'
  rw [hlines, hmark', hmarks] at hmark
  rw [hlines, hlines, hlen'] at hlen
  rw [countP_isString items, countP_isString items']
  omega

/-! ## Counting in the parts -/

namespace Piece

variable {ps : List Piece}

/-- An item with braces. -/
def isBraced : Piece → Bool
  | .braced _ _ => true
  | .lit _ | .percent | .item _ => false

/-- The piece `%%`. -/
def isPercent : Piece → Bool
  | .percent => true
  | .lit _ | .item _ | .braced _ _ => false

/-- The literals of the parts. -/
def literals (ps : List Piece) : Bytes := (ps.map toItem).flatMap (·.literal)

theorem toItem_of_known {letter : UInt8} (h : Known letter) : isalpha letter = true ∧
    ∃ make, findFormatItem [letter] = some make ∧ (∀ fmt, (make fmt).isString = false) ∧
      toItem (.item letter) = make [] ∧ ∀ fmt, toItem (.braced letter fmt) = make fmt := by
  obtain ⟨make, hmake⟩ := Option.isSome_iff_exists.mp h
  obtain ⟨⟨letter', hletter, halpha⟩, hstring⟩ := findFormatItem_eq_some hmake
  cases hletter
  refine ⟨halpha, make, hmake, hstring, ?_, fun fmt => ?_⟩
  · rw [toItem, hmake]
    rfl
  · rw [toItem, hmake]
    rfl

/-- The closing braces of the items are not among the literals. -/
theorem count_pattern_close (h : WellFormed ps) :
    (pattern ps).count 125 = (literals ps).count 125 + ps.countP isBraced := by
  induction ps with
  | nil => rfl
  | cons p ps ih =>
    unfold pattern literals at ih ⊢
    rw [List.flatMap_cons, List.map_cons, List.flatMap_cons, List.count_append, List.count_append, List.countP_cons]
    cases p with
    | lit b =>
      rw [ih h.2]
      simp [text, toItem, FormatItem.literal, isBraced]
      omega
    | percent =>
      rw [ih h]
      simp [text, toItem, FormatItem.literal, isBraced]
    | item letter =>
      obtain ⟨halpha, make, -, hstring, hitem, -⟩ := toItem_of_known h.1
      rw [ih h.2.2, hitem, FormatItem.literal_eq_nil (hstring [])]
      have hne : letter ≠ 125 := ne_of_isalpha halpha rfl
      simp [text, isBraced, hne]
    | braced letter fmt =>
      obtain ⟨halpha, make, -, hstring, -, hitem⟩ := toItem_of_known h.1
      rw [ih h.2.2, hitem, FormatItem.literal_eq_nil (hstring fmt)]
      have hne : letter ≠ 125 := ne_of_isalpha halpha rfl
      simp [text, isBraced, hne, List.count_eq_zero.mpr h.2.1]
      omega

theorem countP_pattern_mark (h : WellFormed ps) (hbraced : ∀ p ∈ ps, p.isBraced = false) :
    (pattern ps).countP markByte = (literals ps).countP markByte := by
  induction ps with
  | nil => rfl
  | cons p ps ih =>
    rw [List.forall_mem_cons] at hbraced
    unfold pattern literals at ih ⊢
    rw [List.flatMap_cons, List.map_cons, List.flatMap_cons, List.countP_append, List.countP_append]
    cases p with
    | lit b =>
      rw [ih h.2 hbraced.2]
      rfl
    | percent =>
      rw [ih h hbraced.2]
      rfl
    | item letter =>
      obtain ⟨halpha, make, -, hstring, hitem, -⟩ := toItem_of_known h.1
      rw [ih h.2.2 hbraced.2, hitem, FormatItem.literal_eq_nil (hstring [])]
      have hmark : markByte letter = false := markByte_of_isalpha halpha
      have hpercent : markByte 37 = false := rfl
      simp [text, hmark, hpercent]
    | braced letter fmt => cases hbraced.1

/-- Without braces, a `%` starts an item, or is one of the two of a `%%`. -/
theorem count_pattern_percent (h : WellFormed ps) (hbraced : ∀ p ∈ ps, p.isBraced = false) :
    (pattern ps).count 37 = (literals ps).count 37 + ps.countP isPercent +
      (ps.map toItem).countP fun item => !item.isString := by
  induction ps with
  | nil => rfl
  | cons p ps ih =>
    rw [List.forall_mem_cons] at hbraced
    unfold pattern literals at ih ⊢
    rw [List.flatMap_cons, List.map_cons, List.flatMap_cons, List.count_append, List.count_append, List.countP_cons,
      List.countP_cons]
    cases p with
    | lit b =>
      rw [ih h.2 hbraced.2]
      simp [text, toItem, FormatItem.literal, isPercent, FormatItem.isString, h.1]
    | percent =>
      rw [ih h hbraced.2]
      simp [text, toItem, FormatItem.literal, isPercent, FormatItem.isString]
      omega
    | item letter =>
      obtain ⟨halpha, make, -, hstring, hitem, -⟩ := toItem_of_known h.1
      rw [ih h.2.2 hbraced.2, hitem, FormatItem.literal_eq_nil (hstring []), hstring []]
      have hne : letter ≠ 37 := ne_of_isalpha halpha rfl
      simp [text, isPercent, hne]
      omega
    | braced letter fmt => cases hbraced.1

end Piece

/-! ## Patterns -/

section

variable (w : Bytes)

theorem isError_init : (LogFormatter.init w).isError = !(InitState.loop 0 {} w).known := by
  rw [← InitState.known_flush, InitState.known, Bool.not_and, Bool.not_not, List.not_all_eq_any_not]
  simp [LogFormatter.isError, LogFormatter.init]

theorem literals_init : (LogFormatter.init w).items.flatMap (·.literal) = (InitState.loop 0 {} w).literals := by
  rw [← InitState.literals_flush, InitState.literals, InitState.nstr_flush, List.append_nil, LogFormatter.init,
    List.flatMap_map]

theorem countP_items_init :
    (LogFormatter.init w).items.countP (fun item => !item.isString) = (InitState.loop 0 {} w).itemCount := by
  rw [← InitState.itemCount_flush, InitState.itemCount, LogFormatter.init, List.countP_map]
  rfl

theorem format_init (clock : Clock) (level : LogLevel) (event : LogEvent) :
    (LogFormatter.init w).format clock level event = (InitState.loop 0 {} w).written clock level event := by
  rw [← InitState.written_flush, InitState.written, InitState.nstr_flush, List.append_nil, LogFormatter.format,
    LogFormatter.init, List.flatMap_map]

end

/-- Literals and items without braces are read as they are meant. -/
theorem InitState.loop_plain {ps : List Piece} (h : Piece.WellFormed ps) (hplain : ∀ p ∈ ps, p.plain = true)
    (s : InitState) : (loop 0 s (Piece.pattern ps)).known = s.known ∧
      ∀ clock level event, (loop 0 s (Piece.pattern ps)).written clock level event =
        s.written clock level event ++ (ps.map Piece.toItem).flatMap (·.format clock level event) := by
  induction ps generalizing s with
  | nil => exact ⟨rfl, fun _ _ _ => (List.append_nil _).symm⟩
  | cons p ps ih =>
    rw [List.forall_mem_cons] at hplain
    cases p with
    | lit b =>
      obtain ⟨hknown, hwritten⟩ := ih h.2 hplain.2 (s.appendChar b)
      have hloop : loop 0 s (Piece.pattern (.lit b :: ps)) = loop 0 (s.appendChar b) (Piece.pattern ps) := by
        show loop 0 s (b :: Piece.pattern ps) = _
        rw [loop, if_pos h.1]
      rw [hloop]
      refine ⟨hknown, fun clock level event => ?_⟩
      rw [hwritten, written_appendChar, List.append_assoc]
      rfl
    | item letter =>
      obtain ⟨halpha, make, hmake, -, hitem, -⟩ := Piece.toItem_of_known h.1
      obtain ⟨hknown, hwritten⟩ := ih h.2.2 hplain.2 (s.pushItem [letter] [])
      have hloop : loop 0 s (Piece.pattern (.item letter :: ps)) =
          loop 0 (s.pushItem [letter] []) (Piece.pattern ps) := by
        have hscan : scanName [] (letter :: Piece.pattern ps) = .plain [letter] := by
          have := scanName_append (x := [letter]) (by simp [halpha]) [] (Piece.pattern ps)
          rwa [scanName_of_ends h.2.1] at this
        have hnext : ¬ (letter :: Piece.pattern ps).head? = some 37 := by
          simpa using ne_of_isalpha halpha rfl
        show loop 0 s (37 :: letter :: Piece.pattern ps) = _
        rw [loop, if_neg (by decide), if_neg hnext, hscan]
        rfl
      rw [hloop, hknown, known_pushItem, hmake]
      refine ⟨Bool.and_true _, fun clock level event => ?_⟩
      rw [hwritten, written_pushItem hmake, List.append_assoc, List.map_cons, List.flatMap_cons, hitem]
    | percent | braced => cases hplain.1

/-- A pattern without an error that writes what its parts say has no `%%` and no braces. -/
theorem plain_of_formatsRight {ps : List Piece} (h : Piece.WellFormed ps) (hright : Piece.FormatsRight ps) :
    ∀ p ∈ ps, p.plain = true := by
  obtain ⟨herr, hformat⟩ := hright
  have hknown : (InitState.loop 0 {} (Piece.pattern ps)).known = true := by
    rwa [isError_init, Bool.not_eq_false'] at herr
  -- the literals of the items agree on all bytes that the items do not write
  have hliterals : ∀ b, markByte b = false → b ∉ LogLevel.debug.toString →
      (InitState.loop 0 {} (Piece.pattern ps)).literals.count b = (Piece.literals ps).count b := by
    intro b hmark hlevel
    have hq : ∀ c, markByte c = true → (c == b) = false := by
      intro c hc
      rw [beq_eq_false_iff_ne]
      rintro rfl
      cases hc.symm.trans hmark
    have hlevel' : LogLevel.debug.toString.countP (· == b) = 0 := List.count_eq_zero.mpr hlevel
    have hlines : lines .debug (LogFormatter.init (Piece.pattern ps)).items = lines .debug (ps.map Piece.toItem) :=
      hformat lineClock .debug lineEvent
    rw [← literals_init, List.count, ← countP_lines hq hlevel', hlines, countP_lines hq hlevel']
    rfl
  have hbraced : ∀ p ∈ ps, p.isBraced = false := by
    have hletter : ∀ b, isalpha b = true → (b == 125) = false := fun b hb =>
      beq_eq_false_iff_ne.mpr (ne_of_isalpha hb rfl)
    have hcode : (InitState.loop 0 {} (Piece.pattern ps)).literals.count 125 = 0 + (Piece.pattern ps).count 125 :=
      InitState.countP_loop hletter rfl rfl hknown
    rw [hliterals 125 rfl (by decide), Piece.count_pattern_close h] at hcode
    have hzero : ps.countP Piece.isBraced = 0 := by omega
    intro p hp
    exact Bool.eq_false_iff.mpr (List.countP_eq_zero.mp hzero p hp)
  have hmarks : ((LogFormatter.init (Piece.pattern ps)).items.flatMap (·.literal)).countP markByte =
      ((ps.map Piece.toItem).flatMap (·.literal)).countP markByte := by
    have hcode := InitState.countP_loop (fun b => markByte_of_isalpha) rfl rfl hknown
    rw [literals_init, hcode]
    exact (Nat.zero_add _).trans (Piece.countP_pattern_mark h hbraced)
  have hitems := countP_items_eq hformat hmarks
  have hpercent : ∀ p ∈ ps, p.isPercent = false := by
    have hcode : (InitState.loop 0 {} (Piece.pattern ps)).literals.count 37 +
        (InitState.loop 0 {} (Piece.pattern ps)).itemCount = 0 + 0 + (Piece.pattern ps).count 37 :=
      InitState.count_percent_loop hknown
    rw [hliterals 37 rfl (by decide), ← countP_items_init, hitems, Piece.count_pattern_percent h hbraced] at hcode
    have hzero : ps.countP Piece.isPercent = 0 := by omega
    intro p hp
    exact Bool.eq_false_iff.mpr (List.countP_eq_zero.mp hzero p hp)
  intro p hp
  have hb := hbraced p hp
  have hq := hpercent p hp
  cases p with
  | lit | item => rfl
  | percent => cases hq
  | braced => cases hb

open Piece in
/-- A pattern of literals, `%%`, and known items with and without braces: the parts are written one after the other
exactly if the pattern has no `%%` and no braces. A pattern with a bad item is an error, whatever is in front
of it. -/
theorem logFormatter_iff (ps : List Piece) (h : WellFormed ps) : (FormatsRight ps ↔ ∀ p ∈ ps, p.plain = true) ∧
    ∀ u v, BadItem v → (LogFormatter.init (u ++ 37 :: v)).isError = true := by
  refine ⟨⟨plain_of_formatsRight h, fun hplain => ?_⟩, fun u v hv => ?_⟩
  · obtain ⟨hknown, hwritten⟩ := InitState.loop_plain h hplain {}
    refine ⟨?_, fun clock level event => ?_⟩
    · rw [isError_init, hknown]
      rfl
    · rw [format_init, hwritten]
      rfl
  · rw [isError_init, InitState.known_loop_eq_false hv (List.drop_zero ..)]
    rfl

/-- The pattern `[%p]%m%n`. -/
theorem logFormatter_iff_level : Piece.FormatsRight [.lit 91, .item 112, .lit 93, .item 109, .item 110] := by
  have hends : ∀ {b : UInt8} {rest : Bytes}, itemByte b = false → Piece.Ends (b :: rest) := by
    intro b rest hb c hc
    cases hc
    exact hb
  have h : Piece.WellFormed [.lit 91, .item 112, .lit 93, .item 109, .item 110] :=
    ⟨by decide, rfl, hends rfl, by decide, rfl, hends rfl, rfl,
      fun b hb => absurd hb (Option.not_mem_none b), trivial⟩
  exact (logFormatter_iff _ h).1.mpr (by decide)

/-- `%%` is an error, and the brace behind a text is written too. -/
theorem logFormatter_misreads : Piece.WellFormed [.percent] ∧ ¬ Piece.FormatsRight [.percent] ∧
    (LogFormatter.init (str "%%")).isError = true ∧
    Piece.WellFormed [.braced 100 (str "x")] ∧ ¬ Piece.FormatsRight [.braced 100 (str "x")] ∧
    ∀ clock level event, (LogFormatter.init (Piece.pattern [.braced 100 (str "x")])).format clock level event =
      clock (str "x") event.time ++ [125] := by
  have herr : (LogFormatter.init (str "%%")).isError = true := by decide
  have hformat : ∀ clock level event,
      (LogFormatter.init (Piece.pattern [.braced 100 (str "x")])).format clock level event =
        clock (str "x") event.time ++ [125] := fun _ _ _ => rfl
  refine ⟨trivial, fun hright => ?_, herr, ⟨rfl, by decide, trivial⟩, fun hright => ?_, hformat⟩
  · cases herr.symm.trans hright.1
  · have hlen := congrArg List.length (hright.2 lineClock .debug lineEvent)
    cases hlen

end Sherry
