import OtaServer.Http.RequestDump

/-!
# The method of a request

Which method the request parser takes from the first word of a request.

* `BehindMethod`: the parser behind the blank after the method.
* `charsToHttpMethod_isMethod`, `stringToHttpMethod_isMethod`: the two searches in the table, on a method. One takes a
  name that the method starts with, the other one only the method itself.
* `requestMethod_iff`: the callback takes the method with the name in the request exactly if no name of the table is a
  proper start of it.
-/

namespace Sherry.Http

open Lib Ragel

/-! ## The two searches -/

variable {token : Bytes}

theorem zero_notMem_of_isMethod (h : IsMethod token) : 0 ∉ token := by
  intro hmem
  cases h.bytes 0 hmem

theorem stringToHttpMethod_isMethod (h : IsMethod token) :
    stringToHttpMethod token = ((httpMethodMap.find? fun e => e.2 == token).map (·.1)).getD .invalidMethod := by
  rw [stringToHttpMethod]
  congr 2
  refine List.find?_congr fun e he => ?_
  rw [cstr_eq_self (space_notMem_methods e he).2, cstr_eq_self (zero_notMem_of_isMethod h)]

theorem strncmpEq_isMethod {name : Bytes} (h : IsMethod token) (h32 : 32 ∉ name) (h0 : 0 ∉ name) :
    strncmpEq name (token ++ [32]) name.length = name.isPrefixOf token := by
  have hzero : 0 ∉ token ++ [32] := by
    intro hmem
    rcases List.mem_append.mp hmem with hmem | hmem
    · exact zero_notMem_of_isMethod h hmem
    · cases List.mem_singleton.mp hmem
  rw [strncmpEq, cstr_eq_self h0, cstr_eq_self hzero, List.take_length, Bool.eq_iff_iff, beq_iff_eq,
    ← List.prefix_iff_eq_take, List.isPrefixOf_iff_prefix, List.prefix_concat_iff]
  constructor
  · rintro (rfl | hpre)
    · exact absurd (List.mem_append_right token List.mem_cons_self) h32
    · exact hpre
  · exact .inr

/-- What is behind the blank does not count. -/
theorem charsToHttpMethod_isMethod (h : IsMethod token) (rest : Bytes) :
    charsToHttpMethod (token ++ 32 :: rest) =
      ((httpMethodMap.find? fun e => e.2.isPrefixOf token).map (·.1)).getD .invalidMethod := by
  rw [charsToHttpMethod_space token rest [], charsToHttpMethod]
  congr 2
  refine List.find?_congr fun e he => ?_
  obtain ⟨h32, h0⟩ := space_notMem_methods e he
  exact strncmpEq_isMethod h h32 h0

/-- No name is a proper start of another one. -/
theorem httpMethodMap_prefix_free : ∀ e ∈ httpMethodMap, ∀ e' ∈ httpMethodMap, e.2.isPrefixOf e'.2 = true →
    e.2 = e'.2 := by
  decide +kernel

theorem invalidMethod_notMem_map : ∀ e ∈ httpMethodMap, e.1 ≠ .invalidMethod := by
  decide +kernel

/-- No name of the table is a proper start of the method. -/
def NoShorterName (token : Bytes) : Prop := ∀ e ∈ httpMethodMap, e.2 <+: token → e.2 = token

theorem charsToHttpMethod_eq_of_noShorterName (h : IsMethod token) (hname : NoShorterName token)
    (rest : Bytes) : charsToHttpMethod (token ++ 32 :: rest) = stringToHttpMethod token := by
  rw [charsToHttpMethod_isMethod h, stringToHttpMethod_isMethod h]
  congr 2
  refine List.find?_congr fun e he => ?_
  rw [Bool.eq_iff_iff, List.isPrefixOf_iff_prefix, beq_iff_eq]
  exact ⟨hname e he, fun heq => heq ▸ List.prefix_rfl⟩

section

variable {token : Bytes} {e : HttpMethod × Bytes} (h : IsMethod token) (he : e ∈ httpMethodMap)
  (hpre : e.2 <+: token)

include h he hpre

theorem charsToHttpMethod_ne_invalid (rest : Bytes) : charsToHttpMethod (token ++ 32 :: rest) ≠ .invalidMethod := by
  rw [charsToHttpMethod_isMethod h]
  cases hfind : httpMethodMap.find? fun e => e.2.isPrefixOf token with
  | none => exact absurd (List.isPrefixOf_iff_prefix.mpr hpre) (List.find?_eq_none.mp hfind e he)
  | some e' => exact invalidMethod_notMem_map e' (List.mem_of_find?_eq_some hfind)

theorem stringToHttpMethod_eq_invalid (hne : e.2 ≠ token) : stringToHttpMethod token = .invalidMethod := by
  have hnone : httpMethodMap.find? (fun e => e.2 == token) = none := by
    rw [List.find?_eq_none]
    intro e' he' heq
    have heq' : e'.2 = token := beq_iff_eq.mp heq
    have hpre' : e.2.isPrefixOf e'.2 = true := List.isPrefixOf_iff_prefix.mpr (heq' ▸ hpre)
    exact hne ((httpMethodMap_prefix_free e he e' he' hpre').trans heq')
  rw [stringToHttpMethod_isMethod h, hnone]
  rfl

end

/-! ## The parser -/

namespace HttpRequestParser

/-- A new parser is in `p` behind the method and the blank of a request, and goes on with the rest from there. -/
structure BehindMethod (u : Bool) (token rest : Bytes) (p : HttpRequestParser) : Prop where
  method : exec (token ++ 32 :: rest) 0 (token ++ [32]) (new u) = some (p, token.length + 1)
  rest : (new u).execute (token ++ 32 :: rest) = exec (token ++ 32 :: rest) (token.length + 1) rest p

theorem BehindMethod.unique {u : Bool} {token rest : Bytes} {p p' : HttpRequestParser}
    (h : BehindMethod u token rest p) (h' : BehindMethod u token rest p') : p = p' :=
  congrArg Prod.fst (Option.some.inj (h.method.symm.trans h'.method))

/-- The callback gets the whole buffer from the first byte of the method on. -/
theorem behindMethod (u : Bool) {token : Bytes} (h : IsMethod token) (rest : Bytes) :
    BehindMethod u token rest
      { (new u).onRequestMethod (token ++ 32 :: rest) with cs := some (uriState u) } := by
  have hacts : actsFrom (fun fpc p a => p.act (token ++ 32 :: rest) fpc a) 0 (new u)
      (partActs [.mark] (token.length - 1) [.requestMethod]) =
        some ((new u).onRequestMethod (token ++ 32 :: rest)) := actsFrom_part rfl rfl
  have hread : ∀ more, exec (token ++ 32 :: rest) 0 ((token ++ [32]) ++ more) (new u) =
      exec (token ++ 32 :: rest) (token.length + 1) more
        { (new u).onRequestMethod (token ++ 32 :: rest) with cs := some (uriState u) } := by
    intro more
    have hlen : token.length + 1 = 0 + (token ++ [32]).length := by simp
    rw [hlen]
    exact (runner _).walk (walk_isMethod h) (done_notMem_partActs (by simp) (by simp) _) rfl hacts
  constructor
  · have hnil := hread []
    rwa [List.append_nil] at hnil
  · have hrest := hread rest
    rw [List.append_assoc, List.singleton_append] at hrest
    rw [← hrest, execute, if_neg (by simp)]
    rfl

/-- The callback has recorded the method with the name `token`, or has set the error if there is none. -/
structure MethodRight (token : Bytes) (p : HttpRequestParser) : Prop where
  recorded : stringToHttpMethod token ≠ .invalidMethod → p.data.method = stringToHttpMethod token
  error : p.error ≠ 0 ↔ stringToHttpMethod token = .invalidMethod

theorem methodRight_iff (u : Bool) (token text : Bytes) (cs : Option (State Action)) :
    MethodRight token { (new u).onRequestMethod text with cs := cs } ↔
      charsToHttpMethod text = stringToHttpMethod token := by
  unfold onRequestMethod
  split
  next hinvalid =>
    rw [hinvalid]
    constructor
    · intro h
      exact (h.error.mp (Nat.succ_ne_zero 999)).symm
    · intro h
      exact ⟨fun hne => absurd h.symm hne, fun _ => h.symm, fun _ => Nat.succ_ne_zero 999⟩
  next hvalid =>
    constructor
    · intro h
      exact h.recorded fun hinvalid => h.error.mpr hinvalid rfl
    · intro h
      exact ⟨fun _ => h, fun herr => absurd rfl herr, fun hinvalid => absurd (h.trans hinvalid) hvalid⟩

end HttpRequestParser

open HttpRequestParser

theorem requestMethod_iff (u : Bool) (token rest : Bytes) (h : IsMethod token) :
    (∃ p, BehindMethod u token rest p ∧ MethodRight token p) ↔ NoShorterName token := by
  have hiff : (∃ p, BehindMethod u token rest p ∧ MethodRight token p) ↔
      charsToHttpMethod (token ++ 32 :: rest) = stringToHttpMethod token := by
    rw [← methodRight_iff u token _ (some (uriState u))]
    constructor
    · rintro ⟨p, hp, hright⟩
      rwa [(behindMethod u h rest).unique hp]
    · intro hright
      exact ⟨_, behindMethod u h rest, hright⟩
  rw [hiff]
  constructor
  · intro heq e he hpre
    by_contra hne
    exact charsToHttpMethod_ne_invalid h he hpre rest
      (heq.trans (stringToHttpMethod_eq_invalid h he hpre hne))
  · intro hname
    exact charsToHttpMethod_eq_of_noShorterName h hname rest

/-- `POST`, which is no start of another name. -/
theorem requestMethod_iff_post : IsMethod (str "POST") ∧
    ((∃ p, BehindMethod false (str "POST") (str "/ HTTP/1.1\r\n\r\n") p ∧ MethodRight (str "POST") p) ↔
      NoShorterName (str "POST")) :=
  have h : IsMethod (str "POST") := ⟨by decide, by decide, by decide +kernel⟩
  ⟨h, requestMethod_iff false _ _ h⟩

/-- `GETX` is no name of a method, and the request gets the method `GET`. -/
theorem requestMethod_getx : IsMethod (str "GETX") ∧ stringToHttpMethod (str "GETX") = .invalidMethod ∧
    ∃ p, BehindMethod false (str "GETX") (str "/ HTTP/1.1\r\n\r\n") p ∧ p.data.method = .get ∧ p.error = 0 ∧
      ¬ MethodRight (str "GETX") p := by
  have h : IsMethod (str "GETX") := ⟨by decide, by decide, by decide +kernel⟩
  have hnone : stringToHttpMethod (str "GETX") = .invalidMethod := by decide +kernel
  have hget : charsToHttpMethod (str "GETX" ++ 32 :: str "/ HTTP/1.1\r\n\r\n") = .get := by decide +kernel
  refine ⟨h, hnone, _, behindMethod false h _, ?_⟩
  rw [onRequestMethod, if_neg (by rw [hget]; decide), hget]
  exact ⟨rfl, rfl, fun hright => hright.error.mpr hnone rfl⟩

end Sherry.Http
