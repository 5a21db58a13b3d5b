import Mathlib.Data.List.Find
import OtaServer.Http.HeaderFields
import OtaServer.Http.Session
import OtaServer.Lib.MachineInt

/-!
# Requests that arrive in pieces

A callback gets the bytes between a position that an earlier action has kept and the current one, in the buffer of the
current call of `http_parser_execute`. A position kept in an earlier call is lost, so that a request may come out
differently when its head is cut.

* `Positions.follow`, `SelfContained`: actions that use only positions which they have set themselves.
* `Sim`: the parser in the buffer of one read, and the parser that has the whole head in one buffer. `act_sim` is one
  action, `exec_inside` and `exec_last` are one call.
* `recvRequest_eq`: what `recvRequest` returns and leaves if the head is self-contained behind each cut,
  `recvRequest_cutting`: two ways of cutting a request.
-/

namespace Sherry.Http

open Lib Ragel

/-! ## Positions -/

/-- The positions that have been set since the start of the buffer. The length of a field name goes with its start. -/
structure Positions where
  mark : Bool := false
  fieldStart : Bool := false
  fieldLen : Bool := false
  queryStart : Bool := false

/-- The positions after an action, if the action uses none that is not set. -/
def Positions.follow (m : Positions) : Action → Option Positions
  | .mark | .startValue => some { m with mark := true }
  | .startField => some { m with fieldStart := true, fieldLen := false }
  | .writeField => if m.fieldStart then some { m with fieldLen := true } else none
  | .writeValue => if m.mark && m.fieldStart && m.fieldLen then some m else none
  | .requestMethod | .fragment | .httpVersion | .requestPath => if m.mark then some m else none
  | .startQuery => some { m with queryStart := true }
  | .queryString => if m.queryStart then some m else none
  | .requestUri | .done | .xml | .json => some m

/-- The actions use no position that they have not set before. -/
def SelfContained (as : List Action) : Prop :=
  (as.foldlM Positions.follow {}).isSome

instance (as : List Action) : Decidable (SelfContained as) :=
  inferInstanceAs (Decidable (_ = true))

/-- The positions at the start of a head. A new parser has them all at the first byte. -/
def Positions.initial (closed : Bool) : Positions := ⟨true, true, closed, true⟩

theorem Positions.follow_initial (closed : Bool) (a : Action) :
    (Positions.initial closed).follow a = (closeField closed a).map Positions.initial := by
  cases closed <;> cases a <;> rfl

theorem isSome_follow_initial {as : List Action} {closed : Bool} (h : (as.foldlM closeField closed).isSome) :
    (as.foldlM Positions.follow (.initial closed)).isSome := by
  induction as generalizing closed with
  | nil => rfl
  | cons a as ih =>
    rw [List.foldlM_cons] at h ⊢
    rw [Positions.follow_initial]
    cases hc : closeField closed a with
    | none => simp [hc] at h
    | some closed' =>
      rw [hc] at h
      exact ih h

/-! ## The method does not depend on what follows the space -/

theorem space_notMem_methods : ∀ e ∈ httpMethodMap, (32 : UInt8) ∉ e.2 ∧ (0 : UInt8) ∉ e.2 := by
  decide

theorem strncmpEq_space {name : Bytes} (h32 : (32 : UInt8) ∉ name) (h0 : (0 : UInt8) ∉ name) (t u v : Bytes) :
    strncmpEq name (t ++ 32 :: u) name.length = strncmpEq name (t ++ 32 :: v) name.length := by
  unfold strncmpEq
  rw [cstr_eq_self h0, List.take_length]
  by_cases hz : (0 : UInt8) ∈ t
  · have hcut : ∀ w, cstr (t ++ 32 :: w) = cstr t := fun w => by
      unfold cstr
      rw [List.takeWhile_append, if_neg]
      intro hl
      exact cstr_eq_self_iff.mp ((List.takeWhile_prefix _).eq_of_length hl) hz
    rw [hcut u, hcut v]
  · have hkeep : ∀ w, cstr (t ++ 32 :: w) = t ++ 32 :: cstr w := fun w => by
      rw [cstr_append hz]
      rfl
    rw [hkeep u, hkeep v]
    by_cases hn : name.length ≤ t.length
    · rw [List.take_append_of_le_length hn, List.take_append_of_le_length hn]
    · -- the space is among the bytes compared, and no name has one
      have hne : ∀ w, (name == (t ++ 32 :: w).take name.length) = false := fun w => by
        rw [beq_eq_false_iff_ne]
        intro he
        refine h32 (he ▸ ?_)
        rw [List.take_append, List.take_of_length_le (by omega)]
        obtain ⟨k, hk⟩ : ∃ k, name.length - t.length = k + 1 := ⟨name.length - t.length - 1, by omega⟩
        simp [hk]
      rw [hne, hne]

theorem charsToHttpMethod_space (t u v : Bytes) :
    charsToHttpMethod (t ++ 32 :: u) = charsToHttpMethod (t ++ 32 :: v) := by
  unfold charsToHttpMethod
  congr 2
  refine List.find?_congr fun e he => ?_
  obtain ⟨h32, h0⟩ := space_notMem_methods e he
  exact strncmpEq_space h32 h0 t u v

/-! ## One action in two buffers -/

/-- The buffer `B` holds the bytes of `W` from `c` on, at least to its own position `i`. -/
structure Agree (B W : Bytes) (c i : Nat) : Prop where
  take : B.take (i + 1) = (W.drop c).take (i + 1)
  lt : i < B.length
  lt' : c + i < W.length

theorem Agree.slice {B W : Bytes} {c i a n : Nat} (h : Agree B W c i) (hn : a + n ≤ i + 1) :
    (B.drop a).take n = (W.drop (a + c)).take n := by
  have hB : (B.drop a).take n = ((B.take (i + 1)).drop a).take n := by
    rw [List.drop_take, List.take_take, Nat.min_eq_left (by omega)]
  rw [hB, h.take, List.drop_take, List.take_take, Nat.min_eq_left (by omega), List.drop_drop, Nat.add_comm c a]

theorem drop_eq_take_append {B : Bytes} {a i : Nat} {b : UInt8} (ha : a ≤ i) (hb : B[i]? = some b) :
    B.drop a = (B.drop a).take (i - a) ++ b :: B.drop (i + 1) := by
  obtain ⟨hi, rfl⟩ := List.getElem?_eq_some_iff.mp hb
  have hsplit : (B.drop a).drop (i - a) = B[i] :: B.drop (i + 1) := by
    rw [List.drop_drop, Nat.add_sub_cancel' ha, List.drop_eq_getElem_cons hi]
  rw [← hsplit, List.take_append_drop]

/-- The parser `p` in the buffer of one read, which starts at `c`, and the parser `q` that has the whole head in one
buffer, at the position `c + i`: they agree but for positions that are not set. -/
structure Sim (c i : Nat) (m : Positions) (p q : HttpRequestParser) : Prop where
  cs : p.cs = q.cs
  error : p.error = q.error
  data : p.data = q.data
  mark : m.mark = true → p.mark + c = q.mark ∧ p.mark ≤ i
  fieldStart : m.fieldStart = true → p.fieldStart + c = q.fieldStart ∧ p.fieldStart ≤ i
  fieldLen : m.fieldLen = true → p.fieldLen = q.fieldLen ∧ p.fieldStart + p.fieldLen ≤ i
  queryStart : m.queryStart = true → p.queryStart + c = q.queryStart ∧ p.queryStart ≤ i

section

variable {B W : Bytes} {c i : Nat} {m m' : Positions} {p q : HttpRequestParser}

theorem Sim.succ (h : Sim c i m p q) : Sim c (i + 1) m p q where
  cs := h.cs
  error := h.error
  data := h.data
  mark hm := ⟨(h.mark hm).1, Nat.le_succ_of_le (h.mark hm).2⟩
  fieldStart hm := ⟨(h.fieldStart hm).1, Nat.le_succ_of_le (h.fieldStart hm).2⟩
  fieldLen hm := ⟨(h.fieldLen hm).1, Nat.le_succ_of_le (h.fieldLen hm).2⟩
  queryStart hm := ⟨(h.queryStart hm).1, Nat.le_succ_of_le (h.queryStart hm).2⟩

theorem Sim.setError (h : Sim c i m p q) (v : Nat) : Sim c i m (p.setError v) (q.setError v) :=
  ⟨h.cs, rfl, h.data, h.mark, h.fieldStart, h.fieldLen, h.queryStart⟩

theorem Sim.setData (h : Sim c i m p q) (f : HttpRequest → HttpRequest) :
    Sim c i m { p with data := f p.data } { q with data := f q.data } :=
  ⟨h.cs, h.error, congrArg f h.data, h.mark, h.fieldStart, h.fieldLen, h.queryStart⟩

theorem Agree.substr (hb : Agree B W c i) {a a' : Nat} (ha : a + c = a') (hle : a ≤ i) :
    ∃ t, HttpRequestParser.substr B a i = some t ∧ HttpRequestParser.substr W a' (c + i) = some t := by
  subst ha
  refine ⟨(W.drop (a + c)).take (i - a), ?_, ?_⟩
  · rw [HttpRequestParser.substr, if_pos hle, hb.slice (by omega)]
  · rw [HttpRequestParser.substr, if_pos (by omega), show c + i - (a + c) = i - a by omega]

theorem Agree.getElem? (hb : Agree B W c i) : B[i]? = W[c + i]? := by
  have h := congrArg (·[i]?) hb.take
  simpa [List.getElem?_take, List.getElem?_drop] using h

theorem Agree.method (hb : Agree B W c i) {a a' : Nat} (ha : a + c = a') (hle : a ≤ i) (h32 : W[c + i]? = some 32) :
    charsToHttpMethod (B.drop a) = charsToHttpMethod (W.drop a') := by
  subst ha
  rw [drop_eq_take_append hle (hb.getElem?.trans h32),
    drop_eq_take_append (show a + c ≤ c + i by omega) h32, hb.slice (by omega),
    show c + i - (a + c) = i - a by omega]
  exact charsToHttpMethod_space _ _ _

/-- The version is read from the bytes up to the current one. -/
theorem Agree.version (hb : Agree B W c i) {a a' : Nat} (ha : a + c = a') (hle : a ≤ i) (v : Bytes) :
    strncmpEq (B.drop a) v (i - a) = strncmpEq (W.drop a') v (c + i - a') := by
  subst ha
  unfold strncmpEq cstr
  rw [show c + i - (a + c) = i - a by omega, List.take_takeWhile, List.take_takeWhile, hb.slice (by omega)]
  simp only [List.take_takeWhile]

theorem Sim.onRequestMethod (h : Sim c i m p q) {t t' : Bytes} (ht : charsToHttpMethod t = charsToHttpMethod t') :
    Sim c i m (p.onRequestMethod t) (q.onRequestMethod t') := by
  unfold HttpRequestParser.onRequestMethod
  rw [ht]
  split
  · exact h.setError 1000
  · exact h.setData fun d => { d with method := charsToHttpMethod t' }

theorem Sim.onRequestVersion (h : Sim c i m p q) {t t' : Bytes} {n n' : Nat}
    (ht : ∀ v, strncmpEq t v n = strncmpEq t' v n') :
    Sim c i m (p.onRequestVersion t n) (q.onRequestVersion t' n') := by
  unfold HttpRequestParser.onRequestVersion
  rw [ht, ht]
  split
  · exact h.setData fun d => { d with version := 0x11 }
  · split
    · exact h.setData fun d => { d with version := 0x10 }
    · exact h.setError 1001

theorem Sim.onRequestHttpField (h : Sim c i m p q) (field value : Bytes) :
    Sim c i m (p.onRequestHttpField field value) (q.onRequestHttpField field value) := by
  unfold HttpRequestParser.onRequestHttpField
  split
  · exact h
  · exact h.setData fun d => d.setHeader field value

/-- A callback that puts the text from a position on into the request. -/
theorem Sim.text (h : Sim c i m p q) (hb : Agree B W c i) {a a' : Nat} (ha : a + c = a')
    (hle : a ≤ i) (f : HttpRequest → Bytes → HttpRequest) :
    ∃ p' q', (HttpRequestParser.substr B a i).map (fun t => { p with data := f p.data t }) = some p' ∧
      (HttpRequestParser.substr W a' (c + i)).map (fun t => { q with data := f q.data t }) = some q' ∧
      Sim c i m p' q' := by
  obtain ⟨t, hB, hW⟩ := hb.substr ha hle
  rw [hB, hW]
  exact ⟨_, _, rfl, rfl, h.setData fun d => f d t⟩

/-- **One action.** An action that uses only positions set in this buffer does the same in the buffer
of the read and in the buffer of the whole head. -/
theorem act_sim (hb : Agree B W c i) (h : Sim c i m p q) {a : Action} (hm : m.follow a = some m')
    (h32 : a = .requestMethod → W[c + i]? = some 32) :
    ∃ p' q', p.act B i a = some p' ∧ q.act W (c + i) a = some q' ∧ Sim c i m' p' q' := by
  cases a with
  | mark | startValue =>
    -- a position is set in both buffers, `c` bytes apart
    obtain rfl := Option.some.inj hm
    exact ⟨_, _, rfl, rfl, h.cs, h.error, h.data, fun _ => ⟨Nat.add_comm i c, Nat.le_refl i⟩,
      h.fieldStart, h.fieldLen, h.queryStart⟩
  | startField =>
    obtain rfl := Option.some.inj hm
    exact ⟨_, _, rfl, rfl, h.cs, h.error, h.data, h.mark,
      fun _ => ⟨Nat.add_comm i c, Nat.le_refl i⟩, nofun, h.queryStart⟩
  | startQuery =>
    obtain rfl := Option.some.inj hm
    exact ⟨_, _, rfl, rfl, h.cs, h.error, h.data, h.mark, h.fieldStart, h.fieldLen,
      fun _ => ⟨Nat.add_comm i c, Nat.le_refl i⟩⟩
  | writeField =>
    obtain ⟨hset, ⟨⟩⟩ := Option.ite_none_right_eq_some.mp hm
    obtain ⟨heq, hle⟩ := h.fieldStart hset
    refine ⟨_, _, rfl, rfl, h.cs, h.error, h.data, h.mark, h.fieldStart, fun _ => ⟨?_, ?_⟩, h.queryStart⟩
    · show i - p.fieldStart = c + i - q.fieldStart
      omega
    · show p.fieldStart + (i - p.fieldStart) ≤ i
      omega
  | writeValue =>
    obtain ⟨hset, ⟨⟩⟩ := Option.ite_none_right_eq_some.mp hm
    simp only [Bool.and_eq_true] at hset
    -- name and value start in this buffer, so both buffers have their texts
    obtain ⟨hmark, hmarkLe⟩ := h.mark hset.1.1
    obtain ⟨hstart, -⟩ := h.fieldStart hset.1.2
    obtain ⟨hlen, hend⟩ := h.fieldLen hset.2
    obtain ⟨t, hB, hW⟩ := hb.substr hmark hmarkLe
    have hname : (B.drop p.fieldStart).take p.fieldLen = (W.drop q.fieldStart).take q.fieldLen := by
      rw [hb.slice (by omega), hstart, hlen]
    refine ⟨_, _, ?_, ?_, h.onRequestHttpField ((W.drop q.fieldStart).take q.fieldLen) t⟩
    · rw [HttpRequestParser.act, hB, hname]
      rfl
    · rw [HttpRequestParser.act, hW]
      rfl
  | requestMethod =>
    obtain ⟨hset, ⟨⟩⟩ := Option.ite_none_right_eq_some.mp hm
    obtain ⟨heq, hle⟩ := h.mark hset
    exact ⟨_, _, rfl, rfl, h.onRequestMethod (hb.method heq hle (h32 rfl))⟩
  | httpVersion =>
    obtain ⟨hset, ⟨⟩⟩ := Option.ite_none_right_eq_some.mp hm
    obtain ⟨heq, hle⟩ := h.mark hset
    exact ⟨_, _, rfl, rfl, h.onRequestVersion fun v => hb.version heq hle v⟩
  | fragment =>
    obtain ⟨hset, ⟨⟩⟩ := Option.ite_none_right_eq_some.mp hm
    obtain ⟨heq, hle⟩ := h.mark hset
    exact h.text hb heq hle fun d t => { d with fragment := t }
  | requestPath =>
    obtain ⟨hset, ⟨⟩⟩ := Option.ite_none_right_eq_some.mp hm
    obtain ⟨heq, hle⟩ := h.mark hset
    exact h.text hb heq hle fun d t => { d with path := t }
  | queryString =>
    obtain ⟨hset, ⟨⟩⟩ := Option.ite_none_right_eq_some.mp hm
    obtain ⟨heq, hle⟩ := h.queryStart hset
    exact h.text hb heq hle fun d t => { d with query := t }
  | requestUri | done | xml | json =>
    obtain rfl := Option.some.inj hm
    exact ⟨p, q, rfl, rfl, h⟩

theorem actAll_sim (hb : Agree B W c i) (h : Sim c i m p q) {as : List Action}
    (hm : as.foldlM Positions.follow m = some m') (h32 : .requestMethod ∈ as → W[c + i]? = some 32) :
    ∃ p' q', p.actAll B i as = some p' ∧ q.actAll W (c + i) as = some q' ∧ Sim c i m' p' q' := by
  induction as generalizing m p q with
  | nil =>
    obtain rfl := Option.some.inj hm
    exact ⟨p, q, rfl, rfl, h⟩
  | cons a as ih =>
    rw [List.foldlM_cons] at hm
    obtain ⟨m₁, ha, hm⟩ := Option.bind_eq_some_iff.mp hm
    obtain ⟨p₁, q₁, hp, hq, h₁⟩ := act_sim hb h ha fun e => h32 (e ▸ List.mem_cons_self)
    obtain ⟨p', q', hp', hq', h'⟩ := ih h₁ hm fun e => h32 (List.mem_cons_of_mem a e)
    refine ⟨p', q', ?_, ?_, h'⟩
    · rw [HttpRequestParser.actAll, List.foldlM_cons, hp]
      exact hp'
    · rw [HttpRequestParser.actAll, List.foldlM_cons, hq]
      exact hq'

end

/-! ## The machine along an accepted head -/

/-- The machine is in the state `s` behind the first `n` bytes of the accepted text `W`, and the text goes on. -/
structure At (s₀ : State Action) (W : Bytes) (n : Nat) (s : State Action) : Prop where
  lt : n < W.length
  accepted : (scan s (W.drop n)).isSome
  after : ∀ k, actionsAfter s₀ W (n + k) = actionsAfter s (W.drop n) k
  onlyOn : s.OnlyOn .requestMethod 32
  finishes : s.Finishes .done

theorem onlyOn_start (u : Bool) : (start (Grammar.main u)).OnlyOn .requestMethod 32 := by
  intro r hr
  obtain rfl := List.mem_singleton.mp hr
  cases u <;> decide +kernel

theorem finishes_start (u : Bool) : (start (Grammar.main u)).Finishes .done := by
  intro r hr
  obtain rfl := List.mem_singleton.mp hr
  refine ⟨_, _, rfl, ?_⟩
  cases u <;> decide +kernel

theorem at_start {u : Bool} {W : Bytes} (h : (scan (start (Grammar.main u)) W).isSome) :
    At (start (Grammar.main u)) W 0 (start (Grammar.main u)) where
  lt := by
    cases W with
    | nil => simp [scan] at h
    | cons b bs => simp
  accepted := h
  after k := by rw [Nat.zero_add, List.drop_zero]
  onlyOn := onlyOn_start u
  finishes := finishes_start u

section

variable {s₀ s : State Action} {W : Bytes} {n : Nat}

/-- **One byte of an accepted head.** Either it is the last one, or the machine goes on. -/
theorem At.step (h : At s₀ W n s) : ∃ b s' as, W.drop n = b :: W.drop (n + 1) ∧ advance s b = some (s', as) ∧
      (.requestMethod ∈ as → W[n]? = some 32) ∧
      ((.done ∈ as ∧ s'.final = true ∧ n + 1 = W.length ∧ actionsAfter s₀ W n = as) ∨
        (.done ∉ as ∧ s'.final = false ∧ At s₀ W (n + 1) s' ∧
          actionsAfter s₀ W n = as ++ actionsAfter s₀ W (n + 1))) := by
  have hlt := h.lt
  have hdrop := List.drop_eq_getElem_cons hlt
  have hacc := h.accepted
  have hafter := h.after
  rw [hdrop] at hacc hafter
  obtain ⟨acts, hacts⟩ := Option.isSome_iff_exists.mp hacc
  have h0 : actionsAfter s₀ W n = acts := by
    have := hafter 0
    rwa [Nat.add_zero, actionsAfter, hacts, Option.getD_some] at this
  rw [scan] at hacts
  split at hacts
  · simp at hacts
  · next s' as hadv =>
    obtain ⟨honly, hmethod⟩ := h.onlyOn.advance hadv
    obtain ⟨hfin, hdone⟩ := h.finishes.advance hadv
    refine ⟨W[n], s', as, hdrop, hadv, fun hm => ?_, ?_⟩
    · rw [List.getElem?_eq_getElem h.lt, hmethod hm]
    · split at hacts
      -- the head ends here, or goes on
      · next hd =>
        obtain ⟨hnil, ⟨⟩⟩ := Option.ite_none_right_eq_some.mp hacts
        have := List.drop_eq_nil_iff.mp hnil
        exact .inl ⟨hd, hdone.mp hd, by omega, h0⟩
      · next hd =>
        obtain ⟨rest, hrest, rfl⟩ := Option.map_eq_some_iff.mp hacts
        have hnext : ∀ k, actionsAfter s₀ W (n + 1 + k) = actionsAfter s' (W.drop (n + 1)) k := by
          intro k
          have := hafter (k + 1)
          rw [actionsAfter, hadv] at this
          rwa [← Nat.add_assoc, Nat.add_right_comm] at this
        have hlt' : n + 1 < W.length := by
          refine Nat.lt_of_not_le fun hle => ?_
          rw [List.drop_eq_nil_of_le hle] at hrest
          simp [scan] at hrest
        refine .inr ⟨hd, Bool.eq_false_iff.mpr (mt hdone.mpr hd), ?_, ?_⟩
        · exact ⟨hlt', by rw [hrest]; rfl, hnext, honly, hfin⟩
        · have := hnext 0
          rw [h0, ← Nat.add_zero (n + 1), this, actionsAfter, hrest, Option.getD_some]

end

/-! ## One call of `http_parser_execute` -/

namespace HttpRequestParser

theorem exec_cons {B bs : Bytes} {i : Nat} {b : UInt8} {p p' : HttpRequestParser}
    {s s' : State Action} {as : List Action} (hcs : p.cs = some s)
    (hadv : advance s b = some (s', as)) (hact : p.actAll B i as = some p') :
    exec B i (b :: bs) p = if .done ∈ as then some ({ p' with cs := some s' }, i + 1)
      else exec B (i + 1) bs { p' with cs := some s' } := by
  rw [exec, hcs, Option.bind_some, hadv]
  simp only [hact]

end HttpRequestParser

/-- Two parsers that differ in their positions at most. -/
structure Same (p q : HttpRequestParser) : Prop where
  cs : p.cs = q.cs
  error : p.error = q.error
  data : p.data = q.data

section

open HttpRequestParser

variable {s₀ s : State Action} {B W : Bytes} {c i : Nat} {m : Positions} {p q : HttpRequestParser}

/-- **One byte in two buffers.** Either both runs end with the head, or both go on. -/
theorem exec_byte (hat : At s₀ W (c + i) s) (hb : Agree B W c i) (h : Sim c i m p q) (hcs : q.cs = some s)
    (hm : ((actionsAfter s₀ W (c + i)).foldlM Positions.follow m).isSome) :
    (∃ p' q', exec B i (B.drop i) p = some (p', i + 1) ∧ exec W (c + i) (W.drop (c + i)) q = some (q', W.length) ∧
      c + i + 1 = W.length ∧ p'.isFinished = true ∧ Same p' q') ∨
    ∃ s' m' p' q', exec B i (B.drop i) p = exec B (i + 1) (B.drop (i + 1)) p' ∧
      exec W (c + i) (W.drop (c + i)) q = exec W (c + (i + 1)) (W.drop (c + (i + 1))) q' ∧
      At s₀ W (c + (i + 1)) s' ∧ s'.final = false ∧ Sim c (i + 1) m' p' q' ∧ q'.cs = some s' ∧
      ((actionsAfter s₀ W (c + (i + 1))).foldlM Positions.follow m').isSome := by
  obtain ⟨b, s', as, hdrop, hadv, hmethod, hend⟩ := hat.step
  have hWb : W[c + i]? = some b := by
    have := congrArg (·[0]?) hdrop
    simpa [List.getElem?_drop] using this
  have hBdrop : B.drop i = b :: B.drop (i + 1) := by
    obtain ⟨hi, hBi⟩ := List.getElem?_eq_some_iff.mp (hb.getElem?.trans hWb)
    rw [List.drop_eq_getElem_cons hi, hBi]
  have hpcs : p.cs = some s := h.cs.trans hcs
  -- the last byte of the head, or one before it
  rcases hend with ⟨hdone, hfinal, hlen, hacts⟩ | ⟨hdone, hfinal, hat', hacts⟩
  · rw [hacts] at hm
    obtain ⟨m', hm'⟩ := Option.isSome_iff_exists.mp hm
    obtain ⟨p', q', hp', hq', h'⟩ := actAll_sim hb h hm' hmethod
    refine .inl ⟨{ p' with cs := some s' }, { q' with cs := some s' }, ?_, ?_, hlen, ?_, ?_⟩
    · rw [hBdrop, exec_cons hpcs hadv hp', if_pos hdone]
    · rw [hdrop, exec_cons hcs hadv hq', if_pos hdone, hlen]
    · simp [isFinished, hfinal]
    · exact ⟨rfl, h'.error, h'.data⟩
  · rw [hacts, List.foldlM_append] at hm
    obtain ⟨mf, hmf⟩ := Option.isSome_iff_exists.mp hm
    obtain ⟨m', hm', hrest⟩ := Option.bind_eq_some_iff.mp hmf
    obtain ⟨p', q', hp', hq', h'⟩ := actAll_sim hb h hm' hmethod
    refine .inr ⟨s', m', { p' with cs := some s' }, { q' with cs := some s' }, ?_, ?_, hat', hfinal, ?_, rfl, ?_⟩
    · rw [hBdrop, exec_cons hpcs hadv hp', if_neg hdone]
    · rw [hdrop, exec_cons hcs hadv hq', if_neg hdone]
      rfl
    · have h'' := h'.succ
      exact ⟨rfl, h''.error, h''.data, h''.mark, h''.fieldStart, h''.fieldLen, h''.queryStart⟩
    · rw [show c + (i + 1) = c + i + 1 from rfl, hrest]
      rfl

/-- **A read inside the head.** All its bytes are parsed, and the head is not finished. -/
theorem exec_inside {k : Nat} (hB : B = (W.drop c).take (i + k)) (hk : c + (i + k) < W.length)
    (hat : At s₀ W (c + i) s) (hfinal : s.final = false) (h : Sim c i m p q) (hcs : q.cs = some s)
    (hm : ((actionsAfter s₀ W (c + i)).foldlM Positions.follow m).isSome) :
    ∃ s' p' q', exec B i (B.drop i) p = some (p', i + k) ∧
      exec W (c + i) (W.drop (c + i)) q = exec W (c + (i + k)) (W.drop (c + (i + k))) q' ∧
      At s₀ W (c + (i + k)) s' ∧ s'.final = false ∧ q'.cs = some s' ∧ Same p' q' := by
  have hlen : B.length = i + k := by
    rw [hB, List.length_take, List.length_drop]
    omega
  induction k generalizing i s m p q with
  | zero =>
    refine ⟨s, p, q, ?_, rfl, hat, hfinal, hcs, h.cs, h.error, h.data⟩
    rw [List.drop_eq_nil_of_le (by omega), exec, Nat.add_zero]
  | succ k ih =>
    have hb : Agree B W c i := by
      refine ⟨?_, by omega, by omega⟩
      rw [hB, List.take_take, Nat.min_eq_left (by omega)]
    rcases exec_byte hat hb h hcs hm with ⟨_, _, _, _, hend, _⟩ |
      ⟨s', m', p', q', hp, hq, hat', hfinal', h', hcs', hm'⟩
    · omega
    · have hik : i + (k + 1) = i + 1 + k := by omega
      rw [hik] at hB hk hlen ⊢
      rw [hp, hq]
      exact ih hB hk hat' hfinal' h' hcs' hm' hlen

/-- **The read with the end of the head.** The bytes of the head are parsed. -/
theorem exec_last {k : Nat} (hB : B.take (i + k) = (W.drop c).take (i + k)) (hlen : i + k ≤ B.length)
    (hk : c + (i + k) = W.length) (hat : At s₀ W (c + i) s) (h : Sim c i m p q) (hcs : q.cs = some s)
    (hm : ((actionsAfter s₀ W (c + i)).foldlM Positions.follow m).isSome) :
    ∃ p' q', exec B i (B.drop i) p = some (p', i + k) ∧
      exec W (c + i) (W.drop (c + i)) q = some (q', W.length) ∧ p'.isFinished = true ∧ Same p' q' := by
  induction k generalizing i s m p q with
  | zero => exact absurd hat.lt (by omega)
  | succ k ih =>
    have hb : Agree B W c i := by
      refine ⟨?_, by omega, by omega⟩
      have := congrArg (List.take (i + 1)) hB
      rwa [List.take_take, List.take_take, Nat.min_eq_left (by omega)] at this
    rcases exec_byte hat hb h hcs hm with ⟨p', q', hp, hq, hend, hfin, hsame⟩ |
      ⟨s', m', p', q', hp, hq, hat', -, h', hcs', hm'⟩
    · obtain rfl : k = 0 := by omega
      exact ⟨p', q', hp, hq, hfin, hsame⟩
    · have hik : i + (k + 1) = i + 1 + k := by omega
      rw [hik] at hB hk hlen ⊢
      rw [hp, hq]
      exact ih hB hlen hk hat' h' hcs' hm'

end

/-! ## Errors of callbacks stay -/

namespace HttpRequestParser

variable {p p' : HttpRequestParser} {i : Nat} {B : Bytes}

theorem act_error {a : Action} (h : p.act B i a = some p') (he : p.error ≠ 0) : p'.error ≠ 0 := by
  cases a with
  | mark | startField | writeField | startValue | startQuery =>
    obtain rfl := Option.some.inj h
    exact he
  | requestUri | done | xml | json =>
    obtain rfl := Option.some.inj h
    exact he
  | writeValue =>
    obtain ⟨t, -, rfl⟩ := Option.map_eq_some_iff.mp h
    unfold onRequestHttpField
    split <;> exact he
  | requestMethod =>
    obtain rfl := Option.some.inj h
    unfold onRequestMethod
    split
    · exact Nat.succ_ne_zero 999
    · exact he
  | httpVersion =>
    obtain rfl := Option.some.inj h
    unfold onRequestVersion
    split
    · exact he
    · split
      · exact he
      · exact Nat.succ_ne_zero 1000
  | fragment | queryString | requestPath =>
    obtain ⟨t, -, rfl⟩ := Option.map_eq_some_iff.mp h
    exact he

/-- What each action keeps, a run keeps. -/
theorem exec_inv {bs : Bytes} {n : Nat} {P : HttpRequestParser → Prop}
    (hact : ∀ i p p' a, p.act B i a = some p' → P p → P p') (hcs : ∀ p cs, P p → P { p with cs := cs })
    (h : exec B i bs p = some (p', n)) (hp : P p) : P p' := by
  -- the actions of one byte
  have hall : ∀ i p p' as, p.actAll B i as = some p' → P p → P p' := by
    intro i p p' as
    induction as generalizing p with
    | nil =>
      intro h hp
      obtain rfl := Option.some.inj h
      exact hp
    | cons a as ih =>
      intro h hp
      rw [actAll, List.foldlM_cons] at h
      obtain ⟨p₁, ha, h⟩ := Option.bind_eq_some_iff.mp h
      exact ih p₁ h (hact i p p₁ a ha hp)
  induction bs generalizing i p with
  | nil =>
    obtain ⟨rfl, -⟩ := Prod.mk.inj (Option.some.inj h)
    exact hp
  | cons b bs ih =>
    rw [exec] at h
    split at h
    · obtain ⟨rfl, -⟩ := Prod.mk.inj (Option.some.inj h)
      exact hcs p none hp
    · split at h
      · simp at h
      · next p₁ hact₁ =>
        have hp₁ := hall i p p₁ _ hact₁ hp
        split at h
        · obtain ⟨rfl, -⟩ := Prod.mk.inj (Option.some.inj h)
          exact hcs p₁ _ hp₁
        · exact ih h (hcs p₁ _ hp₁)

theorem exec_error {bs : Bytes} {n : Nat} (h : exec B i bs p = some (p', n)) (he : p.error ≠ 0) : p'.error ≠ 0 :=
  exec_inv (P := fun p => p.error ≠ 0) (fun _ _ _ _ => act_error) (fun _ _ he => he) h he

/-- The parser at the start of a call. -/
def reset (p : HttpRequestParser) : HttpRequestParser :=
  { p with mark := 0, fieldLen := 0, fieldStart := 0 }

theorem execute_eq (p : HttpRequestParser) (h : B ≠ []) : p.execute B = exec B 0 (B.drop 0) p.reset := if_neg h

end HttpRequestParser

/-- At the start of a call no position is set. -/
theorem Same.sim {p q : HttpRequestParser} (h : Same p q) (c : Nat) : Sim c 0 {} p.reset q :=
  ⟨h.cs, h.error, h.data, nofun, nofun, nofun, nofun⟩

/-! ## The loop of `recvRequest` -/

/-- Where the pieces end, if the first one starts at `c`. -/
def cutPositions : Nat → Pieces → List Nat
  | _, [] => []
  | c, p :: ps => (c + p.length) :: cutPositions (c + p.length) ps

/-- How many bytes behind the head are read with it, if `n` bytes of the head are missing. -/
def buffered (bufferSize : Nat) : Nat → Pieces → Nat
  | _, [] => 0
  | n, p :: ps =>
    if p.length < n then buffered bufferSize (n - p.length) ps else min bufferSize p.length - n

section

open HttpRequestParser

variable {s₀ s : State Action} {W body : Bytes} {c : Nat} {p q : HttpRequestParser} {e : SessionEnv}

variable {m : Positions} {q' : HttpRequestParser} {fuel : Nat} {ps : Pieces}

theorem exists_exec (hat : At s₀ W c s) (hsim : Sim c 0 m p.reset q) (hcs : q.cs = some s)
    (hself : ((actionsAfter s₀ W c).foldlM Positions.follow m).isSome) :
    ∃ q', exec W c (W.drop c) q = some (q', W.length) := by
  have hlt := hat.lt
  obtain ⟨-, q', -, hq, -⟩ := exec_last (B := W.drop c) (k := W.length - c) rfl
    (by rw [List.length_drop]; omega) (by omega) hat hsim hcs hself
  exact ⟨q', hq⟩

theorem recvHead_succ {n : Nat} {ps' : Pieces} {got : Bytes} {p' : HttpRequestParser}
    (hread : read e.bufferSize ps = (got, ps')) (hgot : got ≠ [])
    (hexec : exec got 0 (got.drop 0) p.reset = some (p', n)) :
    recvHead e (fuel + 1) p [] ps =
      if p'.hasError then .error .closed
      else if (got.drop n).length = e.bufferSize then .error .closed
      else if p'.isFinished then .ok (p', got.drop n, ps')
      else recvHead e fuel p' (got.drop n) ps' := by
  rw [recvHead, List.length_nil, Nat.sub_zero, hread]
  simp only [List.nil_append, if_neg hgot, execute_eq p hgot, hexec]

/-- A round that reads a part of the head but not its end. -/
theorem recvHead_inside {x : Bytes} (hat : At s₀ W c s)
    (hfinal : s.final = false) (hsim : Sim c 0 m p.reset q) (hcs : q.cs = some s)
    (hflat : x ++ ps.flatten = W.drop c ++ body) (hx : x ≠ []) (hsize : W.length < e.bufferSize)
    (hself : ((actionsAfter s₀ W c).foldlM Positions.follow m).isSome) (hq' : exec W c (W.drop c) q = some
      (q', W.length))
    (hin : x.length < W.length - c) :
    ∃ s₁ p₁ q₁, At s₀ W (c + x.length) s₁ ∧ s₁.final = false ∧ q₁.cs = some s₁ ∧ Same p₁ q₁ ∧
      exec W (c + x.length) (W.drop (c + x.length)) q₁ = some (q', W.length) ∧
      ps.flatten = W.drop (c + x.length) ++ body ∧
      recvHead e (fuel + 1) p [] (x :: ps) =
        if p₁.error = 0 then recvHead e fuel p₁ [] ps else .error .closed := by
  have hdropLen : (W.drop c).length = W.length - c := List.length_drop
  have hread : Http.read e.bufferSize (x :: ps) = (x, ps) := by
    rw [Http.read, List.take_of_length_le (by omega), if_pos (by omega)]
  have hxW : x = (W.drop c).take (0 + x.length) := by
    have := congrArg (List.take x.length) hflat
    rw [List.take_left, List.take_append_of_le_length (by omega)] at this
    rwa [Nat.zero_add]
  have hflat₁ : ps.flatten = W.drop (c + x.length) ++ body := by
    have := congrArg (List.drop x.length) hflat
    rwa [List.drop_left, List.drop_append_of_le_length (by omega), List.drop_drop] at this
  obtain ⟨s₁, p₁, q₁, hp₁, hq₁, hat₁, hfinal₁, hcs₁, hsame₁⟩ :=
    exec_inside hxW (by omega) hat hfinal hsim hcs hself
  rw [Nat.zero_add] at hp₁ hq₁ hat₁
  rw [Nat.add_zero] at hq₁
  have hp₁cs : p₁.cs = some s₁ := hsame₁.cs.trans hcs₁
  have hnf : p₁.isFinished = false := by simp [isFinished, hp₁cs, hfinal₁]
  refine ⟨s₁, p₁, q₁, hat₁, hfinal₁, hcs₁, hsame₁, hq₁.symm.trans hq', hflat₁, ?_⟩
  rw [recvHead_succ hread hx hp₁, hnf, List.drop_length, List.length_nil]
  by_cases herr : p₁.error = 0
  · have hno : p₁.hasError = false := by simp [hasError, herr, hp₁cs]
    simp only [hno, herr, Bool.false_eq_true, if_false, if_true, if_neg (show ¬ 0 = e.bufferSize by omega)]
  · have hyes : p₁.hasError = true := by simp [hasError, herr]
    rw [hyes, if_pos rfl, if_neg herr]

/-- The round that reads the end of the head. -/
theorem recvHead_last (fuel : Nat) {x : Bytes} (hat : At s₀ W c s) (hsim : Sim c 0 m p.reset q) (hcs : q.cs = some s)
    (hflat : x ++ ps.flatten = W.drop c ++ body) (hne : NonEmpty (x :: ps)) (hsize : W.length ≤ e.bufferSize)
    (hself : ((actionsAfter s₀ W c).foldlM Positions.follow m).isSome) (hq' : exec W c (W.drop c) q = some
      (q', W.length))
    (hx : W.length - c ≤ x.length) : (q'.error ≠ 0 → recvHead e (fuel + 1) p [] (x :: ps) = .error .closed) ∧
      (q'.error = 0 → ∃ p' rest, p'.data = q'.data ∧ recvHead e (fuel + 1) p [] (x :: ps) =
          .ok (p', rest, dropBytes (W.length - c + rest.length) (x :: ps)) ∧
        rest.length = buffered e.bufferSize (W.length - c) (x :: ps) ∧
        rest ++ (dropBytes (W.length - c + rest.length) (x :: ps)).flatten = body) := by
  have hlt := hat.lt
  have hsnd := read_snd (n := e.bufferSize) hne
  have happ := (read_append e.bufferSize (x :: ps)).trans hflat
  have hlen := length_read e.bufferSize x ps
  -- the read takes the rest of the head, and maybe more
  generalize hread : Http.read e.bufferSize (x :: ps) = r at hsnd happ hlen
  obtain ⟨got, ps'⟩ := r
  dsimp only at hsnd happ hlen
  have hgot : got ≠ [] := by
    rintro rfl
    rw [List.length_nil] at hlen
    omega
  have hdropLen : (W.drop c).length = W.length - c := List.length_drop
  have htake : got.take (0 + (W.length - c)) = (W.drop c).take (0 + (W.length - c)) := by
    have := congrArg (List.take (W.length - c)) happ
    rw [Nat.zero_add]
    rwa [List.take_append_of_le_length (by omega), List.take_append_of_le_length (by omega)] at this
  obtain ⟨p₁, q₁, hp₁, hq₁, hfin, hsame₁⟩ :=
    exec_last htake (by omega) (by omega) hat hsim hcs hself
  obtain ⟨rfl, -⟩ := Prod.mk.inj (Option.some.inj (hq₁.symm.trans hq'))
  rw [Nat.zero_add] at hp₁
  -- the machine is finished, so only a callback can have failed
  have herr : p₁.hasError = (q₁.error != 0) := by
    have : p₁.cs.isNone = false := by
      rw [isFinished] at hfin
      cases h : p₁.cs with
      | none => simp [h] at hfin
      | some _ => rfl
    rw [hasError, this, Bool.or_false, hsame₁.error]
  rw [recvHead_succ hread hgot hp₁, herr, hfin]
  have hdrop : W.length - c + (got.drop (W.length - c)).length = got.length := by
    rw [List.length_drop]
    omega
  refine ⟨fun hne0 => by simp [hne0], fun h0 => ?_⟩
  refine ⟨p₁, got.drop (W.length - c), hsame₁.data, ?_, ?_, ?_⟩
  · rw [if_neg (by simp [h0]), if_neg (by rw [List.length_drop]; omega), if_pos rfl, hdrop, hsnd]
  · rw [buffered, if_neg (by omega), List.length_drop, hlen]
  · have := congrArg (List.drop (W.length - c)) happ
    rw [hdrop, ← hsnd]
    rwa [List.drop_append_of_le_length (by omega), List.drop_left' hdropLen] at this

/-- **The head.** The loop gets the request that the head gives in one buffer. -/
theorem recvHead_eq (hat : At s₀ W c s) (hfinal : s.final = false) (hsim : Sim c 0 m p.reset q) (hcs : q.cs = some s)
    (hself : ((actionsAfter s₀ W c).foldlM Positions.follow m).isSome)
    (hflat : ps.flatten = W.drop c ++ body) (hne : NonEmpty ps) (hfuel : ps.flatten.length < fuel)
    (hsize : W.length < e.bufferSize)
    (hcut : ∀ d ∈ cutPositions c ps, d < W.length → SelfContained (actionsAfter s₀ W d)) (hq' : exec W c (W.drop c) q
    = some (q', W.length)) :
    (q'.error ≠ 0 → recvHead e fuel p [] ps = .error .closed) ∧ (q'.error = 0 → ∃ p' rest, p'.data = q'.data ∧
        recvHead e fuel p [] ps = .ok (p', rest, dropBytes (W.length - c + rest.length) ps) ∧
        rest.length = buffered e.bufferSize (W.length - c) ps ∧
        rest ++ (dropBytes (W.length - c + rest.length) ps).flatten = body) := by
  have hlt := hat.lt
  induction fuel generalizing c s p q m ps with
  | zero => omega
  | succ fuel ih =>
    cases ps with
    | nil =>
      have := congrArg List.length hflat
      simp only [List.flatten_nil, List.length_nil, List.length_append, List.length_drop] at this
      omega
    | cons x ps =>
      have hx : x ≠ [] := hne x List.mem_cons_self
      have hxpos := List.length_pos_iff.mpr hx
      rw [List.flatten_cons] at hflat hfuel
      rw [List.length_append] at hfuel
      by_cases hin : x.length < W.length - c
      -- the piece ends in the head: one more round
      · obtain ⟨s₁, p₁, q₁, hat₁, hfinal₁, hcs₁, hsame₁, hq₁, hflat₁, hround⟩ :=
          recvHead_inside hat hfinal hsim hcs hflat hx hsize hself hq' hin
        rw [hround]
        by_cases herr : p₁.error = 0
        · have hdrop : ∀ k, dropBytes (W.length - c + k) (x :: ps) =
              dropBytes (W.length - (c + x.length) + k) ps := by
            intro k
            rw [dropBytes, if_neg (by omega)]
            congr 1
            omega
          have hbuf : buffered e.bufferSize (W.length - c) (x :: ps) =
              buffered e.bufferSize (W.length - (c + x.length)) ps := by
            rw [buffered, if_pos hin, Nat.sub_sub]
          simp only [hbuf, hdrop, if_pos herr]
          exact ih hat₁ hfinal₁ (hsame₁.sim _) hcs₁ (hcut _ List.mem_cons_self hat₁.lt) hflat₁
            hne.tail (by omega) (fun d hd => hcut d (List.mem_cons_of_mem _ hd)) hq₁ hat₁.lt
        · rw [if_neg herr]
          refine ⟨fun _ => rfl, fun h0 => absurd h0 (exec_error hq₁ ?_)⟩
          rwa [← hsame₁.error]
      -- the piece has the rest of the head
      · exact recvHead_last fuel hat hsim hcs hflat hne (Nat.le_of_lt hsize) hself hq' (by omega)

end

/-! ## The body -/

/-- The request that a head and the bytes behind it make up. -/
def requestOf (d : HttpRequest) (length : Nat) (body : Bytes) : HttpRequest :=
  if 0 < length then ({ d with body := body.take length } : HttpRequest).init else d.init

theorem returned_pos {n : Nat} (h0 : 0 < n) (h : n < 2 ^ 32) : 0 < returned n ↔ n < 2 ^ 31 :=
  toInt_pos_iff h0 h

theorem getContentLength_lt (e : SessionEnv) (p : HttpRequestParser) :
    p.getContentLength e < 2 ^ 32 := Nat.mod_lt _ (by decide)

variable {body head : Bytes} {e : SessionEnv} {ps : Pieces}

/-- **The body.** It is read if no more than an `int` counts is missing. The bytes of the buffer that
do not belong to it are lost. -/
theorem recvBody_eq {p : HttpRequestParser} {rest : Bytes}
    (hne : NonEmpty ps) (hlen : p.getContentLength e ≤ (rest ++ ps.flatten).length) :
    (2 ^ 31 ≤ p.getContentLength e - rest.length → (recvBody e p rest ps).1 = .closed) ∧
      (p.getContentLength e - rest.length < 2 ^ 31 → recvBody e p rest ps =
        (.request (requestOf p.data (p.getContentLength e) (rest ++ ps.flatten)),
          dropBytes (p.getContentLength e - rest.length) ps)) := by
  have hlt := getContentLength_lt e p
  unfold recvBody requestOf
  generalize p.getContentLength e = length at hlen hlt ⊢
  rw [List.length_append] at hlen
  dsimp only
  by_cases h0 : 0 < length
  · rw [if_pos h0, if_pos h0]
    -- bytes are missing, or the buffer has all of them
    by_cases hmore : rest.length < length
    · have hleft : length - rest.length ≤ ps.flatten.length := by omega
      have hpos := returned_pos (n := length - rest.length) (by omega) (by omega)
      rw [if_pos hmore, readFixSize_eq hne hleft hleft]
      dsimp only
      constructor
      · intro hbig
        rw [if_pos (by omega)]
      · intro hsmall
        have htake : rest.take length = rest := List.take_of_length_le (by omega)
        rw [if_neg (by omega), List.take_append, htake]
    · rw [if_neg hmore]
      refine ⟨fun hbig => by omega, fun _ => ?_⟩
      rw [List.take_append_of_le_length (by omega), Nat.sub_eq_zero_of_le (by omega), dropBytes_zero hne]
  · rw [if_neg h0, if_neg h0]
    refine ⟨fun hbig => by omega, fun _ => ?_⟩
    rw [Nat.sub_eq_zero_of_le (by omega), dropBytes_zero hne]

/-! ## Whole requests -/

/-- The bytes are one complete request: a head that the grammar accepts and that is shorter than the request buffer,
and as many bytes as its `Content-Length` says. -/
structure CompleteRequest (e : SessionEnv) (head body : Bytes) : Prop where
  accepted : (scan (start (Grammar.main e.uriRelaxed)) head).isSome
  short : head.length < e.bufferSize
  length : ((HttpRequestParser.new e.uriRelaxed).execute head).map
    (fun r => (r.1.data.getHeaderAs e (str "content-length")).toNat) = some body.length

/-- The pieces of a request: all its bytes, and no piece without a byte. -/
structure Cutting (ps : Pieces) (head body : Bytes) : Prop where
  flatten : ps.flatten = head ++ body
  nonEmpty : NonEmpty ps

/-- Behind each cut in the head, the actions of the head use only positions that they have set themselves; and what is
missing of the body when the head has been read is less than `2 ^ 31` bytes. -/
structure CutOk (e : SessionEnv) (head body : Bytes) (ps : Pieces) : Prop where
  selfContained : ∀ c ∈ cutPositions 0 ps, c < head.length →
    SelfContained (actionsAfter (start (Grammar.main e.uriRelaxed)) head c)
  missing : body.length % 2 ^ 32 - buffered e.bufferSize head.length ps < 2 ^ 31

theorem sim_new (u : Bool) : Sim 0 0 (.initial true) (HttpRequestParser.new u).reset (.new u) := by
  refine ⟨rfl, rfl, rfl, ?_, ?_, ?_, ?_⟩ <;> exact fun _ => ⟨rfl, Nat.le_refl 0⟩

theorem isSome_follow_start {u : Bool} (h : (scan (start (Grammar.main u)) head).isSome) :
    ((actionsAfter (start (Grammar.main u)) head 0).foldlM Positions.follow (.initial true)).isSome := by
  obtain ⟨acts, hacts⟩ := Option.isSome_iff_exists.mp h
  rw [actionsAfter, hacts, Option.getD_some]
  exact isSome_follow_initial (fieldsClosed hacts)

/-- What the head gives in one buffer. -/
theorem CompleteRequest.exists_exec (h : CompleteRequest e head body) :
    ∃ q, HttpRequestParser.exec head 0 (head.drop 0) (.new e.uriRelaxed) = some (q, head.length) ∧
      q.getContentLength e = body.length % 2 ^ 32 := by
  have hat := at_start h.accepted
  obtain ⟨q, hq⟩ := Http.exists_exec hat (sim_new _) rfl (isSome_follow_start h.accepted)
  refine ⟨q, hq, ?_⟩
  have hne : head ≠ [] := List.ne_nil_of_length_pos hat.lt
  have hlen := h.length
  rw [HttpRequestParser.execute_eq _ hne, show (HttpRequestParser.new e.uriRelaxed).reset =
    .new e.uriRelaxed from rfl, hq] at hlen
  exact congrArg (· % 2 ^ 32) (Option.some.inj hlen)

theorem final_start (u : Bool) : (start (Grammar.main u)).final = false := by
  cases u <;> decide +kernel

/-- **A request at the start of a stream.** What `recvRequest` returns and leaves, if each cut in the
head is harmless. -/
theorem recvRequest_eq {later : Bytes} (h : CompleteRequest e head body) (hflat : ps.flatten = head ++
    (body ++ later)) (hne : NonEmpty ps)
    (hcut : ∀ c ∈ cutPositions 0 ps, c < head.length →
      SelfContained (actionsAfter (start (Grammar.main e.uriRelaxed)) head c))
    {q : HttpRequestParser}
    (hq : HttpRequestParser.exec head 0 (head.drop 0) (.new e.uriRelaxed) = some (q, head.length)) :
    (q.error ≠ 0 → (recvRequest e ps).1 = .closed) ∧
      (q.error = 0 →
        (2 ^ 31 ≤ body.length % 2 ^ 32 - buffered e.bufferSize head.length ps →
          (recvRequest e ps).1 = .closed) ∧
        (body.length % 2 ^ 32 - buffered e.bufferSize head.length ps < 2 ^ 31 →
          recvRequest e ps = (.request (requestOf q.data (body.length % 2 ^ 32) (body ++ later)),
            dropBytes (head.length + max (body.length % 2 ^ 32)
              (buffered e.bufferSize head.length ps)) ps))) := by
  obtain ⟨q', hq', hlen⟩ := h.exists_exec
  obtain ⟨rfl, -⟩ := Prod.mk.inj (Option.some.inj (hq'.symm.trans hq))
  obtain ⟨hbad, hgood⟩ := recvHead_eq (at_start h.accepted) (final_start e.uriRelaxed)
    (sim_new e.uriRelaxed) rfl (isSome_follow_start h.accepted) hflat hne
    (Nat.lt_succ_self ps.flatten.length) h.short hcut hq
  rw [recvRequest]
  refine ⟨fun herr => by rw [hbad herr], fun herr => ?_⟩
  obtain ⟨p', rest, hdata, hrecv, hrest, happ⟩ := hgood herr
  rw [Nat.sub_zero] at hrecv hrest happ
  -- the length depends on the request alone
  have hlen' : p'.getContentLength e = body.length % 2 ^ 32 := by
    rw [← hlen, HttpRequestParser.getContentLength, hdata]
    rfl
  have hle : p'.getContentLength e ≤
      (rest ++ (dropBytes (head.length + rest.length) ps).flatten).length := by
    have := Nat.mod_le body.length (2 ^ 32)
    rw [happ, hlen', List.length_append]
    omega
  obtain ⟨hbig, hsmall⟩ := recvBody_eq (hne.dropBytes _) hle
  rw [hrecv, ← hrest, ← hlen', ← hdata]
  refine ⟨hbig, fun hlt => ?_⟩
  dsimp only
  rw [hsmall hlt, happ, dropBytes_add]
  congr 2
  omega

/-- What is received of a request with this body, when its head leaves the parser `q`. -/
def received (q : HttpRequestParser) (body : Bytes) : Recv :=
  if q.error ≠ 0 then .closed else .request (requestOf q.data (body.length % 2 ^ 32) body)

/-- **Cuttings.** A complete request that is received in two ways comes out the same, and as if its head came in one
read, if no read of either way starts between the setting of a position and its use. -/
theorem recvRequest_cutting (h : CompleteRequest e head body) {qs : Pieces} (hps : Cutting ps head body)
    (hqs : Cutting qs head body) (hp : CutOk e head body ps) (hq : CutOk e head body qs) :
    ∃ q, (HttpRequestParser.new e.uriRelaxed).execute head = some (q, head.length) ∧
      (recvRequest e ps).1 = received q body ∧ (recvRequest e ps).1 = (recvRequest e qs).1 := by
  obtain ⟨q, hrun, -⟩ := h.exists_exec
  have hone : ∀ {ps : Pieces}, Cutting ps head body → CutOk e head body ps →
      (recvRequest e ps).1 = received q body := by
    intro ps hps hok
    have hflat : ps.flatten = head ++ (body ++ []) := by
      rw [hps.flatten, List.append_nil]
    obtain ⟨hbad, hgood⟩ := recvRequest_eq h hflat hps.nonEmpty hok.selfContained hrun
    unfold received
    split
    · next herr => exact hbad herr
    · next herr => rw [(hgood (not_not.mp herr)).2 hok.missing, List.append_nil]
  refine ⟨q, ?_, hone hps hp, (hone hps hp).trans (hone hqs hq).symm⟩
  rw [HttpRequestParser.execute_eq _ (List.ne_nil_of_length_pos (at_start h.accepted).lt)]
  exact hrun

/-- `boost::lexical_cast<uint64_t>` of a text of digits. -/
def decimal (b : Bytes) : Option UInt64 :=
  if b ≠ [] ∧ b.all (fun d => 48 ≤ d && d ≤ 57) then
    let n := b.foldl (fun n d => 10 * n + (d.toNat - 48)) 0
    if n < 2 ^ 64 then some (UInt64.ofNat n) else none
  else none

/-- The default configuration. -/
def defaultEnv : SessionEnv where
  bufferSize := 4096
  bufferSize_lt := default_bufferSize_lt
  lexicalCast := decimal
  uriRelaxed := false

instance (e : SessionEnv) (head body : Bytes) : Decidable (CompleteRequest e head body) :=
  decidable_of_iff (((scan (start (Grammar.main e.uriRelaxed)) head).isSome ∧
      head.length < e.bufferSize) ∧
    ((HttpRequestParser.new e.uriRelaxed).execute head).map
      (fun r => (r.1.data.getHeaderAs e (str "content-length")).toNat) = some body.length)
    ⟨fun h => ⟨h.1.1, h.1.2, h.2⟩, fun h => ⟨⟨h.accepted, h.short⟩, h.length⟩⟩

instance (e : SessionEnv) (head body : Bytes) (ps : Pieces) : Decidable (CutOk e head body ps) :=
  decidable_of_iff ((∀ c ∈ cutPositions 0 ps, c < head.length →
      SelfContained (actionsAfter (start (Grammar.main e.uriRelaxed)) head c)) ∧
    body.length % 2 ^ 32 - buffered e.bufferSize head.length ps < 2 ^ 31)
    ⟨fun h => ⟨h.1, h.2⟩, fun h => ⟨h.selfContained, h.missing⟩⟩

/-- A request whose head is cut between its parts. -/
theorem recvRequest_cutting_parts :
    ∃ q, (HttpRequestParser.new false).execute (str "PUT /a HTTP/1.1\r\nContent-Length:2\r\n\r\n") = some (q, 37) ∧
      (recvRequest defaultEnv [str "PUT ", str "/a ", str "HTTP/1.1\r\n", str "Content-Length:2\r\n", str "\r\nx",
        str "y"]).1 = received q (str "xy") ∧
      (recvRequest defaultEnv [str "PUT ", str "/a ", str "HTTP/1.1\r\n", str "Content-Length:2\r\n", str "\r\nx",
        str "y"]).1 = (recvRequest defaultEnv [str "PUT /a HTTP/1.1\r\nContent-Length:2\r\n\r\nxy"]).1 :=
  recvRequest_cutting (e := defaultEnv) (by decide +kernel) ⟨by decide +kernel, by decide⟩
    ⟨by decide +kernel, by decide⟩ (by decide +kernel) (by decide +kernel)

/-- What a call returns, if it returns a request. -/
def Recv.request? : Recv → Option HttpRequest
  | .request r => some r
  | .closed | .threw => none

/-- A head that is cut inside its path: the first part of the path is lost. -/
theorem recvRequest_cuts_path : CompleteRequest defaultEnv (str "GET /ab HTTP/1.1\r\n\r\n") [] ∧
      Cutting [str "GET /a", str "b HTTP/1.1\r\n\r\n"] (str "GET /ab HTTP/1.1\r\n\r\n") [] ∧
      Cutting [str "GET /ab HTTP/1.1\r\n\r\n"] (str "GET /ab HTTP/1.1\r\n\r\n") [] ∧
      (recvRequest defaultEnv [str "GET /a", str "b HTTP/1.1\r\n\r\n"]).1.request?.map (·.path) = some (str "b") ∧
      (recvRequest defaultEnv [str "GET /ab HTTP/1.1\r\n\r\n"]).1.request?.map (·.path) = some (str "/ab") := by
  refine ⟨?_, ⟨?_, ?_⟩, ⟨?_, ?_⟩, ?_, ?_⟩ <;> decide +kernel

end Sherry.Http
