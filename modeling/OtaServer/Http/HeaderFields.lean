import OtaServer.Http.Parser

/-!
# Header fields in the machine

`write_value` takes the name of a field from `field_start` and `field_len`. Several threads of the machine run at
once, and one of them could start a field while another is still in a value. This does not happen: a field starts
behind a line feed only, and a value ends at the first line feed (`field_value :> CRLF`). So each `write_value` comes
behind the `write_field` of the field that was started last (`fieldsClosed`).

* `Thread`: the expressions that a thread can be in, by phases; `Thread.step` is one byte.
* `Threads`: what holds of all threads together; `Threads.advance` is one byte.
-/

namespace Sherry.Http

open Lib Ragel Re Grammar

/-- An expression without actions as a part of the numbered machine. -/
def plain (r : Re Action) : Re (Nat × Action) := (r.number 0).1

/-- The actions on fields. -/
def isField (x : Nat × Action) : Bool :=
  x.2 == .startField || x.2 == .writeField || x.2 == .writeValue

section

variable (n : Nat)

/-- `field_value`, with its actions numbered from `n + 2` on. -/
def valueN : Re (Nat × Action) :=
  leave (enter (star (plain content)) (n + 2, .startValue)) (n + 3, .writeValue)

/-- `":" lws* field_value`. -/
def behindName : Re (Nat × Action) := cat (plain (text ":")) (cat (star (plain lws)) (valueN n))

/-- `v :> CRLF`. -/
def guarded (v : Re (Nat × Action)) : Re (Nat × Action) :=
  cat (prio v (0, 0)) (enterPrio (plain crlf) (0, 1))

/-- `message_header`, with its actions numbered from `n` on. -/
def headerN : Re (Nat × Action) :=
  guarded (cat (leave (enter (plus (plain token)) (n, .startField)) (n + 1, .writeField))
    (behindName n))

/-- `( message_header )* CRLF`. -/
def headersN : Re (Nat × Action) := cat (star (headerN n)) (plain crlf)

/-- The rest of a head from inside a header on. -/
def inHeader (d : Nat × Action) (g : Re (Nat × Action)) : Re (Nat × Action) :=
  finish (cat (cat g (star (headerN n))) (plain crlf)) d

end

/-- The machine starts with the request line, the headers behind it, or with a socket request. -/
theorem start_eq (u : Bool) : ∃ line socket n d,
    start (Grammar.main u) = [finish (alt (cat line (headersN n)) socket) (d, .done)] ∧
      line.ends 10 = true ∧ line.nullable = false ∧ line.mentions isField = false ∧
      socket.mentions isField = false := by
  refine ⟨((requestLine u).number 0).1, _, ((requestLine u).number 0).2, _, rfl, ?_, ?_, ?_, ?_⟩ <;>
    cases u <;> decide +kernel

/-! ## Values -/

/-- A blank of `lws`. -/
def blank : Re (Nat × Action) := plain (oneOf (str " \t"))

/-- What is left of `lws` behind a blank. -/
def blanks : Re (Nat × Action) := cat eps (star blank)

section

variable {n : Nat} {c : UInt8} {e : Edge (Nat × Action)}

theorem eq_of_mem_step_crlf (he : e ∈ (plain crlf).step c) : c = 13 ∨ c = 10 := by
  rw [show plain crlf = alt (cat (byte 13) (byte 10)) (byte 10) from rfl, step, List.mem_append] at he
  rcases he with he | he
  · rcases mem_step_cat.mp he with ⟨e', he', -⟩ | ⟨hn, -⟩
    · exact .inl (eq_of_mem_step (r := byte 13) (by decide) he')
    · simp [byte, nullable] at hn
  · exact .inr (eq_of_mem_step (r := byte 10) (by decide) he)

theorem blanks_step (he : e ∈ blanks.step c) : e.next = blanks := by
  rcases mem_step_cat.mp he with ⟨e', he', -⟩ | ⟨-, e', he', rfl⟩
  · simp [step] at he'
  · obtain ⟨e'', he'', rfl⟩ := List.mem_map.mp he'
    obtain ⟨-, rfl⟩ := mem_step_cls.mp he''
    rfl

theorem lws_step (he : e ∈ (plain lws).step c) (hlf : c ≠ 10) (hcr : c ≠ 13) : e.next = blanks := by
  rw [show plain lws = cat (alt (plain crlf) eps) (cat blank (star blank)) from rfl] at he
  rcases mem_step_cat.mp he with ⟨e', he', -⟩ | ⟨-, e', he', rfl⟩
  · rw [step, step, List.append_nil] at he'
    rcases eq_of_mem_step_crlf he' with h | h
    · exact absurd h hcr
    · exact absurd h hlf
  · rcases mem_step_cat.mp he' with ⟨e'', he'', rfl⟩ | ⟨hn, -⟩
    · obtain ⟨-, rfl⟩ := mem_step_cls.mp he''
      rfl
    · simp [blank, plain, oneOf, number, nullable] at hn

theorem content_step (he : e ∈ (plain content).step c) (hlf : c ≠ 10) (hcr : c ≠ 13) :
    e.next = eps ∨ e.next = blanks := by
  rw [show plain content = alt (cls (without 0 255 httpCtl)) (plain lws) from rfl, step, List.mem_append] at he
  rcases he with he | he
  · obtain ⟨-, rfl⟩ := mem_step_cls.mp he
    exact .inl rfl
  · exact .inr (lws_step he hlf hcr)

/-- What is left of `lws* field_value` and can be left with the next byte. -/
inductive Value (n : Nat) : Re (Nat × Action) → Prop
  | start : Value n (cat eps (cat (star (plain lws)) (valueN n)))
  | blanks : Value n (cat (cat blanks (star (plain lws))) (valueN n))
  | content {k : Re (Nat × Action)} (hk : k = eps ∨ k = Http.blanks) :
      Value n (leave (cat k (star (plain content))) (n + 3, .writeValue))

theorem Value.nullable {v : Re (Nat × Action)} (h : Value n v) : v.nullable = true := by
  cases h with
  | start | blanks => rfl
  | content hk => rcases hk with rfl | rfl <;> rfl

theorem Value.mentions {v : Re (Nat × Action)} (h : Value n v) :
    v.mentions (fun x => x.2 == .startField || x.2 == .writeField) = false := by
  cases h with
  | start | blanks => rfl
  | content hk => rcases hk with rfl | rfl <;> rfl

theorem valueN_step (he : e ∈ (valueN n).step c) (hlf : c ≠ 10) (hcr : c ≠ 13) : Value n e.next := by
  obtain ⟨e₁, he₁, rfl⟩ := List.mem_map.mp he
  obtain ⟨e₂, he₂, rfl⟩ := List.mem_map.mp he₁
  obtain ⟨e₃, he₃, rfl⟩ := List.mem_map.mp he₂
  exact .content (content_step he₃ hlf hcr)

theorem lwsValue_step (he : e ∈ (cat (star (plain lws)) (valueN n)).step c) (hlf : c ≠ 10)
    (hcr : c ≠ 13) : Value n e.next := by
  rcases mem_step_cat.mp he with ⟨e', he', rfl⟩ | ⟨-, e', he', rfl⟩
  · obtain ⟨e'', he'', rfl⟩ := List.mem_map.mp he'
    rw [show e''.next = Http.blanks from lws_step he'' hlf hcr]
    exact .blanks
  · exact valueN_step he' hlf hcr

theorem Value.step {v : Re (Nat × Action)} (h : Value n v) (he : e ∈ v.step c) (hlf : c ≠ 10)
    (hcr : c ≠ 13) : Value n e.next := by
  cases h with
  | start =>
    rcases mem_step_cat.mp he with ⟨e', he', -⟩ | ⟨-, e', he', rfl⟩
    · simp [Re.step] at he'
    · exact lwsValue_step he' hlf hcr
  | blanks =>
    rcases mem_step_cat.mp he with ⟨e', he', rfl⟩ | ⟨-, e', he', rfl⟩
    · rcases mem_step_cat.mp he' with ⟨e'', he'', rfl⟩ | ⟨-, e'', he'', rfl⟩
      · rw [show e''.next = Http.blanks from blanks_step he'']
        exact .blanks
      · obtain ⟨e₃, he₃, rfl⟩ := List.mem_map.mp he''
        rw [show e₃.next = Http.blanks from lws_step he₃ hlf hcr]
        exact .blanks
    · exact valueN_step he' hlf hcr
  | content hk =>
    obtain ⟨e', he', rfl⟩ := List.mem_map.mp he
    rcases mem_step_cat.mp he' with ⟨e'', he'', rfl⟩ | ⟨-, e'', he'', rfl⟩
    · rcases hk with rfl | rfl
      · simp [Re.step] at he''
      · exact .content (.inr (blanks_step he''))
    · obtain ⟨e₃, he₃, rfl⟩ := List.mem_map.mp he''
      exact .content (content_step he₃ hlf hcr)

end

/-! ## Threads -/

/-- Where a thread is: at a place where a field can start, in a name, in a value, or elsewhere. -/
inductive Phase where
  | quiet | ready | name | value
  deriving DecidableEq

/-- A thread that can end its part is ready for the next field. -/
def Phase.ofNullable (b : Bool) : Phase := if b then .ready else .quiet

/-- The expressions that a thread can be in. -/
inductive Thread (n : Nat) (d : Nat) : Phase → Re (Nat × Action) → Prop
  | start {line socket : Re (Nat × Action)} (hends : line.ends 10 = true)
      (hnull : line.nullable = false) (hline : line.mentions isField = false)
      (hsocket : socket.mentions isField = false) :
      Thread n d .quiet (finish (alt (cat line (headersN n)) socket) (d, .done))
  | line {r : Re (Nat × Action)} (hends : r.ends 10 = true) (hr : r.mentions isField = false) :
      Thread n d (.ofNullable r.nullable) (finish (cat r (headersN n)) (d, .done))
  | name {k : Re (Nat × Action)} (hk : k.mentions isField = false) :
      Thread n d .name
        (inHeader n (d, .done) (guarded (cat (leave k (n + 1, .writeField)) (behindName n))))
  | value {v : Re (Nat × Action)} (hv : Value n v) :
      Thread n d .value (inHeader n (d, .done) (guarded v))
  | crlf {g : Re (Nat × Action)} (hends : g.ends 10 = true) (hg : g.mentions isField = false) :
      Thread n d (.ofNullable g.nullable) (inHeader n (d, .done) g)
  | other {k : Re (Nat × Action)} (hk : k.mentions isField = false) :
      Thread n d .quiet (finish k (d, .done))

/-- An action runs with an edge. -/
def Runs (a : Action) (acts : List (Nat × Action)) : Prop := ∃ k, (k, a) ∈ acts

/-- What one byte of a thread can do: a field starts where the thread is ready and not on a colon, its name ends on a
colon, only a value is written, a thread comes into a value by a name that ends or stays in it on another byte than a
line feed, and it becomes ready on a line feed. -/
structure Moves (φ φ' : Phase) (c : UInt8) (acts : List (Nat × Action)) : Prop where
  start : Runs .startField acts → φ = .ready ∧ φ' = .name ∧ c ≠ 58
  name : Runs .writeField acts → c = 58
  write : Runs .writeValue acts → φ = .value
  value : φ' = .value → φ = .value ∧ c ≠ 10 ∨ Runs .writeField acts
  ready : φ' = .ready → c = 10

variable {φ φ' : Phase} {acts : List (Nat × Action)} {c : UInt8} {d : Nat} {as : List Action}

theorem not_runs (h : ∀ x ∈ acts, isField x = false) {a : Action}
    (ha : a = .startField ∨ a = .writeField ∨ a = .writeValue) : ¬ Runs a acts := by
  rintro ⟨k, hk⟩
  have := h _ hk
  rcases ha with rfl | rfl | rfl <;> simp [isField] at this

theorem Moves.of_quiet (h : ∀ x ∈ acts, isField x = false) (hv : φ' ≠ .value) (hr : φ' = .ready → c = 10) :
    Moves φ φ' c acts where
  start hs := absurd hs (not_runs h (.inl rfl))
  name hs := absurd hs (not_runs h (.inr (.inl rfl)))
  write hs := absurd hs (not_runs h (.inr (.inr rfl)))
  value he := absurd he hv
  ready := hr

theorem Moves.finish
    (h : Moves φ φ' c acts) (b : Bool) :
    Moves φ φ' c (acts ++ if b then [(d, .done)] else []) := by
  have hiff : ∀ a, a ≠ .done → (Runs a (acts ++ if b then [(d, .done)] else []) ↔ Runs a acts) := by
    intro a ha
    cases b <;> simp [Runs, ha]
  exact ⟨fun hs => h.start ((hiff .startField nofun).mp hs),
    fun hs => h.name ((hiff .writeField nofun).mp hs),
    fun hs => h.write ((hiff .writeValue nofun).mp hs),
    fun hv => (h.value hv).imp_right (hiff .writeField nofun).mpr, h.ready⟩

theorem Moves.append {pre : List (Nat × Action)}
    (h : Moves φ φ' c acts) (hpre : ∀ x ∈ pre, isField x = false) : Moves φ φ' c (pre ++ acts) := by
  have hiff : ∀ a, a = .startField ∨ a = .writeField ∨ a = .writeValue →
      (Runs a (pre ++ acts) ↔ Runs a acts) := by
    intro a ha
    refine ⟨?_, fun ⟨k, hk⟩ => ⟨k, List.mem_append_right pre hk⟩⟩
    rintro ⟨k, hk⟩
    rcases List.mem_append.mp hk with hk | hk
    · exact absurd ⟨k, hk⟩ (not_runs hpre ha)
    · exact ⟨k, hk⟩
  exact ⟨fun hs => h.start ((hiff _ (.inl rfl)).mp hs),
    fun hs => h.name ((hiff _ (.inr (.inl rfl))).mp hs),
    fun hs => h.write ((hiff _ (.inr (.inr rfl))).mp hs),
    fun hv => (h.value hv).imp_right (hiff _ (.inr (.inl rfl))).mpr, h.ready⟩

theorem Phase.ofNullable_ne_value (b : Bool) : Phase.ofNullable b ≠ .value := by
  cases b <;> nofun

theorem Phase.ofNullable_eq_ready {b : Bool} (h : Phase.ofNullable b = .ready) : b = true := by
  cases b with
  | true => rfl
  | false => simp [Phase.ofNullable] at h

section

variable {n d : Nat} {c : UInt8} {e : Edge (Nat × Action)} {φ : Phase} {r g v : Re (Nat × Action)}

theorem lastCrlf_step (he : e ∈ (plain crlf).step c) :
    Thread n d .quiet (finish e.next (d, .done)) ∧ ∀ φ, Moves φ .quiet c e.acts := by
  obtain ⟨hnext, hacts⟩ := mentions_step (r := plain crlf) (P := isField) rfl he
  exact ⟨.other hnext, fun φ => .of_quiet hacts nofun nofun⟩

theorem colon_notMem_token : ¬ ∃ r ∈ without 0 127 ((httpCtl ++ httpSeparator).insertionSort (· ≤ ·)),
    r.1 ≤ (58 : UInt8) ∧ (58 : UInt8) ≤ r.2 := by
  decide +kernel

theorem header_step (he : e ∈ (headerN n).step c) :
    Thread n d .name (inHeader n (d, .done) e.next) ∧ Moves .ready .name c e.acts := by
  rcases mem_step_cat.mp he with ⟨e₁, he₁, rfl⟩ | ⟨hn, -⟩
  · obtain ⟨e₂, he₂, rfl⟩ := List.mem_map.mp he₁
    rcases mem_step_cat.mp he₂ with ⟨e₃, he₃, rfl⟩ | ⟨hn, -⟩
    · obtain ⟨e₄, he₄, rfl⟩ := List.mem_map.mp he₃
      obtain ⟨e₅, he₅, rfl⟩ := List.mem_map.mp he₄
      rcases mem_step_cat.mp he₅ with ⟨e₆, he₆, rfl⟩ | ⟨hn, -⟩
      · obtain ⟨hrange, rfl⟩ := mem_step_cls.mp he₆
        refine ⟨Thread.name rfl, ⟨fun _ => ⟨rfl, rfl, ?_⟩, ?_, ?_, nofun, nofun⟩⟩
        · rintro rfl
          exact colon_notMem_token hrange
        · rintro ⟨k, hk⟩
          simp at hk
        · rintro ⟨k, hk⟩
          simp at hk
      · exact absurd hn Bool.false_ne_true
    · exact absurd hn Bool.false_ne_true
  · exact absurd hn Bool.false_ne_true

/-- Where a field can start, the next byte starts one or the last `CRLF`. -/
theorem headers_step (he : e ∈ (headersN n).step c) :
    ∃ φ', Thread n d φ' (finish e.next (d, .done)) ∧ Moves .ready φ' c e.acts := by
  rcases mem_step_cat.mp he with ⟨e₁, he₁, rfl⟩ | ⟨-, e₁, he₁, rfl⟩
  · obtain ⟨e₂, he₂, rfl⟩ := List.mem_map.mp he₁
    obtain ⟨hthread, hmoves⟩ := header_step (d := d) he₂
    exact ⟨.name, hthread, hmoves⟩
  · obtain ⟨hthread, hmoves⟩ := lastCrlf_step (n := n) (d := d) he₁
    exact ⟨.quiet, hthread, hmoves .ready⟩

theorem mem_inHeader_step (hg : g.nullable = false) :
    e ∈ (inHeader n (d, .done) g).step c ↔ ∃ e' ∈ g.step c,
      ⟨e'.acts ++ (if (cat (cat e'.next (star (headerN n))) (plain crlf)).nullable
        then [(d, .done)] else []), e'.prios, inHeader n (d, .done) e'.next⟩ = e := by
  have hcat : (cat g (star (headerN n))).nullable = false := by simp [nullable, hg]
  constructor
  · intro he
    obtain ⟨e₁, he₁, rfl⟩ := List.mem_map.mp he
    rcases mem_step_cat.mp he₁ with ⟨e₂, he₂, rfl⟩ | ⟨hn, -⟩
    · rcases mem_step_cat.mp he₂ with ⟨e₃, he₃, rfl⟩ | ⟨hn, -⟩
      · exact ⟨e₃, he₃, rfl⟩
      · simp [hg] at hn
    · simp [hcat] at hn
  · rintro ⟨e', he', rfl⟩
    refine List.mem_map.mpr ⟨{ e' with next := cat (cat e'.next (star (headerN n))) (plain crlf) },
      mem_step_cat.mpr (.inl ⟨{ e' with next := cat e'.next (star (headerN n)) }, ?_, rfl⟩), rfl⟩
    exact mem_step_cat.mpr (.inl ⟨e', he', rfl⟩)

theorem guarded_nullable (v : Re (Nat × Action)) : (guarded v).nullable = false := by
  rw [guarded, nullable, show (enterPrio (plain crlf) (0, 1)).nullable = false from rfl, Bool.and_false]

/-- Inside a value a byte that can start `CRLF` does so. -/
theorem beaten_of_crlf (hv : Value n v) (hc : c = 13 ∨ c = 10) {p : List (Nat × Nat)}
    (hp : (0, 0) ∈ p) {acts : List (Nat × Action)} {next : Re (Nat × Action)} :
    Edge.beaten ((inHeader n (d, .done) (guarded v)).step c) ⟨acts, p, next⟩ = true := by
  have hcrlf : ∃ e', e' ∈ (enterPrio (plain crlf) (0, 1)).step c ∧ (0, 1) ∈ e'.prios := by
    rcases hc with rfl | rfl
    · exact ⟨⟨[], [(0, 1)], cat eps (byte 10)⟩, by decide, by decide⟩
    · exact ⟨⟨[], [(0, 1)], eps⟩, by decide, by decide⟩
  obtain ⟨e', he', hprio⟩ := hcrlf
  have hmem := (mem_inHeader_step (n := n) (d := d) (c := c) (guarded_nullable v)).mpr
    ⟨_, mem_step_cat.mpr (.inr ⟨hv.nullable, e', he', rfl⟩), rfl⟩
  simp only [Edge.beaten, List.any_eq_true, Bool.and_eq_true, beq_iff_eq, decide_eq_true_eq]
  exact ⟨(0, 0), hp, _, hmem, (0, 1), hprio, rfl, Nat.zero_lt_one⟩

theorem name_step {k : Re (Nat × Action)} (hk : k.mentions isField = false)
    (he : e ∈ (guarded (cat (leave k (n + 1, .writeField)) (behindName n))).step c) :
    ∃ φ', Thread n d φ' (inHeader n (d, .done) e.next) ∧ Moves .name φ' c e.acts := by
  rcases mem_step_cat.mp he with ⟨e₁, he₁, rfl⟩ | ⟨hn, -⟩
  · obtain ⟨e₂, he₂, rfl⟩ := List.mem_map.mp he₁
    rcases mem_step_cat.mp he₂ with ⟨e₃, he₃, rfl⟩ | ⟨-, e₃, he₃, rfl⟩
    · obtain ⟨e₄, he₄, rfl⟩ := List.mem_map.mp he₃
      obtain ⟨hnext, hacts⟩ := mentions_step hk he₄
      exact ⟨.name, .name hnext, .of_quiet hacts nofun nofun⟩
    · -- the colon: the name is left
      rcases mem_step_cat.mp he₃ with ⟨e₄, he₄, rfl⟩ | ⟨hn, -⟩
      · have hc : c = 58 := eq_of_mem_step (r := plain (text ":")) (by decide) he₄
        obtain ⟨-, rfl⟩ := mem_step_cls.mp he₄
        have hquiet : ∀ x ∈ k.leaving, isField x = false := fun x hx => not_of_mem_leaving hk hx
        refine ⟨.value, .value .start, ?_⟩
        show Moves .name .value c (k.leaving ++ [(n + 1, .writeField)] ++ [])
        rw [List.append_nil]
        refine Moves.append ?_ hquiet
        refine ⟨?_, fun _ => hc, ?_, fun _ => .inr ⟨n + 1, List.mem_cons_self⟩, nofun⟩
        · rintro ⟨j, hj⟩
          simp at hj
        · rintro ⟨j, hj⟩
          simp at hj
      · exact absurd hn Bool.false_ne_true
  · simp [nullable, behindName, plain, text, lit, str, byte, number] at hn

theorem value_step (hv : Value n v) (he : e ∈ (inHeader n (d, .done) (guarded v)).step c)
    (hb : e.beaten ((inHeader n (d, .done) (guarded v)).step c) = false) :
    ∃ φ', Thread n d φ' e.next ∧ Moves .value φ' c e.acts := by
  obtain ⟨e₁, he₁, rfl⟩ := (mem_inHeader_step (guarded_nullable v)).mp he
  rcases mem_step_cat.mp he₁ with ⟨e₂, he₂, rfl⟩ | ⟨-, e₂, he₂, rfl⟩
  · obtain ⟨e₃, he₃, rfl⟩ := List.mem_map.mp he₂
    have hc : ¬ (c = 13 ∨ c = 10) := by
      intro hc
      rw [beaten_of_crlf hv hc List.mem_cons_self] at hb
      simp at hb
    obtain ⟨hcr, hlf⟩ := not_or.mp hc
    obtain ⟨-, hacts⟩ := mentions_step hv.mentions he₃
    refine ⟨.value, .value (hv.step he₃ hlf hcr), Moves.finish ?_ _⟩
    refine ⟨?_, ?_, fun _ => rfl, fun _ => .inl ⟨rfl, hlf⟩, nofun⟩
    · rintro ⟨k, hk⟩
      simpa using hacts _ hk
    · rintro ⟨k, hk⟩
      simpa using hacts _ hk
  · obtain ⟨e₃, he₃, rfl⟩ := List.mem_map.mp he₂
    obtain ⟨hends, hlast⟩ := ends_step (r := plain crlf) (b := 10) rfl he₃
    obtain ⟨hnext, hacts⟩ := mentions_step (r := plain crlf) (P := isField) rfl he₃
    refine ⟨_, .crlf hends hnext, Moves.finish ?_ _⟩
    have hleave : ∀ a, a = .startField ∨ a = .writeField → ¬ Runs a (v.leaving ++ e₃.acts) := by
      rintro a ha ⟨k, hk⟩
      rcases List.mem_append.mp hk with hk | hk
      · have := not_of_mem_leaving hv.mentions hk
        rcases ha with rfl | rfl <;> simp at this
      · exact not_runs hacts (ha.imp_right .inl) ⟨k, hk⟩
    exact ⟨fun hs => absurd hs (hleave _ (.inl rfl)), fun hs => absurd hs (hleave _ (.inr rfl)),
      fun _ => rfl, fun hv' => absurd hv' (Phase.ofNullable_ne_value _),
      fun hr => hlast (Phase.ofNullable_eq_ready hr)⟩

/-- **One byte of a thread.** -/
theorem Thread.step (h : Thread n d φ r) (he : e ∈ r.step c) (hb : e.beaten (r.step c) = false) :
    ∃ φ', Thread n d φ' e.next ∧ Moves φ φ' c e.acts := by
  cases h with
  | start hends hnull hline hsocket =>
    obtain ⟨e₁, he₁, rfl⟩ := List.mem_map.mp he
    -- the request line, or a socket request
    rcases List.mem_append.mp he₁ with he₁ | he₁
    · rcases mem_step_cat.mp he₁ with ⟨e₂, he₂, rfl⟩ | ⟨hn, -⟩
      · obtain ⟨hends', hlast⟩ := ends_step hends he₂
        obtain ⟨hnext, hacts⟩ := mentions_step hline he₂
        refine ⟨_, .line hends' hnext, Moves.finish (.of_quiet hacts ?_ ?_) _⟩
        · exact Phase.ofNullable_ne_value _
        · exact fun hr => hlast (Phase.ofNullable_eq_ready hr)
      · simp [hnull] at hn
    · obtain ⟨hnext, hacts⟩ := mentions_step hsocket he₁
      have hmoves : Moves .quiet .quiet c e₁.acts := .of_quiet hacts nofun nofun
      exact ⟨.quiet, .other hnext, hmoves.finish _⟩
  | line hends hr =>
    obtain ⟨e₁, he₁, rfl⟩ := List.mem_map.mp he
    rcases mem_step_cat.mp he₁ with ⟨e₂, he₂, rfl⟩ | ⟨hn, e₂, he₂, rfl⟩
    · obtain ⟨hends', hlast⟩ := ends_step hends he₂
      obtain ⟨hnext, hacts⟩ := mentions_step hr he₂
      refine ⟨_, .line hends' hnext, Moves.finish (.of_quiet hacts ?_ ?_) _⟩
      · exact Phase.ofNullable_ne_value _
      · exact fun hr => hlast (Phase.ofNullable_eq_ready hr)
    · obtain ⟨φ', hthread, hmoves⟩ := headers_step (d := d) he₂
      rw [hn]
      exact ⟨φ', hthread, (hmoves.append fun x hx => not_of_mem_leaving hr hx).finish _⟩
  | name hk =>
    obtain ⟨e₁, he₁, rfl⟩ := (mem_inHeader_step (guarded_nullable _)).mp he
    obtain ⟨φ', hthread, hmoves⟩ := name_step (d := d) hk he₁
    exact ⟨φ', hthread, hmoves.finish _⟩
  | value hv => exact value_step hv he hb
  | @crlf g hends hg =>
    obtain ⟨e₁, he₁, rfl⟩ := List.mem_map.mp he
    have hleave : ∀ x ∈ g.leaving, isField x = false := fun x hx => not_of_mem_leaving hg hx
    -- in the request line still, or in the first header
    rcases mem_step_cat.mp he₁ with ⟨e₂, he₂, rfl⟩ | ⟨hn, e₂, he₂, rfl⟩
    -- in the line end still, in the next header, or in the blank line
    · rcases mem_step_cat.mp he₂ with ⟨e₃, he₃, rfl⟩ | ⟨hn, e₃, he₃, rfl⟩
      · obtain ⟨hends', hlast⟩ := ends_step hends he₃
        obtain ⟨hnext, hacts⟩ := mentions_step hg he₃
        refine ⟨_, .crlf hends' hnext, Moves.finish (.of_quiet hacts ?_ ?_) _⟩
        · exact Phase.ofNullable_ne_value _
        · exact fun hr => hlast (Phase.ofNullable_eq_ready hr)
      · obtain ⟨e₄, he₄, rfl⟩ := List.mem_map.mp he₃
        obtain ⟨hthread, hmoves⟩ := header_step (d := d) he₄
        rw [hn]
        exact ⟨.name, hthread, (hmoves.append hleave).finish _⟩
    · obtain ⟨hthread, hmoves⟩ := lastCrlf_step (n := n) (d := d) he₂
      refine ⟨.quiet, hthread, Moves.finish (Moves.append (hmoves _) fun x hx => ?_) _⟩
      exact hleave x (by simpa [leaving] using hx)
  | other hk =>
    obtain ⟨e₁, he₁, rfl⟩ := List.mem_map.mp he
    obtain ⟨hnext, hacts⟩ := mentions_step hk he₁
    have hmoves : Moves .quiet .quiet c e₁.acts := .of_quiet hacts nofun nofun
    exact ⟨.quiet, .other hnext, hmoves.finish _⟩

end

/-! ## All threads together -/

/-- Whether the name of the last field is complete, after an action. Only then may a value be written. -/
def closeField : Bool → Action → Option Bool
  | _, .startField => some false
  | _, .writeField => some true
  | b, .writeValue => if b then some true else none
  | b, _ => some b

theorem foldlM_closeField_true (h : .startField ∉ as) : as.foldlM closeField true = some true := by
  induction as with
  | nil => rfl
  | cons a as ih =>
    obtain ⟨ha, has⟩ := not_or.mp (mt List.mem_cons.mpr h)
    have hclose : closeField true a = some true := by
      cases a <;> first | rfl | exact absurd rfl ha
    rw [List.foldlM_cons, hclose]
    exact ih has

theorem foldlM_closeField_of_noWrite (h : .writeValue ∉ as) (b : Bool) : ∃ b', as.foldlM closeField b = some b' := by
  induction as generalizing b with
  | nil => exact ⟨b, rfl⟩
  | cons a as ih =>
    obtain ⟨ha, has⟩ := not_or.mp (mt List.mem_cons.mpr h)
    have hclose : ∃ b', closeField b a = some b' := by
      cases a <;> first | exact ⟨_, rfl⟩ | exact absurd rfl ha
    obtain ⟨b', hb'⟩ := hclose
    rw [List.foldlM_cons, hb']
    exact ih has b'

theorem foldlM_closeField_of_name (hs : .startField ∉ as) (hw : .writeValue ∉ as) (hn : .writeField ∈ as) (b : Bool) :
    as.foldlM closeField b = some true := by
  obtain ⟨pre, post, rfl⟩ := List.append_of_mem hn
  have hpre : Action.writeValue ∉ pre := fun h => hw (List.mem_append_left _ h)
  have hpost : Action.startField ∉ post := fun h =>
    hs (List.mem_append_right pre (List.mem_cons_of_mem _ h))
  obtain ⟨b', hb'⟩ := foldlM_closeField_of_noWrite hpre b
  rw [List.foldlM_append, hb']
  exact foldlM_closeField_true hpost

/-- No thread is in a value; or none is ready for a field, and the name of the last field is complete. -/
def Threads (n d : Nat) (closed : Bool) (s : State Action) : Prop :=
  (∀ r ∈ s, ∃ φ, φ ≠ .value ∧ Thread n d φ r) ∨
    closed = true ∧ ∀ r ∈ s, ∃ φ, φ ≠ .ready ∧ Thread n d φ r

/-- **One byte of all threads.** -/
theorem Threads.advance {n : Nat} {closed : Bool} {s s' : State Action} (h : Threads n d closed s) (hs : Ragel.advance
    s c = some (s', as)) :
    ∃ closed', as.foldlM closeField closed = some closed' ∧ Threads n d closed' s' := by
  obtain ⟨es, hes, hnext, hacts⟩ := advance_eq_some hs
  have hruns : ∀ a, a ∈ as ↔ ∃ e ∈ es, Runs a e.acts := hacts
  have hedges {φ₀ : Phase} (h : ∀ r ∈ s, ∃ φ, φ ≠ φ₀ ∧ Thread n d φ r) (e) (he : e ∈ es) :
      ∃ φ φ', φ ≠ φ₀ ∧ Thread n d φ' e.next ∧ Moves φ φ' c e.acts := by
    obtain ⟨r, hr, hstep, hbeaten⟩ := hes e he
    obtain ⟨φ, hφ, hthread⟩ := h r hr
    obtain ⟨φ', hthread', hmoves⟩ := hthread.step hstep hbeaten
    exact ⟨φ, φ', hφ, hthread', hmoves⟩
  rcases h with h | ⟨rfl, h⟩
  · have hedge := hedges h
    have hw : .writeValue ∉ as := by
      intro hw
      obtain ⟨e, he, hrun⟩ := (hruns _).mp hw
      obtain ⟨φ, φ', hφ, -, hmoves⟩ := hedge e he
      exact hφ (hmoves.write hrun)
    by_cases hname : .writeField ∈ as
    · obtain ⟨e₀, he₀, hrun₀⟩ := (hruns _).mp hname
      have hc : c = 58 := by
        obtain ⟨φ, φ', -, -, hmoves⟩ := hedge e₀ he₀
        exact hmoves.name hrun₀
      have hstart : .startField ∉ as := by
        intro hs'
        obtain ⟨e, he, hrun⟩ := (hruns _).mp hs'
        obtain ⟨φ, φ', -, -, hmoves⟩ := hedge e he
        exact (hmoves.start hrun).2.2 hc
      refine ⟨true, foldlM_closeField_of_name hstart hw hname closed, .inr ⟨rfl, fun r' hr' => ?_⟩⟩
      obtain ⟨e, he, rfl⟩ := (hnext r').mp hr'
      obtain ⟨φ, φ', -, hthread, hmoves⟩ := hedge e he
      refine ⟨φ', fun hr => ?_, hthread⟩
      have := (hmoves.ready hr).symm.trans hc
      exact absurd this (by decide)
    · obtain ⟨closed', hclosed⟩ := foldlM_closeField_of_noWrite hw closed
      refine ⟨closed', hclosed, .inl fun r' hr' => ?_⟩
      obtain ⟨e, he, rfl⟩ := (hnext r').mp hr'
      obtain ⟨φ, φ', hφ, hthread, hmoves⟩ := hedge e he
      refine ⟨φ', fun hv => ?_, hthread⟩
      rcases hmoves.value hv with ⟨hv', -⟩ | hrun
      · exact hφ hv'
      · exact hname ((hruns _).mpr ⟨e, he, hrun⟩)
  · have hedge := hedges h
    have hstart : .startField ∉ as := by
      intro hs'
      obtain ⟨e, he, hrun⟩ := (hruns _).mp hs'
      obtain ⟨φ, φ', hφ, -, hmoves⟩ := hedge e he
      exact hφ (hmoves.start hrun).1
    refine ⟨true, foldlM_closeField_true hstart, ?_⟩
    -- a line feed ends every value, and only a line feed makes a thread ready
    by_cases hc : c = 10
    · refine .inl fun r' hr' => ?_
      obtain ⟨e, he, rfl⟩ := (hnext r').mp hr'
      obtain ⟨φ, φ', -, hthread, hmoves⟩ := hedge e he
      refine ⟨φ', fun hv => ?_, hthread⟩
      rcases hmoves.value hv with ⟨-, hne⟩ | hrun
      · exact hne hc
      · exact absurd (hc.symm.trans (hmoves.name hrun)) (by decide)
    · refine .inr ⟨rfl, fun r' hr' => ?_⟩
      obtain ⟨e, he, rfl⟩ := (hnext r').mp hr'
      obtain ⟨φ, φ', -, hthread, hmoves⟩ := hedge e he
      exact ⟨φ', fun hr => hc (hmoves.ready hr), hthread⟩

theorem Threads.scan {n : Nat} {closed : Bool} {s : State Action} {bs : Bytes} {acts : List Action}
    (h : Threads n d closed s) (hs : Http.scan s bs = some acts) : (acts.foldlM closeField closed).isSome := by
  induction bs generalizing s closed acts with
  | nil => simp [Http.scan] at hs
  | cons b bs ih =>
    rw [Http.scan] at hs
    split at hs
    · simp at hs
    · next s' as hadv =>
      obtain ⟨closed', hclosed, h'⟩ := h.advance hadv
      split at hs
      · obtain ⟨-, ⟨⟩⟩ := Option.ite_none_right_eq_some.mp hs
        rw [hclosed]
        rfl
      · obtain ⟨rest, hrest, rfl⟩ := Option.map_eq_some_iff.mp hs
        rw [List.foldlM_append, hclosed]
        exact ih h' hrest

/-- **Fields.** In the run over an accepted head each `write_value` comes behind the `write_field` of
the last field that was started. -/
theorem fieldsClosed {u : Bool} {head : Bytes} {acts : List Action}
    (h : scan (start (Grammar.main u)) head = some acts) : (acts.foldlM closeField true).isSome := by
  obtain ⟨line, socket, n, d, hstart, hends, hnull, hline, hsocket⟩ := start_eq u
  refine Threads.scan (n := n) (d := d) (.inl fun r hr => ?_) h
  rw [hstart] at hr
  obtain rfl := List.mem_singleton.mp hr
  exact ⟨.quiet, nofun, .start hends hnull hline hsocket⟩

end Sherry.Http
