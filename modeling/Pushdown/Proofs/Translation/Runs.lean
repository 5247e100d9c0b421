import Mathlib.Data.List.Chain
import Mathlib.Data.List.Nodup
import Pushdown.Proofs.Translation.Numbering

/-!
# Runs of a translator

A translator takes any sequence of visits and finalizations, and some of them fail. Whatever was
called, its text with holes, its values and its counters fit together: the holes are the tokens
that have a value, the tokens of each kind are numbered without gaps, every hole has a space
behind it, and literals are never neighbours (`Translator.InOrder`). An open translator in order
can always be finalized.

One call changes a draft by steps of a walk or by a log entry only. So what the steps keep is
kept by every call, also by a visit that ends in the middle of a tree, and by every run
(`inOrder_run`).

## Implementation notes

A buffer stores its newest segment first, and the steps work at that end. The relation between
neighbours is therefore stated on the stored list and turned around once.
-/

namespace Pushdown

/-! ## Names of tokens -/

/-- Two numbers with the same digits are equal. -/
theorem toString_nat_injective : Function.Injective fun n : Nat => toString n := by
  intro m n h
  have hdigits : Nat.toDigits 10 m = Nat.toDigits 10 n := by
    simpa using congrArg String.toList h
  rw [← Nat.ofDigitChars_ten_toDigits (n := m), hdigits, Nat.ofDigitChars_ten_toDigits]

/-- The name of a token tells its kind and its index. -/
theorem Token.name_injective : Function.Injective Token.name := by
  -- the stems of the two kinds differ in their first character
  have hstems : ∀ m n : Nat, "const" ++ toString m ≠ "strVar" ++ toString n := by
    intro m n h
    simpa using congrArg (fun s => s.toList.head?) h
  rintro ⟨kind, m⟩ ⟨kind', n⟩ h
  cases kind <;> cases kind' <;> simp only [Token.name, TokenKind.stem] at h
  · rw [String.append_right_inj] at h
    rw [toString_nat_injective h]
  · exact absurd h (hstems m n)
  · exact absurd h.symm (hstems n m)
  · rw [String.append_right_inj] at h
    rw [toString_nat_injective h]

/-! ## Neighbours in a buffer -/

/-- The second segment may stand directly behind the first one: a space behind a hole, and a hole
behind a literal. -/
def Segment.Precedes : Segment → Segment → Prop
  | .hole _, .literal text => ∃ more, text = " " ++ more
  | .hole _, .hole _ => False
  | .literal _, .hole _ => True
  | .literal _, .literal _ => False

namespace Buffer

/-- Neighbours may stand next to each other, and the newest segment is a literal. -/
structure Laid (b : Buffer) : Prop where
  /-- Every segment may stand behind the next older one. -/
  chain : b.newestFirst.IsChain fun newer older => older.Precedes newer
  /-- No hole is left without a literal behind it. -/
  newest : ∀ token, b.newestFirst.head? ≠ some (.hole token)

theorem laid_empty : Laid {} := ⟨.nil, by simp⟩

/-- Written text keeps to the literal that it joins, or starts one. -/
theorem Laid.write {b : Buffer} (h : b.Laid) (text : String) : (b.write text).Laid := by
  obtain ⟨stored⟩ := b
  cases stored with
  | nil => exact ⟨.singleton _, by simp [Buffer.write]⟩
  | cons s older =>
      cases s with
      | hole token => exact absurd rfl (h.newest token)
      | literal last =>
          refine ⟨?_, by simp [Buffer.write]⟩
          obtain ⟨hneighbour, holder⟩ := List.isChain_cons.mp h.chain
          refine List.isChain_cons.mpr ⟨fun s hs => ?_, holder⟩
          have hs := hneighbour s hs
          cases s with
          | literal other => exact hs
          | hole token =>
              obtain ⟨more, rfl⟩ := hs
              exact ⟨more ++ text, String.append_assoc⟩

/-- A hole with a space behind it may stand behind every buffer. -/
theorem Laid.addSpacedHole {b : Buffer} (h : b.Laid) (token : Token) :
    ((b.addHole token).write " ").Laid := by
  have hspace : (Segment.hole token).Precedes (.literal " ") := ⟨"", rfl⟩
  have hhole : ∀ s ∈ b.newestFirst.head?, s.Precedes (.hole token) := by
    intro s hs
    cases s with
    | literal text => trivial
    | hole other => exact absurd hs (h.newest other)
  constructor
  · exact .cons_cons hspace (List.isChain_cons.mpr ⟨hhole, h.chain⟩)
  · simp [Buffer.addHole, Buffer.write]

/-- Neighbours in the order of the text. -/
theorem Laid.precedes {b : Buffer} (h : b.Laid) {before after : List Segment} {s t : Segment}
    (hsplit : b.segments = before ++ s :: t :: after) : s.Precedes t := by
  have hchain : b.segments.IsChain Segment.Precedes := List.isChain_reverse.mpr h.chain
  rw [hsplit] at hchain
  exact (List.isChain_append_cons_cons.mp hchain).2.1

/-- Behind every hole stands a literal that starts with a space. -/
theorem Laid.spaced {b : Buffer} (h : b.Laid) {before after : List Segment} {token : Token}
    (hsplit : b.segments = before ++ .hole token :: after) :
    ∃ more rest, after = .literal (" " ++ more) :: rest := by
  cases after with
  | nil =>
      have hlast : b.segments.getLast? = some (.hole token) := by simp [hsplit]
      rw [segments, List.getLast?_reverse] at hlast
      exact absurd hlast (h.newest token)
  | cons s rest =>
      have hneighbour := h.precedes hsplit
      cases s with
      | hole other => exact absurd hneighbour id
      | literal text =>
          obtain ⟨more, rfl⟩ := hneighbour
          exact ⟨more, rest, rfl⟩

end Buffer

/-! ## Drafts -/

/-- What every step of a walk keeps. -/
structure Draft.Tidy (d : Draft) : Prop where
  /-- The holes are the tokens with a value, and all of them were taken from the counter. -/
  ordered : d.Ordered
  /-- The tokens of a kind are numbered from zero up to their count. -/
  counted : ∀ kind, d.values.tokens.filter (fun t => t.kind = kind) =
    (List.range (d.counter.count kind)).map (Token.mk kind)
  /-- Segments stand next to each other as they may. -/
  laid : d.buffer.Laid

namespace Draft

/-- A new hole takes the next number of its kind. -/
theorem counted_bind {d : Draft} (h : d.Tidy) (value : BoundValue) (kind : TokenKind) :
    (d.bind value).values.tokens.filter (fun t => t.kind = kind) =
      (List.range ((d.bind value).counter.count kind)).map (Token.mk kind) := by
  have hnew := next_not_mem h.ordered (tokenKind value)
  simp only [Draft.bind, Bindings.tokens_insert, hnew, if_false, List.filter_append, h.counted,
    TokenCounter.count_advance]
  by_cases hkind : kind = tokenKind value
  · rw [if_pos hkind, List.range_succ, List.map_append]
    simp [TokenCounter.next_eq, hkind]
  · rw [if_neg hkind]
    simp [TokenCounter.next_eq, Ne.symm hkind]

/-- Every step keeps a draft tidy. -/
theorem Tidy.put {d : Draft} (h : d.Tidy) (p : Piece) : (d.put p).Tidy := by
  cases p with
  | text text => exact ⟨h.ordered.put (.text text), h.counted, h.laid.write text⟩
  | value value =>
      exact ⟨h.ordered.put (.value value), counted_bind h value, h.laid.addSpacedHole _⟩

theorem Tidy.putAll {d : Draft} (h : d.Tidy) (ps : List Piece) : (d.putAll ps).Tidy := by
  induction ps generalizing d with
  | nil => exact h
  | cons p ps ih => exact ih (h.put p)

/-- A log entry changes nothing that matters. -/
theorem Tidy.note {d : Draft} (h : d.Tidy) (event : Event) : (d.note event).Tidy :=
  ⟨⟨h.ordered.holes_eq, h.ordered.taken⟩, h.counted, h.laid⟩

theorem tidy_empty : Tidy {} := by
  refine ⟨ordered_empty [], fun kind => ?_, Buffer.laid_empty⟩
  cases kind <;> rfl

/-- A walk keeps a draft tidy, also one that is rejected in the middle. -/
theorem Tidy.walk {d : Draft} (h : d.Tidy) (c : Config) (e : Expr) :
    (Pushdown.walk c e d).draft.Tidy := by
  rw [walk_eq_run]
  cases hrejection : (script c e).rejection with
  | none => simpa [Script.run, hrejection, Walked.draft] using h.putAll _
  | some cause => simpa [Script.run, hrejection, Walked.draft] using (h.putAll _).note _

end Draft

/-! ## Calls and runs -/

/-- A call of a translator. -/
inductive Call
  /-- A tree is to be walked. -/
  | visit (e : Expr)
  /-- The fragment is asked for. -/
  | finalize

/-- The operation that is called. -/
def Call.operation : Call → Operation
  | .visit _ => .visit
  | .finalize => .finalize

/-- What a call answers that does not fail. -/
inductive Reply
  /-- The tree was walked to its end. -/
  | visited
  /-- The fragment of all trees walked so far. -/
  | fragment (f : Fragment)

namespace Translator

/-- The answer to a call, and the translator after it. -/
def take (t : Translator) : Call → Except Failure Reply × Translator
  | .visit e => ((t.visit e).1.map fun _ => .visited, (t.visit e).2)
  | .finalize => (t.finalize.1.map .fragment, t.finalize.2)

/-- The answers to calls one after another, and the translator after them. -/
def run (t : Translator) : List Call → List (Except Failure Reply) × Translator
  | [] => ([], t)
  | call :: calls =>
      let (answer, t) := t.take call
      let (answers, t) := t.run calls
      (answer :: answers, t)

/-- A call leaves the draft as it was, walks a tree, or notes an event. -/
theorem tidy_take {t : Translator} (h : t.draft.Tidy) (call : Call) :
    (t.take call).2.draft.Tidy := by
  cases call with
  | visit e =>
      have hwalk := h.walk t.config e
      simp only [take, visit]
      split
      · exact h.note _
      · split
        · rename_i draft hdone
          rwa [hdone] at hwalk
        · rename_i space function draft hrejected
          rwa [hrejected] at hwalk
  | finalize =>
      simp only [take, finalize]
      split
      · exact h.note _
      · split
        · exact h.note _
        · exact h.note _

theorem tidy_run {t : Translator} (h : t.draft.Tidy) (calls : List Call) :
    (t.run calls).2.draft.Tidy := by
  induction calls generalizing t with
  | nil => exact h
  | cons call calls ih => exact ih (tidy_take h call)

/-- The text with holes, the values and the counters of the translator fit together. -/
structure InOrder (t : Translator) : Prop where
  /-- No two holes have the same name. -/
  distinct : ((holes t.draft.buffer.segments).map Token.name).Nodup
  /-- The holes are named like the tokens that have a value. -/
  keys : ∀ name, name ∈ (holes t.draft.buffer.segments).map Token.name ↔
    name ∈ t.draft.values.tokens.map Token.name
  /-- From left to right, the constants are numbered without gaps. -/
  constants : ((holes t.draft.buffer.segments).filter fun token =>
      token.kind = .constant).map Token.name =
    (List.range t.draft.counter.constants).map fun i => "const" ++ toString i
  /-- From left to right, the variables are numbered without gaps. -/
  sourced : ((holes t.draft.buffer.segments).filter fun token =>
      token.kind = .sourced).map Token.name =
    (List.range t.draft.counter.sourced).map fun i => "strVar" ++ toString i
  /-- There are as many values as tokens were taken. -/
  count : t.placeholderCount = t.draft.counter.constants + t.draft.counter.sourced
  /-- Directly behind every hole stands a literal that starts with a space. -/
  spaced : ∀ before token after, t.draft.buffer.segments = before ++ .hole token :: after →
    ∃ more rest, after = .literal (" " ++ more) :: rest
  /-- No two literals are neighbours. -/
  merged : ∀ before first second after,
    t.draft.buffer.segments ≠ before ++ .literal first :: .literal second :: after

end Translator

/-- The tokens of both kinds together are all tokens. -/
theorem length_filter_kinds (tokens : List Token) :
    (tokens.filter fun t => t.kind = .constant).length +
      (tokens.filter fun t => t.kind = .sourced).length = tokens.length := by
  induction tokens with
  | nil => rfl
  | cons token tokens ih =>
      obtain ⟨kind, index⟩ := token
      cases kind <;> simp <;> omega

namespace Translator

theorem inOrder_of_tidy {t : Translator} (h : t.draft.Tidy) : t.InOrder := by
  have hholes := h.ordered.holes_eq
  refine ⟨?_, ?_, ?_, ?_, ?_, fun _ _ _ hsplit => h.laid.spaced hsplit,
    fun _ _ _ _ hsplit => h.laid.precedes hsplit⟩
  · rw [hholes]
    exact t.draft.values.distinct.map Token.name_injective
  · rw [hholes]
    exact fun name => Iff.rfl
  · rw [hholes, h.counted, List.map_map]
    rfl
  · rw [hholes, h.counted, List.map_map]
    rfl
  · calc t.placeholderCount = t.draft.values.tokens.length := by
          simp [placeholderCount, Bindings.size, Bindings.tokens]
      _ = t.draft.counter.constants + t.draft.counter.sourced := by
          rw [← length_filter_kinds, h.counted, h.counted]
          simp [TokenCounter.count]

/-- An open translator that is tidy gives a fragment. -/
theorem finalize_of_tidy {t : Translator} (hopen : t.closed = none) (h : t.draft.Tidy) :
    ∃ f, t.finalize.1 = .ok f := by
  rw [finalize, hopen]
  simp [reconcile_of_ordered h.ordered]

/-- Whatever was called, the text with holes, the values and the counters of a translator fit
together; so while it is open, finalizing it does not find them inconsistent. -/
theorem inOrder_run (c : Config) (calls : List Call) {answers : List (Except Failure Reply)}
    {t : Translator} (hrun : run { config := c } calls = (answers, t)) :
    t.InOrder ∧ (t.closed = none → ∃ f, t.finalize.1 = .ok f) := by
  obtain ⟨rfl, rfl⟩ := Prod.mk.inj hrun
  have htidy : (run { config := c } calls).2.draft.Tidy := tidy_run Draft.tidy_empty calls
  exact ⟨inOrder_of_tidy htidy, fun hopen => finalize_of_tidy hopen htidy⟩

/-- Two visits whose constants and variables alternate. -/
def alternating : List Call :=
  [.visit (.and (.literal (.int 1)) (.not (.parameter 0 .int))),
    .visit (.compare (.streamField "S" "b" .object) .eq (.call none "f" [.literal .null]))]

theorem inOrder_alternating :
    (run { config := {} } alternating).2.closed = none ∧
      (holes (run { config := {} } alternating).2.draft.buffer.segments).map Token.name =
        ["const0", "strVar0", "strVar1", "const1"] ∧
      (run { config := {} } alternating).2.InOrder ∧
      ∃ f, (run { config := {} } alternating).2.finalize.1 = .ok f := by
  have hopen : (run { config := {} } alternating).2.closed = none := by decide
  obtain ⟨horder, hfragment⟩ := inOrder_run {} alternating rfl
  exact ⟨hopen, by decide, horder, hfragment hopen⟩

end Translator

end Pushdown
