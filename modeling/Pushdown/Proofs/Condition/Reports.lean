import Pushdown.Proofs.Condition.Budget
import Pushdown.Proofs.Condition.Soundness

/-!
# Where reading stops, and why

A reader leaves the end of its text unread, and a failure arises at an end of it too
(`Outcome.Placed`). The miss of an alternative is forgotten when another one is tried, and the rest
of a list never misses, because every operator takes a character. So the miss of a whole condition
is the one of the last alternative of its first operand: no name starts there (`reports_condition`).

A text that is no condition is therefore reported in one of five ways, at a place between the first
and the last character that is no blank (`parse_error_classified`).

## Implementation notes

What is known of a miss is a parameter of the predicate. Readers that are tried as alternatives are
placed with any miss, the rest of a list with none, and the levels with the miss of a name.
-/

namespace Pushdown.Condition

open Text Number

variable {α β : Type} {M N : Miss → List Char → Prop} {s t rest : List Char}

/-! ## Outcomes and their places -/

/-- A number stands in front: a digit, with an optional minus sign before it. -/
def StartsNumber (s : List Char) : Prop :=
  ∃ negative digit rest, s = minus negative ++ digit :: rest ∧ digit.isDigit = true

/-- What is left behind a value is an end of the text. So is the text at which a failure arose, and
a number stands there if the failure is about one. A miss satisfies the predicate. -/
inductive Outcome.Placed (M : Miss → List Char → Prop) (s : List Char) : Outcome α → Prop
  /-- A value was read in front. -/
  | ok {value : α} {rest : List Char} (hrest : rest <:+ s) : Placed M s (.ok value rest)
  /-- Something was missed. -/
  | miss {cause : Miss} {here : List Char} (hmiss : M cause here) : Placed M s (.miss cause here)
  /-- Reading failed. -/
  | fail {cause : Fatal} {here : List Char} (hhere : here <:+ s)
      (hnumber : cause = .numberRange → StartsNumber here) : Placed M s (.fail cause here)

/-- Nothing is known of a miss. -/
def AnyMiss (_ : Miss) (_ : List Char) : Prop := True

/-- Nothing is missed. -/
def NoMiss (_ : Miss) (_ : List Char) : Prop := False

/-- A name is missed at the text. -/
def NameMissed (s : List Char) (cause : Miss) (here : List Char) : Prop :=
  here = s ∧ cause = nameMiss here

namespace Outcome.Placed

variable {o : Outcome α}

theorem imp (h : o.Placed M s) (himp : ∀ cause here, M cause here → N cause here) :
    o.Placed N s := by
  cases h with
  | ok hrest => exact .ok hrest
  | miss hmiss => exact .miss (himp _ _ hmiss)
  | fail hhere hnumber => exact .fail hhere hnumber

theorem anyMiss (h : o.Placed M s) : o.Placed AnyMiss s := h.imp fun _ _ _ => trivial

theorem of_noMiss (h : o.Placed NoMiss s) : o.Placed M s := h.imp fun _ _ => False.elim

/-- An outcome at an end of the text is one of the text. -/
theorem mono (h : o.Placed M t) (hts : t <:+ s) : o.Placed M s := by
  cases h with
  | ok hrest => exact .ok (hrest.trans hts)
  | miss hmiss => exact .miss hmiss
  | fail hhere hnumber => exact .fail (hhere.trans hts) hnumber

theorem suffix {value : α} (h : (Outcome.ok value rest).Placed M s) : rest <:+ s := by
  cases h with
  | ok hrest => exact hrest

theorem failed {cause : Fatal} {here : List Char}
    (h : (Outcome.fail cause here : Outcome α).Placed M s) :
    (Outcome.fail cause here : Outcome β).Placed N s := by
  cases h with
  | fail hhere hnumber => exact .fail hhere hnumber

/-- A miss of the first alternative does not matter. -/
theorem orElse {second : Unit → Outcome α} (h : o.Placed N s) (hsecond : (second ()).Placed M s) :
    (o.orElse second).Placed M s := by
  cases h with
  | ok hrest => exact .ok hrest
  | miss hmiss => exact hsecond
  | fail hhere hnumber => exact .fail hhere hnumber

theorem andThen {next : α → Reader β} (h : o.Placed M s)
    (hnext : ∀ a rest, rest <:+ s → (next a rest).Placed M s) : (o.andThen next).Placed M s := by
  cases h with
  | ok hrest => exact hnext _ _ hrest
  | miss hmiss => exact .miss hmiss
  | fail hhere hnumber => exact .fail hhere hnumber

theorem map (h : o.Placed M s) (f : α → β) : (o.map f).Placed M s :=
  h.andThen fun _ _ hrest => .ok hrest

theorem of_ofOption {missed : Miss × List Char} {found : Option (α × List Char)}
    (h : ∀ a rest, ofOption missed found = .ok a rest → rest <:+ s) :
    (ofOption missed found).Placed AnyMiss s := by
  cases found with
  | none => exact .miss trivial
  | some pair => exact .ok (h pair.1 pair.2 rfl)

/-- A fixed text stands for one value, and only what is left behind it matters. -/
theorem of_map {missed : Miss × List Char} {found : Option (List Char)} {a : α}
    (h : ∀ rest, found = some rest → rest <:+ s) :
    (ofOption missed (found.map fun rest => (a, rest))).Placed AnyMiss s := by
  cases found with
  | none => exact .miss trivial
  | some rest => exact .ok (h rest rfl)

end Outcome.Placed

open Outcome (Placed)

/-- All that the reader misses is a name behind the gap. -/
def Reports (reader : Reader α) : Prop := ∀ s, (reader s).Placed (NameMissed (skipGap s)) s

/-! ## Lists folded to the left -/

section Chains

variable {op : Lexer (α → α → α)} {item : Reader α}

/-- The rest of a list misses nothing, because its operators take text. -/
theorem placed_chainTail (hop : Takes op) (hitem : Reports item) (acc : α) (s : List Char) :
    (chainTail op item acc s).Placed NoMiss s := by
  fun_induction chainTail op item acc s with
  | case1 acc s hnone => exact .ok (List.suffix_refl s)
  | case2 acc s f afterOp hsome value mid hread hlen ih =>
      have hmid : mid <:+ afterOp := (hread ▸ hitem afterOp).suffix
      exact ih.mono (hmid.trans (hop s f afterOp hsome).1)
  | case3 acc s f afterOp hsome value mid hread hlen =>
      -- an item that takes nothing still comes behind an operator that does
      have hmid : mid <:+ afterOp := (hread ▸ hitem afterOp).suffix
      have hle := hmid.length_le
      have hlt := (hop s f afterOp hsome).2
      omega
  | case4 acc s f afterOp hsome cause here hread => exact .ok (List.suffix_refl s)
  | case5 acc s f afterOp hsome cause here hread =>
      have hfail := hitem afterOp
      rw [hread] at hfail
      exact hfail.failed.mono (hop s f afterOp hsome).1

theorem reports_chain (hop : Takes op) (hitem : Reports item) : Reports (chain op item) := fun s =>
  (hitem s).andThen fun a rest hrest => (placed_chainTail hop hitem a rest).of_noMiss.mono hrest

end Chains

/-! ## Operands -/

theorem startsNumber_of_text {n : Literal} (h : NumberText n s t) : StartsNumber s := by
  obtain ⟨⟨hne, hdigits⟩, -, letter, -, rfl⟩ := h
  cases hwhole : n.whole with
  | nil => exact absurd hwhole hne
  | cons digit ds =>
      refine ⟨n.negative, digit, _, rfl, ?_⟩
      rw [hwhole] at hdigits
      exact List.all_eq_true.mp hdigits digit List.mem_cons_self

theorem placed_number (s : List Char) : (number s).Placed AnyMiss s := by
  cases hliteral : literal s with
  | none =>
      simp only [number, hliteral]
      exact .miss trivial
  | some found =>
      obtain ⟨n, rest⟩ := found
      have htext := numberText_of_literal hliteral
      simp only [number, hliteral]
      cases n.value? with
      | some value => exact .ok htext.suffix
      | none => exact .fail (List.suffix_refl s) fun _ => startsNumber_of_text htext

theorem placed_wordConstant (word : List Char) (value : Value) (s : List Char) :
    (wordConstant word value s).Placed AnyMiss s :=
  Placed.of_map fun _ hread => suffix_of_keyword hread

/-- The last alternative of an operand needs a name. -/
theorem placed_column (s : List Char) : (column s).Placed (NameMissed s) s := by
  cases hread : column s with
  | ok e rest => exact .ok (derives_of_column hread).suffix
  | miss cause here =>
      rw [column] at hread
      split at hread
      · obtain ⟨rfl, rfl⟩ := Outcome.miss.inj hread
        exact .miss ⟨rfl, rfl⟩
      · simp at hread
  | fail cause here =>
      rw [column] at hread
      split at hread <;> simp at hread

section Operands

variable {nested : Reader Expr}

theorem placed_group (h : Reports nested) (s : List Char) :
    (group nested s).Placed AnyMiss s := by
  cases hopen : expect '(' s with
  | none =>
      simp only [group, hopen]
      exact .miss trivial
  | some inside =>
      have hinside : inside <:+ s := expect_eq_some hopen ▸ List.suffix_cons '(' inside
      simp only [group, hopen]
      refine ((h inside).anyMiss.andThen fun e rest hrest => ?_).mono hinside
      cases hclose : expectAfterGap ')' rest with
      | none => exact .miss trivial
      | some behind => exact .ok ((suffix_of_expectAfterGap hclose).trans hrest)

theorem placed_moreArguments (h : Reports nested) (s : List Char) :
    (moreArguments nested s).Placed NoMiss s := by
  fun_induction moreArguments nested s with
  | case1 s hnone => exact .ok (List.suffix_refl s)
  | case2 s afterComma hcomma e mid hread hlen ih =>
      have hmid : mid <:+ afterComma := (hread ▸ h afterComma).suffix
      exact (ih.map (e :: ·)).mono (hmid.trans (suffix_of_expectAfterGap hcomma))
  | case3 s afterComma hcomma e mid hread hlen =>
      have hmid : mid <:+ afterComma := (hread ▸ h afterComma).suffix
      have hle := hmid.length_le
      have hlt := length_of_expectAfterGap hcomma
      omega
  | case4 s afterComma hcomma cause here hread => exact .ok (List.suffix_refl s)
  | case5 s afterComma hcomma cause here hread =>
      have hfail := h afterComma
      rw [hread] at hfail
      exact hfail.failed.mono (suffix_of_expectAfterGap hcomma)

theorem placed_arguments (h : Reports nested) (s : List Char) :
    (arguments nested s).Placed NoMiss s := by
  have hfirst := h s
  rw [arguments]
  cases hread : nested s with
  | ok e rest =>
      rw [hread] at hfirst
      exact ((placed_moreArguments h rest).map (e :: ·)).mono hfirst.suffix
  | miss cause here => exact .ok (List.suffix_refl s)
  | fail cause here =>
      rw [hread] at hfirst
      exact hfirst.failed

theorem placed_closed (args : List Expr) (s : List Char) : (closed args s).Placed AnyMiss s :=
  Placed.of_map fun _ hread => suffix_of_expectAfterGap hread

theorem placed_call (h : Reports nested) (s : List Char) : (call nested s).Placed AnyMiss s := by
  cases hhead : callHead s with
  | none =>
      simp only [call, hhead]
      exact .miss trivial
  | some found =>
      obtain ⟨⟨space, function⟩, afterHead⟩ := found
      cases hopen : expectAfterGap '(' afterHead with
      | none =>
          simp only [call, hhead, hopen]
          exact .miss trivial
      | some inside =>
          have hinside : inside <:+ s :=
            (suffix_of_expectAfterGap hopen).trans (callee_of_callHead hhead).suffix
          rw [call_eq hhead hopen]
          have hargs := (placed_arguments h inside).anyMiss.andThen fun args rest hrest =>
            (placed_closed args rest).mono hrest
          exact (hargs.map _).mono hinside

/-- An operand is missed where no alternative fits, and the last one needs a name. -/
theorem placed_bareOperand (h : Reports nested) (s : List Char) :
    (bareOperand nested s).Placed (NameMissed s) s := by
  have htext : (text s).Placed AnyMiss s :=
    Placed.of_ofOption fun _ _ hread => (derives_of_text hread).suffix
  have hparameter : (parameter s).Placed AnyMiss s :=
    Placed.of_ofOption fun _ _ hread => (derives_of_parameter hread).suffix
  have hfield : (field s).Placed AnyMiss s :=
    Placed.of_ofOption fun _ _ hread => (derives_of_field hread).suffix
  exact (placed_group h s).orElse <| (placed_number s).orElse <| htext.orElse <|
    (placed_wordConstant _ _ s).orElse <| (placed_wordConstant _ _ s).orElse <|
    (placed_wordConstant _ _ s).orElse <| hparameter.orElse <| (placed_call h s).orElse <|
    hfield.orElse <| placed_column s

theorem reports_operand (h : Reports nested) : Reports (operand nested) := fun s =>
  (placed_bareOperand h (skipGap s)).mono (skips_skipGap s).suffix

/-! ## Levels -/

theorem reports_sum (h : Reports nested) : Reports (sum nested) :=
  reports_chain (takes_mathBetween takes_sumSigns) <|
    reports_chain (takes_mathBetween takes_productSigns) (reports_operand h)

/-- A sign without a sum behind it is left unread, so that nothing is missed. -/
theorem placed_compared (h : Reports nested) (left : Expr) (s : List Char) :
    (compared nested left s).Placed NoMiss s := by
  cases hsign : signIn compareSigns s with
  | none =>
      simp only [compared, hsign]
      exact .ok (List.suffix_refl s)
  | some found =>
      obtain ⟨op, afterOp⟩ := found
      have hafter := (takes_compareSigns s op afterOp hsign).1
      have hright := reports_sum h afterOp
      simp only [compared, hsign]
      cases hread : sum nested afterOp with
      | ok right rest =>
          rw [hread] at hright
          exact .ok (hright.suffix.trans hafter)
      | miss cause here => exact .ok (List.suffix_refl s)
      | fail cause here =>
          rw [hread] at hright
          exact hright.failed.mono hafter

theorem suffix_of_keywords {words : List (List Char)} (h : keywords words s = some rest) :
    rest <:+ s := by
  induction words generalizing s with
  | nil =>
      obtain rfl := Option.some.inj h
      exact List.suffix_refl s
  | cons word words ih =>
      obtain ⟨mid, hword, hwords⟩ := word_of_keywords h
      exact (ih hwords).trans (hword.suffix fun _ _ => Word.suffix)

theorem suffix_of_suffix {found : Suffix} (h : suffix s = some (found, rest)) : rest <:+ s := by
  rw [suffix, Option.or_eq_some_iff, Option.or_eq_some_iff] at h
  rcases h with h | ⟨-, h | ⟨-, h⟩⟩
  · simp only [Option.map_eq_some_iff, Prod.mk.injEq] at h
    obtain ⟨behind, hwords, -, rfl⟩ := h
    exact suffix_of_keywords hwords
  · simp only [Option.map_eq_some_iff, Prod.mk.injEq] at h
    obtain ⟨behind, hwords, -, rfl⟩ := h
    exact suffix_of_keywords hwords
  · simp only [Option.map_eq_some_iff, Option.bind_eq_some_iff, Prod.mk.injEq, Prod.exists] at h
    obtain ⟨store, behind, ⟨afterWord, hin, hstore⟩, -, rfl⟩ := h
    exact (ident_of_name hstore).suffix.trans (suffix_of_keyword hin)

theorem reports_predicate (h : Reports nested) : Reports (predicate nested) := by
  intro s
  have hcomparison : (comparison nested s).Placed (NameMissed (skipGap s)) s :=
    (reports_sum h s).andThen fun left rest hrest =>
      (placed_compared h left rest).of_noMiss.mono hrest
  refine hcomparison.andThen fun e rest hrest => ?_
  cases hsuffix : suffix rest with
  | none => exact .ok hrest
  | some found => exact .ok ((suffix_of_suffix hsuffix).trans hrest)

end Operands

theorem reports_alternatives {item : Reader Expr} (h : Reports item) :
    Reports (alternatives item) :=
  reports_chain (takes_wordBetween (by decide) .or) <|
    reports_chain (takes_wordBetween (by decide) .and) h

/-- Whatever the budget is, the miss of a term is the miss of its first name: a term that begins
with `not` and does not go on is read once more as a predicate. -/
theorem reports_term (budget : Nat) : Reports (term budget) := by
  induction budget with
  | zero => exact fun s => .fail (List.suffix_refl s) fun h => by cases h
  | succ budget ih =>
      intro s
      have hnot : ((Outcome.ofOption (keywordMiss "not".toList s)
          ((keyword "not".toList s).map ((), ·))).andThen
          fun _ rest => (term budget rest).map Expr.not).Placed AnyMiss s := by
        refine Placed.andThen (Placed.of_map fun _ => suffix_of_keyword) fun _ rest hrest => ?_
        exact ((ih rest).anyMiss.map Expr.not).mono hrest
      rw [term]
      exact hnot.orElse (reports_predicate (reports_alternatives ih) s)

theorem reports_condition : Reports condition :=
  reports_alternatives (reports_term (nestingLimit + 1))

/-! ## Places in whole texts -/

/-- The text at which an outcome stands. -/
def Outcome.place : Outcome α → List Char
  | .ok _ rest => rest
  | .miss _ here | .fail _ here => here

theorem place_condition_suffix (s : List Char) : (condition s).place <:+ s := by
  have h := reports_condition s
  generalize condition s = o at h
  cases h with
  | ok hrest => exact hrest
  | miss hmiss =>
      obtain ⟨rfl, -⟩ := hmiss
      exact (skips_skipGap s).suffix
  | fail hhere hnumber => exact hhere

/-- No gap stands before a trimmed text. -/
theorem skipGap_trim (s : List Char) : skipGap (trim s) = trim s := by
  cases hs : trim s with
  | nil => rfl
  | cons c rest =>
      have hblank : isBlank c = false := isBlank_head_trim (t := s) (by simp [hs])
      refine skipGap_cons ?_ rest
      cases hgap : isGap c with
      | false => rfl
      | true => exact absurd (isBlank_of_isGap hgap) (by simp [hblank])

/-- The tail stands in the text from the byte offset to the last character that is no blank. -/
structure TailAt (text : List Char) (position : Nat) (tail : List Char) : Prop where
  /-- The offset is the length of what stands before the tail. -/
  stands : ∃ before after, text = before ++ (tail ++ after) ∧ position = byteLength before
  /-- The offset is not inside the blanks before the text. -/
  behind : byteLength (text.takeWhile isBlank) ≤ position
  /-- The tail ends where the trimmed text ends. -/
  reaches : position + byteLength tail =
    byteLength (text.takeWhile isBlank) + byteLength (trim text)

/-- An end of the trimmed text stands where the lengths say. -/
theorem tailAt_of_suffix {text tail : List Char} (h : tail <:+ trim text) :
    TailAt text
      (byteLength text - byteLength (trimStart text) + byteLength (trim text) - byteLength tail)
      tail := by
  obtain ⟨front, hfront⟩ := h
  obtain ⟨after, hafter⟩ := trim_isPrefix_trimStart text
  have hsum : byteLength (trim text) = byteLength front + byteLength tail := by
    rw [← hfront, byteLength_append]
  have hplace : byteLength text - byteLength (trimStart text) + byteLength (trim text) -
      byteLength tail = byteLength (text.takeWhile isBlank) + byteLength front := by
    rw [byteLength_lead, hsum]
    omega
  rw [hplace]
  refine ⟨⟨text.takeWhile isBlank ++ front, after, ?_, (byteLength_append _ _).symm⟩, ?_, ?_⟩
  · calc text = text.takeWhile isBlank ++ trimStart text :=
          List.takeWhile_append_dropWhile.symm
      _ = text.takeWhile isBlank ++ ((front ++ tail) ++ after) := by rw [← hafter, hfront]
      _ = text.takeWhile isBlank ++ front ++ (tail ++ after) := by simp
  · omega
  · omega

/-! ## Reports -/

/-- The ways in which a text that is no condition is reported. -/
inductive ReportKind
  /-- There is nothing but blanks. -/
  | blank
  /-- Something is left behind a condition. -/
  | leftOver
  /-- The nesting limit is crossed. -/
  | nesting
  /-- No operand stands in front. -/
  | noOperand
  /-- A number has no value. -/
  | number
  deriving DecidableEq

/-- The message is one of the kind, and the text has at the byte offset what the kind says. -/
def ReportKind.Describes (text : List Char) (position : Nat) (message : String) :
    ReportKind → Prop
  | blank => message = "Empty condition" ∧ trim text = [] ∧ position = byteLength text
  | leftOver => ∃ c rest,
      message = "Unexpected trailing content: '" ++ String.ofList (c :: rest) ++ "'" ∧
        isBlank c = false ∧ TailAt text position (c :: rest)
  | nesting => message = "Condition nests deeper than 64 levels"
  | noOperand => (message = "Parse failed: Satisfy" ∨ message = "Parse failed: Tag") ∧
      position = byteLength (text.takeWhile isBlank)
  | number => message = "Parse failed: Digit" ∧
      ∃ here, TailAt text position here ∧ StartsNumber here

/-- The kind of a message. -/
def kindOf (message : String) : ReportKind :=
  match message.toList with
  | 'E' :: _ => .blank
  | 'U' :: _ => .leftOver
  | 'C' :: _ => .nesting
  | cs => if cs = "Parse failed: Digit".toList then .number else .noOperand

/-- A message belongs to one kind only. -/
theorem kindOf_eq {text : List Char} {position : Nat} {message : String} {kind : ReportKind}
    (h : kind.Describes text position message) : kindOf message = kind := by
  cases kind with
  | blank =>
      obtain ⟨rfl, -⟩ := h
      decide
  | leftOver =>
      obtain ⟨c, rest, rfl, -⟩ := h
      simp [kindOf, String.toList_append]
  | nesting =>
      obtain rfl := h
      decide
  | noOperand =>
      obtain ⟨rfl | rfl, -⟩ := h <;> decide
  | number =>
      obtain ⟨rfl, -⟩ := h
      decide

/-- A miss of a name is reported by one of two words. -/
theorem message_nameMiss (s : List Char) :
    (Problem.missed (nameMiss s)).message = "Parse failed: Satisfy" ∨
      (Problem.missed (nameMiss s)).message = "Parse failed: Tag" := by
  cases s with
  | nil => exact .inl rfl
  | cons c s =>
      rw [nameMiss]
      split
      · exact .inr rfl
      · exact .inl rfl

/-- A report stands inside the trimmed text, and one of the kinds describes it. -/
theorem describes_of_parse {text : String} {err : ParseError} (h : parse text = .error err) :
    (∃ tail, TailAt text.toList err.position tail) ∧
      ∃ kind : ReportKind, kind.Describes text.toList err.position err.problem.message := by
  have hreport := reports_condition (trim text.toList)
  simp only [parse, parseChars] at h
  split at h
  · rename_i hempty
    obtain rfl := Except.error.inj h
    have hnil := List.isEmpty_iff.mp hempty
    have htail := tailAt_of_suffix (List.nil_suffix (l := trim text.toList))
    simp only [hnil, byteLength, Nat.add_zero, Nat.sub_zero] at htail
    refine ⟨⟨[], htail⟩, .blank, rfl, hnil, ?_⟩
    simp [trimStart_eq_nil hnil, byteLength]
  · split at h
    · rename_i e rest hread
      rw [hread] at hreport
      have htail := tailAt_of_suffix ((trimStart_suffix rest).trans hreport.suffix)
      cases hcut : trimStart rest with
      | nil => simp [hcut] at h
      | cons c left =>
          rw [hcut] at htail h
          obtain rfl := Except.error.inj h
          have hhead : c ∈ (trimStart rest).head? := by simp [hcut]
          exact ⟨⟨_, htail⟩, .leftOver, c, left, rfl, head_dropWhile hhead, htail⟩
    · rename_i cause here hread
      obtain rfl := Except.error.inj h
      rw [hread] at hreport
      cases hreport with
      | miss hmiss =>
          -- no gap stands before the name that is missed, so its place is the front of the text
          obtain ⟨rfl, rfl⟩ := hmiss
          rw [skipGap_trim]
          refine ⟨⟨_, tailAt_of_suffix (List.suffix_refl _)⟩, .noOperand, message_nameMiss _, ?_⟩
          rw [Nat.add_sub_cancel, byteLength_lead]
    · rename_i cause here hread
      obtain rfl := Except.error.inj h
      rw [hread] at hreport
      cases hreport with
      | fail hhere hnumber =>
          have htail := tailAt_of_suffix hhere
          cases cause with
          | numberRange => exact ⟨⟨_, htail⟩, .number, rfl, here, htail, hnumber rfl⟩
          | tooDeep => exact ⟨⟨_, htail⟩, .nesting, rfl⟩

/-- A text that is no condition is reported at a character of the text, not before the first and not
behind the last that is no blank. Exactly one kind of report describes the message and the place, so
that no other message occurs. The lengths that the place is computed from never exceed the ones that
they are subtracted from. -/
theorem parse_error_classified (text : String) :
    (byteLength (trimStart text.toList) ≤ byteLength text.toList ∧
        byteLength (condition (trim text.toList)).place ≤ byteLength (trim text.toList) ∧
        byteLength (trimStart (condition (trim text.toList)).place) ≤
          byteLength (trim text.toList)) ∧
      ∀ err, parse text = .error err →
        ∃ position message, err.toError = .parse position message ∧
          byteLength (text.toList.takeWhile isBlank) ≤ position ∧
          position ≤ byteLength (text.toList.takeWhile isBlank) + byteLength (trim text.toList) ∧
          (∃ before after, text.toList = before ++ after ∧ position = byteLength before) ∧
          ∃! kind : ReportKind, kind.Describes text.toList position message := by
  have hplace := place_condition_suffix (trim text.toList)
  refine ⟨⟨byteLength_le_of_suffix (trimStart_suffix _), byteLength_le_of_suffix hplace,
    byteLength_le_of_suffix ((trimStart_suffix _).trans hplace)⟩, fun err h => ?_⟩
  obtain ⟨⟨tail, ⟨before, after, hsplit, hposition⟩, hbehind, hreaches⟩, kind, hkind⟩ :=
    describes_of_parse h
  refine ⟨err.position, err.problem.message, rfl, hbehind, by omega,
    ⟨before, tail ++ after, hsplit, hposition⟩, kind, hkind, fun other hother => ?_⟩
  rw [← kindOf_eq hother, ← kindOf_eq hkind]

/-- A text with a number that has no value, in parentheses and behind a blank of three bytes. -/
def wideText : String := "\u3000 a = (-99999999999999999999 ) "

theorem parse_error_classified_wide :
    parse wideText = .error ⟨9, .numberRange⟩ ∧
      byteLength (wideText.toList.takeWhile isBlank) = 4 ∧ byteLength (trim wideText.toList) = 28 ∧
      ∃! kind : ReportKind, kind.Describes wideText.toList 9 "Parse failed: Digit" := by
  have hparse : parse wideText = .error ⟨9, .numberRange⟩ := by decide +kernel
  obtain ⟨-, hreport⟩ := parse_error_classified wideText
  obtain ⟨position, message, herror, -, -, -, hkind⟩ := hreport _ hparse
  obtain ⟨rfl, rfl⟩ := Error.parse.inj herror
  exact ⟨hparse, by decide +kernel, by decide +kernel, hkind⟩

end Pushdown.Condition
