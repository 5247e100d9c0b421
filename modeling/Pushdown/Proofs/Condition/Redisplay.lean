import Pushdown.Proofs.Condition.Composition
import Pushdown.Proofs.Condition.Display
import Pushdown.Proofs.Condition.Failures
import Pushdown.Proofs.Number.Display

/-!
# Parsed trees are displayed and parsed again

A tree that was parsed is displayed in the language of conditions, but the text does not say
everything about the tree: it leaves out the declared types of columns and stream fields, it does
not group a negation, a null check or a membership below another operator, it puts every string in
single quotes, and it puts every binary node in parentheses. A tree that loses nothing that way
(`Expr.isDisplayable`) and stays within the nesting limit is parsed back from its text
(`parse_display_of_parse`). The conditions cannot be dropped
(`parse_display_losses`).

Numbers are no obstacle: a finite one is read back from its digits, whatever they are.

## Implementation notes

The statement is proved along the way a tree is built, not along the phrases of the grammar, because
the texts of floating-point numbers are no phrases of it.
-/

namespace Pushdown

open Text Number

/-! ## Trees that are displayed without loss -/

/-- The displayed value is read back. -/
def Value.isDisplayable : Value → Bool
  | null | bool _ | int _ | long _ => true
  | float x => x.isFinite
  | double x => x.isFinite
  | string s => !s.toList.contains '\x27'

namespace Expr

mutual

/-- The displayed tree tells its declared types and its grouping. -/
def isDisplayable : Expr → Bool
  | and l r => l.isDisplayable && r.isDisplayable
  | or l r => l.isDisplayable && r.isDisplayable
  | not e => e.isDisplayable
  | compare l _ r => l.isDisplayable && !l.isBare && (r.isDisplayable && !r.isBare)
  | isNull e _ => e.isDisplayable && !e.isBare
  | eventNull _ => false
  | member e _ => e.isDisplayable && !e.isBare
  | math l _ r => l.isDisplayable && !l.isBare && (r.isDisplayable && !r.isBare)
  | constant value _ => value.isDisplayable
  | call _ _ args => allDisplayable args
  | parameter _ _ => true
  | eventField _ _ _ type => type == .object
  | column _ _ type => type == .object

/-- All trees of a list are displayed without loss. -/
def allDisplayable : List Expr → Bool
  | [] => true
  | e :: es => e.isDisplayable && allDisplayable es

end

theorem isDisplayable_of_mem {e : Expr} {es : List Expr} (h : allDisplayable es = true)
    (he : e ∈ es) : e.isDisplayable = true := by
  induction es with
  | nil => simp at he
  | cons d es ih =>
      rw [allDisplayable, Bool.and_eq_true] at h
      rcases List.mem_cons.mp he with rfl | he
      · exact h.1
      · exact ih h.2 he

theorem nesting_le_of_mem {e : Expr} {es : List Expr} (he : e ∈ es) :
    e.nesting ≤ nestingAll es := by
  induction es with
  | nil => simp at he
  | cons d es ih =>
      rw [nestingAll]
      rcases List.mem_cons.mp he with rfl | he
      · exact Nat.le_max_left _ _
      · exact (ih he).trans (Nat.le_max_right _ _)

end Expr

namespace Condition

variable {budget : Nat} {text : List Char}

/-! ## Numbers with a point -/

/-- What stands behind the digits of a number to mark its kind: a letter, or nothing. -/
structure Marks (letter : List Char) (found : Option Mark) : Prop where
  /-- The mark ends as words do. -/
  letters : ∀ c ∈ letter, isNameChar c = true
  /-- The mark is read. -/
  reads : ∀ r, Boundary r → mark (letter ++ r) = (found, r)
  /-- The digits end before the mark. -/
  stops : ∀ r, Boundary r → ∀ c ∈ (letter ++ r).head?, c ≠ '.' ∧ c.isDigit = false

theorem marks_nothing : Marks [] none :=
  ⟨by simp, fun _ hr => mark_of_boundary hr, fun _ hr c hc => ⟨(hr c hc).2.1, hr.isDigit c hc⟩⟩

theorem marks_float : Marks ['f'] (some .float) :=
  ⟨by simpa using by decide, fun _ _ => rfl, fun _ _ => by simp⟩

/-- A number with a point is read as an operand. -/
theorem operandText_decimal {negative : Bool} {whole places letter : List Char}
    {found : Option Mark} {value : Value} (hwhole : IsDigits whole) (hplaces : IsDigits places)
    (hmarks : Marks letter found)
    (hvalue : Literal.value? ⟨negative, whole, some places, found⟩ = some value) (budget : Nat) :
    OperandText budget (minus negative ++ (whole ++ '.' :: (places ++ letter)))
      (.literal value) := by
  obtain ⟨hne, hdigits⟩ := hwhole
  rw [List.all_eq_true] at hdigits
  have hfirst : ∀ r, ∃ c, (minus negative ++ (whole ++ r)).head? = some c ∧
      (c = '-' ∨ c.isDigit = true) := by
    intro r
    cases negative with
    | true => exact ⟨'-', rfl, Or.inl rfl⟩
    | false =>
        obtain ⟨c, hc, hdigit⟩ := head?_append_digits hne hdigits r
        exact ⟨c, hc, Or.inr hdigit⟩
  refine ⟨?_, ?_, fun r s _ hs => ?_, accepts_operand fun r hr => ⟨r, Leaves.all r, ?_⟩⟩
  · obtain ⟨c, hc, hfirst⟩ := hfirst ('.' :: (places ++ letter))
    obtain ⟨t, ht⟩ := List.head?_eq_some_iff.mp hc
    refine ⟨c, t, ht, ?_⟩
    rcases hfirst with rfl | hdigit
    · decide
    · simp [isStart, isNameChar_of_isDigit hdigit]
  · have hends : Ends (places ++ letter) := by
      refine ends_of_isNameChar (by simp [hplaces.1]) fun c hc => ?_
      rcases List.mem_append.mp hc with hc | hc
      · exact isNameChar_of_isDigit (List.all_eq_true.mp hplaces.2 c hc)
      · exact hmarks.letters c hc
    simpa using hends.append (minus negative ++ whole ++ ['.'])
  · refine keyword_number (by decide) ?_
    rw [hs, List.append_assoc, List.append_assoc]
    exact hfirst _
  · have hfraction : fraction ('.' :: places ++ (letter ++ r)) = (some places, letter ++ r) :=
      fraction_pointed (fun ds hds => Option.some.inj hds ▸ hplaces) (hmarks.stops r hr.boundary)
    have hliteral : literal (minus negative ++ (whole ++ ('.' :: places ++ (letter ++ r)))) =
        some (⟨negative, whole, some places, found⟩, r) := by
      rw [literal_minus negative hne hdigits (by simp), hfraction,
        hmarks.reads r hr.boundary]
    apply bareOperand_of_number
    simp only [List.append_assoc, List.cons_append] at hliteral ⊢
    simp [number, hliteral, hvalue]

/-- The displayed digits of a finite number, with the mark of its kind, are read as the number. -/
theorem operandText_displayNumber {f : Format} (hf : 2 ≤ f.exponentBits) {x : Binary f}
    (hx : x.isFinite = true) {letter : List Char} {found : Option Mark} (hmarks : Marks letter found)
    {kind : Binary f → Value} (hkind : ∀ negative whole places,
      Literal.value? ⟨negative, whole, some places, found⟩ =
        some (kind (Numeral.toBinary ⟨negative, whole, places, 0⟩))) (budget : Nat) :
    OperandText budget ((displayNumber x).toList ++ letter) (.literal (kind x)) := by
  obtain ⟨negative, text, whole, places, v, hshows, htext, hread⟩ := shows_displayNumber hf hx
  have hvalue := hkind negative whole places
  rw [hread] at hvalue
  have hoperand := operandText_decimal ⟨hshows.whole_ne, hshows.whole_digits⟩
    ⟨hshows.fraction_ne, hshows.fraction_digits⟩ hmarks hvalue budget
  rw [htext, hshows.text_eq]
  cases negative <;> simpa [minus] using hoperand

/-! ## Displayed trees -/

/-- A printable tree that is not bare is displayed as an operand. -/
theorem operandText_of_isPrintable {e : Expr} (h : e.isPrintable = true)
    (hbare : e.isBare = false) (hbudget : e.nesting ≤ budget) :
    OperandText budget e.display.toList e := by
  obtain ⟨p, htext, hmeaning, hnesting⟩ := (displayed_of_isPrintable e h).operand hbare
  have hreads := reads_of_nesting p budget (hnesting ▸ hbudget)
  rw [← htext, ← hmeaning]
  exact ⟨p.starts rfl, p.ends rfl, p.keyword_not rfl, hreads⟩

/-- A value that is displayed without loss is displayed as an operand. -/
theorem operandText_value {v : Value} (h : v.isDisplayable = true) (budget : Nat) :
    OperandText budget v.display.toList (.literal v) := by
  by_cases hprintable : v.isPrintable = true
  · have hliteral : (Expr.literal v).isPrintable = true := by
      simp [Expr.literal, Expr.isPrintable, hprintable]
    exact operandText_of_isPrintable hliteral rfl budget.zero_le
  · cases v with
    | float x =>
        simpa [Value.display] using
          operandText_displayNumber (by decide) h marks_float (fun _ _ _ => rfl) budget
    | double x =>
        simpa [Value.display] using
          operandText_displayNumber (by decide) h marks_nothing (fun _ _ _ => rfl) budget
    | null | bool b | int n | long n | string s => exact absurd h hprintable

/-- The displayed tree is read as a term, and as an operand unless it is bare. -/
structure Redisplayed (budget : Nat) (e : Expr) : Prop where
  /-- The text is read as a term. -/
  term : TermText budget e.display.toList e
  /-- The text of a tree that is not bare is read as an operand. -/
  operand : e.isBare = false → OperandText budget e.display.toList e

namespace Redisplayed

variable {e : Expr}

theorem ofOperand (h : OperandText budget e.display.toList e) : Redisplayed budget e :=
  ⟨h.term, fun _ => h⟩

theorem ofBare (h : TermText budget e.display.toList e) (hbare : e.isBare = true) :
    Redisplayed budget e :=
  ⟨h, fun hoperand => absurd hbare (by simp [hoperand])⟩

/-- A binary node is displayed as a condition in parentheses. -/
theorem ofGroup {inner : List Char} (h : ConditionText budget inner e)
    (htext : e.display.toList = '(' :: (inner ++ [')'])) : Redisplayed (budget + 1) e :=
  ofOperand (htext ▸ h.group)

end Redisplayed

theorem toList_displayArgs (es : List Expr) :
    (Expr.displayArgs es).toList = argumentText (·.display.toList) es := by
  cases es with
  | nil => rfl
  | cons e es => exact displayArgs_cons e es

/-- One level of nesting goes to a binary node, the rest to both its sides. -/
theorem redisplayed_sides {l r : Expr} {budget : Nat}
    (hl : ∀ b, l.nesting ≤ b → Redisplayed b l) (hr : ∀ b, r.nesting ≤ b → Redisplayed b r)
    (hbudget : max l.nesting r.nesting + 1 ≤ budget) :
    ∃ b, budget = b + 1 ∧ Redisplayed b l ∧ Redisplayed b r := by
  refine ⟨budget - 1, by omega, ?_, ?_⟩
  · exact hl _ (by omega)
  · exact hr _ (by omega)

/-- A tree that was built by the readers and is displayed without loss is read back from its
text. -/
theorem redisplayed_of_built {n : Nat} {e : Expr} (h : Built n e) :
    e.isDisplayable = true → ∀ budget, e.nesting ≤ budget → Redisplayed budget e := by
  -- the budget falls at binary nodes, at `not` and at calls, which is where the nesting rises
  induction h with
  | and hl hr ihl ihr =>
      intro hd budget hbudget
      simp only [Expr.isDisplayable, Bool.and_eq_true] at hd
      rw [Expr.nesting] at hbudget
      obtain ⟨budget, rfl, hleft, hright⟩ := redisplayed_sides (ihl hd.1) (ihr hd.2) hbudget
      exact .ofGroup (hleft.term.and hright.term) (by simp [Expr.display])
  | or hl hr ihl ihr =>
      intro hd budget hbudget
      simp only [Expr.isDisplayable, Bool.and_eq_true] at hd
      rw [Expr.nesting] at hbudget
      obtain ⟨budget, rfl, hleft, hright⟩ := redisplayed_sides (ihl hd.1) (ihr hd.2) hbudget
      exact .ofGroup (hleft.term.or hright.term) (by simp [Expr.display])
  | not h ih =>
      intro hd budget hbudget
      rw [Expr.nesting] at hbudget
      obtain ⟨budget, rfl⟩ : ∃ b, budget = b + 1 := ⟨budget - 1, by omega⟩
      have hnot := (ih hd budget (by omega)).term.not
      exact .ofBare (by simpa [Expr.display] using hnot) rfl
  | compare op hl hr ihl ihr =>
      intro hd budget hbudget
      simp only [Expr.isDisplayable, Bool.and_eq_true, Bool.not_eq_true'] at hd
      rw [Expr.nesting] at hbudget
      obtain ⟨budget, rfl, hleft, hright⟩ := redisplayed_sides (ihl hd.1.1) (ihr hd.2.1) hbudget
      have hspells : op.symbol ∈ compareSpellings op := by cases op <;> decide
      have hcompare := (hleft.operand hd.1.2).compare ⟨op, op.symbol, hspells⟩
        (hright.operand hd.2.2)
      exact .ofGroup hcompare.condition (by simp [Expr.display])
  | isNull h ih =>
      intro hd budget hbudget
      simp only [Expr.isDisplayable, Bool.and_eq_true, Bool.not_eq_true'] at hd
      have hnull := ((ih hd.1 budget hbudget).operand hd.2).isNull
      exact .ofBare (by simpa [Expr.display] using hnull) rfl
  | @member n e store h hstore ih =>
      intro hd budget hbudget
      simp only [Expr.isDisplayable, Bool.and_eq_true, Bool.not_eq_true'] at hd
      have hmember := ((ih hd.1 budget hbudget).operand hd.2).member ⟨store, hstore⟩
      exact .ofBare (by simpa [Expr.display] using hmember) rfl
  | math op hl hr ihl ihr =>
      intro hd budget hbudget
      simp only [Expr.isDisplayable, Bool.and_eq_true, Bool.not_eq_true'] at hd
      rw [Expr.nesting] at hbudget
      obtain ⟨budget, rfl, hleft, hright⟩ := redisplayed_sides (ihl hd.1.1) (ihr hd.2.1) hbudget
      have hmath := (hleft.operand hd.1.2).math op (hright.operand hd.2.2)
      exact .ofGroup hmath.condition (by simp [Expr.display])
  | literal h => exact fun hd budget _ => .ofOperand (operandText_value hd budget)
  | @call n space function args hspace hfunction hargs ih =>
      intro hd budget hbudget
      rw [Expr.nesting] at hbudget
      obtain ⟨budget, rfl⟩ : ∃ b, budget = b + 1 := ⟨budget - 1, by omega⟩
      have hread : ∀ a ∈ args, ConditionText budget a.display.toList a := by
        intro a ha
        have hnesting := Expr.nesting_le_of_mem ha
        exact (ih a ha (Expr.isDisplayable_of_mem hd ha) budget (by omega)).term.condition
      refine .ofOperand ?_
      cases space with
      | none =>
          simpa [Expr.display, calledName, toList_displayArgs] using
            operandText_call hread none ⟨function, hfunction⟩
      | some space =>
          simpa [Expr.display, calledName, toList_displayArgs] using
            operandText_call hread (some ⟨space, hspace space rfl⟩) ⟨function, hfunction⟩
  | parameter index type =>
      exact fun _ budget _ => .ofOperand (operandText_of_isPrintable rfl rfl budget.zero_le)
  | @field n stream name hstream hname type =>
      intro hd budget _
      obtain rfl : type = .object := by simpa [Expr.streamField, Expr.isDisplayable] using hd
      have hprintable :
          (Expr.streamField (String.ofList stream) (String.ofList name) .object).isPrintable := by
        simp [Expr.streamField, Expr.isPrintable, hstream, hname]
      exact .ofOperand (operandText_of_isPrintable hprintable rfl budget.zero_le)
  | @column n name hname type =>
      intro hd budget _
      obtain rfl : type = .object := by simpa [Expr.isDisplayable] using hd
      have hprintable : (Expr.column none (String.ofList name) .object).isPrintable = true := by
        simp [Expr.isPrintable, hname]
      exact .ofOperand (operandText_of_isPrintable hprintable rfl budget.zero_le)

/-- A tree that was parsed and is displayed without loss is parsed back from its text if it nests no
deeper than the limit; otherwise only the limit can be in the way. -/
theorem parse_display_of_parse {s : String} {e : Expr} (hparse : parse s = .ok e)
    (hdisplay : e.isDisplayable = true) :
    (e.nesting ≤ 64 → parse e.display = .ok e) ∧ ParsesWithin e.display e := by
  have hbuilt := built_of_parse hparse
  refine ⟨fun hdepth => ?_, ?_⟩
  · exact (redisplayed_of_built hbuilt hdisplay nestingLimit hdepth).term.condition.parse
  · have hread := redisplayed_of_built hbuilt hdisplay (max nestingLimit e.nesting)
      (Nat.le_max_right _ _)
    exact parsesWithin_of_conditionText hread.term.condition (Nat.le_max_left _ _)

/-- A negated disjunction with a stream field, a negative single and a large double, written with
other marks and zeros than they are displayed with. -/
def numericTree : Expr :=
  .not (.or
    (.compare
      (.math (.constant (.float ⟨0xbdcccccd⟩) .float) .mul (.column none "x" .object)) .lte
      (.constant (.double ⟨0x44b52d02c7e14af6⟩) .double))
    (.member (.eventField "S.b" (some "S") "b" .object) "T"))

theorem parse_display_numericTree :
    parse "NOT(-0.10F*x<=100000000000000000000000d or S.b in T)" = .ok numericTree ∧
      numericTree.display = "not (((-0.1f * x) <= 100000000000000000000000.0) or S.b in T)" ∧
      parse numericTree.display = .ok numericTree := by
  have hparse : parse "NOT(-0.10F*x<=100000000000000000000000d or S.b in T)" =
      .ok numericTree := by
    decide +kernel
  have hdisplay : numericTree.isDisplayable = true := by decide +kernel
  have htext : numericTree.display =
      "not (((-0.1f * x) <= 100000000000000000000000.0) or S.b in T)" := by
    decide +kernel
  exact ⟨hparse, htext, (parse_display_of_parse hparse hdisplay).1 (by decide)⟩

/-! ## What the text of a tree loses -/

/-- Every level of nesting is used up by an opening parenthesis. -/
theorem alternatives_opening (budget : Nat) (t : List Char) :
    alternatives (term budget) (List.replicate budget '(' ++ t) = .fail .tooDeep t := by
  induction budget with
  | zero => simp [alternatives, chain, term]
  | succ budget ih =>
      have hnot : keyword "not".toList ('(' :: (List.replicate budget '(' ++ t)) = none :=
        keyword_of_mark (by decide) (by rw [skipGap_cons (by decide)]; simpa using by decide)
      have hoperand : operand (alternatives (term budget))
          ('(' :: (List.replicate budget '(' ++ t)) = .fail .tooDeep t := by
        rw [operand, skipGap_cons (by decide)]
        simp [bareOperand, group, expect, ih]
      have hpredicate : predicate (alternatives (term budget))
          ('(' :: (List.replicate budget '(' ++ t)) = .fail .tooDeep t := by
        simp [predicate, comparison, sum, product, chain, hoperand]
      have hterm : term (budget + 1) ('(' :: (List.replicate budget '(' ++ t)) =
          .fail .tooDeep t := by
        rw [term_positive budget hnot, hpredicate]
      rw [List.replicate_succ, List.cons_append]
      simp [alternatives, chain, hterm]

/-- A text that opens more parentheses than there are levels crosses the limit behind them. -/
theorem parse_opening {text : String} {t : List Char}
    (htext : text.toList = List.replicate (nestingLimit + 1) '(' ++ t) (hends : Ends text.toList) :
    parse text = .error ⟨nestingLimit + 1, .tooDeep⟩ := by
  have hstarts : Starts text.toList := ⟨'(', _, htext, by decide⟩
  have hread := alternatives_opening (nestingLimit + 1) t
  rw [htext] at hstarts hends
  have hparse := parseChars_of_fail [] [] rfl rfl hstarts hends hread
  rw [List.nil_append, List.append_nil] at hparse
  rw [parse, htext, hparse]
  rfl

/-- A column conjoined with itself so many times. -/
def repeated : Nat → Expr
  | 0 => .column none "a" .object
  | n + 1 => .and (repeated n) (.column none "a" .object)

/-- The conjunction written without parentheses. -/
def repeatedText : Nat → String
  | 0 => "a"
  | n + 1 => repeatedText n ++ " and a"

/-- The column as a term. -/
def columnPhrase : Phrase .term :=
  .predicate (.comparison (.sum (.product (.operand (.column ⟨['a'], by decide⟩ none)))))

theorem exists_repeatedPhrase (n : Nat) :
    ∃ p : Phrase .conjunction, p.text = (repeatedText n).toList ∧ p.meaning = repeated n ∧
      p.nesting = 0 := by
  induction n with
  | zero => exact ⟨.term columnPhrase, rfl, rfl, rfl⟩
  | succ n ih =>
      obtain ⟨p, htext, hmeaning, hnesting⟩ := ih
      refine ⟨.and p oneSpace ⟨"and".toList, by decide⟩ oneSpace columnPhrase, ?_, ?_, ?_⟩
      · rw [Phrase.text, htext, repeatedText, String.toList_append]
        rfl
      · rw [Phrase.meaning, hmeaning]
        rfl
      · rw [Phrase.nesting, hnesting]
        rfl

/-- A conjunction of any length is parsed. -/
theorem parse_repeatedText (n : Nat) : parse (repeatedText n) = .ok (repeated n) := by
  obtain ⟨p, htext, hmeaning, hnesting⟩ := exists_repeatedPhrase n
  have hparse := parseChars_phrase (.conjunction p) (by simp [Phrase.nesting, hnesting]) [] [] rfl
    rfl
  rw [List.nil_append, List.append_nil] at hparse
  rw [parse, ← htext, ← hmeaning]
  exact hparse

/-- A conjunction is displayed with all its parentheses in front. -/
theorem display_repeated (n : Nat) :
    ∃ t, (repeated (n + 1)).display.toList = List.replicate (n + 1) '(' ++ (t ++ [')']) := by
  induction n with
  | zero => exact ⟨"a and a".toList, rfl⟩
  | succ n ih =>
      obtain ⟨t, ht⟩ := ih
      refine ⟨t ++ ") and a".toList, ?_⟩
      rw [repeated, Expr.display]
      simp [ht, Expr.display, List.replicate_succ]

theorem parse_display_repeated :
    parse (repeated (nestingLimit + 1)).display = .error ⟨nestingLimit + 1, .tooDeep⟩ := by
  obtain ⟨t, ht⟩ := display_repeated nestingLimit
  refine parse_opening ht ⟨List.replicate (nestingLimit + 1) '(' ++ t, ')', ?_, by decide⟩
  rw [ht, List.append_assoc]

/-- The text is parsed to the tree, and the text of the tree is parsed to something else. -/
def Loses (text : String) (e : Expr) (other : Except ParseError Expr) : Prop :=
  parse text = .ok e ∧ parse e.display = other ∧ other ≠ .ok e

instance (text : String) (e : Expr) (other : Except ParseError Expr) :
    Decidable (Loses text e other) :=
  inferInstanceAs (Decidable (_ ∧ _ ∧ _))

/-- Displaying a parsed tree can lose the declared type of a column or of a stream field, the
grouping of a negation, of a null check and of a membership, a string with a single quote, a number
that is too large, and a conjunction that needs more parentheses than there are levels. -/
theorem parse_display_losses :
    Loses "a::int" (.column none "a" .int) (.ok (.column none "a" .object)) ∧
      Loses "S.b::long" (.eventField "S.b" (some "S") "b" .long)
        (.ok (.eventField "S.b" (some "S") "b" .object)) ∧
      Loses "(not a) = b"
        (.compare (.not (.column none "a" .object)) .eq (.column none "b" .object))
        (.ok (.not (.compare (.column none "a" .object) .eq (.column none "b" .object)))) ∧
      Loses "a = (b is null)"
        (.compare (.column none "a" .object) .eq (.isNull (.column none "b" .object) none))
        (.ok (.isNull (.compare (.column none "a" .object) .eq (.column none "b" .object)) none)) ∧
      Loses "(a in T) is null" (.isNull (.member (.column none "a" .object) "T") none)
        (.error ⟨7, .trailing "is null"⟩) ∧
      Loses "\"it's\"" (.constant (.string "it's") .string) (.error ⟨4, .trailing "s'"⟩) ∧
      Loses "340282366920938463463374607431768211456f" (.constant (.float ⟨0x7f800000⟩) .float)
        (.ok (.column none "inff" .object)) ∧
      Loses (repeatedText 65) (repeated 65) (.error ⟨65, .tooDeep⟩) := by
  refine ⟨by decide +kernel, by decide +kernel, by decide +kernel, by decide +kernel,
    by decide +kernel, by decide +kernel, by decide +kernel, ?_⟩
  exact ⟨parse_repeatedText 65, parse_display_repeated, by simp⟩

end Condition

end Pushdown
