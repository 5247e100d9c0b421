import Pushdown.Expr.Printer
import Pushdown.Proofs.Condition.Acceptance
import Pushdown.Proofs.Trees
import Pushdown.Translator

/-!
# Displayed trees are parsed back

The text of a printable tree is the text of a phrase that means the tree and nests as deep. So
displaying a tree and parsing the text gives the tree back (`parse_display`).

A tree is printable if its names are names, its declared types are the ones that are assumed
where none is written, its numbers are integers, and no negation, null check or membership
stands where it would need parentheses that are not displayed.
-/

namespace Pushdown

open Text Number

/-! ## Printable trees -/

/-- The value is displayed as a literal that is read exactly. -/
def Value.isPrintable : Value → Bool
  | null | bool _ | int _ | long _ => true
  | float _ | double _ => false
  | string s => !s.toList.contains '\x27'

namespace Expr

mutual

/-- The displayed tree can be read back. -/
def isPrintable : Expr → Bool
  | and l r => l.isPrintable && r.isPrintable
  | or l r => l.isPrintable && r.isPrintable
  | not e => e.isPrintable
  | compare l _ r => l.isPrintable && !l.isBare && (r.isPrintable && !r.isBare)
  | isNull e stream => e.isPrintable && !e.isBare && stream.isNone
  | eventNull _ => false
  | member e store => e.isPrintable && !e.isBare && isName store.toList
  | math l _ r => l.isPrintable && !l.isBare && (r.isPrintable && !r.isBare)
  | constant value type => value.isPrintable && type == value.naturalType
  | call space name args =>
      space.all (isName ·.toList) && isName name.toList && allPrintable args
  | parameter _ _ => true
  | eventField id stream name type =>
      stream.any (fun s => isName s.toList && id == s ++ "." ++ name) && isName name.toList &&
        type == .object
  | column store name type => store.isNone && isName name.toList && type == .object

/-- All trees of a list can be read back when displayed. -/
def allPrintable : List Expr → Bool
  | [] => true
  | e :: es => e.isPrintable && allPrintable es

end

mutual

/-- How deep a displayed tree is nested: binary nodes stand in parentheses, and negations and
calls count as well. -/
def nesting : Expr → Nat
  | and l r => max l.nesting r.nesting + 1
  | or l r => max l.nesting r.nesting + 1
  | not e => e.nesting + 1
  | compare l _ r => max l.nesting r.nesting + 1
  | isNull e _ => e.nesting
  | eventNull _ => 0
  | member e _ => e.nesting
  | math l _ r => max l.nesting r.nesting + 1
  | constant _ _ => 0
  | call _ _ args => nestingAll args + 1
  | parameter _ _ => 0
  | eventField _ _ _ _ => 0
  | column _ _ _ => 0

/-- The deepest nesting in a list of trees. -/
def nestingAll : List Expr → Nat
  | [] => 0
  | e :: es => max e.nesting (nestingAll es)

end

end Expr

namespace Condition

/-! ## Texts of phrases -/

/-- The text is that of a phrase of the level with the given meaning and nesting. -/
def Written (l : Level) (text : List Char) (value : Meaning l) (depth : Nat) : Prop :=
  ∃ p : Phrase l, p.text = text ∧ p.meaning = value ∧ p.nesting = depth

variable {text other : List Char} {a b : Expr} {n m : Nat}

namespace Written

theorem sum (h : Written .operand text a n) : Written .sum text a n := by
  obtain ⟨p, htext, hmeaning, hnesting⟩ := h
  exact ⟨.product (.operand p), htext, hmeaning, hnesting⟩

theorem term (h : Written .operand text a n) : Written .term text a n := by
  obtain ⟨p, htext, hmeaning, hnesting⟩ := h.sum
  exact ⟨.predicate (.comparison (.sum p)), htext, hmeaning, hnesting⟩

theorem condition (h : Written .term text a n) : Written .condition text a n := by
  obtain ⟨p, htext, hmeaning, hnesting⟩ := h
  exact ⟨.conjunction (.term p), htext, hmeaning, hnesting⟩

theorem group (h : Written .condition text a n) :
    Written .operand ('(' :: (text ++ [')'])) a (n + 1) := by
  obtain ⟨p, rfl, rfl, rfl⟩ := h
  exact ⟨.group noGap p noGap, by simp [Phrase.text, noGap], rfl, rfl⟩

theorem and (ha : Written .term text a n) (hb : Written .term other b m) :
    Written .condition (text ++ " and ".toList ++ other) (.and a b) (max n m) := by
  obtain ⟨p, rfl, rfl, rfl⟩ := ha
  obtain ⟨q, rfl, rfl, rfl⟩ := hb
  refine ⟨.conjunction (.and (.term p) oneSpace ⟨"and".toList, by decide⟩ oneSpace q), ?_, rfl, rfl⟩
  simp [Phrase.text, oneSpace]

theorem or (ha : Written .term text a n) (hb : Written .term other b m) :
    Written .condition (text ++ " or ".toList ++ other) (.or a b) (max n m) := by
  obtain ⟨p, rfl, rfl, rfl⟩ := ha
  obtain ⟨q, rfl, rfl, rfl⟩ := hb
  refine ⟨.or (.conjunction (.term p)) oneSpace ⟨"or".toList, by decide⟩ oneSpace (.term q),
    ?_, rfl, rfl⟩
  simp [Phrase.text, oneSpace]

theorem not (h : Written .term text a n) :
    Written .term ("not ".toList ++ text) (.not a) (n + 1) := by
  obtain ⟨p, rfl, rfl, rfl⟩ := h
  exact ⟨.not ⟨"not".toList, by decide⟩ oneSpace p, by simp [Phrase.text, oneSpace], rfl, rfl⟩

theorem compare (op : CompareOp) (ha : Written .operand text a n)
    (hb : Written .operand other b m) :
    Written .condition (text ++ " ".toList ++ op.symbol.toList ++ " ".toList ++ other)
      (.compare a op b) (max n m) := by
  obtain ⟨p, rfl, rfl, rfl⟩ := ha.sum
  obtain ⟨q, rfl, rfl, rfl⟩ := hb.sum
  have hspells : op.symbol ∈ compareSpellings op := by cases op <;> decide
  refine ⟨.conjunction (.term (.predicate (.comparison
    (.compare p oneGap ⟨op, op.symbol, hspells⟩ oneGap q)))), ?_, rfl, rfl⟩
  simp [Phrase.text, oneGap]

theorem math (op : MathOp) (ha : Written .operand text a n) (hb : Written .operand other b m) :
    Written .condition (text ++ " ".toList ++ op.symbol.toList ++ " ".toList ++ other)
      (.math a op b) (max n m) := by
  obtain ⟨p, rfl, rfl, rfl⟩ := ha
  obtain ⟨q, rfl, rfl, rfl⟩ := hb
  suffices hsum : Written .sum (p.text ++ " ".toList ++ op.symbol.toList ++ " ".toList ++ q.text)
      (.math p.meaning op q.meaning) (max p.nesting q.nesting) by
    obtain ⟨e, htext, hmeaning, hnesting⟩ := hsum
    exact ⟨.conjunction (.term (.predicate (.comparison (.sum e)))), htext, hmeaning, hnesting⟩
  have hspells : op.symbol ∈ sumSpellings op ∨ op.symbol ∈ productSpellings op := by
    cases op <;> decide
  rcases hspells with hspells | hspells
  · refine ⟨.plus (.product (.operand p)) oneGap ⟨op, op.symbol, hspells⟩ oneGap
      (.operand q), ?_, rfl, rfl⟩
    simp [Phrase.text, oneGap]
  · refine ⟨.product (.times (.operand p) oneGap ⟨op, op.symbol, hspells⟩ oneGap q),
      ?_, rfl, rfl⟩
    simp [Phrase.text, oneGap]

theorem isNull (h : Written .operand text a n) :
    Written .term (text ++ " is null".toList) (.isNull a none) n := by
  obtain ⟨p, rfl, rfl, rfl⟩ := h.sum
  refine ⟨.predicate (.isNull (.sum p) oneSpace ⟨"is".toList, by decide⟩ oneSpace
    ⟨"null".toList, by decide⟩), ?_, rfl, rfl⟩
  simp [Phrase.text, oneSpace]

theorem member (h : Written .operand text a n) {store : String}
    (hstore : isName store.toList = true) :
    Written .term (text ++ " in ".toList ++ store.toList) (.member a store) n := by
  obtain ⟨p, rfl, rfl, rfl⟩ := h.sum
  refine ⟨.predicate (.member (.sum p) oneSpace ⟨"in".toList, by decide⟩ oneSpace
    ⟨store.toList, hstore⟩), ?_, ?_, rfl⟩
  · simp [Phrase.text, oneSpace]
  · simp [Phrase.meaning]

/-- Arguments are written with a comma and a space before each but the first. -/
theorem furtherArguments {es : List Expr}
    (h : ∀ e ∈ es, Written .condition e.display.toList e e.nesting) :
    Written .furtherArguments (es.flatMap fun e => ", ".toList ++ e.display.toList) es
      (Expr.nestingAll es) := by
  induction es with
  | nil => exact ⟨.noFurther, rfl, rfl, rfl⟩
  | cons e es ih =>
      obtain ⟨p, htext, hmeaning, hnesting⟩ := h e (by simp)
      obtain ⟨others, hotext, homeaning, honesting⟩ := ih fun e he => h e (by simp [he])
      refine ⟨.further noGap oneGap p others, ?_, ?_, ?_⟩
      · simp [Phrase.text, noGap, oneGap, htext, hotext]
      · simp [Phrase.meaning, hmeaning, homeaning]
      · simp [Phrase.nesting, Expr.nestingAll, hnesting, honesting]

end Written

theorem displayArgs_cons (e : Expr) (es : List Expr) :
    (Expr.displayArgs (e :: es)).toList =
      e.display.toList ++ es.flatMap fun e => ", ".toList ++ e.display.toList := by
  induction es generalizing e with
  | nil => simp [Expr.displayArgs]
  | cons d es ih =>
      rw [Expr.displayArgs]
      · simp [ih d]
      · simp

theorem Written.arguments {es : List Expr}
    (h : ∀ e ∈ es, Written .condition e.display.toList e e.nesting) :
    Written .arguments (Expr.displayArgs es).toList es (Expr.nestingAll es) := by
  cases es with
  | nil => exact ⟨.noArguments, by simp [Phrase.text, Expr.displayArgs], rfl, rfl⟩
  | cons e es =>
      obtain ⟨p, htext, hmeaning, hnesting⟩ := h e (by simp)
      obtain ⟨others, hotext, homeaning, honesting⟩ :=
        Written.furtherArguments fun d hd => h d (List.mem_cons_of_mem e hd)
      refine ⟨.arguments noGap p others, ?_, ?_, ?_⟩
      · rw [displayArgs_cons, Phrase.text, htext, hotext]
        rfl
      · simp [Phrase.meaning, hmeaning, homeaning]
      · simp [Phrase.nesting, Expr.nestingAll, hnesting, honesting]

theorem Written.call {es : List Expr}
    (h : ∀ e ∈ es, Written .condition e.display.toList e e.nesting) {space : Option String}
    {function : String} (hspace : space.all (isName ·.toList) = true)
    (hfunction : isName function.toList = true) :
    Written .operand (Expr.call space function es).display.toList (.call space function es)
      (Expr.nestingAll es + 1) := by
  obtain ⟨args, htext, hmeaning, hnesting⟩ := Written.arguments h
  cases space with
  | none =>
      refine ⟨.call none ⟨function.toList, hfunction⟩ noGap args noGap, ?_, ?_, ?_⟩
      · simp [Phrase.text, calledName, noGap, htext, Expr.display]
      · simp [Phrase.meaning, hmeaning]
      · simp [Phrase.nesting, hnesting]
  | some space =>
      have hname : isName space.toList = true := by simpa using hspace
      refine ⟨.call (some ⟨space.toList, hname⟩) ⟨function.toList, hfunction⟩ noGap args noGap,
        ?_, ?_, ?_⟩
      · simp [Phrase.text, calledName, noGap, htext, Expr.display]
      · simp [Phrase.meaning, hmeaning]
      · simp [Phrase.nesting, hnesting]

/-! ## Literals -/

/-- A number is read back from its digits. -/
theorem ofDigits_toDigits (n : Nat) : ofDigits (Nat.toDigits 10 n) = n := by
  rw [ofDigits, Nat.ofDigitChars_ten_toDigits]

theorem ofSigned_toDigits (z : Int) :
    ofSigned (decide (z < 0)) (Nat.toDigits 10 z.natAbs) = z := by
  rw [ofSigned, ofDigits_toDigits]
  by_cases hz : z < 0
  · rw [decide_eq_true hz, if_pos rfl]
    omega
  · rw [decide_eq_false hz, if_neg Bool.false_ne_true]
    omega

/-- The digits of a number as they are displayed. -/
def digitsOf (n : Nat) : Digits :=
  ⟨Nat.toDigits 10 n, Nat.toDigits_ne_nil, by
    simpa using fun c hc => Nat.isDigit_of_mem_toDigits (by decide) (by decide) hc⟩

/-- An integer as it is displayed. -/
def IntegerText.ofInt (z : Int) (h : -0x8000000000000000 ≤ z ∧ z < 0x8000000000000000)
    (mark : Option { c : Char // c = 'l' ∨ c = 'L' }) : IntegerText where
  negative := decide (z < 0)
  digits := digitsOf z.natAbs
  mark := mark
  fits := by rwa [digitsOf, ofSigned_toDigits]

theorem toList_toString (z : Int) :
    (toString z).toList = minus (decide (z < 0)) ++ Nat.toDigits 10 z.natAbs := by
  rw [Int.toString_eq_repr, Int.repr_eq_if]
  by_cases hz : z < 0
  · have habs : (-z).toNat = z.natAbs := by omega
    simp [minus, hz, show ¬ 0 ≤ z by omega, habs]
  · have habs : z.toNat = z.natAbs := by omega
    simp [minus, hz, show 0 ≤ z by omega, habs]

namespace IntegerText

variable {z : Int} {h : -0x8000000000000000 ≤ z ∧ z < 0x8000000000000000}
variable {mark : Option { c : Char // c = 'l' ∨ c = 'L' }}

theorem text_ofInt :
    (ofInt z h mark).text = (toString z).toList ++ mark.elim [] fun c => [c.1] := by
  rw [toList_toString]
  rfl

theorem toInt_ofInt : (ofInt z h mark).toInt = z := ofSigned_toDigits z

end IntegerText

theorem Written.int (k : Int32) :
    Written .operand (toString k.toInt).toList (.constant (.int k) .int) 0 := by
  have hlow := k.le_toInt
  have hhigh := k.toInt_lt
  refine ⟨.integer (.ofInt k.toInt (by omega) none), ?_, ?_, rfl⟩
  · rw [Phrase.text, IntegerText.text_ofInt, Option.elim_none, List.append_nil]
  · rw [Phrase.meaning, IntegerText.constant, IntegerText.toInt_ofInt, if_pos ⟨rfl, hlow, hhigh⟩,
      Int32.ofInt_toInt]

theorem Written.long (k : Int64) :
    Written .operand ((toString k.toInt).toList ++ ['L']) (.constant (.long k) .long) 0 := by
  refine ⟨.integer (.ofInt k.toInt ⟨k.le_toInt, k.toInt_lt⟩ (some ⟨'L', Or.inr rfl⟩)), ?_, ?_, rfl⟩
  · rw [Phrase.text, IntegerText.text_ofInt, Option.elim_some]
  · rw [Phrase.meaning, IntegerText.constant, IntegerText.toInt_ofInt,
      if_neg (by simp [IntegerText.ofInt]), Int64.ofInt_toInt]

/-- A printable value is displayed as a literal. -/
theorem Written.value {v : Value} (h : v.isPrintable = true) :
    Written .operand v.display.toList (.constant v v.naturalType) 0 := by
  cases v with
  | null => exact ⟨.null ⟨"NULL".toList, by decide⟩, rfl, rfl, rfl⟩
  | bool b =>
      have hword : lowerAscii (Value.bool b).display.toList = (toString b).toList ∧
          (toString b).toList ∈ reservedWords := by
        cases b <;> decide
      exact ⟨.truth b ⟨(Value.bool b).display.toList, hword⟩, rfl, rfl, rfl⟩
  | int k => exact Written.int k
  | long k => simpa [Value.display, Value.naturalType] using Written.long k
  | float x | double x => simp [Value.isPrintable] at h
  | string s =>
      have hfree : '\x27' ∉ s.toList := by simpa [Value.isPrintable] using h
      refine ⟨.quoted ⟨'\x27', s.toList, Or.inl rfl, hfree⟩, ?_, ?_, rfl⟩
      · simp [Phrase.text, QuotedText.text, Value.display]
      · simp [Phrase.meaning, Value.naturalType]

theorem Written.parameter (index : UInt64) (type : AttrType) :
    Written .operand (Expr.parameter index type).display.toList (.parameter index type) 0 := by
  have hspells : lowerAscii type.display.toList = type.name.toList := by cases type <;> decide
  have hindex : ofDigits (digitsOf index.toNat).1 = index.toNat := ofDigits_toDigits _
  have hfits : ofDigits (digitsOf index.toNat).1 < 0x10000000000000000 := by
    rw [hindex]
    exact index.toNat_lt
  refine ⟨.parameter ⟨digitsOf index.toNat, hfits⟩ (some ⟨type, type.display.toList, hspells⟩),
    ?_, ?_, rfl⟩
  · simp [Phrase.text, typeNote, Expr.display, digitsOf]
  · simp [Phrase.meaning, declared, hindex]

/-! ## Displayed trees -/

theorem allPrintable_iff {es : List Expr} :
    Expr.allPrintable es = true ↔ ∀ e ∈ es, e.isPrintable = true := by
  induction es with
  | nil => simp [Expr.allPrintable]
  | cons e es ih => simp [Expr.allPrintable, ih]

/-- The tree is displayed as a phrase: as a term, and as an operand unless it is bare. -/
structure Displayed (e : Expr) : Prop where
  /-- The text is that of a term. -/
  term : Written .term e.display.toList e e.nesting
  /-- The text of a tree that is not bare is that of an operand. -/
  operand : e.isBare = false → Written .operand e.display.toList e e.nesting

theorem Displayed.ofOperand {e : Expr} (h : Written .operand e.display.toList e e.nesting) :
    Displayed e :=
  ⟨h.term, fun _ => h⟩

theorem Displayed.ofBare {e : Expr} (h : Written .term e.display.toList e e.nesting)
    (hbare : e.isBare = true) : Displayed e :=
  ⟨h, fun hoperand => absurd hbare (by simp [hoperand])⟩

/-- Every printable tree is displayed as a phrase. -/
theorem displayed_of_isPrintable (e : Expr) (h : e.isPrintable = true) : Displayed e := by
  induction e using Expr.induct with
  | and l r ihl ihr =>
      simp only [Expr.isPrintable, Bool.and_eq_true] at h
      have hgroup := ((ihl h.1).term.and (ihr h.2).term).group
      exact .ofOperand (by simpa [Expr.display, Expr.nesting] using hgroup)
  | or l r ihl ihr =>
      simp only [Expr.isPrintable, Bool.and_eq_true] at h
      have hgroup := ((ihl h.1).term.or (ihr h.2).term).group
      exact .ofOperand (by simpa [Expr.display, Expr.nesting] using hgroup)
  | not e ih =>
      have hnot := (ih h).term.not
      exact .ofBare (by simpa [Expr.display, Expr.nesting] using hnot) rfl
  | compare l op r ihl ihr =>
      simp only [Expr.isPrintable, Bool.and_eq_true, Bool.not_eq_true'] at h
      have hleft := (ihl h.1.1).operand h.1.2
      have hright := (ihr h.2.1).operand h.2.2
      have hgroup := (hleft.compare op hright).group
      exact .ofOperand (by simpa [Expr.display, Expr.nesting] using hgroup)
  | isNull e stream ih =>
      simp only [Expr.isPrintable, Bool.and_eq_true, Bool.not_eq_true', Option.isNone_iff_eq_none]
        at h
      obtain ⟨⟨hprint, hbare⟩, rfl⟩ := h
      have hnull := ((ih hprint).operand hbare).isNull
      exact .ofBare (by simpa [Expr.display, Expr.nesting] using hnull) rfl
  | eventNull stream => simp [Expr.isPrintable] at h
  | member e store ih =>
      simp only [Expr.isPrintable, Bool.and_eq_true, Bool.not_eq_true'] at h
      have hmember := ((ih h.1.1).operand h.1.2).member h.2
      exact .ofBare (by simpa [Expr.display, Expr.nesting] using hmember) rfl
  | math l op r ihl ihr =>
      simp only [Expr.isPrintable, Bool.and_eq_true, Bool.not_eq_true'] at h
      have hleft := (ihl h.1.1).operand h.1.2
      have hright := (ihr h.2.1).operand h.2.2
      have hgroup := (hleft.math op hright).group
      exact .ofOperand (by simpa [Expr.display, Expr.nesting] using hgroup)
  | constant value type =>
      simp only [Expr.isPrintable, Bool.and_eq_true, beq_iff_eq] at h
      obtain ⟨hvalue, rfl⟩ := h
      have hliteral := Written.value hvalue
      exact .ofOperand (by simpa [Expr.display, Expr.nesting] using hliteral)
  | call space function args ih =>
      simp only [Expr.isPrintable, Bool.and_eq_true] at h
      have hargs : ∀ a ∈ args, Written .condition a.display.toList a a.nesting :=
        fun a ha => (ih a ha (allPrintable_iff.mp h.2 a ha)).term.condition
      exact .ofOperand (Written.call hargs h.1.1 h.1.2)
  | parameter index type => exact .ofOperand (Written.parameter index type)
  | eventField id stream attr type =>
      cases stream with
      | none => simp [Expr.isPrintable] at h
      | some stream =>
          simp only [Expr.isPrintable, Option.any_some, Bool.and_eq_true, beq_iff_eq] at h
          obtain ⟨⟨⟨hstream, rfl⟩, hattr⟩, rfl⟩ := h
          refine .ofOperand ⟨.field ⟨stream.toList, hstream⟩ ⟨attr.toList, hattr⟩ none, ?_, ?_, rfl⟩
          · simp [Phrase.text, typeNote, Expr.display]
          · simp [Phrase.meaning, declared]
  | column store attr type =>
      simp only [Expr.isPrintable, Bool.and_eq_true, beq_iff_eq, Option.isNone_iff_eq_none] at h
      obtain ⟨⟨rfl, hattr⟩, rfl⟩ := h
      refine .ofOperand ⟨.column ⟨attr.toList, hattr⟩ none, ?_, ?_, rfl⟩
      · simp [Phrase.text, typeNote, Expr.display]
      · simp [Phrase.meaning, declared]

/-- A printable tree that nests at most 64 levels deep is read back from its text. -/
theorem parse_display (e : Expr) (h : e.isPrintable = true) (hdepth : e.nesting ≤ 64) :
    parse e.display = .ok e := by
  obtain ⟨p, htext, rfl, hnesting⟩ := (displayed_of_isPrintable e h).term.condition
  have hlimit : p.nesting ≤ nestingLimit := by
    rw [hnesting]
    exact hdepth
  have hparse := parseChars_phrase p hlimit [] [] rfl rfl
  rwa [List.nil_append, List.append_nil, htext] at hparse

/-- A tree with the extreme integers, a negated null check as an argument, a call without
arguments and the last parameter. -/
def extremeTree : Expr :=
  .and
    (.compare
      (.math (.constant (.int (-2147483648)) .int) .sub
        (.constant (.long (-9223372036854775808)) .long)) .lte
      (.call (some "ns") "f"
        [.not (.isNull (.column none "android" .object) none), .call none "now" [],
          .parameter 18446744073709551615 .double]))
    (.member (.eventField "S.b" (some "S") "b" .object) "Store")

theorem parse_display_extremeTree :
    extremeTree.isPrintable = true ∧ extremeTree.nesting = 4 ∧
      parse extremeTree.display = .ok extremeTree := by
  have hprintable : extremeTree.isPrintable = true := by decide
  have hnesting : extremeTree.nesting = 4 := by decide
  exact ⟨hprintable, hnesting, parse_display extremeTree hprintable (by rw [hnesting]; decide)⟩

end Condition

end Pushdown
