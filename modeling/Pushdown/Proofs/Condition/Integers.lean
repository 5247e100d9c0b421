import Pushdown.Proofs.Condition.Composition
import Pushdown.Proofs.Condition.Failures

/-!
# Integers at and beyond the limits

An integer of any number of digits is parsed to the constant with exactly its value, if that fits in
64 bits, and the index of a parameter likewise. An integer that does not fit, and a long with a
fraction, is reported where it stands: alone, and also as the right operand of any operator, where a
shorter text without the operator would be a condition (`parse_integer_limits`).
-/

namespace Pushdown.Condition

open Text Number

variable {nested : Reader Expr} {cause : Fatal} {text : List Char}

/-- What a text is parsed to, or the error as reported. -/
def reported (text : List Char) : Except Error Expr :=
  (parse (String.ofList text)).mapError ParseError.toError

/-- An optional minus sign, digits and what is written behind them. -/
def signedText (negative : Bool) (ds : Digits) (tail : List Char) : List Char :=
  minus negative ++ (ds.1 ++ tail)

/-- The number is reported at its place, where it stands alone and where it is the right operand of
any operator behind any name. -/
structure Rejected (text : List Char) : Prop where
  /-- It is not read on its own. -/
  alone : reported text = .error (.parse 0 "Parse failed: Digit")
  /-- It is not left behind as an operand. -/
  operand : ∀ (s : Name) (op : Connective),
    reported (s.1 ++ ' ' :: (op.word.toList ++ ' ' :: text)) =
      .error (.parse (byteLength s.1 + 1 + byteLength op.word.toList + 1) "Parse failed: Digit")

/-! ## Numbers without a value -/

/-- The text is a number that is read to its end and has no value. -/
structure Valueless (text : List Char) : Prop where
  /-- A minus sign or a digit stands in front. -/
  first : ∃ c t, text = c :: t ∧ (c = '-' ∨ c.isDigit = true)
  /-- No gap stands at the end. -/
  ends : Ends text
  /-- The number is read and has no value. -/
  reads : ∀ r, Boundary r → ∃ n, literal (text ++ r) = some (n, r) ∧ n.value? = none

namespace Valueless

theorem starts (h : Valueless text) : Starts text := by
  obtain ⟨c, t, rfl, hfirst⟩ := h.first
  refine ⟨c, t, rfl, ?_⟩
  rcases hfirst with rfl | hdigit
  · decide
  · simp [isStart, isNameChar_of_isDigit hdigit]

theorem keyword_not (h : Valueless text) (r s : List Char) (_ : Boundary r)
    (hs : skipGap s = text ++ r) : keyword "not".toList s = none := by
  obtain ⟨c, t, rfl, hfirst⟩ := h.first
  apply keyword_number (by decide)
  rw [hs]
  exact ⟨c, rfl, hfirst⟩

/-- Where the number stands as an operand reading ends. -/
theorem breaks (h : Valueless text) : Breaks (operand nested) .numberRange .operand [] text := by
  intro r s hr hs
  rw [List.nil_append] at hs
  obtain ⟨n, hread, hvalue⟩ := h.reads r hr.boundary
  have hgroup : group nested (text ++ r) = .miss .noSign (text ++ r) := by
    obtain ⟨c, t, rfl, hfirst⟩ := h.first
    apply group_miss
    rintro d hd rfl
    simp only [List.cons_append, List.head?_cons, Option.mem_some_iff] at hd
    subst hd
    rcases hfirst with hminus | hdigit
    · exact absurd hminus (by decide)
    · exact absurd hdigit (by decide)
  have hnumber : number (text ++ r) = .fail .numberRange (text ++ r) := by
    simp only [number, hread, hvalue]
  rw [operand, hs, bareOperand, hgroup, Outcome.orElse_miss, hnumber, Outcome.orElse_fail]

end Valueless

section Literals

variable (negative : Bool) (ds : Digits)

/-- Digits with a tail are a number without a value, if what is read of them has none. -/
theorem valueless_signedText {tail : List Char} (htail : tail = [] ∨ Ends tail)
    (hreads : ∀ r, Boundary r →
      ∃ n, literal (signedText negative ds tail ++ r) = some (n, r) ∧ n.value? = none) :
    Valueless (signedText negative ds tail) := by
  obtain ⟨ds, hne, hds⟩ := ds
  refine ⟨?_, ?_, hreads⟩
  · cases negative with
    | true => exact ⟨'-', ds ++ tail, rfl, Or.inl rfl⟩
    | false =>
        obtain ⟨c, hc, hdigit⟩ := head?_append_digits hne (List.all_eq_true.mp hds) tail
        obtain ⟨t, ht⟩ := List.head?_eq_some_iff.mp hc
        exact ⟨c, t, ht, Or.inr hdigit⟩
  · rcases htail with rfl | htail
    · rw [signedText, List.append_nil]
      exact (ends_digits ⟨ds, hne, hds⟩).append _
    · exact (htail.append _).append _

theorem toInt64?_of_not_fits {n : Int} (h : ¬ FitsLong n) : toInt64? n = none := if_neg h

theorem toInt32?_of_not_fits {n : Int} (h : ¬ FitsLong n) : toInt32? n = none := by
  apply if_neg
  intro hint
  apply h
  constructor <;> omega

theorem valueless_unmarked (h : ¬ FitsLong (ofSigned negative ds.1)) :
    Valueless (signedText negative ds []) := by
  apply valueless_signedText negative ds (Or.inl rfl)
  intro r hr
  refine ⟨⟨negative, ds.1, none, none⟩, ?_, ?_⟩
  · simpa [signedText] using literal_unmarked negative ds.2.1 (List.all_eq_true.mp ds.2.2) hr
  · simp [Literal.value?, Literal.toInt, toInt32?_of_not_fits h, toInt64?_of_not_fits h]

variable (mark : { c : Char // c = 'l' ∨ c = 'L' })

theorem ends_mark : Ends [mark.1] := by
  refine ⟨[], mark.1, rfl, ?_⟩
  rcases mark.2 with h | h <;> rw [h] <;> decide

theorem valueless_marked (h : ¬ FitsLong (ofSigned negative ds.1)) :
    Valueless (signedText negative ds [mark.1]) := by
  apply valueless_signedText negative ds (Or.inr (ends_mark mark))
  intro r _
  refine ⟨⟨negative, ds.1, none, some .long⟩, ?_, ?_⟩
  · simpa [signedText] using literal_long negative ds.2.1 (List.all_eq_true.mp ds.2.2) mark.2 r
  · simp [Literal.value?, Literal.toInt, toInt64?_of_not_fits h]

/-- A long with a fraction has no value, whatever its digits are. -/
theorem valueless_pointed (fraction : Digits) :
    Valueless (signedText negative ds ('.' :: (fraction.1 ++ [mark.1]))) := by
  apply valueless_signedText negative ds (Or.inr ((ends_mark mark).append ('.' :: fraction.1)))
  intro r _
  refine ⟨⟨negative, ds.1, some fraction.1, some .long⟩, ?_, rfl⟩
  have hmark : mark.1 ≠ '.' ∧ mark.1.isDigit = false := by
    rcases mark.2 with h | h <;> rw [h] <;> decide
  have hfraction : Condition.fraction (pointed (some fraction.1) ++ mark.1 :: r) =
      (some fraction.1, mark.1 :: r) := by
    apply fraction_pointed
    · intro places hplaces
      rw [← Option.some.inj hplaces]
      exact fraction.2
    · simpa using hmark
  have hread := literal_minus (r := pointed (some fraction.1) ++ mark.1 :: r) negative ds.2.1
    (List.all_eq_true.mp ds.2.2) (by simp [pointed])
  rw [hfraction] at hread
  simpa [signedText, pointed, Condition.mark, Mark.ofChar?, mark.2] using hread

end Literals

/-! ## Failing operands behind an operator -/

section Joined

variable {left right : List Char} {a : Expr} {budget : Nat}

/-- What starts with an operand and fails behind a space as a predicate fails as a condition. -/
theorem OperandText.breaks (h : OperandText budget left a) {tail behind : List Char}
    (hpredicate : Breaks (predicate (alternatives (Condition.term budget))) cause .predicate
      (left ++ ' ' :: tail) behind) :
    Breaks (alternatives (Condition.term (budget + 1))) cause .condition (left ++ ' ' :: tail)
      behind := by
  have hterm := breaks_positive hpredicate fun r s _ hs => by
    rw [List.append_assoc] at hs
    exact h.keyword_not _ s (boundary_space oneSpace (tail ++ (behind ++ r))) hs
  exact breaks_condition hterm

/-- An operand that fails in front and is no negation fails as a term. -/
theorem breaks_term
    (hright : Breaks (operand (alternatives (term budget))) cause .operand [] right)
    (hnot : ∀ r s, Boundary r → skipGap s = right ++ r → keyword "not".toList s = none) :
    Breaks (term (budget + 1)) cause .term [] right := by
  have hsum : Breaks (sum (alternatives (term budget))) cause .operand [] right :=
    Breaks.first (Breaks.first hright)
  exact breaks_positive ((breaks_predicate (breaks_comparison hsum)).mono (by decide)) hnot

/-- A text fails in the operand behind an operator, and is not cut down to what is before the
operator. -/
theorem breaks_joined (c : Connective) (hleft : OperandText budget left a)
    (hright : Breaks (operand (alternatives (term budget))) cause .operand [] right)
    (hstart : Starts right)
    (hnot : ∀ r s, Boundary r → skipGap s = right ++ r → keyword "not".toList s = none) :
    Breaks (alternatives (term (budget + 1))) cause .condition
      (left ++ ' ' :: (c.word.toList ++ [' '])) right := by
  have hproduct : Breaks (product (alternatives (term budget))) cause .operand [] right :=
    hright.first
  have hsum : Breaks (sum (alternatives (term budget))) cause .operand [] right := hproduct.first
  have hterm := breaks_term hright hnot
  cases c with
  | and =>
      let word : Spelling "and" := ⟨"and".toList, by decide⟩
      have hsep := separates_word (l := .term) word rfl (by decide) hstart oneSpace oneSpace .and
      have hchain := hterm.next (Chained.single hleft.term.accepts) hstart hsep
      exact (Breaks.first hchain).mono (by decide)
  | or =>
      let word : Spelling "or" := ⟨"or".toList, by decide⟩
      have hsep :=
        separates_word (l := .conjunction) word rfl (by decide) hstart oneSpace oneSpace .or
      have hfirst := accepts_conjunction (Chained.single hleft.term.accepts)
      have hchain :=
        (hterm.first.mono (by decide)).next (Chained.single hfirst) hstart hsep
      exact hchain.mono (by decide)
  | compare sign =>
      have hcompare := breaks_compare (hsum.mono (by decide)) hleft.sum hstart oneGap sign oneGap
      apply hleft.breaks
      simpa [oneGap, Connective.word] using (breaks_predicate hcompare).mono (by decide)
  | math op =>
      apply hleft.breaks
      refine breaks_predicate (breaks_comparison ?_)
      have hspelled : op.symbol ∈ sumSpellings op ∨ op.symbol ∈ productSpellings op := by
        cases op <;> decide
      rcases hspelled with hop | hop
      · have hsep := separates_sum hstart oneGap ⟨op, op.symbol, hop⟩ oneGap
        have hfirst := accepts_product (Chained.single hleft.accepts)
        have hchain := (hproduct.mono (by decide)).next (Chained.single hfirst) hstart hsep
        simpa [oneGap, Connective.word, sum] using hchain.mono (by decide)
      · have hsep := separates_product hstart oneGap ⟨op, op.symbol, hop⟩ oneGap
        have hchain := hright.next (Chained.single hleft.accepts) hstart hsep
        simpa [oneGap, Connective.word, sum, product] using (Breaks.first hchain).mono (by decide)

end Joined

/-! ## Whole texts -/

/-- An operand on its own is a condition. -/
def Phrase.ofOperand (p : Phrase .operand) : Phrase .condition :=
  .conjunction (.term (.predicate (.comparison (.sum (.product (.operand p))))))

theorem reported_operand (p : Phrase .operand) (h : p.nesting = 0) :
    reported p.text = .ok p.meaning := by
  have hparse := parseChars_phrase p.ofOperand (h.trans_le (Nat.zero_le _)) [] [] rfl rfl
  rw [List.nil_append, List.append_nil] at hparse
  rw [reported, parse, String.toList_ofList]
  exact congrArg (Except.mapError ParseError.toError) hparse

theorem reported_of_breaks {before behind : List Char}
    (h : Breaks (alternatives (term (nestingLimit + 1))) .numberRange .condition before behind)
    (hstarts : Starts (before ++ behind)) (hends : Ends (before ++ behind)) :
    reported (before ++ behind) = .error (.parse (byteLength before) "Parse failed: Digit") := by
  have hread := h.here hstarts (follow_nil .condition)
  rw [List.append_nil, List.append_nil, ← condition] at hread
  have hparse := parseChars_of_fail [] [] rfl rfl hstarts hends hread
  rw [List.nil_append, List.append_nil, byteLength, Nat.zero_add] at hparse
  rw [reported, parse, String.toList_ofList, hparse]
  rfl

/-- A name is read as a column. -/
theorem operandText_name (budget : Nat) (s : Name) :
    OperandText budget s.1 (.column none (String.ofList s.1) .object) := by
  let p : Phrase .operand := .column s none
  have htext : p.text = s.1 := List.append_nil s.1
  have hoperand : OperandText budget p.text p.meaning :=
    ⟨p.starts rfl, p.ends rfl, p.keyword_not rfl, reads_of_nesting p budget (Nat.zero_le budget)⟩
  rwa [htext] at hoperand

/-- A number without a value is reported wherever it stands. -/
theorem Valueless.rejected (h : Valueless text) : Rejected text := by
  constructor
  · have hterm : Breaks (term (nestingLimit + 1)) .numberRange .term [] text :=
      breaks_term h.breaks h.keyword_not
    have hreport := reported_of_breaks (breaks_condition hterm) h.starts h.ends
    rwa [List.nil_append, byteLength] at hreport
  · intro s op
    have hleft := operandText_name nestingLimit s
    have hbreaks := breaks_joined op hleft h.breaks h.starts h.keyword_not
    have hreport := reported_of_breaks hbreaks ((hleft.starts.append _).append _)
      (h.ends.append _)
    have hspace : byteLength [' '] = 1 := by decide
    have hposition : byteLength (s.1 ++ ' ' :: (op.word.toList ++ [' '])) =
        byteLength s.1 + 1 + byteLength op.word.toList + 1 := by
      rw [byteLength_append, ← List.singleton_append, byteLength_append, byteLength_append, hspace]
      omega
    rw [hposition] at hreport
    simpa using hreport

/-- The index of a parameter that does not fit is reported like an operand that is missing. -/
theorem reported_index (ds : Digits) (h : ¬ ofDigits ds.1 < 0x10000000000000000) :
    reported ('$' :: ds.1) = .error (.parse 0 "Parse failed: Satisfy") := by
  have hskip : skipGap ('$' :: ds.1) = '$' :: ds.1 := skipGap_cons (by decide) ds.1
  have hindex : toUInt64? (ofDigits ds.1) = none := if_neg h
  have hdigits := digits_append (r := []) ds.2.1 (List.all_eq_true.mp ds.2.2) (by simp)
  rw [List.append_nil] at hdigits
  have hparameter : parameter ('$' :: ds.1) = .miss .indexRange ds.1 := by
    simp [parameter, parameterMiss, hdigits, hindex, Outcome.ofOption]
  have hname : name ('$' :: ds.1) = none := name_eq_none (by simpa using by decide)
  have hread : condition ('$' :: ds.1) = .miss .noOperand ('$' :: ds.1) := by
    apply alternatives_miss
    · apply keyword_of_mark (by decide)
      rw [hskip]
      simpa using by decide
    · rw [operand, hskip, bareOperand_dollar, hparameter, Outcome.orElse_miss]
      simp [call, callHead, field, column, hname, Outcome.ofOption, nameMiss]
      decide
  have hstarts : Starts ('$' :: ds.1) := ⟨'$', ds.1, rfl, by decide⟩
  have hparse := parseChars_of_edges [] [] rfl rfl hstarts ((ends_digits ds).append ['$'])
  rw [List.nil_append, List.append_nil, hread] at hparse
  rw [reported, parse, String.toList_ofList, hparse]
  simp only [Nat.add_sub_cancel]
  rfl

/-- An integer that fits in 64 bits is parsed to its constant. -/
theorem reported_integer (negative : Bool) (ds : Digits)
    (mark : Option { c : Char // c = 'l' ∨ c = 'L' })
    (h : FitsLong (ofSigned negative ds.1)) :
    reported (signedText negative ds (mark.elim [] fun c => [c.1])) =
      .ok (IntegerText.mk negative ds mark h).constant := by
  have hreport := reported_operand (.integer ⟨negative, ds, mark, h⟩) rfl
  rw [signedText, ← List.append_assoc]
  exact hreport

/-- An integer of any number of digits, with zeros in front or without, is parsed to the `int` of
its value if that fits in 32 bits, and otherwise to the `long` of its value if that fits in 64 bits.
A mark makes it a `long` in either case. One that does not fit is rejected, and so is every long
with a fraction. The index of a parameter is exact below the 64-bit limit and an error from there
on. -/
theorem parse_integer_limits (negative : Bool) (ds fraction : Digits)
    (mark : { c : Char // c = 'l' ∨ c = 'L' }) :
    (FitsInt (ofSigned negative ds.1) → ∃ n : Int32, n.toInt = ofSigned negative ds.1 ∧
        reported (signedText negative ds []) = .ok (.constant (.int n) .int)) ∧
      (¬ FitsInt (ofSigned negative ds.1) → FitsLong (ofSigned negative ds.1) →
        ∃ n : Int64, n.toInt = ofSigned negative ds.1 ∧
          reported (signedText negative ds []) = .ok (.constant (.long n) .long)) ∧
      (FitsLong (ofSigned negative ds.1) → ∃ n : Int64, n.toInt = ofSigned negative ds.1 ∧
        reported (signedText negative ds [mark.1]) = .ok (.constant (.long n) .long)) ∧
      (¬ FitsLong (ofSigned negative ds.1) →
        Rejected (signedText negative ds []) ∧ Rejected (signedText negative ds [mark.1])) ∧
      Rejected (signedText negative ds ('.' :: (fraction.1 ++ [mark.1]))) ∧
      (ofDigits ds.1 < 0x10000000000000000 → ∃ i : UInt64, i.toNat = ofDigits ds.1 ∧
        reported ('$' :: ds.1) = .ok (.parameter i .object)) ∧
      (¬ ofDigits ds.1 < 0x10000000000000000 →
        reported ('$' :: ds.1) = .error (.parse 0 "Parse failed: Satisfy")) := by
  refine ⟨fun hint => ?_, fun hwide hlong => ?_, fun hlong => ?_, fun hout => ?_,
    (valueless_pointed negative ds mark fraction).rejected, fun hindex => ?_, reported_index ds⟩
  · have hlong : FitsLong (ofSigned negative ds.1) := by
      obtain ⟨hlow, hhigh⟩ := hint
      constructor <;> omega
    have hconstant : IntegerText.constant ⟨negative, ds, none, hlong⟩ = _ :=
      if_pos ⟨rfl, hint⟩
    have hreport := reported_integer negative ds none hlong
    rw [hconstant] at hreport
    exact ⟨_, Int32.toInt_ofInt_of_le hint.1 hint.2, hreport⟩
  · have hconstant : IntegerText.constant ⟨negative, ds, none, hlong⟩ = _ :=
      if_neg fun h => hwide h.2
    have hreport := reported_integer negative ds none hlong
    rw [hconstant] at hreport
    exact ⟨_, Int64.toInt_ofInt_of_le hlong.1 hlong.2, hreport⟩
  · have hconstant : IntegerText.constant ⟨negative, ds, some mark, hlong⟩ = _ :=
      if_neg (by simp)
    have hreport := reported_integer negative ds (some mark) hlong
    rw [hconstant] at hreport
    exact ⟨_, Int64.toInt_ofInt_of_le hlong.1 hlong.2, hreport⟩
  · exact ⟨(valueless_unmarked negative ds hout).rejected,
      (valueless_marked negative ds mark hout).rejected⟩
  · have hreport := reported_operand (.parameter ⟨ds, hindex⟩ none) rfl
    rw [Phrase.text, typeNote, Option.elim_none, List.append_nil] at hreport
    exact ⟨_, UInt64.toNat_ofNat_of_lt hindex, hreport⟩

/-- The first integer beyond the 64-bit range. -/
def beyondLong : Digits := ⟨"9223372036854775808".toList, by decide⟩

/-- The smallest `int` with zeros in front of its digits. -/
def paddedInt : Digits := ⟨"0002147483648".toList, by decide⟩

/-- The first index beyond the 64-bit range. -/
def beyondIndex : Digits := ⟨"18446744073709551616".toList, by decide⟩

theorem parse_integer_limits_edges :
    reported "-0002147483648".toList = .ok (.constant (.int (-2147483648)) .int) ∧
      reported "-9223372036854775808".toList =
        .ok (.constant (.long (-9223372036854775808)) .long) ∧
      reported "-9223372036854775808l".toList =
        .ok (.constant (.long (-9223372036854775808)) .long) ∧
      reported "a <> 9223372036854775808".toList = .error (.parse 5 "Parse failed: Digit") ∧
      reported "$9223372036854775808".toList = .ok (.parameter 9223372036854775808 .object) ∧
      reported "$18446744073709551616".toList = .error (.parse 0 "Parse failed: Satisfy") := by
  let mark : { c : Char // c = 'l' ∨ c = 'L' } := ⟨'l', by decide⟩
  let unequal : Connective := .compare ⟨.ne, "<>", by decide⟩
  obtain ⟨hint, -⟩ := parse_integer_limits true paddedInt paddedInt mark
  obtain ⟨-, hwide, hlong, -⟩ := parse_integer_limits true beyondLong paddedInt mark
  obtain ⟨-, -, -, hout, -, hindex, -⟩ := parse_integer_limits false beyondLong paddedInt mark
  obtain ⟨-, -, -, -, -, -, hrange⟩ := parse_integer_limits false beyondIndex paddedInt mark
  obtain ⟨a, ha, hread⟩ := hint ⟨by decide, by decide⟩
  obtain rfl : a = -2147483648 := Int32.toInt.inj (ha.trans (by decide))
  obtain ⟨b, hb, hwide⟩ := hwide (fun h => absurd h.1 (by decide)) ⟨by decide, by decide⟩
  obtain rfl : b = -9223372036854775808 := Int64.toInt.inj (hb.trans (by decide))
  obtain ⟨c, hc, hlong⟩ := hlong ⟨by decide, by decide⟩
  obtain rfl : c = -9223372036854775808 := Int64.toInt.inj (hc.trans (by decide))
  obtain ⟨i, hi, hindex⟩ := hindex (by decide)
  obtain rfl : i = 9223372036854775808 := UInt64.toNat.inj (hi.trans (by decide))
  have hright := (hout fun h => absurd h.2 (by decide)).1.operand ⟨['a'], by decide⟩ unequal
  have htext : ['a'] ++ ' ' :: ("<>".toList ++ ' ' :: signedText false beyondLong []) =
      "a <> 9223372036854775808".toList := by decide
  have hposition : byteLength ['a'] + 1 + byteLength "<>".toList + 1 = 5 := by decide
  rw [show unequal.word = "<>" from rfl, htext, hposition] at hright
  exact ⟨hread, hwide, hlong, hright, hindex, hrange (by decide)⟩

end Pushdown.Condition
