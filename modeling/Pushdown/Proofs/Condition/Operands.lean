import Pushdown.Proofs.Condition.Follow

/-!
# Reading operands

An operand is read by the first alternative that does not miss. For each form of operand, the
alternatives before its own miss on its text, and its own gives the meaning. Most of them miss
on the first character; the three forms that start with a name share `bareOperand_name` and are
told apart by what stands behind the name.
-/

namespace Pushdown.Condition

open Text Number

variable {nested : Reader Expr} {r s t w : List Char} {c : Char}

/-! ## Alternatives that miss -/

theorem group_miss (h : ∀ c ∈ s.head?, c ≠ '(') : group nested s = .miss .noSign s := by
  simp [group, expect_eq_none h]

theorem number_miss (h : ∀ c ∈ s.head?, c ≠ '-' ∧ c.isDigit = false) :
    number s = .miss .noDigit s := by
  have hsign : expect '-' s = none := expect_eq_none fun c hc => (h c hc).1
  have hdigits : digits s = none := digits_eq_none fun c hc => (h c hc).2
  simp [number, literal, hsign, hdigits]

theorem text_miss (h : ∀ c ∈ s.head?, c ≠ '\x27' ∧ c ≠ '"') : text s = .miss .noSign s := by
  have hsingle : quotedBy '\x27' s = none := quotedBy_eq_none fun c hc => (h c hc).1
  have hdouble : quotedBy '"' s = none := quotedBy_eq_none fun c hc => (h c hc).2
  have hquote : expect '"' s = none := expect_eq_none fun c hc => (h c hc).2
  simp [text, quoted, quotedMiss, hsingle, hdouble, hquote, Outcome.ofOption]

theorem wordConstant_miss {word : List Char} (h : keyword word s = none) (value : Value) :
    wordConstant word value s = .miss (keywordMiss word s).1 (keywordMiss word s).2 := by
  simp [wordConstant, h, Outcome.ofOption]

/-- Where no reserved word stands, none of the constants that are words is read. -/
theorem wordConstants_miss (h : ∀ word ∈ reservedWords, keyword word s = none)
    (next : Unit → Outcome Expr) :
    ((wordConstant "true".toList (.bool true) s).orElse fun _ =>
      (wordConstant "false".toList (.bool false) s).orElse fun _ =>
      (wordConstant "null".toList .null s).orElse next) = next () := by
  rw [wordConstant_miss (h _ (by decide)), Outcome.orElse_miss,
    wordConstant_miss (h _ (by decide)), Outcome.orElse_miss,
    wordConstant_miss (h _ (by decide)), Outcome.orElse_miss]

theorem parameter_miss (h : ∀ c ∈ s.head?, c ≠ '$') : parameter s = .miss .noSign s := by
  simp [parameter, parameterMiss, expect_eq_none h, Outcome.ofOption]

/-- A character that none of the signs and numbers of operands starts with. -/
def isWordStart (c : Char) : Bool :=
  !c.isDigit && !(['(', '-', '$', '\x27', '"'].contains c)

/-- Where a word stands, only words and names are left to choose from. -/
theorem bareOperand_word (h : ∀ c ∈ s.head?, isWordStart c = true) :
    bareOperand nested s =
      ((wordConstant "true".toList (.bool true) s).orElse fun _ =>
        (wordConstant "false".toList (.bool false) s).orElse fun _ =>
        (wordConstant "null".toList .null s).orElse fun _ =>
        (call nested s).orElse fun _ => (field s).orElse fun _ => column s) := by
  have hmarks : ∀ c ∈ s.head?, c.isDigit = false ∧
      c ≠ '(' ∧ c ≠ '-' ∧ c ≠ '$' ∧ c ≠ '\x27' ∧ c ≠ '"' := by
    intro c hc
    simpa [isWordStart] using h c hc
  have hgroup : group nested s = .miss .noSign s := group_miss fun c hc => (hmarks c hc).2.1
  have hnumber : number s = .miss .noDigit s :=
    number_miss fun c hc => ⟨(hmarks c hc).2.2.1, (hmarks c hc).1⟩
  have htext : text s = .miss .noSign s := text_miss fun c hc => (hmarks c hc).2.2.2.2
  have hparameter : parameter s = .miss .noSign s :=
    parameter_miss fun c hc => (hmarks c hc).2.2.2.1
  simp [bareOperand, hgroup, hnumber, htext, hparameter]

theorem isWordStart_of_isNameStart (h : isNameStart c = true) : isWordStart c = true := by
  have hdigit : c.isDigit = false := by
    cases hdigit : c.isDigit with
    | false => rfl
    | true =>
        rw [isNameStart_of_isDigit hdigit] at h
        exact h.symm
  have hmarks : ∀ m ∈ ['(', '-', '$', '\x27', '"'], isNameStart m = false :=
    forall_mem_of_all (by decide)
  have hfree : c ∉ ['(', '-', '$', '\x27', '"'] := by
    intro hc
    rw [hmarks c hc] at h
    exact absurd h (by decide)
  simpa [isWordStart, hdigit] using hfree

/-! ## Groups, numbers, strings and parameters -/

/-- An operand is accepted if it is accepted where no gap stands before it. -/
theorem accepts_operand {text : List Char} {value : Expr}
    (h : ∀ r, Follow .operand r →
      ∃ rest, Leaves r rest ∧ bareOperand nested (text ++ r) = .ok value rest) :
    Accepts (operand nested) text value .operand := by
  intro r s hr hs
  obtain ⟨rest, hrest, hread⟩ := h r hr
  exact ⟨rest, hrest, by rw [operand, hs, hread]⟩

theorem accepts_group {text : List Char} {value : Expr}
    (h : Accepts nested text value .condition) (hskip : ∀ r, skipGap (text ++ r) = text ++ r)
    (before after : Gap) :
    Accepts (operand nested) ('(' :: (before.1 ++ text ++ after.1 ++ [')'])) value .operand := by
  refine accepts_operand fun r _ => ⟨r, Leaves.all r, ?_⟩
  have hclose : skipGap (after.1 ++ ')' :: r) = ')' :: r := by
    rw [skipGap_append after.2, skipGap_cons (by decide)]
  obtain ⟨rest, hrest, hread⟩ := h (after.1 ++ ')' :: r)
    (before.1 ++ (text ++ (after.1 ++ ')' :: r)))
    (follow_of_mark hclose (by decide) (by decide))
    (by rw [skipGap_append before.2, hskip])
  have hend : expectAfterGap ')' rest = some r := by
    simp [expectAfterGap, hrest.skipGap_eq, hclose]
  simp [bareOperand, group, hread, hend]

/-- The number that is written has a value, and the integer is its constant. -/
theorem IntegerText.exists_value (n : IntegerText) :
    ∃ value, Literal.value? ⟨n.negative, n.digits.1, none, n.mark.map fun _ => .long⟩ =
      some value ∧ n.constant = .literal value := by
  have hlong : toInt64? n.toInt = some (Int64.ofInt n.toInt) := if_pos n.fits
  cases hmark : n.mark with
  | some c =>
      refine ⟨.long (Int64.ofInt n.toInt), congrArg (Option.map Value.long) hlong, ?_⟩
      exact if_neg (by simp [hmark])
  | none =>
      have hread : Literal.value? ⟨n.negative, n.digits.1, none, none⟩ =
          ((toInt32? n.toInt).map Value.int).or ((toInt64? n.toInt).map Value.long) := rfl
      by_cases hsmall : -0x80000000 ≤ n.toInt ∧ n.toInt < 0x80000000
      · have hint : toInt32? n.toInt = some (Int32.ofInt n.toInt) := if_pos hsmall
        refine ⟨.int (Int32.ofInt n.toInt), ?_, if_pos ⟨hmark, hsmall⟩⟩
        rw [Option.map_none, hread, hint]
        rfl
      · have hint : toInt32? n.toInt = none := if_neg hsmall
        refine ⟨.long (Int64.ofInt n.toInt), ?_, if_neg fun h => hsmall h.2⟩
        rw [Option.map_none, hread, hint, hlong]
        rfl

theorem IntegerText.literal_text (n : IntegerText) (hr : Boundary r) :
    literal (n.text ++ r) =
      some (⟨n.negative, n.digits.1, none, n.mark.map fun _ => .long⟩, r) := by
  obtain ⟨negative, ⟨ds, hne, hds⟩, mark, hfits⟩ := n
  rw [List.all_eq_true] at hds
  cases mark with
  | none => simpa [text, minus] using literal_unmarked negative hne hds hr
  | some c => simpa [text, minus] using literal_long negative hne hds c.2 r

theorem IntegerText.head?_text (n : IntegerText) (r : List Char) :
    ∃ c, (n.text ++ r).head? = some c ∧ (c = '-' ∨ c.isDigit = true) := by
  obtain ⟨negative, ⟨ds, hne, hds⟩, mark, hfits⟩ := n
  rw [List.all_eq_true] at hds
  cases negative
  · obtain ⟨c, hc, hdigit⟩ :=
      head?_append_digits hne hds ((mark.elim [] fun c => [c.1]) ++ r)
    exact ⟨c, by simpa [text] using hc, Or.inr hdigit⟩
  · exact ⟨'-', by simp [text], Or.inl rfl⟩

/-- No word with a letter in front is read where a number stands. -/
theorem keyword_number {x : Char} {xs : List Char} (hx : 0x61 ≤ x.toNat ∧ x.toNat ≤ 0x7A)
    (hfirst : ∃ c, (skipGap s).head? = some c ∧ (c = '-' ∨ c.isDigit = true)) :
    keyword (x :: xs) s = none := by
  refine keyword_of_head fun c hc hlower => ?_
  have halpha : isAlphabetic c = true := isAlphabetic_of_toLower (by rwa [hlower])
  have hletter : isNameStart c = true := by simp [isNameStart, halpha]
  obtain ⟨d, hd, hfirst⟩ := hfirst
  rw [hd, Option.mem_some_iff] at hc
  subst hc
  rcases hfirst with rfl | hdigit
  · exact absurd hletter (by decide)
  · rw [isNameStart_of_isDigit hdigit] at hletter
    exact absurd hletter (by decide)

theorem IntegerText.keyword_letter (n : IntegerText) {x : Char} {xs : List Char}
    (hx : 0x61 ≤ x.toNat ∧ x.toNat ≤ 0x7A) (hs : skipGap s = n.text ++ r) :
    keyword (x :: xs) s = none :=
  keyword_number hx (hs ▸ n.head?_text r)

theorem accepts_integer (n : IntegerText) :
    Accepts (operand nested) n.text n.constant .operand := by
  refine accepts_operand fun r hr => ⟨r, Leaves.all r, ?_⟩
  have hgroup : group nested (n.text ++ r) = .miss .noSign (n.text ++ r) := by
    obtain ⟨c, hc, hfirst⟩ := n.head?_text r
    refine group_miss fun d hd => ?_
    rw [Option.mem_def, hc, Option.some.injEq] at hd
    rintro rfl
    rcases hfirst with rfl | hdigit
    · exact absurd hd (by decide)
    · exact absurd (hd ▸ hdigit) (by decide)
  obtain ⟨value, hvalue, hconstant⟩ := n.exists_value
  have hnumber : number (n.text ++ r) = .ok n.constant r := by
    simp [number, n.literal_text hr.boundary, hvalue, hconstant]
  simp [bareOperand, hgroup, hnumber]

theorem quoted_append (q : QuotedText) (r : List Char) :
    quoted (q.text ++ r) = some (q.body, r) := by
  obtain ⟨quote, body, hquote, hfree⟩ := q
  rcases hquote with rfl | rfl
  · simp [quoted, QuotedText.text, quotedBy_append hfree]
  · have hsingle : quotedBy '\x27' ('"' :: (body ++ '"' :: r)) = none :=
      quotedBy_eq_none (by simp)
    simp [quoted, QuotedText.text, hsingle, quotedBy_append hfree]

theorem accepts_quoted (q : QuotedText) :
    Accepts (operand nested) q.text (.constant (.string (String.ofList q.body)) .string)
      .operand := by
  refine accepts_operand fun r _ => ⟨r, Leaves.all r, ?_⟩
  have hhead : ∀ c ∈ (q.text ++ r).head?, c = '\x27' ∨ c = '"' := by
    simpa [QuotedText.text] using q.isQuote
  have hgroup : group nested (q.text ++ r) = .miss .noSign (q.text ++ r) := by
    refine group_miss fun c hc => ?_
    rcases hhead c hc with rfl | rfl <;> decide
  have hnumber : number (q.text ++ r) = .miss .noDigit (q.text ++ r) := by
    refine number_miss fun c hc => ?_
    rcases hhead c hc with rfl | rfl <;> decide
  simp [bareOperand, hgroup, hnumber, text, quoted_append, Outcome.ofOption, Expr.literal,
    Value.naturalType]

/-- A type is read where one is written, and otherwise there is none. -/
theorem typeAfter_typeNote (more : List Char) (type : Option TypeText) (hr : Boundary r) :
    typeAfter (':' :: more) (typeNote (':' :: more) type ++ r) = (declared type, r) := by
  cases type with
  | some type =>
      have hread : typeAfter (':' :: more) (':' :: more ++ (type.letters ++ r)) = (type.type, r) :=
        typeAfter_append type.spells hr.isAlphabetic
      simpa [typeNote, declared] using hread
  | none => exact typeAfter_none fun c hc => (hr c hc).2.2

theorem head?_typeNote (more : List Char) (type : Option TypeText) (hr : Boundary r) :
    ∀ c ∈ (typeNote (':' :: more) type ++ r).head?, isNameChar c = false ∧ c ≠ '.' := by
  cases type with
  | some type => simpa [typeNote] using by decide
  | none => exact fun c hc => ⟨(hr c hc).1, (hr c hc).2.1⟩

/-- Where a dollar sign stands, only parameters and what starts with a name are left to choose
from. -/
theorem bareOperand_dollar (t : List Char) :
    bareOperand nested ('$' :: t) =
      ((parameter ('$' :: t)).orElse fun _ => (call nested ('$' :: t)).orElse fun _ =>
        (field ('$' :: t)).orElse fun _ => column ('$' :: t)) := by
  have hgroup : group nested ('$' :: t) = .miss .noSign _ := group_miss (by simp)
  have hnumber : number ('$' :: t) = .miss .noDigit _ := number_miss (by simp)
  have htext : text ('$' :: t) = .miss .noSign _ := text_miss (by simp)
  have hskip : skipGap ('$' :: t) = '$' :: t := skipGap_cons (by decide) t
  have hwords : ∀ word ∈ reservedWords, keyword word ('$' :: t) = none := by
    intro word hword
    apply keyword_of_mark hword
    rw [hskip]
    simpa using by decide
  rw [bareOperand, hgroup, Outcome.orElse_miss, hnumber, Outcome.orElse_miss, htext,
    Outcome.orElse_miss, wordConstants_miss hwords]

/-- Where a dollar sign stands, a parameter that is read is the operand. -/
theorem bareOperand_parameter {e : Expr} {rest : List Char}
    (h : parameter ('$' :: t) = .ok e rest) : bareOperand nested ('$' :: t) = .ok e rest := by
  rw [bareOperand_dollar, h, Outcome.orElse_ok]

theorem accepts_parameter (index : IndexText) (type : Option TypeText) :
    Accepts (operand nested) ('$' :: (index.digits.1 ++ typeNote [':'] type))
      (.parameter (UInt64.ofNat (ofDigits index.digits.1)) (declared type)) .operand := by
  refine accepts_operand fun r hr => ⟨r, Leaves.all r, ?_⟩
  obtain ⟨⟨ds, hne, hds⟩, hfits⟩ := index
  rw [List.all_eq_true] at hds
  have hend : ∀ c ∈ (typeNote [':'] type ++ r).head?, c.isDigit = false := by
    intro c hc
    have hname := (head?_typeNote [] type hr.boundary c hc).1
    cases hdigit : c.isDigit with
    | false => rfl
    | true => rw [← hname, isNameChar_of_isDigit hdigit]
  have hdigits := digits_append hne hds hend
  have hindex : toUInt64? (ofDigits ds) = some (UInt64.ofNat (ofDigits ds)) := if_pos hfits
  have htype := typeAfter_typeNote [] type hr.boundary
  have hparameter : parameter ('$' :: (ds ++ (typeNote [':'] type ++ r))) =
      .ok (.parameter (UInt64.ofNat (ofDigits ds)) (declared type)) r := by
    simp [parameter, hdigits, hindex, htype, Outcome.ofOption]
  simpa using bareOperand_parameter hparameter

/-! ## Words and names -/

section Spelled

variable {word : String} (u : Spelling word)

theorem isAlphabetic_spelling : ∀ c ∈ u.1, isAlphabetic c = true :=
  isAlphabetic_of_spelling u.2.2 u.2.1

/-- A spelling of a reserved word starts with a letter. -/
theorem spelling_cons : ∃ c t, u.1 = c :: t ∧ isAlphabetic c = true := by
  cases hu : u.1 with
  | nil =>
      obtain ⟨hspells, hreserved⟩ := u.2
      rw [← hspells, hu] at hreserved
      exact absurd hreserved (by decide)
  | cons c t => exact ⟨c, t, rfl, isAlphabetic_spelling u c (by simp [hu])⟩

theorem starts_spelling : Starts u.1 := by
  obtain ⟨c, t, hu, hc⟩ := spelling_cons u
  exact ⟨c, t, hu, by simp [isStart, isNameChar_of_isAlphabetic hc]⟩

/-- A word that is a constant is read as that constant, and the gap behind it is skipped. -/
theorem wordConstant_spelling (hr : Boundary r) (value : Value) :
    wordConstant word.toList value (u.1 ++ r) = .ok (.literal value) (skipGap r) := by
  have hskip := ((starts_spelling u).append r).skipGap_eq
  simp [wordConstant, keyword_append u.2.1 hr.isNameChar hskip, Outcome.ofOption]

/-- Another reserved word is not read in its place. -/
theorem keyword_spelling {other : List Char} (hother : other ∈ reservedWords)
    (hne : word.toList ≠ other) (hr : ∀ c ∈ r.head?, isNameChar c = false)
    (hs : skipGap s = u.1 ++ r) : keyword other s = none := by
  have hspells : lowerAscii u.1 ≠ other := by
    rw [u.2.1]
    exact hne
  refine keyword_other hother (fun c hc => ?_) hspells hr hs
  exact isNameChar_of_isAlphabetic (isAlphabetic_spelling u c hc)

theorem wordConstant_other {other : List Char} (hother : other ∈ reservedWords)
    (hne : word.toList ≠ other) (hr : Boundary r) (value : Value) :
    wordConstant other value (u.1 ++ r) =
      .miss (keywordMiss other (u.1 ++ r)).1 (keywordMiss other (u.1 ++ r)).2 := by
  apply wordConstant_miss
  exact keyword_spelling u hother hne hr.isNameChar ((starts_spelling u).append r).skipGap_eq

theorem isWordStart_spelling (r : List Char) :
    ∀ c ∈ (u.1 ++ r).head?, isWordStart c = true := by
  obtain ⟨c, t, hu, hc⟩ := spelling_cons u
  have hstart : isNameStart c = true := by simp [isNameStart, hc]
  simpa [hu] using isWordStart_of_isNameStart hstart

end Spelled

theorem accepts_truth (b : Bool) (word : Spelling (toString b)) :
    Accepts (operand nested) word.1 (.constant (.bool b) .bool) .operand := by
  refine accepts_operand fun r hr => ⟨skipGap r, Leaves.afterGap r, ?_⟩
  rw [bareOperand_word (isWordStart_spelling word r)]
  have hread := wordConstant_spelling word hr.boundary (.bool b)
  cases b with
  | true => exact congrArg (Outcome.orElse · _) hread
  | false =>
      rw [wordConstant_other word (by decide) (by decide) hr.boundary, Outcome.orElse_miss]
      exact congrArg (Outcome.orElse · _) hread

theorem accepts_null (word : Spelling "null") :
    Accepts (operand nested) word.1 (.constant .null .object) .operand := by
  refine accepts_operand fun r hr => ⟨skipGap r, Leaves.afterGap r, ?_⟩
  rw [bareOperand_word (isWordStart_spelling word r),
    wordConstant_other word (by decide) (by decide) hr.boundary, Outcome.orElse_miss,
    wordConstant_other word (by decide) (by decide) hr.boundary, Outcome.orElse_miss,
    wordConstant_spelling word hr.boundary, Outcome.orElse_ok]
  rfl

/-! ## Columns, fields and calls -/

theorem starts_name (hw : isName w = true) : Starts w := by
  obtain ⟨c, t, rfl, hstart, -, -⟩ := isName_cons hw
  exact ⟨c, t, rfl, by simp [isStart, isNameChar_of_isNameStart hstart]⟩

/-- Where a name stands, only calls, fields and columns are left to choose from. -/
theorem bareOperand_name (hw : isName w = true) (hr : ∀ c ∈ r.head?, isNameChar c = false) :
    bareOperand nested (w ++ r) =
      ((call nested (w ++ r)).orElse fun _ =>
        (field (w ++ r)).orElse fun _ => column (w ++ r)) := by
  have hhead : ∀ c ∈ (w ++ r).head?, isWordStart c = true := by
    obtain ⟨c, t, rfl, hstart, -, -⟩ := isName_cons hw
    simpa using isWordStart_of_isNameStart hstart
  have hwords : ∀ word ∈ reservedWords, keyword word (w ++ r) = none := fun word hword =>
    keyword_name hword hw hr ((starts_name hw).append r).skipGap_eq
  rw [bareOperand_word hhead, wordConstants_miss hwords]

theorem callHead_name (hw : isName w = true)
    (hr : ∀ c ∈ r.head?, isNameChar c = false ∧ c ≠ ':') :
    callHead (w ++ r) = some ((none, w), r) := by
  have hname := name_append hw fun c hc => (hr c hc).1
  have hcolon : expect ':' r = none := expect_eq_none fun c hc => (hr c hc).2
  simp [callHead, hname, hcolon]

theorem callHead_space {space : List Char} (hspace : isName space = true)
    (hw : isName w = true) (hr : ∀ c ∈ r.head?, isNameChar c = false) :
    callHead (space ++ ':' :: (w ++ r)) = some ((some space, w), r) := by
  have hfirst := name_append (r := ':' :: (w ++ r)) hspace (by simpa using by decide)
  have hsecond := name_append hw hr
  simp [callHead, hfirst, hsecond]

/-- A name with two colons behind it is not the name of a function. -/
theorem callHead_colons (hw : isName w = true) (t : List Char) :
    callHead (w ++ ':' :: ':' :: t) = none := by
  have hfirst := name_append (r := ':' :: ':' :: t) hw (by simpa using by decide)
  have hsecond : name (':' :: t) = none := name_eq_none (by simpa using by decide)
  simp [callHead, hfirst, hsecond]

/-- A column is not taken for a call. -/
theorem call_column (hw : isName w = true) (type : Option TypeText) (hr : Follow .operand r) :
    ∃ cause here, call nested (w ++ (typeNote [':', ':'] type ++ r)) = .miss cause here := by
  cases type with
  | some type =>
      have hhead := callHead_colons hw (type.letters ++ r)
      simp [call, typeNote, hhead]
  | none =>
      have hhead := callHead_name hw fun c hc =>
        ⟨(hr.boundary c hc).1, (hr.boundary c hc).2.2⟩
      have hopen : expectAfterGap '(' r = none := by
        refine expect_eq_none fun c hc => ?_
        rintro rfl
        exact hr.stops _ hc (by decide)
      simp [call, typeNote, hhead, hopen]

theorem accepts_column (attr : Name) (type : Option TypeText) :
    Accepts (operand nested) (attr.1 ++ typeNote [':', ':'] type)
      (.column none (String.ofList attr.1) (declared type)) .operand := by
  refine accepts_operand fun r hr => ⟨r, Leaves.all r, ?_⟩
  have hafter := head?_typeNote [':'] type hr.boundary
  have hname := name_append attr.2 fun c hc => (hafter c hc).1
  have hfield : field (attr.1 ++ (typeNote [':', ':'] type ++ r)) =
      .miss .noSign (typeNote [':', ':'] type ++ r) := by
    have hpoint := expect_eq_none (c := '.') fun c hc => (hafter c hc).2
    simp [field, fieldMiss, hname, hpoint, Outcome.ofOption]
  obtain ⟨cause, here, hcall⟩ : ∃ cause here,
      call nested (attr.1 ++ (typeNote [':', ':'] type ++ r)) = .miss cause here :=
    call_column attr.2 type hr
  rw [List.append_assoc, bareOperand_name attr.2 fun c hc => (hafter c hc).1,
    hcall, Outcome.orElse_miss, hfield, Outcome.orElse_miss]
  simp [column, hname, typeAfter_typeNote [':'] type hr.boundary]

theorem accepts_field (stream attr : Name) (type : Option TypeText) :
    Accepts (operand nested) (stream.1 ++ '.' :: (attr.1 ++ typeNote [':', ':'] type))
      (.eventField (String.ofList stream.1 ++ "." ++ String.ofList attr.1)
        (some (String.ofList stream.1)) (String.ofList attr.1) (declared type)) .operand := by
  refine accepts_operand fun r hr => ⟨r, Leaves.all r, ?_⟩
  have hafter := head?_typeNote [':'] type hr.boundary
  have hattr := name_append attr.2 fun c hc => (hafter c hc).1
  simp only [List.append_assoc, List.cons_append]
  generalize ht : attr.1 ++ (typeNote [':', ':'] type ++ r) = t at hattr ⊢
  have hpoint : ∀ c ∈ ('.' :: t).head?, isNameChar c = false ∧ c ≠ ':' := by
    simpa using by decide
  have hstream := name_append stream.2 fun c hc => (hpoint c hc).1
  have hcall : call nested (stream.1 ++ '.' :: t) = .miss .noSign (skipGap ('.' :: t)) := by
    have hopen : expectAfterGap '(' ('.' :: t) = none := by
      simp [expectAfterGap, skipGap_cons (show isGap '.' = false by decide)]
    simp [call, callHead_name stream.2 hpoint, hopen]
  rw [bareOperand_name stream.2 fun c hc => (hpoint c hc).1, hcall, Outcome.orElse_miss]
  simp [field, hstream, hattr, Outcome.ofOption, typeAfter_typeNote [':'] type hr.boundary,
    Expr.streamField]

theorem starts_called (space : Option Name) (function : Name) :
    Starts (calledName space function) := by
  cases space with
  | none => exact starts_name function.2
  | some space => simpa [calledName] using (starts_name space.2).append (':' :: function.1)

/-- A reserved word is not the beginning of the name of a function. -/
theorem keyword_called {word : List Char} (hword : word ∈ reservedWords) (space : Option Name)
    (function : Name) (hr : ∀ c ∈ r.head?, isNameChar c = false)
    (hs : skipGap s = calledName space function ++ r) : keyword word s = none := by
  cases space with
  | none => exact keyword_name hword function.2 hr hs
  | some space =>
      refine keyword_name (r := ':' :: (function.1 ++ r)) hword space.2
        (by simpa using by decide) ?_
      simpa [calledName] using hs

theorem bareOperand_called (space : Option Name) (function : Name)
    (hr : ∀ c ∈ r.head?, isNameChar c = false) :
    bareOperand nested (calledName space function ++ r) =
      ((call nested (calledName space function ++ r)).orElse fun _ =>
        (field (calledName space function ++ r)).orElse fun _ =>
          column (calledName space function ++ r)) := by
  cases space with
  | none => exact bareOperand_name function.2 hr
  | some space =>
      simpa [calledName] using bareOperand_name (r := ':' :: (function.1 ++ r)) space.2
        (by simpa using by decide)

theorem callHead_called (space : Option Name) (function : Name)
    (hr : ∀ c ∈ r.head?, isNameChar c = false ∧ c ≠ ':') :
    callHead (calledName space function ++ r) =
      some ((space.map Subtype.val, function.1), r) := by
  cases space with
  | none => simpa [calledName] using callHead_name function.2 hr
  | some space =>
      simpa [calledName] using callHead_space space.2 function.2 fun c hc => (hr c hc).1

/-- The arguments of a call are accepted before its closing parenthesis. -/
def AcceptsArguments (nested : Reader Expr) (text : List Char) (values : List Expr) : Prop :=
  ∀ r t, skipGap r = ')' :: t →
    ∃ rest, Leaves r rest ∧ arguments nested (text ++ r) = .ok values rest

theorem accepts_call {text : List Char} {values : List Expr}
    (h : AcceptsArguments nested text values) (space : Option Name) (function : Name)
    (before after : Gap) :
    Accepts (operand nested)
      (calledName space function ++ before.1 ++ '(' :: (text ++ after.1 ++ [')']))
      (.call (space.map fun n => String.ofList n.1) (String.ofList function.1) values)
      .operand := by
  refine accepts_operand fun r _ => ⟨r, Leaves.all r, ?_⟩
  have hclose : skipGap (after.1 ++ ')' :: r) = ')' :: r := by
    rw [skipGap_append after.2, skipGap_cons (by decide)]
  obtain ⟨rest, hrest, hread⟩ := h (after.1 ++ ')' :: r) r hclose
  have hend : expect ')' (skipGap rest) = some r := by
    simp [hrest.skipGap_eq, hclose]
  have hgap : skipGap (before.1 ++ '(' :: (text ++ (after.1 ++ ')' :: r))) =
      '(' :: (text ++ (after.1 ++ ')' :: r)) := by
    rw [skipGap_append before.2, skipGap_cons (by decide)]
  have hbefore := boundary_of_mark hgap (by decide)
  have hhead := callHead_called space function fun c hc => ⟨(hbefore c hc).1, (hbefore c hc).2.2⟩
  have hcall : call nested (calledName space function ++
      (before.1 ++ '(' :: (text ++ (after.1 ++ ')' :: r)))) =
      .ok (.call (space.map fun n => String.ofList n.1) (String.ofList function.1) values) r := by
    simp [call, hhead, expectAfterGap, hgap, hread, hend]
  simp only [List.append_assoc, List.cons_append, List.nil_append]
  rw [bareOperand_called space function hbefore.isNameChar, hcall, Outcome.orElse_ok]

end Pushdown.Condition
