import Mathlib.Data.List.Basic
import Pushdown.Proofs.Condition.Characters

/-!
# Recognisers on composed texts

What each recogniser of the condition language does on a text that is written for it and
followed by something else. The recognisers are greedy, so every statement names what the text
behind must not start with; `Boundary` is the condition that suffices for all of them.

A reserved word is never the beginning of a name that is written out (`keyword_name`). This is
what keeps the alternatives of an operand apart.
-/

namespace Pushdown.Condition

open Text Number

variable {g r s w : List Char} {c : Char}

/-! ## Runs of characters -/

/-- A run of characters of a class ends where the class ends. -/
theorem span_append {p : Char → Bool} (hw : ∀ c ∈ w, p c = true)
    (hr : ∀ c ∈ r.head?, p c = false) :
    (w ++ r).takeWhile p = w ∧ (w ++ r).dropWhile p = r := by
  rw [List.takeWhile_append_of_pos hw, List.dropWhile_append_of_pos hw]
  cases r with
  | nil => simp
  | cons c r => simp [hr c (by simp)]

/-! ## Gaps and single characters -/

@[simp] theorem skipGap_append (hg : g.all isGap = true) (s : List Char) :
    skipGap (g ++ s) = skipGap s := by
  simp only [List.all_eq_true] at hg
  exact List.dropWhile_append_of_pos hg

theorem skipGap_cons (hc : isGap c = false) (s : List Char) : skipGap (c :: s) = c :: s := by
  simp [skipGap, hc]

/-- What is left after a gap does not start with one. -/
theorem isGap_head_skipGap (h : c ∈ (skipGap s).head?) : isGap c = false := head_dropWhile h

@[simp] theorem skipGap_skipGap (s : List Char) : skipGap (skipGap s) = skipGap s := by
  cases h : skipGap s with
  | nil => rfl
  | cons c t => exact skipGap_cons (isGap_head_skipGap (s := s) (by simp [h])) t

theorem length_skipGap_le (s : List Char) : (skipGap s).length ≤ s.length :=
  (List.dropWhile_suffix isGap).length_le

@[simp] theorem expect_cons (c d : Char) (s : List Char) :
    expect c (d :: s) = if d = c then some s else none := rfl

theorem expect_eq_none (h : ∀ d ∈ s.head?, d ≠ c) : expect c s = none := by
  cases s with
  | nil => rfl
  | cons d s => simp [h d (by simp)]

/-! ## What may follow a word or a number -/

/-- The text does not go on with a name, a number, a point or a colon. -/
def Boundary (r : List Char) : Prop := ∀ c ∈ r.head?, isNameChar c = false ∧ c ≠ '.' ∧ c ≠ ':'

theorem boundary_of_isGap (h : isGap c = true) :
    Text.isNameChar c = false ∧ c ≠ '.' ∧ c ≠ ':' := by
  rcases isGap_cases h with rfl | rfl | rfl | rfl <;> decide

theorem Boundary.isNameChar (h : Boundary r) : ∀ c ∈ r.head?, Text.isNameChar c = false :=
  fun c hc => (h c hc).1

theorem Boundary.isAlphabetic (h : Boundary r) : ∀ c ∈ r.head?, Text.isAlphabetic c = false := by
  intro c hc
  cases halpha : Text.isAlphabetic c with
  | false => rfl
  | true =>
      have hname := (h c hc).1
      rw [isNameChar_of_isAlphabetic halpha] at hname
      exact hname

theorem startsInName_eq_false : startsInName r = false ↔ ∀ c ∈ r.head?, isNameChar c = false := by
  cases r <;> simp [startsInName]

/-! ## Names -/

theorem isName_cons (h : isName w = true) :
    ∃ c cs, w = c :: cs ∧ isNameStart c = true ∧ (∀ d ∈ w, isNameChar d = true) ∧
      isReserved w = false := by
  cases w with
  | nil => simp [isName] at h
  | cons c cs =>
      simp only [isName, Bool.and_eq_true, List.all_eq_true, Bool.not_eq_true'] at h
      obtain ⟨⟨hstart, hchars⟩, hfree⟩ := h
      refine ⟨c, cs, rfl, hstart, ?_, hfree⟩
      simpa using ⟨isNameChar_of_isNameStart hstart, hchars⟩

/-- A name is read to its end. -/
theorem name_append (hw : isName w = true) (hr : ∀ c ∈ r.head?, isNameChar c = false) :
    name (w ++ r) = some (w, r) := by
  obtain ⟨c, cs, rfl, hstart, hchars, hfree⟩ := isName_cons hw
  obtain ⟨htake, hdrop⟩ := span_append (p := isNameChar) (w := cs)
    (fun d hd => hchars d (by simp [hd])) hr
  simp [name, hstart, htake, hdrop, hfree]

theorem name_eq_none (h : ∀ c ∈ s.head?, isNameStart c = false) : name s = none := by
  cases s with
  | nil => rfl
  | cons c s => simp [name, h c (by simp)]

/-! ## Reserved words -/

theorem stripWord_append {u word : List Char} (hu : lowerAscii u = word) (r : List Char) :
    stripWord word (u ++ r) = some r := by
  subst hu
  induction u with
  | nil => rfl
  | cons c u ih => simpa [lowerAscii, stripWord] using ih

theorem stripWord_eq_some {word rest : List Char} (h : stripWord word s = some rest) :
    ∃ u, s = u ++ rest ∧ lowerAscii u = word := by
  induction word generalizing s with
  | nil => exact ⟨[], by simpa [stripWord] using h, rfl⟩
  | cons x xs ih =>
      cases s with
      | nil => simp [stripWord] at h
      | cons c s =>
          simp only [stripWord] at h
          split at h
          · rename_i hc
            obtain ⟨u, rfl, hu⟩ := ih h
            exact ⟨c :: u, rfl, by simpa [lowerAscii, hc] using hu⟩
          · simp at h

/-- The letters of reserved words are in lower case. -/
theorem reservedWords_letters : ∀ word ∈ reservedWords, ∀ c ∈ word,
    0x61 ≤ c.toNat ∧ c.toNat ≤ 0x7A := by
  have hall : reservedWords.all (fun word => word.all fun c =>
      decide (0x61 ≤ c.toNat ∧ c.toNat ≤ 0x7A)) = true := by decide
  exact fun word hword => forall_mem_of_all (List.all_eq_true.mp hall word hword)

/-- Every character of a spelling of a reserved word is a letter. -/
theorem isAlphabetic_of_spelling {u word : List Char} (hword : word ∈ reservedWords)
    (hu : lowerAscii u = word) : ∀ c ∈ u, isAlphabetic c = true := by
  intro c hc
  apply isAlphabetic_of_toLower
  apply reservedWords_letters word hword
  rw [← hu]
  exact List.mem_map_of_mem hc

theorem isGap_of_isNameChar (h : isNameChar c = true) : isGap c = false := by
  cases hgap : isGap c with
  | false => rfl
  | true =>
      rw [isNameChar_of_isGap hgap] at h
      exact h.symm

/-- A spelling of a reserved word is recognised behind any gap, and the gap behind it is
skipped. -/
theorem keyword_append {u word : List Char} (hu : lowerAscii u = word)
    (hr : ∀ c ∈ r.head?, isNameChar c = false)
    (hs : skipGap s = u ++ r) : keyword word s = some (skipGap r) := by
  rw [keyword, hs, stripWord_append hu]
  simp [startsInName_eq_false.mpr hr]

/-- A reserved word is not found where another word is written out. -/
theorem keyword_other {word : List Char} (hword : word ∈ reservedWords)
    (hw : ∀ c ∈ w, isNameChar c = true) (hne : lowerAscii w ≠ word)
    (hr : ∀ c ∈ r.head?, isNameChar c = false) (hs : skipGap s = w ++ r) :
    keyword word s = none := by
  rw [keyword, hs]
  cases hstrip : stripWord word (w ++ r) with
  | none => rfl
  | some rest =>
      obtain ⟨u, hsplit, hu⟩ := stripWord_eq_some hstrip
      suffices hinside : startsInName rest = true by simp [hinside]
      rcases List.append_eq_append_iff.mp hsplit with ⟨more, rfl, rfl⟩ | ⟨more, rfl, rfl⟩
      · -- the reserved word goes beyond the other one, so a letter stands behind that
        cases more with
        | nil => exact absurd (by simpa using hu) hne
        | cons d more =>
            have hd := isAlphabetic_of_spelling hword hu d (by simp)
            have hname := hr d (by simp)
            rw [isNameChar_of_isAlphabetic hd] at hname
            exact absurd hname (by decide)
      · -- the other word goes beyond the reserved one
        cases more with
        | nil => exact absurd (by simpa using hu) hne
        | cons d more => simpa [startsInName] using hw d (by simp)

/-- A reserved word is not the beginning of a name. -/
theorem keyword_name {word : List Char} (hword : word ∈ reservedWords) (hw : isName w = true)
    (hr : ∀ c ∈ r.head?, isNameChar c = false) (hs : skipGap s = w ++ r) :
    keyword word s = none := by
  obtain ⟨c, cs, -, -, hchars, hfree⟩ := isName_cons hw
  refine keyword_other hword hchars ?_ hr hs
  rintro rfl
  simp [isReserved, hword] at hfree

/-- A reserved word is missing where no name character stands. -/
theorem keyword_of_mark {word : List Char} (hword : word ∈ reservedWords)
    (h : ∀ c ∈ (skipGap s).head?, isNameChar c = false) : keyword word s = none := by
  have hne : lowerAscii [] ≠ word := by
    rintro rfl
    exact absurd hword (by decide)
  exact keyword_other (w := []) hword (by simp) hne h rfl

/-- A word is missing where the text starts with another letter. -/
theorem keyword_of_head {x : Char} {xs : List Char}
    (h : ∀ c ∈ (skipGap s).head?, c.toLower ≠ x) : keyword (x :: xs) s = none := by
  cases hs : skipGap s with
  | nil => simp [keyword, hs, stripWord]
  | cons c t =>
      have hc := h c (by simp [hs])
      simp [keyword, hs, stripWord, hc]

/-! ## Signs -/

theorem stripSign_append (sign r : List Char) : stripSign sign (sign ++ r) = some r := by
  induction sign with
  | nil => rfl
  | cons c sign ih => simpa [stripSign] using ih

theorem stripSign_eq_none {x : Char} {xs : List Char} (h : ∀ c ∈ s.head?, c ≠ x) :
    stripSign (x :: xs) s = none := by
  simp [stripSign, expect_eq_none h]

/-- No sign is found where the text starts with none of their first characters. -/
theorem signIn_eq_none {α : Type} {signs : List (List Char × α)}
    (h : ∀ sign ∈ signs, ∃ x xs, sign.1 = x :: xs ∧ ∀ c ∈ (skipGap s).head?, c ≠ x) :
    signIn signs s = none := by
  rw [signIn, List.findSome?_eq_none_iff]
  intro sign hsign
  obtain ⟨x, xs, hx, hhead⟩ := h sign hsign
  simp [hx, stripSign_eq_none hhead]

/-- A sign of a product is found, and the gap behind it is skipped. -/
theorem signIn_product {sign : List Char × MathOp} (h : sign ∈ productSigns)
    (hs : skipGap s = sign.1 ++ r) : signIn productSigns s = some (sign.2, skipGap r) := by
  simp only [productSigns, List.mem_cons, List.not_mem_nil, or_false] at h
  rcases h with rfl | rfl | rfl <;> simp [signIn, productSigns, hs, stripSign]

/-- A sign of a sum is found, and the gap behind it is skipped. -/
theorem signIn_sum {sign : List Char × MathOp} (h : sign ∈ sumSigns)
    (hs : skipGap s = sign.1 ++ r) : signIn sumSigns s = some (sign.2, skipGap r) := by
  simp only [sumSigns, List.mem_cons, List.not_mem_nil, or_false] at h
  rcases h with rfl | rfl <;> simp [signIn, sumSigns, hs, stripSign]

/-- A sign of a comparison is found whole, unless the text behind it makes it longer. -/
theorem signIn_compare {sign : List Char × CompareOp} (h : sign ∈ compareSigns)
    (hr : ∀ c ∈ r.head?, c ≠ '=' ∧ c ≠ '>') (hs : skipGap s = sign.1 ++ r) :
    signIn compareSigns s = some (sign.2, skipGap r) := by
  have hequal : expect '=' r = none := expect_eq_none fun c hc => (hr c hc).1
  have hgreater : expect '>' r = none := expect_eq_none fun c hc => (hr c hc).2
  simp only [compareSigns, List.mem_cons, List.not_mem_nil, or_false] at h
  rcases h with rfl | rfl | rfl | rfl | rfl | rfl | rfl | rfl
  all_goals
    simp [signIn, compareSigns, hs, stripSign, hequal, hgreater]

/-! ## Types -/

/-- Every character of a spelled type name is a letter. -/
theorem isAlphabetic_of_typeName {type : AttrType} (hw : lowerAscii w = type.name.toList) :
    ∀ c ∈ w, isAlphabetic c = true := by
  have hletters : ∀ c ∈ type.name.toList, 0x61 ≤ c.toNat ∧ c.toNat ≤ 0x7A := by
    apply forall_mem_of_all
    cases type <;> decide
  intro c hc
  apply isAlphabetic_of_toLower
  apply hletters
  rw [← hw]
  exact List.mem_map_of_mem hc

/-- A spelled type name is read to its end. -/
theorem typeName_append {type : AttrType} (hw : lowerAscii w = type.name.toList)
    (hr : ∀ c ∈ r.head?, isAlphabetic c = false) : typeName (w ++ r) = some (type, r) := by
  obtain ⟨htake, hdrop⟩ := span_append (isAlphabetic_of_typeName hw) hr
  have htype : AttrType.ofLetters? w = some type := by
    simp only [AttrType.ofLetters?, hw]
    cases type <;> decide
  simp [typeName, htake, hdrop, htype]

/-- A type is read behind its sign. -/
theorem typeAfter_append {type : AttrType} {sign : List Char}
    (hw : lowerAscii w = type.name.toList) (hr : ∀ c ∈ r.head?, isAlphabetic c = false) :
    typeAfter sign (sign ++ (w ++ r)) = (type, r) := by
  simp [typeAfter, stripSign_append, typeName_append hw hr]

/-- Without its sign there is no type, and nothing is read. -/
theorem typeAfter_none {x : Char} {xs : List Char} (h : ∀ c ∈ r.head?, c ≠ x) :
    typeAfter (x :: xs) r = (.object, r) := by
  simp [typeAfter, stripSign_eq_none h]

/-! ## Numbers and quoted strings -/

theorem digits_append {ds : List Char} (hne : ds ≠ []) (hds : ∀ c ∈ ds, c.isDigit = true)
    (hr : ∀ c ∈ r.head?, c.isDigit = false) : digits (ds ++ r) = some (ds, r) := by
  obtain ⟨htake, hdrop⟩ := span_append (p := Char.isDigit) hds hr
  simp [digits, htake, hdrop, hne]

theorem digits_eq_none (h : ∀ c ∈ s.head?, c.isDigit = false) : digits s = none := by
  obtain ⟨htake, -⟩ := span_append (p := Char.isDigit) (w := []) (by simp) h
  simp only [List.nil_append] at htake
  simp [digits, htake]

theorem Boundary.isDigit (h : Boundary r) : ∀ c ∈ r.head?, c.isDigit = false := by
  intro c hc
  cases hdigit : c.isDigit with
  | false => rfl
  | true =>
      have hname := (h c hc).1
      rw [isNameChar_of_isDigit hdigit] at hname
      exact hname

/-- The letters that mark a number stand inside names. -/
theorem mark_of_boundary (h : Boundary r) : mark r = (none, r) := by
  cases r with
  | nil => rfl
  | cons c r =>
      have hletters : ∀ m ∈ ['l', 'L', 'f', 'F', 'd', 'D'], isNameChar m = true :=
        forall_mem_of_all (by decide)
      have hne : ∀ m ∈ ['l', 'L', 'f', 'F', 'd', 'D'], c ≠ m := by
        rintro m hm rfl
        have hname := (h c (by simp)).1
        rw [hletters c hm] at hname
        exact absurd hname (by decide)
      simp only [List.mem_cons, List.not_mem_nil, or_false, forall_eq_or_imp, forall_eq] at hne
      simp [mark, Mark.ofChar?, hne]

theorem fraction_eq_none (h : ∀ c ∈ r.head?, c ≠ '.') : fraction r = (none, r) := by
  simp [fraction, expect_eq_none h]

/-- The text of a sign in front of digits. -/
def minus (negative : Bool) : List Char := if negative then ['-'] else []

theorem head?_append_digits {ds : List Char} (hne : ds ≠ [])
    (hds : ∀ c ∈ ds, c.isDigit = true) (r : List Char) :
    ∃ c, (ds ++ r).head? = some c ∧ c.isDigit = true := by
  cases ds with
  | nil => exact absurd rfl hne
  | cons d ds => exact ⟨d, rfl, hds d (by simp)⟩

/-- A number is read from its digits on, whether a minus sign stands before them or not. -/
theorem literal_minus (negative : Bool) {ds : List Char} (hne : ds ≠ [])
    (hds : ∀ c ∈ ds, c.isDigit = true) (hr : ∀ c ∈ r.head?, c.isDigit = false) :
    literal (minus negative ++ (ds ++ r)) =
      some (⟨negative, ds, (fraction r).1, (mark (fraction r).2).1⟩, (mark (fraction r).2).2) := by
  have hminus : expect '-' (ds ++ r) = none := by
    obtain ⟨d, hd, hdigit⟩ := head?_append_digits hne hds r
    refine expect_eq_none fun c hc => ?_
    rintro rfl
    rw [Option.mem_def, hd, Option.some.injEq] at hc
    exact absurd (hc ▸ hdigit) (by decide)
  cases negative
  · simp [literal, minus, hminus, digits_append hne hds hr]
  · simp [literal, minus, digits_append hne hds hr]

/-- An integer without a mark is read to the end of its digits. -/
theorem literal_unmarked (negative : Bool) {ds : List Char} (hne : ds ≠ [])
    (hds : ∀ c ∈ ds, c.isDigit = true) (hr : Boundary r) :
    literal (minus negative ++ (ds ++ r)) = some (⟨negative, ds, none, none⟩, r) := by
  rw [literal_minus negative hne hds hr.isDigit, fraction_eq_none fun c hc => (hr c hc).2.1,
    mark_of_boundary hr]

/-- An integer marked as long is read to the end of its mark. -/
theorem literal_long (negative : Bool) {ds : List Char} (hne : ds ≠ [])
    (hds : ∀ c ∈ ds, c.isDigit = true) (hc : c = 'l' ∨ c = 'L') (r : List Char) :
    literal (minus negative ++ (ds ++ c :: r)) = some (⟨negative, ds, none, some .long⟩, r) := by
  have hnext : c.isDigit = false ∧ c ≠ '.' := by
    rcases hc with rfl | rfl <;> decide
  rw [literal_minus negative hne hds (by simpa using hnext.1),
    fraction_eq_none (by simpa using hnext.2)]
  simp [mark, Mark.ofChar?, hc]

/-- A text without its own quote is read from quote to quote. -/
theorem quotedBy_append {quote : Char} {body : List Char} (hbody : quote ∉ body)
    (r : List Char) : quotedBy quote (quote :: (body ++ quote :: r)) = some (body, r) := by
  have hchars : ∀ c ∈ body, (c != quote) = true := by
    intro c hc
    simpa using fun heq : c = quote => hbody (heq ▸ hc)
  obtain ⟨htake, hdrop⟩ := span_append (p := (· != quote)) (r := quote :: r) hchars (by simp)
  simp [quotedBy, htake, hdrop]

theorem quotedBy_eq_none {quote : Char} (h : ∀ c ∈ s.head?, c ≠ quote) :
    quotedBy quote s = none := by
  simp [quotedBy, expect_eq_none h]

end Pushdown.Condition
