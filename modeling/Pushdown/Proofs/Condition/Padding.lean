import Mathlib.Data.List.TakeWhile
import Pushdown.Proofs.Condition.Locality

/-!
# Blanks behind a text

Blanks at the end of a text do not change what a recogniser finds at its front: no token but a
quoted string contains a blank, and a quoted string needs its quote. What is left of the text has
blanks behind it again (`Overlooks`).

## Implementation notes

A gap behind a word is skipped, and other blanks are not. How many of the blanks are left depends on
where the recogniser stops, so `Padded` relates the two rests and does not compute one from the
other.
-/

namespace Pushdown.Condition

open Text Number

variable {α β : Type} {s t w : List Char} {c : Char}

/-! ## Texts with blanks behind them -/

/-- The first text is the second one with blanks behind it. -/
def Padded (s t : List Char) : Prop := ∃ blanks, (∀ c ∈ blanks, isBlank c = true) ∧ s = t ++ blanks

namespace Padded

theorem of_cons (h : Padded s (c :: t)) : ∃ s', s = c :: s' ∧ Padded s' t := by
  obtain ⟨blanks, hblanks, rfl⟩ := h
  exact ⟨t ++ blanks, rfl, blanks, hblanks, rfl⟩

theorem isBlank_head (h : Padded s []) (hc : c ∈ s.head?) : isBlank c = true := by
  obtain ⟨blanks, hblanks, rfl⟩ := h
  exact hblanks c (List.mem_of_mem_head? hc)

theorem cons (c : Char) (h : Padded s t) : Padded (c :: s) (c :: t) := by
  obtain ⟨blanks, hblanks, rfl⟩ := h
  exact ⟨blanks, hblanks, rfl⟩

/-- Nothing but blanks is left of a text without the blanks behind it. -/
theorem trimStart_eq_nil (h : Padded s t) (hs : Padded s []) : trimStart t = [] := by
  obtain ⟨blanks, -, rfl⟩ := h
  obtain ⟨others, hothers, heq⟩ := hs
  rw [trimStart, List.dropWhile_eq_nil_iff]
  intro c hc
  apply hothers
  rw [List.nil_append] at heq
  exact heq ▸ List.mem_append_left blanks hc

theorem trimEnd (s : List Char) : Padded s (trimEnd s) := by
  refine ⟨(s.reverse.takeWhile isBlank).reverse, fun c hc => ?_, ?_⟩
  · exact List.all_eq_true.mp List.all_takeWhile c (List.mem_reverse.mp hc)
  · rw [Text.trimEnd, ← List.reverse_append, List.takeWhile_append_dropWhile, List.reverse_reverse]

/-- A run of characters that are no blanks ends at the same place. -/
theorem span {p : Char → Bool} (hp : ∀ c, isBlank c = true → p c = false) (h : Padded s t) :
    s.takeWhile p = t.takeWhile p ∧ Padded (s.dropWhile p) (t.dropWhile p) := by
  induction t generalizing s with
  | nil =>
      cases s with
      | nil => exact ⟨rfl, h⟩
      | cons c s =>
          have hc := hp c (h.isBlank_head rfl)
          simpa [hc] using h
  | cons c t ih =>
      obtain ⟨s, rfl, htail⟩ := h.of_cons
      cases hc : p c with
      | true => simpa [hc] using ih htail
      | false => simpa [hc] using htail.cons c

theorem skipGap (h : Padded s t) : Padded (skipGap s) (skipGap t) := by
  obtain ⟨blanks, hblanks, rfl⟩ := h
  rw [Condition.skipGap, Condition.skipGap, List.dropWhile_append]
  split
  · rename_i hempty
    rw [List.isEmpty_iff.mp hempty]
    exact ⟨_, fun c hc => hblanks c ((List.dropWhile_sublist isGap).mem hc), rfl⟩
  · exact ⟨blanks, hblanks, rfl⟩

end Padded

/-! ## Recognisers -/

section Options

variable {γ δ : Type} {R : α → β → Prop} {S : γ → δ → Prop} {o : Option α} {o' : Option β}

theorem rel_cases (h : Option.Rel R o o') :
    (o = none ∧ o' = none) ∨ ∃ a b, o = some a ∧ o' = some b ∧ R a b := by
  cases h with
  | none => exact Or.inl ⟨rfl, rfl⟩
  | some hab => exact Or.inr ⟨_, _, rfl, rfl, hab⟩

theorem eq_none_of_rel (h : Option.Rel R none o') : o' = none := by
  cases h with
  | none => rfl

theorem eq_some_of_rel {a : α} (h : Option.Rel R (some a) o') : ∃ b, o' = some b ∧ R a b := by
  cases h with
  | some hab => exact ⟨_, rfl, hab⟩

theorem rel_bind {f : α → Option γ} {g : β → Option δ} (h : Option.Rel R o o')
    (hnext : ∀ a b, R a b → Option.Rel S (f a) (g b)) : Option.Rel S (o.bind f) (o'.bind g) := by
  cases h with
  | none => exact .none
  | some hab => exact hnext _ _ hab

theorem rel_map {f : α → γ} {g : β → δ} (h : Option.Rel R o o')
    (hnext : ∀ a b, R a b → S (f a) (g b)) : Option.Rel S (o.map f) (o'.map g) := by
  cases h with
  | none => exact .none
  | some hab => exact .some (hnext _ _ hab)

theorem rel_or {p : Option α} {p' : Option β} (h : Option.Rel R o o')
    (hnext : Option.Rel R p p') : Option.Rel R (o.or p) (o'.or p') := by
  cases h with
  | none => exact hnext
  | some hab => exact .some hab

end Options

/-- The recognisers find the same on a text with and without blanks behind it. -/
def Alike : Option (α × List Char) → Option (α × List Char) → Prop :=
  Option.Rel fun found found' => found.1 = found'.1 ∧ Padded found.2 found'.2

theorem Alike.cases {o o' : Option (α × List Char)} (h : Alike o o') :
    (o = none ∧ o' = none) ∨
      ∃ a rest rest', o = some (a, rest) ∧ o' = some (a, rest') ∧ Padded rest rest' := by
  rcases rel_cases h with hnone | ⟨⟨a, rest⟩, ⟨a', rest'⟩, rfl, rfl, heq, hrest⟩
  · exact Or.inl hnone
  · obtain rfl : a = a' := heq
    exact Or.inr ⟨a, rest, rest', rfl, rfl, hrest⟩

theorem Alike.eq_some {o : Option (α × List Char)} {a : α} {rest : List Char}
    (h : Alike (some (a, rest)) o) : ∃ rest', o = some (a, rest') ∧ Padded rest rest' := by
  obtain ⟨⟨a', rest'⟩, rfl, heq, hrest⟩ := eq_some_of_rel h
  obtain rfl : a = a' := heq
  exact ⟨rest', rfl, hrest⟩

theorem Alike.bind {γ δ : Type} {S : γ → δ → Prop} {o o' : Option (α × List Char)}
    {f : α × List Char → Option γ} {g : α × List Char → Option δ} (h : Alike o o')
    (hnext : ∀ a rest rest', Padded rest rest' → Option.Rel S (f (a, rest)) (g (a, rest'))) :
    Option.Rel S (o.bind f) (o'.bind g) := by
  rcases h.cases with ⟨rfl, rfl⟩ | ⟨a, rest, rest', rfl, rfl, hrest⟩
  · exact .none
  · exact hnext a rest rest' hrest

theorem Alike.map {o o' : Option (α × List Char)} {f g : α × List Char → β × List Char}
    (h : Alike o o')
    (hnext : ∀ a rest rest', Padded rest rest' →
      (f (a, rest)).1 = (g (a, rest')).1 ∧ Padded (f (a, rest)).2 (g (a, rest')).2) :
    Alike (o.map f) (o'.map g) := by
  rcases h.cases with ⟨rfl, rfl⟩ | ⟨a, rest, rest', rfl, rfl, hrest⟩
  · exact .none
  · exact .some (hnext a rest rest' hrest)

/-- The recogniser does not look at blanks behind the text. -/
def Overlooks (lexer : Lexer α) : Prop := ∀ s t, Padded s t → Alike (lexer s) (lexer t)

section Recognisers

theorem expect_padded (hc : isBlank c = false) (h : Padded s t) :
    Option.Rel Padded (expect c s) (expect c t) := by
  cases t with
  | nil =>
      have hnone : expect c s = none := by
        apply expect_eq_none
        rintro d hd rfl
        rw [h.isBlank_head hd] at hc
        exact absurd hc (by decide)
      rw [hnone]
      exact .none
  | cons d t =>
      obtain ⟨s, rfl, htail⟩ := h.of_cons
      rw [expect_cons, expect_cons]
      split
      · exact .some htail
      · exact .none

theorem expectAfterGap_padded (hc : isBlank c = false) (h : Padded s t) :
    Option.Rel Padded (expectAfterGap c s) (expectAfterGap c t) :=
  expect_padded hc h.skipGap

theorem stripSign_padded {sign : List Char} (hsign : sign.any isBlank = false)
    (h : Padded s t) : Option.Rel Padded (stripSign sign s) (stripSign sign t) := by
  induction sign generalizing s t with
  | nil => exact .some h
  | cons c sign ih =>
      rw [List.any_cons, Bool.or_eq_false_iff] at hsign
      exact rel_bind (expect_padded hsign.1 h) fun a b hab => ih hsign.2 hab

theorem signIn_cons (sign : List Char × α) (signs : List (List Char × α)) (s : List Char) :
    signIn (sign :: signs) s =
      ((stripSign sign.1 (skipGap s)).map fun rest => (sign.2, skipGap rest)).or
        (signIn signs s) := by
  simp only [signIn, List.findSome?_cons]
  cases stripSign sign.1 (skipGap s) <;> rfl

theorem overlooks_signIn {signs : List (List Char × α)}
    (hsigns : signs.all (fun sign => !sign.1.any isBlank) = true) : Overlooks (signIn signs) := by
  intro s t h
  induction signs with
  | nil => exact .none
  | cons sign signs ih =>
      rw [List.all_cons, Bool.and_eq_true, Bool.not_eq_true'] at hsigns
      rw [signIn_cons, signIn_cons]
      apply rel_or
      · apply rel_map (stripSign_padded hsigns.1 h.skipGap)
        exact fun a b hab => ⟨rfl, hab.skipGap⟩
      · exact ih hsigns.2

/-! ### Words, names and types -/

theorem stripWord_padded {word : List Char}
    (hword : ∀ c ∈ word, 0x61 ≤ c.toNat ∧ c.toNat ≤ 0x7A) (h : Padded s t) :
    Option.Rel Padded (stripWord word s) (stripWord word t) := by
  induction word generalizing s t with
  | nil => exact .some h
  | cons x word ih =>
      cases t with
      | nil =>
          cases s with
          | nil => exact .none
          | cons d s =>
              -- a blank is not a letter in any casing
              have hne : d.toLower ≠ x := by
                rintro rfl
                have hname := isNameChar_of_isAlphabetic
                  (isAlphabetic_of_toLower (hword _ List.mem_cons_self))
                rw [isNameChar_of_isBlank (h.isBlank_head rfl)] at hname
                exact absurd hname (by decide)
              have hnone : stripWord (x :: word) (d :: s) = none := if_neg hne
              rw [hnone]
              exact .none
      | cons d t =>
          obtain ⟨s, rfl, htail⟩ := h.of_cons
          rw [stripWord, stripWord]
          split
          · exact ih (fun c hc => hword c (List.mem_cons_of_mem x hc)) htail
          · exact .none

theorem Padded.startsInName_eq (h : Padded s t) : startsInName s = startsInName t := by
  cases t with
  | nil =>
      rw [startsInName, startsInName_eq_false]
      exact fun c hc => isNameChar_of_isBlank (h.isBlank_head hc)
  | cons c t =>
      obtain ⟨s, rfl, -⟩ := h.of_cons
      rfl

theorem keyword_padded {word : List Char} (hword : word ∈ reservedWords) (h : Padded s t) :
    Option.Rel Padded (keyword word s) (keyword word t) := by
  apply rel_bind (stripWord_padded (reservedWords_letters word hword) h.skipGap)
  intro a b hab
  rw [hab.startsInName_eq]
  split
  · exact .none
  · exact .some hab.skipGap

theorem keywords_padded {words : List (List Char)} (hwords : ∀ word ∈ words, word ∈ reservedWords)
    (h : Padded s t) : Option.Rel Padded (keywords words s) (keywords words t) := by
  induction words generalizing s t with
  | nil => exact .some h
  | cons word words ih =>
      rw [keywords_cons, keywords_cons]
      have hothers := fun other hother => hwords other (List.mem_cons_of_mem word hother)
      exact rel_bind (keyword_padded (hwords word List.mem_cons_self) h) fun _ _ => ih hothers

theorem isAlphabetic_of_isBlank (h : isBlank c = true) : isAlphabetic c = false := by
  cases halpha : isAlphabetic c with
  | false => rfl
  | true => rw [← isNameChar_of_isBlank h, isNameChar_of_isAlphabetic halpha]

theorem isDigit_of_isBlank (h : isBlank c = true) : c.isDigit = false := by
  cases hdigit : c.isDigit with
  | false => rfl
  | true => rw [← isNameChar_of_isBlank h, isNameChar_of_isDigit hdigit]

theorem overlooks_name : Overlooks name := by
  intro s t h
  cases t with
  | nil =>
      have hnone : name s = none := by
        apply name_eq_none
        intro c hc
        have hblank := h.isBlank_head hc
        cases hstart : isNameStart c with
        | false => rfl
        | true => rw [← isNameChar_of_isBlank hblank, isNameChar_of_isNameStart hstart]
      rw [hnone]
      exact .none
  | cons c t =>
      obtain ⟨s, rfl, htail⟩ := h.of_cons
      obtain ⟨htake, hdrop⟩ := htail.span fun c => isNameChar_of_isBlank
      simp only [name, htake]
      split
      · split
        · exact .none
        · exact .some ⟨rfl, hdrop⟩
      · exact .none

theorem overlooks_typeName : Overlooks typeName := by
  intro s t h
  obtain ⟨htake, hdrop⟩ := h.span fun c => isAlphabetic_of_isBlank
  rw [typeName, typeName, htake]
  cases AttrType.ofLetters? (t.takeWhile isAlphabetic) with
  | none => exact .none
  | some type => exact .some ⟨rfl, hdrop⟩

theorem typeAfter_padded (sign : List Char) (hsign : sign.any isBlank = false)
    (h : Padded s t) :
    (typeAfter sign s).1 = (typeAfter sign t).1 ∧
      Padded (typeAfter sign s).2 (typeAfter sign t).2 := by
  have hfound := rel_bind (stripSign_padded hsign h) overlooks_typeName
  rcases Alike.cases hfound with ⟨hs, ht⟩ | ⟨type, rest, rest', hs, ht, hrest⟩
  · rw [typeAfter, typeAfter, hs, ht]
    exact ⟨rfl, h⟩
  · rw [typeAfter, typeAfter, hs, ht]
    exact ⟨rfl, hrest⟩

/-! ### Numbers and quoted strings -/

theorem overlooks_digits : Overlooks digits := by
  intro s t h
  obtain ⟨htake, hdrop⟩ := h.span fun c => isDigit_of_isBlank
  rw [digits, digits, htake]
  split
  · exact .none
  · exact .some ⟨rfl, hdrop⟩

theorem fraction_padded (h : Padded s t) :
    (fraction s).1 = (fraction t).1 ∧ Padded (fraction s).2 (fraction t).2 := by
  have hfound := rel_bind (expect_padded (c := '.') (by decide) h) overlooks_digits
  rcases Alike.cases hfound with ⟨hs, ht⟩ | ⟨ds, rest, rest', hs, ht, hrest⟩
  · rw [fraction, fraction, hs, ht]
    exact ⟨rfl, h⟩
  · rw [fraction, fraction, hs, ht]
    exact ⟨rfl, hrest⟩

theorem mark_padded (h : Padded s t) : (mark s).1 = (mark t).1 ∧ Padded (mark s).2 (mark t).2 := by
  cases t with
  | nil =>
      cases s with
      | nil => exact ⟨rfl, h⟩
      | cons d s =>
          have hblank := h.isBlank_head rfl
          have hnone : Mark.ofChar? d = none := by
            cases hmark : Mark.ofChar? d with
            | none => rfl
            | some m =>
                have hname := isNameChar_of_ofChar? hmark
                rw [isNameChar_of_isBlank hblank] at hname
                exact absurd hname (by decide)
          have hmark : mark (d :: s) = (none, d :: s) := by rw [mark, hnone]
          rw [hmark]
          exact ⟨rfl, h⟩
  | cons d t =>
      obtain ⟨s, rfl, htail⟩ := h.of_cons
      rw [mark, mark]
      cases Mark.ofChar? d with
      | none => exact ⟨rfl, h⟩
      | some m => exact ⟨rfl, htail⟩

theorem overlooks_literal : Overlooks literal := by
  -- with or without a minus sign the digits start at the same place
  have hunsigned : ∀ negative {s t : List Char}, Padded s t →
      Alike
        ((digits s).map fun found =>
          ((⟨negative, found.1, (fraction found.2).1, (mark (fraction found.2).2).1⟩ : Literal),
            (mark (fraction found.2).2).2))
        ((digits t).map fun found =>
          (⟨negative, found.1, (fraction found.2).1, (mark (fraction found.2).2).1⟩,
            (mark (fraction found.2).2).2)) := by
    intro negative s t h
    refine (overlooks_digits s t h).map fun whole rest rest' hrest => ?_
    obtain ⟨hfraction, hafter⟩ := fraction_padded hrest
    obtain ⟨hmark, hend⟩ := mark_padded hafter
    exact ⟨by simp only [hfraction, hmark], hend⟩
  intro s t h
  rw [literal, literal]
  rcases rel_cases (expect_padded (c := '-') (by decide) h) with
    ⟨hs, ht⟩ | ⟨rest, rest', hs, ht, hrest⟩
  · rw [hs, ht]
    exact hunsigned false h
  · rw [hs, ht]
    exact hunsigned true hrest

/-- A quote is missing in both texts, or ends the same string. -/
theorem Padded.toQuote {quote : Char} (hquote : isBlank quote = false) (h : Padded s t) :
    (s.dropWhile (· != quote) = [] ∧ t.dropWhile (· != quote) = []) ∨
      (s.takeWhile (· != quote) = t.takeWhile (· != quote) ∧
        Padded (s.dropWhile (· != quote)) (t.dropWhile (· != quote))) := by
  induction t generalizing s with
  | nil =>
      obtain ⟨blanks, hblanks, rfl⟩ := h
      left
      refine ⟨List.dropWhile_eq_nil_iff.mpr fun c hc => ?_, rfl⟩
      rw [bne_iff_ne]
      rintro rfl
      rw [hblanks c hc] at hquote
      exact absurd hquote (by decide)
  | cons c t ih =>
      obtain ⟨s, rfl, htail⟩ := h.of_cons
      cases hc : c != quote with
      | true => simpa [hc] using ih htail
      | false => exact Or.inr (by simpa [hc] using htail.cons c)

theorem overlooks_quotedBy {quote : Char} (hquote : isBlank quote = false) :
    Overlooks (quotedBy quote) := by
  intro s t h
  refine rel_bind (expect_padded hquote h) fun body body' hbody => ?_
  rcases hbody.toQuote hquote with ⟨hs, ht⟩ | ⟨htake, hdrop⟩
  · rw [hs, ht]
    exact .none
  · apply rel_map (expect_padded hquote hdrop)
    exact fun a b hab => ⟨htake, hab⟩

theorem overlooks_quoted : Overlooks quoted := fun s t h =>
  rel_or (overlooks_quotedBy (by decide) s t h) (overlooks_quotedBy (by decide) s t h)

/-! ### Heads of calls and suffixes -/

theorem overlooks_callHead : Overlooks callHead := by
  intro s t h
  refine (overlooks_name s t h).bind fun first rest rest' hrest => ?_
  rcases rel_cases (expect_padded (c := ':') (by decide) hrest) with
    ⟨hs, ht⟩ | ⟨after, after', hs, ht, hafter⟩
  · simp only [hs, ht]
    exact .some ⟨rfl, hrest⟩
  · simp only [hs, ht]
    exact (overlooks_name after after' hafter).map fun second rest rest' hrest => ⟨rfl, hrest⟩

theorem overlooks_suffix : Overlooks suffix := by
  intro s t h
  apply rel_or
  · apply rel_map (keywords_padded (by decide) h)
    exact fun a b hab => ⟨rfl, hab⟩
  apply rel_or
  · apply rel_map (keywords_padded (by decide) h)
    exact fun a b hab => ⟨rfl, hab⟩
  · have hstore : Alike ((keyword "in".toList s).bind name) ((keyword "in".toList t).bind name) :=
      rel_bind (keyword_padded (by decide) h) overlooks_name
    exact hstore.map fun store rest rest' hrest => ⟨rfl, hrest⟩

theorem overlooks_mathBetween {signs : List (List Char × MathOp)}
    (hsigns : signs.all (fun sign => !sign.1.any isBlank) = true) :
    Overlooks (mathBetween signs) := fun s t h =>
  (overlooks_signIn hsigns s t h).map fun _ _ _ hrest => ⟨rfl, hrest⟩

theorem overlooks_wordBetween {word : List Char} (hword : word ∈ reservedWords)
    (node : Expr → Expr → Expr) : Overlooks (wordBetween word node) := fun _ _ h =>
  rel_map (keyword_padded hword h) fun _ _ hrest => ⟨rfl, hrest⟩

end Recognisers

end Pushdown.Condition
