import Pushdown.Proofs.Condition.Built
import Pushdown.Proofs.Condition.Grammar

/-!
# What the recognisers have found

Where a recogniser of the condition language answers, the text starts with a token of the grammar,
and what the recogniser leaves is the text behind the token. This is the converse of what the
recognisers do on composed texts.
-/

namespace Pushdown.Condition

open Text Number

variable {s t u rest w : List Char} {c : Char}

/-! ## Gaps -/

theorem Skips.refl (s : List Char) : Skips s s := ⟨[], rfl, rfl⟩

theorem Skips.trans (h : Skips s t) (h' : Skips t u) : Skips s u := by
  obtain ⟨g, hg, rfl⟩ := h
  obtain ⟨g', hg', rfl⟩ := h'
  exact ⟨g ++ g', by simp [hg, hg'], by simp⟩

theorem skips_skipGap (s : List Char) : Skips s (skipGap s) :=
  ⟨s.takeWhile isGap, List.all_takeWhile, List.takeWhile_append_dropWhile.symm⟩

/-- The gaps next to a token are as wide as one likes. -/
theorem Around.widen {token : List Char → List Char → Prop} {s' t' : List Char}
    (hbefore : Skips s s') (h : Around token s' t') (hbehind : Skips t' t) : Around token s t := by
  obtain ⟨u, v, hu, htoken, hv⟩ := h
  exact ⟨u, v, hbefore.trans hu, htoken, hv.trans hbehind⟩

/-! ## Characters and signs -/

theorem expect_eq_some (h : expect c s = some rest) : s = c :: rest := by
  cases s with
  | nil => simp [expect] at h
  | cons d s =>
      rw [expect_cons] at h
      split at h
      · rename_i hd
        rw [hd, Option.some.inj h]
      · simp at h

theorem expectAfterGap_eq_some (h : expectAfterGap c s = some rest) : Skips s (c :: rest) :=
  expect_eq_some h ▸ skips_skipGap s

theorem stripSign_eq_some {sign : List Char} (h : stripSign sign s = some rest) :
    s = sign ++ rest := by
  induction sign generalizing s with
  | nil => exact Option.some.inj h
  | cons x xs ih =>
      simp only [stripSign, Option.bind_eq_some_iff] at h
      obtain ⟨after, hx, hxs⟩ := h
      rw [expect_eq_some hx, ih hxs, List.cons_append]

/-- A sign that is found is a way to write its operator, if each sign of the table is one. -/
theorem sign_of_signIn {α : Type} {signs : List (List Char × α)} {spellings : α → List String}
    (hsigns : ∀ p ∈ signs, ∃ sign ∈ spellings p.2, sign.toList = p.1) {op : α}
    (h : signIn signs s = some (op, rest)) : Around (Sign spellings op) s rest := by
  rw [signIn] at h
  obtain ⟨p, hp, hfound⟩ := List.exists_of_findSome?_eq_some h
  simp only [Option.map_eq_some_iff, Prod.mk.injEq] at hfound
  obtain ⟨after, hstrip, rfl, rfl⟩ := hfound
  obtain ⟨sign, hsign, hspelled⟩ := hsigns p hp
  refine ⟨skipGap s, after, skips_skipGap s, ⟨sign, hsign, ?_⟩, skips_skipGap after⟩
  rw [hspelled]
  exact stripSign_eq_some hstrip

theorem spells_compareSigns :
    ∀ p ∈ compareSigns, ∃ sign ∈ compareSpellings p.2, sign.toList = p.1 := by
  decide

theorem spells_sumSigns : ∀ p ∈ sumSigns, ∃ sign ∈ sumSpellings p.2, sign.toList = p.1 := by
  decide

theorem spells_productSigns :
    ∀ p ∈ productSigns, ∃ sign ∈ productSpellings p.2, sign.toList = p.1 := by
  decide

/-! ## Words -/

theorem word_of_keyword {word : List Char} (h : keyword word s = some rest) :
    Around (Word word) s rest := by
  simp only [keyword, Option.bind_eq_some_iff] at h
  obtain ⟨after, hstrip, hend⟩ := h
  obtain ⟨u, hu, hspelled⟩ := stripWord_eq_some hstrip
  split at hend
  · simp at hend
  · rename_i hfree
    obtain rfl := Option.some.inj hend
    exact ⟨skipGap s, after, skips_skipGap s, ⟨u, hu, hspelled, by simpa using hfree⟩,
      skips_skipGap after⟩

theorem word_of_keywords {word : List Char} {words : List (List Char)}
    (h : keywords (word :: words) s = some rest) :
    ∃ mid, Around (Word word) s mid ∧ keywords words mid = some rest := by
  simp only [keywords, List.foldlM_cons, Option.bind_eq_bind, Option.bind_eq_some_iff] at h
  obtain ⟨mid, hword, hwords⟩ := h
  exact ⟨mid, word_of_keyword hword, hwords⟩

theorem ident_of_name (h : name s = some (w, rest)) : Ident w s rest := by
  have hname := isName_of_name h
  cases s with
  | nil => simp [name] at h
  | cons c s =>
      simp only [name] at h
      split at h
      · split at h
        · simp at h
        · simp only [Option.some.injEq, Prod.mk.injEq] at h
          obtain ⟨rfl, rfl⟩ := h
          refine ⟨?_, hname, startsInName_eq_false.mpr fun d hd => head_dropWhile hd⟩
          rw [List.cons_append, List.takeWhile_append_dropWhile]
      · simp at h

theorem callee_of_callHead {space : Option (List Char)} {function : List Char}
    (h : callHead s = some ((space, function), rest)) : Callee space function s rest := by
  simp only [callHead, Option.bind_eq_some_iff, Prod.exists] at h
  obtain ⟨first, afterFirst, hfirst, h⟩ := h
  split at h
  · rename_i afterColon hcolon
    simp only [Option.map_eq_some_iff, Prod.mk.injEq, Prod.exists] at h
    obtain ⟨second, afterSecond, hsecond, ⟨rfl, rfl⟩, rfl⟩ := h
    refine ⟨afterColon, ?_, ident_of_name hsecond⟩
    rw [← expect_eq_some hcolon]
    exact ident_of_name hfirst
  · simp only [Option.some.injEq, Prod.mk.injEq] at h
    obtain ⟨⟨rfl, rfl⟩, rfl⟩ := h
    exact ident_of_name hfirst

/-! ## Types -/

theorem letters_of_typeName {type : AttrType} (h : typeName s = some (type, rest)) :
    ∃ letters, s = letters ++ rest ∧ lowerAscii letters = type.name.toList ∧
      ∀ c ∈ rest.head?, isAlphabetic c = false := by
  simp only [typeName, Option.map_eq_some_iff, Prod.mk.injEq] at h
  obtain ⟨found, hfound, rfl, rfl⟩ := h
  rw [AttrType.ofLetters?] at hfound
  have hspelled := List.find?_some hfound
  exact ⟨s.takeWhile isAlphabetic, List.takeWhile_append_dropWhile.symm,
    (beq_iff_eq.mp hspelled).symm, fun c hc => head_dropWhile hc⟩

theorem typeNote_typeAfter (sign s : List Char) :
    TypeNote sign (typeAfter sign s).1 s (typeAfter sign s).2 := by
  cases hfound : (stripSign sign s).bind typeName with
  | none => exact Or.inl (by simp [typeAfter, hfound])
  | some found =>
      rw [typeAfter, hfound, Option.getD_some]
      obtain ⟨after, hsign, hname⟩ := Option.bind_eq_some_iff.mp hfound
      obtain ⟨letters, hletters, hspelled, hend⟩ := letters_of_typeName hname
      exact Or.inr ⟨letters, hletters ▸ stripSign_eq_some hsign, hspelled, hend⟩

/-! ## Numbers -/

theorem isDigits_of_digits {ds : List Char} (h : digits s = some (ds, rest)) :
    IsDigits ds ∧ s = ds ++ rest := by
  rw [digits] at h
  split at h
  · simp at h
  · rename_i hne
    simp only [Option.some.injEq, Prod.mk.injEq] at h
    obtain ⟨rfl, rfl⟩ := h
    exact ⟨⟨by simpa using hne, List.all_takeWhile⟩, List.takeWhile_append_dropWhile.symm⟩

theorem pointed_fraction (s : List Char) :
    (∀ ds ∈ (fraction s).1, IsDigits ds) ∧ s = pointed (fraction s).1 ++ (fraction s).2 := by
  rw [fraction]
  split
  · rename_i ds rest hfound
    obtain ⟨after, hpoint, hdigits⟩ := Option.bind_eq_some_iff.mp hfound
    obtain ⟨hds, hafter⟩ := isDigits_of_digits hdigits
    refine ⟨by simpa using hds, ?_⟩
    rw [expect_eq_some hpoint, hafter]
    rfl
  · simp [pointed]

theorem mem_letters_of_ofChar? {m : Mark} (h : Mark.ofChar? c = some m) : c ∈ m.letters := by
  rw [Mark.ofChar?] at h
  split at h
  · obtain rfl := Option.some.inj h
    simpa [Mark.letters]
  · split at h
    · obtain rfl := Option.some.inj h
      simpa [Mark.letters]
    · split at h
      · obtain rfl := Option.some.inj h
        simpa [Mark.letters]
      · simp at h

theorem markText_mark (s : List Char) :
    ∃ letter, MarkText (mark s).1 letter ∧ s = letter ++ (mark s).2 := by
  cases s with
  | nil => exact ⟨[], rfl, rfl⟩
  | cons c s =>
      rw [mark]
      split
      · rename_i m hm
        exact ⟨[c], ⟨c, mem_letters_of_ofChar? hm, rfl⟩, rfl⟩
      · exact ⟨[], rfl, rfl⟩

/-- A number from its digits on, behind a minus sign or without one. -/
theorem numberText_of_digits (negative : Bool) {whole : List Char}
    (h : digits s = some (whole, rest)) :
    NumberText ⟨negative, whole, (fraction rest).1, (mark (fraction rest).2).1⟩
      (minus negative ++ s) (mark (fraction rest).2).2 := by
  obtain ⟨hwhole, hs⟩ := isDigits_of_digits h
  obtain ⟨hfraction, hrest⟩ := pointed_fraction rest
  obtain ⟨letter, hletter, hend⟩ := markText_mark (fraction rest).2
  refine ⟨hwhole, hfraction, letter, hletter, ?_⟩
  rw [← hend, ← hrest, ← hs]

/-- A number that is read has digits behind an optional minus sign, and behind them what is read of
a fraction and a mark. -/
theorem digits_of_literal {n : Literal} (h : literal s = some (n, rest)) :
    ∃ negative unsigned whole after, s = minus negative ++ unsigned ∧
      digits unsigned = some (whole, after) ∧
      n = ⟨negative, whole, (fraction after).1, (mark (fraction after).2).1⟩ ∧
      rest = (mark (fraction after).2).2 := by
  rw [literal] at h
  split at h
  rename_i negative unsigned hsign
  have hs : s = minus negative ++ unsigned := by
    split at hsign
    · rename_i behind hminus
      obtain ⟨rfl, rfl⟩ := Prod.mk.inj hsign
      exact expect_eq_some hminus
    · obtain ⟨rfl, rfl⟩ := Prod.mk.inj hsign
      rfl
  simp only [Option.map_eq_some_iff, Prod.mk.injEq, Prod.exists] at h
  obtain ⟨whole, after, hdigits, rfl, rfl⟩ := h
  exact ⟨negative, unsigned, whole, after, hs, hdigits, rfl, rfl⟩

/-- A number that is read is written with nothing between its parts. -/
theorem numberText_of_literal {n : Literal} (h : literal s = some (n, rest)) :
    NumberText n s rest := by
  obtain ⟨negative, unsigned, whole, after, rfl, hdigits, rfl, rfl⟩ := digits_of_literal h
  exact numberText_of_digits negative hdigits

/-- A number that has a value stands for the constant that the grammar gives it. -/
theorem numberConstant_of_value? {n : Literal} {value : Value} (h : n.value? = some value) :
    NumberConstant n (.literal value) := by
  obtain ⟨negative, whole, fraction, mark⟩ := n
  rcases mark with _ | _ | _ | _
  · cases fraction with
    | none =>
        simp only [Literal.value?, toInt32?, toInt64?, Option.or_eq_some_iff,
          Option.map_eq_some_iff, Option.map_eq_none_iff, Option.ite_none_right_eq_some,
          Option.some.injEq, ite_eq_right_iff, reduceCtorEq, imp_false] at h
        rcases h with ⟨value, ⟨hfits, rfl⟩, rfl⟩ | ⟨hwide, value, ⟨hfits, rfl⟩, rfl⟩
        · exact .int hfits
        · exact .wide hwide hfits
    | some ds =>
        obtain rfl := Option.some.inj h
        exact .decimal rfl rfl
  · cases fraction with
    | none =>
        simp only [Literal.value?, toInt64?, Option.map_eq_some_iff,
          Option.ite_none_right_eq_some, Option.some.injEq] at h
        obtain ⟨value, ⟨hfits, rfl⟩, rfl⟩ := h
        exact .long hfits
    | some ds => simp [Literal.value?] at h
  · obtain rfl := Option.some.inj h
    exact .float rfl
  · obtain rfl := Option.some.inj h
    exact .double rfl

/-! ## Quoted strings -/

theorem eq_of_quotedBy {quote : Char} {body : List Char}
    (h : quotedBy quote s = some (body, rest)) : s = quote :: (body ++ quote :: rest) := by
  simp only [quotedBy, Option.bind_eq_some_iff, Option.map_eq_some_iff, Prod.mk.injEq] at h
  obtain ⟨inside, hopen, after, hclose, rfl, rfl⟩ := h
  rw [expect_eq_some hopen, ← expect_eq_some hclose, List.takeWhile_append_dropWhile]

theorem exists_quote_of_quoted {body : List Char} (h : quoted s = some (body, rest)) :
    ∃ quote, (quote = '\x27' ∨ quote = '"') ∧ quotedBy quote s = some (body, rest) := by
  rw [quoted, Option.or_eq_some_iff] at h
  rcases h with h | ⟨-, h⟩
  · exact ⟨'\x27', Or.inl rfl, h⟩
  · exact ⟨'"', Or.inr rfl, h⟩

end Pushdown.Condition
