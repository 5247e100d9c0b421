import Mathlib.Data.List.TakeWhile
import Pushdown.Proofs.Condition.Tokens

/-!
# Every parsed text is a text of the language

A reader is sound for a relation of the grammar if the relation holds of whatever the reader has
read: behind a gap stands a phrase with the value that was read, and behind the phrase stands
another gap and then what is left (`Sound`). Each reader of a level is sound for the level if the
readers that it uses are, so terms are sound within every budget by induction on it.

A parsed text is then a phrase of the language from its first character to its last
(`derives_of_parse`). A construct that was begun and given up does not count as read: what the
reader leaves is still to be accounted for, and at the end nothing is left.

## Implementation notes

The gap in front of a phrase is skipped by its first operand, and the one behind it by a reserved
word at its end. The grammar has gaps between tokens only, so both are kept out of the phrase.
-/

namespace Pushdown.Condition

open Text Number

variable {α β : Type}

/-! ## Phrases between gaps -/

/-- A value stands in the text behind a gap, and in front of a gap and what is left. -/
def FoundBy (R : List Char → List Char → α → Prop) (s : List Char) (a : α)
    (rest : List Char) : Prop :=
  ∃ t u, Skips s t ∧ R t u a ∧ Skips u rest

/-- Whatever the reader gives is found by the relation. -/
def Sound (reader : Reader α) (R : List Char → List Char → α → Prop) : Prop :=
  ∀ s a rest, reader s = .ok a rest → FoundBy R s a rest

namespace FoundBy

variable {R R' : List Char → List Char → α → Prop} {Q : List Char → List Char → β → Prop}
  {s mid after rest : List Char} {a : α} {b : β}

theorem of_rule (h : R s rest a) : FoundBy R s a rest :=
  ⟨s, rest, Skips.refl s, h, Skips.refl rest⟩

theorem imp (h : FoundBy R s a rest) (himp : ∀ t u, R t u a → R' t u a) :
    FoundBy R' s a rest := by
  obtain ⟨t, u, ht, hR, hu⟩ := h
  exact ⟨t, u, ht, himp t u hR, hu⟩

/-- Two phrases with a token between them are one, if the grammar says so of phrases without the
gaps around them. -/
theorem join {γ : Type} {P : List Char → List Char → γ → Prop} {c : γ}
    {token : List Char → List Char → Prop} (ha : FoundBy R s a mid)
    (htoken : Around token mid after) (hb : FoundBy Q after b rest)
    (hrule : ∀ t u v w, R t u a → Around token u v → Q v w b → P t w c) :
    FoundBy P s c rest := by
  obtain ⟨t, u, ht, hR, hu⟩ := ha
  obtain ⟨v, w, hv, hQ, hw⟩ := hb
  exact ⟨t, w, ht, hrule t u v w hR (htoken.widen hu hv) hQ, hw⟩

end FoundBy

/-! ## Lists folded to the left -/

section Chains

variable {op : Lexer (α → α → α)} {item : Reader α} {L I : List Char → List Char → α → Prop}

/-- The operators of a list are tokens, behind which one more item makes a longer list. -/
def Joins (op : Lexer (α → α → α)) (L I : List Char → List Char → α → Prop) : Prop :=
  ∀ s f rest, op s = some (f, rest) → ∃ token, Around token s rest ∧
    ∀ t u v w a b, L t u a → Around token u v → I v w b → L t w (f a b)

/-- What is read of a list stays a list with every item that is read behind it. -/
theorem foundBy_chainTail (hop : Joins op L I) (hitem : Sound item I) {start s rest : List Char}
    {acc a : α} (hacc : FoundBy L start acc s) (h : chainTail op item acc s = .ok a rest) :
    FoundBy L start a rest := by
  fun_induction chainTail op item acc s with
  | case1 acc s hnone =>
      obtain ⟨rfl, rfl⟩ := Outcome.ok.inj h
      exact hacc
  | case2 acc s f afterOp hsome value mid hread hlen ih =>
      obtain ⟨token, htoken, hrule⟩ := hop s f afterOp hsome
      have hvalue := hitem afterOp value mid hread
      exact ih (hacc.join htoken hvalue fun t u v w => hrule t u v w acc value) h
  | case3 acc s f afterOp hsome value mid hread hlen => simp at h
  | case4 acc s f afterOp hsome cause here hread =>
      obtain ⟨rfl, rfl⟩ := Outcome.ok.inj h
      exact hacc
  | case5 acc s f afterOp hsome cause here hread => simp at h

/-- A reader of lists is sound, if one item is a list. -/
theorem sound_chain (hop : Joins op L I) (hone : ∀ s t a, I s t a → L s t a)
    (hitem : Sound item I) : Sound (chain op item) L := by
  intro s a rest h
  obtain ⟨first, mid, hfirst, htail⟩ := Outcome.andThen_eq_ok h
  have hstart := (hitem s first mid hfirst).imp fun t u => hone t u first
  exact foundBy_chainTail hop hitem hstart htail

end Chains

/-! ## Operands -/

variable {nested : Reader Expr} {s rest : List Char} {e : Expr}

theorem derives_of_group (hnested : Sound nested (Derives .condition))
    (h : group nested s = .ok e rest) : Derives .operand s rest e := by
  rw [group] at h
  split at h
  · simp at h
  · rename_i inside hopen
    obtain ⟨value, mid, hread, hclose⟩ := Outcome.andThen_eq_ok h
    obtain ⟨t, u, ht, hvalue, hu⟩ := hnested inside value mid hread
    split at hclose
    · rename_i behind hbehind
      obtain ⟨rfl, rfl⟩ := Outcome.ok.inj hclose
      rw [expect_eq_some hopen]
      exact .group ht hvalue (hu.trans (expectAfterGap_eq_some hbehind))
    · simp at hclose

theorem derives_of_number (h : number s = .ok e rest) : Derives .operand s rest e := by
  rw [number] at h
  split at h
  · simp at h
  · rename_i n behind hliteral
    split at h
    · rename_i value hvalue
      obtain ⟨rfl, rfl⟩ := Outcome.ok.inj h
      exact .number (numberText_of_literal hliteral) (numberConstant_of_value? hvalue)
    · simp at h

theorem derives_of_text (h : text s = .ok e rest) : Derives .operand s rest e := by
  have hfound := Outcome.ofOption_eq_ok h
  simp only [Option.map_eq_some_iff, Prod.mk.injEq, Prod.exists] at hfound
  obtain ⟨body, behind, hquoted, rfl, rfl⟩ := hfound
  obtain ⟨quote, hquote, hbody⟩ := exists_quote_of_quoted hquoted
  rw [eq_of_quotedBy hbody]
  exact .quoted hquote (not_mem_of_quotedBy hbody)

theorem derives_of_parameter (h : parameter s = .ok e rest) : Derives .operand s rest e := by
  have hfound := Outcome.ofOption_eq_ok h
  simp only [toUInt64?, Option.bind_eq_some_iff, Option.map_eq_some_iff,
    Option.ite_none_right_eq_some, Option.some.injEq, Prod.mk.injEq, Prod.exists] at hfound
  obtain ⟨afterSign, hsign, ds, behind, hdigits, index, ⟨hfits, rfl⟩, rfl, rfl⟩ := hfound
  obtain ⟨hds, rfl⟩ := isDigits_of_digits hdigits
  rw [expect_eq_some hsign]
  exact .parameter hds hfits (typeNote_typeAfter [':'] behind)

theorem derives_of_field (h : field s = .ok e rest) : Derives .operand s rest e := by
  have hfound := Outcome.ofOption_eq_ok h
  simp only [Option.bind_eq_some_iff, Option.map_eq_some_iff, Prod.mk.injEq, Prod.exists]
    at hfound
  obtain ⟨stream, afterStream, hstream, afterPoint, hpoint, attr, behind, hattr, rfl, rfl⟩ :=
    hfound
  have hident := ident_of_name hstream
  rw [expect_eq_some hpoint] at hident
  exact .field hident (ident_of_name hattr) (typeNote_typeAfter [':', ':'] behind)

theorem derives_of_column (h : column s = .ok e rest) : Derives .operand s rest e := by
  rw [column] at h
  split at h
  · simp at h
  · rename_i attr behind hattr
    obtain ⟨rfl, rfl⟩ := Outcome.ok.inj h
    exact .column (ident_of_name hattr) (typeNote_typeAfter [':', ':'] behind)

/-- A constant is found if its reserved word is one of the grammar's operands. -/
theorem foundBy_of_wordConstant {word : List Char} {value : Value}
    (hword : ∀ t u, Word word t u → Derives .operand t u (Expr.literal value))
    (h : wordConstant word value s = .ok e rest) : FoundBy (Derives .operand) s e rest := by
  have hfound := Outcome.ofOption_eq_ok h
  simp only [Option.map_eq_some_iff, Prod.mk.injEq] at hfound
  obtain ⟨behind, hkeyword, rfl, rfl⟩ := hfound
  obtain ⟨t, u, ht, htu, hu⟩ := word_of_keyword hkeyword
  exact ⟨t, u, ht, hword t u htu, hu⟩

/-! ## Calls -/

/-- The gap before further arguments is the one before their comma; without further arguments it
is left. -/
theorem Derives.furtherArguments_of_skips {t u : List Char} {es : List Expr} (hgap : Skips s t)
    (h : Derives .furtherArguments t u es) :
    ∃ v, Derives .furtherArguments s v es ∧ Skips v u := by
  cases h with
  | noFurther => exact ⟨s, .noFurther, hgap⟩
  | further hcomma hafter he hes =>
      exact ⟨u, .further (hgap.trans hcomma) hafter he hes, Skips.refl u⟩

theorem derives_of_moreArguments (hnested : Sound nested (Derives .condition)) {es : List Expr}
    (h : moreArguments nested s = .ok es rest) :
    ∃ u, Derives .furtherArguments s u es ∧ Skips u rest := by
  fun_induction moreArguments nested s generalizing es with
  | case1 s hnone =>
      obtain ⟨rfl, rfl⟩ := Outcome.ok.inj h
      exact ⟨s, .noFurther, Skips.refl s⟩
  | case2 s afterComma hcomma e mid hread hlen ih =>
      obtain ⟨others, hothers, rfl⟩ := Outcome.map_eq_ok h
      obtain ⟨t, u, ht, he, hu⟩ := hnested afterComma e mid hread
      obtain ⟨v, hes, hv⟩ := ih hothers
      obtain ⟨w, hes, hw⟩ := hes.furtherArguments_of_skips hu
      exact ⟨w, .further (expectAfterGap_eq_some hcomma) ht he hes, hw.trans hv⟩
  | case3 s afterComma hcomma e mid hread hlen => simp at h
  | case4 s afterComma hcomma cause here hread =>
      obtain ⟨rfl, rfl⟩ := Outcome.ok.inj h
      exact ⟨s, .noFurther, Skips.refl s⟩
  | case5 s afterComma hcomma cause here hread => simp at h

theorem derives_of_arguments (hnested : Sound nested (Derives .condition)) {es : List Expr}
    (h : arguments nested s = .ok es rest) :
    ∃ u, Derives .arguments s u es ∧ Skips u rest := by
  rw [arguments] at h
  split at h
  · rename_i e mid hread
    obtain ⟨others, hothers, rfl⟩ := Outcome.map_eq_ok h
    obtain ⟨t, u, ht, he, hu⟩ := hnested s e mid hread
    obtain ⟨v, hes, hv⟩ := derives_of_moreArguments hnested hothers
    obtain ⟨w, hes, hw⟩ := hes.furtherArguments_of_skips hu
    exact ⟨w, .arguments ht he hes, hw.trans hv⟩
  · obtain ⟨rfl, rfl⟩ := Outcome.ok.inj h
    exact ⟨s, .noArguments, Skips.refl s⟩
  · simp at h

theorem derives_of_call (hnested : Sound nested (Derives .condition))
    (h : call nested s = .ok e rest) : Derives .operand s rest e := by
  rw [call] at h
  split at h
  · simp at h
  · rename_i space function afterHead hhead
    split at h
    · simp at h
    · rename_i inside hopen
      obtain ⟨args, mid, hread, hclose⟩ := Outcome.andThen_eq_ok h
      obtain ⟨u, hargs, hu⟩ := derives_of_arguments hnested hread
      split at hclose
      · rename_i behind hbehind
        obtain ⟨rfl, rfl⟩ := Outcome.ok.inj hclose
        exact .call (callee_of_callHead hhead) (expectAfterGap_eq_some hopen) hargs
          (hu.trans (expectAfterGap_eq_some hbehind))
      · simp at hclose

/-- Whichever alternative reads an operand, it reads one of the grammar. -/
theorem foundBy_of_bareOperand (hnested : Sound nested (Derives .condition))
    (h : bareOperand nested s = .ok e rest) : FoundBy (Derives .operand) s e rest := by
  rw [bareOperand] at h
  rcases Outcome.orElse_eq_ok h with h | h
  · exact .of_rule (derives_of_group hnested h)
  rcases Outcome.orElse_eq_ok h with h | h
  · exact .of_rule (derives_of_number h)
  rcases Outcome.orElse_eq_ok h with h | h
  · exact .of_rule (derives_of_text h)
  rcases Outcome.orElse_eq_ok h with h | h
  · exact foundBy_of_wordConstant (fun t u => .truth true) h
  rcases Outcome.orElse_eq_ok h with h | h
  · exact foundBy_of_wordConstant (fun t u => .truth false) h
  rcases Outcome.orElse_eq_ok h with h | h
  · exact foundBy_of_wordConstant (fun t u => .null) h
  rcases Outcome.orElse_eq_ok h with h | h
  · exact .of_rule (derives_of_parameter h)
  rcases Outcome.orElse_eq_ok h with h | h
  · exact .of_rule (derives_of_call hnested h)
  rcases Outcome.orElse_eq_ok h with h | h
  · exact .of_rule (derives_of_field h)
  · exact .of_rule (derives_of_column h)

theorem sound_operand (hnested : Sound nested (Derives .condition)) :
    Sound (operand nested) (Derives .operand) := by
  intro s e rest h
  obtain ⟨t, u, ht, he, hu⟩ := foundBy_of_bareOperand hnested h
  exact ⟨t, u, (skips_skipGap s).trans ht, he, hu⟩

/-! ## Levels -/

theorem joins_mathBetween {signs : List (List Char × MathOp)} {spellings : MathOp → List String}
    (hsigns : ∀ p ∈ signs, ∃ sign ∈ spellings p.2, sign.toList = p.1)
    {L I : List Char → List Char → Expr → Prop}
    (hrule : ∀ op t u v w l r, L t u l → Around (Sign spellings op) u v → I v w r →
      L t w (Expr.math l op r)) :
    Joins (mathBetween signs) L I := by
  intro s f rest h
  simp only [mathBetween, Option.map_eq_some_iff, Prod.mk.injEq, Prod.exists] at h
  obtain ⟨op, rest, hsign, rfl, rfl⟩ := h
  exact ⟨Sign spellings op, sign_of_signIn hsigns hsign, hrule op⟩

theorem joins_wordBetween {word : List Char} {node : Expr → Expr → Expr}
    {L I : List Char → List Char → Expr → Prop}
    (hrule : ∀ t u v w l r, L t u l → Around (Word word) u v → I v w r → L t w (node l r)) :
    Joins (wordBetween word node) L I := by
  intro s f rest h
  simp only [wordBetween, Option.map_eq_some_iff, Prod.mk.injEq] at h
  obtain ⟨rest, hword, rfl, rfl⟩ := h
  exact ⟨Word word, word_of_keyword hword, hrule⟩

theorem sound_sum (hnested : Sound nested (Derives .condition)) :
    Sound (sum nested) (Derives .sum) := by
  have hproduct : Sound (product nested) (Derives .product) :=
    sound_chain (joins_mathBetween spells_productSigns fun op t u v w l r => .times)
      (fun s t e => .operand) (sound_operand hnested)
  exact sound_chain (joins_mathBetween spells_sumSigns fun op t u v w l r => .plus)
    (fun s t e => .product) hproduct

theorem sound_comparison (hnested : Sound nested (Derives .condition)) :
    Sound (comparison nested) (Derives .comparison) := by
  intro s e rest h
  obtain ⟨left, mid, hread, h⟩ := Outcome.andThen_eq_ok h
  have hleft := sound_sum hnested s left mid hread
  -- a sign without a sum behind it is left unread, as everything behind a sum may be
  have halone : FoundBy (Derives .comparison) s left mid := hleft.imp fun t u => .sum
  split at h
  · obtain ⟨rfl, rfl⟩ := Outcome.ok.inj h
    exact halone
  · rename_i op afterOp hsign
    split at h
    · rename_i right behind hright
      obtain ⟨rfl, rfl⟩ := Outcome.ok.inj h
      exact hleft.join (sign_of_signIn spells_compareSigns hsign)
        (sound_sum hnested afterOp right behind hright) fun t u v w => .compare
    · obtain ⟨rfl, rfl⟩ := Outcome.ok.inj h
      exact halone
    · simp at h

/-- A suffix that is found makes a predicate of the comparison before it. -/
theorem FoundBy.of_suffix {mid : List Char} {found : Suffix}
    (he : FoundBy (Derives .comparison) s e mid) (h : suffix mid = some (found, rest)) :
    FoundBy (Derives .predicate) s (found.apply e) rest := by
  obtain ⟨t, u, ht, he, hu⟩ := he
  rw [suffix, Option.or_eq_some_iff, Option.or_eq_some_iff] at h
  rcases h with h | ⟨-, h | ⟨-, h⟩⟩
  · simp only [Option.map_eq_some_iff, Prod.mk.injEq] at h
    obtain ⟨behind, hwords, rfl, rfl⟩ := h
    obtain ⟨afterIs, his, hwords⟩ := word_of_keywords hwords
    obtain ⟨afterNot, hnot, hwords⟩ := word_of_keywords hwords
    obtain ⟨afterNull, ⟨v, w, hv, hnull, hw⟩, hwords⟩ := word_of_keywords hwords
    obtain rfl := Option.some.inj hwords
    have his := his.widen hu (Skips.refl afterIs)
    have hnot := hnot.widen (Skips.refl afterIs) hv
    exact ⟨t, w, ht, .isNotNull he his hnot hnull, hw⟩
  · simp only [Option.map_eq_some_iff, Prod.mk.injEq] at h
    obtain ⟨behind, hwords, rfl, rfl⟩ := h
    obtain ⟨afterIs, his, hwords⟩ := word_of_keywords hwords
    obtain ⟨afterNull, ⟨v, w, hv, hnull, hw⟩, hwords⟩ := word_of_keywords hwords
    obtain rfl := Option.some.inj hwords
    exact ⟨t, w, ht, .isNull he (his.widen hu hv) hnull, hw⟩
  · simp only [Option.map_eq_some_iff, Option.bind_eq_some_iff, Prod.mk.injEq, Prod.exists] at h
    obtain ⟨store, behind, ⟨afterWord, hin, hstore⟩, rfl, rfl⟩ := h
    have hin := (word_of_keyword hin).widen hu (Skips.refl afterWord)
    exact ⟨t, behind, ht, .member he hin (ident_of_name hstore), Skips.refl behind⟩

theorem sound_predicate (hnested : Sound nested (Derives .condition)) :
    Sound (predicate nested) (Derives .predicate) := by
  intro s e rest h
  obtain ⟨value, mid, hread, h⟩ := Outcome.andThen_eq_ok h
  have hvalue := sound_comparison hnested s value mid hread
  split at h
  · rename_i found behind hsuffix
    obtain ⟨rfl, rfl⟩ := Outcome.ok.inj h
    exact hvalue.of_suffix hsuffix
  · obtain ⟨rfl, rfl⟩ := Outcome.ok.inj h
    exact hvalue.imp fun t u => .comparison

theorem sound_alternatives {item : Reader Expr} (hitem : Sound item (Derives .term)) :
    Sound (alternatives item) (Derives .condition) := by
  have hconjunction : Sound (chain (wordBetween "and".toList .and) item) (Derives .conjunction) :=
    sound_chain (joins_wordBetween fun t u v w l r => .and) (fun s t e => .term) hitem
  exact sound_chain (joins_wordBetween fun t u v w l r => .or) (fun s t e => .conjunction)
    hconjunction

/-- Terms are sound within every budget. -/
theorem sound_term (budget : Nat) : Sound (term budget) (Derives .term) := by
  induction budget with
  | zero =>
      intro s e rest h
      simp [term] at h
  | succ budget ih =>
      intro s e rest h
      rw [term] at h
      rcases Outcome.orElse_eq_ok h with h | h
      · obtain ⟨_, afterWord, hword, h⟩ := Outcome.andThen_eq_ok h
        obtain ⟨inner, hread, rfl⟩ := Outcome.map_eq_ok h
        have hfound := Outcome.ofOption_eq_ok hword
        simp only [Option.map_eq_some_iff, Prod.mk.injEq] at hfound
        obtain ⟨afterWord, hkeyword, -, rfl⟩ := hfound
        obtain ⟨t, u, ht, hnot, hu⟩ := word_of_keyword hkeyword
        obtain ⟨v, w, hv, hinner, hw⟩ := ih afterWord inner rest hread
        exact ⟨t, w, ht, .not hnot (hu.trans hv) hinner, hw⟩
      · have hfound := sound_predicate (sound_alternatives ih) s e rest h
        exact hfound.imp fun t u => .predicate

/-! ## Whole texts -/

/-- Every text that is parsed is, without the blanks around it, a condition of the grammar from
its first character to its last, and the tree is the one that the condition stands for. -/
theorem derives_of_parse {text : String} {e : Expr} (h : parse text = .ok e) :
    Derives .condition (trim text.toList) [] e := by
  obtain ⟨rest, hread, hrest⟩ := condition_of_parse h
  obtain ⟨t, u, ⟨g, hg, ht⟩, hderives, ⟨g', hg', hu⟩⟩ :=
    sound_alternatives (sound_term (nestingLimit + 1)) _ e rest hread
  -- no gap stands at the front of a trimmed text
  have hfront : g = [] := by
    cases g with
    | nil => rfl
    | cons c g =>
        have hblank := isBlank_of_isGap (List.all_eq_true.mp hg c (by simp))
        rw [isBlank_head_trim (t := text.toList) (by simp [ht])] at hblank
        exact absurd hblank (by decide)
  obtain rfl : t = trim text.toList := by simpa [hfront] using ht.symm
  -- all that is left behind the condition are blanks, and no blank stands at the end either
  have hbehind : u = [] := by
    apply eq_nil_of_suffix_trim hderives.suffix
    rw [trimStart, List.dropWhile_eq_nil_iff] at hrest
    intro c hc
    rw [hu, List.mem_append] at hc
    rcases hc with hc | hc
    · exact isBlank_of_isGap (List.all_eq_true.mp hg' c hc)
    · exact hrest c hc
  rwa [hbehind] at hderives

/-- A text in which almost every token stands next to one that it could run into. -/
def crampedText : String :=
  "(a)or nOt(b.c::INT is\tnot null)AND n:f( -1.5f,$1:long ,'\"' , or_( ) )-7L>=3000000000"

/-- The tree of the cramped text. -/
def crampedTree : Expr :=
  .or (.column none "a" .object)
    (.and
      (.not (.not (.isNull (.eventField "b.c" (some "b") "c" .int) none)))
      (.compare
        (.math
          (.call (some "n") "f"
            [.constant (.float (Literal.toBinary ⟨true, ['1'], some ['5'], some .float⟩)) .float,
              .parameter 1 .long, .constant (.string "\"") .string, .call none "or_" []])
          .sub (.constant (.long 7) .long))
        .gte (.constant (.long 3000000000) .long)))

theorem derives_crampedText :
    parse ("\u00a0" ++ crampedText ++ "\n") = .ok crampedTree ∧
      Derives .condition crampedText.toList [] crampedTree := by
  have hparse : parse ("\u00a0" ++ crampedText ++ "\n") = .ok crampedTree := by
    decide +kernel
  have htrim : trim ("\u00a0" ++ crampedText ++ "\n").toList = crampedText.toList := by
    decide +kernel
  have hderives := derives_of_parse hparse
  rw [htrim] at hderives
  exact ⟨hparse, hderives⟩

end Pushdown.Condition
