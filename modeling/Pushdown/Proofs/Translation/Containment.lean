import Pushdown.Proofs.Translation.Markers

/-!
# Fragments stay inside their statement

A fragment is pasted into a larger statement. Nothing in the fragment of a condition text can end
the place where it stands: all its characters are those of names, markers and operators, no
comment starts or ends in it, and its parentheses are balanced at every point
(`translate_contained`). What a condition text holds in quotes never comes into the fragment.

## Implementation notes

Two characters that make up the sign of a comment never meet, because each character that could
stand in such a sign is an operator and has a space behind it. That is what `spaced` says. Unlike
the absence of the signs themselves it survives the joining of texts.
-/

namespace Pushdown

open Text

/-! ## Characters of fragments -/

/-- The characters of a fragment that are neither letters nor numbers. -/
def fragmentSigns : List Char :=
  ['_', '.', ' ', '(', ')', ',', '=', '!', '<', '>', '+', '-', '*', '/', '%', '?', '$', ':', '@']

/-- The character may stand in a fragment. -/
def isFragmentChar (c : Char) : Bool := isAlphanumeric c || fragmentSigns.contains c

/-- The character is one of those that signs of comments are made of. -/
def isCommentChar (c : Char) : Bool := c == '-' || c == '*' || c == '/'

/-- Every character that could stand in the sign of a comment has a space behind it. -/
def spaced : List Char → Bool
  | [] => true
  | c :: t => (!isCommentChar c || t.head? == some ' ') && spaced t

theorem spaced_append {s t : List Char} (hs : spaced s = true) (ht : spaced t = true) :
    spaced (s ++ t) = true := by
  induction s with
  | nil => exact ht
  | cons c s ih =>
      simp only [spaced, Bool.and_eq_true] at hs
      obtain ⟨hc, hs⟩ := hs
      rw [List.cons_append, spaced, ih hs, Bool.and_true]
      cases s with
      | nil =>
          have hfree : isCommentChar c = false := by simpa using hc
          simp [hfree]
      | cons d s => exact hc

theorem spaced_of_append {s t : List Char} (h : spaced (s ++ t) = true) : spaced t = true := by
  induction s with
  | nil => exact h
  | cons c s ih =>
      simp only [List.cons_append, spaced, Bool.and_eq_true] at h
      exact ih h.2

theorem spaced_of_free {t : List Char} (h : ∀ c ∈ t, isCommentChar c = false) :
    spaced t = true := by
  induction t with
  | nil => rfl
  | cons c t ih =>
      have hc := h c (by simp)
      have ht := ih fun d hd => h d (by simp [hd])
      simp [spaced, hc, ht]

/-- The signs that start or end a comment. -/
def commentSigns : List String := ["--", "/*", "*/"]

/-- No comment starts or ends where its characters have spaces behind them. -/
theorem not_infix_of_spaced {t : List Char} (h : spaced t = true) :
    ∀ sign ∈ commentSigns, ¬ sign.toList <:+: t := by
  rintro sign hsign ⟨before, after, rfl⟩
  rw [List.append_assoc] at h
  have hfront := spaced_of_append h
  simp only [commentSigns, List.mem_cons, List.not_mem_nil, or_false] at hsign
  rcases hsign with rfl | rfl | rfl <;> simp [spaced, isCommentChar] at hfront

/-! ## Balanced parentheses -/

/-- There are as many closing as opening parentheses, and no more of them at any point. -/
structure Balanced (t : List Char) : Prop where
  /-- All parentheses are closed in the end. -/
  count : t.count '(' = t.count ')'
  /-- No parenthesis is closed before it is opened. -/
  prefixes : ∀ p, p <+: t → p.count ')' ≤ p.count '('

namespace Balanced

variable {s t : List Char}

theorem of_free (h : '(' ∉ t ∧ ')' ∉ t) : Balanced t := by
  have hnone : ∀ p, p <+: t → p.count '(' = 0 ∧ p.count ')' = 0 := by
    intro p hp
    have hopen := fun hmem => h.1 (hp.subset hmem)
    have hclose := fun hmem => h.2 (hp.subset hmem)
    exact ⟨List.count_eq_zero.mpr hopen, List.count_eq_zero.mpr hclose⟩
  constructor
  · obtain ⟨hopen, hclose⟩ := hnone t (List.prefix_refl t)
    rw [hopen, hclose]
  · intro p hp
    obtain ⟨hopen, hclose⟩ := hnone p hp
    omega

theorem append (hs : Balanced s) (ht : Balanced t) : Balanced (s ++ t) := by
  constructor
  · rw [List.count_append, List.count_append, hs.count, ht.count]
  · intro p hp
    rcases List.prefix_or_prefix_of_prefix hp (List.prefix_append s t) with hinside | ⟨q, rfl⟩
    · exact hs.prefixes p hinside
    · -- the prefix goes beyond the first text, which leaves nothing open
      have hq := ht.prefixes q ((List.prefix_append_right_inj s).mp hp)
      rw [List.count_append, List.count_append, hs.count]
      omega

theorem parenthesized (h : Balanced t) : Balanced ('(' :: (t ++ [')'])) := by
  constructor
  · simp [List.count_append, h.count]
  · intro p hp
    rcases List.prefix_cons_iff.mp hp with rfl | ⟨q, rfl, hq⟩
    · simp
    · rcases List.prefix_concat_iff.mp hq with rfl | hinside
      · simp [List.count_append, h.count]
      · have hle := h.prefixes q hinside
        simp
        omega

/-- Cutting off text without parentheses keeps the balance. -/
theorem of_append {before after : List Char} (h : Balanced (before ++ t ++ after))
    (hbefore : '(' ∉ before ∧ ')' ∉ before) (hafter : '(' ∉ after ∧ ')' ∉ after) :
    Balanced t := by
  have hfree := List.count_eq_zero.mpr hbefore.1
  have hfree' := List.count_eq_zero.mpr hbefore.2
  constructor
  · have hcount := h.count
    have hend := List.count_eq_zero.mpr hafter.1
    have hend' := List.count_eq_zero.mpr hafter.2
    simp only [List.count_append] at hcount
    omega
  · intro p hp
    have hlong : before ++ p <+: before ++ t ++ after :=
      ((List.prefix_append_right_inj before).mpr hp).trans (List.prefix_append _ _)
    have hle := h.prefixes _ hlong
    simp only [List.count_append] at hle
    omega

end Balanced

/-! ## Contained texts -/

/-- A text that stays where it is put. -/
structure Contained (text : String) : Prop where
  /-- It has only characters of fragments. -/
  chars : ∀ c ∈ text.toList, isFragmentChar c = true
  /-- The characters of comment signs stand alone. -/
  spaced : spaced text.toList = true
  /-- Its parentheses are balanced. -/
  balanced : Balanced text.toList

/-- The character neither opens nor closes anything and is in no sign of a comment. -/
def isHarmless (c : Char) : Bool :=
  isFragmentChar c && !isCommentChar c && c != '(' && c != ')'

namespace Contained

variable {s t : String}

theorem of_harmless (h : ∀ c ∈ s.toList, isHarmless c = true) : Contained s := by
  simp only [isHarmless, Bool.and_eq_true, bne_iff_ne, Bool.not_eq_true'] at h
  exact ⟨fun c hc => (h c hc).1.1.1, spaced_of_free fun c hc => (h c hc).1.1.2,
    .of_free ⟨fun hmem => (h _ hmem).1.2 rfl, fun hmem => (h _ hmem).2 rfl⟩⟩

theorem append (hs : Contained s) (ht : Contained t) : Contained (s ++ t) := by
  constructor
  · intro c hc
    rw [String.toList_append, List.mem_append] at hc
    exact hc.elim (hs.chars c) (ht.chars c)
  · rw [String.toList_append]
    exact spaced_append hs.spaced ht.spaced
  · rw [String.toList_append]
    exact hs.balanced.append ht.balanced

theorem parenthesized (h : Contained s) : Contained ("(" ++ s ++ ")") := by
  have hlist : ("(" ++ s ++ ")").toList = '(' :: (s.toList ++ [')']) := by simp
  constructor
  · intro c hc
    simp only [hlist, List.mem_cons, List.mem_append, List.not_mem_nil, or_false] at hc
    rcases hc with rfl | hc | rfl
    · decide
    · exact h.chars c hc
    · decide
  · rw [hlist]
    exact spaced_append (s := ['(']) (by decide) (spaced_append h.spaced (by decide))
  · rw [hlist]
    exact h.balanced.parenthesized

theorem wrapped (h : Contained s) (e : Expr) : Contained (wrapped e s) := by
  cases e with
  | not | isNull | eventNull | member => exact h.parenthesized
  | _ => exact h

/-- The fixed words of fragments and what stands between them. -/
theorem word : ∀ t ∈ [" ", ".", ", ", "AND ", "OR ", "NOT ", "IN ", "IS NULL "], Contained t := by
  have hall : [" ", ".", ", ", "AND ", "OR ", "NOT ", "IN ", "IS NULL "].all
      (fun t => t.toList.all isHarmless) = true := by decide
  intro t ht
  exact of_harmless (List.all_eq_true.mp (List.all_eq_true.mp hall t ht))

/-- The operators of arithmetic are characters of comment signs, and have a space behind them. -/
theorem symbol (op : MathOp) : Contained (op.symbol ++ " ") := by
  cases op with
  | add | mod => exact of_harmless (forall_mem_of_all (by decide))
  | sub | mul | div =>
      exact ⟨forall_mem_of_all (by decide), by decide, .of_free (by decide)⟩

theorem isHarmless_of_isNameChar {c : Char} (h : isNameChar c = true) : isHarmless c = true := by
  have hsigns : ∀ d ∈ ['-', '*', '/', '(', ')'], c ≠ d := ne_of_class h (by decide)
  simp only [List.mem_cons, List.not_mem_nil, or_false, forall_eq_or_imp, forall_eq] at hsigns
  simp only [isNameChar, Bool.or_eq_true, beq_iff_eq] at h
  rcases h with h | rfl
  · simp [isHarmless, isFragmentChar, isCommentChar, h, hsigns]
  · decide

theorem of_isNameChar (h : ∀ c ∈ s.toList, isNameChar c = true) : Contained s :=
  of_harmless fun c hc => isHarmless_of_isNameChar (h c hc)

theorem name {w : List Char} (h : isName w = true) : Contained (String.ofList w) := by
  obtain ⟨c, cs, -, -, hchars, -⟩ := Condition.isName_cons h
  exact of_isNameChar (by simpa using hchars)

theorem tableAlias {c : Config} (hvalid : c.validate = .ok c) : Contained c.tableAlias :=
  of_isNameChar (alias_of_validate hvalid).2

theorem compareSymbol {c : Config} (hvalid : c.validate = .ok c) (op : CompareOp) :
    Contained (c.compareSymbol op) := by
  have hall : compareTexts.all (fun t => t.toList.all isHarmless) = true := by decide
  exact of_harmless (List.all_eq_true.mp
    (List.all_eq_true.mp hall _ (compareSymbol_mem hvalid op)))

theorem marker (d : Dialect) (k : Nat) : Contained (d.marker k) := by
  refine of_harmless fun c hc => ?_
  rw [d.toList_marker] at hc
  rcases List.mem_cons.mp hc with rfl | hc
  · cases d <;> decide
  · exact isHarmless_of_isNameChar (d.isNameChar_markerTail k c hc)

/-- A function and its arguments in parentheses. -/
theorem call (hs : Contained s) (ht : Contained t) : Contained (s ++ " (" ++ t ++ ") ") := by
  have hspace := word " " (by decide)
  have hjoined : s ++ " (" ++ t ++ ") " = s ++ " " ++ ("(" ++ t ++ ")") ++ " " := by
    apply String.toList_injective
    simp
  rw [hjoined]
  exact ((hs.append hspace).append ht.parenthesized).append hspace

/-- Two operands with an operator between them, in parentheses. -/
theorem binary {op : String} (hs : Contained s) (hop : Contained op) (ht : Contained t) :
    Contained ("(" ++ s ++ op ++ t ++ ")") := by
  have hjoined := ((hs.append hop).append ht).parenthesized
  simpa only [String.append_assoc] using hjoined

end Contained

/-! ## The rendering of a parsed tree -/

theorem contained_renderArgs {c : Config} {es : List Expr}
    (ih : ∀ e ∈ es, ∀ k, Contained (render c e k).1) (k : Nat) :
    Contained (renderArgs c es k).1 := by
  induction es generalizing k with
  | nil => exact .of_harmless (by simp [renderArgs])
  | cons e es ihs =>
      have he := ih e (by simp)
      have hes := ihs fun a ha => ih a (by simp [ha])
      cases es with
      | nil => exact he k
      | cons e' es' => exact ((he k).append (.word ", " (by decide))).append (hes _)

/-- The rendering of a parsed tree stays where it is put. -/
theorem contained_render {c : Config} (hvalid : c.validate = .ok c) {n : Nat} {e : Expr}
    (h : Condition.Built n e) (k : Nat) : Contained (render c e k).1 := by
  have hspace := Contained.word " " (by decide)
  induction h generalizing k with
  | and _ _ ihl ihr => exact .binary (ihl k) (.word "AND " (by decide)) (ihr _)
  | or _ _ ihl ihr => exact .binary (ihl k) (.word "OR " (by decide)) (ihr _)
  | not _ ih => exact (Contained.word "NOT " (by decide)).append (ih k)
  | @compare n l r op _ _ ihl ihr =>
      have hop := (Contained.compareSymbol hvalid op).append hspace
      have hboth := Contained.binary ((ihl k).wrapped l) hop ((ihr (render c l k).2).wrapped r)
      simpa only [render, String.append_assoc] using hboth
  | @isNull n e _ ih => exact ((ih k).wrapped e).append (.word "IS NULL " (by decide))
  | member _ _ ih => exact (Contained.word "IN " (by decide)).append (ih k)
  | @math n l r op _ _ ihl ihr =>
      have hboth := Contained.binary ((ihl k).wrapped l) (.symbol op)
        ((ihr (render c l k).2).wrapped r)
      simpa only [render, String.append_assoc] using hboth
  | literal _ | parameter | field => exact (Contained.marker c.dialect k).append hspace
  | call _ hfunction _ ih => exact (Contained.name hfunction).call (contained_renderArgs ih k)
  | column hattr type =>
      have halias := (Contained.tableAlias hvalid).append (.word "." (by decide))
      exact (halias.append (.name hattr)).append hspace

/-! ## Fragments -/

/-- Neither parenthesis is a blank. -/
theorem parens_not_mem_blanks {t : List Char} (h : ∀ c ∈ t, isBlank c = true) :
    '(' ∉ t ∧ ')' ∉ t :=
  ⟨fun hmem => absurd (h _ hmem) (by decide), fun hmem => absurd (h _ hmem) (by decide)⟩

/-- The characters that could end a quoted text, a statement or a line. -/
def breakingChars : List Char :=
  ['\x27', '"', '\\', ';', '\n', '\r', '\x0b', '\x0c', '\u0085', '\u2028', '\u2029']

theorem isFragmentChar_of_mem_breakingChars : ∀ c ∈ breakingChars, isFragmentChar c = false :=
  forall_mem_of_all (by decide +kernel)

/-- What trimming leaves of a contained text. -/
theorem Contained.trimmed {s : String} (h : Contained s) :
    (∀ c ∈ (Text.trimmed s).toList, isFragmentChar c = true) ∧
      (∀ sign ∈ commentSigns, ¬ sign.toList <:+: (Text.trimmed s).toList) ∧
      Balanced (Text.trimmed s).toList := by
  obtain ⟨before, after, hsplit, hbefore, hafter⟩ := exists_trim s.toList
  have hwithin : trim s.toList <:+: s.toList := ⟨before, after, hsplit.symm⟩
  rw [Text.trimmed, String.toList_ofList]
  refine ⟨fun c hc => h.chars c (hwithin.subset hc), fun sign hsign hmark => ?_, ?_⟩
  · exact not_infix_of_spaced h.spaced sign hsign (hmark.trans hwithin)
  · exact .of_append (hsplit ▸ h.balanced) (parens_not_mem_blanks hbefore)
      (parens_not_mem_blanks hafter)

/-- In the fragment of a condition text under valid settings, every character is alphanumeric or
one of the signs of fragments, so that no quote, backslash, semicolon or line break occurs. No
sign of a comment occurs either, and the parentheses are balanced at every point. -/
theorem translate_contained {text : String} {e : Expr} {c : Config} {f : Fragment}
    (hparse : Condition.parse text = .ok e) (hvalid : c.validate = .ok c)
    (htranslate : translate e c = .ok f) :
    (∀ ch ∈ f.sql.toList, isAlphanumeric ch = true ∨ ch ∈ fragmentSigns) ∧
      (∀ ch ∈ breakingChars, ch ∉ f.sql.toList) ∧
      (∀ sign ∈ commentSigns, ¬ sign.toList <:+: f.sql.toList) ∧
      f.sql.toList.count '(' = f.sql.toList.count ')' ∧
      ∀ p, p <+: f.sql.toList → p.count ')' ≤ p.count '(' := by
  have hcontained := contained_render hvalid (Condition.built_of_parse hparse) 0
  obtain ⟨hchars, hcomments, hbalanced⟩ := hcontained.trimmed
  have hfragment := htranslate.symm.trans (translate_of_isPlain c (isPlain_of_translate htranslate))
  obtain rfl := Except.ok.inj hfragment
  refine ⟨fun ch hch => ?_, fun ch hbreak hch => ?_, hcomments, hbalanced.count,
    hbalanced.prefixes⟩
  · simpa [isFragmentChar] using hchars ch hch
  · have hfragmentChar := hchars ch hch
    rw [isFragmentChar_of_mem_breakingChars ch hbreak] at hfragmentChar
    exact absurd hfragmentChar (by decide)

/-- A condition whose string would end the statement if it came into the fragment, and whose
operators would start a comment without the spaces behind them. -/
def hostileTree : Expr :=
  .not (.isNull
    (.math (.call none "f" [.column none "a" .object, .literal (.string "'; DROP TABLE t; --")])
      .sub (.literal (.int (-1)))) none)

theorem translate_contained_hostile :
    ∃ f, Condition.parse "f(a, \"'; DROP TABLE t; --\") --1 is not null" = .ok hostileTree ∧
      translate hostileTree { dialect := .sqlserver } = .ok f ∧
      f.sql = "NOT (f (t.a , @p1 ) - @p2 )IS NULL" ∧
      (∀ ch ∈ f.sql.toList, isAlphanumeric ch = true ∨ ch ∈ fragmentSigns) ∧
      (∀ ch ∈ breakingChars, ch ∉ f.sql.toList) ∧
      (∀ sign ∈ commentSigns, ¬ sign.toList <:+: f.sql.toList) ∧
      f.sql.toList.count '(' = f.sql.toList.count ')' ∧
      ∀ p, p <+: f.sql.toList → p.count ')' ≤ p.count '(' := by
  have hparse : Condition.parse "f(a, \"'; DROP TABLE t; --\") --1 is not null" =
      .ok hostileTree := by
    decide +kernel
  have htranslate := translate_of_isPlain { dialect := .sqlserver } (e := hostileTree) (by decide)
  exact ⟨_, hparse, htranslate, by decide +kernel,
    translate_contained hparse (by decide) htranslate⟩

end Pushdown
