import Pushdown.Proofs.Condition.Operands

/-!
# Reading the levels

One lemma for each way to form a phrase: the reader of the level accepts it when the readers of
the parts accept those. The reader of nested conditions is arbitrary up to the level of terms,
where the budget of levels comes in.
-/

namespace Pushdown.Condition

open Text Number

variable {nested : Reader Expr} {r s t w : List Char} {l : Level}

/-! ## Signs and words between phrases -/

/-- Every sign starts with a character that satisfies the predicate. -/
def headsSatisfy {α : Type} (p : Char → Bool) (signs : List (List Char × α)) : Bool :=
  signs.all fun sign => sign.1.head?.any p

theorem exists_head {α : Type} {p : Char → Bool} {signs : List (List Char × α)}
    (h : headsSatisfy p signs = true) {sign : List Char × α} (hmem : sign ∈ signs) :
    ∃ c t, sign.1 = c :: t ∧ p c = true := by
  have hhead := List.all_eq_true.mp h sign hmem
  cases hsign : sign.1 with
  | nil => simp [hsign] at hhead
  | cons c t => exact ⟨c, t, rfl, by simpa [hsign] using hhead⟩

/-- A sign is recognised between a phrase of the level and another phrase. -/
theorem separates_sign {α : Type} {signs : List (List Char × α)} {sign : List Char × α}
    {other : List Char} (hmem : sign ∈ signs)
    (hmarks : headsSatisfy (fun c => isMark c && !(l.continues.contains c.toLower)) signs = true)
    (hreads : ∀ {r s : List Char}, Starts (skipGap r) → skipGap s = sign.1 ++ r →
      signIn signs s = some (sign.2, skipGap r))
    (hother : Starts other) (before after : Gap) :
    Separates (signIn signs) sign.2 (before.1 ++ sign.1 ++ after.1) other l := by
  obtain ⟨c, t, hsign, hhead⟩ := exists_head hmarks hmem
  obtain ⟨hmark, hstop⟩ : isMark c = true ∧ c.toLower ∉ l.continues := by simpa using hhead
  have hgap : ∀ r, skipGap (before.1 ++ sign.1 ++ after.1 ++ (other ++ r)) =
      c :: (t ++ (after.1 ++ (other ++ r))) := by
    intro r
    rw [hsign, List.append_assoc, List.append_assoc, skipGap_append before.2, List.cons_append,
      skipGap_cons (isGap_of_isMark hmark)]
  have hafter : ∀ r, skipGap (after.1 ++ (other ++ r)) = other ++ r := fun r => by
    rw [skipGap_append after.2, (hother.append r).skipGap_eq]
  constructor
  · exact fun r => follow_of_mark (hgap r) hmark hstop
  · intro r s hs
    have hread := hreads (r := after.1 ++ (other ++ r)) (by rw [hafter]; exact hother.append r)
      (by rw [hs, hgap, hsign, List.cons_append])
    rwa [hafter] at hread
  · intro r
    rw [hgap]
    simp only [List.length_cons, List.length_append]
    omega

theorem mem_productSigns {op : MathOp} {text : String} (h : text ∈ productSpellings op) :
    (text.toList, op) ∈ productSigns := by
  cases op with
  | mul | div | mod =>
      rw [productSpellings, List.mem_singleton] at h
      subst h
      decide
  | add | sub => simp [productSpellings] at h

theorem mem_sumSigns {op : MathOp} {text : String} (h : text ∈ sumSpellings op) :
    (text.toList, op) ∈ sumSigns := by
  cases op with
  | add | sub =>
      rw [sumSpellings, List.mem_singleton] at h
      subst h
      decide
  | mul | div | mod => simp [sumSpellings] at h

theorem mem_compareSigns {op : CompareOp} {text : String} (h : text ∈ compareSpellings op) :
    (text.toList, op) ∈ compareSigns := by
  cases op with
  | eq | ne =>
      simp only [compareSpellings, List.mem_cons, List.not_mem_nil, or_false] at h
      rcases h with rfl | rfl <;> decide
  | gt | gte | lt | lte =>
      rw [compareSpellings, List.mem_singleton] at h
      subst h
      decide

theorem separates_product {other : List Char} (hother : Starts other) (before : Gap)
    (sign : SignText productSpellings) (after : Gap) :
    Separates (mathBetween productSigns) (fun l r => Expr.math l sign.op r)
      (before.1 ++ sign.text.toList ++ after.1) other .operand := by
  have hmem := mem_productSigns sign.spells
  have hsign := separates_sign (l := .operand) hmem (by decide)
    (fun _ hs => signIn_product hmem hs) hother before after
  exact hsign.map fun op l r => Expr.math l op r

theorem separates_sum {other : List Char} (hother : Starts other) (before : Gap)
    (sign : SignText sumSpellings) (after : Gap) :
    Separates (mathBetween sumSigns) (fun l r => Expr.math l sign.op r)
      (before.1 ++ sign.text.toList ++ after.1) other .product := by
  have hmem := mem_sumSigns sign.spells
  have hsign := separates_sign (l := .product) hmem (by decide)
    (fun _ hs => signIn_sum hmem hs) hother before after
  exact hsign.map fun op l r => Expr.math l op r

theorem separates_compare {other : List Char} (hother : Starts other) (before : Gap)
    (sign : SignText compareSpellings) (after : Gap) :
    Separates (signIn compareSigns) sign.op (before.1 ++ sign.text.toList ++ after.1) other
      .sum := by
  have hmem := mem_compareSigns sign.spells
  refine separates_sign hmem (by decide) (fun {r s} hstart hs => ?_) hother before after
  refine signIn_compare hmem (fun c hc => ?_) hs
  -- a gap behind the sign ends it, and so does the first character of a phrase
  cases hgap : isGap c with
  | true => rcases isGap_cases hgap with rfl | rfl | rfl | rfl <;> decide
  | false =>
      obtain ⟨t, rfl⟩ := List.head?_eq_some_iff.mp hc
      obtain ⟨d, u, heq, hd⟩ := hstart
      rw [skipGap_cons hgap] at heq
      obtain ⟨rfl, -⟩ := List.cons.inj heq
      constructor <;> (rintro rfl; exact absurd hd (by decide))

section Words

variable {word : String} {other : List Char} (u : Spelling word)

/-- A word is read with the gap behind it. -/
theorem keyword_space (after : Space) (hother : Starts other)
    (hs : skipGap s = u.1 ++ (after.1 ++ (other ++ r))) :
    keyword word.toList s = some (other ++ r) := by
  rw [keyword_append u.2.1 (boundary_space after _).isNameChar hs, skipGap_append after.2.2,
    (hother.append r).skipGap_eq]

theorem skipGap_spelling (before : Space) (t : List Char) :
    skipGap (before.1 ++ (u.1 ++ t)) = u.1 ++ t := by
  rw [skipGap_append before.2.2, ((starts_spelling u).append t).skipGap_eq]

/-- A word behind a gap follows the phrases that it does not continue. -/
theorem follow_spelling {x : Char} (hx : word.toList.head? = some x) (hstop : x ∉ l.continues)
    (before : Space) (t : List Char) : Follow l (before.1 ++ (u.1 ++ t)) := by
  obtain ⟨c, v, hu, hc⟩ := spelling_cons u
  rw [hu]
  refine follow_of_space before (isGap_of_isNameChar (isNameChar_of_isAlphabetic hc)) ?_
  rw [← u.2.1, hu] at hx
  simp only [lowerAscii, List.map_cons, List.head?_cons, Option.some.injEq] at hx
  rwa [hx]

/-- A word is recognised between a phrase of the level and another phrase. -/
theorem separates_word {x : Char} (hx : word.toList.head? = some x) (hstop : x ∉ l.continues)
    (hother : Starts other) (before after : Space) (node : Expr → Expr → Expr) :
    Separates (wordBetween word.toList node) node (before.1 ++ u.1 ++ after.1) other l := by
  have hgap : ∀ r, skipGap (before.1 ++ u.1 ++ after.1 ++ (other ++ r)) =
      u.1 ++ (after.1 ++ (other ++ r)) := fun r => by
    simpa using skipGap_spelling u before (after.1 ++ (other ++ r))
  constructor
  · intro r
    simpa using follow_spelling u hx hstop before (after.1 ++ (other ++ r))
  · intro r s hs
    have hread := keyword_space u after hother (hs.trans (hgap r))
    simp [wordBetween, hread]
  · intro r
    obtain ⟨c, v, hu, -⟩ := spelling_cons u
    rw [hgap, hu]
    simp only [List.length_append, List.length_cons]
    omega

end Words

/-! ## Where a list or a comparison stops -/

theorem signIn_stop {α : Type} {signs : List (List Char × α)} {rest : List Char}
    (hsigns : headsSatisfy (fun c => l.continues.contains c.toLower) signs = true)
    (hr : Stops l r) (hrest : Leaves r rest) : signIn signs rest = none := by
  refine signIn_eq_none fun sign hsign => ?_
  obtain ⟨x, xs, hx, hmem⟩ := exists_head hsigns hsign
  refine ⟨x, xs, hx, fun c hc => ?_⟩
  rw [hrest.skipGap_eq] at hc
  rintro rfl
  exact hr c hc (by simpa using hmem)

theorem mathBetween_stop {signs : List (List Char × MathOp)} {rest : List Char}
    (hsigns : headsSatisfy (fun c => l.continues.contains c.toLower) signs = true)
    (hr : Stops l r) (hrest : Leaves r rest) : mathBetween signs rest = none := by
  rw [mathBetween, signIn_stop hsigns hr hrest, Option.map_none]

theorem keyword_stop {x : Char} {xs rest : List Char} (hx : x ∈ l.continues) (hr : Stops l r)
    (hrest : Leaves r rest) : keyword (x :: xs) rest = none := by
  refine keyword_of_head fun c hc => ?_
  rw [hrest.skipGap_eq] at hc
  rintro rfl
  exact hr c hc hx

theorem wordBetween_stop {x : Char} {xs rest : List Char} {node : Expr → Expr → Expr}
    (hx : x ∈ l.continues) (hr : Stops l r) (hrest : Leaves r rest) :
    wordBetween (x :: xs) node rest = none := by
  rw [wordBetween, keyword_stop hx hr hrest, Option.map_none]

section Levels

variable {left right : List Char} {a b : Expr}

theorem accepts_product (h : Chained (mathBetween productSigns) (operand nested) w a .operand) :
    Accepts (product nested) w a .product :=
  h.accepts (by decide) fun _ _ hr hrest => mathBetween_stop (by decide) hr.stops hrest

theorem accepts_sum (h : Chained (mathBetween sumSigns) (product nested) w a .product) :
    Accepts (sum nested) w a .sum :=
  h.accepts (by decide) fun _ _ hr hrest => mathBetween_stop (by decide) hr.stops hrest

theorem accepts_comparison (h : Accepts (sum nested) w a .sum) :
    Accepts (comparison nested) w a .comparison := by
  intro r s hr hs
  obtain ⟨rest, hrest, hread⟩ := h r s (hr.mono (by decide)) hs
  have hnone : signIn compareSigns rest = none := signIn_stop (by decide) hr.stops hrest
  exact ⟨rest, hrest, by simp [comparison, hread, hnone]⟩

theorem accepts_compare (hleft : Accepts (sum nested) left a .sum)
    (hright : Accepts (sum nested) right b .sum) (hstart : Starts right) (before : Gap)
    (sign : SignText compareSpellings) (after : Gap) :
    Accepts (comparison nested) (left ++ (before.1 ++ sign.text.toList ++ after.1 ++ right))
      (.compare a sign.op b) .comparison := by
  intro r s hr hs
  have hsep := separates_compare hstart before sign after
  obtain ⟨middle, hmiddle, hfirst⟩ := hleft _ s (hsep.follow r) (by simpa using hs)
  have hsign := hsep.reads r middle hmiddle.skipGap_eq
  obtain ⟨rest, hrest, hsecond⟩ :=
    hright r (right ++ r) (hr.mono (by decide)) (hstart.append r).skipGap_eq
  exact ⟨rest, hrest, by simp [comparison, hfirst, hsign, hsecond]⟩

/-- Behind a comparison that nothing continues there is no suffix. -/
theorem suffix_stop {rest : List Char} (hr : Stops .predicate r) (hrest : Leaves r rest) :
    suffix rest = none := by
  have hstop : ∀ xs, keyword ('i' :: xs) rest = none := fun xs =>
    keyword_stop (by decide) hr hrest
  simp [suffix, keywords, hstop]

theorem accepts_predicate (h : Accepts (comparison nested) w a .comparison) :
    Accepts (predicate nested) w a .predicate := by
  intro r s hr hs
  obtain ⟨rest, hrest, hread⟩ := h r s (hr.mono (by decide)) hs
  exact ⟨rest, hrest, by simp [predicate, hread, suffix_stop hr.stops hrest]⟩

/-- A suffix behind a comparison is applied to it. -/
theorem accepts_suffix (found : Suffix) {tail : List Char}
    (h : Accepts (comparison nested) w a .comparison)
    (htail : ∀ r, Boundary r → Follow .comparison (tail ++ r) ∧
      ∀ s, skipGap s = skipGap (tail ++ r) →
        ∃ rest, Leaves r rest ∧ suffix s = some (found, rest)) :
    Accepts (predicate nested) (w ++ tail) (found.apply a) .predicate := by
  intro r s hr hs
  obtain ⟨hfollow, hsuffix⟩ := htail r hr.boundary
  obtain ⟨middle, hmiddle, hread⟩ := h (tail ++ r) s hfollow (by simpa using hs)
  obtain ⟨rest, hrest, hfound⟩ := hsuffix middle hmiddle.skipGap_eq
  exact ⟨rest, hrest, by simp [predicate, hread, hfound]⟩

theorem accepts_isNull (h : Accepts (comparison nested) w a .comparison) (before : Space)
    (isWord : Spelling "is") (after : Space) (nullWord : Spelling "null") :
    Accepts (predicate nested) (w ++ (before.1 ++ isWord.1 ++ after.1 ++ nullWord.1))
      (.isNull a none) .predicate := by
  refine accepts_suffix .isNull h fun r hr => ⟨?_, fun s hs => ⟨skipGap r, ?_, ?_⟩⟩
  · simpa using follow_spelling isWord rfl (by decide) before
      (after.1 ++ (nullWord.1 ++ r))
  · exact Leaves.afterGap r
  · simp only [List.append_assoc] at hs
    rw [skipGap_spelling isWord before] at hs
    have hnull := starts_spelling nullWord
    have his := keyword_space isWord after hnull hs
    have hskip := (hnull.append r).skipGap_eq
    -- the longer suffix is tried first and is given up at `not`
    have hnot : keyword "not".toList (nullWord.1 ++ r) = none :=
      keyword_spelling nullWord (by decide) (by decide) hr.isNameChar hskip
    have hend := keyword_append nullWord.2.1 hr.isNameChar hskip
    simp only [suffix, keywords, List.foldlM_cons, his, hnot, hend, Option.bind_eq_bind,
      Option.bind_some, Option.bind_none]
    simp

theorem accepts_isNotNull (h : Accepts (comparison nested) w a .comparison) (before : Space)
    (isWord : Spelling "is") (after : Space) (notWord : Spelling "not") (behind : Space)
    (nullWord : Spelling "null") :
    Accepts (predicate nested)
      (w ++ (before.1 ++ isWord.1 ++ after.1 ++ notWord.1 ++ behind.1 ++ nullWord.1))
      (.not (.isNull a none)) .predicate := by
  refine accepts_suffix .isNotNull h fun r hr => ⟨?_, fun s hs => ⟨skipGap r, ?_, ?_⟩⟩
  · simpa using follow_spelling isWord rfl (by decide) before
      (after.1 ++ (notWord.1 ++ (behind.1 ++ (nullWord.1 ++ r))))
  · exact Leaves.afterGap r
  · simp only [List.append_assoc] at hs
    rw [skipGap_spelling isWord before] at hs
    have hnot := starts_spelling notWord
    have hnull := starts_spelling nullWord
    have hfirst := keyword_space isWord after hnot hs
    have hsecond := keyword_space (r := r) notWord behind hnull (hnot.append _).skipGap_eq
    have hthird := keyword_append nullWord.2.1 hr.isNameChar (hnull.append r).skipGap_eq
    simp only [suffix, keywords, List.foldlM_cons, hfirst, hsecond, hthird, Option.bind_eq_bind,
      Option.bind_some]
    simp

theorem accepts_member (h : Accepts (comparison nested) w a .comparison) (before : Space)
    (word : Spelling "in") (after : Space) (store : Name) :
    Accepts (predicate nested) (w ++ (before.1 ++ word.1 ++ after.1 ++ store.1))
      (.member a (String.ofList store.1)) .predicate := by
  refine accepts_suffix (.member store.1) h fun r hr =>
    ⟨?_, fun s hs => ⟨r, Leaves.all r, ?_⟩⟩
  · simpa using follow_spelling word rfl (by decide) before
      (after.1 ++ (store.1 ++ r))
  · simp only [List.append_assoc] at hs
    rw [skipGap_spelling word before] at hs
    have hspace := boundary_space after (store.1 ++ r)
    have his : keyword "is".toList s = none :=
      keyword_spelling word (by decide) (by decide) hspace.isNameChar hs
    have hin := keyword_space word after (starts_name store.2) hs
    simp only [suffix, keywords, List.foldlM_cons, his, hin, Option.bind_eq_bind,
      Option.bind_some, Option.bind_none, name_append store.2 hr.isNameChar]
    simp

/-- Without `not` in front a term is a predicate. -/
theorem term_positive (budget : Nat) (h : keyword "not".toList s = none) :
    term (budget + 1) s = predicate (alternatives (term budget)) s := by
  simp only [term]
  rw [h]
  rfl

theorem accepts_not {budget : Nat} (h : Accepts (term budget) w a .term) (hstart : Starts w)
    (word : Spelling "not") (after : Space) :
    Accepts (term (budget + 1)) (word.1 ++ after.1 ++ w) (.not a) .term := by
  intro r s hr hs
  obtain ⟨rest, hrest, hread⟩ := h r (w ++ r) hr (hstart.append r).skipGap_eq
  have hnot := keyword_space word after hstart (by simpa using hs)
  refine ⟨rest, hrest, ?_⟩
  simp only [term]
  rw [hnot]
  simp [Outcome.ofOption, Outcome.map, hread]

theorem accepts_positive {budget : Nat}
    (h : Accepts (predicate (alternatives (term budget))) w a .predicate)
    (hnot : ∀ r s, Boundary r → skipGap s = w ++ r → keyword "not".toList s = none) :
    Accepts (term (budget + 1)) w a .term := by
  intro r s hr hs
  obtain ⟨rest, hrest, hread⟩ := h r s (hr.mono (by decide)) hs
  exact ⟨rest, hrest, by rw [term_positive budget (hnot r s hr.boundary hs), hread]⟩

theorem accepts_conjunction {item : Reader Expr}
    (h : Chained (wordBetween "and".toList .and) item w a .term) :
    Accepts (chain (wordBetween "and".toList .and) item) w a .conjunction :=
  h.accepts (by decide) fun _ _ hr hrest => wordBetween_stop (by decide) hr.stops hrest

theorem accepts_condition {item : Reader Expr}
    (h : Chained (wordBetween "or".toList .or) (chain (wordBetween "and".toList .and) item) w a
      .conjunction) : Accepts (alternatives item) w a .condition :=
  h.accepts (by decide) fun _ _ hr hrest => wordBetween_stop (by decide) hr.stops hrest

end Levels

/-! ## Arguments -/

/-- The arguments after the first are accepted before the closing parenthesis. -/
structure AcceptsFurther (nested : Reader Expr) (text : List Char) (values : List Expr) :
    Prop where
  /-- They follow an argument. -/
  follow : ∀ r t, skipGap r = ')' :: t → Follow .condition (text ++ r)
  /-- They are read, whether the gap before them is still there or not. -/
  reads : ∀ r t s, skipGap r = ')' :: t → Leaves (text ++ r) s →
    ∃ rest, Leaves r rest ∧ moreArguments nested s = .ok values rest

/-- A comma and an argument behind it lead to the arguments after that one. -/
theorem moreArguments_step {afterComma rest : List Char} {e : Expr}
    (hcomma : expectAfterGap ',' s = some afterComma) (hread : nested afterComma = .ok e rest)
    (hlen : rest.length < s.length) :
    moreArguments nested s = (moreArguments nested rest).map (e :: ·) := by
  rw [moreArguments, hcomma]
  simp [hread, hlen]

theorem acceptsFurther_nil : AcceptsFurther nested [] [] := by
  constructor
  · exact fun r t hr => follow_of_mark hr (by decide) (by decide)
  · intro r t s hr hs
    have hnone : expectAfterGap ',' s = none := by
      rw [expectAfterGap, hs.skipGap_eq, List.nil_append, hr]
      rfl
    exact ⟨s, hs, by rw [moreArguments, hnone]⟩

theorem acceptsFurther_cons {others : List Char} {value : Expr} {values : List Expr}
    (h : Accepts nested w value .condition) (hstart : Starts w)
    (hothers : AcceptsFurther nested others values) (before after : Gap) :
    AcceptsFurther nested (before.1 ++ ',' :: (after.1 ++ w ++ others)) (value :: values) := by
  have hcomma : ∀ r, skipGap (before.1 ++ ',' :: (after.1 ++ w ++ others) ++ r) =
      ',' :: (after.1 ++ (w ++ (others ++ r))) := by
    intro r
    rw [List.append_assoc, skipGap_append before.2, List.cons_append,
      skipGap_cons (by decide)]
    simp
  constructor
  · exact fun r t _ => follow_of_mark (hcomma r) (by decide) (by decide)
  · intro r t s hr hs
    have hs := hs.skipGap_eq.trans (hcomma r)
    obtain ⟨middle, hmiddle, hread⟩ := h (others ++ r) (after.1 ++ (w ++ (others ++ r)))
      (hothers.follow r t hr) (by rw [skipGap_append after.2, (hstart.append _).skipGap_eq])
    obtain ⟨rest, hrest, hmore⟩ := hothers.reads r t middle hr hmiddle
    have hlen : middle.length < s.length := by
      have hshort := hmiddle.length_le
      have hlong := length_skipGap_le s
      rw [hs] at hlong
      simp only [List.length_cons, List.length_append] at hlong hshort
      omega
    have hcomma : expectAfterGap ',' s = some (after.1 ++ (w ++ (others ++ r))) := by
      rw [expectAfterGap, hs, expect_cons, if_pos rfl]
    refine ⟨rest, hrest, ?_⟩
    rw [moreArguments_step hcomma hread hlen, hmore]
    rfl

theorem acceptsArguments_nil
    (h : ∀ s t, skipGap s = ')' :: t → ∃ cause here, nested s = .miss cause here) :
    AcceptsArguments nested [] [] := by
  intro r t hr
  obtain ⟨cause, here, hmiss⟩ := h r t hr
  exact ⟨r, Leaves.all r, by simp [arguments, hmiss]⟩

theorem acceptsArguments_cons {others : List Char} {value : Expr} {values : List Expr}
    (h : Accepts nested w value .condition) (hstart : Starts w)
    (hothers : AcceptsFurther nested others values) (before : Gap) :
    AcceptsArguments nested (before.1 ++ w ++ others) (value :: values) := by
  intro r t hr
  obtain ⟨middle, hmiddle, hread⟩ := h (others ++ r) (before.1 ++ (w ++ (others ++ r)))
    (hothers.follow r t hr) (by rw [skipGap_append before.2, (hstart.append _).skipGap_eq])
  obtain ⟨rest, hrest, hmore⟩ := hothers.reads r t middle hr hmiddle
  exact ⟨rest, hrest, by simp [arguments, hread, hmore, Outcome.map]⟩

/-- No operand starts with a closing parenthesis. -/
theorem bareOperand_close (t : List Char) :
    bareOperand nested (')' :: t) = .miss .noOperand (')' :: t) := by
  have hskip : skipGap (')' :: t) = ')' :: t := skipGap_cons (by decide) t
  have hwords : ∀ word ∈ reservedWords, keyword word (')' :: t) = none := fun word hword =>
    keyword_of_mark hword (by rw [hskip]; simpa using by decide)
  have hname : name (')' :: t) = none := name_eq_none (by simpa using by decide)
  rw [bareOperand_word (by simpa using by decide), wordConstants_miss hwords]
  simp [call, callHead, field, column, hname, Outcome.ofOption, nameMiss]
  decide

/-- Where no operand and no negation starts, no condition is read. -/
theorem alternatives_miss {budget : Nat} {cause : Miss} {here : List Char}
    (hnot : keyword "not".toList s = none)
    (hoperand : operand (alternatives (term budget)) s = .miss cause here) :
    alternatives (term (budget + 1)) s = .miss cause here := by
  have hpredicate : predicate (alternatives (term budget)) s = .miss cause here := by
    simp [predicate, comparison, sum, product, chain, hoperand]
  have hterm : term (budget + 1) s = .miss cause here := by
    rw [term_positive budget hnot, hpredicate]
  simp [alternatives, chain, hterm]

/-- Before a closing parenthesis no condition is read. -/
theorem alternatives_close (budget : Nat) (hs : skipGap s = ')' :: t) :
    alternatives (term (budget + 1)) s = .miss .noOperand (')' :: t) := by
  apply alternatives_miss
  · apply keyword_of_mark (by decide)
    rw [hs]
    simpa using by decide
  · rw [operand, hs, bareOperand_close]

end Pushdown.Condition
