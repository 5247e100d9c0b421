import Pushdown.Proofs.Condition.Edges
import Pushdown.Proofs.Condition.Levels

/-!
# Every phrase is accepted

The reader of a level, given the text of a phrase of that level with something behind it that
does not continue the phrase, gives the meaning of the phrase and leaves what stood behind, up
to a gap. The main statement is for whole texts: every condition that nests at most as deep as
the limit is parsed to its meaning (`parse_phrase`).

## Implementation notes

The induction over phrases only passes the budget of levels down to the lemmas of the levels.
`Reads` is what it carries.
-/

namespace Pushdown.Condition

open Text Number

variable {l : Level}

/-- The phrases of the level do not start with `not`. -/
def Level.isPositive : Level → Bool
  | .predicate | .comparison | .sum | .product | .operand => true
  | _ => false

/-- A phrase without negation does not start with `not`. -/
theorem Phrase.keyword_not (p : Phrase l) : l.isPositive = true → ∀ r s, Boundary r →
    skipGap s = p.text ++ r → keyword "not".toList s = none := by
  induction p with
  | comparison p ih | sum p ih | product p ih | operand p ih =>
      exact fun _ r s hr hs => ih rfl r s hr hs
  | isNull p before word after _ ih | member p before word after _ ih
  | isNotNull p before word after _ _ _ ih =>
      intro _ r s hr hs
      rw [text] at hs
      simp only [List.append_assoc] at hs
      exact ih rfl _ s (boundary_space before _) hs
  | compare p before sign after q ih _ =>
      intro _ r s hr hs
      have hsep := separates_compare (q.starts rfl) before sign after
      exact ih rfl _ s (hsep.follow r).boundary (by simpa [text] using hs)
  | plus p before sign after q ih _ =>
      intro _ r s hr hs
      have hsep := separates_sum (q.starts rfl) before sign after
      exact ih rfl _ s (hsep.follow r).boundary (by simpa [text] using hs)
  | times p before sign after q ih _ =>
      intro _ r s hr hs
      have hsep := separates_product (q.starts rfl) before sign after
      exact ih rfl _ s (hsep.follow r).boundary (by simpa [text] using hs)
  | group before p after _ | parameter index type =>
      intro _ r s _ hs
      refine keyword_of_mark (by decide) ?_
      rw [hs]
      simpa [text] using by decide
  | integer n =>
      intro _ r s _ hs
      exact n.keyword_letter (by decide) hs
  | quoted q =>
      intro _ r s _ hs
      refine keyword_of_mark (by decide) ?_
      rw [hs]
      rcases q.isQuote with h | h <;> simpa [text, QuotedText.text, h] using by decide
  | truth b word =>
      intro _ r s hr hs
      cases b <;>
        exact keyword_spelling word (by decide) (by decide) hr.isNameChar hs
  | null word =>
      intro _ r s hr hs
      exact keyword_spelling word (by decide) (by decide) hr.isNameChar hs
  | call space function before args after _ =>
      intro _ r s _ hs
      rw [text, List.append_assoc, List.append_assoc, List.cons_append] at hs
      have hopen : ∀ t, skipGap (before.1 ++ '(' :: t) = '(' :: t := fun t => by
        rw [skipGap_append before.2, skipGap_cons (by decide)]
      have hbefore := boundary_of_mark (hopen (args.text ++ after.1 ++ [')'] ++ r)) (by decide)
      exact keyword_called (by decide) space function hbefore.isNameChar hs
  | field stream attr type =>
      intro _ r s hr hs
      rw [text, List.append_assoc] at hs
      exact keyword_name (by decide) stream.2 (by simpa using by decide) hs
  | column attr type =>
      intro _ r s hr hs
      rw [text, List.append_assoc] at hs
      have hafter := head?_typeNote [':'] type hr
      exact keyword_name (by decide) attr.2 (fun c hc => (hafter c hc).1) hs
  | _ => simp [Level.isPositive]

/-- What the induction over phrases carries. A budget of levels lies behind the readers of the
phrases of a level; the arguments of a call have one level more than the call. -/
def Reads (budget : Nat) : {l : Level} → Phrase l → Prop
  | .condition, p =>
      Chained (wordBetween "or".toList .or)
        (chain (wordBetween "and".toList .and) (term (budget + 1))) p.text p.meaning .conjunction
  | .conjunction, p =>
      Chained (wordBetween "and".toList .and) (term (budget + 1)) p.text p.meaning .term
  | .term, p => Accepts (term (budget + 1)) p.text p.meaning .term
  | .predicate, p => Accepts (predicate (alternatives (term budget))) p.text p.meaning .predicate
  | .comparison, p =>
      Accepts (comparison (alternatives (term budget))) p.text p.meaning .comparison
  | .sum, p =>
      Chained (mathBetween sumSigns) (product (alternatives (term budget))) p.text p.meaning
        .product
  | .product, p =>
      Chained (mathBetween productSigns) (Condition.operand (alternatives (term budget))) p.text
        p.meaning .operand
  | .operand, p =>
      Accepts (Condition.operand (alternatives (term budget))) p.text p.meaning .operand
  | .arguments, p =>
      AcceptsArguments (alternatives (term (budget + 1))) p.text p.meaning
  | .furtherArguments, p =>
      AcceptsFurther (alternatives (term (budget + 1))) p.text p.meaning

/-- Every phrase that nests within the budget is read. -/
theorem reads_of_nesting (p : Phrase l) : ∀ budget, p.nesting ≤ budget → Reads budget p := by
  -- the budget falls at `not`, at parentheses and at calls, which is where the nesting rises
  induction p with
  | conjunction p ih => exact fun budget h => Chained.single (accepts_conjunction (ih budget h))
  | or p before word after q ihp ihq =>
      intro budget h
      rw [Phrase.nesting, Nat.max_le] at h
      have hq := q.starts rfl
      exact Chained.append (ihp budget h.1) (accepts_conjunction (ihq budget h.2)) hq
        (separates_word word rfl (by decide) hq before after .or)
  | term p ih => exact fun budget h => Chained.single (ih budget h)
  | and p before word after q ihp ihq =>
      intro budget h
      rw [Phrase.nesting, Nat.max_le] at h
      have hq := q.starts rfl
      exact Chained.append (ihp budget h.1) (ihq budget h.2) hq
        (separates_word word rfl (by decide) hq before after .and)
  | not word after p ih =>
      intro budget h
      rw [Phrase.nesting] at h
      cases budget with
      | zero => omega
      | succ budget => exact accepts_not (ih budget (by omega)) (p.starts rfl) word after
  | predicate p ih => exact fun budget h => accepts_positive (ih budget h) (p.keyword_not rfl)
  | comparison p ih => exact fun budget h => accepts_predicate (ih budget h)
  | isNull p before isWord after nullWord ih =>
      exact fun budget h => accepts_isNull (ih budget h) before isWord after nullWord
  | isNotNull p before isWord after notWord behind nullWord ih =>
      exact fun budget h =>
        accepts_isNotNull (ih budget h) before isWord after notWord behind nullWord
  | member p before word after store ih =>
      exact fun budget h => accepts_member (ih budget h) before word after store
  | sum p ih => exact fun budget h => accepts_comparison (accepts_sum (ih budget h))
  | compare p before sign after q ihp ihq =>
      intro budget h
      rw [Phrase.nesting, Nat.max_le] at h
      exact accepts_compare (accepts_sum (ihp budget h.1)) (accepts_sum (ihq budget h.2))
        (q.starts rfl) before sign after
  | product p ih => exact fun budget h => Chained.single (accepts_product (ih budget h))
  | plus p before sign after q ihp ihq =>
      intro budget h
      rw [Phrase.nesting, Nat.max_le] at h
      have hq := q.starts rfl
      exact Chained.append (ihp budget h.1) (accepts_product (ihq budget h.2)) hq
        (separates_sum hq before sign after)
  | operand p ih => exact fun budget h => Chained.single (ih budget h)
  | times p before sign after q ihp ihq =>
      intro budget h
      rw [Phrase.nesting, Nat.max_le] at h
      have hq := q.starts rfl
      exact Chained.append (ihp budget h.1) (ihq budget h.2) hq
        (separates_product hq before sign after)
  | group before p after ih =>
      intro budget h
      rw [Phrase.nesting] at h
      cases budget with
      | zero => omega
      | succ budget =>
          have hp := accepts_condition (ih budget (by omega))
          have hskip : ∀ r, skipGap (p.text ++ r) = p.text ++ r := fun r =>
            ((p.starts rfl).append r).skipGap_eq
          exact accepts_group hp hskip before after
  | integer n => exact fun _ _ => accepts_integer n
  | quoted q => exact fun _ _ => accepts_quoted q
  | truth b word => exact fun _ _ => accepts_truth b word
  | null word => exact fun _ _ => accepts_null word
  | parameter index type => exact fun _ _ => accepts_parameter index type
  | call space function before args after ih =>
      intro budget h
      rw [Phrase.nesting] at h
      cases budget with
      | zero => omega
      | succ budget => exact accepts_call (ih budget (by omega)) space function before after
  | field stream attr type => exact fun _ _ => accepts_field stream attr type
  | column attr type => exact fun _ _ => accepts_column attr type
  | noArguments =>
      exact fun budget _ => acceptsArguments_nil fun s t hs =>
        ⟨_, _, alternatives_close budget hs⟩
  | arguments before p others ihp iho =>
      intro budget h
      rw [Phrase.nesting, Nat.max_le] at h
      exact acceptsArguments_cons (accepts_condition (ihp budget h.1)) (p.starts rfl)
        (iho budget h.2) before
  | noFurther => exact fun _ _ => acceptsFurther_nil
  | further before after p others ihp iho =>
      intro budget h
      rw [Phrase.nesting, Nat.max_le] at h
      exact acceptsFurther_cons (accepts_condition (ihp budget h.1)) (p.starts rfl)
        (iho budget h.2) before after

/-- The reader of conditions uses a phrase up and gives its meaning. -/
theorem condition_phrase (p : Phrase .condition) (h : p.nesting ≤ nestingLimit) :
    condition p.text = .ok p.meaning [] :=
  (accepts_condition (reads_of_nesting p nestingLimit h)).read (p.starts rfl)

/-- A text with blanks around a phrase is parsed to the meaning of the phrase. -/
theorem parseChars_phrase (p : Phrase .condition) (h : p.nesting ≤ nestingLimit)
    (before after : List Char) (hbefore : before.all isBlank = true)
    (hafter : after.all isBlank = true) :
    parseChars (before ++ p.text ++ after) = .ok p.meaning := by
  obtain ⟨c, t, htext, -⟩ := p.starts rfl
  have htrim := trim_of_edges (p.starts rfl) (p.ends rfl) hbefore hafter
  have hne : p.text.isEmpty = false := by simp [htext]
  simp only [parseChars, htrim, hne, condition_phrase p h]
  simp [trimStart]

/-- Every condition of the language that nests at most 64 levels deep, written with any gaps
between its parts and any blanks around it, is parsed to the tree that it stands for. -/
theorem parse_phrase (p : Phrase .condition) (h : p.nesting ≤ 64) (before after : List Char)
    (hbefore : before.all isBlank = true) (hafter : after.all isBlank = true) :
    parse (String.ofList (before ++ p.text ++ after)) = .ok p.meaning := by
  rw [parse, String.toList_ofList]
  exact parseChars_phrase p h before after hbefore hafter

/-- A phrase in which each word, sign and literal has a prefix or a neighbour to be confused
with: `NOT android<=-2L-f ( 'or' ) or\tS.b\nIS  Not null`. -/
def mixedPhrase : Phrase .condition :=
  .or
    (.conjunction (.term (.not ⟨"NOT".toList, by decide⟩ oneSpace (.predicate (.comparison (.compare
      (.product (.operand (.column ⟨"android".toList, by decide⟩ .none)))
      noGap ⟨.lte, "<=", by decide⟩ noGap
      (.plus
        (.product (.operand (.integer
          ⟨true, ⟨['2'], by decide⟩, some ⟨'L', by decide⟩, by decide⟩)))
        noGap ⟨.sub, "-", by decide⟩ noGap
        (.operand (.call .none ⟨['f'], by decide⟩ oneGap
          (.arguments oneGap
            (.conjunction (.term (.predicate (.comparison (.sum (.product (.operand
              (.quoted ⟨'\x27', "or".toList, by decide, by decide⟩))))))))
            .noFurther)
          oneGap)))))))))
    oneSpace ⟨"or".toList, by decide⟩ ⟨['\t'], by decide⟩
    (.term (.predicate (.isNotNull
      (.sum (.product (.operand (.field ⟨['S'], by decide⟩ ⟨['b'], by decide⟩ .none))))
      ⟨['\n'], by decide⟩ ⟨"IS".toList, by decide⟩ ⟨[' ', ' '], by decide⟩
      ⟨"Not".toList, by decide⟩ oneSpace ⟨"null".toList, by decide⟩)))

theorem parse_mixedPhrase :
    mixedPhrase.nesting = 2 ∧
      String.ofList (mixedPhrase.text ++ ['\n']) =
        "NOT android<=-2L-f ( 'or' ) or\tS.b\nIS  Not null\n" ∧
      parse "NOT android<=-2L-f ( 'or' ) or\tS.b\nIS  Not null\n" =
        .ok (.or
          (.not (.compare (.column none "android" .object) .lte
            (.math (.constant (.long (-2)) .long) .sub
              (.call none "f" [.constant (.string "or") .string]))))
          (.not (.isNull (.eventField "S.b" (some "S") "b" .object) none))) := by
  have hnesting : mixedPhrase.nesting = 2 := by decide
  have htext : String.ofList ([] ++ mixedPhrase.text ++ ['\n']) =
      "NOT android<=-2L-f ( 'or' ) or\tS.b\nIS  Not null\n" := by decide
  have hparse := parse_phrase mixedPhrase (by rw [hnesting]; decide) [] ['\n'] (by decide)
    (by decide)
  rw [htext] at hparse
  exact ⟨hnesting, htext, hparse.trans (by decide)⟩

end Pushdown.Condition
