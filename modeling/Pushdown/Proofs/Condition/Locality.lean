import Pushdown.Proofs.Condition.Settling

/-!
# What is read does not depend on what follows

The readers of all levels settle, within every budget of nesting levels (`settles_term`). A reader
has looked beyond its phrase before it stopped there, and may have begun a call, a comparison or a
longer list and given it up; none of this matters for what it has read.

A condition that is read to the end of a text is therefore accepted wherever the text stands
(`accepts_of_read`).
-/

namespace Pushdown.Condition

open Text Number

variable {s rest : List Char} {c : Char}

/-! ## Levels -/

section Levels

variable {nested : Reader Expr} {e : Expr}

theorem settles_product (hoperand : Settles (operand nested) .operand) :
    Settles (product nested) .product :=
  settles_chain (isOperator_mathBetween (by decide) (by decide)) hoperand (by decide)
    fun _ _ hr ht => mathBetween_stop (by decide) hr ht

theorem settles_sum (hoperand : Settles (operand nested) .operand) : Settles (sum nested) .sum :=
  settles_chain (isOperator_mathBetween (by decide) (by decide)) (settles_product hoperand)
    (by decide) fun _ _ hr ht => mathBetween_stop (by decide) hr ht

/-- What a comparison reads behind its first sum. -/
def compared (nested : Reader Expr) (left : Expr) : Reader Expr := fun s =>
  match signIn compareSigns s with
  | none => .ok left s
  | some (op, afterOp) =>
      match sum nested afterOp with
      | .ok right rest => .ok (.compare left op right) rest
      | .miss _ _ => .ok left s
      | .fail cause here => .fail cause here

theorem goesOn_compared (hsum : Settles (sum nested) .sum) {left : Expr}
    (h : compared nested left s = .ok e rest) :
    GoesOn (compared nested left) .sum .comparison s e rest := by
  -- a comparison that was given up is not begun before a text with no sign of one
  have halone : Outcome.ok left s = .ok e rest →
      GoesOn (compared nested left) .sum .comparison s e rest := by
    intro h
    obtain ⟨rfl, rfl⟩ := Outcome.ok.inj h
    refine goesOn_stop (by decide) fun r t hr ht => ?_
    have hnone : signIn compareSigns t = none := signIn_stop (by decide) hr ht
    simp [compared, hnone]
  rw [compared] at h
  split at h
  · exact halone h
  · rename_i op afterOp hsign
    split at h
    · rename_i right behind hright
      obtain ⟨rfl, rfl⟩ := Outcome.ok.inj h
      have hend : GoesOn (Outcome.ok (Expr.compare left op right)) .sum .comparison behind
          (Expr.compare left op right) behind := goesOn_stop (by decide) fun r t _ _ => rfl
      refine GoesOn.step (isOperator_signIn (by decide) (by decide)) hsum hsign hright hend ?_
      intro s t mid hop hitem _
      simp [compared, hop, hitem]
    · exact halone h
    · simp at h

theorem settles_comparison (hsum : Settles (sum nested) .sum) :
    Settles (comparison nested) .comparison := by
  have hnext : ∀ left s e rest, compared nested left s = .ok e rest →
      GoesOn (compared nested left) .sum .comparison s e rest := fun _ _ _ _ =>
    goesOn_compared hsum
  exact hsum.andThen hnext

theorem keywords_cons (word : List Char) (words : List (List Char)) (s : List Char) :
    keywords (word :: words) s = (keyword word s).bind (keywords words) := rfl

theorem keywords_singleton (word s : List Char) : keywords [word] s = keyword word s := by
  cases h : keyword word s <;> simp [keywords, h]

/-- Words that are found one after the other are found again before another text. -/
theorem keywords_again {word : List Char} {words : List (List Char)}
    (hwords : ∀ w ∈ word :: words, w ∈ reservedWords) (h : keywords (word :: words) s = some rest) :
    ∃ c w, isAlphabetic c = true ∧ word.head? = some c.toLower ∧ skipGap s = c :: w ++ rest ∧
      skipGap rest = rest ∧ ∀ r t, KeepsWord rest r → skipGap t = c :: w ++ r →
        keywords (word :: words) t = some (skipGap r) := by
  induction words generalizing word s with
  | nil =>
      simp only [keywords_singleton] at h ⊢
      exact keyword_again (hwords word (by simp)) h
  | cons next words ih =>
      rw [keywords_cons, Option.bind_eq_some_iff] at h
      obtain ⟨mid, hword, hothers⟩ := h
      obtain ⟨c, v, hc, hlower, hs, hmid, hagain⟩ := keyword_again (hwords word (by simp)) hword
      obtain ⟨d, w, hd, -, hskip, hrest, hagain'⟩ :=
        ih (fun u hu => hwords u (List.mem_cons_of_mem word hu)) hothers
      rw [hmid] at hskip
      refine ⟨c, v ++ d :: w, hc, hlower, by simp [hs, hskip], hrest, fun r t hr ht => ?_⟩
      have hletter : skipGap (d :: w ++ r) = d :: w ++ r :=
        skipGap_cons (isGap_of_isNameChar (isNameChar_of_isAlphabetic hd)) _
      have hfirst : keyword word t = some (d :: w ++ r) := by
        rw [← hletter]
        exact hagain _ t (keepsWord_of_head (by rw [hskip]; rfl)) (by simpa using ht)
      rw [keywords_cons, hfirst]
      exact hagain' r _ hr hletter

/-- The words of a suffix, which follow a comparison, are found again. -/
theorem suffixWords_again {word : List Char} {words : List (List Char)}
    (hwords : ∀ w ∈ word :: words, w ∈ reservedWords) (hfirst : word.head? = some 'i')
    (h : keywords (word :: words) s = some rest) :
    ∃ p, s = p ++ rest ∧ ∀ r, KeepsWord rest r → Fits .comparison s (p ++ r) ∧
      ∀ t, Leaves (p ++ r) t → keywords (word :: words) t = some (skipGap r) := by
  obtain ⟨c, w, hletter, hlower, hskip, -, hagain⟩ := keywords_again hwords h
  obtain ⟨g, hg, hs⟩ := exists_gap s
  have hparts : Parts .comparison c := by
    rw [hfirst, Option.some.injEq] at hlower
    exact parts_of_isAlphabetic hletter (hlower ▸ by decide)
  rw [hskip] at hs
  refine ⟨g ++ c :: w, by simpa using hs, fun r hr => ?_⟩
  rw [List.append_assoc, List.cons_append]
  refine ⟨hs ▸ hparts.fits hg _ _, fun t ht => hagain r t hr ?_⟩
  rw [ht.skipGap_eq, skipGap_append hg, skipGap_cons hparts.visible, List.cons_append]

/-- Words are not found where others with another first word are. -/
theorem keywords_excludes {word other : List Char} (hword : word ∈ reservedWords)
    (hother : other ∈ reservedWords) (hne : word ≠ other) {words : List (List Char)}
    (h : keywords (word :: words) s = some rest) (others : List (List Char)) :
    keywords (other :: others) s = none := by
  rw [keywords_cons, Option.bind_eq_some_iff] at h
  obtain ⟨mid, hfound, -⟩ := h
  rw [keywords_cons, keyword_excludes hword hother hne hfound, Option.bind_none]

/-- A suffix is found again before another text. -/
theorem suffix_again {found : Suffix} (h : suffix s = some (found, rest)) :
    ∃ w, s = w ++ rest ∧ ∀ r, Agrees rest r → Fits .comparison s (w ++ r) ∧
      ∀ t, Leaves (w ++ r) t → ∃ rest', Leaves r rest' ∧ suffix t = some (found, rest') := by
  rw [suffix, Option.or_eq_some_iff, Option.or_eq_some_iff] at h
  simp only [Option.map_eq_some_iff, Option.bind_eq_some_iff, Prod.mk.injEq, Prod.exists] at h
  rcases h with ⟨behind, hwords, rfl, rfl⟩ | ⟨-, ⟨behind, hwords, rfl, rfl⟩ |
    ⟨-, store, behind, ⟨afterIn, hin, hstore⟩, rfl, rfl⟩⟩
  · obtain ⟨p, hs, hagain⟩ := suffixWords_again (by decide) rfl hwords
    refine ⟨p, hs, fun r hr => ⟨(hagain r hr.keepsWord).1, fun t ht => ?_⟩⟩
    have hwords' := (hagain r hr.keepsWord).2 t ht
    exact ⟨skipGap r, Leaves.afterGap r, by rw [suffix, hwords']; rfl⟩
  · obtain ⟨p, hs, hagain⟩ := suffixWords_again (by decide) rfl hwords
    refine ⟨p, hs, fun r hr => ⟨(hagain r hr.keepsWord).1, fun t ht => ?_⟩⟩
    have hwords' := (hagain r hr.keepsWord).2 t ht
    -- the longer suffix is tried first and is given up at `not`
    have hlonger : keywords ["is".toList, "not".toList, "null".toList] t = none := by
      rw [keywords_cons, Option.bind_eq_some_iff] at hwords'
      obtain ⟨afterIs, his, hnull⟩ := hwords'
      rw [keywords_cons, his, Option.bind_some]
      exact keywords_excludes (by decide) (by decide) (by decide) hnull _
    exact ⟨skipGap r, Leaves.afterGap r, by rw [suffix, hlonger, hwords']; rfl⟩
  · rw [← keywords_singleton] at hin
    obtain ⟨p, rfl, hagain⟩ := suffixWords_again (by decide) rfl hin
    obtain ⟨rfl, hname, hend⟩ := ident_of_name hstore
    refine ⟨p ++ store, by simp, fun r hr => ?_⟩
    rw [List.append_assoc]
    have hhead : (store ++ r).head? = (store ++ behind).head? := by
      obtain ⟨c, cs, rfl, -⟩ := isName_cons hname
      rfl
    obtain ⟨hfits, hagain⟩ := hagain (store ++ r) (keepsWord_of_head hhead)
    refine ⟨hfits, fun t ht => ⟨r, Leaves.all r, ?_⟩⟩
    have hin' := hagain t ht
    have hnone : ∀ others, keywords ("is".toList :: others) t = none :=
      keywords_excludes (by decide) (by decide) (by decide) hin'
    rw [keywords_singleton, ((starts_name hname).append r).skipGap_eq] at hin'
    have hstore' : name (store ++ r) = some (store, r) :=
      name_append hname (hr.keepsWord.free (fun _ hc => hc) [] (startsInName_eq_false.mp hend))
    rw [suffix, hnone, hnone, hin', Option.bind_some, hstore']
    rfl

/-- What a predicate reads behind its comparison. -/
def suffixed (e : Expr) : Reader Expr := fun s =>
  match suffix s with
  | some (suffix, rest) => .ok (suffix.apply e) rest
  | none => .ok e s

theorem goesOn_suffixed {left : Expr} (h : suffixed left s = .ok e rest) :
    GoesOn (suffixed left) .comparison .predicate s e rest := by
  rw [suffixed] at h
  split at h
  · rename_i found behind hfound
    obtain ⟨rfl, rfl⟩ := Outcome.ok.inj h
    obtain ⟨w, hs, hagain⟩ := suffix_again hfound
    refine ⟨w, hs, fun r hr => ?_⟩
    obtain ⟨hfits, hagain⟩ := hagain r hr.agrees
    refine ⟨hfits, fun t ht => ?_⟩
    obtain ⟨rest', hrest', hfound'⟩ := hagain t ht
    exact ⟨rest', hrest', by simp [suffixed, hfound']⟩
  · obtain ⟨rfl, rfl⟩ := Outcome.ok.inj h
    exact goesOn_stop (by decide) fun r t hr ht => by simp [suffixed, suffix_stop hr ht]

theorem settles_predicate (hcomparison : Settles (comparison nested) .comparison) :
    Settles (predicate nested) .predicate := by
  have hnext : ∀ left s e rest, suffixed left s = .ok e rest →
      GoesOn (suffixed left) .comparison .predicate s e rest := fun _ _ _ _ => goesOn_suffixed
  exact hcomparison.andThen hnext

theorem settles_conjunction {item : Reader Expr} (hitem : Settles item .term) :
    Settles (chain (wordBetween "and".toList .and) item) .conjunction :=
  settles_chain (isOperator_wordBetween (by decide) rfl (by decide) .and) hitem (by decide)
    fun _ _ hr ht => wordBetween_stop (by decide) hr ht

theorem settles_alternatives {item : Reader Expr} (hitem : Settles item .term) :
    Settles (alternatives item) .condition :=
  settles_chain (isOperator_wordBetween (by decide) rfl (by decide) .or) (settles_conjunction hitem)
    (by decide) fun _ _ hr ht => wordBetween_stop (by decide) hr ht

end Levels

/-! ## Terms -/

section Terms

variable {nested : Reader Expr} {e : Expr}

/-- A reserved word is not a name. -/
theorem name_of_keyword {word : List Char} (hword : word ∈ reservedWords)
    (h : keyword word s = some rest) : name (skipGap s) = none := by
  obtain ⟨u, g, hu, -, hskip, hend, -⟩ := spelled_of_keyword h
  cases u with
  | nil =>
      rw [← hu] at hword
      exact absurd hword (by decide)
  | cons c u =>
      have hletters := isAlphabetic_of_spelling hword hu
      have hstart : isNameStart c = true := by simp [isNameStart, hletters c (by simp)]
      obtain ⟨htake, -⟩ := span_append (p := isNameChar) (w := u)
        (fun d hd => isNameChar_of_isAlphabetic (hletters d (by simp [hd]))) hend
      have hreserved : isReserved (c :: u) = true := by simpa [isReserved, hu] using hword
      rw [hskip, List.cons_append]
      simp [name, hstart, htake, hreserved]

/-- No operand starts with `not`. -/
theorem operand_not (nested : Reader Expr) (h : keyword "not".toList s = some rest) :
    ∃ cause here, operand nested s = .miss cause here := by
  have hname := name_of_keyword (by decide) h
  have hread : keyword "not".toList (skipGap s) = some rest := by
    rw [keyword, skipGap_skipGap]
    exact h
  have hother : ∀ other ∈ reservedWords, "not".toList ≠ other →
      keyword other (skipGap s) = none := fun other hmem hne =>
    keyword_excludes (by decide) hmem hne hread
  rw [operand, bareOperand_word (isWordStart_of_keyword (by decide) hread),
    wordConstant_miss (hother _ (by decide) (by decide)), Outcome.orElse_miss,
    wordConstant_miss (hother _ (by decide) (by decide)), Outcome.orElse_miss,
    wordConstant_miss (hother _ (by decide) (by decide)), Outcome.orElse_miss]
  simp [call, callHead, field, column, hname, Outcome.ofOption]

/-- What is read as a predicate does not start with `not`. -/
theorem keyword_not_of_predicate (h : predicate nested s = .ok e rest) :
    keyword "not".toList s = none := by
  cases hword : keyword "not".toList s with
  | none => rfl
  | some behind =>
      obtain ⟨cause, here, hmiss⟩ := operand_not nested hword
      simp [predicate, comparison, sum, product, chain, hmiss] at h

theorem missesClose_alternatives (budget : Nat) : MissesClose (alternatives (term budget)) := by
  intro s t u v _ ht h
  cases budget with
  | zero =>
      obtain ⟨cause, here, hmiss⟩ := h
      simp [alternatives, chain, term] at hmiss
  | succ budget => exact ⟨_, _, alternatives_close budget ht⟩

/-- A term settles within every budget. -/
theorem settles_term (budget : Nat) : Settles (term budget) .term := by
  induction budget with
  | zero =>
      intro s e rest h
      simp [term] at h
  | succ budget ih =>
      have hoperand := settles_operand (settles_alternatives ih) (missesClose_alternatives budget)
      have hpredicate := settles_predicate (settles_comparison (settles_sum hoperand))
      intro s e rest h
      rw [term] at h
      rcases Outcome.orElse_eq_ok h with h | h
      · obtain ⟨_, afterWord, hword, h⟩ := Outcome.andThen_eq_ok h
        obtain ⟨inner, hread, rfl⟩ := Outcome.map_eq_ok h
        have hfound := Outcome.ofOption_eq_ok hword
        simp only [Option.map_eq_some_iff, Prod.mk.injEq, true_and, exists_eq_right] at hfound
        obtain ⟨c, v, -, -, hs, hafter, hagain⟩ := keyword_again (by decide) hfound
        obtain ⟨w, hne, hinner, hreads⟩ := ih afterWord inner rest hread
        have hskip := skipGap_front hne hinner
        rw [hafter] at hinner
        refine ⟨c :: v ++ w, by simp, by rw [hs, hinner, List.append_assoc], fun r t hr ht => ?_⟩
        rw [List.append_assoc] at ht
        have hkeeps : KeepsWord afterWord (w ++ r) := keepsWord_of_head (by
          rw [hinner, List.head?_append_of_ne_nil _ hne, List.head?_append_of_ne_nil _ hne])
        have hword' := hagain (w ++ r) t hkeeps ht
        rw [hskip] at hword'
        obtain ⟨rest', hrest', hread'⟩ := hreads r (w ++ r) hr (hskip r)
        refine ⟨rest', hrest', ?_⟩
        simp only [term]
        rw [hword']
        simp [Outcome.ofOption, hread', Outcome.map]
      · obtain ⟨w, hne, hs, hreads⟩ := hpredicate s e rest h
        refine ⟨w, hne, hs, fun r t hr ht => ?_⟩
        obtain ⟨rest', hrest', hread'⟩ := hreads r t (hr.mono (by decide)) ht
        exact ⟨rest', hrest', by rw [term_positive budget (keyword_not_of_predicate hread'), hread']⟩

/-- A condition that is read to the end of a text is accepted wherever the text stands. -/
theorem accepts_of_read {budget : Nat} (hs : skipGap s = s)
    (h : alternatives (term budget) s = .ok e []) :
    Accepts (alternatives (term budget)) s e .condition := by
  intro r t hr ht
  obtain ⟨w, -, hw, hreads⟩ := settles_alternatives (settles_term budget) s e [] h
  rw [hs, List.append_nil] at hw
  exact hreads r t (hr.fits []) (hw ▸ ht)

end Terms

end Pushdown.Condition
