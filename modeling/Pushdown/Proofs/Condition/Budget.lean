import Pushdown.Proofs.Condition.Locality

/-!
# The budget of nesting levels

With one more level in the budget a reader gives the same outcome, or had failed for want of
levels. The failure needs a text at least as long as the budget, because each level takes a
character (`within_term`).

## Implementation notes

The outcomes with both budgets are compared by `Outcome.Below`. What is claimed of the text when
they differ is a proposition beside it, so that one lemma for each way to combine readers is
enough for both statements.
-/

namespace Pushdown.Condition

open Text Number

variable {α β : Type} {P Q : Prop} {n : Nat} {l : Level} {s t rest : List Char}

/-! ## Outcomes for want of levels -/

/-- The outcomes are the same, or the first one is that the condition nests too deeply and the
proposition holds. -/
def Outcome.Below (P : Prop) (o o' : Outcome α) : Prop :=
  o = o' ∨ (P ∧ ∃ here, o = .fail .tooDeep here)

namespace Outcome.Below

theorem refl (P : Prop) (o : Outcome α) : Below P o o := Or.inl rfl

theorem imp {o o' : Outcome α} (h : Below P o o') (himp : P → Q) : Below Q o o' := by
  rcases h with h | ⟨hP, hdeep⟩
  · exact Or.inl h
  · exact Or.inr ⟨himp hP, hdeep⟩

theorem trans {o o' o'' : Outcome α} (h : Below P o o') (h' : Below P o' o'') : Below P o o'' := by
  rcases h with rfl | hdeep
  · exact h'
  · exact Or.inr hdeep

/-- A value that was read with fewer levels is read. -/
theorem eq_ok {o' : Outcome α} {a : α} (h : Below P (.ok a rest) o') : o' = .ok a rest := by
  rcases h with h | ⟨-, here, h⟩
  · exact h.symm
  · simp at h

/-- What was missed with fewer levels is missed. -/
theorem eq_miss {o' : Outcome α} {cause : Miss} {here : List Char}
    (h : Below P (.miss cause here) o') : o' = .miss cause here := by
  rcases h with h | ⟨-, there, h⟩
  · exact h.symm
  · simp at h

theorem andThen {o o' : Outcome α} {next next' : α → Reader β} (h : Below P o o')
    (hnext : ∀ a rest, o' = .ok a rest → Below P (next a rest) (next' a rest)) :
    Below P (o.andThen next) (o'.andThen next') := by
  rcases h with rfl | ⟨hP, here, rfl⟩
  · cases o with
    | ok a rest => exact hnext a rest rfl
    | miss cause here => exact refl P _
    | fail cause here => exact refl P _
  · exact Or.inr ⟨hP, here, rfl⟩

theorem map {o o' : Outcome α} (h : Below P o o') (f : α → β) : Below P (o.map f) (o'.map f) :=
  h.andThen fun _ _ _ => refl P _

theorem orElse {o o' : Outcome α} {second second' : Unit → Outcome α} (h : Below P o o')
    (hsecond : Below P (second ()) (second' ())) :
    Below P (o.orElse second) (o'.orElse second') := by
  rcases h with rfl | ⟨hP, here, rfl⟩
  · cases o with
    | ok a rest => exact refl P _
    | miss cause here => exact hsecond
    | fail cause here => exact refl P _
  · exact Or.inr ⟨hP, here, rfl⟩

end Outcome.Below

open Outcome (Below)

/-- The readers give the same outcomes, except that the first one may find that a text of at least
the given length nests too deeply. -/
def Within (n : Nat) (reader reader' : Reader α) : Prop :=
  ∀ s, Below (n ≤ s.length) (reader s) (reader' s)

/-! ## What is left is an end of the text -/

theorem Settles.length_le {reader : Reader α} (h : Settles reader l) {a : α}
    (hread : reader s = .ok a rest) : rest.length ≤ s.length := by
  obtain ⟨w, -, hs, -⟩ := h s a rest hread
  have hlen := length_skipGap_le s
  rw [hs, List.length_append] at hlen
  omega

/-- A reserved word takes a character. -/
theorem length_of_keyword {word : List Char} (hword : word ∈ reservedWords)
    (h : keyword word s = some rest) : rest.length < s.length := by
  obtain ⟨c, w, -, -, hs, -⟩ := keyword_again hword h
  have hlen := length_skipGap_le s
  rw [hs, List.length_append, List.length_cons] at hlen
  omega

theorem suffix_of_keyword {word : List Char} (h : keyword word s = some rest) : rest <:+ s :=
  (word_of_keyword h).suffix fun _ _ => Word.suffix

theorem suffix_of_expectAfterGap {c : Char} (h : expectAfterGap c s = some rest) : rest <:+ s :=
  (List.suffix_cons c rest).trans (expectAfterGap_eq_some h).suffix

theorem length_of_expectAfterGap {c : Char} (h : expectAfterGap c s = some rest) :
    rest.length < s.length :=
  (expectAfterGap_eq_some h).suffix.length_le

/-- The operator takes a character and leaves an end of the text. -/
def Takes (op : Lexer β) : Prop := ∀ s f t, op s = some (f, t) → t <:+ s ∧ t.length < s.length

theorem takes_signIn {signs : List (List Char × β)} {spellings : β → List String}
    (hsigns : ∀ p ∈ signs, ∃ sign ∈ spellings p.2, sign.toList = p.1)
    (hne : ∀ op, ∀ sign ∈ spellings op, sign.toList ≠ []) : Takes (signIn signs) := by
  intro s op t h
  have haround := sign_of_signIn hsigns h
  refine ⟨haround.suffix fun _ _ => Sign.suffix, ?_⟩
  obtain ⟨u, v, hu, ⟨sign, hsign, rfl⟩, hv⟩ := haround
  have hpos := List.length_pos_iff.mpr (hne op sign hsign)
  have hlong := hu.suffix.length_le
  have hshort := hv.suffix.length_le
  rw [List.length_append] at hlong
  omega

theorem takes_productSigns : Takes (signIn productSigns) :=
  takes_signIn spells_productSigns fun op => by cases op <;> decide

theorem takes_sumSigns : Takes (signIn sumSigns) :=
  takes_signIn spells_sumSigns fun op => by cases op <;> decide

theorem takes_compareSigns : Takes (signIn compareSigns) :=
  takes_signIn spells_compareSigns fun op => by cases op <;> decide

theorem takes_mathBetween {signs : List (List Char × MathOp)} (h : Takes (signIn signs)) :
    Takes (mathBetween signs) := by
  intro s f t hread
  simp only [mathBetween, Option.map_eq_some_iff, Prod.mk.injEq, Prod.exists] at hread
  obtain ⟨op, t, hsign, -, rfl⟩ := hread
  exact h s op t hsign

theorem takes_wordBetween {word : List Char} (hword : word ∈ reservedWords)
    (node : Expr → Expr → Expr) : Takes (wordBetween word node) := by
  intro s f t h
  simp only [wordBetween, Option.map_eq_some_iff, Prod.mk.injEq] at h
  obtain ⟨t, hread, -, rfl⟩ := h
  exact ⟨suffix_of_keyword hread, length_of_keyword hword hread⟩

/-! ## Lists folded to the left -/

section Chains

variable {op : Lexer (α → α → α)} {item item' : Reader α}

theorem below_chainTail (hop : Takes op) (h : Within n item item') (acc : α) (s : List Char) :
    Below (n ≤ s.length) (chainTail op item acc s) (chainTail op item' acc s) := by
  fun_induction chainTail op item acc s with
  | case1 acc s hnone =>
      rw [chainTail_stop hnone]
      exact Below.refl _ _
  | case2 acc s f afterOp hsome value mid hread hlen ih =>
      have hread' : item' afterOp = .ok value mid := (hread ▸ h afterOp).eq_ok
      rw [chainTail_step hsome hread' hlen]
      exact ih.imp fun hmid => by omega
  | case3 acc s f afterOp hsome value mid hread hlen =>
      have hread' : item' afterOp = .ok value mid := (hread ▸ h afterOp).eq_ok
      refine Or.inl ?_
      rw [chainTail, hsome]
      simp [hread', hlen]
  | case4 acc s f afterOp hsome cause here hread =>
      have hread' : item' afterOp = .miss cause here := (hread ▸ h afterOp).eq_miss
      refine Or.inl ?_
      rw [chainTail, hsome]
      simp [hread']
  | case5 acc s f afterOp hsome cause here hread =>
      have hlen := (hop s f afterOp hsome).2
      rcases h afterOp with hsame | ⟨hn, there, hdeep⟩
      · refine Or.inl ?_
        rw [chainTail, hsome]
        simp [← hsame, hread]
      · refine Or.inr ⟨by omega, there, ?_⟩
        rw [← hread, hdeep]

theorem within_chain (h : Within n item item') (hop : Takes op) (hitem : Settles item' l) :
    Within n (chain op item) (chain op item') := by
  intro s
  refine (h s).andThen fun a rest hread => ?_
  have hlen := hitem.length_le hread
  exact (below_chainTail hop h a rest).imp fun hn => by omega

end Chains

/-! ## Operands -/

section Operands

variable {nested nested' : Reader Expr}

theorem below_group (h : Within n nested nested') (s : List Char) :
    Below (n + 1 ≤ s.length) (group nested s) (group nested' s) := by
  cases hopen : expect '(' s with
  | none => simp [group, hopen, Below]
  | some inside =>
      have hlen : s.length = inside.length + 1 := by rw [expect_eq_some hopen, List.length_cons]
      simp only [group, hopen]
      refine ((h inside).imp fun hn => ?_).andThen fun e rest _ => Below.refl _ _
      omega

theorem below_moreArguments (h : Within n nested nested') (s : List Char) :
    Below (n ≤ s.length) (moreArguments nested s) (moreArguments nested' s) := by
  fun_induction moreArguments nested s with
  | case1 s hnone =>
      refine Or.inl ?_
      rw [moreArguments, hnone]
  | case2 s afterComma hcomma e mid hread hlen ih =>
      have hread' : nested' afterComma = .ok e mid := (hread ▸ h afterComma).eq_ok
      rw [moreArguments_step hcomma hread' hlen]
      exact (ih.map (e :: ·)).imp fun hmid => by omega
  | case3 s afterComma hcomma e mid hread hlen =>
      have hread' : nested' afterComma = .ok e mid := (hread ▸ h afterComma).eq_ok
      refine Or.inl ?_
      rw [moreArguments, hcomma]
      simp [hread', hlen]
  | case4 s afterComma hcomma cause here hread =>
      have hread' : nested' afterComma = .miss cause here := (hread ▸ h afterComma).eq_miss
      refine Or.inl ?_
      rw [moreArguments, hcomma]
      simp [hread']
  | case5 s afterComma hcomma cause here hread =>
      have hlen := length_of_expectAfterGap hcomma
      rcases h afterComma with hsame | ⟨hn, there, hdeep⟩
      · refine Or.inl ?_
        rw [moreArguments, hcomma]
        simp [← hsame, hread]
      · refine Or.inr ⟨by omega, there, ?_⟩
        rw [hread] at hdeep
        obtain ⟨rfl, rfl⟩ := Outcome.fail.inj hdeep
        rfl

theorem below_arguments (h : Within n nested nested') (hnested : Settles nested' .condition)
    (s : List Char) : Below (n ≤ s.length) (arguments nested s) (arguments nested' s) := by
  rcases h s with hsame | ⟨hn, here, hdeep⟩
  · rw [arguments, arguments, hsame]
    cases hread : nested' s with
    | ok e mid =>
        have hlen := hnested.length_le hread
        exact ((below_moreArguments h mid).map (e :: ·)).imp fun hn => by omega
    | miss cause here => exact Below.refl _ _
    | fail cause here => exact Below.refl _ _
  · exact Or.inr ⟨hn, here, by rw [arguments, hdeep]⟩

theorem below_call (h : Within n nested nested') (hnested : Settles nested' .condition)
    (s : List Char) : Below (n + 1 ≤ s.length) (call nested s) (call nested' s) := by
  cases hhead : callHead s with
  | none => simp [call, hhead, Below]
  | some found =>
      obtain ⟨⟨space, function⟩, afterHead⟩ := found
      cases hopen : expectAfterGap '(' afterHead with
      | none => simp [call, hhead, hopen, Below]
      | some inside =>
          have hlen : inside.length < s.length :=
            Nat.lt_of_lt_of_le (length_of_expectAfterGap hopen)
              (callee_of_callHead hhead).suffix.length_le
          rw [call_eq hhead hopen, call_eq hhead hopen]
          have hargs := (below_arguments h hnested inside).andThen fun args rest _ =>
            Below.refl _ (closed args rest)
          exact (hargs.map _).imp fun hn => by omega

/-- A parenthesis or a call takes a level and a character. -/
theorem within_operand (h : Within n nested nested') (hnested : Settles nested' .condition) :
    Within (n + 1) (operand nested) (operand nested') := by
  intro s
  have hlen := length_skipGap_le s
  have hgroup := below_group h (skipGap s)
  have hcall := below_call h hnested (skipGap s)
  have hbare : Below (n + 1 ≤ (skipGap s).length) (bareOperand nested (skipGap s))
      (bareOperand nested' (skipGap s)) :=
    hgroup.orElse <| (Below.refl _ _).orElse <| (Below.refl _ _).orElse <|
      (Below.refl _ _).orElse <| (Below.refl _ _).orElse <| (Below.refl _ _).orElse <|
      (Below.refl _ _).orElse <| hcall.orElse <| Below.refl _ _
  exact hbare.imp fun hn => by omega

end Operands

/-! ## Levels -/

section Levels

variable {nested nested' : Reader Expr}

theorem within_sum (h : Within n (operand nested) (operand nested'))
    (hoperand : Settles (operand nested') .operand) : Within n (sum nested) (sum nested') :=
  within_chain (within_chain h (takes_mathBetween takes_productSigns) hoperand)
    (takes_mathBetween takes_sumSigns) (settles_product hoperand)

theorem below_compared (h : Within n (sum nested) (sum nested')) (left : Expr) (s : List Char) :
    Below (n ≤ s.length) (compared nested left s) (compared nested' left s) := by
  cases hsign : signIn compareSigns s with
  | none => simp [compared, hsign, Below]
  | some found =>
      obtain ⟨op, afterOp⟩ := found
      have hlen := (takes_compareSigns s op afterOp hsign).2
      simp only [compared, hsign]
      rcases h afterOp with hsame | ⟨hn, here, hdeep⟩
      · rw [hsame]
        exact Below.refl _ _
      · exact Or.inr ⟨by omega, here, by rw [hdeep]⟩

theorem within_predicate (h : Within n (sum nested) (sum nested'))
    (hsum : Settles (sum nested') .sum) : Within n (predicate nested) (predicate nested') := by
  intro s
  have hcomparison : Below (n ≤ s.length) (comparison nested s) (comparison nested' s) := by
    refine (h s).andThen fun left rest hread => ?_
    have hlen := hsum.length_le hread
    exact (below_compared h left rest).imp fun hn => by omega
  exact hcomparison.andThen fun e rest _ => Below.refl _ _

theorem within_alternatives {item item' : Reader Expr} (h : Within n item item')
    (hitem : Settles item' .term) : Within n (alternatives item) (alternatives item') :=
  within_chain (within_chain h (takes_wordBetween (by decide) .and) hitem)
    (takes_wordBetween (by decide) .or) (settles_conjunction hitem)

/-- With one level more in the budget a term is read as before, unless it nested too deeply for the
budget in a text at least as long. -/
theorem within_term (budget : Nat) : Within budget (term budget) (term (budget + 1)) := by
  induction budget with
  | zero => exact fun s => Or.inr ⟨Nat.zero_le _, s, rfl⟩
  | succ budget ih =>
      have hterm := settles_term (budget + 1)
      have hnested := settles_alternatives hterm
      have hoperand := settles_operand hnested (missesClose_alternatives (budget + 1))
      have hsum := within_sum (within_operand (within_alternatives ih hterm) hnested) hoperand
      have hpredicate := within_predicate hsum (settles_sum hoperand)
      intro s
      change Below _ (Outcome.orElse _ fun _ => predicate (alternatives (term budget)) s)
        (Outcome.orElse _ fun _ => predicate (alternatives (term (budget + 1))) s)
      refine Below.orElse ?_ (hpredicate s)
      cases hword : keyword "not".toList s with
      | none => exact Below.refl _ _
      | some rest =>
          have hlen := length_of_keyword (by decide) hword
          exact ((ih rest).map Expr.not).imp fun hn => by omega

/-- With one level more in the budget a condition is read as before, unless it nested too deeply for
the budget in a text at least as long. -/
theorem within_condition (budget : Nat) :
    Within budget (alternatives (term budget)) (alternatives (term (budget + 1))) :=
  within_alternatives (within_term budget) (settles_term (budget + 1))

/-- With any number of levels more a condition is read as before, unless it nested too deeply for
the budget in a text at least as long. -/
theorem within_condition_add (budget k : Nat) :
    Within budget (alternatives (term budget)) (alternatives (term (budget + k))) := by
  induction k with
  | zero => exact fun s => Below.refl _ _
  | succ k ih =>
      intro s
      have hstep := within_condition (budget + k) s
      exact (ih s).trans (hstep.imp fun hn => by omega)

end Levels

end Pushdown.Condition
