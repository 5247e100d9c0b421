import Pushdown.Proofs.Condition.Padding
import Pushdown.Proofs.Condition.Reports

/-!
# What stands before trailing content

A reader that is given a text with blanks behind it finds the same value as without them, or misses
or fails in the same cases (`ignores_term`).

A condition with something left over behind it is therefore a condition without that
(`parse_before_trailing`). The reader has looked at what follows before it stopped, but what it has
read does not depend on it (`Settles`); and the gap that it skipped behind its last word is cut off
with the other blanks at the end.
-/

namespace Pushdown.Condition

open Text Number

variable {α β : Type} {s t w : List Char} {c : Char}

/-! ## Outcomes -/

/-- The outcomes on a text with and without blanks behind it are the same: the same value with the
rest of the text, a miss, or the same failure. -/
inductive Outcome.Same : Outcome α → Outcome α → Prop
  /-- The same value was read. -/
  | ok {a : α} {rest rest' : List Char} (hrest : Padded rest rest') :
      Same (.ok a rest) (.ok a rest')
  /-- Both miss. -/
  | miss {cause cause' : Miss} {here here' : List Char} :
      Same (.miss cause here) (.miss cause' here')
  /-- Both fail for the same cause. -/
  | fail {cause : Fatal} {here here' : List Char} : Same (.fail cause here) (.fail cause here')

namespace Outcome.Same

variable {o o' : Outcome α}

theorem eq_ok {a : α} {rest : List Char} (h : Same (.ok a rest) o') :
    ∃ rest', o' = .ok a rest' ∧ Padded rest rest' := by
  cases h with
  | ok hrest => exact ⟨_, rfl, hrest⟩

theorem of_ok {a : α} {rest' : List Char} (h : Same o (.ok a rest')) :
    ∃ rest, o = .ok a rest ∧ Padded rest rest' := by
  cases h with
  | ok hrest => exact ⟨_, rfl, hrest⟩

theorem eq_miss {cause : Miss} {here : List Char} (h : Same (.miss cause here) o') :
    ∃ cause' here', o' = .miss cause' here' := by
  cases h with
  | miss => exact ⟨_, _, rfl⟩

theorem eq_fail {cause : Fatal} {here : List Char} (h : Same (.fail cause here) o') :
    ∃ here', o' = .fail cause here' := by
  cases h with
  | fail => exact ⟨_, rfl⟩

theorem orElse {second second' : Unit → Outcome α} (h : Same o o')
    (hsecond : Same (second ()) (second' ())) : Same (o.orElse second) (o'.orElse second') := by
  cases h with
  | ok hrest => exact .ok hrest
  | miss => exact hsecond
  | fail => exact .fail

theorem andThen {next next' : α → Reader β} (h : Same o o')
    (hnext : ∀ a rest rest', Padded rest rest' → Same (next a rest) (next' a rest')) :
    Same (o.andThen next) (o'.andThen next') := by
  cases h with
  | ok hrest => exact hnext _ _ _ hrest
  | miss => exact .miss
  | fail => exact .fail

theorem map (h : Same o o') (f : α → β) : Same (o.map f) (o'.map f) :=
  h.andThen fun _ _ _ hrest => .ok hrest

theorem ofOption {missed missed' : Miss × List Char} {found found' : Option (α × List Char)}
    (h : Alike found found') :
    Same (Outcome.ofOption missed found) (Outcome.ofOption missed' found') := by
  rcases h.cases with ⟨rfl, rfl⟩ | ⟨a, rest, rest', rfl, rfl, hrest⟩
  · exact .miss
  · exact .ok hrest

end Outcome.Same

open Outcome (Same)

/-- Blanks behind the text do not change what is read. -/
def Ignores (reader : Reader α) : Prop := ∀ s t, Padded s t → Same (reader s) (reader t)

/-! ## Lists folded to the left -/

section Chains

variable {op : Lexer (α → α → α)} {item : Reader α}

theorem same_chainTail (hop : Overlooks op) (htakes : Takes op) (hitem : Ignores item)
    (hreports : Reports item) (acc : α) (h : Padded s t) :
    Same (chainTail op item acc s) (chainTail op item acc t) := by
  have hshorter : ∀ {s f afterOp value rest}, op s = some (f, afterOp) →
      item afterOp = .ok value rest → rest.length < s.length := by
    intro s f afterOp value rest hfound hread
    have hrest : rest <:+ afterOp := (hread ▸ hreports afterOp).suffix
    exact Nat.lt_of_le_of_lt hrest.length_le (htakes s f afterOp hfound).2
  fun_induction chainTail op item acc s generalizing t with
  | case1 acc s hnone =>
      have hnone' : op t = none := eq_none_of_rel (hnone ▸ hop s t h)
      rw [chainTail_stop hnone']
      exact .ok h
  | case2 acc s f afterOp hsome value rest hread hlen ih =>
      obtain ⟨afterOp', hsome', hafter⟩ := (hsome ▸ hop s t h).eq_some
      obtain ⟨rest', hread', hrest⟩ := (hread ▸ hitem afterOp afterOp' hafter).eq_ok
      rw [chainTail_step hsome' hread' (hshorter hsome' hread')]
      exact ih hrest
  | case3 acc s f afterOp hsome value rest hread hlen => exact absurd (hshorter hsome hread) hlen
  | case4 acc s f afterOp hsome cause here hread =>
      obtain ⟨afterOp', hsome', hafter⟩ := (hsome ▸ hop s t h).eq_some
      obtain ⟨cause', here', hread'⟩ := (hread ▸ hitem afterOp afterOp' hafter).eq_miss
      rw [chainTail, hsome']
      simp only [hread']
      exact .ok h
  | case5 acc s f afterOp hsome cause here hread =>
      obtain ⟨afterOp', hsome', hafter⟩ := (hsome ▸ hop s t h).eq_some
      obtain ⟨here', hread'⟩ := (hread ▸ hitem afterOp afterOp' hafter).eq_fail
      rw [chainTail, hsome']
      simp only [hread']
      exact .fail

theorem ignores_chain (hop : Overlooks op) (htakes : Takes op) (hitem : Ignores item)
    (hreports : Reports item) : Ignores (chain op item) := fun s t h =>
  (hitem s t h).andThen fun a _ _ hrest => same_chainTail hop htakes hitem hreports a hrest

end Chains

/-! ## Operands -/

section Operands

variable {nested : Reader Expr}

theorem same_closed (args : List Expr) (h : Padded s t) : Same (closed args s) (closed args t) := by
  apply Same.ofOption
  exact rel_map (expectAfterGap_padded (by decide) h) fun _ _ hrest => ⟨rfl, hrest⟩

theorem same_group (hnested : Ignores nested) (h : Padded s t) :
    Same (group nested s) (group nested t) := by
  rw [group, group]
  rcases rel_cases (expect_padded (c := '(') (by decide) h) with
    ⟨hs, ht⟩ | ⟨inside, inside', hs, ht, hinside⟩
  · rw [hs, ht]
    exact .miss
  · rw [hs, ht]
    refine (hnested inside inside' hinside).andThen fun e rest rest' hrest => ?_
    rcases rel_cases (expectAfterGap_padded (c := ')') (by decide) hrest) with
      ⟨hs, ht⟩ | ⟨behind, behind', hs, ht, hbehind⟩
    · rw [hs, ht]
      exact .miss
    · rw [hs, ht]
      exact .ok hbehind

theorem same_number (h : Padded s t) : Same (number s) (number t) := by
  rw [number, number]
  rcases (overlooks_literal s t h).cases with ⟨hs, ht⟩ | ⟨n, rest, rest', hs, ht, hrest⟩
  · rw [hs, ht]
    exact .miss
  · rw [hs, ht]
    simp only
    cases n.value? with
    | none => exact .fail
    | some value => exact .ok hrest

theorem same_text (h : Padded s t) : Same (text s) (text t) :=
  Same.ofOption ((overlooks_quoted s t h).map fun _ _ _ hrest => ⟨rfl, hrest⟩)

theorem same_wordConstant {word : List Char} (hword : word ∈ reservedWords) (value : Value)
    (h : Padded s t) : Same (wordConstant word value s) (wordConstant word value t) :=
  Same.ofOption (rel_map (keyword_padded hword h) fun _ _ hrest => ⟨rfl, hrest⟩)

theorem same_parameter (h : Padded s t) : Same (parameter s) (parameter t) := by
  apply Same.ofOption
  refine rel_bind (expect_padded (by decide) h) fun after after' hafter => ?_
  refine (overlooks_digits after after' hafter).bind fun ds rest rest' hrest => ?_
  obtain ⟨htype, hend⟩ := typeAfter_padded [':'] (by decide) hrest
  simp only
  cases toUInt64? (ofDigits ds) with
  | none => exact .none
  | some index => exact .some ⟨by simp only [htype], hend⟩

theorem same_field (h : Padded s t) : Same (field s) (field t) := by
  apply Same.ofOption
  refine (overlooks_name s t h).bind fun stream rest rest' hrest => ?_
  refine rel_bind (expect_padded (by decide) hrest) fun after after' hafter => ?_
  refine (overlooks_name after after' hafter).map fun attr rest rest' hrest => ?_
  obtain ⟨htype, hend⟩ := typeAfter_padded [':', ':'] (by decide) hrest
  exact ⟨by simp only [htype], hend⟩

theorem same_column (h : Padded s t) : Same (column s) (column t) := by
  rw [column, column]
  rcases (overlooks_name s t h).cases with ⟨hs, ht⟩ | ⟨attr, rest, rest', hs, ht, hrest⟩
  · rw [hs, ht]
    exact .miss
  · rw [hs, ht]
    obtain ⟨htype, hend⟩ := typeAfter_padded [':', ':'] (by decide) hrest
    simp only [htype]
    exact .ok hend

theorem same_moreArguments (hnested : Ignores nested) (hreports : Reports nested) (h : Padded s t) :
    Same (moreArguments nested s) (moreArguments nested t) := by
  have hshorter : ∀ {s after e rest}, expectAfterGap ',' s = some after →
      nested after = .ok e rest → rest.length < s.length := by
    intro s after e rest hcomma hread
    have hrest : rest <:+ after := (hread ▸ hreports after).suffix
    exact Nat.lt_of_le_of_lt hrest.length_le (length_of_expectAfterGap hcomma)
  have hcommas : ∀ {s t : List Char}, Padded s t →
      Option.Rel Padded (expectAfterGap ',' s) (expectAfterGap ',' t) :=
    expectAfterGap_padded (by decide)
  fun_induction moreArguments nested s generalizing t with
  | case1 s hnone =>
      have hnone' : expectAfterGap ',' t = none := eq_none_of_rel (hnone ▸ hcommas h)
      rw [moreArguments, hnone']
      exact .ok h
  | case2 s after hcomma e rest hread hlen ih =>
      obtain ⟨after', hcomma', hafter⟩ := eq_some_of_rel (hcomma ▸ hcommas h)
      obtain ⟨rest', hread', hrest⟩ := (hread ▸ hnested after after' hafter).eq_ok
      rw [moreArguments_step hcomma' hread' (hshorter hcomma' hread')]
      exact (ih hrest).map (e :: ·)
  | case3 s after hcomma e rest hread hlen => exact absurd (hshorter hcomma hread) hlen
  | case4 s after hcomma cause here hread =>
      obtain ⟨after', hcomma', hafter⟩ := eq_some_of_rel (hcomma ▸ hcommas h)
      obtain ⟨cause', here', hread'⟩ := (hread ▸ hnested after after' hafter).eq_miss
      rw [moreArguments, hcomma']
      simp only [hread']
      exact .ok h
  | case5 s after hcomma cause here hread =>
      obtain ⟨after', hcomma', hafter⟩ := eq_some_of_rel (hcomma ▸ hcommas h)
      obtain ⟨here', hread'⟩ := (hread ▸ hnested after after' hafter).eq_fail
      rw [moreArguments, hcomma']
      simp only [hread']
      exact .fail

theorem same_arguments (hnested : Ignores nested) (hreports : Reports nested) (h : Padded s t) :
    Same (arguments nested s) (arguments nested t) := by
  have hfirst := hnested s t h
  rw [arguments, arguments]
  generalize nested s = o at hfirst
  generalize nested t = o' at hfirst
  cases hfirst with
  | ok hrest => exact (same_moreArguments hnested hreports hrest).map _
  | miss => exact .ok h
  | fail => exact .fail

theorem same_call (hnested : Ignores nested) (hreports : Reports nested) (h : Padded s t) :
    Same (call nested s) (call nested t) := by
  rcases (overlooks_callHead s t h).cases with
    ⟨hs, ht⟩ | ⟨⟨space, function⟩, rest, rest', hs, ht, hrest⟩
  · simp only [call, hs, ht]
    exact .miss
  rcases rel_cases (expectAfterGap_padded (c := '(') (by decide) hrest) with
    ⟨hopen, hopen'⟩ | ⟨inside, inside', hopen, hopen', hinside⟩
  · simp only [call, hs, ht, hopen, hopen']
    exact .miss
  · rw [call_eq hs hopen, call_eq ht hopen']
    have hargs := same_arguments hnested hreports hinside
    exact (hargs.andThen fun args _ _ hrest => same_closed args hrest).map _

theorem ignores_operand (hnested : Ignores nested) (hreports : Reports nested) :
    Ignores (operand nested) := by
  intro s t h
  have hskip := h.skipGap
  rw [operand, operand, bareOperand, bareOperand]
  refine (same_group hnested hskip).orElse ?_
  refine (same_number hskip).orElse ?_
  refine (same_text hskip).orElse ?_
  refine (same_wordConstant (by decide) _ hskip).orElse ?_
  refine (same_wordConstant (by decide) _ hskip).orElse ?_
  refine (same_wordConstant (by decide) _ hskip).orElse ?_
  refine (same_parameter hskip).orElse ?_
  refine (same_call hnested hreports hskip).orElse ?_
  exact (same_field hskip).orElse (same_column hskip)

/-! ## Levels -/

theorem ignores_sum (hnested : Ignores nested) (hreports : Reports nested) :
    Ignores (sum nested) := by
  have hproducts := takes_mathBetween takes_productSigns
  have hoperand := reports_operand hreports
  apply ignores_chain (overlooks_mathBetween (by decide)) (takes_mathBetween takes_sumSigns)
  · exact ignores_chain (overlooks_mathBetween (by decide)) hproducts
      (ignores_operand hnested hreports) hoperand
  · exact reports_chain hproducts hoperand

theorem same_compared (hsum : Ignores (sum nested)) (left : Expr) (h : Padded s t) :
    Same (compared nested left s) (compared nested left t) := by
  rw [compared, compared]
  have hsign : Overlooks (signIn compareSigns) := overlooks_signIn (by decide)
  rcases (hsign s t h).cases with
    ⟨hs, ht⟩ | ⟨op, after, after', hs, ht, hafter⟩
  · rw [hs, ht]
    exact .ok h
  · have hright := hsum after after' hafter
    rw [hs, ht]
    simp only
    generalize sum nested after = o at hright
    generalize sum nested after' = o' at hright
    cases hright with
    | ok hrest => exact .ok hrest
    | miss => exact .ok h
    | fail => exact .fail

theorem ignores_predicate (hsum : Ignores (sum nested)) : Ignores (predicate nested) := by
  intro s t h
  have hcomparison : Same (comparison nested s) (comparison nested t) :=
    (hsum s t h).andThen fun left _ _ hrest => same_compared hsum left hrest
  refine hcomparison.andThen fun e rest rest' hrest => ?_
  rcases (overlooks_suffix rest rest' hrest).cases with
    ⟨hs, ht⟩ | ⟨found, behind, behind', hs, ht, hbehind⟩
  · rw [hs, ht]
    exact .ok hrest
  · rw [hs, ht]
    exact .ok hbehind

end Operands

theorem ignores_alternatives {item : Reader Expr} (hitem : Ignores item) (hreports : Reports item) :
    Ignores (alternatives item) := by
  have hand : Takes (wordBetween "and".toList Expr.and) := takes_wordBetween (by decide) Expr.and
  apply ignores_chain (overlooks_wordBetween (by decide) .or) (takes_wordBetween (by decide) .or)
  · exact ignores_chain (overlooks_wordBetween (by decide) .and) hand hitem hreports
  · exact reports_chain hand hreports

/-- Whatever the budget is, a term is read alike with and without blanks behind the text. -/
theorem ignores_term (budget : Nat) : Ignores (term budget) := by
  induction budget with
  | zero => exact fun s t _ => .fail
  | succ budget ih =>
      intro s t h
      have hreports := reports_term budget
      have hpredicate := ignores_predicate
        (ignores_sum (ignores_alternatives ih hreports) (reports_alternatives hreports))
      simp only [term]
      refine Same.orElse (Same.andThen (Same.ofOption ?_) fun _ rest rest' hrest => ?_)
        (hpredicate s t h)
      · exact rel_map (keyword_padded (by decide) h) fun _ _ hrest => ⟨rfl, hrest⟩
      · exact (ih rest rest' hrest).map Expr.not

theorem ignores_condition : Ignores condition :=
  ignores_alternatives (ignores_term (nestingLimit + 1)) (reports_term (nestingLimit + 1))

/-! ## Whole texts -/

/-- A condition that is read to the end of a text is parsed with any blanks around the text. -/
theorem parseChars_of_read {lead blanks : List Char} {e : Expr}
    (hread : condition (c :: w) = .ok e []) (hfirst : isBlank c = false)
    (hlead : ∀ c ∈ lead, isBlank c = true) (hblanks : ∀ c ∈ blanks, isBlank c = true) :
    parseChars (lead ++ (c :: w ++ blanks)) = .ok e := by
  have hstart : trimStart (lead ++ (c :: w ++ blanks)) = c :: w ++ blanks := by
    rw [trimStart, List.dropWhile_append_of_pos hlead, List.cons_append,
      List.dropWhile_cons_of_neg (by simp [hfirst])]
  have hbody : trim (lead ++ (c :: w ++ blanks)) = trimEnd (c :: w ++ blanks) := by
    rw [trim, hstart]
  have hne : (trimEnd (c :: w ++ blanks)).isEmpty = false := by
    rw [← hbody, List.isEmpty_eq_false_iff]
    intro hnil
    rw [trimStart_eq_nil hnil] at hstart
    exact absurd hstart (by simp)
  -- the blanks that were read over and the others are cut off together
  have hwhole : Padded (c :: w ++ blanks) (c :: w) := ⟨blanks, hblanks, rfl⟩
  obtain ⟨rest, hlong, hrest⟩ := (hread ▸ ignores_condition _ _ hwhole).of_ok
  obtain ⟨rest', hshort, hrest'⟩ := (hlong ▸ ignores_condition _ _ (Padded.trimEnd _)).eq_ok
  simp only [parseChars, hbody, hne, hshort, hrest'.trimStart_eq_nil hrest]
  rfl

/-- A condition that was read is read again where the text is cut off behind it. -/
theorem exists_cut {left : List Char} {e : Expr} (h : condition s = .ok e left) :
    ∃ w, w ≠ [] ∧ skipGap s = w ++ left ∧ condition w = .ok e [] := by
  obtain ⟨w, hne, hs, hagain⟩ := settles_alternatives (settles_term _) s e left h
  have hfits : Fits .condition left [] := (follow_nil .condition).fits left
  have hskip : skipGap w = w ++ [] := by simpa using skipGap_front hne hs []
  obtain ⟨rest, hrest, hread⟩ := hagain [] w hfits hskip
  obtain rfl : rest = [] := List.eq_nil_of_length_eq_zero (Nat.le_zero.mp hrest.length_le)
  exact ⟨w, hne, hs, hread⟩

/-- What is left over behind a condition was left by its reader, and stands where the lengths
say. -/
theorem condition_of_trailing {text : List Char} {rest : String} {position : Nat}
    (h : parseChars text = .error ⟨position, .trailing rest⟩) :
    ∃ e left, condition (trim text) = .ok e left ∧ rest = String.ofList (trimStart left) ∧
      position = byteLength (text.takeWhile isBlank) + byteLength (trim text) -
        byteLength (trimStart left) := by
  simp only [parseChars] at h
  split at h
  · simp at h
  · split at h
    · rename_i e left hread
      split at h
      · simp at h
      · simp only [Except.error.injEq, ParseError.mk.injEq, Problem.trailing.injEq] at h
        obtain ⟨rfl, rfl⟩ := h
        exact ⟨e, left, hread, rfl, by rw [byteLength_lead]⟩
    · simp at h
    · rename_i cause here hread
      cases cause <;> simp [Fatal.problem] at h

/-- If something is left over behind a condition, the text before it is a condition. -/
theorem parse_before_trailing {text rest : String} {position : Nat}
    (h : parse text = .error ⟨position, .trailing rest⟩) :
    ∃ before after e, text.toList = before ++ (rest.toList ++ after) ∧
      (∀ c ∈ after, isBlank c = true) ∧ byteLength before = position ∧
      parse (String.ofList before) = .ok e := by
  obtain ⟨e, left, hread, rfl, rfl⟩ := condition_of_trailing h
  obtain ⟨w, hne, hbody, hcut⟩ := exists_cut hread
  rw [skipGap_trim] at hbody
  obtain ⟨after, hafter, htrim⟩ := Padded.trimEnd (trimStart text.toList)
  have hleft : left.takeWhile isBlank ++ trimStart left = left := List.takeWhile_append_dropWhile
  refine ⟨text.toList.takeWhile isBlank ++ (w ++ left.takeWhile isBlank), after, e, ?_, hafter, ?_,
    ?_⟩
  · rw [String.toList_ofList]
    calc text.toList = text.toList.takeWhile isBlank ++ trimStart text.toList :=
          List.takeWhile_append_dropWhile.symm
      _ = text.toList.takeWhile isBlank ++ (w ++ left ++ after) := by
          rw [htrim, ← trim, hbody]
      _ = text.toList.takeWhile isBlank ++
            (w ++ (left.takeWhile isBlank ++ trimStart left) ++ after) := by rw [hleft]
      _ = text.toList.takeWhile isBlank ++ (w ++ left.takeWhile isBlank) ++
            (trimStart left ++ after) := by simp
  · have hlength := congrArg byteLength hleft
    rw [hbody]
    simp only [byteLength_append] at hlength ⊢
    omega
  · obtain ⟨c, w, rfl⟩ := List.exists_cons_of_ne_nil hne
    rw [parse, String.toList_ofList]
    apply parseChars_of_read hcut
    · exact isBlank_head_trim (t := text.toList) (by simp [hbody])
    · exact List.all_eq_true.mp List.all_takeWhile
    · exact List.all_eq_true.mp List.all_takeWhile

/-- A null check, with a gap that its last word has taken and a wide blank behind it, before a call
that was begun and given up. -/
theorem parse_before_trailing_call :
    parse "\u3000a is null \u3000f(b,)" = .error ⟨16, .trailing "f(b,)"⟩ ∧
      ∃ before after e, "\u3000a is null \u3000f(b,)".toList = before ++ ("f(b,)".toList ++ after) ∧
        (∀ c ∈ after, isBlank c = true) ∧ byteLength before = 16 ∧
        parse (String.ofList before) = .ok e := by
  have hparse : parse "\u3000a is null \u3000f(b,)" = .error ⟨16, .trailing "f(b,)"⟩ := by
    decide +kernel
  exact ⟨hparse, parse_before_trailing hparse⟩

end Pushdown.Condition
