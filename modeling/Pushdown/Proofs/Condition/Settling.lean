import Pushdown.Proofs.Condition.Exchange

/-!
# Readers that settle

A phrase that a reader has read is read again, with the same value, in front of every other text
that fits behind it (`Settles`). The main statements are that lists settle if their items do
(`settles_chain`), and that operands settle if nested conditions do (`settles_operand`).

## Implementation notes

A list, a comparison or a suffix is read behind a phrase that is read already. What such a
continuation reads starts with an operator, so the phrase before it settles in front of it. This is
part of what a continuation is asked for (`GoesOn`), and makes continuations compose
(`Settles.andThen`).

An operand is read by the first alternative that does not miss. All alternatives but the last look
at how the text starts and exclude each other, so the one that has read the operand reads it again.
-/

namespace Pushdown.Condition

open Text Number

variable {α β : Type} {l m : Level} {s t r w rest mid : List Char} {c : Char}

/-! ## Readers that settle -/

/-- What the reader has read is a text of its own: the reader gives the same value wherever that
text stands, if what follows fits behind a phrase of the level. -/
def Settles (reader : Reader α) (l : Level) : Prop :=
  ∀ s a rest, reader s = .ok a rest → ∃ w, w ≠ [] ∧ skipGap s = w ++ rest ∧
    ∀ r t, Fits l rest r → skipGap t = w ++ r → ∃ rest', Leaves r rest' ∧ reader t = .ok a rest'

/-- Reading on behind a phrase of the first level gives the value and leaves the rest, and does so
again in front of every text that fits behind a phrase of the second level. -/
def GoesOn (next : Reader α) (l m : Level) (s : List Char) (a : α) (rest : List Char) : Prop :=
  ∃ w, s = w ++ rest ∧ ∀ r, Fits m rest r → Fits l s (w ++ r) ∧
    ∀ t, Leaves (w ++ r) t → ∃ rest', Leaves r rest' ∧ next t = .ok a rest'

theorem Settles.andThen {reader : Reader α} {next : α → Reader β} (h : Settles reader l)
    (hnext : ∀ a s b rest, next a s = .ok b rest → GoesOn (next a) l m s b rest) :
    Settles (fun s => (reader s).andThen next) m := by
  intro s b rest hread
  obtain ⟨a, mid, hfirst, hsecond⟩ := Outcome.andThen_eq_ok hread
  obtain ⟨w, hne, hs, hagain⟩ := h s a mid hfirst
  obtain ⟨v, hmid, hgo⟩ := hnext a mid b rest hsecond
  refine ⟨w ++ v, by simp [hne], by rw [hs, hmid, List.append_assoc], fun r t hr ht => ?_⟩
  obtain ⟨hfits, hgo⟩ := hgo r hr
  rw [List.append_assoc] at ht
  obtain ⟨mid', hmid', hfirst'⟩ := hagain (v ++ r) t hfits ht
  obtain ⟨rest', hrest', hsecond'⟩ := hgo mid' hmid'
  exact ⟨rest', hrest', by simp [hfirst', hsecond']⟩

/-- Reading on stops where nothing that is read continues the phrase. -/
theorem goesOn_stop {next : Reader α} {a : α} (hlm : l.continues ⊆ m.continues)
    (h : ∀ r t, Stops m r → Leaves r t → next t = .ok a t) : GoesOn next l m rest a rest :=
  ⟨[], rfl, fun r hr => ⟨hr.mono hlm, fun t ht => ⟨t, ht, h r t hr.stops ht⟩⟩⟩

theorem GoesOn.map {next : Reader α} {a : α} (h : GoesOn next l m s a rest) (f : α → β) :
    GoesOn (fun s => (next s).map f) l m s (f a) rest := by
  obtain ⟨w, hs, hgo⟩ := h
  refine ⟨w, hs, fun r hr => ⟨(hgo r hr).1, fun t ht => ?_⟩⟩
  obtain ⟨rest', hrest', hread⟩ := (hgo r hr).2 t ht
  exact ⟨rest', hrest', by simp [hread, Outcome.map]⟩

/-- Reading on goes over an operator and a phrase behind it, and from there further on. -/
theorem GoesOn.step {γ : Type} {op : Lexer β} {item : Reader α} {next after : Reader γ} {f : β}
    {value : α} {a : γ} (hop : IsOperator op l) (hitem : Settles item l)
    (hfound : op s = some (f, t)) (hread : item t = .ok value mid)
    (hafter : GoesOn after l m mid a rest)
    (hnext : ∀ s t mid, op s = some (f, t) → item t = .ok value mid → mid.length < s.length →
      next s = after mid) :
    GoesOn next l m s a rest := by
  obtain ⟨g, c, p, hg, hs, hc, hop⟩ := hop s f t hfound
  obtain ⟨w, hne, ht, hitem⟩ := hitem t value mid hread
  obtain ⟨v, hmid, hafter⟩ := hafter
  rw [ht, hmid] at hs
  refine ⟨g ++ c :: (p ++ (w ++ v)), by simpa using hs, fun r hr => ?_⟩
  obtain ⟨hfits, hafter⟩ := hafter r hr
  have hsplit : g ++ c :: (p ++ (w ++ v)) ++ r = g ++ c :: (p ++ (w ++ (v ++ r))) := by simp
  rw [hsplit, hs]
  refine ⟨hc.fits hg _ _, fun x hx => ?_⟩
  have hx' : skipGap x = c :: (p ++ (w ++ (v ++ r))) := by
    rw [hx.skipGap_eq, skipGap_append hg, skipGap_cons hc.visible]
  obtain ⟨behind, hbehind, hfound'⟩ := hop (w ++ (v ++ r)) x
    (by rw [ht, List.head?_append_of_ne_nil _ hne, List.head?_append_of_ne_nil _ hne]) hx'
  obtain ⟨mid', hmid', hread'⟩ := hitem (v ++ r) behind hfits hbehind
  obtain ⟨rest', hrest', hend⟩ := hafter mid' hmid'
  refine ⟨rest', hrest', ?_⟩
  have hlen : mid'.length < x.length := by
    have hshort := hmid'.length_le
    have hlong := length_skipGap_le x
    rw [hx'] at hlong
    simp only [List.length_cons, List.length_append] at hlong hshort
    omega
  rw [hnext x behind mid' hfound' hread' hlen, hend]

/-! ## Lists folded to the left -/

section Chains

variable {op : Lexer (α → α → α)} {item : Reader α} {acc a : α}

theorem goesOn_chainTail (hop : IsOperator op l) (hitem : Settles item l)
    (hlm : l.continues ⊆ m.continues) (hstop : ∀ r t, Stops m r → Leaves r t → op t = none)
    (h : chainTail op item acc s = .ok a rest) : GoesOn (chainTail op item acc) l m s a rest := by
  have hend : ∀ {acc : α} {s : List Char}, Outcome.ok acc s = .ok a rest →
      GoesOn (chainTail op item acc) l m s a rest := by
    intro acc s h
    obtain ⟨rfl, rfl⟩ := Outcome.ok.inj h
    exact goesOn_stop hlm fun r t hr ht => chainTail_stop (hstop r t hr ht) acc
  -- wherever the loop stopped, before a missing operator or before one without an item behind it,
  -- the text that is put there has no operator
  fun_induction chainTail op item acc s with
  | case1 acc s hnone => exact hend h
  | case2 acc s f afterOp hsome value mid hread hlen ih =>
      exact GoesOn.step hop hitem hsome hread (ih h) fun s t mid hop hitem hlen =>
        chainTail_step hop hitem hlen acc
  | case3 acc s f afterOp hsome value mid hread hlen => simp at h
  | case4 acc s f afterOp hsome cause here hread => exact hend h
  | case5 acc s f afterOp hsome cause here hread => simp at h

theorem settles_chain (hop : IsOperator op l) (hitem : Settles item l)
    (hlm : l.continues ⊆ m.continues) (hstop : ∀ r t, Stops m r → Leaves r t → op t = none) :
    Settles (chain op item) m :=
  hitem.andThen fun _ _ _ _ h => goesOn_chainTail hop hitem hlm hstop h

end Chains

/-! ## Operands -/

/-- The reader of an operand that has read at the front of the text reads the same in front of
every text that fits behind the operand. -/
def Repeats (reader : Reader Expr) (s : List Char) (e : Expr) (rest : List Char) : Prop :=
  ∃ w, w ≠ [] ∧ s = w ++ rest ∧ ∀ r, Fits .operand rest r →
    ∃ rest', Leaves r rest' ∧ reader (w ++ r) = .ok e rest'

section Operands

variable {nested : Reader Expr} {e : Expr}

theorem Repeats.imp {reader other : Reader Expr} (h : Repeats reader s e rest)
    (himp : ∀ t rest', reader t = .ok e rest' → other t = .ok e rest') :
    Repeats other s e rest := by
  obtain ⟨w, hne, hs, hagain⟩ := h
  refine ⟨w, hne, hs, fun r hr => ?_⟩
  obtain ⟨rest', hrest', hread⟩ := hagain r hr
  exact ⟨rest', hrest', himp _ _ hread⟩

/-! ### Groups -/

/-- A closing parenthesis behind a gap fits behind every condition that had one behind it. -/
theorem fits_close {g : List Char} (hg : g.all isGap = true) (t u : List Char) :
    Fits .condition (g ++ ')' :: t) (g ++ ')' :: u) :=
  (parts_of_isMark (by decide) (by decide)).fits hg t u

theorem expectAfterGap_append {g : List Char} (hg : g.all isGap = true) (hc : isGap c = false)
    (t : List Char) : expectAfterGap c (g ++ c :: t) = some t := by
  simp [expectAfterGap, skipGap_append hg, skipGap_cons hc]

theorem Leaves.expectAfterGap {g rest' : List Char} (h : Leaves (g ++ c :: t) rest')
    (hg : g.all isGap = true) (hc : isGap c = false) : expectAfterGap c rest' = some t := by
  rw [Condition.expectAfterGap, h.skipGap_eq]
  exact expectAfterGap_append hg hc t

theorem repeats_group (hnested : Settles nested .condition) (h : group nested s = .ok e rest) :
    Repeats (group nested) s e rest := by
  rw [group] at h
  split at h
  · simp at h
  · rename_i inside hopen
    obtain ⟨value, mid, hread, hclose⟩ := Outcome.andThen_eq_ok h
    split at hclose
    · rename_i behind hbehind
      obtain ⟨rfl, rfl⟩ := Outcome.ok.inj hclose
      obtain ⟨w, hne, hinside, hagain⟩ := hnested inside value mid hread
      obtain ⟨g', hg', hmid⟩ := expectAfterGap_eq_some hbehind
      obtain ⟨g, hg, hskip⟩ := exists_gap inside
      rw [hmid] at hinside hagain
      refine ⟨'(' :: (g ++ (w ++ (g' ++ [')']))), by simp, ?_, fun r _ => ⟨r, Leaves.all r, ?_⟩⟩
      · rw [expect_eq_some hopen, hskip, hinside]
        simp
      · obtain ⟨mid', hmid', hread'⟩ := hagain (g' ++ ')' :: r) (g ++ (w ++ (g' ++ ')' :: r)))
          (fits_close hg' _ _) (by rw [skipGap_append hg, skipGap_front hne hinside])
        simp [group, hread', hmid'.expectAfterGap hg' (by decide)]
    · simp at hclose

/-! ### Constants and parameters -/

theorem repeats_number (h : number s = .ok e rest) : Repeats number s e rest := by
  rw [number] at h
  split at h
  · simp at h
  · rename_i n behind hliteral
    split at h
    · rename_i value hvalue
      obtain ⟨rfl, rfl⟩ := Outcome.ok.inj h
      obtain ⟨w, hne, hs, hagain⟩ := literal_again hliteral
      refine ⟨w, hne, hs, fun r hr => ⟨r, Leaves.all r, ?_⟩⟩
      simp [number, hagain r hr.agrees, hvalue]
    · simp at h

theorem repeats_text (h : text s = .ok e rest) : Repeats text s e rest := by
  have hfound := Outcome.ofOption_eq_ok h
  simp only [Option.map_eq_some_iff, Prod.mk.injEq, Prod.exists] at hfound
  obtain ⟨body, behind, hquoted, rfl, rfl⟩ := hfound
  obtain ⟨quote, hquote, hbody⟩ := exists_quote_of_quoted hquoted
  let q : QuotedText := ⟨quote, body, hquote, not_mem_of_quotedBy hbody⟩
  refine ⟨q.text, by simp [QuotedText.text], ?_, fun r _ => ⟨r, Leaves.all r, ?_⟩⟩
  · rw [eq_of_quotedBy hbody]
    simp [QuotedText.text, q]
  · simp [text, quoted_append q r, Outcome.ofOption, q]

/-- A word that stands for a constant is read again, if no gap stands before it. -/
theorem repeats_wordConstant {word : List Char} {value : Value} (hword : word ∈ reservedWords)
    (hs : skipGap s = s) (h : wordConstant word value s = .ok e rest) :
    Repeats (wordConstant word value) s e rest := by
  have hfound := Outcome.ofOption_eq_ok h
  simp only [Option.map_eq_some_iff, Prod.mk.injEq] at hfound
  obtain ⟨behind, hread, rfl, rfl⟩ := hfound
  obtain ⟨c, w, -, -, hskip, -, hagain⟩ := keyword_again hword hread
  refine ⟨c :: w, by simp, hs.symm.trans hskip, fun r hr => ⟨skipGap r, Leaves.afterGap r, ?_⟩⟩
  have hread' := hagain r (c :: w ++ r) hr.agrees.keepsWord (skipGap_front (by simp) hskip r)
  rw [wordConstant, hread']
  rfl

theorem repeats_parameter (h : parameter s = .ok e rest) : Repeats parameter s e rest := by
  have hfound := Outcome.ofOption_eq_ok h
  simp only [Option.bind_eq_some_iff, Option.map_eq_some_iff, Prod.mk.injEq, Prod.exists]
    at hfound
  obtain ⟨afterSign, hsign, ds, behind, hdigits, index, hindex, rfl, rfl⟩ := hfound
  obtain ⟨⟨hne, hds⟩, hs, hend⟩ := digits_again hdigits
  obtain ⟨type, hnote, htype, -, hagain⟩ := typeAfter_again [] behind
  rw [hnote] at hend
  refine ⟨'$' :: (ds ++ typeNote [':'] type), by simp, ?_, fun r hr => ⟨r, Leaves.all r, ?_⟩⟩
  · rw [expect_eq_some hsign, hs, List.cons_append, List.append_assoc, ← hnote]
  · have hdigits' := digits_append hne (List.all_eq_true.mp hds)
      (hr.agrees.keepsWord.free (fun _ => isNameChar_of_isDigit) _ hend)
    simp [parameter, hdigits', hindex, hagain r hr.agrees, htype, Outcome.ofOption]

/-! ### The alternative that reads is the one that is chosen -/

theorem bareOperand_of_number (h : number s = .ok e rest) : bareOperand nested s = .ok e rest := by
  have hgroup : group nested s = .miss .noSign s := by
    refine group_miss fun c hc => ?_
    rintro rfl
    obtain ⟨t, rfl⟩ := List.head?_eq_some_iff.mp hc
    rw [number_miss (by simp)] at h
    simp at h
  rw [bareOperand, hgroup, Outcome.orElse_miss, h, Outcome.orElse_ok]

theorem bareOperand_of_text (h : text s = .ok e rest) : bareOperand nested s = .ok e rest := by
  obtain ⟨quote, t, rfl, hquote⟩ : ∃ quote t, s = quote :: t ∧ (quote = '\x27' ∨ quote = '"') := by
    have hfound := Outcome.ofOption_eq_ok h
    simp only [Option.map_eq_some_iff, Prod.mk.injEq, Prod.exists] at hfound
    obtain ⟨body, behind, hquoted, -⟩ := hfound
    obtain ⟨quote, hquote, hbody⟩ := exists_quote_of_quoted hquoted
    exact ⟨quote, _, eq_of_quotedBy hbody, hquote⟩
  have hgroup : group nested (quote :: t) = .miss .noSign (quote :: t) := by
    apply group_miss
    rcases hquote with rfl | rfl <;> simp
  have hnumber : number (quote :: t) = .miss .noDigit (quote :: t) := by
    apply number_miss
    rcases hquote with rfl | rfl <;> simp
  rw [bareOperand, hgroup, Outcome.orElse_miss, hnumber, Outcome.orElse_miss, h,
    Outcome.orElse_ok]

theorem bareOperand_of_parameter (h : parameter s = .ok e rest) :
    bareOperand nested s = .ok e rest := by
  have hfound := Outcome.ofOption_eq_ok h
  obtain ⟨t, hsign, -⟩ := Option.bind_eq_some_iff.mp hfound
  rw [expect_eq_some hsign] at h ⊢
  exact bareOperand_parameter h

/-- Where one reserved word is found, no other one is. -/
theorem keyword_excludes {word other : List Char} (hword : word ∈ reservedWords)
    (hother : other ∈ reservedWords) (hne : word ≠ other) (h : keyword word s = some rest) :
    keyword other s = none := by
  obtain ⟨u, g, hu, -, hskip, hend, -⟩ := spelled_of_keyword h
  refine keyword_other hother (fun c hc => ?_) (hu.trans_ne hne) hend hskip
  exact isNameChar_of_isAlphabetic (isAlphabetic_of_spelling hword hu c hc)

/-- Where a reserved word is found, the text starts with a gap or a letter. -/
theorem isWordStart_of_keyword {word : List Char} (hword : word ∈ reservedWords)
    (h : keyword word s = some rest) : ∀ c ∈ s.head?, isWordStart c = true := by
  intro c hc
  cases hgap : isGap c with
  | true => rcases isGap_cases hgap with rfl | rfl | rfl | rfl <;> decide
  | false =>
      obtain ⟨t, rfl⟩ := List.head?_eq_some_iff.mp hc
      obtain ⟨u, g, hu, -, hskip, -⟩ := spelled_of_keyword h
      rw [skipGap_cons hgap] at hskip
      cases u with
      | nil =>
          rw [← hu] at hword
          exact absurd hword (by decide)
      | cons x u =>
          obtain ⟨rfl, -⟩ := List.cons.inj hskip
          have hletter := isAlphabetic_of_spelling hword hu c (by simp)
          exact isWordStart_of_isNameStart (by simp [isNameStart, hletter])

theorem keyword_of_wordConstant {word : List Char} {value : Value}
    (h : wordConstant word value s = .ok e rest) : keyword word s = some rest := by
  have hfound := Outcome.ofOption_eq_ok h
  simp only [Option.map_eq_some_iff, Prod.mk.injEq] at hfound
  obtain ⟨behind, hread, -, rfl⟩ := hfound
  exact hread

theorem bareOperand_of_true (h : wordConstant "true".toList (.bool true) s = .ok e rest) :
    bareOperand nested s = .ok e rest := by
  have hread := keyword_of_wordConstant h
  rw [bareOperand_word (isWordStart_of_keyword (by decide) hread), h, Outcome.orElse_ok]

theorem bareOperand_of_false (h : wordConstant "false".toList (.bool false) s = .ok e rest) :
    bareOperand nested s = .ok e rest := by
  have hread := keyword_of_wordConstant h
  have htrue : keyword "true".toList s = none :=
    keyword_excludes (by decide) (by decide) (by decide) hread
  rw [bareOperand_word (isWordStart_of_keyword (by decide) hread), wordConstant_miss htrue,
    Outcome.orElse_miss, h, Outcome.orElse_ok]

theorem bareOperand_of_null (h : wordConstant "null".toList .null s = .ok e rest) :
    bareOperand nested s = .ok e rest := by
  have hread := keyword_of_wordConstant h
  have htrue : keyword "true".toList s = none :=
    keyword_excludes (by decide) (by decide) (by decide) hread
  have hfalse : keyword "false".toList s = none :=
    keyword_excludes (by decide) (by decide) (by decide) hread
  rw [bareOperand_word (isWordStart_of_keyword (by decide) hread), wordConstant_miss htrue,
    Outcome.orElse_miss, wordConstant_miss hfalse, Outcome.orElse_miss, h, Outcome.orElse_ok]

/-! ### Fields and columns -/

/-- A name that is read is one, and no letter stands behind it. -/
theorem exists_name (h : name s = some (w, rest)) :
    ∃ n : Name, w = n.1 ∧ s = n.1 ++ rest ∧ ∀ c ∈ rest.head?, isAlphabetic c = false := by
  obtain ⟨hs, hname, hend⟩ := ident_of_name h
  refine ⟨⟨w, hname⟩, rfl, hs, fun c hc => ?_⟩
  cases hletter : isAlphabetic c with
  | false => rfl
  | true =>
      rw [← startsInName_eq_false.mp hend c hc, isNameChar_of_isAlphabetic hletter]

/-- An operand that is accepted before every text that follows it is read again, if no letter
stands behind it. -/
theorem Accepts.repeats {text : List Char} (h : Accepts (operand nested) text e .operand)
    (hstart : Starts text) (hrest : ∀ c ∈ rest.head?, isAlphabetic c = false) :
    Repeats (bareOperand nested) (text ++ rest) e rest := by
  refine ⟨text, ?_, rfl, fun r hr => ?_⟩
  · obtain ⟨c, t, rfl, -⟩ := hstart
    simp
  · have hskip := (hstart.append r).skipGap_eq
    obtain ⟨rest', hrest', hread⟩ := h r (text ++ r) (hr.follow hrest) hskip
    rw [operand, hskip] at hread
    exact ⟨rest', hrest', hread⟩

theorem repeats_field (h : field s = .ok e rest) : Repeats (bareOperand nested) s e rest := by
  have hfound := Outcome.ofOption_eq_ok h
  simp only [Option.bind_eq_some_iff, Option.map_eq_some_iff, Prod.mk.injEq, Prod.exists]
    at hfound
  obtain ⟨stream, afterStream, hstream, afterPoint, hpoint, attr, behind, hattr, rfl, rfl⟩ :=
    hfound
  obtain ⟨stream, rfl, hs, -⟩ := exists_name hstream
  obtain ⟨attr, rfl, hafter, hend⟩ := exists_name hattr
  obtain ⟨type, hnote, htype, hletter, -⟩ := typeAfter_again [':'] behind
  have hsplit : s = stream.1 ++ '.' :: (attr.1 ++ typeNote [':', ':'] type) ++
      (typeAfter [':', ':'] behind).2 := by
    rw [hs, expect_eq_some hpoint, hafter]
    nth_rewrite 1 [hnote]
    simp
  rw [hsplit, htype]
  exact (accepts_field stream attr type).repeats ((starts_name stream.2).append _) (hletter hend)

theorem repeats_column (h : column s = .ok e rest) : Repeats (bareOperand nested) s e rest := by
  cases hname : name s with
  | none => simp [column, hname] at h
  | some found =>
      obtain ⟨attr, behind⟩ := found
      simp only [column, hname, Outcome.ok.injEq] at h
      obtain ⟨rfl, rfl⟩ := h
      obtain ⟨attr, rfl, hs, hend⟩ := exists_name hname
      obtain ⟨type, hnote, htype, hletter, -⟩ := typeAfter_again [':'] behind
      have hsplit : s = attr.1 ++ typeNote [':', ':'] type ++ (typeAfter [':', ':'] behind).2 := by
        rw [hs, List.append_assoc, ← hnote]
      rw [hsplit, htype]
      exact (accepts_column attr type).repeats ((starts_name attr.2).append _) (hletter hend)

/-! ### Calls -/

/-- The arguments are closed by a parenthesis. -/
def closed (args : List Expr) : Reader (List Expr) := fun s =>
  Outcome.ofOption (.noSign, skipGap s) ((expectAfterGap ')' s).map (args, ·))

theorem closed_cons (e : Expr) (args : List Expr) (s : List Char) :
    closed (e :: args) s = (closed args s).map (e :: ·) := by
  cases h : expectAfterGap ')' s with
  | none => simp [closed, h, Outcome.ofOption, Outcome.map]
  | some rest => simp [closed, h, Outcome.ofOption, Outcome.map]

/-- Arguments are read and closed one after the other. -/
theorem andThen_closed_map (o : Outcome (List Expr)) (e : Expr) :
    (o.map (e :: ·)).andThen closed = (o.andThen closed).map (e :: ·) := by
  cases o with
  | ok args rest => exact closed_cons e args rest
  | miss cause here => rfl
  | fail cause here => rfl

/-- A closing parenthesis is found behind no further argument, wherever it stands. -/
theorem goesOn_closed {args : List Expr} (h : closed [] s = .ok args rest) :
    GoesOn (fun s => (moreArguments nested s).andThen closed) .condition .operand s args rest := by
  have hfound := Outcome.ofOption_eq_ok h
  simp only [Option.map_eq_some_iff, Prod.mk.injEq] at hfound
  obtain ⟨behind, hclose, rfl, rfl⟩ := hfound
  obtain ⟨g, hg, rfl⟩ := expectAfterGap_eq_some hclose
  refine ⟨g ++ [')'], by simp, fun r hr => ?_⟩
  rw [List.append_assoc, List.singleton_append]
  refine ⟨fits_close hg _ _, fun t ht => ⟨r, Leaves.all r, ?_⟩⟩
  have hend : expectAfterGap ')' t = some r := ht.expectAfterGap hg (by decide)
  have hcomma : expectAfterGap ',' t = none := by
    rw [expectAfterGap, ht.skipGap_eq, skipGap_append hg, skipGap_cons (by decide)]
    rfl
  have hmore : moreArguments nested t = .ok [] t := by rw [moreArguments, hcomma]
  simp [hmore, closed, hend, Outcome.ofOption]

theorem goesOn_moreArguments (hnested : Settles nested .condition) {args : List Expr}
    (h : (moreArguments nested s).andThen closed = .ok args rest) :
    GoesOn (fun s => (moreArguments nested s).andThen closed) .condition .operand s args rest := by
  fun_induction moreArguments nested s generalizing args with
  | case1 s hnone => exact goesOn_closed h
  | case2 s afterComma hcomma e mid hread hlen ih =>
      rw [andThen_closed_map] at h
      obtain ⟨others, hothers, rfl⟩ := Outcome.map_eq_ok h
      refine GoesOn.step (f := ()) (isOperator_comma (by decide)) hnested (by simp [hcomma]) hread
        ((ih hothers).map (e :: ·)) fun s t mid hop hitem hlen => ?_
      simp only [Option.map_eq_some_iff, Prod.mk.injEq, true_and, exists_eq_right] at hop
      simp only [moreArguments_step hop hitem hlen]
      exact andThen_closed_map _ e
  | case3 s afterComma hcomma e mid hread hlen => simp at h
  | case4 s afterComma hcomma cause here hread => exact goesOn_closed h
  | case5 s afterComma hcomma cause here hread => simp at h

/-- A reader that misses before one closing parenthesis misses before every one. -/
def MissesClose (nested : Reader Expr) : Prop :=
  ∀ s t u v, skipGap s = ')' :: u → skipGap t = ')' :: v →
    (∃ cause here, nested s = .miss cause here) → ∃ cause here, nested t = .miss cause here

/-- Arguments and the parenthesis behind them are read again before another text. -/
theorem arguments_again (hnested : Settles nested .condition) (hmiss : MissesClose nested)
    {args : List Expr} (h : (arguments nested s).andThen closed = .ok args rest) :
    ∃ w, s = w ++ rest ∧ ∀ r, Fits .operand rest r →
      ∃ rest', Leaves r rest' ∧ (arguments nested (w ++ r)).andThen closed = .ok args rest' := by
  rw [arguments] at h
  split at h
  · rename_i e mid hread
    rw [andThen_closed_map] at h
    obtain ⟨others, hothers, rfl⟩ := Outcome.map_eq_ok h
    obtain ⟨w, hne, hs, hagain⟩ := hnested s e mid hread
    obtain ⟨v, rfl, hgo⟩ := goesOn_moreArguments hnested hothers
    obtain ⟨g, hg, hskip⟩ := exists_gap s
    refine ⟨g ++ (w ++ v), by rw [hskip, hs]; simp, fun r hr => ?_⟩
    obtain ⟨hfits, hgo⟩ := hgo r hr
    obtain ⟨mid', hmid', hread'⟩ := hagain (v ++ r) (g ++ (w ++ v) ++ r) hfits (by
      rw [List.append_assoc, List.append_assoc, skipGap_append hg, skipGap_front hne hs])
    obtain ⟨rest', hrest', hend⟩ := hgo mid' hmid'
    refine ⟨rest', hrest', ?_⟩
    rw [arguments, hread']
    simp only [andThen_closed_map, hend]
    rfl
  · rename_i cause here hread
    have hfound := Outcome.ofOption_eq_ok (show closed [] s = .ok args rest from h)
    simp only [Option.map_eq_some_iff, Prod.mk.injEq] at hfound
    obtain ⟨behind, hclose, rfl, rfl⟩ := hfound
    obtain ⟨g, hg, rfl⟩ := expectAfterGap_eq_some hclose
    have hskip : ∀ t, skipGap (g ++ ')' :: t) = ')' :: t := fun t => by
      rw [skipGap_append hg, skipGap_cons (by decide)]
    refine ⟨g ++ [')'], by simp, fun r _ => ⟨r, Leaves.all r, ?_⟩⟩
    rw [List.append_assoc, List.singleton_append]
    obtain ⟨cause, here, hread'⟩ := hmiss _ _ _ _ (hskip behind) (hskip r) ⟨cause, here, hread⟩
    have hclose' : expectAfterGap ')' (g ++ ')' :: r) = some r :=
      expectAfterGap_append hg (by decide) r
    simp [arguments, hread', closed, hclose', Outcome.ofOption]
  · simp at h

/-- Behind its head and an opening parenthesis, a call goes on with arguments. -/
theorem call_eq {space : Option (List Char)} {function afterHead inside : List Char}
    (hhead : callHead s = some ((space, function), afterHead))
    (hopen : expectAfterGap '(' afterHead = some inside) :
    call nested s = ((arguments nested inside).andThen closed).map
      (Expr.call (space.map String.ofList) (String.ofList function)) := by
  simp only [call, hhead, hopen]
  cases arguments nested inside with
  | ok args rest =>
      cases hclose : expectAfterGap ')' rest <;>
        simp [closed, hclose, Outcome.ofOption, Outcome.map]
  | miss cause here => rfl
  | fail cause here => rfl

/-- A call that is read has a head, an opening parenthesis and arguments. -/
theorem exists_of_call (h : call nested s = .ok e rest) :
    ∃ space function afterHead inside args, callHead s = some ((space, function), afterHead) ∧
      expectAfterGap '(' afterHead = some inside ∧
      (arguments nested inside).andThen closed = .ok args rest ∧
      Expr.call (space.map String.ofList) (String.ofList function) args = e := by
  cases hhead : callHead s with
  | none => simp [call, hhead] at h
  | some found =>
      obtain ⟨⟨space, function⟩, afterHead⟩ := found
      cases hopen : expectAfterGap '(' afterHead with
      | none => simp [call, hhead, hopen] at h
      | some inside =>
          rw [call_eq hhead hopen] at h
          obtain ⟨args, hargs, he⟩ := Outcome.map_eq_ok h
          exact ⟨space, function, afterHead, inside, args, rfl, hopen, hargs, he⟩

/-- The head of a call is a name, with an optional name space before it. -/
theorem called_of_callHead {space : Option (List Char)} {function : List Char}
    (h : callHead s = some ((space, function), rest)) :
    ∃ (n : Option Name) (f : Name), space = n.map Subtype.val ∧ function = f.1 ∧
      s = calledName n f ++ rest ∧ ∀ c ∈ rest.head?, isNameChar c = false := by
  have hcallee := callee_of_callHead h
  cases space with
  | none =>
      obtain ⟨hs, hname, hend⟩ := hcallee
      exact ⟨none, ⟨function, hname⟩, rfl, rfl, hs, startsInName_eq_false.mp hend⟩
  | some first =>
      obtain ⟨u, ⟨hs, hfirst, -⟩, hu, hname, hend⟩ := hcallee
      refine ⟨some ⟨first, hfirst⟩, ⟨function, hname⟩, rfl, rfl, ?_, startsInName_eq_false.mp hend⟩
      simp [calledName, hs, hu]

theorem repeats_call (hnested : Settles nested .condition) (hmiss : MissesClose nested)
    (h : call nested s = .ok e rest) : Repeats (call nested) s e rest := by
  obtain ⟨space, function, afterHead, inside, args, hhead, hopen, hargs, rfl⟩ := exists_of_call h
  obtain ⟨n, f, rfl, rfl, hs, -⟩ := called_of_callHead hhead
  obtain ⟨g, hg, hafter⟩ := expectAfterGap_eq_some hopen
  obtain ⟨w, hinside, hagain⟩ := arguments_again hnested hmiss hargs
  refine ⟨calledName n f ++ (g ++ '(' :: w), by simp, by simp [hs, hafter, hinside],
    fun r hr => ?_⟩
  obtain ⟨rest', hrest', hread⟩ := hagain r hr
  refine ⟨rest', hrest', ?_⟩
  have hmark : skipGap (g ++ '(' :: (w ++ r)) = '(' :: (w ++ r) := by
    rw [skipGap_append hg, skipGap_cons (by decide)]
  have hbefore := boundary_of_mark hmark (by decide)
  have hhead' := callHead_called n f fun c hc => ⟨(hbefore c hc).1, (hbefore c hc).2.2⟩
  have hopen' : expectAfterGap '(' (g ++ '(' :: (w ++ r)) = some (w ++ r) :=
    expectAfterGap_append hg (by decide) (w ++ r)
  have hsplit : calledName n f ++ (g ++ '(' :: w) ++ r =
      calledName n f ++ (g ++ '(' :: (w ++ r)) := by simp
  rw [hsplit, call_eq hhead' hopen', hread]
  rfl

theorem bareOperand_of_call (h : call nested s = .ok e rest) :
    bareOperand nested s = .ok e rest := by
  obtain ⟨space, function, afterHead, inside, args, hhead, -⟩ := exists_of_call h
  obtain ⟨n, f, -, -, rfl, hend⟩ := called_of_callHead hhead
  rw [bareOperand_called n f hend, h, Outcome.orElse_ok]

/-- Whichever alternative reads an operand reads it again. -/
theorem repeats_bareOperand (hnested : Settles nested .condition) (hmiss : MissesClose nested)
    (hs : skipGap s = s) (h : bareOperand nested s = .ok e rest) :
    Repeats (bareOperand nested) s e rest := by
  rw [bareOperand] at h
  rcases Outcome.orElse_eq_ok h with h | h
  · refine (repeats_group hnested h).imp fun t rest' ht => ?_
    rw [bareOperand, ht, Outcome.orElse_ok]
  rcases Outcome.orElse_eq_ok h with h | h
  · exact (repeats_number h).imp fun _ _ => bareOperand_of_number
  rcases Outcome.orElse_eq_ok h with h | h
  · exact (repeats_text h).imp fun _ _ => bareOperand_of_text
  rcases Outcome.orElse_eq_ok h with h | h
  · exact (repeats_wordConstant (by decide) hs h).imp fun _ _ => bareOperand_of_true
  rcases Outcome.orElse_eq_ok h with h | h
  · exact (repeats_wordConstant (by decide) hs h).imp fun _ _ => bareOperand_of_false
  rcases Outcome.orElse_eq_ok h with h | h
  · exact (repeats_wordConstant (by decide) hs h).imp fun _ _ => bareOperand_of_null
  rcases Outcome.orElse_eq_ok h with h | h
  · exact (repeats_parameter h).imp fun _ _ => bareOperand_of_parameter
  rcases Outcome.orElse_eq_ok h with h | h
  · exact (repeats_call hnested hmiss h).imp fun _ _ => bareOperand_of_call
  rcases Outcome.orElse_eq_ok h with h | h
  · exact repeats_field h
  · exact repeats_column h

theorem settles_operand (hnested : Settles nested .condition) (hmiss : MissesClose nested) :
    Settles (operand nested) .operand := by
  intro s e rest h
  obtain ⟨w, hne, hs, hagain⟩ := repeats_bareOperand hnested hmiss (skipGap_skipGap s) h
  refine ⟨w, hne, hs, fun r t hr ht => ?_⟩
  rw [operand, ht]
  exact hagain r hr

end Operands

end Pushdown.Condition
