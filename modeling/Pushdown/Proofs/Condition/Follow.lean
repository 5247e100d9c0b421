import Pushdown.Condition.Parse
import Pushdown.Proofs.Condition.Lexemes
import Pushdown.Proofs.Condition.Phrase

/-!
# What follows a phrase

Readers are greedy, so a phrase is read to its end only if what stands behind it does not
continue it. What continues a phrase depends on its level: a sum goes on with a sign of a sum
or of a product, a predicate also with `is` or `in`. `Follow` says of a text that it continues
no phrase of a level.

With it, two statements about readers are made: the reader gives a value on a text (`Accepts`),
and reading a list leads on a text to the loop of the list (`Chained`).

## Implementation notes

A list is read from the left, and the reader does not know where a shorter list would end. For
the levels of lists the statement is therefore about the loop with the meaning of the phrase as
accumulator; that the loop stops is a matter of what follows.

Words swallow the gap behind them and names do not. `Leaves` covers both.
-/

namespace Pushdown.Condition

open Text Number

/-! ## What follows a phrase -/

/-- What a reader leaves of the text behind a phrase: all of it, or all but the gap in front. -/
def Leaves (r rest : List Char) : Prop := rest = r ∨ rest = skipGap r

namespace Leaves

variable {r rest : List Char}

theorem all (r : List Char) : Leaves r r := Or.inl rfl

theorem afterGap (r : List Char) : Leaves r (skipGap r) := Or.inr rfl

theorem skipGap_eq (h : Leaves r rest) : skipGap rest = skipGap r := by
  rcases h with rfl | rfl
  · rfl
  · exact skipGap_skipGap r

theorem length_le (h : Leaves r rest) : rest.length ≤ r.length := by
  rcases h with rfl | rfl
  · exact Nat.le_refl _
  · exact length_skipGap_le r

end Leaves

/-- The characters that continue a phrase of a level when they stand behind it and a gap, in
lower case. -/
def Level.continues : Level → List Char
  | .operand => ['(']
  | .product => ['(', '*', '/', '%']
  | .sum => ['(', '*', '/', '%', '+', '-']
  | .comparison => ['(', '*', '/', '%', '+', '-', '=', '!', '<', '>']
  | .predicate | .term => ['(', '*', '/', '%', '+', '-', '=', '!', '<', '>', 'i']
  | .conjunction => ['(', '*', '/', '%', '+', '-', '=', '!', '<', '>', 'i', 'a']
  | .condition => ['(', '*', '/', '%', '+', '-', '=', '!', '<', '>', 'i', 'a', 'o']
  | .arguments | .furtherArguments => []

/-- Nothing behind the gap in front of the text continues a phrase of the level. -/
def Stops (l : Level) (r : List Char) : Prop := ∀ c ∈ (skipGap r).head?, c.toLower ∉ l.continues

/-- The text does not continue a phrase of the level. -/
structure Follow (l : Level) (r : List Char) : Prop where
  /-- The last word or number of the phrase ends. -/
  boundary : Boundary r
  /-- Nothing behind the gap continues the phrase. -/
  stops : ∀ c ∈ (skipGap r).head?, c.toLower ∉ l.continues

theorem Follow.mono {l m : Level} {r : List Char} (h : Follow l r)
    (hsub : m.continues ⊆ l.continues) : Follow m r :=
  ⟨h.boundary, fun c hc hmem => h.stops c hc (hsub hmem)⟩

/-- The character is a sign that no word, number or gap contains. -/
def isMark (c : Char) : Bool := !isNameChar c && !isGap c && c != '.' && c != ':'

theorem isGap_of_isMark {c : Char} (h : isMark c = true) : isGap c = false := by
  simp only [isMark, Bool.and_eq_true, Bool.not_eq_true'] at h
  exact h.1.1.2

/-- A sign ends the word or number before it, with or without a gap between them. -/
theorem boundary_of_mark {r t : List Char} {c : Char} (h : skipGap r = c :: t)
    (hc : isMark c = true) : Boundary r := by
  simp only [isMark, Bool.and_eq_true, Bool.not_eq_true', bne_iff_ne, ne_eq] at hc
  cases r with
  | nil => simp [Boundary]
  | cons x r =>
      intro d hd
      simp only [List.head?_cons, Option.mem_some_iff] at hd
      subst hd
      cases hgap : isGap x with
      | true => exact boundary_of_isGap hgap
      | false =>
          rw [skipGap_cons hgap] at h
          obtain ⟨rfl, -⟩ := List.cons.inj h
          exact ⟨hc.1.1.1, hc.1.2, hc.2⟩

/-- A sign behind a gap follows a phrase that it does not continue. -/
theorem follow_of_mark {l : Level} {r t : List Char} {c : Char} (h : skipGap r = c :: t)
    (hc : isMark c = true) (hl : c.toLower ∉ l.continues) : Follow l r := by
  refine ⟨boundary_of_mark h hc, fun d hd => ?_⟩
  simp only [h, List.head?_cons, Option.mem_some_iff] at hd
  exact hd ▸ hl

/-- A gap that is not empty ends the word or number before it. -/
theorem boundary_space (g : Space) (t : List Char) : Boundary (g.1 ++ t) := by
  obtain ⟨g, hne, hg⟩ := g
  cases g with
  | nil => exact absurd rfl hne
  | cons c g =>
      intro d hd
      simp only [List.cons_append, List.head?_cons, Option.mem_some_iff] at hd
      subst hd
      exact boundary_of_isGap (List.all_eq_true.mp hg c (by simp))

/-- A word behind a gap that is not empty follows a phrase that it does not continue. -/
theorem follow_of_space {l : Level} {c : Char} {t : List Char} (g : Space)
    (hc : isGap c = false) (hl : c.toLower ∉ l.continues) : Follow l (g.1 ++ c :: t) := by
  refine ⟨boundary_space g _, fun d hd => ?_⟩
  rw [skipGap_append g.2.2, skipGap_cons hc] at hd
  simp only [List.head?_cons, Option.mem_some_iff] at hd
  exact hd ▸ hl

/-- The character can be the first one of a phrase. -/
def isStart (c : Char) : Bool := isNameChar c || ['(', '-', '$', '\x27', '"'].contains c

/-- The text starts as phrases do. -/
def Starts (text : List Char) : Prop := ∃ c t, text = c :: t ∧ isStart c = true

/-- A name character or one of some signs is not a blank. -/
theorem isBlank_of_mem_marks {marks : List Char} {c : Char}
    (hmarks : ∀ m ∈ marks, isBlank m = false)
    (h : (isNameChar c || marks.contains c) = true) : isBlank c = false := by
  cases hblank : isBlank c with
  | false => rfl
  | true =>
      simp only [isNameChar_of_isBlank hblank, Bool.false_or, List.contains_eq_mem,
        decide_eq_true_eq] at h
      rw [hmarks c h] at hblank
      exact hblank.symm

theorem isBlank_of_isStart {c : Char} (h : isStart c = true) : isBlank c = false :=
  isBlank_of_mem_marks (forall_mem_of_all (by decide)) h

theorem isGap_of_isStart {c : Char} (h : isStart c = true) : isGap c = false := by
  cases hgap : isGap c with
  | false => rfl
  | true =>
      have hblank := isBlank_of_isStart h
      rw [isBlank_of_isGap hgap] at hblank
      exact hblank

theorem Starts.append {text : List Char} (h : Starts text) (r : List Char) :
    Starts (text ++ r) := by
  obtain ⟨c, t, rfl, hc⟩ := h
  exact ⟨c, t ++ r, rfl, hc⟩

theorem Starts.skipGap_eq {text : List Char} (h : Starts text) : skipGap text = text := by
  obtain ⟨c, t, rfl, hc⟩ := h
  exact skipGap_cons (isGap_of_isStart hc) t

/-- Nothing at all follows every phrase. -/
theorem follow_nil (l : Level) : Follow l [] := ⟨by simp [Boundary], by simp [skipGap]⟩

/-! ## Readers of one phrase and of lists -/

section Readers

variable {α : Type} {l m : Level} {text other sep : List Char} {value second : α}
variable {op : Lexer (α → α → α)} {item reader : Reader α} {f : α → α → α}

/-- The reader gives the value on the text, whatever gap stands before it and whatever follows
it without continuing a phrase of the level. -/
def Accepts (reader : Reader α) (text : List Char) (value : α) (l : Level) : Prop :=
  ∀ r s, Follow l r → skipGap s = text ++ r → ∃ rest, Leaves r rest ∧ reader s = .ok value rest

/-- An accepted text is used up where nothing follows it. -/
theorem Accepts.read (h : Accepts reader text value l) (hstart : Starts text) :
    reader text = .ok value [] := by
  obtain ⟨rest, hrest, hread⟩ := h [] text (follow_nil l) (by simpa using hstart.skipGap_eq)
  have hnil : rest = [] := List.eq_nil_of_length_eq_zero (Nat.le_zero.mp hrest.length_le)
  rw [hread, hnil]

/-- Reading a list leads on the text to the loop with the value as accumulator. -/
def Chained (op : Lexer (α → α → α)) (item : Reader α) (text : List Char) (value : α)
    (l : Level) : Prop :=
  ∀ r s, Follow l r → skipGap s = text ++ r →
    ∃ rest, Leaves r rest ∧ chain op item s = chainTail op item value rest

/-- The operator stands between gaps in the separator, and is recognised before the text. -/
structure Separates {β : Type} (op : Lexer β) (found : β) (sep text : List Char)
    (l : Level) : Prop where
  /-- The separator follows phrases of the level. -/
  follow : ∀ r, Follow l (sep ++ (text ++ r))
  /-- The operator is read, with the gaps around it. -/
  reads : ∀ r s, skipGap s = skipGap (sep ++ (text ++ r)) → op s = some (found, text ++ r)
  /-- The operator is not empty. -/
  longer : ∀ r : List Char, r.length < (skipGap (sep ++ (text ++ r))).length

theorem Separates.map {β γ : Type} {op : Lexer β} {found : β} (h : Separates op found sep text l)
    (g : β → γ) :
    Separates (fun s => (op s).map fun (b, rest) => (g b, rest)) (g found) sep text l :=
  ⟨h.follow, fun r s hs => by simp [h.reads r s hs], h.longer⟩

theorem chainTail_stop {s : List Char} (h : op s = none) (value : α) :
    chainTail op item value s = .ok value s := by
  rw [chainTail, h]

theorem chainTail_step {s afterOp rest : List Char} (hop : op s = some (f, afterOp))
    (hitem : item afterOp = .ok second rest) (hlen : rest.length < s.length) (value : α) :
    chainTail op item value s = chainTail op item (f value second) rest := by
  rw [chainTail, hop]
  simp [hitem, hlen]

/-- A list of one item is read as that item. -/
theorem Chained.single (h : Accepts item text value l) : Chained op item text value l := by
  intro r s hr hs
  obtain ⟨rest, hrest, hitem⟩ := h r s hr hs
  exact ⟨rest, hrest, by simp [chain, hitem]⟩

/-- A list is read with one more item behind an operator. -/
theorem Chained.append (h : Chained op item text value l) (hother : Accepts item other second l)
    (hstart : Starts other) (hsep : Separates op f sep other l) :
    Chained op item (text ++ (sep ++ other)) (f value second) l := by
  intro r s hr hs
  obtain ⟨middle, hmiddle, hchain⟩ :=
    h (sep ++ (other ++ r)) s (hsep.follow r) (by simpa using hs)
  have hop := hsep.reads r middle hmiddle.skipGap_eq
  obtain ⟨rest, hrest, hitem⟩ := hother r (other ++ r) hr (hstart.append r).skipGap_eq
  refine ⟨rest, hrest, ?_⟩
  have hlen : rest.length < middle.length := by
    calc rest.length ≤ r.length := hrest.length_le
      _ < (skipGap (sep ++ (other ++ r))).length := hsep.longer r
      _ = (skipGap middle).length := by rw [hmiddle.skipGap_eq]
      _ ≤ middle.length := length_skipGap_le middle
  rw [hchain, chainTail_step hop hitem hlen]

/-- The loop of a list stops where no operator follows. -/
theorem Chained.accepts (h : Chained op item text value l) (hml : l.continues ⊆ m.continues)
    (hstop : ∀ r rest, Follow m r → Leaves r rest → op rest = none) :
    Accepts (chain op item) text value m := by
  intro r s hr hs
  obtain ⟨rest, hrest, hchain⟩ := h r s (hr.mono hml) hs
  exact ⟨rest, hrest, by rw [hchain, chainTail_stop (hstop r rest hr hrest)]⟩

end Readers

end Pushdown.Condition
