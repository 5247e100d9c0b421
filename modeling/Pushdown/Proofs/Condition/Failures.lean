import Pushdown.Proofs.Condition.Acceptance

/-!
# Failures inside a text

A failure ends the whole reading. No alternative, list or optional part around it takes it back, so
a text fails where a part of it fails, provided that everything before that part is read.

`Breaks` says of a reader where it fails. As for the texts that are accepted there is one lemma for
each place of a phrase at which a failing part can stand; the last one is about whole texts
(`parseChars_of_fail`).

## Implementation notes

The text is given in two parts, before and behind the failure. What follows the text is only looked
at by the part that fails, and then only if it fails at its end, as a number does.
-/

namespace Pushdown.Condition

open Text Number

variable {α : Type} {l m : Level} {cause : Fatal} {before behind : List Char}

/-- Reading ends for the cause between the two parts of the text, whatever gap stands before it and
whatever follows it without continuing a phrase of the level. -/
def Breaks (reader : Reader α) (cause : Fatal) (l : Level) (before behind : List Char) : Prop :=
  ∀ r s, Follow l r → skipGap s = before ++ (behind ++ r) → reader s = .fail cause (behind ++ r)

namespace Breaks

variable {op : Lexer (α → α → α)} {item reader : Reader α} {f : α → α → α}

theorem mono (h : Breaks reader cause l before behind) (hsub : l.continues ⊆ m.continues) :
    Breaks reader cause m before behind :=
  fun r s hr hs => h r s (hr.mono hsub) hs

/-- The failure of a text with no gap before it. -/
theorem here {r : List Char} (h : Breaks reader cause l before behind)
    (hstart : Starts (before ++ behind)) (hr : Follow l r) :
    reader (before ++ behind ++ r) = .fail cause (behind ++ r) := by
  apply h r _ hr
  rw [(hstart.append r).skipGap_eq, List.append_assoc]

/-- More text can stand behind the failure, if it does not continue the phrase that fails. -/
theorem more {other : List Char} (h : Breaks reader cause l before behind)
    (hother : ∀ r, Follow m r → Follow l (other ++ r)) :
    Breaks reader cause m before (behind ++ other) := by
  intro r s hr hs
  rw [List.append_assoc] at hs ⊢
  exact h (other ++ r) s (hother r hr) hs

theorem separated {β : Type} {op : Lexer β} {found : β} {sep other : List Char}
    (h : Breaks reader cause l before behind) (hsep : Separates op found sep other l) :
    Breaks reader cause m before (behind ++ (sep ++ other)) := by
  apply h.more
  intro r _
  rw [List.append_assoc]
  exact hsep.follow r

/-- A list fails in its first item. -/
theorem first (h : Breaks item cause l before behind) :
    Breaks (chain op item) cause l before behind := by
  intro r s hr hs
  rw [chain, h r s hr hs, Outcome.andThen_fail]

/-- A list fails in the item behind a shorter list that is read. -/
theorem next {text sep : List Char} {value : α} (h : Breaks item cause l before behind)
    (hfirst : Chained op item text value l) (hstart : Starts (before ++ behind))
    (hsep : Separates op f sep (before ++ behind) l) :
    Breaks (chain op item) cause l (text ++ (sep ++ before)) behind := by
  intro r s hr hs
  obtain ⟨middle, hmiddle, hchain⟩ := hfirst (sep ++ ((before ++ behind) ++ r)) s (hsep.follow r)
    (by simpa using hs)
  have hop := hsep.reads r middle hmiddle.skipGap_eq
  rw [hchain, chainTail, hop]
  simp only [h.here hstart hr]

end Breaks

/-! ## Levels -/

section Levels

variable {nested : Reader Expr} {left : List Char} {a : Expr} {budget : Nat}

/-- A comparison fails in its first sum. -/
theorem breaks_comparison (h : Breaks (sum nested) cause l before behind) :
    Breaks (comparison nested) cause l before behind := by
  intro r s hr hs
  rw [comparison, h r s hr hs, Outcome.andThen_fail]

/-- A comparison fails in its second sum, and is then not cut down to the first. -/
theorem breaks_compare (h : Breaks (sum nested) cause .sum before behind)
    (hleft : Accepts (sum nested) left a .sum) (hstart : Starts (before ++ behind))
    (gap : Gap) (sign : SignText compareSpellings) (after : Gap) :
    Breaks (comparison nested) cause .comparison
      (left ++ (gap.1 ++ sign.text.toList ++ after.1 ++ before)) behind := by
  intro r s hr hs
  have hsep := separates_compare hstart gap sign after
  obtain ⟨middle, hmiddle, hfirst⟩ := hleft _ s (hsep.follow r) (by simpa using hs)
  have hsign := hsep.reads r middle hmiddle.skipGap_eq
  have hsecond := h.here hstart (hr.mono (by decide))
  simp only [comparison, hfirst, Outcome.andThen_ok, hsign, hsecond]

theorem breaks_predicate (h : Breaks (comparison nested) cause l before behind) :
    Breaks (predicate nested) cause l before behind := by
  intro r s hr hs
  rw [predicate, h r s hr hs, Outcome.andThen_fail]

theorem breaks_positive
    (h : Breaks (predicate (alternatives (term budget))) cause .predicate before behind)
    (hnot : ∀ r s, Boundary r → skipGap s = before ++ (behind ++ r) →
      keyword "not".toList s = none) :
    Breaks (term (budget + 1)) cause .term before behind := by
  intro r s hr hs
  rw [term_positive budget (hnot r s hr.boundary hs), h r s (hr.mono (by decide)) hs]

/-- A condition fails in its first term. -/
theorem breaks_condition {item : Reader Expr} (h : Breaks item cause .term before behind) :
    Breaks (alternatives item) cause .condition before behind :=
  Breaks.first (Breaks.first (h.mono (by decide)))

end Levels

/-! ## Whole texts -/

/-- A text with blanks around a condition is judged by what is read of the condition, with places
counted in the text as given. -/
theorem parseChars_of_edges {text : List Char} (lead trail : List Char)
    (hlead : lead.all isBlank = true) (htrail : trail.all isBlank = true) (hstarts : Starts text)
    (hends : Ends text) :
    parseChars (lead ++ text ++ trail) =
      match condition text with
      | .ok e rest =>
          if (trimStart rest).isEmpty then .ok e
          else .error ⟨byteLength lead + byteLength text - byteLength (trimStart rest),
            .trailing (String.ofList (trimStart rest))⟩
      | .miss cause here =>
          .error ⟨byteLength lead + byteLength text - byteLength here, .missed cause⟩
      | .fail cause here =>
          .error ⟨byteLength lead + byteLength text - byteLength here, cause.problem⟩ := by
  have htrim := trim_of_edges hstarts hends hlead htrail
  obtain ⟨c, t, htext, hc⟩ := hstarts
  have hfront : (lead ++ text ++ trail).takeWhile isBlank = lead := by
    rw [List.append_assoc, List.takeWhile_append_of_pos (List.all_eq_true.mp hlead), htext]
    simp [isBlank_of_isStart hc]
  have hoffset := byteLength_lead (lead ++ text ++ trail)
  rw [hfront] at hoffset
  have hne : text.isEmpty = false := by rw [htext, List.isEmpty_cons]
  simp only [parseChars, htrim, hoffset, hne]
  rfl

/-- A condition that fails is reported where it fails. -/
theorem parseChars_of_fail (lead trail : List Char) (hlead : lead.all isBlank = true)
    (htrail : trail.all isBlank = true) (hstarts : Starts (before ++ behind))
    (hends : Ends (before ++ behind)) (h : condition (before ++ behind) = .fail cause behind) :
    parseChars (lead ++ (before ++ behind) ++ trail) =
      .error ⟨byteLength lead + byteLength before, cause.problem⟩ := by
  rw [parseChars_of_edges lead trail hlead htrail hstarts hends, h]
  simp only
  rw [byteLength_append, ← Nat.add_assoc, Nat.add_sub_cancel]

end Pushdown.Condition
