import Pushdown.Proofs.Condition.Edges
import Pushdown.Proofs.Condition.Levels

/-!
# Texts put together from parts

A text that is read as an operand or as a term wherever it stands (`OperandText`, `TermText`) can be
part of a larger text. Each way to write a tree from its parts, with one space around operators and
words, gives such a text again.

## Implementation notes

The parts need not be phrases in a canonical form. They are known by what the readers do with them
and by the two things that a reader looks at before it reads: how a part starts, and that it is no
negation.
-/

namespace Pushdown.Condition

open Text Number

/-- The text is read as an operand wherever it stands, with so many levels left inside it. -/
structure OperandText (budget : Nat) (text : List Char) (e : Expr) : Prop where
  /-- No gap stands in front. -/
  starts : Starts text
  /-- No gap stands at the end. -/
  ends : Ends text
  /-- The text is no negation. -/
  keyword_not : ∀ r s, Boundary r → skipGap s = text ++ r → keyword "not".toList s = none
  /-- The text is read as the tree. -/
  accepts : Accepts (operand (alternatives (term budget))) text e .operand

/-- The text is read as a term wherever it stands, with so many levels left inside it. -/
structure TermText (budget : Nat) (text : List Char) (e : Expr) : Prop where
  /-- No gap stands in front. -/
  starts : Starts text
  /-- No gap stands at the end. -/
  ends : Ends text
  /-- The text is read as the tree. -/
  accepts : Accepts (term (budget + 1)) text e .term

/-- The text is read as a condition wherever it stands, inside so many levels. -/
structure ConditionText (budget : Nat) (text : List Char) (e : Expr) : Prop where
  /-- No gap stands in front. -/
  starts : Starts text
  /-- No gap stands at the end. -/
  ends : Ends text
  /-- The text is read as the tree. -/
  accepts : Accepts (alternatives (term (budget + 1))) text e .condition

variable {budget : Nat} {left right : List Char} {a b : Expr}

/-! ## Whole texts -/

/-- Nothing is trimmed from a condition. -/
theorem ConditionText.trim_eq (h : ConditionText budget left a) :
    trim left = left ∧ left.isEmpty = false := by
  have htrim : trim ([] ++ left ++ []) = left := trim_of_edges h.starts h.ends rfl rfl
  obtain ⟨c, t, rfl, -⟩ := h.starts
  exact ⟨by simpa using htrim, rfl⟩

/-- A condition that is read within the nesting limit is parsed. -/
theorem ConditionText.parse {text : String} (h : ConditionText nestingLimit text.toList a) :
    parse text = .ok a := by
  obtain ⟨htrim, hne⟩ := h.trim_eq
  have hread : condition text.toList = .ok a [] := h.accepts.read h.starts
  simp only [Condition.parse, parseChars, htrim, hne, hread]
  simp [trimStart]

/-! ## Terms and conditions -/

namespace TermText

theorem condition (h : TermText budget left a) : ConditionText budget left a :=
  ⟨h.starts, h.ends,
    accepts_condition (Chained.single (accepts_conjunction (Chained.single h.accepts)))⟩

theorem and (hleft : TermText budget left a) (hright : TermText budget right b) :
    ConditionText budget (left ++ ' ' :: ("and".toList ++ ' ' :: right)) (.and a b) := by
  let word : Spelling "and" := ⟨"and".toList, by decide⟩
  have hsep := separates_word (l := .term) word rfl (by decide) hright.starts oneSpace oneSpace .and
  have hchain := (Chained.single hleft.accepts).append hright.accepts hright.starts hsep
  exact ⟨hleft.starts.append _, (hright.ends.append " and ".toList).append left,
    accepts_condition (Chained.single (accepts_conjunction hchain))⟩

theorem or (hleft : TermText budget left a) (hright : TermText budget right b) :
    ConditionText budget (left ++ ' ' :: ("or".toList ++ ' ' :: right)) (.or a b) := by
  let word : Spelling "or" := ⟨"or".toList, by decide⟩
  have hsep :=
    separates_word (l := .conjunction) word rfl (by decide) hright.starts oneSpace oneSpace .or
  have hfirst := accepts_conjunction (Chained.single hleft.accepts)
  have hsecond := accepts_conjunction (Chained.single hright.accepts)
  exact ⟨hleft.starts.append _, (hright.ends.append " or ".toList).append left,
    accepts_condition ((Chained.single hfirst).append hsecond hright.starts hsep)⟩

/-- A negation takes one level. -/
theorem not (h : TermText budget left a) :
    TermText (budget + 1) ("not".toList ++ ' ' :: left) (.not a) := by
  let word : Spelling "not" := ⟨"not".toList, by decide⟩
  exact ⟨⟨'n', _, rfl, by decide⟩, h.ends.append "not ".toList,
    accepts_not h.accepts h.starts word oneSpace⟩

end TermText

/-! ## Operands -/

namespace OperandText

theorem sum (h : OperandText budget left a) :
    Accepts (sum (alternatives (term budget))) left a .sum :=
  accepts_sum (Chained.single (accepts_product (Chained.single h.accepts)))

theorem term (h : OperandText budget left a) : TermText budget left a :=
  ⟨h.starts, h.ends,
    accepts_positive (accepts_predicate (accepts_comparison h.sum)) h.keyword_not⟩

/-- What starts with an operand and goes on behind a space as a predicate is a term. -/
theorem extended (h : OperandText budget left a) {tail : List Char} {e : Expr} (htail : Ends tail)
    (hpredicate : Accepts (predicate (alternatives (Condition.term budget)))
      (left ++ ' ' :: tail) e .predicate) :
    TermText budget (left ++ ' ' :: tail) e := by
  refine ⟨h.starts.append _, ?_, accepts_positive hpredicate fun r s _ hs => ?_⟩
  · simpa using htail.append (left ++ [' '])
  · rw [List.append_assoc] at hs
    exact h.keyword_not _ s (boundary_space oneSpace (tail ++ r)) hs

theorem compare (sign : SignText compareSpellings) (hleft : OperandText budget left a)
    (hright : OperandText budget right b) :
    TermText budget (left ++ ' ' :: (sign.text.toList ++ ' ' :: right)) (.compare a sign.op b) := by
  have hcompare := accepts_compare hleft.sum hright.sum hright.starts oneGap sign oneGap
  refine hleft.extended ?_ ?_
  · simpa using hright.ends.append (sign.text.toList ++ [' '])
  · simpa [oneGap] using accepts_predicate hcompare

theorem isNull (h : OperandText budget left a) :
    TermText budget (left ++ " is null".toList) (.isNull a none) :=
  h.extended ⟨"is nul".toList, 'l', by decide, by decide⟩
    (accepts_isNull (accepts_comparison h.sum) oneSpace ⟨"is".toList, by decide⟩ oneSpace
      ⟨"null".toList, by decide⟩)

theorem member (h : OperandText budget left a) (store : Name) :
    TermText budget (left ++ (" in ".toList ++ store.1)) (.member a (String.ofList store.1)) :=
  h.extended ((ends_name store.2).append "in ".toList)
    (accepts_member (accepts_comparison h.sum) oneSpace ⟨"in".toList, by decide⟩ oneSpace store)

theorem factors (op : MathOp) (hop : op.symbol ∈ productSpellings op)
    (hleft : OperandText budget left a) (hright : OperandText budget right b) :
    Accepts (Condition.sum (alternatives (Condition.term budget)))
      (left ++ ' ' :: (op.symbol.toList ++ ' ' :: right)) (.math a op b) .sum := by
  have hsep := separates_product hright.starts oneGap ⟨op, op.symbol, hop⟩ oneGap
  have hchain := (Chained.single hleft.accepts).append hright.accepts hright.starts hsep
  simpa [oneGap] using accepts_sum (Chained.single (accepts_product hchain))

theorem summands (op : MathOp) (hop : op.symbol ∈ sumSpellings op)
    (hleft : OperandText budget left a) (hright : OperandText budget right b) :
    Accepts (Condition.sum (alternatives (Condition.term budget)))
      (left ++ ' ' :: (op.symbol.toList ++ ' ' :: right)) (.math a op b) .sum := by
  have hsep := separates_sum hright.starts oneGap ⟨op, op.symbol, hop⟩ oneGap
  have hfirst := accepts_product (Chained.single hleft.accepts)
  have hsecond := accepts_product (Chained.single hright.accepts)
  simpa [oneGap] using accepts_sum ((Chained.single hfirst).append hsecond hright.starts hsep)

theorem math (op : MathOp) (hleft : OperandText budget left a)
    (hright : OperandText budget right b) :
    TermText budget (left ++ ' ' :: (op.symbol.toList ++ ' ' :: right)) (.math a op b) := by
  have hsum : Accepts (Condition.sum (alternatives (Condition.term budget)))
      (left ++ ' ' :: (op.symbol.toList ++ ' ' :: right)) (.math a op b) .sum := by
    cases op with
    | add | sub => exact summands _ (by decide) hleft hright
    | mul | div | mod => exact factors _ (by decide) hleft hright
  refine hleft.extended ?_ (accepts_predicate (accepts_comparison hsum))
  simpa using hright.ends.append (op.symbol.toList ++ [' '])

end OperandText

/-- A condition in parentheses is an operand. -/
theorem operandText_group (h : Accepts (alternatives (term budget)) left a .condition)
    (hskip : ∀ r, skipGap (left ++ r) = left ++ r) :
    OperandText budget ('(' :: (left ++ [')'])) a := by
  refine ⟨⟨'(', _, rfl, by decide⟩, ⟨'(' :: left, ')', rfl, by decide⟩, fun r s _ hs => ?_, ?_⟩
  · apply keyword_of_mark (by decide)
    rw [hs]
    simpa using by decide
  · simpa [noGap] using accepts_group h hskip noGap noGap

/-- A condition in parentheses takes one level. -/
theorem ConditionText.group (h : ConditionText budget left a) :
    OperandText (budget + 1) ('(' :: (left ++ [')'])) a :=
  operandText_group h.accepts fun r => (h.starts.append r).skipGap_eq

/-! ## Calls -/

section Calls

variable {text : Expr → List Char} {args : List Expr}

/-- Further arguments are written with a comma and a space before each. -/
theorem acceptsFurther_texts (h : ∀ e ∈ args, ConditionText budget (text e) e) :
    AcceptsFurther (alternatives (term (budget + 1)))
      (args.flatMap fun e => ", ".toList ++ text e) args := by
  induction args with
  | nil => exact acceptsFurther_nil
  | cons e args ih =>
      have hfirst := h e (by simp)
      have hothers := ih fun d hd => h d (by simp [hd])
      simpa [noGap, oneGap] using
        acceptsFurther_cons hfirst.accepts hfirst.starts hothers noGap oneGap

/-- The text of all arguments. -/
def argumentText (text : Expr → List Char) : List Expr → List Char
  | [] => []
  | e :: args => text e ++ args.flatMap fun e => ", ".toList ++ text e

theorem acceptsArguments_texts (h : ∀ e ∈ args, ConditionText budget (text e) e) :
    AcceptsArguments (alternatives (term (budget + 1))) (argumentText text args) args := by
  cases args with
  | nil => exact acceptsArguments_nil fun s t hs => ⟨_, _, alternatives_close budget hs⟩
  | cons e args =>
      have hfirst := h e (by simp)
      have hothers := acceptsFurther_texts fun d hd => h d (List.mem_cons_of_mem e hd)
      simpa [argumentText, noGap] using
        acceptsArguments_cons hfirst.accepts hfirst.starts hothers noGap

/-- A call takes one level, even without arguments. -/
theorem operandText_call (h : ∀ e ∈ args, ConditionText budget (text e) e)
    (space : Option Name) (function : Name) :
    OperandText (budget + 1)
      (calledName space function ++ '(' :: (argumentText text args ++ [')']))
      (.call (space.map fun n => String.ofList n.1) (String.ofList function.1) args) := by
  refine ⟨(starts_called space function).append _, ?_, fun r s _ hs => ?_, ?_⟩
  · exact ⟨calledName space function ++ '(' :: argumentText text args, ')', by simp, by decide⟩
  · rw [List.append_assoc] at hs
    exact keyword_called (by decide) space function (by simpa using by decide) hs
  · simpa [noGap] using accepts_call (acceptsArguments_texts h) space function noGap noGap

end Calls

end Pushdown.Condition
