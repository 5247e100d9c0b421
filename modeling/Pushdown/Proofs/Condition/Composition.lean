import Mathlib.Data.List.TakeWhile
import Pushdown.Proofs.Condition.Assembly
import Pushdown.Proofs.Condition.Budget

/-!
# Conditions composed in parentheses

A text that is parsed can be put in parentheses, and two such texts can be joined by any operator
between their parentheses. The result is parsed to the tree that the operator makes of the trees of
the parts, unless it crosses the nesting limit (`parse_composed`).

The parts are arbitrary texts that are parsed, not only texts in a canonical form: what is read of
a part does not depend on the parenthesis behind it, so a part can neither end later than before nor
be taken apart in another way.

## Implementation notes

A part is known to be read with the whole budget of nesting levels, and stands one level deeper in
the result. The result is therefore read with one level more than there is, and then compared with
what the parser does.
-/

namespace Pushdown.Condition

open Text Number

variable {a b : Expr}

/-! ## Operators between parentheses -/

/-- An operator between two conditions in parentheses. -/
inductive Connective
  /-- Both conditions. -/
  | and
  /-- One of the conditions. -/
  | or
  /-- A comparison, in one of the ways to write it. -/
  | compare (sign : SignText compareSpellings)
  /-- An arithmetic operation. -/
  | math (op : MathOp)

namespace Connective

/-- The operator as written. -/
def word : Connective → String
  | and => "and"
  | or => "or"
  | compare sign => sign.text
  | math op => op.symbol

/-- The node that the operator makes. -/
def node : Connective → Expr → Expr → Expr
  | and => .and
  | or => .or
  | compare sign => fun l r => .compare l sign.op r
  | math op => fun l r => .math l op r

end Connective

/-- The text in parentheses. -/
def enclosed (text : String) : String := "(" ++ text ++ ")"

/-- Two texts in parentheses with the operator between them. -/
def Connective.joined (c : Connective) (left right : String) : String :=
  enclosed left ++ " " ++ c.word ++ " " ++ enclosed right

/-- Two operands with an operator between them are a condition. -/
theorem conditionText_joined (c : Connective) {left right : List Char} {budget : Nat}
    (hleft : OperandText budget left a) (hright : OperandText budget right b) :
    ConditionText budget (left ++ ' ' :: (c.word.toList ++ ' ' :: right)) (c.node a b) := by
  cases c with
  | and => exact hleft.term.and hright.term
  | or => exact hleft.term.or hright.term
  | compare sign => exact (hleft.compare sign hright).condition
  | math op => exact (hleft.math op hright).condition

/-! ## Whole texts -/

/-- What is parsed to a tree from a text without blanks around it is read to the end of the text. -/
theorem read_of_parse {text : String} (h : parse text = .ok a) (htrim : trimmed text = text) :
    condition text.toList = .ok a [] ∧ ∀ r, skipGap (text.toList ++ r) = text.toList ++ r := by
  have hbody : trim text.toList = text.toList := by
    rw [← String.toList_ofList (l := trim text.toList), ← trimmed, htrim]
  obtain ⟨rest, hread, hblank⟩ := condition_of_parse h
  obtain ⟨w, hne, hskip, -⟩ := settles_alternatives (settles_term _) _ a rest hread
  have hfront : skipGap (trim text.toList) = trim text.toList := by
    cases htext : trim text.toList with
    | nil => rfl
    | cons c t =>
        refine skipGap_cons ?_ t
        have hc : isBlank c = false := isBlank_head_trim (t := text.toList) (by simp [htext])
        cases hgap : isGap c with
        | false => rfl
        | true => rw [← hc, isBlank_of_isGap hgap]
  rw [hfront] at hskip
  have hrest : rest = [] := by
    apply eq_nil_of_suffix_trim (t := text.toList)
    · rw [hskip]
      exact List.suffix_append w rest
    · rw [trimStart, List.dropWhile_eq_nil_iff] at hblank
      exact hblank
  subst hrest
  rw [hbody] at hread hskip hfront
  rw [List.append_nil] at hskip
  subst hskip
  exact ⟨hread, skipGap_front hne (hfront.trans (List.append_nil _).symm)⟩

theorem length_le_byteLength (s : List Char) : s.length ≤ byteLength s := by
  induction s with
  | nil => exact Nat.le_refl 0
  | cons c s ih =>
      have hsize := c.utf8Size_pos
      simp only [List.length_cons, byteLength]
      omega

/-- A part that is parsed is read in parentheses, with one level more than the limit, or within the
limit if it is short. -/
theorem operandText_part {text : String} (h : parse text = .ok a) (htrim : trimmed text = text)
    {budget : Nat}
    (hbudget : budget = nestingLimit + 1 ∨
      budget = nestingLimit ∧ byteLength text.toList < nestingLimit) :
    OperandText budget ('(' :: (text.toList ++ [')'])) a := by
  obtain ⟨hread, hskip⟩ := read_of_parse h htrim
  refine operandText_group (accepts_of_read (by simpa using hskip []) ?_) hskip
  rcases hbudget with rfl | ⟨rfl, hshort⟩
  · exact hread
  · have hlen := length_le_byteLength text.toList
    rcases within_condition nestingLimit text.toList with hsame | ⟨hlong, -⟩
    · exact hsame.trans hread
    · omega

/-- The text is parsed to the tree, or crosses the nesting limit. -/
def ParsesWithin (text : String) (e : Expr) : Prop :=
  parse text = .ok e ∨ ∃ position, parse text = .error ⟨position, .tooDeep⟩

/-- What is read with more levels than the limit is parsed or crosses the limit. -/
theorem parsesWithin_of_conditionText {budget : Nat} {text : String}
    (h : ConditionText budget text.toList a) (hle : nestingLimit ≤ budget) :
    ParsesWithin text a := by
  obtain ⟨k, rfl⟩ := Nat.exists_eq_add_of_le hle
  obtain ⟨htrim, hne⟩ := h.trim_eq
  have hread := h.accepts.read h.starts
  rw [Nat.add_right_comm] at hread
  rw [ParsesWithin, parse, parseChars]
  rcases within_condition_add (nestingLimit + 1) k text.toList with hsame | ⟨-, here, hdeep⟩
  · have hcondition : condition text.toList = .ok a [] := hsame.trans hread
    left
    simp [htrim, hne, hcondition, trimStart]
  · have hcondition : condition text.toList = .fail .tooDeep here := hdeep
    right
    simp [htrim, hne, hcondition, Fatal.problem]

theorem toList_enclosed (text : String) : (enclosed text).toList = '(' :: (text.toList ++ [')']) := by
  simp [enclosed]

theorem toList_joined (c : Connective) (left right : String) :
    (c.joined left right).toList =
      (enclosed left).toList ++ ' ' :: (c.word.toList ++ ' ' :: (enclosed right).toList) := by
  simp [Connective.joined, enclosed]

/-- Two texts that are parsed, without blanks around them, can be put in parentheses and joined by
any operator: the first one in parentheses is parsed to its own tree, and both with the operator
between their parentheses to the node of the operator over their trees. Only the nesting limit can
be in the way, and is not for texts shorter than 64 bytes. -/
theorem parse_composed (c : Connective) {left right : String} (hleft : parse left = .ok a)
    (hright : parse right = .ok b) (hleftTrim : trimmed left = left)
    (hrightTrim : trimmed right = right) :
    ParsesWithin (enclosed left) a ∧
      ParsesWithin (c.joined left right) (c.node a b) ∧
      (byteLength left.toList < 64 → parse (enclosed left) = .ok a) ∧
      (byteLength left.toList < 64 → byteLength right.toList < 64 →
        parse (c.joined left right) = .ok (c.node a b)) := by
  have hdeep := operandText_part hleft hleftTrim (Or.inl rfl)
  have hdeep' := operandText_part hright hrightTrim (Or.inl rfl)
  have hpart := fun hshort => operandText_part hleft hleftTrim (Or.inr ⟨rfl, hshort⟩)
  have hpart' := fun hshort => operandText_part hright hrightTrim (Or.inr ⟨rfl, hshort⟩)
  rw [← toList_enclosed] at hdeep hdeep' hpart hpart'
  refine ⟨?_, ?_, fun hshort => ?_, fun hshort hshort' => ?_⟩
  · exact parsesWithin_of_conditionText hdeep.term.condition (Nat.le_succ _)
  · refine parsesWithin_of_conditionText ?_ (Nat.le_succ _)
    rw [toList_joined]
    exact conditionText_joined c hdeep hdeep'
  · exact (hpart hshort).term.condition.parse
  · apply ConditionText.parse
    rw [toList_joined]
    exact conditionText_joined c (hpart hshort) (hpart' hshort')

/-- Two conditions, with words next to numbers and signs, quoted parentheses and a negation at the
front, are compared. -/
theorem parse_composed_cramped :
    parse "1and n:f( )or')('" =
        .ok (.or (.and (.constant (.int 1) .int) (.call (some "n") "f" []))
          (.constant (.string ")(") .string)) ∧
      parse "NOT x::INT is\tnull" = .ok (.not (.isNull (.column none "x" .int) none)) ∧
      parse "(1and n:f( )or')(') <> (NOT x::INT is\tnull)" =
        .ok (.compare
          (.or (.and (.constant (.int 1) .int) (.call (some "n") "f" []))
            (.constant (.string ")(") .string))
          .ne (.not (.isNull (.column none "x" .int) none))) := by
  have hleft : parse "1and n:f( )or')('" =
      .ok (.or (.and (.constant (.int 1) .int) (.call (some "n") "f" []))
        (.constant (.string ")(") .string)) := by
    decide +kernel
  have hright : parse "NOT x::INT is\tnull" =
      .ok (.not (.isNull (.column none "x" .int) none)) := by
    decide +kernel
  have hcomposed := parse_composed (.compare ⟨.ne, "<>", by decide⟩) hleft hright
    (by decide +kernel) (by decide +kernel)
  exact ⟨hleft, hright, hcomposed.2.2.2 (by decide) (by decide)⟩

end Pushdown.Condition
