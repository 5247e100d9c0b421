import Pushdown.Proofs.Condition.Lexemes
import Pushdown.Proofs.Condition.Phrase

/-!
# The grammar of the condition language

`Derives l s t e` says that the text `s` starts with a phrase of the level `l` that stands for `e`,
and that `t` is the text behind it. A whole text is a condition if nothing is left behind it.

There is one rule for each production. The rules are not ordered and none of them says that another
one fails, so a text has a tree because of what it is, not because of what was tried on it before.

## Implementation notes

The text behind a phrase is a part of the relation because some tokens look at it: a name and a
type end where no letter follows them, and a reserved word is not the beginning of a longer name.

The lists of the language grow to the right, as the phrases do, and fold in the same order.
-/

namespace Pushdown.Condition

open Text Number

/-! ## Tokens -/

/-- A gap, which may be empty, leads from one text to the other. -/
def Skips (s t : List Char) : Prop := ∃ g, g.all isGap = true ∧ s = g ++ t

/-- The token leads from one text to the other, with a gap allowed on either side. -/
def Around (token : List Char → List Char → Prop) (s t : List Char) : Prop :=
  ∃ u v, Skips s u ∧ token u v ∧ Skips v t

/-- The reserved word in some casing, with no character of a name behind it. -/
def Word (word s t : List Char) : Prop :=
  ∃ u, s = u ++ t ∧ lowerAscii u = word ∧ startsInName t = false

/-- The name, which is not reserved and goes on as long as characters of names do. -/
def Ident (w s t : List Char) : Prop := s = w ++ t ∧ isName w = true ∧ startsInName t = false

/-- The operator in one of the ways to write it. -/
def Sign {α : Type} (spellings : α → List String) (op : α) (s t : List Char) : Prop :=
  ∃ sign ∈ spellings op, s = sign.toList ++ t

/-- The sign and the name of the type in some casing, with no letter behind it. Where nothing is
written the type is `object`. -/
def TypeNote (sign : List Char) (type : AttrType) (s t : List Char) : Prop :=
  (type = .object ∧ s = t) ∨
    ∃ letters, s = sign ++ (letters ++ t) ∧ lowerAscii letters = type.name.toList ∧
      ∀ c ∈ t.head?, isAlphabetic c = false

/-- One or more ASCII digits. -/
def IsDigits (ds : List Char) : Prop := ds ≠ [] ∧ ds.all Char.isDigit = true

/-- The name of a function, with an optional name space and a colon before it. -/
def Callee (space : Option (List Char)) (function s t : List Char) : Prop :=
  match space with
  | none => Ident function s t
  | some first => ∃ u, Ident first s (':' :: u) ∧ Ident function u t

/-! ## Numbers -/

/-- The letters that stand for a mark. -/
def Mark.letters : Mark → List Char
  | .long => ['l', 'L']
  | .float => ['f', 'F']
  | .double => ['d', 'D']

/-- The mark as written behind a number: one letter, or nothing without a mark. -/
def MarkText (mark : Option Mark) (text : List Char) : Prop :=
  match mark with
  | none => text = []
  | some m => ∃ c ∈ m.letters, text = [c]

/-- The point and the digits behind it, if there are any. -/
def pointed (fraction : Option (List Char)) : List Char := fraction.elim [] ('.' :: ·)

/-- The number as written: an optional minus sign, digits, an optional fraction and an optional
mark, with nothing between them. -/
def NumberText (n : Literal) (s t : List Char) : Prop :=
  IsDigits n.whole ∧ (∀ ds ∈ n.fraction, IsDigits ds) ∧
    ∃ letter, MarkText n.mark letter ∧
      s = minus n.negative ++ (n.whole ++ (pointed n.fraction ++ (letter ++ t)))

/-- The integer fits in 32 bits. -/
def FitsInt (n : Int) : Prop := -0x80000000 ≤ n ∧ n < 0x80000000

/-- The integer fits in 64 bits. -/
def FitsLong (n : Int) : Prop := -0x8000000000000000 ≤ n ∧ n < 0x8000000000000000

/-- The constant that a number as written stands for. -/
inductive NumberConstant : Literal → Expr → Prop
  /-- An integer without a mark is an `int` if it fits. -/
  | int {negative : Bool} {whole : List Char} (h : FitsInt (ofSigned negative whole)) :
      NumberConstant ⟨negative, whole, none, none⟩
        (.constant (.int (Int32.ofInt (ofSigned negative whole))) .int)
  /-- An integer that does not fit in an `int` is a `long`. -/
  | wide {negative : Bool} {whole : List Char} (hwide : ¬ FitsInt (ofSigned negative whole))
      (h : FitsLong (ofSigned negative whole)) :
      NumberConstant ⟨negative, whole, none, none⟩
        (.constant (.long (Int64.ofInt (ofSigned negative whole))) .long)
  /-- An integer marked as a `long`. -/
  | long {negative : Bool} {whole : List Char} (h : FitsLong (ofSigned negative whole)) :
      NumberConstant ⟨negative, whole, none, some .long⟩
        (.constant (.long (Int64.ofInt (ofSigned negative whole))) .long)
  /-- A number marked as a `float` is the nearest one. -/
  | float {n : Literal} (h : n.mark = some .float) :
      NumberConstant n (.constant (.float n.toBinary) .float)
  /-- A number marked as a `double` is the nearest one. -/
  | double {n : Literal} (h : n.mark = some .double) :
      NumberConstant n (.constant (.double n.toBinary) .double)
  /-- A number with a fraction and no mark is the nearest `double`. -/
  | decimal {n : Literal} {ds : List Char} (hmark : n.mark = none) (h : n.fraction = some ds) :
      NumberConstant n (.constant (.double n.toBinary) .double)

/-! ## Phrases -/

/-- The text starts with a phrase of the level, which stands for the tree or the list of trees, and
the second text is left. -/
inductive Derives : (l : Level) → List Char → List Char → Meaning l → Prop
  /-- One conjunction. -/
  | conjunction {s t : List Char} {e : Expr} (h : Derives .conjunction s t e) :
      Derives .condition s t e
  /-- Alternatives and one more. -/
  | or {s t u v : List Char} {l r : Expr} (hl : Derives .condition s t l)
      (hop : Around (Word "or".toList) t u) (hr : Derives .conjunction u v r) :
      Derives .condition s v (Expr.or l r)
  /-- One term. -/
  | term {s t : List Char} {e : Expr} (h : Derives .term s t e) : Derives .conjunction s t e
  /-- A conjunction and one more term. -/
  | and {s t u v : List Char} {l r : Expr} (hl : Derives .conjunction s t l)
      (hop : Around (Word "and".toList) t u) (hr : Derives .term u v r) :
      Derives .conjunction s v (Expr.and l r)
  /-- A negated term. -/
  | not {s t u v : List Char} {e : Expr} (hword : Word "not".toList s t) (hgap : Skips t u)
      (h : Derives .term u v e) : Derives .term s v (Expr.not e)
  /-- A term without negation. -/
  | predicate {s t : List Char} {e : Expr} (h : Derives .predicate s t e) : Derives .term s t e
  /-- A comparison without a suffix. -/
  | comparison {s t : List Char} {e : Expr} (h : Derives .comparison s t e) :
      Derives .predicate s t e
  /-- A null check. -/
  | isNull {s t u v : List Char} {e : Expr} (h : Derives .comparison s t e)
      (his : Around (Word "is".toList) t u) (hnull : Word "null".toList u v) :
      Derives .predicate s v (Expr.isNull e none)
  /-- A negated null check. -/
  | isNotNull {s t u v w : List Char} {e : Expr} (h : Derives .comparison s t e)
      (his : Around (Word "is".toList) t u) (hnot : Around (Word "not".toList) u v)
      (hnull : Word "null".toList v w) :
      Derives .predicate s w (Expr.not (Expr.isNull e none))
  /-- A membership in a store. -/
  | member {s t u v store : List Char} {e : Expr} (h : Derives .comparison s t e)
      (hin : Around (Word "in".toList) t u) (hstore : Ident store u v) :
      Derives .predicate s v (Expr.member e (String.ofList store))
  /-- A sum that is not compared. -/
  | sum {s t : List Char} {e : Expr} (h : Derives .sum s t e) : Derives .comparison s t e
  /-- Two sums compared. -/
  | compare {s t u v : List Char} {l r : Expr} {op : CompareOp} (hl : Derives .sum s t l)
      (hop : Around (Sign compareSpellings op) t u) (hr : Derives .sum u v r) :
      Derives .comparison s v (Expr.compare l op r)
  /-- One product. -/
  | product {s t : List Char} {e : Expr} (h : Derives .product s t e) : Derives .sum s t e
  /-- A sum and one more product. -/
  | plus {s t u v : List Char} {l r : Expr} {op : MathOp} (hl : Derives .sum s t l)
      (hop : Around (Sign sumSpellings op) t u) (hr : Derives .product u v r) :
      Derives .sum s v (Expr.math l op r)
  /-- One operand. -/
  | operand {s t : List Char} {e : Expr} (h : Derives .operand s t e) : Derives .product s t e
  /-- A product and one more operand. -/
  | times {s t u v : List Char} {l r : Expr} {op : MathOp} (hl : Derives .product s t l)
      (hop : Around (Sign productSpellings op) t u) (hr : Derives .operand u v r) :
      Derives .product s v (Expr.math l op r)
  /-- A condition in parentheses. -/
  | group {s t u v : List Char} {e : Expr} (hopen : Skips s t) (h : Derives .condition t u e)
      (hclose : Skips u (')' :: v)) : Derives .operand ('(' :: s) v e
  /-- A number. -/
  | number {s t : List Char} {n : Literal} {e : Expr} (htext : NumberText n s t)
      (hconstant : NumberConstant n e) : Derives .operand s t e
  /-- A string in quotes that do not occur in it. -/
  | quoted {t body : List Char} {quote : Char} (hquote : quote = '\x27' ∨ quote = '"')
      (hfree : quote ∉ body) :
      Derives .operand (quote :: (body ++ quote :: t)) t
        (Expr.constant (.string (String.ofList body)) .string)
  /-- A truth value. -/
  | truth {s t : List Char} (b : Bool) (h : Word (toString b).toList s t) :
      Derives .operand s t (Expr.constant (.bool b) .bool)
  /-- The null constant. -/
  | null {s t : List Char} (h : Word "null".toList s t) :
      Derives .operand s t (Expr.constant .null .object)
  /-- A query parameter, whose index fits in 64 bits. -/
  | parameter {s t ds : List Char} {type : AttrType} (hds : IsDigits ds)
      (hfits : ofDigits ds < 0x10000000000000000) (htype : TypeNote [':'] type s t) :
      Derives .operand ('$' :: (ds ++ s)) t
        (Expr.parameter (UInt64.ofNat (ofDigits ds)) type)
  /-- A function applied to arguments. -/
  | call {s t u v w function : List Char} {space : Option (List Char)} {args : List Expr}
      (hcallee : Callee space function s t) (hopen : Skips t ('(' :: u))
      (hargs : Derives .arguments u v args) (hclose : Skips v (')' :: w)) :
      Derives .operand s w
        (Expr.call (space.map String.ofList) (String.ofList function) args)
  /-- An attribute of a stream event. -/
  | field {s t u v stream name : List Char} {type : AttrType} (hstream : Ident stream s ('.' :: t))
      (hname : Ident name t u) (htype : TypeNote [':', ':'] type u v) :
      Derives .operand s v
        (Expr.eventField (String.ofList stream ++ "." ++ String.ofList name)
          (some (String.ofList stream)) (String.ofList name) type)
  /-- A column. -/
  | column {s t u name : List Char} {type : AttrType} (hname : Ident name s t)
      (htype : TypeNote [':', ':'] type t u) :
      Derives .operand s u (Expr.column none (String.ofList name) type)
  /-- No arguments. -/
  | noArguments {s : List Char} : Derives .arguments s s []
  /-- A first argument and the others. -/
  | arguments {s t u v : List Char} {e : Expr} {es : List Expr} (hgap : Skips s t)
      (h : Derives .condition t u e) (hs : Derives .furtherArguments u v es) :
      Derives .arguments s v (e :: es)
  /-- No further arguments. -/
  | noFurther {s : List Char} : Derives .furtherArguments s s []
  /-- A comma, one more argument and the others. -/
  | further {s t u v w : List Char} {e : Expr} {es : List Expr} (hcomma : Skips s (',' :: t))
      (hgap : Skips t u) (h : Derives .condition u v e)
      (hs : Derives .furtherArguments v w es) : Derives .furtherArguments s w (e :: es)

/-! ## What is left is the end of the text -/

section Suffixes

variable {s t : List Char}

theorem Skips.suffix (h : Skips s t) : t <:+ s := by
  obtain ⟨g, -, rfl⟩ := h
  exact List.suffix_append g t

theorem Word.suffix {word : List Char} (h : Word word s t) : t <:+ s := by
  obtain ⟨u, rfl, -⟩ := h
  exact List.suffix_append u t

theorem Ident.suffix {w : List Char} (h : Ident w s t) : t <:+ s := by
  obtain ⟨rfl, -⟩ := h
  exact List.suffix_append w t

theorem Sign.suffix {α : Type} {spellings : α → List String} {op : α}
    (h : Sign spellings op s t) : t <:+ s := by
  obtain ⟨sign, -, rfl⟩ := h
  exact List.suffix_append _ t

theorem Around.suffix {token : List Char → List Char → Prop} (h : Around token s t)
    (htoken : ∀ u v, token u v → v <:+ u) : t <:+ s := by
  obtain ⟨u, v, hbefore, huv, hbehind⟩ := h
  exact (hbehind.suffix.trans (htoken u v huv)).trans hbefore.suffix

theorem TypeNote.suffix {sign : List Char} {type : AttrType} (h : TypeNote sign type s t) :
    t <:+ s := by
  rcases h with ⟨-, rfl⟩ | ⟨letters, rfl, -, -⟩
  · exact List.suffix_refl s
  · exact (List.suffix_append letters t).trans (List.suffix_append sign _)

theorem Callee.suffix {space : Option (List Char)} {function : List Char}
    (h : Callee space function s t) : t <:+ s := by
  cases space with
  | none => exact Ident.suffix h
  | some first =>
      obtain ⟨u, hfirst, hfunction⟩ := h
      exact (hfunction.suffix.trans (List.suffix_cons ':' u)).trans hfirst.suffix

theorem NumberText.suffix {n : Literal} (h : NumberText n s t) : t <:+ s := by
  obtain ⟨-, -, letter, -, rfl⟩ := h
  simp only [← List.append_assoc]
  exact List.suffix_append _ t

/-- A phrase stands at the front of the text. -/
theorem Derives.suffix {l : Level} {e : Meaning l} (h : Derives l s t e) : t <:+ s := by
  induction h with
  | conjunction _ ih | term _ ih | predicate _ ih | comparison _ ih => exact ih
  | sum _ ih | product _ ih | operand _ ih => exact ih
  | or _ hop _ ihl ihr | and _ hop _ ihl ihr =>
      exact (ihr.trans (hop.suffix fun _ _ => Word.suffix)).trans ihl
  | not hword hgap _ ih => exact (ih.trans hgap.suffix).trans hword.suffix
  | isNull _ his hnull ih =>
      exact (hnull.suffix.trans (his.suffix fun _ _ => Word.suffix)).trans ih
  | isNotNull _ his hnot hnull ih =>
      have hwords := hnull.suffix.trans (hnot.suffix fun _ _ => Word.suffix)
      exact (hwords.trans (his.suffix fun _ _ => Word.suffix)).trans ih
  | member _ hin hstore ih =>
      exact (hstore.suffix.trans (hin.suffix fun _ _ => Word.suffix)).trans ih
  | compare _ hop _ ihl ihr | plus _ hop _ ihl ihr | times _ hop _ ihl ihr =>
      exact (ihr.trans (hop.suffix fun _ _ => Sign.suffix)).trans ihl
  | group hopen _ hclose ih =>
      have hinside := ((List.suffix_cons _ _).trans hclose.suffix).trans (ih.trans hopen.suffix)
      exact hinside.trans (List.suffix_cons _ _)
  | number htext _ => exact htext.suffix
  | @quoted t body quote _ _ =>
      exact ((List.suffix_cons quote t).trans (List.suffix_append body _)).trans
        (List.suffix_cons _ _)
  | truth _ hword | null hword => exact hword.suffix
  | @parameter s t ds _ _ _ htype =>
      exact (htype.suffix.trans (List.suffix_append ds s)).trans (List.suffix_cons _ _)
  | call hcallee hopen _ hclose ih =>
      have hinside := ((List.suffix_cons _ _).trans hclose.suffix).trans ih
      have hhead := (List.suffix_cons _ _).trans hopen.suffix
      exact (hinside.trans hhead).trans hcallee.suffix
  | field hstream hname htype =>
      have hpoint := (List.suffix_cons _ _).trans hstream.suffix
      exact (htype.suffix.trans hname.suffix).trans hpoint
  | column hname htype => exact htype.suffix.trans hname.suffix
  | noArguments | noFurther => exact List.suffix_refl _
  | arguments hgap _ _ ih ihs => exact (ihs.trans ih).trans hgap.suffix
  | further hcomma hgap _ _ ih ihs =>
      have hrest := (ihs.trans ih).trans hgap.suffix
      exact hrest.trans ((List.suffix_cons _ _).trans hcomma.suffix)

end Suffixes

end Pushdown.Condition
