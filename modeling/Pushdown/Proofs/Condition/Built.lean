import Pushdown.Condition.Parse
import Pushdown.Proofs.Condition.Lexemes

/-!
# Trees that the readers build

`Built n e` says how a tree looks that is read with room for `n` calls inside each other: all
names are names, constants and fields are the ones their texts stand for, and at most `n` calls
are nested. Every condition that is parsed is built with the room of the nesting limit
(`built_of_parse`).

## Implementation notes

What a reader gives is stated of its outcome (`Outcome.Holds`), so that alternatives and
sequences of readers compose without looking at what is left of the text.
-/

namespace Pushdown.Condition

open Text Number

/-! ## Trees with room for calls -/

/-- The value of a literal: a string lacks one of the two quotes. -/
def IsLiteral : Value → Prop
  | .string s => '\x27' ∉ s.toList ∨ '"' ∉ s.toList
  | _ => True

/-- The tree is one that is read with room for so many calls inside each other. -/
inductive Built : Nat → Expr → Prop
  /-- Both parts of a conjunction have the same room. -/
  | and {n : Nat} {l r : Expr} (hl : Built n l) (hr : Built n r) : Built n (.and l r)
  /-- Both alternatives have the same room. -/
  | or {n : Nat} {l r : Expr} (hl : Built n l) (hr : Built n r) : Built n (.or l r)
  /-- A negated tree. -/
  | not {n : Nat} {e : Expr} (h : Built n e) : Built n (.not e)
  /-- A comparison. -/
  | compare {n : Nat} {l r : Expr} (op : CompareOp) (hl : Built n l) (hr : Built n r) :
      Built n (.compare l op r)
  /-- A null check, without a stream beside it. -/
  | isNull {n : Nat} {e : Expr} (h : Built n e) : Built n (.isNull e none)
  /-- A membership in a store that has a name. -/
  | member {n : Nat} {e : Expr} {store : List Char} (h : Built n e)
      (hstore : isName store = true) : Built n (.member e (String.ofList store))
  /-- An arithmetic operation. -/
  | math {n : Nat} {l r : Expr} (op : MathOp) (hl : Built n l) (hr : Built n r) :
      Built n (.math l op r)
  /-- A constant with its natural type. -/
  | literal {n : Nat} {value : Value} (h : IsLiteral value) : Built n (.literal value)
  /-- A call, whose arguments have less room. -/
  | call {n : Nat} {space : Option (List Char)} {function : List Char} {args : List Expr}
      (hspace : ∀ w ∈ space, isName w = true) (hfunction : isName function = true)
      (hargs : ∀ a ∈ args, Built n a) :
      Built (n + 1) (.call (space.map String.ofList) (String.ofList function) args)
  /-- A parameter. -/
  | parameter {n : Nat} (index : UInt64) (type : AttrType) : Built n (.parameter index type)
  /-- A field of a stream event, identified by both names. -/
  | field {n : Nat} {stream name : List Char} (hstream : isName stream = true)
      (hname : isName name = true) (type : AttrType) :
      Built n (.streamField (String.ofList stream) (String.ofList name) type)
  /-- A column. -/
  | column {n : Nat} {name : List Char} (hname : isName name = true) (type : AttrType) :
      Built n (.column none (String.ofList name) type)

/-- More room does not hurt. -/
theorem Built.mono {n m : Nat} {e : Expr} (h : Built n e) (hle : n ≤ m) : Built m e := by
  induction h generalizing m with
  | and _ _ ihl ihr => exact .and (ihl hle) (ihr hle)
  | or _ _ ihl ihr => exact .or (ihl hle) (ihr hle)
  | not _ ih => exact .not (ih hle)
  | compare op _ _ ihl ihr => exact .compare op (ihl hle) (ihr hle)
  | isNull _ ih => exact .isNull (ih hle)
  | member _ hstore ih => exact .member (ih hle) hstore
  | math op _ _ ihl ihr => exact .math op (ihl hle) (ihr hle)
  | literal hvalue => exact .literal hvalue
  | @call n space function args hspace hfunction _ ih =>
      cases m with
      | zero => omega
      | succ m => exact .call hspace hfunction fun a ha => ih a ha (by omega)
  | parameter index type => exact .parameter index type
  | field hstream hname type => exact .field hstream hname type
  | column hname type => exact .column hname type

/-! ## What an outcome holds -/

variable {α β : Type} {P : α → Prop} {Q : β → Prop}

/-- The value of the outcome, if there is one, satisfies the predicate. -/
def Outcome.Holds (P : α → Prop) : Outcome α → Prop
  | .ok value _ => P value
  | .miss _ _ | .fail _ _ => True

namespace Outcome

theorem Holds.imp {o : Outcome α} {R : α → Prop} (h : o.Holds P) (himp : ∀ a, P a → R a) :
    o.Holds R := by
  cases o with
  | ok value rest => exact himp value h
  | miss cause here => trivial
  | fail cause here => trivial

theorem Holds.orElse {first : Outcome α} {second : Unit → Outcome α} (h : first.Holds P)
    (hsecond : (second ()).Holds P) : (first.orElse second).Holds P := by
  cases first with
  | ok value rest => exact h
  | miss cause here => exact hsecond
  | fail cause here => trivial

theorem Holds.andThen {first : Outcome α} {next : α → List Char → Outcome β}
    (h : first.Holds P) (hnext : ∀ value rest, P value → (next value rest).Holds Q) :
    (first.andThen next).Holds Q := by
  cases first with
  | ok value rest => exact hnext value rest h
  | miss cause here => trivial
  | fail cause here => trivial

theorem Holds.map {first : Outcome α} {f : α → β} (h : first.Holds fun a => Q (f a)) :
    (first.map f).Holds Q :=
  h.andThen fun _ _ hvalue => hvalue

theorem holds_ofOption {missed : Miss × List Char} {found : Option (α × List Char)}
    (h : ∀ value rest, found = some (value, rest) → P value) : (ofOption missed found).Holds P := by
  cases found with
  | none => trivial
  | some pair => exact h pair.1 pair.2 rfl

end Outcome

/-- Whatever the reader gives satisfies the predicate. -/
def Gives (reader : Reader α) (P : α → Prop) : Prop := ∀ s, (reader s).Holds P

/-! ## Lists folded to the left -/

section Chains

variable {op : Lexer (α → α → α)} {item : Reader α}

/-- The operators of a list keep the predicate. -/
def Keeps (op : Lexer (α → α → α)) (P : α → Prop) : Prop :=
  ∀ s f rest, op s = some (f, rest) → ∀ a b, P a → P b → P (f a b)

theorem holds_chainTail (hop : Keeps op P) (hitem : Gives item P) {acc : α} (hacc : P acc)
    (s : List Char) : (chainTail op item acc s).Holds P := by
  fun_induction chainTail op item acc s with
  | case1 acc s hnone => exact hacc
  | case2 acc s f afterOp hsome value rest hread hlen ih =>
      have hvalue := hitem afterOp
      rw [hread] at hvalue
      exact ih (hop s f afterOp hsome acc value hacc hvalue)
  | case3 acc s f afterOp hsome value rest hread hlen => trivial
  | case4 acc s f afterOp hsome cause here hread => exact hacc
  | case5 acc s f afterOp hsome cause here hread => trivial

/-- A list gives what its items give, if its operators keep it. -/
theorem gives_chain (hop : Keeps op P) (hitem : Gives item P) : Gives (chain op item) P :=
  fun s => (hitem s).andThen fun _ rest hvalue => holds_chainTail hop hitem hvalue rest

end Chains

/-! ## Operands -/

variable {nested : Reader Expr} {n : Nat} {s rest w : List Char}

theorem isName_of_name (h : name s = some (w, rest)) : isName w = true := by
  cases s with
  | nil => simp [name] at h
  | cons c s =>
      simp only [name] at h
      split at h
      · rename_i hstart
        split at h
        · simp at h
        · rename_i hfree
          simp only [Option.some.injEq, Prod.mk.injEq] at h
          obtain ⟨rfl, -⟩ := h
          have hchars : (s.takeWhile isNameChar).all isNameChar = true := List.all_takeWhile
          simp [isName, hstart, hchars, hfree]
      · simp at h

theorem not_mem_of_quotedBy {quote : Char} (h : quotedBy quote s = some (w, rest)) :
    quote ∉ w := by
  simp only [quotedBy, Option.bind_eq_some_iff, Option.map_eq_some_iff, Prod.mk.injEq] at h
  obtain ⟨body, -, after, -, rfl, -⟩ := h
  have hall : (body.takeWhile (· != quote)).all (· != quote) = true := List.all_takeWhile
  intro hmem
  simpa using List.all_eq_true.mp hall quote hmem

theorem isLiteral_of_quoted (h : quoted s = some (w, rest)) :
    IsLiteral (.string (String.ofList w)) := by
  simp only [IsLiteral, String.toList_ofList]
  rw [quoted, Option.or_eq_some_iff] at h
  rcases h with h | ⟨-, h⟩
  · exact Or.inl (not_mem_of_quotedBy h)
  · exact Or.inr (not_mem_of_quotedBy h)

/-- A number is no string. -/
theorem isLiteral_of_value? {l : Literal} {value : Value} (h : l.value? = some value) :
    IsLiteral value := by
  cases value with
  | string text =>
      obtain ⟨negative, whole, fraction, mark⟩ := l
      rcases mark with _ | _ | _ | _ <;> cases fraction <;>
        simp [Literal.value?, Option.or_eq_some_iff] at h
  | _ => trivial

/-- The room inside a reader of nested conditions: it gives trees with less room, and where there
is none it always fails. -/
structure Room (nested : Reader Expr) (n : Nat) : Prop where
  /-- What is read has less room. -/
  gives : Gives nested fun e => ∃ m, n = m + 1 ∧ Built m e
  /-- Without room nothing is read or missed. -/
  fails : n = 0 → ∀ s, ∃ cause here, nested s = .fail cause here

theorem Room.built (h : Room nested n) : Gives nested (Built n) := by
  intro s
  refine (h.gives s).imp ?_
  rintro e ⟨m, rfl, he⟩
  exact he.mono (by omega)

theorem holds_group (h : Gives nested (Built n)) (s : List Char) :
    (group nested s).Holds (Built n) := by
  rw [group]
  split
  · trivial
  · rename_i inside _
    refine (h inside).andThen fun e rest he => ?_
    split
    · exact he
    · trivial

theorem holds_number (s : List Char) : (number s).Holds (Built n) := by
  rw [number]
  split
  · trivial
  · split
    · rename_i value hvalue
      exact .literal (isLiteral_of_value? hvalue)
    · trivial

theorem holds_text (s : List Char) : (text s).Holds (Built n) := by
  apply Outcome.holds_ofOption
  intro e rest h
  simp only [Option.map_eq_some_iff, Prod.mk.injEq, Prod.exists] at h
  obtain ⟨w, rest, hquoted, rfl, rfl⟩ := h
  exact .literal (isLiteral_of_quoted hquoted)

theorem holds_wordConstant (word : List Char) (value : Value) (hvalue : IsLiteral value)
    (s : List Char) : (wordConstant word value s).Holds (Built n) := by
  apply Outcome.holds_ofOption
  intro e rest h
  simp only [Option.map_eq_some_iff, Prod.mk.injEq] at h
  obtain ⟨rest, -, rfl, rfl⟩ := h
  exact .literal hvalue

theorem holds_parameter (s : List Char) : (parameter s).Holds (Built n) := by
  apply Outcome.holds_ofOption
  intro e rest h
  simp only [Option.bind_eq_some_iff, Option.map_eq_some_iff, Prod.mk.injEq] at h
  obtain ⟨afterSign, -, ds, -, index, -, rfl, -⟩ := h
  exact .parameter index _

theorem holds_field (s : List Char) : (field s).Holds (Built n) := by
  apply Outcome.holds_ofOption
  intro e rest h
  simp only [Option.bind_eq_some_iff, Option.map_eq_some_iff, Prod.mk.injEq, Prod.exists] at h
  obtain ⟨stream, afterStream, hstream, afterPoint, -, attr, afterAttr, hattr, rfl, -⟩ := h
  exact .field (isName_of_name hstream) (isName_of_name hattr) _

theorem holds_column (s : List Char) : (column s).Holds (Built n) := by
  rw [column]
  split
  · trivial
  · rename_i attr rest hattr
    exact .column (isName_of_name hattr) _

/-! ## Calls -/

theorem isName_of_callHead {space : Option (List Char)} {function : List Char}
    (h : callHead s = some ((space, function), rest)) :
    (∀ w ∈ space, isName w = true) ∧ isName function = true := by
  simp only [callHead, Option.bind_eq_some_iff, Prod.exists] at h
  obtain ⟨first, afterFirst, hfirst, h⟩ := h
  split at h
  · simp only [Option.map_eq_some_iff, Prod.mk.injEq, Prod.exists] at h
    obtain ⟨second, afterSecond, hsecond, ⟨rfl, rfl⟩, -⟩ := h
    exact ⟨by simpa using isName_of_name hfirst, isName_of_name hsecond⟩
  · simp only [Option.some.injEq, Prod.mk.injEq] at h
    obtain ⟨⟨rfl, rfl⟩, -⟩ := h
    exact ⟨by simp, isName_of_name hfirst⟩

theorem holds_moreArguments {P : Expr → Prop} (h : Gives nested P) (s : List Char) :
    (moreArguments nested s).Holds fun es => ∀ e ∈ es, P e := by
  fun_induction moreArguments nested s with
  | case1 s hnone => simp [Outcome.Holds]
  | case2 s afterComma hcomma e rest hread hlen ih =>
      have he := h afterComma
      rw [hread] at he
      exact .map (ih.imp fun es hes => by simpa using ⟨he, hes⟩)
  | case3 s afterComma hcomma e rest hread hlen => trivial
  | case4 s afterComma hcomma cause here hread => simp [Outcome.Holds]
  | case5 s afterComma hcomma cause here hread => trivial

theorem holds_arguments {P : Expr → Prop} (h : Gives nested P) (s : List Char) :
    (arguments nested s).Holds fun es => ∀ e ∈ es, P e := by
  rw [arguments]
  split
  · rename_i e rest hread
    have he := h s
    rw [hread] at he
    exact .map ((holds_moreArguments h rest).imp fun es hes => by simpa using ⟨he, hes⟩)
  · simp [Outcome.Holds]
  · trivial

/-- A call takes one level of the room, even without arguments. -/
theorem holds_call (h : Room nested n) (s : List Char) : (call nested s).Holds (Built n) := by
  rw [call]
  split
  · trivial
  · rename_i space function afterHead hhead
    obtain ⟨hspace, hfunction⟩ := isName_of_callHead hhead
    split
    · trivial
    · rename_i inside _
      cases n with
      | zero =>
          obtain ⟨cause, here, hfail⟩ := h.fails rfl inside
          simp [arguments, hfail, Outcome.Holds]
      | succ n =>
          refine (holds_arguments h.gives inside).andThen fun args rest hargs => ?_
          split
          · refine .call hspace hfunction fun a ha => ?_
            obtain ⟨m, hm, hbuilt⟩ := hargs a ha
            obtain rfl : n = m := by omega
            exact hbuilt
          · trivial

/-- An operand is built with the room that its nested conditions leave. -/
theorem gives_operand (h : Room nested n) : Gives (operand nested) (Built n) := by
  intro s
  rw [operand, bareOperand]
  refine (holds_group h.built _).orElse ?_
  refine (holds_number _).orElse ?_
  refine (holds_text _).orElse ?_
  refine (holds_wordConstant _ (.bool true) trivial _).orElse ?_
  refine (holds_wordConstant _ (.bool false) trivial _).orElse ?_
  refine (holds_wordConstant _ .null trivial _).orElse ?_
  refine (holds_parameter _).orElse ?_
  refine (holds_call h _).orElse ?_
  exact (holds_field _).orElse (holds_column _)

/-! ## Levels -/

theorem keeps_mathBetween (signs : List (List Char × MathOp)) :
    Keeps (mathBetween signs) (Built n) := by
  intro s f rest h a b ha hb
  simp only [mathBetween, Option.map_eq_some_iff, Prod.mk.injEq, Prod.exists] at h
  obtain ⟨op, rest, -, rfl, rfl⟩ := h
  exact .math op ha hb

theorem keeps_wordBetween (word : List Char) {node : Expr → Expr → Expr}
    (hnode : ∀ a b, Built n a → Built n b → Built n (node a b)) :
    Keeps (wordBetween word node) (Built n) := by
  intro s f rest h a b ha hb
  simp only [wordBetween, Option.map_eq_some_iff, Prod.mk.injEq] at h
  obtain ⟨rest, -, rfl, rfl⟩ := h
  exact hnode a b ha hb

theorem gives_sum (h : Room nested n) : Gives (sum nested) (Built n) :=
  gives_chain (keeps_mathBetween sumSigns)
    (gives_chain (keeps_mathBetween productSigns) (gives_operand h))

theorem gives_comparison (h : Room nested n) : Gives (comparison nested) (Built n) := by
  intro s
  refine (gives_sum h s).andThen fun left rest hleft => ?_
  split
  · exact hleft
  · rename_i op afterOp _
    have hright := gives_sum h afterOp
    split
    · rename_i right rest hread
      rw [hread] at hright
      exact .compare op hleft hright
    · exact hleft
    · trivial

/-- A suffix makes a node of a tree and keeps its room. -/
theorem built_suffix {found : Suffix} (h : suffix s = some (found, rest)) {e : Expr}
    (he : Built n e) : Built n (found.apply e) := by
  rw [suffix, Option.or_eq_some_iff, Option.or_eq_some_iff] at h
  rcases h with h | ⟨-, h | ⟨-, h⟩⟩
  · simp only [Option.map_eq_some_iff, Prod.mk.injEq] at h
    obtain ⟨rest, -, rfl, rfl⟩ := h
    exact .not (.isNull he)
  · simp only [Option.map_eq_some_iff, Prod.mk.injEq] at h
    obtain ⟨rest, -, rfl, rfl⟩ := h
    exact .isNull he
  · simp only [Option.map_eq_some_iff, Option.bind_eq_some_iff, Prod.mk.injEq, Prod.exists] at h
    obtain ⟨store, rest, ⟨afterWord, -, hstore⟩, rfl, rfl⟩ := h
    exact .member he (isName_of_name hstore)

theorem gives_predicate (h : Room nested n) : Gives (predicate nested) (Built n) := by
  intro s
  refine (gives_comparison h s).andThen fun e rest he => ?_
  split
  · rename_i found rest hsuffix
    exact built_suffix hsuffix he
  · exact he

theorem gives_alternatives {item : Reader Expr} (h : Gives item (Built n)) :
    Gives (alternatives item) (Built n) :=
  gives_chain (keeps_wordBetween _ fun _ _ => .or)
    (gives_chain (keeps_wordBetween _ fun _ _ => .and) h)

/-- A term has the room of its negated term and of its nested conditions. -/
theorem gives_term_succ {budget : Nat} (hnot : Gives (term budget) (Built n))
    (hroom : Room (alternatives (term budget)) n) : Gives (term (budget + 1)) (Built n) := by
  intro s
  rw [term]
  refine .orElse (.andThen (P := fun _ => True) ?_ fun _ rest _ => ?_) (gives_predicate hroom s)
  · exact Outcome.holds_ofOption fun _ _ _ => trivial
  · exact .map ((hnot rest).imp fun e he => .not he)

/-- A term within a budget leaves room for one level less. -/
theorem gives_term (budget : Nat) : Gives (term (budget + 1)) (Built budget) := by
  induction budget with
  | zero =>
      have hfails : ∀ s, alternatives (term 0) s = .fail .tooDeep s := fun s => rfl
      refine gives_term_succ (fun s => trivial) ⟨fun s => ?_, fun _ s => ⟨_, _, hfails s⟩⟩
      rw [hfails]
      trivial
  | succ budget ih =>
      refine gives_term_succ (fun s => (ih s).imp fun e he => he.mono (by omega)) ⟨fun s => ?_, ?_⟩
      · exact (gives_alternatives ih s).imp fun e he => ⟨budget, rfl, he⟩
      · intro hzero
        omega

/-- A parsed text is a condition and blanks behind it. -/
theorem condition_of_parse {text : String} {e : Expr} (h : parse text = .ok e) :
    ∃ rest, condition (trim text.toList) = .ok e rest ∧ trimStart rest = [] := by
  simp only [parse, parseChars] at h
  split at h
  · simp at h
  · split at h
    · rename_i value rest hread
      split at h
      · rename_i hempty
        obtain rfl := Except.ok.inj h
        exact ⟨rest, hread, List.isEmpty_iff.mp hempty⟩
      · simp at h
    · simp at h
    · simp at h

/-- Every parsed condition is built with room for as many calls as the nesting limit. -/
theorem built_of_parse {text : String} {e : Expr} (h : parse text = .ok e) :
    Built nestingLimit e := by
  obtain ⟨rest, hread, -⟩ := condition_of_parse h
  have hgives := gives_alternatives (gives_term nestingLimit) (trim text.toList)
  rw [condition] at hread
  rw [hread] at hgives
  exact hgives

end Pushdown.Condition
