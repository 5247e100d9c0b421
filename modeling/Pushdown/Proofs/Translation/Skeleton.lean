import Pushdown.Proofs.Translation.Rendering

/-!
# Skeletons and shapes

The skeleton of a tree is the tree without its bind leaves, its declared types and the stores of
its memberships: all nodes are kept, with their operators and order and the names of columns and
functions. The shape of a tree forgets the stores of columns and the streams of null checks too,
and is all that a translation looks at.

Trees with one shape have the same outcome (`translate_of_shape_eq`). So no bind value has any
influence on the text of a fragment, and neither has its kind, although constants and other bind
values take their tokens from different counters.

## Implementation notes

A skeleton is a tree again, with one constant for all bind leaves. The rendering and the
rejection of a tree are those of its outline, so that two trees are never compared node by node.
-/

namespace Pushdown

namespace Expr

mutual

/-- The tree with its bind leaves, its declared types and the stores of its memberships blanked.
The function says what becomes of the store of a column and of the stream of a null check. -/
def outline (place : Option String → Option String) : Expr → Expr
  | and l r => and (outline place l) (outline place r)
  | or l r => or (outline place l) (outline place r)
  | not e => not (outline place e)
  | compare l op r => compare (outline place l) op (outline place r)
  | isNull e stream => isNull (outline place e) (place stream)
  | eventNull stream => eventNull (place stream)
  | member e _ => member (outline place e) ""
  | math l op r => math (outline place l) op (outline place r)
  | constant _ _ | parameter _ _ | eventField _ _ _ _ => constant .null .object
  | call space name args => call space name (outlineAll place args)
  | column store name _ => column (place store) name .object

/-- The outlines of a list of trees. -/
def outlineAll (place : Option String → Option String) : List Expr → List Expr
  | [] => []
  | e :: es => outline place e :: outlineAll place es

end

/-- What is left of a tree without its bind leaves, declared types and stores of memberships. -/
def skeleton : Expr → Expr := outline id

/-- A skeleton without the stores of columns and the streams of null checks. -/
def shape : Expr → Expr := outline fun _ => none

variable (place : Option String → Option String)

theorem leafCountAll_outlineAll {es : List Expr}
    (ih : ∀ e ∈ es, (e.outline place).leafCount = e.leafCount) :
    leafCountAll (outlineAll place es) = leafCountAll es := by
  induction es with
  | nil => rfl
  | cons e es ihs =>
      have he := ih e (by simp)
      have hes := ihs fun a ha => ih a (by simp [ha])
      simp [outlineAll, leafCountAll, he, hes]

@[simp] theorem leafCount_outline (e : Expr) : (e.outline place).leafCount = e.leafCount := by
  induction e using Expr.induct with
  | and l r ihl ihr | or l r ihl ihr | compare l op r ihl ihr | math l op r ihl ihr =>
      simp [outline, leafCount, ihl, ihr]
  | not e ih | isNull e stream ih | member e store ih => simp [outline, leafCount, ih]
  | call space name args ih => simp [outline, leafCount, leafCountAll_outlineAll place ih]
  | eventNull | constant | parameter | eventField | column => rfl

end Expr

open Pushdown.Expr

variable (place : Option String → Option String)

/-! ## What an outline decides -/

theorem wrapped_outline (e : Expr) (text : String) :
    wrapped (e.outline place) text = wrapped e text := by
  cases e <;> rfl

theorem renderArgs_outlineAll (c : Config) {es : List Expr}
    (ih : ∀ e ∈ es, ∀ k, render c (e.outline place) k = render c e k) (k : Nat) :
    renderArgs c (outlineAll place es) k = renderArgs c es k := by
  induction es generalizing k with
  | nil => rfl
  | cons e es ihs =>
      have he := ih e (by simp)
      have hes := ihs fun a ha => ih a (by simp [ha])
      cases es with
      | nil => simp [outlineAll, renderArgs, he]
      | cons e' es' =>
          rw [outlineAll] at hes
          simp [outlineAll, renderArgs, he, hes]

/-- A tree is rendered as its outline is. -/
theorem render_outline (c : Config) (e : Expr) (k : Nat) :
    render c (e.outline place) k = render c e k := by
  induction e using Expr.induct generalizing k with
  | and l r ihl ihr | or l r ihl ihr => simp [outline, render, ihl, ihr]
  | compare l op r ihl ihr | math l op r ihl ihr =>
      simp [outline, render, wrapped_outline, ihl, ihr]
  | not e ih | member e store ih => simp [outline, render, ih]
  | isNull e stream ih => simp [outline, render, wrapped_outline, ih]
  | call space name args ih => simp [outline, render, renderArgs_outlineAll place c ih]
  | eventNull | constant | parameter | eventField | column => rfl

theorem Script.rejection_parenthesized (s : Script) : s.parenthesized.rejection = s.rejection := by
  simp [Script.parenthesized, Script.rejection_append]

theorem Script.rejection_grouped (s : Script) (e : Expr) :
    (s.grouped e).rejection = s.rejection := by
  rw [Script.grouped]
  split
  · exact s.rejection_parenthesized
  · rfl

theorem Script.rejection_binary (s t : Script) (op : String) :
    (s.binary op t).rejection = s.rejection.or t.rejection := by
  simp [Script.binary, Script.rejection_parenthesized, Script.rejection_append]

theorem rejection_scriptArgs_outlineAll (c : Config) {es : List Expr}
    (ih : ∀ e ∈ es, (script c (e.outline place)).rejection = (script c e).rejection) :
    (scriptArgs c (outlineAll place es)).rejection = (scriptArgs c es).rejection := by
  induction es with
  | nil => rfl
  | cons e es ihs =>
      have he := ih e (by simp)
      have hes := ihs fun a ha => ih a (by simp [ha])
      cases es with
      | nil => simp [outlineAll, scriptArgs, he]
      | cons e' es' =>
          rw [outlineAll] at hes
          simp [outlineAll, scriptArgs_cons_cons, Script.rejection_append, he, hes]

/-- The function that ends the walk of a tree ends that of its outline. -/
theorem rejection_outline (c : Config) (e : Expr) :
    (script c (e.outline place)).rejection = (script c e).rejection := by
  induction e using Expr.induct with
  | and l r ihl ihr | or l r ihl ihr => simp [outline, script, Script.rejection_binary, ihl, ihr]
  | compare l op r ihl ihr | math l op r ihl ihr =>
      simp [outline, script, Script.rejection_binary, Script.rejection_grouped, ihl, ihr]
  | not e ih | member e store ih => simp [outline, script, Script.rejection_append, ih]
  | isNull e stream ih =>
      simp [outline, script, Script.rejection_append, Script.rejection_grouped, ih]
  | call space name args ih =>
      by_cases h : space.getD "" = ""
      · simp [outline, script, h, Script.rejection_append,
          rejection_scriptArgs_outlineAll place c ih]
      · simp [outline, script, h]
  | eventNull | constant | parameter | eventField | column => rfl

/-- A walk that is rejected is the failure of the translation. -/
theorem translate_of_rejection {c : Config} {e : Expr} {space function : String}
    (h : (script c e).rejection = some (space, function)) :
    translate e c = .error (.rejected space function) := by
  simp [translate, translateLogged, Translator.visit, Translator.note, walk_eq_run, Script.run, h]

/-! ## Two translations -/

/-- Trees that differ only in their bind leaves, which may be of any kind and hold anything, in
declared types, in stores and in streams have the same outcome: fragments with one text and
equally many bind values, or the rejection of the same function. -/
theorem translate_of_shape_eq (c : Config) {e₁ e₂ : Expr} (h : e₁.shape = e₂.shape) :
    (∃ f₁ f₂, translate e₁ c = .ok f₁ ∧ translate e₂ c = .ok f₂ ∧ f₁.sql = f₂.sql ∧
        f₁.parameters.length = f₂.parameters.length) ∨
      ∃ space function, translate e₁ c = .error (.rejected space function) ∧
        translate e₂ c = .error (.rejected space function) := by
  have hrejection : (script c e₁).rejection = (script c e₂).rejection := by
    calc (script c e₁).rejection = (script c e₁.shape).rejection := (rejection_outline _ c e₁).symm
      _ = (script c e₂.shape).rejection := by rw [h]
      _ = (script c e₂).rejection := rejection_outline _ c e₂
  have hrender : render c e₁ 0 = render c e₂ 0 := by
    calc render c e₁ 0 = render c e₁.shape 0 := (render_outline _ c e₁ 0).symm
      _ = render c e₂.shape 0 := by rw [h]
      _ = render c e₂ 0 := render_outline _ c e₂ 0
  have hcount : e₁.leafCount = e₂.leafCount := by
    calc e₁.leafCount = e₁.shape.leafCount := (leafCount_outline _ e₁).symm
      _ = e₂.shape.leafCount := by rw [h]
      _ = e₂.leafCount := leafCount_outline _ e₂
  cases hcause : (script c e₁).rejection with
  | some cause =>
      obtain ⟨space, function⟩ := cause
      rw [hcause] at hrejection
      exact .inr ⟨space, function, translate_of_rejection hcause,
        translate_of_rejection hrejection.symm⟩
  | none =>
      rw [hcause] at hrejection
      have hplain₁ := (script_rejection_eq_none c e₁).mp hcause
      have hplain₂ := (script_rejection_eq_none c e₂).mp hrejection.symm
      refine .inl ⟨_, _, translate_of_isPlain c hplain₁, translate_of_isPlain c hplain₂, ?_, ?_⟩
      · rw [hrender]
      · rw [length_leaves, length_leaves, hcount]

/-- A constant, a parameter and a field of an event, in this order. -/
def mixedLeaves : Expr :=
  .compare (.math (.constant (.int 1) .int) .add (.parameter 0 .long)) .eq
    (.call none "f" [.eventField "S.x" (some "S") "x" .double, .column none "y" .object])

/-- The same tree with leaves of other kinds, one of them a text that looks like a statement. -/
def swappedLeaves : Expr :=
  .compare (.math (.parameter 7 .object) .add (.constant (.string "' OR 1 = 1 --") .string)) .eq
    (.call none "f" [.constant .null .bool, .column (some "Stock") "y" .long])

theorem translate_swappedLeaves :
    mixedLeaves.shape = swappedLeaves.shape ∧
      ∃ f₁ f₂, translate mixedLeaves { dialect := .oracle } = .ok f₁ ∧
        translate swappedLeaves { dialect := .oracle } = .ok f₂ ∧ f₁.sql = f₂.sql ∧
        f₁.parameters.length = f₂.parameters.length ∧
        f₂.sql = "((:1 + :2 )= f (:3 , t.y ) )" := by
  have hsame : mixedLeaves.shape = swappedLeaves.shape := by decide
  have hswapped := translate_of_isPlain { dialect := .oracle } (e := swappedLeaves) (by decide)
  refine ⟨hsame, ?_⟩
  rcases translate_of_shape_eq { dialect := .oracle } hsame with
    ⟨f₁, f₂, h₁, h₂, hsql, hlength⟩ | ⟨space, function, -, h₂⟩
  · refine ⟨f₁, f₂, h₁, h₂, hsql, hlength, ?_⟩
    obtain rfl := Except.ok.inj (h₂.symm.trans hswapped)
    decide +kernel
  · rw [hswapped] at h₂
    exact absurd h₂ (by simp)

end Pushdown
