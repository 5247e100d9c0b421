import Pushdown.Expr.Basic

/-!
# Trees: induction, bind leaves, name spaces

Arguments of a call are a list, so induction on a tree needs the hypothesis for every member of
that list. The principle below states it with membership, which keeps the list functions on
arguments apart from the functions on trees.

The bind leaves are listed from left to right. They are what a fragment binds, whatever way the
tree is walked.
-/

namespace Pushdown.Expr

/-- Induction on trees, with the hypothesis for every argument of a call. -/
@[elab_as_elim]
theorem induct {motive : Expr → Prop}
    (and : ∀ l r, motive l → motive r → motive (.and l r))
    (or : ∀ l r, motive l → motive r → motive (.or l r))
    (not : ∀ e, motive e → motive (.not e))
    (compare : ∀ l op r, motive l → motive r → motive (.compare l op r))
    (isNull : ∀ e stream, motive e → motive (.isNull e stream))
    (eventNull : ∀ stream, motive (.eventNull stream))
    (member : ∀ e store, motive e → motive (.member e store))
    (math : ∀ l op r, motive l → motive r → motive (.math l op r))
    (constant : ∀ value type, motive (.constant value type))
    (call : ∀ space name args, (∀ a ∈ args, motive a) → motive (.call space name args))
    (parameter : ∀ index type, motive (.parameter index type))
    (eventField : ∀ id stream name type, motive (.eventField id stream name type))
    (column : ∀ store name type, motive (.column store name type))
    (e : Expr) : motive e :=
  @Expr.rec motive (fun args => ∀ a ∈ args, motive a)
    and or not compare isNull eventNull member math constant call parameter eventField column
    (by simp) (fun _ _ hhead htail => by simpa using ⟨hhead, htail⟩) e

/-! ## Bind leaves -/

mutual

/-- The bind values of a tree, from left to right. -/
def leaves : Expr → List BoundValue
  | and l r => leaves l ++ leaves r
  | or l r => leaves l ++ leaves r
  | not e => leaves e
  | compare l _ r => leaves l ++ leaves r
  | isNull e _ => leaves e
  | eventNull _ => []
  | member e _ => leaves e
  | math l _ r => leaves l ++ leaves r
  | constant value type => [.constant value type]
  | call _ _ args => leavesAll args
  | parameter index type => [.sourced (.parameter index) type]
  | eventField id _ _ type => [.sourced (.stream id) type]
  | column _ _ _ => []

/-- The bind values of a list of trees, from left to right. -/
def leavesAll : List Expr → List BoundValue
  | [] => []
  | e :: es => leaves e ++ leavesAll es

end

theorem leavesAll_eq_flatMap (es : List Expr) : leavesAll es = es.flatMap leaves := by
  induction es with
  | nil => rfl
  | cons e es ih => simp [leavesAll, ih]

theorem length_leavesAll {es : List Expr} (h : ∀ e ∈ es, e.leaves.length = e.leafCount) :
    (leavesAll es).length = leafCountAll es := by
  induction es with
  | nil => rfl
  | cons e es ih =>
      have he := h e (by simp)
      have hes := ih fun a ha => h a (by simp [ha])
      simp [leavesAll, leafCountAll, he, hes]

/-- The count of bind leaves is the length of their list. -/
@[simp] theorem length_leaves (e : Expr) : e.leaves.length = e.leafCount := by
  induction e using Expr.induct with
  | and l r ihl ihr | or l r ihl ihr => simp [leaves, leafCount, ihl, ihr]
  | compare l op r ihl ihr | math l op r ihl ihr => simp [leaves, leafCount, ihl, ihr]
  | not e ih => simp [leaves, leafCount, ih]
  | isNull e stream ih => simp [leaves, leafCount, ih]
  | member e store ih => simp [leaves, leafCount, ih]
  | call space name args ih =>
      rw [leaves, leafCount]
      exact length_leavesAll ih
  | eventNull | constant | parameter | eventField | column => simp [leaves, leafCount]

/-! ## Name spaces -/

mutual

/-- No call in the tree has a name space. An empty name space counts as none. -/
def isPlain : Expr → Bool
  | and l r => isPlain l && isPlain r
  | or l r => isPlain l && isPlain r
  | not e => isPlain e
  | compare l _ r => isPlain l && isPlain r
  | isNull e _ => isPlain e
  | eventNull _ => true
  | member e _ => isPlain e
  | math l _ r => isPlain l && isPlain r
  | constant _ _ => true
  | call space _ args => (space == none || space == some "") && allPlain args
  | parameter _ _ => true
  | eventField _ _ _ _ => true
  | column _ _ _ => true

/-- No call in the trees has a name space. -/
def allPlain : List Expr → Bool
  | [] => true
  | e :: es => isPlain e && allPlain es

end

theorem allPlain_iff (es : List Expr) : allPlain es = true ↔ ∀ e ∈ es, e.isPlain = true := by
  induction es with
  | nil => simp [allPlain]
  | cons e es ih => simp [allPlain, ih]

end Pushdown.Expr
