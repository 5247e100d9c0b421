import Pushdown.BoundValue
import Pushdown.Operator

/-!
# Expression trees

A filter condition as a tree. Its leaves are columns of the store that is queried, and the bind
leaves: constants, query parameters and attributes of the matching stream event.

Equality of trees is decided by `Expr.same`, one walk over both trees.
-/

namespace Pushdown

/-- A node of a filter condition. -/
inductive Expr
  /-- Both operands hold. -/
  | and (left right : Expr)
  /-- One of the operands holds. -/
  | or (left right : Expr)
  /-- The operand does not hold. -/
  | not (operand : Expr)
  /-- A comparison of two operands. -/
  | compare (left : Expr) (op : CompareOp) (right : Expr)
  /-- The operand is null. A stream may be noted beside it. -/
  | isNull (operand : Expr) (stream : Option String)
  /-- The whole event of a stream is null. -/
  | eventNull (stream : Option String)
  /-- The operand is a member of another store. -/
  | member (operand : Expr) (store : String)
  /-- An arithmetic operation on two operands. -/
  | math (left : Expr) (op : MathOp) (right : Expr)
  /-- A constant with its declared type. -/
  | constant (value : Value) (type : AttrType)
  /-- A function applied to arguments. -/
  | call (space : Option String) (name : String) (args : List Expr)
  /-- A parameter of the enclosing query. -/
  | parameter (index : UInt64) (type : AttrType)
  /-- An attribute of the matching stream event. -/
  | eventField (id : String) (stream : Option String) (name : String) (type : AttrType)
  /-- A column of the store that is queried. -/
  | column (store : Option String) (name : String) (type : AttrType)

namespace Expr

instance : Inhabited Expr := ⟨.constant .null .object⟩

mutual

/-- The two trees are equal. -/
def same : Expr → Expr → Bool
  | and l r, and l' r' => same l l' && same r r'
  | or l r, or l' r' => same l l' && same r r'
  | not e, not e' => same e e'
  | compare l o r, compare l' o' r' => same l l' && o == o' && same r r'
  | isNull e s, isNull e' s' => same e e' && s == s'
  | eventNull s, eventNull s' => s == s'
  | member e s, member e' s' => same e e' && s == s'
  | math l o r, math l' o' r' => same l l' && o == o' && same r r'
  | constant v t, constant v' t' => v == v' && t == t'
  | call s n es, call s' n' es' => s == s' && n == n' && sameAll es es'
  | parameter i t, parameter i' t' => i == i' && t == t'
  | eventField i s n t, eventField i' s' n' t' => i == i' && s == s' && n == n' && t == t'
  | column s n t, column s' n' t' => s == s' && n == n' && t == t'
  | _, _ => false

/-- The two lists of trees are equal. -/
def sameAll : List Expr → List Expr → Bool
  | [], [] => true
  | e :: es, e' :: es' => same e e' && sameAll es es'
  | _, _ => false

end

mutual

/-- `same` decides equality. -/
theorem same_iff (a b : Expr) : same a b = true ↔ a = b := by
  match a with
  | and l r => cases b <;> simp [same, same_iff l, same_iff r]
  | or l r => cases b <;> simp [same, same_iff l, same_iff r]
  | not e => cases b <;> simp [same, same_iff e]
  | compare l o r => cases b <;> simp [same, same_iff l, same_iff r, and_assoc]
  | isNull e s => cases b <;> simp [same, same_iff e]
  | eventNull s => cases b <;> simp [same]
  | member e s => cases b <;> simp [same, same_iff e]
  | math l o r => cases b <;> simp [same, same_iff l, same_iff r, and_assoc]
  | constant v t => cases b <;> simp [same]
  | call s n es => cases b <;> simp [same, sameAll_iff es, and_assoc]
  | parameter i t => cases b <;> simp [same]
  | eventField i s n t => cases b <;> simp [same, and_assoc]
  | column s n t => cases b <;> simp [same, and_assoc]

/-- `sameAll` decides equality. -/
theorem sameAll_iff (as bs : List Expr) : sameAll as bs = true ↔ as = bs := by
  match as, bs with
  | [], [] => simp [sameAll]
  | [], _ :: _ => simp [sameAll]
  | _ :: _, [] => simp [sameAll]
  | a :: as, b :: bs => simp [sameAll, same_iff a b, sameAll_iff as bs]

end

instance : DecidableEq Expr := fun a b => decidable_of_iff _ (same_iff a b)

/-! ## Common nodes -/

/-- A constant declared with its natural type. -/
def literal (value : Value) : Expr := constant value value.naturalType

/-- The attribute `name` of an event of `stream`, identified by both names. -/
def streamField (stream name : String) (type : AttrType) : Expr :=
  eventField (stream ++ "." ++ name) (some stream) name type

/-! ## Bind leaves -/

mutual

/-- The number of leaves that become bind values. -/
def leafCount : Expr → Nat
  | and l r => leafCount l + leafCount r
  | or l r => leafCount l + leafCount r
  | not e => leafCount e
  | compare l _ r => leafCount l + leafCount r
  | isNull e _ => leafCount e
  | eventNull _ => 0
  | member e _ => leafCount e
  | math l _ r => leafCount l + leafCount r
  | constant _ _ => 1
  | call _ _ args => leafCountAll args
  | parameter _ _ => 1
  | eventField _ _ _ _ => 1
  | column _ _ _ => 0

/-- The number of leaves of a list of trees that become bind values. -/
def leafCountAll : List Expr → Nat
  | [] => 0
  | e :: es => leafCount e + leafCountAll es

end

end Expr

end Pushdown
