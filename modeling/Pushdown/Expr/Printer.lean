import Pushdown.Expr.Basic

/-!
# Text of expression trees

A tree is written in the language of conditions. Binary nodes stand in parentheses; negation,
null check and membership do not.
-/

namespace Pushdown.Expr

mutual

/-- The text of a tree. -/
def display : Expr → String
  | and l r => "(" ++ l.display ++ " and " ++ r.display ++ ")"
  | or l r => "(" ++ l.display ++ " or " ++ r.display ++ ")"
  | not e => "not " ++ e.display
  | compare l op r => "(" ++ l.display ++ " " ++ op.symbol ++ " " ++ r.display ++ ")"
  | isNull e _ => e.display ++ " is null"
  | eventNull (some stream) => stream ++ " is null"
  | eventNull none => "is null"
  | member e store => e.display ++ " in " ++ store
  | math l op r => "(" ++ l.display ++ " " ++ op.symbol ++ " " ++ r.display ++ ")"
  | constant value _ => value.display
  | call space name args =>
      (space.elim "" (· ++ ":")) ++ name ++ "(" ++ displayArgs args ++ ")"
  | parameter index type => "$" ++ toString index.toNat ++ ":" ++ type.display
  | eventField id none _ _ => id
  | eventField _ (some stream) name _ => stream ++ "." ++ name
  | column _ name _ => name

/-- The texts of the arguments, with commas between them. -/
def displayArgs : List Expr → String
  | [] => ""
  | [e] => e.display
  | e :: es => e.display ++ ", " ++ displayArgs es

end

end Pushdown.Expr
