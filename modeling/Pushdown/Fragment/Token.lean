/-!
# Tokens

A token names a hole in the text of a fragment until the holes are numbered. Constants and
variables are counted apart.
-/

namespace Pushdown

/-- What a token stands for. -/
inductive TokenKind
  | constant
  | sourced
  deriving DecidableEq, Repr

/-- The name of a hole: its kind, and its index among the tokens of that kind. -/
structure Token where
  /-- What the token stands for. -/
  kind : TokenKind
  /-- The number of earlier tokens of the same kind. -/
  index : Nat
  deriving DecidableEq, Repr

/-- The word that the names of a kind start with. -/
def TokenKind.stem : TokenKind → String
  | constant => "const"
  | sourced => "strVar"

namespace Token

/-- The name of a token. -/
def name (t : Token) : String := t.kind.stem ++ toString t.index

/-- The name of a token in brackets. -/
def display (t : Token) : String := "[" ++ t.name ++ "]"

end Token

/-- The numbers of tokens taken so far. -/
structure TokenCounter where
  /-- The number of constant tokens. -/
  constants : Nat := 0
  /-- The number of variable tokens. -/
  sourced : Nat := 0
  deriving DecidableEq, Repr

namespace TokenCounter

/-- The next token of a kind. -/
def next (c : TokenCounter) : TokenKind → Token
  | .constant => ⟨.constant, c.constants⟩
  | .sourced => ⟨.sourced, c.sourced⟩

/-- The counter after a token of a kind was taken. -/
def advance (c : TokenCounter) : TokenKind → TokenCounter
  | .constant => { c with constants := c.constants + 1 }
  | .sourced => { c with sourced := c.sourced + 1 }

end TokenCounter

end Pushdown
