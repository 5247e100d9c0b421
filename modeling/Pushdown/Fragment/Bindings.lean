import Pushdown.BoundValue
import Pushdown.Fragment.Token

/-!
# Values by token

A finite map from tokens to bind values. A value for a token that has one already takes its
place.
-/

namespace Pushdown

/-- The entries with a value for a token, in the place of an earlier one if there is any. -/
def insertEntry (token : Token) (value : BoundValue) :
    List (Token × BoundValue) → List (Token × BoundValue)
  | [] => [(token, value)]
  | (t, v) :: rest =>
      if t = token then (t, value) :: rest else (t, v) :: insertEntry token value rest

/-- The tokens of the entries after an insertion. -/
theorem keys_insertEntry (token : Token) (value : BoundValue)
    (entries : List (Token × BoundValue)) :
    (insertEntry token value entries).map Prod.fst =
      if token ∈ entries.map Prod.fst then entries.map Prod.fst
      else entries.map Prod.fst ++ [token] := by
  induction entries with
  | nil => simp [insertEntry]
  | cons entry rest ih =>
      obtain ⟨t, v⟩ := entry
      by_cases h : t = token
      · simp [insertEntry, h]
      · have h' : ¬ token = t := fun e => h e.symm
        simp only [insertEntry, h, if_false, List.map_cons, ih, List.mem_cons, h', false_or]
        split <;> simp

/-- Values by token, each token once. -/
structure Bindings where
  /-- The tokens and their values, in the order of insertion. -/
  entries : List (Token × BoundValue)
  /-- No token has two values. -/
  distinct : (entries.map Prod.fst).Nodup

namespace Bindings

/-- No values. -/
def empty : Bindings := ⟨[], by simp⟩

instance : Inhabited Bindings := ⟨empty⟩

/-- The tokens that have a value. -/
def tokens (b : Bindings) : List Token := b.entries.map Prod.fst

/-- The number of tokens that have a value. -/
def size (b : Bindings) : Nat := b.entries.length

/-- The value of a token. -/
def get? (b : Bindings) (token : Token) : Option BoundValue := b.entries.lookup token

/-- The bindings with a value for a token. -/
def insert (b : Bindings) (token : Token) (value : BoundValue) : Bindings where
  entries := insertEntry token value b.entries
  distinct := by
    have h := b.distinct
    rw [keys_insertEntry]
    split
    · exact h
    · rename_i hmem
      rw [List.nodup_append]
      refine ⟨h, by simp, ?_⟩
      intro a ha c hc
      simp only [List.mem_singleton] at hc
      subst hc
      exact fun e => hmem (e ▸ ha)

@[simp] theorem tokens_insert (b : Bindings) (token : Token) (value : BoundValue) :
    (b.insert token value).tokens =
      if token ∈ b.tokens then b.tokens else b.tokens ++ [token] :=
  keys_insertEntry token value b.entries

end Bindings

end Pushdown
