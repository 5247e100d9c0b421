/-!
# Sets of characters given by spans of code points

A property of characters is stored as an ascending list of closed spans of code points.
Membership walks the list and stops at the first span that starts beyond the code point.
-/

namespace Pushdown.Text

/-- A closed span of code points. -/
structure Span where
  /-- The least code point of the span. -/
  first : Nat
  /-- The greatest code point of the span. -/
  last : Nat
  deriving DecidableEq, Repr

/-- The code point lies in the span. -/
def Span.Holds (s : Span) (n : Nat) : Prop := s.first ≤ n ∧ n ≤ s.last

instance (s : Span) (n : Nat) : Decidable (s.Holds n) := inferInstanceAs (Decidable (_ ∧ _))

/-- Membership of a code point in an ascending list of spans. -/
def inSpans (n : Nat) : List Span → Bool
  | [] => false
  | s :: rest => if n < s.first then false else if n ≤ s.last then true else inSpans n rest

/-- What the walk accepts lies in one of the spans. -/
theorem exists_span_of_inSpans {n : Nat} {spans : List Span} (h : inSpans n spans = true) :
    ∃ s ∈ spans, s.Holds n := by
  induction spans with
  | nil => simp [inSpans] at h
  | cons s rest ih =>
      simp only [inSpans] at h
      split at h
      · simp at h
      · rename_i hfirst
        split at h
        · rename_i hlast
          exact ⟨s, by simp, by omega, hlast⟩
        · obtain ⟨t, ht, hn⟩ := ih h
          exact ⟨t, by simp [ht], hn⟩

end Pushdown.Text
