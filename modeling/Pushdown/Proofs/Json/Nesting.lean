import Pushdown.Proofs.Json.Reading

/-!
# The nesting of documents

How deep a text nests is read off its brackets from the left, without those inside strings. For the
compact text of a document it is the depth of the document (`bracketDepth_compact`), which is what
a decoder pays for.
-/

namespace Pushdown.Json

open Condition (minus toList_toString)

mutual

/-- The most brackets that are open at once in a document. -/
def nesting : Json → Nat
  | null => 0
  | bool _ => 0
  | number _ => 0
  | string _ => 0
  | array items => nestingItems items + 1
  | object members => nestingMembers members + 1

/-- The deepest nesting among items. -/
def nestingItems : List Json → Nat
  | [] => 0
  | item :: items => max item.nesting (nestingItems items)

/-- The deepest nesting among the values of members. -/
def nestingMembers : List (Option String × Json) → Nat
  | [] => 0
  | (_, value) :: members => max value.nesting (nestingMembers members)

end

theorem nesting_le_nestingItems {item : Json} {items : List Json} (h : item ∈ items) :
    item.nesting ≤ nestingItems items := by
  induction items with
  | nil => simp at h
  | cons first items ih =>
      rw [nestingItems]
      rcases List.mem_cons.mp h with rfl | h
      · exact Nat.le_max_left _ _
      · exact Nat.le_trans (ih h) (Nat.le_max_right _ _)

theorem nestingMembers_eq (members : List (Option String × Json)) :
    nestingMembers members = nestingItems (members.map Prod.snd) := by
  induction members with
  | nil => rfl
  | cons member members ih => rw [nestingMembers, ih, List.map_cons, nestingItems]

theorem nesting_le_nestingMembers {m : Option String × Json}
    {members : List (Option String × Json)} (h : m ∈ members) :
    m.2.nesting ≤ nestingMembers members := by
  rw [nestingMembers_eq]
  exact nesting_le_nestingItems (List.mem_map_of_mem h)

/-! ## Texts -/

/-- The most brackets that are open at once while a text is read from the left, if so many are open
at its start. Inside a string only its end matters, and the character behind a backslash does not
end it. -/
def deepest : (inString : Bool) → (opened : Nat) → List Char → Nat
  | _, opened, [] => opened
  | true, opened, '\\' :: _ :: rest => deepest true opened rest
  | true, opened, c :: rest =>
      if c = '"' then deepest false opened rest else deepest true opened rest
  | false, opened, c :: rest =>
      if c = '"' then deepest true opened rest
      else if c = '[' ∨ c = '\x7b' then deepest false (opened + 1) rest
      else if c = ']' ∨ c = '\x7d' then max opened (deepest false (opened - 1) rest)
      else deepest false opened rest

/-- How deep the brackets of a text nest. -/
def bracketDepth (text : String) : Nat := deepest false 0 text.toList

theorem le_deepest (inString : Bool) (opened : Nat) (s : List Char) :
    opened ≤ deepest inString opened s := by
  fun_induction deepest inString opened s <;> omega

/-- The brackets of the text are closed again, and so many of them are open at once. -/
def Nests (text : List Char) (depth : Nat) : Prop :=
  ∀ opened rest, deepest false opened (text ++ rest) =
    max (opened + depth) (deepest false opened rest)

namespace Nests

variable {a b : List Char} {k l : Nat}

theorem append (ha : Nests a k) (hb : Nests b l) : Nests (a ++ b) (max k l) := by
  intro opened rest
  rw [List.append_assoc, ha, hb]
  omega

theorem nil : Nests [] 0 := by
  intro opened rest
  have hle := le_deepest false opened rest
  rw [List.nil_append]
  omega

/-- A character that is no bracket and no quote opens nothing. -/
theorem cons {c : Char} (hc : c ∉ ['"', '[', '\x7b', ']', '\x7d']) (h : Nests a k) :
    Nests (c :: a) k := by
  intro opened rest
  simp only [List.mem_cons, List.not_mem_nil, or_false, not_or] at hc
  rw [List.cons_append, ← h]
  simp [deepest, hc]

theorem of_forall {s : List Char} (h : ∀ c ∈ s, c ∉ ['"', '[', '\x7b', ']', '\x7d']) :
    Nests s 0 := by
  induction s with
  | nil => exact nil
  | cons c s ih => exact cons (h c (by simp)) (ih fun d hd => h d (by simp [hd]))

/-- Brackets around a text count one. -/
theorem bracketed {opening closing : Char}
    (hbrackets : opening = '[' ∧ closing = ']' ∨ opening = '\x7b' ∧ closing = '\x7d')
    (h : Nests a k) : Nests (opening :: (a ++ [closing])) (k + 1) := by
  intro opened rest
  have hopen : deepest false opened (opening :: (a ++ closing :: rest)) =
      deepest false (opened + 1) (a ++ closing :: rest) := by
    rcases hbrackets with ⟨rfl, rfl⟩ | ⟨rfl, rfl⟩ <;> simp [deepest]
  have hclose : deepest false (opened + 1) (closing :: rest) =
      max (opened + 1) (deepest false opened rest) := by
    rcases hbrackets with ⟨rfl, rfl⟩ | ⟨rfl, rfl⟩ <;> simp [deepest]
  rw [List.cons_append, List.append_assoc, List.singleton_append, hopen, h, hclose]
  omega

end Nests

/-- Inside a string most characters stand for themselves. -/
theorem deepest_inside {c : Char} (hslash : c ≠ '\\') (hquote : c ≠ '"') (opened : Nat)
    (rest : List Char) : deepest true opened (c :: rest) = deepest true opened rest := by
  simp [deepest, hslash, hquote]

/-- Inside a string a written character changes nothing. -/
theorem deepest_escapeChar (c : Char) (opened : Nat) (rest : List Char) :
    deepest true opened (escapeChar c ++ rest) = deepest true opened rest := by
  have hhex : ∀ n < 16, hexDigit n ≠ '\\' ∧ hexDigit n ≠ '"' := by decide
  unfold escapeChar
  split_ifs with hquote hslash _ _ _ _ _ hcontrol
  iterate 7 exact deepest.eq_2 opened _ rest
  · obtain ⟨hslash₁, hquote₁⟩ := hhex (c.toNat / 16) (by omega)
    obtain ⟨hslash₂, hquote₂⟩ := hhex (c.toNat % 16) (by omega)
    simp [deepest, deepest_inside hslash₁ hquote₁, deepest_inside hslash₂ hquote₂]
  · exact deepest_inside hslash hquote opened rest

theorem deepest_escaped (s : List Char) (opened : Nat) (rest : List Char) :
    deepest true opened (s.flatMap escapeChar ++ rest) = deepest true opened rest := by
  induction s with
  | nil => rfl
  | cons c s ih => rw [List.flatMap_cons, List.append_assoc, deepest_escapeChar, ih]

/-- A text in quotes opens nothing, whatever brackets are in it. -/
theorem nests_quote (s : String) : Nests (quote s).toList 0 := by
  intro opened rest
  have hle := le_deepest false opened rest
  have hend : deepest true opened ('"' :: rest) = deepest false opened rest := by simp [deepest]
  rw [toList_quote, List.cons_append, List.append_assoc, List.singleton_append, deepest, if_pos rfl,
    deepest_escaped, hend]
  omega

/-- The digits of an integer and its sign are no brackets. -/
theorem nests_toString (n : Int) : Nests (toString n).toList 0 := by
  apply Nests.of_forall
  intro c hc
  have hnumeral : startsNumeral c = true := by
    rw [toList_toString] at hc
    rcases List.mem_append.mp hc with hc | hc
    · have hminus : c = '-' := by
        by_cases hsign : n < 0
        · simpa [minus, hsign] using hc
        · simp [minus, hsign] at hc
      simp [startsNumeral, hminus]
    · simp [startsNumeral, Nat.isDigit_of_mem_toDigits (by decide) (by decide) hc]
  exact fun hmem => Text.ne_of_class hnumeral (by decide) c hmem rfl

/-! ## Compact texts -/

theorem nests_compactItems {items : List Json}
    (h : ∀ item ∈ items, Nests item.compact.toList item.nesting) :
    Nests (compactItems items).toList (nestingItems items) := by
  induction items with
  | nil => exact Nests.nil
  | cons item items ih =>
      have hitem := h item (by simp)
      have hitems := ih fun i hi => h i (by simp [hi])
      cases items with
      | nil =>
          simpa [compactItems, nestingItems] using hitem
      | cons other others =>
          rw [toList_compactItems_cons, nestingItems]
          exact hitem.append (.cons (by decide) hitems)

/-- The text of a member nests as deep as its value. -/
theorem Nests.member {text : List Char} {depth : Nat} (h : Nests text depth) (key : String) :
    Nests ((quote key).toList ++ ':' :: text) depth := by
  have hmember := (nests_quote key).append (h.cons (c := ':') (by decide))
  rwa [Nat.zero_max] at hmember

theorem nests_compactMembers {members : List (Option String × Json)}
    (hkeys : ∀ m ∈ members, m.1.isSome = true)
    (h : ∀ m ∈ members, Nests m.2.compact.toList m.2.nesting) :
    Nests (compactMembers members).toList (nestingMembers members) := by
  induction members with
  | nil => exact Nests.nil
  | cons member members ih =>
      obtain ⟨key, value, rfl⟩ := exists_key (hkeys member (by simp))
      have hvalue : Nests value.compact.toList value.nesting := h (some key, value) (by simp)
      have hmembers := ih (fun m hm => hkeys m (by simp [hm])) fun m hm => h m (by simp [hm])
      cases members with
      | nil =>
          rw [toList_compactMembers_single, nestingMembers, nestingMembers, Nat.max_zero]
          exact hvalue.member key
      | cons other others =>
          rw [toList_compactMembers_cons, nestingMembers]
          exact (hvalue.append (hmembers.cons (by decide))).member key

/-- The brackets of a compact text nest as deep as the document. -/
theorem Exact.nests {j : Json} (h : j.Exact) : Nests j.compact.toList j.nesting := by
  induction h with
  | null => exact .of_forall (by simp [compact])
  | bool b => exact .of_forall (by cases b <;> simp [compact])
  | int n => exact nests_toString n
  | text s => exact nests_quote s
  | array h ih =>
      rw [toList_compact_array, nesting]
      exact (nests_compactItems ih).bracketed (.inl ⟨rfl, rfl⟩)
  | object hkeys h ih =>
      rw [toList_compact_object, nesting]
      exact (nests_compactMembers hkeys ih).bracketed (.inr ⟨rfl, rfl⟩)

/-- A text nests as deep as the document that it is the compact form of. -/
theorem bracketDepth_compact {j : Json} (h : j.Exact) : bracketDepth j.compact = j.nesting := by
  have hnests := h.nests 0 []
  rw [List.append_nil] at hnests
  rw [bracketDepth, hnests]
  simp [deepest]

end Pushdown.Json
