/-!
# Outcomes of reading

A reader of the condition language takes the text that is left and returns one of three
outcomes. A miss leaves the choice to another alternative; a failure ends the whole reading.
Both name the text at which they arose.
-/

namespace Pushdown.Condition

/-- Why no alternative fits here. -/
inductive Miss
  /-- No operand starts here. -/
  | noOperand
  /-- A reserved word stands where a name is needed, or is needed and does not stand here. -/
  | reservedWord
  /-- A reserved word is needed, and a longer name stands here. -/
  | longerName
  /-- A sign is needed and does not stand here. -/
  | noSign
  /-- A digit is needed and does not stand here. -/
  | noDigit
  /-- The index of a parameter is out of range. -/
  | indexRange
  /-- An item of a list was read and took no text. -/
  | emptyItem
  /-- An argument was read and took no text. -/
  | emptyArgument
  deriving DecidableEq, Repr

/-- Why reading cannot go on. -/
inductive Fatal
  /-- A number is out of range, or a long number has a fraction. -/
  | numberRange
  /-- The condition nests too deeply. -/
  | tooDeep
  deriving DecidableEq, Repr

/-- The outcome of reading at the front of a text. -/
inductive Outcome (α : Type)
  /-- A value was read, and this text is left. -/
  | ok (value : α) (rest : List Char)
  /-- Nothing that fits starts at this text. -/
  | miss (cause : Miss) (here : List Char)
  /-- Reading stops for good at this text. -/
  | fail (cause : Fatal) (here : List Char)
  deriving DecidableEq, Repr

/-- A reader of values at the front of a text. -/
abbrev Reader (α : Type) := List Char → Outcome α

/-- A recogniser that only says what it found and what is left. -/
abbrev Lexer (α : Type) := List Char → Option (α × List Char)

namespace Outcome

variable {α β : Type}

/-- The second outcome stands in for a miss of the first. -/
def orElse (first : Outcome α) (second : Unit → Outcome α) : Outcome α :=
  match first with
  | miss _ _ => second ()
  | other => other

/-- What was read decides how reading goes on. -/
def andThen (first : Outcome α) (next : α → List Char → Outcome β) : Outcome β :=
  match first with
  | ok value rest => next value rest
  | miss cause here => miss cause here
  | fail cause here => fail cause here

/-- The value that was read is changed by a function. -/
def map (f : α → β) (first : Outcome α) : Outcome β :=
  first.andThen fun value rest => ok (f value) rest

@[simp] theorem orElse_ok (value : α) (rest : List Char) (second : Unit → Outcome α) :
    (ok value rest).orElse second = ok value rest := rfl

@[simp] theorem orElse_miss (cause : Miss) (here : List Char) (second : Unit → Outcome α) :
    (miss cause here).orElse second = second () := rfl

@[simp] theorem orElse_fail (cause : Fatal) (here : List Char) (second : Unit → Outcome α) :
    (fail cause here).orElse second = fail cause here := rfl

@[simp] theorem andThen_ok (value : α) (rest : List Char) (next : α → List Char → Outcome β) :
    (ok value rest).andThen next = next value rest := rfl

@[simp] theorem andThen_miss (cause : Miss) (here : List Char) (next : α → List Char → Outcome β) :
    (miss cause here).andThen next = miss cause here := rfl

@[simp] theorem andThen_fail (cause : Fatal) (here : List Char)
    (next : α → List Char → Outcome β) :
    (fail cause here).andThen next = fail cause here := rfl

/-- A recogniser's answer as an outcome, with the cause and the place of a miss. -/
def ofOption (missed : Miss × List Char) : Option (α × List Char) → Outcome α
  | some (value, rest) => ok value rest
  | none => miss missed.1 missed.2

/-! ## Where a value comes from -/

theorem orElse_eq_ok {first : Outcome α} {second : Unit → Outcome α} {value : α}
    {rest : List Char} (h : first.orElse second = ok value rest) :
    first = ok value rest ∨ second () = ok value rest := by
  cases first with
  | ok value' rest' => exact Or.inl h
  | miss cause here => exact Or.inr h
  | fail cause here => exact Or.inl h

theorem andThen_eq_ok {first : Outcome α} {next : α → List Char → Outcome β} {value : β}
    {rest : List Char} (h : first.andThen next = ok value rest) :
    ∃ a mid, first = ok a mid ∧ next a mid = ok value rest := by
  cases first with
  | ok a mid => exact ⟨a, mid, rfl, h⟩
  | miss cause here => simp at h
  | fail cause here => simp at h

theorem map_eq_ok {first : Outcome α} {f : α → β} {value : β} {rest : List Char}
    (h : first.map f = ok value rest) : ∃ a, first = ok a rest ∧ f a = value := by
  obtain ⟨a, mid, hfirst, heq⟩ := andThen_eq_ok h
  simp only [ok.injEq] at heq
  obtain ⟨rfl, rfl⟩ := heq
  exact ⟨a, hfirst, rfl⟩

theorem ofOption_eq_ok {missed : Miss × List Char} {found : Option (α × List Char)} {value : α}
    {rest : List Char} (h : ofOption missed found = ok value rest) :
    found = some (value, rest) := by
  cases found with
  | none => simp [ofOption] at h
  | some pair => simpa [ofOption, Prod.ext_iff] using h

end Outcome

end Pushdown.Condition
