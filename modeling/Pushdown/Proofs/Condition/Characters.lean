import Pushdown.Condition.Lexeme
import Pushdown.Text.Blank

/-!
# Classes of characters

How the classes that the readers test lie to each other: digits and ASCII letters stand inside
names, and neither gaps nor any other blank does. The tables are walked only where a class is
compared with finitely many code points.
-/

namespace Pushdown.Text

/-- A property of finitely many characters, checked one after another. -/
theorem forall_mem_of_all {p : Char → Prop} [DecidablePred p] {cs : List Char}
    (h : cs.all (fun c => decide (p c)) = true) : ∀ c ∈ cs, p c := by
  simpa using h

/-- A character of a class is none of the characters that the class does not have. -/
theorem ne_of_class {p : Char → Bool} {c : Char} (h : p c = true) {ds : List Char}
    (hds : ds.all (fun d => !p d) = true) : ∀ d ∈ ds, c ≠ d := by
  rintro d hd rfl
  have hother := List.all_eq_true.mp hds c hd
  simp [h] at hother

/-- What stands behind a run of characters of a class is not of the class. -/
theorem head_dropWhile {p : Char → Bool} {s : List Char} {c : Char}
    (h : c ∈ (s.dropWhile p).head?) : p c = false := by
  have hnot := List.head?_dropWhile_not p s
  rw [Option.mem_def] at h
  rw [h] at hnot
  simpa using hnot

/-! ## Letters, digits and names -/

theorem isNameChar_of_isAlphabetic {c : Char} (h : isAlphabetic c = true) :
    isNameChar c = true := by
  simp [isNameChar, isAlphanumeric, h]

theorem isNameChar_of_isNameStart {c : Char} (h : isNameStart c = true) :
    isNameChar c = true := by
  simp only [isNameStart, Bool.or_eq_true] at h
  rcases h with h | h
  · exact isNameChar_of_isAlphabetic h
  · simp [isNameChar, h]

/-- The digits `0` to `9` stand at the front of the numeric spans. -/
theorem isNameChar_of_isDigit {c : Char} (h : c.isDigit = true) : isNameChar c = true := by
  have hrange : 0x30 ≤ c.toNat ∧ c.toNat ≤ 0x39 := by
    simpa [Char.isDigit, UInt32.le_iff_toNat_le] using h
  have hspan : inSpans c.toNat numericSpans = true := by
    rw [show numericSpans = ⟨0x30, 0x39⟩ :: numericSpans.tail from rfl]
    simp only [inSpans]
    rw [if_neg (by omega), if_pos hrange.2]
  simp [isNameChar, isAlphanumeric, isNumeric, hspan]

/-- The letters `A` to `Z` and `a` to `z` stand at the front of the alphabetic spans. -/
theorem isAlphabetic_of_ascii {c : Char}
    (h : (0x41 ≤ c.toNat ∧ c.toNat ≤ 0x5A) ∨ (0x61 ≤ c.toNat ∧ c.toNat ≤ 0x7A)) :
    isAlphabetic c = true := by
  rw [isAlphabetic,
    show alphabeticSpans = ⟨0x41, 0x5A⟩ :: ⟨0x61, 0x7A⟩ :: alphabeticSpans.tail.tail from rfl]
  simp only [inSpans]
  rcases h with ⟨hfirst, hlast⟩ | ⟨hfirst, hlast⟩
  · rw [if_neg (by omega), if_pos hlast]
  · rw [if_neg (by omega), if_neg (by omega), if_neg (by omega), if_pos hlast]

/-- No digit starts a name. -/
theorem isNameStart_of_isDigit {c : Char} (h : c.isDigit = true) : isNameStart c = false := by
  have hrange : 0x30 ≤ c.toNat ∧ c.toNat ≤ 0x39 := by
    simpa [Char.isDigit, UInt32.le_iff_toNat_le] using h
  have halpha : isAlphabetic c = false := by
    rw [isAlphabetic, show alphabeticSpans = ⟨0x41, 0x5A⟩ :: alphabeticSpans.tail from rfl]
    simp only [inSpans]
    rw [if_pos (by omega)]
  have hunder : c ≠ '_' := by
    rintro rfl
    exact absurd h (by decide)
  simp [isNameStart, halpha, hunder]

/-- A character whose lower-case form is an ASCII letter is an ASCII letter. -/
theorem isAlphabetic_of_toLower {c : Char}
    (h : 0x61 ≤ c.toLower.toNat ∧ c.toLower.toNat ≤ 0x7A) : isAlphabetic c = true := by
  apply isAlphabetic_of_ascii
  by_cases hupper : c.val ≥ 'A'.val ∧ c.val ≤ 'Z'.val
  · left
    simpa [UInt32.le_iff_toNat_le] using hupper
  · right
    have hsame : c.toLower = c := dif_neg hupper
    rwa [hsame] at h

/-! ## Blanks and gaps -/

theorem isGap_cases {c : Char} (h : Condition.isGap c = true) :
    c = ' ' ∨ c = '\t' ∨ c = '\r' ∨ c = '\n' := by
  simpa [Condition.isGap, or_assoc] using h

theorem isBlank_of_isGap {c : Char} (h : Condition.isGap c = true) : isBlank c = true := by
  rcases isGap_cases h with rfl | rfl | rfl | rfl <;> decide

/-- The code points of all blanks. -/
def blankCodes : List Nat := blankSpans.flatMap fun s => List.range' s.first (s.last + 1 - s.first)

theorem mem_blankCodes {c : Char} (h : isBlank c = true) : c.toNat ∈ blankCodes := by
  obtain ⟨s, hs, hfirst, hlast⟩ := exists_span_of_inSpans h
  refine List.mem_flatMap.mpr ⟨s, hs, ?_⟩
  rw [List.mem_range'_1]
  omega

/-- No blank stands inside a name. -/
theorem isNameChar_of_isBlank {c : Char} (h : isBlank c = true) : isNameChar c = false := by
  have hcodes : ∀ n ∈ blankCodes,
      inSpans n alphabeticSpans = false ∧ inSpans n numericSpans = false ∧ n ≠ '_'.toNat := by
    decide +kernel
  obtain ⟨halpha, hnum, hne⟩ := hcodes _ (mem_blankCodes h)
  have hunder : c ≠ '_' := fun heq => hne (by rw [heq])
  simp [isNameChar, isAlphanumeric, isAlphabetic, isNumeric, halpha, hnum, hunder]

theorem isBlank_of_isNameChar {c : Char} (h : isNameChar c = true) : isBlank c = false := by
  cases hblank : isBlank c with
  | false => rfl
  | true =>
      rw [isNameChar_of_isBlank hblank] at h
      exact h.symm

theorem isNameChar_of_isGap {c : Char} (h : Condition.isGap c = true) : isNameChar c = false :=
  isNameChar_of_isBlank (isBlank_of_isGap h)

/-! ## Trimming -/

/-- A text is trimmed by cutting blanks off at both ends. -/
theorem exists_trim (t : List Char) :
    ∃ before after, t = before ++ trim t ++ after ∧ (∀ c ∈ before, isBlank c = true) ∧
      ∀ c ∈ after, isBlank c = true := by
  refine ⟨t.takeWhile isBlank, ((trimStart t).reverse.takeWhile isBlank).reverse, ?_, ?_, ?_⟩
  · have hend : trimStart t =
        trim t ++ ((trimStart t).reverse.takeWhile isBlank).reverse := by
      rw [trim, trimEnd, ← List.reverse_append, List.takeWhile_append_dropWhile,
        List.reverse_reverse]
    rw [List.append_assoc, ← hend]
    exact (List.takeWhile_append_dropWhile).symm
  · exact List.all_eq_true.mp List.all_takeWhile
  · intro c hc
    exact List.all_eq_true.mp List.all_takeWhile c (List.mem_reverse.mp hc)

theorem trim_isPrefix_trimStart (t : List Char) : trim t <+: trimStart t := by
  rw [← List.reverse_suffix, trim, trimEnd, List.reverse_reverse]
  exact List.dropWhile_suffix isBlank

/-- A trimmed text does not start with a blank. -/
theorem isBlank_head_trim {t : List Char} {c : Char} (h : c ∈ (trim t).head?) :
    isBlank c = false := by
  obtain ⟨after, hafter⟩ := trim_isPrefix_trimStart t
  have hhead : c ∈ (trimStart t).head? := by
    rw [← hafter, List.head?_append]
    simp [Option.mem_def.mp h]
  exact head_dropWhile hhead

/-- A trimmed text does not end with a blank, so nothing but blanks cannot be its end. -/
theorem eq_nil_of_suffix_trim {t r : List Char} (h : r <:+ trim t)
    (hblank : ∀ c ∈ r, isBlank c = true) : r = [] := by
  obtain ⟨front, hfront⟩ := h
  rcases List.eq_nil_or_concat r with rfl | ⟨r, c, rfl⟩
  · rfl
  · have hlast : c ∈ ((trimStart t).reverse.dropWhile isBlank).head? := by
      rw [← List.getLast?_reverse, ← trimEnd, ← trim, ← hfront]
      simp
    have hc := hblank c (by simp)
    rw [head_dropWhile hlast] at hc
    exact absurd hc (by decide)

theorem byteLength_le_of_suffix {s t : List Char} (h : t <:+ s) : byteLength t ≤ byteLength s := by
  obtain ⟨front, rfl⟩ := h
  rw [byteLength_append]
  omega

theorem trimStart_suffix (s : List Char) : trimStart s <:+ s := List.dropWhile_suffix isBlank

/-- The blanks before a text are cut off at its start. -/
theorem byteLength_lead (s : List Char) :
    byteLength s - byteLength (trimStart s) = byteLength (s.takeWhile isBlank) := by
  have hsplit : s.takeWhile isBlank ++ trimStart s = s := List.takeWhile_append_dropWhile
  have hsum := congrArg byteLength hsplit
  rw [byteLength_append] at hsum
  omega

/-- A text of nothing but blanks is cut off as a whole. -/
theorem trimStart_eq_nil {s : List Char} (h : trim s = []) : trimStart s = [] := by
  obtain ⟨before, after, hs, hbefore, hafter⟩ := exists_trim s
  rw [h, List.append_nil, ← List.append_nil after] at hs
  rw [trimStart, hs, List.dropWhile_append_of_pos hbefore, List.dropWhile_append_of_pos hafter]
  rfl

/-- What stands between blanks is left when it neither starts nor ends with one. -/
theorem trim_append {before text after : List Char} (hbefore : before.all isBlank = true)
    (hafter : after.all isBlank = true) (hne : text ≠ [])
    (hfirst : ∀ c ∈ text.head?, isBlank c = false)
    (hlast : ∀ c ∈ text.getLast?, isBlank c = false) :
    trim (before ++ text ++ after) = text := by
  rw [List.all_eq_true] at hbefore hafter
  have hstart : trimStart (before ++ text ++ after) = text ++ after := by
    rw [trimStart, List.append_assoc, List.dropWhile_append_of_pos hbefore]
    cases text with
    | nil => exact absurd rfl hne
    | cons c text => simp [hfirst c (by simp)]
  have hend : (text ++ after).reverse.dropWhile isBlank = text.reverse := by
    rw [List.reverse_append,
      List.dropWhile_append_of_pos fun c hc => hafter c (List.mem_reverse.mp hc)]
    rw [← List.head?_reverse] at hlast
    cases hrev : text.reverse with
    | nil => rfl
    | cons c rest => simp [hlast c (by simp [hrev])]
  rw [trim, hstart, trimEnd, hend, List.reverse_reverse]

end Pushdown.Text
