import Pushdown.Json.Reader
import Pushdown.Json.Writer
import Pushdown.Proofs.Condition.Display

/-!
# Written documents are read back

A document of integers, texts, truth values and nulls is read back from its compact text
(`read_compact`). The statements are about a text with more behind it: a reader takes exactly what
was written and leaves the rest. Only numerals have to know what follows them.

## Implementation notes

The steps that a reader may take are bounded by the number of characters. Reading an item of a list
takes two steps more than the item itself, and these are paid for by the bracket or the comma in
front of it.
-/

namespace Pushdown.Json

open Condition (minus toList_toString)

/-! ## Strings -/

/-- The characters are read as one piece of a string, and the piece stands for the character. -/
def StandsFor (text : List Char) (c : Char) : Prop :=
  ∃ piece, (∀ rest, readPieces (text ++ rest) =
      (readPieces rest).map fun (pieces, left) => (piece :: pieces, left)) ∧
    ∀ pieces, content? (piece :: pieces) = (content? pieces).map (c :: ·)

theorem standsFor_short {letter c : Char} (h : shortEscape? letter = some c) :
    StandsFor ['\\', letter] c := by
  have hletter : letter ≠ 'u' := by
    rintro rfl
    simp [shortEscape?] at h
  refine ⟨.char c, fun rest => ?_, fun pieces => by simp [content?]⟩
  simp [readPieces, hletter, h]

theorem standsFor_raw {c : Char} (hquote : c ≠ '"') (hslash : c ≠ '\\')
    (hcontrol : ¬ c.toNat < 0x20) : StandsFor [c] c := by
  refine ⟨.char c, fun rest => ?_, fun pieces => by simp [content?]⟩
  simp [readPieces, hslash, hcontrol]

theorem hexValue?_hexDigit : ∀ n < 16, hexValue? (hexDigit n) = some n := by decide

theorem hexNumber?_control {n : Nat} (h : n < 0x20) :
    hexNumber? ['0', '0', hexDigit (n / 16), hexDigit (n % 16)] = some n := by
  have hhigh := hexValue?_hexDigit (n / 16) (by omega)
  have hlow := hexValue?_hexDigit (n % 16) (by omega)
  have hzero : hexValue? '0' = some 0 := by decide
  simp [hexNumber?, hzero, hhigh, hlow]
  omega

/-- A unit below the space is no surrogate, whatever stands behind it. -/
theorem content?_unit {n : Nat} (h : n < 0x20) (pieces : List Piece) :
    content? (.unit n :: pieces) = (content? pieces).map (Char.ofNat n :: ·) := by
  have hhigh : isHighSurrogate n = false := by simp [isHighSurrogate]; omega
  have hlow : isLowSurrogate n = false := by simp [isLowSurrogate]; omega
  cases pieces with
  | nil => simp [content?, hhigh, hlow]
  | cons piece pieces => cases piece <;> simp [content?, hhigh, hlow]

theorem standsFor_control {c : Char} (h : c.toNat < 0x20) :
    StandsFor ['\\', 'u', '0', '0', hexDigit (c.toNat / 16), hexDigit (c.toNat % 16)] c := by
  refine ⟨.unit c.toNat, fun rest => ?_, fun pieces => ?_⟩
  · simp [readPieces, hexNumber?_control h]
  · rw [content?_unit h, Char.ofNat_toNat]

/-- A written character is read as the character. -/
theorem standsFor_escapeChar (c : Char) : StandsFor (escapeChar c) c := by
  unfold escapeChar
  split_ifs with hquote hslash hback htab hline hpage hreturn hcontrol
  · exact standsFor_short (by rw [hquote]; rfl)
  · exact standsFor_short (by rw [hslash]; rfl)
  · exact standsFor_short (by rw [hback]; rfl)
  · exact standsFor_short (by rw [htab]; rfl)
  · exact standsFor_short (by rw [hline]; rfl)
  · exact standsFor_short (by rw [hpage]; rfl)
  · exact standsFor_short (by rw [hreturn]; rfl)
  · exact standsFor_control hcontrol
  · exact standsFor_raw hquote hslash hcontrol

theorem readPieces_escaped (s rest : List Char) :
    ∃ pieces, readPieces (s.flatMap escapeChar ++ '"' :: rest) = some (pieces, rest) ∧
      content? pieces = some s := by
  induction s with
  | nil => exact ⟨[], by simp [readPieces], rfl⟩
  | cons c s ih =>
      obtain ⟨pieces, hread, hcontent⟩ := ih
      obtain ⟨piece, hpiece, hstands⟩ := standsFor_escapeChar c
      refine ⟨piece :: pieces, ?_, ?_⟩
      · rw [List.flatMap_cons, List.append_assoc, hpiece, hread]
        rfl
      · rw [hstands, hcontent]
        rfl

/-- The characters of a text in quotes. -/
theorem toList_quote (s : String) :
    (quote s).toList = '"' :: (s.toList.flatMap escapeChar ++ ['"']) := String.toList_ofList

theorem readString_quoted (s : String) (rest : List Char) :
    readString (s.toList.flatMap escapeChar ++ '"' :: rest) = some (some s, rest) := by
  obtain ⟨pieces, hread, hcontent⟩ := readPieces_escaped s.toList rest
  rw [readString, hread]
  simp [hcontent]

/-! ## Numerals -/

/-- A numeral does not go on with what stands here. -/
def NumeralEnds (rest : List Char) : Prop :=
  ∀ c ∈ rest.head?, c.isDigit = false ∧ c ≠ '.' ∧ c ≠ 'e' ∧ c ≠ 'E'

theorem digitRun_append {ds rest : List Char} (hne : ds ≠ [])
    (hdigits : ∀ c ∈ ds, c.isDigit = true) (hends : NumeralEnds rest) :
    digitRun (ds ++ rest) = some (ds, rest) := by
  have hrest : rest.takeWhile Char.isDigit = [] ∧ rest.dropWhile Char.isDigit = rest := by
    cases rest with
    | nil => simp
    | cons c rest =>
        have hc := (hends c (by simp)).1
        simp [hc]
  simp [digitRun, List.takeWhile_append_of_pos hdigits, List.dropWhile_append_of_pos hdigits,
    hrest, hne]

/-- The digits of a positive number start with no zero. -/
theorem head?_toDigits {n : Nat} (h : 0 < n) : (Nat.toDigits 10 n).head? ≠ some '0' := by
  induction n using Nat.strongRecOn with
  | ind n ih =>
      by_cases hsmall : n < 10
      · rw [Nat.toDigits_of_lt_base hsmall]
        simp
        omega
      · rw [Nat.toDigits_of_base_le (by decide) (by omega), List.head?_append_of_ne_nil]
        · exact ih (n / 10) (by omega) (by omega)
        · exact Nat.toDigits_ne_nil

theorem wholeRun_toDigits (n : Nat) {rest : List Char} (hends : NumeralEnds rest) :
    wholeRun (Nat.toDigits 10 n ++ rest) = some (Nat.toDigits 10 n, rest) := by
  have hdigits := digitRun_append (Nat.toDigits_ne_nil (n := n) (b := 10))
    (fun c hc => Nat.isDigit_of_mem_toDigits (by decide) (by decide) hc) hends
  rcases Nat.eq_zero_or_pos n with rfl | hpos
  · simp [wholeRun]
  · have hhead := head?_toDigits hpos
    cases hds : Nat.toDigits 10 n with
    | nil => exact absurd hds Nat.toDigits_ne_nil
    | cons d ds =>
        rw [hds] at hdigits hhead
        have hd : d ≠ '0' := by simpa using hhead
        rw [wholeRun]
        · exact hdigits
        · rintro other hother
          exact hd (List.cons.inj hother).1

theorem fractionRun_of_ends {rest : List Char} (hends : NumeralEnds rest) :
    fractionRun rest = some ([], rest) := by
  rw [fractionRun]
  rintro other rfl
  exact (hends '.' (by simp)).2.1 rfl

theorem exponentRun_of_ends {rest : List Char} (hends : NumeralEnds rest) :
    exponentRun rest = some ([], rest) := by
  cases rest with
  | nil => rfl
  | cons c rest =>
      have hc := (hends c (by simp)).2.2
      simp [exponentRun, hc]

theorem unsignedRun_toDigits (n : Nat) {rest : List Char} (hends : NumeralEnds rest) :
    unsignedRun (Nat.toDigits 10 n ++ rest) = some (Nat.toDigits 10 n, rest) := by
  simp [unsignedRun, wholeRun_toDigits n hends, fractionRun_of_ends hends,
    exponentRun_of_ends hends]

/-- The character can be the first one of a numeral. -/
def startsNumeral (c : Char) : Bool := c.isDigit || c == '-'

theorem exists_head_toString (n : Int) :
    ∃ c cs, (toString n).toList = c :: cs ∧ startsNumeral c = true := by
  rw [toList_toString]
  by_cases hsign : n < 0
  · exact ⟨'-', Nat.toDigits 10 n.natAbs, by simp [minus, hsign], by decide⟩
  · cases hds : Nat.toDigits 10 n.natAbs with
    | nil => exact absurd hds Nat.toDigits_ne_nil
    | cons d ds =>
        have hd : d ∈ Nat.toDigits 10 n.natAbs := hds ▸ List.mem_cons_self
        have hdigit := Nat.isDigit_of_mem_toDigits (by decide) (by decide) hd
        exact ⟨d, ds, by simp [minus, hsign], by simp [startsNumeral, hdigit]⟩

/-- An integer is read back up to a character that does not go on with it. -/
theorem readNumber_toString (n : Int) {rest : List Char} (hends : NumeralEnds rest) :
    readNumber ((toString n).toList ++ rest) = some (toString n, rest) := by
  have hrun := unsignedRun_toDigits n.natAbs hends
  have hnumeral : toString n =
      String.ofList (minus (decide (n < 0)) ++ Nat.toDigits 10 n.natAbs) := by
    rw [← toList_toString, String.ofList_toList]
  rw [toList_toString]
  by_cases hsign : n < 0
  · simp [hnumeral, minus, hsign, readNumber, hrun]
  · have hplus : readNumber (Nat.toDigits 10 n.natAbs ++ rest) =
        (unsignedRun (Nat.toDigits 10 n.natAbs ++ rest)).map (Prod.map String.ofList id) := by
      rw [readNumber]
      · rfl
      intro other hother
      obtain ⟨d, hhead, hd⟩ := Condition.head?_append_digits Nat.toDigits_ne_nil
        (fun c hc => Nat.isDigit_of_mem_toDigits (b := 10) (n := n.natAbs) (by decide) (by decide)
          hc) rest
      rw [hother] at hhead
      obtain rfl := Option.some.inj hhead
      exact absurd hd (by decide)
    simp [hnumeral, minus, hsign, hplus, hrun]

/-! ## Documents -/

/-- The document is made of integers, texts, truth values and nulls. -/
inductive Exact : Json → Prop
  | null : Exact .null
  | bool (b : Bool) : Exact (.bool b)
  | int (n : Int) : Exact (.int n)
  | text (s : String) : Exact (.text s)
  | array {items : List Json} (h : ∀ item ∈ items, Exact item) : Exact (.array items)
  | object {members : List (Option String × Json)} (hkeys : ∀ m ∈ members, m.1.isSome = true)
      (h : ∀ m ∈ members, Exact m.2) : Exact (.object members)

theorem exists_key {m : Option String × Json} (h : m.1.isSome = true) :
    ∃ key value, m = (some key, value) := by
  obtain ⟨key, hkey⟩ := Option.isSome_iff_exists.mp h
  exact ⟨key, m.2, Prod.ext hkey rfl⟩

theorem toList_compact_array (items : List Json) :
    (array items).compact.toList = '[' :: ((compactItems items).toList ++ [']']) := by
  simp [compact]

theorem toList_compact_object (members : List (Option String × Json)) :
    (object members).compact.toList =
      '\x7b' :: ((compactMembers members).toList ++ ['\x7d']) := by
  simp [compact]

theorem toList_compactItems_cons (item other : Json) (items : List Json) :
    (compactItems (item :: other :: items)).toList =
      item.compact.toList ++ ',' :: (compactItems (other :: items)).toList := by
  simp [compactItems]

theorem exists_compactItems_cons (item : Json) (items : List Json) :
    ∃ more, (compactItems (item :: items)).toList = item.compact.toList ++ more := by
  cases items with
  | nil => exact ⟨[], by simp [compactItems]⟩
  | cons other items => exact ⟨_, toList_compactItems_cons item other items⟩

theorem toList_compactMembers_single (key : String) (value : Json) :
    (compactMembers [(some key, value)]).toList =
      (quote key).toList ++ ':' :: value.compact.toList := by
  simp [compactMembers, quoteContent]

theorem toList_compactMembers_cons (key : String) (value : Json)
    (other : Option String × Json) (members : List (Option String × Json)) :
    (compactMembers ((some key, value) :: other :: members)).toList =
      (quote key).toList ++ ':' ::
        (value.compact.toList ++ ',' :: (compactMembers (other :: members)).toList) := by
  simp [compactMembers, quoteContent]

theorem exists_compactMembers_cons (key : String) (value : Json)
    (members : List (Option String × Json)) :
    ∃ more, (compactMembers ((some key, value) :: members)).toList = '"' :: more := by
  cases members with
  | nil =>
      rw [toList_compactMembers_single, toList_quote]
      exact ⟨_, rfl⟩
  | cons other members =>
      rw [toList_compactMembers_cons, toList_quote]
      exact ⟨_, rfl⟩

/-- The document is read back from its text, whatever stands behind it. -/
def ReadsBack (j : Json) : Prop :=
  ∀ fuel rest, j.compact.toList.length ≤ fuel → NumeralEnds rest →
    readValue fuel (j.compact.toList ++ rest) = some (j, rest)

/-- A numeral in front is read as a number. -/
theorem readValue_numeral {c : Char} (hc : startsNumeral c = true) (fuel : Nat) (s : List Char) :
    readValue (fuel + 1) (c :: s) =
      (readNumber (c :: s)).map fun (numeral, left) => (.number numeral, left) := by
  have hne : ∀ d ∈ [' ', '\n', '\t', '\r', '"', '[', '\x7b', 'n', 't', 'f'], c ≠ d :=
    Text.ne_of_class hc (by decide)
  simp only [List.forall_mem_cons] at hne
  simp [readValue, skipSpace, isSpace, hne]

theorem readsBack_null : ReadsBack .null := by
  intro fuel rest hfuel hends
  cases fuel with
  | zero => simp [compact] at hfuel
  | succ fuel => simp [compact, readValue, skipSpace, isSpace, stripExact]

theorem readsBack_bool (b : Bool) : ReadsBack (.bool b) := by
  intro fuel rest hfuel hends
  cases fuel with
  | zero => cases b <;> simp [compact] at hfuel
  | succ fuel => cases b <;> simp [compact, readValue, skipSpace, isSpace, stripExact]

theorem readsBack_int (n : Int) : ReadsBack (.int n) := by
  intro fuel rest hfuel hends
  have hread := readNumber_toString n hends
  obtain ⟨c, cs, htext, hc⟩ := exists_head_toString n
  simp only [int, compact] at hfuel ⊢
  rw [htext] at hread hfuel ⊢
  cases fuel with
  | zero => simp at hfuel
  | succ fuel =>
      rw [List.cons_append] at hread ⊢
      rw [readValue_numeral hc, hread]
      rfl

theorem readsBack_text (s : String) : ReadsBack (.text s) := by
  intro fuel rest hfuel hends
  simp only [text, compact, quoteContent, Option.getD_some, toList_quote] at hfuel ⊢
  cases fuel with
  | zero => simp at hfuel
  | succ fuel => simp [readValue, skipSpace, isSpace, readString_quoted]

/-- What stands behind a part of a document ends a numeral. -/
theorem numeralEnds_cons {c : Char} (h : c = ',' ∨ c = ']' ∨ c = '\x7d') (rest : List Char) :
    NumeralEnds (c :: rest) := by
  rintro d hd
  obtain rfl : c = d := by simpa using hd
  rcases h with rfl | rfl | rfl <;> decide

/-- A document starts with no space and no closing bracket. -/
theorem Exact.exists_head {j : Json} (h : j.Exact) :
    ∃ c cs, j.compact.toList = c :: cs ∧ isSpace c = false ∧ c ≠ ']' := by
  cases h with
  | null => exact ⟨'n', "ull".toList, by simp [compact], by decide, by decide⟩
  | bool b =>
      cases b
      · exact ⟨'f', "alse".toList, by simp [compact], by decide, by decide⟩
      · exact ⟨'t', "rue".toList, by simp [compact], by decide, by decide⟩
  | int n =>
      obtain ⟨c, cs, htext, hc⟩ := exists_head_toString n
      have hne : ∀ d ∈ [' ', '\n', '\t', '\r', ']'], c ≠ d := Text.ne_of_class hc (by decide)
      simp only [List.forall_mem_cons] at hne
      exact ⟨c, cs, htext, by simp [isSpace, hne], by simp [hne]⟩
  | text s => exact ⟨'"', _, toList_quote s, by decide, by decide⟩
  | array h => exact ⟨'[', _, toList_compact_array _, by decide, by decide⟩
  | object hkeys h => exact ⟨'\x7b', _, toList_compact_object _, by decide, by decide⟩

/-- Items are read back up to the closing bracket. -/
theorem readItems_compactItems {items : List Json} (hne : items ≠ [])
    (hitems : ∀ item ∈ items, ReadsBack item) (fuel : Nat) (rest : List Char)
    (hfuel : (compactItems items).toList.length < fuel) :
    readItems fuel ((compactItems items).toList ++ ']' :: rest) = some (items, rest) := by
  induction items generalizing fuel with
  | nil => exact absurd rfl hne
  | cons item items ih =>
      obtain ⟨fuel, rfl⟩ : ∃ n, fuel = n + 1 := ⟨fuel - 1, by omega⟩
      have hitem := hitems item (by simp)
      cases items with
      | nil =>
          simp only [compactItems] at hfuel ⊢
          have hread := hitem fuel (']' :: rest) (by omega) (numeralEnds_cons (by simp) rest)
          simp [readItems, hread, skipSpace, isSpace]
      | cons other others =>
          rw [toList_compactItems_cons, List.length_append, List.length_cons] at hfuel
          have hothers := ih (by simp) (fun i hi => hitems i (by simp [hi])) fuel (by omega)
          have hread := hitem fuel
            (',' :: ((compactItems (other :: others)).toList ++ ']' :: rest)) (by omega)
            (numeralEnds_cons (by simp) _)
          rw [toList_compactItems_cons, List.append_assoc, List.cons_append]
          simp [readItems, hread, skipSpace, isSpace, hothers]

/-- Members are read back up to the closing brace. -/
theorem readMembers_compactMembers {members : List (Option String × Json)} (hne : members ≠ [])
    (hkeys : ∀ m ∈ members, m.1.isSome = true) (hvalues : ∀ m ∈ members, ReadsBack m.2)
    (fuel : Nat) (rest : List Char) (hfuel : (compactMembers members).toList.length < fuel) :
    readMembers fuel ((compactMembers members).toList ++ '\x7d' :: rest) =
      some (members, rest) := by
  induction members generalizing fuel with
  | nil => exact absurd rfl hne
  | cons member members ih =>
      obtain ⟨fuel, rfl⟩ : ∃ n, fuel = n + 1 := ⟨fuel - 1, by omega⟩
      obtain ⟨key, value, rfl⟩ := exists_key (hkeys member (by simp))
      have hvalue : ReadsBack value := hvalues (some key, value) (by simp)
      cases members with
      | nil =>
          rw [toList_compactMembers_single] at hfuel ⊢
          simp only [List.length_cons, List.length_append] at hfuel
          have hread := hvalue fuel ('\x7d' :: rest) (by omega) (numeralEnds_cons (by simp) rest)
          simp [readMembers, toList_quote, readString_quoted, hread, skipSpace, isSpace]
      | cons other others =>
          rw [toList_compactMembers_cons] at hfuel ⊢
          simp only [List.length_cons, List.length_append] at hfuel
          have hothers := ih (by simp) (fun m hm => hkeys m (by simp [hm]))
            (fun m hm => hvalues m (by simp [hm])) fuel (by omega)
          have hread := hvalue fuel
            (',' :: ((compactMembers (other :: others)).toList ++ '\x7d' :: rest)) (by omega)
            (numeralEnds_cons (by simp) _)
          simp [readMembers, toList_quote, readString_quoted, hread, skipSpace, isSpace, hothers]

/-- Behind a bracket that is not closed at once, items are read. -/
theorem readValue_bracket (fuel : Nat) {c : Char} {s : List Char} (hspace : isSpace c = false)
    (hclose : c ≠ ']') :
    readValue (fuel + 1) ('[' :: c :: s) =
      (readItems fuel (c :: s)).map fun (items, left) => (.array items, left) := by
  have hrest : skipSpace (c :: s) = c :: s := by simp [skipSpace, hspace]
  have hfront : skipSpace ('[' :: c :: s) = '[' :: c :: s := by simp [skipSpace, isSpace]
  rw [readValue, hfront]
  simp [hrest, hclose]

/-- Behind a brace with a quote, members are read. -/
theorem readValue_brace (fuel : Nat) (s : List Char) :
    readValue (fuel + 1) ('\x7b' :: '"' :: s) =
      (readMembers fuel ('"' :: s)).map fun (members, left) => (.object members, left) := by
  simp [readValue, skipSpace, isSpace]

theorem readsBack_array {items : List Json} (hexact : ∀ item ∈ items, item.Exact)
    (hitems : ∀ item ∈ items, ReadsBack item) : ReadsBack (.array items) := by
  intro fuel rest hfuel _
  rw [toList_compact_array] at hfuel ⊢
  simp only [List.length_cons, List.length_append, List.length_nil] at hfuel
  obtain ⟨fuel, rfl⟩ : ∃ n, fuel = n + 1 := ⟨fuel - 1, by omega⟩
  rw [List.cons_append, List.append_assoc, List.singleton_append]
  cases items with
  | nil => simp [compactItems, readValue, skipSpace, isSpace]
  | cons item items =>
      have hread := readItems_compactItems (by simp) hitems fuel rest (by omega)
      obtain ⟨c, cs, hhead, hspace, hclose⟩ := (hexact item (by simp)).exists_head
      obtain ⟨more, hmore⟩ := exists_compactItems_cons item items
      rw [hmore, hhead, List.cons_append, List.cons_append] at hread ⊢
      rw [readValue_bracket fuel hspace hclose, hread]
      rfl

theorem readsBack_object {members : List (Option String × Json)}
    (hkeys : ∀ m ∈ members, m.1.isSome = true) (hvalues : ∀ m ∈ members, ReadsBack m.2) :
    ReadsBack (.object members) := by
  intro fuel rest hfuel _
  rw [toList_compact_object] at hfuel ⊢
  simp only [List.length_cons, List.length_append, List.length_nil] at hfuel
  obtain ⟨fuel, rfl⟩ : ∃ n, fuel = n + 1 := ⟨fuel - 1, by omega⟩
  rw [List.cons_append, List.append_assoc, List.singleton_append]
  cases members with
  | nil => simp [compactMembers, readValue, skipSpace, isSpace]
  | cons member members =>
      have hread := readMembers_compactMembers (by simp) hkeys hvalues fuel rest (by omega)
      obtain ⟨key, value, rfl⟩ := exists_key (hkeys member (by simp))
      obtain ⟨more, hmore⟩ := exists_compactMembers_cons key value members
      rw [hmore, List.cons_append] at hread ⊢
      rw [readValue_brace, hread]
      rfl

/-- A document is read back from its text. -/
theorem Exact.readsBack {j : Json} (h : j.Exact) : ReadsBack j := by
  induction h with
  | null => exact readsBack_null
  | bool b => exact readsBack_bool b
  | int n => exact readsBack_int n
  | text s => exact readsBack_text s
  | array h ih => exact readsBack_array h ih
  | object hkeys h ih => exact readsBack_object hkeys ih

/-- A document of integers, texts, truth values and nulls is what its compact text is read as. -/
theorem read_compact {j : Json} (h : j.Exact) : read j.compact = some j := by
  have hends : NumeralEnds [] := by simp [NumeralEnds]
  have hfuel : j.compact.toList.length ≤ j.compact.length + 1 := by
    rw [String.length_toList]
    exact Nat.le_succ _
  have hread := h.readsBack (j.compact.length + 1) [] hfuel hends
  rw [List.append_nil] at hread
  rw [read, hread]
  rfl

end Pushdown.Json
