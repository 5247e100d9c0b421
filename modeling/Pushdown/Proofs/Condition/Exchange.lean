import Pushdown.Proofs.Condition.Levels
import Pushdown.Proofs.Condition.Tokens

/-!
# Another text behind a token

A recogniser that has found a token looks at most at one character behind it. What it found is
found again when the text behind is exchanged for another one, if the other text agrees with it in
that character or starts with a character that ends every token (`Agrees`).

For a reader of a level the other text must also not continue a phrase of the level (`Fits`).

## Implementation notes

A token need not end where a gap or a sign follows: `1and b` and `(a)or(b)` are conditions. A text
that `Follow`s a phrase ends every token, which would be too much to ask of the `and` and the `or`
here, so a character of a name may stand behind the token if it stood there before.
-/

namespace Pushdown.Condition

open Text Number

variable {g p r rest s t w : List Char} {c : Char} {l m : Level}

/-! ## Texts that can stand behind a token -/

/-- The second text can stand where the first one stood: it starts with no point and no colon, and
with a character of a name only if that is a letter and the first text starts with it too. -/
def Agrees (rest r : List Char) : Prop :=
  ∀ c ∈ r.head?, c ≠ '.' ∧ c ≠ ':' ∧ (isNameChar c = true → isAlphabetic c = true ∧ c ∈ rest.head?)

/-- The second text can stand where the first one stood behind a phrase of the level. -/
structure Fits (l : Level) (rest r : List Char) : Prop where
  /-- It does not change how the last token is read. -/
  agrees : Agrees rest r
  /-- It does not continue the phrase. -/
  stops : Stops l r

theorem Fits.mono (h : Fits m rest r) (hsub : l.continues ⊆ m.continues) : Fits l rest r :=
  ⟨h.agrees, fun c hc hmem => h.stops c hc (hsub hmem)⟩

/-- A text that follows a phrase fits behind it, whatever stood there. -/
theorem Follow.fits (h : Follow l r) (rest : List Char) : Fits l rest r := by
  refine ⟨fun c hc => ?_, h.stops⟩
  obtain ⟨hname, hpoint, hcolon⟩ := h.boundary c hc
  exact ⟨hpoint, hcolon, fun h => absurd (hname.symm.trans h) (by decide)⟩

/-- A text that fits where no letter stood follows the phrase. -/
theorem Fits.follow (h : Fits l rest r) (hrest : ∀ c ∈ rest.head?, isAlphabetic c = false) :
    Follow l r := by
  refine ⟨fun c hc => ?_, h.stops⟩
  obtain ⟨hpoint, hcolon, hname⟩ := h.agrees c hc
  refine ⟨?_, hpoint, hcolon⟩
  cases hclass : isNameChar c with
  | false => rfl
  | true =>
      obtain ⟨hletter, hmem⟩ := hname hclass
      rw [hrest c hmem] at hletter
      exact hletter.symm

/-- The first character of an operator that can stand behind a phrase of the level, with or without
a gap between them. -/
structure Parts (l : Level) (c : Char) : Prop where
  /-- It is not a part of the gap. -/
  visible : isGap c = false
  /-- It is a sign or a letter. -/
  letter : isNameChar c = true → isAlphabetic c = true
  /-- It is not the point of a number or a field. -/
  point : c ≠ '.'
  /-- It is not the colon of a type or a name space. -/
  colon : c ≠ ':'
  /-- It does not continue the phrase. -/
  stops : c.toLower ∉ l.continues

theorem parts_of_isMark (hc : isMark c = true) (hl : c.toLower ∉ l.continues) : Parts l c := by
  simp only [isMark, Bool.and_eq_true, Bool.not_eq_true', bne_iff_ne, ne_eq] at hc
  refine ⟨hc.1.1.2, fun h => ?_, hc.1.2, hc.2, hl⟩
  rw [hc.1.1.1] at h
  exact absurd h (by decide)

theorem parts_of_isAlphabetic (hc : isAlphabetic c = true) (hl : c.toLower ∉ l.continues) :
    Parts l c := by
  have hname := isNameChar_of_isAlphabetic hc
  have hdots : ∀ d ∈ ['.', ':'], c ≠ d := ne_of_class (p := isNameChar) hname (by decide)
  exact ⟨isGap_of_isNameChar hname, fun _ => hc, hdots _ (by simp), hdots _ (by simp), hl⟩

/-- Texts with the same gap and the same operator in front fit for each other. -/
theorem Parts.fits (hc : Parts l c) (hg : g.all isGap = true) (t u : List Char) :
    Fits l (g ++ c :: t) (g ++ c :: u) := by
  constructor
  · intro d hd
    cases g with
    | nil =>
        obtain rfl : c = d := by simpa using hd
        exact ⟨hc.point, hc.colon, fun hname => ⟨hc.letter hname, rfl⟩⟩
    | cons x g =>
        obtain rfl : x = d := by simpa using hd
        obtain ⟨hname, hpoint, hcolon⟩ :=
          boundary_of_isGap (List.all_eq_true.mp hg x (by simp))
        exact ⟨hpoint, hcolon, fun h => absurd (hname.symm.trans h) (by decide)⟩
  · intro d hd
    rw [skipGap_append hg, skipGap_cons hc.visible] at hd
    obtain rfl : c = d := by simpa using hd
    exact hc.stops

/-- What stands behind a gap is left by skipping it, also with the same character in front of
another text. -/
theorem skipGap_of_head (hs : skipGap s = s) (h : t.head? = s.head?) : skipGap t = t := by
  cases t with
  | nil => rfl
  | cons c t =>
      refine skipGap_cons (isGap_head_skipGap (s := s) ?_) t
      rw [hs, ← h]
      rfl

/-- What stands behind a gap has no gap in front of it, whatever follows it. -/
theorem skipGap_front (hne : w ≠ []) (h : skipGap s = w ++ rest) (r : List Char) :
    skipGap (w ++ r) = w ++ r := by
  refine skipGap_of_head (skipGap_skipGap s) ?_
  rw [h, List.head?_append_of_ne_nil _ hne, List.head?_append_of_ne_nil _ hne]

theorem exists_gap (s : List Char) : ∃ g, g.all isGap = true ∧ s = g ++ skipGap s :=
  skips_skipGap s

/-! ## Reserved words -/

/-- A word that is found is a spelling of it with a gap behind, which may be empty. -/
theorem spelled_of_keyword {word : List Char} (h : keyword word s = some rest) :
    ∃ u g, lowerAscii u = word ∧ g.all isGap = true ∧ skipGap s = u ++ (g ++ rest) ∧
      (∀ c ∈ (g ++ rest).head?, isNameChar c = false) ∧ skipGap rest = rest := by
  simp only [keyword, Option.bind_eq_some_iff] at h
  obtain ⟨after, hstrip, hend⟩ := h
  obtain ⟨u, hu, hspelled⟩ := stripWord_eq_some hstrip
  split at hend
  · simp at hend
  · rename_i hfree
    obtain rfl := Option.some.inj hend
    obtain ⟨g, hg, hafter⟩ := exists_gap after
    refine ⟨u, g, hspelled, hg, by rw [hu, ← hafter], ?_, skipGap_skipGap after⟩
    rw [← hafter]
    exact startsInName_eq_false.mp (by simpa using hfree)

/-- The second text starts with a character of a name only if the first one starts with it too. -/
def KeepsWord (rest r : List Char) : Prop := ∀ c ∈ r.head?, isNameChar c = true → c ∈ rest.head?

theorem Agrees.keepsWord (h : Agrees rest r) : KeepsWord rest r := fun c hc hname =>
  ((h c hc).2.2 hname).2

theorem keepsWord_of_head (h : r.head? = rest.head?) : KeepsWord rest r := fun _ hc _ => h ▸ hc

/-- A class of characters of names that ends before the first text ends before the other one. -/
theorem KeepsWord.free (h : KeepsWord rest r) {q : Char → Bool}
    (hq : ∀ c, q c = true → isNameChar c = true) (p : List Char)
    (hfree : ∀ c ∈ (p ++ rest).head?, q c = false) : ∀ c ∈ (p ++ r).head?, q c = false := by
  cases p with
  | cons x p => simpa using hfree
  | nil =>
      intro c hc
      cases hclass : q c with
      | false => rfl
      | true =>
          rw [← hclass]
          exact hfree c (h c hc (hq c hclass))

/-- A word that is found is found again before another text. -/
theorem keyword_again {word : List Char} (hword : word ∈ reservedWords)
    (h : keyword word s = some rest) :
    ∃ c w, isAlphabetic c = true ∧ word.head? = some c.toLower ∧ skipGap s = c :: w ++ rest ∧
      skipGap rest = rest ∧
      ∀ r t, KeepsWord rest r → skipGap t = c :: w ++ r → keyword word t = some (skipGap r) := by
  obtain ⟨u, g, hu, hg, hskip, hend, hrest⟩ := spelled_of_keyword h
  cases u with
  | nil =>
      rw [← hu] at hword
      exact absurd hword (by decide)
  | cons c u =>
      have hletter := isAlphabetic_of_spelling hword hu c (by simp)
      refine ⟨c, u ++ g, hletter, by rw [← hu]; rfl, by simpa using hskip, hrest, fun r t hr ht => ?_⟩
      rw [keyword_append hu (hr.free (fun _ hc => hc) g hend) (by simpa using ht),
        skipGap_append hg]

/-! ## Operators -/

/-- The recogniser finds a token that follows phrases of the level, and finds it again before
every text that starts with the same character. -/
def IsOperator {β : Type} (op : Lexer β) (l : Level) : Prop :=
  ∀ s f t, op s = some (f, t) → ∃ g c p, g.all isGap = true ∧ s = g ++ c :: (p ++ skipGap t) ∧
    Parts l c ∧ ∀ u v, u.head? = (skipGap t).head? → skipGap v = c :: (p ++ u) →
      ∃ behind, skipGap behind = u ∧ op v = some (f, behind)

theorem IsOperator.map {β γ : Type} {op : Lexer β} (h : IsOperator op l) (f : β → γ) :
    IsOperator (fun s => (op s).map fun (b, rest) => (f b, rest)) l := by
  intro s b t hfound
  simp only [Option.map_eq_some_iff, Prod.mk.injEq, Prod.exists] at hfound
  obtain ⟨a, t, hop, rfl, rfl⟩ := hfound
  obtain ⟨g, c, p, hg, hs, hc, hagain⟩ := h s a t hop
  refine ⟨g, c, p, hg, hs, hc, fun u v hu hv => ?_⟩
  obtain ⟨behind, hbehind, hread⟩ := hagain u v hu hv
  exact ⟨behind, hbehind, by simp [hread]⟩

/-- A sign is stripped from all texts that start with it. -/
theorem stripSign_isSome {sign : List Char} : (stripSign sign s).isSome = true ↔ sign <+: s := by
  constructor
  · intro h
    obtain ⟨rest, hrest⟩ := Option.isSome_iff_exists.mp h
    exact ⟨rest, (stripSign_eq_some hrest).symm⟩
  · rintro ⟨rest, rfl⟩
    rw [stripSign_append]
    rfl

/-- A sign of at most two characters is missing where it is missing before a text with the same two
characters in front. -/
theorem stripSign_none_of_head {sign : List Char} (hlen : sign.length ≤ 2)
    (h : stripSign sign (c :: s) = none) (hhead : t.head? = s.head?) :
    stripSign sign (c :: t) = none := by
  rw [← Option.not_isSome_iff_eq_none, stripSign_isSome] at h ⊢
  rintro ⟨rest, hrest⟩
  apply h
  match sign, hlen, hrest with
  | [], _, _ => exact List.nil_prefix
  | [x], _, hrest =>
      obtain rfl : x = c := by simpa using congrArg List.head? hrest
      exact ⟨s, rfl⟩
  | [x, y], _, hrest =>
      obtain ⟨rfl, ht⟩ : x = c ∧ y :: rest = t := by simpa using hrest
      rw [← ht, List.head?_cons] at hhead
      obtain ⟨s', rfl⟩ := List.head?_eq_some_iff.mp hhead.symm
      exact ⟨s', rfl⟩

/-- A sign that is found in a table of signs of at most two characters is found again before every
text that starts with the same character. -/
theorem signIn_again {α : Type} {signs : List (List Char × α)} {f : α}
    (hlen : ∀ sign ∈ signs, sign.1 ≠ [] ∧ sign.1.length ≤ 2) (h : signIn signs s = some (f, t)) :
    ∃ sign ∈ signs, ∃ g, g.all isGap = true ∧ skipGap s = sign.1 ++ (g ++ t) ∧ skipGap t = t ∧
      ∀ u v, u.head? = t.head? → skipGap v = sign.1 ++ (g ++ u) →
        signIn signs v = some (f, u) := by
  rw [signIn, List.findSome?_eq_some_iff] at h
  obtain ⟨before, sign, after, hsigns, hsign, hbefore⟩ := h
  simp only [Option.map_eq_some_iff, Prod.mk.injEq] at hsign
  obtain ⟨behind, hstrip, rfl, rfl⟩ := hsign
  obtain ⟨g, hg, hbehind⟩ := exists_gap behind
  have hskip : skipGap s = sign.1 ++ (g ++ skipGap behind) := by
    rw [stripSign_eq_some hstrip, ← hbehind]
  refine ⟨sign, by simp [hsigns], g, hg, hskip, skipGap_skipGap behind, fun u v hu hv => ?_⟩
  rw [signIn, List.findSome?_eq_some_iff]
  refine ⟨before, sign, after, hsigns, ?_, fun other hother => ?_⟩
  · have hgap : skipGap u = u := skipGap_of_head (skipGap_skipGap behind) hu
    simp [hv, stripSign_append, skipGap_append hg, hgap]
  · -- an earlier sign of the table is missing here because it was missing there
    have hmiss := hbefore other hother
    rw [Option.map_eq_none_iff, hskip] at hmiss
    rw [Option.map_eq_none_iff, hv]
    obtain ⟨c, cs, hspelled⟩ := List.exists_cons_of_ne_nil (hlen sign (by simp [hsigns])).1
    rw [hspelled] at hmiss ⊢
    refine stripSign_none_of_head (hlen other (by simp [hsigns, hother])).2 hmiss ?_
    simp [List.head?_append, hu]

/-- A table of signs of at most two characters is an operator behind every level that none of them
continues. -/
theorem isOperator_signIn {α : Type} {signs : List (List Char × α)}
    (hlen : ∀ sign ∈ signs, sign.1 ≠ [] ∧ sign.1.length ≤ 2)
    (hmarks : headsSatisfy (fun c => isMark c && !(l.continues.contains c.toLower)) signs = true) :
    IsOperator (signIn signs) l := by
  intro s f t hfound
  obtain ⟨sign, hmem, g', hg', hskip, ht, hagain⟩ := signIn_again hlen hfound
  obtain ⟨c, cs, hspelled, hhead⟩ := exists_head hmarks hmem
  obtain ⟨hmark, hstop⟩ : isMark c = true ∧ c.toLower ∉ l.continues := by simpa using hhead
  obtain ⟨g, hg, hs⟩ := exists_gap s
  rw [hspelled, List.cons_append, ← List.append_assoc] at hskip
  refine ⟨g, c, cs ++ g', hg, by rw [ht, ← hskip]; exact hs, parts_of_isMark hmark hstop,
    fun u v hu hv => ?_⟩
  rw [ht] at hu
  refine ⟨u, skipGap_of_head ht hu, hagain u v hu ?_⟩
  rw [hv, hspelled, List.append_assoc, List.cons_append]

theorem isOperator_mathBetween {signs : List (List Char × MathOp)}
    (hlen : ∀ sign ∈ signs, sign.1 ≠ [] ∧ sign.1.length ≤ 2)
    (hmarks : headsSatisfy (fun c => isMark c && !(l.continues.contains c.toLower)) signs = true) :
    IsOperator (mathBetween signs) l :=
  (isOperator_signIn hlen hmarks).map fun op l r => Expr.math l op r

/-- A reserved word is an operator behind every level that its first letter does not continue. -/
theorem isOperator_wordBetween {word : List Char} (hword : word ∈ reservedWords) {x : Char}
    (hfirst : word.head? = some x) (hl : x ∉ l.continues) (node : Expr → Expr → Expr) :
    IsOperator (wordBetween word node) l := by
  intro s f t hfound
  simp only [wordBetween, Option.map_eq_some_iff, Prod.mk.injEq] at hfound
  obtain ⟨t, hread, rfl, rfl⟩ := hfound
  obtain ⟨c, w, hletter, hlower, hskip, ht, hagain⟩ := keyword_again hword hread
  obtain rfl : x = c.toLower := Option.some.inj (hfirst.symm.trans hlower)
  obtain ⟨g, hg, hs⟩ := exists_gap s
  refine ⟨g, c, w, hg, by rw [ht, ← List.cons_append, ← hskip]; exact hs,
    parts_of_isAlphabetic hletter hl, fun u v hu hv => ?_⟩
  rw [ht] at hu
  have hgap : skipGap u = u := skipGap_of_head ht hu
  have hread' := hagain u v (keepsWord_of_head hu) hv
  exact ⟨u, hgap, by simp [wordBetween, hread', hgap]⟩

/-- A comma is an operator behind every level. -/
theorem isOperator_comma (hl : ',' ∉ l.continues) :
    IsOperator (fun s => (expectAfterGap ',' s).map ((), ·)) l := by
  intro s f t hfound
  simp only [Option.map_eq_some_iff, Prod.mk.injEq] at hfound
  obtain ⟨t, hcomma, -, rfl⟩ := hfound
  obtain ⟨g, hg, hs⟩ := expectAfterGap_eq_some hcomma
  obtain ⟨g', hg', ht⟩ := exists_gap t
  refine ⟨g, ',', g', hg, by rw [← ht]; exact hs, parts_of_isMark (by decide) hl,
    fun u v hu hv => ⟨g' ++ u, ?_, ?_⟩⟩
  · rw [skipGap_append hg', skipGap_of_head (skipGap_skipGap t) hu]
  · simp [expectAfterGap, hv]

/-! ## Types and numbers -/

/-- A type behind its sign, or its absence, is found again before another text. -/
theorem typeAfter_again (more s : List Char) :
    ∃ type : Option TypeText, s = typeNote (':' :: more) type ++ (typeAfter (':' :: more) s).2 ∧
      (typeAfter (':' :: more) s).1 = declared type ∧
      ((∀ c ∈ s.head?, isAlphabetic c = false) →
        ∀ c ∈ (typeAfter (':' :: more) s).2.head?, isAlphabetic c = false) ∧
      ∀ r, Agrees (typeAfter (':' :: more) s).2 r →
        typeAfter (':' :: more) (typeNote (':' :: more) type ++ r) = (declared type, r) := by
  rcases typeNote_typeAfter (':' :: more) s with ⟨htype, hs⟩ | ⟨letters, hs, hspelled, hend⟩
  · refine ⟨none, hs, htype, fun hfree => ?_, fun r hr => ?_⟩
    · rwa [← hs]
    · exact typeAfter_none fun c hc => (hr c hc).2.1
  · refine ⟨some ⟨_, letters, hspelled⟩, ?_, rfl, fun _ => hend, fun r hr => ?_⟩
    · simpa [typeNote] using hs
    · have hfree := hr.keepsWord.free (fun _ => isNameChar_of_isAlphabetic) [] hend
      have hread : typeAfter (':' :: more) (':' :: more ++ (letters ++ r)) = (_, r) :=
        typeAfter_append hspelled hfree
      simpa [typeNote, declared] using hread

theorem digits_again {ds : List Char} (h : digits s = some (ds, rest)) :
    IsDigits ds ∧ s = ds ++ rest ∧ ∀ c ∈ rest.head?, c.isDigit = false := by
  obtain ⟨hds, hs⟩ := isDigits_of_digits h
  refine ⟨hds, hs, ?_⟩
  rw [digits] at h
  split at h
  · simp at h
  · simp only [Option.some.injEq, Prod.mk.injEq] at h
    obtain ⟨-, rfl⟩ := h
    exact fun c hc => head_dropWhile hc

theorem isNameChar_of_ofChar? {m : Mark} (h : Mark.ofChar? c = some m) : isNameChar c = true := by
  have hletters : ∀ d ∈ Mark.long.letters ++ Mark.float.letters ++ Mark.double.letters,
      isNameChar d = true := forall_mem_of_all (by decide)
  have hc := mem_letters_of_ofChar? h
  apply hletters
  cases m <;> simp [hc]

/-- A mark, or its absence, is found again before another text. -/
theorem mark_again (s : List Char) :
    ∃ letter, (∀ c ∈ letter, isNameChar c = true) ∧ s = letter ++ (mark s).2 ∧
      ∀ r, Agrees (mark s).2 r → mark (letter ++ r) = ((mark s).1, r) := by
  have hbare : ∀ {s : List Char}, (∀ c ∈ s.head?, (Mark.ofChar? c).isSome = false) →
      mark s = (none, s) := by
    intro s hs
    cases s with
    | nil => rfl
    | cons c s =>
        have hc : Mark.ofChar? c = none := by simpa using hs c (by simp)
        simp [mark, hc]
  by_cases hs : ∀ c ∈ s.head?, (Mark.ofChar? c).isSome = false
  · rw [hbare hs]
    refine ⟨[], by simp, rfl, fun r hr => hbare (hr.keepsWord.free ?_ [] hs)⟩
    intro c hc
    obtain ⟨m, hm⟩ := Option.isSome_iff_exists.mp hc
    exact isNameChar_of_ofChar? hm
  · cases s with
    | nil => exact absurd (by simp) hs
    | cons c s =>
        obtain ⟨m, hm⟩ : ∃ m, Mark.ofChar? c = some m := by
          simpa [Option.ne_none_iff_exists'] using hs
        have hmark : ∀ t, mark (c :: t) = (some m, t) := fun t => by simp [mark, hm]
        rw [hmark s]
        exact ⟨[c], by simpa using isNameChar_of_ofChar? hm, rfl, fun r _ => hmark r⟩

/-- A fraction, or its absence, is found again before a text that neither a point nor a digit
starts. -/
theorem fraction_pointed {fraction' : Option (List Char)} (hds : ∀ ds ∈ fraction', IsDigits ds)
    (hr : ∀ c ∈ r.head?, c ≠ '.' ∧ c.isDigit = false) :
    fraction (pointed fraction' ++ r) = (fraction', r) := by
  cases fraction' with
  | none => exact fraction_eq_none fun c hc => (hr c hc).1
  | some ds =>
      obtain ⟨hne, hall⟩ := hds ds rfl
      have hread := digits_append hne (List.all_eq_true.mp hall) fun c hc => (hr c hc).2
      simp [fraction, pointed, hread]

/-- No digit stands behind a fraction, and without one none stands there if none did before. -/
theorem isDigit_head_fraction (hs : ∀ c ∈ s.head?, c.isDigit = false) :
    ∀ c ∈ (fraction s).2.head?, c.isDigit = false := by
  rw [fraction]
  split
  · rename_i ds rest hfound
    obtain ⟨after, -, hdigits⟩ := Option.bind_eq_some_iff.mp hfound
    exact (digits_again hdigits).2.2
  · exact hs

/-- A number is found again before another text. -/
theorem literal_again {n : Literal} (h : literal s = some (n, rest)) :
    ∃ w, w ≠ [] ∧ s = w ++ rest ∧ ∀ r, Agrees rest r → literal (w ++ r) = some (n, r) := by
  obtain ⟨negative, unsigned, whole, after, rfl, hdigits, rfl, rfl⟩ := digits_of_literal h
  obtain ⟨⟨hne, hwhole⟩, rfl, hend⟩ := digits_again hdigits
  obtain ⟨hfraction, hafter⟩ := pointed_fraction after
  obtain ⟨letter, hletter, hmark, hagain⟩ := mark_again (fraction after).2
  have hbehind := isDigit_head_fraction hend
  rw [hafter, hmark, ← List.append_assoc] at hend
  rw [hmark] at hbehind
  refine ⟨minus negative ++ (whole ++ (pointed (fraction after).1 ++ letter)), by simp [hne], ?_,
    fun r hr => ?_⟩
  · simp only [List.append_assoc]
    rw [← hmark, ← hafter]
  · have hkeeps := hr.keepsWord
    have hpoint : ∀ c ∈ (letter ++ r).head?, c ≠ '.' ∧ c.isDigit = false := by
      intro c hc
      refine ⟨?_, hkeeps.free (fun _ => isNameChar_of_isDigit) letter hbehind c hc⟩
      cases letter with
      | nil => exact (hr c hc).1
      | cons x letter =>
          obtain rfl : x = c := by simpa using hc
          rintro rfl
          exact absurd (hletter '.' (by simp)) (by decide)
    have hstart := hkeeps.free (fun _ => isNameChar_of_isDigit) (pointed (fraction after).1 ++ letter)
      hend
    simp only [List.append_assoc] at hstart ⊢
    rw [literal_minus negative hne (List.all_eq_true.mp hwhole) hstart,
      fraction_pointed hfraction hpoint, hagain r hr]

end Pushdown.Condition
