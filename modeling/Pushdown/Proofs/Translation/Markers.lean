import Pushdown.Proofs.Condition.Built
import Pushdown.Proofs.Translation.Rendering

/-!
# Markers and bind values

In the fragment of a condition text, the first character of a marker stands only where a marker
does. Read from the left, the markers are those of the ordinals from zero on, each followed by a
space or by the end of the text, and there are as many of them as bind values
(`occurrences_translate`).

The text of a parsed tree is made of names, words, signs and markers. Only the markers have
their first character in them (`marks_render`), and trimming cuts off blanks only.
-/

namespace Pushdown

open Text

/-- The first character of every marker of the dialect. -/
def Dialect.lead : Dialect → Char
  | .postgres => '$'
  | .oracle => ':'
  | .sqlserver => '@'
  | .generic | .mysql | .sqlite | .h2 => '?'

/-- The ends of a text that start with the character, from left to right. -/
def occurrences (c : Char) : List Char → List (List Char)
  | [] => []
  | d :: t => if d = c then (d :: t) :: occurrences c t else occurrences c t

section Occurrences

variable {c : Char} {t u : List Char}

theorem occurrences_append (c : Char) (t u : List Char) :
    occurrences c (t ++ u) = (occurrences c t).map (· ++ u) ++ occurrences c u := by
  induction t with
  | nil => rfl
  | cons d t ih =>
      by_cases hd : d = c
      · simp [occurrences, hd, ih]
      · simp [occurrences, hd, ih]

theorem occurrences_eq_nil (h : c ∉ t) : occurrences c t = [] := by
  induction t with
  | nil => rfl
  | cons d t ih =>
      simp only [List.mem_cons, not_or] at h
      simp [occurrences, Ne.symm h.1, ih h.2]

end Occurrences

/-! ## Markers -/

/-- The part of a marker behind its first character. -/
def Dialect.markerTail (d : Dialect) (k : Nat) : List Char :=
  match d with
  | .postgres | .oracle => Nat.toDigits 10 (k + 1)
  | .sqlserver => 'p' :: Nat.toDigits 10 (k + 1)
  | .generic | .mysql | .sqlite | .h2 => []

namespace Dialect

theorem toList_marker (d : Dialect) (k : Nat) :
    (d.marker k).toList = d.lead :: d.markerTail k := by
  cases d <;> simp [marker, lead, markerTail]

theorem isNameChar_markerTail (d : Dialect) (k : Nat) :
    ∀ c ∈ d.markerTail k, isNameChar c = true := by
  have hdigits : ∀ c ∈ Nat.toDigits 10 (k + 1), isNameChar c = true := fun c hc =>
    isNameChar_of_isDigit (Nat.isDigit_of_mem_toDigits (by decide) (by decide) hc)
  cases d with
  | postgres | oracle => exact hdigits
  | sqlserver =>
      intro c hc
      rcases List.mem_cons.mp hc with rfl | hc
      · decide
      · exact hdigits c hc
  | generic | mysql | sqlite | h2 => simp [markerTail]

theorem isNameChar_lead (d : Dialect) : isNameChar d.lead = false := by
  cases d <;> decide

/-- A text of name characters is free of the first character of markers. -/
theorem lead_not_mem (d : Dialect) {t : List Char} (h : ∀ c ∈ t, isNameChar c = true) :
    d.lead ∉ t := by
  intro hmem
  have hname := h d.lead hmem
  rw [d.isNameChar_lead] at hname
  exact absurd hname (by decide)

theorem isBlank_marker (d : Dialect) (k : Nat) : ∀ c ∈ (d.marker k).toList, isBlank c = false := by
  intro c hc
  rw [toList_marker] at hc
  rcases List.mem_cons.mp hc with rfl | hc
  · cases d <;> decide
  · cases hblank : isBlank c with
    | false => rfl
    | true =>
        have hname := d.isNameChar_markerTail k c hc
        rw [isNameChar_of_isBlank hblank] at hname
        exact hname.symm

end Dialect

/-! ## Texts with consecutive markers -/

/-- The first character of markers starts so many markers in the text, with consecutive ordinals
from the given one on and a space behind each, and occurs nowhere else. -/
structure Marks (d : Dialect) (k n : Nat) (text : String) : Prop where
  /-- How often the character occurs. -/
  count : (occurrences d.lead text.toList).length = n
  /-- A marker stands wherever it occurs. -/
  each : ∀ i part, (occurrences d.lead text.toList)[i]? = some part →
    ∃ rest, part = (d.marker (k + i)).toList ++ ' ' :: rest

namespace Marks

variable {d : Dialect} {k n m : Nat} {s t : String}

theorem free (k : Nat) (h : d.lead ∉ s.toList) : Marks d k 0 s := by
  constructor
  · simp [occurrences_eq_nil h]
  · simp [occurrences_eq_nil h]

/-- The ordinals of a text go on where those of the text before it end. -/
theorem append (hs : Marks d k n s) (ht : Marks d (k + n) m t) : Marks d k (n + m) (s ++ t) := by
  constructor
  · simp [occurrences_append, hs.count, ht.count]
  · intro i part hpart
    rw [String.toList_append, occurrences_append, List.getElem?_append] at hpart
    simp only [List.length_map, hs.count] at hpart
    split at hpart
    · rw [List.getElem?_map, Option.map_eq_some_iff] at hpart
      obtain ⟨start, hstart, rfl⟩ := hpart
      obtain ⟨rest, rfl⟩ := hs.each i start hstart
      exact ⟨rest ++ t.toList, by simp⟩
    · rename_i hlt
      obtain ⟨rest, rfl⟩ := ht.each (i - n) part hpart
      exact ⟨rest, by rw [show k + n + (i - n) = k + i by omega]⟩

/-- Text without markers may follow. -/
theorem write (hs : Marks d k n s) (ht : d.lead ∉ t.toList) : Marks d k n (s ++ t) :=
  hs.append (free (k + n) ht)

/-- Text without markers may stand before. -/
theorem after (hs : d.lead ∉ s.toList) (ht : Marks d k n t) : Marks d k n (s ++ t) := by
  have h := (free k hs).append (m := n) (t := t) ht
  rwa [Nat.zero_add] at h

theorem marker (d : Dialect) (k : Nat) : Marks d k 1 (d.marker k ++ " ") := by
  have hspace : ' ' ≠ d.lead := by cases d <;> decide
  have hone : occurrences d.lead (d.marker k ++ " ").toList = [(d.marker k).toList ++ [' ']] := by
    simp [d.toList_marker, occurrences, occurrences_append, hspace,
      occurrences_eq_nil (d.lead_not_mem (d.isNameChar_markerTail k))]
  constructor
  · rw [hone]
    rfl
  · intro i part hpart
    rw [hone] at hpart
    cases i with
    | zero => exact ⟨[], by simpa using hpart.symm⟩
    | succ i => simp at hpart

theorem wrapped (h : Marks d k n s) (e : Expr) : Marks d k n (wrapped e s) := by
  have hopen : d.lead ∉ "(".toList := by cases d <;> decide
  have hclose : d.lead ∉ ")".toList := by cases d <;> decide
  cases e with
  | not | isNull | eventNull | member => exact (after hopen h).write hclose
  | _ => exact h

end Marks

/-! ## The rendering of a parsed tree -/

theorem renderArgs_ordinal (c : Config) (es : List Expr)
    (ih : ∀ e ∈ es, ∀ k, (render c e k).2 = k + e.leafCount) (k : Nat) :
    (renderArgs c es k).2 = k + Expr.leafCountAll es := by
  induction es generalizing k with
  | nil => rfl
  | cons e es ihs =>
      have he := ih e (by simp)
      have hes := ihs fun a ha => ih a (by simp [ha])
      cases es with
      | nil => simp [renderArgs, Expr.leafCountAll, he]
      | cons e' es' => simp [renderArgs, Expr.leafCountAll, he, hes, Nat.add_assoc]

/-- Rendering counts the ordinal up by the bind leaves of the tree. -/
theorem render_ordinal (c : Config) (e : Expr) (k : Nat) :
    (render c e k).2 = k + e.leafCount := by
  induction e using Expr.induct generalizing k with
  | and l r ihl ihr | or l r ihl ihr | compare l op r ihl ihr | math l op r ihl ihr =>
      simp [render, Expr.leafCount, ihl, ihr, Nat.add_assoc]
  | not e ih | isNull e stream ih | member e store ih => simp [render, Expr.leafCount, ih]
  | call space name args ih =>
      simp [render, Expr.leafCount, renderArgs_ordinal c args ih]
  | eventNull | column | constant | parameter | eventField => simp [render, Expr.leafCount]

/-- The texts between names and markers have no first character of a marker. -/
theorem lead_not_mem_words (d : Dialect) :
    ∀ t ∈ ["(", ")", " ", ".", ", ", " (", ") ", "AND ", "OR ", "NOT ", "IN ", "IS NULL ", "+",
      "-", "*", "/", "%"], d.lead ∉ t.toList := by
  cases d <;> decide

/-- What valid settings promise. -/
theorem validate_eq_ok {c : Config} (h : c.validate = .ok c) :
    Config.validAlias c.tableAlias = true ∧ ∀ op ∈ c.notEqual, op = "!=" ∨ op = "<>" := by
  simp only [Config.validate] at h
  split at h
  · simp at h
  · rename_i halias
    refine ⟨by simpa using halias, ?_⟩
    split at h
    · rename_i hnone
      simp [hnone]
    · rename_i op hsome
      split at h
      · rename_i hop
        simpa [hsome] using hop
      · simp at h

/-- Under valid settings the alias is a text of name characters. -/
theorem alias_of_validate {c : Config} (hvalid : c.validate = .ok c) :
    c.tableAlias.toList ≠ [] ∧ ∀ d ∈ c.tableAlias.toList, isNameChar d = true := by
  have halias := (validate_eq_ok hvalid).1
  simpa [Config.validAlias] using halias

/-- Under valid settings the not-equal comparison has one of its two spellings. -/
theorem compareSymbol_ne {c : Config} (hvalid : c.validate = .ok c) :
    c.compareSymbol .ne = "!=" ∨ c.compareSymbol .ne = "<>" := by
  cases hspelling : c.notEqual with
  | some sign =>
      have hsign := (validate_eq_ok hvalid).2 sign (by simp [hspelling])
      simpa [Config.compareSymbol, hspelling] using hsign
  | none =>
      cases hdialect : c.dialect <;>
        simp [Config.compareSymbol, Dialect.notEqual, hspelling, hdialect]

/-- The texts of comparisons in fragments. -/
def compareTexts : List String := ["=", "!=", "<>", ">", ">=", "<", "<="]

theorem compareSymbol_mem {c : Config} (hvalid : c.validate = .ok c) (op : CompareOp) :
    c.compareSymbol op ∈ compareTexts := by
  cases op with
  | ne => rcases compareSymbol_ne hvalid with h | h <;> simp [h, compareTexts]
  | eq | gt | gte | lt | lte => simp [Config.compareSymbol, compareTexts]

theorem lead_not_mem_compareSymbol {c : Config} (hvalid : c.validate = .ok c) (op : CompareOp) :
    c.dialect.lead ∉ (c.compareSymbol op).toList := by
  have hall : ∀ d : Dialect, ∀ t ∈ compareTexts, d.lead ∉ t.toList := by
    intro d
    cases d <;> decide
  exact hall c.dialect _ (compareSymbol_mem hvalid op)

theorem lead_not_mem_symbol (d : Dialect) (op : MathOp) : d.lead ∉ op.symbol.toList := by
  cases op <;> exact lead_not_mem_words _ _ (by decide)

theorem lead_not_mem_name (d : Dialect) {w : List Char} (h : isName w = true) :
    d.lead ∉ (String.ofList w).toList := by
  obtain ⟨c, cs, -, -, hchars, -⟩ := Condition.isName_cons h
  rw [String.toList_ofList]
  exact d.lead_not_mem hchars

theorem lead_not_mem_alias {c : Config} (hvalid : c.validate = .ok c) :
    c.dialect.lead ∉ c.tableAlias.toList :=
  c.dialect.lead_not_mem (alias_of_validate hvalid).2

theorem marks_renderArgs {c : Config} {es : List Expr}
    (ih : ∀ e ∈ es, ∀ k, Marks c.dialect k e.leafCount (render c e k).1) (k : Nat) :
    Marks c.dialect k (Expr.leafCountAll es) (renderArgs c es k).1 := by
  induction es generalizing k with
  | nil => exact .free k (by simp [renderArgs])
  | cons e es ihs =>
      have he := ih e (by simp)
      have hes := ihs fun a ha => ih a (by simp [ha])
      cases es with
      | nil => simpa [renderArgs, Expr.leafCountAll] using he k
      | cons e' es' =>
          have hcomma := lead_not_mem_words c.dialect ", " (by decide)
          have hboth := ((he k).write hcomma).append (hes (k + e.leafCount))
          simpa [renderArgs, render_ordinal, Expr.leafCountAll] using hboth

/-- The right operand goes on with the ordinals where the left one ends. -/
theorem marks_right {c : Config} {r : Expr} {m : Nat}
    (h : ∀ k, Marks c.dialect k m (render c r k).1) (l : Expr) (k : Nat) :
    Marks c.dialect (k + l.leafCount) m (render c r (render c l k).2).1 := by
  rw [render_ordinal]
  exact h _

/-- In the rendering of a parsed tree, the first character of markers starts the markers of the
bind leaves and occurs nowhere else. -/
theorem marks_render {c : Config} (hvalid : c.validate = .ok c) {n : Nat} {e : Expr}
    (h : Condition.Built n e) (k : Nat) : Marks c.dialect k e.leafCount (render c e k).1 := by
  have hword := lead_not_mem_words c.dialect
  have hopen := hword "(" (by decide)
  have hclose := hword ")" (by decide)
  have hspace := hword " " (by decide)
  induction h generalizing k with
  | @and n l r _ _ ihl ihr =>
      have hleft := (Marks.after hopen (ihl k)).write (hword "AND " (by decide))
      exact (hleft.append (marks_right ihr l k)).write hclose
  | @or n l r _ _ ihl ihr =>
      have hleft := (Marks.after hopen (ihl k)).write (hword "OR " (by decide))
      exact (hleft.append (marks_right ihr l k)).write hclose
  | not _ ih => exact Marks.after (hword "NOT " (by decide)) (ih k)
  | @compare n l r op _ _ ihl ihr =>
      have hsymbol := lead_not_mem_compareSymbol hvalid op
      have hleft := ((Marks.after hopen ((ihl k).wrapped l)).write hsymbol).write hspace
      exact (hleft.append ((marks_right ihr l k).wrapped r)).write hclose
  | @isNull n e _ ih => exact ((ih k).wrapped e).write (hword "IS NULL " (by decide))
  | member _ _ ih => exact Marks.after (hword "IN " (by decide)) (ih k)
  | @math n l r op _ _ ihl ihr =>
      have hsymbol := lead_not_mem_symbol c.dialect op
      have hleft := ((Marks.after hopen ((ihl k).wrapped l)).write hsymbol).write hspace
      exact (hleft.append ((marks_right ihr l k).wrapped r)).write hclose
  | literal _ | parameter | field => exact Marks.marker c.dialect k
  | @call n space function args _ hfunction _ ih =>
      have hname := Marks.free k (lead_not_mem_name c.dialect hfunction)
      have hhead := hname.write (hword " (" (by decide))
      have hcall := (hhead.append (marks_renderArgs ih k)).write (hword ") " (by decide))
      rwa [Nat.zero_add] at hcall
  | @column n attr hattr type =>
      have halias := (Marks.free k (lead_not_mem_alias hvalid)).write (hword "." (by decide))
      exact (halias.write (lead_not_mem_name c.dialect hattr)).write hspace

/-! ## Trimming -/

/-- What is left of an end of a text when blanks are cut off behind it: a marker and a space, or
a marker and nothing. -/
theorem marker_of_append {part marker rest blanks : List Char}
    (h : part ++ blanks = marker ++ ' ' :: rest) (hblanks : ∀ c ∈ blanks, isBlank c = true)
    (hmarker : ∀ c ∈ marker, isBlank c = false) :
    ∃ after, part = marker ++ after ∧ ∀ c ∈ after.head?, c = ' ' := by
  rcases List.append_eq_append_iff.mp h with ⟨more, rfl, hmore⟩ | ⟨more, rfl, hmore⟩
  · -- the cut lies in the marker, so it lies at its end
    cases more with
    | nil => exact ⟨[], by simp, by simp⟩
    | cons c more =>
        have hblank := hblanks c (by simp [hmore])
        rw [hmarker c (by simp)] at hblank
        exact absurd hblank (by decide)
  · refine ⟨more, rfl, fun c hc => ?_⟩
    obtain ⟨more, rfl⟩ := List.head?_eq_some_iff.mp hc
    simpa using (List.cons.inj hmore).1.symm

theorem Dialect.lead_not_mem_blanks (d : Dialect) {t : List Char}
    (h : ∀ c ∈ t, isBlank c = true) : d.lead ∉ t := by
  intro hmem
  have hblank := h d.lead hmem
  cases d <;> exact absurd hblank (by decide)

/-- The markers of a trimmed text are those of the text. -/
theorem Marks.trimmed {d : Dialect} {n : Nat} {s : String} (h : Marks d 0 n s) :
    (occurrences d.lead (Text.trimmed s).toList).length = n ∧
      ∀ k part, (occurrences d.lead (Text.trimmed s).toList)[k]? = some part →
        ∃ rest, part = (d.marker k).toList ++ rest ∧ ∀ c ∈ rest.head?, c = ' ' := by
  obtain ⟨before, after, hsplit, hbefore, hafter⟩ := exists_trim s.toList
  have hparts : occurrences d.lead s.toList =
      (occurrences d.lead (trim s.toList)).map (· ++ after) := by
    calc occurrences d.lead s.toList
        = occurrences d.lead (before ++ trim s.toList ++ after) := congrArg _ hsplit
      _ = (occurrences d.lead (trim s.toList)).map (· ++ after) := by
          simp [occurrences_append, occurrences_eq_nil (d.lead_not_mem_blanks hbefore),
            occurrences_eq_nil (d.lead_not_mem_blanks hafter)]
  rw [Text.trimmed, String.toList_ofList]
  refine ⟨by simpa [hparts] using h.count, fun k part hpart => ?_⟩
  obtain ⟨rest, hrest⟩ := h.each k (part ++ after) (by simp [hparts, hpart])
  rw [Nat.zero_add] at hrest
  exact marker_of_append hrest hafter (d.isBlank_marker k)

/-- In the fragment of a condition text under valid settings, the first character of markers
occurs once for each bind value. Its occurrences start, from left to right, the markers of the
ordinals from zero on, and each marker ends there: a space or nothing follows it. There are as
many bind values as the tree of the condition has bind leaves. -/
theorem occurrences_translate {text : String} {e : Expr} {c : Config} {f : Fragment}
    (hparse : Condition.parse text = .ok e) (hvalid : c.validate = .ok c)
    (htranslate : translate e c = .ok f) :
    (occurrences c.dialect.lead f.sql.toList).length = f.parameters.length ∧
      (∀ k part, (occurrences c.dialect.lead f.sql.toList)[k]? = some part →
        ∃ rest, part = (c.dialect.marker k).toList ++ rest ∧ ∀ d ∈ rest.head?, d = ' ') ∧
      f.parameters.length = e.leafCount := by
  have hmarks := (marks_render hvalid (Condition.built_of_parse hparse) 0).trimmed
  have hfragment := htranslate.symm.trans (translate_of_isPlain c (isPlain_of_translate htranslate))
  obtain rfl := Except.ok.inj hfragment
  exact ⟨by rw [hmarks.1, Expr.length_leaves], hmarks.2, e.length_leaves⟩

/-- A condition with more than ten bind values, whose first marker is the beginning of its tenth
one. -/
def elevenLeaves : Expr :=
  .compare
    (.call none "f" ([1, 2, 3, 4, 5, 6, 7, 8, 9].map (fun k => .literal (.int k)) ++
      [.parameter 0 .object, .column none "x" .object])) .eq
    (.streamField "S" "b" .object)

theorem occurrences_translate_eleven :
    ∃ f, Condition.parse "f(1, 2, 3, 4, 5, 6, 7, 8, 9, $0, x) = S.b" = .ok elevenLeaves ∧
      Config.validate { dialect := .postgres } = .ok { dialect := .postgres } ∧
      translate elevenLeaves { dialect := .postgres } = .ok f ∧
      f.sql = "(f ($1 , $2 , $3 , $4 , $5 , $6 , $7 , $8 , $9 , $10 , t.x ) = $11 )" ∧
      (occurrences '$' f.sql.toList).length = f.parameters.length ∧
      (∀ k part, (occurrences '$' f.sql.toList)[k]? = some part →
        ∃ rest, part = (Dialect.postgres.marker k).toList ++ rest ∧ ∀ d ∈ rest.head?, d = ' ') ∧
      f.parameters.length = 11 := by
  have hparse : Condition.parse "f(1, 2, 3, 4, 5, 6, 7, 8, 9, $0, x) = S.b" =
      .ok elevenLeaves := by
    decide +kernel
  have hvalid : Config.validate { dialect := .postgres } = .ok { dialect := .postgres } := by
    decide
  have hplain : elevenLeaves.isPlain = true := by decide
  have htranslate := translate_of_isPlain { dialect := .postgres } hplain
  obtain ⟨hcount, heach, hleaves⟩ := occurrences_translate hparse hvalid htranslate
  exact ⟨_, hparse, hvalid, htranslate, by decide +kernel, hcount, heach, hleaves⟩

end Pushdown
