import Pushdown.Proofs.Translation.Markers
import Pushdown.Proofs.Translation.Skeleton

/-!
# Reading a fragment back

The text of a fragment keeps the grouping of its tree: `readBack` finds the skeleton of the tree
again in the text (`readBack_translate`). Two condition texts with one fragment text therefore
have trees with one skeleton (`skeleton_eq_of_sql_eq`).

A negation, a null check and a membership have no parentheses of their own. They are told apart
because the words `NOT` and `IN` stand before their operand and reach as far as possible, whereas
`IS NULL` stands behind an operand that needs no continuation.

## Implementation notes

A text is first cut into atoms, which are parentheses, commas and words. Blanks only end words, so
that the atoms of a trimmed text are those of the text. The reader of atoms has a budget, which the
number of atoms bounds.

What is read back is stated of atoms in two ways. `Complete` atoms are a whole tree if no null
check follows them. `Standing` atoms are an operand whatever follows them.
-/

namespace Pushdown

open Text

/-! ## Atoms of a text -/

/-- A parenthesis, a comma or a word of a fragment. -/
inductive Atom
  /-- An opening parenthesis. -/
  | opening
  /-- A closing parenthesis. -/
  | closing
  /-- A comma. -/
  | comma
  /-- A run of other characters between blanks. -/
  | word (letters : List Char)
  deriving DecidableEq

/-- The character belongs to a word. -/
def isWordChar (c : Char) : Bool := !isBlank c && c != '(' && c != ')' && c != ','

/-- The text starts in a word. -/
def startsWord : List Char → Bool
  | [] => false
  | c :: _ => isWordChar c

/-- The atoms of a text with one more character in front of it. The character goes into the first
word if the text starts with one. -/
def Atom.add (c : Char) (joined : Bool) (as : List Atom) : List Atom :=
  if c = '(' then .opening :: as
  else if c = ')' then .closing :: as
  else if c = ',' then .comma :: as
  else if isBlank c then as
  else
    match joined, as with
    | true, .word w :: as => .word (c :: w) :: as
    | _, as => .word [c] :: as

/-- The atoms of a text. -/
def atoms : List Char → List Atom
  | [] => []
  | c :: t => Atom.add c (startsWord t) (atoms t)

theorem Atom.add_wordChar {c : Char} (hc : isWordChar c = true) (joined : Bool)
    (as : List Atom) :
    Atom.add c joined as =
      match joined, as with
      | true, .word w :: as => .word (c :: w) :: as
      | _, as => .word [c] :: as := by
  simp only [isWordChar, Bool.and_eq_true, bne_iff_ne, Bool.not_eq_true'] at hc
  obtain ⟨⟨⟨hblank, hopen⟩, hclose⟩, hcomma⟩ := hc
  simp [Atom.add, hblank, hopen, hclose, hcomma]

theorem atoms_blank {c : Char} (hc : isBlank c = true) (t : List Char) :
    atoms (c :: t) = atoms t := by
  have hmarks : ∀ d ∈ ['(', ')', ','], c ≠ d := ne_of_class hc (by decide)
  simp only [List.mem_cons, List.not_mem_nil, or_false, forall_eq_or_imp, forall_eq] at hmarks
  simp [atoms, Atom.add, hc, hmarks]

theorem exists_word_of_startsWord {t : List Char} (h : startsWord t = true) :
    ∃ w as, atoms t = .word w :: as := by
  cases t with
  | nil => simp [startsWord] at h
  | cons c t =>
      rw [atoms, Atom.add_wordChar h]
      split
      · exact ⟨_, _, rfl⟩
      · exact ⟨_, _, rfl⟩

/-- More atoms may follow those that a character is added to. -/
theorem Atom.add_append {c : Char} {joined : Bool} {as : List Atom}
    (h : joined = true → ∃ w rest, as = .word w :: rest) (bs : List Atom) :
    Atom.add c joined (as ++ bs) = Atom.add c joined as ++ bs := by
  cases joined with
  | false => simp only [Atom.add]; split_ifs <;> rfl
  | true =>
      obtain ⟨w, rest, rfl⟩ := h rfl
      simp only [Atom.add]
      split_ifs <;> rfl

theorem Atom.add_of_not_wordChar {c : Char} (hc : isWordChar c = false) (joined : Bool)
    (as : List Atom) : Atom.add c joined as = Atom.add c false [] ++ as := by
  simp only [Atom.add]
  split_ifs <;> simp_all [isWordChar]

/-- The atoms of two texts, the first of which does not end in a word. -/
theorem atoms_append {s : List Char} (hs : ∀ c ∈ s.getLast?, isWordChar c = false)
    (t : List Char) : atoms (s ++ t) = atoms s ++ atoms t := by
  induction s with
  | nil => rfl
  | cons c s ih =>
      cases s with
      | nil =>
          have hc := hs c (by simp)
          rw [List.singleton_append, atoms, Atom.add_of_not_wordChar hc]
          rfl
      | cons d s =>
          have hrest := ih fun x hx => hs x (by simpa [List.getLast?_cons_cons] using hx)
          calc atoms (c :: (d :: s ++ t))
              = Atom.add c (startsWord (d :: s)) (atoms (d :: s ++ t)) := rfl
            _ = Atom.add c (startsWord (d :: s)) (atoms (d :: s) ++ atoms t) := by rw [hrest]
            _ = atoms (c :: d :: s) ++ atoms t := Atom.add_append exists_word_of_startsWord _

/-- A word is one atom if another word does not follow it at once. -/
theorem atoms_word_append {w t : List Char} (hne : w ≠ []) (hw : ∀ c ∈ w, isWordChar c = true)
    (ht : startsWord t = false) : atoms (w ++ t) = .word w :: atoms t := by
  induction w with
  | nil => exact absurd rfl hne
  | cons c w ih =>
      have hc := hw c (by simp)
      cases w with
      | nil => simp [atoms, Atom.add_wordChar hc, ht]
      | cons d w =>
          have hd := hw d (by simp)
          have hrest := ih (by simp) fun x hx => hw x (by simp [hx])
          rw [List.cons_append, atoms, hrest, Atom.add_wordChar hc]
          simp [startsWord, hd]

theorem atoms_blanks_append {blanks : List Char} (h : ∀ c ∈ blanks, isBlank c = true)
    (t : List Char) : atoms (blanks ++ t) = atoms t := by
  induction blanks with
  | nil => rfl
  | cons c blanks ih =>
      rw [List.cons_append, atoms_blank (h c (by simp))]
      exact ih fun d hd => h d (by simp [hd])

theorem atoms_append_blanks (t : List Char) {blanks : List Char}
    (h : ∀ c ∈ blanks, isBlank c = true) : atoms (t ++ blanks) = atoms t := by
  have hstart : startsWord blanks = false := by
    cases blanks with
    | nil => rfl
    | cons c blanks => simp [startsWord, isWordChar, h c (by simp)]
  induction t with
  | nil => simpa [atoms] using atoms_blanks_append h []
  | cons c t ih =>
      have hsame : startsWord (t ++ blanks) = startsWord t := by
        cases t with
        | nil => exact hstart
        | cons d t => rfl
      rw [List.cons_append, atoms, ih, hsame, atoms]

/-- Trimming a text takes no atoms away. -/
theorem atoms_trim (t : List Char) : atoms (trim t) = atoms t := by
  obtain ⟨before, after, hsplit, hbefore, hafter⟩ := exists_trim t
  calc atoms (trim t) = atoms (trim t ++ after) := (atoms_append_blanks _ hafter).symm
    _ = atoms (before ++ (trim t ++ after)) := (atoms_blanks_append hbefore _).symm
    _ = atoms t := by rw [← List.append_assoc, ← hsplit]

/-- The text does not end in a word and has these atoms. -/
structure Spells (text : String) (as : List Atom) : Prop where
  /-- The atoms of the text. -/
  atoms : atoms text.toList = as
  /-- The text does not end in a word. -/
  parted : ∀ c ∈ text.toList.getLast?, isWordChar c = false

namespace Spells

variable {s t : String} {as bs : List Atom}

theorem append (hs : Spells s as) (ht : Spells t bs) : Spells (s ++ t) (as ++ bs) := by
  constructor
  · rw [String.toList_append, atoms_append hs.parted, hs.atoms, ht.atoms]
  · intro c hc
    rw [String.toList_append, List.getLast?_append] at hc
    rcases Option.or_eq_some_iff.mp hc with hc | ⟨-, hc⟩
    · exact ht.parted c hc
    · exact hs.parted c hc

/-- The atoms of a text that is written out are computed. -/
theorem fixed (h : Pushdown.atoms s.toList = as ∧
    s.toList.getLast?.all (fun c => !isWordChar c) = true) : Spells s as := by
  refine ⟨h.1, fun c hc => ?_⟩
  have hlast := h.2
  rw [Option.mem_def.mp hc] at hlast
  simpa using hlast

/-- A word with a space behind it. -/
theorem word {w : String} (hne : w ≠ "") (hw : ∀ c ∈ w.toList, isWordChar c = true) :
    Spells (w ++ " ") [.word w.toList] := by
  constructor
  · rw [String.toList_append, atoms_word_append (by simpa using hne) hw (by decide)]
    rfl
  · simp [isWordChar]
    decide

end Spells

/-! ## The reader of atoms -/

/-- The tree of a word that is an operand by itself: a marker, or an alias, a point and the name
of a column. -/
def wordLeaf (c : Config) (w : List Char) : Option Expr :=
  if w.head? = some c.dialect.lead then some (.constant .null .object)
  else if '.' ∈ w then
    some (.column none (String.ofList (w.dropWhile (· != '.')).tail) .object)
  else none

/-- The node that a word between two operands makes of them. -/
def nodeBetween (c : Config) (w : List Char) (l r : Expr) : Option Expr :=
  if w = "AND".toList then some (.and l r)
  else if w = "OR".toList then some (.or l r)
  else
    match CompareOp.all.find? fun op => (c.compareSymbol op).toList == w with
    | some op => some (.compare l op r)
    | none => (MathOp.all.find? fun op => op.symbol.toList == w).map fun op => .math l op r

/-- A reader of trees at the front of a list of atoms. -/
abbrev AtomReader := List Atom → Option (Expr × List Atom)

/-- Trees with commas between them and a closing parenthesis behind them. -/
def readItems (nested : AtomReader) : Nat → List Atom → Option (List Expr × List Atom)
  | 0, _ => none
  | n + 1, as =>
      match nested as with
      | some (e, .comma :: as) => (readItems nested n as).map fun (es, as) => (e :: es, as)
      | some (e, .closing :: as) => some ([e], as)
      | _ => none

/-- Arguments and the closing parenthesis behind them. -/
def readArguments (nested : AtomReader) (as : List Atom) : Option (List Expr × List Atom) :=
  match readItems nested as.length as, as with
  | some found, _ => some found
  | none, .closing :: as => some ([], as)
  | none, _ => none

/-- What stands in parentheses: one tree, or two with a word between them. -/
def readGroup (c : Config) (nested : AtomReader) : AtomReader := fun as =>
  match nested as with
  | some (e, .closing :: as) => some (e, as)
  | some (l, .word w :: as) =>
      match nested as with
      | some (r, .closing :: as) => (nodeBetween c w l r).map (·, as)
      | _ => none
  | _ => none

/-- An operand that needs no continuation. -/
def readOperand (c : Config) (nested : AtomReader) : AtomReader
  | .opening :: as => readGroup c nested as
  | .word w :: as =>
      match wordLeaf c w, as with
      | some e, _ => some (e, as)
      | none, .opening :: as =>
          (readArguments nested as).map fun (args, as) => (.call none (String.ofList w) args, as)
      | none, _ => none
  | _ => none

/-- The node of a word that stands before its operand. -/
def leadingNode : List Atom → Option ((Expr → Expr) × List Atom)
  | .word w :: as =>
      if w = "NOT".toList then some (.not, as)
      else if w = "IN".toList then some ((.member · ""), as)
      else none
  | _ => none

/-- The null check of a tree, if the words for it follow. -/
def nullChecked : Expr × List Atom → Expr × List Atom
  | (e, .word w :: .word v :: as) =>
      if w = "IS".toList ∧ v = "NULL".toList then (.isNull e none, as)
      else (e, .word w :: .word v :: as)
  | found => found

/-- A tree, within a budget of nested readings. -/
def readTree (c : Config) : Nat → AtomReader
  | 0, _ => none
  | n + 1, as =>
      match leadingNode as with
      | some (node, as) => (readTree c n as).map fun (e, as) => (node e, as)
      | none => (readOperand c (readTree c n) as).map nullChecked

/-- The skeleton of the tree that a fragment was made of. -/
def readBack (c : Config) (text : String) : Option Expr :=
  match readTree c ((atoms text.toList).length + 1) (atoms text.toList) with
  | some (e, []) => some e
  | _ => none

/-! ## What is read back -/

/-- No null check continues the atoms before these. -/
def Stops (as : List Atom) : Prop := as.head? ≠ some (.word "IS".toList)

/-- The atoms are read as the tree if no null check follows them. -/
def Complete (c : Config) (as : List Atom) (e : Expr) : Prop :=
  ∀ n rest, as.length < n → Stops rest → readTree c n (as ++ rest) = some (e, rest)

/-- The atoms are read as the tree whatever follows them. -/
structure Standing (c : Config) (as : List Atom) (e : Expr) : Prop where
  /-- They are read as an operand. -/
  operand : ∀ n rest, as.length ≤ n →
    readOperand c (readTree c n) (as ++ rest) = some (e, rest)
  /-- They do not start with a word that stands before its operand. -/
  front : ∀ rest, leadingNode (as ++ rest) = none

theorem nullChecked_of_stops {e : Expr} {as : List Atom} (h : Stops as) :
    nullChecked (e, as) = (e, as) := by
  simp only [nullChecked]
  split
  · rename_i heq
    obtain ⟨rfl, rfl⟩ := Prod.mk.inj heq
    rw [if_neg]
    rintro ⟨rfl, -⟩
    exact h rfl
  · rfl

section

variable {c : Config} {as bs : List Atom} {e l r : Expr}

/-- An operand is a tree. -/
theorem Standing.complete (h : Standing c as e) : Complete c as e := by
  intro n rest hn hrest
  cases n with
  | zero => omega
  | succ n =>
      simp [readTree, h.front, h.operand n rest (by omega), nullChecked_of_stops hrest]

/-- The words of a null check behind an operand. -/
theorem Standing.isNull (h : Standing c as e) :
    Complete c (as ++ [.word "IS".toList, .word "NULL".toList]) (.isNull e none) := by
  intro n rest hn _
  simp only [List.length_append, List.length_cons, List.length_nil] at hn
  cases n with
  | zero => omega
  | succ n =>
      rw [List.append_assoc, readTree, h.front, h.operand n _ (by omega)]
      simp [nullChecked]

/-- A word that stands before its operand, and a tree. -/
theorem Complete.leading {w : List Char} {node : Expr → Expr}
    (hw : ∀ rest, leadingNode (.word w :: rest) = some (node, rest)) (h : Complete c as e) :
    Complete c (.word w :: as) (node e) := by
  intro n rest hn hrest
  simp only [List.length_cons] at hn
  cases n with
  | zero => omega
  | succ n => simp [readTree, hw, h n rest (by omega) hrest]

/-- Parentheses around a tree make an operand of it. -/
theorem Complete.grouped (h : Complete c as e) :
    Standing c (.opening :: (as ++ [.closing])) e := by
  constructor
  · intro n rest hn
    simp only [List.length_cons, List.length_append, List.length_nil] at hn
    have hread := h n (.closing :: rest) (by omega) (by simp [Stops])
    simp [readOperand, readGroup, hread]
  · intro rest
    rfl

/-- Two trees in parentheses with a word between them. -/
theorem Complete.binary (hl : Complete c as l) (hr : Complete c bs r) {w : List Char}
    (hw : w ≠ "IS".toList) (hnode : nodeBetween c w l r = some e) :
    Standing c (.opening :: (as ++ .word w :: (bs ++ [.closing]))) e := by
  constructor
  · intro n rest hn
    simp only [List.length_cons, List.length_append, List.length_nil] at hn
    have hleft := hl n (.word w :: (bs ++ .closing :: rest)) (by omega) (by simpa [Stops] using hw)
    have hright := hr n (.closing :: rest) (by omega) (by simp [Stops])
    simp [readOperand, readGroup, hleft, hright, hnode]
  · intro rest
    rfl

/-- A word that is an operand by itself. -/
theorem standing_word {w : List Char} (h : wordLeaf c w = some e) (hnot : w ≠ "NOT".toList)
    (hin : w ≠ "IN".toList) : Standing c [.word w] e := by
  constructor
  · intro n rest _
    simp [readOperand, h]
  · intro rest
    simp only [List.singleton_append, leadingNode, if_neg hnot, if_neg hin]

/-- The atoms are read as the trees, with commas between them, up to a closing parenthesis. -/
def CompleteItems (c : Config) (as : List Atom) (es : List Expr) : Prop :=
  ∀ n m rest, as.length < n → as.length < m →
    readItems (readTree c n) m (as ++ .closing :: rest) = some (es, rest)

theorem Complete.single (h : Complete c as e) : CompleteItems c as [e] := by
  intro n m rest hn hm
  have hread := h n (.closing :: rest) hn (by simp [Stops])
  cases m with
  | zero => omega
  | succ m => simp [readItems, hread]

theorem Complete.cons {es : List Expr} (h : Complete c as e) (hs : CompleteItems c bs es) :
    CompleteItems c (as ++ .comma :: bs) (e :: es) := by
  intro n m rest hn hm
  simp only [List.length_append, List.length_cons] at hn hm
  have hread := h n (.comma :: (bs ++ .closing :: rest)) (by omega) (by simp [Stops])
  cases m with
  | zero => omega
  | succ m => simp [readItems, hread, hs n m rest (by omega) (by omega)]

/-- The atoms are read as arguments up to a closing parenthesis. -/
def CompleteArguments (c : Config) (as : List Atom) (es : List Expr) : Prop :=
  ∀ n rest, as.length < n →
    readArguments (readTree c n) (as ++ .closing :: rest) = some (es, rest)

theorem CompleteItems.arguments {es : List Expr} (h : CompleteItems c as es) :
    CompleteArguments c as es := by
  intro n rest hn
  have hread := h n (as ++ .closing :: rest).length rest hn (by simp)
  simp only [readArguments, hread]

/-- No tree starts with a closing parenthesis. -/
theorem readTree_closing (c : Config) (n : Nat) (rest : List Atom) :
    readTree c n (.closing :: rest) = none := by
  cases n <;> rfl

theorem completeArguments_nil (c : Config) : CompleteArguments c [] [] := by
  intro n rest _
  simp [readArguments, readItems, readTree_closing]

/-- A function and its arguments in parentheses. -/
theorem CompleteArguments.call {es : List Expr} (h : CompleteArguments c as es) {w : List Char}
    (hw : wordLeaf c w = none) (hnot : w ≠ "NOT".toList) (hin : w ≠ "IN".toList) :
    Standing c (.word w :: .opening :: (as ++ [.closing]))
      (.call none (String.ofList w) es) := by
  constructor
  · intro n rest hn
    simp only [List.length_cons, List.length_append, List.length_nil] at hn
    simp [readOperand, hw, h n rest (by omega)]
  · intro rest
    simp only [List.cons_append, leadingNode, if_neg hnot, if_neg hin]

end

/-! ## Words of fragments -/

theorem isWordChar_of_isNameChar {c : Char} (h : isNameChar c = true) : isWordChar c = true := by
  have hmarks : ∀ d ∈ ['(', ')', ','], c ≠ d := ne_of_class h (by decide)
  simp only [List.mem_cons, List.not_mem_nil, or_false, forall_eq_or_imp, forall_eq] at hmarks
  simp [isWordChar, isBlank_of_isNameChar h, hmarks]

theorem point_not_mem {w : List Char} (h : ∀ c ∈ w, isNameChar c = true) : '.' ∉ w :=
  fun hmem => absurd (h _ hmem) (by decide)

/-- A text of name characters does not start with the first character of markers. -/
theorem head?_ne_lead {w : List Char} (d : Dialect) (h : ∀ c ∈ w, isNameChar c = true)
    (t : List Char) (hne : w ≠ []) : (w ++ t).head? ≠ some d.lead := by
  cases w with
  | nil => exact absurd rfl hne
  | cons c w =>
      intro hlead
      have hc := h c (by simp)
      rw [Option.some.inj hlead, d.isNameChar_lead] at hc
      exact absurd hc (by decide)

theorem wordLeaf_marker (c : Config) (k : Nat) :
    wordLeaf c (c.dialect.marker k).toList = some (.constant .null .object) := by
  simp [wordLeaf, c.dialect.toList_marker]

theorem wordLeaf_column {c : Config} (hvalid : c.validate = .ok c) (name : String) :
    wordLeaf c (c.tableAlias ++ "." ++ name).toList = some (.column none name .object) := by
  obtain ⟨hne, hchars⟩ := alias_of_validate hvalid
  have hhead := head?_ne_lead c.dialect hchars ('.' :: name.toList) hne
  have hpoint : ∀ d ∈ c.tableAlias.toList, (d != '.') = true := by
    intro d hd
    rw [bne_iff_ne]
    rintro rfl
    exact point_not_mem hchars hd
  have hlist : (c.tableAlias ++ "." ++ name).toList =
      c.tableAlias.toList ++ '.' :: name.toList := by
    simp
  rw [hlist, wordLeaf, if_neg hhead, if_pos (by simp), List.dropWhile_append_of_pos hpoint]
  simp

theorem wordLeaf_name (c : Config) {w : List Char} (hw : isName w = true) :
    wordLeaf c w = none := by
  obtain ⟨d, cs, hcons, -, hchars, -⟩ := Condition.isName_cons hw
  have hhead := head?_ne_lead c.dialect hchars [] (by simp [hcons])
  rw [List.append_nil] at hhead
  rw [wordLeaf, if_neg hhead, if_neg (point_not_mem hchars)]

/-- No name is a word of fragments. -/
theorem ne_of_isName {w : List Char} (hw : isName w = true) :
    w ≠ "NOT".toList ∧ w ≠ "IN".toList := by
  constructor <;> rintro rfl <;> exact absurd hw (by decide)

theorem nodeBetween_compare {c : Config} (hvalid : c.validate = .ok c) (op : CompareOp)
    (l r : Expr) : nodeBetween c (c.compareSymbol op).toList l r = some (.compare l op r) := by
  rcases compareSymbol_ne hvalid with hne | hne <;> simp only [Config.compareSymbol] at hne <;>
    cases op <;> simp [nodeBetween, CompareOp.all, Config.compareSymbol, hne]

theorem nodeBetween_math {c : Config} (hvalid : c.validate = .ok c) (op : MathOp) (l r : Expr) :
    nodeBetween c op.symbol.toList l r = some (.math l op r) := by
  rcases compareSymbol_ne hvalid with hne | hne <;> simp only [Config.compareSymbol] at hne <;>
    cases op <;>
    simp [nodeBetween, CompareOp.all, Config.compareSymbol, hne, MathOp.all, MathOp.symbol]

/-! ## Legible texts -/

/-- The text is read back as the tree if no null check follows it. -/
def Legible (c : Config) (text : String) (e : Expr) : Prop :=
  ∃ as, Spells text as ∧ Complete c as e

/-- The text is read back as the tree whatever follows it. -/
def LegibleOperand (c : Config) (text : String) (e : Expr) : Prop :=
  ∃ as, Spells text as ∧ Standing c as e

/-- The text is read back as the arguments of a call. -/
def LegibleArguments (c : Config) (text : String) (es : List Expr) : Prop :=
  ∃ as, Spells text as ∧ CompleteArguments c as es

/-- The text is read back as trees with commas between them. -/
def LegibleItems (c : Config) (text : String) (es : List Expr) : Prop :=
  ∃ as, Spells text as ∧ CompleteItems c as es

theorem spells_opening : Spells "(" [.opening] := .fixed (by decide)

theorem spells_closing : Spells ")" [.closing] := .fixed (by decide)

theorem spells_name {w : String} (hne : w.toList ≠ [])
    (hw : ∀ c ∈ w.toList, isNameChar c = true) : Spells (w ++ " ") [.word w.toList] :=
  .word (by simpa using hne) fun c hc => isWordChar_of_isNameChar (hw c hc)

section

variable {c : Config} {s t : String} {e l r : Expr}

theorem LegibleOperand.legible (h : LegibleOperand c s e) : Legible c s e := by
  obtain ⟨as, hs, has⟩ := h
  exact ⟨as, hs, has.complete⟩

theorem LegibleOperand.isNull (h : LegibleOperand c s e) :
    Legible c (s ++ "IS NULL ") (.isNull e none) := by
  obtain ⟨as, hs, has⟩ := h
  have hword : Spells "IS NULL " [.word "IS".toList, .word "NULL".toList] :=
    .fixed (by decide)
  exact ⟨_, hs.append hword, has.isNull⟩

theorem Legible.not (h : Legible c s e) : Legible c ("NOT " ++ s) (.not e) := by
  obtain ⟨as, hs, has⟩ := h
  have hword : Spells "NOT " [.word "NOT".toList] := .fixed (by decide)
  have hlead (rest : List Atom) :
      leadingNode (.word "NOT".toList :: rest) = some (.not, rest) := by simp [leadingNode]
  exact ⟨_, hword.append hs, has.leading hlead⟩

theorem Legible.member (h : Legible c s e) : Legible c ("IN " ++ s) (.member e "") := by
  obtain ⟨as, hs, has⟩ := h
  have hword : Spells "IN " [.word "IN".toList] := .fixed (by decide)
  have hlead (rest : List Atom) :
      leadingNode (.word "IN".toList :: rest) = some ((.member · ""), rest) := by
    simp [leadingNode]
  exact ⟨_, hword.append hs, has.leading hlead⟩

theorem Legible.grouped (h : Legible c s e) : LegibleOperand c ("(" ++ s ++ ")") e := by
  obtain ⟨as, hs, has⟩ := h
  exact ⟨_, (spells_opening.append hs).append spells_closing, by simpa using has.grouped⟩

theorem Legible.binary (hl : Legible c s l) (hr : Legible c t r) {op : String} {w : List Char}
    (hop : Spells op [.word w]) (hw : w ≠ "IS".toList) (hnode : nodeBetween c w l r = some e) :
    LegibleOperand c ("(" ++ s ++ op ++ t ++ ")") e := by
  obtain ⟨as, hs, has⟩ := hl
  obtain ⟨bs, ht, hbs⟩ := hr
  have hspells := (((spells_opening.append hs).append hop).append ht).append spells_closing
  exact ⟨_, hspells, by simpa using has.binary hbs hw hnode⟩

theorem legible_items {e : Expr} {es : List Expr}
    (ih : ∀ a ∈ e :: es, ∀ k, Legible c (render c a k).1 a.skeleton) (k : Nat) :
    LegibleItems c (renderArgs c (e :: es) k).1 (Expr.outlineAll id (e :: es)) := by
  induction es generalizing e k with
  | nil =>
      obtain ⟨as, hs, has⟩ := ih e (by simp) k
      exact ⟨as, hs, has.single⟩
  | cons e' es ihs =>
      obtain ⟨as, hs, has⟩ := ih e (by simp) k
      have hrest : ∀ a ∈ e' :: es, ∀ k, Legible c (render c a k).1 a.skeleton :=
        fun a ha => ih a (List.mem_cons_of_mem e ha)
      obtain ⟨bs, ht, hbs⟩ := ihs hrest (render c e k).2
      have hcomma : Spells ", " [.comma] := .fixed (by decide)
      refine ⟨_, (hs.append hcomma).append ht, ?_⟩
      simpa [Expr.outlineAll, Expr.skeleton] using has.cons hbs

theorem legible_renderArgs {es : List Expr}
    (ih : ∀ e ∈ es, ∀ k, Legible c (render c e k).1 e.skeleton) (k : Nat) :
    LegibleArguments c (renderArgs c es k).1 (Expr.outlineAll id es) := by
  cases es with
  | nil => exact ⟨[], ⟨rfl, by simp [renderArgs]⟩, completeArguments_nil c⟩
  | cons e es =>
      obtain ⟨as, hs, has⟩ := legible_items ih k
      exact ⟨as, hs, has.arguments⟩

theorem LegibleArguments.call {es : List Expr} {w : List Char} (h : LegibleArguments c s es)
    (hw : isName w = true) :
    LegibleOperand c (String.ofList w ++ " (" ++ s ++ ") ") (.call none (String.ofList w) es) := by
  obtain ⟨as, hs, has⟩ := h
  obtain ⟨d, cs, hcons, -, hchars, -⟩ := Condition.isName_cons hw
  have hname : Spells (String.ofList w ++ " ") [.word w] := by
    simpa using spells_name (w := String.ofList w) (by simp [hcons]) (by simpa using hchars)
  have hclosing : Spells ") " [.closing] := .fixed (by decide)
  have hjoined : String.ofList w ++ " (" ++ s ++ ") " =
      String.ofList w ++ " " ++ "(" ++ s ++ ") " := by
    apply String.toList_injective
    simp
  rw [hjoined]
  exact ⟨_, ((hname.append spells_opening).append hs).append hclosing,
    by simpa using has.call (wordLeaf_name c hw) (ne_of_isName hw).1 (ne_of_isName hw).2⟩

theorem legibleOperand_marker (c : Config) (k : Nat) :
    LegibleOperand c (c.dialect.marker k ++ " ") (.constant .null .object) := by
  have hlist := c.dialect.toList_marker k
  have hchars : ∀ d ∈ (c.dialect.marker k).toList, isWordChar d = true := by
    intro d hd
    rw [hlist] at hd
    rcases List.mem_cons.mp hd with rfl | hd
    · cases c.dialect <;> decide
    · exact isWordChar_of_isNameChar (c.dialect.isNameChar_markerTail k d hd)
  have hne (w : String) (hw : w.toList.head? ≠ some c.dialect.lead) :
      (c.dialect.marker k).toList ≠ w.toList := by
    intro heq
    rw [← heq, hlist] at hw
    exact hw rfl
  refine ⟨_, .word ?_ hchars, standing_word (wordLeaf_marker c k) (hne "NOT" ?_) (hne "IN" ?_)⟩
  · intro hempty
    simp [hempty] at hlist
  · cases c.dialect <;> decide
  · cases c.dialect <;> decide

theorem legibleOperand_column (hvalid : c.validate = .ok c) {w : List Char}
    (hw : isName w = true) :
    LegibleOperand c (c.tableAlias ++ "." ++ String.ofList w ++ " ")
      (.column none (String.ofList w) .object) := by
  obtain ⟨-, -, -, -, hname, -⟩ := Condition.isName_cons hw
  have halias := (alias_of_validate hvalid).2
  have hchars : ∀ d ∈ (c.tableAlias ++ "." ++ String.ofList w).toList, isWordChar d = true := by
    intro d hd
    simp only [String.toList_append, String.toList_ofList, List.mem_append] at hd
    rcases hd with (hd | hd) | hd
    · exact isWordChar_of_isNameChar (halias d hd)
    · obtain rfl : d = '.' := by simpa using hd
      decide
    · exact isWordChar_of_isNameChar (hname d hd)
  have hne (v : String) (hv : '.' ∉ v.toList) :
      (c.tableAlias ++ "." ++ String.ofList w).toList ≠ v.toList := by
    intro heq
    rw [← heq] at hv
    simp at hv
  exact ⟨_, .word (fun hempty => hne "" (by decide) (by rw [hempty])) hchars,
    standing_word (wordLeaf_column hvalid _) (hne "NOT" (by decide)) (hne "IN" (by decide))⟩

end

/-! ## The rendering of a parsed tree -/

theorem spells_compareSymbol {c : Config} (hvalid : c.validate = .ok c) (op : CompareOp) :
    Spells (c.compareSymbol op ++ " ") [.word (c.compareSymbol op).toList] ∧
      (c.compareSymbol op).toList ≠ "IS".toList := by
  have hall : ∀ t ∈ compareTexts,
      t ≠ "" ∧ t.toList.all isWordChar = true ∧ t.toList ≠ "IS".toList := by
    decide
  obtain ⟨hne, hchars, hother⟩ := hall _ (compareSymbol_mem hvalid op)
  exact ⟨.word hne (List.all_eq_true.mp hchars), hother⟩

theorem spells_symbol (op : MathOp) :
    Spells (op.symbol ++ " ") [.word op.symbol.toList] ∧ op.symbol.toList ≠ "IS".toList := by
  cases op <;> exact ⟨.fixed (by decide), by decide⟩

/-- The rendering of a parsed tree is read back as its skeleton, and it is an operand where it is
wrapped as one. -/
theorem legible_render {c : Config} (hvalid : c.validate = .ok c) {n : Nat} {e : Expr}
    (h : Condition.Built n e) (hplain : e.isPlain = true) (k : Nat) :
    Legible c (render c e k).1 e.skeleton ∧
      LegibleOperand c (wrapped e (render c e k).1) e.skeleton := by
  induction h generalizing k with
  | @and n l r _ _ ihl ihr =>
      simp only [Expr.isPlain, Bool.and_eq_true] at hplain
      have hleft := (ihl hplain.1 k).1
      have hright := (ihr hplain.2 (render c l k).2).1
      have hword : Spells "AND " [.word "AND".toList] := .fixed (by decide)
      have hnode := hleft.binary hright hword (by decide) rfl
      exact ⟨hnode.legible, hnode⟩
  | @or n l r _ _ ihl ihr =>
      simp only [Expr.isPlain, Bool.and_eq_true] at hplain
      have hleft := (ihl hplain.1 k).1
      have hright := (ihr hplain.2 (render c l k).2).1
      have hword : Spells "OR " [.word "OR".toList] := .fixed (by decide)
      have hnode := hleft.binary hright hword (by decide) rfl
      exact ⟨hnode.legible, hnode⟩
  | not _ ih =>
      have hnode := (ih hplain k).1.not
      exact ⟨hnode, hnode.grouped⟩
  | @compare n l r op _ _ ihl ihr =>
      simp only [Expr.isPlain, Bool.and_eq_true] at hplain
      have hleft := (ihl hplain.1 k).2.legible
      have hright := (ihr hplain.2 (render c l k).2).2.legible
      obtain ⟨hword, hne⟩ := spells_compareSymbol hvalid op
      have hnode := hleft.binary hright hword hne (nodeBetween_compare hvalid op _ _)
      rw [← String.append_assoc] at hnode
      exact ⟨hnode.legible, hnode⟩
  | isNull _ ih =>
      have hnode := (ih hplain k).2.isNull
      exact ⟨hnode, hnode.grouped⟩
  | member _ _ ih =>
      have hnode := (ih hplain k).1.member
      exact ⟨hnode, hnode.grouped⟩
  | @math n l r op _ _ ihl ihr =>
      simp only [Expr.isPlain, Bool.and_eq_true] at hplain
      have hleft := (ihl hplain.1 k).2.legible
      have hright := (ihr hplain.2 (render c l k).2).2.legible
      obtain ⟨hword, hne⟩ := spells_symbol op
      have hnode := hleft.binary hright hword hne (nodeBetween_math hvalid op _ _)
      rw [← String.append_assoc] at hnode
      exact ⟨hnode.legible, hnode⟩
  | literal _ | parameter | field =>
      have hnode := legibleOperand_marker c k
      exact ⟨hnode.legible, hnode⟩
  | @call n space function args hspace hfunction _ ih =>
      simp only [Expr.isPlain, Bool.and_eq_true] at hplain
      obtain ⟨hnone, hargs⟩ := hplain
      -- a name space that was read is not empty, so a plain call has none
      obtain rfl : space = none := by
        cases space with
        | none => rfl
        | some w =>
            obtain ⟨d, cs, rfl, -⟩ := Condition.isName_cons (hspace w rfl)
            simp at hnone
      have heach : ∀ a ∈ args, ∀ k, Legible c (render c a k).1 a.skeleton :=
        fun a ha k => (ih a ha ((Expr.allPlain_iff args).mp hargs a ha) k).1
      have hnode := (legible_renderArgs heach k).call hfunction
      exact ⟨hnode.legible, hnode⟩
  | column hattr type =>
      have hnode := legibleOperand_column hvalid hattr
      exact ⟨hnode.legible, hnode⟩

/-- The skeleton of a condition is read back from its fragment. -/
theorem readBack_translate {text : String} {e : Expr} {c : Config} {f : Fragment}
    (hparse : Condition.parse text = .ok e) (hvalid : c.validate = .ok c)
    (htranslate : translate e c = .ok f) : readBack c f.sql = some e.skeleton := by
  have hplain := isPlain_of_translate htranslate
  obtain rfl := Except.ok.inj (htranslate.symm.trans (translate_of_isPlain c hplain))
  obtain ⟨as, hs, has⟩ := (legible_render hvalid (Condition.built_of_parse hparse) hplain 0).1
  have hatoms : atoms (Text.trimmed (render c e 0).1).toList = as := by
    rw [Text.trimmed, String.toList_ofList, atoms_trim, hs.atoms]
  have hread := has (as.length + 1) [] (by omega) (by simp [Stops])
  rw [List.append_nil] at hread
  simp only [readBack, hatoms, hread]

/-- Under valid settings, two condition texts with one fragment text have trees with one skeleton:
the same nodes in the same order and grouping, with the same operators, columns, functions and
arguments. -/
theorem skeleton_eq_of_sql_eq {text₁ text₂ : String} {e₁ e₂ : Expr} {c : Config}
    {f₁ f₂ : Fragment} (hvalid : c.validate = .ok c)
    (hparse₁ : Condition.parse text₁ = .ok e₁) (hparse₂ : Condition.parse text₂ = .ok e₂)
    (htranslate₁ : translate e₁ c = .ok f₁) (htranslate₂ : translate e₂ c = .ok f₂)
    (hsql : f₁.sql = f₂.sql) : e₁.skeleton = e₂.skeleton := by
  have h₁ := readBack_translate hparse₁ hvalid htranslate₁
  have h₂ := readBack_translate hparse₂ hvalid htranslate₂
  rw [hsql] at h₁
  exact Option.some.inj (h₁.symm.trans h₂)

/-- A condition with a membership, a negation and a null check, all of them without parentheses
of their own. -/
def bareTree (leaf : Expr) (store : String) (type : AttrType) : Expr :=
  .or (.member (.math (.column none "a" .object) .add leaf) store)
    (.not (.isNull (.column none "b" type) none))

theorem skeleton_eq_bareTree :
    ∃ f₁ f₂,
      Condition.parse "a + 1 in S or not b is null" =
          .ok (bareTree (.literal (.int 1)) "S" .object) ∧
        Condition.parse "(a + $7:long) in T or b::int is not null" =
          .ok (bareTree (.parameter 7 .long) "T" .int) ∧
        translate (bareTree (.literal (.int 1)) "S" .object) {} = .ok f₁ ∧
        translate (bareTree (.parameter 7 .long) "T" .int) {} = .ok f₂ ∧
        f₁.sql = "(IN (t.a + ? )OR NOT t.b IS NULL )" ∧ f₁.sql = f₂.sql ∧
        (bareTree (.literal (.int 1)) "S" .object).skeleton =
          (bareTree (.parameter 7 .long) "T" .int).skeleton := by
  have hparse₁ : Condition.parse "a + 1 in S or not b is null" =
      .ok (bareTree (.literal (.int 1)) "S" .object) := by
    decide +kernel
  have hparse₂ : Condition.parse "(a + $7:long) in T or b::int is not null" =
      .ok (bareTree (.parameter 7 .long) "T" .int) := by
    decide +kernel
  have htranslate₁ := translate_of_isPlain {} (e := bareTree (.literal (.int 1)) "S" .object)
    (by decide)
  have htranslate₂ := translate_of_isPlain {} (e := bareTree (.parameter 7 .long) "T" .int)
    (by decide)
  exact ⟨_, _, hparse₁, hparse₂, htranslate₁, htranslate₂, by decide +kernel, rfl,
    skeleton_eq_of_sql_eq (by decide) hparse₁ hparse₂ htranslate₁ htranslate₂ rfl⟩

end Pushdown
