import Pushdown.Proofs.Condition.Budget
import Pushdown.Proofs.Condition.Failures

/-!
# Where the nesting limit is crossed

A level of nesting is entered behind the opening parenthesis of a group or a call and behind the
word `not` with its gap. `Phrase.entries` lists these places of a phrase in the order of the text.

A condition that nests deeper than the limit is rejected, and the report names the first place in
the text where a level beyond the limit is entered, however parentheses, calls and negations are
mixed on the way to it (`parse_too_deep`).

## Implementation notes

The induction is the one that shows phrases to be read (`reads_of_nesting`). Of two parts of a
phrase the second one is reached only if the first one nests within the budget, and then the first
one is read; so the failure is at the first place of the whole phrase. `Crosses` carries this
through the induction, apart from what the readers do (`Exceeds`).
-/

namespace Pushdown.Condition

open Text Number

/-! ## The places where levels are entered -/

/-- A place in the text of a phrase where a level of nesting is entered. -/
structure Entry where
  /-- The text of the phrase before the place. -/
  before : List Char
  /-- The level that is entered. -/
  level : Nat
  deriving DecidableEq, Repr

namespace Entry

/-- The same place in a phrase with more text in front. -/
def behind (text : List Char) (e : Entry) : Entry := ⟨text ++ e.before, e.level⟩

/-- The same place in a phrase with more text in front and one level around it. -/
def inside (text : List Char) (e : Entry) : Entry := ⟨text ++ e.before, e.level + 1⟩

/-- Of the places where the level is entered, this one comes first in the text. -/
structure IsFirst (place : Entry) (n : Nat) (places : List Entry) : Prop where
  /-- It is one of the places. -/
  mem : place ∈ places
  /-- The level is entered there. -/
  level : place.level = n
  /-- All text before it is before every other such place. -/
  least : ∀ other ∈ places, other.level = n → place.before <+: other.before

end Entry

/-- The places of a part that has a level of its own: the level is entered behind the opening, and
the part starts behind the opening and the gap. -/
def entered (opening gap : List Char) (places : List Entry) : List Entry :=
  ⟨opening, 1⟩ :: places.map (.inside (opening ++ gap))

namespace Phrase

/-- The places of a phrase where a level is entered, in the order of the text. -/
def entries : {l : Level} → Phrase l → List Entry
  | _, conjunction p => p.entries
  | _, or p before word after q =>
      p.entries ++ q.entries.map (.behind (p.text ++ (before.1 ++ word.1 ++ after.1)))
  | _, term p => p.entries
  | _, and p before word after q =>
      p.entries ++ q.entries.map (.behind (p.text ++ (before.1 ++ word.1 ++ after.1)))
  | _, not word after p => entered (word.1 ++ after.1) [] p.entries
  | _, predicate p => p.entries
  | _, comparison p => p.entries
  | _, isNull p _ _ _ _ => p.entries
  | _, isNotNull p _ _ _ _ _ _ => p.entries
  | _, member p _ _ _ _ => p.entries
  | _, sum p => p.entries
  | _, compare p before sign after q =>
      p.entries ++ q.entries.map (.behind (p.text ++ (before.1 ++ sign.text.toList ++ after.1)))
  | _, product p => p.entries
  | _, plus p before sign after q =>
      p.entries ++ q.entries.map (.behind (p.text ++ (before.1 ++ sign.text.toList ++ after.1)))
  | _, operand p => p.entries
  | _, times p before sign after q =>
      p.entries ++ q.entries.map (.behind (p.text ++ (before.1 ++ sign.text.toList ++ after.1)))
  | _, group before p _ => entered ['('] before.1 p.entries
  | _, integer _ => []
  | _, quoted _ => []
  | _, truth _ _ => []
  | _, null _ => []
  | _, parameter _ _ => []
  | _, call space function before args _ =>
      entered (calledName space function ++ before.1 ++ ['(']) [] args.entries
  | _, field _ _ _ => []
  | _, column _ _ => []
  | _, noArguments => []
  | _, arguments before p others =>
      (p.entries ++ others.entries.map (Entry.behind p.text)).map (.behind before.1)
  | _, noFurther => []
  | _, further before after p others =>
      (p.entries ++ others.entries.map (Entry.behind p.text)).map
        (.behind (before.1 ++ ',' :: after.1))

end Phrase

/-- The places lie in the text, and no level beyond the given one is entered at them. -/
structure Inside (places : List Entry) (text : List Char) (n : Nat) : Prop where
  /-- What is before a place is the front of the text. -/
  before : ∀ e ∈ places, e.before <+: text
  /-- The levels are counted up to the given one. -/
  level : ∀ e ∈ places, e.level ≤ n

namespace Inside

variable {places others : List Entry} {text other : List Char} {n m : Nat}

theorem nil (text : List Char) (n : Nat) : Inside [] text n := by
  constructor <;> simp

theorem more (h : Inside places text n) (other : List Char) : Inside places (text ++ other) n :=
  ⟨fun e he => (h.before e he).trans (List.prefix_append text other), h.level⟩

theorem behind (h : Inside places text n) (front : List Char) :
    Inside (places.map (.behind front)) (front ++ text) n := by
  constructor
  · intro e he
    obtain ⟨d, hd, rfl⟩ := List.mem_map.mp he
    exact (List.prefix_append_right_inj front).mpr (h.before d hd)
  · intro e he
    obtain ⟨d, hd, rfl⟩ := List.mem_map.mp he
    exact h.level d hd

theorem append (h : Inside places text n) (hothers : Inside others text m) :
    Inside (places ++ others) text (max n m) := by
  constructor
  · intro e he
    rcases List.mem_append.mp he with he | he
    · exact h.before e he
    · exact hothers.before e he
  · intro e he
    rcases List.mem_append.mp he with he | he
    · exact Nat.le_trans (h.level e he) (Nat.le_max_left n m)
    · exact Nat.le_trans (hothers.level e he) (Nat.le_max_right n m)

theorem joined (h : Inside places text n) (hothers : Inside others other m) (sep : List Char) :
    Inside (places ++ others.map (.behind (text ++ sep))) (text ++ (sep ++ other)) (max n m) := by
  have hbehind := hothers.behind (text ++ sep)
  rw [List.append_assoc] at hbehind
  exact (h.more _).append hbehind

theorem entered (h : Inside places text n) (opening gap : List Char) :
    Inside (entered opening gap places) (opening ++ (gap ++ text)) (n + 1) := by
  have hinside := h.behind (opening ++ gap)
  rw [List.append_assoc] at hinside
  constructor
  · intro e he
    rcases List.mem_cons.mp he with rfl | he
    · exact List.prefix_append opening _
    · obtain ⟨d, hd, rfl⟩ := List.mem_map.mp he
      exact hinside.before (d.behind _) (List.mem_map_of_mem hd)
  · intro e he
    rcases List.mem_cons.mp he with rfl | he
    · exact Nat.le_add_left 1 n
    · obtain ⟨d, hd, rfl⟩ := List.mem_map.mp he
      exact Nat.succ_le_succ (h.level d hd)

end Inside

/-- The places of a phrase lie in its text, and its nesting bounds their levels. -/
theorem Phrase.inside_entries {l : Level} (p : Phrase l) : Inside p.entries p.text p.nesting := by
  induction p with
  | conjunction p ih | term p ih | predicate p ih | comparison p ih | sum p ih | product p ih
  | operand p ih => exact ih
  | or p before word after q ihp ihq | and p before word after q ihp ihq => exact ihp.joined ihq _
  | compare p before sign after q ihp ihq | plus p before sign after q ihp ihq
  | times p before sign after q ihp ihq => exact ihp.joined ihq _
  | isNull p before isWord after nullWord ih | member p before word after store ih
  | isNotNull p before isWord after notWord behind nullWord ih => exact ih.more _
  | not word after p ih => exact ih.entered (word.1 ++ after.1) []
  | group before p after ih =>
      simpa [text, entries, nesting] using (ih.entered ['('] before.1).more (after.1 ++ [')'])
  | call space function before args after ih =>
      have hcall := ih.entered (calledName space function ++ before.1 ++ ['(']) []
      simpa [text, entries, nesting] using hcall.more (after.1 ++ [')'])
  | integer | quoted | truth | null | parameter | field | column | noArguments | noFurther =>
      exact Inside.nil _ _
  | arguments before p others ihp iho =>
      simpa [text, entries, nesting] using (ihp.joined iho []).behind before.1
  | further before after p others ihp iho =>
      simpa [text, entries, nesting] using (ihp.joined iho []).behind (before.1 ++ ',' :: after.1)

namespace Entry.IsFirst

variable {place : Entry} {n : Nat} {places others : List Entry} {text : List Char}

theorem behind (h : place.IsFirst n places) (front : List Char) :
    (place.behind front).IsFirst n (places.map (.behind front)) := by
  refine ⟨List.mem_map_of_mem h.mem, h.level, fun other hother hlevel => ?_⟩
  obtain ⟨d, hd, rfl⟩ := List.mem_map.mp hother
  exact (List.prefix_append_right_inj front).mpr (h.least d hd hlevel)

/-- Places behind the whole text come later. -/
theorem append_left (h : place.IsFirst n places) (hplace : place.before <+: text)
    (hothers : ∀ e ∈ others, text <+: e.before) : place.IsFirst n (places ++ others) := by
  refine ⟨List.mem_append_left others h.mem, h.level, fun other hother hlevel => ?_⟩
  rcases List.mem_append.mp hother with hother | hother
  · exact h.least other hother hlevel
  · exact hplace.trans (hothers other hother)

/-- Places of lower levels are passed over. -/
theorem append_right (h : place.IsFirst n others) (hplaces : ∀ e ∈ places, e.level < n) :
    place.IsFirst n (places ++ others) := by
  refine ⟨List.mem_append_right places h.mem, h.level, fun other hother hlevel => ?_⟩
  rcases List.mem_append.mp hother with hother | hother
  · exact absurd hlevel (Nat.ne_of_lt (hplaces other hother))
  · exact h.least other hother hlevel

theorem entered_one (opening gap : List Char) (places : List Entry) :
    (Entry.mk opening 1).IsFirst 1 (entered opening gap places) := by
  refine ⟨List.mem_cons_self, rfl, fun other hother _ => ?_⟩
  rcases List.mem_cons.mp hother with rfl | hother
  · exact List.prefix_refl opening
  · obtain ⟨d, -, rfl⟩ := List.mem_map.mp hother
    exact (List.prefix_append opening gap).trans (List.prefix_append _ d.before)

theorem entered_succ (h : place.IsFirst (n + 1) places) (opening gap : List Char) :
    (place.inside (opening ++ gap)).IsFirst (n + 2) (entered opening gap places) := by
  refine ⟨List.mem_cons_of_mem _ (List.mem_map_of_mem h.mem), congrArg (· + 1) h.level,
    fun other hother hlevel => ?_⟩
  rcases List.mem_cons.mp hother with rfl | hother
  · exact absurd hlevel (by simp)
  · obtain ⟨d, hd, rfl⟩ := List.mem_map.mp hother
    exact (List.prefix_append_right_inj _).mpr (h.least d hd (Nat.succ.inj hlevel))

end Entry.IsFirst

/-! ## Phrases that cross a level -/

/-- The first place where the level is entered parts the text in two parts with the property. -/
def Crosses (P : List Char → List Char → Prop) (n : Nat) (places : List Entry)
    (text : List Char) : Prop :=
  ∃ place rest, Entry.IsFirst place n places ∧ text = place.before ++ rest ∧ P place.before rest

namespace Crosses

variable {P Q R : List Char → List Char → Prop} {n a b : Nat} {places others : List Entry}
variable {left right : List Char}

/-- More text behind the phrase leaves the place where it is. -/
theorem more {tail : List Char} (h : Crosses P n places left)
    (hP : ∀ before rest, left = before ++ rest → P before rest → Q before (rest ++ tail)) :
    Crosses Q n places (left ++ tail) := by
  obtain ⟨place, rest, hfirst, rfl, hplace⟩ := h
  exact ⟨place, rest ++ tail, hfirst, List.append_assoc _ _ _, hP _ _ rfl hplace⟩

theorem imp (h : Crosses P n places left)
    (hP : ∀ before rest, left = before ++ rest → P before rest → Q before rest) :
    Crosses Q n places left := by
  obtain ⟨place, rest, hfirst, rfl, hplace⟩ := h
  exact ⟨place, rest, hfirst, rfl, hP _ _ rfl hplace⟩

theorem behind (h : Crosses P n places left) (front : List Char)
    (hP : ∀ before rest, left = before ++ rest → P before rest → Q (front ++ before) rest) :
    Crosses Q n (places.map (.behind front)) (front ++ left) := by
  obtain ⟨place, rest, hfirst, rfl, hplace⟩ := h
  exact ⟨place.behind front, rest, hfirst.behind front, (List.append_assoc _ _ _).symm,
    hP _ _ rfl hplace⟩

/-- A phrase of two parts crosses the level in the first part, or in the second one if the first
one does not nest so deep. -/
theorem joined (sep : List Char) (hplaces : Inside places left a)
    (hleft : n ≤ a → Crosses P n places left) (hright : n ≤ b → Crosses Q n others right)
    (h : n ≤ max a b)
    (hP : ∀ before rest, left = before ++ rest → P before rest →
      R before (rest ++ (sep ++ right)))
    (hQ : a < n → ∀ before rest, right = before ++ rest → Q before rest →
      R (left ++ (sep ++ before)) rest) :
    Crosses R n (places ++ others.map (.behind (left ++ sep))) (left ++ (sep ++ right)) := by
  rcases Nat.lt_or_ge a n with hlow | hhigh
  · have hdeep : n ≤ b := by omega
    obtain ⟨place, rest, hfirst, rfl, hplace⟩ := hright hdeep
    refine ⟨place.behind (left ++ sep), rest, ?_, by simp [Entry.behind], ?_⟩
    · exact (hfirst.behind _).append_right fun e he => Nat.lt_of_le_of_lt (hplaces.level e he) hlow
    · simpa [Entry.behind] using hQ hlow _ _ rfl hplace
  · obtain ⟨place, rest, hfirst, rfl, hplace⟩ := hleft hhigh
    refine ⟨place, rest ++ (sep ++ right), ?_, List.append_assoc _ _ _, hP _ _ rfl hplace⟩
    refine hfirst.append_left (List.prefix_append _ rest) fun e he => ?_
    obtain ⟨d, -, rfl⟩ := List.mem_map.mp he
    rw [Entry.behind, List.append_assoc]
    exact List.prefix_append _ _

/-- The first level is entered behind the opening. -/
theorem entered_one {opening gap : List Char} (h : P opening left) :
    Crosses P 1 (entered opening gap places) (opening ++ left) :=
  ⟨⟨opening, 1⟩, left, .entered_one opening gap places, rfl, h⟩

/-- What crosses a level crosses the next one inside one level more. -/
theorem entered_succ {opening gap tail : List Char} (h : Crosses P (n + 1) places left)
    (hP : ∀ before rest, left = before ++ rest → P before rest →
      Q (opening ++ gap ++ before) (rest ++ tail)) :
    Crosses Q (n + 2) (entered opening gap places) (opening ++ (gap ++ (left ++ tail))) := by
  obtain ⟨place, rest, hfirst, rfl, hplace⟩ := h
  exact ⟨place.inside (opening ++ gap), rest ++ tail, hfirst.entered_succ opening gap,
    by simp [Entry.inside], hP _ _ rfl hplace⟩

end Crosses

/-! ## Readers without a level left -/

section Readers

variable {nested : Reader Expr} {cause : Fatal} {before behind : List Char} {budget : Nat}
variable {l : Level}

/-- A negation fails where its term fails. -/
theorem breaks_not (hstart : Starts (before ++ behind)) (word : Spelling "not") (after : Space)
    (h : ∀ r, Follow .term r → term budget (before ++ behind ++ r) = .fail cause (behind ++ r)) :
    Breaks (term (budget + 1)) cause .term (word.1 ++ after.1 ++ before) behind := by
  intro r s hr hs
  have hs : skipGap s = word.1 ++ (after.1 ++ (before ++ behind ++ r)) := by simpa using hs
  have hnot := keyword_space word after hstart hs
  simp only [term, hnot, Option.map_some, Outcome.ofOption, Outcome.andThen_ok, Outcome.map, h r hr,
    Outcome.andThen_fail, Outcome.orElse_fail]

/-- A group fails where its condition fails. -/
theorem breaks_group (h : ∀ r, nested (before ++ (behind ++ r)) = .fail cause (behind ++ r)) :
    Breaks (operand nested) cause l ('(' :: before) behind := by
  intro r s _ hs
  rw [operand, hs, bareOperand]
  simp [group, h r]

/-- A call fails where its arguments fail. -/
theorem breaks_call (space : Option Name) (function : Name) (gap : Gap)
    (h : ∀ r, arguments nested (before ++ (behind ++ r)) = .fail cause (behind ++ r)) :
    Breaks (operand nested) cause l (calledName space function ++ gap.1 ++ '(' :: before)
      behind := by
  intro r s _ hs
  have hgap : skipGap (gap.1 ++ '(' :: (before ++ (behind ++ r))) =
      '(' :: (before ++ (behind ++ r)) := by
    rw [skipGap_append gap.2, skipGap_cons (by decide)]
  have hbefore := boundary_of_mark hgap (by decide)
  have hhead := callHead_called space function fun c hc => ⟨(hbefore c hc).1, (hbefore c hc).2.2⟩
  simp only [List.append_assoc, List.cons_append] at hs
  rw [operand, hs, bareOperand_called space function hbefore.isNameChar]
  simp [call, hhead, expectAfterGap, hgap, h r]

/-- Arguments and what follows them up to the closing parenthesis fail between the two parts of the
text, whatever gap stands before them. -/
def BreaksArguments (nested : Reader Expr) (cause : Fatal) (before behind : List Char) : Prop :=
  ∀ r t s, skipGap r = ')' :: t → skipGap s = before ++ (behind ++ r) →
    arguments nested s = .fail cause (behind ++ r)

theorem breaksArguments_first {others : List Char}
    (h : Breaks nested cause .condition before behind)
    (hothers : ∀ r t, skipGap r = ')' :: t → Follow .condition (others ++ r)) :
    BreaksArguments nested cause before (behind ++ others) := by
  intro r t s hr hs
  rw [List.append_assoc] at hs ⊢
  rw [arguments, h (others ++ r) s (hothers r t hr) hs]

/-- The arguments after the first fail, whether the gap before them is still there or not. -/
def BreaksFurther (nested : Reader Expr) (cause : Fatal) (before behind : List Char) : Prop :=
  ∀ r t s, skipGap r = ')' :: t → Leaves (before ++ (behind ++ r)) s →
    moreArguments nested s = .fail cause (behind ++ r)

theorem breaksArguments_others {w : List Char} {a : Expr}
    (h : BreaksFurther nested cause before behind) (hfirst : Accepts nested w a .condition)
    (hfollow : ∀ r t, skipGap r = ')' :: t → Follow .condition (before ++ behind ++ r)) :
    BreaksArguments nested cause (w ++ before) behind := by
  intro r t s hr hs
  obtain ⟨middle, hmiddle, hread⟩ := hfirst _ s (hfollow r t hr) (by simpa using hs)
  rw [List.append_assoc] at hmiddle
  rw [arguments, hread]
  simp only [h r t middle hr hmiddle, Outcome.map, Outcome.andThen_fail]

/-- A failure behind a comma is one of the arguments behind it. -/
theorem moreArguments_of_fail {s t here : List Char}
    (hnested : ∀ e rest, nested t = .ok e rest → rest.length ≤ t.length)
    (hcomma : expectAfterGap ',' s = some t) (h : arguments nested t = .fail cause here) :
    moreArguments nested s = .fail cause here := by
  rw [arguments] at h
  cases hread : nested t with
  | ok e rest =>
      have hlen := Nat.lt_of_le_of_lt (hnested e rest hread) (length_of_expectAfterGap hcomma)
      rw [moreArguments_step hcomma hread hlen]
      simpa [hread] using h
  | miss cause' here' => simp [hread] at h
  | fail cause' here' =>
      rw [moreArguments, hcomma]
      simpa [hread] using h

/-- Further arguments fail where the arguments behind the comma fail. -/
theorem breaksFurther_comma (h : BreaksArguments nested cause before behind)
    (hstart : Starts (before ++ behind))
    (hnested : ∀ t e rest, nested t = .ok e rest → rest.length ≤ t.length) (gap after : Gap) :
    BreaksFurther nested cause (gap.1 ++ ',' :: after.1 ++ before) behind := by
  intro r t s hr hs
  have hcomma : expectAfterGap ',' s = some (after.1 ++ (before ++ behind ++ r)) := by
    rw [expectAfterGap, hs.skipGap_eq, List.append_assoc, List.append_assoc, skipGap_append gap.2,
      List.cons_append, skipGap_cons (by decide)]
    simp [expect]
  apply moreArguments_of_fail (hnested _) hcomma
  apply h r t _ hr
  rw [skipGap_append after.2, (hstart.append r).skipGap_eq, List.append_assoc]

end Readers

/-! ## Phrases beyond the budget -/

/-- With so many levels left the reader of a level fails between the two parts of the text, for want
of one level more. -/
def Exceeds (budget : Nat) : Level → List Char → List Char → Prop
  | .condition => Breaks (alternatives (term (budget + 1))) .tooDeep .conjunction
  | .conjunction =>
      Breaks (chain (wordBetween "and".toList .and) (term (budget + 1))) .tooDeep .term
  | .term => Breaks (term (budget + 1)) .tooDeep .term
  | .predicate => Breaks (predicate (alternatives (term budget))) .tooDeep .predicate
  | .comparison => Breaks (comparison (alternatives (term budget))) .tooDeep .comparison
  | .sum => Breaks (sum (alternatives (term budget))) .tooDeep .product
  | .product => Breaks (product (alternatives (term budget))) .tooDeep .operand
  | .operand => Breaks (operand (alternatives (term budget))) .tooDeep .operand
  | .arguments => fun before behind => ∀ r t, skipGap r = ')' :: t →
      arguments (alternatives (term (budget + 1))) (before ++ (behind ++ r)) =
        .fail .tooDeep (behind ++ r)
  | .furtherArguments => BreaksFurther (alternatives (term (budget + 1))) .tooDeep

section Parts

variable {l : Level} {budget : Nat} {gap after : Gap}

/-- A list fails in the shorter list in front, or in its last item. -/
theorem crosses_chain {op : Lexer (Expr → Expr → Expr)} {item : Reader Expr}
    {f : Expr → Expr → Expr} {value : Expr} {left right sep : List Char} {a b : Nat}
    {places others : List Entry} (hplaces : Inside places left a)
    (hleft : budget < a → Crosses (Breaks (chain op item) .tooDeep l) (budget + 1) places left)
    (hright : budget < b → Crosses (Breaks item .tooDeep l) (budget + 1) others right)
    (h : budget < max a b) (hread : a ≤ budget → Chained op item left value l)
    (hstart : Starts right) (hsep : Separates op f sep right l) :
    Crosses (Breaks (chain op item) .tooDeep l) (budget + 1)
      (places ++ others.map (.behind (left ++ sep))) (left ++ (sep ++ right)) := by
  apply Crosses.joined sep hplaces hleft hright h
  · exact fun _ _ _ hbreak => hbreak.separated hsep
  · intro hle _ _ htext hbreak
    exact hbreak.next (hread (Nat.le_of_lt_succ hle)) (htext ▸ hstart) (htext ▸ hsep)

/-- What stands behind a comparison does not keep it from failing. -/
theorem crosses_suffixed {p : Phrase .comparison} {word : String} (u : Spelling word) {x : Char}
    (hx : word.toList.head? = some x) (hstop : x ∉ Level.comparison.continues) (before : Space)
    (tail : List Char)
    (h : Crosses (Exceeds budget .comparison) (budget + 1) p.entries p.text) :
    Crosses (Exceeds budget .predicate) (budget + 1) p.entries
      (p.text ++ (before.1 ++ (u.1 ++ tail))) := by
  apply h.more
  intro _ _ _ hbreak
  refine breaks_predicate (Breaks.more hbreak fun r _ => ?_)
  simpa using follow_spelling u hx hstop before (tail ++ r)

theorem crosses_not (word : Spelling "not") (after : Space) (p : Phrase .term)
    (hp : ∀ budget, budget < p.nesting →
      Crosses (Exceeds budget .term) (budget + 1) p.entries p.text)
    (h : budget < p.nesting + 1) :
    Crosses (Exceeds budget .term) (budget + 1) (Phrase.not word after p).entries
      (Phrase.not word after p).text := by
  have hstart := p.starts rfl
  cases budget with
  | zero =>
      have hnot : Breaks (term 1) .tooDeep .term (word.1 ++ after.1 ++ []) p.text :=
        breaks_not hstart word after fun r _ => rfl
      rw [List.append_nil] at hnot
      exact Crosses.entered_one hnot
  | succ budget =>
      have hinside : Crosses (Exceeds (budget + 1) .term) (budget + 2)
          (entered (word.1 ++ after.1) [] p.entries)
          (word.1 ++ after.1 ++ ([] ++ (p.text ++ []))) := by
        apply (hp budget (Nat.lt_of_succ_lt_succ h)).entered_succ
        intro before rest htext hbreak
        rw [List.append_nil, List.append_nil]
        rw [htext] at hstart
        exact breaks_not hstart word after fun r hr => Breaks.here hbreak hstart hr
      simpa [Phrase.text, Phrase.entries] using hinside

theorem crosses_group (p : Phrase .condition)
    (hp : ∀ budget, budget < p.nesting →
      Crosses (Exceeds budget .condition) (budget + 1) p.entries p.text)
    (h : budget < p.nesting + 1) :
    Crosses (Exceeds budget .operand) (budget + 1) (Phrase.group gap p after).entries
      (Phrase.group gap p after).text := by
  have hclose : ∀ r, skipGap (after.1 ++ ')' :: r) = ')' :: r := fun r => by
    rw [skipGap_append after.2, skipGap_cons (by decide)]
  cases budget with
  | zero => exact Crosses.entered_one (breaks_group fun r => rfl)
  | succ budget =>
      have hinside : Crosses (Exceeds (budget + 1) .operand) (budget + 2)
          (entered ['('] gap.1 p.entries) (['('] ++ (gap.1 ++ (p.text ++ (after.1 ++ [')'])))) := by
        apply (hp budget (Nat.lt_of_succ_lt_succ h)).entered_succ
        intro before rest htext hbreak
        refine breaks_group fun r => ?_
        have hfollow : Follow .conjunction (after.1 ++ ')' :: r) :=
          follow_of_mark (hclose r) (by decide) (by decide)
        have hskip : skipGap (gap.1 ++ (p.text ++ (after.1 ++ ')' :: r))) =
            before ++ (rest ++ (after.1 ++ ')' :: r)) := by
          rw [skipGap_append gap.2, ((p.starts rfl).append _).skipGap_eq, htext, List.append_assoc]
        simpa [htext] using hbreak _ _ hfollow hskip
      simpa [Phrase.text, Phrase.entries] using hinside

theorem crosses_call (space : Option Name) (function : Name) (args : Phrase .arguments)
    (hargs : ∀ budget, budget < args.nesting →
      Crosses (Exceeds budget .arguments) (budget + 1) args.entries args.text)
    (h : budget < args.nesting + 1) :
    Crosses (Exceeds budget .operand) (budget + 1)
      (Phrase.call space function gap args after).entries
      (Phrase.call space function gap args after).text := by
  have hclose : ∀ r, skipGap (after.1 ++ [')'] ++ r) = ')' :: r := fun r => by
    rw [List.append_assoc, skipGap_append after.2, List.singleton_append, skipGap_cons (by decide)]
  cases budget with
  | zero =>
      have hopen : Crosses (Exceeds 0 .operand) 1
          (entered (calledName space function ++ gap.1 ++ ['(']) [] args.entries)
          (calledName space function ++ gap.1 ++ ['('] ++ (args.text ++ after.1 ++ [')'])) :=
        Crosses.entered_one (breaks_call space function gap fun r => rfl)
      simpa [Phrase.text, Phrase.entries] using hopen
  | succ budget =>
      have hinside : Crosses (Exceeds (budget + 1) .operand) (budget + 2)
          (entered (calledName space function ++ gap.1 ++ ['(']) [] args.entries)
          (calledName space function ++ gap.1 ++ ['('] ++
            ([] ++ (args.text ++ (after.1 ++ [')'])))) := by
        apply (hargs budget (Nat.lt_of_succ_lt_succ h)).entered_succ
        intro before rest _ hbreak
        rw [List.append_nil, List.append_assoc, List.singleton_append]
        refine breaks_call space function gap fun r => ?_
        simpa using hbreak _ _ (hclose r)
      simpa [Phrase.text, Phrase.entries] using hinside

/-- The text of further arguments follows an argument. -/
theorem Phrase.follow_further (others : Phrase .furtherArguments) (r t : List Char)
    (hr : skipGap r = ')' :: t) : Follow .condition (others.text ++ r) := by
  have hreads : AcceptsFurther _ others.text others.meaning :=
    reads_of_nesting others others.nesting (Nat.le_refl _)
  exact hreads.follow r t hr

/-- A first argument and the others fail in the first one, or in the others behind it. -/
theorem crosses_listed (p : Phrase .condition) (others : Phrase .furtherArguments)
    (hp : budget < p.nesting → Crosses (Exceeds budget .condition) (budget + 1) p.entries p.text)
    (ho : budget < others.nesting →
      Crosses (Exceeds budget .furtherArguments) (budget + 1) others.entries others.text)
    (h : budget < max p.nesting others.nesting) :
    Crosses (BreaksArguments (alternatives (term (budget + 1))) .tooDeep) (budget + 1)
      (p.entries ++ others.entries.map (.behind p.text)) (p.text ++ others.text) := by
  have hjoined : Crosses (BreaksArguments (alternatives (term (budget + 1))) .tooDeep) (budget + 1)
      (p.entries ++ others.entries.map (.behind (p.text ++ [])))
      (p.text ++ ([] ++ others.text)) := by
    apply Crosses.joined [] p.inside_entries hp ho h
    · intro before rest _ hbreak
      exact breaksArguments_first (Breaks.mono hbreak (by decide)) others.follow_further
    · intro hle before rest htext hbreak
      have hread := accepts_condition (reads_of_nesting p budget (Nat.le_of_lt_succ hle))
      exact breaksArguments_others hbreak hread (htext ▸ others.follow_further)
  simpa using hjoined

end Parts

/-- A phrase that nests deeper than the budget fails at the first place where a level beyond the
budget is entered. -/
theorem exceeds_of_nesting {l : Level} (p : Phrase l) : ∀ budget, budget < p.nesting →
    Crosses (Exceeds budget l) (budget + 1) p.entries p.text := by
  -- what stands before the place and is not too deep is read, as every phrase within the budget
  induction p with
  | conjunction p ih =>
      exact fun budget h => (ih budget h).imp fun _ _ _ hbreak =>
        (Breaks.mono hbreak (by decide)).first
  | or p before word after q ihp ihq =>
      intro budget h
      have hq := q.starts rfl
      refine crosses_chain p.inside_entries (ihp budget) (fun h => ?_) h (reads_of_nesting p budget)
        hq (separates_word word rfl (by decide) hq before after .or)
      exact (ihq budget h).imp fun _ _ _ hbreak => Breaks.mono hbreak (by decide)
  | term p ih => exact fun budget h => (ih budget h).imp fun _ _ _ hbreak => Breaks.first hbreak
  | and p before word after q ihp ihq =>
      intro budget h
      have hq := q.starts rfl
      exact crosses_chain p.inside_entries (ihp budget) (ihq budget) h (reads_of_nesting p budget)
        hq (separates_word word rfl (by decide) hq before after .and)
  | not word after p ih => exact fun budget h => crosses_not word after p ih h
  | predicate p ih =>
      refine fun budget h => (ih budget h).imp fun _ _ htext hbreak => ?_
      refine breaks_positive hbreak fun r s hr hs => p.keyword_not rfl r s hr ?_
      rw [hs, htext, List.append_assoc]
  | comparison p ih =>
      exact fun budget h => (ih budget h).imp fun _ _ _ hbreak =>
        breaks_predicate (Breaks.mono hbreak (by decide))
  | isNull p before isWord after nullWord ih =>
      intro budget h
      simpa [Phrase.text, Phrase.entries] using
        crosses_suffixed isWord rfl (by decide) before (after.1 ++ nullWord.1) (ih budget h)
  | isNotNull p before isWord after notWord behind nullWord ih =>
      intro budget h
      simpa [Phrase.text, Phrase.entries] using crosses_suffixed isWord rfl (by decide) before
        (after.1 ++ (notWord.1 ++ (behind.1 ++ nullWord.1))) (ih budget h)
  | member p before word after store ih =>
      intro budget h
      simpa [Phrase.text, Phrase.entries] using
        crosses_suffixed word rfl (by decide) before (after.1 ++ store.1) (ih budget h)
  | sum p ih =>
      exact fun budget h => (ih budget h).imp fun _ _ _ hbreak =>
        breaks_comparison (Breaks.mono hbreak (by decide))
  | compare p before sign after q ihp ihq =>
      intro budget h
      have hq := q.starts rfl
      have hsep := separates_compare hq before sign after
      apply Crosses.joined _ p.inside_entries (ihp budget) (ihq budget) h
      · intro _ _ _ hbreak
        have hsum : Breaks _ .tooDeep .sum _ _ := Breaks.mono hbreak (by decide)
        exact breaks_comparison (hsum.separated hsep)
      · intro hle _ _ htext hbreak
        have hread := accepts_sum (reads_of_nesting p budget (Nat.le_of_lt_succ hle))
        exact breaks_compare (Breaks.mono hbreak (by decide)) hread (htext ▸ hq) before sign after
  | product p ih =>
      exact fun budget h => (ih budget h).imp fun _ _ _ hbreak =>
        (Breaks.mono hbreak (by decide)).first
  | plus p before sign after q ihp ihq =>
      intro budget h
      have hq := q.starts rfl
      refine crosses_chain p.inside_entries (ihp budget) (fun h => ?_) h (reads_of_nesting p budget)
        hq (separates_sum hq before sign after)
      exact (ihq budget h).imp fun _ _ _ hbreak => Breaks.mono hbreak (by decide)
  | operand p ih => exact fun budget h => (ih budget h).imp fun _ _ _ hbreak => Breaks.first hbreak
  | times p before sign after q ihp ihq =>
      intro budget h
      have hq := q.starts rfl
      exact crosses_chain p.inside_entries (ihp budget) (ihq budget) h (reads_of_nesting p budget)
        hq (separates_product hq before sign after)
  | group before p after ih => exact fun budget h => crosses_group p ih h
  | call space function before args after ih =>
      exact fun budget h => crosses_call space function args ih h
  | arguments before p others ihp iho =>
      intro budget h
      have hlisted := crosses_listed p others (ihp budget) (iho budget) h
      have hstart := (p.starts rfl).append others.text
      rw [Phrase.text, List.append_assoc]
      apply hlisted.behind
      intro front rest htext hbreak r t hr
      apply hbreak r t _ hr
      rw [List.append_assoc, skipGap_append before.2, ← List.append_assoc, ← htext,
        (hstart.append r).skipGap_eq]
  | further before after p others ihp iho =>
      intro budget h
      have hlisted := crosses_listed p others (ihp budget) (iho budget) h
      have hstart := (p.starts rfl).append others.text
      have hnested := settles_alternatives (settles_term (budget + 1))
      have hfurther : Crosses (Exceeds budget .furtherArguments) (budget + 1)
          (Phrase.further before after p others).entries
          (before.1 ++ ',' :: after.1 ++ (p.text ++ others.text)) := by
        apply hlisted.behind
        intro front rest htext hbreak
        exact breaksFurther_comma hbreak (htext ▸ hstart) (fun _ _ _ => hnested.length_le) before
          after
      simpa [Phrase.text] using hfurther
  | integer | quoted | truth | null | parameter | field | column | noArguments | noFurther =>
      exact fun budget h => absurd h (Nat.not_lt_zero budget)

/-! ## Whole texts -/

/-- A condition of the language that nests deeper than 64 levels, written with any gaps between its
parts and any blanks around it, is rejected for its nesting. The report is at the byte offset of the
first place in the text where level 65 is entered. -/
theorem parse_too_deep (p : Phrase .condition) (h : 64 < p.nesting) (before after : List Char)
    (hbefore : before.all isBlank = true) (hafter : after.all isBlank = true) :
    ∃ place : Entry, place.IsFirst 65 p.entries ∧
      (parse (String.ofList (before ++ p.text ++ after))).mapError ParseError.toError =
        .error (.parse (byteLength before + byteLength place.before)
          "Condition nests deeper than 64 levels") := by
  obtain ⟨place, rest, hfirst, htext, hbreak⟩ := exceeds_of_nesting p nestingLimit h
  have hstarts := p.starts rfl
  have hends := p.ends rfl
  rw [htext] at hstarts hends
  have hread : condition (place.before ++ rest) = .fail .tooDeep rest := by
    simpa [condition] using Breaks.here hbreak hstarts (follow_nil .conjunction)
  have hparse := parseChars_of_fail before after hbefore hafter hstarts hends hread
  refine ⟨place, hfirst, ?_⟩
  rw [parse, String.toList_ofList, htext, hparse]
  rfl

/-- The column `b` inside so many times `not f(( ))`, which is three levels each time. -/
def wrappedPhrase : Nat → Phrase .term
  | 0 => .predicate (.comparison (.sum (.product (.operand (.column ⟨['b'], by decide⟩ none)))))
  | n + 1 =>
      .not ⟨['n', 'o', 't'], by decide⟩ oneSpace
        (.predicate (.comparison (.sum (.product (.operand (.call none ⟨['f'], by decide⟩ noGap
          (.arguments noGap
            (.conjunction (.term (.predicate (.comparison (.sum (.product (.operand
              (.group noGap (.conjunction (.term (wrappedPhrase n))) noGap))))))))
            .noFurther)
          noGap))))))

/-- Wrapped columns of which the first one reaches level 63 and the two others level 66. -/
def unevenPhrase : Phrase .condition :=
  .or (.conjunction (.term (wrappedPhrase 21))) oneSpace ⟨['o', 'r'], by decide⟩ oneSpace
    (.and (.term (wrappedPhrase 22)) oneSpace ⟨['a', 'n', 'd'], by decide⟩ oneSpace
      (wrappedPhrase 22))

theorem parse_too_deep_uneven :
    unevenPhrase.nesting = 66 ∧
      (parse (String.ofList (['\n'] ++ unevenPhrase.text ++ []))).mapError ParseError.toError =
        .error (.parse 348 "Condition nests deeper than 64 levels") := by
  have hnesting : unevenPhrase.nesting = 66 := by decide +kernel
  obtain ⟨place, hfirst, hparse⟩ := parse_too_deep unevenPhrase (by rw [hnesting]; decide) ['\n'] []
    (by decide) (by decide)
  have hplaces : ∀ e ∈ unevenPhrase.entries, e.level = 65 → 347 ≤ byteLength e.before := by
    decide +kernel
  obtain ⟨e, he, hlevel, hbytes⟩ :
      ∃ e ∈ unevenPhrase.entries, e.level = 65 ∧ byteLength e.before = 347 := by decide +kernel
  obtain ⟨between, hbetween⟩ := hfirst.least e he hlevel
  have hposition : byteLength place.before = 347 := by
    have hsplit := byteLength_append place.before between
    have hlow := hplaces place hfirst.mem hfirst.level
    rw [hbetween, hbytes] at hsplit
    omega
  rw [hposition] at hparse
  exact ⟨hnesting, hparse⟩

end Pushdown.Condition
