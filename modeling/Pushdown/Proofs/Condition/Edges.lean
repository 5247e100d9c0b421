import Pushdown.Proofs.Condition.Operands

/-!
# The edges of a phrase

A phrase that stands for a tree is not empty. It starts and ends with a character of a word, a
quote or a parenthesis, or starts with the sign of a number or of a parameter, and so neither a
gap nor any other blank stands at its edges.
-/

namespace Pushdown.Condition

open Text Number

variable {w : List Char} {l : Level}

/-- The phrases of the level stand for one tree. -/
def Level.isExpression : Level → Bool
  | .arguments | .furtherArguments => false
  | _ => true

theorem IntegerText.starts_text (n : IntegerText) : Starts n.text := by
  obtain ⟨c, hc, hfirst⟩ := n.head?_text []
  rw [List.append_nil] at hc
  obtain ⟨t, ht⟩ := List.head?_eq_some_iff.mp hc
  refine ⟨c, t, ht, ?_⟩
  rcases hfirst with rfl | hdigit
  · decide
  · simp [isStart, isNameChar_of_isDigit hdigit]

theorem QuotedText.starts_text (q : QuotedText) : Starts q.text := by
  refine ⟨q.quote, q.body ++ [q.quote], rfl, ?_⟩
  rcases q.isQuote with h | h <;> rw [h] <;> decide

namespace Phrase

/-- The phrases that stand for a tree are not empty, and no gap stands in front of them. -/
theorem starts (p : Phrase l) : l.isExpression = true → Starts p.text := by
  induction p with
  | conjunction p ih | term p ih | predicate p ih | comparison p ih | sum p ih | product p ih
  | operand p ih => exact fun _ => ih rfl
  | or p before word after q ih _ | and p before word after q ih _
  | compare p before sign after q ih _ | plus p before sign after q ih _
  | times p before sign after q ih _ | isNull p before word after q ih
  | member p before word after q ih | isNotNull p before isWord after notWord behind q ih =>
      exact fun _ => (ih rfl).append _
  | not word after p _ =>
      intro _
      simpa [text] using (starts_spelling word).append _
  | group before p after _ => exact fun _ => ⟨'(', _, rfl, by decide⟩
  | integer n => exact fun _ => n.starts_text
  | quoted q => exact fun _ => q.starts_text
  | truth b word => exact fun _ => starts_spelling word
  | null word => exact fun _ => starts_spelling word
  | parameter index type => exact fun _ => ⟨'$', _, rfl, by decide⟩
  | call space function before args after _ =>
      intro _
      simpa [text] using (starts_called space function).append _
  | field stream name type => exact fun _ => (starts_name stream.2).append _
  | column name type => exact fun _ => (starts_name name.2).append _
  | noArguments | arguments | noFurther | further => simp [Level.isExpression]

end Phrase

/-- The character can be the last one of a phrase. -/
def isEnd (c : Char) : Bool := isNameChar c || [')', '\x27', '"'].contains c

/-- The text ends as phrases do. -/
def Ends (text : List Char) : Prop := ∃ t c, text = t ++ [c] ∧ isEnd c = true

theorem isBlank_of_isEnd {c : Char} (h : isEnd c = true) : isBlank c = false :=
  isBlank_of_mem_marks (forall_mem_of_all (by decide)) h

/-- Between blanks exactly what starts and ends as phrases do is left. -/
theorem trim_of_edges {before after : List Char} (hstarts : Starts w) (hends : Ends w)
    (hbefore : before.all isBlank = true) (hafter : after.all isBlank = true) :
    trim (before ++ w ++ after) = w := by
  obtain ⟨c, t, htext, hc⟩ := hstarts
  obtain ⟨u, d, hend, hd⟩ := hends
  refine trim_append hbefore hafter (by simp [htext]) ?_ ?_
  · simpa [htext] using isBlank_of_isStart hc
  · simpa [hend] using isBlank_of_isEnd hd

theorem Ends.append (h : Ends w) (before : List Char) : Ends (before ++ w) := by
  obtain ⟨t, c, rfl, hc⟩ := h
  exact ⟨before ++ t, c, by simp, hc⟩

/-- A word ends as phrases do. -/
theorem ends_of_isNameChar (hne : w ≠ []) (hw : ∀ c ∈ w, isNameChar c = true) : Ends w :=
  ⟨w.dropLast, w.getLast hne, (List.dropLast_append_getLast hne).symm, by
    simp [isEnd, hw _ (List.getLast_mem hne)]⟩

theorem ends_name (hw : isName w = true) : Ends w := by
  obtain ⟨c, cs, rfl, -, hchars, -⟩ := isName_cons hw
  exact ends_of_isNameChar (by simp) hchars

theorem ends_spelling {word : String} (u : Spelling word) : Ends u.1 := by
  obtain ⟨c, cs, hu, -⟩ := spelling_cons u
  exact ends_of_isNameChar (by simp [hu]) fun c hc =>
    isNameChar_of_isAlphabetic (isAlphabetic_spelling u c hc)

theorem ends_typeNote (h : Ends w) (sign : List Char) (type : Option TypeText) :
    Ends (w ++ typeNote sign type) := by
  cases type with
  | none => simpa [typeNote] using h
  | some type =>
      have hne : type.letters ≠ [] := by
        intro hnil
        have hspells := type.spells
        rw [hnil] at hspells
        cases htype : type.type <;> rw [htype] at hspells <;> exact absurd hspells (by decide)
      have hletters : Ends type.letters := ends_of_isNameChar hne fun c hc =>
        isNameChar_of_isAlphabetic (isAlphabetic_of_typeName type.spells c hc)
      simpa [typeNote] using (hletters.append sign).append w

theorem ends_digits (ds : Digits) : Ends ds.1 :=
  ends_of_isNameChar ds.2.1 fun c hc =>
    isNameChar_of_isDigit (List.all_eq_true.mp ds.2.2 c hc)

theorem IntegerText.ends_text (n : IntegerText) : Ends n.text := by
  rw [text]
  cases n.mark with
  | none => simpa using (ends_digits n.digits).append _
  | some c =>
      refine ⟨_, c.1, rfl, ?_⟩
      rcases c.2 with h | h <;> rw [h] <;> decide

namespace Phrase

/-- No gap stands at the end of a phrase that stands for a tree. -/
theorem ends (p : Phrase l) : l.isExpression = true → Ends p.text := by
  induction p with
  | conjunction p ih | term p ih | predicate p ih | comparison p ih | sum p ih | product p ih
  | operand p ih => exact fun _ => ih rfl
  | or p before word after q _ ih | and p before word after q _ ih
  | compare p before sign after q _ ih | plus p before sign after q _ ih
  | times p before sign after q _ ih => exact fun _ => ((ih rfl).append _).append _
  | not word after p ih => exact fun _ => (ih rfl).append _
  | isNull p before isWord after nullWord _
  | isNotNull p before isWord after notWord behind nullWord _ =>
      exact fun _ => ((ends_spelling nullWord).append _).append _
  | member p before word after store _ =>
      exact fun _ => ((ends_name store.2).append _).append _
  | group before p after _ =>
      intro _
      exact ⟨'(' :: (before.1 ++ p.text ++ after.1), ')', by simp [text], by decide⟩
  | integer n => exact fun _ => n.ends_text
  | quoted q =>
      refine fun _ => ⟨q.quote :: q.body, q.quote, by simp [text, QuotedText.text], ?_⟩
      rcases q.isQuote with h | h <;> rw [h] <;> decide
  | truth b word => exact fun _ => ends_spelling word
  | null word => exact fun _ => ends_spelling word
  | parameter index type =>
      exact fun _ => ends_typeNote ((ends_digits index.digits).append ['$']) _ type
  | call space function before args after _ =>
      intro _
      have hclose : Ends [')'] := ⟨[], ')', rfl, by decide⟩
      simpa [text] using hclose.append (calledName space function ++ before.1 ++ '(' ::
        (args.text ++ after.1))
  | field stream name type =>
      intro _
      have hname := (ends_name name.2).append (stream.1 ++ ['.'])
      simpa [text] using ends_typeNote hname [':', ':'] type
  | column name type => exact fun _ => ends_typeNote (ends_name name.2) _ type
  | noArguments | arguments | noFurther | further => simp [Level.isExpression]

end Phrase

end Pushdown.Condition
