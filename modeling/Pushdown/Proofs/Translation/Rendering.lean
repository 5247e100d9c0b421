import Pushdown.Proofs.Translation.Numbering

/-!
# The direct rendering of a tree

A tree is rendered in one recursion with a running ordinal: a bind leaf becomes the marker of
the ordinal and counts it up, all else becomes text. Neither holes nor tokens occur in it.

A translator that visits trees without name spaces and is then finalized gives exactly this
text, trimmed, and the bind leaves of the trees from left to right
(`finalize_visitAll_eq_render`). The simulation goes through the scripts of the trees: a script
renders as its tree does, and a draft in order appends what a script renders.
-/

namespace Pushdown

/-- The text of an operand of a comparison, of arithmetic or of a null check. A negation, a null
check and a membership have no parentheses of their own and get them here. -/
def wrapped (e : Expr) (text : String) : String :=
  match e with
  | .not _ | .isNull _ _ | .eventNull _ | .member _ _ => "(" ++ text ++ ")"
  | _ => text

mutual

/-- The text of a tree whose first bind leaf has the given ordinal, and the ordinal after its
last one. -/
def render (c : Config) : Expr → Nat → String × Nat
  | .and l r, k =>
      let (left, k) := render c l k
      let (right, k) := render c r k
      ("(" ++ left ++ "AND " ++ right ++ ")", k)
  | .or l r, k =>
      let (left, k) := render c l k
      let (right, k) := render c r k
      ("(" ++ left ++ "OR " ++ right ++ ")", k)
  | .not e, k =>
      let (text, k) := render c e k
      ("NOT " ++ text, k)
  | .compare l op r, k =>
      let (left, k) := render c l k
      let (right, k) := render c r k
      ("(" ++ wrapped l left ++ c.compareSymbol op ++ " " ++ wrapped r right ++ ")", k)
  | .isNull e _, k =>
      let (text, k) := render c e k
      (wrapped e text ++ "IS NULL ", k)
  | .eventNull _, k => ("IS NULL ", k)
  | .member e _, k =>
      let (text, k) := render c e k
      ("IN " ++ text, k)
  | .math l op r, k =>
      let (left, k) := render c l k
      let (right, k) := render c r k
      ("(" ++ wrapped l left ++ op.symbol ++ " " ++ wrapped r right ++ ")", k)
  | .constant _ _, k => (c.dialect.marker k ++ " ", k + 1)
  | .parameter _ _, k => (c.dialect.marker k ++ " ", k + 1)
  | .eventField _ _ _ _, k => (c.dialect.marker k ++ " ", k + 1)
  | .column _ name _, k => (c.tableAlias ++ "." ++ name ++ " ", k)
  | .call _ name args, k =>
      let (text, k) := renderArgs c args k
      (name ++ " (" ++ text ++ ") ", k)

/-- The texts of arguments, with commas between them. -/
def renderArgs (c : Config) : List Expr → Nat → String × Nat
  | [], k => ("", k)
  | [e], k => render c e k
  | e :: es, k =>
      let (first, k) := render c e k
      let (others, k) := renderArgs c es k
      (first ++ ", " ++ others, k)

end

/-- The texts of trees one after another, with one running ordinal. -/
def renderAll (c : Config) : List Expr → Nat → String × Nat
  | [], k => ("", k)
  | e :: es, k =>
      let (first, k) := render c e k
      let (others, k) := renderAll c es k
      (first ++ others, k)

/-! ## What a script renders -/

namespace Script

variable {s t : Script}

theorem pieces_parenthesized (hs : s.rejection = none) :
    s.parenthesized.pieces = [.text "("] ++ s.pieces ++ [.text ")"] := by
  simp [parenthesized, pieces_append, hs, write]

theorem pieces_binary (hs : s.rejection = none) (ht : t.rejection = none) (op : String) :
    (s.binary op t).pieces =
      [.text "("] ++ (s.pieces ++ [.text op, .text " "] ++ t.pieces) ++ [.text ")"] := by
  have hword : (s ++ word op).rejection = none := by simp [hs]
  have hinner : (s ++ word op ++ t).rejection = none := by simp [hs, ht]
  rw [binary, pieces_parenthesized hinner, pieces_append hword, pieces_append hs]
  rfl

theorem values_grouped (hs : s.rejection = none) (e : Expr) :
    Piece.values (s.grouped e).pieces = Piece.values s.pieces := by
  by_cases h : e.isBare = true
  · simp [grouped, h, pieces_parenthesized hs, Piece.values]
  · simp [grouped, h]

theorem rendered_grouped (hs : s.rejection = none) (e : Expr) (dialect : Dialect) (k : Nat) :
    Piece.rendered dialect k (s.grouped e).pieces =
      wrapped e (Piece.rendered dialect k s.pieces) := by
  cases e <;>
    simp [grouped, Expr.isBare, wrapped, pieces_parenthesized hs, Piece.rendered_append,
      Piece.rendered, String.append_assoc]

end Script

/-- Every script of the arguments of a plain call is free of rejections. -/
theorem scriptArgs_rejection_of_allPlain (c : Config) {es : List Expr}
    (h : Expr.allPlain es = true) : (scriptArgs c es).rejection = none := by
  rw [scriptArgs_rejection_eq_none]
  intro e he
  exact (script_rejection_eq_none c e).mpr ((Expr.allPlain_iff es).mp h e he)

/-- The pieces of the script of a plain call. -/
theorem pieces_script_call (c : Config) {space : Option String} {name : String}
    {args : List Expr} (h : (Expr.call space name args).isPlain = true) :
    (script c (.call space name args)).pieces =
      [.text name, .text " ", .text "("] ++ (scriptArgs c args).pieces ++ [.text ") "] := by
  obtain ⟨hscript, hargs⟩ := script_call_of_isPlain c h
  have hclean := scriptArgs_rejection_of_allPlain c hargs
  rw [hscript, Script.pieces_append (by simp [hclean])]
  rfl

theorem values_scriptArgs (c : Config) (es : List Expr) (hplain : Expr.allPlain es = true)
    (ih : ∀ e ∈ es, e.isPlain = true → Piece.values (script c e).pieces = e.leaves) :
    Piece.values (scriptArgs c es).pieces = Expr.leavesAll es := by
  induction es with
  | nil => rfl
  | cons e es ihs =>
      simp only [Expr.allPlain, Bool.and_eq_true] at hplain
      have he := ih e (by simp) hplain.1
      have hes := ihs hplain.2 fun a ha => ih a (by simp [ha])
      have hclean := (script_rejection_eq_none c e).mpr hplain.1
      cases es with
      | nil => simp [scriptArgs, Expr.leavesAll, he]
      | cons e' es' =>
          rw [scriptArgs_cons_cons, Script.pieces_append (by simp [hclean]),
            Script.pieces_append hclean]
          simp [Piece.values, Script.write, he, hes, Expr.leavesAll]

/-- The script of a plain tree opens one hole for each bind leaf, from left to right. -/
theorem values_script (c : Config) (e : Expr) (hplain : e.isPlain = true) :
    Piece.values (script c e).pieces = e.leaves := by
  have hclean (e : Expr) (h : e.isPlain = true) := (script_rejection_eq_none c e).mpr h
  induction e using Expr.induct with
  | and l r ihl ihr | or l r ihl ihr =>
      simp only [Expr.isPlain, Bool.and_eq_true] at hplain
      obtain ⟨hl, hr⟩ := hplain
      simp [script, Script.pieces_binary, hclean, hl, hr, Piece.values, ihl, ihr, Expr.leaves]
  | compare l op r ihl ihr | math l op r ihl ihr =>
      simp only [Expr.isPlain, Bool.and_eq_true] at hplain
      obtain ⟨hl, hr⟩ := hplain
      simp [script, Script.pieces_binary, Script.values_grouped, hclean, hl, hr, Piece.values,
        ihl, ihr, Expr.leaves]
  | not e ih | member e store ih =>
      simp [script, Script.pieces_append, Script.word, Piece.values, ih hplain, Expr.leaves]
  | isNull e stream ih =>
      have hgrouped : ((script c e).grouped e).rejection = none := by
        simpa using hclean e hplain
      simp [script, Script.pieces_append hgrouped, Script.values_grouped, hclean e hplain,
        Script.word, Piece.values, ih hplain, Expr.leaves]
  | call space name args ih =>
      have hargs := (script_call_of_isPlain c hplain).2
      simp [pieces_script_call c hplain, Piece.values, values_scriptArgs c args hargs ih,
        Expr.leaves]
  | eventNull | column => simp [script, Script.word, Piece.values, Expr.leaves]
  | constant | parameter | eventField => simp [script, Script.value, Piece.values, Expr.leaves]

theorem rendered_scriptArgs (c : Config) (es : List Expr) (hplain : Expr.allPlain es = true)
    (ih : ∀ e ∈ es, e.isPlain = true → ∀ k,
      render c e k = (Piece.rendered c.dialect k (script c e).pieces, k + e.leafCount)) (k : Nat) :
    renderArgs c es k =
      (Piece.rendered c.dialect k (scriptArgs c es).pieces, k + Expr.leafCountAll es) := by
  induction es generalizing k with
  | nil => rfl
  | cons e es ihs =>
      simp only [Expr.allPlain, Bool.and_eq_true] at hplain
      have he := ih e (by simp) hplain.1
      have hes := ihs hplain.2 fun a ha => ih a (by simp [ha])
      have hclean := (script_rejection_eq_none c e).mpr hplain.1
      cases es with
      | nil => simp [renderArgs, scriptArgs, Expr.leafCountAll, he]
      | cons e' es' =>
          rw [scriptArgs_cons_cons, Script.pieces_append (by simp [hclean]),
            Script.pieces_append hclean]
          simp [renderArgs, he, hes, Piece.rendered_append, Piece.rendered,
            values_script c e hplain.1, Script.write, Expr.leafCountAll, Nat.add_assoc,
            String.append_assoc]

/-- The words that are written in two steps, as one text. -/
theorem joined_word (s : String) :
    "AND" ++ (" " ++ s) = "AND " ++ s ∧ "OR" ++ (" " ++ s) = "OR " ++ s ∧
      "NOT" ++ (" " ++ s) = "NOT " ++ s ∧ "IN" ++ (" " ++ s) = "IN " ++ s ∧
      " " ++ ("(" ++ s) = " (" ++ s := by
  simp only [← String.append_assoc]
  exact ⟨rfl, rfl, rfl, rfl, rfl⟩

/-- The direct rendering of a plain tree is what its script renders. -/
theorem render_eq_rendered (c : Config) (e : Expr) (hplain : e.isPlain = true) (k : Nat) :
    render c e k =
      (Piece.rendered c.dialect k (script c e).pieces, k + e.leafCount) := by
  have hclean (e : Expr) (h : e.isPlain = true) := (script_rejection_eq_none c e).mpr h
  have hcount (e : Expr) (h : e.isPlain = true) :
      (Piece.values (script c e).pieces).length = e.leafCount := by
    rw [values_script c e h, Expr.length_leaves]
  induction e using Expr.induct generalizing k with
  | and l r ihl ihr | or l r ihl ihr =>
      simp only [Expr.isPlain, Bool.and_eq_true] at hplain
      obtain ⟨hl, hr⟩ := hplain
      simp [script, render, Script.pieces_binary, hclean, hl, hr, Piece.rendered_append,
        Piece.rendered, ihl, ihr, hcount, Expr.leafCount, Nat.add_assoc, String.append_assoc,
        joined_word]
  | compare l op r ihl ihr | math l op r ihl ihr =>
      simp only [Expr.isPlain, Bool.and_eq_true] at hplain
      obtain ⟨hl, hr⟩ := hplain
      simp [script, render, Script.pieces_binary, Script.values_grouped, Script.rendered_grouped,
        hclean, hl, hr, Piece.rendered_append, Piece.rendered, ihl, ihr, hcount,
        Expr.leafCount, Nat.add_assoc, String.append_assoc]
  | not e ih | member e store ih =>
      simp [script, render, Script.pieces_append, Script.word, Piece.rendered, ih hplain,
        Expr.leafCount, joined_word]
  | isNull e stream ih =>
      have hgrouped : ((script c e).grouped e).rejection = none := by
        simpa using hclean e hplain
      simp [script, render, Script.pieces_append hgrouped, Script.rendered_grouped,
        hclean e hplain, Script.word, Piece.rendered_append, Piece.rendered, ih hplain,
        Expr.leafCount]
  | call space name args ih =>
      have hargs := (script_call_of_isPlain c hplain).2
      simp [pieces_script_call c hplain, render, rendered_scriptArgs c args hargs ih,
        Piece.rendered_append, Piece.rendered, Expr.leafCount, String.append_assoc, joined_word]
  | eventNull | column => simp [script, render, Script.word, Piece.rendered, Expr.leafCount]
  | constant | parameter | eventField =>
      simp [script, render, Script.value, Piece.rendered, Expr.leafCount]

theorem values_scripts (c : Config) (es : List Expr) (hplain : ∀ e ∈ es, e.isPlain = true) :
    Piece.values (es.flatMap fun e => (script c e).pieces) = es.flatMap Expr.leaves := by
  induction es with
  | nil => rfl
  | cons e es ih =>
      have he := values_script c e (hplain e (by simp))
      have hes := ih fun a ha => hplain a (by simp [ha])
      simp [he, hes]

theorem rendered_scripts (c : Config) (es : List Expr) (hplain : ∀ e ∈ es, e.isPlain = true)
    (k : Nat) :
    (renderAll c es k).1 =
      Piece.rendered c.dialect k (es.flatMap fun e => (script c e).pieces) := by
  induction es generalizing k with
  | nil => rfl
  | cons e es ih =>
      have he := hplain e (by simp)
      have hes := ih fun a ha => hplain a (by simp [ha])
      simp [renderAll, render_eq_rendered c e he, hes, Piece.rendered_append,
        values_script c e he]

/-! ## Translators -/

namespace Translator

/-- The answers to the visits of trees one after another, and the translator after them. -/
def visitAll (t : Translator) : List Expr → List (Except Failure Unit) × Translator
  | [] => ([], t)
  | e :: es =>
      let (answer, t) := t.visit e
      let (answers, t) := t.visitAll es
      (answer :: answers, t)

/-- An open translator takes a plain tree and runs its script. -/
theorem visit_of_isPlain {t : Translator} (hopen : t.closed = none) {e : Expr}
    (hplain : e.isPlain = true) :
    t.visit e =
      (.ok (), { t with draft := t.draft.putAll (script t.config e).pieces }) := by
  have hclean := (script_rejection_eq_none t.config e).mpr hplain
  simp [visit, hopen, walk_eq_run, Script.run, hclean]

/-- Visits of plain trees succeed, and the translator stays open with all scripts run. -/
theorem visitAll_of_isPlain {t : Translator} (hopen : t.closed = none) {es : List Expr}
    (hplain : ∀ e ∈ es, e.isPlain = true) :
    t.visitAll es =
      (es.map fun _ => .ok (),
        { t with draft := t.draft.putAll (es.flatMap fun e => (script t.config e).pieces) }) := by
  induction es generalizing t with
  | nil => rfl
  | cons e es ih =>
      have he := visit_of_isPlain hopen (hplain e (by simp))
      have hes : ∀ a ∈ es, a.isPlain = true := fun a ha => hplain a (by simp [ha])
      simp only [visitAll, he]
      rw [ih (by exact hopen) hes]
      simp

/-- Finalizing an open translator whose draft is in order gives its text and its bind values. -/
theorem finalize_of_ordered {t : Translator} (hopen : t.closed = none)
    (hordered : t.draft.Ordered) :
    t.finalize.1 = .ok ⟨Text.trimmed (t.draft.text t.config.dialect), t.draft.bound⟩ := by
  simp [finalize, hopen, reconcile_of_ordered hordered]

/-- A translator that has collected nothing gives the direct rendering of the plain trees that
it visits, whatever its log holds. -/
theorem finalize_visitAll {c : Config} {es : List Expr} (hplain : ∀ e ∈ es, e.isPlain = true)
    (log : List Event) :
    (visitAll { config := c, draft := { log := log } } es).2.finalize.1 =
      .ok ⟨Text.trimmed (renderAll c es 0).1, es.flatMap Expr.leaves⟩ := by
  obtain ⟨hordered, htext, hbound⟩ := Draft.putAll_spec (Draft.ordered_empty log) c.dialect
    (es.flatMap fun e => (script c e).pieces)
  rw [visitAll_of_isPlain rfl hplain, finalize_of_ordered rfl hordered, htext, hbound,
    values_scripts c es hplain, rendered_scripts c es hplain]
  rfl

end Translator

/-- The translation of a plain tree is its direct rendering and its bind leaves. -/
theorem translate_of_isPlain (c : Config) {e : Expr} (hplain : e.isPlain = true) :
    translate e c = .ok ⟨Text.trimmed (render c e 0).1, e.leaves⟩ := by
  have hvisit := Translator.visit_of_isPlain
    (t := { config := c, draft := { log := [.started c.dialect e.display] } }) rfl hplain
  have hone : ∀ a ∈ [e], a.isPlain = true := by simpa using hplain
  have hfinal := Translator.finalize_visitAll (c := c) hone [.started c.dialect e.display]
  simp only [Translator.visitAll, hvisit] at hfinal
  simpa [translate, translateLogged, Translator.note, Draft.note, hvisit, renderAll] using hfinal

/-- A tree whose translation succeeds has no name space. -/
theorem isPlain_of_translate {c : Config} {e : Expr} {f : Fragment}
    (h : translate e c = .ok f) : e.isPlain = true := by
  rw [← script_rejection_eq_none c]
  by_contra hrejected
  obtain ⟨cause, hcause⟩ := Option.ne_none_iff_exists'.mp hrejected
  simp [translate, translateLogged, Translator.visit, Translator.note, walk_eq_run, Script.run,
    hcause] at h

/-- A fresh translator that visits trees without name spaces answers every visit, and then gives
the trimmed direct rendering of the trees together with all their bind leaves, from left to
right. There are as many bind values as the trees have bind leaves, and the translation of a
single tree is the case of one visit. -/
theorem finalize_visitAll_eq_render (c : Config) (es : List Expr)
    (hplain : ∀ e ∈ es, e.isPlain = true) :
    (Translator.visitAll { config := c } es).1 = es.map (fun _ => .ok ()) ∧
      (Translator.visitAll { config := c } es).2.finalize.1 =
        .ok ⟨Text.trimmed (renderAll c es 0).1, es.flatMap Expr.leaves⟩ ∧
      (es.flatMap Expr.leaves).length = Expr.leafCountAll es ∧
      ∀ e, es = [e] →
        translate e c = (Translator.visitAll { config := c } es).2.finalize.1 := by
  have hfinal := Translator.finalize_visitAll (c := c) hplain []
  refine ⟨?_, hfinal, ?_, ?_⟩
  · rw [Translator.visitAll_of_isPlain rfl hplain]
  · rw [← Expr.leavesAll_eq_flatMap]
    exact Expr.length_leavesAll fun e _ => e.length_leaves
  · rintro e rfl
    rw [translate_of_isPlain c (hplain e (by simp)), hfinal]
    simp [renderAll]

/-- Two visits share one ordinal, and a null check of a membership is wrapped. -/
theorem finalize_two_visits :
    (Translator.visitAll { config := { dialect := .postgres } }
      [.compare (.column none "price" .double) .gt (.constant (.int 100) .int),
        .isNull (.member (.parameter 0 .long) "Stock") none]).2.finalize.1 =
      .ok ⟨"(t.price > $1 )(IN $2 )IS NULL",
        [.constant (.int 100) .int, .sourced (.parameter 0) .long]⟩ := by
  rw [(finalize_visitAll_eq_render _ _ (by decide)).2.1]
  decide +kernel

end Pushdown
