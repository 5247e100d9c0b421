import Pushdown.Proofs.Translation.Runs
import Pushdown.Proofs.Translation.Skeleton

/-!
# Where a walk is rejected

The nodes of a tree are listed in pre-order: a node before all nodes below it, and what stands on
the left before what stands on the right. A walk goes through this list. It ends at the first call
with a name space, and until then it has bound the leaves that stand before that call, and no
others (`follows_script`).

So an open translator rejects a tree exactly if some node of it has a name space, the rejection
names the first such node, and the number of bind values tells how far the walk came
(`visit_rejects_first`).

## Implementation notes

A script is compared with a list of nodes and not with a tree. Two parts of a tree then compose as
their scripts do, and a part behind a rejection is ignored on both sides.
-/

namespace Pushdown

namespace Expr

mutual

/-- The nodes of a tree in pre-order. -/
def nodes : Expr → List Expr
  | and l r => and l r :: (nodes l ++ nodes r)
  | or l r => or l r :: (nodes l ++ nodes r)
  | not e => not e :: nodes e
  | compare l op r => compare l op r :: (nodes l ++ nodes r)
  | isNull e stream => isNull e stream :: nodes e
  | eventNull stream => [eventNull stream]
  | member e store => member e store :: nodes e
  | math l op r => math l op r :: (nodes l ++ nodes r)
  | constant value type => [constant value type]
  | call space name args => call space name args :: nodesAll args
  | parameter index type => [parameter index type]
  | eventField id stream name type => [eventField id stream name type]
  | column store name type => [column store name type]

/-- The nodes of a list of trees, one tree after another. -/
def nodesAll : List Expr → List Expr
  | [] => []
  | e :: es => nodes e ++ nodesAll es

end

/-- The node is a call with a name space that is not empty. -/
def IsSpaced : Expr → Prop
  | call (some space) _ _ => space ≠ ""
  | _ => False

/-- The bind value that a node becomes, if it is a bind leaf. -/
def leaf? : Expr → Option BoundValue
  | constant value type => some (.constant value type)
  | parameter index type => some (.sourced (.parameter index) type)
  | eventField id _ _ type => some (.sourced (.stream id) type)
  | _ => none

/-- The first node with a name space is a call of the function, and these nodes stand before it. -/
structure FirstSpaced (e : Expr) (space name : String) (before : List Expr) : Prop where
  /-- The call stands directly behind the nodes. -/
  stands : ∃ args after, e.nodes = before ++ call (some space) name args :: after
  /-- The name space is not empty. -/
  spaced : space ≠ ""
  /-- No node before the call has a name space. -/
  first : ∀ node ∈ before, ¬ node.IsSpaced

end Expr

open Pushdown.Expr (nodes nodesAll leaf?)

/-! ## Scripts and nodes -/

/-- The script does what the nodes ask for: it binds the leaves among them, up to the first one
with a name space, which it is rejected for. -/
inductive Follows : Script → List Expr → Prop
  /-- No node has a name space. -/
  | through {pieces : List Piece} {ns : List Expr} (hplain : ∀ node ∈ ns, ¬ node.IsSpaced)
      (hvalues : Piece.values pieces = ns.filterMap leaf?) : Follows ⟨pieces, none⟩ ns
  /-- The nodes before a call have no name space, and the call has one. -/
  | stopped {pieces : List Piece} {before after args : List Expr} {space name : String}
      (hplain : ∀ node ∈ before, ¬ node.IsSpaced) (hspace : space ≠ "")
      (hvalues : Piece.values pieces = before.filterMap leaf?) :
      Follows ⟨pieces, some (space, name)⟩ (before ++ .call (some space) name args :: after)

namespace Follows

variable {s t : Script} {ns ms : List Expr} {node : Expr}

/-- One script after another follows the nodes of both. -/
theorem append (hs : Follows s ns) (ht : Follows t ms) : Follows (s ++ t) (ns ++ ms) := by
  cases hs with
  | stopped hplain hspace hvalues =>
      rw [Script.append_mk_some, List.append_assoc, List.cons_append]
      exact .stopped hplain hspace hvalues
  | through hplain hvalues =>
      cases ht with
      | through hplain' hvalues' =>
          refine .through (List.forall_mem_append.mpr ⟨hplain, hplain'⟩) ?_
          rw [Piece.values_append, hvalues, hvalues', List.filterMap_append]
      | stopped hplain' hspace hvalues' =>
          rw [Script.append_mk_none, ← List.append_assoc]
          refine .stopped (List.forall_mem_append.mpr ⟨hplain, hplain'⟩) hspace ?_
          rw [Piece.values_append, hvalues, hvalues', List.filterMap_append]

theorem write (text : String) : Follows (.write text) [] := .through (by simp) rfl

theorem word (text : String) : Follows (.word text) [] := .through (by simp) rfl

/-- A node that is neither a leaf nor a call with a name space asks for nothing. -/
theorem silent (hplain : ¬ node.IsSpaced) (hleaf : leaf? node = none) (h : Follows s ns) :
    Follows s (node :: ns) := by
  cases h with
  | through hplain' hvalues =>
      refine .through (List.forall_mem_cons.mpr ⟨hplain, hplain'⟩) ?_
      rw [List.filterMap_cons_none hleaf, hvalues]
  | stopped hplain' hspace hvalues =>
      rw [← List.cons_append]
      refine .stopped (List.forall_mem_cons.mpr ⟨hplain, hplain'⟩) hspace ?_
      rw [List.filterMap_cons_none hleaf, hvalues]

/-- A leaf asks for its own bind value. -/
theorem value {v : BoundValue} (hplain : ¬ node.IsSpaced) (hleaf : leaf? node = some v) :
    Follows (.value v) [node] := by
  refine .through (List.forall_mem_singleton.mpr hplain) ?_
  rw [List.filterMap_cons_some hleaf]
  rfl

theorem parenthesized (h : Follows s ns) : Follows s.parenthesized ns := by
  rw [Script.parenthesized]
  simpa using ((write "(").append h).append (write ")")

theorem grouped (h : Follows s ns) (e : Expr) : Follows (s.grouped e) ns := by
  rw [Script.grouped]
  split
  · exact h.parenthesized
  · exact h

theorem binary (hs : Follows s ns) (op : String) (ht : Follows t ms) :
    Follows (s.binary op t) (ns ++ ms) := by
  have hinner := (hs.append (word op)).append ht
  rw [List.append_nil] at hinner
  exact hinner.parenthesized

end Follows

theorem follows_scriptArgs (c : Config) {es : List Expr}
    (ih : ∀ e ∈ es, Follows (script c e) e.nodes) : Follows (scriptArgs c es) (nodesAll es) := by
  induction es with
  | nil => exact .through (by simp [nodesAll]) rfl
  | cons e es ihs =>
      have he := ih e (by simp)
      have hes := ihs fun a ha => ih a (by simp [ha])
      cases es with
      | nil => simpa [scriptArgs, nodesAll] using he
      | cons e' es' =>
          rw [scriptArgs_cons_cons, nodesAll]
          simpa using (he.append (.write ", ")).append hes

/-- A walk goes through the nodes of its tree in pre-order. -/
theorem follows_script (c : Config) (e : Expr) : Follows (script c e) e.nodes := by
  induction e using Expr.induct with
  | and l r ihl ihr | or l r ihl ihr =>
      exact .silent id rfl (ihl.binary _ ihr)
  | compare l op r ihl ihr | math l op r ihl ihr =>
      exact .silent id rfl ((ihl.grouped l).binary _ (ihr.grouped r))
  | not e ih | member e store ih => exact .silent id rfl ((Follows.word _).append ih)
  | isNull e stream ih =>
      refine .silent id rfl ?_
      rw [script]
      simpa using (ih.grouped e).append (.word "IS NULL")
  | call space name args ih =>
      rw [script, nodes]
      split
      · rename_i hspace
        cases space with
        | none => exact absurd rfl hspace
        | some space =>
            rw [← List.nil_append (Expr.call (some space) name args :: nodesAll args)]
            exact .stopped (by simp) hspace rfl
      · rename_i hspace
        have hplain : ¬ (Expr.call space name args).IsSpaced := by
          cases space with
          | none => exact id
          | some space => exact hspace
        refine .silent hplain rfl ?_
        have hcall := ((Follows.word name).append (.write "(")).append (follows_scriptArgs c ih)
        simpa using hcall.append (.write ") ")
  | eventNull stream => exact .silent id rfl (.word _)
  | column store name type => exact .silent id rfl (.word _)
  | constant value type => exact .value id rfl
  | parameter index type => exact .value id rfl
  | eventField field stream name type => exact .value id rfl

/-- A walk reaches the end of its tree and no node has a name space, or it is rejected for the first
node that has one, with the leaves before that node bound. -/
theorem script_outcome (c : Config) (e : Expr) :
    ((script c e).rejection = none ∧ ∀ node ∈ e.nodes, ¬ node.IsSpaced) ∨
      ∃ space name before, (script c e).rejection = some (space, name) ∧
        e.FirstSpaced space name before ∧
        Piece.values (script c e).pieces = before.filterMap leaf? := by
  have hfollows := follows_script c e
  generalize script c e = s, hnodes : e.nodes = ns at hfollows
  cases hfollows with
  | through hplain hvalues => exact .inl ⟨rfl, hplain⟩
  | @stopped pieces before after args space name hplain hspace hvalues =>
      exact .inr ⟨space, name, before, rfl, ⟨⟨args, after, hnodes⟩, hspace, hplain⟩, hvalues⟩

theorem Expr.FirstSpaced.exists_spaced {e : Expr} {space name : String} {before : List Expr}
    (h : e.FirstSpaced space name before) : ∃ node ∈ e.nodes, node.IsSpaced := by
  obtain ⟨args, after, hnodes⟩ := h.stands
  refine ⟨.call (some space) name args, ?_, h.spaced⟩
  rw [hnodes]
  exact List.mem_append_right before List.mem_cons_self

/-- A translation gives a fragment, or it rejects the first node with a name space. -/
theorem translate_outcome (e : Expr) (settings : Config) :
    ((∃ f, translate e settings = .ok f) ∧ ∀ node ∈ e.nodes, ¬ node.IsSpaced) ∨
      ∃ space name before, e.FirstSpaced space name before ∧
        (translate e settings).mapError Failure.toError = .error (.unsupported space name) := by
  rcases script_outcome settings e with ⟨hnone, hplain⟩ | ⟨space, name, before, hsome, hfirst, -⟩
  · have hclean := (script_rejection_eq_none settings e).mp hnone
    exact .inl ⟨⟨_, translate_of_isPlain settings hclean⟩, hplain⟩
  · refine .inr ⟨space, name, before, hfirst, ?_⟩
    rw [translate_of_rejection hsome]
    rfl

/-! ## Visits -/

namespace Translator

variable {t : Translator}

/-- An open translator answers as the script of the tree ends. -/
theorem answer_visit (hopen : t.closed = none) (e : Expr) :
    (t.visit e).1 =
      match (script t.config e).rejection with
      | none => .ok ()
      | some (space, name) => .error (.rejected space name) := by
  simp only [visit, hopen, walk_eq_run, Script.run]
  cases (script t.config e).rejection <;> rfl

/-- A visit binds the values of the script, also if it is rejected. -/
theorem placeholderCount_visit (hopen : t.closed = none) (hordered : t.draft.Ordered)
    (e : Expr) :
    (t.visit e).2.placeholderCount =
      t.placeholderCount + (Piece.values (script t.config e).pieces).length := by
  have hcount (d : Draft) : d.values.size = d.bound.length := by
    simp [Bindings.size, Draft.bound]
  have hbound := (Draft.putAll_spec hordered t.config.dialect (script t.config e).pieces).2.2
  have hgrown : (t.draft.putAll (script t.config e).pieces).values.size =
      t.draft.values.size + (Piece.values (script t.config e).pieces).length := by
    rw [hcount, hbound, List.length_append, ← hcount]
  simp only [visit, hopen, walk_eq_run, Script.run]
  cases (script t.config e).rejection <;> exact hgrown

/-- Whatever was called before, an open translator rejects a tree exactly if a node of it has a name
space. It then names the first such node in pre-order, and has bound the leaves that stand before
that node; a tree that it takes has all its leaves bound. So a translation gives a fragment or
rejects the first node with a name space, whatever the settings are. -/
theorem visit_rejects_first (c : Config) (calls : List Call)
    {answers : List (Except Failure Reply)} {t : Translator}
    (hrun : run { config := c } calls = (answers, t)) (hopen : t.closed = none) (e : Expr) :
    ((∃ failure, (t.visit e).1 = .error failure) ↔ ∃ node ∈ e.nodes, node.IsSpaced) ∧
      (∀ failure, (t.visit e).1 = .error failure →
        ∃ space name before, e.FirstSpaced space name before ∧
          failure.toError = .unsupported space name ∧
          (t.visit e).2.placeholderCount =
            t.placeholderCount + (before.filterMap Expr.leaf?).length) ∧
      ((t.visit e).1 = .ok () →
        (t.visit e).2.placeholderCount = t.placeholderCount + e.leafCount) ∧
      ∀ settings : Config,
        ((∃ f, translate e settings = .ok f) ∧ ∀ node ∈ e.nodes, ¬ node.IsSpaced) ∨
          ∃ space name before, e.FirstSpaced space name before ∧
            (translate e settings).mapError Failure.toError =
              .error (.unsupported space name) := by
  have hordered : t.draft.Ordered := by
    obtain ⟨-, rfl⟩ := Prod.mk.inj hrun
    exact (tidy_run Draft.tidy_empty calls).ordered
  have hanswer := answer_visit hopen e
  have hcount := placeholderCount_visit hopen hordered e
  rcases script_outcome t.config e with
    ⟨hnone, hplain⟩ | ⟨space, name, before, hsome, hfirst, hvalues⟩
  · rw [hnone] at hanswer
    have hclean := (script_rejection_eq_none t.config e).mp hnone
    rw [values_script t.config e hclean, Expr.length_leaves] at hcount
    refine ⟨?_, ?_, fun _ => hcount, translate_outcome e⟩
    · simpa [hanswer] using hplain
    · intro failure hfailure
      rw [hanswer] at hfailure
      exact absurd hfailure (by simp)
  · rw [hsome] at hanswer
    rw [hvalues] at hcount
    refine ⟨?_, ?_, ?_, translate_outcome e⟩
    · exact ⟨fun _ => hfirst.exists_spaced, fun _ => ⟨_, hanswer⟩⟩
    · intro failure hfailure
      rw [hanswer] at hfailure
      obtain rfl := Except.error.inj hfailure
      exact ⟨space, name, before, hfirst, rfl, hcount⟩
    · intro hok
      rw [hanswer] at hok
      exact absurd hok (by simp)

/-- A tree with two name spaces, one of them inside a call whose name space is empty. -/
def scattered : Expr :=
  .and (.compare (.literal (.int 1)) .eq (.not (.parameter 0 .int)))
    (.call none "f"
      [.streamField "S" "b" .object, .call (some "") "g" [.call (some "ns") "h" [.literal .null]],
        .call (some "other") "k" []])

theorem visit_rejects_scattered :
    (run { config := {} } alternating).2.closed = none ∧
      (run { config := {} } alternating).2.placeholderCount = 4 ∧
      ∃ before, scattered.FirstSpaced "ns" "h" before ∧ (before.filterMap Expr.leaf?).length = 3 ∧
        ((run { config := {} } alternating).2.visit scattered).2.placeholderCount = 4 + 3 := by
  have hopen : (run { config := {} } alternating).2.closed = none := by decide
  have hfour : (run { config := {} } alternating).2.placeholderCount = 4 := by decide
  have hfails : ((run { config := {} } alternating).2.visit scattered).1 =
      .error (.rejected "ns" "h") := by decide
  have hseven : ((run { config := {} } alternating).2.visit scattered).2.placeholderCount = 7 := by
    decide
  obtain ⟨-, hfirst, -, -⟩ := visit_rejects_first {} alternating
    (t := (run { config := {} } alternating).2) rfl hopen scattered
  obtain ⟨space, name, before, hspaced, herror, hcount⟩ := hfirst _ hfails
  obtain ⟨rfl, rfl⟩ := Error.unsupported.inj herror
  exact ⟨hopen, hfour, before, hspaced, by omega, hseven⟩

end Translator

end Pushdown
