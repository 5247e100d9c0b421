import Pushdown.Translator
import Pushdown.Proofs.Trees

/-!
# Walks as scripts

A walk only ever does two things to a draft: it writes a text, or it opens a hole for a bind
value. The script of a tree lists these steps, and says which function ended them, if one did.
Running the script on a draft is the walk of the tree (`walk_eq_run`), so that what holds of a
draft after any number of steps is proved of the steps and not of the trees.

## Implementation notes

A script that ends with a rejection ignores what is appended to it. This is the way in which
`Walked.andThen` skips the rest of a walk.
-/

namespace Pushdown

/-- One step of a walk. -/
inductive Piece
  /-- A text is written. -/
  | text (text : String)
  /-- A hole is opened for a bind value. -/
  | value (value : BoundValue)

namespace Draft

/-- The draft after one step. -/
def put (d : Draft) : Piece → Draft
  | .text text => d.write text
  | .value value => d.bind value

/-- The draft after a list of steps. -/
def putAll (d : Draft) (pieces : List Piece) : Draft := pieces.foldl put d

@[simp] theorem putAll_nil (d : Draft) : d.putAll [] = d := rfl

@[simp] theorem putAll_cons (d : Draft) (p : Piece) (ps : List Piece) :
    d.putAll (p :: ps) = (d.put p).putAll ps := rfl

@[simp] theorem putAll_append (d : Draft) (ps qs : List Piece) :
    d.putAll (ps ++ qs) = (d.putAll ps).putAll qs := List.foldl_append

end Draft

/-- The bind values of a list of steps. -/
def Piece.values : List Piece → List BoundValue
  | [] => []
  | .text _ :: ps => values ps
  | .value v :: ps => v :: values ps

@[simp] theorem Piece.values_append (ps qs : List Piece) :
    values (ps ++ qs) = values ps ++ values qs := by
  induction ps with
  | nil => rfl
  | cons p ps ih => cases p <;> simp [values, ih]

/-- The steps of a walk, and the function with a name space that ended it. -/
structure Script where
  /-- The steps. -/
  pieces : List Piece
  /-- The name space and the name of the function that ended the walk. -/
  rejection : Option (String × String)

namespace Script

/-- A script that writes one text. -/
def write (text : String) : Script := ⟨[.text text], none⟩

/-- A script that writes a word and a space. -/
def word (text : String) : Script := ⟨[.text text, .text " "], none⟩

/-- A script that opens one hole. -/
def value (value : BoundValue) : Script := ⟨[.value value], none⟩

/-- One script after another, unless the first one ended with a rejection. -/
protected def append (s t : Script) : Script :=
  match s.rejection with
  | none => ⟨s.pieces ++ t.pieces, t.rejection⟩
  | some _ => s

instance : Append Script := ⟨Script.append⟩

/-- The outcome of a script on a draft. -/
def run (s : Script) (d : Draft) : Walked :=
  match s.rejection with
  | none => .done (d.putAll s.pieces)
  | some (space, function) =>
      .rejected space function ((d.putAll s.pieces).note (.rejected space function))

@[simp] theorem append_mk_none (ps qs : List Piece) (r : Option (String × String)) :
    (⟨ps, none⟩ : Script) ++ (⟨qs, r⟩ : Script) = ⟨ps ++ qs, r⟩ := rfl

@[simp] theorem append_mk_some (ps : List Piece) (r : String × String) (t : Script) :
    (⟨ps, some r⟩ : Script) ++ t = ⟨ps, some r⟩ := rfl

/-- Running a script after another one goes on from what the first one left. -/
@[simp] theorem run_append (s t : Script) (d : Draft) :
    (s ++ t).run d = (s.run d).andThen t.run := by
  obtain ⟨ps, rejection⟩ := s
  cases rejection with
  | some cause => rfl
  | none =>
      obtain ⟨qs, rejection⟩ := t
      cases rejection <;> simp [run, Walked.andThen]

@[simp] theorem run_write (text : String) : (write text).run = fun d => .done (d.write text) := rfl

@[simp] theorem run_word (text : String) : (word text).run = fun d => .done (d.word text) := rfl

@[simp] theorem run_value (v : BoundValue) : (value v).run = fun d => .done (d.bind v) := rfl

end Script

@[simp] theorem Walked.done_andThen (d : Draft) (next : Draft → Walked) :
    (Walked.done d).andThen next = next d := rfl

@[simp] theorem Walked.andThen_andThen (first : Walked) (f g : Draft → Walked) :
    (first.andThen f).andThen g = first.andThen fun d => (f d).andThen g := by
  cases first <;> rfl

/-! ## The script of a tree -/

open Script

/-- A script in parentheses. -/
def Script.parenthesized (s : Script) : Script := write "(" ++ s ++ write ")"

/-- The script of an operand, in parentheses if the operand is bare. -/
def Script.grouped (e : Expr) (s : Script) : Script := if e.isBare then s.parenthesized else s

/-- The script of two operands with a word between them. -/
def Script.binary (left : Script) (op : String) (right : Script) : Script :=
  (left ++ word op ++ right).parenthesized

mutual

/-- The steps of the walk of a tree. -/
def script (c : Config) : Expr → Script
  | .and l r => binary (script c l) "AND" (script c r)
  | .or l r => binary (script c l) "OR" (script c r)
  | .not e => word "NOT" ++ script c e
  | .compare l op r =>
      binary (grouped l (script c l)) (c.compareSymbol op) (grouped r (script c r))
  | .isNull e _ => grouped e (script c e) ++ word "IS NULL"
  | .eventNull _ => word "IS NULL"
  | .member e _ => word "IN" ++ script c e
  | .math l op r => binary (grouped l (script c l)) op.symbol (grouped r (script c r))
  | .constant v type => value (.constant v type)
  | .parameter index type => value (.sourced (.parameter index) type)
  | .eventField id _ _ type => value (.sourced (.stream id) type)
  | .column _ name _ => word (c.tableAlias ++ "." ++ name)
  | .call space name args =>
      if space.getD "" ≠ "" then ⟨[], some (space.getD "", name)⟩
      else word name ++ write "(" ++ scriptArgs c args ++ write ") "

/-- The steps of the walk of arguments. -/
def scriptArgs (c : Config) : List Expr → Script
  | [] => ⟨[], none⟩
  | [e] => script c e
  | e :: es => script c e ++ write ", " ++ scriptArgs c es

end

theorem scriptArgs_cons_cons (c : Config) (e e' : Expr) (es : List Expr) :
    scriptArgs c (e :: e' :: es) = script c e ++ write ", " ++ scriptArgs c (e' :: es) := by
  simp [scriptArgs]

@[simp] theorem run_parenthesized (s : Script) (d : Draft) :
    s.parenthesized.run d = Walk.parenthesized s.run d := by
  simp [Script.parenthesized, Walk.parenthesized]

@[simp] theorem run_grouped (e : Expr) (s : Script) (d : Draft) :
    (s.grouped e).run d = Walk.grouped e s.run d := by
  by_cases h : e.isBare = true
  · simp [Script.grouped, Walk.grouped, h]
  · simp [Script.grouped, Walk.grouped, h]

@[simp] theorem run_binary (left right : Script) (op : String) (d : Draft) :
    (left.binary op right).run d = Walk.binary left.run op right.run d := by
  simp [Script.binary, Walk.binary, Walk.parenthesized]

/-- The walk of arguments is the run of their script. -/
theorem walkArgs_eq_run (c : Config) (es : List Expr)
    (ih : ∀ e ∈ es, walk c e = (script c e).run) :
    walkArgs c es = (scriptArgs c es).run := by
  induction es with
  | nil => rfl
  | cons e es ihs =>
      have he : walk c e = (script c e).run := ih e (by simp)
      have hes := ihs fun a ha => ih a (by simp [ha])
      funext d
      cases es with
      | nil => simp [walkArgs, scriptArgs, he]
      | cons e' es' => simp [walkArgs, scriptArgs, he, hes]

/-- The walk of a tree is the run of its script. -/
theorem walk_eq_run (c : Config) (e : Expr) : walk c e = (script c e).run := by
  induction e using Expr.induct with
  | and l r ihl ihr | or l r ihl ihr =>
      funext d
      simp [walk, script, ihl, ihr]
  | compare l op r ihl ihr | math l op r ihl ihr =>
      funext d
      simp [walk, script, ihl, ihr, Walk.binary, Walk.parenthesized]
  | not e ih =>
      funext d
      simp [walk, script, ih]
  | isNull e stream ih =>
      funext d
      simp [walk, script, ih]
  | member e store ih =>
      funext d
      simp [walk, script, ih]
  | call space name args ih =>
      funext d
      by_cases h : space.getD "" ≠ ""
      · simp [walk, script, h, Script.run]
      · simp [walk, script, h, walkArgs_eq_run c args ih]
  | eventNull stream => rfl
  | constant v type => rfl
  | parameter index type => rfl
  | eventField id stream name type => rfl
  | column store name type => rfl

/-! ## Scripts without a rejection -/

theorem Script.rejection_append (s t : Script) :
    (s ++ t).rejection = s.rejection.or t.rejection := by
  obtain ⟨ps, rejection⟩ := s
  cases rejection <;> rfl

theorem Script.pieces_append {s : Script} (h : s.rejection = none) (t : Script) :
    (s ++ t).pieces = s.pieces ++ t.pieces := by
  obtain ⟨ps, rejection⟩ := s
  subst h
  rfl

@[simp] theorem Script.append_rejection_eq_none (s t : Script) :
    (s ++ t).rejection = none ↔ s.rejection = none ∧ t.rejection = none := by
  rw [Script.rejection_append, Option.or_eq_none_iff]

@[simp] theorem Script.write_rejection (text : String) : (write text).rejection = none := rfl

@[simp] theorem Script.word_rejection (text : String) : (word text).rejection = none := rfl

@[simp] theorem Script.value_rejection (v : BoundValue) : (value v).rejection = none := rfl

@[simp] theorem Script.binary_rejection_eq_none (s t : Script) (op : String) :
    (s.binary op t).rejection = none ↔ s.rejection = none ∧ t.rejection = none := by
  simp [Script.binary, Script.parenthesized]

@[simp] theorem Script.grouped_rejection_eq_none (s : Script) (e : Expr) :
    (s.grouped e).rejection = none ↔ s.rejection = none := by
  by_cases h : e.isBare = true
  · simp [Script.grouped, Script.parenthesized, h]
  · simp [Script.grouped, h]

theorem scriptArgs_rejection_eq_none (c : Config) (es : List Expr) :
    (scriptArgs c es).rejection = none ↔ ∀ e ∈ es, (script c e).rejection = none := by
  induction es with
  | nil => simp [scriptArgs]
  | cons e es ih =>
      cases es with
      | nil => simp [scriptArgs]
      | cons e' es' => simp [scriptArgs, ih]

/-- A walk reaches the end of a tree exactly if no call in the tree has a name space. -/
theorem script_rejection_eq_none (c : Config) (e : Expr) :
    (script c e).rejection = none ↔ e.isPlain = true := by
  induction e using Expr.induct with
  | and l r ihl ihr | or l r ihl ihr => simp [script, Expr.isPlain, ihl, ihr]
  | compare l op r ihl ihr | math l op r ihl ihr => simp [script, Expr.isPlain, ihl, ihr]
  | not e ih => simp [script, Expr.isPlain, ih]
  | isNull e stream ih => simp [script, Expr.isPlain, ih]
  | member e store ih => simp [script, Expr.isPlain, ih]
  | call space name args ih =>
      have hargs : (scriptArgs c args).rejection = none ↔ Expr.allPlain args = true := by
        rw [scriptArgs_rejection_eq_none, Expr.allPlain_iff]
        exact forall₂_congr ih
      have hspace : space.getD "" = "" ↔ space = none ∨ space = some "" := by
        cases space <;> simp
      by_cases h : space.getD "" = ""
      · simp [script, Expr.isPlain, h, hargs, hspace.mp h]
      · have h' : ¬(space = none ∨ space = some "") := fun hs => h (hspace.mpr hs)
        simp [script, Expr.isPlain, h, h']
  | eventNull | constant | parameter | eventField | column => simp [script, Expr.isPlain]

/-- The script of a call in a plain tree has no rejection of its own. -/
theorem script_call_of_isPlain (c : Config) {space : Option String} {name : String}
    {args : List Expr} (h : (Expr.call space name args).isPlain = true) :
    script c (.call space name args) = word name ++ write "(" ++ scriptArgs c args ++ write ") " ∧
      Expr.allPlain args = true := by
  simp only [Expr.isPlain, Bool.and_eq_true, Bool.or_eq_true, beq_iff_eq] at h
  obtain ⟨rfl | rfl, hargs⟩ := h <;> simp [script, hargs]

end Pushdown
