import Pushdown.Config
import Pushdown.Expr.Printer
import Pushdown.Log

/-!
# Translating trees to fragments

A translator walks trees and collects text with holes and the values of the holes; finalizing
numbers the holes and gives the fragment. Every binary node stands in parentheses, so that the
text keeps the grouping of the tree whatever the precedence of SQL operators is.

A function with a name space ends the walk; what was collected so far stays. A translator takes
calls until a visit fails or it is finalized, and refuses every call after that.
-/

namespace Pushdown

/-! ## Drafts -/

/-- What a translator has collected so far. -/
structure Draft where
  /-- The text with holes. -/
  buffer : Buffer := {}
  /-- The values of the holes. -/
  values : Bindings := .empty
  /-- The tokens taken so far. -/
  counter : TokenCounter := {}
  /-- The events so far, newest first. -/
  log : List Event := []

namespace Draft

/-- The draft with a text at its end. -/
def write (d : Draft) (text : String) : Draft := { d with buffer := d.buffer.write text }

/-- The draft with a word and a space at its end. -/
def word (d : Draft) (text : String) : Draft := (d.write text).write " "

/-- The draft with one more event. -/
def note (d : Draft) (event : Event) : Draft := { d with log := event :: d.log }

/-- The kind of token that a bind value takes. -/
def tokenKind (value : BoundValue) : TokenKind := if value.isConstant then .constant else .sourced

/-- The draft with a hole for a bind value and a space at its end. -/
def bind (d : Draft) (value : BoundValue) : Draft :=
  let kind := tokenKind value
  let token := d.counter.next kind
  { buffer := (d.buffer.addHole token).write " "
    values := d.values.insert token value
    counter := d.counter.advance kind
    log := .allocated token value :: d.log }

/-- The events in the order in which they happened. -/
def events (d : Draft) : List Event := d.log.reverse

end Draft

/-! ## The walk -/

/-- The outcome of walking a tree. -/
inductive Walked
  /-- The whole tree was written. -/
  | done (draft : Draft)
  /-- A function with a name space was met; this was collected before it. -/
  | rejected (space function : String) (draft : Draft)

namespace Walked

/-- A walk that goes on after another one, unless that one was rejected. -/
def andThen (first : Walked) (next : Draft → Walked) : Walked :=
  match first with
  | done draft => next draft
  | rejected space function draft => rejected space function draft

/-- The draft at the end of a walk. -/
def draft : Walked → Draft
  | done draft => draft
  | rejected _ _ draft => draft

end Walked

/-- The node is written without parentheses of its own although it is no operand. -/
def Expr.isBare : Expr → Bool
  | .not _ => true
  | .isNull _ _ => true
  | .eventNull _ => true
  | .member _ _ => true
  | _ => false

namespace Walk

/-- A walk in parentheses. -/
def parenthesized (inner : Draft → Walked) (d : Draft) : Walked :=
  (inner (d.write "(")).andThen fun d => .done (d.write ")")

/-- The walk of an operand, in parentheses if the operand is bare. -/
def grouped (e : Expr) (inner : Draft → Walked) : Draft → Walked :=
  if e.isBare then parenthesized inner else inner

/-- Two operands in parentheses with a word between them. -/
def binary (left : Draft → Walked) (op : String) (right : Draft → Walked) : Draft → Walked :=
  parenthesized fun d => (left d).andThen fun d => right (d.word op)

end Walk

open Walk

mutual

/-- The walk of a tree. -/
def walk (c : Config) : Expr → Draft → Walked
  | .and l r, d => binary (walk c l) "AND" (walk c r) d
  | .or l r, d => binary (walk c l) "OR" (walk c r) d
  | .not e, d => walk c e (d.word "NOT")
  | .compare l op r, d =>
      binary (grouped l (walk c l)) (c.compareSymbol op) (grouped r (walk c r)) d
  | .isNull e _, d => (grouped e (walk c e) d).andThen fun d => .done (d.word "IS NULL")
  | .eventNull _, d => .done (d.word "IS NULL")
  | .member e _, d => walk c e (d.word "IN")
  | .math l op r, d => binary (grouped l (walk c l)) op.symbol (grouped r (walk c r)) d
  | .constant value type, d => .done (d.bind (.constant value type))
  | .parameter index type, d => .done (d.bind (.sourced (.parameter index) type))
  | .eventField id _ _ type, d => .done (d.bind (.sourced (.stream id) type))
  | .column _ name _, d => .done (d.word (c.tableAlias ++ "." ++ name))
  | .call space name args, d =>
      if space.getD "" ≠ "" then
        .rejected (space.getD "") name (d.note (.rejected (space.getD "") name))
      else
        (walkArgs c args ((d.word name).write "(")).andThen fun d => .done (d.write ") ")

/-- The walk of arguments, with commas between them. -/
def walkArgs (c : Config) : List Expr → Draft → Walked
  | [], d => .done d
  | [e], d => walk c e d
  | e :: es, d => (walk c e d).andThen fun d => walkArgs c es (d.write ", ")

end

/-! ## Translators -/

/-- Why a call of a translator failed. -/
inductive Failure
  /-- A function with a name space was met. -/
  | rejected (space function : String)
  /-- The translator is closed. -/
  | closed (operation : Operation) (cause : Closed)
  /-- The holes and the values do not match. -/
  | inconsistent (cause : Inconsistency)
  deriving DecidableEq

/-- The failure as reported. -/
def Failure.toError : Failure → Error
  | rejected space function => .unsupported space function
  | closed operation .finalized =>
      .internal (operation.name ++ " called on a translator that was already finalized")
  | closed operation .aborted =>
      .internal (operation.name ++ " called on a translator whose translation was aborted")
  | inconsistent cause => .internal cause.message

/-- A translator: its settings, what it has collected, and why it is closed, if it is. -/
structure Translator where
  /-- The settings. -/
  config : Config
  /-- What was collected so far. -/
  draft : Draft := {}
  /-- Why the translator takes no more calls. -/
  closed : Option Closed := none

namespace Translator

/-- The number of bind values collected so far. -/
def placeholderCount (t : Translator) : Nat := t.draft.values.size

/-- The translator with one more event. -/
def note (t : Translator) (event : Event) : Translator := { t with draft := t.draft.note event }

/-- The translator after a call that it refuses. -/
def refuse (t : Translator) (operation : Operation) (cause : Closed) : Translator :=
  t.note (.refused operation cause)

/-- Walks a tree and keeps what it collects. -/
def visit (t : Translator) (e : Expr) : Except Failure Unit × Translator :=
  match t.closed with
  | some cause => (.error (.closed .visit cause), t.refuse .visit cause)
  | none =>
      match walk t.config e t.draft with
      | .done draft => (.ok (), { t with draft })
      | .rejected space function draft =>
          (.error (.rejected space function), { t with draft, closed := some .aborted })

/-- Numbers the holes and closes the translator. -/
def finalize (t : Translator) : Except Failure Fragment × Translator :=
  match t.closed with
  | some cause => (.error (.closed .finalize cause), t.refuse .finalize cause)
  | none =>
      let t := { t with closed := some .finalized }
      match reconcile t.draft.buffer.segments t.draft.values t.config.dialect with
      | .ok fragment =>
          (.ok fragment,
            t.note (.finished t.config.dialect t.draft.counter fragment.parameters.length))
      | .error cause => (.error (.inconsistent cause), t.note (.inconsistent cause))

end Translator

/-- The fragment of one tree, and the events on the way to it. -/
def translateLogged (e : Expr) (c : Config) : Except Failure Fragment × List Event :=
  let start : Translator := { config := c }
  match (start.note (.started c.dialect e.display)).visit e with
  | (.error failure, t) => (.error failure, t.draft.events)
  | (.ok (), t) => (t.finalize.1, t.finalize.2.draft.events)

/-- The fragment of one tree. -/
def translate (e : Expr) (c : Config) : Except Failure Fragment := (translateLogged e c).1

end Pushdown
