import Pushdown.Fragment.Reconcile

/-!
# Log of a translator

What a translator reports while it works, as data. Each event has a level and a text.
-/

namespace Pushdown

/-- The importance of an event. -/
inductive Level
  | trace
  | debug
  | warn
  | error
  deriving DecidableEq, Repr

/-- The name of a level. -/
def Level.name : Level → String
  | trace => "TRACE"
  | debug => "DEBUG"
  | warn => "WARN"
  | error => "ERROR"

/-- The two calls that a translator takes. -/
inductive Operation
  | visit
  | finalize
  deriving DecidableEq, Repr

/-- The name of a call. -/
def Operation.name : Operation → String
  | visit => "visit"
  | finalize => "finalize"

/-- Why a translator takes no more calls. -/
inductive Closed
  /-- A visit failed. -/
  | aborted
  /-- The fragment was asked for. -/
  | finalized
  deriving DecidableEq, Repr

/-- An event in the work of a translator. -/
inductive Event
  /-- Work on the tree with this text starts. -/
  | started (dialect : Dialect) (condition : String)
  /-- A token was taken for a bind value. -/
  | allocated (token : Token) (value : BoundValue)
  /-- A function with a name space was met. -/
  | rejected (space function : String)
  /-- The holes and the values do not match. -/
  | inconsistent (cause : Inconsistency)
  /-- A closed translator was called. -/
  | refused (operation : Operation) (closed : Closed)
  /-- A fragment was made. -/
  | finished (dialect : Dialect) (counter : TokenCounter) (parameters : Nat)
  deriving DecidableEq

namespace Event

/-- The level of an event. -/
def level : Event → Level
  | started _ _ => .debug
  | allocated _ _ => .trace
  | rejected _ _ => .warn
  | inconsistent _ => .error
  | refused _ _ => .error
  | finished _ _ _ => .debug

/-- The text of an event. -/
def message : Event → String
  | started dialect condition =>
      "Translating condition for " ++ dialect.name ++ ": " ++ condition
  | allocated token value =>
      "Allocated placeholder " ++ token.display ++ " for " ++ value.display
  | rejected space function => "Rejecting namespaced function " ++ space ++ ":" ++ function
  | inconsistent (.unbound token) => "Placeholder " ++ token.display ++ " has no bound value"
  | inconsistent (.repeated token) => "Placeholder " ++ token.display ++ " emitted twice"
  | inconsistent (.unused tokens) => "Bound values never emitted: " ++ displayTokens tokens
  | refused operation .finalized => operation.name ++ " called on a finalized translator"
  | refused operation .aborted => operation.name ++ " called on a failed translator"
  | finished dialect counter parameters =>
      "Translated condition (" ++ dialect.name ++ "): " ++ toString counter.constants
        ++ " constants, " ++ toString counter.sourced ++ " variables, "
        ++ toString parameters ++ " parameters"

/-- The line of an event: its level and its text. -/
def line (e : Event) : String := e.level.name ++ " " ++ e.message

end Event

end Pushdown
