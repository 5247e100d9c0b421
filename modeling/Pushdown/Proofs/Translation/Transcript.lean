import Pushdown.Proofs.Translation.Rejection

/-!
# The log of a translation

A bind value is logged when its hole is opened, with the token of the hole. The ordinals are given
out later, from the text. Nevertheless the log lists the bind values by ordinal, and the index of a
token is the number of bind values of its kind that have a smaller ordinal, because each step of a
walk appends to the text, to the values and to the log at once (`Draft.Records.putAll`).

A walk that is rejected leaves the log of the leaves before the rejected call, numbered in the same
way (`transcript_translate`).

## Implementation notes

`Draft.Records` speaks of the counters as well. They are what a token is numbered by, and the counts
of the last line are read off them.
-/

namespace Pushdown

open Draft (tokenKind)

/-! ## Numbered bind values -/

/-- The number of bind values that take a token of the kind. -/
def countKind (kind : TokenKind) (values : List BoundValue) : Nat :=
  values.countP fun value => tokenKind value = kind

/-- The event of a value that is bound behind the given ones. -/
def allocation (earlier : List BoundValue) (value : BoundValue) : Event :=
  .allocated ⟨tokenKind value, countKind (tokenKind value) earlier⟩ value

/-- The events of values that are bound one after another. -/
def allocations (values : List BoundValue) : List Event :=
  values.mapIdx fun i value => allocation (values.take i) value

theorem countKind_concat (kind : TokenKind) (values : List BoundValue) (value : BoundValue) :
    countKind kind (values ++ [value]) =
      if kind = tokenKind value then countKind kind values + 1 else countKind kind values := by
  rw [countKind, List.countP_append, List.countP_singleton, ← countKind]
  by_cases h : kind = tokenKind value
  · simp [h]
  · simp [h, Ne.symm h]

/-- One more value leaves the earlier events as they are. -/
theorem allocations_concat (values : List BoundValue) (value : BoundValue) :
    allocations (values ++ [value]) = allocations values ++ [allocation values value] := by
  rw [allocations, List.mapIdx_concat, List.take_left]
  congr 1
  apply List.mapIdx_eq_mapIdx_iff.mpr
  intro i hi
  rw [List.take_append_of_le_length (Nat.le_of_lt hi)]

/-! ## Steps of a draft -/

/-- Behind the given start, the draft has logged these values and nothing else, and has counted
their tokens. -/
structure Draft.Records (d : Draft) (start : List Event) (values : List BoundValue) : Prop where
  /-- The counters are the numbers of values by kind. -/
  counted : ∀ kind, d.counter.count kind = countKind kind values
  /-- Every value has its event, in order. -/
  logged : d.events = start ++ allocations values

namespace Draft.Records

variable {d : Draft} {start : List Event} {values : List BoundValue}

/-- A step logs the value that it opens a hole for. -/
theorem put (h : d.Records start values) (p : Piece) :
    (d.put p).Records start (values ++ Piece.values [p]) := by
  cases p with
  | text text =>
      rw [Piece.values, Piece.values, List.append_nil]
      exact ⟨h.counted, h.logged⟩
  | value value =>
      rw [Piece.values, Piece.values]
      constructor
      · intro kind
        rw [countKind_concat, ← h.counted]
        exact TokenCounter.count_advance d.counter (tokenKind value) kind
      · have hevent : Event.allocated (d.counter.next (tokenKind value)) value =
            allocation values value := by
          rw [TokenCounter.next_eq, h.counted, allocation]
        calc (d.bind value).events
            = d.events ++ [.allocated (d.counter.next (tokenKind value)) value] := by
              simp [Draft.events, Draft.bind]
          _ = start ++ allocations (values ++ [value]) := by
              rw [h.logged, hevent, allocations_concat, List.append_assoc]

/-- A list of steps logs all its values in order. -/
theorem putAll (h : d.Records start values) (ps : List Piece) :
    (d.putAll ps).Records start (values ++ Piece.values ps) := by
  induction ps generalizing d values with
  | nil => simpa [Piece.values] using h
  | cons p ps ih =>
      have hrest := ih (h.put p)
      rw [List.append_assoc, ← Piece.values_append] at hrest
      exact hrest

theorem counter_eq (h : d.Records start values) :
    d.counter = ⟨countKind .constant values, countKind .sourced values⟩ := by
  have hconstants := h.counted .constant
  have hsourced := h.counted .sourced
  rw [← hconstants, ← hsourced]
  rfl

end Draft.Records

theorem Draft.records_started (event : Event) :
    ({ log := [event] } : Draft).Records [event] [] := by
  constructor
  · intro kind
    cases kind <;> rfl
  · rfl

/-! ## Translations -/

/-- The log of a translation that gives a fragment. -/
theorem events_of_isPlain (c : Config) {e : Expr} (hplain : e.isPlain = true) :
    (translateLogged e c).2 =
      .started c.dialect e.display :: (allocations e.leaves ++
        [.finished c.dialect ⟨countKind .constant e.leaves, countKind .sourced e.leaves⟩
          e.leaves.length]) := by
  have hvisit := Translator.visit_of_isPlain
    (t := { config := c, draft := { log := [.started c.dialect e.display] } }) rfl hplain
  obtain ⟨hordered, -, hbound⟩ := Draft.putAll_spec
    (Draft.ordered_empty [.started c.dialect e.display]) c.dialect (script c e).pieces
  have hrecords := (Draft.records_started (.started c.dialect e.display)).putAll
    (script c e).pieces
  rw [values_script c e hplain] at hrecords hbound
  have hlogged := hrecords.logged
  rw [Draft.events] at hlogged
  simp only [translateLogged, Translator.note, Draft.note, hvisit, Translator.finalize,
    reconcile_of_ordered hordered, Draft.events, List.reverse_cons, hlogged, hbound,
    hrecords.counter_eq]
  rfl

/-- The log of a translation that is rejected. -/
theorem events_of_rejection {c : Config} {e : Expr} {space name : String}
    (hsome : (script c e).rejection = some (space, name)) :
    (translateLogged e c).2 =
      .started c.dialect e.display ::
        (allocations (Piece.values (script c e).pieces) ++ [.rejected space name]) := by
  have hrecords := (Draft.records_started (.started c.dialect e.display)).putAll
    (script c e).pieces
  have hlogged := hrecords.logged
  rw [Draft.events] at hlogged
  simp only [translateLogged, Translator.note, Draft.note, Translator.visit, walk_eq_run,
    Script.run, hsome, Draft.events, List.reverse_cons, hlogged]
  rfl

/-- A bind value is a constant or a variable. -/
theorem countP_isConstant_add (values : List BoundValue) :
    values.countP BoundValue.isConstant + values.countP (fun value => !value.isConstant) =
      values.length := by
  have hsplit := List.length_eq_countP_add_countP BoundValue.isConstant (l := values)
  simpa using hsplit.symm

/-! ## Lines -/

/-- The line that a translation starts with. -/
def startLine (c : Config) (e : Expr) : String :=
  "DEBUG Translating condition for " ++ c.dialect.name ++ ": " ++ e.display

/-- The line of a value that is bound behind the given ones. Its token is numbered by the earlier
values of its kind. -/
def allocationLine (earlier : List BoundValue) (value : BoundValue) : String :=
  "TRACE Allocated placeholder [" ++ (if value.isConstant then "const" else "strVar") ++
    toString (earlier.countP fun other => other.isConstant == value.isConstant) ++ "] for " ++
    value.display

/-- The lines of values that are bound one after another. -/
def allocationLines (values : List BoundValue) : List String :=
  values.mapIdx fun i value => allocationLine (values.take i) value

/-- The line that a translation with these parameters ends with. -/
def endLine (c : Config) (parameters : List BoundValue) : String :=
  "DEBUG Translated condition (" ++ c.dialect.name ++ "): " ++
    toString (parameters.countP BoundValue.isConstant) ++ " constants, " ++
    toString (parameters.countP fun value => !value.isConstant) ++ " variables, " ++
    toString parameters.length ++ " parameters"

/-- The line of a translation that is rejected. -/
def rejectionLine (space name : String) : String :=
  "WARN Rejecting namespaced function " ++ space ++ ":" ++ name

theorem tokenKind_eq_constant_iff (value : BoundValue) :
    tokenKind value = .constant ↔ value.isConstant = true := by
  cases value <;> simp [tokenKind, BoundValue.isConstant]

/-- The values of a kind are those that are constants, or those that are not. -/
theorem countKind_eq (kind : TokenKind) (values : List BoundValue) :
    countKind kind values =
      values.countP fun value => value.isConstant == decide (kind = .constant) := by
  apply List.countP_congr
  intro value _
  cases kind <;> cases value <;> simp [tokenKind, BoundValue.isConstant]

theorem line_allocated (token : Token) (value : BoundValue) :
    (Event.allocated token value).line =
      "TRACE Allocated placeholder [" ++ token.kind.stem ++ toString token.index ++ "] for " ++
        value.display := by
  have hjoin (s : String) : s ++ "]" ++ " for " = s ++ "] for " := by
    rw [String.append_assoc]
    simp only [String.reduceAppend]
  calc (Event.allocated token value).line
      = "TRACE" ++ " " ++ ("Allocated placeholder " ++
          ("[" ++ (token.kind.stem ++ toString token.index) ++ "]") ++ " for " ++
          value.display) := rfl
    _ = "TRACE Allocated placeholder [" ++ token.kind.stem ++ toString token.index ++ "] for " ++
          value.display := by
        simp only [← String.append_assoc, String.reduceAppend, hjoin]

theorem line_allocation (earlier : List BoundValue) (value : BoundValue) :
    (allocation earlier value).line = allocationLine earlier value := by
  have hstem : (tokenKind value).stem = if value.isConstant then "const" else "strVar" := by
    cases value <;> rfl
  rw [allocation, line_allocated]
  unfold allocationLine
  simp only [hstem, countKind_eq, tokenKind_eq_constant_iff, Bool.decide_eq_true]

theorem map_line_allocations (values : List BoundValue) :
    (allocations values).map Event.line = allocationLines values := by
  rw [allocations, allocationLines, List.mapIdx_eq_zipIdx_map, List.mapIdx_eq_zipIdx_map,
    List.map_map]
  simp only [Function.comp_def, line_allocation]

theorem line_started (c : Config) (e : Expr) :
    (Event.started c.dialect e.display).line = startLine c e := by
  calc (Event.started c.dialect e.display).line
      = "DEBUG" ++ " " ++ ("Translating condition for " ++ c.dialect.name ++ ": " ++ e.display) :=
        rfl
    _ = startLine c e := by
        unfold startLine
        simp only [← String.append_assoc, String.reduceAppend]

theorem line_finished (c : Config) (parameters : List BoundValue) :
    (Event.finished c.dialect ⟨countKind .constant parameters, countKind .sourced parameters⟩
      parameters.length).line = endLine c parameters := by
  calc (Event.finished c.dialect
        ⟨countKind .constant parameters, countKind .sourced parameters⟩ parameters.length).line
      = "DEBUG" ++ " " ++ ("Translated condition (" ++ c.dialect.name ++ "): " ++
          toString (countKind .constant parameters) ++ " constants, " ++
          toString (countKind .sourced parameters) ++ " variables, " ++
          toString parameters.length ++ " parameters") := rfl
    _ = endLine c parameters := by
        unfold endLine
        simp only [countKind_eq, reduceCtorEq, decide_true, decide_false, beq_true, beq_false,
          ← String.append_assoc, String.reduceAppend]

theorem line_rejected (space name : String) :
    (Event.rejected space name).line = rejectionLine space name := by
  calc (Event.rejected space name).line
      = "WARN" ++ " " ++ ("Rejecting namespaced function " ++ space ++ ":" ++ name) := rfl
    _ = rejectionLine space name := by
        unfold rejectionLine
        simp only [← String.append_assoc, String.reduceAppend]

/-- No allocation is an error, so a log of allocations between two other events has none. -/
theorem level_ne_error {first last : Event} (values : List BoundValue)
    (hfirst : first.level ≠ .error) (hlast : last.level ≠ .error) :
    ∀ event ∈ first :: (allocations values ++ [last]), event.level ≠ .error := by
  intro event hevent
  rcases List.mem_cons.mp hevent with rfl | hevent
  · exact hfirst
  rcases List.mem_append.mp hevent with hevent | hevent
  · obtain ⟨i, hi, rfl⟩ := List.mem_mapIdx.mp hevent
    simp [allocation, Event.level]
  · rw [List.mem_singleton.mp hevent]
    exact hlast

/-! ## Transcripts -/

/-- The log of a translation lists its parameters. If there is a fragment, there is a line for the
start, a line for each parameter in the order of the ordinals, in which the token is numbered by the
earlier parameters of the same kind, and a line for the end with the numbers of constants and of
variables, which together are the bind leaves of the tree. If there is none, there is a line for the
start, a line for each bind leaf before the first call with a name space, and a line that names this
call. No error is ever reported. -/
theorem transcript_translate (e : Expr) (c : Config) :
    (∀ f, translate e c = .ok f →
      (translateLogged e c).2.map Event.line =
          startLine c e :: (allocationLines f.parameters ++ [endLine c f.parameters]) ∧
        f.parameters.countP BoundValue.isConstant +
            f.parameters.countP (fun value => !value.isConstant) = f.parameters.length ∧
        f.parameters.length = e.leafCount) ∧
      (∀ failure, translate e c = .error failure →
        ∃ space name before, e.FirstSpaced space name before ∧
          failure = .rejected space name ∧
          (translateLogged e c).2.map Event.line =
            startLine c e ::
              (allocationLines (before.filterMap Expr.leaf?) ++ [rejectionLine space name])) ∧
      ∀ event ∈ (translateLogged e c).2, event.level ≠ .error := by
  rcases script_outcome c e with ⟨hnone, -⟩ | ⟨space, name, before, hsome, hfirst, hvalues⟩
  · have hplain := (script_rejection_eq_none c e).mp hnone
    have hfragment := translate_of_isPlain c hplain
    rw [events_of_isPlain c hplain]
    refine ⟨?_, ?_, ?_⟩
    · intro f hf
      obtain rfl := Except.ok.inj (hfragment.symm.trans hf)
      refine ⟨?_, countP_isConstant_add e.leaves, e.length_leaves⟩
      simp only [List.map_cons, List.map_append, List.map_nil, line_started, line_finished,
        map_line_allocations]
    · intro failure hfailure
      rw [hfragment] at hfailure
      exact absurd hfailure (by simp)
    · exact level_ne_error _ (by simp [Event.level]) (by simp [Event.level])
  · have hfailure := translate_of_rejection hsome
    rw [events_of_rejection hsome, hvalues]
    refine ⟨?_, ?_, ?_⟩
    · intro f hf
      rw [hfailure] at hf
      exact absurd hf (by simp)
    · intro failure hf
      obtain rfl := Except.error.inj (hfailure.symm.trans hf)
      refine ⟨space, name, before, hfirst, rfl, ?_⟩
      simp only [List.map_cons, List.map_append, List.map_nil, line_started, line_rejected,
        map_line_allocations]
    · exact level_ne_error _ (by simp [Event.level]) (by simp [Event.level])

/-- A tree that is translated, and a tree that is rejected behind three of its leaves. -/
theorem transcript_two_trees :
    (translateLogged mixedLeaves {}).2.map Event.line =
        ["DEBUG Translating condition for generic: ((1 + $0:LONG) = f(S.x, y))",
          "TRACE Allocated placeholder [const0] for 1 (INT)",
          "TRACE Allocated placeholder [strVar0] for $0 (LONG)",
          "TRACE Allocated placeholder [strVar1] for S.x (DOUBLE)",
          "DEBUG Translated condition (generic): 1 constants, 2 variables, 3 parameters"] ∧
      ∃ before, Translator.scattered.FirstSpaced "ns" "h" before ∧
        (translateLogged Translator.scattered {}).2.map Event.line =
          startLine {} Translator.scattered ::
            (allocationLines (before.filterMap Expr.leaf?) ++
              ["WARN Rejecting namespaced function ns:h"]) := by
  have hok : translate mixedLeaves {} = .ok ⟨"((? + ? )= f (? , t.y ) )",
      [.constant (.int 1) .int, .sourced (.parameter 0) .long,
        .sourced (.stream "S.x") .double]⟩ := by decide +kernel
  have hfails : translate Translator.scattered {} = .error (.rejected "ns" "h") := by
    decide +kernel
  constructor
  · obtain ⟨hlines, -, -⟩ := (transcript_translate mixedLeaves {}).1 _ hok
    rw [hlines]
    decide +kernel
  · obtain ⟨space, name, before, hfirst, hrejected, hlines⟩ :=
      (transcript_translate Translator.scattered {}).2.1 _ hfails
    obtain ⟨rfl, rfl⟩ := Failure.rejected.inj hrejected
    refine ⟨before, hfirst, ?_⟩
    rw [hlines]
    rfl

end Pushdown
