import Pushdown.Proofs.Translation.Runs

/-!
# The life cycle of a translator

A translator is open at first. It closes at the first call that is a finalization or a visit that
fails, and this call decides for good why it is closed (`closed_run`). A closed translator refuses
every call, says why, and changes nothing but its log (`run_of_closed`).

So a sequence of calls gives a fragment once if it is closed by a finalization, and never if a
visit fails first, whatever that visit had written before (`run_lifeCycle`).
-/

namespace Pushdown

/-- Why a call with this answer closes an open translator, if it does. -/
def Call.closing : Call → Except Failure Reply → Option Closed
  | .finalize, _ => some .finalized
  | .visit _, .error _ => some .aborted
  | .visit _, .ok _ => none

/-- What a closed translator says behind the name of the operation. -/
def Closed.notice : Closed → String
  | .finalized => " called on a translator that was already finalized"
  | .aborted => " called on a translator whose translation was aborted"

/-- The answer is a fragment. -/
def isFragment : Except Failure Reply → Bool
  | .ok (.fragment _) => true
  | .ok .visited | .error _ => false

namespace Translator

variable {t : Translator} {cause : Closed}

theorem run_cons (t : Translator) (call : Call) (calls : List Call) :
    t.run (call :: calls) =
      ((t.take call).1 :: ((t.take call).2.run calls).1, ((t.take call).2.run calls).2) := rfl

/-! ## Closed translators -/

theorem take_of_closed (h : t.closed = some cause) (call : Call) :
    t.take call =
      (.error (.closed call.operation cause), t.refuse call.operation cause) := by
  cases call <;> simp [take, visit, finalize, h, Call.operation, Except.map]

/-- A closed translator refuses all calls and only notes that it did. -/
theorem run_of_closed (h : t.closed = some cause) (calls : List Call) :
    t.run calls =
      (calls.map fun call => .error (.closed call.operation cause),
        { t with draft := { t.draft with
          log := (calls.map fun call => .refused call.operation cause).reverse
            ++ t.draft.log } }) := by
  induction calls generalizing t with
  | nil => rfl
  | cons call calls ih =>
      rw [run_cons, take_of_closed h, ih (t := t.refuse call.operation cause) h]
      simp [refuse, note, Draft.note]

theorem toError_closed (operation : Operation) (cause : Closed) :
    (Failure.closed operation cause).toError = .internal (operation.name ++ cause.notice) := by
  cases cause <;> rfl

/-! ## Open translators -/

/-- An open translator is closed by a call exactly if the call and its answer say so. -/
theorem closed_take (h : t.closed = none) (call : Call) :
    (t.take call).2.closed = call.closing (t.take call).1 := by
  cases call with
  | visit e =>
      simp only [take, visit, h]
      split <;> rfl
  | finalize =>
      simp only [take, finalize, h]
      split <;> rfl

/-- A translator that was open is closed for the reason of the first call that closes one. -/
theorem closed_run (h : t.closed = none) (calls : List Call) :
    (t.run calls).2.closed =
      (calls.zip (t.run calls).1).findSome? fun called => called.1.closing called.2 := by
  induction calls generalizing t with
  | nil => exact h
  | cons call calls ih =>
      have hstep := closed_take h call
      rw [run_cons, List.zip_cons_cons, List.findSome?_cons]
      cases hclosing : call.closing (t.take call).1 with
      | none => simpa [hclosing] using ih (hstep.trans hclosing)
      | some cause =>
          have hclosed := hstep.trans hclosing
          simpa [hclosing, run_of_closed hclosed] using hclosed

/-- A call that leaves a translator open gives no fragment. -/
theorem isFragment_of_closing {call : Call} (hclosing : call.closing (t.take call).1 = none) :
    isFragment (t.take call).1 = false := by
  cases call with
  | finalize => simp [Call.closing] at hclosing
  | visit e =>
      simp only [take]
      cases (t.visit e).1 <;> rfl

/-- A call that closes a tidy translator gives a fragment if it is a finalization. -/
theorem isFragment_take (h : t.closed = none) (htidy : t.draft.Tidy) {call : Call}
    (hclosing : call.closing (t.take call).1 = some cause) :
    isFragment (t.take call).1 = decide (cause = .finalized) := by
  cases call with
  | finalize =>
      obtain rfl : .finalized = cause := by simpa [Call.closing] using hclosing
      obtain ⟨f, hf⟩ := finalize_of_tidy h htidy
      simp [take, hf, Except.map, isFragment]
  | visit e =>
      simp only [take] at hclosing ⊢
      cases hanswer : (t.visit e).1 with
      | ok _ => simp [hanswer, Except.map, Call.closing] at hclosing
      | error failure =>
          obtain rfl : .aborted = cause := by
            simpa [hanswer, Except.map, Call.closing] using hclosing
          rfl

/-- There is one fragment if the translator was finalized, and none otherwise. -/
theorem countP_isFragment_run (h : t.closed = none) (htidy : t.draft.Tidy)
    (calls : List Call) :
    (t.run calls).1.countP isFragment =
      if (t.run calls).2.closed = some .finalized then 1 else 0 := by
  induction calls generalizing t with
  | nil => simp [run, h]
  | cons call calls ih =>
      have hstep := closed_take h call
      rw [run_cons, List.countP_cons]
      cases hclosing : call.closing (t.take call).1 with
      | none =>
          rw [ih (hstep.trans hclosing) (tidy_take htidy call), isFragment_of_closing hclosing]
          rfl
      | some cause =>
          have hclosed := hstep.trans hclosing
          have hrun := run_of_closed hclosed calls
          have hrefused : ((t.take call).2.run calls).1.countP isFragment = 0 := by
            simp [hrun, List.countP_eq_zero, isFragment]
          have hlast : ((t.take call).2.run calls).2.closed = some cause := by
            rw [hrun]
            exact hclosed
          rw [hrefused, isFragment_take h htidy hclosing]
          simp [hlast]

/-! ## Whole sequences of calls -/

/-- Over any sequence of calls on a new translator: one call gives a fragment if the translator
was finalized, and none otherwise; the translator is closed for the reason of the first call that
is a finalization or a failing visit, and open if there is none; and once it is closed, every
later call is refused with a text that names the operation and the reason, and leaves all but the
log as it was. -/
theorem run_lifeCycle (c : Config) (calls : List Call) {answers : List (Except Failure Reply)}
    {t : Translator} (hrun : run { config := c } calls = (answers, t)) :
    answers.countP isFragment = (if t.closed = some .finalized then 1 else 0) ∧
      t.closed = ((calls.zip answers).findSome? fun called => called.1.closing called.2) ∧
      ∀ cause, t.closed = some cause → ∀ later : List Call,
        (t.run later).1.map (Except.mapError Failure.toError) =
            (later.map fun call => .error (.internal (call.operation.name ++ cause.notice))) ∧
          (∃ log, (t.run later).2 = { t with draft := { t.draft with log := log } }) ∧
          (t.run later).2.placeholderCount = t.placeholderCount := by
  obtain ⟨rfl, rfl⟩ := Prod.mk.inj hrun
  refine ⟨countP_isFragment_run rfl Draft.tidy_empty calls, closed_run rfl calls, ?_⟩
  intro cause hclosed later
  rw [run_of_closed hclosed]
  refine ⟨?_, ⟨_, rfl⟩, rfl⟩
  rw [List.map_map]
  refine List.map_congr_left fun call _ => ?_
  exact congrArg Except.error (toError_closed call.operation cause)

/-- A visit that binds a constant and a parameter before it meets a name space. -/
def interrupted : List Call :=
  [.visit (.column none "a" .object),
    .visit (.or (.not (.literal (.int 1)))
      (.call none "f" [.parameter 0 .int, .call (some "ns") "g" []]))]

theorem run_interrupted :
    (run { config := {} } interrupted).2.closed = some .aborted ∧
      (run { config := {} } interrupted).2.placeholderCount = 2 ∧
      ((run { config := {} } interrupted).2.run [.finalize, .visit (.literal .null)]).1.map
          (Except.mapError Failure.toError) =
        [.error (.internal "finalize called on a translator whose translation was aborted"),
          .error (.internal "visit called on a translator whose translation was aborted")] ∧
      ((run { config := {} } interrupted).2.run
        [.finalize, .visit (.literal .null)]).2.placeholderCount = 2 := by
  have hclosed : (run { config := {} } interrupted).2.closed = some .aborted := by decide
  have hcount : (run { config := {} } interrupted).2.placeholderCount = 2 := by decide
  obtain ⟨-, -, hlater⟩ := run_lifeCycle {} interrupted rfl
  obtain ⟨hanswers, -, hsame⟩ := hlater .aborted hclosed [.finalize, .visit (.literal .null)]
  exact ⟨hclosed, hcount, hanswers, hsame.trans hcount⟩

end Translator

end Pushdown
