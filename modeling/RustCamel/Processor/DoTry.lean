-- The segment of `do_try_segment.rs`: a try body, the clauses that catch its error, and a
-- body that runs at the end. A body or a predicate is a call with a free answer.
import RustCamel.Processor.ErrorHandler

open List

namespace camel_processor.do_try

open camel_api (Exchange PROPERTY_EXCEPTION_HANDLED)
open camel_api.error (CamelError)
open camel_processor.error_handler (ExceptionDisposition PipelineOutcome)

/-! ## Calls -/

/-- The error of a predicate. `detail_cause` is whether its cause bears the mark of the mapper of
the expression languages. -/
structure PredicateError where
  error : CamelError
  detail_cause : Bool

/-- What the segment asks. A clause is named by its index. -/
inductive TryCall where
  | try_body (exchange : Exchange)
  | matcher (clause : Nat) (exchange : Exchange)
  | on_when (clause : Nat) (exchange : Exchange)
  | catch_body (clause : Nat) (exchange : Exchange)
  | finally_on_when (exchange : Exchange)
  | finally_body (exchange : Exchange)

abbrev TryCall.Answer : TryCall → Type
  | .try_body _ => PipelineOutcome
  | .matcher _ _ => Except PredicateError Bool
  | .on_when _ _ => Except PredicateError Bool
  | .catch_body _ _ => PipelineOutcome
  | .finally_on_when _ => Except PredicateError Bool
  | .finally_body _ => PipelineOutcome

abbrev Scope := Prog TryCall TryCall.Answer

/-! ## The segment -/

inductive CatchMatcher where
  | ByVariant (names : List String)
  | Predicate

/-- `on_when` is whether the clause has such a predicate. -/
structure CatchClauseSegment where
  matcher : CatchMatcher
  on_when : Bool
  disposition : ExceptionDisposition

structure FinallyClauseSegment where
  on_when : Bool

structure DoTrySegment where
  catches : List CatchClauseSegment
  finally' : Option FinallyClauseSegment

/-- How the last body ends where it does not complete. -/
inductive FinallyOutcome where
  | Stopped (exchange : Exchange)
  | Failed (err : CamelError)
  | PredicateFailed (err : CamelError)

def CatchMatcher.matches (matcher : CatchMatcher) (clause : Nat) (err : CamelError)
    (ex : Exchange) : Scope (Except PredicateError Bool) :=
  match matcher with
  | .ByVariant names =>
    if names.any (· == "*") then pure (.ok true)
    else pure (.ok (names.any (· == err.variant_name)))
  | .Predicate => Prog.ask (TryCall.matcher clause ex)

/-- The test of `on_when`. Without a predicate the clause goes on. -/
def CatchClauseSegment.permits (catch' : CatchClauseSegment) (clause : Nat) (ex : Exchange) :
    Scope (Except PredicateError Bool) :=
  if catch'.on_when then Prog.ask (TryCall.on_when clause ex) else pure (.ok true)

def FinallyClauseSegment.permits (f : FinallyClauseSegment) (ex : Exchange) :
    Scope (Except PredicateError Bool) :=
  if f.on_when then Prog.ask (TryCall.finally_on_when ex) else pure (.ok true)

def chain_predicate_error (predicate_err : PredicateError) (original : CamelError) : CamelError :=
  match predicate_err.error with
  | .ExpressionFailed language route_id step_id verb cls position conversion cause =>
    if cause.isNone || predicate_err.detail_cause then
      .ExpressionFailed language route_id step_id verb cls position conversion (some original)
    else .ExpressionFailed language route_id step_id verb cls position conversion cause
  | error => error

section

variable (finally' : Option FinallyClauseSegment)

def run_finally_body (ex : Exchange) : Scope (Except FinallyOutcome Exchange) :=
  match finally' with
  | none => pure (.ok ex)
  | some f => do
    match ← f.permits ex with
    | .error err => pure (.error (.PredicateFailed err.error))
    | .ok false => pure (.ok ex)
    | .ok true =>
      match ← Prog.ask (TryCall.finally_body ex) with
      | .Completed e => pure (.ok e)
      | .Stopped e => pure (.error (.Stopped e))
      | .Failed e => pure (.error (.Failed e))

def fail_after_finally (ex : Exchange) (failure : CamelError) : Scope PipelineOutcome := do
  match ← run_finally_body finally' ex with
  | .ok _ => pure (.Failed failure)
  | .error (.Stopped e) => pure (.Stopped e)
  | .error (.Failed _) => pure (.Failed failure)
  | .error (.PredicateFailed pred_err) => pure (.Failed pred_err)

/-- How the loop over the clauses is left: with an outcome to return, with the exchange of a
clause that has handled the error, or past the last clause. -/
inductive LoopExit where
  | Return (outcome : PipelineOutcome)
  | Matched (exchange : Exchange)
  | Unmatched

def run_catch_body (err : CamelError) (current_ex : Exchange) (catch' : CatchClauseSegment)
    (i : Nat) : Scope LoopExit := do
  match ← Prog.ask (TryCall.catch_body i current_ex) with
  | .Stopped stopped_ex => pure (.Return (.Stopped stopped_ex))
  | .Completed next =>
    match catch'.disposition with
    | .Handled => pure (.Matched next.handle_error)
    | .Continued => pure (.Matched next.clear_error)
    | .Propagate => return .Return (← fail_after_finally finally' next err)
  | .Failed catch_err => return .Return (← fail_after_finally finally' current_ex catch_err)

/-- The loop over the clauses, from the clause with index `i` on. -/
def catch_loop (finally' : Option FinallyClauseSegment) (err : CamelError)
    (current_ex : Exchange) : List CatchClauseSegment → Nat → Scope LoopExit
  | [], _ => pure .Unmatched
  | catch' :: catches, i => do
    match ← catch'.matcher.matches i err current_ex with
    | .error pred_err =>
      return .Return (← fail_after_finally finally' current_ex (chain_predicate_error pred_err err))
    | .ok false => catch_loop finally' err current_ex catches (i + 1)
    | .ok true =>
      match ← catch'.permits i current_ex with
      | .error pred_err =>
        return .Return
          (← fail_after_finally finally' current_ex (chain_predicate_error pred_err err))
      | .ok false => catch_loop finally' err current_ex catches (i + 1)
      | .ok true => run_catch_body finally' err current_ex catch' i

/-- The end of `run`, after a try body that completed or an error that was handled. -/
def finish (returned_ex : Exchange) : Scope PipelineOutcome := do
  match ← run_finally_body finally' returned_ex with
  | .ok ex => pure (.Completed ex)
  | .error (.Stopped e) => pure (.Stopped e)
  | .error (.Failed finally_err) => pure (.Failed finally_err)
  | .error (.PredicateFailed pred_err) => pure (.Failed pred_err)

end

/-- What follows a try body that failed. -/
def DoTrySegment.run_catches (segment : DoTrySegment) (err : CamelError) (current_ex : Exchange) :
    Scope PipelineOutcome := do
  match ← catch_loop segment.finally' err current_ex segment.catches 0 with
  | .Return outcome => pure outcome
  | .Matched ex => finish segment.finally' ex
  | .Unmatched => fail_after_finally segment.finally' current_ex err

def DoTrySegment.run (segment : DoTrySegment) (exchange : Exchange) : Scope PipelineOutcome := do
  let exchange := exchange.remove_property PROPERTY_EXCEPTION_HANDLED
  match ← Prog.ask (TryCall.try_body exchange) with
  | .Stopped ex => pure (.Stopped ex)
  | .Completed ex => finish segment.finally' ex
  | .Failed err => segment.run_catches err (exchange.set_error err)

/-! ## The reference -/

section

-- What each body and each predicate answers. None is asked twice in a run, so an answer need
-- not look at what went before.
variable (answers : (c : TryCall) → c.Answer)

/-- The try and the catch bodies: one of them stopped, all is fine, or there is a failure to
report. The exchange is the one for the last body. -/
inductive ScopeEnd where
  | stopped (exchange : Exchange)
  | fine (exchange : Exchange)
  | failing (failure : CamelError) (exchange : Exchange)

def CatchMatcher.accepts (matcher : CatchMatcher) (i : Nat) (err : CamelError) (ex : Exchange) :
    Except PredicateError Bool :=
  match matcher with
  | .ByVariant names => .ok (decide ("*" ∈ names ∨ err.variant_name ∈ names))
  | .Predicate => answers (.matcher i ex)

/-- Whether a clause takes the error: its matcher says so, and then its `on_when`. -/
def CatchClauseSegment.takes (catch' : CatchClauseSegment) (i : Nat) (err : CamelError)
    (ex : Exchange) : Except PredicateError Bool :=
  match catch'.matcher.accepts answers i err ex with
  | .ok true => if catch'.on_when then answers (.on_when i ex) else .ok true
  | verdict => verdict

def turnsDown : Except PredicateError Bool → Bool
  | .ok false => true
  | _ => false

/-- The first clause that does not turn the error down, with its index. -/
def firstTaker (err : CamelError) (ex : Exchange) (clauses : List (CatchClauseSegment × Nat)) :
    Option (CatchClauseSegment × Nat) :=
  clauses.find? fun (catch', i) => !turnsDown (catch'.takes answers i err ex)

/-- The catch body that runs. A clause whose predicate fails runs none. -/
def caughtBy (err : CamelError) (ex : Exchange) : Option (CatchClauseSegment × Nat) → Option TryCall
  | none => none
  | some (catch', i) =>
    match catch'.takes answers i err ex with
    | .error _ => none
    | .ok _ => some (.catch_body i ex)

def endedBy (err : CamelError) (ex : Exchange) : Option (CatchClauseSegment × Nat) → ScopeEnd
  | none => .failing err ex
  | some (catch', i) =>
    match catch'.takes answers i err ex with
    | .error pred_err => .failing (chain_predicate_error pred_err err) ex
    | .ok _ =>
      match answers (.catch_body i ex) with
      | .Stopped stopped => .stopped stopped
      | .Failed catch_err => .failing catch_err ex
      | .Completed next =>
        match catch'.disposition with
        | .Handled => .fine next.handle_error
        | .Continued => .fine next.clear_error
        | .Propagate => .failing err next

variable (segment : DoTrySegment)

/-- The end of the try body and of the catch body, and the catch body that ran. -/
def DoTrySegment.scope (exchange : Exchange) : ScopeEnd × Option TryCall :=
  let exchange := exchange.remove_property PROPERTY_EXCEPTION_HANDLED
  match answers (.try_body exchange) with
  | .Stopped ex => (.stopped ex, none)
  | .Completed ex => (.fine ex, none)
  | .Failed err =>
    let ex := exchange.set_error err
    let taker := firstTaker answers err ex segment.catches.zipIdx
    (endedBy answers err ex taker, caughtBy answers err ex taker)

/-- Whether the last body runs. -/
def DoTrySegment.finalizes (ex : Exchange) : Except PredicateError Bool :=
  match segment.finally' with
  | none => .ok false
  | some f => if f.on_when then answers (.finally_on_when ex) else .ok true

/-- The last body, if it runs. It does not run after a stop. -/
def DoTrySegment.finalized : ScopeEnd → Option TryCall
  | .stopped _ => none
  | .fine ex | .failing _ ex =>
    match segment.finalizes answers ex with
    | .ok true => some (.finally_body ex)
    | _ => none

/-- What comes out. A failed last body gives way to a failure that is there already, and a stop
or a failed predicate at the end does not. -/
def DoTrySegment.outcome : ScopeEnd → PipelineOutcome
  | .stopped ex => .Stopped ex
  | .fine ex =>
    match segment.finalizes answers ex with
    | .error pred_err => .Failed pred_err.error
    | .ok false => .Completed ex
    | .ok true => answers (.finally_body ex)
  | .failing failure ex =>
    match segment.finalizes answers ex with
    | .error pred_err => .Failed pred_err.error
    | .ok false => .Failed failure
    | .ok true =>
      match answers (.finally_body ex) with
      | .Stopped e => .Stopped e
      | _ => .Failed failure

end

/-! ## The code against the reference -/

section

variable {answers : (c : TryCall) → c.Answer} {α : Type} {p : Scope α} {β : Type} {f : α → Scope β}
  {a : α} {b : β}

abbrev Log := List (Prog.Entry TryCall TryCall.Answer)

def TryCall.isBody : TryCall → Bool
  | .try_body _ | .catch_body _ _ | .finally_body _ => true
  | .matcher _ _ | .on_when _ _ | .finally_on_when _ => false

/-- The bodies that ran, in order, with the exchange each was given. -/
def bodies (log : Log) : List TryCall := (log.map (·.call)).filter TryCall.isBody

theorem bodies_snoc (log : Log) (entry : Prog.Entry TryCall TryCall.Answer) :
    bodies (log ++ [entry]) = bodies log ++ if entry.call.isBody then [entry.call] else [] := by
  unfold bodies
  rw [map_append, filter_append]
  cases hb : entry.call.isBody <;> simp [hb]

/-- A part of the segment gives a value, and runs these bodies. -/
def Gives {α : Type} (answers : (c : TryCall) → c.Answer) (p : Scope α) (a : α)
    (ran : List TryCall) : Prop :=
  ∀ log : Log, (Prog.eval (Prog.logged fun _ => answers) p log).1 = a ∧
    bodies (Prog.eval (Prog.logged fun _ => answers) p log).2 = bodies log ++ ran

theorem Gives.pure {α : Type} (a : α) : Gives answers (pure a) a [] := by
  intro log
  simp

theorem Gives.ask (c : TryCall) :
    Gives answers (Prog.ask c) (answers c) (if c.isBody then [c] else []) := by
  intro log
  exact ⟨rfl, bodies_snoc log ⟨c, answers c⟩⟩

theorem Gives.bind {ran ran' : List TryCall} (hp : Gives answers p a ran)
    (hf : Gives answers (f a) b ran') : Gives answers (p >>= f) b (ran ++ ran') := by
  intro log
  obtain ⟨hv, hr⟩ := hp log
  rw [Prog.eval_bind, hv]
  obtain ⟨hv', hr'⟩ := hf (Prog.eval (Prog.logged fun _ => answers) p log).2
  rw [hr', hr, append_assoc]
  exact ⟨hv', rfl⟩

theorem Gives.then {ran : List TryCall} (hp : Gives answers p a ran)
    (hf : Gives answers (f a) b []) : Gives answers (p >>= f) b ran := by
  have hb := hp.bind hf
  rwa [append_nil] at hb

theorem Gives.of_eq {a' : α} {ran ran' : List TryCall} (h : Gives answers p a ran) (ha : a = a')
    (hr : ran = ran') : Gives answers p a' ran' := by
  subst ha hr
  exact h

/-- What the last body gives. -/
def DoTrySegment.finallyValue (answers : (c : TryCall) → c.Answer) (segment : DoTrySegment)
    (ex : Exchange) : Except FinallyOutcome Exchange :=
  match segment.finalizes answers ex with
  | .error err => .error (.PredicateFailed err.error)
  | .ok false => .ok ex
  | .ok true =>
    match answers (.finally_body ex) with
    | .Completed e => .ok e
    | .Stopped e => .error (.Stopped e)
    | .Failed e => .error (.Failed e)

variable (answers) (segment : DoTrySegment)

theorem finally_permits_gives (f : FinallyClauseSegment) (ex : Exchange) :
    Gives answers (f.permits ex)
      (if f.on_when then answers (.finally_on_when ex) else .ok true) [] := by
  unfold FinallyClauseSegment.permits
  split
  · exact .ask (.finally_on_when ex)
  · exact .pure _

theorem run_finally_body_gives (ex : Exchange) :
    Gives answers (run_finally_body segment.finally' ex) (segment.finallyValue answers ex)
      (segment.finalized answers (.fine ex)).toList := by
  unfold DoTrySegment.finallyValue
  simp only [DoTrySegment.finalized]
  cases hs : segment.finally' with
  | none =>
    have hf : segment.finalizes answers ex = .ok false := by
      simp only [DoTrySegment.finalizes, hs]
    simp only [hf]
    exact .pure _
  | some f =>
    have hf : segment.finalizes answers ex =
        if f.on_when then answers (.finally_on_when ex) else .ok true := by
      simp only [DoTrySegment.finalizes, hs]
    have hp := finally_permits_gives answers f ex
    rw [← hf] at hp
    refine (hp.bind ?_).of_eq rfl (nil_append _)
    cases segment.finalizes answers ex with
    | error err => exact .pure _
    | ok permitted =>
      cases permitted with
      | false => exact .pure _
      | true =>
        refine Gives.then (.ask (.finally_body ex)) ?_
        cases answers (.finally_body ex) with
        | Completed e | Stopped e | Failed e => exact .pure _

theorem fail_after_finally_gives (ex : Exchange) (failure : CamelError) :
    Gives answers (fail_after_finally segment.finally' ex failure)
      (segment.outcome answers (.failing failure ex))
      (segment.finalized answers (.failing failure ex)).toList := by
  refine (run_finally_body_gives answers segment ex).then ?_
  unfold DoTrySegment.finallyValue
  simp only [DoTrySegment.outcome]
  cases segment.finalizes answers ex with
  | error err => exact .pure _
  | ok permitted =>
    cases permitted with
    | false => exact .pure _
    | true =>
      simp only
      cases answers (.finally_body ex) with
      | Completed e | Stopped e | Failed e => exact .pure _

theorem finish_gives (ex : Exchange) :
    Gives answers (finish segment.finally' ex) (segment.outcome answers (.fine ex))
      (segment.finalized answers (.fine ex)).toList := by
  refine (run_finally_body_gives answers segment ex).then ?_
  unfold DoTrySegment.finallyValue
  simp only [DoTrySegment.outcome]
  cases segment.finalizes answers ex with
  | error err => exact .pure _
  | ok permitted =>
    cases permitted with
    | false => exact .pure _
    | true =>
      simp only
      cases answers (.finally_body ex) with
      | Completed e | Stopped e | Failed e => exact .pure _

theorem matches_gives (matcher : CatchMatcher) (i : Nat) (err : CamelError) (ex : Exchange) :
    Gives answers (matcher.matches i err ex) (matcher.accepts answers i err ex) [] := by
  unfold CatchMatcher.matches CatchMatcher.accepts
  cases matcher with
  | ByVariant names =>
    by_cases hs : "*" ∈ names
    · simp only [any_beq', contains_iff_mem, hs, if_true, true_or, decide_true]
      exact .pure _
    · simp only [any_beq', hs, false_or, contains_eq_mem]
      exact .pure _
  | Predicate => exact .ask (.matcher i ex)

variable (catch' : CatchClauseSegment)

theorem permits_gives (i : Nat) (ex : Exchange) :
    Gives answers (catch'.permits i ex)
      (if catch'.on_when then answers (.on_when i ex) else .ok true) [] := by
  unfold CatchClauseSegment.permits
  split
  · exact .ask (.on_when i ex)
  · exact .pure _

/-- How the loop is left with the clause that takes the error. -/
def DoTrySegment.exit (answers : (c : TryCall) → c.Answer) (segment : DoTrySegment) :
    ScopeEnd → LoopExit
  | .fine ex => .Matched ex
  | .stopped ex => .Return (segment.outcome answers (.stopped ex))
  | .failing failure ex => .Return (segment.outcome answers (.failing failure ex))

/-- The last body, where it runs before the loop is left. -/
def DoTrySegment.finalizedInLoop (answers : (c : TryCall) → c.Answer) (segment : DoTrySegment) :
    ScopeEnd → List TryCall
  | .fine _ | .stopped _ => []
  | .failing failure ex => (segment.finalized answers (.failing failure ex)).toList

theorem return_after_finally_gives (ex : Exchange) (failure : CamelError) :
    Gives answers (do return .Return (← fail_after_finally segment.finally' ex failure))
      (segment.exit answers (.failing failure ex))
      (segment.finalizedInLoop answers (.failing failure ex)) := by
  have hr : Gives answers (pure (LoopExit.Return (segment.outcome answers
      (.failing failure ex)))) (segment.exit answers (.failing failure ex)) [] := .pure _
  exact (fail_after_finally_gives answers segment ex failure).then hr

theorem run_catch_body_gives (i : Nat) (err : CamelError) (ex : Exchange) {taken : Bool}
    (ht : catch'.takes answers i err ex = .ok taken) :
    Gives answers (run_catch_body segment.finally' err ex catch' i)
      (segment.exit answers (endedBy answers err ex (some (catch', i))))
      ((caughtBy answers err ex (some (catch', i))).toList ++
        segment.finalizedInLoop answers (endedBy answers err ex (some (catch', i)))) := by
  simp only [endedBy, caughtBy, ht]
  refine (Gives.ask (.catch_body i ex)).bind ?_
  cases answers (.catch_body i ex) with
  | Stopped stopped_ex => exact .pure _
  | Failed catch_err => exact return_after_finally_gives answers segment ex catch_err
  | Completed next =>
    cases catch'.disposition with
    | Handled | Continued => exact .pure _
    | Propagate => exact return_after_finally_gives answers segment next err

theorem firstTaker_cons (i : Nat) (clauses : List (CatchClauseSegment × Nat)) (err : CamelError)
    (ex : Exchange) :
    firstTaker answers err ex ((catch', i) :: clauses) =
      if turnsDown (catch'.takes answers i err ex) then firstTaker answers err ex clauses
      else some (catch', i) := by
  unfold firstTaker
  rw [find?_cons]
  cases hd : turnsDown (catch'.takes answers i err ex) <;> simp [hd]

theorem catch_loop_gives (err : CamelError) (ex : Exchange) (catches : List CatchClauseSegment)
    (i : Nat) :
    match firstTaker answers err ex (catches.zipIdx i) with
    | none => Gives answers (catch_loop segment.finally' err ex catches i) .Unmatched []
    | some taker => Gives answers (catch_loop segment.finally' err ex catches i)
        (segment.exit answers (endedBy answers err ex (some taker)))
        ((caughtBy answers err ex (some taker)).toList ++
          segment.finalizedInLoop answers (endedBy answers err ex (some taker))) := by
  induction catches generalizing i with
  | nil => exact .pure _
  | cons catch' catches ih =>
    rw [zipIdx_cons, firstTaker_cons]
    have hm := matches_gives answers catch'.matcher i err ex
    -- a clause that turns the error down leaves the rest of the loop
    have hd : ∀ {p : Scope LoopExit}, turnsDown (catch'.takes answers i err ex) = true →
        (∀ v ran, Gives answers (catch_loop segment.finally' err ex catches (i + 1)) v ran →
          Gives answers p v ran) →
        match (if turnsDown (catch'.takes answers i err ex) then
            firstTaker answers err ex (catches.zipIdx (i + 1)) else some (catch', i)) with
        | none => Gives answers p .Unmatched []
        | some taker => Gives answers p
            (segment.exit answers (endedBy answers err ex (some taker)))
            ((caughtBy answers err ex (some taker)).toList ++
              segment.finalizedInLoop answers (endedBy answers err ex (some taker))) := by
      intro p ht hp
      rw [if_pos ht]
      have hr := ih (i + 1)
      cases hta : firstTaker answers err ex (catches.zipIdx (i + 1)) with
      | none | some taker =>
        rw [hta] at hr
        exact hp _ _ hr
    cases hv : catch'.matcher.accepts answers i err ex with
    | error pred_err =>
      have htak : catch'.takes answers i err ex = .error pred_err := by
        simp only [CatchClauseSegment.takes, hv]
      rw [htak, if_neg (by simp [turnsDown])]
      rw [hv] at hm
      simp only [endedBy, caughtBy, htak]
      exact hm.bind (return_after_finally_gives answers segment ex _)
    | ok matched =>
      rw [hv] at hm
      cases matched with
      | false =>
        have htak : catch'.takes answers i err ex = .ok false := by
          simp only [CatchClauseSegment.takes, hv]
        exact hd (by rw [htak]; rfl) fun v ran hr => hm.bind hr
      | true =>
        have htak : catch'.takes answers i err ex =
            if catch'.on_when then answers (.on_when i ex) else .ok true := by
          simp only [CatchClauseSegment.takes, hv]
        have hpe := permits_gives answers catch' i ex
        rw [← htak] at hpe
        cases hw : catch'.takes answers i err ex with
        | error pred_err =>
          rw [if_neg (by simp [turnsDown])]
          rw [hw] at hpe
          simp only [endedBy, caughtBy, hw]
          exact hm.bind (hpe.bind (return_after_finally_gives answers segment ex _))
        | ok permitted =>
          rw [hw] at hpe
          cases permitted with
          | false =>
            rw [← hw]
            exact hd (by rw [hw]; rfl) fun v ran hr => hm.bind (hpe.bind hr)
          | true =>
            rw [if_neg (by simp [turnsDown])]
            exact hm.bind (hpe.bind (run_catch_body_gives answers segment catch' i err ex hw))

theorem run_catches_gives (err : CamelError) (ex : Exchange) :
    Gives answers (segment.run_catches err ex)
      (segment.outcome answers
        (endedBy answers err ex (firstTaker answers err ex segment.catches.zipIdx)))
      ((caughtBy answers err ex (firstTaker answers err ex segment.catches.zipIdx)).toList ++
        (segment.finalized answers
          (endedBy answers err ex (firstTaker answers err ex segment.catches.zipIdx))).toList) := by
  have hl := catch_loop_gives answers segment err ex segment.catches 0
  cases ht : firstTaker answers err ex segment.catches.zipIdx with
  | none =>
    simp only [ht] at hl
    exact hl.bind (fail_after_finally_gives answers segment ex err)
  | some taker =>
    simp only [ht] at hl
    cases he : endedBy answers err ex (some taker) with
    | stopped stopped_ex =>
      rw [he] at hl
      have hr : Gives answers (pure (PipelineOutcome.Stopped stopped_ex))
          (.Stopped stopped_ex) [] := .pure _
      refine (hl.then hr).of_eq rfl ?_
      simp [DoTrySegment.finalizedInLoop, DoTrySegment.finalized]
    | fine next =>
      rw [he] at hl
      refine (hl.bind (finish_gives answers segment next)).of_eq rfl ?_
      simp [DoTrySegment.finalizedInLoop]
    | failing failure next =>
      rw [he] at hl
      have hr : Gives answers (pure (segment.outcome answers (.failing failure next)))
          (segment.outcome answers (.failing failure next)) [] := .pure _
      refine (hl.then hr).of_eq rfl ?_
      simp [DoTrySegment.finalizedInLoop]

/-- The segment gives the outcome of the reference. The try body runs first, then at most the
body of the first clause that takes its error, and at last the last body, if it is to run. -/
theorem do_try_follows_the_reference (segment : DoTrySegment)
    (answers : (c : TryCall) → c.Answer) (exchange : Exchange) :
    (Prog.eval (Prog.logged fun _ => answers) (segment.run exchange) []).1 =
        segment.outcome answers (segment.scope answers exchange).1 ∧
      bodies (Prog.eval (Prog.logged fun _ => answers) (segment.run exchange) []).2 =
        TryCall.try_body (exchange.remove_property PROPERTY_EXCEPTION_HANDLED) ::
          ((segment.scope answers exchange).2.toList ++
            (segment.finalized answers (segment.scope answers exchange).1).toList) := by
  have hg : Gives answers (segment.run exchange)
      (segment.outcome answers (segment.scope answers exchange).1)
      (TryCall.try_body (exchange.remove_property PROPERTY_EXCEPTION_HANDLED) ::
        ((segment.scope answers exchange).2.toList ++
          (segment.finalized answers (segment.scope answers exchange).1).toList)) := by
    refine Gives.bind (.ask (.try_body (exchange.remove_property PROPERTY_EXCEPTION_HANDLED))) ?_
    simp only [DoTrySegment.scope]
    cases answers (.try_body (exchange.remove_property PROPERTY_EXCEPTION_HANDLED)) with
    | Stopped ex => exact .pure _
    | Completed ex => exact finish_gives answers segment ex
    | Failed err => exact run_catches_gives answers segment err _
  exact hg []

end

/-- A try body that fails and a last body that fails, with no clause between them. -/
def failingTwice : (c : TryCall) → c.Answer
  | .try_body _ => .Failed (.ProcessorError "try")
  | .finally_body _ => .Failed (.ProcessorError "finally")
  | .matcher _ _ | .on_when _ _ | .finally_on_when _ => .ok false
  | .catch_body _ ex => .Completed ex

/-- The error of the last body does not take the place of the one of the try body. -/
theorem a_failed_finally_gives_way :
    ¬ ∀ (segment : DoTrySegment) (answers : (c : TryCall) → c.Answer) (exchange : Exchange),
      ∀ entry ∈ (Prog.eval (Prog.logged fun _ => answers) (segment.run exchange) []).2,
        ∀ ex err, entry = ⟨TryCall.finally_body ex, .Failed err⟩ →
          (Prog.eval (Prog.logged fun _ => answers) (segment.run exchange) []).1 = .Failed err := by
  intro h
  have hf := h ⟨[], some ⟨false⟩⟩ failingTwice (.new .default)
    ⟨.finally_body _, .Failed (.ProcessorError "finally")⟩
    (.tail _ mem_cons_self) _ _ rfl
  injection hf with he
  injection he with hm
  exact absurd hm (by decide)

end camel_processor.do_try
