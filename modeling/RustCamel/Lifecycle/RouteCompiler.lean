-- The executor of `route_compiler.rs`. It runs the compiled steps one after the other, and
-- looks for the stop signal after a first attempt, but not after a retry or when the
-- error handler lets the pipeline go on.
import RustCamel.Processor.ErrorHandler

namespace camel_core.lifecycle.route_compiler

open camel_api (Exchange is_camel_stop CAMEL_STOP)
open camel_api.error (CamelError)
open camel_processor.error_handler

/-! ## The executor -/

/-- A compiled step. Its processor or segment is named by the index of the step. -/
inductive CompiledStep where
  | Process
  | Stop
  | Segment

/-- What a step leaves to the executor, and by which way. -/
inductive StepEnd where
  | completed (exchange : Exchange)
  | recovered (exchange : Exchange)
  | continued (exchange : Exchange)
  | stopped (exchange : Exchange)
  | handled (exchange : Exchange)
  | failed (err : CamelError)

inductive OwnedRetryable where
  | Processor
  | Segment

def OwnedRetryable.invoke (index : Nat) : OwnedRetryable → Exchange → Pipeline PipelineOutcome
  | .Processor, exchange => do
    match ← Prog.ask (PipelineCall.process index exchange) with
    | .ok ex => pure (.Completed ex)
    | .error err => pure (.Failed err)
  | .Segment, exchange => Prog.ask (PipelineCall.segment index exchange)

/-- One round of the loop of `run_steps`, up to what the step leaves behind. -/
def run_step (handler : Option DefaultRouteErrorHandler) (retryable : OwnedRetryable) (index : Nat)
    (ex : Exchange) : Pipeline StepEnd := do
  match ← retryable.invoke index ex with
  | .Completed next => pure (.completed next)
  | .Stopped stopped_ex => pure (.stopped stopped_ex)
  | .Failed err =>
    match handler with
    | none => pure (.failed err)
    | some handler => do
      match ← handler.retry_step (handler.match_policy err) (retryable.invoke index) ex err with
      | .Recovered exchange => pure (.recovered exchange)
      | .Stopped stopped_ex => pure (.stopped stopped_ex)
      | .Exhausted exchange error policy => do
        match ← handler.handle_step policy exchange error with
        | .ok (.Propagate e) => pure (.failed e)
        | .ok (.Handled done) => pure (.handled done)
        | .ok (.Continued next) => pure (.continued next)
        | .error e => pure (.failed e)

/-- What the loop does with the end of a step: it returns, or goes on with an exchange. -/
def conclude (goOn : Exchange → Pipeline (List StepEnd × PipelineOutcome)) (stepEnd : StepEnd) :
    Pipeline (List StepEnd × PipelineOutcome) :=
  let next (ex : Exchange) : Pipeline (List StepEnd × PipelineOutcome) := do
    let (ends, outcome) ← goOn ex
    pure (stepEnd :: ends, outcome)
  match stepEnd with
  | .completed ex => if is_camel_stop ex then pure ([stepEnd], .Stopped ex) else next ex
  | .recovered exchange => next exchange
  | .continued ex => next ex
  | .stopped stopped_ex => pure ([stepEnd], .Stopped stopped_ex)
  | .handled done => pure ([stepEnd], .Completed done)
  | .failed err => pure ([stepEnd], .Failed err)

/-- The loop of `run_steps` from step `index` on, with the ends of the steps it ran beside
the outcome. `cancelled` is what the cancel token says in front of each step. -/
def run_steps (handler : Option DefaultRouteErrorHandler) (cancelled : Nat → Bool) :
    List CompiledStep → Nat → Exchange → Pipeline (List StepEnd × PipelineOutcome)
  | [], _, ex => pure ([], .Completed ex)
  | step :: steps, index, ex =>
    if cancelled index then pure ([], .Failed .ConsumerStopping)
    else
      match step with
      | .Stop => pure ([], .Stopped ex)
      | .Process => do
        conclude (run_steps handler cancelled steps (index + 1))
          (← run_step handler .Processor index ex)
      | .Segment => do
        conclude (run_steps handler cancelled steps (index + 1))
          (← run_step handler .Segment index ex)

/-! ## The log of a run -/

abbrev Entry := Prog.Entry PipelineCall PipelineCall.Answer

abbrev Answers := List Entry → (c : PipelineCall) → c.Answer

def stepOf : PipelineCall → Option Nat
  | .process index _ => some index
  | .segment index _ => some index
  | .on_steps _ _ => none
  | .producer _ _ => none
  | .dlc _ => none

/-- The call invokes step `index`, or no step at all. -/
def Invokes (index : Nat) (c : PipelineCall) : Prop := ∀ j, stepOf c = some j → j = index

theorem invoke_makes (index : Nat) (retryable : OwnedRetryable) (ex : Exchange) :
    Prog.Makes (Invokes index) (retryable.invoke index ex) := by
  have ho : ∀ j, some index = some j → j = index := fun j h => (Option.some.inj h).symm
  cases retryable with
  | Processor =>
    refine ⟨ho, fun r => ?_⟩
    cases r <;> trivial
  | Segment => exact ⟨ho, fun r => trivial⟩

theorem retryLoop_makes {ok : PipelineCall → Prop} {step : Exchange → Pipeline PipelineOutcome}
    (hs : ∀ x, Prog.Makes ok (step x)) (original : Exchange) (error : CamelError)
    (policy : Option PolicyId) (max_attempts rounds attempt : Nat) :
    Prog.Makes ok (retryLoop step original error policy max_attempts rounds attempt) := by
  induction rounds generalizing attempt with
  | zero => trivial
  | succ rounds ih =>
    apply (hs _).bind
    intro outcome
    cases outcome with
    | Completed exchange | Stopped stopped_ex => trivial
    | Failed retry_err =>
      simp only
      split
      · trivial
      · exact ih (attempt + 1)

theorem retry_step_makes {ok : PipelineCall → Prop} (handler : DefaultRouteErrorHandler)
    (policy : Option PolicyId) {step : Exchange → Pipeline PipelineOutcome}
    (hs : ∀ x, Prog.Makes ok (step x)) (original : Exchange) (error : CamelError) :
    Prog.Makes ok (handler.retry_step policy step original error) := by
  unfold DefaultRouteErrorHandler.retry_step
  split
  · trivial
  · split
    · trivial
    · split
      · trivial
      · exact retryLoop_makes hs _ _ _ _ _ _

theorem forward_makes (index : Nat) (handler : DefaultRouteErrorHandler) (exchange : Exchange)
    (error : CamelError) (disposition : ExceptionDisposition) (producer : Option Producer) :
    Prog.Makes (Invokes index) (handler.forward exchange error disposition producer) := by
  unfold DefaultRouteErrorHandler.forward
  apply Prog.Makes.bind
  · rcases producer with _ | _ | _
    · trivial
    all_goals exact ⟨fun j h => by simp [stepOf] at h, fun r => trivial⟩
  · intro r
    cases r with
    | error e => trivial
    | ok handler_ex => cases disposition <;> trivial

theorem handle_step_makes (index : Nat) (handler : DefaultRouteErrorHandler)
    (policy : Option PolicyId) (exchange : Exchange) (error : CamelError) :
    Prog.Makes (Invokes index) (handler.handle_step policy exchange error) := by
  unfold DefaultRouteErrorHandler.handle_step
  simp only
  split
  · exact forward_makes ..
  · refine ⟨fun j h => by simp [stepOf] at h, fun r => ?_⟩
    cases r with
    | error e => exact forward_makes ..
    | ok ex =>
      simp only [Prog.bind]
      cases (handler.resolve_producer policy).1 with
      | Propagate => exact forward_makes ..
      | Handled | Continued => trivial

theorem run_step_makes (handler : Option DefaultRouteErrorHandler) (retryable : OwnedRetryable)
    (index : Nat) (ex : Exchange) :
    Prog.Makes (Invokes index) (run_step handler retryable index ex) := by
  apply (invoke_makes index retryable ex).bind
  intro outcome
  cases outcome with
  | Completed next | Stopped stopped_ex => trivial
  | Failed err =>
    cases handler with
    | none => trivial
    | some handler =>
      apply (retry_step_makes handler _ (invoke_makes index retryable) ex err).bind
      intro retried
      cases retried with
      | Recovered exchange | Stopped stopped_ex => trivial
      | Exhausted exchange error policy =>
        apply (handle_step_makes index handler policy exchange error).bind
        intro disposition
        rcases disposition with e | (e | done | next) <;> trivial

/-! ## The stop signal -/

def StepEnd.leftBehind : StepEnd → Option Exchange
  | .completed exchange => some exchange
  | .recovered exchange => some exchange
  | .continued exchange => some exchange
  | .stopped exchange => some exchange
  | .handled _ => none
  | .failed _ => none

variable {index : Nat} {log : List Entry} {stepEnd : StepEnd} {steps : List CompiledStep}
  {x : Exchange}

section

variable (handler : Option DefaultRouteErrorHandler) (cancelled : Nat → Bool) (answers : Answers)

def runFrom (steps : List CompiledStep) (index : Nat) (ex : Exchange) (log : List Entry) :
    (List StepEnd × PipelineOutcome) × List Entry :=
  Prog.eval (Prog.logged answers) (run_steps handler cancelled steps index ex) log

/-- The end of a step that leaves the signal behind is the last thing that happens: no later
step is invoked, and the pipeline stops with that exchange. -/
def StopHonoured (index : Nat) (r : (List StepEnd × PipelineOutcome) × List Entry) : Prop :=
  ∀ i stepEnd x, r.1.1[i]? = some stepEnd → stepEnd.leftBehind = some x → is_camel_stop x = true →
    (∀ entry ∈ r.2, ∀ j, stepOf entry.call = some j → j ≤ index + i) ∧ r.1.2 = .Stopped x

/-- A step that a retry recovers, or that the handler lets go on, leaves the signal behind
only in front of a `Stop` step that is reached. -/
def StopGuarded (steps : List CompiledStep) (index : Nat) (ends : List StepEnd) : Prop :=
  ∀ i x, ends[i]? = some (.recovered x) ∨ ends[i]? = some (.continued x) →
    is_camel_stop x = true → steps[i + 1]? = some .Stop ∧ cancelled (index + i + 1) = false

variable {handler cancelled answers}

/-- The round of a step that is not `Stop`. -/
theorem runFrom_step {step : CompiledStep} {retryable : OwnedRetryable}
    (hs : (step = .Process ∧ retryable = .Processor) ∨ (step = .Segment ∧ retryable = .Segment))
    (hc : cancelled index = false) (steps : List CompiledStep) (ex : Exchange) (log : List Entry) :
    runFrom handler cancelled answers (step :: steps) index ex log =
      Prog.eval (Prog.logged answers) (conclude (run_steps handler cancelled steps (index + 1))
        (Prog.eval (Prog.logged answers) (run_step handler retryable index ex) log).1)
        (Prog.eval (Prog.logged answers) (run_step handler retryable index ex) log).2 := by
  rw [← Prog.eval_bind]
  rcases hs with ⟨rfl, rfl⟩ | ⟨rfl, rfl⟩ <;> simp [runFrom, run_steps, hc]

theorem invoked (retryable : OwnedRetryable) (index : Nat) (ex : Exchange) (log : List Entry) :
    ∃ entry ∈ (Prog.eval (Prog.logged answers) (run_step handler retryable index ex) log).2,
      stepOf entry.call = some index := by
  unfold run_step
  rw [Prog.eval_bind]
  cases retryable with
  | Processor =>
    refine ⟨⟨.process index ex, answers log (.process index ex)⟩, ?_, rfl⟩
    apply Prog.subset_log
    simp only [OwnedRetryable.invoke, Prog.ask_bind, Prog.eval_call]
    apply Prog.subset_log
    simp [Prog.logged]
  | Segment =>
    refine ⟨⟨.segment index ex, answers log (.segment index ex)⟩, ?_, rfl⟩
    apply Prog.subset_log
    simp [OwnedRetryable.invoke, Prog.ask, Prog.logged]

theorem log_of_run_step (hl : ∀ entry ∈ log, ∀ j, stepOf entry.call = some j → j < index)
    (retryable : OwnedRetryable) (ex : Exchange) :
    ∀ entry ∈ (Prog.eval (Prog.logged answers) (run_step handler retryable index ex) log).2,
      ∀ j, stepOf entry.call = some j → j ≤ index := by
  intro entry he j hj
  rcases Prog.mem_log answers (run_step_makes handler retryable index ex) log entry he with
    hold | ho
  · exact Nat.le_of_lt (hl entry hold j hj)
  · exact Nat.le_of_eq (ho j hj)

/-- The rounds after a step keep to the signal exactly when the next one is a `Stop` step
that is reached. -/
theorem next_round (hl : ∀ entry ∈ log, ∀ j, stepOf entry.call = some j → j ≤ index)
    (steps : List CompiledStep) (x : Exchange) :
    ((∀ entry ∈ (runFrom handler cancelled answers steps (index + 1) x log).2, ∀ j,
        stepOf entry.call = some j → j ≤ index) ∧
      (runFrom handler cancelled answers steps (index + 1) x log).1.2 = .Stopped x) ↔
      steps[0]? = some .Stop ∧ cancelled (index + 1) = false := by
  cases steps with
  | nil => simp [runFrom, run_steps]
  | cons step steps =>
    by_cases hc : cancelled (index + 1) = true
    · simp [runFrom, run_steps, hc]
    · simp only [Bool.not_eq_true] at hc
      -- A step that is run is in the log, above the one that left the signal behind.
      have hr : ∀ retryable : OwnedRetryable, (step = .Process ∧ retryable = .Processor) ∨
          (step = .Segment ∧ retryable = .Segment) →
          ¬ ∀ entry ∈ (runFrom handler cancelled answers (step :: steps) (index + 1) x log).2,
            ∀ j, stepOf entry.call = some j → j ≤ index := by
        intro retryable hs h
        obtain ⟨entry, he, hj⟩ := @invoked handler answers retryable (index + 1) x log
        rw [runFrom_step hs hc] at h
        have := h entry (Prog.subset_log _ _ _ he) (index + 1) hj
        omega
      cases step with
      | Stop =>
        have hst : runFrom handler cancelled answers (.Stop :: steps) (index + 1) x log =
            (([], .Stopped x), log) := by
          simp [runFrom, run_steps, hc]
        rw [hst]
        simpa [hc] using hl
      | Process =>
        have := hr .Processor (.inl ⟨rfl, rfl⟩)
        simp [this]
      | Segment =>
        have := hr .Segment (.inr ⟨rfl, rfl⟩)
        simp [this]

theorem honoured_of_last {outcome : PipelineOutcome}
    (hl : ∀ entry ∈ log, ∀ j, stepOf entry.call = some j → j ≤ index)
    (ho : ∀ x, stepEnd.leftBehind = some x → is_camel_stop x = true → outcome = .Stopped x) :
    StopHonoured index (([stepEnd], outcome), log) := by
  intro i e x he hx hs
  cases i with
  | zero =>
    simp only [List.getElem?_cons_zero, Option.some.injEq] at he
    subst he
    exact ⟨hl, ho x hx hs⟩
  | succ i => simp at he

theorem guarded_of_last (hr : ∀ x, stepEnd ≠ .recovered x) (hc : ∀ x, stepEnd ≠ .continued x) :
    StopGuarded cancelled steps index [stepEnd] := by
  intro i x he hs
  cases i with
  | zero =>
    simp only [List.getElem?_cons_zero, Option.some.injEq] at he
    rcases he with he | he
    · exact absurd he (hr x)
    · exact absurd he (hc x)
  | succ i => simp at he

theorem honoured_cons {r : (List StepEnd × PipelineOutcome) × List Entry} :
    StopHonoured index ((stepEnd :: r.1.1, r.1.2), r.2) ↔
      (∀ x, stepEnd.leftBehind = some x → is_camel_stop x = true →
        (∀ entry ∈ r.2, ∀ j, stepOf entry.call = some j → j ≤ index) ∧ r.1.2 = .Stopped x) ∧
      StopHonoured (index + 1) r := by
  constructor
  · intro h
    refine ⟨fun x hx hs => h 0 stepEnd x rfl hx hs, ?_⟩
    intro i e x he hx hs
    have := h (i + 1) e x he hx hs
    rw [show index + 1 + i = index + (i + 1) by omega]
    exact this
  · rintro ⟨hf, hr⟩ i e x he hx hs
    cases i with
    | zero =>
      simp only [List.getElem?_cons_zero, Option.some.injEq] at he
      subst he
      exact hf x hx hs
    | succ i =>
      have := hr i e x he hx hs
      rw [show index + 1 + i = index + (i + 1) by omega] at this
      exact this

theorem guarded_cons {step : CompiledStep} {ends : List StepEnd} :
    StopGuarded cancelled (step :: steps) index (stepEnd :: ends) ↔
      (∀ x, stepEnd = .recovered x ∨ stepEnd = .continued x → is_camel_stop x = true →
        steps[0]? = some .Stop ∧ cancelled (index + 1) = false) ∧
      StopGuarded cancelled steps (index + 1) ends := by
  constructor
  · intro h
    refine ⟨fun x hx hs => h 0 x (by simpa using hx) hs, ?_⟩
    intro i x hx hs
    have := h (i + 1) x (by simpa using hx) hs
    rw [show index + 1 + i = index + (i + 1) by omega]
    simpa using this
  · rintro ⟨hf, hr⟩ i x hx hs
    cases i with
    | zero => exact hf x (by simpa using hx) hs
    | succ i =>
      have := hr i x (by simpa using hx) hs
      rw [show index + 1 + i = index + (i + 1) by omega] at this
      simpa using this

def StepEnd.goesOn : StepEnd → Option Exchange
  | .completed exchange => if is_camel_stop exchange then none else some exchange
  | .recovered exchange => some exchange
  | .continued exchange => some exchange
  | .stopped _ => none
  | .handled _ => none
  | .failed _ => none

theorem conclude_of_goesOn (h : stepEnd.goesOn = some x) (steps : List CompiledStep) (index : Nat)
    (log : List Entry) :
    Prog.eval (Prog.logged answers) (conclude (run_steps handler cancelled steps index) stepEnd) log =
      ((stepEnd :: (runFrom handler cancelled answers steps index x log).1.1,
        (runFrom handler cancelled answers steps index x log).1.2),
        (runFrom handler cancelled answers steps index x log).2) := by
  cases stepEnd with
  | completed exchange =>
    by_cases hs : is_camel_stop exchange = true
    · simp [StepEnd.goesOn, hs] at h
    · simp only [StepEnd.goesOn, hs, Bool.false_eq_true, if_false, Option.some.injEq] at h
      subst h
      simp only [conclude, hs, Bool.false_eq_true, if_false, Prog.eval_bind]
      rfl
  | recovered exchange | continued exchange =>
    simp only [StepEnd.goesOn, Option.some.injEq] at h
    subst h
    simp only [conclude, Prog.eval_bind]
    rfl
  | stopped exchange | handled exchange | failed err => simp [StepEnd.goesOn] at h

theorem conclude_of_last (h : stepEnd.goesOn = none)
    (goOn : Exchange → Pipeline (List StepEnd × PipelineOutcome)) (log : List Entry) :
    ∃ outcome, Prog.eval (Prog.logged answers) (conclude goOn stepEnd) log =
        (([stepEnd], outcome), log) ∧
      (∀ x, stepEnd.leftBehind = some x → outcome = .Stopped x) ∧
      (∀ x, stepEnd ≠ .recovered x) ∧ ∀ x, stepEnd ≠ .continued x := by
  cases stepEnd with
  | completed exchange =>
    have hs : is_camel_stop exchange = true := by
      by_contra hs
      simp [StepEnd.goesOn, hs] at h
    exact ⟨.Stopped exchange, by simp [conclude, hs], by simp [StepEnd.leftBehind], by simp,
      by simp⟩
  | recovered exchange | continued exchange => simp [StepEnd.goesOn] at h
  | stopped exchange =>
    exact ⟨.Stopped exchange, rfl, by simp [StepEnd.leftBehind], by simp, by simp⟩
  | handled exchange =>
    exact ⟨.Completed exchange, rfl, by simp [StepEnd.leftBehind], by simp, by simp⟩
  | failed err => exact ⟨.Failed err, rfl, by simp [StepEnd.leftBehind], by simp, by simp⟩

theorem left_of_goesOn (h : stepEnd.goesOn = some x) :
    stepEnd.leftBehind = some x ∧
      (is_camel_stop x = true → stepEnd = .recovered x ∨ stepEnd = .continued x) := by
  cases stepEnd with
  | completed exchange =>
    by_cases hs : is_camel_stop exchange = true
    · simp [StepEnd.goesOn, hs] at h
    · simp only [StepEnd.goesOn, hs, Bool.false_eq_true, if_false, Option.some.injEq] at h
      subst h
      exact ⟨rfl, fun hx => absurd hx hs⟩
  | recovered exchange =>
    simp only [StepEnd.goesOn, Option.some.injEq] at h
    subst h
    exact ⟨rfl, fun _ => .inl rfl⟩
  | continued exchange =>
    simp only [StepEnd.goesOn, Option.some.injEq] at h
    subst h
    exact ⟨rfl, fun _ => .inr rfl⟩
  | stopped exchange | handled exchange | failed err => simp [StepEnd.goesOn] at h

theorem round_honoured_iff {step : CompiledStep}
    (hlo : ∀ entry ∈ log, ∀ j, stepOf entry.call = some j → j ≤ index)
    (ih : ∀ x,
      StopHonoured (index + 1) (runFrom handler cancelled answers steps (index + 1) x log) ↔
      StopGuarded cancelled steps (index + 1)
        (runFrom handler cancelled answers steps (index + 1) x log).1.1) :
    StopHonoured index (Prog.eval (Prog.logged answers)
        (conclude (run_steps handler cancelled steps (index + 1)) stepEnd) log) ↔
      StopGuarded cancelled (step :: steps) index (Prog.eval (Prog.logged answers)
        (conclude (run_steps handler cancelled steps (index + 1)) stepEnd) log).1.1 := by
  cases hg : stepEnd.goesOn with
  | none =>
    obtain ⟨outcome, heval, hl, hr, hc⟩ := @conclude_of_last stepEnd answers hg
      (run_steps handler cancelled steps (index + 1)) log
    rw [heval]
    exact iff_of_true (honoured_of_last hlo (fun x hx _ => hl x hx)) (guarded_of_last hr hc)
  | some x =>
    obtain ⟨hl, hw⟩ := left_of_goesOn hg
    have hf := @next_round index log handler cancelled answers hlo steps x
    rw [conclude_of_goesOn hg, honoured_cons, guarded_cons, ih x]
    refine and_congr_left fun _ => ?_
    constructor
    · intro h y hy hs
      have hxy : x = y := by
        rcases hy with rfl | rfl
        all_goals simpa [StepEnd.goesOn] using hg.symm
      subst hxy
      exact hf.mp (h x hl hs)
    · intro h y hy hs
      have hxy : x = y := by
        rw [hl] at hy
        exact Option.some.inj hy
      subst hxy
      exact hf.mpr (h x (hw hs) hs)

theorem honoured_iff_guarded (steps : List CompiledStep) (index : Nat) (ex : Exchange)
    (log : List Entry) (hl : ∀ entry ∈ log, ∀ j, stepOf entry.call = some j → j < index) :
    StopHonoured index (runFrom handler cancelled answers steps index ex log) ↔
      StopGuarded cancelled steps index (runFrom handler cancelled answers steps index ex log).1.1 := by
  induction steps generalizing index ex log with
  | nil => simp [StopHonoured, StopGuarded, runFrom, run_steps]
  | cons step steps ih =>
    by_cases hc : cancelled index = true
    · simp [StopHonoured, StopGuarded, runFrom, run_steps, hc]
    · simp only [Bool.not_eq_true] at hc
      have hr : ∀ retryable : OwnedRetryable, (step = .Process ∧ retryable = .Processor) ∨
          (step = .Segment ∧ retryable = .Segment) →
          (StopHonoured index (runFrom handler cancelled answers (step :: steps) index ex log) ↔
            StopGuarded cancelled (step :: steps) index
              (runFrom handler cancelled answers (step :: steps) index ex log).1.1) := by
        intro retryable hs
        have hl' := @log_of_run_step index log handler answers hl retryable ex
        rw [runFrom_step hs hc]
        apply round_honoured_iff hl'
        intro x
        apply ih
        intro entry he j hj
        have := hl' entry he j hj
        omega
      cases step with
      | Stop => simp [StopHonoured, StopGuarded, runFrom, run_steps, hc]
      | Process => exact hr .Processor (.inl ⟨rfl, rfl⟩)
      | Segment => exact hr .Segment (.inr ⟨rfl, rfl⟩)

/-- The whole pipeline keeps to the stop signal exactly when no retry and no `Continued`
disposition leaves it behind, other than in front of a `Stop` step that is reached. -/
theorem camel_stop_halts_the_pipeline (handler : Option DefaultRouteErrorHandler)
    (cancelled : Nat → Bool) (answers : Answers) (steps : List CompiledStep) (ex : Exchange) :
    StopHonoured 0 (runFrom handler cancelled answers steps 0 ex []) ↔
      StopGuarded cancelled steps 0 (runFrom handler cancelled answers steps 0 ex []).1.1 := by
  apply honoured_iff_guarded
  simp

end

def retryOnce : DefaultRouteErrorHandler where
  dlc_producer := false
  policies := [⟨fun _ => true, some ⟨1⟩, false, .Propagate, false⟩]
  use_original_message := false

def stopExchange : Exchange := (Exchange.new .default).set_property CAMEL_STOP (.Bool true)

/-- The first attempt of step 0 fails, and its retry sets the signal. -/
def failsOnce : Answers := fun log c =>
  match c with
  | .process index exchange =>
    if index = 0 then if log.isEmpty then .error (.Io "down") else .ok stopExchange
    else .ok exchange
  | .segment _ exchange => .Completed exchange
  | .on_steps _ exchange => .ok exchange
  | .producer _ exchange => .ok exchange
  | .dlc exchange => .ok exchange

/-- The retry of step 0 sets the signal, and step 1 is invoked all the same. -/
theorem a_retry_hides_camel_stop :
    ¬ StopHonoured 0 (runFrom (some retryOnce) (fun _ => false) failsOnce [.Process, .Process] 0
      (.new .default) []) := by
  intro h
  have hlast := (h 0 (.recovered stopExchange) stopExchange rfl rfl rfl).1
  have he : 1 ≤ 0 + 0 :=
    hlast ⟨.process 1 stopExchange, .ok stopExchange⟩ (.tail _ (.tail _ (.head _))) 1 rfl
  omega

end camel_core.lifecycle.route_compiler
