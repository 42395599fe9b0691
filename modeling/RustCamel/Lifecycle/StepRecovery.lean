-- What becomes of the error of a step. It is tried again from the same exchange, and what
-- the handler does with it never takes its place.
import RustCamel.Lifecycle.RouteCompiler

open Prog

namespace camel_core.lifecycle.route_compiler

open camel_api (Exchange)
open camel_api.error (CamelError)
open camel_processor.error_handler List

/-! ## Attempts -/

def attemptOf : Entry → Option (Exchange × PipelineOutcome)
  | ⟨.process _ ex, .ok next⟩ => some (ex, .Completed next)
  | ⟨.process _ ex, .error err⟩ => some (ex, .Failed err)
  | ⟨.segment _ ex, outcome⟩ => some (ex, outcome)
  | ⟨.on_steps _ _, _⟩ | ⟨.producer _ _, _⟩ | ⟨.dlc _, _⟩ => none

def attempts (log : List Entry) : List (Exchange × PipelineOutcome) := log.filterMap attemptOf

@[simp] theorem attempts_snoc (log : List Entry) (entry : Entry) :
    attempts (log ++ [entry]) = attempts log ++ (attemptOf entry).toList := by
  unfold attempts
  rw [filterMap_append]
  cases h : attemptOf entry <;> simp [h]

def IsAttempt (step : Exchange → Pipeline PipelineOutcome) : Prop :=
  ∀ x (Q : PipelineOutcome → List Entry → Prop) log,
    (∀ outcome log', attempts log' = attempts log ++ [(x, outcome)] → Q outcome log') →
      Prog.wp (Prog.ofSem Prog.heard) (step x) Q log

theorem invoke_isAttempt (index : Nat) (retryable : OwnedRetryable) :
    IsAttempt (retryable.invoke index) := by
  intro x Q log hQ
  cases retryable with
  | Processor =>
    simp only [OwnedRetryable.invoke, ask_bind, wp_heard_call]
    rintro (err | next)
    all_goals exact hQ _ _ (attempts_snoc log _)
  | Segment =>
    simp only [OwnedRetryable.invoke, Prog.ask, wp_heard_call]
    intro outcome
    exact hQ _ _ (attempts_snoc log _)

theorem inner_isAttempt : IsAttempt ErrorHandlerService.inner := by
  intro x Q log hQ
  simp only [ErrorHandlerService.inner, ask_bind, wp_heard_call]
  rintro (err | next)
  all_goals exact hQ _ _ (attempts_snoc log _)

def LastEnded (log : List Entry) (outcome : PipelineOutcome) : Prop :=
  ∃ x, (attempts log).getLast? = some (x, outcome)

/-- At most `most` attempts more, each from its copy of the exchange, with `attempt` made so far. -/
def TriedAgain (original : Exchange) (max_attempts attempt most : Nat) (log log' : List Entry) :
    Prop :=
  ∃ n, n ≤ most ∧ ∃ outcomes, attempts log' = attempts log ++ outcomes ∧
    outcomes.map (·.1) = (List.range n).map fun k =>
      redelivery original (attempt + k + 1) max_attempts

/-- How the retry loop ends, in terms of the last attempt. -/
def RetryEnded (log : List Entry) : RetryOutcome → Prop
  | .Recovered exchange => LastEnded log (.Completed exchange)
  | .Stopped exchange => LastEnded log (.Stopped exchange)
  | .Exhausted _ error _ => LastEnded log (.Failed error)

theorem retryLoop_spec {step : Exchange → Pipeline PipelineOutcome} (hs : IsAttempt step)
    (original : Exchange) (error : CamelError) (policy : Option PolicyId)
    (max_attempts rounds attempt : Nat) (log : List Entry)
    (hr : attempt + rounds = max_attempts)
    (hlast : rounds = 0 → LastEnded log (.Failed error)) :
    Prog.wp (Prog.ofSem Prog.heard)
      (retryLoop step original error policy max_attempts rounds attempt)
      (fun retried log' => TriedAgain original max_attempts attempt rounds log log' ∧
        RetryEnded log' retried ∧ ∀ x e p, retried = .Exhausted x e p → p = policy) log := by
  induction rounds generalizing attempt log with
  | zero =>
    refine ⟨⟨0, Nat.le_refl 0, [], by simp, rfl⟩, hlast rfl, ?_⟩
    rintro x e p he
    cases he
    rfl
  | succ rounds ih =>
    unfold retryLoop
    rw [wp_bind]
    apply hs
    intro outcome log₁ hl
    have hen : LastEnded log₁ outcome := ⟨_, by rw [hl, getLast?_concat]⟩
    have ho : TriedAgain original max_attempts attempt (rounds + 1) log log₁ :=
      ⟨1, by omega, _, hl, rfl⟩
    cases outcome with
    | Completed exchange | Stopped stopped_ex => exact ⟨ho, hen, by rintro x e p ⟨⟩⟩
    | Failed retry_err =>
      simp only
      split
      · refine ⟨ho, hen, ?_⟩
        rintro x e p he
        cases he
        rfl
      · rename_i hm
        -- the rounds go on, since this was not the last attempt
        have hre := ih (attempt + 1) log₁ (by omega) (by omega)
        refine wp_mono (mono_ofSem _) ?_ hre
        rintro retried log' ⟨⟨n, hn, outcomes, hl', hc⟩, hend, hp⟩
        refine ⟨⟨n + 1, by omega, (redelivery original (attempt + 1) max_attempts,
          .Failed retry_err) :: outcomes, ?_, ?_⟩, hend, hp⟩
        · rw [hl', hl, append_assoc]
          rfl
        · rw [map_cons, hc, range_succ_eq_map, map_cons, List.map_map]
          refine congrArg₂ List.cons rfl (map_congr_left fun k _ => ?_)
          show redelivery original (attempt + 1 + k + 1) max_attempts =
            redelivery original (attempt + (k + 1) + 1) max_attempts
          rw [Nat.add_right_comm attempt 1 k, Nat.add_assoc attempt k 1]

/-! ## The handler -/

/-- A producer took the exchange. -/
def Delivered (log : List Entry) : Producer → Prop
  | .policy idx => ∃ ex done, (⟨.producer idx ex, .ok done⟩ : Entry) ∈ log
  | .dlc => ∃ ex done, (⟨.dlc ex, .ok done⟩ : Entry) ∈ log

/-- No producer takes what fails with the error. -/
def Unattended (handler : DefaultRouteErrorHandler) (err : CamelError) : Prop :=
  (handler.resolve_producer (handler.match_policy err)).2 = none

/-- Steps of a policy have failed. -/
def StepsFailed (log : List Entry) : Prop :=
  ∃ idx given err, (⟨.on_steps idx given, .error err⟩ : Entry) ∈ log

/-- The first policy that matches the error asks for the disposition, and its steps or its
producer came through, or it has neither. Nothing is said of what came through where its steps
failed with no producer behind them. -/
structure Granted (handler : DefaultRouteErrorHandler) (err : CamelError)
    (disposition : ExceptionDisposition) (log : List Entry) : Prop where
  asks : ∃ idx p, handler.match_policy err = some idx ∧ handler.policies[idx]? = some p ∧
    p.disposition = disposition
  done : ¬(StepsFailed log ∧ Unattended handler err) →
    (∃ idx p ex done, handler.match_policy err = some idx ∧ handler.policies[idx]? = some p ∧
      p.on_steps = true ∧ (⟨.on_steps idx ex, .ok done⟩ : Entry) ∈ log) ∨
    (∃ producer, (handler.resolve_producer (handler.match_policy err)).2 = some producer ∧
      Delivered log producer) ∨
    (Unattended handler err ∧ ∃ idx p, handler.match_policy err = some idx ∧
      handler.policies[idx]? = some p ∧ p.on_steps = false)

theorem send_to_handler_spec (exchange : Exchange) (producer : Option Producer)
    (log : List Entry) :
    Prog.wp (Prog.ofSem Prog.heard) (send_to_handler exchange producer)
      (fun sent log' => attempts log' = attempts log ∧
        ∀ ex, sent = .ok ex → (producer = none ∧ ex = exchange ∧ log' = log) ∨
          ∃ p, producer = some p ∧ Delivered log' p) log := by
  rcases producer with _ | idx | _
  · refine ⟨rfl, ?_⟩
    rintro ex ⟨⟩
    exact .inl ⟨rfl, rfl, rfl⟩
  all_goals
    simp only [send_to_handler, Prog.ask, wp_heard_call]
    rintro sent
    refine ⟨by simp [attemptOf], ?_⟩
    rintro ex rfl
    exact .inr ⟨_, rfl, exchange, ex, by simp⟩

variable {disposition : ExceptionDisposition} {ex : Exchange}

theorem asks_of_disposition {handler : DefaultRouteErrorHandler} {err : CamelError}
    (h : (handler.resolve_producer (handler.match_policy err)).1 = disposition)
    (hn : disposition ≠ .Propagate) :
    ∃ idx p, handler.match_policy err = some idx ∧ handler.policies[idx]? = some p ∧
      p.disposition = disposition := by
  cases hpo : handler.match_policy err with
  | none =>
    simp only [DefaultRouteErrorHandler.resolve_producer, hpo] at h
    exact absurd h.symm hn
  | some idx =>
    simp only [DefaultRouteErrorHandler.resolve_producer, hpo] at h
    cases hp : handler.policies[idx]? with
    | none =>
      simp only [hp] at h
      exact absurd h.symm hn
    | some p =>
      simp only [hp] at h
      exact ⟨idx, p, rfl, hp, h⟩

/-- The steps of the policy have failed, or no steps of it were to run. -/
def PastSteps (handler : DefaultRouteErrorHandler) (err : CamelError) (log : List Entry) : Prop :=
  StepsFailed log ∨ ∀ idx p, handler.match_policy err = some idx →
    handler.policies[idx]? = some p → p.on_steps = false

/-- A policy that is past its steps grants what it asks for when the exchange was sent off. -/
theorem granted_of_sent {handler : DefaultRouteErrorHandler} {err : CamelError}
    {producer : Option Producer} {log log' : List Entry} {sent exchange : Exchange}
    (hr : handler.resolve_producer (handler.match_policy err) = (disposition, producer))
    (hn : disposition ≠ .Propagate) (hp : PastSteps handler err log)
    (hs : (producer = none ∧ sent = exchange ∧ log' = log) ∨
      ∃ p, producer = some p ∧ Delivered log' p) : Granted handler err disposition log' := by
  have hask := asks_of_disposition (by rw [hr]) hn
  refine ⟨hask, fun hd => .inr ?_⟩
  rcases hs with ⟨rfl, -, rfl⟩ | ⟨p, rfl, hde⟩
  · have hu : Unattended handler err := by rw [Unattended, hr]
    obtain ⟨idx, p, hm, hpo, -⟩ := hask
    rcases hp with hf | hno
    · exact absurd ⟨hf, hu⟩ hd
    · exact .inr ⟨hu, idx, p, hm, hpo, hno idx p hm hpo⟩
  · exact .inl ⟨p, by rw [hr], hde⟩

/-- What the handler makes of a failed step. -/
def Settles (handler : DefaultRouteErrorHandler) (err error : CamelError) (log log' : List Entry) :
    Except CamelError StepDisposition → Prop
  | .ok (.Propagate e) => attempts log' = attempts log ∧ e = error
  | .ok (.Handled _) => attempts log' = attempts log ∧ Granted handler err .Handled log'
  | .ok (.Continued _) => attempts log' = attempts log ∧ Granted handler err .Continued log'
  | .error _ => False

theorem forward_spec (handler : DefaultRouteErrorHandler) (exchange : Exchange)
    (err error : CamelError) {producer : Option Producer}
    (hr : handler.resolve_producer (handler.match_policy err) = (disposition, producer))
    (log₀ log : List Entry) (hl : attempts log = attempts log₀)
    (hp : disposition ≠ .Propagate → PastSteps handler err log) :
    Prog.wp (Prog.ofSem Prog.heard) (handler.forward exchange error disposition producer)
      (fun settled log' => Settles handler err error log₀ log' settled) log := by
  unfold DefaultRouteErrorHandler.forward
  rw [wp_bind]
  refine wp_mono (mono_ofSem _) ?_ (send_to_handler_spec _ producer log)
  rintro sent log' ⟨hs, hse⟩
  have ha : attempts log' = attempts log₀ := hs.trans hl
  cases sent with
  | error e => exact ⟨ha, rfl⟩
  | ok handler_ex =>
    cases disposition with
    | Propagate => exact ⟨ha, rfl⟩
    | Handled | Continued =>
      exact ⟨ha, granted_of_sent hr (by decide) (hp (by decide)) (hse handler_ex rfl)⟩

theorem on_steps_of_spec {handler : DefaultRouteErrorHandler} {policy : Option PolicyId}
    {idx : PolicyId}
    (h : policy.filter (fun idx => (handler.policies[idx]?.map (·.on_steps)).getD false) =
      some idx) :
    policy = some idx ∧ ∃ p, handler.policies[idx]? = some p ∧ p.on_steps = true := by
  rw [Option.filter_eq_some_iff] at h
  refine ⟨h.1, ?_⟩
  cases hp : handler.policies[idx]? with
  | none => simp [hp] at h
  | some p => exact ⟨p, rfl, by simpa [hp] using h.2⟩

theorem no_steps_of_none {handler : DefaultRouteErrorHandler} {policy : Option PolicyId}
    (h : policy.filter (fun idx => (handler.policies[idx]?.map (·.on_steps)).getD false) = none) :
    ∀ idx p, policy = some idx → handler.policies[idx]? = some p → p.on_steps = false := by
  rintro idx p rfl hp
  simpa [Option.filter, hp] using h

theorem handle_step_spec (handler : DefaultRouteErrorHandler) (exchange : Exchange)
    (err error : CamelError) (log : List Entry) :
    Prog.wp (Prog.ofSem Prog.heard)
      (handler.handle_step (handler.match_policy err) exchange error)
      (fun settled log' => Settles handler err error log log' settled) log := by
  unfold DefaultRouteErrorHandler.handle_step
  cases hr : handler.resolve_producer (handler.match_policy err) with
  | mk disposition producer =>
    simp only
    split
    · rename_i hs
      refine forward_spec handler exchange err error hr log log rfl fun hn => .inr ?_
      rw [DefaultRouteErrorHandler.on_steps_of, if_neg hn] at hs
      exact no_steps_of_none hs
    · rename_i idx hs
      unfold DefaultRouteErrorHandler.on_steps_of at hs
      split at hs
      · cases hs
      · rename_i hpr
        obtain ⟨hpo, p, hp, ho⟩ := on_steps_of_spec hs
        simp only [ask_bind, wp_heard_call]
        intro answer
        have ha : attempts (log ++ [⟨.on_steps idx (exchange.set_error error), answer⟩]) =
            attempts log := by simp [attemptOf]
        cases answer with
        | error e =>
          refine forward_spec handler exchange err error hr log _ ha fun _ => .inl ?_
          exact ⟨idx, exchange.set_error error, e, by simp⟩
        | ok ex =>
          have hg : ∀ d, disposition = d → d ≠ .Propagate → Granted handler err d
              (log ++ [⟨.on_steps idx (exchange.set_error error), .ok ex⟩]) := by
            intro d hd hn
            refine ⟨asks_of_disposition (by rw [hr]; exact hd) hn, fun _ => .inl ?_⟩
            exact ⟨idx, p, exchange.set_error error, ex, hpo, hp, ho, by simp⟩
          cases hd : disposition with
          | Propagate => exact absurd hd hpr
          | Handled | Continued => exact ⟨ha, hg _ hd (by decide)⟩

/-! ## A step -/

/-- How often a step may be tried again under the policy. -/
def redeliveries (handler : DefaultRouteErrorHandler) (policy : Option PolicyId) : Nat :=
  match policy.bind fun idx => handler.policies[idx]? with
  | some p => (p.retry.map fun backoff => backoff.max_attempts.toNat).getD 0
  | none => 0

theorem retry_step_spec (handler : DefaultRouteErrorHandler) (policy : Option PolicyId)
    {step : Exchange → Pipeline PipelineOutcome} (hs : IsAttempt step) (original : Exchange)
    (error : CamelError) (log : List Entry) (hlast : LastEnded log (.Failed error)) :
    Prog.wp (Prog.ofSem Prog.heard) (handler.retry_step policy step original error)
      (fun retried log' =>
        TriedAgain original (redeliveries handler policy) 0 (redeliveries handler policy) log log' ∧
        RetryEnded log' retried ∧ ∀ x e p, retried = .Exhausted x e p → p = policy) log := by
  have hn : ∀ max, TriedAgain original max 0 max log log ∧
      RetryEnded log (.Exhausted original error policy) ∧
        ∀ x e p, RetryOutcome.Exhausted original error policy = .Exhausted x e p → p = policy := by
    intro max
    refine ⟨⟨0, Nat.zero_le _, [], by simp, rfl⟩, hlast, ?_⟩
    rintro x e p he
    cases he
    rfl
  unfold DefaultRouteErrorHandler.retry_step
  cases policy with
  | none => exact hn _
  | some idx =>
    cases hp : handler.policies[idx]? with
    | none =>
      simp only [hp]
      exact hn _
    | some p =>
      cases hr : p.retry with
      | none =>
        simp only [hp, hr]
        exact hn _
      | some backoff =>
        have hm : redeliveries handler (some idx) = backoff.max_attempts.toNat := by
          simp [redeliveries, hp, hr]
        simp only [hp, hr, hm]
        exact retryLoop_spec hs original error (some idx) _ _ 0 log (Nat.zero_add _)
          fun _ => hlast

/-- The step was tried from its exchange, and then from copies of it, as often as is allowed
after its error. -/
def TriedFrom (allowed : CamelError → Nat) (ex : Exchange) (log : List Entry) : Prop :=
  ∃ outcome again, attempts log = (ex, outcome) :: again ∧
    ∀ err, outcome = .Failed err → ∃ n ≤ allowed err,
      again.map (·.1) = (List.range n).map fun k => redelivery ex (k + 1) (allowed err)

/-- Where the end of a step comes from: from its last attempt, or from what a policy grants for
the error of its first one. -/
def StepEnded (handler : DefaultRouteErrorHandler) (ex : Exchange) (log : List Entry) :
    StepEnd → Prop
  | .completed x | .recovered x => LastEnded log (.Completed x)
  | .stopped x => LastEnded log (.Stopped x)
  | .failed e => LastEnded log (.Failed e)
  | .handled _ =>
    ∃ err, (attempts log).head? = some (ex, .Failed err) ∧ Granted handler err .Handled log
  | .continued _ =>
    ∃ err, (attempts log).head? = some (ex, .Failed err) ∧ Granted handler err .Continued log

theorem TriedFrom.alone (allowed : CamelError → Nat) {outcome : PipelineOutcome} {log : List Entry}
    (hl : attempts log = [(ex, outcome)]) : TriedFrom allowed ex log :=
  ⟨outcome, [], hl, fun _ _ => ⟨0, Nat.zero_le _, rfl⟩⟩

theorem TriedFrom.of_failed {allowed : CamelError → Nat} {err : CamelError} {log log' : List Entry}
    (hl : attempts log = [(ex, .Failed err)])
    (ha : TriedAgain ex (allowed err) 0 (allowed err) log log') :
    TriedFrom allowed ex log' := by
  obtain ⟨n, hn, again, hl', hc⟩ := ha
  refine ⟨.Failed err, again, by rw [hl', hl]; rfl, ?_⟩
  rintro e ⟨⟩
  exact ⟨n, hn, by simpa using hc⟩

theorem TriedFrom.congr {allowed : CamelError → Nat} {log log' : List Entry}
    (h : TriedFrom allowed ex log) (hs : attempts log' = attempts log) :
    TriedFrom allowed ex log' := by
  unfold TriedFrom at h ⊢
  rwa [hs]

theorem run_step_spec (handler : DefaultRouteErrorHandler) (retryable : OwnedRetryable)
    (index : Nat) (ex : Exchange) :
    Prog.wp (Prog.ofSem Prog.heard) (run_step (some handler) retryable index ex)
      (fun stepEnd log =>
        TriedFrom (fun err => redeliveries handler (handler.match_policy err)) ex log ∧
          StepEnded handler ex log stepEnd) [] := by
  unfold run_step
  rw [wp_bind]
  apply invoke_isAttempt index retryable
  intro outcome log hl
  rw [show attempts ([] : List Entry) = [] from rfl, nil_append] at hl
  have he : LastEnded log outcome := ⟨ex, by rw [hl]; rfl⟩
  have ha := TriedFrom.alone (fun err => redeliveries handler (handler.match_policy err)) hl
  cases outcome with
  | Completed next | Stopped stopped_ex => exact ⟨ha, he⟩
  | Failed err =>
    simp only
    rw [wp_bind]
    refine wp_mono (mono_ofSem _) ?_ (retry_step_spec handler (handler.match_policy err)
      (invoke_isAttempt index retryable) ex err log he)
    rintro retried log₁ ⟨hag, hr, hp⟩
    have ht : TriedFrom (fun err => redeliveries handler (handler.match_policy err)) ex log₁ :=
      .of_failed hl hag
    cases retried with
    | Recovered exchange | Stopped stopped_ex => exact ⟨ht, hr⟩
    | Exhausted exchange error policy =>
      rw [hp exchange error policy rfl]
      simp only
      rw [wp_bind]
      refine wp_mono (mono_ofSem _) ?_
        (handle_step_spec handler exchange err error log₁)
      intro settled log' hs
      have hh : attempts log' = attempts log₁ → (attempts log').head? = some (ex, .Failed err) := by
        obtain ⟨n, -, again, hl₁, -⟩ := hag
        intro hsa
        rw [hsa, hl₁, hl]
        rfl
      rcases settled with e | (e | done | next)
      · exact absurd hs id
      · obtain ⟨hsa, rfl⟩ := hs
        refine ⟨ht.congr hsa, ?_⟩
        show LastEnded log' _
        unfold LastEnded
        rw [hsa]
        exact hr
      all_goals
        obtain ⟨hsa, hg⟩ := hs
        exact ⟨ht.congr hsa, err, hh hsa, hg⟩

/-! ## A boundary -/

/-- A boundary error stays on the exchange or is returned, unless it is handled. -/
def BoundaryEnded (handler : DefaultRouteErrorHandler) (error : CamelError) (log : List Entry) :
    Except CamelError Exchange → Prop
  | .ok ex => ex.error = some error ∨ (ex.error = none ∧ Granted handler error .Handled log)
  | .error e => e = error

theorem forward_boundary_spec (handler : DefaultRouteErrorHandler) (exchange : Exchange)
    (error : CamelError) {producer : Option Producer}
    (hr : handler.resolve_producer (handler.match_policy error) = (disposition, producer))
    (log : List Entry) (hp : disposition = .Handled → PastSteps handler error log) :
    Prog.wp (Prog.ofSem Prog.heard) (handler.forward_boundary exchange error disposition producer)
      (fun settled log' => BoundaryEnded handler error log' settled) log := by
  unfold DefaultRouteErrorHandler.forward_boundary
  rw [wp_bind]
  refine wp_mono (mono_ofSem _) ?_ (send_to_handler_spec _ producer log)
  rintro sent log' ⟨-, hs⟩
  cases sent with
  | error e => exact rfl
  | ok handler_ex =>
    cases disposition with
    | Propagate | Continued => exact .inl rfl
    | Handled =>
      exact .inr ⟨rfl, granted_of_sent hr (by decide) (hp rfl) (hs handler_ex rfl)⟩

theorem handle_boundary_spec (handler : DefaultRouteErrorHandler) (exchange : Exchange)
    (error : CamelError) (log : List Entry) :
    Prog.wp (Prog.ofSem Prog.heard) (handler.handle_boundary exchange error)
      (fun settled log' => BoundaryEnded handler error log' settled) log := by
  unfold DefaultRouteErrorHandler.handle_boundary
  cases hr : handler.resolve_producer (handler.match_policy error) with
  | mk disposition producer =>
    simp only [hr]
    split
    · rename_i hs
      refine forward_boundary_spec handler exchange error hr log fun hh => .inr ?_
      rw [DefaultRouteErrorHandler.boundary_on_steps_of, if_neg (by simp [hh])] at hs
      exact no_steps_of_none hs
    · rename_i idx hs
      unfold DefaultRouteErrorHandler.boundary_on_steps_of at hs
      split at hs
      · cases hs
      · rename_i hpr
        obtain ⟨hpo, p, hp, ho⟩ := on_steps_of_spec hs
        simp only [ask_bind, wp_heard_call]
        intro answer
        cases answer with
        | error e =>
          refine forward_boundary_spec handler exchange error hr _ fun _ => .inl ?_
          exact ⟨idx, exchange.set_error error, e, by simp⟩
        | ok ex =>
          cases hd : disposition with
          | Propagate | Continued => exact absurd (by simp [hd]) hpr
          | Handled =>
            refine .inr ⟨rfl, asks_of_disposition (by rw [hr]; exact hd) (by decide), fun _ =>
              .inl ?_⟩
            exact ⟨idx, p, exchange.set_error error, ex, hpo, hp, ho, by simp⟩

/-! ## The service -/

def policyOf (service : ErrorHandlerService) (err : CamelError) : Option (ExceptionPolicy × Nat) :=
  service.policies.zipIdx.find? fun (p, _) => p.applies err

/-- How often the service may try again. -/
def allowedBy (service : ErrorHandlerService) (err : CamelError) : Nat :=
  match policyOf service err with
  | some (p, _) => (p.retry.map fun backoff => backoff.max_attempts.toNat).getD 0
  | none => 0

/-- Where the answer of the service comes from: from the last attempt, from a producer that took
the exchange, from the exchange itself, which bears the error, or from the steps of a policy that
handles the error. -/
def ServiceEnded (log : List Entry) : Except CamelError Exchange → Prop
  | .error e => LastEnded log (.Failed e)
  | .ok ex => (LastEnded log (.Completed ex) ∨ LastEnded log (.Stopped ex)) ∨
    (∃ producer, Delivered log producer) ∨
    (∃ error, LastEnded log (.Failed error) ∧ ex.error = some error) ∨
    ∃ idx given done, (⟨.on_steps idx given, .ok done⟩ : Entry) ∈ log ∧ ex = done.handle_error

theorem forward_or_propagate_spec (exchange : Exchange) (producer : Option Producer)
    (error : CamelError) (log₀ log : List Entry) (hl : attempts log = attempts log₀)
    (hlast : LastEnded log₀ (.Failed error)) (hb : exchange.error = some error) :
    Prog.wp (Prog.ofSem Prog.heard)
      (ErrorHandlerService.forward_or_propagate exchange producer error)
      (fun answer log' => attempts log' = attempts log₀ ∧ ServiceEnded log' answer) log := by
  unfold ErrorHandlerService.forward_or_propagate
  rw [wp_bind]
  refine wp_mono (mono_ofSem _) ?_ (send_to_handler_spec _ producer log)
  rintro sent log' ⟨hs, hse⟩
  have ha : attempts log' = attempts log₀ := hs.trans hl
  have he : LastEnded log' (.Failed error) := by
    unfold LastEnded at hlast ⊢
    rwa [ha]
  cases sent with
  | error e => exact ⟨ha, he⟩
  | ok ex =>
    refine ⟨ha, .inr ?_⟩
    rcases hse ex rfl with ⟨-, rfl, -⟩ | ⟨p, -, hd⟩
    · exact .inr (.inl ⟨error, he, hb⟩)
    · exact .inl ⟨p, hd⟩

theorem give_up_spec (service : ErrorHandlerService) (idx : PolicyId) (policy : ExceptionPolicy)
    (exchange : Exchange) (error : CamelError) (log : List Entry)
    (hlast : LastEnded log (.Failed error)) :
    Prog.wp (Prog.ofSem Prog.heard) (service.give_up idx policy exchange error)
      (fun answer log' => attempts log' = attempts log ∧ ServiceEnded log' answer) log := by
  unfold ErrorHandlerService.give_up
  simp only
  split
  · simp only [ErrorHandlerService.execute_on_steps, ask_bind, wp_heard_call]
    intro answer
    have ha : attempts (log ++ [⟨.on_steps idx (exchange.set_error error), answer⟩]) =
        attempts log := by simp [attemptOf]
    cases answer with
    | error e => exact forward_or_propagate_spec _ _ error log _ ha hlast rfl
    | ok ex =>
      simp only
      split
      · refine ⟨ha, .inr (.inr (.inr ?_))⟩
        exact ⟨idx, exchange.set_error error, ex, by simp, rfl⟩
      · refine ⟨ha, ?_⟩
        show LastEnded _ _
        unfold LastEnded
        rw [ha]
        exact hlast
  · exact forward_or_propagate_spec _ _ error log log rfl hlast rfl

theorem call_spec (service : ErrorHandlerService) (exchange : Exchange) :
    Prog.wp (Prog.ofSem Prog.heard) (service.call exchange)
      (fun answer log => TriedFrom (allowedBy service) exchange log ∧ ServiceEnded log answer)
      [] := by
  unfold ErrorHandlerService.call
  rw [wp_bind]
  apply inner_isAttempt
  intro outcome log hl
  rw [show attempts ([] : List Entry) = [] from rfl, nil_append] at hl
  have he : LastEnded log outcome := ⟨exchange, by rw [hl]; rfl⟩
  have ha := TriedFrom.alone (allowedBy service) hl
  cases outcome with
  | Completed ex => exact ⟨ha, .inl (.inl he)⟩
  | Stopped ex => exact ⟨ha, .inl (.inr he)⟩
  | Failed err =>
    simp only
    cases hp : service.policies.zipIdx.find? fun (p, _) => p.applies err with
    | none =>
      refine wp_mono (mono_ofSem _) ?_
        (forward_or_propagate_spec _ _ err log log rfl he rfl)
      rintro answer log' ⟨hs, han⟩
      exact ⟨ha.congr hs, han⟩
    | some found =>
      obtain ⟨policy, idx⟩ := found
      cases hr : policy.retry with
      | none =>
        simp only [hr]
        refine wp_mono (mono_ofSem _) ?_
          (give_up_spec service idx policy exchange err log he)
        rintro answer log' ⟨hs, han⟩
        exact ⟨ha.congr hs, han⟩
      | some backoff =>
        simp only [hr]
        have hm : allowedBy service err = backoff.max_attempts.toNat := by
          simp [allowedBy, policyOf, hp, hr]
        rw [wp_bind]
        refine wp_mono (mono_ofSem _) ?_ (retryLoop_spec inner_isAttempt exchange err
          (some idx) backoff.max_attempts.toNat backoff.max_attempts.toNat 0 log (Nat.zero_add _)
          fun _ => he)
        rintro retried log₁ ⟨hag, hre, -⟩
        rw [← hm] at hag
        have ht : TriedFrom (allowedBy service) exchange log₁ := .of_failed hl hag
        cases retried with
        | Recovered ex => exact ⟨ht, .inl (.inl hre)⟩
        | Stopped ex => exact ⟨ht, .inl (.inr hre)⟩
        | Exhausted original error _ =>
          refine wp_mono (mono_ofSem _) ?_
            (give_up_spec service idx policy original error log₁ hre)
          rintro answer log' ⟨hs, han⟩
          exact ⟨ht.congr hs, han⟩

/-! ## The failure is kept -/

/-- What a program gives under these answers, and the log of its calls. -/
def ran {α : Type} (answers : Answers) (p : Pipeline α) : α × List Entry :=
  Prog.eval (Prog.logged answers) p []

/-- A step is handled or goes on only if the first policy that matches asks for it and what it
has to run came through. Otherwise the error of the last attempt comes out, and each attempt had
the same exchange. A boundary and the service keep the error as well. -/
theorem original_failure_is_kept (answers : Answers) (handler : DefaultRouteErrorHandler)
    (service : ErrorHandlerService) (retryable : OwnedRetryable) (index : Nat) (ex : Exchange)
    (error : CamelError) :
    (TriedFrom (fun err => redeliveries handler (handler.match_policy err)) ex
        (ran answers (run_step (some handler) retryable index ex)).2 ∧
      StepEnded handler ex (ran answers (run_step (some handler) retryable index ex)).2
        (ran answers (run_step (some handler) retryable index ex)).1) ∧
    BoundaryEnded handler error (ran answers (handler.handle_boundary ex error)).2
      (ran answers (handler.handle_boundary ex error)).1 ∧
    TriedFrom (allowedBy service) ex (ran answers (service.call ex)).2 ∧
      ServiceEnded (ran answers (service.call ex)).2 (ran answers (service.call ex)).1 :=
  ⟨eval_of_wp_heard (run_step_spec handler retryable index ex) answers,
    eval_of_wp_heard (handle_boundary_spec handler ex error []) answers,
    eval_of_wp_heard (call_spec service ex) answers⟩

/-- A policy that handles every error, with neither steps nor a producer. -/
def silent : DefaultRouteErrorHandler :=
  ⟨false, [⟨fun _ => true, none, false, .Handled, false⟩], false⟩

def failing : Answers := fun _ c => match c with
  | .process _ _ | .on_steps _ _ | .producer _ _ | .dlc _ => .error (.ProcessorError "down")
  | .segment _ _ => .Failed (.ProcessorError "down")

/-- The step is handled, and nothing but the step itself has run. -/
theorem an_error_is_handled_by_nothing :
    ¬ ∀ (answers : Answers) (handler : DefaultRouteErrorHandler) (ex done : Exchange),
      (ran answers (run_step (some handler) .Processor 0 ex)).1 = .handled done →
        ∃ entry ∈ (ran answers (run_step (some handler) .Processor 0 ex)).2,
          stepOf entry.call = none := by
  intro h
  obtain ⟨entry, he, hn⟩ := h failing silent (.new .default) _ rfl
  obtain rfl := mem_singleton.mp he
  cases hn

end camel_core.lifecycle.route_compiler
