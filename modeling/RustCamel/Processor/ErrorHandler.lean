-- The route error handler of `error_handler.rs`: it retries a failed step, and then
-- decides what becomes of the exchange. A processor is a call with a free answer.
import RustCamel.Api.Exchange
import RustCamel.Lib.Prog

namespace camel_processor.error_handler

open camel_api (Exchange PROPERTY_HTTP_CONTENT_TYPE_INHERITED)
open camel_api.error (CamelError)

/-! ## Outcomes and calls -/

inductive PipelineOutcome where
  | Completed (exchange : Exchange)
  | Stopped (exchange : Exchange)
  | Failed (err : CamelError)

/-- What a pipeline asks. `process` and `segment` name the step by its index, `on_steps` and
`producer` name the policy, and `dlc` is the dead letter channel. A processor that is not
ready answers with its error as one that fails does. -/
inductive PipelineCall where
  | process (index : Nat) (exchange : Exchange)
  | segment (index : Nat) (exchange : Exchange)
  | on_steps (policy : Nat) (exchange : Exchange)
  | producer (policy : Nat) (exchange : Exchange)
  | dlc (exchange : Exchange)

abbrev PipelineCall.Answer : PipelineCall → Type
  | .process _ _ => Except CamelError Exchange
  | .segment _ _ => PipelineOutcome
  | .on_steps _ _ => Except CamelError Exchange
  | .producer _ _ => Except CamelError Exchange
  | .dlc _ => Except CamelError Exchange

abbrev Pipeline := Prog PipelineCall PipelineCall.Answer

/-! ## Policies -/

def HEADER_REDELIVERED : String := "CamelRedelivered"
def HEADER_REDELIVERY_COUNTER : String := "CamelRedeliveryCounter"
def HEADER_REDELIVERY_MAX_COUNTER : String := "CamelRedeliveryMaxCounter"

inductive ExceptionDisposition where
  | Propagate
  | Handled
  | Continued
  deriving DecidableEq

/-- The delays of a redelivery are left out, since they change nothing but the time. -/
structure RedeliveryPolicy where
  max_attempts : UInt32

/-- `on_steps` and `producer` say whether the policy has such a pipeline. -/
structure ExceptionPolicy where
  applies : CamelError → Bool
  retry : Option RedeliveryPolicy
  on_steps : Bool
  disposition : ExceptionDisposition
  producer : Bool

abbrev PolicyId := Nat

inductive RetryOutcome where
  | Recovered (exchange : Exchange)
  | Stopped (exchange : Exchange)
  | Exhausted (exchange : Exchange) (error : CamelError) (policy : Option PolicyId)

inductive StepDisposition where
  | Propagate (error : CamelError)
  | Handled (exchange : Exchange)
  | Continued (exchange : Exchange)

structure DefaultRouteErrorHandler where
  dlc_producer : Bool
  policies : List ExceptionPolicy
  use_original_message : Bool

/-- Which processor a failed exchange is sent to. -/
inductive Producer where
  | policy (index : Nat)
  | dlc

/-! ## The handler -/

def send_to_handler (exchange : Exchange) : Option Producer → Pipeline (Except CamelError Exchange)
  | none => pure (.ok exchange)
  | some (.policy index) => Prog.ask (PipelineCall.producer index exchange)
  | some .dlc => Prog.ask (PipelineCall.dlc exchange)

/-- The headers of redelivery number `attempt`. -/
def redelivery (exchange : Exchange) (attempt max_attempts : Nat) : Exchange :=
  ((exchange.set_header HEADER_REDELIVERED (.Bool true)).set_header HEADER_REDELIVERY_COUNTER
    (.Number (.PosInt (.ofNat attempt)))).set_header HEADER_REDELIVERY_MAX_COUNTER
    (.Number (.PosInt (.ofNat max_attempts)))

/-- The rounds of the retry loop that are left, after `attempt` of them. -/
def retryLoop (step : Exchange → Pipeline PipelineOutcome) (original : Exchange)
    (error : CamelError) (policy : Option PolicyId) (max_attempts : Nat) :
    Nat → Nat → Pipeline RetryOutcome
  | 0, _ => pure (.Exhausted original error policy)
  | rounds + 1, attempt => do
    match ← step (redelivery original (attempt + 1) max_attempts) with
    | .Completed exchange => pure (.Recovered exchange)
    | .Stopped stopped_ex => pure (.Stopped stopped_ex)
    | .Failed retry_err =>
      if attempt + 1 = max_attempts then
        pure (.Exhausted (redelivery original max_attempts max_attempts) retry_err policy)
      else retryLoop step original error policy max_attempts rounds (attempt + 1)

namespace DefaultRouteErrorHandler

variable (handler : DefaultRouteErrorHandler)

def restore_original_message_if_enabled (exchange : Exchange) : Exchange :=
  if handler.use_original_message then
    match exchange.original_message with
    | none => exchange
    | some orig =>
      let exchange := { exchange with input := orig }
      if exchange.original_content_type_inherited = some true then
        exchange.set_property PROPERTY_HTTP_CONTENT_TYPE_INHERITED (.Bool true)
      else exchange.remove_property PROPERTY_HTTP_CONTENT_TYPE_INHERITED
  else exchange

def resolve_producer (policy : Option PolicyId) : ExceptionDisposition × Option Producer :=
  let dlc := if handler.dlc_producer then some Producer.dlc else none
  match policy with
  | none => (.Propagate, dlc)
  | some idx =>
    match handler.policies[idx]? with
    | none => (.Propagate, dlc)
    | some p => (p.disposition, if p.producer then some (.policy idx) else dlc)

def match_policy (err : CamelError) : Option PolicyId :=
  handler.policies.findIdx? fun p => p.applies err

def retry_step (policy : Option PolicyId) (step : Exchange → Pipeline PipelineOutcome)
    (original : Exchange) (error : CamelError) : Pipeline RetryOutcome :=
  match policy with
  | none => pure (.Exhausted original error none)
  | some idx =>
    match handler.policies[idx]? with
    | none => pure (.Exhausted original error policy)
    | some policy_def =>
      match policy_def.retry with
      | none => pure (.Exhausted original error policy)
      | some backoff =>
        retryLoop step original error policy backoff.max_attempts.toNat
          backoff.max_attempts.toNat 0

/-- The policy whose `on_steps` run: it is matched, has such steps, and does not propagate. -/
def on_steps_of (policy : Option PolicyId) (disposition : ExceptionDisposition) : Option PolicyId :=
  if disposition = .Propagate then none
  else policy.filter fun idx => (handler.policies[idx]?.map (·.on_steps)).getD false

/-- The failed exchange goes to the producer, and the disposition decides. -/
def forward (exchange : Exchange) (error : CamelError) (disposition : ExceptionDisposition)
    (producer : Option Producer) : Pipeline (Except CamelError StepDisposition) := do
  let exchange := (handler.restore_original_message_if_enabled exchange).set_error error
  match ← send_to_handler exchange producer with
  | .ok handler_ex =>
    match disposition with
    | .Handled => pure (.ok (.Handled handler_ex.clear_error))
    | .Continued => pure (.ok (.Continued handler_ex.clear_error))
    | .Propagate => pure (.ok (.Propagate error))
  | .error _ => pure (.ok (.Propagate error))

def handle_step (policy : Option PolicyId) (exchange : Exchange) (error : CamelError) :
    Pipeline (Except CamelError StepDisposition) :=
  let (disposition, producer) := handler.resolve_producer policy
  match handler.on_steps_of policy disposition with
  | none => handler.forward exchange error disposition producer
  | some idx => do
    match ← Prog.ask (PipelineCall.on_steps idx (exchange.set_error error)) with
    | .ok ex =>
      match disposition with
      | .Handled => pure (.ok (.Handled ex.handle_error))
      | .Continued => pure (.ok (.Continued ex.clear_error))
      | .Propagate => handler.forward exchange error disposition producer
    | .error _ => handler.forward exchange error disposition producer

/-- The steps of a boundary error run only for a policy that handles it. -/
def boundary_on_steps_of (policy : Option PolicyId) (disposition : ExceptionDisposition) :
    Option PolicyId :=
  if disposition = .Propagate ∨ disposition = .Continued then none
  else policy.filter fun idx => (handler.policies[idx]?.map (·.on_steps)).getD false

/-- The exchange of a boundary error goes to the producer. What does not handle the error gives
the exchange back with it. -/
def forward_boundary (exchange : Exchange) (error : CamelError)
    (disposition : ExceptionDisposition) (producer : Option Producer) :
    Pipeline (Except CamelError Exchange) := do
  let exchange := (handler.restore_original_message_if_enabled exchange).set_error error
  match ← send_to_handler exchange producer with
  | .ok handler_ex =>
    match disposition with
    | .Handled => pure (.ok handler_ex.clear_error)
    | .Propagate | .Continued => pure (.ok (handler_ex.set_error error))
  | .error _ => pure (.error error)

/-- The kind of the boundary is only logged. -/
def handle_boundary (exchange : Exchange) (error : CamelError) :
    Pipeline (Except CamelError Exchange) :=
  let policy := handler.match_policy error
  let (disposition, producer) := handler.resolve_producer policy
  match handler.boundary_on_steps_of policy disposition with
  | none => handler.forward_boundary exchange error disposition producer
  | some idx => do
    match ← Prog.ask (PipelineCall.on_steps idx (exchange.set_error error)) with
    | .ok ex =>
      match disposition with
      | .Handled => pure (.ok ex.handle_error)
      | .Propagate | .Continued => handler.forward_boundary exchange error disposition producer
    | .error _ => handler.forward_boundary exchange error disposition producer

end DefaultRouteErrorHandler

/-! ## The service -/

/-- The layer around a whole pipeline. Its inner service is step 0. -/
structure ErrorHandlerService where
  dlc_producer : Bool
  policies : List ExceptionPolicy

namespace ErrorHandlerService

def inner (exchange : Exchange) : Pipeline PipelineOutcome := do
  match ← Prog.ask (PipelineCall.process 0 exchange) with
  | .ok ex => pure (.Completed ex)
  | .error err => pure (.Failed err)

def forward_or_propagate (exchange : Exchange) (producer : Option Producer)
    (original_error : CamelError) : Pipeline (Except CamelError Exchange) := do
  match ← send_to_handler exchange producer with
  | .ok ex => pure (.ok ex)
  | .error _ => pure (.error original_error)

def execute_on_steps (original : Exchange) (original_err : CamelError) (idx : PolicyId)
    (disposition : ExceptionDisposition) (handler : Option Producer) :
    Pipeline (Except CamelError Exchange) := do
  match ← Prog.ask (PipelineCall.on_steps idx (original.set_error original_err)) with
  | .ok ex =>
    if disposition = .Handled then pure (.ok ex.handle_error) else pure (.error original_err)
  | .error _ => forward_or_propagate (original.set_error original_err) handler original_err

variable (service : ErrorHandlerService)

/-- The end of `call`, with no attempts left. -/
def give_up (idx : PolicyId) (policy : ExceptionPolicy) (exchange : Exchange)
    (error : CamelError) : Pipeline (Except CamelError Exchange) :=
  let dlc := if service.dlc_producer then some Producer.dlc else none
  let handler := if policy.producer then some (.policy idx) else dlc
  if policy.on_steps then execute_on_steps exchange error idx policy.disposition handler
  else forward_or_propagate (exchange.set_error error) handler error

def call (exchange : Exchange) : Pipeline (Except CamelError Exchange) := do
  match ← inner exchange with
  | .Completed ex => pure (.ok ex)
  | .Stopped ex => pure (.ok ex)
  | .Failed err =>
    match service.policies.zipIdx.find? fun (p, _) => p.applies err with
    | some (policy, idx) =>
      match policy.retry with
      | some backoff =>
        match ← retryLoop inner exchange err (some idx) backoff.max_attempts.toNat
            backoff.max_attempts.toNat 0 with
        | .Recovered ex => pure (.ok ex)
        | .Stopped ex => pure (.ok ex)
        | .Exhausted original error _ => service.give_up idx policy original error
      | none => service.give_up idx policy exchange err
    | none =>
      let dlc := if service.dlc_producer then some Producer.dlc else none
      forward_or_propagate (exchange.set_error err) dlc err

end ErrorHandlerService

end camel_processor.error_handler
