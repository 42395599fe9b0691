-- The command handlers of `application/commands.rs`. A handler checks a
-- transition on the aggregate that it loaded, and stores the result in a later
-- call. Both forms of storing are here: with the unit of work, and without it.
import RustCamel.Lifecycle.Ports

namespace camel_core.lifecycle

open camel_api Handler

/-- Which of the optional ports are there. -/
structure CommandDeps where
  uow : Bool := true
  execution : Bool := true
  health_registry : Bool := false

inductive RuntimeCommand where
  | RegisterRoute (spec : CanonicalRouteSpec) (command_id : String) (causation_id : Option String)
  | StartRoute (route_id command_id : String) (causation_id : Option String)
  | StopRoute (route_id command_id : String) (causation_id : Option String)
      (stop_budget : Option Nat)
  | SuspendRoute (route_id command_id : String) (causation_id : Option String)
  | ResumeRoute (route_id command_id : String) (causation_id : Option String)
  | ReloadRoute (route_id command_id : String) (causation_id : Option String)
  | FailRoute (route_id error command_id : String) (causation_id : Option String)
  | RemoveRoute (route_id command_id : String) (causation_id : Option String)
  | ReloadTlsCerts (scheme host : String) (port : Nat) (command_id : String)
      (causation_id : Option String)
  | ReloadTemplates (route_id command_id : String) (causation_id : Option String)

def RuntimeCommand.command_id : RuntimeCommand → String
  | .RegisterRoute _ id _ | .StartRoute _ id _ | .StopRoute _ id _ _ | .SuspendRoute _ id _
  | .ResumeRoute _ id _ | .ReloadRoute _ id _ | .FailRoute _ _ id _ | .RemoveRoute _ id _
  | .ReloadTlsCerts _ _ _ id _ | .ReloadTemplates _ id _ => id

inductive RuntimeCommandResult where
  | Accepted
  | Duplicate (command_id : String)
  | RouteRegistered (route_id : String)
  | RouteStateChanged (route_id status : String)
  | TlsCertsReloaded (scheme host : String) (port : Nat)
  | TemplatesReloaded (route_id : String)

/-! ## Shared parts -/

def is_optimistic_conflict (err : String) : Bool := str_contains err "optimistic lock conflict"

/-- A route that is `Failed` after a conflict was failed by its watcher in the
meantime, and that is no error. -/
def resolve_superseded_conflict (conflict : CamelError) (route_id : String) :
    Handler RuntimeCommandResult := do
  match ← attempt (.load route_id) with
  | .ok (some reloaded) =>
    match reloaded.state with
    | .Failed _ => return .RouteStateChanged route_id "Failed"
    | _ => err conflict
  | _ => err conflict

def upsert_projection_with_reconciliation (status : RouteStatusProjection) :
    Handler (Option String) := do
  match ← attempt (.upsert_status status) with
  | .ok () => return none
  | .error primary_error =>
    match ← attempt (.upsert_status status) with
    | .ok () => return some primary_error.to_string
    | .error reconcile_error =>
      err (.RouteError s!"post-effect reconciliation failed: primary={primary_error.to_string}; reconcile={reconcile_error.to_string}")

/-- The error of a projection that was written on the second try. -/
def reconciled_error (primary_error : String) : CamelError :=
  .RouteError s!"post-effect reconciliation recovered after runtime persistence error: {primary_error}"

/-- The check at the start of both registrations. A route that the last replay
left is adopted once. -/
def adopt_check (route_id : String) : Handler Unit := do
  match ← port (.load route_id) with
  | none => return ()
  | some _ =>
    if ← port (.take_recovered route_id) then return ()
    else err (.of_domain (.AlreadyExists route_id))

variable (deps : CommandDeps)

/-- The first store of `handle_register` and of `register_aggregate_only`. -/
def persist_registered (aggregate : RouteRuntimeAggregate) (events : List RuntimeEvent) :
    Handler Unit := do
  if deps.uow then
    port (.persist_upsert aggregate none (project_from_aggregate aggregate) events)
  else
    port (.save aggregate)
    match ← upsert_projection_with_reconciliation (project_from_aggregate aggregate) with
    | some primary_error =>
      port (.publish events)
      err (reconciled_error primary_error)
    | none => port (.publish events)

/-- The compensation of a runtime operation that failed: the aggregate goes to
`Failed`. An error of it is only logged. -/
def compensate (aggregate : RouteRuntimeAggregate) (expected_version : Nat) (runtime_err : String) :
    Handler Unit := do
  let (aggregate, fail_events) ← of_outcome .of_domain (aggregate.fail runtime_err)
  let fail_proj := project_from_aggregate aggregate
  if deps.uow then
    let _ ← attempt (.persist_upsert aggregate (some expected_version) fail_proj fail_events)
  else
    match ← attempt (.save_if_version aggregate expected_version) with
    | .ok () =>
      let _ ← result (upsert_projection_with_reconciliation fail_proj)
      let _ ← attempt (.publish fail_events)
    | .error _ => return ()

/-- Shared persist flow used by non-Start lifecycle commands. -/
def persist_and_return (aggregate : RouteRuntimeAggregate) (expected_version : Nat)
    (events : List RuntimeEvent) (route_id : String) : Handler RuntimeCommandResult := do
  if events = [] then return .RouteStateChanged route_id aggregate.state_label
  if deps.uow then
    port (.persist_upsert aggregate (some expected_version)
      (project_from_aggregate aggregate) events)
  else
    port (.save_if_version aggregate expected_version)
    let projection_recovered_error ←
      upsert_projection_with_reconciliation (project_from_aggregate aggregate)
    port (.publish events)
    match projection_recovered_error with
    | some primary_error => err (reconciled_error primary_error)
    | none => pure ()
  return .RouteStateChanged route_id aggregate.state_label

/-! ## The runtime side effects -/

def recovery_error (op route_id : String) (first : String) (first_error : DomainError)
    (second : String) (second_error : DomainError) : CamelError :=
  .RouteError s!"runtime execution recovery failed for {op} on route '{route_id}': {first}={first_error.to_string}; {second}={second_error.to_string}"

def apply_runtime_lifecycle (route_id : String) (command : RouteLifecycleCommand)
    (stop_budget : Option Nat) : Handler Unit := do
  match command with
  | .Start =>
    match ← attempt (.execution (.start_route route_id)) with
    | .ok () => return ()
    | .error start_error =>
      match ← attempt (.execution (.resume_route route_id)) with
      | .ok () => return ()
      | .error resume_error =>
        err (recovery_error "Start" route_id "start_error" start_error "resume_error" resume_error)
  | .Stop => port (.execution (.stop_route route_id stop_budget))
  | .Suspend =>
    match ← attempt (.execution (.suspend_route route_id)) with
    | .ok () => return ()
    | .error suspend_error =>
      match ← attempt (.execution (.resume_route route_id)) with
      | .error resume_error =>
        err (recovery_error "Suspend" route_id "suspend_error" suspend_error "resume_error" resume_error)
      | .ok () =>
        match ← attempt (.execution (.suspend_route route_id)) with
        | .ok () => return ()
        | .error retry_error =>
          err (recovery_error "Suspend" route_id "suspend_error" suspend_error "retry_error" retry_error)
  | .Resume =>
    match ← attempt (.execution (.resume_route route_id)) with
    | .ok () => return ()
    | .error resume_error =>
      match ← attempt (.execution (.start_route route_id)) with
      | .ok () => return ()
      | .error start_error =>
        err (recovery_error "Resume" route_id "resume_error" resume_error "start_error" start_error)
  | .Reload => port (.execution (.reload_route route_id))
  | .Fail _ => return ()
  | .Remove => port (.execution (.remove_route route_id))

def remove_runtime_route_with_recovery (route_id : String) : Handler Unit := do
  match ← attempt (.execution (.remove_route route_id)) with
  | .ok () => return ()
  | .error remove_error =>
    if str_contains remove_error.to_string "must be stopped" then
      match ← attempt (.execution (.stop_route route_id none)) with
      | .error stop_error =>
        err (recovery_error "Remove" route_id "remove_error" remove_error "stop_error" stop_error)
      | .ok () =>
        match ← attempt (.execution (.remove_route route_id)) with
        | .ok () => return ()
        | .error retry_error =>
          err (recovery_error "Remove" route_id "remove_error" remove_error "retry_remove_error"
            retry_error)
    else err (.of_domain remove_error)

/-- A side effect of the runtime, when one is connected, and its result. -/
def with_execution (effect : Handler Unit) : Handler (Except CamelError Unit) :=
  if deps.execution then result effect else pure (.ok ())

/-! ## Registration -/

section

variable (spec : CanonicalRouteSpec)

/-- The runtime part of `handle_register`. The conversion comes after the
store, and an error of it returns at once. -/
def install_runtime (aggregate : RouteRuntimeAggregate) : Handler Unit := do
  if deps.execution then
    let route_definition ← of_result (canonical_to_route_definition spec)
    match ← attempt (.execution (.register_route route_definition)) with
    | .ok () => return ()
    | .error runtime_err =>
      compensate deps aggregate aggregate.version runtime_err.to_string
      err (.RouteError s!"runtime registration failed for route '{spec.route_id}': {runtime_err.to_string}")
  else return ()

/-- The part of `handle_register` after the checks: the store comes first. -/
def store_and_install : Handler RuntimeCommandResult := do
  let (aggregate, events) := RouteRuntimeAggregate.register spec.route_id
  persist_registered deps aggregate events
  install_runtime deps spec aggregate
  return .RouteRegistered spec.route_id

def handle_register : Handler RuntimeCommandResult := do
  of_result spec.validate_contract
  adopt_check spec.route_id
  store_and_install deps spec

end

/-- `persist_result` of `handle_register_internal`. Without a unit of work some
errors return at once and skip the rollback. -/
def persist_internal (aggregate : RouteRuntimeAggregate) (events : List RuntimeEvent) :
    Handler (Except CamelError Unit) := do
  if deps.uow then
    result (port (.persist_upsert aggregate none (project_from_aggregate aggregate) events))
  else
    match ← attempt (.save aggregate) with
    | .error error => return .error (.of_domain error)
    | .ok () =>
      match ← upsert_projection_with_reconciliation (project_from_aggregate aggregate) with
      | some primary_error =>
        port (.publish events)
        return .error (reconciled_error primary_error)
      | none => result (port (.publish events))

/-- The rollback of `handle_register_internal`, when the store failed. -/
def rollback_registration (route_id : String) (persist_err : CamelError) :
    Handler RuntimeCommandResult := do
  if deps.execution then
    match ← attempt (.execution (.remove_route route_id)) with
    | .ok () => err persist_err
    | .error rollback_err =>
      err (.RouteError s!"route '{route_id}' registration inconsistency: persist failed ({persist_err.to_string}) and rollback failed ({rollback_err.to_string}) — manual reconciliation required")
  else err persist_err

/-- The part of `handle_register_internal` after the runtime has the route. -/
def store_installed (route_id : String) : Handler RuntimeCommandResult := do
  let (aggregate, events) := RouteRuntimeAggregate.register route_id
  match ← persist_internal deps aggregate events with
  | .ok () => return .RouteRegistered route_id
  | .error persist_err => rollback_registration deps route_id persist_err

def handle_register_internal (definition : RouteDefinition) : Handler RuntimeCommandResult := do
  adopt_check definition.route_id
  if deps.execution then port (.execution (.register_route definition))
  store_installed deps definition.route_id

/-- `RuntimeBus::register_aggregate_only`, after the recovery of the journal. -/
def register_aggregate_only (route_id : String) : Handler Unit := do
  match ← port (.load route_id) with
  | some _ => err (.RouteError s!"route '{route_id}' already registered")
  | none =>
    let (aggregate, events) := RouteRuntimeAggregate.register route_id
    persist_registered deps aggregate events

/-! ## Lifecycle commands -/

def not_found (route_id : String) : CamelError := .RouteError s!"route '{route_id}' not found"

def cannot_start (aggregate : RouteRuntimeAggregate) : CamelError :=
  .RouteError s!"invalid transition: route '{aggregate.route_id}' is in {aggregate.state.debug} state, cannot start"

/-- Phase 1 of a start: the intent is stored. -/
def persist_intent (aggregate : RouteRuntimeAggregate) (expected_version : Nat)
    (intent_events : List RuntimeEvent) : Handler Unit := do
  if deps.uow then
    port (.persist_upsert aggregate (some expected_version) (project_from_aggregate aggregate)
      intent_events)
  else
    port (.save_if_version aggregate expected_version)
    port (.publish intent_events)
    let _ ← upsert_projection_with_reconciliation (project_from_aggregate aggregate)

/-- Phase 2a of a start: the route is stored as started. A conflict may come
from the watcher of the route. -/
def confirm_started (aggregate : RouteRuntimeAggregate) (confirm_events : List RuntimeEvent) :
    Handler RuntimeCommandResult := do
  let route_id := aggregate.route_id
  if confirm_events = [] then return .RouteStateChanged route_id "Started"
  let stored ←
    if deps.uow then
      attempt (.persist_upsert aggregate (some aggregate.version)
        (project_from_aggregate aggregate) confirm_events)
    else attempt (.save_if_version aggregate aggregate.version)
  match stored with
  | .error e =>
    if is_optimistic_conflict e.to_string then resolve_superseded_conflict (.of_domain e) route_id
    else err (.of_domain e)
  | .ok () =>
    if !deps.uow then
      port (.publish confirm_events)
      let _ ← upsert_projection_with_reconciliation (project_from_aggregate aggregate)
    return .RouteStateChanged route_id "Started"

def handle_lifecycle_start (aggregate : RouteRuntimeAggregate) (expected_version : Nat) :
    Handler RuntimeCommandResult := do
  let route_id := aggregate.route_id
  let (aggregate, intent_events) ←
    of_outcome (fun _ => cannot_start aggregate) aggregate.begin_start
  if intent_events = [] then err (cannot_start aggregate)
  else
    persist_intent deps aggregate expected_version intent_events
    match ← with_execution deps (apply_runtime_lifecycle route_id .Start none) with
    | .error runtime_err =>
      compensate deps aggregate aggregate.version runtime_err.to_string
      err (.RouteError s!"runtime start failed for route '{route_id}': {runtime_err.to_string}")
    | .ok () =>
      let (aggregate, confirm_events) ← of_outcome .of_domain aggregate.confirm_start
      confirm_started deps aggregate confirm_events

/-- A `Fail` command has no runtime side effect. -/
def handle_fail (route_id : String) (aggregate : RouteRuntimeAggregate) (error : String) :
    Handler RuntimeCommandResult := do
  let (failed, events) ← of_outcome .of_domain (aggregate.apply_command (.Fail error))
  if deps.health_registry then
    let _ ← attempt (.force_unhealthy_for_route route_id s!"route:{route_id}" s!"route failed: {error}")
  persist_and_return deps failed aggregate.version events route_id

/-- The end of `handle_lifecycle`, when the runtime did its part. -/
def finish_lifecycle (route_id : String) (aggregate : RouteRuntimeAggregate)
    (command : RouteLifecycleCommand) : Handler RuntimeCommandResult := do
  let (changed, events) ← of_outcome .of_domain (aggregate.apply_command command)
  if command = .Resume then
    match ← result (persist_and_return deps changed aggregate.version events route_id) with
    | .ok value => return value
    | .error e =>
      if is_optimistic_conflict e.to_string then resolve_superseded_conflict e route_id
      else err e
  else persist_and_return deps changed aggregate.version events route_id

/-- Stop, suspend, resume and reload. The transition is checked on a copy, and
a command that changes nothing returns before the runtime is called. -/
def handle_runtime_lifecycle (route_id : String) (aggregate : RouteRuntimeAggregate)
    (command : RouteLifecycleCommand) (stop_budget : Option Nat) :
    Handler RuntimeCommandResult := do
  if command = .Reload ∧ !deps.execution then
    err (.RouteError "reload requires connected runtime route controller")
  else
    let (_, validation_events) ← of_outcome .of_domain (aggregate.apply_command command)
    if validation_events = [] then
      return .RouteStateChanged route_id aggregate.state.debug
    match ← with_execution deps (apply_runtime_lifecycle route_id command stop_budget) with
    | .error runtime_err =>
      compensate deps aggregate aggregate.version runtime_err.to_string
      err (.RouteError s!"runtime operation failed for route '{route_id}': {runtime_err.to_string}")
    | .ok () => finish_lifecycle deps route_id aggregate command

def handle_lifecycle (route_id : String) (command : RouteLifecycleCommand)
    (stop_budget : Option Nat) : Handler RuntimeCommandResult := do
  match ← port (.load route_id) with
  | none => err (not_found route_id)
  | some aggregate =>
    match command with
    | .Start => handle_lifecycle_start deps aggregate aggregate.version
    | .Fail error => handle_fail deps route_id aggregate error
    | _ => handle_runtime_lifecycle deps route_id aggregate command stop_budget

/-! ## Removal -/

/-- The end of `handle_remove`. The version that was loaded is not passed on. -/
def finish_remove (route_id : String) (aggregate : RouteRuntimeAggregate) :
    Handler RuntimeCommandResult := do
  let (_, events) ← of_outcome .of_domain (aggregate.apply_command .Remove)
  if deps.uow then
    port (.persist_delete route_id events)
  else
    port (.delete route_id)
    port (.remove_status route_id)
    port (.publish events)
  return .RouteStateChanged route_id "Removed"

def handle_remove (route_id : String) : Handler RuntimeCommandResult := do
  match ← port (.load route_id) with
  | none => err (not_found route_id)
  | some aggregate =>
    let _ ← of_outcome
      (fun e => .RouteError s!"invalid transition for route '{route_id}': {e.to_string}")
      (aggregate.apply_command .Remove)
    match ← with_execution deps (remove_runtime_route_with_recovery route_id) with
    | .error stop_err =>
      compensate deps aggregate aggregate.version stop_err.to_string
      err (.RouteError s!"route '{route_id}' stop failed during removal, state persisted as Failed: {stop_err.to_string}")
    | .ok () => finish_remove deps route_id aggregate

/-! ## Boot reconciliation -/

/-- One route of the loop of `reconcile_transient_states`. -/
def reconcile_route (proj : RouteStatusProjection) : Handler Unit := do
  if proj.status = "Starting" ∨ proj.status = "Stopping" then
    match ← port (.load proj.route_id) with
    | none => return ()
    | some aggregate =>
      let (aggregate, fail_events) ← of_outcome .of_domain
        (aggregate.fail s!"boot reconciliation: interrupted during {proj.status}")
      let fail_proj := project_from_aggregate aggregate
      if deps.uow then port (.persist_upsert aggregate none fail_proj fail_events)
      else
        port (.save aggregate)
        let _ ← result (upsert_projection_with_reconciliation fail_proj)
        let _ ← attempt (.publish fail_events)
  else return ()

def reconcile_routes (deps : CommandDeps) : List RouteStatusProjection → Handler Unit
  | [] => return ()
  | proj :: rest => do
    reconcile_route deps proj
    reconcile_routes deps rest

def reconcile_transient_states : Handler Unit := do
  let statuses ← port .list_statuses
  reconcile_routes deps statuses

/-! ## Dispatch -/

def execute_command (cmd : RuntimeCommand) : Handler RuntimeCommandResult :=
  match cmd with
  | .RegisterRoute spec _ _ => handle_register deps spec
  | .StartRoute route_id _ _ => handle_lifecycle deps route_id .Start none
  | .StopRoute route_id _ _ stop_budget => handle_lifecycle deps route_id .Stop stop_budget
  | .SuspendRoute route_id _ _ => handle_lifecycle deps route_id .Suspend none
  | .ResumeRoute route_id _ _ => handle_lifecycle deps route_id .Resume none
  | .ReloadRoute route_id _ _ => handle_lifecycle deps route_id .Reload none
  | .FailRoute route_id error _ _ => handle_lifecycle deps route_id (.Fail error) none
  | .RemoveRoute route_id _ _ => handle_remove deps route_id
  | .ReloadTlsCerts _ _ _ _ _ =>
    err (.Config "ReloadTlsCerts not handled: should be intercepted in execute()")
  | .ReloadTemplates _ _ _ =>
    err (.Config "ReloadTemplates not handled: should be intercepted in execute()")

end camel_core.lifecycle
