-- The actions of a hot reload: `application/reload.rs` plans them from the runtime
-- snapshot, and `application/reload_actions.rs` applies them through the ports of
-- `RuntimeExecutionHandle`. Each action with functions has a path of its own.
import RustCamel.HotReload.ReloadCommands
import RustCamel.Lifecycle.BusEffects

namespace camel_core.hot_reload

variable {new_definitions : List RouteDefinition}

open camel_core.lifecycle Prog
open camel_api.error (CamelError)

/-! ## Functions -/

structure FunctionDefinition where
  id : String
  runtime : String
  source : String
  timeout_ms : Nat
  route_id : Option String
  step_index : Option Nat

/-- The lists that come out of a hash set are a finite set and a multiset here. -/
structure FunctionDiff where
  added : List (FunctionDefinition × Option String)
  removed : Finset (String × Option String)
  unchanged : Multiset String

structure PrepareToken where
  registered : List (FunctionDefinition × Option String)

/-- The invoker stands behind the calls. -/
structure FunctionReloadContext where
  generation : Nat

/-- The diff of the functions that a route has and of those that are staged for it. -/
def function_diff (current : List (String × Option String))
    (staged_defs : List (FunctionDefinition × Option String)) : FunctionDiff :=
  let current_refs := current.toFinset
  let staged_refs := (staged_defs.map fun staged => (staged.1.id, staged.2)).toFinset
  { added := staged_defs.filter fun staged => (staged.1.id, staged.2) ∈ staged_refs \ current_refs
    removed := current_refs \ staged_refs
    unchanged := (current_refs ∩ staged_refs).val.map Prod.fst }

/-! ## The calls -/

/-- What a compiled pipeline tells a reload: how many handles of stateful steps it has. -/
structure CompiledPipeline where
  lifecycle : Nat

/-- The calls of an action, to the `ReloadExecutorPort` and to the `FunctionInvoker`. -/
inductive ReloadCall where
  | in_flight_count (route_id : String)
  | drain_route (route_id action : String)
  | compile_route_definition_pipeline (definition : RouteDefinition) (generation : Nat)
  | compile_route_definition_dry_pipeline (definition : RouteDefinition)
  | route_has_lifecycle (route_id : String)
  | stop_route_reload (route_id : String)
  | start_route_reload (route_id : String)
  | swap_route_pipeline (route_id : String) (pipeline : CompiledPipeline)
  | swap_route_pipeline_raw (route_id : String) (pipeline : CompiledPipeline)
  | function_refs_for_route (route_id : String)
  | staged_defs_for_route (route_id : String) (generation : Nat)
  | prepare_reload (diff : FunctionDiff) (generation : Nat)
  | finalize_reload (diff : FunctionDiff) (generation : Nat)
  | rollback_reload (token : PrepareToken) (generation : Nat)
  | discard_staging (generation : Nat)
  | prepare_route_definition_with_generation (definition : RouteDefinition) (generation : Nat)
  | insert_prepared_route (prepared : PreparedRoute)
  | discard_prepared_staging (route_id : String)
  | remove_route_preserving_functions (route_id : String)
  | register_route_aggregate (route_id : String)
  | add_route_definition (definition : RouteDefinition)
  | runtime_route_status (route_id : String)
  | next_reload_command_id (op route_id : String)
  | execute_runtime_command (cmd : RuntimeCommand)

/-- An error of the invoker stands as its text, and one of the bus as the bus builds it. -/
@[reducible] def ReloadAnswer : ReloadCall → Type
  | .in_flight_count _ => Except CamelError Nat
  | .drain_route _ _ | .discard_staging _ => Unit
  | .compile_route_definition_pipeline _ _ | .compile_route_definition_dry_pipeline _ =>
    Except CamelError CompiledPipeline
  | .route_has_lifecycle _ => Bool
  | .stop_route_reload _ | .start_route_reload _ | .swap_route_pipeline _ _
  | .swap_route_pipeline_raw _ _ | .insert_prepared_route _ | .discard_prepared_staging _
  | .remove_route_preserving_functions _ => Except CamelError Unit
  | .function_refs_for_route _ => List (String × Option String)
  | .staged_defs_for_route _ _ => List (FunctionDefinition × Option String)
  | .prepare_reload _ _ => Except String PrepareToken
  | .finalize_reload _ _ | .rollback_reload _ _ => Except String Unit
  | .prepare_route_definition_with_generation _ _ => Except CamelError PreparedRoute
  | .register_route_aggregate _ | .add_route_definition _ => Except camel_api.CamelError Unit
  | .runtime_route_status _ => Except camel_api.CamelError (Option String)
  | .next_reload_command_id _ _ => String
  | .execute_runtime_command _ => Except camel_api.CamelError RuntimeCommandResult

abbrev ReloadProg (α : Type) := Prog ReloadCall ReloadAnswer α

/-- A call with `.await`, and its answer. -/
abbrev request (c : ReloadCall) : ReloadProg (ReloadAnswer c) := ask c

structure ReloadError where
  route_id : String
  action : String
  error : CamelError

def of_bus : camel_api.CamelError → CamelError
  | .RouteError msg => .RouteError msg
  | .Config msg => .Config msg
  | .ConfigValidation error => .ConfigValidation error.to_string

/-! ## Shared helpers -/

def compute_function_diff_for_route (route_id : String) (generation : Nat) :
    ReloadProg FunctionDiff := do
  let current ← request (.function_refs_for_route route_id)
  let staged_defs ← request (.staged_defs_for_route route_id generation)
  return function_diff current staged_defs

def is_invalid_stop_transition (err : camel_api.CamelError) : Bool :=
  str_contains err.to_string "invalid transition"

def should_stop_before_mutation (runtime_status : Option String) : Bool :=
  !(runtime_status = some "Registered" ∨ runtime_status = some "Stopped")

def should_start_after_restart (runtime_status : Option String) : Bool :=
  !(runtime_status = some "Registered" ∨ runtime_status = some "Stopped")

/-- `position` and `remove`: the first definition of the route. -/
def find_definition (new_definitions : List RouteDefinition) (route_id : String) :
    Option RouteDefinition :=
  new_definitions.find? fun definition => definition.route_id = route_id

theorem find_definition_route_id {route_id : String} {definition : RouteDefinition}
    (h : find_definition new_definitions route_id = some definition) :
    definition.route_id = route_id := by
  simpa using List.find?_some h

def no_definition (action route_id : String) : ReloadError :=
  ⟨route_id, action, .RouteError s!"No definition found for route '{route_id}'"⟩

/-- The query of the status and the stop, as they stand in all four paths of `apply_remove` and
`apply_restart`. A path that has prepared functions rolls them back when one of the two fails. -/
def stop_for_mutation (op action : String) (route_id : String) (rollback : ReloadProg Unit) :
    ReloadProg (Except ReloadError (Option String)) := do
  match ← request (.runtime_route_status route_id) with
  | .error e =>
    rollback
    return .error ⟨route_id, s!"{action} (status)", of_bus e⟩
  | .ok runtime_status =>
    if should_stop_before_mutation runtime_status then
      let command_id ← request (.next_reload_command_id s!"{op}-stop" route_id)
      match ← request (.execute_runtime_command (.StopRoute route_id command_id none none)) with
      | .error e =>
        if is_invalid_stop_transition e then
          request (.drain_route route_id op)
          return .ok runtime_status
        else
          rollback
          return .error ⟨route_id, s!"{action} (stop)", of_bus e⟩
      | .ok _ =>
        request (.drain_route route_id op)
        return .ok runtime_status
    else return .ok runtime_status

/-- The start at the end of an add and of a restart. -/
def start_after (op action : String) (route_id : String) : ReloadProg (List ReloadError) := do
  let command_id ← request (.next_reload_command_id s!"{op}-start" route_id)
  match ← request (.execute_runtime_command (.StartRoute route_id command_id none)) with
  | .error e => return [⟨route_id, s!"{action} (start)", of_bus e⟩]
  | .ok _ => return []

/-- The functions of the new route are committed. An error of it is only reported. -/
def finalize_functions (ctx : FunctionReloadContext) (action : String) (route_id : String)
    (diff : FunctionDiff) : ReloadProg (List ReloadError) := do
  match ← request (.finalize_reload diff ctx.generation) with
  | .error e => return [⟨route_id, action, .ProcessorError e⟩]
  | .ok () => return []

/-! ## Swap -/

section

variable (function_ctx : Option FunctionReloadContext)

/-- Only when functions were prepared. An error of it is only logged. -/
def rollback_staging (prepare_token : Option PrepareToken) : ReloadProg Unit := do
  match function_ctx, prepare_token with
  | some ctx, some token =>
    let _ ← request (.rollback_reload token ctx.generation)
  | _, _ => return ()

/-- The functions of a swap are prepared, when there is a context. -/
def prepare_swap (route_id : String) :
    ReloadProg (Except ReloadError (Option PrepareToken × Option FunctionDiff)) := do
  match function_ctx with
  | none => return .ok (none, none)
  | some ctx =>
    let diff ← compute_function_diff_for_route route_id ctx.generation
    match ← request (.prepare_reload diff ctx.generation) with
    | .ok token => return .ok (some token, some diff)
    | .error e => return .error ⟨route_id, "Swap (prepare)", .ProcessorError e⟩

/-- The end of a swap that succeeded. -/
def commit_swap (function_diff : Option FunctionDiff) (action route_id : String) :
    ReloadProg (List ReloadError) :=
  match function_ctx, function_diff with
  | some ctx, some diff => finalize_functions ctx action route_id diff
  | _, _ => return []

/-- A route with stateful steps is stopped, gets its new pipeline and is started again. -/
def swap_by_restart (prepare_token : Option PrepareToken) (function_diff : Option FunctionDiff)
    (route_id : String) (pipeline : CompiledPipeline) : ReloadProg (List ReloadError) := do
  match ← request (.stop_route_reload route_id) with
  | .error stop_err =>
    rollback_staging function_ctx prepare_token
    return [⟨route_id, "Swap (restart-stop)", stop_err⟩]
  | .ok () =>
    request (.drain_route route_id "swap-restart")
    match ← request (.swap_route_pipeline_raw route_id pipeline) with
    | .error swap_err =>
      rollback_staging function_ctx prepare_token
      return [⟨route_id, "Swap (restart-raw)", swap_err⟩]
    | .ok () =>
      match ← request (.start_route_reload route_id) with
      | .error start_err =>
        rollback_staging function_ctx prepare_token
        return [⟨route_id, "Swap (restart-start)", start_err⟩]
      | .ok () => commit_swap function_ctx function_diff "Swap (restart-finalize)" route_id

/-- The part of a swap after the compilation. -/
def swap_compiled (route_id : String) (pipeline : CompiledPipeline) :
    ReloadProg (List ReloadError) := do
  match ← prepare_swap function_ctx route_id with
  | .error e => return [e]
  | .ok (prepare_token, function_diff) =>
    let running_has_lifecycle ← request (.route_has_lifecycle route_id)
    if running_has_lifecycle ∨ pipeline.lifecycle ≠ 0 then
      swap_by_restart function_ctx prepare_token function_diff route_id pipeline
    else
      match ← request (.swap_route_pipeline route_id pipeline) with
      | .error e =>
        rollback_staging function_ctx prepare_token
        return [⟨route_id, "Swap", e⟩]
      | .ok () => commit_swap function_ctx function_diff "Finalize" route_id

def apply_swap (route_id : String) (new_definitions : List RouteDefinition) :
    ReloadProg (List ReloadError) := do
  match find_definition new_definitions route_id with
  | none => return [no_definition "Swap" route_id]
  | some definition =>
    let _ ← request (.in_flight_count route_id)
    let compiled ← match function_ctx with
      | some ctx => request (.compile_route_definition_pipeline definition ctx.generation)
      | none => request (.compile_route_definition_dry_pipeline definition)
    match compiled with
    | .error e => return [⟨route_id, "Swap (compile)", e⟩]
    | .ok pipeline => swap_compiled function_ctx route_id pipeline

/-! ## Add -/

def add_prepared (ctx : FunctionReloadContext) (route_id : String) (prepared : PreparedRoute) :
    ReloadProg (List ReloadError) := do
  let diff ← compute_function_diff_for_route route_id ctx.generation
  match ← request (.prepare_reload diff ctx.generation) with
  | .error e =>
    request (.discard_staging ctx.generation)
    return [⟨route_id, "Add (prepare)", .ProcessorError e⟩]
  | .ok prepare_token =>
    match ← request (.insert_prepared_route prepared) with
    | .error e =>
      let _ ← request (.discard_prepared_staging route_id)
      let _ ← request (.rollback_reload prepare_token ctx.generation)
      return [⟨route_id, "Add (insert)", e⟩]
    | .ok () =>
      match ← request (.register_route_aggregate route_id) with
      | .error e =>
        let _ ← request (.remove_route_preserving_functions route_id)
        let _ ← request (.rollback_reload prepare_token ctx.generation)
        return [⟨route_id, "Add (aggregate)", of_bus e⟩]
      | .ok () =>
        let diff ← compute_function_diff_for_route route_id ctx.generation
        let errors ← finalize_functions ctx "Finalize" route_id diff
        return errors ++ (← start_after "add" "Add" route_id)

def add_with_functions (ctx : FunctionReloadContext) (route_id : String)
    (definition : RouteDefinition) : ReloadProg (List ReloadError) := do
  match ← request (.prepare_route_definition_with_generation definition ctx.generation) with
  | .error e =>
    request (.discard_staging ctx.generation)
    return [⟨route_id, "Add (prepare-route)", e⟩]
  | .ok prepared => add_prepared ctx route_id prepared

def add_plain (route_id : String) (definition : RouteDefinition) :
    ReloadProg (List ReloadError) := do
  match ← request (.add_route_definition definition) with
  | .error e => return [⟨route_id, "Add", of_bus e⟩]
  | .ok () => start_after "add" "Add" route_id

def apply_add (route_id : String) (new_definitions : List RouteDefinition) :
    ReloadProg (List ReloadError) :=
  match find_definition new_definitions route_id with
  | none => return [no_definition "Add" route_id]
  | some definition =>
    match function_ctx with
    | some ctx => add_with_functions ctx route_id definition
    | none => add_plain route_id definition

/-! ## Remove -/

/-- With functions the controller alone loses the route. -/
def remove_with_functions (ctx : FunctionReloadContext) (route_id : String) :
    ReloadProg (List ReloadError) := do
  let diff ← compute_function_diff_for_route route_id ctx.generation
  match ← stop_for_mutation "remove" "Remove" route_id (return ()) with
  | .error e => return [e]
  | .ok _ =>
    match ← request (.remove_route_preserving_functions route_id) with
    | .error e => return [⟨route_id, "Remove", e⟩]
    | .ok () => finalize_functions ctx "Finalize" route_id diff

def remove_plain (route_id : String) : ReloadProg (List ReloadError) := do
  match ← stop_for_mutation "remove" "Remove" route_id (return ()) with
  | .error e => return [e]
  | .ok _ =>
    let command_id ← request (.next_reload_command_id "remove" route_id)
    match ← request (.execute_runtime_command (.RemoveRoute route_id command_id none)) with
    | .error e => return [⟨route_id, "Remove", of_bus e⟩]
    | .ok _ => return []

def apply_remove (route_id : String) : ReloadProg (List ReloadError) :=
  match function_ctx with
  | some ctx => remove_with_functions ctx route_id
  | none => remove_plain route_id

/-! ## Restart -/

def start_again (runtime_status : Option String) (route_id : String) :
    ReloadProg (List ReloadError) :=
  if should_start_after_restart runtime_status then start_after "restart" "Restart" route_id
  else return []

def restart_prepared (ctx : FunctionReloadContext) (route_id : String) (prepared : PreparedRoute)
    (prepare_token : PrepareToken) : ReloadProg (List ReloadError) := do
  let rollback : ReloadProg Unit := do
    let _ ← request (.rollback_reload prepare_token ctx.generation)
  match ← stop_for_mutation "restart" "Restart" route_id rollback with
  | .error e => return [e]
  | .ok runtime_status =>
    match ← request (.remove_route_preserving_functions route_id) with
    | .error e =>
      rollback
      return [⟨route_id, "Restart (remove)", e⟩]
    | .ok () =>
      match ← request (.insert_prepared_route prepared) with
      | .error e =>
        let _ ← request (.discard_prepared_staging route_id)
        rollback
        return [⟨route_id, "Restart (insert)", e⟩]
      | .ok () =>
        let diff ← compute_function_diff_for_route route_id ctx.generation
        let errors ← finalize_functions ctx "Finalize" route_id diff
        return errors ++ (← start_again runtime_status route_id)

def restart_with_functions (ctx : FunctionReloadContext) (route_id : String)
    (definition : RouteDefinition) : ReloadProg (List ReloadError) := do
  match ← request (.prepare_route_definition_with_generation definition ctx.generation) with
  | .error e => return [⟨route_id, "Restart (prepare-route)", e⟩]
  | .ok prepared =>
    let diff ← compute_function_diff_for_route route_id ctx.generation
    match ← request (.prepare_reload diff ctx.generation) with
    | .error e => return [⟨route_id, "Restart (prepare)", .ProcessorError e⟩]
    | .ok prepare_token => restart_prepared ctx route_id prepared prepare_token

/-- Without functions the route is removed by a command, and the new one is added after it. -/
def restart_plain (route_id : String) (definition : RouteDefinition) :
    ReloadProg (List ReloadError) := do
  match ← stop_for_mutation "restart" "Restart" route_id (return ()) with
  | .error e => return [e]
  | .ok runtime_status =>
    let command_id ← request (.next_reload_command_id "restart-remove" route_id)
    match ← request (.execute_runtime_command (.RemoveRoute route_id command_id none)) with
    | .error e => return [⟨route_id, "Restart (remove)", of_bus e⟩]
    | .ok _ =>
      match ← request (.add_route_definition definition) with
      | .error e => return [⟨route_id, "Restart (add)", of_bus e⟩]
      | .ok () => start_again runtime_status route_id

def apply_restart (route_id : String) (new_definitions : List RouteDefinition) :
    ReloadProg (List ReloadError) :=
  match find_definition new_definitions route_id with
  | none => return [no_definition "Restart" route_id]
  | some definition =>
    match function_ctx with
    | some ctx => restart_with_functions ctx route_id definition
    | none => restart_plain route_id definition

end

/-! ## The plan, and its execution -/

namespace domain

inductive ReloadAction where
  | Swap (route_id : String)
  | Restart (route_id : String)
  | Add (route_id : String)
  | Remove (route_id : String)
  | Skip (route_id : String)
  deriving DecidableEq

def ReloadAction.route_id : ReloadAction → String
  | .Swap id | .Restart id | .Add id | .Remove id | .Skip id => id

end domain

/-- What is planned for one of the new definitions. -/
def plan_definition (source_hash : RouteDefinition → Option Nat) (active_ids : Finset String)
    (runtime_source_hash : String → Option Nat) (definition : RouteDefinition) :
    domain.ReloadAction :=
  if definition.route_id ∈ active_ids then
    match runtime_source_hash definition.route_id, source_hash definition with
    | some h_existing, some h_new =>
      if h_existing = h_new then .Skip definition.route_id else .Restart definition.route_id
    | _, _ => .Restart definition.route_id
  else .Add definition.route_id

/-- The removals come in the order in which the hash set gives its ids. -/
def compute_reload_actions_from_runtime_snapshot (source_hash : RouteDefinition → Option Nat)
    (order : IterOrder) (new_definitions : List RouteDefinition) (runtime_route_ids : List String)
    (runtime_source_hash : String → Option Nat) : List domain.ReloadAction :=
  let active_ids := runtime_route_ids.toFinset
  let new_ids := (new_definitions.map RouteDefinition.route_id).toFinset
  new_definitions.map (plan_definition source_hash active_ids runtime_source_hash) ++
    ((order.walk active_ids).filter fun id => id ∉ new_ids).map .Remove

def apply_action (function_ctx : Option FunctionReloadContext)
    (new_definitions : List RouteDefinition) : domain.ReloadAction → ReloadProg (List ReloadError)
  | .Swap route_id => apply_swap function_ctx route_id new_definitions
  | .Add route_id => apply_add function_ctx route_id new_definitions
  | .Remove route_id => apply_remove function_ctx route_id
  | .Restart route_id => apply_restart function_ctx route_id new_definitions
  | .Skip _ => return []

/-- The definitions that an action leaves for those after it. -/
def remaining (new_definitions : List RouteDefinition) : domain.ReloadAction → List RouteDefinition
  | .Swap route_id | .Add route_id | .Restart route_id =>
    new_definitions.eraseP fun definition => definition.route_id = route_id
  | .Remove _ | .Skip _ => new_definitions

def execute_reload_actions (function_ctx : Option FunctionReloadContext) :
    List domain.ReloadAction → List RouteDefinition → ReloadProg (List ReloadError)
  | [], _ => return []
  | action :: actions, new_definitions => do
    let errors ← apply_action function_ctx new_definitions action
    let rest ← execute_reload_actions function_ctx actions (remaining new_definitions action)
    return errors ++ rest

/-! ## What the calls do -/

/-- The bus over the controller, and the counter of the command ids. -/
structure ReloadState where
  bus : RuntimeBus DefaultRouteController
  command_seq : UInt64

namespace ReloadState

variable (self : ReloadState)

def controller : DefaultRouteController := self.bus.world.runtime

def withController (controller : DefaultRouteController) : ReloadState :=
  { self with bus.world.runtime := controller }

end ReloadState

section

variable (health_registry : Bool)

/-- The ports of a context: there is a unit of work, and the controller is connected. -/
def contextDeps : CommandDeps := { health_registry }

/-- A missing route is no error of `runtime_route_status`. -/
def status_of_error : camel_api.CamelError → Except camel_api.CamelError (Option String)
  | .RouteError msg =>
    if str_contains msg "not found" then .ok none else .error (.RouteError msg)
  | other => .error other

/-- `RuntimeQuery::GetRouteStatus`, through the bus that reads its journal first. -/
def runtime_route_status (env : JournalEnv) (order : IterOrder) (route_id : String)
    (bus : RuntimeBus DefaultRouteController) :
    Except camel_api.CamelError (Option String) × RuntimeBus DefaultRouteController :=
  match bus.ensure_journal_recovered env order with
  | (.error e, bus) => (status_of_error (.of_domain e), bus)
  | (.ok (), bus) =>
    match bus.world.store.inner.statuses.lookup route_id with
    | none => (status_of_error (.RouteError s!"route '{route_id}' not found"), bus)
    | some status => (.ok (some status.status), bus)

/-- A call of the bus that returns. A panic of it unwinds the action as well, so no action goes
on after one. -/
def BusReturns (p : BusProg) (s : ReloadState)
    (r : Except camel_api.CamelError RuntimeCommandResult) (ports : PortLog) (t : ReloadState) :
    Prop :=
  Runs awaitedSem p (s.bus, []) (some (r.mapError .err)) (t.bus, ports) ∧
    t.command_seq = s.command_seq

/-- What the calls of an action do, with the calls of the ports behind them. What compiles,
starts, stops or swaps a pipeline answers as it likes, and so does the invoker. -/
def reloadSem : (c : ReloadCall) → ReloadState → ReloadAnswer c → PortLog → ReloadState → Prop
  | .prepare_route_definition_with_generation definition _, s, r, ports, t =>
    ∃ built, (r, t) =
      ((s.controller.prepare_route_definition_with_generation built definition).1,
        s.withController
          (s.controller.prepare_route_definition_with_generation built definition).2) ∧ ports = []
  | .insert_prepared_route prepared, s, r, ports, t =>
    (r, t) = ((s.controller.insert_prepared_route prepared).1,
      s.withController (s.controller.insert_prepared_route prepared).2) ∧ ports = []
  | .discard_prepared_staging route_id, s, r, ports, t =>
    (r, t) = (.ok (), s.withController (s.controller.discard_prepared_staging route_id)) ∧
      ports = []
  | .remove_route_preserving_functions route_id, s, r, ports, t =>
    ∃ refusal, (r, t) =
      ((s.controller.remove_route_preserving_functions refusal route_id).1,
        s.withController
          (s.controller.remove_route_preserving_functions refusal route_id).2) ∧ ports = []
  | .register_route_aggregate route_id, s, r, ports, t =>
    ∃ result, BusReturns (RuntimeBus.register_aggregate_only (contextDeps health_registry) route_id)
      s result ports t ∧ r = result.map fun _ => ()
  | .add_route_definition definition, s, r, ports, t =>
    ∃ result, BusReturns (RuntimeBus.register_route (contextDeps health_registry) definition)
      s result ports t ∧ r = result.map fun _ => ()
  | .execute_runtime_command cmd, s, r, ports, t =>
    BusReturns (execute (contextDeps health_registry) cmd) s r ports t
  | .runtime_route_status route_id, s, r, ports, t =>
    ∃ env order, (r, t.bus) = runtime_route_status env order route_id s.bus ∧
      t.command_seq = s.command_seq ∧ ports = []
  | .next_reload_command_id op route_id, s, r, ports, t =>
    (r, t) = ((next_reload_command_id op route_id s.command_seq).1,
      { s with command_seq := (next_reload_command_id op route_id s.command_seq).2 }) ∧ ports = []
  | _, s, _, ports, t => t = s ∧ ports = []

/-- A call that an action made, its answer, and the calls of the ports behind it. -/
structure Step where
  call : ReloadCall
  answer : ReloadAnswer call
  ports : PortLog

/-- The calls of an action, with all the steps so far. -/
def tracedSem : Sem ReloadCall ReloadAnswer (ReloadState × List Step) :=
  fun c x r y => ∃ ports, reloadSem health_registry c x.1 r ports y.1 ∧ y.2 = x.2 ++ [⟨c, r, ports⟩]

def Applies (function_ctx : Option FunctionReloadContext) (new_definitions : List RouteDefinition)
    (action : domain.ReloadAction) (s : ReloadState) (errors : List ReloadError)
    (steps : List Step) (t : ReloadState) : Prop :=
  Runs (tracedSem health_registry) (apply_action function_ctx new_definitions action) (s, []) errors
    (t, steps)

end

/-! ## Runs on a script -/

/-- The answers of the runs below, when all goes well. -/
def fine : (c : ReloadCall) → ReloadAnswer c
  | .in_flight_count _ => .ok 0
  | .drain_route _ _ | .discard_staging _ => ()
  | .compile_route_definition_pipeline _ _ | .compile_route_definition_dry_pipeline _ => .ok ⟨0⟩
  | .route_has_lifecycle _ => false
  | .stop_route_reload _ | .start_route_reload _ | .swap_route_pipeline _ _
  | .swap_route_pipeline_raw _ _ | .insert_prepared_route _ | .discard_prepared_staging _
  | .remove_route_preserving_functions _ => .ok ()
  | .function_refs_for_route _ | .staged_defs_for_route _ _ => []
  | .prepare_reload _ _ => .ok ⟨[]⟩
  | .finalize_reload _ _ | .rollback_reload _ _ => .ok ()
  | .prepare_route_definition_with_generation definition _ => .ok ⟨definition.route_id⟩
  | .register_route_aggregate _ | .add_route_definition _ => .ok ()
  | .runtime_route_status _ => .ok none
  | .next_reload_command_id _ _ => ""
  | .execute_runtime_command _ => .ok .Accepted

section

variable (built : Except CamelError Unit)

/-- The runtime as a function: it removes what it is asked to, and builds as the script says. -/
def controllerFn : (c : BusCall) →
    RuntimeBus DefaultRouteController → BusAnswer c × RuntimeBus DefaultRouteController
  | .port (.execution (.register_route definition)), bus =>
    (some ((bus.world.runtime.add_route built definition).1.mapError to_domain),
      { bus with world.runtime := (bus.world.runtime.add_route built definition).2 })
  | .port (.execution (.remove_route route_id)), bus =>
    (some ((bus.world.runtime.remove_route none route_id).1.mapError to_domain),
      { bus with world.runtime := (bus.world.runtime.remove_route none route_id).2 })
  | c, bus => busFn {} c bus

/-- The bus with its log, as a function. -/
def recordedFn (c : BusCall) (x : BusState) : BusAnswer c × BusState :=
  let answer := (controllerFn built c x.1).1
  (answer, (controllerFn built c x.1).2, x.2 ++ [⟨c, answer⟩])

theorem awaitedSem_recordedFn (c : BusCall) (x : BusState) :
    awaitedSem c x (recordedFn built c x).1 (recordedFn built c x).2 := by
  have ho : ∀ c, controllerFn built c x.1 = busFn {} c x.1 →
      (busFn {} c x.1).1.isSome ∧ busSem controllerSem c x.1 (busFn {} c x.1).1
        (busFn {} c x.1).2 → awaitedSem c x (recordedFn built c x).1 (recordedFn built c x).2 := by
    intro c heq hs
    unfold awaitedSem recorded recordedFn
    rw [heq]
    exact ⟨hs.1, hs.2, rfl⟩
  cases c with
  | reload_tls | reload_templates => exact ho _ rfl ⟨rfl, rfl⟩
  | ensure_journal_recovered => exact ho _ rfl ⟨rfl, _, _, rfl⟩
  | first_seen | forget_seen => exact ho _ rfl ⟨rfl, _, rfl⟩
  | port c =>
    cases c with
    | execution op =>
      cases op with
      | register_route => exact ⟨rfl, ⟨⟨⟨built, rfl⟩, rfl⟩, rfl⟩, rfl⟩
      | remove_route => exact ⟨rfl, ⟨⟨⟨none, rfl⟩, rfl⟩, rfl⟩, rfl⟩
      | _ => exact ho _ rfl ⟨rfl, ⟨rfl, rfl⟩, rfl⟩
    | list_statuses => exact ho _ rfl ⟨rfl, ⟨_, rfl, coe_list_statuses _, rfl⟩, rfl⟩
    | publish | persist_upsert | persist_delete => exact ho _ rfl ⟨rfl, ⟨_, rfl⟩, rfl⟩
    | save_if_version | take_recovered => exact ho _ rfl ⟨rfl, rfl, rfl⟩
    | _ => exact ho _ rfl ⟨rfl, ⟨rfl, rfl⟩, rfl⟩

/-- What a call of the bus has come to. A call that was dropped, or that panicked, has not
returned. -/
def returned : Option (Outcome camel_api.CamelError RuntimeCommandResult) →
    Option (Except camel_api.CamelError RuntimeCommandResult)
  | some (.ok result) => some (.ok result)
  | some (.error (.err e)) => some (.error e)
  | _ => none

/-- A call of the bus on a script, with the ports behind it. -/
def busRun (p : BusProg) (s : ReloadState) :
    Option (Except camel_api.CamelError RuntimeCommandResult) × ReloadState × PortLog :=
  let ended := eval (recordedFn built) p (s.bus, [])
  (returned ended.1, { s with bus := ended.2.1 }, ended.2.2)

end

variable {s : ReloadState}

theorem busReturns_busRun {built : Except CamelError Unit} {p : BusProg}
    {r : Except camel_api.CamelError RuntimeCommandResult} (h : (busRun built p s).1 = some r) :
    BusReturns p s r (busRun built p s).2.2 (busRun built p s).2.1 := by
  refine ⟨?_, rfl⟩
  have hr := runs_eval (awaitedSem_recordedFn built) p (s.bus, [])
  have he : (eval (recordedFn built) p (s.bus, [])).1 = some (r.mapError .err) := by
    change returned (eval (recordedFn built) p (s.bus, [])).1 = some r at h
    unfold returned at h
    split at h
    · rename_i ho
      cases h
      exact ho
    · rename_i her
      cases h
      exact her
    · cases h
  rw [he] at hr
  exact hr

def timerRoute (route_id : String) : RouteDefinition :=
  { from_uri := "timer:tick", steps := [], route_id }

/-- A context whose store is empty and whose controller has such routes. -/
def contextWith (routes : Finmap (fun _ : String => RouteDefinition)) : ReloadState :=
  ⟨⟨⟨⟨.default, none⟩, ⟨routes, ∅⟩⟩, some 0⟩, 0⟩

/-- The route is registered, in the controller and in the store. -/
def registeredContext (route_id : String) : ReloadState :=
  (busRun (.ok ()) (RuntimeBus.register_route (contextDeps false) (timerRoute route_id))
    (contextWith ∅)).2.1

/-- What the runs below are given: the result of a build, and the answers that are free. -/
structure Script where
  built : Except CamelError Unit := .ok ()
  free : (c : ReloadCall) → ReloadAnswer c := fine

variable (script : Script)

/-- The calls of an action on a script, with the ports behind them. -/
def Script.reloadFn : (c : ReloadCall) → ReloadState → ReloadAnswer c × ReloadState × PortLog
  | .prepare_route_definition_with_generation definition _, s =>
    let prepared := s.controller.prepare_route_definition_with_generation script.built definition
    (prepared.1, s.withController prepared.2, [])
  | .insert_prepared_route prepared, s =>
    let inserted := s.controller.insert_prepared_route prepared
    (inserted.1, s.withController inserted.2, [])
  | .discard_prepared_staging route_id, s =>
    (.ok (), s.withController (s.controller.discard_prepared_staging route_id), [])
  | .remove_route_preserving_functions route_id, s =>
    let removed := s.controller.remove_route_preserving_functions none route_id
    (removed.1, s.withController removed.2, [])
  | .register_route_aggregate route_id, s =>
    let ran := busRun script.built
      (RuntimeBus.register_aggregate_only (contextDeps false) route_id) s
    ((ran.1.getD (.ok .Accepted)).map fun _ => (), ran.2)
  | .add_route_definition definition, s =>
    let ran := busRun script.built (RuntimeBus.register_route (contextDeps false) definition) s
    ((ran.1.getD (.ok .Accepted)).map fun _ => (), ran.2)
  | .execute_runtime_command cmd, s =>
    let ran := busRun script.built (execute (contextDeps false) cmd) s
    (ran.1.getD (.ok .Accepted), ran.2)
  | .runtime_route_status route_id, s =>
    let queried := runtime_route_status {} sortedOrder route_id s.bus
    (queried.1, { s with bus := queried.2 }, [])
  | .next_reload_command_id op route_id, s =>
    let next := next_reload_command_id op route_id s.command_seq
    (next.1, { s with command_seq := next.2 }, [])
  | c, s => (script.free c, s, [])

def Script.Returns : ReloadCall → ReloadState → Bool
  | .register_route_aggregate route_id, s =>
    (busRun script.built (RuntimeBus.register_aggregate_only (contextDeps false) route_id)
      s).1.isSome
  | .add_route_definition definition, s =>
    (busRun script.built (RuntimeBus.register_route (contextDeps false) definition) s).1.isSome
  | .execute_runtime_command cmd, s =>
    (busRun script.built (execute (contextDeps false) cmd) s).1.isSome
  | _, _ => true

theorem reloadSem_reloadFn {c : ReloadCall} (h : script.Returns c s = true) :
    reloadSem false c s (script.reloadFn c s).1 (script.reloadFn c s).2.2
      (script.reloadFn c s).2.1 := by
  have hb : ∀ {p : BusProg}, (busRun script.built p s).1.isSome →
      BusReturns p s ((busRun script.built p s).1.getD (.ok .Accepted))
        (busRun script.built p s).2.2 (busRun script.built p s).2.1 := by
    intro p hs
    obtain ⟨r, hr⟩ := Option.isSome_iff_exists.mp hs
    rw [hr]
    exact busReturns_busRun hr
  cases c with
  | prepare_route_definition_with_generation => exact ⟨script.built, rfl, rfl⟩
  | insert_prepared_route | discard_prepared_staging => exact ⟨rfl, rfl⟩
  | remove_route_preserving_functions => exact ⟨none, rfl, rfl⟩
  | register_route_aggregate | add_route_definition => exact ⟨_, hb h, rfl⟩
  | execute_runtime_command => exact hb h
  | runtime_route_status => exact ⟨{}, sortedOrder, rfl, rfl, rfl⟩
  | _ => exact ⟨rfl, rfl⟩

def Script.tracedFn (c : ReloadCall) (x : ReloadState × List Step) :
    ReloadAnswer c × ReloadState × List Step :=
  let called := script.reloadFn c x.1
  (called.1, called.2.1, x.2 ++ [⟨c, called.1, called.2.2⟩])

abbrev Script.Completes (script : Script) (function_ctx : Option FunctionReloadContext)
    (new_definitions : List RouteDefinition) (action : domain.ReloadAction) (s : ReloadState) :
    Prop :=
  Allows (fun c x _ _ => script.Returns c x.1 = true) script.tracedFn
    (apply_action function_ctx new_definitions action) (s, [])

def Script.apply (function_ctx : Option FunctionReloadContext)
    (new_definitions : List RouteDefinition) (action : domain.ReloadAction) (s : ReloadState) :
    List ReloadError × ReloadState × List Step :=
  eval script.tracedFn (apply_action function_ctx new_definitions action) (s, [])

theorem Script.applies {script : Script} {function_ctx : Option FunctionReloadContext}
    {action : domain.ReloadAction} (h : script.Completes function_ctx new_definitions action s) :
    Applies false function_ctx new_definitions action s
      (script.apply function_ctx new_definitions action s).1
      (script.apply function_ctx new_definitions action s).2.2
      (script.apply function_ctx new_definitions action s).2.1 := by
  apply runs_eval_of_allows
  refine h.mono ?_
  intro c x hr
  exact ⟨_, reloadSem_reloadFn script hr, rfl⟩

end camel_core.hot_reload
