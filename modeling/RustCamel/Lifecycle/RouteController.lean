-- The route controller of `adapters/route_controller.rs` and `adapters/route_staging.rs`,
-- as the runtime behind the bus: the routes, and the routes that a reload has
-- prepared but not inserted. Of a managed route only its definition stands here.
import RustCamel.Lifecycle.RuntimeBus

open Finmap

namespace camel_core.lifecycle

open camel_api.error (CamelError)

structure DefaultRouteController where
  routes : Finmap (fun _ : String => RouteDefinition)
  prepared_staging : Finmap (fun _ : String => RouteDefinition)

/-- What a preparation hands out: the key of its staged route. -/
structure PreparedRoute where
  route_id : String

/-- Why a removal is refused: the actor restarts the route, or a task of it still runs. -/
inductive Refusal where
  | restarting
  | running (execution_lifecycle : String)

variable {r : Except CamelError Unit} {built : Except CamelError Unit}
  {definition : RouteDefinition}

namespace DefaultRouteController

/-! ## Routes -/

/-- `built` is the result of the build, of the late gate and of the commit of the functions. -/
def add_route (built : Except CamelError Unit) (definition : RouteDefinition)
    (self : DefaultRouteController) : Except CamelError Unit × DefaultRouteController :=
  if definition.route_id ∈ self.routes then
    (.error (.RouteError s!"duplicate route ID '{definition.route_id}'"), self)
  else
    match built with
    | .error e => (.error e, self)
    | .ok () => (.ok (), { self with routes := self.routes.insert definition.route_id definition })

/-- The actor asks first whether the route restarts. -/
def remove_route (refusal : Option Refusal) (route_id : String) (self : DefaultRouteController) :
    Except CamelError Unit × DefaultRouteController :=
  match refusal with
  | some .restarting => (.error (.RouteError s!"route {route_id} is restarting"), self)
  | _ =>
    if route_id ∉ self.routes then
      (.error (.RouteError s!"Route '{route_id}' not found for removal"), self)
    else
      match refusal with
      | some (.running execution_lifecycle) =>
        (.error (.RouteError s!"Route '{route_id}' must be stopped before removal (current execution lifecycle: {execution_lifecycle})"), self)
      | _ => (.ok (), { self with routes := self.routes.erase route_id })

/-- It differs from `remove_route` in the functions of the route, which stay registered. -/
def remove_route_preserving_functions (refusal : Option Refusal) (route_id : String)
    (self : DefaultRouteController) : Except CamelError Unit × DefaultRouteController :=
  self.remove_route refusal route_id

/-! ## Staging -/

/-- `built` is the result of `build_managed_route`. -/
def prepare_route_definition_with_generation (built : Except CamelError Unit)
    (definition : RouteDefinition) (self : DefaultRouteController) :
    Except CamelError PreparedRoute × DefaultRouteController :=
  if definition.route_id ∈ self.prepared_staging then
    (.error (.RouteError s!"Route '{definition.route_id}' already has a prepared-but-uncommitted staging entry (call insert_prepared_route or discard_prepared_staging first)"), self)
  else
    match built with
    | .error e => (.error e, self)
    | .ok () => (.ok ⟨definition.route_id⟩, { self with
        prepared_staging := self.prepared_staging.insert definition.route_id definition })

/-- The entry is taken out first, and put back when the route exists. -/
def insert_prepared_route (prepared : PreparedRoute) (self : DefaultRouteController) :
    Except CamelError Unit × DefaultRouteController :=
  match self.prepared_staging.lookup prepared.route_id with
  | none =>
    (.error (.RouteError s!"Prepared route '{prepared.route_id}' not in staging (already consumed or never prepared)"), self)
  | some managed =>
    let prepared_staging := self.prepared_staging.erase prepared.route_id
    if prepared.route_id ∈ self.routes then
      (.error (.RouteError s!"duplicate route ID '{prepared.route_id}'"), { self with
        prepared_staging := prepared_staging.insert prepared.route_id managed })
    else
      (.ok (), ⟨self.routes.insert prepared.route_id managed, prepared_staging⟩)

def discard_prepared_staging (route_id : String) (self : DefaultRouteController) :
    DefaultRouteController :=
  { self with prepared_staging := self.prepared_staging.erase route_id }

/-! ## What each operation can do -/

variable {self next : DefaultRouteController} {route_id : String}

theorem add_route_cases (h : self.add_route built definition = (r, next)) :
    ((∃ e, r = .error e) ∧ next = self) ∨
      (r = .ok () ∧ definition.route_id ∉ self.routes ∧
        next = { self with routes := self.routes.insert definition.route_id definition }) := by
  unfold add_route at h
  split at h
  · cases h
    exact .inl ⟨⟨_, rfl⟩, rfl⟩
  · rename_i ha
    split at h
    · cases h
      exact .inl ⟨⟨_, rfl⟩, rfl⟩
    · cases h
      exact .inr ⟨rfl, ha, rfl⟩

theorem remove_route_cases {refusal : Option Refusal}
    (h : self.remove_route refusal route_id = (r, next)) :
    ((∃ e, r = .error e) ∧ next = self) ∨
      (r = .ok () ∧ route_id ∈ self.routes ∧
        next = { self with routes := self.routes.erase route_id }) := by
  unfold remove_route at h
  split at h
  · cases h
    exact .inl ⟨⟨_, rfl⟩, rfl⟩
  · split at h
    · cases h
      exact .inl ⟨⟨_, rfl⟩, rfl⟩
    · rename_i hp
      split at h
      · cases h
        exact .inl ⟨⟨_, rfl⟩, rfl⟩
      · cases h
        exact .inr ⟨rfl, not_not.mp hp, rfl⟩

theorem prepare_cases {r : Except CamelError PreparedRoute}
    (h : self.prepare_route_definition_with_generation built definition = (r, next)) :
    ((∃ e, r = .error e) ∧ next = self) ∨
      (r = .ok ⟨definition.route_id⟩ ∧ definition.route_id ∉ self.prepared_staging ∧
        next = { self with
          prepared_staging := self.prepared_staging.insert definition.route_id definition }) := by
  unfold prepare_route_definition_with_generation at h
  split at h
  · cases h
    exact .inl ⟨⟨_, rfl⟩, rfl⟩
  · rename_i ha
    split at h
    · cases h
      exact .inl ⟨⟨_, rfl⟩, rfl⟩
    · cases h
      exact .inr ⟨rfl, ha, rfl⟩

theorem insert_cases {prepared : PreparedRoute}
    (h : self.insert_prepared_route prepared = (r, next)) :
    ((∃ e, r = .error e) ∧ next = self ∧
        (prepared.route_id ∉ self.prepared_staging ∨ prepared.route_id ∈ self.routes)) ∨
      (r = .ok () ∧ prepared.route_id ∉ self.routes ∧
        ∃ managed, self.prepared_staging.lookup prepared.route_id = some managed ∧
          next = ⟨self.routes.insert prepared.route_id managed,
            self.prepared_staging.erase prepared.route_id⟩) := by
  unfold insert_prepared_route at h
  split at h
  · rename_i hn
    cases h
    exact .inl ⟨⟨_, rfl⟩, rfl, .inl (lookup_eq_none.mp hn)⟩
  · rename_i managed hs
    dsimp only at h
    split at h
    · rename_i hp
      cases h
      refine .inl ⟨⟨_, rfl⟩, ?_, .inr hp⟩
      have hb : (self.prepared_staging.erase prepared.route_id).insert prepared.route_id managed =
          self.prepared_staging := by
        apply ext_lookup
        intro id
        by_cases hi : id = prepared.route_id
        · rw [hi, lookup_insert, hs]
        · rw [lookup_insert_of_ne _ hi, lookup_erase_ne hi]
      rw [hb]
    · rename_i ha
      cases h
      exact .inr ⟨rfl, ha, managed, hs, rfl⟩

end DefaultRouteController

/-! ## The runtime behind the bus -/

def to_domain (e : CamelError) : DomainError := .InvalidState e.to_string

/-- The operations of `RuntimeExecutionAdapter`. Those that start and stop a route move its
tasks, and answer as these do. They leave both maps as they are. -/
def controllerSem : RuntimeSem DefaultRouteController
  | .register_route definition, controller, r, next =>
    ∃ built, (r, next) = ((controller.add_route built definition).1.mapError to_domain,
      (controller.add_route built definition).2)
  | .remove_route route_id, controller, r, next =>
    ∃ refusal, (r, next) = ((controller.remove_route refusal route_id).1.mapError to_domain,
      (controller.remove_route refusal route_id).2)
  | _, controller, _, next => next = controller

end camel_core.lifecycle
