-- The reload of functions: `prepare_reload` and `rollback_reload` of `invoker.rs`, over register
-- and unregister calls that run alone. The provider answers each registration; unregistrations and
-- shutdowns succeed.
import RustCamel.Function.Registry

namespace camel_function

open Interleaving

/-! ## Calls that run alone -/

/-- What the provider answers to one registration. -/
structure Answers where
  spawn : Except String RunnerHandle
  healthy : Except String Unit
  register : Except String Unit

namespace Registry

/-- The runner of a registration, found or spawned. -/
def find_runner (r : Registry) (key : RunnerPoolKey) (answers : Answers) :
    Registry × Except FunctionInvocationError RunnerHandle :=
  match r.handles.lookup key with
  | some handle => (r, .ok handle)
  | none =>
    match answers.spawn, answers.healthy with
    | .error e, _ | .ok _, .error e => (r, .error (.RunnerUnavailable e))
    | .ok spawned, .ok _ =>
      let (r, handle) := r.adopt key spawned
      (r, .ok handle)

/-- The rest of a registration that has its runner. -/
def register_with (r : Registry) (definition : FunctionDefinition) (route_id : Option String) :
    Except String Unit → Registry × Except FunctionInvocationError Unit
  | .error e => (r, .error (.Transport e))
  | .ok _ => (r.record definition route_id, .ok ())

def register (r : Registry) (definition : FunctionDefinition) (route_id : Option String)
    (answers : Answers) : Registry × Except FunctionInvocationError Unit :=
  match r.find_runner definition.key answers with
  | (r, .error e) => (r, .error e)
  | (r, .ok _) => r.register_with definition route_id answers.register

def unregister (r : Registry) (id : FunctionId) (route_id : Option String) : Registry :=
  match r.let_go id route_id with
  | (r, none) => r
  | (r, some pool_key) => (r.retire pool_key).1

end Registry

/-! ## The reload -/

/-- A function that a reload adds to a route. -/
abbrev Addition := FunctionDefinition × Option String

namespace Addition

def ref (a : Addition) : Ref := (a.1.id, a.2)

def key (a : Addition) : RunnerPoolKey := a.1.key

end Addition

structure FunctionDiff where
  added : List Addition

structure PrepareToken where
  registered : List Addition

/-- The invoker as far as a reload sees it. -/
structure Invoker where
  registry : Registry
  current_generation : Nat
  -- by generation
  staging : List (Nat × List Addition)

namespace Registry

/-- The functions are unregistered in the order in which they came. -/
def unregister_all (r : Registry) (registered : List Addition) : Registry :=
  registered.foldl (fun r a => r.unregister a.1.id a.2) r

/-- The loop of `prepare_reload`. -/
def register_added (r : Registry) (registered : List Addition) :
    List Addition → (Nat → Answers) → Registry × Except FunctionInvocationError PrepareToken
  | [], _ => (r, .ok ⟨registered⟩)
  | a :: added, answers =>
    match r.register a.1 a.2 (answers 0) with
    | (r, .ok _) => r.register_added (registered ++ [a]) added fun i => answers (i + 1)
    | (r, .error e) => (r.unregister_all registered, .error e)

end Registry

namespace Invoker

variable (v : Invoker)

def discard_staging (generation : Nat) : Invoker :=
  { v with staging := v.staging.filter (·.1 ≠ generation) }

def purge_staging : Invoker := { v with staging := v.staging.filter (·.1 ≥ v.current_generation) }

/-- `answers` is what the provider answers to the registrations, one after the other. -/
def prepare_reload (diff : FunctionDiff) (generation : Nat) (answers : Nat → Answers) :
    Invoker × Except FunctionInvocationError PrepareToken :=
  let current_gen := v.current_generation
  if generation ≠ current_gen then
    (v.discard_staging generation,
      .error (.Transport s!"stale generation: expected {current_gen}, got {generation}"))
  else
    let v := v.purge_staging
    match v.registry.register_added [] diff.added answers with
    | (registry, .ok token) => ({ v with registry }, .ok token)
    | (registry, .error e) => ({ v with registry }.discard_staging generation, .error e)

def rollback_reload (token : PrepareToken) (generation : Nat) : Invoker :=
  { v with registry := v.registry.unregister_all token.registered }.discard_staging generation

end Invoker

end camel_function
