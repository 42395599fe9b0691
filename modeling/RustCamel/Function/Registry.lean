-- The function registry of `camel-function`: the runner pool of `pool.rs` and the register and
-- unregister calls of `invoker.rs`. A call runs from one await to the next in one step. What stands
-- between two awaits is a function on the registry, and the calls are built from these functions.
import Mathlib.Data.Finmap
import RustCamel.Lib.Interleaving

namespace camel_function

/-! ## The pool -/

abbrev FunctionId := String

structure RunnerPoolKey where
  runtime : String
  deriving DecidableEq

/-- A runner with its cancellation token, which no two runners share. -/
structure RunnerHandle where
  id : Nat
  deriving DecidableEq

structure FunctionDefinition where
  id : FunctionId
  runtime : String
  source : String
  timeout_ms : Nat

def FunctionDefinition.key (definition : FunctionDefinition) : RunnerPoolKey := ⟨definition.runtime⟩

/-- A function as a route uses it. -/
abbrev Ref := FunctionId × Option String

inductive FunctionInvocationError where
  | RunnerUnavailable (reason : String)
  | Transport (text : String)

/-- The maps of `RunnerPool`, and the timeouts of the invoker. -/
@[ext] structure Registry where
  handles : Finmap fun _ : RunnerPoolKey => RunnerHandle
  ref_counts : Finmap fun _ : Ref => Nat
  function_to_key : Finmap fun _ : Ref => RunnerPoolKey
  function_timeouts : Finmap fun _ : FunctionId => Nat

namespace Registry

def empty : Registry := ⟨∅, ∅, ∅, ∅⟩

variable (r : Registry)

def used_by_route (id : FunctionId) : Bool := decide (∃ ref ∈ r.function_to_key.keys, ref.1 = id)

def still_used (pool_key : RunnerPoolKey) : Bool :=
  decide (∃ ref ∈ r.function_to_key.keys, r.function_to_key.lookup ref = some pool_key)

/-! ## Between the awaits of `register` -/

/-- A runner that was spawned, unless another one has come in between. -/
def adopt (key : RunnerPoolKey) (spawned : RunnerHandle) : Registry × RunnerHandle :=
  match r.handles.lookup key with
  | some handle => (r, handle)
  | none => ({ r with handles := r.handles.insert key spawned }, spawned)

/-- The counts are `u32` in the source, which these follow as long as no more than `2 ^ 32 - 1`
registrations of a function for a route are open at a time. -/
def record (definition : FunctionDefinition) (route_id : Option String) : Registry :=
  let ref_key : Ref := (definition.id, route_id)
  { r with
    ref_counts := r.ref_counts.insert ref_key
      (match r.ref_counts.lookup ref_key with
        | some c => c + 1
        | none => 1)
    function_timeouts := r.function_timeouts.insert definition.id definition.timeout_ms
    function_to_key := r.function_to_key.insert ref_key definition.key }

/-! ## Between the awaits of `unregister` -/

/-- The key of the runner that may have to go, when the function is used no more. -/
def let_go (id : FunctionId) (route_id : Option String) : Registry × Option RunnerPoolKey :=
  let key : Ref := (id, route_id)
  match r.ref_counts.lookup key with
  | none => (r, none)
  | some c =>
    if c > 1 then ({ r with ref_counts := r.ref_counts.insert key (c - 1) }, none)
    else
      let uncounted := { r with ref_counts := r.ref_counts.erase key }
      match r.function_to_key.lookup key with
      | none => (uncounted, none)
      | some pool_key =>
        let forgotten := { uncounted with function_to_key := r.function_to_key.erase key }
        if forgotten.used_by_route id then (forgotten, none)
        else
          ({ forgotten with function_timeouts := r.function_timeouts.erase id }, some pool_key)

/-- Takes a runner out of the pool that no function uses any more. -/
def retire (pool_key : RunnerPoolKey) : Registry × Option RunnerHandle :=
  if r.still_used pool_key then (r, none)
  else
    match r.handles.lookup pool_key with
    | none => (r, none)
    | some handle => ({ r with handles := r.handles.erase pool_key }, some handle)

end Registry

/-! ## The calls -/

inductive Call where
  | Register (definition : FunctionDefinition) (route_id : Option String)
  | Unregister (id : FunctionId) (route_id : Option String)

/-- The await at which a call stands. -/
inductive Stage where
  | Queued
  | Spawning
  -- in `wait_until_healthy`
  | Booting (handle : RunnerHandle)
  | Registering (handle : RunnerHandle)
  -- with a guard on the entry of the runner
  | Unregistering (pool_key : RunnerPoolKey)
  | ShuttingDown (handle : RunnerHandle)
  | Done (result : Except FunctionInvocationError Unit)

structure Task where
  call : Call
  stage : Stage

/-- What the calls share. -/
structure Pool where
  registry : Registry
  register_lock : Bool
  -- the entries of the pool that an unregistration holds a guard on
  guards : List RunnerPoolKey
  next_id : Nat
  -- the runners that were cancelled or shut down
  ended : List RunnerHandle

namespace Pool

def empty : Pool := ⟨.empty, false, [], 0, []⟩

/-- The end of an unregistration. The entry cannot be removed under a guard. -/
def retire (p : Pool) (pool_key : RunnerPoolKey) : Option (Pool × Stage) :=
  match p.registry.retire pool_key with
  | (_, none) => some (p, .Done (.ok ()))
  | (registry, some handle) =>
    if pool_key ∈ p.guards then none
    else some ({ p with registry, ended := handle :: p.ended }, .ShuttingDown handle)

/-- One step of a `register` call. `answer` is what the provider answers. -/
def register (p : Pool) (definition : FunctionDefinition) (route_id : Option String) :
    Stage → Except String Unit → Option (Pool × Stage)
  | .Queued, _ =>
    if p.register_lock then none
    else
      match p.registry.handles.lookup definition.key with
      | some handle => some ({ p with register_lock := true }, .Registering handle)
      | none => some ({ p with register_lock := true }, .Spawning)
  | .Spawning, .ok _ => some ({ p with next_id := p.next_id + 1 }, .Booting ⟨p.next_id⟩)
  | .Booting spawned, .ok _ =>
    let (registry, handle) := p.registry.adopt definition.key spawned
    some ({ p with registry }, .Registering handle)
  | .Spawning, .error e | .Booting _, .error e =>
    some ({ p with register_lock := false }, .Done (.error (.RunnerUnavailable e)))
  | .Registering _, .ok _ =>
    some ({ p with registry := p.registry.record definition route_id, register_lock := false },
      .Done (.ok ()))
  | .Registering _, .error e =>
    some ({ p with register_lock := false }, .Done (.error (.Transport e)))
  | _, _ => none

/-- One step of an `unregister` call. -/
def unregister (p : Pool) (id : FunctionId) (route_id : Option String) :
    Stage → Except String Unit → Option (Pool × Stage)
  | .Queued, _ =>
    match p.registry.let_go id route_id with
    | (registry, none) => some ({ p with registry }, .Done (.ok ()))
    | (registry, some pool_key) =>
      match registry.handles.lookup pool_key with
      | some _ =>
        some ({ p with registry, guards := pool_key :: p.guards }, .Unregistering pool_key)
      | none => { p with registry }.retire pool_key
  | .Unregistering pool_key, .ok _ =>
    { p with guards := p.guards.erase pool_key }.retire pool_key
  | .Unregistering pool_key, .error e =>
    some ({ p with guards := p.guards.erase pool_key }, .Done (.error (.Transport e)))
  | .ShuttingDown _, .ok _ => some (p, .Done (.ok ()))
  | .ShuttingDown _, .error e => some (p, .Done (.error (.Transport e)))
  | _, _ => none

def advance (p : Pool) (t : Task) (answer : Except String Unit) : Option (Pool × Task) :=
  let next :=
    match t.call with
    | .Register definition route_id => p.register definition route_id t.stage answer
    | .Unregister id route_id => p.unregister id route_id t.stage answer
  next.map fun (p, stage) => (p, { t with stage })

end Pool

/-- Calls that run at the same time. -/
def calls : Interleaving Pool Call Task (Except String Unit) :=
  ⟨fun call => ⟨call, .Queued⟩, Pool.advance⟩

end camel_function
