-- The ports that the command handlers call, and what the calls do when the
-- store of `in_memory.rs` is behind them. The runtime is a parameter: a
-- relation that says what each of its operations may answer.
import Mathlib.Data.Finset.Sort
import Mathlib.Data.String.Basic
import RustCamel.Lib.Prog
import RustCamel.Lifecycle.CanonicalRoute
import RustCamel.Lifecycle.InMemory

namespace camel_core.lifecycle

open camel_api

/-! ## The calls -/

/-- The operations of `RuntimeExecutionPort` that the handlers use. -/
inductive RuntimeOp where
  | register_route (definition : RouteDefinition)
  | start_route (route_id : String)
  | stop_route (route_id : String) (stop_budget : Option Nat)
  | suspend_route (route_id : String)
  | resume_route (route_id : String)
  | reload_route (route_id : String)
  | remove_route (route_id : String)

/-- The calls of a handler to its ports. Each is one atomic step. -/
inductive PortCall where
  | load (route_id : String)
  | save (aggregate : RouteRuntimeAggregate)
  | save_if_version (aggregate : RouteRuntimeAggregate) (expected_version : Nat)
  | delete (route_id : String)
  | take_recovered (route_id : String)
  | upsert_status (status : RouteStatusProjection)
  | remove_status (route_id : String)
  | list_statuses
  | publish (events : List RuntimeEvent)
  | persist_upsert (aggregate : RouteRuntimeAggregate) (expected_version : Option Nat)
      (projection : RouteStatusProjection) (events : List RuntimeEvent)
  | persist_delete (route_id : String) (events : List RuntimeEvent)
  | execution (op : RuntimeOp)
  | force_unhealthy_for_route (route_id name reason : String)

/-- The value of a call that succeeds. -/
@[reducible] def Reply : PortCall → Type
  | .load _ => Option RouteRuntimeAggregate
  | .take_recovered _ => Bool
  | .list_statuses => List RouteStatusProjection
  | _ => Unit

/-- The ports answer with a `Result<_, DomainError>`. -/
abbrev Answer (c : PortCall) : Type := Except DomainError (Reply c)

/-- A handler: an `async fn` that calls the ports and returns a
`Result<_, CamelError>`. -/
abbrev Handler (α : Type) : Type := ExceptT (Fault CamelError) (Prog PortCall Answer) α

namespace Handler

/-- A call with `.await?`. -/
def port (c : PortCall) : Handler (Reply c) :=
  ExceptT.mk (.call c fun r => .done (r.mapError fun e => .err (.of_domain e)))

/-- A call with `.await`, whose result the handler looks at. -/
def attempt (c : PortCall) : Handler (Answer c) := ExceptT.mk (.call c fun r => .done (.ok r))

/-- `return Err(e)`. -/
def err {α : Type} (e : CamelError) : Handler α := ExceptT.mk (.done (.error (.err e)))

/-- A result of the API with `?`. -/
def of_result {α : Type} (x : Except CamelError α) : Handler α :=
  ExceptT.mk (.done (x.mapError .err))

/-- A result of the aggregate with `?`, its error mapped by `f`. A panic
passes through. -/
def of_outcome {α : Type} (f : DomainError → CamelError) (x : Outcome DomainError α) : Handler α :=
  ExceptT.mk (.done (match x with
    | .ok a => .ok a
    | .error (.err e) => .error (.err (f e))
    | .error .panic => .error .panic))

/-- The result of an inner function, for a handler that looks at it. -/
def result {α : Type} (h : Handler α) : Handler (Except CamelError α) :=
  ExceptT.mk (h.run >>= fun r => .done (match r with
    | .ok a => .ok (.ok a)
    | .error (.err e) => .ok (.error e)
    | .error .panic => .error .panic))

end Handler

/-! ## The world behind the ports -/

/-- The store, and the state of the runtime. -/
structure World (ρ : Type) where
  store : InMemoryRuntimeStore
  runtime : ρ

/-- What the operations of the runtime may answer and do. -/
abbrev RuntimeSem (ρ : Type) := RuntimeOp → ρ → Except DomainError Unit → ρ → Prop

/-- What the calls do. The clock and the faults of the journal are free, and a
listing of a map may come in any order. -/
def portSem {ρ : Type} (exec : RuntimeSem ρ) : Sem PortCall Answer (World ρ)
  | .load route_id, w, r, w' => r = .ok (w.store.load route_id) ∧ w' = w
  | .save aggregate, w, r, w' => r = .ok () ∧ w' = { w with store := w.store.save aggregate }
  | .save_if_version aggregate expected_version, w, r, w' =>
    (r, w') = ((w.store.save_if_version aggregate expected_version).1,
      { w with store := (w.store.save_if_version aggregate expected_version).2 })
  | .delete route_id, w, r, w' => r = .ok () ∧ w' = { w with store := w.store.delete route_id }
  | .take_recovered route_id, w, r, w' =>
    (r, w') = (.ok (w.store.take_recovered route_id).1,
      { w with store := (w.store.take_recovered route_id).2 })
  | .upsert_status status, w, r, w' =>
    r = .ok () ∧ w' = { w with store := w.store.upsert_status status }
  | .remove_status route_id, w, r, w' =>
    r = .ok () ∧ w' = { w with store := w.store.remove_status route_id }
  | .list_statuses, w, r, w' =>
    ∃ statuses : List RouteStatusProjection, r = .ok statuses ∧
      (statuses : Multiset RouteStatusProjection) =
        w.store.inner.statuses.entries.map Sigma.snd ∧ w' = w
  | .publish events, w, r, w' =>
    ∃ env, (r, w') = ((w.store.publish env events).1,
      { w with store := (w.store.publish env events).2 })
  | .persist_upsert aggregate expected_version projection events, w, r, w' =>
    ∃ env, (r, w') =
      ((w.store.persist_upsert env aggregate expected_version projection events).1,
        { w with
          store := (w.store.persist_upsert env aggregate expected_version projection events).2 })
  | .persist_delete route_id events, w, r, w' =>
    ∃ env, (r, w') = ((w.store.persist_delete env route_id events).1,
      { w with store := (w.store.persist_delete env route_id events).2 })
  | .execution op, w, r, w' => exec op w.runtime r w'.runtime ∧ w'.store = w.store
  | .force_unhealthy_for_route _ _ _, w, r, w' => r = .ok () ∧ w' = w

/-! ## Runs with the faults given in advance -/

/-- The fault of each call of the journal, and the answer of each operation of
the runtime. -/
structure Faults where
  journal : PortCall → JournalEnv := fun _ => {}
  runtime : RuntimeOp → Except DomainError Unit := fun _ => .ok ()

/-- One order of the statuses: that of the route ids. -/
def list_statuses (statuses : Finmap (fun _ : String => RouteStatusProjection)) :
    List RouteStatusProjection :=
  (statuses.keys.sort (· ≤ ·)).filterMap statuses.lookup

def portFn {ρ : Type} (faults : Faults) : (c : PortCall) → World ρ → Answer c × World ρ
  | .load route_id, w => (.ok (w.store.load route_id), w)
  | .save aggregate, w => (.ok (), { w with store := w.store.save aggregate })
  | .save_if_version aggregate expected_version, w =>
    ((w.store.save_if_version aggregate expected_version).1,
      { w with store := (w.store.save_if_version aggregate expected_version).2 })
  | .delete route_id, w => (.ok (), { w with store := w.store.delete route_id })
  | .take_recovered route_id, w =>
    (.ok (w.store.take_recovered route_id).1,
      { w with store := (w.store.take_recovered route_id).2 })
  | .upsert_status status, w => (.ok (), { w with store := w.store.upsert_status status })
  | .remove_status route_id, w => (.ok (), { w with store := w.store.remove_status route_id })
  | .list_statuses, w => (.ok (list_statuses w.store.inner.statuses), w)
  | .publish events, w =>
    let env := faults.journal (.publish events)
    ((w.store.publish env events).1, { w with store := (w.store.publish env events).2 })
  | .persist_upsert aggregate expected_version projection events, w =>
    let env := faults.journal (.persist_upsert aggregate expected_version projection events)
    ((w.store.persist_upsert env aggregate expected_version projection events).1,
      { w with
        store := (w.store.persist_upsert env aggregate expected_version projection events).2 })
  | .persist_delete route_id events, w =>
    let env := faults.journal (.persist_delete route_id events)
    ((w.store.persist_delete env route_id events).1,
      { w with store := (w.store.persist_delete env route_id events).2 })
  | .execution op, w => (faults.runtime op, w)
  | .force_unhealthy_for_route _ _ _, w => (.ok (), w)

theorem coe_list_statuses (statuses : Finmap (fun _ : String => RouteStatusProjection)) :
    (list_statuses statuses : Multiset RouteStatusProjection) = statuses.entries.map Sigma.snd := by
  have hk : ((statuses.keys.sort (· ≤ ·) : List String) : Multiset String) =
      statuses.entries.map Sigma.fst := Finset.sort_eq _ _
  have hl : ∀ s ∈ statuses.entries, statuses.lookup s.1 = some s.2 := by
    intro s hs
    exact Finmap.mem_lookup_iff.mpr hs
  unfold list_statuses
  rw [← Multiset.filterMap_coe, hk, Multiset.filterMap_map]
  generalize statuses.entries = entries at hl
  induction entries using Multiset.induction with
  | empty => rfl
  | cons s entries ih =>
    have hs : ((fun id => statuses.lookup id) ∘ Sigma.fst) s = some s.2 :=
      hl s (Multiset.mem_cons_self s entries)
    rw [Multiset.filterMap_cons_some _ _ _ hs, Multiset.map_cons,
      ih fun s' hs' => hl s' (Multiset.mem_cons_of_mem hs')]

theorem portSem_portFn {ρ : Type} {exec : RuntimeSem ρ} {faults : Faults}
    (he : ∀ op s, exec op s (faults.runtime op) s) (c : PortCall) (w : World ρ) :
    portSem exec c w (portFn faults c w).1 (portFn faults c w).2 := by
  cases c with
  | list_statuses => exact ⟨_, rfl, coe_list_statuses _, rfl⟩
  | execution op => exact ⟨he op _, rfl⟩
  | publish | persist_upsert | persist_delete => exact ⟨_, rfl⟩
  | save_if_version | take_recovered => exact rfl
  | _ => exact ⟨rfl, rfl⟩

end camel_core.lifecycle
