-- The replay of the events, one route at a time. The replay of
-- `in_memory.rs` keeps the aggregates and the statuses in two maps. Here each
-- route is an optional aggregate, and the two maps follow from it.
import RustCamel.Lib.KeyedReplay
import RustCamel.Lifecycle.InMemory

open Finmap

namespace camel_core.lifecycle

open RouteRuntimeAggregate KeyedReplay

/-- The version that an event leaves. The second phase of a start keeps the
version of the first. -/
def versionAfter (s : Option RouteRuntimeAggregate) (e : RuntimeEvent) : Nat :=
  match e, s.map RouteRuntimeAggregate.state with
  | .RouteStarted _, some .Starting => (s.map (·.version)).getD 0
  | _, _ => saturating_add ((s.map (·.version)).getD 0) 1

def routeStep (s : Option RouteRuntimeAggregate) (e : RuntimeEvent) :
    Option RouteRuntimeAggregate :=
  match e with
  | .RouteRegistered route_id => some (new route_id)
  | .RouteRemoved _ => none
  | _ => (state_from_event e).map fun state => ⟨e.route_id, state, versionAfter s e⟩

def routeAfter (route_id : String) (events : List RuntimeEvent) : Option RouteRuntimeAggregate :=
  replayAt RuntimeEvent.route_id routeStep route_id events

/-! ## The maps of the replay -/

variable (s : RuntimeStoreState) {α : Type}

/-- The statuses are the projections of the aggregates. -/
def Projected : Prop := ∀ id, s.statuses.lookup id = (s.routes.lookup id).map project_from_aggregate

theorem lookup_upsert (m : Finmap (fun _ : String => α)) (id id' : String) (a : α) :
    (m.insert id a).lookup id' = if id = id' then some a else m.lookup id' := by
  split
  · rename_i h
    rw [h, lookup_insert]
  · rename_i h
    rw [lookup_insert_of_ne _ (Ne.symm h)]

theorem lookup_remove (m : Finmap (fun _ : String => α)) (id id' : String) :
    (m.erase id).lookup id' = if id = id' then none else m.lookup id' := by
  split
  · rename_i h
    rw [h, lookup_erase]
  · rename_i h
    rw [lookup_erase_ne (Ne.symm h)]

/-- An event that neither registers nor removes sets its route to the state
that it names. -/
theorem lookup_upsert_replayed_route (id id' : String) (state : RouteRuntimeState)
    (status : String) (inc : Bool) :
    (upsert_replayed_route s id state status inc).routes.lookup id' =
      (if id = id' then some ⟨id, state, if inc then
          saturating_add (((s.routes.lookup id).map (·.version)).getD 0) 1
        else ((s.routes.lookup id).map (·.version)).getD 0⟩
      else s.routes.lookup id') ∧
    (upsert_replayed_route s id state status inc).statuses.lookup id' =
      if id = id' then some ⟨id, status⟩ else s.statuses.lookup id' := by
  simp only [upsert_replayed_route, lookup_upsert, from_snapshot, and_self]

theorem routes_apply_replayed_event (e : RuntimeEvent) (id : String) :
    (apply_replayed_event s e).routes.lookup id =
      stepAt RuntimeEvent.route_id routeStep id (s.routes.lookup id) e := by
  unfold stepAt
  by_cases hi : e.route_id = id
  · subst hi
    cases e <;>
      simp only [apply_replayed_event, routeStep, state_from_event, RuntimeEvent.route_id,
        lookup_upsert_replayed_route, lookup_upsert, lookup_remove, if_true, Option.map_some,
        versionAfter]
    rename_i id
    rcases (s.routes.lookup id) with _ | a
    · rfl
    · rcases a with ⟨_, state, _⟩
      cases state <;> rfl
  · rw [if_neg hi]
    cases e <;>
      simp only [apply_replayed_event, state_from_event, RuntimeEvent.route_id,
        lookup_upsert_replayed_route, lookup_upsert, lookup_remove] <;>
      exact if_neg hi

theorem projected_apply_replayed_event (e : RuntimeEvent) (h : Projected s) :
    Projected (apply_replayed_event s e) := by
  intro id
  have hi := h id
  cases e <;>
    simp only [apply_replayed_event, state_from_event, RuntimeEvent.route_id,
      lookup_upsert_replayed_route, lookup_upsert, lookup_remove] <;>
    split <;>
    first
      | exact hi
      | rfl

theorem replay_spec (events : List RuntimeEvent) :
    Projected (replay events) ∧ ∀ id, (replay events).routes.lookup id = routeAfter id events := by
  induction events using List.reverseRecOn with
  | nil => exact ⟨fun _ => rfl, fun _ => rfl⟩
  | append_singleton events e ih =>
    have hr : replay (events ++ [e]) = apply_replayed_event (replay events) e := by
      simp [replay, List.foldl_append]
    rw [hr]
    refine ⟨projected_apply_replayed_event _ _ ih.1, ?_⟩
    intro id
    rw [routes_apply_replayed_event, ih.2 id]
    exact (replayAt_snoc _ _ _ _ _).symm

/-- Two logs that leave each route the same give the same two maps. -/
theorem replay_congr {es fs : List RuntimeEvent} (h : ∀ id, routeAfter id es = routeAfter id fs) :
    (replay es).routes = (replay fs).routes ∧ (replay es).statuses = (replay fs).statuses := by
  have hr : (replay es).routes = (replay fs).routes := by
    apply ext_lookup
    intro id
    rw [(replay_spec es).2, (replay_spec fs).2, h id]
  refine ⟨hr, ?_⟩
  apply ext_lookup
  intro id
  rw [(replay_spec es).1 id, (replay_spec fs).1 id, hr]

end camel_core.lifecycle
