-- The runtime store of `adapters/in_memory.rs`: the repository, the
-- projections, the dedup set and the unit of work over one locked state, with
-- an optional journal. Each function here holds the lock for its whole body.
import RustCamel.Lifecycle.RedbJournal

namespace camel_core.lifecycle

structure RouteStatusProjection where
  route_id : String
  status : String
  deriving DecidableEq

def project_from_aggregate (aggregate : RouteRuntimeAggregate) : RouteStatusProjection :=
  ⟨aggregate.route_id, aggregate.state_label⟩

structure RuntimeStoreState where
  routes : Finmap (fun _ : String => RouteRuntimeAggregate)
  statuses : Finmap (fun _ : String => RouteStatusProjection)
  events : List RuntimeEvent
  seen : Finset String
  recovered : Finset String

def RuntimeStoreState.default : RuntimeStoreState := ⟨∅, ∅, [], ∅, ∅⟩

/-! ## Replay -/

def upsert_replayed_route (state : RuntimeStoreState) (route_id : String)
    (next_state : RouteRuntimeState) (status : String) (increment_version : Bool) :
    RuntimeStoreState :=
  let current_version := ((state.routes.lookup route_id).map (·.version)).getD 0
  let next_version :=
    if increment_version then saturating_add current_version 1 else current_version
  { state with
    routes := state.routes.insert route_id (.from_snapshot route_id next_state next_version)
    statuses := state.statuses.insert route_id ⟨route_id, status⟩ }

def apply_replayed_event (state : RuntimeStoreState) (event : RuntimeEvent) : RuntimeStoreState :=
  match event with
  | .RouteRegistered route_id =>
    { state with
      routes := state.routes.insert route_id (.new route_id)
      statuses := state.statuses.insert route_id ⟨route_id, "Registered"⟩ }
  | .RouteRemoved route_id =>
    { state with
      routes := state.routes.erase route_id
      statuses := state.statuses.erase route_id }
  | _ =>
    match RouteRuntimeAggregate.state_from_event event with
    | none => state
    | some next_state =>
      let route_id := event.route_id
      let status := next_state.label
      let increment_version :=
        match event, (state.routes.lookup route_id).map (·.state) with
        | .RouteStarted _, some .Starting => false
        | _, _ => true
      upsert_replayed_route state route_id next_state status increment_version

/-- The fold of `recover_from_journal` over the events of the journal. -/
def replay (events : List RuntimeEvent) : RuntimeStoreState :=
  events.foldl apply_replayed_event .default

/-! ## The store and its ports -/

/-- `InMemoryRuntimeStore`, with the state behind its lock and its journal. -/
structure InMemoryRuntimeStore where
  inner : RuntimeStoreState
  journal : Option RedbRuntimeEventJournal

namespace InMemoryRuntimeStore

def with_journal (journal : RedbRuntimeEventJournal) : InMemoryRuntimeStore :=
  ⟨.default, some journal⟩

def load (route_id : String) (self : InMemoryRuntimeStore) : Option RouteRuntimeAggregate :=
  self.inner.routes.lookup route_id

def save (aggregate : RouteRuntimeAggregate) (self : InMemoryRuntimeStore) : InMemoryRuntimeStore :=
  { self with inner.routes := self.inner.routes.insert aggregate.route_id aggregate }

/-- The optimistic lock of `save_if_version` and of `persist_upsert`. -/
def check_version (route_id : String) (expected_version : Nat) (self : InMemoryRuntimeStore) :
    Except DomainError Unit :=
  match self.inner.routes.lookup route_id with
  | none =>
    .error (.InvalidState s!"optimistic lock conflict for route '{route_id}': route not found")
  | some current =>
    if current.version ≠ expected_version then
      .error (.InvalidState s!"optimistic lock conflict for route '{route_id}': expected version {expected_version}, actual {current.version}")
    else .ok ()

def save_if_version (aggregate : RouteRuntimeAggregate) (expected_version : Nat)
    (self : InMemoryRuntimeStore) : Except DomainError Unit × InMemoryRuntimeStore :=
  match self.check_version aggregate.route_id expected_version with
  | .error error => (.error error, self)
  | .ok () => (.ok (), self.save aggregate)

def delete (route_id : String) (self : InMemoryRuntimeStore) : InMemoryRuntimeStore :=
  { self with
    inner.routes := self.inner.routes.erase route_id
    inner.recovered := self.inner.recovered.erase route_id }

def take_recovered (route_id : String) (self : InMemoryRuntimeStore) :
    Bool × InMemoryRuntimeStore :=
  (decide (route_id ∈ self.inner.recovered),
    { self with inner.recovered := self.inner.recovered.erase route_id })

def upsert_status (status : RouteStatusProjection) (self : InMemoryRuntimeStore) :
    InMemoryRuntimeStore :=
  { self with inner.statuses := self.inner.statuses.insert status.route_id status }

def remove_status (route_id : String) (self : InMemoryRuntimeStore) : InMemoryRuntimeStore :=
  { self with inner.statuses := self.inner.statuses.erase route_id }

variable (env : JournalEnv)

def journal_append (events : List RuntimeEvent) (self : InMemoryRuntimeStore) :
    Except DomainError Unit × InMemoryRuntimeStore :=
  match self.journal with
  | none => (.ok (), self)
  | some journal =>
    let (result, journal) := journal.append_batch env events
    (result, { self with journal := some journal })

def publish (events : List RuntimeEvent) (self : InMemoryRuntimeStore) :
    Except DomainError Unit × InMemoryRuntimeStore :=
  match self.journal_append env events with
  | (.error error, self) => (.error error, self)
  | (.ok (), self) => (.ok (), { self with inner.events := self.inner.events ++ events })

def first_seen (command_id : String) (self : InMemoryRuntimeStore) :
    Except DomainError Bool × InMemoryRuntimeStore :=
  if command_id ∈ self.inner.seen then (.ok false, self)
  else
    let reserved := { self with inner.seen := insert command_id self.inner.seen }
    match self.journal with
    | none => (.ok true, reserved)
    | some journal =>
      match journal.append_command_id env command_id with
      | (.error error, _) => (.error error, self)
      | (.ok (), journal) => (.ok true, { reserved with journal := some journal })

def forget_seen (command_id : String) (self : InMemoryRuntimeStore) :
    Except DomainError Unit × InMemoryRuntimeStore :=
  let removed := decide (command_id ∈ self.inner.seen)
  let forgotten := { self with inner.seen := self.inner.seen.erase command_id }
  match removed, self.journal with
  | true, some journal =>
    let (result, journal) := journal.remove_command_id env command_id
    (result, { forgotten with journal := some journal })
  | _, _ => (.ok (), forgotten)

def persist_upsert (aggregate : RouteRuntimeAggregate) (expected_version : Option Nat)
    (projection : RouteStatusProjection) (events : List RuntimeEvent)
    (self : InMemoryRuntimeStore) : Except DomainError Unit × InMemoryRuntimeStore :=
  let checked : Except DomainError Unit := match expected_version with
    | some expected => self.check_version aggregate.route_id expected
    | none => .ok ()
  match checked with
  | .error error => (.error error, self)
  | .ok () =>
    match self.journal_append env events with
    | (.error error, self) => (.error error, self)
    | (.ok (), self) =>
      (.ok (), { self with
        inner.routes := self.inner.routes.insert aggregate.route_id aggregate
        inner.statuses := self.inner.statuses.insert projection.route_id projection
        inner.events := self.inner.events ++ events })

/-- Unlike `delete`, this leaves the set of recovered ids as it is. -/
def persist_delete (route_id : String) (events : List RuntimeEvent) (self : InMemoryRuntimeStore) :
    Except DomainError Unit × InMemoryRuntimeStore :=
  match self.journal_append env events with
  | (.error error, self) => (.error error, self)
  | (.ok (), self) =>
    (.ok (), { self with
      inner.routes := self.inner.routes.erase route_id
      inner.statuses := self.inner.statuses.erase route_id
      inner.events := self.inner.events ++ events })

/-- The recovery reads the journal, and on an error of a read it changes
nothing. Every route that the replay leaves is marked as recovered. -/
def recover_from_journal (self : InMemoryRuntimeStore) :
    Except DomainError Unit × InMemoryRuntimeStore :=
  match self.journal with
  | none => (.ok (), self)
  | some journal =>
    match env.failure with
    | some error => (.error error, self)
    | none =>
      let replayed_events := journal.load_all
      let state := replay replayed_events
      (.ok (), { self with inner := { state with
        recovered := state.routes.keys
        events := replayed_events
        seen := journal.load_command_ids } })

end InMemoryRuntimeStore

end camel_core.lifecycle
