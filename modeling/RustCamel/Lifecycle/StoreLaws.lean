-- The laws of the store: what each port does to the routes, the statuses and
-- the journal, and that the events of a change replay to its aggregate.
import RustCamel.Lifecycle.JournalCompaction

namespace camel_core.lifecycle

open KeyedReplay RouteRuntimeAggregate Option

/-! ## The append -/

/-- The second journal has the events after those of the first, as far as a
replay can see. Without a journal there is nothing to say. -/
def AppendedTo (events : List RuntimeEvent) :
    Option RedbRuntimeEventJournal → Option RedbRuntimeEventJournal → Prop
  | none, none => True
  | some journal, some journal' => journal'.command_ids = journal.command_ids ∧
      ∀ id, routeAfter id journal'.load_all = routeAfter id (journal.load_all ++ events)
  | _, _ => False

theorem AppendedTo.of_some {events : List RuntimeEvent} {journal : RedbRuntimeEventJournal}
    {after : Option RedbRuntimeEventJournal} (h : AppendedTo events (some journal) after) :
    ∃ journal', after = some journal' ∧
      ∀ id, routeAfter id journal'.load_all = routeAfter id (journal.load_all ++ events) := by
  cases after with
  | none => exact h.elim
  | some journal' => exact ⟨journal', rfl, h.2⟩

variable {id : String} {a a' : RouteRuntimeAggregate} {expected_version : Option Nat} {n : Nat}
  {state : RouteRuntimeState}

namespace InMemoryRuntimeStore

variable {env : JournalEnv} {store store' : InMemoryRuntimeStore} {result : Except DomainError Unit}
  {events : List RuntimeEvent}

theorem journal_append_spec (h : store.journal_append env events = (result, store')) :
    (result = .ok () ∧ store'.inner = store.inner ∧
        AppendedTo events store.journal store'.journal) ∨
      ((∃ error, result = .error error) ∧ store' = store) := by
  obtain ⟨inner, journal⟩ := store
  cases journal with
  | none =>
    cases h
    exact .inl ⟨rfl, rfl, trivial⟩
  | some journal =>
    simp only [journal_append] at h
    rcases hb : journal.append_batch env events with ⟨result', journal'⟩
    rw [hb] at h
    cases h
    rcases append_batch_spec hb with ⟨ho, hi, hl⟩ | ⟨he, rfl⟩
    · exact .inl ⟨ho, rfl, hi, hl⟩
    · exact .inr ⟨he, rfl⟩

theorem journal_append_inner (env : JournalEnv) (events : List RuntimeEvent)
    (store : InMemoryRuntimeStore) (inner : RuntimeStoreState) :
    journal_append env events { store with inner } = ((store.journal_append env events).1,
      { (store.journal_append env events).2 with inner }) := by
  obtain ⟨_, journal⟩ := store
  cases journal <;> rfl

theorem journal_append_congr (env : JournalEnv) (events : List RuntimeEvent)
    (h : store'.journal = store.journal) :
    (store'.journal_append env events).1 = (store.journal_append env events).1 ∧
      (store'.journal_append env events).2.journal =
        (store.journal_append env events).2.journal := by
  obtain ⟨inner, journal⟩ := store
  obtain ⟨inner', journal'⟩ := store'
  cases h
  cases journal <;> exact ⟨rfl, rfl⟩

/-! ## The unit of work -/

theorem check_version_ok (h : store.check_version id n = .ok ()) :
    ∃ current, store.load id = some current ∧ current.version = n := by
  unfold check_version at h
  split at h
  · cases h
  · rename_i current hc
    split at h
    · cases h
    · rename_i hv
      exact ⟨current, hc, not_not.mp hv⟩

variable (state : RuntimeStoreState)

def upserted (a : RouteRuntimeAggregate) (projection : RouteStatusProjection)
    (events : List RuntimeEvent) : RuntimeStoreState :=
  { state with
    routes := state.routes.insert a.route_id a
    statuses := state.statuses.insert projection.route_id projection
    events := state.events ++ events }

theorem lookup_upserted (a : RouteRuntimeAggregate) (projection : RouteStatusProjection)
    (events : List RuntimeEvent) (id : String) :
    (upserted state a projection events).routes.lookup id =
      if a.route_id = id then some a else state.routes.lookup id := lookup_upsert _ _ _ _

theorem projected_upserted {state : RuntimeStoreState} (h : Projected state)
    (a : RouteRuntimeAggregate) (events : List RuntimeEvent) :
    Projected (upserted state a (project_from_aggregate a) events) := by
  intro id
  rw [lookup_upserted]
  simp only [upserted, lookup_upsert, project_from_aggregate]
  split
  · rfl
  · exact h id

theorem persist_upsert_append
    (hv : ∀ n, expected_version = some n → store.check_version a.route_id n = .ok ())
    (env : JournalEnv) (projection : RouteStatusProjection) (events : List RuntimeEvent) :
    store.persist_upsert env a expected_version projection events =
      match store.journal_append env events with
      | (.error error, store') => (.error error, store')
      | (.ok (), store') => (.ok (), { store' with
          inner := upserted store'.inner a projection events }) := by
  unfold persist_upsert
  cases expected_version with
  | none => rfl
  | some n =>
    dsimp only
    rw [hv n rfl]
    rfl

theorem persist_upsert_eq
    (hv : ∀ n, expected_version = some n → store.check_version a.route_id n = .ok ())
    (env : JournalEnv) (projection : RouteStatusProjection) (events : List RuntimeEvent) :
    store.persist_upsert env a expected_version projection events =
      match (store.journal_append env events).1 with
      | .error error => (.error error, store)
      | .ok () => (.ok (), { (store.journal_append env events).2 with
          inner := upserted store.inner a projection events }) := by
  rw [persist_upsert_append hv]
  rcases hap : store.journal_append env events with ⟨error | _, store'⟩
  · rcases journal_append_spec hap with ⟨⟨⟩, _⟩ | ⟨_, rfl⟩
    rfl
  · rcases journal_append_spec hap with ⟨_, hi, _⟩ | ⟨⟨_, ⟨⟩⟩, _⟩
    simp only [hi]

theorem persist_upsert_spec {projection : RouteStatusProjection}
    (h : store.persist_upsert env a expected_version projection events = (result, store')) :
    (result = .ok () ∧
        (∀ n, expected_version = some n →
          ∃ current, store.load a.route_id = some current ∧ current.version = n) ∧
        store'.inner = upserted store.inner a projection events ∧
        AppendedTo events store.journal store'.journal) ∨
      ((∃ error, result = .error error) ∧ store' = store) := by
  unfold persist_upsert at h
  simp only at h
  split at h
  · cases h
    exact .inr ⟨⟨_, rfl⟩, rfl⟩
  · rename_i hc
    have hv : ∀ n, expected_version = some n →
        ∃ current, store.load a.route_id = some current ∧ current.version = n := by
      rintro n rfl
      exact check_version_ok hc
    split at h
    · rename_i error store'' ha
      cases h
      rcases journal_append_spec ha with ⟨⟨⟩, _⟩ | ⟨_, rfl⟩
      exact .inr ⟨⟨_, rfl⟩, rfl⟩
    · rename_i store'' ha
      cases h
      rcases journal_append_spec ha with ⟨_, hi, hj⟩ | ⟨⟨_, ⟨⟩⟩, _⟩
      refine .inl ⟨rfl, hv, ?_, hj⟩
      rw [← hi]
      rfl

def deleted (route_id : String) (events : List RuntimeEvent) : RuntimeStoreState :=
  { state with
    routes := state.routes.erase route_id
    statuses := state.statuses.erase route_id
    events := state.events ++ events }

theorem lookup_deleted (route_id : String) (events : List RuntimeEvent) (id : String) :
    (deleted state route_id events).routes.lookup id =
      if route_id = id then none else state.routes.lookup id := lookup_remove _ _ _

theorem projected_deleted {state : RuntimeStoreState} (h : Projected state) (route_id : String)
    (events : List RuntimeEvent) : Projected (deleted state route_id events) := by
  intro id
  rw [lookup_deleted]
  simp only [deleted, lookup_remove]
  split
  · rfl
  · exact h id

theorem persist_delete_spec {route_id : String}
    (h : store.persist_delete env route_id events = (result, store')) :
    (result = .ok () ∧ store'.inner = deleted store.inner route_id events ∧
        AppendedTo events store.journal store'.journal) ∨
      ((∃ error, result = .error error) ∧ store' = store) := by
  unfold persist_delete at h
  split at h
  · rename_i error store'' ha
    cases h
    rcases journal_append_spec ha with ⟨⟨⟩, _⟩ | ⟨_, rfl⟩
    exact .inr ⟨⟨_, rfl⟩, rfl⟩
  · rename_i store'' ha
    cases h
    rcases journal_append_spec ha with ⟨_, hi, hj⟩ | ⟨⟨_, ⟨⟩⟩, _⟩
    refine .inl ⟨rfl, ?_, hj⟩
    rw [← hi]
    rfl

end InMemoryRuntimeStore

/-! ## The events of a change replay to its aggregate -/

theorem saturating_succ (h : n < u64_max) : saturating_add n 1 = n + 1 := by
  unfold saturating_add
  omega

theorem routeAfter_append (id : String) (log events : List RuntimeEvent) :
    routeAfter id (log ++ events) =
      events.foldl (stepAt RuntimeEvent.route_id routeStep id) (routeAfter id log) :=
  replayAt_append _ _ _ _ _

theorem routeAfter_other {events : List RuntimeEvent} (h : ∀ e ∈ events, e.route_id ≠ id)
    (log : List RuntimeEvent) : routeAfter id (log ++ events) = routeAfter id log :=
  replayAt_append_other _ _ h log

theorem routeAfter_route_id {log : List RuntimeEvent} (h : routeAfter id log = some a) :
    a.route_id = id := by
  induction log using List.reverseRecOn generalizing a with
  | nil => cases h
  | append_singleton log e ih =>
    rw [routeAfter_append, List.foldl_cons, List.foldl_nil, stepAt] at h
    split at h
    · rename_i hi
      rw [← hi]
      cases e <;> simp only [routeStep, state_from_event, map_some, Option.some.injEq,
        reduceCtorEq] at h <;> subst h <;> rfl
    · exact ih h

theorem command_effect_cases {cmd : RouteLifecycleCommand} {events : List RuntimeEvent}
    (h : a.command_effect cmd = .ok (state, events)) (hc : cmd ≠ .Remove) (hn : events ≠ []) :
    (Removable a ∧ state = .Started ∧
        events = [.RouteStartRequested a.route_id, .RouteStarted a.route_id]) ∨
      ∃ e, events = [e] ∧ e.route_id = a.route_id ∧ (∀ id, e ≠ .RouteRegistered id) ∧
        state_from_event e = some state ∧ (a.state = .Starting → state ≠ .Started) := by
  obtain ⟨id, s, version⟩ := a
  cases cmd <;> cases s <;> cases h <;>
    first
      | exact absurd rfl hn
      | exact absurd rfl hc
      | exact .inl ⟨.inl rfl, rfl, rfl⟩
      | exact .inl ⟨.inr rfl, rfl, rfl⟩
      | exact .inr ⟨_, rfl, rfl, by simp, rfl, by simp⟩

theorem Edge.route_id_events {events : List RuntimeEvent} (h : Edge a events a') :
    ∀ e ∈ events, e.route_id = a.route_id := by
  cases h with
  | command cmd h hc hn =>
    obtain ⟨state, he, _, _⟩ := apply_command_ok h
    rcases command_effect_cases he hc hn with ⟨_, _, rfl⟩ | ⟨e, rfl, hi, _⟩
    · simp [RuntimeEvent.route_id]
    · simpa using hi
  | begin_start h hn =>
    obtain ⟨_, _, rfl, _⟩ := begin_start_ok h hn
    simp [RuntimeEvent.route_id]
  | confirm_start h hn =>
    obtain ⟨_, rfl, _⟩ := confirm_start_ok h hn
    simp [RuntimeEvent.route_id]
  | fail error h =>
    obtain ⟨_, rfl, _⟩ := fail_ok h
    simp [RuntimeEvent.route_id]

theorem stepAt_bump {e : RuntimeEvent} (hi : e.route_id = a.route_id)
    (hst : state_from_event e = some state) (hr : ∀ id, e ≠ .RouteRegistered id)
    (hc : a.state = .Starting → state ≠ .Started) (hl : a.version < u64_max) :
    stepAt RuntimeEvent.route_id routeStep a.route_id (some a) e =
      some { a with state, version := a.version + 1 } := by
  rw [stepAt, if_pos hi]
  have hv : versionAfter (some a) e = a.version + 1 := by
    unfold versionAfter
    split
    · rename_i id hs
      simp only [map_some, Option.some.injEq] at hs
      cases hst
      exact absurd rfl (hc hs)
    · exact saturating_succ hl
  cases e with
  | RouteRegistered id => exact absurd rfl (hr id)
  | RouteRemoved id => cases hst
  | _ =>
    simp only [routeStep, hst, map_some, hv, hi]

theorem stepAt_confirm (hs : a.state = .Starting) :
    stepAt RuntimeEvent.route_id routeStep a.route_id (some a) (.RouteStarted a.route_id) =
      some { a with state := .Started } := by
  have hi : (RuntimeEvent.RouteStarted a.route_id).route_id = a.route_id := rfl
  rw [stepAt, if_pos hi]
  simp only [routeStep, state_from_event, RuntimeEvent.route_id, map_some, versionAfter, hs,
    getD_some]

theorem Edge.replays {events log : List RuntimeEvent} (h : Edge a events a')
    (hl : routeAfter a.route_id log = some a) :
    routeAfter a.route_id (log ++ events) = some a' := by
  rw [routeAfter_append, hl]
  cases h with
  | begin_start h hn =>
    obtain ⟨hr, hlt, rfl, rfl⟩ := begin_start_ok h hn
    exact stepAt_bump rfl rfl (by simp) (by simp) hlt
  | confirm_start h hn =>
    obtain ⟨hs, rfl, rfl⟩ := confirm_start_ok h hn
    exact stepAt_confirm hs
  | fail error h =>
    obtain ⟨hlt, rfl, rfl⟩ := fail_ok h
    exact stepAt_bump rfl rfl (by simp) (by simp) hlt
  | command cmd h hcm hn =>
    obtain ⟨state, he, hlt, rfl⟩ := apply_command_ok h
    rcases command_effect_cases he hcm hn with ⟨hr, rfl, rfl⟩ | ⟨e, rfl, hi, hre, hs, hc⟩
    · -- The second phase keeps the version of the first.
      have hst : stepAt RuntimeEvent.route_id routeStep a.route_id (some a)
          (.RouteStartRequested a.route_id) =
          some { a with state := .Starting, version := a.version + 1 } :=
        stepAt_bump rfl rfl (by simp) (by simp) hlt
      rw [List.foldl_cons, hst]
      exact stepAt_confirm (a := { a with state := .Starting, version := a.version + 1 }) rfl
    · exact stepAt_bump hi hs hre hc hlt

/-- The intent of a start is stored only over a route that can be removed. -/
theorem Edge.removable_of_starting {events : List RuntimeEvent} (h : Edge a events a')
    (hs : a'.state = .Starting) : Removable a := by
  cases h with
  | begin_start h hn => exact (begin_start_ok h hn).1
  | confirm_start h hn =>
    obtain ⟨_, _, rfl⟩ := confirm_start_ok h hn
    cases hs
  | fail error h =>
    obtain ⟨_, _, rfl⟩ := fail_ok h
    cases hs
  | command cmd h hc hn =>
    obtain ⟨state, hef, _, rfl⟩ := apply_command_ok h
    cases hs
    rcases command_effect_cases hef hc hn with ⟨hr, _⟩ | ⟨e, rfl, _, _, he, _⟩
    · exact hr
    · exfalso
      obtain ⟨id, s, version⟩ := a
      cases cmd <;> cases s <;> cases hef

/-- While a start is between its two phases only a failure raises the version,
and the second phase does not stand in its way. -/
theorem Edge.of_confirmed {events : List RuntimeEvent} (h : Edge a events a')
    (hs : a.state = .Starting) (hv : a'.version = a.version + 1) :
    Edge { a with state := .Started } events a' := by
  have hf : ∀ error, a.version < u64_max → Edge { a with state := .Started }
      [.RouteFailed a.route_id error] ⟨a.route_id, .Failed error, a.version + 1⟩ := by
    intro error hl
    refine Edge.fail error ?_
    simp [RouteRuntimeAggregate.fail, u64_succ, hl]
  cases h with
  | begin_start h hn =>
    obtain ⟨hr | hr, _⟩ := begin_start_ok h hn
    all_goals
      rw [hs] at hr
      cases hr
  | confirm_start h hn =>
    obtain ⟨_, _, rfl⟩ := confirm_start_ok h hn
    simp at hv
  | fail error h =>
    obtain ⟨hl, rfl, rfl⟩ := fail_ok h
    exact hf error hl
  | command cmd h hc hn =>
    obtain ⟨state, he, hl, rfl⟩ := apply_command_ok h
    unfold command_effect at he
    rw [hs] at he
    cases cmd <;> cases he
    exact hf _ hl

end camel_core.lifecycle
