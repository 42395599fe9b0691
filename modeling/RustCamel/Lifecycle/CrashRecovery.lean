-- The law of the recovery: a store that is replayed from the journal has the
-- routes and the statuses of the store that wrote it. The handlers count
-- versions as the replay will count them, on every path.
import RustCamel.Lifecycle.Protocol
import RustCamel.Lifecycle.StoreLaws

namespace camel_core.lifecycle

open camel_api Prog RouteRuntimeAggregate

/-! ## The invariant -/

/-- The journal replays to the routes of the store, and the statuses are
their projections. -/
structure Durable (store : InMemoryRuntimeStore) : Prop where
  replays : ∃ journal, store.journal = some journal ∧
    ∀ id, store.load id = routeAfter id journal.load_all
  projected : Projected store.inner

/-- What a handler believes is so, as long as no other handler runs. -/
def Knows (store : InMemoryRuntimeStore) : Belief → Prop
  | .loaded id a | .adopted id a => store.load id = some a
  | .absent id => store.load id = none
  | .wrote a => store.load a.route_id = some a
  | .unknown | .deleted _ => True

variable {a : RouteRuntimeAggregate} {powers : Powers} {env : JournalEnv} {ρ : Type}
  {exec : RuntimeSem ρ} {store : InMemoryRuntimeStore} {journal : RedbRuntimeEventJournal}
  {result : Except DomainError Unit} {store' : InMemoryRuntimeStore} {deps : CommandDeps}

theorem Durable.route_id {store : InMemoryRuntimeStore} (h : Durable store) {id : String}
    (ha : store.load id = some a) : a.route_id = id := by
  obtain ⟨journal, _, hl⟩ := h.replays
  rw [hl id] at ha
  exact routeAfter_route_id ha

/-! ## One store -/

theorem Upsert.replays {g : Belief} {store : InMemoryRuntimeStore} {version : Option Nat}
    {events log : List RuntimeEvent} (h : Upsert powers g a version events) (hd : Durable store)
    (hg : Knows store g) (hl : ∀ id, store.load id = routeAfter id log) :
    (∀ e ∈ events, e.route_id = a.route_id) ∧ routeAfter a.route_id (log ++ events) = some a := by
  -- A registration forgets what was there before.
  have hr : ∀ id, (∀ e ∈ [RuntimeEvent.RouteRegistered id], e.route_id = (new id).route_id) ∧
      routeAfter (new id).route_id (log ++ [.RouteRegistered id]) = some (new id) := by
    intro id
    refine ⟨by simp [RuntimeEvent.route_id, new], ?_⟩
    rw [routeAfter_append]
    simp [KeyedReplay.stepAt, RuntimeEvent.route_id, routeStep, new]
  have he : ∀ {b : RouteRuntimeAggregate}, store.load b.route_id = some b → Edge b events a →
      (∀ e ∈ events, e.route_id = a.route_id) ∧ routeAfter a.route_id (log ++ events) = some a := by
    intro b hb he
    rw [he.version_cases.1]
    refine ⟨he.route_id_events, he.replays ?_⟩
    rw [← hl, hb]
  cases h with
  | register_absent id | register_adopted id b => exact hr id
  | change id h _ | reconcile id h _ =>
    refine he ?_ h
    rw [hd.route_id hg]
    exact hg
  | follow_up h => exact he hg h

/-- A permitted upsert keeps the invariant, and the handler knows what it
stored. -/
theorem durable_upsert {g : Belief} {version : Option Nat} {events : List RuntimeEvent}
    (hu : Upsert powers g a version events) (hd : Durable store) (hg : Knows store g)
    (h : store.persist_upsert env a version (project_from_aggregate a) events = (result, store')) :
    Durable store' ∧
      ((result = .ok () ∧ Knows store' (.wrote a)) ∨
        ((∃ e, result = .error e) ∧ store' = store)) := by
  rcases InMemoryRuntimeStore.persist_upsert_spec h with ⟨rfl, _, hi, hjo⟩ | ⟨her, rfl⟩
  · obtain ⟨journal, hj, hl⟩ := hd.replays
    rw [hj] at hjo
    obtain ⟨journal', hj', hl'⟩ := hjo.of_some
    obtain ⟨hev, hr⟩ := hu.replays hd hg hl
    have hro : ∀ id, store'.load id = if a.route_id = id then some a else store.load id := by
      intro id
      rw [InMemoryRuntimeStore.load, hi, InMemoryRuntimeStore.lookup_upserted]
      rfl
    refine ⟨⟨⟨journal', hj', ?_⟩, ?_⟩, .inl ⟨rfl, ?_⟩⟩
    · intro id
      rw [hro, hl']
      split
      · rename_i hid
        rw [← hid, hr]
      · rename_i hid
        rw [routeAfter_other, hl]
        intro e he hn
        exact hid ((hev e he).symm.trans hn)
    · rw [hi]
      exact InMemoryRuntimeStore.projected_upserted hd.projected a events
    · show store'.load a.route_id = some a
      rw [hro, if_pos rfl]
  · exact ⟨hd, .inr ⟨her, rfl⟩⟩

theorem durable_delete {id : String} (hd : Durable store)
    (h : store.persist_delete env id [.RouteRemoved id] = (result, store')) :
    Durable store' ∧ (result = .ok () ∨ ((∃ e, result = .error e) ∧ store' = store)) := by
  rcases InMemoryRuntimeStore.persist_delete_spec h with ⟨rfl, hi, hjo⟩ | ⟨he, rfl⟩
  · obtain ⟨journal, hj, hl⟩ := hd.replays
    rw [hj] at hjo
    obtain ⟨journal', hj', hl'⟩ := hjo.of_some
    refine ⟨⟨⟨journal', hj', ?_⟩, ?_⟩, .inl rfl⟩
    · intro id'
      have hr : routeAfter id' (journal.load_all ++ [.RouteRemoved id]) =
          if id = id' then none else routeAfter id' journal.load_all := by
        rw [routeAfter_append]
        rfl
      rw [hl', hr, InMemoryRuntimeStore.load, hi, InMemoryRuntimeStore.lookup_deleted, ← hl]
      rfl
    · rw [hi]
      exact InMemoryRuntimeStore.projected_deleted hd.projected id _
  · exact ⟨hd, .inr ⟨he, rfl⟩⟩

/-! ## One call -/

/-- What the protocol keeps between what a handler believes and the world. -/
def InStep {ρ : Type} (g : Belief) (w : World ρ) : Prop := Durable w.store ∧ Knows w.store g

theorem inStep_call (g : Belief) (c : PortCall) (w : World ρ) (r : Answer c) (w' : World ρ)
    (hI : InStep g w) (ho : Permitted powers g c) (hs : portSem exec c w r w') :
    InStep (learn g c r) w' := by
  obtain ⟨hd, hg⟩ := hI
  cases c with
  | load id =>
    obtain ⟨rfl, rfl⟩ := hs
    refine ⟨hd, ?_⟩
    cases hlo : w'.store.load id with
    | none | some a => exact hlo
  | take_recovered id =>
    obtain ⟨a, rfl⟩ := ho
    cases hs
    refine ⟨⟨hd.replays, hd.projected⟩, ?_⟩
    cases (w.store.take_recovered id).1
    · exact hg
    · exact hg
  | list_statuses =>
    obtain ⟨statuses, rfl, _, rfl⟩ := hs
    exact ⟨hd, hg⟩
  | execution op =>
    obtain ⟨_, hst⟩ := hs
    have hl : learn g (.execution op) r = g := by cases r <;> rfl
    rw [hl]
    refine ⟨?_, ?_⟩
    · rw [hst]
      exact hd
    · rw [hst]
      exact hg
  | force_unhealthy_for_route =>
    obtain ⟨rfl, rfl⟩ := hs
    exact ⟨hd, hg⟩
  | persist_upsert a version projection events =>
    obtain ⟨rfl, hu⟩ := ho
    obtain ⟨env, hs⟩ := hs
    cases hs
    obtain ⟨hd', ⟨hr, hw⟩ | ⟨⟨e, hr⟩, hst⟩⟩ := durable_upsert hu hd hg (Prod.mk.eta).symm
    · rw [hr]
      exact ⟨hd', hw⟩
    · rw [hr]
      refine ⟨hd', ?_⟩
      rw [hst]
      exact hg
  | persist_delete id events =>
    obtain ⟨_, a, rfl, _, rfl⟩ := ho
    obtain ⟨env, hs⟩ := hs
    cases hs
    rw [hd.route_id hg]
    obtain ⟨hd', hr | ⟨⟨e, hr⟩, hst⟩⟩ := durable_delete hd (Prod.mk.eta).symm
    · rw [hr]
      exact ⟨hd', trivial⟩
    · rw [hr]
      refine ⟨hd', ?_⟩
      rw [hst]
      exact hg
  | save | save_if_version | delete | upsert_status | remove_status | publish => exact ho.elim

theorem durable_handler {α : Type} {h : Handler α} {Q : Outcome CamelError α → Belief → Prop}
    (hp : wp (rule ⟨fun _ => True, true⟩) h.run Q .unknown) {w w' : World ρ}
    {r : Outcome CamelError α} (hd : Durable w.store) (hr : Runs (portSem exec) h.run w r w') :
    Durable w'.store := by
  obtain ⟨g, _, hI⟩ := runs_of_protocol (I := InStep) inStep_call hp ⟨hd, trivial⟩ hr
  exact hI.1

/-! ## Runs of the control plane -/

/-- One step of the control plane: a command that runs to its end, or a restart
of the process, which replays the journal into a new store. -/
inductive ControlStep {ρ : Type} (exec : RuntimeSem ρ) (deps : CommandDeps) :
    World ρ → World ρ → Prop
  | command (cmd : RuntimeCommand) {r : Outcome CamelError RuntimeCommandResult} {w w' : World ρ} :
      Runs (portSem exec) (execute_command deps cmd).run w r w' → ControlStep exec deps w w'
  | register_internal (definition : RouteDefinition)
      {r : Outcome CamelError RuntimeCommandResult} {w w' : World ρ} :
      Runs (portSem exec) (handle_register_internal deps definition).run w r w' →
      ControlStep exec deps w w'
  | register_aggregate_only (route_id : String) {r : Outcome CamelError Unit} {w w' : World ρ} :
      Runs (portSem exec) (register_aggregate_only deps route_id).run w r w' →
      ControlStep exec deps w w'
  | reconcile {r : Outcome CamelError Unit} {w w' : World ρ} :
      Runs (portSem exec) (reconcile_transient_states deps).run w r w' → ControlStep exec deps w w'
  | restart {w : World ρ} {journal : RedbRuntimeEventJournal} {env : JournalEnv}
      {store' : InMemoryRuntimeStore} (runtime : ρ) :
      w.store.journal = some journal →
      (InMemoryRuntimeStore.with_journal journal).recover_from_journal env = (.ok (), store') →
      ControlStep exec deps w ⟨store', runtime⟩

section

variable
  (h : (InMemoryRuntimeStore.with_journal journal).recover_from_journal env = (.ok (), store))

include h

theorem recover_from_journal_spec :
    store.journal = some journal ∧ store.inner.routes = (replay journal.load_all).routes ∧
      store.inner.statuses = (replay journal.load_all).statuses := by
  unfold InMemoryRuntimeStore.with_journal InMemoryRuntimeStore.recover_from_journal at h
  simp only at h
  split at h
  · cases h
  · cases h
    exact ⟨rfl, rfl, rfl⟩

theorem durable_recovered : Durable store := by
  obtain ⟨hj, hr, hs⟩ := recover_from_journal_spec h
  refine ⟨⟨journal, hj, ?_⟩, ?_⟩
  · intro id
    rw [InMemoryRuntimeStore.load, hr, (replay_spec _).2]
  · intro id
    rw [hs, hr]
    exact (replay_spec _).1 id

end

theorem durable_new (threshold : Nat) :
    Durable (.with_journal (RedbRuntimeEventJournal.new threshold)) :=
  ⟨⟨_, rfl, fun _ => rfl⟩, fun _ => rfl⟩

theorem durable_step (hu : deps.uow = true) {w w' : World ρ} (hs : ControlStep exec deps w w')
    (hd : Durable w.store) : Durable w'.store := by
  cases hs with
  | command cmd hr =>
    exact durable_handler (execute_command_follows hu cmd fun _ _ _ _ => trivial) hd hr
  | register_internal definition hr =>
    exact durable_handler (handle_register_internal_follows hu definition) hd hr
  | register_aggregate_only id hr =>
    exact durable_handler (register_aggregate_only_follows hu id) hd hr
  | reconcile hr => exact durable_handler (reconcile_transient_states_follows hu rfl) hd hr
  | restart runtime _ hrec => exact durable_recovered hrec

theorem durable_run (hu : deps.uow = true) {w w' : World ρ}
    (hr : Relation.ReflTransGen (ControlStep exec deps) w w') (hd : Durable w.store) :
    Durable w'.store := by
  induction hr with
  | refl => exact hd
  | tail _ hs ih => exact durable_step hu hs ih

/-- A command with nothing failing. -/
def healthyCommand (cmd : RuntimeCommand) (w : World Unit) : World Unit :=
  (eval (portFn {}) (execute_command {} cmd).run w).2

def startedWorld : World Unit :=
  healthyCommand (.StartRoute "r" "2" none)
    (healthyCommand (.RegisterRoute { route_id := "r", origin := "timer:t" } "1" none)
      ⟨.with_journal (.new 10000), ()⟩)

theorem controlStep_healthyCommand (cmd : RuntimeCommand) (w : World Unit) :
    ControlStep (fun _ _ r _ => r = .ok ()) ⟨true, true, false⟩ w (healthyCommand cmd w) :=
  ControlStep.command cmd (runs_eval (portSem_portFn fun _ _ => rfl) _ _)

end camel_core.lifecycle
