-- What a call of the bus does to the routes of the controller and to the ids of
-- the store, when it is awaited to its end. The log of its ports tells which of
-- its steps failed.
import RustCamel.Lifecycle.CommandDedup
import RustCamel.Lifecycle.RouteController

open Finmap

namespace camel_core.lifecycle

open camel_api Handler Prog RouteRuntimeAggregate InMemoryRuntimeStore

/-! ## Calls that are awaited -/

abbrev PortLog := List (Entry BusCall BusAnswer)

abbrev BusState := RuntimeBus DefaultRouteController × PortLog

def awaitedSem : Sem BusCall BusAnswer BusState :=
  fun c x r y => r.isSome ∧ recorded (busSem controllerSem) c x r y

def handlerSem : Sem PortCall Answer BusState :=
  fun c x r y => recorded (busSem controllerSem) (.port c) x (some r) y

variable {Q : Option (Outcome CamelError RuntimeCommandResult) → BusState → Prop} {x : BusState}
  {c : PortCall} {y : BusState} {r : Except DomainError Unit}
  {bus : RuntimeBus DefaultRouteController}

theorem wp_awaiting {c : BusCall} {k : BusReply c → BusProg}
    (h : ∀ reply y, recorded (busSem controllerSem) c x (some reply) y →
      wp (ofSem awaitedSem) (k reply) Q y) : wp (ofSem awaitedSem) (awaiting c k) Q x := by
  rintro (_ | reply) y ⟨hs, hst⟩
  · cases hs
  · exact h reply y hst

theorem wp_within {p : Prog PortCall Answer (Outcome CamelError RuntimeCommandResult)}
    {k : Outcome CamelError RuntimeCommandResult → BusProg}
    (h : wp (ofSem handlerSem) p (fun r y => wp (ofSem awaitedSem) (k r) Q y) x) :
    wp (ofSem awaitedSem) (within p k) Q x := by
  induction p generalizing x with
  | done r => exact h
  | call c next ih =>
    apply wp_awaiting
    intro reply y hs
    exact ih reply (h reply y hs)

/-! ## The routes and the ids -/

/-- The store shows what it has, and the journal was read. -/
def Synced (bus : RuntimeBus DefaultRouteController) : Prop :=
  Projected bus.world.store.inner ∧ bus.journal_recovered_once ≠ none

/-- What the bus has come to: the routes of the controller, and the ids of the store. The
staged routes are those of the start. -/
structure Reaches (bus₀ : RuntimeBus DefaultRouteController)
    (routes : Finmap (fun _ : String => RouteDefinition)) (ids : String → Prop)
    (bus : RuntimeBus DefaultRouteController) : Prop where
  staging : bus.world.runtime.prepared_staging = bus₀.world.runtime.prepared_staging
  routes : bus.world.runtime.routes = routes
  ids : Synced bus₀ → Synced bus ∧ ∀ id, id ∈ bus.world.store.inner.routes ↔ ids id

def storedIds (bus : RuntimeBus DefaultRouteController) (id : String) : Prop :=
  id ∈ bus.world.store.inner.routes

theorem Reaches.refl (bus : RuntimeBus DefaultRouteController) :
    Reaches bus bus.world.runtime.routes (storedIds bus) bus :=
  ⟨rfl, rfl, fun h => ⟨h, fun _ => Iff.rfl⟩⟩

theorem synced_statuses (h : Synced bus) (id : String) :
    id ∈ bus.world.store.inner.statuses ↔ storedIds bus id := by
  unfold storedIds
  rw [← lookup_isSome, ← lookup_isSome, h.1 id, Option.isSome_map]

/-! ## Calls that keep the ids -/

/-- The calls of a command that starts, stops or compensates. -/
def KeepsIds : PortCall → Prop
  | .load _ | .take_recovered _ | .list_statuses | .force_unhealthy_for_route _ _ _ => True
  | .execution (.register_route _) | .execution (.remove_route _) => False
  | .execution _ => True
  | .persist_upsert a (some _) projection _ => projection = project_from_aggregate a
  | _ => False

variable {bus₀ : RuntimeBus DefaultRouteController}
  {routes : Finmap (fun _ : String => RouteDefinition)} {ids : String → Prop}
  {bus' : RuntimeBus DefaultRouteController} {command : RouteLifecycleCommand}
  {p : Entry BusCall BusAnswer → Prop} {cmd : RuntimeCommand} {deps : CommandDeps}
  {definition : RouteDefinition}

section

variable (h : Reaches bus₀ routes ids bus) (hruntime : bus'.world.runtime = bus.world.runtime)
  (honce : bus'.journal_recovered_once = bus.journal_recovered_once)

include h hruntime honce

theorem Reaches.of_store {ids' : String → Prop}
    (hst : Projected bus.world.store.inner → (∀ id, storedIds bus id ↔ ids id) →
      Projected bus'.world.store.inner ∧ ∀ id, storedIds bus' id ↔ ids' id) :
    Reaches bus₀ routes ids' bus' := by
  refine ⟨by rw [hruntime, h.staging], by rw [hruntime, h.routes], ?_⟩
  intro hs
  obtain ⟨⟨hp, hr⟩, hi⟩ := h.ids hs
  obtain ⟨hp', hi'⟩ := hst hp hi
  exact ⟨⟨hp', by rw [honce]; exact hr⟩, hi'⟩

theorem Reaches.of_inner (hr : bus'.world.store.inner.routes = bus.world.store.inner.routes)
    (hs : bus'.world.store.inner.statuses = bus.world.store.inner.statuses) :
    Reaches bus₀ routes ids bus' := by
  refine h.of_store hruntime honce ?_
  unfold Projected storedIds
  rw [hr, hs]
  exact fun hp hi => ⟨hp, hi⟩

end

theorem Reaches.keeps {r : Answer c} (hx : Reaches bus₀ routes ids x.1) (hc : KeepsIds c)
    (h : handlerSem c x r y) : Reaches bus₀ routes ids y.1 := by
  obtain ⟨⟨hpo, honce⟩, -⟩ := h
  -- A call that leaves the world alone.
  have hsa : y.1.world = x.1.world → Reaches bus₀ routes ids y.1 := by
    intro hw
    apply hx.of_inner _ honce <;> rw [hw]
  cases c with
  | load | force_unhealthy_for_route => exact hsa hpo.2
  | list_statuses =>
    obtain ⟨_, _, _, hw⟩ := hpo
    exact hsa hw
  | take_recovered =>
    obtain ⟨-, hw⟩ := Prod.mk.inj hpo
    apply hx.of_inner _ honce <;> rw [hw] <;> rfl
  | execution op =>
    obtain ⟨ho, hs⟩ := hpo
    have hruntime : y.1.world.runtime = x.1.world.runtime := by
      cases op with
      | register_route | remove_route => exact hc.elim
      | _ => exact ho
    apply hx.of_inner hruntime honce <;> rw [hs]
  | persist_upsert a version projection events =>
    cases version with
    | none => exact hc.elim
    | some n =>
      obtain ⟨env, hpo⟩ := hpo
      rcases hu : x.1.world.store.persist_upsert env a (some n) projection events with
        ⟨r', store'⟩
      rw [hu] at hpo
      obtain ⟨-, hw⟩ := Prod.mk.inj hpo
      rcases persist_upsert_spec hu with ⟨_, hv, hi, _⟩ | ⟨_, rfl⟩
      · refine hx.of_store (by rw [hw]) honce ?_
        intro hp hids
        unfold storedIds
        rw [hw, hi, show projection = _ from hc]
        refine ⟨projected_upserted hp a events, ?_⟩
        -- The route was there before, under the version that the upsert names.
        obtain ⟨current, hl, _⟩ := hv n rfl
        intro id
        rw [← hids id]
        unfold upserted storedIds
        rw [mem_insert]
        constructor
        · rintro (rfl | hid)
          · exact mem_of_lookup_eq_some hl
          · exact hid
        · exact .inr
      · exact hsa hw
  | save | save_if_version | delete | upsert_status | remove_status | publish | persist_delete =>
    exact hc.elim

/-! ## Calls that change them -/

theorem Reaches.of_runtime {routes' : Finmap (fun _ : String => RouteDefinition)}
    (h : Reaches bus₀ routes ids bus) (hs : bus'.world.store = bus.world.store)
    (honce : bus'.journal_recovered_once = bus.journal_recovered_once)
    (hst : bus'.world.runtime.prepared_staging = bus.world.runtime.prepared_staging)
    (hr : bus'.world.runtime.routes = routes') : Reaches bus₀ routes' ids bus' := by
  refine ⟨by rw [hst, h.staging], hr, ?_⟩
  unfold Synced
  rw [hs, honce]
  exact h.ids

theorem Reaches.register (hx : Reaches bus₀ routes ids x.1)
    (h : handlerSem (.execution (.register_route definition)) x r y) :
    ((∃ e, r = .error e) ∧ Reaches bus₀ routes ids y.1) ∨
      (r = .ok () ∧ definition.route_id ∉ routes ∧
        Reaches bus₀ (routes.insert definition.route_id definition) ids y.1) := by
  obtain ⟨⟨⟨⟨built, ho⟩, hs⟩, honce⟩, -⟩ := h
  rcases had : x.1.world.runtime.add_route built definition with ⟨r', next⟩
  rw [had] at ho
  obtain ⟨hr, hruntime⟩ := Prod.mk.inj ho
  rcases DefaultRouteController.add_route_cases had with ⟨⟨e, rfl⟩, rfl⟩ | ⟨rfl, ha, rfl⟩
  · refine .inl ⟨⟨_, hr⟩, hx.of_runtime hs honce (by rw [hruntime]) ?_⟩
    rw [hruntime, hx.routes]
  · refine .inr ⟨hr, by rwa [← hx.routes], hx.of_runtime hs honce (by rw [hruntime]) ?_⟩
    rw [hruntime, ← hx.routes]

theorem Reaches.remove {route_id : String} (hx : Reaches bus₀ routes ids x.1)
    (h : handlerSem (.execution (.remove_route route_id)) x r y) :
    ((∃ e, r = .error e) ∧ Reaches bus₀ routes ids y.1) ∨
      (r = .ok () ∧ Reaches bus₀ (routes.erase route_id) ids y.1) := by
  obtain ⟨⟨⟨⟨refusal, ho⟩, hs⟩, honce⟩, -⟩ := h
  rcases hre : x.1.world.runtime.remove_route refusal route_id with ⟨r', next⟩
  rw [hre] at ho
  obtain ⟨hr, hruntime⟩ := Prod.mk.inj ho
  rcases DefaultRouteController.remove_route_cases hre with ⟨⟨e, rfl⟩, rfl⟩ | ⟨rfl, _, rfl⟩
  · refine .inl ⟨⟨_, hr⟩, hx.of_runtime hs honce (by rw [hruntime]) ?_⟩
    rw [hruntime, hx.routes]
  · refine .inr ⟨hr, hx.of_runtime hs honce (by rw [hruntime]) ?_⟩
    rw [hruntime, ← hx.routes]

theorem Reaches.store {a : RouteRuntimeAggregate} {events : List RuntimeEvent}
    (hx : Reaches bus₀ routes ids x.1)
    (h : handlerSem (.persist_upsert a none (project_from_aggregate a) events) x r y) :
    ((∃ e, r = .error e) ∧ Reaches bus₀ routes ids y.1) ∨
      (r = .ok () ∧ Reaches bus₀ routes (fun id => id = a.route_id ∨ ids id) y.1) := by
  obtain ⟨⟨⟨env, hpo⟩, honce⟩, -⟩ := h
  rcases hu : x.1.world.store.persist_upsert env a none (project_from_aggregate a) events with
    ⟨r', store'⟩
  rw [hu] at hpo
  obtain ⟨rfl, hw⟩ := Prod.mk.inj hpo
  rcases persist_upsert_spec hu with ⟨ho, _, hi, _⟩ | ⟨he, rfl⟩
  · refine .inr ⟨ho, hx.of_store (by rw [hw]) honce ?_⟩
    intro hp hid
    unfold storedIds
    rw [hw, hi]
    refine ⟨projected_upserted hp a events, ?_⟩
    intro id
    rw [← hid id]
    exact mem_insert
  · refine .inl ⟨he, ?_⟩
    apply hx.of_inner _ honce <;> rw [hw]

theorem Reaches.delete {route_id : String} {events : List RuntimeEvent}
    (hx : Reaches bus₀ routes ids x.1) (h : handlerSem (.persist_delete route_id events) x r y) :
    ((∃ e, r = .error e) ∧ Reaches bus₀ routes ids y.1) ∨
      (r = .ok () ∧ Reaches bus₀ routes (fun id => id ≠ route_id ∧ ids id) y.1) := by
  obtain ⟨⟨⟨env, hpo⟩, honce⟩, -⟩ := h
  rcases hd : x.1.world.store.persist_delete env route_id events with ⟨r', store'⟩
  rw [hd] at hpo
  obtain ⟨rfl, hw⟩ := Prod.mk.inj hpo
  rcases persist_delete_spec hd with ⟨ho, hi, _⟩ | ⟨he, rfl⟩
  · refine .inr ⟨ho, hx.of_store (by rw [hw]) honce ?_⟩
    intro hp hid
    unfold storedIds
    rw [hw, hi]
    refine ⟨projected_deleted hp route_id events, ?_⟩
    intro id
    rw [← hid id]
    exact mem_erase
  · refine .inl ⟨he, ?_⟩
    apply hx.of_inner _ honce <;> rw [hw]

/-! ## Lifecycle commands keep the ids -/

section

variable {α : Type} {deps : CommandDeps} {h : Handler α}

/-- A handler with such calls only. -/
def KeepingIds (h : Handler α) : Prop := Makes KeepsIds h.run

theorem keeping_bind {β : Type} {f : α → Handler β} (hh : KeepingIds h)
    (hf : ∀ a, KeepingIds (f a)) : KeepingIds (h >>= f) := Makes.run_bind hh hf

theorem keeping_port (hc : KeepsIds c) : KeepingIds (port c) := ⟨hc, fun _ => trivial⟩

theorem keeping_attempt (hc : KeepsIds c) : KeepingIds (attempt c) := ⟨hc, fun _ => trivial⟩

theorem keeping_result (hh : KeepingIds h) : KeepingIds (result h) := Makes.bind hh fun _ => trivial

section

variable (hu : deps.uow = true) (a : RouteRuntimeAggregate) (version : Nat)

include hu a version

theorem keeping_compensate (error : String) : KeepingIds (compensate deps a version error) := by
  unfold compensate
  refine keeping_bind trivial ?_
  rintro ⟨failed, events⟩
  dsimp only
  rw [if_pos hu]
  exact keeping_bind (keeping_attempt rfl) fun _ => trivial

theorem keeping_persist_and_return (events : List RuntimeEvent) (route_id : String) :
    KeepingIds (persist_and_return deps a version events route_id) := by
  unfold persist_and_return
  split
  · trivial
  · exact keeping_bind (keeping_port rfl) fun _ => trivial

end

theorem keeping_resolve_superseded_conflict (conflict : CamelError) (route_id : String) :
    KeepingIds (resolve_superseded_conflict conflict route_id) := by
  unfold resolve_superseded_conflict
  refine keeping_bind (keeping_attempt trivial) ?_
  rintro (e | _ | reloaded)
  · trivial
  · trivial
  · dsimp only
    split <;> trivial

theorem keeping_apply_runtime_lifecycle (route_id : String) (hc : command ≠ .Remove)
    (stop_budget : Option Nat) :
    KeepingIds (apply_runtime_lifecycle route_id command stop_budget) := by
  unfold apply_runtime_lifecycle
  cases command with
  | Start | Resume =>
    refine keeping_bind (keeping_attempt trivial) ?_
    rintro (e | _)
    · refine keeping_bind (keeping_attempt trivial) ?_
      rintro (e' | _) <;> trivial
    · trivial
  | Suspend =>
    refine keeping_bind (keeping_attempt trivial) ?_
    rintro (e | _)
    · refine keeping_bind (keeping_attempt trivial) ?_
      rintro (e' | _)
      · trivial
      · refine keeping_bind (keeping_attempt trivial) ?_
        rintro (e'' | _) <;> trivial
    · trivial
  | Stop | Reload => exact keeping_port trivial
  | Fail error => trivial
  | Remove => exact absurd rfl hc

theorem keeping_with_execution {effect : Handler Unit} (he : KeepingIds effect) :
    KeepingIds (with_execution deps effect) := by
  unfold with_execution
  split
  · exact keeping_result he
  · trivial

variable (hu : deps.uow = true)

include hu

variable (a : RouteRuntimeAggregate)

theorem keeping_confirm_started (events : List RuntimeEvent) :
    KeepingIds (confirm_started deps a events) := by
  unfold confirm_started
  dsimp only
  split
  · trivial
  · refine keeping_bind (keeping_attempt rfl) ?_
    rintro (e | _)
    · dsimp only
      split
      · exact keeping_resolve_superseded_conflict _ _
      · trivial
    · rw [hu]
      trivial

theorem keeping_handle_lifecycle_start (version : Nat) :
    KeepingIds (handle_lifecycle_start deps a version) := by
  unfold handle_lifecycle_start
  refine keeping_bind trivial ?_
  rintro ⟨starting, events⟩
  dsimp only
  split
  · trivial
  · have hi : KeepingIds (persist_intent deps starting version events) := by
      unfold persist_intent
      rw [if_pos hu]
      exact keeping_port rfl
    apply keeping_bind hi
    intro _
    apply keeping_bind (keeping_with_execution (keeping_apply_runtime_lifecycle _ (by simp) none))
    rintro (e | _)
    · exact keeping_bind (keeping_compensate hu _ _ _) fun _ => trivial
    · refine keeping_bind trivial ?_
      rintro ⟨started, events⟩
      exact keeping_confirm_started hu _ _

theorem keeping_handle_runtime_lifecycle (route_id : String) (a : RouteRuntimeAggregate)
    (hc : command ≠ .Remove) (stop_budget : Option Nat) :
    KeepingIds (handle_runtime_lifecycle deps route_id a command stop_budget) := by
  unfold handle_runtime_lifecycle
  split
  · trivial
  · refine keeping_bind trivial ?_
    rintro ⟨_, events⟩
    dsimp only
    split
    · trivial
    · apply keeping_bind (keeping_with_execution (keeping_apply_runtime_lifecycle _ hc _))
      rintro (e | _)
      · exact keeping_bind (keeping_compensate hu _ _ _) fun _ => trivial
      · show KeepingIds (finish_lifecycle deps route_id a command)
        unfold finish_lifecycle
        refine keeping_bind trivial ?_
        rintro ⟨changed, events⟩
        dsimp only
        split
        · apply keeping_bind (keeping_result (keeping_persist_and_return hu _ _ _ _))
          rintro (e | _)
          · dsimp only
            split
            · exact keeping_resolve_superseded_conflict _ _
            · trivial
          · trivial
        · exact keeping_persist_and_return hu _ _ _ _

theorem keeping_handle_lifecycle (route_id : String) (hc : command ≠ .Remove)
    (stop_budget : Option Nat) :
    KeepingIds (handle_lifecycle deps route_id command stop_budget) := by
  unfold handle_lifecycle
  refine keeping_bind (keeping_port trivial) ?_
  rintro (_ | a)
  · trivial
  · cases command with
    | Start => exact keeping_handle_lifecycle_start hu _ _
    | Fail error =>
      show KeepingIds (handle_fail deps route_id a error)
      unfold handle_fail
      refine keeping_bind trivial ?_
      rintro ⟨failed, events⟩
      dsimp only
      split
      · refine keeping_bind (keeping_attempt trivial) ?_
        intro _
        exact keeping_persist_and_return hu _ _ _ _
      · exact keeping_persist_and_return hu _ _ _ _
    | Stop | Suspend | Resume | Reload | Remove =>
      exact keeping_handle_runtime_lifecycle hu _ _ hc _

end

/-! ## The gate -/

def GateCall : BusCall → Prop
  | .ensure_journal_recovered | .first_seen _ | .forget_seen _ => True
  | _ => False

theorem Reaches.ensure (h : Reaches bus₀ routes ids bus) (env : JournalEnv) (order : IterOrder) :
    Reaches bus₀ routes ids (bus.ensure_journal_recovered env order).2 := by
  cases honce : bus.journal_recovered_once with
  | some nonce =>
    unfold RuntimeBus.ensure_journal_recovered
    rw [honce]
    exact h
  | none =>
    -- The bus has not read its journal, so nothing is promised about its ids.
    have hruntime : (bus.ensure_journal_recovered env order).2.world.runtime =
        bus.world.runtime := by
      unfold RuntimeBus.ensure_journal_recovered
      rw [honce]
      dsimp only
      split
      · rfl
      · split <;> rfl
    refine ⟨by rw [hruntime, h.staging], by rw [hruntime, h.routes], ?_⟩
    intro hs
    exact absurd honce (h.ids hs).1.2

theorem Reaches.gate {c : BusCall} {r : BusReply c} (h : Reaches bus₀ routes ids bus)
    (hc : GateCall c) (hs : busSem controllerSem c bus (some r) bus') :
    Reaches bus₀ routes ids bus' := by
  cases c with
  | ensure_journal_recovered =>
    obtain ⟨env, order, hs⟩ := hs
    have hb : bus' = (bus.ensure_journal_recovered env order).2 := congrArg Prod.snd hs
    rw [hb]
    exact h.ensure env order
  | first_seen command_id =>
    obtain ⟨env, hs⟩ := hs
    obtain ⟨-, rfl⟩ := Prod.mk.inj hs
    have hi : (bus.world.store.first_seen env command_id).2.inner.routes =
        bus.world.store.inner.routes ∧
      (bus.world.store.first_seen env command_id).2.inner.statuses =
        bus.world.store.inner.statuses := by
      unfold first_seen
      split
      · exact ⟨rfl, rfl⟩
      · dsimp only
        split
        · exact ⟨rfl, rfl⟩
        · split <;> exact ⟨rfl, rfl⟩
    exact h.of_inner rfl rfl hi.1 hi.2
  | forget_seen command_id =>
    obtain ⟨env, hs⟩ := hs
    obtain ⟨-, rfl⟩ := Prod.mk.inj hs
    have hi : (bus.world.store.forget_seen env command_id).2.inner.routes =
        bus.world.store.inner.routes ∧
      (bus.world.store.forget_seen env command_id).2.inner.statuses =
        bus.world.store.inner.statuses := by
      unfold forget_seen
      dsimp only
      split <;> exact ⟨rfl, rfl⟩
    exact h.of_inner rfl rfl hi.1 hi.2
  | reload_tls | reload_templates | port => exact hc.elim

/-- What a handler does, seen from outside the gate. `I` holds until the handler runs, and `Q`
when it is done. The calls of the gate keep both. -/
theorem wp_execute (hu : deps.uow = true) (hc : cmd.Deduplicated) {I : BusState → Prop}
    {Q : Outcome CamelError RuntimeCommandResult → BusState → Prop}
    (hI : ∀ {c x y r}, recorded (busSem controllerSem) c x (some r) y → GateCall c → I x → I y)
    (hQ : ∀ {c x y r v}, recorded (busSem controllerSem) c x (some r) y → GateCall c →
      Q v x → Q v y) (hre : ∀ v x, I x → Q v x)
    (hru : ∀ x, I x → wp (ofSem handlerSem) (execute_command deps cmd).run Q x) (hx : I x) :
    wp (ofSem awaitedSem) (execute deps cmd) (fun r y => ∀ v, r = some v → Q v y) x := by
  have hr : ∀ {v y}, Q v y →
      wp (ofSem awaitedSem) (returning v) (fun r y => ∀ v, r = some v → Q v y) y := by
    rintro v y hv _ ⟨⟩
    exact hv
  have hgate : ∀ next, (∀ e, next (.error e) = returning (.error (.err (.of_domain e)))) →
      next (.ok ()) = dedup_gate deps cmd → wp (ofSem awaitedSem)
        (if deps.uow then awaiting .ensure_journal_recovered next else dedup_gate deps cmd)
        (fun r y => ∀ v, r = some v → Q v y) x := by
    intro next he hk
    rw [if_pos hu]
    apply wp_awaiting
    rintro (e | _) y hs
    · rw [he]
      exact hr (hre _ y (hI hs trivial hx))
    · have hy := hI hs trivial hx
      rw [hk]
      unfold dedup_gate
      apply wp_awaiting
      rintro (e | _ | _) z hs
      · exact hr (hre _ z (hI hs trivial hy))
      · exact hr (hre _ z (hI hs trivial hy))
      · apply wp_within
        refine wp_mono (mono_ofSem _) ?_ (hru z (hI hs trivial hy))
        rintro ((e | _) | v) u hu
        · apply wp_awaiting
          intro reply u' hs
          exact hr (hQ hs trivial hu)
        all_goals exact hr hu
  cases cmd with
  | ReloadTlsCerts | ReloadTemplates => exact absurd hc id
  | _ => exact hgate _ (fun _ => rfl) rfl

theorem wp_execute_keeping (hu : deps.uow = true) (hcm : cmd.Deduplicated)
    (hk : KeepingIds (execute_command deps cmd)) (hx : Reaches bus₀ routes ids x.1) :
    wp (ofSem awaitedSem) (execute deps cmd)
      (fun r y => ∀ v, r = some v → Reaches bus₀ routes ids y.1) x := by
  refine wp_execute hu hcm (I := fun y => Reaches bus₀ routes ids y.1)
    (Q := fun _ y => Reaches bus₀ routes ids y.1) ?_ ?_ (fun _ _ h => h) ?_ hx
  · intro c x y r hs hc h
    exact h.gate hc hs.1
  · intro c x y r _ hs hc h
    exact h.gate hc hs.1
  · intro y hy
    exact wp_ofSem_of_makes (fun _ _ _ _ h hc hs => h.keeps hc hs) hk hy

/-! ## A removal -/

def Logged (p : Entry BusCall BusAnswer → Prop) (log : PortLog) : Prop := ∃ e ∈ log, p e

theorem logged_append {log : PortLog} {e : Entry BusCall BusAnswer} :
    Logged p (log ++ [e]) ↔ Logged p log ∨ p e := by
  simp [Logged, or_and_right, exists_or]

theorem not_logged_nil : ¬ Logged p [] := by
  rintro ⟨e, he, _⟩
  cases he

/-- The runtime took the route out. -/
def TakesOut (route_id : String) : Entry BusCall BusAnswer → Prop
  | ⟨.port (.execution (.remove_route id)), some (.ok _)⟩ => id = route_id
  | _ => False

/-- The runtime refused to take a route out. -/
def RemovalFails : Entry BusCall BusAnswer → Prop
  | ⟨.port (.execution (.remove_route _)), some (.error _)⟩ => True
  | _ => False

/-- The store failed to delete a route. -/
def DeletionFails : Entry BusCall BusAnswer → Prop
  | ⟨.port (.persist_delete _ _), some (.error _)⟩ => True
  | _ => False

instance {p : Entry BusCall BusAnswer → Prop} [DecidablePred p] (log : PortLog) :
    Decidable (Logged p log) := inferInstanceAs (Decidable (∃ e ∈ log, p e))

instance : DecidablePred RemovalFails := fun e => by
  unfold RemovalFails
  split <;> infer_instance

instance : DecidablePred DeletionFails := fun e => by
  unfold DeletionFails
  split <;> infer_instance

/-- What the bus has come to, and what the log tells of a removal. -/
structure Removing (route_id : String) (bus₀ : RuntimeBus DefaultRouteController)
    (routes : Finmap (fun _ : String => RouteDefinition)) (ids : String → Prop)
    (removed failed : Prop) (x : BusState) : Prop where
  reaches : Reaches bus₀ routes ids x.1
  removed : Logged (TakesOut route_id) x.2 ↔ removed
  failed : Logged DeletionFails x.2 ↔ failed

variable {route_id : String} {removed failed : Prop}

theorem Removing.keeps {r : Answer c} (hx : Removing route_id bus₀ routes ids removed failed x)
    (hc : KeepsIds c) (h : handlerSem c x r y) :
    Removing route_id bus₀ routes ids removed failed y := by
  have ho : ¬ TakesOut route_id ⟨.port c, some r⟩ := by
    cases c with
    | execution op =>
      cases op with
      | remove_route => exact hc.elim
      | _ => exact id
    | _ => exact id
  have hd : ¬ DeletionFails ⟨.port c, some r⟩ := by
    cases c with
    | persist_delete => exact hc.elim
    | _ => exact id
  refine ⟨hx.reaches.keeps hc h, ?_, ?_⟩
  · rw [h.2, logged_append, or_iff_left ho]
    exact hx.removed
  · rw [h.2, logged_append, or_iff_left hd]
    exact hx.failed

theorem Removing.gate {c : BusCall} {r : BusReply c}
    (hx : Removing route_id bus₀ routes ids removed failed x) (hc : GateCall c)
    (h : recorded (busSem controllerSem) c x (some r) y) :
    Removing route_id bus₀ routes ids removed failed y := by
  have hq : ¬ TakesOut route_id ⟨c, some r⟩ ∧ ¬ DeletionFails ⟨c, some r⟩ := by
    cases c with
    | port => exact hc.elim
    | _ => exact ⟨id, id⟩
  refine ⟨hx.reaches.gate hc h.1, ?_, ?_⟩
  · rw [h.2, logged_append, or_iff_left hq.1]
    exact hx.removed
  · rw [h.2, logged_append, or_iff_left hq.2]
    exact hx.failed

theorem Removing.remove (hx : Removing route_id bus₀ routes ids False False x)
    (h : handlerSem (.execution (.remove_route route_id)) x r y) :
    ((∃ e, r = .error e) ∧ Removing route_id bus₀ routes ids False False y) ∨
      (r = .ok () ∧ Removing route_id bus₀ (routes.erase route_id) ids True False y) := by
  have hd : ¬ DeletionFails ⟨.port (.execution (.remove_route route_id)), some r⟩ := id
  have hf : Logged DeletionFails y.2 ↔ False := by
    rw [h.2, logged_append, or_iff_left hd]
    exact hx.failed
  rcases hx.reaches.remove h with ⟨⟨e, rfl⟩, hr⟩ | ⟨rfl, hr⟩
  · refine .inl ⟨⟨e, rfl⟩, hr, ?_, hf⟩
    rw [h.2, logged_append]
    exact (or_iff_left id).trans hx.removed
  · refine .inr ⟨rfl, hr, ?_, hf⟩
    rw [h.2, logged_append]
    exact iff_of_true (.inr rfl) trivial

theorem Removing.delete {events : List RuntimeEvent}
    (hx : Removing route_id bus₀ routes ids True False x)
    (h : handlerSem (.persist_delete route_id events) x r y) :
    ((∃ e, r = .error e) ∧ Removing route_id bus₀ routes ids True True y) ∨
      (r = .ok () ∧
        Removing route_id bus₀ routes (fun id => id ≠ route_id ∧ ids id) True False y) := by
  have ho : ¬ TakesOut route_id ⟨.port (.persist_delete route_id events), some r⟩ := id
  have hr : Logged (TakesOut route_id) y.2 ↔ True := by
    rw [h.2, logged_append, or_iff_left ho]
    exact hx.removed
  rcases hx.reaches.delete h with ⟨⟨e, rfl⟩, hre⟩ | ⟨rfl, hre⟩
  · refine .inl ⟨⟨e, rfl⟩, hre, hr, ?_⟩
    rw [h.2, logged_append]
    exact iff_of_true (.inr trivial) trivial
  · refine .inr ⟨rfl, hre, hr, ?_⟩
    rw [h.2, logged_append]
    exact (or_iff_left id).trans hx.failed

/-- How a removal ends: nothing was removed, or the route is gone everywhere, or it is gone from
the runtime only, because the store failed to delete it. -/
def RemovalEnds (route_id : String) (bus₀ : RuntimeBus DefaultRouteController)
    (routes : Finmap (fun _ : String => RouteDefinition)) (ids : String → Prop)
    (r : Outcome CamelError RuntimeCommandResult) (x : BusState) : Prop :=
  Removing route_id bus₀ routes ids False False x ∨
    ((∃ v, r = .ok v) ∧ Removing route_id bus₀ (routes.erase route_id)
      (fun id => id ≠ route_id ∧ ids id) True False x) ∨
    ((∃ e, r = .error e) ∧ Removing route_id bus₀ (routes.erase route_id) ids True True x)

theorem wp_remove_runtime_route_with_recovery
    (hx : Removing route_id bus₀ routes ids False False x) :
    wp (ofSem handlerSem) (remove_runtime_route_with_recovery route_id).run
      (fun r y => ((∃ e, r = .error e) ∧ Removing route_id bus₀ routes ids False False y) ∨
        (r = .ok () ∧ Removing route_id bus₀ (routes.erase route_id) ids True False y)) x := by
  unfold remove_runtime_route_with_recovery
  rw [wp_run_bind, wp_attempt]
  intro r y hs
  rcases hx.remove hs with ⟨⟨remove_error, rfl⟩, hy⟩ | ⟨rfl, hy⟩
  · dsimp only
    split
    · rw [wp_run_bind, wp_attempt]
      intro r z hs
      have hz := hy.keeps (c := .execution (.stop_route route_id none)) trivial hs
      rcases r with stop_error | _
      · exact .inl ⟨⟨_, rfl⟩, hz⟩
      · dsimp only
        rw [wp_run_bind, wp_attempt]
        intro r u hs
        rcases hz.remove hs with ⟨⟨retry_error, rfl⟩, hu⟩ | ⟨rfl, hu⟩
        · exact .inl ⟨⟨_, rfl⟩, hu⟩
        · exact .inr ⟨rfl, hu⟩
    · exact .inl ⟨⟨_, rfl⟩, hy⟩
  · exact .inr ⟨rfl, hy⟩

theorem wp_finish_remove (hu : deps.uow = true) {a : RouteRuntimeAggregate}
    {a' : RouteRuntimeAggregate × List RuntimeEvent} (ha : a.apply_command .Remove = .ok a')
    (hx : Removing route_id bus₀ (routes.erase route_id) ids True False x) :
    wp (ofSem handlerSem) (finish_remove deps route_id a).run
      (RemovalEnds route_id bus₀ routes ids) x := by
  unfold finish_remove
  rw [wp_of_outcome_bind, ha]
  dsimp only
  rw [if_pos hu, wp_run_bind, wp_port]
  intro r y hs
  rcases hx.delete hs with ⟨⟨e, rfl⟩, hy⟩ | ⟨rfl, hy⟩
  · exact .inr (.inr ⟨⟨_, rfl⟩, hy⟩)
  · exact .inr (.inl ⟨⟨_, rfl⟩, hy⟩)

theorem wp_handle_remove (hu : deps.uow = true) (he : deps.execution = true)
    (hx : Removing route_id bus₀ routes ids False False x) :
    wp (ofSem handlerSem) (handle_remove deps route_id).run
      (RemovalEnds route_id bus₀ routes ids) x := by
  unfold handle_remove
  rw [wp_run_bind, wp_port]
  intro r y hs
  have hy := hx.keeps (c := .load route_id) trivial hs
  rcases r with e | _ | a
  · exact .inl hy
  · exact .inl hy
  · dsimp only [Except.mapError]
    rw [wp_of_outcome_bind]
    split
    · rename_i a' ha
      -- The transition was checked, so the second check cannot fail.
      unfold with_execution
      rw [if_pos he, wp_run_bind, wp_result]
      refine wp_mono (mono_ofSem _) ?_ (wp_remove_runtime_route_with_recovery hy)
      rintro r z (⟨⟨e | _, rfl⟩, hz⟩ | ⟨rfl, hz⟩)
      · dsimp only
        have hco : ∀ error : CamelError, KeepingIds (do
            compensate deps a a.version e.to_string
            err error : Handler RuntimeCommandResult) :=
          fun _ => keeping_bind (keeping_compensate hu _ _ _) fun _ => trivial
        refine wp_mono (mono_ofSem _) (fun _ _ h => .inl h) ?_
        exact wp_ofSem_of_makes (fun _ _ _ _ h hc hs => h.keeps hc hs) (hco _) hz
      · exact .inl hz
      · exact wp_finish_remove hu ha hz
    all_goals exact .inl hy

theorem wp_execute_remove (hu : deps.uow = true) (he : deps.execution = true)
    (command_id : String) (causation_id : Option String) :
    wp (ofSem awaitedSem) (execute deps (.RemoveRoute route_id command_id causation_id))
      (fun r y => ∀ v, r = some v → RemovalEnds route_id bus bus.world.runtime.routes
        (storedIds bus) v y) (bus, []) := by
  have hs : Removing route_id bus bus.world.runtime.routes (storedIds bus) False False
      (bus, []) :=
    ⟨Reaches.refl bus, iff_of_false not_logged_nil id, iff_of_false not_logged_nil id⟩
  have hd : (RuntimeCommand.RemoveRoute route_id command_id causation_id).Deduplicated := trivial
  refine wp_execute hu hd
    (Q := RemovalEnds route_id bus bus.world.runtime.routes (storedIds bus)) ?_ ?_
    (fun _ _ h => .inl h) (fun x hx => wp_handle_remove hu he hx) hs
  · intro c x y r hst hc h
    exact h.gate hc hst
  · rintro c x y r v hst hc (h | ⟨hv, h⟩ | ⟨hv, h⟩)
    · exact .inl (h.gate hc hst)
    · exact .inr (.inl ⟨hv, h.gate hc hst⟩)
    · exact .inr (.inr ⟨hv, h.gate hc hst⟩)

/-! ## A registration -/

/-- How a registration ends: the route is nowhere that it was not before, or it is everywhere, or
it is in the runtime only, because the runtime refused to take it out again. -/
def RegistrationEnds (definition : RouteDefinition) (bus₀ : RuntimeBus DefaultRouteController)
    (routes : Finmap (fun _ : String => RouteDefinition)) (ids : String → Prop)
    (r : Outcome CamelError RuntimeCommandResult) (x : BusState) : Prop :=
  ((∃ e, r = .error e) ∧ Reaches bus₀ routes ids x.1 ∧ ¬ Logged RemovalFails x.2) ∨
    definition.route_id ∉ routes ∧
      (((∃ v, r = .ok v) ∧ Reaches bus₀ (routes.insert definition.route_id definition)
        (fun id => id = definition.route_id ∨ ids id) x.1) ∨
      ((∃ e, r = .error e) ∧ Logged RemovalFails x.2 ∧
        Reaches bus₀ (routes.insert definition.route_id definition) ids x.1))

theorem RegistrationEnds.of_error {e e' : Fault CamelError}
    (h : RegistrationEnds definition bus₀ routes ids (.error e) x) :
    RegistrationEnds definition bus₀ routes ids (.error e') x := by
  rcases h with ⟨-, h⟩ | ⟨ha, ⟨⟨_, ⟨⟩⟩, _⟩ | ⟨-, h⟩⟩
  · exact .inl ⟨⟨_, rfl⟩, h⟩
  · exact .inr ⟨ha, .inr ⟨⟨_, rfl⟩, h⟩⟩

/-- What the bus has come to, when no removal was refused. -/
structure Registering (bus₀ : RuntimeBus DefaultRouteController)
    (routes : Finmap (fun _ : String => RouteDefinition)) (ids : String → Prop)
    (x : BusState) : Prop where
  reaches : Reaches bus₀ routes ids x.1
  unrefused : ¬ Logged RemovalFails x.2

variable {definition : RouteDefinition}

theorem unrefused_step {c : BusCall} {r : BusAnswer c} (hx : ¬ Logged RemovalFails x.2)
    (hc : ∀ id, c ≠ .port (.execution (.remove_route id)))
    (h : recorded (busSem controllerSem) c x r y) : ¬ Logged RemovalFails y.2 := by
  rw [h.2, logged_append]
  rintro (hl | hlast)
  · exact hx hl
  · cases c with
    | port c =>
      cases c with
      | execution op =>
        cases op with
        | remove_route id => exact hc id rfl
        | _ => exact hlast
      | _ => exact hlast
    | _ => exact hlast

theorem Registering.keeps {r : Answer c} (hx : Registering bus₀ routes ids x) (hc : KeepsIds c)
    (h : handlerSem c x r y) : Registering bus₀ routes ids y := by
  refine ⟨hx.reaches.keeps hc h, unrefused_step hx.unrefused ?_ h⟩
  rintro id ⟨⟩
  exact hc

theorem erase_insert_of_notMem {m : Finmap (fun _ : String => RouteDefinition)} {id : String}
    (h : id ∉ m) (d : RouteDefinition) : (m.insert id d).erase id = m := by
  apply ext_lookup
  intro id'
  by_cases hi : id' = id
  · rw [hi, lookup_erase, lookup_eq_none.mpr h]
  · rw [lookup_erase_ne hi, lookup_insert_of_ne _ hi]

theorem wp_store_installed (hu : deps.uow = true) (he : deps.execution = true)
    (ha : definition.route_id ∉ routes)
    (hx : Registering bus₀ (routes.insert definition.route_id definition) ids x) :
    wp (ofSem handlerSem) (store_installed deps definition.route_id).run
      (RegistrationEnds definition bus₀ routes ids) x := by
  unfold store_installed persist_internal rollback_registration
  dsimp only [register]
  rw [if_pos hu, wp_run_bind, wp_result, wp_port]
  intro r y hs
  have hun : ¬ Logged RemovalFails y.2 := unrefused_step hx.unrefused (by simp) hs
  rcases hx.reaches.store hs with ⟨⟨e, rfl⟩, hy⟩ | ⟨rfl, hy⟩
  · dsimp only [Except.mapError]
    rw [if_pos he, wp_run_bind, wp_attempt]
    intro r z hs
    rcases hy.remove hs with ⟨⟨rollback_err, rfl⟩, hz⟩ | ⟨rfl, hz⟩
    · refine .inr ⟨ha, .inr ⟨⟨_, rfl⟩, ?_, hz⟩⟩
      rw [hs.2, logged_append]
      exact .inr trivial
    · rw [erase_insert_of_notMem ha] at hz
      refine .inl ⟨⟨_, rfl⟩, hz, ?_⟩
      rw [hs.2, logged_append]
      exact not_or.mpr ⟨hun, id⟩
  · exact .inr ⟨ha, .inl ⟨⟨_, rfl⟩, hy⟩⟩

theorem wp_handle_register_internal (hu : deps.uow = true) (he : deps.execution = true)
    (hx : Registering bus₀ routes ids x) :
    wp (ofSem handlerSem) (handle_register_internal deps definition).run
      (RegistrationEnds definition bus₀ routes ids) x := by
  -- From a clear check on, both ways of getting there go on alike.
  have hc : ∀ {y}, Registering bus₀ routes ids y → wp (ofSem handlerSem) (do
      if deps.execution then port (.execution (.register_route definition))
      store_installed deps definition.route_id : Handler RuntimeCommandResult).run
      (RegistrationEnds definition bus₀ routes ids) y := by
    intro y hy
    rw [if_pos he, wp_run_bind, wp_port]
    intro r z hs
    have hun : ¬ Logged RemovalFails z.2 := unrefused_step hy.unrefused (by simp) hs
    rcases hy.reaches.register hs with ⟨⟨e, rfl⟩, hz⟩ | ⟨rfl, ha, hz⟩
    · exact .inl ⟨⟨_, rfl⟩, hz, hun⟩
    · exact wp_store_installed hu he ha ⟨hz, hun⟩
  have hr : ∀ {y e}, Registering bus₀ routes ids y →
      RegistrationEnds definition bus₀ routes ids (.error e) y :=
    fun hy => .inl ⟨⟨_, rfl⟩, hy.reaches, hy.unrefused⟩
  unfold handle_register_internal adopt_check
  rw [wp_run_bind, wp_run_bind, wp_port]
  intro r y hs
  have hy := hx.keeps (c := .load definition.route_id) trivial hs
  rcases r with e | _ | a
  · exact hr hy
  · exact hc hy
  · dsimp only [Except.mapError]
    rw [wp_run_bind, wp_port]
    intro r z hs
    have hz := hy.keeps (c := .take_recovered definition.route_id) trivial hs
    rcases r with e | _ | _
    · exact hr hz
    · exact hr hz
    · exact hc hz

/-- What the bus does once its journal is read. The reading keeps the ids. -/
theorem wp_after_recovery (hu : deps.uow = true) {fault : CamelError → CamelError} {k : BusProg}
    (hx : Registering bus₀ routes ids x)
    (hf : ∀ e y, Registering bus₀ routes ids y → Q (some (.error e)) y)
    (hk : ∀ y, Registering bus₀ routes ids y → wp (ofSem awaitedSem) k Q y) :
    wp (ofSem awaitedSem) (after_recovery deps fault k) Q x := by
  unfold after_recovery
  rw [if_pos hu]
  apply wp_awaiting
  intro r y hs
  have hr : Reaches bus₀ routes ids y.1 :=
    hx.reaches.gate (c := .ensure_journal_recovered) trivial hs.1
  have hy : Registering bus₀ routes ids y := ⟨hr, unrefused_step hx.unrefused (by simp) hs⟩
  rcases r with e | _
  · exact hf _ y hy
  · exact hk y hy

theorem registering_start (bus : RuntimeBus DefaultRouteController) :
    Registering bus bus.world.runtime.routes (storedIds bus) (bus, []) :=
  ⟨Reaches.refl bus, not_logged_nil⟩

theorem wp_register_route (hu : deps.uow = true) (he : deps.execution = true)
    (definition : RouteDefinition) :
    wp (ofSem awaitedSem) (RuntimeBus.register_route deps definition)
      (fun r y => ∀ v, r = some v → RegistrationEnds definition bus bus.world.runtime.routes
        (storedIds bus) v y) (bus, []) := by
  refine wp_after_recovery hu (registering_start bus) ?_ ?_
  · rintro e y hy _ ⟨⟩
    exact .inl ⟨⟨_, rfl⟩, hy.reaches, hy.unrefused⟩
  · intro y hy
    apply wp_within
    refine wp_mono (mono_ofSem _) ?_ (wp_handle_register_internal hu he hy)
    rintro ((e | _) | v) z hz _ ⟨⟩
    · exact hz.of_error
    · exact hz
    · exact hz

theorem wp_register_aggregate_only (hu : deps.uow = true) (route_id : String) :
    wp (ofSem awaitedSem) (RuntimeBus.register_aggregate_only deps route_id)
      (fun r y => ∀ v, r = some v →
        ((∃ e, v = .error e) ∧ Reaches bus bus.world.runtime.routes (storedIds bus) y.1) ∨
        ((∃ w, v = .ok w) ∧ Reaches bus bus.world.runtime.routes
          (fun id => id = route_id ∨ storedIds bus id) y.1)) (bus, []) := by
  refine wp_after_recovery hu (registering_start bus) ?_ ?_
  · rintro e y hy _ ⟨⟩
    exact .inl ⟨⟨_, rfl⟩, hy.reaches⟩
  · intro y hy
    apply wp_within
    unfold lifecycle.register_aggregate_only persist_registered
    rw [wp_run_bind, wp_run_bind, wp_port]
    intro r z hs
    have hz := hy.reaches.keeps (c := .load route_id) trivial hs
    rcases r with e | _ | a
    · rintro _ ⟨⟩
      exact .inl ⟨⟨_, rfl⟩, hz⟩
    · dsimp only [Except.mapError, register]
      rw [if_pos hu, wp_port]
      intro r u hs
      rcases hz.store hs with ⟨⟨e, rfl⟩, hu⟩ | ⟨rfl, hu⟩
      · rintro _ ⟨⟩
        exact .inl ⟨⟨_, rfl⟩, hu⟩
      · rintro _ ⟨⟩
        exact .inr ⟨⟨_, rfl⟩, hu⟩
    · rintro _ ⟨⟩
      exact .inl ⟨⟨_, rfl⟩, hz⟩

end camel_core.lifecycle
