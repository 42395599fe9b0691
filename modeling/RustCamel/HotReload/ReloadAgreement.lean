-- The agreement of the controller with the projection of the store. The plan of a
-- pass is made from the projection, and its actions change the controller. Three of
-- the four actions keep the two alike. A removal with functions does not.
import RustCamel.HotReload.ReloadEffects

open Finmap

namespace camel_core.hot_reload

open camel_core.lifecycle Prog List

/-! ## Agreement -/

/-- The controller and the projection have the same routes. -/
def Agree (s : ReloadState) : Prop :=
  ∀ id, id ∈ s.controller.routes ↔ id ∈ s.bus.world.store.inner.statuses

/-- The step of an action after which the two differ. A removal with functions takes the route
out of the controller only. The other steps are failures: the store fails to delete a route that
the controller has lost, and the compensation of an add fails to take its route out. -/
def Tears (action : domain.ReloadAction) : Step → Prop
  | ⟨.remove_route_preserving_functions _, .ok _, _⟩ => action = .Remove action.route_id
  | ⟨.remove_route_preserving_functions _, .error _, _⟩ => action = .Add action.route_id
  | ⟨.execute_runtime_command (.RemoveRoute _ _ _), _, ports⟩ => Logged DeletionFails ports
  | ⟨.add_route_definition _, _, ports⟩ => Logged RemovalFails ports
  | _ => False

instance (action : domain.ReloadAction) : DecidablePred (Tears action) := fun step => by
  unfold Tears
  split <;> infer_instance

theorem telling_tears (action : domain.ReloadAction) : Telling (Tears action) := by
  rintro ⟨c, r, ports⟩ h
  cases c with
  | execute_runtime_command cmd =>
    cases cmd with
    | RemoveRoute => exact id
    | _ => exact h.elim
  | remove_route_preserving_functions | add_route_definition => exact id
  | _ => exact h.elim

/-- The ids of the two, while an action runs. The store shows what it has, so its ids are those
of the projection. -/
structure Matched (s : ReloadState) : Prop where
  synced : Synced s.bus
  routes : ∀ id, id ∈ s.controller.routes ↔ storedIds s.bus id

/-- The controller has one route more. -/
structure Ahead (route_id : String) (s : ReloadState) : Prop where
  synced : Synced s.bus
  missing : ¬ storedIds s.bus route_id
  routes : ∀ id, id ∈ s.controller.routes ↔ id = route_id ∨ storedIds s.bus id

/-- The controller has one route less. -/
structure Behind (route_id : String) (s : ReloadState) : Prop where
  synced : Synced s.bus
  absent : route_id ∉ s.controller.routes
  routes : ∀ id, storedIds s.bus id ↔ id = route_id ∨ id ∈ s.controller.routes

variable {health_registry : Bool} {action : domain.ReloadAction} {route_id : String}
  {s t : ReloadState}

theorem matched_iff (hs : Synced s.bus) : Matched s ↔ Agree s := by
  constructor
  · intro h id
    rw [h.routes id, synced_statuses hs]
  · intro h
    refine ⟨hs, fun id => ?_⟩
    rw [h id, synced_statuses hs]

theorem matched_of_reaches {routes : Finmap (fun _ : String => RouteDefinition)}
    {ids : String → Prop} (hs : Synced s.bus) (h : Reaches s.bus routes ids t.bus)
    (heq : ∀ id, id ∈ routes ↔ ids id) : Matched t := by
  obtain ⟨hs', hi⟩ := h.ids hs
  refine ⟨hs', fun id => ?_⟩
  unfold ReloadState.controller storedIds
  rw [h.routes, heq id, hi id]

theorem Matched.unchanged (hs : Matched s) (h : Unchanged s t) : Matched t :=
  matched_of_reaches hs.synced h hs.routes

theorem Ahead.unchanged (hs : Ahead route_id s) (h : Unchanged s t) : Ahead route_id t := by
  obtain ⟨hsy, hi⟩ := h.ids hs.synced
  have hm : ¬ storedIds t.bus route_id := (hi route_id).not.mpr hs.missing
  refine ⟨hsy, hm, fun id => ?_⟩
  unfold ReloadState.controller
  rw [h.routes, show storedIds t.bus id ↔ _ from hi id]
  exact hs.routes id

/-! ## The steps of the controller -/

theorem Matched.withController {controller : DefaultRouteController} (hs : Matched s)
    (hr : controller.routes = s.controller.routes) :
    Matched (s.withController controller) := by
  refine ⟨hs.synced, fun id => ?_⟩
  change id ∈ controller.routes ↔ _
  rw [hr]
  exact hs.routes id

theorem Matched.insert {controller : DefaultRouteController} {definition : RouteDefinition}
    (hs : Matched s) (ha : route_id ∉ s.controller.routes)
    (hr : controller.routes = s.controller.routes.insert route_id definition) :
    Ahead route_id (s.withController controller) := by
  refine ⟨hs.synced, (hs.routes route_id).not.mp ha, fun id => ?_⟩
  change id ∈ controller.routes ↔ _
  rw [hr, mem_insert, hs.routes id]
  rfl

theorem Matched.erase {controller : DefaultRouteController} (hs : Matched s)
    (hp : route_id ∈ s.controller.routes)
    (hr : controller.routes = s.controller.routes.erase route_id) :
    Behind route_id (s.withController controller) := by
  have hm : ∀ id, id ∈ controller.routes ↔ id ≠ route_id ∧ id ∈ s.controller.routes := by
    intro id
    rw [hr]
    exact mem_erase
  refine ⟨hs.synced, fun hi => ((hm route_id).mp hi).1 rfl, fun id => ?_⟩
  change storedIds s.bus id ↔ id = route_id ∨ id ∈ controller.routes
  rw [hm id, ← hs.routes id]
  by_cases hi : id = route_id
  · rw [hi]
    exact iff_of_true hp (.inl rfl)
  · simp [hi]

theorem Ahead.erase {controller : DefaultRouteController} (hs : Ahead route_id s)
    (hr : controller.routes = s.controller.routes.erase route_id) :
    Matched (s.withController controller) := by
  refine ⟨hs.synced, fun id => ?_⟩
  change id ∈ controller.routes ↔ storedIds s.bus id
  rw [hr, mem_erase, hs.routes id]
  by_cases hi : id = route_id
  · rw [hi]
    exact iff_of_false (fun h => h.1 rfl) hs.missing
  · simp [hi]

theorem Behind.insert {controller : DefaultRouteController} {definition : RouteDefinition}
    (hs : Behind route_id s)
    (hr : controller.routes = s.controller.routes.insert route_id definition) :
    Matched (s.withController controller) := by
  refine ⟨hs.synced, fun id => ?_⟩
  change id ∈ controller.routes ↔ storedIds s.bus id
  rw [hr, mem_insert, hs.routes id]

/-! ## The steps of the bus -/

variable {x y : ReloadState × List Step} {r : Except camel_api.CamelError Unit} {α : Type}
  {p : ReloadProg α} {definition : RouteDefinition}

/-- The action has torn the two apart, or they match. -/
def Even (action : domain.ReloadAction) (x : ReloadState × List Step) : Prop :=
  Taken (Tears action) x.2 ∨ Matched x.1

theorem Even.quietly (hx : Even action x) (h : Quietly x y) : Even action y := by
  unfold Even
  rw [h.steps _ (telling_tears action)]
  exact hx.imp_right fun hm => hm.unchanged h.unchanged

theorem Even.wp_harmless (hp : Makes Harmless p) (hx : Even action x) :
    wp (ofSem (tracedSem health_registry)) p (fun _ y => Even action y) x :=
  wp_mono (mono_ofSem _) (fun _ _ h => hx.quietly h) (quietly_of_makes hp x)

theorem Matched.remove_command {command_id : String} {causation_id : Option String}
    {r : Except camel_api.CamelError RuntimeCommandResult} (hx : Matched x.1)
    (hst : tracedSem health_registry
      (.execute_runtime_command (.RemoveRoute route_id command_id causation_id)) x r y) :
    Matched y.1 ∨ ((∃ e, r = .error e) ∧ Taken (Tears action) y.2) := by
  obtain ⟨ports, hse, hs⟩ := hst
  rcases remove_command_step hse with h | ⟨_, h⟩ | ⟨⟨e, he⟩, h⟩
  · exact .inl (hx.unchanged h.reaches)
  · refine .inl (matched_of_reaches hx.synced h.reaches fun id => ?_)
    rw [mem_erase, hx.routes id]
  · refine .inr ⟨?_, ?_⟩
    · cases r with
      | error e => exact ⟨e, rfl⟩
      | ok v => cases he
    · rw [hs, taken_append]
      exact .inr (h.failed.mpr trivial)

/-- An add puts the route into both, or fails to take it out again. -/
theorem Matched.add (hx : Matched x.1)
    (hst : tracedSem health_registry (.add_route_definition definition) x r y) :
    Even action y := by
  obtain ⟨ports, hse, hs⟩ := hst
  rcases add_step hse with ⟨_, hu, _⟩ | ⟨_, ⟨_, hr⟩ | ⟨_, hre, _⟩⟩
  · exact .inr (hx.unchanged hu)
  · refine .inr (matched_of_reaches hx.synced hr fun id => ?_)
    rw [mem_insert, hx.routes id]
  · left
    rw [hs, taken_append]
    exact .inr hre

theorem Ahead.aggregate (hx : Ahead route_id x.1)
    (hs : tracedSem health_registry (.register_route_aggregate route_id) x r y) :
    ((∃ e, r = .error e) ∧ Ahead route_id y.1) ∨ (r = .ok () ∧ Matched y.1) := by
  obtain ⟨ports, hse, -⟩ := hs
  rcases aggregate_step hse with ⟨he, hu⟩ | ⟨ho, hr⟩
  · exact .inl ⟨he, hx.unchanged hu⟩
  · exact .inr ⟨ho, matched_of_reaches hx.synced hr hx.routes⟩

theorem Matched.prepare {generation : Nat} {r : Except camel_api.error.CamelError PreparedRoute}
    (hx : Matched x.1)
    (hst : tracedSem health_registry
      (.prepare_route_definition_with_generation definition generation) x r y) : Matched y.1 := by
  obtain ⟨ports, hse, -⟩ := hst
  rcases prepare_step hse with ⟨_, hsa⟩ | ⟨_, _, hs⟩
  · rw [hsa]
    exact hx
  · rw [hs]
    exact hx.withController rfl

/-! ## Every action -/

variable {ctx : FunctionReloadContext} {definition : RouteDefinition}
  {new_definitions : List RouteDefinition} {order : IterOrder}

theorem wp_add_plain (hx : Matched x.1) :
    wp (ofSem (tracedSem health_registry)) (add_plain route_id definition)
      (fun _ y => Even action y) x := by
  intro r y hs
  have hy : Even action y := hx.add hs
  rcases r with e | _
  · exact hy
  · exact hy.wp_harmless (harmless_start_after _ _ _)

theorem Ahead.compensate {r : Except camel_api.error.CamelError Unit} (hx : Ahead route_id x.1)
    (hst : tracedSem health_registry (.remove_route_preserving_functions route_id) x r y) :
    Even (.Add route_id) y := by
  obtain ⟨ports, hse, hs⟩ := hst
  rcases remove_step hse with ⟨⟨e, rfl⟩, -⟩ | ⟨rfl, _, he⟩
  · left
    rw [hs, taken_append]
    exact .inr rfl
  · right
    rw [he]
    exact hx.erase rfl

section

variable (hx : Matched x.1)

include hx

theorem wp_add_prepared :
    wp (ofSem (tracedSem health_registry)) (add_prepared ctx route_id ⟨route_id⟩)
      (fun _ y => Even (.Add route_id) y) x := by
  unfold add_prepared
  apply wp_harmless_bind (harmless_compute_function_diff_for_route _ _)
  intro diff y hxy r z hy
  have hz : Matched z.1 := (hx.unchanged hxy.unchanged).unchanged
    ((Quietly.refl y).step (c := .prepare_reload _ _) (by trivial) hy).unchanged
  rcases r with e | prepare_token
  · refine Even.wp_harmless ?_ (.inr hz)
    exact ⟨trivial, fun _ => trivial⟩
  rintro r u ⟨ports, hse, -⟩
  rcases insert_step hse with ⟨⟨e, rfl⟩, hs, _⟩ | ⟨rfl, ha, managed, _, hi⟩
  · -- The staged route is discarded, which leaves the routes alone.
    rintro r v ⟨ports, ⟨hd, -⟩, -⟩
    have hv : Matched v.1 := by
      rw [(Prod.mk.inj hd).2, hs]
      exact hz.withController rfl
    refine Even.wp_harmless ?_ (.inr hv)
    exact ⟨trivial, fun _ => trivial⟩
  · have hu : Ahead route_id u.1 := by
      rw [hi]
      exact hz.insert ha rfl
    intro r v huv
    rcases hu.aggregate huv with ⟨⟨e, rfl⟩, hv⟩ | ⟨rfl, hv⟩
    · intro r w hvw
      refine Even.wp_harmless ?_ (hv.compensate hvw)
      exact ⟨trivial, fun _ => trivial⟩
    · refine Even.wp_harmless ?_ (.inr hv)
      exact harmless_finish _ _ (harmless_start_after _ _ _)

theorem wp_add_with_functions :
    wp (ofSem (tracedSem health_registry))
      (add_with_functions ctx definition.route_id definition)
      (fun _ y => Even (.Add definition.route_id) y) x := by
  intro r y hs
  have hy := hx.prepare hs
  rcases r with e | prepared
  · refine Even.wp_harmless ?_ (.inr hy)
    exact ⟨trivial, fun _ => trivial⟩
  · obtain ⟨rfl, -⟩ := stages_of_prepare hs
    exact wp_add_prepared hy

theorem wp_remove_plain :
    wp (ofSem (tracedSem health_registry)) (remove_plain route_id)
      (fun _ y => Even action y) x := by
  unfold remove_plain
  apply wp_harmless_bind (harmless_stop_for_mutation _ _ _ (by trivial))
  rintro (e | runtime_status) y hxy
  · exact .inr (hx.unchanged hxy.unchanged)
  intro command_id z hy
  have hz : Matched z.1 := (hx.unchanged hxy.unchanged).unchanged
    ((Quietly.refl y).step (c := .next_reload_command_id _ _) (by trivial) hy).unchanged
  intro r u hzu
  have hu : Even action u := by
    rcases hz.remove_command hzu with hu | ⟨_, ht⟩
    · exact .inr hu
    · exact .inl ht
  rcases r with e | v
  · exact hu
  · exact hu

theorem wp_remove_with_functions :
    wp (ofSem (tracedSem health_registry)) (remove_with_functions ctx route_id)
      (fun _ y => Even (.Remove route_id) y) x := by
  unfold remove_with_functions
  apply wp_harmless_bind (harmless_compute_function_diff_for_route _ _)
  intro diff y hxy
  apply wp_harmless_bind (harmless_stop_for_mutation _ _ _ (by trivial))
  have hy := hx.unchanged hxy.unchanged
  rintro (e | runtime_status) z hyz
  · exact .inr (hy.unchanged hyz.unchanged)
  rintro r u ⟨ports, hse, hs⟩
  rcases remove_step hse with ⟨⟨e, rfl⟩, hsa⟩ | ⟨rfl, _, _⟩
  · right
    rw [hsa]
    exact hy.unchanged hyz.unchanged
  · refine Even.wp_harmless (harmless_finalize_functions _ _ _ _) (.inl ?_)
    rw [hs, taken_append]
    exact .inr rfl

end

theorem plainRestart_agreement : PlainRestart health_registry definition (fun x => Matched x.1)
    (fun x => Matched x.1) (Even action) (fun _ y => Even action y) where
  quietly hx hxy := hx.unchanged hxy.unchanged
  untouched _ hx := .inr hx
  settled _ hx hxy := hx.quietly hxy
  remove hx hs := by
    rcases hx.remove_command hs with hy | ⟨he, ht⟩
    · exact .inl hy
    · exact .inr (.inr ⟨he, fun _ _ => .inl ht⟩)
  add_again := Matched.add
  add hx hs := .inl (hx.add hs)

/-- The controller is behind the store between the removal and the insert. -/
theorem preparedRestart_agreement : PreparedRestart health_registry definition
    (fun x => Matched x.1) (fun x => Behind definition.route_id x.1) (Even action)
    (fun _ y => Even action y) where
  quietly hx hxy := hx.unchanged hxy.unchanged
  untouched _ hx := .inr hx
  settled _ hx hxy := hx.quietly hxy
  prepare := Matched.prepare
  remove := by
    rintro x r y hx ⟨ports, hse, -⟩
    rcases remove_step hse with ⟨⟨e, rfl⟩, hsa⟩ | ⟨rfl, hp, he⟩
    · refine .inl ⟨⟨e, rfl⟩, ?_⟩
      rw [hsa]
      exact hx
    · refine .inr ⟨rfl, ?_⟩
      rw [he]
      exact hx.erase hp rfl
  insert := by
    rintro x r y hx hs ⟨ports, hse, -⟩
    obtain ⟨rfl, hi⟩ := insert_staged hs hx.absent hse
    refine ⟨rfl, .inr ?_⟩
    rw [hi]
    exact hx.insert rfl

theorem wp_apply_action (function_ctx : Option FunctionReloadContext)
    (new_definitions : List RouteDefinition) (hx : Matched x.1) :
    wp (ofSem (tracedSem health_registry)) (apply_action function_ctx new_definitions action)
      (fun _ y => Even action y) x := by
  cases action with
  | Swap route_id => exact Even.wp_harmless (harmless_apply_swap _ _ _) (.inr hx)
  | Skip route_id => exact .inr hx
  | Remove route_id =>
    cases function_ctx with
    | some ctx => exact wp_remove_with_functions hx
    | none => exact wp_remove_plain hx
  | Add route_id =>
    dsimp only [apply_action, apply_add]
    split
    · exact .inr hx
    · rename_i definition hf
      obtain rfl := find_definition_route_id hf
      split
      · exact wp_add_with_functions hx
      · exact wp_add_plain hx
  | Restart route_id =>
    dsimp only [apply_action, apply_restart]
    split
    · exact .inr hx
    · rename_i definition hf
      obtain rfl := find_definition_route_id hf
      split
      · exact preparedRestart_agreement.wp hx
      · exact plainRestart_agreement.wp hx

/-! ## Sequences of actions -/

/-- One action, of any kind, with functions or without them. -/
def Acts (health_registry : Bool) (s t : ReloadState) : Prop :=
  ∃ function_ctx new_definitions action errors steps,
    Applies health_registry function_ctx new_definitions action s errors steps t

/-- One action that tears nothing apart. -/
def ActsEvenly (health_registry : Bool) (s t : ReloadState) : Prop :=
  ∃ function_ctx new_definitions action errors steps,
    Applies health_registry function_ctx new_definitions action s errors steps t ∧
      ¬ Taken (Tears action) steps

theorem Matched.actsEvenly (hs : Matched s) (h : ActsEvenly health_registry s t) : Matched t := by
  obtain ⟨function_ctx, new_definitions, action, errors, steps, hr, he⟩ := h
  have hw : wp (ofSem (tracedSem health_registry))
      (apply_action function_ctx new_definitions action) (fun _ y => Even action y) (s, []) :=
    wp_apply_action function_ctx new_definitions hs
  exact (wp_ofSem_iff.mp hw _ _ hr).resolve_left he

theorem Matched.sequence (hs : Matched s)
    (h : Relation.ReflTransGen (ActsEvenly health_registry) s t) : Matched t := by
  induction h with
  | refl => exact hs
  | tail _ ha ih => exact ih.actsEvenly ha

theorem runs_traced {a : α} (h : Runs (tracedSem health_registry) p x a y) :
    ∃ steps, ∀ log, Runs (tracedSem health_registry) p (x.1, log) a (y.1, log ++ steps) := by
  induction p generalizing x with
  | done b =>
    obtain ⟨rfl, rfl⟩ := h
    refine ⟨[], fun log => ?_⟩
    rw [append_nil]
    exact ⟨rfl, rfl⟩
  | call c k ih =>
    obtain ⟨r, u, ⟨ports, hse, -⟩, hr⟩ := h
    obtain ⟨steps, hs⟩ := ih r hr
    refine ⟨⟨c, r, ports⟩ :: steps, fun log => ?_⟩
    refine ⟨r, (u.1, log ++ [⟨c, r, ports⟩]), ⟨ports, hse, rfl⟩, ?_⟩
    have hru := hs (log ++ [⟨c, r, ports⟩])
    rw [append_assoc] at hru
    exact hru

/-- What holds after every sequence of actions holds after a pass over a whole plan. -/
theorem a_pass_is_a_sequence {function_ctx : Option FunctionReloadContext}
    {actions : List domain.ReloadAction} {errors : List ReloadError}
    (h : Runs (tracedSem health_registry)
      (execute_reload_actions function_ctx actions new_definitions) x errors y) :
    Relation.ReflTransGen (Acts health_registry) x.1 y.1 := by
  induction actions generalizing x new_definitions errors with
  | nil =>
    obtain ⟨-, rfl⟩ := h
    exact .refl
  | cons action actions ih =>
    obtain ⟨errors, u, ha, hr⟩ := runs_bind.mp h
    obtain ⟨rest, v, hac, -, rfl⟩ := runs_bind.mp hr
    obtain ⟨steps, hs⟩ := runs_traced ha
    exact .head ⟨_, _, action, errors, steps, hs []⟩ (ih hac)

/-! ## The next plan -/

theorem plan_definition_route_id (source_hash : RouteDefinition → Option Nat)
    (active_ids : Finset String) (runtime_source_hash : String → Option Nat)
    (definition : RouteDefinition) :
    (plan_definition source_hash active_ids runtime_source_hash definition).route_id =
      definition.route_id := by
  unfold plan_definition
  split
  · split
    · split <;> rfl
    · rfl
  · rfl

theorem planned_for_inactive {source_hash : RouteDefinition → Option Nat}
    {runtime_route_ids : List String} {runtime_source_hash : String → Option Nat}
    (hp : action ∈ compute_reload_actions_from_runtime_snapshot source_hash order
      new_definitions runtime_route_ids runtime_source_hash)
    (hi : action.route_id ∉ runtime_route_ids) :
    ∃ definition ∈ new_definitions, action = .Add definition.route_id := by
  unfold compute_reload_actions_from_runtime_snapshot at hp
  rcases mem_append.mp hp with hd | hr
  · obtain ⟨definition, hm, rfl⟩ := mem_map.mp hd
    refine ⟨definition, hm, ?_⟩
    rw [plan_definition_route_id] at hi
    unfold plan_definition
    rw [if_neg fun ha => hi (mem_toFinset.mp ha)]
  · obtain ⟨id, hid, rfl⟩ := mem_map.mp hr
    have ha := (order.mem_walk _ id).mp (mem_filter.mp hid).1
    exact absurd (mem_toFinset.mp ha) hi

/-- A pass lists the runtime routes before its actions. The listing reads the journal, and a pass
that cannot list them ends there. So the law's `Synced` holds of each pass that comes to act. -/
theorem synced_of_recovered {env : JournalEnv} {bus bus' : RuntimeBus DefaultRouteController}
    (hp : Projected bus.world.store.inner)
    (h : bus.ensure_journal_recovered env order = (.ok (), bus')) : Synced bus' := by
  unfold RuntimeBus.ensure_journal_recovered at h
  split at h
  · rename_i ho
    cases h
    exact ⟨hp, by rw [ho]; nofun⟩
  · split at h
    · cases h
    · rename_i store hr
      have hs : Projected store.inner := by
        unfold InMemoryRuntimeStore.recover_from_journal at hr
        split at hr
        · cases hr
          exact hp
        · split at hr
          · cases hr
          · cases hr
            exact (replay_spec _).1
      split at h
      · cases h
      · cases h
        exact ⟨hs, nofun⟩

/-! ## The law -/

/-- The controller and the projection agree after every sequence of actions that tear nothing
apart. So the next plan has nothing for a route that a reload removed, but the add of a
definition that is there again. -/
theorem the_controller_agrees_with_the_projection (hsynced : Synced s.bus) (hs : Agree s)
    (h : Relation.ReflTransGen (ActsEvenly health_registry) s t) :
    Agree t ∧ ∀ (source_hash : RouteDefinition → Option Nat) (order : IterOrder)
      (new_definitions : List RouteDefinition) (runtime_route_ids : List String)
      (runtime_source_hash : String → Option Nat),
      (∀ id, id ∈ runtime_route_ids ↔ id ∈ t.bus.world.store.inner.statuses) →
      ∀ action ∈ compute_reload_actions_from_runtime_snapshot source_hash order new_definitions
        runtime_route_ids runtime_source_hash, action.route_id ∉ t.controller.routes →
        ∃ definition ∈ new_definitions, action = .Add definition.route_id := by
  have hm := ((matched_iff hsynced).mpr hs).sequence h
  have ha := (matched_iff hm.synced).mp hm
  refine ⟨ha, ?_⟩
  intro source_hash order new_definitions runtime_route_ids runtime_source_hash hi action
    hp hab
  exact planned_for_inactive hp fun hac =>
    hab ((ha _).mpr ((hi _).mp hac))

/-! ## Two removals -/

/-- A route is added without functions. -/
def addedContext : ReloadState :=
  (Script.apply {} none [timerRoute "r"] (.Add "r") (contextWith ∅)).2.1

/-- The route is removed without functions. -/
def removedContext : ReloadState := (Script.apply {} none [] (.Remove "r") addedContext).2.1

theorem matched_empty : Matched (contextWith ∅) := ⟨⟨fun _ => rfl, nofun⟩, fun _ => Iff.rfl⟩

theorem added_evenly : ActsEvenly false (contextWith ∅) addedContext := by
  have hc : Script.Completes {} none [timerRoute "r"] (.Add "r") (contextWith ∅) := by
    decide +kernel
  exact ⟨_, _, _, _, _, Script.applies hc, by decide +kernel⟩

theorem removed_evenly : ActsEvenly false addedContext removedContext := by
  have hc : Script.Completes {} none [] (.Remove "r") addedContext := by
    decide +kernel
  exact ⟨_, _, _, _, _, Script.applies hc, by decide +kernel⟩

/-- Without functions a route is added by one action and removed by the next. It is gone from
both, and the plan after them is empty. -/
theorem a_removed_route_is_gone_from_both :
    Relation.ReflTransGen (ActsEvenly false) (contextWith ∅) removedContext ∧
      "r" ∈ addedContext.controller.routes ∧ "r" ∉ removedContext.controller.routes ∧
      Agree removedContext ∧ compute_reload_actions_from_runtime_snapshot (fun _ => none)
        sortedOrder [] [] (fun _ => none) = [] := by
  have hs : Relation.ReflTransGen (ActsEvenly false) (contextWith ∅) removedContext :=
    .tail (.single added_evenly) removed_evenly
  obtain ⟨ha, hp⟩ := the_controller_agrees_with_the_projection matched_empty.synced
    ((matched_iff matched_empty.synced).mp matched_empty) hs
  refine ⟨hs, by decide +kernel, by decide +kernel, ha, ?_⟩
  have he : removedContext.bus.world.store.inner.statuses = ∅ := by decide +kernel
  rw [eq_nil_iff_forall_not_mem]
  intro action hm
  have hab : action.route_id ∉ removedContext.controller.routes := by
    rw [ha, he]
    exact notMem_empty
  obtain ⟨definition, hn, -⟩ := hp _ _ _ _ _ (by simp [he, notMem_empty])
    action hm hab
  cases hn

theorem matched_registered : Matched (registeredContext "r") := by
  have hs : tracedSem false (.add_route_definition (timerRoute "r")) (contextWith ∅, []) _
      (Script.tracedFn {} (.add_route_definition (timerRoute "r")) (contextWith ∅, [])).2 :=
    ⟨_, reloadSem_reloadFn {} (by decide +kernel), rfl⟩
  have he : Even (.Add "r") _ := Matched.add matched_empty hs
  exact he.resolve_left (by decide +kernel)

theorem removal_with_functions_completes :
    Script.Completes {} (some ⟨1⟩) [] (.Remove "r") (registeredContext "r") := by
  decide +kernel

/-- With functions a removal that reports no error takes the route out of the controller only. -/
theorem a_removal_with_functions_breaks_the_agreement :
    ¬ ∀ (function_ctx : Option FunctionReloadContext) (new_definitions : List RouteDefinition)
      (action : domain.ReloadAction) (s t : ReloadState) (steps : List Step),
      Synced s.bus → Agree s →
      Applies false function_ctx new_definitions action s [] steps t → Agree t := by
  intro h
  have hr := Script.applies removal_with_functions_completes
  have hf : (Script.apply {} (some ⟨1⟩) [] (.Remove "r") (registeredContext "r")).1 = [] := by
    decide +kernel
  rw [hf] at hr
  have ha := h _ _ _ _ _ _ matched_registered.synced
    ((matched_iff matched_registered.synced).mp matched_registered) hr
  exact absurd ((ha "r").mpr (by decide +kernel)) (by decide +kernel)

end camel_core.hot_reload
