-- What each call of a reload action does to the routes of the controller, to the
-- staged routes and to the ids of the store. Most calls are harmless: they leave
-- all three alone, and an action that makes no other call does so as well.
import RustCamel.HotReload.ReloadActions

namespace camel_core.hot_reload

open camel_core.lifecycle Prog
open camel_api.error (CamelError)

/-! ## Harmless calls -/

variable {health_registry : Bool} {s t : ReloadState} {ports : PortLog} {P : Step → Prop}
  {c : ReloadCall} {α : Type} {p : ReloadProg α}

/-- The calls that leave both maps of the controller, and every id of the store. -/
def Harmless : ReloadCall → Prop
  | .prepare_route_definition_with_generation _ _ | .insert_prepared_route _
  | .discard_prepared_staging _ | .remove_route_preserving_functions _
  | .register_route_aggregate _ | .add_route_definition _ => False
  | .execute_runtime_command (.StartRoute _ _ _)
  | .execute_runtime_command (.StopRoute _ _ _ _) => True
  | .execute_runtime_command _ => False
  | _ => True

/-- The state as it was, up to what the journal of an unread bus brings. -/
abbrev Unchanged (s t : ReloadState) : Prop :=
  Reaches s.bus s.controller.routes (storedIds s.bus) t.bus

theorem busReturns_of_wp {p : BusProg} {Q : Outcome camel_api.CamelError RuntimeCommandResult →
    BusState → Prop} {r : Except camel_api.CamelError RuntimeCommandResult}
    (hw : wp (ofSem awaitedSem) p (fun r y => ∀ v, r = some v → Q v y) (s.bus, []))
    (h : BusReturns p s r ports t) : Q (r.mapError .err) (t.bus, ports) :=
  wp_ofSem_iff.mp hw _ _ h.1 _ rfl

theorem keeping_command_unchanged {cmd : RuntimeCommand}
    {r : Except camel_api.CamelError RuntimeCommandResult} (hc : cmd.Deduplicated)
    (hk : KeepingIds (execute_command (contextDeps health_registry) cmd))
    (h : BusReturns (execute (contextDeps health_registry) cmd) s r ports t) : Unchanged s t :=
  busReturns_of_wp (wp_execute_keeping rfl hc hk (Reaches.refl s.bus)) h

theorem runtime_route_status_reaches (env : JournalEnv) (order : IterOrder) (route_id : String)
    (bus : RuntimeBus DefaultRouteController) :
    Reaches bus bus.world.runtime.routes (storedIds bus)
      (runtime_route_status env order route_id bus).2 := by
  have he := (Reaches.refl bus).ensure env order
  have hb : (runtime_route_status env order route_id bus).2 =
      (bus.ensure_journal_recovered env order).2 := by
    unfold runtime_route_status
    split
    · rename_i h
      rw [h]
    · rename_i h
      rw [h]
      split <;> rfl
  rw [hb]
  exact he

theorem harmless_unchanged {r : ReloadAnswer c} (hc : Harmless c)
    (h : reloadSem health_registry c s r ports t) : Unchanged s t := by
  have hs : t = s → Unchanged s t := by
    rintro rfl
    exact Reaches.refl t.bus
  cases c with
  | prepare_route_definition_with_generation | insert_prepared_route | discard_prepared_staging
  | remove_route_preserving_functions | register_route_aggregate | add_route_definition =>
    exact hc.elim
  | runtime_route_status route_id =>
    obtain ⟨env, order, hst, -, -⟩ := h
    have hb : t.bus = (runtime_route_status env order route_id s.bus).2 := congrArg Prod.snd hst
    unfold Unchanged
    rw [hb]
    exact runtime_route_status_reaches env order route_id s.bus
  | next_reload_command_id op route_id =>
    have ht := (Prod.mk.inj h.1).2
    unfold Unchanged
    rw [ht]
    exact Reaches.refl s.bus
  | execute_runtime_command cmd =>
    cases cmd with
    | StartRoute route_id command_id causation_id =>
      have hk : KeepingIds (execute_command (contextDeps health_registry)
          (.StartRoute route_id command_id causation_id)) := by
        unfold execute_command
        exact keeping_handle_lifecycle rfl route_id (by simp) _
      exact keeping_command_unchanged (by trivial) hk h
    | StopRoute route_id command_id causation_id stop_budget =>
      have hk : KeepingIds (execute_command (contextDeps health_registry)
          (.StopRoute route_id command_id causation_id stop_budget)) := by
        unfold execute_command
        exact keeping_handle_lifecycle rfl route_id (by simp) _
      exact keeping_command_unchanged (by trivial) hk h
    | _ => exact hc.elim
  | _ => exact hs h.1

theorem Unchanged.trans {u : ReloadState} (hst : Unchanged s t) (ht : Unchanged t u) :
    Unchanged s u := by
  refine ⟨ht.staging.trans hst.staging, ht.routes.trans hst.routes, ?_⟩
  intro hs
  obtain ⟨hs', hi⟩ := hst.ids hs
  obtain ⟨hs'', hi'⟩ := ht.ids hs'
  exact ⟨hs'', fun id => (hi' id).trans (hi id)⟩

/-! ## Harmless programs -/

/-- Some step has the property. -/
def Taken (P : Step → Prop) (steps : List Step) : Prop := ∃ step ∈ steps, P step

instance {P : Step → Prop} [DecidablePred P] (steps : List Step) : Decidable (Taken P steps) :=
  inferInstanceAs (Decidable (∃ step ∈ steps, P step))

theorem taken_append {steps : List Step} {step : Step} :
    Taken P (steps ++ [step]) ↔ Taken P steps ∨ P step := by
  simp [Taken, or_and_right, exists_or]

theorem not_taken_nil : ¬ Taken P [] := by
  rintro ⟨step, hs, _⟩
  cases hs

def Telling (P : Step → Prop) : Prop := ∀ step, P step → ¬ Harmless step.call

/-- Nothing has changed, and nothing telling was done. -/
structure Quietly (x y : ReloadState × List Step) : Prop where
  unchanged : Unchanged x.1 y.1
  steps : ∀ P, Telling P → (Taken P y.2 ↔ Taken P x.2)

theorem Quietly.refl (x : ReloadState × List Step) : Quietly x x :=
  ⟨Reaches.refl x.1.bus, fun _ _ => Iff.rfl⟩

theorem Quietly.step {x y z : ReloadState × List Step} {r : ReloadAnswer c} (h : Quietly x y)
    (hc : Harmless c) (hst : tracedSem health_registry c y r z) : Quietly x z := by
  obtain ⟨ports, hse, hs⟩ := hst
  refine ⟨h.unchanged.trans (harmless_unchanged hc hse), ?_⟩
  intro P hP
  rw [hs, taken_append, ← h.steps P hP]
  exact or_iff_left fun hst => hP _ hst hc

theorem quietly_of_makes (hp : Makes Harmless p) (x : ReloadState × List Step) :
    wp (ofSem (tracedSem health_registry)) p (fun _ y => Quietly x y) x :=
  wp_ofSem_of_makes (fun _ _ _ _ h hc hs => h.step hc hs) hp (Quietly.refl x)

theorem wp_harmless_bind {β : Type} {f : α → ReloadProg β}
    {Q : β → ReloadState × List Step → Prop} {x : ReloadState × List Step} (hp : Makes Harmless p)
    (hf : ∀ a y, Quietly x y → wp (ofSem (tracedSem health_registry)) (f a) Q y) :
    wp (ofSem (tracedSem health_registry)) (p >>= f) Q x := by
  rw [wp_bind]
  exact wp_mono (mono_ofSem _) hf (quietly_of_makes hp x)

/-! ## The parts of an action that are harmless -/

section

variable (ctx : FunctionReloadContext) (route_id : String)

theorem harmless_compute_function_diff_for_route (generation : Nat) :
    Makes Harmless (compute_function_diff_for_route route_id generation) :=
  ⟨trivial, fun _ => ⟨trivial, fun _ => trivial⟩⟩

theorem harmless_finalize_functions (action : String) (diff : FunctionDiff) :
    Makes Harmless (finalize_functions ctx action route_id diff) := by
  refine ⟨trivial, ?_⟩
  rintro (e | _) <;> trivial

theorem harmless_start_after (op action : String) :
    Makes Harmless (start_after op action route_id) := by
  refine ⟨trivial, fun command_id => ⟨trivial, ?_⟩⟩
  rintro (e | _) <;> trivial

theorem harmless_start_again (runtime_status : Option String) :
    Makes Harmless (start_again runtime_status route_id) := by
  unfold start_again
  split
  · exact harmless_start_after route_id _ _
  · trivial

theorem harmless_stop_for_mutation (op action : String) {rollback : ReloadProg Unit}
    (hr : Makes Harmless rollback) :
    Makes Harmless (stop_for_mutation op action route_id rollback) := by
  refine ⟨trivial, ?_⟩
  rintro (e | runtime_status)
  · exact hr.bind fun _ => trivial
  · dsimp only [Prog.bind]
    split
    · refine ⟨trivial, fun command_id => ⟨trivial, ?_⟩⟩
      rintro (e | _)
      · dsimp only [Prog.bind]
        split
        · exact ⟨trivial, fun _ => trivial⟩
        · exact hr.bind fun _ => trivial
      · exact ⟨trivial, fun _ => trivial⟩
    · trivial

theorem harmless_rollback (prepare_token : PrepareToken) : Makes Harmless (do
    let _ ← request (.rollback_reload prepare_token ctx.generation) : ReloadProg Unit) :=
  ⟨trivial, fun _ => trivial⟩

theorem harmless_finish {start : ReloadProg (List ReloadError)} (hs : Makes Harmless start) :
    Makes Harmless (do
      let diff ← compute_function_diff_for_route route_id ctx.generation
      let errors ← finalize_functions ctx "Finalize" route_id diff
      return errors ++ (← start) : ReloadProg (List ReloadError)) := by
  apply (harmless_compute_function_diff_for_route _ _).bind
  intro diff
  apply (harmless_finalize_functions _ _ _ _).bind
  intro errors
  exact hs.bind fun _ => trivial

variable (function_ctx : Option FunctionReloadContext)

variable (prepare_token : Option PrepareToken)

theorem harmless_rollback_staging :
    Makes Harmless (rollback_staging function_ctx prepare_token) := by
  unfold rollback_staging
  split
  · exact ⟨trivial, fun _ => trivial⟩
  · trivial

theorem harmless_commit_swap (function_diff : Option FunctionDiff) (action : String) :
    Makes Harmless (commit_swap function_ctx function_diff action route_id) := by
  unfold commit_swap
  split
  · exact harmless_finalize_functions _ _ _ _
  · trivial

theorem harmless_prepare_swap : Makes Harmless (prepare_swap function_ctx route_id) := by
  unfold prepare_swap
  split
  · trivial
  · apply (harmless_compute_function_diff_for_route _ _).bind
    intro diff
    refine ⟨trivial, ?_⟩
    rintro (e | _) <;> trivial

theorem harmless_swap_by_restart (function_diff : Option FunctionDiff)
    (pipeline : CompiledPipeline) :
    Makes Harmless
      (swap_by_restart function_ctx prepare_token function_diff route_id pipeline) := by
  have hr : ∀ errors : List ReloadError, Makes Harmless (do
      rollback_staging function_ctx prepare_token
      return errors : ReloadProg (List ReloadError)) :=
    fun _ => (harmless_rollback_staging _ _).bind fun _ => trivial
  refine ⟨trivial, ?_⟩
  rintro (stop_err | _)
  · exact hr _
  · refine ⟨trivial, fun _ => ⟨trivial, ?_⟩⟩
    rintro (swap_err | _)
    · exact hr _
    · refine ⟨trivial, ?_⟩
      rintro (start_err | _)
      · exact hr _
      · exact harmless_commit_swap _ _ _ _

theorem harmless_apply_swap (new_definitions : List RouteDefinition) :
    Makes Harmless (apply_swap function_ctx route_id new_definitions) := by
  unfold apply_swap
  split
  · trivial
  · refine ⟨trivial, fun _ => ?_⟩
    have hc : ∀ pipeline, Makes Harmless (swap_compiled function_ctx route_id pipeline) := by
      intro pipeline
      dsimp only [swap_compiled]
      apply (harmless_prepare_swap _ _).bind
      rintro (e | ⟨prepare_token, function_diff⟩)
      · trivial
      · refine ⟨trivial, fun running_has_lifecycle => ?_⟩
        dsimp only [Prog.bind]
        split
        · exact harmless_swap_by_restart _ _ _ _ _
        · refine ⟨trivial, ?_⟩
          rintro (e | _)
          · exact (harmless_rollback_staging _ _).bind fun _ => trivial
          · exact harmless_commit_swap _ _ _ _
    cases function_ctx with
    | some ctx | none =>
      refine ⟨trivial, ?_⟩
      rintro (e | pipeline)
      · trivial
      · exact hc pipeline

end

/-! ## The calls of the controller -/

variable {r : Except CamelError Unit} {route_id : String}

section

variable {definition : RouteDefinition} {generation : Nat} {route_id : String}
  {prepared : PreparedRoute}

theorem prepare_step {r : Except CamelError PreparedRoute}
    (h : reloadSem health_registry
      (.prepare_route_definition_with_generation definition generation) s r ports t) :
    ((∃ e, r = .error e) ∧ t = s) ∨
      (r = .ok ⟨definition.route_id⟩ ∧ definition.route_id ∉ s.controller.prepared_staging ∧
        t = s.withController { s.controller with
          prepared_staging :=
            s.controller.prepared_staging.insert definition.route_id definition }) := by
  obtain ⟨built, h, -⟩ := h
  rcases hp : s.controller.prepare_route_definition_with_generation built definition with
    ⟨r', next⟩
  rw [hp] at h
  obtain ⟨rfl, rfl⟩ := Prod.mk.inj h
  rcases DefaultRouteController.prepare_cases hp with ⟨he, rfl⟩ | ⟨rfl, ha, rfl⟩
  · exact .inl ⟨he, rfl⟩
  · exact .inr ⟨rfl, ha, rfl⟩

theorem insert_step (h : reloadSem health_registry (.insert_prepared_route prepared) s r ports t) :
    ((∃ e, r = .error e) ∧ t = s ∧ (prepared.route_id ∉ s.controller.prepared_staging ∨
        prepared.route_id ∈ s.controller.routes)) ∨
      (r = .ok () ∧ prepared.route_id ∉ s.controller.routes ∧
        ∃ managed, s.controller.prepared_staging.lookup prepared.route_id = some managed ∧
          t = s.withController ⟨s.controller.routes.insert prepared.route_id managed,
            s.controller.prepared_staging.erase prepared.route_id⟩) := by
  obtain ⟨h, -⟩ := h
  rcases hi : s.controller.insert_prepared_route prepared with ⟨r', next⟩
  rw [hi] at h
  obtain ⟨rfl, rfl⟩ := Prod.mk.inj h
  rcases DefaultRouteController.insert_cases hi with
    ⟨he, rfl, hw⟩ | ⟨rfl, ha, managed, hs, rfl⟩
  · exact .inl ⟨he, rfl, hw⟩
  · exact .inr ⟨rfl, ha, managed, hs, rfl⟩

def Stages (definition : RouteDefinition) (s : ReloadState) : Prop :=
  s.controller.prepared_staging.lookup definition.route_id = some definition

theorem Stages.quietly {x y : ReloadState × List Step} (hx : Stages definition x.1)
    (h : Quietly x y) : Stages definition y.1 := by
  unfold Stages ReloadState.controller
  rw [h.unchanged.staging]
  exact hx

theorem stages_prepared : Stages definition (s.withController { s.controller with
    prepared_staging := s.controller.prepared_staging.insert definition.route_id definition }) :=
  Finmap.lookup_insert _

theorem insert_staged (hs : Stages definition s)
    (ha : definition.route_id ∉ s.controller.routes)
    (h : reloadSem health_registry (.insert_prepared_route ⟨definition.route_id⟩) s r ports t) :
    r = .ok () ∧ t = s.withController
      ⟨s.controller.routes.insert definition.route_id definition,
        s.controller.prepared_staging.erase definition.route_id⟩ := by
  rcases insert_step h with ⟨_, _, hm | hp⟩ | ⟨rfl, _, managed, hma, hi⟩
  · exact absurd (Finmap.mem_of_lookup_eq_some hs) hm
  · exact absurd hp ha
  · obtain rfl : managed = definition := Option.some.inj (hma.symm.trans hs)
    exact ⟨rfl, hi⟩

theorem remove_step
    (h : reloadSem health_registry (.remove_route_preserving_functions route_id) s r ports t) :
    ((∃ e, r = .error e) ∧ t = s) ∨
      (r = .ok () ∧ route_id ∈ s.controller.routes ∧
        t = s.withController
          { s.controller with routes := s.controller.routes.erase route_id }) := by
  obtain ⟨refusal, h, -⟩ := h
  rcases hr : s.controller.remove_route_preserving_functions refusal route_id with ⟨r', next⟩
  rw [hr] at h
  obtain ⟨rfl, rfl⟩ := Prod.mk.inj h
  rcases DefaultRouteController.remove_route_cases hr with ⟨he, rfl⟩ | ⟨rfl, hm, rfl⟩
  · exact .inl ⟨he, rfl⟩
  · exact .inr ⟨rfl, hm, rfl⟩

end

/-! ## The calls of the bus -/

theorem remove_command_step {command_id : String} {causation_id : Option String}
    {r : Except camel_api.CamelError RuntimeCommandResult}
    (h : reloadSem health_registry
      (.execute_runtime_command (.RemoveRoute route_id command_id causation_id)) s r ports t) :
    RemovalEnds route_id s.bus s.controller.routes (storedIds s.bus) (r.mapError .err)
      (t.bus, ports) :=
  busReturns_of_wp (wp_execute_remove rfl rfl command_id causation_id) h

theorem mapError_of_map {ε δ : Type} {result : Except ε α} {f : ε → δ} :
    (∀ e, result.mapError f = .error e → ∃ e', (result.map fun _ => ()) = .error e') ∧
      (∀ v, result.mapError f = .ok v → (result.map fun _ => ()) = .ok ()) := by
  cases result with
  | error e => exact ⟨fun _ _ => ⟨e, rfl⟩, nofun⟩
  | ok v => exact ⟨nofun, fun _ _ => rfl⟩

theorem add_step {definition : RouteDefinition} {r : Except camel_api.CamelError Unit}
    (h : reloadSem health_registry (.add_route_definition definition) s r ports t) :
    ((∃ e, r = .error e) ∧ Unchanged s t ∧ ¬ Logged RemovalFails ports) ∨
      definition.route_id ∉ s.controller.routes ∧
        ((r = .ok () ∧ Reaches s.bus
          (s.controller.routes.insert definition.route_id definition)
          (fun id => id = definition.route_id ∨ storedIds s.bus id) t.bus) ∨
        ((∃ e, r = .error e) ∧ Logged RemovalFails ports ∧ Reaches s.bus
          (s.controller.routes.insert definition.route_id definition) (storedIds s.bus)
          t.bus)) := by
  obtain ⟨result, hr, rfl⟩ := h
  rcases busReturns_of_wp (wp_register_route rfl rfl definition) hr with
    ⟨⟨e, he⟩, hre⟩ | ⟨ha, ⟨⟨v, hv⟩, hre⟩ | ⟨⟨e, he⟩, hre⟩⟩
  · exact .inl ⟨mapError_of_map.1 e he, hre⟩
  · exact .inr ⟨ha, .inl ⟨mapError_of_map.2 v hv, hre⟩⟩
  · exact .inr ⟨ha, .inr ⟨mapError_of_map.1 e he, hre⟩⟩

theorem aggregate_step {r : Except camel_api.CamelError Unit}
    (h : reloadSem health_registry (.register_route_aggregate route_id) s r ports t) :
    ((∃ e, r = .error e) ∧ Unchanged s t) ∨
      (r = .ok () ∧ Reaches s.bus s.controller.routes
        (fun id => id = route_id ∨ storedIds s.bus id) t.bus) := by
  obtain ⟨result, hr, rfl⟩ := h
  rcases busReturns_of_wp (wp_register_aggregate_only rfl route_id) hr with
    ⟨⟨e, he⟩, hre⟩ | ⟨⟨v, hv⟩, hre⟩
  · exact .inl ⟨mapError_of_map.1 e he, hre⟩
  · exact .inr ⟨mapError_of_map.2 v hv, hre⟩

/-! ## A restart, step by step -/

section

variable {definition : RouteDefinition} {I J K : ReloadState × List Step → Prop}
  {Q : List ReloadError → ReloadState × List Step → Prop} {x y : ReloadState × List Step}

theorem stages_of_prepare {generation : Nat} {prepared : PreparedRoute}
    (hst : tracedSem health_registry
      (.prepare_route_definition_with_generation definition generation) x (.ok prepared) y) :
    prepared = ⟨definition.route_id⟩ ∧ Stages definition y.1 := by
  obtain ⟨ports, hse, -⟩ := hst
  rcases prepare_step hse with ⟨⟨e, he⟩, -⟩ | ⟨hp, _, hs⟩
  · cases he
  · cases hp
    rw [hs]
    exact ⟨rfl, stages_prepared⟩

theorem Stages.remove (hx : Stages definition x.1)
    (hs : tracedSem health_registry (.remove_route_preserving_functions route_id) x r y) :
    Stages definition y.1 := by
  obtain ⟨ports, hse, -⟩ := hs
  rcases remove_step hse with ⟨-, hsa⟩ | ⟨-, -, he⟩
  · rw [hsa]
    exact hx
  · rw [he]
    exact hx

/-- What holds in a restart without functions: `I` until the route is taken out, `J` from then
until the new one is added, and `K` after that. A removal or an add that fails may end it. -/
structure PlainRestart (health_registry : Bool) (definition : RouteDefinition)
    (I J K : ReloadState × List Step → Prop)
    (Q : List ReloadError → ReloadState × List Step → Prop) : Prop where
  quietly : ∀ {x y}, I x → Quietly x y → I y
  untouched : ∀ {x} errors, I x → Q errors x
  settled : ∀ {x y} errors, K x → Quietly x y → Q errors y
  remove : ∀ {command_id x r y}, I x → tracedSem health_registry
    (.execute_runtime_command (.RemoveRoute definition.route_id command_id none)) x r y →
    I y ∨ ((∃ v, r = .ok v) ∧ J y) ∨ ((∃ e, r = .error e) ∧ ∀ errors, errors ≠ [] → Q errors y)
  add_again : ∀ {x r y}, I x →
    tracedSem health_registry (.add_route_definition definition) x r y → K y
  add : ∀ {x r y}, J x → tracedSem health_registry (.add_route_definition definition) x r y →
    K y ∨ ((∃ e, r = .error e) ∧ ∀ errors, errors ≠ [] → Q errors y)

theorem PlainRestart.wp (h : PlainRestart health_registry definition I J K Q) (hx : I x) :
    wp (ofSem (tracedSem health_registry)) (restart_plain definition.route_id definition) Q x := by
  have hs : ∀ {y} {p : ReloadProg (List ReloadError)}, K y → Makes Harmless p →
      Prog.wp (ofSem (tracedSem health_registry)) p Q y := by
    intro y p hy hp
    exact wp_mono (mono_ofSem _) (fun errors _ => h.settled errors hy) (quietly_of_makes hp y)
  unfold restart_plain
  apply wp_harmless_bind (harmless_stop_for_mutation _ _ _ (by trivial))
  rintro (e | runtime_status) y hxy
  · exact h.untouched _ (h.quietly hx hxy)
  intro command_id z hyz
  have hz := h.quietly (h.quietly hx hxy)
    ((Quietly.refl y).step (c := .next_reload_command_id _ _) (by trivial) hyz)
  intro r u hzu
  rcases h.remove hz hzu with hu | ⟨⟨v, rfl⟩, hu⟩ | ⟨⟨e, rfl⟩, hu⟩
  · -- The command has failed, or the gate has answered for it.
    rcases r with e | v
    · exact h.untouched _ hu
    · intro r w huw
      have hw := h.add_again hu huw
      rcases r with e | _
      · exact hs hw (by trivial)
      · exact hs hw (harmless_start_again _ _)
  · intro r w huw
    rcases h.add hu huw with hw | ⟨⟨e, rfl⟩, hw⟩
    · rcases r with e | _
      · exact hs hw (by trivial)
      · exact hs hw (harmless_start_again _ _)
    · exact hw _ (by simp)
  · exact hu _ (by simp)

/-- The same of a restart with functions. The new route is staged before the old one is taken
out, so the insert does not fail. -/
structure PreparedRestart (health_registry : Bool) (definition : RouteDefinition)
    (I J K : ReloadState × List Step → Prop)
    (Q : List ReloadError → ReloadState × List Step → Prop) : Prop where
  quietly : ∀ {x y}, I x → Quietly x y → I y
  untouched : ∀ {x} errors, I x → Q errors x
  settled : ∀ {x y} errors, K x → Quietly x y → Q errors y
  prepare : ∀ {generation x r y}, I x → tracedSem health_registry
    (.prepare_route_definition_with_generation definition generation) x r y → I y
  remove : ∀ {x r y}, I x → tracedSem health_registry
    (.remove_route_preserving_functions definition.route_id) x r y →
    ((∃ e, r = .error e) ∧ I y) ∨ (r = .ok () ∧ J y)
  insert : ∀ {x r y}, J x → Stages definition x.1 →
    tracedSem health_registry (.insert_prepared_route ⟨definition.route_id⟩) x r y →
    r = .ok () ∧ K y

theorem PreparedRestart.wp_prepared {ctx : FunctionReloadContext} {prepare_token : PrepareToken}
    (h : PreparedRestart health_registry definition I J K Q) (hx : I x)
    (hs : Stages definition x.1) :
    wp (ofSem (tracedSem health_registry))
      (restart_prepared ctx definition.route_id ⟨definition.route_id⟩ prepare_token) Q x := by
  unfold restart_prepared
  apply wp_harmless_bind (harmless_stop_for_mutation _ _ _ (harmless_rollback _ _))
  rintro (e | runtime_status) y hxy
  · exact h.untouched _ (h.quietly hx hxy)
  intro r z hy
  have hs' : Stages definition z.1 := (hs.quietly hxy).remove hy
  rcases h.remove (h.quietly hx hxy) hy with ⟨⟨e, rfl⟩, hz⟩ | ⟨rfl, hz⟩
  · apply wp_harmless_bind (harmless_rollback _ _)
    intro _ u hzu
    exact h.untouched _ (h.quietly hz hzu)
  intro r u hzu
  obtain ⟨rfl, hu⟩ := h.insert hz hs' hzu
  apply wp_mono (mono_ofSem _) (fun errors _ => h.settled errors hu)
  apply quietly_of_makes
  exact harmless_finish _ _ (harmless_start_again _ _)

theorem PreparedRestart.wp {ctx : FunctionReloadContext}
    (h : PreparedRestart health_registry definition I J K Q) (hx : I x) :
    wp (ofSem (tracedSem health_registry))
      (restart_with_functions ctx definition.route_id definition) Q x := by
  intro r y hxy
  have hy := h.prepare hx hxy
  rcases r with e | prepared
  · exact h.untouched _ hy
  obtain ⟨rfl, hs⟩ := stages_of_prepare hxy
  apply wp_harmless_bind (harmless_compute_function_diff_for_route _ _)
  intro diff z hyz r u hz
  have hq := (Quietly.refl z).step (c := .prepare_reload _ _) (by trivial) hz
  have hu := h.quietly (h.quietly hy hyz) hq
  rcases r with e | prepare_token
  · exact h.untouched _ hu
  · exact h.wp_prepared hu ((hs.quietly hyz).quietly hq)

end

end camel_core.hot_reload
