-- The law of the generations of a route. A restart takes the old route out before it
-- puts the new one in. With functions the new one is staged by then, and the insert
-- cannot fail. Without them the add can, and nothing puts the old route back.
import RustCamel.HotReload.ReloadEffects

open Finmap

namespace camel_core.hot_reload

open camel_core.lifecycle Prog

/-! ## When a restart loses its route -/

def RemovalCommand (tells : PortLog → Prop) : Step → Prop
  | ⟨.execute_runtime_command (.RemoveRoute _ _ _), _, ports⟩ => tells ports
  | _ => False

/-- The command of a removal has taken the route out of the controller. -/
def TakenOut (route_id : String) : Step → Prop := RemovalCommand (Logged (TakesOut route_id))

/-- The store failed to delete the route of such a command. -/
def Undeleted : Step → Prop := RemovalCommand (Logged DeletionFails)

/-- The add of a definition failed, and did not leave it in the controller. -/
def Unadded : Step → Prop
  | ⟨.add_route_definition _, .error _, ports⟩ => ¬ Logged RemovalFails ports
  | _ => False

/-- The route was taken out, and what comes after it failed: the deletion from the store, or the
add of the new definition. -/
def Loses (route_id : String) (steps : List Step) : Prop :=
  Taken (TakenOut route_id) steps ∧ (Taken Undeleted steps ∨ Taken Unadded steps)

/-- The controller has the old definition of the route, or the new one. -/
def HoldsGeneration (route_id : String) (old : RouteDefinition)
    (new_definitions : List RouteDefinition) (controller : DefaultRouteController) : Prop :=
  ∃ d, controller.routes.lookup route_id = some d ∧
    (d = old ∨ find_definition new_definitions route_id = some d)

theorem telling_removalCommand (tells : PortLog → Prop) : Telling (RemovalCommand tells) := by
  rintro ⟨c, r, ports⟩ h
  cases c with
  | execute_runtime_command cmd =>
    cases cmd with
    | RemoveRoute => exact id
    | _ => exact h.elim
  | _ => exact h.elim

theorem telling_takenOut (route_id : String) : Telling (TakenOut route_id) :=
  telling_removalCommand _

theorem telling_undeleted : Telling Undeleted := telling_removalCommand _

theorem telling_unadded : Telling Unadded := by
  rintro ⟨c, r, ports⟩ h
  cases c with
  | add_route_definition => exact id
  | _ => exact h.elim

/-! ## The states of a restart -/

variable {health_registry : Bool} {route_id : String} {old : RouteDefinition}
  {new_definitions : List RouteDefinition} {x y : ReloadState × List Step}
  {definition : RouteDefinition}

/-- No deletion and no add has failed. -/
structure Clean (steps : List Step) : Prop where
  deleted : ¬ Taken Undeleted steps
  added : ¬ Taken Unadded steps

/-- The route has its old definition, and was never taken out. -/
structure Untouched (route_id : String) (old : RouteDefinition)
    (x : ReloadState × List Step) : Prop where
  current : x.1.controller.routes.lookup route_id = some old
  untaken : ¬ Taken (TakenOut route_id) x.2
  clean : Clean x.2

/-- The route is out, and nothing has failed so far. -/
structure Absent (route_id : String) (x : ReloadState × List Step) : Prop where
  absent : route_id ∉ x.1.controller.routes
  clean : Clean x.2

/-- The route has a definition, and it was not lost. -/
structure Kept (route_id : String) (old : RouteDefinition) (new_definitions : List RouteDefinition)
    (x : ReloadState × List Step) : Prop where
  holds : HoldsGeneration route_id old new_definitions x.1.controller
  unlost : ¬ Loses route_id x.2

structure Lost (route_id : String) (x : ReloadState × List Step) : Prop where
  absent : route_id ∉ x.1.controller.routes
  loses : Loses route_id x.2

/-- How an action ends. -/
def GenerationEnds (route_id : String) (old : RouteDefinition)
    (new_definitions : List RouteDefinition) (errors : List ReloadError)
    (x : ReloadState × List Step) : Prop :=
  Kept route_id old new_definitions x ∨ (errors ≠ [] ∧ Lost route_id x)

theorem Untouched.kept (hx : Untouched route_id old x) : Kept route_id old new_definitions x :=
  ⟨⟨old, hx.current, .inl rfl⟩, fun hl => hx.untaken hl.1⟩

theorem unlost_of_clean {steps : List Step} (h : Clean steps) : ¬ Loses route_id steps := by
  rintro ⟨-, hd | ha⟩
  · exact h.deleted hd
  · exact h.added ha

/-! ## Harmless parts -/

theorem Clean.quietly (hx : Clean x.2) (h : Quietly x y) : Clean y.2 := by
  refine ⟨?_, ?_⟩
  · rw [h.steps _ telling_undeleted]
    exact hx.deleted
  · rw [h.steps _ telling_unadded]
    exact hx.added

theorem Untouched.quietly (hx : Untouched route_id old x) (h : Quietly x y) :
    Untouched route_id old y := by
  refine ⟨?_, ?_, hx.clean.quietly h⟩
  · unfold ReloadState.controller
    rw [h.unchanged.routes]
    exact hx.current
  · rw [h.steps _ (telling_takenOut route_id)]
    exact hx.untaken

theorem Kept.quietly (hx : Kept route_id old new_definitions x) (h : Quietly x y) :
    Kept route_id old new_definitions y := by
  refine ⟨?_, ?_⟩
  · unfold HoldsGeneration ReloadState.controller
    rw [h.unchanged.routes]
    exact hx.holds
  · unfold Loses
    rw [h.steps _ (telling_takenOut route_id), h.steps _ telling_undeleted,
      h.steps _ telling_unadded]
    exact hx.unlost

/-! ## The steps that change the routes -/

theorem Untouched.remove_command {command_id : String} {causation_id : Option String}
    {r : Except camel_api.CamelError RuntimeCommandResult} (hx : Untouched route_id old x)
    (hst : tracedSem health_registry
      (.execute_runtime_command (.RemoveRoute route_id command_id causation_id)) x r y) :
    Untouched route_id old y ∨
      ((∃ v, r = .ok v) ∧ Absent route_id y ∧ Taken (TakenOut route_id) y.2) ∨
      ((∃ e, r = .error e) ∧ Lost route_id y) := by
  obtain ⟨ports, hse, hs⟩ := hst
  have ha : ¬ Taken Unadded y.2 := by
    rw [hs, taken_append]
    exact not_or.mpr ⟨hx.clean.added, id⟩
  have hab : route_id ∉ x.1.controller.routes.erase route_id :=
    fun hm => (mem_erase.mp hm).1 rfl
  rcases remove_command_step hse with h | ⟨⟨v, hv⟩, h⟩ | ⟨⟨e, he⟩, h⟩
  · refine .inl ⟨?_, ?_, ?_, ha⟩
    · unfold ReloadState.controller
      rw [h.reaches.routes]
      exact hx.current
    · rw [hs, taken_append]
      exact not_or.mpr ⟨hx.untaken, h.removed.mp⟩
    · rw [hs, taken_append]
      exact not_or.mpr ⟨hx.clean.deleted, h.failed.mp⟩
  · refine .inr (.inl ⟨?_, ⟨?_, ?_, ha⟩, ?_⟩)
    · cases r with
      | error e => cases hv
      | ok v => exact ⟨v, rfl⟩
    · unfold ReloadState.controller
      rw [h.reaches.routes]
      exact hab
    · rw [hs, taken_append]
      exact not_or.mpr ⟨hx.clean.deleted, h.failed.mp⟩
    · rw [hs, taken_append]
      exact .inr (h.removed.mpr trivial)
  · refine .inr (.inr ⟨?_, ?_, ?_, ?_⟩)
    · cases r with
      | error e => exact ⟨e, rfl⟩
      | ok v => cases he
    · unfold ReloadState.controller
      rw [h.reaches.routes]
      exact hab
    · rw [hs, taken_append]
      exact .inr (h.removed.mpr trivial)
    · left
      rw [hs, taken_append]
      exact .inr (h.failed.mpr trivial)

theorem Untouched.add {r : Except camel_api.CamelError Unit}
    (hx : Untouched definition.route_id old x)
    (hst : tracedSem health_registry (.add_route_definition definition) x r y) :
    Kept definition.route_id old new_definitions y := by
  obtain ⟨ports, hse, hs⟩ := hst
  rcases add_step hse with ⟨_, hu, _⟩ | ⟨ha, _⟩
  · refine ⟨⟨old, ?_, .inl rfl⟩, ?_⟩
    · unfold ReloadState.controller
      rw [hu.routes]
      exact hx.current
    · rintro ⟨ht, -⟩
      rw [hs, taken_append] at ht
      exact ht.elim hx.untaken id
  · exact absurd (mem_of_lookup_eq_some hx.current) ha

theorem Absent.add {r : Except camel_api.CamelError Unit}
    (hf : find_definition new_definitions definition.route_id = some definition)
    (hx : Absent definition.route_id x) (ht : Taken (TakenOut definition.route_id) x.2)
    (hst : tracedSem health_registry (.add_route_definition definition) x r y) :
    Kept definition.route_id old new_definitions y ∨
      ((∃ e, r = .error e) ∧ Lost definition.route_id y) := by
  obtain ⟨ports, hse, hs⟩ := hst
  have hi : y.1.controller.routes =
      x.1.controller.routes.insert definition.route_id definition → HoldsGeneration
        definition.route_id old new_definitions y.1.controller := by
    intro hr
    refine ⟨definition, ?_, .inr hf⟩
    rw [hr, lookup_insert]
  have hd : ¬ Taken Undeleted y.2 := by
    rw [hs, taken_append]
    exact not_or.mpr ⟨hx.clean.deleted, id⟩
  rcases add_step hse with ⟨⟨e, rfl⟩, hu, hun⟩ |
    ⟨_, ⟨rfl, hre⟩ | ⟨⟨e, rfl⟩, href, hre⟩⟩
  · refine .inr ⟨⟨e, rfl⟩, ?_, ?_, .inr ?_⟩
    · unfold ReloadState.controller
      rw [hu.routes]
      exact hx.absent
    · rw [hs, taken_append]
      exact .inl ht
    · rw [hs, taken_append]
      exact .inr hun
  · refine .inl ⟨hi hre.routes, unlost_of_clean ⟨hd, ?_⟩⟩
    rw [hs, taken_append]
    exact not_or.mpr ⟨hx.clean.added, id⟩
  · refine .inl ⟨hi hre.routes, unlost_of_clean ⟨hd, ?_⟩⟩
    rw [hs, taken_append]
    exact not_or.mpr ⟨hx.clean.added, fun hun => hun href⟩

/-! ## The steps of the controller -/

/-- The calls that never lose a route. -/
def Unlosing : ReloadCall → Prop
  | .execute_runtime_command _ | .add_route_definition _ => False
  | _ => True

theorem Clean.unlosing {c : ReloadCall} {r : ReloadAnswer c} {ports : PortLog} (hx : Clean x.2)
    (hc : Unlosing c) (hs : y.2 = x.2 ++ [⟨c, r, ports⟩]) : Clean y.2 := by
  have hn : ¬ Undeleted ⟨c, r, ports⟩ ∧ ¬ Unadded ⟨c, r, ports⟩ := by
    cases c with
    | execute_runtime_command | add_route_definition => exact hc.elim
    | _ => exact ⟨id, id⟩
  refine ⟨?_, ?_⟩
  · rw [hs, taken_append]
    exact not_or.mpr ⟨hx.deleted, hn.1⟩
  · rw [hs, taken_append]
    exact not_or.mpr ⟨hx.added, hn.2⟩

theorem Untouched.unlosing {c : ReloadCall} {r : ReloadAnswer c} {ports : PortLog}
    (hx : Untouched route_id old x) (hc : Unlosing c) (hs : y.2 = x.2 ++ [⟨c, r, ports⟩])
    (hr : y.1.controller.routes = x.1.controller.routes) : Untouched route_id old y := by
  have hn : ¬ TakenOut route_id ⟨c, r, ports⟩ := by
    cases c with
    | execute_runtime_command => exact hc.elim
    | _ => exact id
  refine ⟨by rw [hr]; exact hx.current, ?_, hx.clean.unlosing hc hs⟩
  rw [hs, taken_append]
  exact not_or.mpr ⟨hx.untaken, hn⟩

variable {definition : RouteDefinition} {r : Except camel_api.error.CamelError Unit}

theorem Untouched.prepare {generation : Nat} {r : Except camel_api.error.CamelError PreparedRoute}
    (hx : Untouched route_id old x)
    (hste : tracedSem health_registry
      (.prepare_route_definition_with_generation definition generation) x r y) :
    Untouched route_id old y := by
  obtain ⟨ports, hse, hs⟩ := hste
  rcases prepare_step hse with ⟨⟨e, rfl⟩, hsa⟩ | ⟨rfl, _, hst⟩
  · exact hx.unlosing (by trivial) hs (by rw [hsa])
  · exact hx.unlosing (by trivial) hs (by rw [hst]; rfl)

theorem Untouched.remove (hx : Untouched route_id old x)
    (hst : tracedSem health_registry (.remove_route_preserving_functions route_id) x r y) :
    ((∃ e, r = .error e) ∧ Untouched route_id old y) ∨ (r = .ok () ∧ Absent route_id y) := by
  obtain ⟨ports, hse, hs⟩ := hst
  rcases remove_step hse with ⟨⟨e, rfl⟩, hsa⟩ | ⟨rfl, _, he⟩
  · exact .inl ⟨⟨e, rfl⟩, hx.unlosing (by trivial) hs (by rw [hsa])⟩
  · refine .inr ⟨rfl, ?_, hx.clean.unlosing (by trivial) hs⟩
    rw [he]
    exact fun hm => (mem_erase.mp hm).1 rfl

section

variable (hfind : find_definition new_definitions definition.route_id = some definition)

include hfind

theorem Absent.insert (hx : Absent definition.route_id x) (hst : Stages definition x.1)
    (hste : tracedSem health_registry (.insert_prepared_route ⟨definition.route_id⟩) x r y) :
    r = .ok () ∧ Kept definition.route_id old new_definitions y := by
  obtain ⟨ports, hse, hs⟩ := hste
  have hc : Clean y.2 := hx.clean.unlosing (by trivial) hs
  obtain ⟨rfl, hi⟩ := insert_staged hst hx.absent hse
  refine ⟨rfl, ⟨definition, ?_, .inr hfind⟩, unlost_of_clean hc⟩
  rw [hi]
  exact lookup_insert _

/-! ## The two restarts -/

theorem plainRestart_generation :
    PlainRestart health_registry definition (Untouched definition.route_id old)
      (fun x => Absent definition.route_id x ∧ Taken (TakenOut definition.route_id) x.2)
      (Kept definition.route_id old new_definitions)
      (GenerationEnds definition.route_id old new_definitions) where
  quietly := Untouched.quietly
  untouched _ hx := .inl hx.kept
  settled _ hx hxy := .inl (hx.quietly hxy)
  remove hx hs := by
    rcases hx.remove_command hs with hy | ⟨ho, hy⟩ | ⟨he, hy⟩
    · exact .inl hy
    · exact .inr (.inl ⟨ho, hy⟩)
    · exact .inr (.inr ⟨he, fun _ her => .inr ⟨her, hy⟩⟩)
  add_again := Untouched.add
  add hx hs := by
    rcases hx.1.add hfind hx.2 hs with hy | ⟨he, hy⟩
    · exact .inl hy
    · exact .inr ⟨he, fun _ her => .inr ⟨her, hy⟩⟩

theorem preparedRestart_generation :
    PreparedRestart health_registry definition (Untouched definition.route_id old)
      (Absent definition.route_id) (Kept definition.route_id old new_definitions)
      (GenerationEnds definition.route_id old new_definitions) where
  quietly := Untouched.quietly
  untouched _ hx := .inl hx.kept
  settled _ hx hxy := .inl (hx.quietly hxy)
  prepare := Untouched.prepare
  remove := Untouched.remove
  insert := Absent.insert hfind

end

/-! ## The law -/

def Replaces (route_id : String) (action : domain.ReloadAction) : Prop :=
  action = .Restart route_id ∨ action = .Swap route_id

theorem wp_replacing {function_ctx : Option FunctionReloadContext} {action : domain.ReloadAction}
    (ha : Replaces route_id action) (hx : Untouched route_id old x) :
    wp (ofSem (tracedSem health_registry)) (apply_action function_ctx new_definitions action)
      (GenerationEnds route_id old new_definitions) x := by
  rcases ha with rfl | rfl
  · dsimp only [apply_action, apply_restart]
    split
    · exact .inl hx.kept
    · rename_i definition hfind
      obtain rfl := find_definition_route_id hfind
      split
      · exact (preparedRestart_generation hfind).wp hx
      · exact (plainRestart_generation hfind).wp hx
  · exact wp_mono (mono_ofSem _) (fun _ _ hxy => .inl (hx.kept.quietly hxy))
      (quietly_of_makes (harmless_apply_swap _ _ _) x)

/-- After a restart or a swap that reports an error the controller has a definition of the route,
if and only if no removal took the route out before a later step failed. -/
theorem a_failed_reload_keeps_a_generation_iff {function_ctx : Option FunctionReloadContext}
    {action : domain.ReloadAction} {s t : ReloadState} {errors : List ReloadError}
    {steps : List Step} (haction : Replaces route_id action)
    (hold : s.controller.routes.lookup route_id = some old)
    (h : Applies health_registry function_ctx new_definitions action s errors steps t) :
    (errors ≠ [] → HoldsGeneration route_id old new_definitions t.controller) ↔
      ¬ Loses route_id steps := by
  have hs : Untouched route_id old (s, []) := ⟨hold, not_taken_nil, not_taken_nil, not_taken_nil⟩
  rcases wp_ofSem_iff.mp (wp_replacing haction hs) _ _ h with hk | ⟨he, hl⟩
  · exact iff_of_true (fun _ => hk.holds) hk.unlost
  · refine iff_of_false ?_ (not_not.mpr hl.loses)
    intro hh
    obtain ⟨d, hd, _⟩ := hh he
    exact hl.absent (mem_of_lookup_eq_some hd)

/-! ## Two restarts that fail -/

/-- The route sends to a component that is not there. -/
def unknownRoute : RouteDefinition := { timerRoute "r" with steps := [.To "nosuch:x"] }

/-- Such a route cannot be built. -/
def unbuildable : Script where
  built := .error (.ComponentNotFound "nosuch")

theorem plain_restart_completes :
    unbuildable.Completes none [unknownRoute] (.Restart "r") (registeredContext "r") := by
  decide +kernel

/-- A restart without functions removes the route, cannot add the new one, and the route is
gone. -/
theorem a_failed_reload_loses_its_route : ¬ ∀ (function_ctx : Option FunctionReloadContext)
    (new_definitions : List RouteDefinition) (action : domain.ReloadAction) (route_id : String)
    (old : RouteDefinition) (s t : ReloadState) (errors : List ReloadError) (steps : List Step),
    Replaces route_id action → s.controller.routes.lookup route_id = some old →
      Applies false function_ctx new_definitions action s errors steps t → errors ≠ [] →
      HoldsGeneration route_id old new_definitions t.controller := by
  intro h
  obtain ⟨d, hd, -⟩ := h none _ (.Restart "r") "r" (timerRoute "r") _ _ _ _ (.inl rfl) (by rfl)
    (Script.applies plain_restart_completes) (by decide +kernel)
  exact absurd (mem_of_lookup_eq_some hd) (by decide +kernel)

theorem prepared_restart_completes :
    unbuildable.Completes (some ⟨1⟩) [unknownRoute] (.Restart "r") (registeredContext "r") := by
  decide +kernel

/-- A restart with functions builds the new route first, and the old one stays. -/
theorem a_restart_with_functions_keeps_its_route : ∃ errors steps t,
    Applies false (some ⟨1⟩) [unknownRoute] (.Restart "r") (registeredContext "r") errors steps t ∧
      errors ≠ [] ∧ ((errors ≠ [] →
        HoldsGeneration "r" (timerRoute "r") [unknownRoute] t.controller) ↔ ¬ Loses "r" steps) ∧
      t.controller.routes.lookup "r" = some (timerRoute "r") :=
  ⟨_, _, _, Script.applies prepared_restart_completes, by decide +kernel,
    a_failed_reload_keeps_a_generation_iff (.inl rfl) (by rfl)
      (Script.applies prepared_restart_completes), by rfl⟩

end camel_core.hot_reload
