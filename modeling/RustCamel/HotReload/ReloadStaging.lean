-- The law of the staged routes. An action with functions stages its new route before
-- it prepares them, and only a failed insert discards the staged route. So an
-- action that breaks off before the insert leaves it behind.
import RustCamel.HotReload.ReloadEffects

open Finmap

namespace camel_core.hot_reload

open camel_core.lifecycle Prog

/-! ## When an action leaves a staged route -/

/-- The step has staged a route. -/
def Prepares : Step → Prop
  | ⟨.prepare_route_definition_with_generation _ _, .ok _, _⟩ => True
  | _ => False

/-- The answer ends an action that has staged its route, and the route is not discarded. -/
def breaksOff : domain.ReloadAction → (c : ReloadCall) → ReloadAnswer c → Bool
  | .Add _, .prepare_reload _ _, .error _ => true
  | .Restart _, .prepare_reload _ _, .error _ => true
  | .Restart _, .runtime_route_status _, .error _ => true
  | .Restart _, .execute_runtime_command (.StopRoute _ _ _ _), .error e =>
    !is_invalid_stop_transition e
  | .Restart _, .remove_route_preserving_functions _, .error _ => true
  | _, _, _ => false

section

variable (action : domain.ReloadAction)

def Breaks (step : Step) : Prop := breaksOff action step.call step.answer = true

/-- The action has staged its route, and a step between the preparation and the insert failed. -/
def LeavesStaging (steps : List Step) : Prop := Taken Prepares steps ∧ Taken (Breaks action) steps

/-- No route is staged under the id, and a definition of it that builds can be prepared. -/
def Preparable (route_id : String) (controller : DefaultRouteController) : Prop :=
  route_id ∉ controller.prepared_staging ∧
    ∀ definition : RouteDefinition, definition.route_id = route_id →
      (controller.prepare_route_definition_with_generation (.ok ()) definition).1 = .ok ⟨route_id⟩

theorem preparable_iff {route_id : String} {controller : DefaultRouteController} :
    Preparable route_id controller ↔ route_id ∉ controller.prepared_staging := by
  refine ⟨And.left, fun ha => ⟨ha, ?_⟩⟩
  rintro definition rfl
  unfold DefaultRouteController.prepare_route_definition_with_generation
  rw [if_neg ha]

/-! ## The phases of an action -/

inductive StagingPhase where
  | start
  | unstaged
  | staged (prepared : PreparedRoute)
  | left
  | settled

def stagingAfter (g : StagingPhase) (c : ReloadCall) (r : ReloadAnswer c) : StagingPhase :=
  match g with
  | .start =>
    match c, r with
    | .prepare_route_definition_with_generation _ _, .ok prepared => .staged prepared
    | _, _ => .unstaged
  | .staged prepared =>
    match c, r with
    | .insert_prepared_route _, .ok _ => .settled
    | .discard_prepared_staging _, _ => .settled
    | c, r => if breaksOff action c r then .left else .staged prepared
  | g => g

/-- The calls that leave the staged routes alone. -/
def Unstaging : ReloadCall → Prop
  | .prepare_route_definition_with_generation _ _ | .insert_prepared_route _
  | .discard_prepared_staging _ => False
  | .remove_route_preserving_functions _ | .register_route_aggregate _
  | .add_route_definition _ | .execute_runtime_command (.RemoveRoute _ _ _) => True
  | c => Harmless c

/-- What each phase allows. After the insert nothing may break off the action. -/
def StagingOk (route_id : String) (g : StagingPhase) : ReloadCall → Prop
  | .prepare_route_definition_with_generation definition _ =>
    g = .start ∧ definition.route_id = route_id
  | .insert_prepared_route prepared => g = .staged prepared
  | .discard_prepared_staging id => (∃ prepared, g = .staged prepared) ∧ id = route_id
  | c => Unstaging c ∧ (g = .settled → ∀ r, breaksOff action c r = false)

end

abbrev stagingRule (action : domain.ReloadAction) (route_id : String) :
    Rule ReloadCall ReloadAnswer StagingPhase :=
  ofProtocol (StagingOk action route_id) (stagingAfter action)

/-! ## Every action keeps to the phases -/

variable {action : domain.ReloadAction} {route_id : String} {α : Type}

/-- The call leaves the staged routes alone, and its failure does not break off the action. -/
def Unbreaking (action : domain.ReloadAction) (c : ReloadCall) : Prop :=
  Unstaging c ∧ ∀ r, breaksOff action c r = false

variable {c : ReloadCall} {g : StagingPhase} {p : ReloadProg α} {r : ReloadAnswer c}

theorem unstaging_of_harmless (h : Harmless c) : Unstaging c := by
  cases c with
  | execute_runtime_command cmd =>
    cases cmd with
    | RemoveRoute => exact h.elim
    | _ => exact h
  | prepare_route_definition_with_generation | insert_prepared_route | discard_prepared_staging
  | remove_route_preserving_functions | register_route_aggregate | add_route_definition =>
    exact h.elim
  | _ => exact h

theorem stagingOk_of_unstaging (hc : Unstaging c)
    (hg : g = .settled → ∀ r, breaksOff action c r = false) : StagingOk action route_id g c := by
  cases c with
  | prepare_route_definition_with_generation | insert_prepared_route | discard_prepared_staging =>
    exact hc.elim
  | _ => exact ⟨hc, hg⟩

theorem stagingAfter_unbreaking (hg : g ≠ .start) (hc : Unbreaking action c) :
    stagingAfter action g c r = g := by
  cases g with
  | start => exact absurd rfl hg
  | staged prepared =>
    cases c with
    | prepare_route_definition_with_generation | insert_prepared_route
    | discard_prepared_staging => exact hc.1.elim
    | _ => exact if_neg (by rw [hc.2 r]; simp)
  | _ => rfl

theorem staging_unbreaking (hg : g ≠ .start) (hp : Makes (Unbreaking action) p) :
    wp (stagingRule action route_id) p (fun _ g' => g' = g) g := by
  refine wp_of_makes ?_ ?_ hp rfl
  · intro _ c _ hc
    exact stagingOk_of_unstaging hc.1 fun _ => hc.2
  · rintro _ c r rfl hc
    exact stagingAfter_unbreaking hg hc

theorem staging_left (hp : Makes Unstaging p) :
    wp (stagingRule action route_id) p (fun _ g => g = .left) .left := by
  refine wp_of_makes ?_ ?_ hp rfl
  · rintro _ c rfl hc
    exact stagingOk_of_unstaging hc nofun
  · rintro _ c r rfl _
    rfl

theorem staging_unstaging (hp : Makes Unstaging p) :
    wp (stagingRule action route_id) p (fun _ g => g = .start ∨ g = .unstaged) .start := by
  refine wp_of_makes ?_ ?_ hp (.inl rfl)
  · rintro _ c (rfl | rfl) hc
    all_goals exact stagingOk_of_unstaging hc nofun
  · rintro _ c r (rfl | rfl) hc
    · cases c with
      | prepare_route_definition_with_generation => exact hc.elim
      | _ => exact .inr rfl
    · exact .inr rfl

def StagingEnds (g : StagingPhase) : Prop := ∀ prepared, g ≠ .staged prepared

theorem stagingEnds_of_unstaging (hp : Makes Unstaging p) :
    wp (stagingRule action route_id) p (fun _ g => StagingEnds g) .start := by
  refine wp_mono (mono_ofProtocol _ _) ?_ (staging_unstaging hp)
  rintro _ _ (rfl | rfl)
  all_goals exact fun _ => nofun

theorem unbreaking_compute_function_diff_for_route (generation : Nat) :
    Makes (Unbreaking action) (compute_function_diff_for_route route_id generation) := by
  refine ⟨⟨trivial, ?_⟩, fun _ => ⟨⟨trivial, ?_⟩, fun _ => trivial⟩⟩
  all_goals
    intro r
    cases action <;> rfl

variable (ctx : FunctionReloadContext) {definition : RouteDefinition}

theorem unbreaking_finalize_functions (label : String) (diff : FunctionDiff) :
    Makes (Unbreaking action) (finalize_functions ctx label route_id diff) := by
  refine ⟨⟨trivial, ?_⟩, ?_⟩
  · intro r
    cases action <;> rfl
  · rintro (e | _) <;> trivial

theorem unbreaking_start_after (op label : String) :
    Makes (Unbreaking action) (start_after op label route_id) := by
  refine ⟨⟨trivial, ?_⟩, fun command_id => ⟨⟨trivial, ?_⟩, ?_⟩⟩
  · intro r
    cases action <;> rfl
  · intro r
    cases action <;> rfl
  · rintro (e | _) <;> trivial

theorem unbreaking_start_again (runtime_status : Option String) :
    Makes (Unbreaking action) (start_again runtime_status route_id) := by
  unfold start_again
  split
  · exact unbreaking_start_after _ _
  · trivial

theorem unbreaking_finish {start : ReloadProg (List ReloadError)}
    (hs : Makes (Unbreaking action) start) :
    Makes (Unbreaking action) (do
      let diff ← compute_function_diff_for_route route_id ctx.generation
      let errors ← finalize_functions ctx "Finalize" route_id diff
      return errors ++ (← start) : ReloadProg (List ReloadError)) := by
  apply (unbreaking_compute_function_diff_for_route _).bind
  intro diff
  apply (unbreaking_finalize_functions _ _ _).bind
  intro errors
  exact hs.bind fun _ => trivial

theorem staging_add_prepared (prepared : PreparedRoute) :
    wp (stagingRule (.Add route_id) route_id) (add_prepared ctx route_id prepared)
      (fun _ g => StagingEnds g) (.staged prepared) := by
  -- After the insert there is no way back to the staged route.
  have hs : ∀ {p : ReloadProg (List ReloadError)}, Makes (Unbreaking (.Add route_id)) p →
      wp (stagingRule (.Add route_id) route_id) p (fun _ g => StagingEnds g) .settled := by
    intro p hp
    refine wp_mono (mono_ofProtocol _ _) ?_ (staging_unbreaking (by simp) hp)
    rintro _ _ rfl _ ⟨⟩
  unfold add_prepared
  rw [wp_bind]
  refine wp_mono (mono_ofProtocol _ _) ?_
    (staging_unbreaking (by simp) (unbreaking_compute_function_diff_for_route _))
  rintro diff _ rfl
  refine ⟨⟨trivial, nofun⟩, ?_⟩
  rintro (e | prepare_token)
  · exact ⟨⟨trivial, nofun⟩, fun _ _ => nofun⟩
  · refine ⟨rfl, ?_⟩
    rintro (e | _)
    · refine ⟨⟨⟨prepared, rfl⟩, rfl⟩, fun _ => ?_⟩
      exact hs ⟨⟨trivial, fun _ => rfl⟩, fun _ => trivial⟩
    · apply hs
      refine ⟨⟨trivial, fun _ => rfl⟩, ?_⟩
      rintro (e | _)
      · exact ⟨⟨trivial, fun _ => rfl⟩, fun _ => ⟨⟨trivial, fun _ => rfl⟩, fun _ => trivial⟩⟩
      · exact unbreaking_finish ctx (unbreaking_start_after _ _)

theorem staging_add_with_functions (hi : definition.route_id = route_id) :
    wp (stagingRule (.Add route_id) route_id) (add_with_functions ctx route_id definition)
      (fun _ g => StagingEnds g) .start := by
  refine ⟨⟨rfl, hi⟩, ?_⟩
  rintro (e | prepared)
  · exact ⟨⟨trivial, nofun⟩, fun _ _ => nofun⟩
  · exact staging_add_prepared ctx prepared

theorem staging_stop_for_mutation {prepared : PreparedRoute} {rollback : ReloadProg Unit}
    (hr : Makes Harmless rollback) :
    wp (stagingRule (.Restart route_id) route_id)
      (stop_for_mutation "restart" "Restart" route_id rollback)
      (fun r g => ((∃ e, r = .error e) ∧ g = .left) ∨
        ((∃ status, r = .ok status) ∧ g = .staged prepared)) (.staged prepared) := by
  have hl : ∀ e : ReloadError, wp (stagingRule (.Restart route_id) route_id)
      (do
        rollback
        return .error e : ReloadProg (Except ReloadError (Option String)))
      (fun r g => ((∃ e, r = .error e) ∧ g = .left) ∨
        ((∃ status, r = .ok status) ∧ g = .staged prepared)) .left := by
    intro e
    rw [wp_bind]
    refine wp_mono (mono_ofProtocol _ _) ?_
      (staging_left (hr.mono fun _ => unstaging_of_harmless))
    rintro _ _ rfl
    exact .inl ⟨⟨e, rfl⟩, rfl⟩
  unfold stop_for_mutation
  refine ⟨⟨trivial, nofun⟩, ?_⟩
  rintro (e | runtime_status)
  · exact hl _
  · dsimp only [Prog.bind]
    split
    · refine ⟨⟨trivial, nofun⟩, fun command_id => ⟨⟨trivial, nofun⟩, ?_⟩⟩
      rintro (e | _)
      · dsimp only [Prog.bind]
        have hp : stagingAfter (.Restart route_id) (.staged prepared)
            (.execute_runtime_command (.StopRoute route_id command_id none none)) (.error e) =
            if is_invalid_stop_transition e then .staged prepared else .left := by
          cases hi : is_invalid_stop_transition e <;>
            simp [stagingAfter, breaksOff, hi]
        show wp _ _ _ (stagingAfter (.Restart route_id) (.staged prepared)
          (.execute_runtime_command (.StopRoute route_id command_id none none)) (.error e))
        rw [hp]
        -- An invalid transition does not end the restart.
        split
        · exact ⟨⟨trivial, nofun⟩, fun _ => .inr ⟨⟨_, rfl⟩, rfl⟩⟩
        · exact hl _
      · exact ⟨⟨trivial, nofun⟩, fun _ => .inr ⟨⟨_, rfl⟩, rfl⟩⟩
    · exact .inr ⟨⟨_, rfl⟩, rfl⟩

theorem staging_restart_prepared (prepared : PreparedRoute) (prepare_token : PrepareToken) :
    wp (stagingRule (.Restart route_id) route_id)
      (restart_prepared ctx route_id prepared prepare_token) (fun _ g => StagingEnds g)
      (.staged prepared) := by
  unfold restart_prepared
  dsimp only
  rw [wp_bind]
  refine wp_mono (mono_ofProtocol _ _) ?_ (staging_stop_for_mutation (harmless_rollback _ _))
  rintro _ _ (⟨⟨e, rfl⟩, rfl⟩ | ⟨⟨runtime_status, rfl⟩, rfl⟩)
  · exact fun _ => nofun
  · refine ⟨⟨trivial, nofun⟩, ?_⟩
    rintro (e | _)
    · exact ⟨⟨trivial, nofun⟩, fun _ _ => nofun⟩
    · refine ⟨rfl, ?_⟩
      rintro (e | _)
      · refine ⟨⟨⟨prepared, rfl⟩, rfl⟩, fun _ => ?_⟩
        exact ⟨⟨trivial, fun _ _ => rfl⟩, fun _ _ => nofun⟩
      · show wp _ _ _ StagingPhase.settled
        refine wp_mono (mono_ofProtocol _ _) ?_
          (staging_unbreaking (by simp) (unbreaking_finish ctx (unbreaking_start_again _)))
        rintro _ _ rfl _ ⟨⟩

theorem staging_restart_with_functions (hi : definition.route_id = route_id) :
    wp (stagingRule (.Restart route_id) route_id) (restart_with_functions ctx route_id definition)
      (fun _ g => StagingEnds g) .start := by
  refine ⟨⟨rfl, hi⟩, ?_⟩
  rintro (e | prepared)
  · exact fun _ => nofun
  · show wp _ _ _ (StagingPhase.staged prepared)
    dsimp only [Prog.bind]
    rw [wp_bind]
    refine wp_mono (mono_ofProtocol _ _) ?_
      (staging_unbreaking (by simp) (unbreaking_compute_function_diff_for_route _))
    rintro diff _ rfl
    refine ⟨⟨trivial, nofun⟩, ?_⟩
    rintro (e | prepare_token)
    · exact fun _ => nofun
    · exact staging_restart_prepared ctx prepared prepare_token

theorem unstaging_stop_for_mutation (op label : String) :
    Makes Unstaging (stop_for_mutation op label route_id (return ())) := by
  have hr : Makes Harmless (return () : ReloadProg Unit) := trivial
  exact (harmless_stop_for_mutation route_id op label hr).mono
    fun _ => unstaging_of_harmless

theorem unstaging_apply_remove (function_ctx : Option FunctionReloadContext) :
    Makes Unstaging (apply_remove function_ctx route_id) := by
  cases function_ctx with
  | some ctx =>
    apply ((harmless_compute_function_diff_for_route _ _).mono fun _ => unstaging_of_harmless).bind
    intro diff
    apply (unstaging_stop_for_mutation _ _).bind
    rintro (e | _)
    · trivial
    · refine ⟨trivial, ?_⟩
      rintro (e | _)
      · trivial
      · exact (harmless_finalize_functions _ _ _ _).mono fun _ => unstaging_of_harmless
  | none =>
    apply (unstaging_stop_for_mutation _ _).bind
    rintro (e | _)
    · trivial
    · refine ⟨trivial, fun command_id => ⟨trivial, ?_⟩⟩
      rintro (e | _) <;> trivial

theorem unstaging_restart_plain (definition : RouteDefinition) :
    Makes Unstaging (restart_plain route_id definition) := by
  apply (unstaging_stop_for_mutation _ _).bind
  rintro (e | runtime_status)
  · trivial
  · refine ⟨trivial, fun command_id => ⟨trivial, ?_⟩⟩
    rintro (e | _)
    · trivial
    · refine ⟨trivial, ?_⟩
      rintro (e | _)
      · trivial
      · exact (harmless_start_again _ _).mono fun _ => unstaging_of_harmless

theorem staging_apply_action (function_ctx : Option FunctionReloadContext)
    (new_definitions : List RouteDefinition) (action : domain.ReloadAction) :
    wp (stagingRule action action.route_id) (apply_action function_ctx new_definitions action)
      (fun _ g => StagingEnds g) .start := by
  cases action with
  | Swap route_id =>
    exact stagingEnds_of_unstaging
      ((harmless_apply_swap _ _ _).mono fun _ => unstaging_of_harmless)
  | Add route_id =>
    show wp _ (apply_add function_ctx route_id new_definitions) _ _
    unfold apply_add
    split
    · exact fun _ => nofun
    · rename_i definition hf
      cases function_ctx with
      | some ctx => exact staging_add_with_functions ctx (find_definition_route_id hf)
      | none =>
        apply stagingEnds_of_unstaging
        refine ⟨trivial, ?_⟩
        rintro (e | _)
        · trivial
        · exact (harmless_start_after _ _ _).mono fun _ => unstaging_of_harmless
  | Remove route_id => exact stagingEnds_of_unstaging (unstaging_apply_remove _)
  | Restart route_id =>
    show wp _ (apply_restart function_ctx route_id new_definitions) _ _
    unfold apply_restart
    split
    · exact fun _ => nofun
    · rename_i definition hf
      cases function_ctx with
      | some ctx => exact staging_restart_with_functions ctx (find_definition_route_id hf)
      | none => exact stagingEnds_of_unstaging (unstaging_restart_plain _)
  | Skip route_id => exact fun _ => nofun

/-! ## The staged routes in each phase -/

variable {health_registry : Bool} {s t : ReloadState} {ports : PortLog}

theorem unstaging_keeps (hc : Unstaging c) (h : reloadSem health_registry c s r ports t) :
    t.controller.prepared_staging = s.controller.prepared_staging := by
  have hh : Harmless c → t.controller.prepared_staging = s.controller.prepared_staging :=
    fun hc => (harmless_unchanged hc h).staging
  cases c with
  | remove_route_preserving_functions route_id =>
    rcases remove_step h with ⟨_, rfl⟩ | ⟨_, _, rfl⟩
    · rfl
    · rfl
  | register_route_aggregate route_id =>
    rcases aggregate_step h with ⟨_, h⟩ | ⟨_, h⟩
    all_goals exact h.staging
  | add_route_definition definition =>
    rcases add_step h with ⟨_, h, _⟩ | ⟨_, ⟨_, h⟩ | ⟨_, _, h⟩⟩
    all_goals exact h.staging
  | execute_runtime_command cmd =>
    cases cmd with
    | RemoveRoute route_id command_id causation_id =>
      rcases remove_command_step h with h | ⟨_, h⟩ | ⟨_, h⟩
      all_goals exact h.reaches.staging
    | _ => exact hh hc
  | prepare_route_definition_with_generation | insert_prepared_route | discard_prepared_staging =>
    exact hc.elim
  | _ => exact hh hc

/-- What holds in a phase, when no route was staged under the id at the start. -/
def StagingInv (action : domain.ReloadAction) (route_id : String) (g : StagingPhase)
    (x : ReloadState × List Step) : Prop :=
  match g with
  | .start => route_id ∉ x.1.controller.prepared_staging ∧ ¬ Taken Prepares x.2 ∧
      ¬ Taken (Breaks action) x.2
  | .unstaged => route_id ∉ x.1.controller.prepared_staging ∧ ¬ Taken Prepares x.2
  | .staged prepared => prepared.route_id = route_id ∧
      route_id ∈ x.1.controller.prepared_staging ∧ Taken Prepares x.2 ∧
      ¬ Taken (Breaks action) x.2
  | .left => route_id ∈ x.1.controller.prepared_staging ∧ LeavesStaging action x.2
  | .settled => route_id ∉ x.1.controller.prepared_staging ∧ ¬ Taken (Breaks action) x.2

/-- What holds in a phase, when a route was staged under the id already. -/
def StagedBefore (route_id : String) (g : StagingPhase) (x : ReloadState × List Step) : Prop :=
  (g = .start ∨ g = .unstaged) ∧ route_id ∈ x.1.controller.prepared_staging

theorem not_prepares_of_unstaging (hc : Unstaging c) (r : ReloadAnswer c) (ports : PortLog) :
    ¬ Prepares ⟨c, r, ports⟩ := by
  cases c with
  | prepare_route_definition_with_generation => exact hc.elim
  | _ => exact id

theorem stagingInv_unstaging {x y : ReloadState × List Step}
    (hinv : StagingInv action route_id g x) (hsem : reloadSem health_registry c x.1 r ports y.1)
    (hste : y.2 = x.2 ++ [⟨c, r, ports⟩]) (hc : Unstaging c)
    (hse : g = .settled → ∀ r, breaksOff action c r = false) :
    StagingInv action route_id (stagingAfter action g c r) y := by
  have hs := unstaging_keeps hc hsem
  have hp : Taken Prepares y.2 ↔ Taken Prepares x.2 := by
    rw [hste, taken_append]
    exact or_iff_left (not_prepares_of_unstaging hc r ports)
  have hb : Taken (Breaks action) y.2 ↔
      Taken (Breaks action) x.2 ∨ breaksOff action c r = true := by
    rw [hste, taken_append]
    exact Iff.rfl
  cases g with
  | start =>
    have hph : stagingAfter action .start c r = .unstaged := by
      cases c with
      | prepare_route_definition_with_generation => exact hc.elim
      | _ => rfl
    rw [hph]
    unfold StagingInv
    rw [hs, hp]
    exact ⟨hinv.1, hinv.2.1⟩
  | unstaged =>
    unfold StagingInv stagingAfter
    rw [hs, hp]
    exact hinv
  | staged prepared =>
    have hph : stagingAfter action (.staged prepared) c r =
        if breaksOff action c r then .left else .staged prepared := by
      cases c with
      | prepare_route_definition_with_generation | insert_prepared_route
      | discard_prepared_staging => exact hc.elim
      | _ => rfl
    obtain ⟨hi, hst, ht, hu⟩ := hinv
    rw [hph]
    split
    · rename_i hbr
      unfold StagingInv LeavesStaging
      rw [hs, hp, hb]
      exact ⟨hst, ht, .inr hbr⟩
    · rename_i hbr
      unfold StagingInv
      rw [hs, hp, hb]
      exact ⟨hi, hst, ht, not_or.mpr ⟨hu, hbr⟩⟩
  | left =>
    unfold StagingInv LeavesStaging stagingAfter
    rw [hs, hp, hb]
    exact ⟨hinv.1, hinv.2.1, .inl hinv.2.2⟩
  | settled =>
    unfold StagingInv stagingAfter
    rw [hs, hb, hse rfl r]
    exact ⟨hinv.1, not_or.mpr ⟨hinv.2, by simp⟩⟩

theorem staging_call_unbreaking (hc : ¬ Unstaging c)
    (hca : ∀ cmd, c ≠ .execute_runtime_command cmd) (r : ReloadAnswer c) :
    breaksOff action c r = false := by
  cases c with
  | prepare_route_definition_with_generation | insert_prepared_route | discard_prepared_staging =>
    cases action <;> rfl
  | execute_runtime_command cmd => exact absurd rfl (hca cmd)
  | _ => exact absurd trivial hc

theorem stagingInv_step (g : StagingPhase) (c : ReloadCall) (x : ReloadState × List Step)
    (r : ReloadAnswer c) (y : ReloadState × List Step) (hinv : StagingInv action route_id g x)
    (ho : StagingOk action route_id g c) (hste : tracedSem health_registry c x r y) :
    StagingInv action route_id (stagingAfter action g c r) y := by
  obtain ⟨ports, hse, hs⟩ := hste
  have hu : ¬ Unstaging c → (∀ cmd, c ≠ .execute_runtime_command cmd) →
      ¬ Taken (Breaks action) x.2 → ¬ Taken (Breaks action) y.2 := by
    intro hc hca hx
    rw [hs, taken_append]
    refine not_or.mpr ⟨hx, ?_⟩
    unfold Breaks
    rw [staging_call_unbreaking hc hca r]
    simp
  cases c with
  | prepare_route_definition_with_generation definition generation =>
    obtain ⟨rfl, rfl⟩ := ho
    obtain ⟨ha, hp, hb⟩ := hinv
    rcases prepare_step hse with ⟨⟨e, rfl⟩, hsa⟩ | ⟨rfl, _, hst⟩
    · refine ⟨by rw [hsa]; exact ha, ?_⟩
      rw [hs, taken_append]
      exact not_or.mpr ⟨hp, id⟩
    · refine ⟨rfl, ?_, ?_, hu id (by simp) hb⟩
      · rw [hst]
        exact mem_insert.mpr (.inl rfl)
      · rw [hs, taken_append]
        exact .inr trivial
  | insert_prepared_route prepared =>
    obtain rfl := ho
    obtain ⟨rfl, hst, hp, hb⟩ := hinv
    rcases insert_step hse with ⟨⟨e, rfl⟩, hsa, _⟩ | ⟨rfl, _, managed, _, hi⟩
    · have hph : stagingAfter action (.staged prepared) (.insert_prepared_route prepared)
          (.error e) = .staged prepared := by
        cases action <;> rfl
      rw [hph]
      refine ⟨rfl, by rw [hsa]; exact hst, ?_, hu id (by simp) hb⟩
      rw [hs, taken_append]
      exact .inl hp
    · refine ⟨?_, hu id (by simp) hb⟩
      rw [hi]
      exact fun hm => (mem_erase.mp hm).1 rfl
  | discard_prepared_staging id =>
    obtain ⟨⟨prepared, rfl⟩, rfl⟩ := ho
    obtain ⟨_, _, _, hb⟩ := hinv
    have hd := (Prod.mk.inj hse.1).2
    refine ⟨?_, hu (fun h => h) (by simp) hb⟩
    rw [hd]
    exact fun hm => (mem_erase.mp hm).1 rfl
  | _ => exact stagingInv_unstaging hinv hse hs ho.1 ho.2

theorem stagedBefore_step (g : StagingPhase) (c : ReloadCall) (x : ReloadState × List Step)
    (r : ReloadAnswer c) (y : ReloadState × List Step) (hinv : StagedBefore route_id g x)
    (ho : StagingOk action route_id g c) (hst : tracedSem health_registry c x r y) :
    StagedBefore route_id (stagingAfter action g c r) y := by
  obtain ⟨ports, hse, -⟩ := hst
  obtain ⟨hg, hs⟩ := hinv
  have hu : Unstaging c → StagedBefore route_id (stagingAfter action g c r) y := by
    intro hc
    refine ⟨?_, by rw [unstaging_keeps hc hse]; exact hs⟩
    rcases hg with rfl | rfl
    · cases c with
      | prepare_route_definition_with_generation => exact hc.elim
      | _ => exact .inr rfl
    · exact .inr rfl
  cases c with
  | prepare_route_definition_with_generation definition generation =>
    obtain ⟨rfl, rfl⟩ := ho
    rcases prepare_step hse with ⟨⟨e, rfl⟩, hsa⟩ | ⟨_, ha, _⟩
    · exact ⟨.inr rfl, by rw [hsa]; exact hs⟩
    · exact absurd hs ha
  | insert_prepared_route prepared =>
    obtain rfl := ho
    rcases hg with hg | hg <;> cases hg
  | discard_prepared_staging id =>
    obtain ⟨⟨prepared, rfl⟩, _⟩ := ho
    rcases hg with hg | hg <;> cases hg
  | _ => exact hu ho.1

/-! ## The law -/

/-- An action leaves no staged route behind if and only if none was there before it, and it did
not break off between the preparation of its route and the insert. -/
theorem an_action_leaves_no_staging_iff {health_registry : Bool}
    {function_ctx : Option FunctionReloadContext} {new_definitions : List RouteDefinition}
    {action : domain.ReloadAction} {s t : ReloadState} {errors : List ReloadError}
    {steps : List Step}
    (h : Applies health_registry function_ctx new_definitions action s errors steps t) :
    Preparable action.route_id t.controller ↔
      action.route_id ∉ s.controller.prepared_staging ∧ ¬ LeavesStaging action steps := by
  rw [preparable_iff]
  have hp := staging_apply_action function_ctx new_definitions action
  by_cases hb : action.route_id ∈ s.controller.prepared_staging
  · have hs : StagedBefore action.route_id .start (s, []) := ⟨.inl rfl, hb⟩
    obtain ⟨g, -, -, ha⟩ := runs_of_protocol stagedBefore_step hp hs h
    exact iff_of_false (not_not.mpr ha) fun hnot => hnot.1 hb
  · have hs : StagingInv action action.route_id .start (s, []) := ⟨hb, not_taken_nil, not_taken_nil⟩
    obtain ⟨g, he, hinv⟩ := runs_of_protocol stagingInv_step hp hs h
    rw [and_iff_right hb]
    cases g with
    | staged prepared => exact absurd rfl (he prepared)
    | start => exact iff_of_true hinv.1 fun hl => hinv.2.1 hl.1
    | unstaged => exact iff_of_true hinv.1 fun hl => hinv.2 hl.1
    | left => exact iff_of_false (not_not.mpr hinv.1) (not_not.mpr hinv.2)
    | settled => exact iff_of_true hinv.1 fun hl => hinv.2 hl.2

/-! ## Two adds that fail -/

/-- An invoker that cannot prepare functions. -/
def unavailableRunner : Script where
  free
    | .prepare_reload _ _ => .error "runner unavailable"
    | c => fine c

theorem unavailableRunner_completes :
    unavailableRunner.Completes (some ⟨1⟩) [timerRoute "r"] (.Add "r") (contextWith ∅) := by
  decide +kernel

/-- The invoker refuses the functions of an add whose route is staged, and the route stays
staged. -/
theorem an_action_leaves_staging : ¬ ∀ (function_ctx : Option FunctionReloadContext)
    (new_definitions : List RouteDefinition) (action : domain.ReloadAction) (s t : ReloadState)
    (errors : List ReloadError) (steps : List Step),
    Applies false function_ctx new_definitions action s errors steps t →
      action.route_id ∉ s.controller.prepared_staging →
      Preparable action.route_id t.controller := by
  intro h
  have hp := h _ _ _ _ _ _ _ (Script.applies unavailableRunner_completes) (by decide)
  exact absurd hp.1 (by decide +kernel)

theorem duplicate_add_completes : Script.Completes {} (some ⟨1⟩) [timerRoute "r"] (.Add "r")
    (contextWith (Finmap.singleton "r" (timerRoute "r"))) := by
  decide +kernel

/-- The insert of an add fails, for the controller has such a route. The staged route is
discarded, and the functions are rolled back. -/
theorem a_duplicate_add_leaves_no_staging : ∃ errors steps t,
    Applies false (some ⟨1⟩) [timerRoute "r"] (.Add "r")
      (contextWith (Finmap.singleton "r" (timerRoute "r"))) errors steps t ∧
      errors ≠ [] ∧ (Preparable "r" t.controller ↔
        "r" ∉ (contextWith (Finmap.singleton "r" (timerRoute "r"))).controller.prepared_staging ∧
          ¬ LeavesStaging (.Add "r") steps) ∧ "r" ∉ t.controller.prepared_staging :=
  ⟨_, _, _, Script.applies duplicate_add_completes, by decide +kernel,
    an_action_leaves_no_staging_iff (Script.applies duplicate_add_completes), by decide +kernel⟩

end camel_core.hot_reload
