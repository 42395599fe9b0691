-- The protocol of the handlers: what a handler knows of its route after each
-- call, and what it may store from there. Every handler keeps to it when the
-- unit of work is there.
import RustCamel.Lifecycle.Commands

namespace camel_core.lifecycle

open camel_api Handler Prog RouteRuntimeAggregate

/-! ## The rules for the parts of a handler -/

section

variable {G α : Type} {T : Rule PortCall Answer G} {g : G} {β : Type}

theorem wp_port (c : PortCall) (Q : Outcome CamelError (Reply c) → G → Prop) :
    wp T (port c).run Q g = T c (fun r t => Q (r.mapError fun e => .err (.of_domain e)) t) g := rfl

theorem wp_attempt (c : PortCall) (Q : Outcome CamelError (Answer c) → G → Prop) :
    wp T (attempt c).run Q g = T c (fun r t => Q (.ok r) t) g := rfl

theorem wp_of_result_bind (x : Except CamelError α) (f : α → Handler β)
    (Q : Outcome CamelError β → G → Prop) :
    wp T (of_result x >>= f).run Q g = match x with
      | .ok a => wp T (f a).run Q g
      | .error e => Q (.error (.err e)) g := by
  cases x <;> rfl

theorem wp_of_outcome_bind (m : DomainError → CamelError) (x : Outcome DomainError α)
    (f : α → Handler β) (Q : Outcome CamelError β → G → Prop) :
    wp T (of_outcome m x >>= f).run Q g = match x with
      | .ok a => wp T (f a).run Q g
      | .error (.err e) => Q (.error (.err (m e))) g
      | .error .panic => Q (.error .panic) g := by
  rcases x with (e | _) | a <;> rfl

theorem wp_result (h : Handler α) (Q : Outcome CamelError (Except CamelError α) → G → Prop) :
    wp T (result h).run Q g = wp T h.run (fun r t => Q (match r with
      | .ok a => .ok (.ok a)
      | .error (.err e) => .ok (.error e)
      | .error .panic => .error .panic) t) g := by
  unfold result
  rw [ExceptT.run_mk, wp_bind]
  rfl

end

/-! ## The protocol -/

/-- What a handler knows of its route. -/
inductive Belief where
  /-- It has not looked. -/
  | unknown
  /-- The load found no route. -/
  | absent (route_id : String)
  /-- The load found this aggregate. -/
  | loaded (route_id : String) (a : RouteRuntimeAggregate)
  /-- The load found this aggregate, and the handler took its recovered mark. -/
  | adopted (route_id : String) (a : RouteRuntimeAggregate)
  /-- The handler itself stored this aggregate. -/
  | wrote (a : RouteRuntimeAggregate)
  /-- The handler itself deleted the route. -/
  | deleted (route_id : String)

def learn (g : Belief) : (c : PortCall) → Answer c → Belief
  | .load route_id, .ok none => .absent route_id
  | .load route_id, .ok (some a) => .loaded route_id a
  | .take_recovered _, .ok true =>
    match g with
    | .loaded route_id a => .adopted route_id a
    | _ => g
  | .persist_upsert a _ _ _, .ok () => .wrote a
  | .persist_delete route_id _, .ok () => .deleted route_id
  | _, _ => g

/-- What a handler may do beside the usual. Only a removal deletes, and only
its own route. Only the reconciliation at boot stores a failure without a
version. -/
structure Powers where
  delete : String → Prop := fun _ => False
  boot : Bool := false

/-- What a handler may store from what it knows: a new route, a change of the
aggregate that it loaded or stored, or a failure at boot. -/
inductive Upsert (powers : Powers) :
    Belief → RouteRuntimeAggregate → Option Nat → List RuntimeEvent → Prop
  | register_absent (route_id : String) :
      Upsert powers (.absent route_id) (new route_id) none [.RouteRegistered route_id]
  | register_adopted (route_id : String) (a : RouteRuntimeAggregate) :
      Upsert powers (.adopted route_id a) (new route_id) none [.RouteRegistered route_id]
  | change (route_id : String) {a a' : RouteRuntimeAggregate} {events : List RuntimeEvent} :
      Edge a events a' → a'.version = a.version + 1 →
      Upsert powers (.loaded route_id a) a' (some a.version) events
  | follow_up {a a' : RouteRuntimeAggregate} {events : List RuntimeEvent} :
      Edge a events a' → Upsert powers (.wrote a) a' (some a.version) events
  | reconcile (route_id : String) {a a' : RouteRuntimeAggregate} {events : List RuntimeEvent} :
      Edge a events a' → powers.boot = true → Upsert powers (.loaded route_id a) a' none events

/-- The calls that a handler may make. -/
def Permitted (powers : Powers) (g : Belief) : PortCall → Prop
  | .load _ | .list_statuses | .execution _ | .force_unhealthy_for_route _ _ _ => True
  | .take_recovered route_id => ∃ a, g = .loaded route_id a
  | .persist_upsert a expected_version projection events =>
    projection = project_from_aggregate a ∧ Upsert powers g a expected_version events
  | .persist_delete route_id events =>
    powers.delete route_id ∧
      ∃ a, g = .loaded route_id a ∧ Removable a ∧ events = [.RouteRemoved a.route_id]
  | .save _ | .save_if_version _ _ | .delete _ | .upsert_status _ | .remove_status _
  | .publish _ => False

abbrev rule (powers : Powers) : Rule PortCall Answer Belief := ofProtocol (Permitted powers) learn

/-- A registration that reports its route has stored it. -/
def Reports (r : Outcome CamelError RuntimeCommandResult) (g : Belief) : Prop :=
  ∀ route_id, r = .ok (.RouteRegistered route_id) → g = .wrote (new route_id)

/-- A removal that does not fail has deleted its route. -/
def Removes (route_id : String) (r : Outcome CamelError RuntimeCommandResult) (g : Belief) : Prop :=
  (∃ f, r = .error f) ∨ (r = .ok (.RouteStateChanged route_id "Removed") ∧ g = .deleted route_id)

/-! ## The runtime tells nothing about the store -/

variable {powers : Powers} {g : Belief} {effect : Handler Unit} {α : Type}

section

variable {α β : Type} {x : Handler α} {R : Outcome CamelError α → Belief → Prop}
  (hx : wp (rule powers) x.run R g)

include hx

theorem follows_of {Q : Outcome CamelError α → Belief → Prop} (hQ : ∀ r t, R r t → Q r t) :
    wp (rule powers) x.run Q g := wp_mono (mono_ofProtocol _ _) hQ hx

theorem then_follows {f : α → Handler β} {Q : Outcome CamelError β → Belief → Prop}
    (he : ∀ e t, Q (.error e) t) (ho : ∀ a t, R (.ok a) t → wp (rule powers) (f a).run Q t) :
    wp (rule powers) (x >>= f).run Q g := by
  rw [wp_run_bind]
  apply follows_of hx
  rintro (e | a) t h
  · exact he e t
  · exact ho a t h

end

theorem attempt_execution (op : RuntimeOp) (f : Except DomainError Unit → Handler α)
    (Q : Outcome CamelError α → Belief → Prop) (h : ∀ r, wp (rule powers) (f r).run Q g) :
    wp (rule powers) (attempt (.execution op) >>= f).run Q g := by
  rw [wp_run_bind, wp_attempt]
  exact ⟨trivial, h⟩

theorem port_execution (op : RuntimeOp) :
    wp (rule powers) (port (.execution op)).run (fun _ t => t = g) g := by
  rw [wp_port]
  exact ⟨trivial, fun _ => rfl⟩

theorem apply_runtime_lifecycle_follows (route_id : String) (command : RouteLifecycleCommand)
    (stop_budget : Option Nat) :
    wp (rule powers) (apply_runtime_lifecycle route_id command stop_budget).run
      (fun _ t => t = g) g := by
  unfold apply_runtime_lifecycle
  cases command with
  | Start | Resume =>
    apply attempt_execution
    rintro (e | _)
    · apply attempt_execution
      rintro (e | _) <;> rfl
    · rfl
  | Suspend =>
    apply attempt_execution
    rintro (e | _)
    · apply attempt_execution
      rintro (e | _)
      · rfl
      · apply attempt_execution
        rintro (e | _) <;> rfl
    · rfl
  | Stop | Reload | Remove => exact port_execution _
  | Fail error => rfl

theorem remove_runtime_route_with_recovery_follows (route_id : String) :
    wp (rule powers) (remove_runtime_route_with_recovery route_id).run (fun _ t => t = g) g := by
  unfold remove_runtime_route_with_recovery
  apply attempt_execution
  rintro (e | _)
  · dsimp only
    split
    · apply attempt_execution
      rintro (e | _)
      · rfl
      · apply attempt_execution
        rintro (e | _) <;> rfl
    · rfl
  · rfl

section

variable (deps : CommandDeps) (heffect : wp (rule powers) effect.run (fun _ t => t = g) g)

include deps heffect

theorem with_execution_follows :
    wp (rule powers) (with_execution deps effect).run
      (fun r t => (r = .error .panic ∨ ∃ x, r = .ok x) ∧ t = g) g := by
  unfold with_execution
  split
  · rw [wp_result]
    apply follows_of heffect
    rintro ((e | _) | _) t rfl
    · exact ⟨.inr ⟨_, rfl⟩, rfl⟩
    · exact ⟨.inl rfl, rfl⟩
    · exact ⟨.inr ⟨_, rfl⟩, rfl⟩
  · exact ⟨.inr ⟨_, rfl⟩, rfl⟩

theorem side_effect (f : Except CamelError Unit → Handler α)
    (Q : Outcome CamelError α → Belief → Prop) (hp : Q (.error .panic) g)
    (h : ∀ r, wp (rule powers) (f r).run Q g) :
    wp (rule powers) (with_execution deps effect >>= f).run Q g := by
  rw [wp_run_bind]
  refine wp_mono (mono_ofProtocol _ _) ?_ (with_execution_follows deps heffect)
  rintro _ _ ⟨rfl | ⟨x, rfl⟩, rfl⟩
  · exact hp
  · exact h x

end

/-! ## The parts that store -/

theorem reports_error (f : Fault CamelError) : Reports (.error f) g := by
  rintro route_id ⟨⟩

theorem reports_state_changed (route_id status : String) :
    Reports (.ok (.RouteStateChanged route_id status)) g := by
  rintro route_id ⟨⟩

variable {a a' : RouteRuntimeAggregate} {deps : CommandDeps} {command : RouteLifecycleCommand}
  {r : Outcome CamelError RuntimeCommandResult}

/-- A store that is allowed: the handler knows what it stored, and after an
error it knows what it knew before. -/
theorem port_upsert {expected_version : Option Nat} {events : List RuntimeEvent}
    (h : Upsert powers g a expected_version events) :
    wp (rule powers)
      (port (.persist_upsert a expected_version (project_from_aggregate a) events)).run
      (fun r t => (r = .ok () ∧ t = .wrote a) ∨ ((∃ e, r = .error (.err e)) ∧ t = g)) g := by
  rw [wp_port]
  refine ⟨⟨rfl, h⟩, ?_⟩
  rintro (e | _)
  · exact .inr ⟨⟨_, rfl⟩, rfl⟩
  · exact .inl ⟨rfl, rfl⟩

theorem upsert_fail {error : String} {events : List RuntimeEvent}
    (hg : (∃ route_id, g = .loaded route_id a) ∨ g = .wrote a)
    (h : a.fail error = .ok (a', events)) :
    Upsert powers g a' (some a.version) events := by
  rcases hg with ⟨route_id, rfl⟩ | rfl
  · refine Upsert.change route_id (Edge.fail error h) ?_
    obtain ⟨_, _, rfl⟩ := fail_ok h
    rfl
  · exact Upsert.follow_up (Edge.fail error h)

section

variable (hu : deps.uow = true) (hg : (∃ route_id, g = .loaded route_id a) ∨ g = .wrote a)
  (error : String)

include hu hg error

theorem compensate_follows :
    wp (rule powers) (compensate deps a a.version error).run (fun _ _ => True) g := by
  unfold compensate
  rw [wp_of_outcome_bind]
  split
  · rename_i x hf
    dsimp only
    rw [if_pos hu, wp_run_bind, wp_attempt]
    exact ⟨⟨rfl, upsert_fail hg hf⟩, fun _ => trivial⟩
  · trivial
  · trivial

/-- A failed side effect is compensated, and the handler returns an error. -/
theorem compensate_then_err (e : CamelError)
    {Q : Outcome CamelError RuntimeCommandResult → Belief → Prop} (hQ : ∀ f t, Q (.error f) t) :
    wp (rule powers) (compensate deps a a.version error >>= fun _ => err e).run Q g := by
  exact then_follows (compensate_follows hu hg error) hQ fun _ t _ => hQ _ t

end

theorem resolve_superseded_conflict_follows (conflict : CamelError) (route_id : String) :
    wp (rule powers) (resolve_superseded_conflict conflict route_id).run Reports g := by
  unfold resolve_superseded_conflict
  rw [wp_run_bind, wp_attempt]
  refine ⟨trivial, ?_⟩
  rintro (e | _ | reloaded)
  · exact reports_error _
  · exact reports_error _
  · dsimp only
    split
    · exact reports_state_changed _ _
    · exact reports_error _

/-- The result says that a state changed, or it is an error. -/
def NotRegistered (r : Outcome CamelError RuntimeCommandResult) : Prop :=
  ∀ route_id, r ≠ .ok (.RouteRegistered route_id)

theorem persist_and_return_follows (hu : deps.uow = true) {expected_version : Nat}
    {events : List RuntimeEvent}
    (h : events ≠ [] → Upsert powers g a (some expected_version) events) (route_id : String) :
    wp (rule powers) (persist_and_return deps a expected_version events route_id).run
      (fun r _ => NotRegistered r) g := by
  unfold persist_and_return
  split
  · rintro route_id ⟨⟩
  · rename_i hn
    refine then_follows (port_upsert (h hn)) ?_ ?_
    · rintro e t route_id ⟨⟩
    · rintro _ t - route_id ⟨⟩

theorem reports_of_notRegistered (h : NotRegistered r) :
    Reports r g := fun route_id hr => absurd hr (h route_id)

/-! ## Registration -/

theorem adopt_check_follows (route_id : String) :
    wp (rule powers) (adopt_check route_id).run
      (fun r t => r = .ok () → t = .absent route_id ∨ ∃ a, t = .adopted route_id a) g := by
  unfold adopt_check
  rw [wp_run_bind, wp_port]
  refine ⟨trivial, ?_⟩
  rintro (e | _ | a)
  · rintro ⟨⟩
  · exact fun _ => .inl rfl
  · dsimp only [Except.mapError]
    rw [wp_run_bind, wp_port]
    refine ⟨⟨a, rfl⟩, ?_⟩
    rintro (e | _ | _)
    · rintro ⟨⟩
    · rintro ⟨⟩
    · exact fun _ => .inr ⟨a, rfl⟩

theorem upsert_register {route_id : String}
    (hg : g = .absent route_id ∨ ∃ a, g = .adopted route_id a) :
    Upsert powers g (new route_id) none [.RouteRegistered route_id] := by
  rcases hg with rfl | ⟨a, rfl⟩
  · exact Upsert.register_absent route_id
  · exact Upsert.register_adopted route_id a

section

variable (hu : deps.uow = true)

include hu

theorem persist_registered_follows {route_id : String}
    (hg : g = .absent route_id ∨ ∃ a, g = .adopted route_id a) :
    wp (rule powers)
      (persist_registered deps (new route_id) [.RouteRegistered route_id]).run
      (fun r t => r = .ok () → t = .wrote (new route_id)) g := by
  unfold persist_registered
  rw [if_pos hu]
  apply follows_of (port_upsert (upsert_register hg))
  rintro _ _ (⟨rfl, rfl⟩ | ⟨⟨e, rfl⟩, rfl⟩)
  · exact fun _ => rfl
  · rintro ⟨⟩

variable (spec : CanonicalRouteSpec)

theorem install_runtime_follows (a : RouteRuntimeAggregate) :
    wp (rule powers) (install_runtime deps spec a).run (fun r t => r = .ok () → t = .wrote a)
      (.wrote a) := by
  unfold install_runtime
  split
  · rw [wp_of_result_bind]
    split
    · apply attempt_execution
      rintro (e | _)
      · refine then_follows (compensate_follows hu (.inr rfl) _) ?_ ?_
        · rintro e t ⟨⟩
        · rintro _ t - ⟨⟩
      · exact fun _ => rfl
    · rintro ⟨⟩
  · exact fun _ => rfl

theorem store_and_install_follows {spec : CanonicalRouteSpec}
    (hg : g = .absent spec.route_id ∨ ∃ a, g = .adopted spec.route_id a) :
    wp (rule powers) (store_and_install deps spec).run Reports g := by
  unfold store_and_install
  dsimp only [register]
  apply then_follows (persist_registered_follows hu hg) fun e _ => reports_error e
  intro _ t ht
  obtain rfl := ht rfl
  apply then_follows (install_runtime_follows hu spec _) fun e _ => reports_error e
  intro _ t ht
  obtain rfl := ht rfl
  rintro route_id ⟨⟩
  rfl

theorem handle_register_follows : wp (rule powers) (handle_register deps spec).run Reports g := by
  unfold handle_register
  rw [wp_of_result_bind]
  split
  · apply then_follows (adopt_check_follows spec.route_id) fun e _ => reports_error e
    exact fun _ t ht => store_and_install_follows hu (ht rfl)
  · exact reports_error _

theorem persist_internal_follows {route_id : String}
    (hg : g = .absent route_id ∨ ∃ a, g = .adopted route_id a) :
    wp (rule powers) (persist_internal deps (new route_id) [.RouteRegistered route_id]).run
      (fun r t => r = .ok (.ok ()) → t = .wrote (new route_id)) g := by
  unfold persist_internal
  rw [if_pos hu]
  rw [wp_result]
  apply follows_of (port_upsert (upsert_register hg))
  rintro _ _ (⟨rfl, rfl⟩ | ⟨⟨e, rfl⟩, rfl⟩)
  · exact fun _ => rfl
  · rintro ⟨⟩

end

theorem rollback_registration_follows (deps : CommandDeps) (route_id : String) (e : CamelError) :
    wp (rule powers) (rollback_registration deps route_id e).run
      (fun r _ => NotRegistered r) g := by
  unfold rollback_registration
  split
  · apply attempt_execution
    rintro (e' | _)
    all_goals rintro route_id ⟨⟩
  · rintro route_id ⟨⟩

section

variable (hu : deps.uow = true)

include hu

theorem store_installed_follows {route_id : String}
    (hg : g = .absent route_id ∨ ∃ a, g = .adopted route_id a) :
    wp (rule powers) (store_installed deps route_id).run Reports g := by
  unfold store_installed
  dsimp only [register]
  apply then_follows (persist_internal_follows hu hg) fun e _ => reports_error e
  rintro (e | _) t ht
  · exact follows_of (rollback_registration_follows deps route_id e)
      fun _ _ h => reports_of_notRegistered h
  · obtain rfl := ht rfl
    rintro route_id ⟨⟩
    rfl

theorem handle_register_internal_follows (definition : RouteDefinition) :
    wp (rule powers) (handle_register_internal deps definition).run Reports g := by
  unfold handle_register_internal
  apply then_follows (adopt_check_follows definition.route_id) fun e _ => reports_error e
  intro _ t ht
  have hg := ht rfl
  split
  · apply then_follows (port_execution _) fun e _ => reports_error e
    rintro _ t rfl
    exact store_installed_follows hu hg
  · exact store_installed_follows hu hg

theorem register_aggregate_only_follows (route_id : String) :
    wp (rule powers) (register_aggregate_only deps route_id).run (fun _ _ => True) g := by
  unfold register_aggregate_only
  rw [wp_run_bind, wp_port]
  refine ⟨trivial, ?_⟩
  rintro (e | _ | a)
  · trivial
  · exact follows_of (persist_registered_follows hu (.inl rfl)) fun _ _ _ => trivial
  · trivial

/-! ## Lifecycle commands -/

theorem confirm_started_follows {events : List RuntimeEvent}
    (h : a.confirm_start = .ok (a', events)) :
    wp (rule powers) (confirm_started deps a' events).run Reports (.wrote a) := by
  unfold confirm_started
  dsimp only
  split
  · exact reports_state_changed _ _
  · rename_i hn
    have hv : a.version = a'.version := by
      obtain ⟨_, _, rfl⟩ := confirm_start_ok h hn
      rfl
    have hup : Upsert powers (.wrote a) a' (some a.version) events :=
      Upsert.follow_up (Edge.confirm_start h hn)
    rw [hv] at hup
    rw [wp_run_bind, wp_attempt]
    refine ⟨⟨rfl, hup⟩, ?_⟩
    rintro (e | _)
    · dsimp only
      split
      · exact resolve_superseded_conflict_follows _ _
      · exact reports_error _
    · simp only [hu, Bool.not_true, Bool.false_eq_true, if_false]
      exact reports_state_changed _ _

theorem handle_lifecycle_start_follows (route_id : String) (a : RouteRuntimeAggregate) :
    wp (rule powers) (handle_lifecycle_start deps a a.version).run Reports
      (.loaded route_id a) := by
  unfold handle_lifecycle_start
  dsimp only
  rw [wp_of_outcome_bind]
  split
  · rename_i x hb
    obtain ⟨starting, events⟩ := x
    dsimp only
    split
    · exact reports_error _
    · rename_i hn
      have hv : starting.version = a.version + 1 := by
        obtain ⟨_, _, _, rfl⟩ := begin_start_ok hb hn
        rfl
      have hup : Upsert powers (.loaded route_id a) starting (some a.version) events :=
        Upsert.change route_id (Edge.begin_start hb hn) hv
      unfold persist_intent
      rw [if_pos hu]
      apply then_follows (port_upsert hup) fun e _ => reports_error e
      rintro _ _ (⟨-, rfl⟩ | ⟨⟨e, ⟨⟩⟩, -⟩)
      · refine side_effect deps (apply_runtime_lifecycle_follows _ _ _) _ _
          (reports_error _) ?_
        rintro (e | _)
        · exact compensate_then_err hu (.inr rfl) _ _ fun f _ => reports_error f
        · dsimp only
          rw [wp_of_outcome_bind]
          split
          · rename_i x hc
            exact confirm_started_follows hu hc
          all_goals exact reports_error _
  all_goals exact reports_error _

end

theorem upsert_command {route_id : String} {cmd : RouteLifecycleCommand}
    {events : List RuntimeEvent} (h : a.apply_command cmd = .ok (a', events)) (hc : cmd ≠ .Remove)
    (hn : events ≠ []) : Upsert powers (.loaded route_id a) a' (some a.version) events := by
  refine Upsert.change route_id (Edge.command cmd h hc hn) ?_
  obtain ⟨_, _, _, rfl⟩ := apply_command_ok h
  rfl

section

variable (hu : deps.uow = true) {route_id : String}

include hu

theorem handle_fail_follows (route_id : String) (a : RouteRuntimeAggregate) (error : String) :
    wp (rule powers) (handle_fail deps route_id a error).run Reports (.loaded route_id a) := by
  unfold handle_fail
  rw [wp_of_outcome_bind]
  split
  · rename_i x hf
    have hup : x.2 ≠ [] → Upsert powers (.loaded route_id a) x.1 (some a.version) x.2 :=
      upsert_command hf (by rintro ⟨⟩)
    have hp := persist_and_return_follows hu hup route_id
    dsimp only
    split
    · rw [wp_run_bind, wp_attempt]
      exact ⟨trivial, fun _ => follows_of hp fun _ _ h => reports_of_notRegistered h⟩
    · exact follows_of hp fun _ _ h => reports_of_notRegistered h
  all_goals exact reports_error _

theorem finish_lifecycle_follows (route_id : String) (a : RouteRuntimeAggregate)
    (hcm : command ≠ .Remove) :
    wp (rule powers) (finish_lifecycle deps route_id a command).run Reports
      (.loaded route_id a) := by
  unfold finish_lifecycle
  rw [wp_of_outcome_bind]
  split
  · rename_i x hc
    have hup : x.2 ≠ [] → Upsert powers (.loaded route_id a) x.1 (some a.version) x.2 :=
      upsert_command hc hcm
    have hp := persist_and_return_follows hu hup route_id
    dsimp only
    split
    · rw [wp_run_bind, wp_result]
      apply follows_of hp
      rintro ((e | _) | value) t hv
      · dsimp only
        split
        · exact resolve_superseded_conflict_follows _ _
        · exact reports_error _
      · exact reports_error _
      · exact reports_of_notRegistered hv
    · exact follows_of hp fun _ _ h => reports_of_notRegistered h
  all_goals exact reports_error _

theorem handle_runtime_lifecycle_follows (route_id : String) (a : RouteRuntimeAggregate)
    (hc : command ≠ .Remove) (stop_budget : Option Nat) :
    wp (rule powers) (handle_runtime_lifecycle deps route_id a command stop_budget).run Reports
      (.loaded route_id a) := by
  unfold handle_runtime_lifecycle
  split
  · exact reports_error _
  · rw [wp_of_outcome_bind]
    split
    · dsimp only
      split
      · exact reports_state_changed _ _
      · refine side_effect deps (apply_runtime_lifecycle_follows _ _ _) _ _
          (reports_error _) ?_
        rintro (e | _)
        · exact compensate_then_err hu (.inl ⟨route_id, rfl⟩) _ _ fun f _ => reports_error f
        · exact finish_lifecycle_follows hu route_id a hc
    all_goals exact reports_error _

theorem handle_lifecycle_follows (route_id : String) (hc : command ≠ .Remove)
    (stop_budget : Option Nat) :
    wp (rule powers) (handle_lifecycle deps route_id command stop_budget).run Reports g := by
  unfold handle_lifecycle
  rw [wp_run_bind, wp_port]
  refine ⟨trivial, ?_⟩
  rintro (e | _ | a)
  · exact reports_error _
  · exact reports_error _
  · cases command with
    | Start => exact handle_lifecycle_start_follows hu route_id a
    | Fail error => exact handle_fail_follows hu route_id a error
    | Remove => exact absurd rfl hc
    | Stop | Suspend | Resume | Reload =>
      exact handle_runtime_lifecycle_follows hu route_id a hc stop_budget

/-! ## Removal and boot -/

theorem finish_remove_follows (hd : powers.delete route_id) (a : RouteRuntimeAggregate) :
    wp (rule powers) (finish_remove deps route_id a).run (Removes route_id)
      (.loaded route_id a) := by
  unfold finish_remove
  rw [wp_of_outcome_bind]
  split
  · rename_i x hr
    dsimp only
    rw [if_pos hu, wp_run_bind, wp_port]
    obtain ⟨hre, he⟩ := removable_of_remove hr
    refine ⟨⟨hd, a, rfl, hre, he⟩, ?_⟩
    rintro (e | _)
    · exact .inl ⟨_, rfl⟩
    · exact .inr ⟨rfl, rfl⟩
  all_goals exact .inl ⟨_, rfl⟩

theorem handle_remove_follows (hd : powers.delete route_id) :
    wp (rule powers) (handle_remove deps route_id).run (Removes route_id) g := by
  unfold handle_remove
  rw [wp_run_bind, wp_port]
  refine ⟨trivial, ?_⟩
  rintro (e | _ | a)
  · exact .inl ⟨_, rfl⟩
  · exact .inl ⟨_, rfl⟩
  · dsimp only [Except.mapError]
    rw [wp_of_outcome_bind]
    split
    · refine side_effect deps (remove_runtime_route_with_recovery_follows _) _ _
        (.inl ⟨_, rfl⟩) ?_
      rintro (e | _)
      · exact compensate_then_err hu (.inl ⟨route_id, rfl⟩) _ _ fun f _ => .inl ⟨f, rfl⟩
      · exact finish_remove_follows hu hd a
    all_goals exact .inl ⟨_, rfl⟩

end

theorem reports_of_removes {route_id : String} (h : Removes route_id r g) : Reports r g := by
  rcases h with ⟨f, rfl⟩ | ⟨rfl, _⟩
  · exact reports_error f
  · exact reports_state_changed _ _

section

variable (hu : deps.uow = true) (hb : powers.boot = true)

include hu hb

theorem reconcile_route_follows (proj : RouteStatusProjection) :
    wp (rule powers) (reconcile_route deps proj).run (fun _ _ => True) g := by
  unfold reconcile_route
  split
  · rw [wp_run_bind, wp_port]
    refine ⟨trivial, ?_⟩
    rintro (e | _ | a)
    · trivial
    · trivial
    · dsimp only [Except.mapError]
      rw [wp_of_outcome_bind]
      split
      · rename_i x hf
        exact follows_of (port_upsert (Upsert.reconcile proj.route_id (Edge.fail _ hf) hb))
          fun _ _ _ => trivial
      · trivial
      · trivial
  · trivial

theorem reconcile_routes_follows (statuses : List RouteStatusProjection) :
    wp (rule powers) (reconcile_routes deps statuses).run (fun _ _ => True) g := by
  induction statuses generalizing g with
  | nil => trivial
  | cons proj rest ih =>
    unfold reconcile_routes
    exact then_follows (reconcile_route_follows hu hb proj) (fun _ _ => trivial) fun _ _ _ => ih

theorem reconcile_transient_states_follows :
    wp (rule powers) (reconcile_transient_states deps).run (fun _ _ => True) g := by
  unfold reconcile_transient_states
  rw [wp_run_bind, wp_port]
  refine ⟨trivial, ?_⟩
  rintro (e | statuses)
  · trivial
  · exact reconcile_routes_follows hu hb statuses

end

/-! ## Dispatch -/

theorem execute_command_follows (hu : deps.uow = true) (cmd : RuntimeCommand)
    (hd : ∀ id cid cause, cmd = .RemoveRoute id cid cause → powers.delete id) :
    wp (rule powers) (execute_command deps cmd).run Reports g := by
  cases cmd with
  | RegisterRoute spec _ _ => exact handle_register_follows hu spec
  | RemoveRoute route_id cid cause =>
    exact follows_of (handle_remove_follows hu (hd route_id cid cause rfl))
      fun _ _ h => reports_of_removes h
  | ReloadTlsCerts | ReloadTemplates => exact reports_error _
  | StartRoute | StopRoute | SuspendRoute | ResumeRoute | ReloadRoute | FailRoute =>
    unfold execute_command
    refine handle_lifecycle_follows hu _ ?_ _
    rintro ⟨⟩

/-! ## What a handler returns -/

/-- Every run of the handler ends with such a result, whatever the ports answer. -/
def Returns {α : Type} (Q : Outcome CamelError α → Prop) (h : Handler α) : Prop :=
  wp (ofProtocol (fun (_ : Unit) _ => True) fun _ _ _ => ()) h.run (fun r _ => Q r) ()

section

variable {α β : Type} {Q : Outcome CamelError β → Prop}

theorem Returns.bind (he : ∀ f, Q (.error f)) {h : Handler α} {f : α → Handler β}
    (hf : ∀ a, Returns Q (f a)) : Returns Q (h >>= f) := by
  unfold Returns
  rw [wp_run_bind]
  apply wp_of_allowed (fun _ _ => trivial)
  rintro (fault | a) _
  · exact he fault
  · exact hf a

end

/-- The result is not the answer of the gate for duplicates. -/
def NotDuplicate (r : Outcome CamelError RuntimeCommandResult) : Prop :=
  ∀ command_id, r ≠ .ok (.Duplicate command_id)

theorem notDuplicate_error (f : Fault CamelError) : NotDuplicate (.error f) := by
  rintro command_id ⟨⟩

theorem resolve_superseded_conflict_returns (conflict : CamelError) (route_id : String) :
    Returns NotDuplicate (resolve_superseded_conflict conflict route_id) := by
  refine Returns.bind notDuplicate_error ?_
  rintro (e | _ | reloaded)
  · exact notDuplicate_error _
  · exact notDuplicate_error _
  · dsimp only
    split
    · rintro command_id ⟨⟩
    · exact notDuplicate_error _

theorem returns_err (e : CamelError) : Returns NotDuplicate (err e) := notDuplicate_error _

theorem returns_state_changed (route_id status : String) :
    Returns NotDuplicate (pure (.RouteStateChanged route_id status)) := by
  rintro command_id ⟨⟩

variable (deps : CommandDeps) (a : RouteRuntimeAggregate) (expected_version : Nat)

theorem persist_and_return_returns (events : List RuntimeEvent) (route_id : String) :
    Returns NotDuplicate (persist_and_return deps a expected_version events route_id) := by
  unfold persist_and_return
  dsimp only
  repeat' first
    | exact returns_state_changed _ _
    | refine Returns.bind notDuplicate_error fun _ => ?_
    | split

theorem confirm_started_returns (events : List RuntimeEvent) :
    Returns NotDuplicate (confirm_started deps a events) := by
  unfold confirm_started
  dsimp only
  split
  · exact returns_state_changed _ _
  · -- With and without a unit of work the stored result decides in the same way.
    split
    all_goals
      refine Returns.bind notDuplicate_error fun stored => ?_
      split
      · split
        · exact resolve_superseded_conflict_returns _ _
        · exact returns_err _
      · split
        · refine Returns.bind notDuplicate_error fun _ => ?_
          refine Returns.bind notDuplicate_error fun _ => ?_
          exact returns_state_changed _ _
        · exact returns_state_changed _ _

theorem handle_lifecycle_start_returns :
    Returns NotDuplicate (handle_lifecycle_start deps a expected_version) := by
  unfold handle_lifecycle_start
  dsimp only
  refine Returns.bind notDuplicate_error fun started => ?_
  split
  · exact returns_err _
  · refine Returns.bind notDuplicate_error fun _ => ?_
    refine Returns.bind notDuplicate_error fun applied => ?_
    split
    · refine Returns.bind notDuplicate_error fun _ => ?_
      exact returns_err _
    · refine Returns.bind notDuplicate_error fun _ => ?_
      exact confirm_started_returns _ _ _

theorem handle_runtime_lifecycle_returns (route_id : String) (a : RouteRuntimeAggregate)
    (command : RouteLifecycleCommand) (stop_budget : Option Nat) :
    Returns NotDuplicate (handle_runtime_lifecycle deps route_id a command stop_budget) := by
  have hf : Returns NotDuplicate (finish_lifecycle deps route_id a command) := by
    unfold finish_lifecycle
    refine Returns.bind notDuplicate_error fun _ => ?_
    dsimp only
    split
    · unfold Returns
      rw [wp_run_bind, wp_result]
      refine wp_mono (mono_ofProtocol _ _) ?_ (persist_and_return_returns _ _ _ _ _)
      rintro ((e | _) | value) _ hr
      · dsimp only
        split
        · exact resolve_superseded_conflict_returns _ _
        · exact notDuplicate_error _
      · exact notDuplicate_error _
      · exact hr
    · exact persist_and_return_returns _ _ _ _ _
  unfold handle_runtime_lifecycle
  dsimp only
  repeat' first
    | exact returns_state_changed _ _
    | exact returns_err _
    | exact hf
    | refine Returns.bind notDuplicate_error fun _ => ?_
    | split

theorem handle_lifecycle_returns (route_id : String) (command : RouteLifecycleCommand)
    (stop_budget : Option Nat) :
    Returns NotDuplicate (handle_lifecycle deps route_id command stop_budget) := by
  unfold handle_lifecycle handle_fail
  dsimp only
  repeat' first
    | exact returns_err _
    | exact handle_lifecycle_start_returns _ _ _
    | exact handle_runtime_lifecycle_returns _ _ _ _ _
    | exact persist_and_return_returns _ _ _ _ _
    | refine Returns.bind notDuplicate_error fun _ => ?_
    | split

theorem execute_command_returns (cmd : RuntimeCommand) :
    Returns NotDuplicate (execute_command deps cmd) := by
  cases cmd with
  | RegisterRoute spec =>
    refine Returns.bind notDuplicate_error fun _ => Returns.bind notDuplicate_error fun _ =>
      Returns.bind notDuplicate_error fun _ => Returns.bind notDuplicate_error fun _ => ?_
    rintro command_id ⟨⟩
  | RemoveRoute route_id =>
    unfold execute_command handle_remove finish_remove
    dsimp only
    repeat' first
      | exact returns_state_changed _ _
      | exact returns_err _
      | refine Returns.bind notDuplicate_error fun _ => ?_
      | split
  | ReloadTlsCerts | ReloadTemplates => exact returns_err _
  | StartRoute | StopRoute | SuspendRoute | ResumeRoute | ReloadRoute | FailRoute =>
    unfold execute_command
    exact handle_lifecycle_returns _ _ _ _

end camel_core.lifecycle
