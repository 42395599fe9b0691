-- The start and the stop of a context (`context_lifecycle.rs` and `context.rs`), as a list of
-- events. A start takes the startup checks out of the context before it knows their verdict.
import RustCamel.Lifecycle.RuntimeBus
import RustCamel.Lifecycle.StartupValidation

open List

namespace camel_core.lifecycle.context_lifecycle

open camel_api.error (CamelError)
open camel_core.startup_validation (ConfigCheck run_startup_validation)

/-! ## The context -/

/-- What a context does that can be seen from outside. -/
inductive Event where
  | registered (check : ConfigCheck)
  | reset_cohort
  | service_start (i : Nat)
  | service_stop (i : Nat)
  | ran (check : ConfigCheck)
  | reconcile_transient_states
  | executed (cmd : RuntimeCommand)
  | asked (route_id : String)
  | activate_cohort
  | mark_started

structure CamelContext where
  services : Nat
  startup_checks : List ConfigCheck := []
  drain_timeout : Nat := 10000

/-- What the services, the bus and the controller answer during one start. The `k`th route
takes the `k`th nonce, counter and result. -/
structure StartOutcomes where
  service_start : Nat → Except CamelError Unit
  reconcile_transient_states : Except CamelError Unit
  auto_startup_route_ids : Except CamelError (List String)
  boot_nonce : Nat → Nat
  seq : Nat → UInt64
  execute : Nat → Except CamelError RuntimeCommandResult
  mark_started : Except CamelError Unit

structure StopOutcomes where
  shutdown_route_ids : Except CamelError (List String)
  boot_nonce : Nat → Nat
  seq : Nat → UInt64
  service_stop : Nat → Except CamelError Unit

/-! ## The start -/

/-- The loop over the services, at service `i`. The rollback ignores the errors of the stops. -/
def startServices (o : StartOutcomes) (i : Nat) : Nat → Except CamelError Unit × List Event
  | 0 => (.ok (), [])
  | n + 1 =>
    match o.service_start i with
    | .error e => (.error e, .service_start i :: (List.range i).reverse.map .service_stop)
    | .ok () =>
      let (result, events) := startServices o (i + 1) n
      (result, .service_start i :: events)

section

variable (o : StartOutcomes)

def startCommand (k : Nat) (route_id : String) : RuntimeCommand :=
  .StartRoute route_id (next_context_command_id (o.boot_nonce k) "start" route_id (o.seq k)).1 none

def startRoutes (o : StartOutcomes) (k : Nat) : List String → Except CamelError Unit × List Event
  | [] => (.ok (), [])
  | route_id :: route_ids =>
    let event := Event.executed (startCommand o k route_id)
    match o.execute k with
    | .error e => (.error e, [event])
    | .ok _ =>
      let (result, events) := startRoutes o (k + 1) route_ids
      (result, event :: events)

/-- The start loop and the sweep after it. What the sweep finds is only logged. -/
def startAndSweep (route_ids : List String) : Except CamelError Unit × List Event :=
  match startRoutes o 0 route_ids with
  | (.error e, events) => (.error e, events)
  | (.ok (), events) => (.ok (), events ++ route_ids.map .asked)

/-- After the validation. -/
def reconcileAndStart : Except CamelError Unit × List Event :=
  match o.reconcile_transient_states with
  | .error e =>
    (.error (.RouteError s!"boot reconciliation failed: {e.to_string}"),
      [.reconcile_transient_states])
  | .ok () =>
    match o.auto_startup_route_ids with
    | .error e => (.error e, [.reconcile_transient_states])
    | .ok route_ids =>
      let (result, events) := startAndSweep o route_ids
      (result, .reconcile_transient_states :: events)

variable (self : CamelContext)

/-- The block whose result goes through the activation of the cohort. The checks are taken
before they are run. -/
def boot : Except CamelError Unit × CamelContext × List Event :=
  match startServices o 0 self.services with
  | (.error e, events) => (.error e, self, events)
  | (.ok (), events) =>
    let checks := self.startup_checks
    let self := { self with startup_checks := [] }
    let events := events ++ checks.map .ran
    match run_startup_validation checks with
    | .error e => (.error e, self, events)
    | .ok _ =>
      let (result, later) := reconcileAndStart o
      (result, self, events ++ later)

def start_context : Except CamelError Unit × CamelContext × List Event :=
  let (result, self, events) := boot o self
  (result, self, .reset_cohort :: (events ++ [.activate_cohort]))

def CamelContext.start : Except CamelError Unit × CamelContext × List Event :=
  match start_context o self with
  | (.error e, self, events) => (.error e, self, events)
  | (.ok (), self, events) => (o.mark_started, self, events ++ [.mark_started])

end

/-! ## The stop -/

def stopCommand (o : StopOutcomes) (drain_budget k : Nat) (route_id : String) : RuntimeCommand :=
  .StopRoute route_id (next_context_command_id (o.boot_nonce k) "stop" route_id (o.seq k)).1 none
    (some drain_budget)

/-- The errors of the stops of the routes are only logged. -/
def stopRoutes (o : StopOutcomes) (drain_budget k : Nat) : List String → List Event
  | [] => []
  | route_id :: route_ids =>
    .executed (stopCommand o drain_budget k route_id) :: stopRoutes o drain_budget (k + 1) route_ids

/-- The first error of the services, stopped in the reverse order. -/
def first_error (o : StopOutcomes) (services : List Nat) : Option CamelError :=
  services.findSome? fun i =>
    match o.service_stop i with
    | .ok () => none
    | .error e => some e

def stop_context (o : StopOutcomes) (self : CamelContext) : Except CamelError Unit × List Event :=
  match o.shutdown_route_ids with
  | .error e => (.error e, [])
  | .ok route_ids =>
    let services := (List.range self.services).reverse
    let events := stopRoutes o self.drain_timeout 0 route_ids ++ services.map .service_stop
    match first_error o services with
    | some e => (.error e, events)
    | none => (.ok (), events)

def CamelContext.add_startup_check (check : ConfigCheck) (self : CamelContext) : CamelContext :=
  { self with startup_checks := self.startup_checks ++ [check] }

/-! ## The life of a context -/

inductive Op where
  | add_startup_check (check : ConfigCheck)
  | start (o : StartOutcomes)
  | stop (o : StopOutcomes)

/-- One call on the context, after the events of the calls before it. -/
def step (x : CamelContext × List Event) : Op → CamelContext × List Event
  | .add_startup_check check => (x.1.add_startup_check check, x.2 ++ [.registered check])
  | .start o => ((x.1.start o).2.1, x.2 ++ (x.1.start o).2.2)
  | .stop o => (x.1, x.2 ++ (stop_context o x.1).2)

def life (services : Nat) (ops : List Op) : CamelContext × List Event :=
  ops.foldl step ({ services }, [])

def registeredOf (events : List Event) : List ConfigCheck :=
  events.filterMap fun
    | .registered check => some check
    | _ => none

def ranOf (events : List Event) : List ConfigCheck :=
  events.filterMap fun
    | .ran check => some check
    | _ => none

def Event.isStartRoute : Event → Bool
  | .executed (.StartRoute _ _ _) => true
  | _ => false

def AllPass (checks : List ConfigCheck) : Prop := ∀ check ∈ checks, check.run = .ok ()

/-- Every check that was registered has been run, and has passed. -/
def Validated (events : List Event) : Prop :=
  ranOf events = registeredOf events ∧ AllPass (registeredOf events)

/-- No route is started before every check has been run and has passed. -/
def FailsClosed (events : List Event) : Prop :=
  ∀ before e after, events = before ++ e :: after → e.isStartRoute = true → Validated before

section

variable (o : StartOutcomes) (self : CamelContext)

/-- The start comes as far as its routes. -/
def Reaches : Prop :=
  (∀ i < self.services, o.service_start i = .ok ()) ∧ AllPass self.startup_checks ∧
    o.reconcile_transient_states = .ok () ∧
    ∃ route_id route_ids, o.auto_startup_route_ids = .ok (route_id :: route_ids)

/-! ## What one call does -/

@[simp] theorem registeredOf_append (xs ys : List Event) :
    registeredOf (xs ++ ys) = registeredOf xs ++ registeredOf ys := by
  simp [registeredOf]

@[simp] theorem ranOf_append (xs ys : List Event) : ranOf (xs ++ ys) = ranOf xs ++ ranOf ys := by
  simp [ranOf]

/-- Neither a check nor the start of a route. -/
def Event.isQuiet : Event → Bool
  | .registered _ | .ran _ => false
  | .executed (.StartRoute _ _ _) => false
  | _ => true

def Quiet (events : List Event) : Prop := ∀ e ∈ events, e.isQuiet = true

def Silent (events : List Event) : Prop :=
  (∀ e ∈ events, e.isStartRoute = false) ∧ registeredOf events = []

theorem Quiet.ranOf_eq {events : List Event} (h : Quiet events) : ranOf events = [] := by
  apply filterMap_eq_nil_iff.mpr
  intro e he
  have hq := h e he
  cases e <;> simp_all [Event.isQuiet]

theorem Quiet.silent {events : List Event} (h : Quiet events) : Silent events := by
  constructor
  · intro e he
    have hq := h e he
    cases e with
    | executed cmd => cases cmd <;> simp_all [Event.isQuiet, Event.isStartRoute]
    | _ => simp [Event.isStartRoute]
  · apply filterMap_eq_nil_iff.mpr
    intro e he
    have hq := h e he
    cases e <;> simp_all [Event.isQuiet]

theorem Silent.append {xs ys : List Event} (hx : Silent xs) (hy : Silent ys) :
    Silent (xs ++ ys) := by
  constructor
  · intro e he
    rcases mem_append.mp he with he | he
    · exact hx.1 e he
    · exact hy.1 e he
  · rw [registeredOf_append, hx.2, hy.2, append_nil]

variable (checks : List ConfigCheck)

theorem silent_ran : Silent (checks.map .ran) := by
  constructor
  · intro e he
    obtain ⟨check, -, rfl⟩ := mem_map.mp he
    rfl
  · apply filterMap_eq_nil_iff.mpr
    intro e he
    obtain ⟨check, -, rfl⟩ := mem_map.mp he
    rfl

theorem ranOf_ran : ranOf (checks.map .ran) = checks := by
  simp [ranOf, filterMap_map]

theorem quiet_startServices (i n : Nat) : Quiet (startServices o i n).2 := by
  induction n generalizing i with
  | zero =>
    intro e he
    simp [startServices] at he
  | succ n ih =>
    intro e he
    unfold startServices at he
    split at he
    · rcases mem_cons.mp he with rfl | he
      · rfl
      · obtain ⟨j, -, rfl⟩ := mem_map.mp he
        rfl
    · rcases mem_cons.mp he with rfl | he
      · rfl
      · exact ih (i + 1) e he

theorem startServices_ok_iff (i n : Nat) :
    (startServices o i n).1 = .ok () ↔ ∀ j < n, o.service_start (i + j) = .ok () := by
  induction n generalizing i with
  | zero => simp [startServices]
  | succ n ih =>
    unfold startServices
    constructor
    · intro h j hj
      split at h
      · simp at h
      · rename_i hi
        cases j with
        | zero => exact hi
        | succ j =>
          have := (ih (i + 1)).mp h j (by omega)
          rwa [Nat.add_right_comm] at this
    · intro h
      rw [show o.service_start i = .ok () from h 0 (by omega)]
      apply (ih (i + 1)).mpr
      intro j hj
      have := h (j + 1) (by omega)
      rwa [Nat.add_right_comm]

theorem run_startup_validation_ok_iff :
    (∃ report, run_startup_validation checks = .ok report) ↔ AllPass checks := by
  have hf : checks.filterMap ConfigCheck.failure = [] ↔ AllPass checks := by
    rw [filterMap_eq_nil_iff]
    apply forall₂_congr
    intro check _
    unfold ConfigCheck.failure
    cases check.run <;> simp
  rw [← hf]
  unfold run_startup_validation
  cases checks.filterMap ConfigCheck.failure with
  | nil | cons f fs => simp [startup_validation.StartupValidationReport.is_ok]

theorem startAndSweep_checks (route_ids : List String) :
    ranOf (startAndSweep o route_ids).2 = [] ∧ registeredOf (startAndSweep o route_ids).2 = [] := by
  have hr : ∀ k, ranOf (startRoutes o k route_ids).2 = [] ∧
      registeredOf (startRoutes o k route_ids).2 = [] := by
    induction route_ids with
    | nil => simp [startRoutes, ranOf, registeredOf]
    | cons route_id route_ids ih =>
      intro k
      unfold startRoutes
      cases o.execute k with
      | error e => simp [ranOf, registeredOf]
      | ok result => simpa [ranOf, registeredOf] using ih (k + 1)
  have ha : Quiet (route_ids.map .asked) := by
    intro e he
    obtain ⟨route_id, -, rfl⟩ := mem_map.mp he
    rfl
  unfold startAndSweep
  split
  · rename_i e events h
    have := hr 0
    rw [h] at this
    exact this
  · rename_i events h
    have := hr 0
    rw [h] at this
    simp [this.1, this.2, ha.ranOf_eq, ha.silent.2]

theorem startAndSweep_nil : (startAndSweep o []).2 = [] := rfl

theorem startAndSweep_cons (route_id : String) (route_ids : List String) :
    ∃ later, (startAndSweep o (route_id :: route_ids)).2 =
      .executed (startCommand o 0 route_id) :: later := by
  unfold startAndSweep startRoutes
  cases o.execute 0 with
  | error e => exact ⟨[], rfl⟩
  | ok result =>
    rcases h : startRoutes o 1 route_ids with ⟨_ | _, events⟩
    · exact ⟨events, rfl⟩
    · exact ⟨_, rfl⟩

/-- A start that does not come to its routes. The checks that it ran are gone. -/
def Refuses (self' : CamelContext) (events : List Event) : Prop :=
  Silent events ∧ ranOf events ++ self'.startup_checks = self.startup_checks

/-- A start that comes to its routes. It ran all the checks before the first of them. -/
def Starts (self' : CamelContext) (events : List Event) : Prop :=
  self'.startup_checks = [] ∧ ∃ head e tail, events = head ++ e :: tail ∧ e.isStartRoute = true ∧
    Silent head ∧ ranOf head = self.startup_checks ∧
    ranOf (e :: tail) = [] ∧ registeredOf (e :: tail) = []

theorem Refuses.append {self self' : CamelContext} {events xs ys : List Event}
    (h : Refuses self self' events) (hx : Quiet xs) (hy : Quiet ys) :
    Refuses self self' (xs ++ (events ++ ys)) := by
  refine ⟨hx.silent.append (h.1.append hy.silent), ?_⟩
  simp [hx.ranOf_eq, hy.ranOf_eq, h.2]

theorem Starts.append {self self' : CamelContext} {events xs ys : List Event}
    (h : Starts self self' events) (hx : Quiet xs) (hy : Quiet ys) :
    Starts self self' (xs ++ (events ++ ys)) := by
  obtain ⟨hg, head, e, tail, rfl, he, hh, hr, ht, hre⟩ := h
  refine ⟨hg, xs ++ head, e, tail ++ ys, ?_, he, hx.silent.append hh, ?_, ?_, ?_⟩
  · simp
  · rw [ranOf_append, hx.ranOf_eq, hr, nil_append]
  · rw [← cons_append, ranOf_append, ht, hy.ranOf_eq, nil_append]
  · rw [← cons_append, registeredOf_append, hre, hy.silent.2, nil_append]

theorem quiet_of_all {events : List Event} (h : events.all Event.isQuiet = true) : Quiet events :=
  all_eq_true.mp h

theorem boot_cases : (¬ Reaches o self ∧ Refuses self (boot o self).2.1 (boot o self).2.2) ∨
    (Reaches o self ∧ Starts self (boot o self).2.1 (boot o self).2.2) := by
  have hq := quiet_startServices o 0 self.services
  have hs := startServices_ok_iff o 0 self.services
  simp only [Nat.zero_add] at hs
  unfold boot
  rcases hst : startServices o 0 self.services with ⟨e | _, events⟩
  · -- a service failed, and the checks stay where they are
    rw [hst] at hq hs
    refine .inl ⟨?_, hq.silent, ?_⟩
    · intro h
      exact absurd (hs.mpr h.1) (by simp)
    · simp [hq.ranOf_eq]
  · rw [hst] at hq hs
    simp only
    have hra : ranOf (events ++ self.startup_checks.map .ran) = self.startup_checks := by
      rw [ranOf_append, hq.ranOf_eq, ranOf_ran, nil_append]
    have hsi : Silent (events ++ self.startup_checks.map .ran) := hq.silent.append (silent_ran _)
    have hp := run_startup_validation_ok_iff self.startup_checks
    cases hvalid : run_startup_validation self.startup_checks with
    | error e =>
      refine .inl ⟨?_, hsi, by simp [hra]⟩
      intro h
      obtain ⟨report, hr⟩ := hp.mpr h.2.1
      rw [hvalid] at hr
      simp at hr
    | ok report =>
      have ha := hp.mp ⟨report, hvalid⟩
      have hre : Quiet [.reconcile_transient_states] := quiet_of_all rfl
      -- what follows the validation, when it starts no route
      have href : (reconcileAndStart o).2 = [.reconcile_transient_states] →
          Refuses self { self with startup_checks := [] }
            (events ++ self.startup_checks.map .ran ++ (reconcileAndStart o).2) := by
        intro h
        refine ⟨hsi.append (by rw [h]; exact hre.silent), ?_⟩
        rw [ranOf_append, hra, h, hre.ranOf_eq, append_nil, append_nil]
      cases hrec : o.reconcile_transient_states with
      | error e =>
        refine .inl ⟨?_, href (by simp [reconcileAndStart, hrec])⟩
        intro h
        simp [h.2.2.1] at hrec
      | ok u =>
        cases hi : o.auto_startup_route_ids with
        | error e =>
          refine .inl ⟨?_, href (by simp [reconcileAndStart, hrec, hi])⟩
          rintro ⟨-, -, -, route_id, route_ids, h⟩
          simp [h] at hi
        | ok route_ids =>
          cases route_ids with
          | nil =>
            refine .inl ⟨?_, href (by simp [reconcileAndStart, hrec, hi, startAndSweep_nil])⟩
            rintro ⟨-, -, -, route_id, route_ids, h⟩
            simp [h] at hi
          | cons route_id route_ids =>
            refine .inr ⟨⟨hs.mp rfl, ha, hrec, route_id, route_ids, hi⟩, rfl, ?_⟩
            obtain ⟨later, hl⟩ := startAndSweep_cons o route_id route_ids
            have hc := startAndSweep_checks o (route_id :: route_ids)
            rw [hl] at hc
            refine ⟨events ++ self.startup_checks.map .ran ++ [.reconcile_transient_states],
              .executed (startCommand o 0 route_id), later, ?_, rfl,
              hsi.append hre.silent, ?_, hc.1, hc.2⟩
            · simp [reconcileAndStart, hrec, hi, hl]
            · rw [ranOf_append, hra, hre.ranOf_eq, append_nil]

theorem start_eq_boot : (self.start o).2.1 = (boot o self).2.1 ∧
    ∃ after, Quiet after ∧
      (self.start o).2.2 = [.reset_cohort] ++ ((boot o self).2.2 ++ after) := by
  unfold CamelContext.start start_context
  rcases boot o self with ⟨e | _, self', events⟩
  · refine ⟨rfl, [.activate_cohort], quiet_of_all rfl, ?_⟩
    simp
  · refine ⟨rfl, [.activate_cohort, .mark_started], quiet_of_all rfl, ?_⟩
    simp

theorem start_cases : (¬ Reaches o self ∧ Refuses self (self.start o).2.1 (self.start o).2.2) ∨
    (Reaches o self ∧ Starts self (self.start o).2.1 (self.start o).2.2) := by
  obtain ⟨hc, after, ha, he⟩ := start_eq_boot o self
  rw [hc, he]
  have hr : Quiet [.reset_cohort] := quiet_of_all rfl
  rcases boot_cases o self with ⟨hre, h⟩ | ⟨hre, h⟩
  · exact .inl ⟨hre, h.append hr ha⟩
  · exact .inr ⟨hre, h.append hr ha⟩

end

theorem quiet_stop_context (o : StopOutcomes) (self : CamelContext) :
    Quiet (stop_context o self).2 := by
  have hr : ∀ k route_ids, Quiet (stopRoutes o self.drain_timeout k route_ids) := by
    intro k route_ids
    induction route_ids generalizing k with
    | nil => exact quiet_of_all rfl
    | cons route_id route_ids ih =>
      intro e he
      rcases mem_cons.mp he with rfl | he
      · rfl
      · exact ih (k + 1) e he
  unfold stop_context
  cases o.shutdown_route_ids with
  | error e => exact quiet_of_all rfl
  | ok route_ids =>
    have ha : Quiet (stopRoutes o self.drain_timeout 0 route_ids ++
        (List.range self.services).reverse.map .service_stop) := by
      intro e he
      rcases mem_append.mp he with he | he
      · exact hr 0 route_ids e he
      · obtain ⟨i, -, rfl⟩ := mem_map.mp he
        rfl
    simp only
    split <;> exact ha

/-! ## What a life keeps -/

variable (services : Nat)

@[simp] theorem life_nil : life services [] = ({ services }, []) := rfl

@[simp] theorem life_concat (ops : List Op) (op : Op) :
    life services (ops ++ [op]) = step (life services ops) op := by
  simp [life]

/-- Every registered check was run, or waits for the next start. -/
def Accounted (x : CamelContext × List Event) : Prop :=
  ranOf x.2 ++ x.1.startup_checks = registeredOf x.2

variable {x : CamelContext × List Event}

theorem step_accounted (h : Accounted x) (op : Op) : Accounted (step x op) := by
  unfold Accounted at h ⊢
  cases op with
  | add_startup_check check =>
    have hr : ranOf [.registered check] = [] := rfl
    have hre : registeredOf [.registered check] = [check] := rfl
    simp only [step, CamelContext.add_startup_check, ranOf_append, registeredOf_append, hr, hre,
      append_nil]
    rw [← append_assoc, h]
  | stop o =>
    have hq := quiet_stop_context o x.1
    simpa [step, hq.ranOf_eq, hq.silent.2] using h
  | start o =>
    simp only [step, ranOf_append, registeredOf_append]
    rcases start_cases o x.1 with ⟨-, hs, hr⟩ | ⟨-, hg, head, e, tail, heq, -, hh, hr, ht, hre⟩
    · rw [append_assoc, hr, hs.2, append_nil, h]
    · rw [heq, hg, ranOf_append, registeredOf_append, hh.2, hr, ht, hre]
      simpa using h

theorem life_accounted (ops : List Op) : Accounted (life services ops) := by
  induction ops using List.reverseRecOn with
  | nil => rfl
  | append_singleton ops op ih =>
    rw [life_concat]
    exact step_accounted ih op

/-- The starts of the routes in the new events are what a longer trace has to answer for. -/
theorem failsClosed_append (xs ys : List Event) :
    FailsClosed (xs ++ ys) ↔ FailsClosed xs ∧
      ∀ before e after, ys = before ++ e :: after → e.isStartRoute = true →
        Validated (xs ++ before) := by
  constructor
  · intro h
    constructor
    · intro before e after heq he
      refine h before e (after ++ ys) ?_ he
      rw [heq]
      simp
    · intro before e after heq he
      refine h (xs ++ before) e after ?_ he
      rw [heq]
      simp
  · rintro ⟨hx, hy⟩ before e after heq he
    rcases append_eq_append_iff.mp heq with ⟨mid, rfl, hys⟩ | ⟨mid, rfl, hr⟩
    · exact hy mid e after hys he
    · cases mid with
      | nil => exact by simpa using hy [] e after (by simpa using hr.symm) he
      | cons e' mid =>
        simp only [cons_append, List.cons.injEq] at hr
        exact hx before e' mid rfl (by rw [← hr.1]; exact he)

theorem failsClosed_append_silent {xs ys : List Event} (hy : Silent ys) :
    FailsClosed (xs ++ ys) ↔ FailsClosed xs := by
  rw [failsClosed_append]
  apply and_iff_left
  intro before e after heq he
  have := hy.1 e (by rw [heq]; simp)
  rw [this] at he
  simp at he

theorem nil_of_append_nil {before after : List Event} {f : List Event → List ConfigCheck}
    (ha : ∀ xs ys, f (xs ++ ys) = f xs ++ f ys) (h : f (before ++ after) = []) :
    f before = [] := by
  rw [ha] at h
  exact (append_eq_nil_iff.mp h).1

/-- A start that comes to its routes is closed exactly when all that was run before it passed. -/
theorem failsClosed_append_starts {o : StartOutcomes} {self' : CamelContext} {events : List Event}
    (hx : Accounted x) (hrea : Reaches o x.1) (h : Starts x.1 self' events) :
    FailsClosed (x.2 ++ events) ↔ FailsClosed x.2 ∧ AllPass (ranOf x.2) := by
  obtain ⟨-, head, e, tail, rfl, he, hh, hra, ht, hreg⟩ := h
  have hp := hrea.2.1
  unfold Accounted at hx
  rw [failsClosed_append]
  apply and_congr_right
  intro _
  constructor
  · intro h check hc
    have hvalid := h head e tail rfl he
    apply hvalid.2
    rw [registeredOf_append, ← hx]
    simp [hc]
  · intro hpa before e' after heq he'
    -- no route is started in `head`, so all of it lies before `e'`
    have hb : ∃ mid, before = head ++ mid ∧ e :: tail = mid ++ e' :: after := by
      rcases append_eq_append_iff.mp heq with ⟨mid, hm, hres⟩ | ⟨mid, hm, hres⟩
      · exact ⟨mid, hm, hres⟩
      · cases mid with
        | nil => exact ⟨[], by simpa using hm.symm, by simpa using hres.symm⟩
        | cons e'' mid =>
          simp only [cons_append, List.cons.injEq] at hres
          have hn := hh.1 e' (by rw [hm, hres.1]; simp)
          rw [hn] at he'
          simp at he'
    obtain ⟨mid, rfl, hm⟩ := hb
    rw [hm] at ht hreg
    have hr := nil_of_append_nil ranOf_append ht
    have hre := nil_of_append_nil registeredOf_append hreg
    constructor
    · simp only [ranOf_append, registeredOf_append, hra, hr, hre, hh.2, append_nil]
      exact hx
    · simp only [registeredOf_append, hre, hh.2, append_nil]
      rw [← hx]
      intro check hc
      rcases mem_append.mp hc with hc | hc
      · exact hpa check hc
      · exact hp check hc

/-- What a call adds to the trace is closed, or it is a start that comes to its routes after a
check that did not pass. -/
def StaysClosed (x : CamelContext × List Event) : Op → Prop
  | .start o => Reaches o x.1 → AllPass (ranOf x.2)
  | _ => True

theorem step_failsClosed_iff (hx : Accounted x) (op : Op) :
    FailsClosed (step x op).2 ↔ FailsClosed x.2 ∧ StaysClosed x op := by
  cases op with
  | add_startup_check check =>
    simp only [step, StaysClosed, and_true]
    rw [failsClosed_append]
    apply and_iff_left
    intro before e after heq he
    have hm : e ∈ [Event.registered check] := by
      rw [heq]
      simp
    rw [mem_singleton.mp hm] at he
    simp [Event.isStartRoute] at he
  | stop o =>
    simp only [step, StaysClosed, and_true]
    exact failsClosed_append_silent (quiet_stop_context o x.1).silent
  | start o =>
    simp only [step, StaysClosed]
    rcases start_cases o x.1 with ⟨hr, h⟩ | ⟨hr, h⟩
    · rw [failsClosed_append_silent h.1]
      simp [hr]
    · rw [failsClosed_append_starts hx hr h]
      simp [hr]

/-- In the life of a context no route is started before every registered check has passed,
exactly when no start comes to its routes after an earlier start that ran a failing check. -/
theorem startup_fails_closed_iff (services : Nat) (ops : List Op) :
    FailsClosed (life services ops).2 ↔
      ∀ before o, before ++ [.start o] <+: ops → Reaches o (life services before).1 →
        AllPass (ranOf (life services before).2) := by
  induction ops using List.reverseRecOn with
  | nil =>
    constructor
    · intro _ before o hp
      simp at hp
    · intro _ before e after heq
      simp at heq
  | append_singleton ops op ih =>
    rw [life_concat, step_failsClosed_iff (life_accounted services ops), ih]
    constructor
    · rintro ⟨hb, hlast⟩ before o hp hr
      rcases prefix_concat_iff.mp hp with heq | hp
      · obtain ⟨rfl, ho⟩ := append_inj' heq rfl
        rw [← head_eq_of_cons_eq ho] at hlast
        exact hlast hr
      · exact hb before o hp hr
    · intro h
      constructor
      · intro before o hp hr
        exact h before o (hp.trans (prefix_append ops [op])) hr
      · cases op with
        | start o =>
          intro hr
          exact h ops o (prefix_refl _) hr
        | add_startup_check check | stop o => trivial

/-- Outcomes with no error, and one route. -/
def smoothStart : StartOutcomes where
  service_start _ := .ok ()
  reconcile_transient_states := .ok ()
  auto_startup_route_ids := .ok ["r"]
  boot_nonce _ := 0
  seq _ := 0
  execute _ := .ok .Accepted
  mark_started := .ok ()

/-- The check of a SQL endpoint that takes its query from the message. -/
def refusedCheck : ConfigCheck where
  name := "sql-dynamic-query"
  description := "SQL use_message_body_for_sql requires allow_dynamic_query=true"
  run := startup_validation.SqlDynamicQueryCheck.run ⟨true, false⟩

/-- The first start is refused. The second one starts the route. -/
theorem a_second_start_skips_the_failed_check :
    ¬ FailsClosed
      (life 0 [.add_startup_check refusedCheck, .start smoothStart, .start smoothStart]).2 := by
  intro h
  have hvalid := h
    [.registered refusedCheck, .reset_cohort, .ran refusedCheck, .activate_cohort, .reset_cohort,
      .reconcile_transient_states]
    (.executed (startCommand smoothStart 0 "r")) [.asked "r", .activate_cohort, .mark_started] rfl rfl
  have hr := hvalid.2 refusedCheck mem_cons_self
  simp [refusedCheck, startup_validation.SqlDynamicQueryCheck.run] at hr

end camel_core.lifecycle.context_lifecycle
