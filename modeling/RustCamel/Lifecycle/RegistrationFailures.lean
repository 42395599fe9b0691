-- The laws of a registration that fails. The check at its start takes the
-- recovered mark of the route, and no failure gives it back. The register
-- command stores before it converts its spec and calls the runtime, and only a
-- failure of the runtime is compensated.
import RustCamel.Lifecycle.Protocol
import RustCamel.Lifecycle.StoreLaws

open Bool Finmap

namespace camel_core.lifecycle

open camel_api Prog Handler RouteRuntimeAggregate InMemoryRuntimeStore

/-! ## Handlers under given faults -/

section

variable {ρ α β : Type}

/-- The result of a handler under the faults, and the world that it leaves. -/
abbrev after (faults : Faults) (h : Handler α) (w : World ρ) : Outcome CamelError α × World ρ :=
  eval (portFn faults) h.run w

variable (faults : Faults)

theorem after_bind (h : Handler α) (f : α → Handler β) (w : World ρ) :
    after faults (h >>= f) w = match after faults h w with
      | (.ok a, w') => after faults (f a) w'
      | (.error e, w') => (.error e, w') := by
  unfold after
  rw [eval_run_bind]
  rcases eval (portFn faults) h.run w with ⟨e | a, w'⟩ <;> rfl

theorem after_port (c : PortCall) (w : World ρ) :
    after faults (port c) w = ((portFn faults c w).1.mapError fun e => .err (.of_domain e),
      (portFn faults c w).2) := rfl

theorem after_attempt (c : PortCall) (w : World ρ) :
    after faults (attempt c) w = (.ok (portFn faults c w).1, (portFn faults c w).2) := rfl

end

/-! ## The parts of a registration -/

/-- The call that appends the registration to the journal. -/
def registerCall (deps : CommandDeps) (id : String) : PortCall :=
  if deps.uow then
    .persist_upsert (new id) none (project_from_aggregate (new id)) [.RouteRegistered id]
  else .publish [.RouteRegistered id]

def appendRegistered (faults : Faults) (deps : CommandDeps) (id : String)
    (store : InMemoryRuntimeStore) : Except DomainError Unit × InMemoryRuntimeStore :=
  store.journal_append (faults.journal (registerCall deps id)) [.RouteRegistered id]

def Shows (a : RouteRuntimeAggregate) (store : InMemoryRuntimeStore) : Prop :=
  store.load a.route_id = some a ∧
    store.inner.statuses.lookup a.route_id = some (project_from_aggregate a)

/-- A registration passes its check: the route is absent, or the last replay
left it and its mark is still there. -/
def Adoptable (id : String) (store : InMemoryRuntimeStore) : Prop :=
  store.load id = none ∨ id ∈ store.inner.recovered

/-- The store after the check: the mark of a route that was there is gone. -/
def checkedStore (id : String) (store : InMemoryRuntimeStore) : InMemoryRuntimeStore :=
  match store.load id with
  | none => store
  | some _ => (store.take_recovered id).2

section

variable {ρ : Type} {faults : Faults} {deps : CommandDeps} {id : String}

theorem after_adopt_check {w : World ρ} (h : Adoptable id w.store) :
    after faults (adopt_check id) w = (.ok (), { w with store := checkedStore id w.store }) := by
  unfold adopt_check checkedStore
  rw [after_bind, after_port]
  cases hl : w.store.load id with
  | none =>
    simp only [portFn, hl, Except.mapError]
    rfl
  | some a =>
    have hm : id ∈ w.store.inner.recovered := by
      rcases h with h | h
      · rw [hl] at h
        cases h
      · exact h
    simp only [portFn, hl, Except.mapError]
    rw [after_bind, after_port]
    simp only [portFn, take_recovered, hm, decide_true, Except.mapError]
    rfl

theorem after_adopt_check_duplicate {w : World ρ} (h : ¬ Adoptable id w.store) :
    after faults (adopt_check id) w = (.error (.err (.of_domain (.AlreadyExists id))), w) := by
  unfold Adoptable at h
  push Not at h
  obtain ⟨hl, hm⟩ := h
  obtain ⟨a, hl⟩ := Option.ne_none_iff_exists'.mp hl
  unfold adopt_check
  rw [after_bind, after_port]
  simp only [portFn, hl, Except.mapError]
  rw [after_bind, after_port]
  simp only [portFn, take_recovered, hm, decide_false, Finset.erase_eq_of_notMem hm,
    Except.mapError]
  rfl

/-- The world with the route stored as registered. -/
def registeredIn (faults : Faults) (deps : CommandDeps) (id : String) (w : World ρ) : World ρ :=
  { w with store := { (appendRegistered faults deps id w.store).2 with
    inner := upserted w.store.inner (new id) (project_from_aggregate (new id))
      [.RouteRegistered id] } }

/-- The world when the append of the registration failed. The unit of work has
changed nothing, and without it the route is there already. -/
def unappendedIn (deps : CommandDeps) (id : String) (w : World ρ) : World ρ :=
  if deps.uow then w
  else { w with store := (w.store.save (new id)).upsert_status (project_from_aggregate (new id)) }

theorem after_persist_upsert_registered (hu : deps.uow = true) (w : World ρ) :
    portFn faults (.persist_upsert (new id) none (project_from_aggregate (new id))
        [.RouteRegistered id]) w =
      match (appendRegistered faults deps id w.store).1 with
      | .ok () => (.ok (), registeredIn faults deps id w)
      | .error e => (.error e, w) := by
  unfold registeredIn appendRegistered registerCall
  rw [if_pos hu]
  simp only [portFn]
  rw [persist_upsert_eq (by rintro n ⟨⟩)]
  rcases (w.store.journal_append _ _).1 with e | _ <;> rfl

theorem after_publish_registered (hu : deps.uow = false) (w : World ρ) :
    portFn faults (.publish [.RouteRegistered id]) (unappendedIn deps id w) =
      match (appendRegistered faults deps id w.store).1 with
      | .ok () => (.ok (), registeredIn faults deps id w)
      | .error e => (.error e, unappendedIn deps id w) := by
  unfold registeredIn appendRegistered registerCall unappendedIn
  simp only [hu, false_eq_true, if_false, portFn, publish]
  rw [show (w.store.save (new id)).upsert_status (project_from_aggregate (new id)) =
    { w.store with inner := ((w.store.save (new id)).upsert_status
      (project_from_aggregate (new id))).inner } from rfl, journal_append_inner]
  rcases ha : w.store.journal_append _ _ with ⟨e | _, store'⟩
  · rcases journal_append_spec ha with ⟨⟨⟩, _⟩ | ⟨_, rfl⟩
    rfl
  · rfl

theorem unappendedIn_uow (hu : deps.uow = true) (w : World ρ) : unappendedIn deps id w = w :=
  if_pos hu

variable (w : World ρ) {definition : RouteDefinition}

theorem after_persist_registered :
    after faults (persist_registered deps (new id) [.RouteRegistered id]) w =
      match (appendRegistered faults deps id w.store).1 with
      | .ok () => (.ok (), registeredIn faults deps id w)
      | .error e => (.error (.err (.of_domain e)), unappendedIn deps id w) := by
  cases hu : deps.uow with
  | true =>
    unfold persist_registered
    rw [if_pos hu, after_port, after_persist_upsert_registered hu, unappendedIn_uow hu]
    rcases (appendRegistered faults deps id w.store).1 with e | _ <;> rfl
  | false =>
    have hp : after faults (persist_registered deps (new id) [.RouteRegistered id]) w =
        after faults (port (.publish [.RouteRegistered id])) (unappendedIn deps id w) := by
      unfold persist_registered unappendedIn
      simp only [hu, false_eq_true, if_false]
      rfl
    rw [hp, after_port, after_publish_registered hu]
    rcases (appendRegistered faults deps id w.store).1 with e | _ <;> rfl

theorem after_persist_internal :
    after faults (persist_internal deps (new id) [.RouteRegistered id]) w =
      match (appendRegistered faults deps id w.store).1 with
      | .ok () => (.ok (.ok ()), registeredIn faults deps id w)
      | .error e => (.ok (.error (.of_domain e)), unappendedIn deps id w) := by
  have hr : ∀ (c : PortCall) (w : World ρ), after faults (result (port c)) w =
      (.ok ((portFn faults c w).1.mapError .of_domain), (portFn faults c w).2) := by
    intro c w
    rcases hc : portFn faults c w with ⟨e | _, w'⟩ <;>
      simp [after, result, port, hc, Except.mapError]
  cases hu : deps.uow with
  | true =>
    unfold persist_internal
    rw [if_pos hu, hr, after_persist_upsert_registered hu, unappendedIn_uow hu]
    rcases (appendRegistered faults deps id w.store).1 with e | _ <;> rfl
  | false =>
    have hp : after faults (persist_internal deps (new id) [.RouteRegistered id]) w =
        after faults (result (port (.publish [.RouteRegistered id]))) (unappendedIn deps id w) := by
      unfold persist_internal unappendedIn
      simp only [hu, false_eq_true, if_false]
      rfl
    rw [hp, hr, after_publish_registered hu]
    rcases (appendRegistered faults deps id w.store).1 with e | _ <;> rfl

/-! ## An internal registration that fails -/

theorem after_rollback_registration (e : CamelError) (w : World ρ) :
    ∃ f, after faults (rollback_registration deps id e) w = (.error f, w) := by
  unfold rollback_registration
  split
  · rw [after_bind, after_attempt]
    simp only [portFn]
    rcases faults.runtime (.remove_route id) with e' | _ <;> exact ⟨_, rfl⟩
  · exact ⟨_, rfl⟩

theorem after_store_installed :
    ((appendRegistered faults deps id w.store).1 = .ok () ∧
        after faults (store_installed deps id) w =
          (.ok (.RouteRegistered id), registeredIn faults deps id w)) ∨
      ((appendRegistered faults deps id w.store).1 ≠ .ok () ∧
        ∃ f, after faults (store_installed deps id) w = (.error f, unappendedIn deps id w)) := by
  unfold store_installed
  dsimp only [register]
  rw [after_bind, after_persist_internal]
  rcases (appendRegistered faults deps id w.store).1 with e | _
  · exact .inr ⟨nofun, after_rollback_registration _ _⟩
  · exact .inl ⟨rfl, rfl⟩

/-- The runtime refuses the route. -/
def InstallFails (faults : Faults) (deps : CommandDeps) (definition : RouteDefinition) : Prop :=
  deps.execution = true ∧ ∃ e, faults.runtime (.register_route definition) = .error e

theorem after_handle_register_internal {w : World ρ} (h : Adoptable definition.route_id w.store)
    {w₁ : World ρ} (hw : w₁ = { w with store := checkedStore definition.route_id w.store }) :
    (InstallFails faults deps definition ∧
        ∃ f, after faults (handle_register_internal deps definition) w = (.error f, w₁)) ∨
      (¬ InstallFails faults deps definition ∧
        after faults (handle_register_internal deps definition) w =
          after faults (store_installed deps definition.route_id) w₁) := by
  unfold handle_register_internal InstallFails
  rw [after_bind, after_adopt_check h, ← hw]
  dsimp only
  cases he : deps.execution with
  | false => exact .inr ⟨by simp, rfl⟩
  | true =>
    rw [if_pos rfl, after_bind, after_port]
    simp only [portFn]
    rcases faults.runtime (.register_route definition) with e | _
    · exact .inl ⟨⟨trivial, e, rfl⟩, _, rfl⟩
    · exact .inr ⟨by simp, rfl⟩

/-- The store is as it was, and the same registration succeeds when the runtime
takes the route and the journal takes the event. -/
def Retryable (deps : CommandDeps) (definition : RouteDefinition) (w w' : World ρ) : Prop :=
  w'.store = w.store ∧ ∀ healthy : Faults, ¬ InstallFails healthy deps definition →
    (appendRegistered healthy deps definition.route_id w'.store).1 = .ok () →
    (after healthy (handle_register_internal deps definition) w').1 =
      .ok (.RouteRegistered definition.route_id)

theorem checkedStore_absent {store : InMemoryRuntimeStore} (h : store.load id = none) :
    checkedStore id store = store := by
  unfold checkedStore
  rw [h]

theorem checkedStore_unmarked {store : InMemoryRuntimeStore} (h : store.load id ≠ none) :
    id ∉ (checkedStore id store).inner.recovered := by
  unfold checkedStore
  split
  · contradiction
  · exact Finset.notMem_erase _ _

theorem recovered_unappendedIn :
    (unappendedIn deps id w).store.inner.recovered = w.store.inner.recovered := by
  unfold unappendedIn
  split <;> rfl

theorem load_unappendedIn (hu : deps.uow = false) (w : World ρ) :
    (unappendedIn deps id w).store.load id = some (new id) := by
  unfold unappendedIn
  rw [if_neg (by simp [hu])]
  exact lookup_insert _

theorem retry_succeeds {w : World ρ} (ha : w.store.load definition.route_id = none)
    (hi : ¬ InstallFails faults deps definition)
    (hap : (appendRegistered faults deps definition.route_id w.store).1 = .ok ()) :
    (after faults (handle_register_internal deps definition) w).1 =
      .ok (.RouteRegistered definition.route_id) := by
  have hw : w = { w with store := checkedStore definition.route_id w.store } := by
    rw [checkedStore_absent ha]
  rcases after_handle_register_internal (.inl ha) hw with ⟨hf, _⟩ | ⟨_, heq⟩
  · exact absurd hf hi
  · rw [heq]
    rcases after_store_installed w with ⟨_, hs⟩ | ⟨hnot, _⟩
    · rw [hs]
    · exact absurd hap hnot

/-- An internal registration that fails is retryable if and only if the route
was absent, and the failure was not that of an append without a unit of work. -/
theorem a_failed_registration_is_retryable_iff_absent (definition : RouteDefinition) {w : World ρ}
    (hstore : w.store.load definition.route_id = none ∨
      definition.route_id ∈ w.store.inner.recovered)
    (hfailed : ∃ f, (after faults (handle_register_internal deps definition) w).1 = .error f) :
    Retryable deps definition w (after faults (handle_register_internal deps definition) w).2 ↔
      w.store.load definition.route_id = none ∧
        (deps.uow = true ∨ InstallFails faults deps definition) := by
  obtain ⟨w₁, hw⟩ : ∃ w₁, w₁ = { w with store := checkedStore definition.route_id w.store } :=
    ⟨_, rfl⟩
  -- A failure leaves the world after the check, but for an append without a unit of work.
  have hl : ((deps.uow = true ∨ InstallFails faults deps definition) ∧
        (after faults (handle_register_internal deps definition) w).2 = w₁) ∨
      (¬ (deps.uow = true ∨ InstallFails faults deps definition) ∧
        (after faults (handle_register_internal deps definition) w).2 =
          unappendedIn deps definition.route_id w₁) := by
    rcases after_handle_register_internal hstore hw with ⟨hf, f, heq⟩ | ⟨hnot, heq⟩
    · exact .inl ⟨.inr hf, by rw [heq]⟩
    · rw [heq] at hfailed ⊢
      rcases after_store_installed w₁ with ⟨_, ho⟩ | ⟨_, f, he⟩
      · rw [ho] at hfailed
        obtain ⟨f, ⟨⟩⟩ := hfailed
      · rw [he]
        cases hu : deps.uow with
        | true => exact .inl ⟨.inl rfl, unappendedIn_uow hu w₁⟩
        | false => exact .inr ⟨by simp [hnot], rfl⟩
  constructor
  · rintro ⟨hs, _⟩
    have ha : w.store.load definition.route_id = none := by
      by_contra hp
      have hm := hstore.resolve_left hp
      have hg := checkedStore_unmarked hp
      rw [← hs] at hm
      rcases hl with ⟨_, heq⟩ | ⟨_, heq⟩
      · rw [heq, hw] at hm
        exact hg hm
      · rw [heq, recovered_unappendedIn, hw] at hm
        exact hg hm
    refine ⟨ha, ?_⟩
    rcases hl with ⟨hc, _⟩ | ⟨hnot, heq⟩
    · exact hc
    · have hu : deps.uow = false := eq_false_iff.mpr fun hu => hnot (.inl hu)
      rw [heq] at hs
      have hlo : (unappendedIn deps definition.route_id w₁).store.load definition.route_id = _ :=
        load_unappendedIn hu w₁
      rw [hs, ha] at hlo
      cases hlo
  · rintro ⟨ha, hc⟩
    rw [checkedStore_absent ha] at hw
    rcases hl with ⟨_, heq⟩ | ⟨hnot, _⟩
    · rw [heq, hw]
      exact ⟨rfl, fun healthy hi hap => retry_succeeds ha hi hap⟩
    · exact absurd hc hnot

end

/-- A store right after the replay of a journal with one registration. -/
def recoveredStore : InMemoryRuntimeStore :=
  ((with_journal ((RedbRuntimeEventJournal.new 10000).append_batch {}
    [.RouteRegistered "r"]).2).recover_from_journal {}).2

/-- A runtime that refuses every route, over a healthy journal. -/
def refusing : Faults where
  runtime op := match op with
    | .register_route _ => .error (.InvalidState "refused")
    | _ => .ok ()

/-- The runtime refuses a recovered route once, and the retry is rejected as a
duplicate. -/
theorem a_refused_recovered_route_is_not_retryable :
    ¬ ∀ (faults : Faults) (definition : RouteDefinition) (w : World Unit),
      (w.store.load definition.route_id = none ∨ definition.route_id ∈ w.store.inner.recovered) →
      (∃ f, (after faults (handle_register_internal {} definition) w).1 = .error f) →
      faults.runtime (.remove_route definition.route_id) = .ok () →
      Retryable {} definition w (after faults (handle_register_internal {} definition) w).2 := by
  intro ha
  have hr := (ha refusing timerDefinition ⟨recoveredStore, ()⟩ (.inr (by decide))
    ⟨_, rfl⟩ rfl).2 {} (by rintro ⟨_, e, ⟨⟩⟩) rfl
  cases hr

/-- The runtime refuses an absent route once, and the retry succeeds. -/
theorem a_refused_absent_route_is_retryable :
    Retryable {} timerDefinition (⟨with_journal (.new 10000), ()⟩ : World Unit)
      (after refusing (handle_register_internal {} timerDefinition)
        ⟨with_journal (.new 10000), ()⟩).2 :=
  (a_failed_registration_is_retryable_iff_absent timerDefinition (.inl rfl) ⟨_, rfl⟩).mpr
    ⟨rfl, .inl rfl⟩

/-! ## A register command that fails -/

/-- The aggregate that the compensation stores. -/
def failedRoute (id error : String) : RouteRuntimeAggregate := ⟨id, .Failed error, 1⟩

def appendFailed (faults : Faults) (id error : String) (store : InMemoryRuntimeStore) :
    Except DomainError Unit × InMemoryRuntimeStore :=
  store.journal_append (faults.journal (.persist_upsert (failedRoute id error) (some 0)
    (project_from_aggregate (failedRoute id error)) [.RouteFailed id error]))
    [.RouteFailed id error]

/-- With a unit of work the compensation is lost when its append fails. -/
def CompensationFails (faults : Faults) (deps : CommandDeps) (id error : String)
    (store : InMemoryRuntimeStore) : Prop :=
  deps.uow = true ∧ (appendFailed faults id error store).1 ≠ .ok ()

/-- The aggregate and the status of the route are in the `Failed` state. -/
def FailedIn (id : String) (store : InMemoryRuntimeStore) : Prop :=
  ∃ error version, Shows ⟨id, .Failed error, version⟩ store

/-- The aggregate, the status and the recovered mark of the route are as they
were. -/
def Kept (id : String) (store store' : InMemoryRuntimeStore) : Prop :=
  store'.load id = store.load id ∧
    store'.inner.statuses.lookup id = store.inner.statuses.lookup id ∧
    (id ∈ store'.inner.recovered ↔ id ∈ store.inner.recovered)

section

variable {ρ : Type} {faults : Faults} {deps : CommandDeps} {id : String} {w : World ρ}
  {spec : CanonicalRouteSpec}

theorem shows_upserted (store : InMemoryRuntimeStore) (state : RuntimeStoreState)
    (a : RouteRuntimeAggregate) (events : List RuntimeEvent) :
    Shows a { store with inner := upserted state a (project_from_aggregate a) events } :=
  ⟨lookup_insert _, lookup_insert _⟩

theorem shows_publish {a : RouteRuntimeAggregate} {store : InMemoryRuntimeStore}
    (h : Shows a store) (env : JournalEnv) (events : List RuntimeEvent) :
    Shows a (store.publish env events).2 := by
  unfold publish
  rcases ha : store.journal_append env events with ⟨e | _, store'⟩
  · rcases journal_append_spec ha with ⟨⟨⟩, _⟩ | ⟨_, rfl⟩
    exact h
  · rcases journal_append_spec ha with ⟨_, hi, _⟩ | ⟨⟨_, ⟨⟩⟩, _⟩
    unfold Shows load at h ⊢
    simp only [hi]
    exact h

theorem after_compensate (error : String) (hl : w.store.load id = some (new id)) :
    ∃ w', after faults (compensate deps (new id) 0 error) w = (.ok (), w') ∧
      ((CompensationFails faults deps id error w.store ∧ w' = w) ∨
        (¬ CompensationFails faults deps id error w.store ∧
          Shows (failedRoute id error) w'.store)) := by
  have hv : w.store.check_version id 0 = .ok () := by
    unfold check_version
    rw [show w.store.inner.routes.lookup id = some (new id) from hl]
    rfl
  obtain ⟨uow, execution, health_registry⟩ := deps
  cases uow with
  | true =>
    refine ⟨(portFn faults (.persist_upsert (failedRoute id error) (some 0)
      (project_from_aggregate (failedRoute id error)) [.RouteFailed id error]) w).2, rfl, ?_⟩
    unfold CompensationFails appendFailed
    simp only [portFn]
    rw [persist_upsert_eq (by rintro n ⟨⟩; exact hv)]
    rcases (w.store.journal_append _ _).1 with e | _
    · exact .inl ⟨⟨trivial, nofun⟩, rfl⟩
    · exact .inr ⟨fun hlo => hlo.2 rfl, shows_upserted _ _ _ _⟩
  | false =>
    have hs : w.store.save_if_version (failedRoute id error) 0 =
        (.ok (), w.store.save (failedRoute id error)) := by
      unfold save_if_version
      rw [show w.store.check_version (failedRoute id error).route_id 0 = .ok () from hv]
    have hf : after faults (of_outcome .of_domain ((new id).fail error)) w =
        (.ok (failedRoute id error, [.RouteFailed id error]), w) := rfl
    refine ⟨(portFn faults (.publish [.RouteFailed id error]) { w with
      store := (w.store.save (failedRoute id error)).upsert_status
        (project_from_aggregate (failedRoute id error)) }).2, ?_, .inr ⟨?_, ?_⟩⟩
    · unfold compensate
      rw [after_bind, hf]
      dsimp only
      rw [if_neg (by simp), after_bind, after_attempt]
      simp only [portFn, hs]
      rfl
    · rintro ⟨⟨⟩, _⟩
    · apply shows_publish
      exact ⟨lookup_insert _, lookup_insert _⟩

theorem after_install_runtime (hl : w.store.load spec.route_id = some (new spec.route_id)) :
    after faults (install_runtime deps spec (new spec.route_id)) w = (.ok (), w) ∧
        (deps.execution = true → ∃ definition, canonical_to_route_definition spec = .ok definition ∧
          faults.runtime (.register_route definition) = .ok ()) ∨
      deps.execution = true ∧ ∃ f w',
        after faults (install_runtime deps spec (new spec.route_id)) w = (.error f, w') ∧
        (routeConverts spec = false ∧ w' = w ∨
          ∃ definition e, canonical_to_route_definition spec = .ok definition ∧
            faults.runtime (.register_route definition) = .error e ∧
            (CompensationFails faults deps spec.route_id e.to_string w.store ∧ w' = w ∨
              ¬ CompensationFails faults deps spec.route_id e.to_string w.store ∧
                Shows (failedRoute spec.route_id e.to_string) w'.store)) := by
  unfold install_runtime
  cases he : deps.execution with
  | false => exact .inl ⟨rfl, nofun⟩
  | true =>
    have hc := isOk_canonical_to_route_definition spec
    rw [if_pos rfl, after_bind]
    cases hco : canonical_to_route_definition spec with
    | error e =>
      rw [hco] at hc
      exact .inr ⟨rfl, _, w, rfl, .inl ⟨hc.symm, rfl⟩⟩
    | ok definition =>
      have hr : after faults (of_result (.ok definition)) w = (.ok definition, w) := rfl
      rw [hr]
      dsimp only
      rw [after_bind, after_attempt]
      simp only [portFn]
      cases hi : faults.runtime (.register_route definition) with
      | ok _ => exact .inl ⟨rfl, fun _ => ⟨definition, rfl, hi⟩⟩
      | error e =>
        obtain ⟨w', heq, hle⟩ : ∃ w', after faults (compensate deps (new spec.route_id) 0
          e.to_string) w = (.ok (), w') ∧ _ := after_compensate e.to_string hl
        dsimp only
        rw [after_bind, show (new spec.route_id).version = 0 from rfl, heq]
        exact .inr ⟨trivial, _, w', rfl, .inr ⟨definition, e, rfl, hi, hle⟩⟩

/-! ### When a failure leaves no phantom -/

/-- The failures that leave no phantom: with a unit of work, a first append over
nothing or over a failed route, and an installation whose compensation is
stored. -/
structure LeavesNoPhantom (faults : Faults) (deps : CommandDeps) (spec : CanonicalRouteSpec)
    (store : InMemoryRuntimeStore) : Prop where
  append : (appendRegistered faults deps spec.route_id store).1 ≠ .ok () →
    deps.uow = true ∧ (store.load spec.route_id = none ∨ FailedIn spec.route_id store)
  convert : (appendRegistered faults deps spec.route_id store).1 = .ok () →
    deps.execution = true → routeConverts spec = true
  compensate : (appendRegistered faults deps spec.route_id store).1 = .ok () →
    deps.execution = true → ∀ definition e, canonical_to_route_definition spec = .ok definition →
    faults.runtime (.register_route definition) = .error e →
    ¬ CompensationFails faults deps spec.route_id e.to_string
      (appendRegistered faults deps spec.route_id store).2

theorem load_checkedStore (store : InMemoryRuntimeStore) :
    (checkedStore id store).load id = store.load id := by
  unfold checkedStore
  split <;> rfl

theorem statuses_checkedStore (store : InMemoryRuntimeStore) :
    (checkedStore id store).inner.statuses = store.inner.statuses := by
  unfold checkedStore
  split <;> rfl

theorem failedIn_checkedStore {store : InMemoryRuntimeStore} :
    FailedIn id (checkedStore id store) ↔ FailedIn id store := by
  unfold FailedIn Shows
  rw [statuses_checkedStore]
  simp only [load_checkedStore]

theorem phantom_of_shows_new {store store' : InMemoryRuntimeStore} (ha : Adoptable id store)
    (hr : store'.inner.recovered = (checkedStore id store).inner.recovered)
    (hs : Shows (new id) store') : ¬ (Kept id store store' ∨ FailedIn id store') := by
  rintro (⟨hl, _, hma⟩ | ⟨error, version, hf, _⟩)
  · have hl' : store.load id = some (new id) := by
      rw [← hl]
      exact hs.1
    have hp : store.load id ≠ none := by
      rw [hl']
      nofun
    have hm := hma.mpr (ha.resolve_left hp)
    rw [hr] at hm
    exact checkedStore_unmarked hp hm
  · have hsa := hf.symm.trans hs.1
    cases hsa

theorem appendRegistered_checkedStore (faults : Faults) (deps : CommandDeps) (id : String)
    (store : InMemoryRuntimeStore) :
    (appendRegistered faults deps id (checkedStore id store)).1 =
        (appendRegistered faults deps id store).1 ∧
      (appendRegistered faults deps id (checkedStore id store)).2.journal =
        (appendRegistered faults deps id store).2.journal := by
  apply journal_append_congr
  unfold checkedStore
  split <;> rfl

theorem compensationFails_congr {error : String} {store store' : InMemoryRuntimeStore}
    (h : store'.journal = store.journal) :
    CompensationFails faults deps id error store' ↔
      CompensationFails faults deps id error store := by
  unfold CompensationFails appendFailed
  rw [(journal_append_congr _ _ h).1]

theorem kept_or_failed_unappendedIn (deps : CommandDeps) (had : Adoptable id w.store) :
    Kept id w.store (unappendedIn deps id { w with store := checkedStore id w.store }).store ∨
        FailedIn id (unappendedIn deps id { w with store := checkedStore id w.store }).store ↔
      deps.uow = true ∧ (w.store.load id = none ∨ FailedIn id w.store) := by
  cases hu : deps.uow with
  | false =>
    refine ⟨fun h => absurd h ?_, fun h => nomatch h.1⟩
    apply phantom_of_shows_new had (by rw [recovered_unappendedIn])
    unfold unappendedIn
    rw [if_neg (by simp [hu])]
    exact ⟨lookup_insert _, lookup_insert _⟩
  | true =>
    rw [unappendedIn_uow hu, failedIn_checkedStore]
    constructor
    · rintro (hk | hf)
      · refine ⟨rfl, .inl ?_⟩
        by_contra hp
        exact checkedStore_unmarked hp (hk.2.2.mpr (had.resolve_left hp))
      · exact ⟨rfl, .inr hf⟩
    · rintro ⟨_, ha | hf⟩
      · rw [checkedStore_absent ha]
        exact .inl ⟨rfl, rfl, Iff.rfl⟩
      · exact .inr hf

theorem kept_or_failed_store_and_install {w₁ : World ρ} (had : Adoptable spec.route_id w.store)
    (hw : w₁ = { w with store := checkedStore spec.route_id w.store }) :
    ((∃ f, (after faults (store_and_install deps spec) w₁).1 = .error f) →
        Kept spec.route_id w.store (after faults (store_and_install deps spec) w₁).2.store ∨
          FailedIn spec.route_id (after faults (store_and_install deps spec) w₁).2.store) ↔
      LeavesNoPhantom faults deps spec w.store := by
  obtain ⟨ha, hj⟩ : (appendRegistered faults deps spec.route_id w₁.store).1 = _ ∧
      (appendRegistered faults deps spec.route_id w₁.store).2.journal = _ := by
    rw [hw]
    exact appendRegistered_checkedStore faults deps spec.route_id w.store
  unfold store_and_install
  dsimp only [register]
  rw [after_bind, after_persist_registered, ha]
  cases hr : (appendRegistered faults deps spec.route_id w.store).1 with
  | error e =>
    dsimp only
    have hl := kept_or_failed_unappendedIn deps had
    rw [← hw] at hl
    constructor
    · intro h
      refine ⟨fun _ => hl.mp (h ⟨_, rfl⟩), ?_, ?_⟩ <;> rw [hr] <;> nofun
    · intro h _
      exact hl.mpr (h.append (by rw [hr]; nofun))
  | ok _ =>
    dsimp only
    obtain ⟨w₂, hw₂⟩ : ∃ w₂, w₂ = registeredIn faults deps spec.route_id w₁ := ⟨_, rfl⟩
    have hs : Shows (new spec.route_id) w₂.store := by
      rw [hw₂]
      exact shows_upserted _ _ _ _
    have hp : ¬ (Kept spec.route_id w.store w₂.store ∨ FailedIn spec.route_id w₂.store) := by
      apply phantom_of_shows_new had _ hs
      rw [hw₂, hw]
      rfl
    have hlo : ∀ e, CompensationFails faults deps spec.route_id e w₂.store ↔
        CompensationFails faults deps spec.route_id e
          (appendRegistered faults deps spec.route_id w.store).2 := by
      intro e
      apply compensationFails_congr
      rw [hw₂, ← hj]
      rfl
    rw [after_bind, ← hw₂]
    rcases after_install_runtime hs.1 with ⟨ho, hi⟩ | ⟨he, f, w', her, hc⟩
    · rw [ho]
      refine ⟨fun _ => ⟨fun hnot => absurd hr hnot, ?_, ?_⟩, fun _ hf => nomatch hf⟩
      · intro _ he
        obtain ⟨definition, hco, _⟩ := hi he
        exact routeConverts_of_ok hco
      · intro _ he definition e hco hru
        obtain ⟨definition', hco', hru'⟩ := hi he
        cases hco.symm.trans hco'
        cases hru.symm.trans hru'
    · rw [her]
      constructor
      · intro h
        have hl := h ⟨f, rfl⟩
        rcases hc with ⟨_, rfl⟩ | ⟨definition, e, hco, hru, ⟨_, rfl⟩ | ⟨hst, _⟩⟩
        · exact absurd hl hp
        · exact absurd hl hp
        · refine ⟨fun hnot => absurd hr hnot, fun _ _ => routeConverts_of_ok hco, ?_⟩
          intro _ _ definition' e' hco' hru'
          cases hco.symm.trans hco'
          cases hru.symm.trans hru'
          exact fun hfa => hst ((hlo _).mpr hfa)
      · intro h _
        rcases hc with ⟨hnot, _⟩ | ⟨definition, e, hco, hru, ⟨hfa, _⟩ | ⟨_, hfai⟩⟩
        · exact absurd (h.convert hr he) (by simp [hnot])
        · exact absurd ((hlo _).mp hfa) (h.compensate hr he definition e hco hru)
        · exact .inr ⟨_, _, hfai⟩

/-- A register command that fails leaves the route as it was, or in the `Failed`
state, if and only if its failure is one of those that leave no phantom. -/
theorem a_failed_command_leaves_no_phantom_iff (spec : CanonicalRouteSpec) (w : World ρ) :
    ((∃ f, (after faults (handle_register deps spec) w).1 = .error f) →
        Kept spec.route_id w.store (after faults (handle_register deps spec) w).2.store ∨
          FailedIn spec.route_id (after faults (handle_register deps spec) w).2.store) ↔
      (spec.validate_contract = .ok () → Adoptable spec.route_id w.store →
        LeavesNoPhantom faults deps spec w.store) := by
  have hk : Kept spec.route_id w.store w.store := ⟨rfl, rfl, Iff.rfl⟩
  unfold handle_register
  rw [after_bind]
  cases hc : spec.validate_contract with
  | error e =>
    refine ⟨?_, fun _ _ => .inl hk⟩
    rintro _ ⟨⟩
  | ok _ =>
    rw [show after faults (of_result (.ok ())) w = (.ok (), w) from rfl]
    dsimp only
    rw [after_bind]
    by_cases ha : Adoptable spec.route_id w.store
    · rw [after_adopt_check ha]
      exact (kept_or_failed_store_and_install ha rfl).trans
        ⟨fun h _ _ => h, fun h => h rfl ha⟩
    · rw [after_adopt_check_duplicate ha]
      exact ⟨fun _ _ h => absurd h ha, fun _ _ => .inl hk⟩

end

/-- A spec that cannot be converted stays behind as a registered route. -/
theorem an_unconvertible_spec_leaves_a_phantom :
    ¬ ∀ (faults : Faults) (spec : CanonicalRouteSpec) (w : World Unit),
      (∃ f, (after faults (handle_register {} spec) w).1 = .error f) →
      Kept spec.route_id w.store (after faults (handle_register {} spec) w).2.store ∨
        FailedIn spec.route_id (after faults (handle_register {} spec) w).2.store := by
  intro ha
  have hl : (after {} (handle_register {} explodingSpec)
      (⟨with_journal (.new 10000), ()⟩ : World Unit)).2.store.load "r" = some (new "r") := rfl
  rcases ha {} explodingSpec ⟨with_journal (.new 10000), ()⟩ ⟨_, rfl⟩ with
    ⟨hk, _⟩ | ⟨error, version, hf, _⟩
  · cases hl.symm.trans hk
  · cases hl.symm.trans hf

end camel_core.lifecycle
