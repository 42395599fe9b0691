-- The law of the recovered marks. The replay marks every route that it leaves,
-- and a registration may take the mark once instead of being a duplicate. The
-- marks stay true as long as no removal deletes a route that still has one,
-- because `persist_delete` leaves the mark behind.
import RustCamel.Lifecycle.OptimisticLocking

open Option

namespace camel_core.lifecycle

open camel_api Prog RouteRuntimeAggregate Handler InMemoryRuntimeStore

/-! ## Sessions -/

/-- A deletion that goes through finds no mark on its route. -/
def DeletesUnmarked {ρ : Type} (w : World ρ) : (c : PortCall) → Answer c → Prop
  | .persist_delete route_id _, .ok () => route_id ∉ w.store.inner.recovered
  | _, _ => True

/-- The calls in which every deletion finds its route unmarked. -/
def unmarkedSem {ρ : Type} (exec : RuntimeSem ρ) : Sem PortCall Answer (World ρ) :=
  fun c w r w' => portSem exec c w r w' ∧ DeletesUnmarked w c r

/-- The task registered the route, and said so. -/
def Registered (r : Outcome CamelError RuntimeCommandResult) (id : String) : Prop :=
  r = .ok (.RouteRegistered id)

/-- The task is a removal of the route, and it succeeded. -/
def Removed (task : RouteTask) (r : Outcome CamelError RuntimeCommandResult) (id : String) : Prop :=
  (∃ command_id causation_id, task = .command (.RemoveRoute id command_id causation_id)) ∧
    ∃ value, r = .ok value

/-- The sessions of a store, with the routes that were registered and not removed
since the last replay, and the routes that were registered or removed since then.
A recovery may come at any time, and only one that replays starts anew. -/
inductive Session {ρ : Type} (sem : Sem PortCall Answer (World ρ)) (deps : CommandDeps) :
    World ρ → Set String → Set String → Prop
  | start (journal : Option RedbRuntimeEventJournal) (runtime : ρ) :
      Session sem deps ⟨⟨.default, journal⟩, runtime⟩ ∅ ∅
  | recover (env : JournalEnv) {w : World ρ} {registered touched : Set String} :
      Session sem deps w registered touched → w.store.journal ≠ none →
      (w.store.recover_from_journal env).1 = .ok () →
      Session sem deps { w with store := (w.store.recover_from_journal env).2 } ∅ ∅
  | recover_nothing (env : JournalEnv) {w : World ρ} {registered touched : Set String} :
      Session sem deps w registered touched →
      w.store.journal = none ∨ (w.store.recover_from_journal env).1 ≠ .ok () →
      Session sem deps { w with store := (w.store.recover_from_journal env).2 } registered touched
  | run (task : RouteTask) {w w' : World ρ} {r : Outcome CamelError RuntimeCommandResult}
      {registered touched : Set String} :
      Session sem deps w registered touched → Runs sem (task.handler deps).run w r w' →
      Session sem deps w'
        {id | (id ∈ registered ∨ Registered r id) ∧ ¬ Removed task r id}
        {id | id ∈ touched ∨ Registered r id ∨ Removed task r id}

/-! ## The invariant of one task -/

variable {id : String} {env : JournalEnv}

section

variable {ρ : Type}

def Marked (store : InMemoryRuntimeStore) : Prop :=
  ∀ id ∈ store.inner.recovered, store.load id ≠ none

/-- What the belief of a handler says about the marks. -/
def Unmarked (store : InMemoryRuntimeStore) : Belief → Prop
  | .absent id => id ∉ store.inner.recovered
  | .adopted id _ => id ∉ store.inner.recovered
  | .deleted id => id ∉ store.inner.recovered
  | .wrote a => store.load a.route_id ≠ none ∧
      (a.state = .Registered → a.route_id ∉ store.inner.recovered)
  | _ => True

/-- A task that may delete the routes of `deletes` started at `store₀`, and here
is what it has left. -/
structure MarksKept (deletes : String → Prop) (store₀ : InMemoryRuntimeStore) (g : Belief)
    (w : World ρ) : Prop where
  marked : Marked w.store
  fewer : w.store.inner.recovered ⊆ store₀.inner.recovered
  present : ∀ id, ¬ deletes id → store₀.load id ≠ none → w.store.load id ≠ none
  unmarked : Unmarked w.store g

/-- An edge never leads back to `Registered`. -/
theorem Edge.not_registered {a a' : RouteRuntimeAggregate} {events : List RuntimeEvent}
    (h : Edge a events a') : a'.state ≠ .Registered := by
  cases h with
  | begin_start h hn =>
    obtain ⟨_, _, _, rfl⟩ := begin_start_ok h hn
    nofun
  | confirm_start h hn =>
    obtain ⟨_, _, rfl⟩ := confirm_start_ok h hn
    nofun
  | fail error h =>
    obtain ⟨_, _, rfl⟩ := fail_ok h
    nofun
  | command cmd h hc hn =>
    obtain ⟨state, he, _, rfl⟩ := apply_command_ok h
    rcases command_effect_cases he hc hn with ⟨_, rfl, _⟩ | ⟨e, rfl, _, hr, hs, _⟩
    · nofun
    · intro hst
      cases hst
      cases e <;> cases hs
      exact hr _ rfl

variable {exec : RuntimeSem ρ} {deletes : String → Prop} {store₀ : InMemoryRuntimeStore}

/-- An upsert keeps the marks where they are, and stores a new registration only
of a route that has none. -/
theorem unmarked_upsert {g : Belief} {store : InMemoryRuntimeStore} {a : RouteRuntimeAggregate}
    {version : Option Nat} {events : List RuntimeEvent}
    (hu : Upsert ⟨deletes, false⟩ g a version events) (hg : Unmarked store g)
    (hr : a.state = .Registered) : a.route_id ∉ store.inner.recovered := by
  cases hu with
  | register_absent | register_adopted => exact hg
  | change route_id he _ | follow_up he => exact absurd hr he.not_registered
  | reconcile _ _ hb => cases hb

theorem marksKept_call (g : Belief) (c : PortCall) (w : World ρ) (r : Answer c) (w' : World ρ)
    (hk : MarksKept deletes store₀ g w) (ho : Permitted ⟨deletes, false⟩ g c)
    (hs : unmarkedSem exec c w r w') : MarksKept deletes store₀ (learn g c r) w' := by
  obtain ⟨hs, hu⟩ := hs
  cases c with
  | load id =>
    obtain ⟨rfl, rfl⟩ := hs
    refine ⟨hk.marked, hk.fewer, hk.present, ?_⟩
    cases hl : w'.store.load id with
    | none => exact fun hma => hk.marked id hma hl
    | some a => trivial
  | take_recovered id =>
    obtain ⟨a, rfl⟩ := ho
    cases hs
    refine ⟨?_, ?_, hk.present, ?_⟩
    · intro id' hma
      exact hk.marked id' (Finset.mem_of_mem_erase hma)
    · exact (Finset.erase_subset _ _).trans hk.fewer
    · cases (w.store.take_recovered id).1
      · trivial
      · exact Finset.notMem_erase _ _
  | list_statuses =>
    obtain ⟨statuses, rfl, _, rfl⟩ := hs
    exact hk
  | force_unhealthy_for_route =>
    obtain ⟨rfl, rfl⟩ := hs
    exact hk
  | execution op =>
    obtain ⟨_, hst⟩ := hs
    obtain ⟨hm, hf, hp, hg⟩ := hk
    rw [← hst] at hm hf hp hg
    cases r <;> exact ⟨hm, hf, hp, hg⟩
  | persist_upsert a version projection events =>
    obtain ⟨rfl, hup⟩ := ho
    obtain ⟨env, hs⟩ := hs
    obtain ⟨hr, hw⟩ := Prod.mk.inj hs
    rcases hsp : w.store.persist_upsert env a version (project_from_aggregate a) events
      with ⟨result, store'⟩
    rw [hsp] at hr hw
    subst hr hw
    rcases persist_upsert_spec hsp with ⟨rfl, _, hi, _⟩ | ⟨⟨error, rfl⟩, rfl⟩
    · have hl : ∀ id, store'.load id ≠ none ↔ a.route_id = id ∨ w.store.load id ≠ none := by
        intro id
        rw [load, hi, lookup_upserted]
        split <;> simp [*, load]
      have hre : store'.inner.recovered = w.store.inner.recovered := by
        rw [hi]
        rfl
      refine ⟨?_, ?_, ?_, ?_⟩
      · intro id hma
        rw [hre] at hma
        exact (hl id).mpr (.inr (hk.marked id hma))
      · dsimp only
        rw [hre]
        exact hk.fewer
      · intro id hid hp
        exact (hl id).mpr (.inr (hk.present id hid hp))
      · refine ⟨(hl _).mpr (.inl rfl), ?_⟩
        dsimp only
        rw [hre]
        exact unmarked_upsert hup hk.unmarked
    · exact hk
  | persist_delete id events =>
    obtain ⟨hd, _⟩ := ho
    obtain ⟨env, hs⟩ := hs
    obtain ⟨hr, hw⟩ := Prod.mk.inj hs
    rcases hsp : w.store.persist_delete env id events with ⟨result, store'⟩
    rw [hsp] at hr hw
    subst hr hw
    rcases persist_delete_spec hsp with ⟨rfl, hi, _⟩ | ⟨⟨error, rfl⟩, rfl⟩
    · have hl : ∀ id', id ≠ id' → store'.load id' = w.store.load id' := by
        intro id' hn
        rw [load, hi, lookup_deleted, if_neg hn]
        rfl
      have hre : store'.inner.recovered = w.store.inner.recovered := by
        rw [hi]
        rfl
      refine ⟨?_, ?_, ?_, ?_⟩
      · intro id' hma
        rw [hre] at hma
        have hn : id ≠ id' := by
          rintro rfl
          exact hu hma
        rw [hl id' hn]
        exact hk.marked id' hma
      · dsimp only
        rw [hre]
        exact hk.fewer
      · intro id' hid hp
        have hn : id ≠ id' := by
          rintro rfl
          exact hid hd
        rw [hl id' hn]
        exact hk.present id' hid hp
      · change id ∉ store'.inner.recovered
        rw [hre]
        exact hu
    · exact hk
  | save | save_if_version | delete | upsert_status | remove_status | publish => exact ho.elim

/-! ## One task -/

def RouteTask.Deletes (task : RouteTask) (id : String) : Prop :=
  ∃ command_id causation_id, task = .command (.RemoveRoute id command_id causation_id)

theorem RouteTask.follows_own {deps : CommandDeps} (hu : deps.uow = true) (task : RouteTask) :
    wp (rule ⟨task.Deletes, false⟩) (task.handler deps).run Reports .unknown := by
  cases task with
  | command cmd =>
    apply execute_command_follows hu
    rintro id command_id causation_id rfl
    exact ⟨command_id, causation_id, rfl⟩
  | register_internal definition => exact handle_register_internal_follows hu definition

theorem marksKept_start {w : World ρ} (h : Marked w.store) : MarksKept deletes w.store .unknown w :=
  ⟨h, Finset.Subset.refl _, fun _ _ hp => hp, trivial⟩

variable {deps : CommandDeps} {w w' : World ρ} {r : Outcome CamelError RuntimeCommandResult}

theorem failed_removal_keeps (hu : deps.uow = true) (hm : Marked w.store)
    (hpr : w.store.load id ≠ none)
    (hru : Runs (unmarkedSem exec) (handle_remove deps id).run w r w')
    (hfa : ∃ f, r = .error f) : w'.store.load id ≠ none := by
  -- Up to its last call the removal keeps to the protocol without the power to delete.
  have hpa : ∀ {α : Type} {p : Prog PortCall Answer α} {g : Belief} {w₁ : World ρ}
      {Q : α → Belief → Prop} {Q' : α → World ρ → Prop}, wp (rule {}) p Q g →
      MarksKept (fun _ => False) w.store g w₁ → (∀ a g' w₂, Q a g' →
        MarksKept (fun _ => False) w.store g' w₂ → Q' a w₂) →
          wp (ofSem (unmarkedSem exec)) p Q' w₁ :=
    fun hp hI hQ => wp_ofSem_of_protocol marksKept_call hp hI hQ
  suffices h : wp (ofSem (unmarkedSem exec)) (handle_remove deps id).run
      (fun r w' => (∃ f, r = .error f) → w'.store.load id ≠ none) w from
    wp_ofSem_iff.mp h r w' hru hfa
  unfold handle_remove
  rw [wp_run_bind, wp_port]
  rintro _ w₁ ⟨⟨rfl, rfl⟩, _⟩
  obtain ⟨a, hl⟩ := ne_none_iff_exists'.mp hpr
  rw [hl]
  dsimp only [Except.mapError]
  rw [wp_of_outcome_bind]
  split
  · rw [wp_run_bind]
    refine hpa (with_execution_follows deps (remove_runtime_route_with_recovery_follows id))
      (g := .loaded id a) ⟨hm, Finset.Subset.refl _, fun _ _ h => h, trivial⟩ ?_
    rintro _ _ w₂ ⟨rfl | ⟨e | _, rfl⟩, rfl⟩ hk
    · exact fun _ => hk.present id (fun h => h) hpr
    · exact hpa (Q := fun _ _ => True)
        (compensate_then_err hu (.inl ⟨id, rfl⟩) _ _ fun _ _ => trivial) hk
        fun _ _ _ _ hk' _ => hk'.present id (fun h => h) hpr
    · dsimp only
      unfold finish_remove
      rw [wp_of_outcome_bind]
      split
      · dsimp only
        rw [if_pos hu, wp_run_bind, wp_port]
        rintro result w₃ ⟨⟨env, hs⟩, _⟩
        obtain ⟨hr, hw⟩ := Prod.mk.inj hs
        cases result with
        | ok _ => exact fun ⟨f, hf⟩ => nomatch hf
        | error e =>
          rcases hsp : w₂.store.persist_delete env id _ with ⟨result', store'⟩
          rw [hsp] at hr hw
          subst hr hw
          rcases persist_delete_spec hsp with ⟨⟨⟩, _⟩ | ⟨_, rfl⟩
          exact fun _ => hk.present id (fun h => h) hpr
      all_goals exact fun _ => hk.present id (fun h => h) hpr
  all_goals exact fun _ => hpr

theorem task_keeps_marks (hu : deps.uow = true) (task : RouteTask) (hm : Marked w.store)
    (hru : Runs (unmarkedSem exec) (task.handler deps).run w r w') :
    Marked w'.store ∧ w'.store.inner.recovered ⊆ w.store.inner.recovered ∧
      (∀ id, w.store.load id ≠ none → ¬ Removed task r id → w'.store.load id ≠ none) ∧
      (∀ id, Registered r id → w'.store.load id ≠ none ∧ id ∉ w'.store.inner.recovered) ∧
      ∀ id, Removed task r id → id ∉ w'.store.inner.recovered := by
  obtain ⟨g, hr, hk⟩ :=
    runs_of_protocol marksKept_call (task.follows_own hu) (marksKept_start hm) hru
  refine ⟨hk.marked, hk.fewer, ?_, ?_, ?_⟩
  · intro id hp hnot
    by_cases hde : task.Deletes id
    · obtain ⟨command_id, causation_id, rfl⟩ := hde
      apply failed_removal_keeps hu hm hp hru
      cases r with
      | error f => exact ⟨f, rfl⟩
      | ok value => exact absurd ⟨⟨_, _, rfl⟩, value, rfl⟩ hnot
    · exact hk.present id hde hp
  · intro id hre
    have hw := hr id hre
    have hun := hk.unmarked
    rw [hw] at hun
    exact ⟨hun.1, hun.2 rfl⟩
  · rintro id ⟨⟨command_id, causation_id, rfl⟩, value, rfl⟩
    have hd : (⟨fun id' => id' = id, false⟩ : Powers).delete id := rfl
    obtain ⟨g, hrem, hk⟩ := runs_of_protocol marksKept_call (handle_remove_follows hu hd)
      (marksKept_start hm) hru
    rcases hrem with ⟨f, ⟨⟩⟩ | ⟨_, rfl⟩
    exact hk.unmarked

/-! ## Whole sessions -/

/-- What a session keeps. -/
structure SessionInv (w : World ρ) (registered touched : Set String) : Prop where
  marked : Marked w.store
  untouched : ∀ id ∈ touched, id ∉ w.store.inner.recovered
  registered : ∀ id ∈ registered, w.store.load id ≠ none ∧ id ∈ touched

theorem sessionInv_recover (hj : w.store.journal ≠ none)
    (ho : (w.store.recover_from_journal env).1 = .ok ()) :
    SessionInv { w with store := (w.store.recover_from_journal env).2 } ∅ ∅ := by
  refine ⟨?_, fun _ h => h.elim, fun _ h => h.elim⟩
  obtain ⟨journal, hj⟩ := ne_none_iff_exists'.mp hj
  unfold recover_from_journal at ho ⊢
  rw [hj] at ho ⊢
  dsimp only at ho ⊢
  cases hf : env.failure with
  | some error =>
    rw [hf] at ho
    cases ho
  | none =>
    -- The replay marks exactly the keys of its routes.
    intro id hm
    obtain ⟨a, ha⟩ := Finmap.mem_iff.mp (Finmap.mem_keys.mp hm)
    rw [load, ha]
    intro h
    cases h

theorem recover_nothing {store : InMemoryRuntimeStore}
    (h : store.journal = none ∨ (store.recover_from_journal env).1 ≠ .ok ()) :
    (store.recover_from_journal env).2 = store := by
  unfold recover_from_journal at h ⊢
  cases hj : store.journal with
  | none => rfl
  | some journal =>
    dsimp only
    cases hf : env.failure with
    | some error => rfl
    | none =>
      rw [hj] at h
      simp [hf] at h

theorem sessionInv_run (hu : deps.uow = true) {registered touched : Set String}
    (hs : Session (unmarkedSem exec) deps w registered touched) :
    SessionInv w registered touched := by
  induction hs with
  | start journal runtime =>
    refine ⟨?_, fun _ h => h.elim, fun _ h => h.elim⟩
    intro id hma
    exact absurd hma (Finset.notMem_empty id)
  | recover env _ hj ho _ => exact sessionInv_recover hj ho
  | recover_nothing env _ hn ih =>
    rw [recover_nothing hn]
    exact ih
  | @run task w w' r registered touched _ hru ih =>
    obtain ⟨hm, hf, hp, hreg, hrem⟩ := task_keeps_marks hu task ih.marked hru
    refine ⟨hm, ?_, ?_⟩
    · rintro id (ht | hr | hre)
      · exact fun hma => ih.untouched id ht (hf hma)
      · exact (hreg id hr).2
      · exact hrem id hre
    · rintro id ⟨hr | hr, hnot⟩
      · exact ⟨hp id (ih.registered id hr).1 hnot, .inl (ih.registered id hr).2⟩
      · exact ⟨(hreg id hr).1, .inr (.inl hr)⟩

/-- The task is a registration of the route that reaches the check for
duplicates. -/
def RouteTask.Registers (id : String) : RouteTask → Prop
  | .command (.RegisterRoute spec _ _) => spec.validate_contract = .ok () ∧ spec.route_id = id
  | .register_internal definition => definition.route_id = id
  | _ => False

/-- The marks are on routes that are there and that were neither registered nor
removed since the last replay, and a route that was registered since then is not
registered again. -/
structure TrueMarks (exec : RuntimeSem ρ) (deps : CommandDeps) (w : World ρ)
    (registered touched : Set String) : Prop where
  present : ∀ id ∈ w.store.inner.recovered, w.store.load id ≠ none
  untouched : ∀ id ∈ w.store.inner.recovered, id ∉ touched
  duplicate : ∀ (task : RouteTask) (id : String) (r : Outcome CamelError RuntimeCommandResult)
    (w' : World ρ), id ∈ registered → task.Registers id →
    Runs (portSem exec) (task.handler deps).run w r w' →
    r = .error (.err (.of_domain (.AlreadyExists id)))

theorem adopt_check_rejects (hp : w.store.load id ≠ none)
    (hm : id ∉ w.store.inner.recovered) :
    wp (ofSem (portSem exec)) (adopt_check id).run
      (fun r _ => r = .error (.err (.of_domain (.AlreadyExists id)))) w := by
  unfold adopt_check
  rw [wp_run_bind, wp_port]
  rintro _ w₁ ⟨rfl, rfl⟩
  obtain ⟨a, hl⟩ := ne_none_iff_exists'.mp hp
  rw [hl]
  dsimp only [Except.mapError]
  rw [wp_run_bind, wp_port]
  rintro _ w₂ hs
  obtain ⟨rfl, -⟩ := Prod.mk.inj hs
  simp only [take_recovered, hm, decide_false, Except.mapError]
  rfl

theorem registered_route_is_a_duplicate {task : RouteTask} (ht : task.Registers id)
    (hp : w.store.load id ≠ none) (hm : id ∉ w.store.inner.recovered)
    (hr : Runs (portSem exec) (task.handler deps).run w r w') :
    r = .error (.err (.of_domain (.AlreadyExists id))) := by
  have hc : ∀ f : Unit → Handler RuntimeCommandResult,
      wp (ofSem (portSem exec)) (adopt_check id >>= f).run
        (fun r _ => r = .error (.err (.of_domain (.AlreadyExists id)))) w := by
    intro f
    rw [wp_run_bind]
    refine wp_mono (mono_ofSem _) ?_ (adopt_check_rejects hp hm)
    rintro _ _ rfl
    rfl
  suffices h : wp (ofSem (portSem exec)) (task.handler deps).run
      (fun r _ => r = .error (.err (.of_domain (.AlreadyExists id)))) w from
    wp_ofSem_iff.mp h r w' hr
  cases task with
  | register_internal definition =>
    cases ht
    exact hc _
  | command cmd =>
    cases cmd with
    | RegisterRoute spec command_id causation_id =>
      obtain ⟨ha, rfl⟩ := ht
      unfold RouteTask.handler execute_command handle_register
      dsimp only
      rw [wp_of_result_bind, ha]
      exact hc _
    | _ => exact ht.elim

/-- In every session whose deletions find their routes unmarked, the marks are
true in every state. -/
theorem marks_are_true_without_marked_deletions (hu : deps.uow = true)
    {registered touched : Set String}
    (hsession : Session (unmarkedSem exec) deps w registered touched) :
    TrueMarks exec deps w registered touched := by
  have hinv := sessionInv_run hu hsession
  refine ⟨hinv.marked, ?_, ?_⟩
  · intro id hm ht
    exact hinv.untouched id ht hm
  · intro task id r w' hr hta hru
    obtain ⟨hp, ht⟩ := hinv.registered id hr
    exact registered_route_is_a_duplicate hta hp (hinv.untouched id ht) hru

end

/-! ## A removal of a recovered route -/

def registeredJournal : RedbRuntimeEventJournal :=
  ((RedbRuntimeEventJournal.new 10000).append_batch {} [.RouteRegistered "r"]).2

/-- The world after the replay of that journal. -/
def recoveredWorld : World Unit :=
  ⟨((with_journal registeredJournal).recover_from_journal {}).2, ()⟩

def registerTimer : RouteTask := .command (.RegisterRoute timerSpec "1" none)

def removeTimer : RouteTask := .command (.RemoveRoute "r" "2" none)

/-- The task runs to its end, and nothing fails. -/
def ranTask (task : RouteTask) (w : World Unit) :
    Outcome CamelError RuntimeCommandResult × World Unit :=
  eval (portFn {}) (task.handler {}).run w

theorem runs_ranTask (task : RouteTask) (w : World Unit) :
    Runs (portSem fun _ _ _ _ => True) (task.handler {}).run w (ranTask task w).1
      (ranTask task w).2 :=
  runs_eval (portSem_portFn fun _ _ => trivial) _ _

theorem session_recoveredWorld (sem : Sem PortCall Answer (World Unit)) :
    Session sem {} recoveredWorld ∅ ∅ :=
  .recover {} (.start (some registeredJournal) ()) nofun rfl

/-- A recovered route is removed, registered, and registered once more. -/
theorem a_removed_recovered_route_is_registered_twice :
    ¬ ∀ (w : World Unit) (registered touched : Set String),
      Session (portSem fun _ _ _ _ => True) {} w registered touched →
      TrueMarks (fun _ _ _ _ => True) {} w registered touched := by
  intro ha
  have hr := Session.run removeTimer (session_recoveredWorld _) (runs_ranTask _ _)
  have hre := Session.run registerTimer hr (runs_ranTask _ _)
  have hnot : ¬ Removed registerTimer (ranTask registerTimer (ranTask removeTimer
      recoveredWorld).2).1 "r" := by
    rintro ⟨⟨_, _, ⟨⟩⟩, _⟩
  have hd := (ha _ _ _ hre).duplicate registerTimer "r" _ _
    ⟨.inr rfl, hnot⟩ ⟨rfl, rfl⟩ (runs_ranTask _ _)
  cases hd

theorem runs_adoption :
    Runs (unmarkedSem fun _ _ _ _ => True) (registerTimer.handler {}).run recoveredWorld
      (.ok (.RouteRegistered "r")) (ranTask registerTimer recoveredWorld).2 := by
  refine ⟨.ok (some (new "r")), recoveredWorld, ⟨⟨rfl, rfl⟩, trivial⟩, ?_⟩
  refine ⟨.ok true, _, ⟨rfl, trivial⟩, ?_⟩
  refine ⟨.ok (), _, ⟨⟨{}, rfl⟩, trivial⟩, ?_⟩
  exact ⟨.ok (), _, ⟨⟨trivial, rfl⟩, trivial⟩, rfl, rfl⟩

/-- The adopted route is not registered again. -/
theorem an_adopted_route_is_registered_once :
    ∃ registered touched, "r" ∈ registered ∧
      Session (unmarkedSem fun _ _ _ _ => True) {} (ranTask registerTimer recoveredWorld).2
        registered touched ∧
      ∀ r w', Runs (portSem fun _ _ _ _ => True) (registerTimer.handler {}).run
          (ranTask registerTimer recoveredWorld).2 r w' →
        r = .error (.err (.of_domain (.AlreadyExists "r"))) := by
  have hs := Session.run registerTimer (session_recoveredWorld _) runs_adoption
  have hnot : ¬ Removed registerTimer (.ok (.RouteRegistered "r")) "r" := by
    rintro ⟨⟨_, _, ⟨⟩⟩, _⟩
  refine ⟨_, _, ?_, hs, ?_⟩
  · exact ⟨.inr rfl, hnot⟩
  · intro r w' ha
    have ht := marks_are_true_without_marked_deletions rfl hs
    exact ht.duplicate registerTimer "r" r w' ⟨.inr rfl, hnot⟩ ⟨rfl, rfl⟩ ha

end camel_core.lifecycle
