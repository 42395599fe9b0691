-- The law of registrations that race for one route. The internal registration
-- installs the route in the runtime before it stores, so only the first one
-- stores. The public registration stores first, and a late one writes over the
-- winner.
import RustCamel.Lifecycle.OptimisticLocking

namespace camel_core.lifecycle

open camel_api Prog RouteRuntimeAggregate Handler

/-! ## Registrations and the runtime that they race for -/

/-- A registration that reaches the store: a register command whose spec passes
the contract, or a definition from inside. -/
inductive Registration where
  | command (spec : CanonicalRouteSpec) (accepted : spec.validate_contract = .ok ())
  | internal (definition : RouteDefinition)

def Registration.route_id : Registration → String
  | .command spec _ => spec.route_id
  | .internal definition => definition.route_id

def Registration.handler (deps : CommandDeps) : Registration → Handler RuntimeCommandResult
  | .command spec _ => handle_register deps spec
  | .internal definition => handle_register_internal deps definition

def Registration.Internal : Registration → Prop
  | .command _ _ => False
  | .internal _ => True

/-- A runtime that accepts only the first caller of an id, until the route is
removed from it. -/
def firstCaller : RuntimeSem (Finset String)
  | .register_route definition, installed, r, installed' =>
    (definition.route_id ∉ installed ∧ r = .ok () ∧
        installed' = insert definition.route_id installed) ∨
      (definition.route_id ∈ installed ∧ (∃ e, r = .error e) ∧ installed' = installed)
  | .remove_route route_id, installed, _, installed' =>
    installed' = installed ∨ installed' = installed.erase route_id
  | _, installed, _, installed' => installed' = installed

/-- No append of the journal fails: an upsert fails only on its version. -/
def AppendSucceeds {ρ : Type} (w : World ρ) : (c : PortCall) → Answer c → Prop
  | .persist_upsert a version _ _, .error _ =>
    ∃ n, version = some n ∧ w.store.check_version a.route_id n ≠ .ok ()
  | _, _ => True

def raceSem : Sem PortCall Answer (World (Finset String)) :=
  fun c w r w' => portSem firstCaller c w r w' ∧ AppendSucceeds w c r

/-! ## What exclusive means -/

variable {deps : CommandDeps} {id : String} {w w₀ : World (Finset String)} {health_registry : Bool}
  {r : Registration}

section

variable {ι : Type} [DecidableEq ι] {tasks : ι → Registration}

abbrev RaceStep (ι : Type) := TaskStep ι (Finset String)

/-- The step leaves the aggregate and the status of the route, and the journal. -/
def Untouched (id : String) (e : RaceStep ι) : Prop :=
  e.after.store.load id = e.before.store.load id ∧
    e.after.store.inner.statuses.lookup id = e.before.store.inner.statuses.lookup id ∧
    e.after.store.journal = e.before.store.journal

/-- The registration returned `RouteRegistered`. -/
def Won (id : String) (p : Prog PortCall Answer (Outcome CamelError RuntimeCommandResult)) : Prop :=
  p = .done (.ok (.RouteRegistered id))

/-- At most one registration wins, one wins when all have returned, and once the
winner has stored its route no step of another registration touches it. -/
structure Exclusive (id : String) (h : List (RaceStep ι))
    (P : ι → Prog PortCall Answer (Outcome CamelError RuntimeCommandResult)) : Prop where
  at_most_one : ∀ i j, Won id (P i) → Won id (P j) → i = j
  one_wins : (∀ i, ∃ r, P i = .done r) → ∃ i, Won id (P i)
  untouched : Interleaves.EachStep (fun e h => ∀ j, j ≠ e.task → Won id (P j) →
    (∃ a, beliefOf h j = .wrote a) → Untouched id e) h

/-! ## The phases of an internal registration -/

inductive Phase where
  | fresh
  | found
  | clear
  | installed
  | stored
  | refused
  | unstored
  | broken

def phaseAfter (g : Phase) : (c : PortCall) → Answer c → Phase
  | .load _, .ok none => .clear
  | .load _, .ok (some _) => .found
  | .load _, .error _ => .broken
  | .take_recovered _, .ok true => .clear
  | .take_recovered _, .ok false => .refused
  | .take_recovered _, .error _ => .broken
  | .execution (.register_route _), .ok () => .installed
  | .execution (.register_route _), .error _ => .refused
  | .persist_upsert _ _ _ _, .ok () => .stored
  | .persist_upsert _ _ _ _, .error _ => .unstored
  | _, _ => g

def InPhase (id : String) (g : Phase) : PortCall → Prop
  | .load route_id => g = .fresh ∧ route_id = id
  | .take_recovered _ => g = .found
  | .execution (.register_route definition) => g = .clear ∧ definition.route_id = id
  | .persist_upsert _ version _ _ => g = .installed ∧ version = none
  | .execution (.remove_route _) => g = .unstored
  | _ => False

/-- How a registration ends. -/
def EndsIn (id : String) (r : Outcome CamelError RuntimeCommandResult) (g : Phase) : Prop :=
  (r = .ok (.RouteRegistered id) ∧ g = .stored) ∨
    ((∃ f, r = .error f) ∧ (g = .refused ∨ g = .unstored ∨ g = .broken))

abbrev phaseRule (id : String) : Rule PortCall Answer Phase := ofProtocol (InPhase id) phaseAfter

theorem store_installed_phases (hu : deps.uow = true) (id : String) :
    wp (phaseRule id) (store_installed deps id).run (EndsIn id) .installed := by
  unfold store_installed persist_internal rollback_registration
  dsimp only [register]
  rw [if_pos hu, wp_run_bind, wp_result, wp_port]
  refine ⟨⟨rfl, rfl⟩, ?_⟩
  rintro (e | _)
  · dsimp only [Except.mapError]
    split
    · rw [wp_run_bind, wp_attempt]
      refine ⟨rfl, ?_⟩
      rintro (e | _)
      all_goals exact .inr ⟨⟨_, rfl⟩, .inr (.inl rfl)⟩
    · exact .inr ⟨⟨_, rfl⟩, .inr (.inl rfl)⟩
  · exact .inl ⟨rfl, rfl⟩

theorem handle_register_internal_phases (hu : deps.uow = true) (he : deps.execution = true)
    (definition : RouteDefinition) :
    wp (phaseRule definition.route_id) (handle_register_internal deps definition).run
      (EndsIn definition.route_id) .fresh := by
  unfold handle_register_internal adopt_check
  -- From a clear check on, both ways of getting there go on alike.
  have hc : wp (phaseRule definition.route_id) (do
      if deps.execution then port (.execution (.register_route definition))
      store_installed deps definition.route_id : Handler RuntimeCommandResult).run
      (EndsIn definition.route_id) .clear := by
    rw [if_pos he, wp_run_bind, wp_port]
    refine ⟨⟨rfl, rfl⟩, ?_⟩
    rintro (e | _)
    · exact .inr ⟨⟨_, rfl⟩, .inl rfl⟩
    · exact store_installed_phases hu _
  rw [wp_run_bind, wp_run_bind, wp_port]
  refine ⟨⟨rfl, rfl⟩, ?_⟩
  rintro (e | _ | a)
  · exact .inr ⟨⟨_, rfl⟩, .inr (.inr rfl)⟩
  · exact hc
  · dsimp only [Except.mapError]
    rw [wp_run_bind, wp_port]
    refine ⟨rfl, ?_⟩
    rintro (e | _ | _)
    · exact .inr ⟨⟨_, rfl⟩, .inr (.inr rfl)⟩
    · exact .inr ⟨⟨_, rfl⟩, .inl rfl⟩
    · exact hc

/-! ## Internal registrations alone -/

def phaseOf (h : List (RaceStep ι)) (i : ι) : Phase :=
  Interleaves.ghost phaseAfter (fun _ => .fresh) h i

/-- The runtime has the route for this registration. -/
def Owns (g : Phase) : Prop := g = .installed ∨ g = .stored

/-- The route in the runtime has one owner, who alone touches the store. -/
structure RaceInv (id : String) (h : List (RaceStep ι)) (w : World (Finset String)) : Prop where
  owner : id ∈ w.runtime ↔ ∃ i, Owns (phaseOf h i)
  unique : ∀ i j, Owns (phaseOf h i) → Owns (phaseOf h j) → i = j
  sound : ∀ i, phaseOf h i ≠ .unstored ∧ phaseOf h i ≠ .broken
  present : w.store.load id ≠ none → id ∈ w.runtime
  behind : ∀ i, phaseOf h i = .found ∨ phaseOf h i = .refused → id ∈ w.runtime
  touched : ∀ e ∈ h, ¬ Untouched id e → phaseOf h e.task = .stored

theorem phaseOf_same (e : RaceStep ι) (h : List (RaceStep ι)) :
    phaseOf (e :: h) e.task = phaseAfter (phaseOf h e.task) e.call e.answer :=
  Interleaves.ghost_same _ _ _ _ _ _ _ _

variable {e : RaceStep ι} {i : ι}

theorem phaseOf_other (h : List (RaceStep ι)) (hi : i ≠ e.task) :
    phaseOf (e :: h) i = phaseOf h i :=
  Interleaves.ghost_other _ _ _ _ _ _ _ (Ne.symm hi)

variable {h : List (RaceStep ι)}
  {P : ι → Prog PortCall Answer (Outcome CamelError RuntimeCommandResult)}

section

variable (hinv : RaceInv id h e.before) (hrunning : phaseOf h e.task ≠ .stored)

include hinv hrunning

theorem raceInv_step
    (ho : id ∈ e.after.runtime ↔
      Owns (phaseOf (e :: h) e.task) ∨ ∃ j, j ≠ e.task ∧ Owns (phaseOf h j))
    (hu : Owns (phaseOf (e :: h) e.task) → ∀ j, j ≠ e.task → ¬ Owns (phaseOf h j))
    (hso : phaseOf (e :: h) e.task ≠ .unstored ∧ phaseOf (e :: h) e.task ≠ .broken)
    (hp : e.after.store.load id ≠ none → id ∈ e.after.runtime)
    (hb : phaseOf (e :: h) e.task = .found ∨ phaseOf (e :: h) e.task = .refused →
      id ∈ e.after.runtime) (hkee : id ∈ e.before.runtime → id ∈ e.after.runtime)
    (hto : Untouched id e ∨ phaseOf (e :: h) e.task = .stored) :
    RaceInv id (e :: h) e.after := by
  refine ⟨?_, ?_, ?_, hp, ?_, ?_⟩
  · rw [ho]
    constructor
    · rintro (hi | ⟨j, hj, how⟩)
      · exact ⟨e.task, hi⟩
      · exact ⟨j, by rwa [phaseOf_other h hj]⟩
    · rintro ⟨j, how⟩
      by_cases hj : j = e.task
      · exact .inl (hj ▸ how)
      · exact .inr ⟨j, hj, by rwa [phaseOf_other h hj] at how⟩
  · intro j k hj hk
    by_cases hje : j = e.task
    · by_cases hke : k = e.task
      · rw [hje, hke]
      · rw [phaseOf_other h hke] at hk
        exact absurd hk (hu (hje ▸ hj) k hke)
    · rw [phaseOf_other h hje] at hj
      by_cases hke : k = e.task
      · exact absurd hj (hu (hke ▸ hk) j hje)
      · rw [phaseOf_other h hke] at hk
        exact hinv.unique j k hj hk
  · intro j
    by_cases hj : j = e.task
    · rw [hj]
      exact hso
    · rw [phaseOf_other h hj]
      exact hinv.sound j
  · intro j hf
    by_cases hj : j = e.task
    · exact hb (hj ▸ hf)
    · rw [phaseOf_other h hj] at hf
      exact hkee (hinv.behind j hf)
  · intro e' he' ht
    rcases List.mem_cons.mp he' with rfl | he'
    · exact hto.resolve_left ht
    · have hs := hinv.touched e' he' ht
      -- A registration that has stored makes no more calls.
      have hn : e'.task ≠ e.task := fun heq => hrunning (heq ▸ hs)
      rw [phaseOf_other h hn]
      exact hs

theorem raceInv_calm (hr : e.after.runtime = e.before.runtime)
    (hs : ¬ Owns (phaseOf (e :: h) e.task) ∧ ¬ Owns (phaseOf h e.task))
    (hso : phaseOf (e :: h) e.task ≠ .unstored ∧ phaseOf (e :: h) e.task ≠ .broken)
    (hb : phaseOf (e :: h) e.task = .found ∨ phaseOf (e :: h) e.task = .refused →
      id ∈ e.before.runtime) (hl : e.after.store.load id = e.before.store.load id)
    (ht : Untouched id e) : RaceInv id (e :: h) e.after := by
  refine raceInv_step hinv hrunning ?_ (fun ho => absurd ho hs.1) hso ?_ ?_ ?_
    (.inl ht)
  · rw [hr, hinv.owner]
    constructor
    · rintro ⟨j, ho⟩
      exact .inr ⟨j, fun hj => hs.2 (hj ▸ ho), ho⟩
    · rintro (ho | ⟨j, _, ho⟩)
      · exact absurd ho hs.1
      · exact ⟨j, ho⟩
  · rw [hl, hr]
    exact hinv.present
  · rw [hr]
    exact hb
  · rw [hr]
    exact fun hm => hm

end

theorem raceInv_call (c : PortCall) (r : Answer c) {w' : World (Finset String)}
    (hinv : RaceInv id h w) (hok : InPhase id (phaseOf h i) c) (hs : raceSem c w r w') :
    RaceInv id (⟨i, c, r, w, w'⟩ :: h) w' := by
  obtain ⟨hs, ha⟩ := hs
  have hp : phaseOf ((⟨i, c, r, w, w'⟩ : RaceStep ι) :: h) i = phaseAfter (phaseOf h i) c r :=
    phaseOf_same ⟨i, c, r, w, w'⟩ h
  cases c with
  | load route_id =>
    obtain ⟨hf, rfl⟩ := hok
    obtain ⟨rfl, rfl⟩ := hs
    cases hl : w'.store.load route_id with
    | none =>
      rw [hl] at hp
      refine raceInv_calm hinv ?_ rfl ⟨?_, ?_⟩ ⟨?_, ?_⟩ ?_ rfl ⟨rfl, rfl, rfl⟩ <;>
        simp [hp, hf, Owns, phaseAfter]
    | some a =>
      rw [hl] at hp
      have hm : route_id ∈ w'.runtime := hinv.present (by simp [hl])
      refine raceInv_calm hinv ?_ rfl ⟨?_, ?_⟩ ⟨?_, ?_⟩ (fun _ => hm) rfl ⟨rfl, rfl, rfl⟩ <;>
        simp [hp, hf, Owns, phaseAfter]
  | take_recovered route_id =>
    have hfo : phaseOf h i = .found := hok
    have hm : id ∈ w.runtime := hinv.behind i (.inl hfo)
    cases hs
    generalize hb : (w.store.take_recovered route_id).1 = b at hp
    cases b <;>
      refine raceInv_calm hinv ?_ rfl ⟨?_, ?_⟩ ⟨?_, ?_⟩ (fun _ => hm) rfl ⟨rfl, rfl, rfl⟩ <;>
        simp [hp, hfo, Owns, phaseAfter]
  | persist_upsert a version projection events =>
    obtain ⟨hi, rfl⟩ := hok
    have how : Owns (phaseOf h i) := .inl hi
    have hm : id ∈ w.runtime := hinv.owner.mpr ⟨i, how⟩
    obtain ⟨env, hs⟩ := hs
    obtain ⟨hr, rfl⟩ := Prod.mk.inj hs
    cases r with
    | error e =>
      obtain ⟨n, hn, _⟩ := ha
      cases hn
    | ok _ =>
      have hst : phaseOf ((⟨i, .persist_upsert a none projection events, .ok (), w, _⟩ :
          RaceStep ι) :: h) i = .stored := hp
      refine raceInv_step hinv ?_ ?_ ?_ ⟨?_, ?_⟩ (fun _ => hm) (fun _ => hm) (fun _ => hm)
        (.inr hst)
      · simp [hi]
      · exact ⟨fun _ => .inl (.inr hst), fun _ => hm⟩
      · intro _ j hj ho
        exact hj (hinv.unique j i ho how)
      all_goals simp [hst]
  | execution op =>
    obtain ⟨he, hsto⟩ := hs
    have hu : Untouched id (⟨i, .execution op, r, w, w'⟩ : RaceStep ι) := by
      refine ⟨?_, ?_, ?_⟩ <;> dsimp only <;> rw [hsto]
    have hl : w'.store.load id = w.store.load id := by rw [hsto]
    cases op with
    | register_route definition =>
      obtain ⟨hc, rfl⟩ := hok
      rcases he with ⟨hne, rfl, hin⟩ | ⟨hm, ⟨e, rfl⟩, hru⟩
      · have hno : ∀ j, ¬ Owns (phaseOf h j) := fun j how => hne (hinv.owner.mpr ⟨j, how⟩)
        have hm : definition.route_id ∈ w'.runtime := by
          rw [hin]
          exact Finset.mem_insert_self _ _
        refine raceInv_step hinv ?_ ?_ (fun _ j _ => hno j) ⟨?_, ?_⟩ (fun _ => hm)
          (fun _ => hm) (fun _ => hm) (.inl hu)
        · simp [hc]
        · exact ⟨fun _ => .inl (.inl hp), fun _ => hm⟩
        all_goals simp [hp, phaseAfter]
      · refine raceInv_calm hinv ?_ hru ⟨?_, ?_⟩ ⟨?_, ?_⟩ (fun _ => hm) hl hu <;>
          simp [hp, hc, Owns, phaseAfter]
    | remove_route route_id => exact absurd hok (hinv.sound i).1
    | start_route | stop_route | suspend_route | resume_route | reload_route => exact hok.elim
  | save | save_if_version | delete | upsert_status | remove_status | publish | list_statuses
  | persist_delete | force_unhealthy_for_route => exact hok.elim

theorem raceInv_start (ha : w₀.store.load id = none) (hfr : id ∉ w₀.runtime) :
    RaceInv id ([] : List (RaceStep ι)) w₀ := by
  have hf : ∀ i : ι, phaseOf ([] : List (RaceStep ι)) i = .fresh := fun _ => rfl
  refine ⟨?_, ?_, ?_, fun hl => absurd ha hl, ?_, ?_⟩
  · simp [hfr, hf, Owns]
  · intro i j hi
    simp [hf, Owns] at hi
  · intro i
    simp [hf]
  · intro i hi
    simp [hf] at hi
  · intro e he
    cases he

abbrev racing (health_registry : Bool) (tasks : ι → Registration) :
    ι → Prog PortCall Answer (Outcome CamelError RuntimeCommandResult) :=
  fun i => ((tasks i).handler ⟨true, true, health_registry⟩).run

theorem raceInv_run
    (hp : ∀ i, wp (phaseRule id) (racing health_registry tasks i) (EndsIn id) .fresh)
    (ha : w₀.store.load id = none) (hfr : id ∉ w₀.runtime)
    (hr : Interleaves raceSem (racing health_registry tasks) w₀ h P w) : RaceInv id h w := by
  induction hr with
  | start => exact raceInv_start ha hfr
  | @step h P w w' i c k r hr hP hs ih =>
    have hf := Interleaves.follows hp hr i
    rw [hP] at hf
    exact raceInv_call c r ih hf.1 hs

omit [DecidableEq ι] in
theorem internal_phases (health_registry : Bool) (hid : ∀ i, (tasks i).route_id = id)
    (hin : ∀ i, (tasks i).Internal) (i : ι) :
    wp (phaseRule id) (racing health_registry tasks i) (EndsIn id) .fresh := by
  have hi := hin i
  have hidi := hid i
  unfold racing
  cases ht : tasks i with
  | command spec accepted =>
    rw [ht] at hi
    exact hi.elim
  | internal definition =>
    rw [ht] at hidi
    rw [← hidi]
    exact handle_register_internal_phases rfl rfl definition

theorem exclusive_of_internal [Nonempty ι] (hid : ∀ i, (tasks i).route_id = id)
    (hin : ∀ i, (tasks i).Internal) (ha : w₀.store.load id = none)
    (hfr : id ∉ w₀.runtime) (hru : Interleaves raceSem (racing health_registry tasks) w₀ h P w) :
    Exclusive id h P := by
  have hp := internal_phases health_registry hid hin
  have hinv := raceInv_run hp ha hfr hru
  have hen : ∀ i r, P i = .done r → EndsIn id r (phaseOf h i) := by
    intro i r hP
    have hfo := Interleaves.follows hp hru i
    rw [hP] at hfo
    exact hfo
  have hw : ∀ i, Won id (P i) → phaseOf h i = .stored := by
    intro i hi
    rcases hen i _ hi with ⟨_, hs⟩ | ⟨⟨f, hf⟩, _⟩
    · exact hs
    · cases hf
  refine ⟨?_, ?_, ?_⟩
  · intro i j hi hj
    exact hinv.unique i j (.inr (hw i hi)) (.inr (hw j hj))
  · intro hd
    obtain ⟨i⟩ := ‹Nonempty ι›
    obtain ⟨r, hr⟩ := hd i
    rcases hen i r hr with ⟨rfl, _⟩ | ⟨_, hre | hb | hb⟩
    · exact ⟨i, hr⟩
    · -- It was refused because another one owns the route, and the owner wins.
      obtain ⟨j, ho⟩ := hinv.owner.mp (hinv.behind i (.inr hre))
      obtain ⟨r', hr'⟩ := hd j
      refine ⟨j, ?_⟩
      rcases hen j r' hr' with ⟨rfl, _⟩ | ⟨_, hb⟩
      · exact hr'
      · rcases ho with ho | ho <;> rw [ho] at hb <;> simp at hb
    · exact absurd hb (hinv.sound i).1
    · exact absurd hb (hinv.sound i).2
  · apply Interleaves.EachStep.of_forall
    intro e he h' j hj hjw _
    by_contra ht
    have hs := hinv.touched e he ht
    exact hj (hinv.unique j e.task (.inr (hw j hjw)) (.inr hs))

/-! ## A register command that comes late -/

/-- The registration reaches the runtime when it runs alone. A command does not
when its spec has no route definition. -/
def Registration.Installs : Registration → Prop
  | .command spec _ => routeConverts spec = true
  | .internal _ => True

theorem installs_of_internal (h : r.Internal) : r.Installs := by
  cases r with
  | command spec accepted => exact h.elim
  | internal definition => exact trivial

/-- A new store over a new journal, and a runtime with no routes. -/
def freshWorld : World (Finset String) := ⟨.with_journal (.new 10000), ∅⟩

def firstStored (id : String) : InMemoryRuntimeStore :=
  ((InMemoryRuntimeStore.with_journal (.new 10000)).persist_upsert {} (new id) none
    (project_from_aggregate (new id)) [.RouteRegistered id]).2

/-- The store after a registration over the first one. -/
def secondStored (id : String) : InMemoryRuntimeStore :=
  ((firstStored id).persist_upsert {} (new id) none (project_from_aggregate (new id))
    [.RouteRegistered id]).2

theorem journal_secondStored (id : String) :
    (secondStored id).journal ≠ (firstStored id).journal := by
  intro h
  have hc : (some 2 : Option Nat) = some 1 :=
    congrArg (Option.map RedbRuntimeEventJournal.event_count) h
  cases hc

theorem registration_wins_alone (deps : CommandDeps) (hu : deps.uow = true)
    (he : deps.execution = true) (r : Registration) (hi : r.Installs) :
    Runs raceSem (r.handler deps).run freshWorld (.ok (.RouteRegistered r.route_id))
      ⟨firstStored r.route_id, {r.route_id}⟩ := by
  have hf : ∀ id : String, id ∉ freshWorld.runtime := fun id => Finset.notMem_empty id
  obtain ⟨_, _, health_registry⟩ := deps
  subst hu he
  cases r with
  | internal definition =>
    refine ⟨.ok none, freshWorld, ⟨⟨rfl, rfl⟩, trivial⟩, ?_⟩
    refine ⟨.ok (), ⟨freshWorld.store, {definition.route_id}⟩,
      ⟨⟨.inl ⟨hf _, rfl, rfl⟩, rfl⟩, trivial⟩, ?_⟩
    exact ⟨.ok (), _, ⟨⟨{}, rfl⟩, trivial⟩, rfl, rfl⟩
  | command spec accepted =>
    have ho := isOk_canonical_to_route_definition spec
    rw [show routeConverts spec = true from hi] at ho
    cases hc : canonical_to_route_definition spec with
    | error e =>
      rw [hc] at ho
      cases ho
    | ok definition =>
      have hid := route_id_canonical_to_route_definition hc
      simp only [Registration.handler, handle_register, accepted, of_result, Except.mapError]
      refine ⟨.ok none, freshWorld, ⟨⟨rfl, rfl⟩, trivial⟩, ?_⟩
      refine ⟨.ok (), ⟨firstStored spec.route_id, ∅⟩, ⟨⟨{}, rfl⟩, trivial⟩, ?_⟩
      simp only [install_runtime, hc, of_result, Except.mapError]
      refine ⟨.ok (), ⟨firstStored spec.route_id, {spec.route_id}⟩,
        ⟨⟨.inl ⟨hf _, rfl, ?_⟩, rfl⟩, trivial⟩, rfl, rfl⟩
      rw [hid]
      rfl

/-- A command that has loaded goes on to its store, whatever came in between. -/
theorem handle_register_checks_then_stores (deps : CommandDeps) (hu : deps.uow = true)
    {spec : CanonicalRouteSpec} (accepted : spec.validate_contract = .ok ()) :
    ∃ k k', (handle_register deps spec).run = .call (.load spec.route_id) k ∧
      k (.ok none) = .call (.persist_upsert (new spec.route_id) none
        (project_from_aggregate (new spec.route_id)) [.RouteRegistered spec.route_id]) k' := by
  obtain ⟨_, execution, health_registry⟩ := deps
  subst hu
  simp only [handle_register, accepted, of_result, Except.mapError]
  exact ⟨_, _, rfl, rfl⟩

theorem registration_follows (health_registry : Bool) (r : Registration) :
    wp (rule {}) (r.handler ⟨true, true, health_registry⟩).run Reports .unknown := by
  have hu : (⟨true, true, health_registry⟩ : CommandDeps).uow = true := rfl
  cases r with
  | command spec accepted => exact handle_register_follows hu spec
  | internal definition => exact handle_register_internal_follows hu definition

/-- A command loads, another registration runs to its end and wins, and the
command stores over the winner. -/
theorem not_exclusive_of_late_command (hid : ∀ i, (tasks i).route_id = id) {j : ι} (hij : i ≠ j)
    (hi : ¬ (tasks i).Internal) (hj : (tasks j).Installs) :
    ∃ h P w, Interleaves raceSem (racing health_registry tasks) freshWorld h P w ∧
      ¬ Exclusive id h P := by
  obtain ⟨spec, accepted, ht⟩ : ∃ spec accepted, tasks i = .command spec accepted := by
    cases ht : tasks i with
    | command spec accepted => exact ⟨spec, accepted, rfl⟩
    | internal definition =>
      rw [ht] at hi
      exact absurd trivial hi
  obtain rfl : spec.route_id = id := by
    rw [← hid i, ht]
    rfl
  obtain ⟨k, k', hlo, hs⟩ :=
    handle_register_checks_then_stores ⟨true, true, health_registry⟩ rfl accepted
  have hP : racing health_registry tasks i = .call (.load spec.route_id) k := by
    unfold racing
    rw [ht]
    exact hlo
  have hl : Interleaves raceSem (racing health_registry tasks) freshWorld _ _ _ :=
    .step i _ k (.ok none) .start hP ⟨⟨rfl, rfl⟩, trivial⟩
  have hwi := registration_wins_alone ⟨true, true, health_registry⟩ rfl rfl (tasks j) hj
  rw [hid j] at hwi
  obtain ⟨h', hwo⟩ := hl.run_task j (by
    rw [Function.update_of_ne (Ne.symm hij)]
    exact hwi)
  have hP' : Function.update (Function.update (racing health_registry tasks) i (k (.ok none))) j
      (.done (.ok (.RouteRegistered spec.route_id))) i = .call (.persist_upsert (new spec.route_id)
        none (project_from_aggregate (new spec.route_id)) [.RouteRegistered spec.route_id]) k' := by
    rw [Function.update_of_ne hij, Function.update_self]
    exact hs
  refine ⟨_, _, ⟨secondStored spec.route_id, {spec.route_id}⟩,
    .step i _ k' (.ok ()) hwo hP' ⟨⟨{}, rfl⟩, trivial⟩, ?_⟩
  intro he
  have hw : Won spec.route_id (Function.update (Function.update (Function.update
      (racing health_registry tasks) i (k (.ok none))) j
      (.done (.ok (.RouteRegistered spec.route_id)))) i (k' (.ok ())) j) := by
    rw [Function.update_of_ne (Ne.symm hij), Function.update_self]
    rfl
  have hf := Interleaves.follows
    (fun i => registration_follows health_registry (tasks i)) hwo j
  rw [Function.update_self] at hf
  have hwr := hf spec.route_id rfl
  exact journal_secondStored _ (he.untouched.1 j (Ne.symm hij) hw ⟨_, hwr⟩).2.2

/-! ## Commands that cannot be installed -/

theorem raceSem_total (c : PortCall) (w : World (Finset String)) (hw : w.store.journal = none) :
    ∃ r w', raceSem c w r w' ∧ w'.store.journal = none := by
  have ha : ∀ env events, w.store.journal_append env events = (.ok (), w.store) := by
    intro env events
    unfold InMemoryRuntimeStore.journal_append
    rw [hw]
  cases c with
  | load route_id => exact ⟨_, _, ⟨⟨rfl, rfl⟩, trivial⟩, hw⟩
  | save | delete | upsert_status | remove_status | force_unhealthy_for_route =>
    exact ⟨_, _, ⟨⟨rfl, rfl⟩, trivial⟩, hw⟩
  | take_recovered route_id => exact ⟨_, _, ⟨rfl, trivial⟩, hw⟩
  | list_statuses => exact ⟨_, _, ⟨⟨_, rfl, coe_list_statuses _, rfl⟩, trivial⟩, hw⟩
  | save_if_version aggregate expected_version =>
    refine ⟨_, _, ⟨rfl, trivial⟩, ?_⟩
    dsimp only [InMemoryRuntimeStore.save_if_version]
    split <;> exact hw
  | publish events =>
    refine ⟨_, _, ⟨⟨{}, rfl⟩, trivial⟩, ?_⟩
    unfold InMemoryRuntimeStore.publish
    rw [ha]
    exact hw
  | persist_delete route_id events =>
    refine ⟨_, _, ⟨⟨{}, rfl⟩, trivial⟩, ?_⟩
    unfold InMemoryRuntimeStore.persist_delete
    rw [ha]
    exact hw
  | persist_upsert aggregate expected_version projection events =>
    -- Without a journal an upsert fails on its version, or not at all.
    rcases hsp : w.store.persist_upsert {} aggregate expected_version projection events
      with ⟨result, store'⟩
    have hs : portSem firstCaller (.persist_upsert aggregate expected_version projection events) w
        result ⟨store', w.runtime⟩ := ⟨{}, by rw [hsp]⟩
    unfold InMemoryRuntimeStore.persist_upsert at hsp
    rw [ha] at hsp
    cases expected_version with
    | none =>
      cases hsp
      exact ⟨_, _, ⟨hs, trivial⟩, hw⟩
    | some n =>
      dsimp only at hsp
      cases hc : w.store.check_version aggregate.route_id n with
      | ok _ =>
        rw [hc] at hsp
        cases hsp
        exact ⟨_, _, ⟨hs, trivial⟩, hw⟩
      | error error =>
        rw [hc] at hsp
        cases hsp
        refine ⟨_, _, ⟨hs, n, rfl, ?_⟩, hw⟩
        rw [hc]
        nofun
  | execution op =>
    cases op with
    | register_route definition =>
      by_cases hm : definition.route_id ∈ w.runtime
      · exact ⟨.error (.AlreadyExists ""), w, ⟨⟨.inr ⟨hm, ⟨_, rfl⟩, rfl⟩, rfl⟩, trivial⟩, hw⟩
      · exact ⟨.ok (), ⟨w.store, insert definition.route_id w.runtime⟩,
          ⟨⟨.inl ⟨hm, rfl, rfl⟩, rfl⟩, trivial⟩, hw⟩
    | remove_route route_id => exact ⟨.ok (), w, ⟨⟨.inl rfl, rfl⟩, trivial⟩, hw⟩
    | start_route | stop_route | suspend_route | resume_route | reload_route =>
      exact ⟨.ok (), w, ⟨⟨rfl, rfl⟩, trivial⟩, hw⟩

theorem uninstalled_never_wins (he : deps.execution = true) (hnot : ¬ r.Installs) :
    Returns NotRegistered (r.handler deps) := by
  have her : ∀ f, NotRegistered (.error f) := by
    rintro f route_id ⟨⟩
  cases r with
  | internal definition => exact absurd trivial hnot
  | command spec accepted =>
    obtain ⟨e, hc⟩ : ∃ e, canonical_to_route_definition spec = .error e := by
      have ho := isOk_canonical_to_route_definition spec
      cases hc : canonical_to_route_definition spec with
      | error e => exact ⟨e, rfl⟩
      | ok definition =>
        rw [hc] at ho
        exact absurd ho.symm hnot
    have hi : ∀ a, (install_runtime deps spec a).run = .done (.error (.err e)) := by
      intro a
      unfold install_runtime
      rw [if_pos he, hc]
      rfl
    unfold Registration.handler handle_register store_and_install
    refine Returns.bind her fun _ => Returns.bind her fun _ => Returns.bind her fun _ => ?_
    unfold Returns
    rw [wp_run_bind, hi]
    exact her _

/-- When no registration can be installed, a run in which all of them return has
no winner. -/
theorem not_exclusive_of_uninstalled [Finite ι] (hnot : ∀ i, ¬ (tasks i).Installs) :
    ∃ h P w, Interleaves raceSem (racing health_registry tasks)
      ⟨⟨.default, none⟩, ∅⟩ h P w ∧ ¬ Exclusive id h P := by
  have hj : (⟨⟨.default, none⟩, ∅⟩ : World (Finset String)).store.journal = none := rfl
  obtain ⟨h, P, w, hr, hd⟩ := Interleaves.exists_complete raceSem_total
    (racing health_registry tasks) hj
  refine ⟨h, P, w, hr, ?_⟩
  intro he
  obtain ⟨i, hi⟩ := he.one_wins hd
  have hn := Interleaves.follows (fun i => uninstalled_never_wins rfl (hnot i)) hr i
  rw [hi] at hn
  exact hn id rfl

/-- Two or more registrations of one absent id are exclusive in every
interleaving if and only if all of them are internal. -/
theorem registration_is_exclusive_iff_internal [Finite ι] {id : String} (health_registry : Bool)
    {tasks : ι → Registration} (hid : ∀ i, (tasks i).route_id = id) (htwo : ∃ i j : ι, i ≠ j) :
    (∀ w₀ h P w, w₀.store.load id = none → id ∉ w₀.runtime →
        Interleaves raceSem (racing health_registry tasks) w₀ h P w → Exclusive id h P) ↔
      ∀ i, (tasks i).Internal := by
  constructor
  · intro hal i
    by_contra hi
    have hl : ∀ i j, i ≠ j → ¬ (tasks i).Internal → ¬ (tasks j).Installs := by
      intro i j hij hi hj
      obtain ⟨h, P, w, hr, hnot⟩ := not_exclusive_of_late_command hid hij hi hj
      exact hnot (hal _ h P w rfl (Finset.notMem_empty id) hr)
    -- Another registration is not internal either, so neither can be installed.
    obtain ⟨k, hk⟩ : ∃ k, k ≠ i := by
      obtain ⟨j, k, hjk⟩ := htwo
      by_cases hj : j = i
      · exact ⟨k, fun hki => hjk (hj.trans hki.symm)⟩
      · exact ⟨j, hj⟩
    have hn : ∀ j, ¬ (tasks j).Installs := by
      intro j
      by_cases hij : i = j
      · rw [← hij]
        exact hl k i hk fun hki => hl i k (Ne.symm hk) hi (installs_of_internal hki)
      · exact hl i j hij hi
    obtain ⟨h, P, w, hr, hnot⟩ := not_exclusive_of_uninstalled hn
    exact hnot (hal _ h P w rfl (Finset.notMem_empty id) hr)
  · intro hin w₀ h P w ha hf hr
    obtain ⟨i, _⟩ := htwo
    have : Nonempty ι := ⟨i⟩
    exact exclusive_of_internal hid hin ha hf hr

end

/-! ## Two registrations of the route `r` -/

/-- Two register commands race. The second one loads first and stores last. -/
theorem a_late_command_stores_over_the_winner :
    ¬ ∀ (tasks : Bool → Registration) (w₀ : World (Finset String)) (h : List (RaceStep Bool))
        (P : Bool → Prog PortCall Answer (Outcome CamelError RuntimeCommandResult))
        (w : World (Finset String)), (∀ i, (tasks i).route_id = "r") →
      w₀.store.load "r" = none → "r" ∉ w₀.runtime →
      Interleaves raceSem (racing false tasks) w₀ h P w → Exclusive "r" h P := by
  intro ha
  have hi : ∀ i : Bool, (Registration.command timerSpec timerSpec_accepted).route_id = "r" :=
    fun _ => rfl
  obtain ⟨h, P, w, hr, hnot⟩ := not_exclusive_of_late_command hi (i := true) (j := false)
    (by simp) id rfl
  exact hnot (ha _ freshWorld h P w hi rfl (Finset.notMem_empty "r") hr)

/-- Two internal registrations race, and every run of them is exclusive. -/
theorem two_internal_registrations_are_exclusive :
    (Registration.internal timerDefinition).Internal ∧ ∀ w₀ h P w, w₀.store.load "r" = none →
      "r" ∉ w₀.runtime →
      Interleaves raceSem (racing false fun _ : Bool => .internal timerDefinition) w₀ h P w →
      Exclusive "r" h P := by
  have hi : ∀ _ : Bool, (Registration.internal timerDefinition).route_id = "r" := fun _ => rfl
  have ht : ∃ i j : Bool, i ≠ j := ⟨true, false, by simp⟩
  exact ⟨trivial, (registration_is_exclusive_iff_internal false hi ht).mpr fun _ => trivial⟩

end camel_core.lifecycle
