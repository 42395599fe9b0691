-- The circuit breaker as a service of `circuit_breaker.rs`. A clone takes the probe slot
-- when it is polled and gives it back with the result of its call, or when the inner
-- service is not ready yet. It does not give it back on any other way out.
import RustCamel.Lib.ListCount
import RustCamel.Processor.CircuitBreaker

open List Bool

namespace camel_processor.circuit_breaker

open camel_api.error (CamelError)

/-! ## The calls of the service -/

/-- What `poll_ready` of the inner service answers. -/
inductive InnerReady where
  | Pending
  | Ready (result : Except CamelError Unit)

/-- How `poll_ready` goes on: it asks the inner service, asks it as the probe, or answers. -/
inductive PollReady where
  | inner
  | probe
  | answer (result : Except CamelError Unit)

/-- How `call` goes on: with the inner service, with the fallback, or with an error. -/
inductive Called (π : Type) where
  | inner (decided_half_open : Bool)
  | fallback (fallback : π)
  | error (err : CamelError)

section

variable {π α : Type} (config : CircuitBreakerConfig π)

namespace CircuitBreakerConfig

/-- The loop of `poll_ready`, with the rounds it may take. -/
def poll_ready_loop (now : Nat) : Nat → SharedBreakerState → Option PollReady × SharedBreakerState
  | 0, s => (none, s)
  | rounds + 1, s =>
    match s.state with
    | .CLOSED => (some .inner, s)
    | .OPEN =>
      match s.try_transition_to_half_open config.open_duration now with
      | (.Transitioned, s) => (some .probe, s)
      | (.NotExpired, s) =>
        if config.fallback.isSome then (some (.answer (.ok ())), s)
        else (some (.answer (.error (.CircuitOpen "circuit breaker is open"))), s)
      | (.LostRace, s) => poll_ready_loop now rounds s
    | .HALF_OPEN_PROBE_HELD =>
      (some (.answer (.error (.CircuitOpen "circuit breaker is half-open (probe in flight)"))), s)
    | .HALF_OPEN_PROBE_FREE =>
      match s.compare_exchange .HALF_OPEN_PROBE_FREE .HALF_OPEN_PROBE_HELD with
      | (true, s) => (some .probe, s)
      | (false, s) => poll_ready_loop now rounds s

/-- `poll_ready` up to the poll of the inner service, as one step. -/
def poll_ready (now : Nat) (s : SharedBreakerState) : Option PollReady × SharedBreakerState :=
  config.poll_ready_loop now 1 s

/-- The loop of `call`, with the rounds it may take. -/
def call_loop (now : Nat) : Nat → SharedBreakerState → Option (Called π) × SharedBreakerState
  | 0, s => (none, s)
  | rounds + 1, s =>
    match s.state with
    | .CLOSED => (some (.inner false), s)
    | .OPEN =>
      match s.try_transition_to_half_open config.open_duration now with
      | (.Transitioned, s) => (some (.inner true), s)
      | (.NotExpired, s) =>
        match config.fallback with
        | some fallback => (some (.fallback fallback), s)
        | none => (some (.error (.CircuitOpen "circuit breaker is open")), s)
      | (.LostRace, s) => call_loop now rounds s
    | .HALF_OPEN_PROBE_HELD | .HALF_OPEN_PROBE_FREE => (some (.inner true), s)

/-- `call` up to the future it returns, as one step. -/
def call (now : Nat) (s : SharedBreakerState) : Option (Called π) × SharedBreakerState :=
  config.call_loop now 1 s

/-- What the future of a call does with the result of the inner service. -/
def afterCall (current_is_half_open : Bool) (result : Except CamelError α) (now : Nat)
    (s : SharedBreakerState) : SharedBreakerState :=
  match result with
  | .ok _ => s.onOk
  | .error _ =>
    if current_is_half_open then s.reopen now
    else if s.state = .CLOSED then s.countFailure config.failure_threshold now
    else s

end CircuitBreakerConfig

/-- What `poll_ready_as_probe` does when the inner service is pending. -/
def SharedBreakerState.release (s : SharedBreakerState) : SharedBreakerState :=
  if s.state = .HALF_OPEN_PROBE_HELD then
    (s.compare_exchange .HALF_OPEN_PROBE_HELD .HALF_OPEN_PROBE_FREE).2
  else s

/-! ## The clones -/

/-- Where a clone stands. `probe` is the half open period whose slot it took. -/
inductive Stage where
  | Idle
  | Polling (probe : Option Nat)
  | Ready (probe : Option Nat)

def Stage.probe : Stage → Option Nat
  | .Idle => none
  | .Polling probe | .Ready probe => probe

/-- The clone took the slot of the period. -/
def Stage.holds (period : Nat) (stage : Stage) : Bool := stage.probe = some period

/-- A call of the inner service. `probe` is the half open period it is the probe of. -/
structure InnerCall where
  current_is_half_open : Bool
  probe : Option Nat
  finished : Bool

/-- The call is the probe of the period and is not over. -/
def InnerCall.holds (period : Nat) (c : InnerCall) : Bool := !c.finished && c.probe = some period

/-- The clones of a service and their calls. `periods` counts the half open periods, and
`started` the inner calls since the last one began. -/
structure Service where
  shared : SharedBreakerState
  periods : Nat
  started : Nat
  clones : List Stage
  calls : List InnerCall

def Service.new : Service := ⟨.new, 0, 0, [.Idle], []⟩

inductive ServiceEvent (α : Type) where
  | clone
  | poll_ready (k now : Nat)
  | inner_ready (k : Nat) (answer : InnerReady)
  | call (k now : Nat)
  | complete (f : Nat) (result : Except CamelError α) (now : Nat)
  | drop (f : Nat)

namespace Service

variable (g : Service)

/-- The count of the periods after clone `k` or its call became a probe. -/
def nextPeriods : Nat := if g.shared.state = .OPEN then g.periods + 1 else g.periods

/-- `poll_ready` of clone `k`, which has no poll outstanding. -/
def pollReady (k now : Nat) : Option Service :=
  match config.poll_ready now g.shared with
  | (some .inner, shared) => some { g with shared, clones := g.clones.set k (.Polling none) }
  | (some .probe, shared) => some { g with
      shared
      periods := g.nextPeriods
      started := if g.shared.state = .OPEN then 0 else g.started
      clones := g.clones.set k (.Polling (some g.nextPeriods)) }
  | (some (.answer (.ok _)), shared) =>
    some { g with shared, clones := g.clones.set k (.Ready none) }
  | (some (.answer (.error _)), shared) => some { g with shared }
  | (none, _) => none

/-- The inner service answers clone `k`. -/
def innerReady (k : Nat) (probe : Option Nat) : InnerReady → Service
  | .Ready (.ok _) => { g with clones := g.clones.set k (.Ready probe) }
  | .Ready (.error _) => { g with clones := g.clones.set k .Idle }
  | .Pending => { g with
      shared := if probe.isSome then g.shared.release else g.shared
      clones := g.clones.set k .Idle }

/-- `call` of clone `k`, which `poll_ready` made ready. -/
def startCall (k now : Nat) (probe : Option Nat) : Option Service :=
  match config.call now g.shared with
  | (some (.inner decided_half_open), shared) => some {
      shared
      periods := g.nextPeriods
      started := if g.shared.state = .OPEN then 1
        else if g.shared.halfOpen then g.started + 1 else g.started
      clones := g.clones.set k .Idle
      calls := g.calls ++ [{
        current_is_half_open := decided_half_open || shared.halfOpen
        probe := if g.shared.state = .OPEN then some g.nextPeriods
          else if g.shared.halfOpen then probe else none
        finished := false }] }
  | (some _, shared) => some { g with shared, clones := g.clones.set k .Idle }
  | (none, _) => none

/-- The call `c` at place `f` is over. -/
def finish (f : Nat) (c : InnerCall) (shared : SharedBreakerState) : Service :=
  { g with shared, calls := g.calls.set f { c with finished := true } }

/-- One step. A caller calls only a clone that is ready, as the trait asks for. -/
def step : ServiceEvent α → Option Service
  | .clone => some { g with clones := g.clones ++ [.Idle] }
  | .poll_ready k now =>
    match g.clones[k]? with
    | some .Idle | some (.Ready _) => g.pollReady config k now
    | _ => none
  | .inner_ready k answer =>
    match g.clones[k]? with
    | some (.Polling probe) => some (g.innerReady k probe answer)
    | _ => none
  | .call k now =>
    match g.clones[k]? with
    | some (.Ready probe) => g.startCall config k now probe
    | _ => none
  | .complete f result now =>
    match g.calls[f]? with
    | some c =>
      if c.finished then none
      else some (g.finish f c (config.afterCall c.current_is_half_open result now g.shared))
    | none => none
  | .drop f =>
    match g.calls[f]? with
    | some c => if c.finished then none else some (g.finish f c g.shared)
    | none => none

def run : Service → List (ServiceEvent α) → Option Service
  | g, [] => some g
  | g, e :: events => (g.step config e).bind fun g => run g events

/-- Someone has the slot of the period. -/
def Held : Prop :=
  (∃ stage ∈ g.clones, stage.holds g.periods = true) ∨ ∃ c ∈ g.calls, c.holds g.periods = true

instance : Decidable g.Held := inferInstanceAs (Decidable (_ ∨ _))

/-- The inner service does not answer the probe with an error, nor an old probe with pending
while the slot is taken. Only the probe calls while the circuit is half open, and its call
is not dropped. -/
def Careful : ServiceEvent α → Prop
  | .inner_ready k (.Ready (.error _)) => g.shared.halfOpen = true →
      ∀ stage ∈ g.clones[k]?, stage.holds g.periods = false
  | .inner_ready k .Pending => g.shared.state = .HALF_OPEN_PROBE_HELD →
      ∀ stage ∈ g.clones[k]?, stage.probe ≠ none → stage.holds g.periods = true
  | .call k _ => g.shared.halfOpen = true → ∀ stage ∈ g.clones[k]?, stage.holds g.periods = true
  | .drop f => g.shared.halfOpen = true → ∀ c ∈ g.calls[f]?, c.holds g.periods = false
  | _ => True

instance (e : ServiceEvent α) : Decidable (g.Careful e) := by
  cases e with
  | inner_ready k answer =>
    cases answer with
    | Pending => unfold Careful; infer_instance
    | Ready result => cases result <;> unfold Careful <;> infer_instance
  | _ => unfold Careful; infer_instance

/-- Every step of the run is careful. -/
def CarefulAll : Service → List (ServiceEvent α) → Prop
  | _, [] => True
  | g, e :: events => g.Careful e ∧ ∀ g' ∈ g.step config e, CarefulAll g' events

instance decidableCarefulAll : (g : Service) → (events : List (ServiceEvent α)) →
    Decidable (CarefulAll config g events)
  | _, [] => isTrue trivial
  | _, _ :: events =>
    have := fun g' => decidableCarefulAll g' events
    inferInstanceAs (Decidable (_ ∧ _))

end Service

end

/-! ## What the calls do with the state -/

section

variable {π α : Type} (config : CircuitBreakerConfig π) (now : Nat) (s : SharedBreakerState)

theorem poll_ready_cases :
    (s.state = .CLOSED ∧ config.poll_ready now s = (some .inner, s)) ∨
    ((s.state = .OPEN ∨ s.state = .HALF_OPEN_PROBE_FREE) ∧
      config.poll_ready now s = (some .probe, { s with state := .HALF_OPEN_PROBE_HELD })) ∨
    (s.state = .OPEN ∧ config.poll_ready now s = (some (.answer (.ok ())), s)) ∨
    ∃ err, config.poll_ready now s = (some (.answer (.error err)), s) := by
  unfold CircuitBreakerConfig.poll_ready CircuitBreakerConfig.poll_ready_loop
  cases hs : s.state with
  | CLOSED => exact .inl ⟨rfl, rfl⟩
  | HALF_OPEN_PROBE_HELD => exact .inr (.inr (.inr ⟨_, rfl⟩))
  | HALF_OPEN_PROBE_FREE =>
    refine .inr (.inl ⟨.inr rfl, ?_⟩)
    simp [SharedBreakerState.compare_exchange, hs]
  | OPEN =>
    rcases SharedBreakerState.try_transition_of_open hs config.open_duration now with ht | ht
    · exact .inr (.inl ⟨by simp, by simp [ht]⟩)
    · by_cases hf : config.fallback.isSome = true
      · exact .inr (.inr (.inl (by simp [ht, hf])))
      · exact .inr (.inr (.inr ⟨.CircuitOpen "circuit breaker is open", by simp [ht, hf]⟩))

theorem call_cases :
    (s.state = .CLOSED ∧ config.call now s = (some (.inner false), s)) ∨
    (s.state = .OPEN ∧
      config.call now s = (some (.inner true), { s with state := .HALF_OPEN_PROBE_HELD })) ∨
    (s.halfOpen = true ∧ config.call now s = (some (.inner true), s)) ∨
    (s.state = .OPEN ∧ ((∃ fallback, config.call now s = (some (.fallback fallback), s)) ∨
      ∃ err, config.call now s = (some (.error err), s))) := by
  unfold CircuitBreakerConfig.call CircuitBreakerConfig.call_loop
  cases hs : s.state with
  | CLOSED => exact .inl ⟨rfl, rfl⟩
  | HALF_OPEN_PROBE_HELD | HALF_OPEN_PROBE_FREE =>
    refine .inr (.inr (.inl ⟨?_, rfl⟩))
    simp [SharedBreakerState.halfOpen_iff, hs]
  | OPEN =>
    rcases SharedBreakerState.try_transition_of_open hs config.open_duration now with ht | ht
    · exact .inr (.inl ⟨by simp, by simp [ht]⟩)
    · refine .inr (.inr (.inr ⟨by simp, ?_⟩))
      cases hf : config.fallback with
      | some fallback => exact .inl ⟨fallback, by simp [ht]⟩
      | none => exact .inr ⟨.CircuitOpen "circuit breaker is open", by simp [ht]⟩

variable {s}

theorem afterCall_of_halfOpen (h : s.halfOpen = true) (result : Except CamelError α)
    (current_is_half_open : Bool) :
    (config.afterCall current_is_half_open result now s).halfOpen = false ∨
      current_is_half_open = false ∧ config.afterCall current_is_half_open result now s = s := by
  have hn : s.state ≠ .CLOSED := by
    intro hs
    simp [not_halfOpen_of_closed hs] at h
  unfold CircuitBreakerConfig.afterCall
  cases result with
  | ok _ =>
    left
    simp only [SharedBreakerState.onOk_of_halfOpen h]
    rfl
  | error _ =>
    cases current_is_half_open with
    | true =>
      left
      simp only [if_true, SharedBreakerState.reopen_of_halfOpen h]
      rfl
    | false =>
      right
      simp [hn]

theorem afterCall_of_not (h : s.halfOpen = false) (result : Except CamelError α)
    (current_is_half_open : Bool) :
    (config.afterCall current_is_half_open result now s).halfOpen = false := by
  unfold CircuitBreakerConfig.afterCall
  cases result with
  | ok _ => simpa [SharedBreakerState.halfOpen, SharedBreakerState.onOk_state_of_not h] using h
  | error _ =>
    simp only
    split
    · simp [SharedBreakerState.reopen, h]
    · split
      · exact SharedBreakerState.countFailure_not_halfOpen h _
      · exact h

end

/-! ## The holder of the slot -/

variable {k : Nat} {g' : Service} {c : InnerCall} {f : Nat} {periods : Nat} {stage : Stage}

section

variable {π α : Type} {config : CircuitBreakerConfig π} {g : Service}

/-- No probe is of a period to come, and a half open circuit has one holder of its slot, or
none when the slot is free. -/
structure Kept (g : Service) : Prop where
  clones_known : ∀ stage ∈ g.clones, ∀ p ∈ stage.probe, p ≤ g.periods
  calls_known : ∀ c ∈ g.calls, ∀ p ∈ c.probe, p ≤ g.periods
  marked : ∀ c ∈ g.calls, c.probe ≠ none → c.current_is_half_open = true
  counted : g.shared.halfOpen = true → g.started = g.calls.countP (InnerCall.holds g.periods)
  held : g.shared.state = .HALF_OPEN_PROBE_HELD →
    g.clones.countP (Stage.holds g.periods) + g.calls.countP (InnerCall.holds g.periods) = 1
  free : g.shared.state = .HALF_OPEN_PROBE_FREE →
    g.clones.countP (Stage.holds g.periods) + g.calls.countP (InnerCall.holds g.periods) = 0

theorem kept_new : Kept .new where
  clones_known := by simp [Service.new, Stage.probe]
  calls_known := by simp [Service.new]
  marked := by simp [Service.new]
  counted := by simp [Service.new, SharedBreakerState.new, SharedBreakerState.halfOpen,
    BreakerState.halfOpen]
  held := by simp [Service.new, SharedBreakerState.new]
  free := by simp [Service.new, SharedBreakerState.new]

theorem Kept.of_not_halfOpen
    (clones_known : ∀ stage ∈ g.clones, ∀ p ∈ stage.probe, p ≤ g.periods)
    (calls_known : ∀ c ∈ g.calls, ∀ p ∈ c.probe, p ≤ g.periods)
    (marked : ∀ c ∈ g.calls, c.probe ≠ none → c.current_is_half_open = true)
    (h : g.shared.halfOpen = false) : Kept g := by
  refine ⟨clones_known, calls_known, marked, by simp [h], ?_, ?_⟩
  · intro hs
    simp [halfOpen_of_held hs] at h
  · intro hs
    simp [halfOpen_of_free hs] at h

theorem Kept.nobody_holds_next (h : Kept g) :
    g.clones.countP (Stage.holds (g.periods + 1)) = 0 ∧
      g.calls.countP (InnerCall.holds (g.periods + 1)) = 0 := by
  rw [countP_eq_zero, countP_eq_zero]
  constructor
  · intro stage hs hp
    have := h.clones_known stage hs (g.periods + 1) (by simpa [Stage.holds] using hp)
    omega
  · intro c hc hp
    simp only [InnerCall.holds, and_eq_true, decide_eq_true_eq] at hp
    have := h.calls_known c hc (g.periods + 1) hp.2
    omega

theorem Kept.clones_known_set (h : Kept g) (hle : g.periods ≤ periods)
    (hs : ∀ p ∈ stage.probe, p ≤ periods) :
    ∀ st ∈ g.clones.set k stage, ∀ p ∈ st.probe, p ≤ periods := by
  intro st hst p hp
  rcases mem_or_eq_of_mem_set hst with hst | rfl
  · exact Nat.le_trans (h.clones_known st hst p hp) hle
  · exact hs p hp

/-- A clone moves on with the claim it has, or without one that counts. -/
theorem Kept.move (h : Kept g) {old : Stage} (hk : g.clones[k]? = some old)
    (hst : ∀ p ∈ stage.probe, p ≤ g.periods)
    (hsa : g.shared.halfOpen = true → old.holds g.periods = stage.holds g.periods) :
    Kept { g with clones := g.clones.set k stage } := by
  have hc : g.shared.halfOpen = true → (g.clones.set k stage).countP (Stage.holds g.periods) =
      g.clones.countP (Stage.holds g.periods) := by
    intro hh
    exact countP_set_same hk (hsa hh).symm
  refine ⟨h.clones_known_set (Nat.le_refl _) hst, h.calls_known, h.marked, h.counted, ?_, ?_⟩
  · intro hs
    simp only [hc (halfOpen_of_held hs)]
    exact h.held hs
  · intro hs
    simp only [hc (halfOpen_of_free hs)]
    exact h.free hs

/-- A clone takes the slot of a new period, or a slot that is free. -/
theorem Kept.pollReady (h : Kept g) {now : Nat} {old : Stage} (hk : g.clones[k]? = some old)
    (hpo : g.pollReady config k now = some g') : Kept g' := by
  unfold Service.pollReady at hpo
  obtain ⟨hs, hcal⟩ | ⟨hs, hcal⟩ | ⟨hs, hcal⟩ | ⟨err, hcal⟩ := poll_ready_cases config now g.shared
  · simp only [hcal, Option.some.injEq] at hpo
    subst hpo
    exact h.move hk (by simp [Stage.probe]) (by simp [not_halfOpen_of_closed hs])
  · simp only [hcal, Option.some.injEq] at hpo
    subst hpo
    rcases hs with hs | hs
    · -- A new period, which nobody knows yet.
      obtain ⟨hcl, hca⟩ := h.nobody_holds_next
      have ho := countP_set_of_zero (a := Stage.Polling (some (g.periods + 1))) hk hcl
        (by simp [Stage.holds, Stage.probe])
      simp only [Service.nextPeriods, hs, if_true]
      refine ⟨h.clones_known_set (Nat.le_succ _) (by simp [Stage.probe]), ?_, h.marked, ?_, ?_, ?_⟩
      · intro c hc p hp
        exact Nat.le_succ_of_le (h.calls_known c hc p hp)
      · intro _
        exact hca.symm
      · intro _
        simp only [hca, ho]
      · simp
    · -- The slot was free, so nobody held it.
      have hf := h.free hs
      have ho := countP_set_of_zero (a := Stage.Polling (some g.periods)) hk
        (p := Stage.holds g.periods) (by omega) (by simp [Stage.holds, Stage.probe])
      simp only [Service.nextPeriods, hs, reduceCtorEq, if_false]
      refine ⟨h.clones_known_set (Nat.le_refl _) (by simp [Stage.probe]), h.calls_known, h.marked,
        ?_, ?_, ?_⟩
      · intro _
        exact h.counted (halfOpen_of_free hs)
      · intro _
        simp only [ho]
        omega
      · simp
  · simp only [hcal, Option.some.injEq] at hpo
    subst hpo
    exact h.move hk (by simp [Stage.probe]) (by simp [not_halfOpen_of_open hs])
  · simp only [hcal, Option.some.injEq] at hpo
    subst hpo
    exact h

theorem Kept.innerReady (h : Kept g) {probe : Option Nat} {answer : InnerReady}
    (hk : g.clones[k]? = some (.Polling probe))
    (hca : g.Careful (.inner_ready k answer : ServiceEvent α)) :
    Kept (g.innerReady k probe answer) := by
  have hkn : ∀ p ∈ probe, p ≤ g.periods := h.clones_known (.Polling probe) (mem_of_getElem? hk)
  cases answer with
  | Ready result =>
    cases result with
    | ok _ => exact h.move hk hkn (fun _ => rfl)
    | error _ =>
      refine h.move hk (by simp [Stage.probe]) ?_
      intro hha
      have hnot := hca hha (.Polling probe) hk
      rw [hnot]
      simp [Stage.holds, Stage.probe]
  | Pending =>
    unfold Service.innerReady
    cases probe with
    | none => exact h.move hk (by simp [Stage.probe]) (fun _ => by simp [Stage.holds, Stage.probe])
    | some p =>
      simp only [Option.isSome_some, if_true, SharedBreakerState.release]
      by_cases hs : g.shared.state = .HALF_OPEN_PROBE_HELD
      · -- The slot is given back by the one that holds it.
        have hh := hca hs (.Polling (some p)) hk (by simp [Stage.probe])
        have hhe := h.held hs
        have hc := h.counted (halfOpen_of_held hs)
        have hse := countP_set_add (a := Stage.Idle) (Stage.holds g.periods) hk
        have hi : Stage.holds g.periods .Idle = false := by simp [Stage.holds, Stage.probe]
        simp only [hh, hi, if_true, false_eq_true, if_false] at hse
        simp only [hs, if_true, SharedBreakerState.compare_exchange]
        refine ⟨h.clones_known_set (Nat.le_refl _) (by simp [Stage.probe]), h.calls_known,
          h.marked, fun _ => hc, by simp, ?_⟩
        intro _
        simp only
        omega
      · simp only [hs, if_false]
        refine h.move hk (by simp [Stage.probe]) ?_
        intro hha
        have hf := h.free ((held_or_free hha).resolve_left hs)
        have hn : ¬Stage.holds g.periods (.Polling (some p)) = true :=
          countP_eq_zero.mp (by omega) _ (mem_of_getElem? hk)
        rw [not_eq_true] at hn
        rw [hn]
        simp [Stage.holds, Stage.probe]

theorem Kept.calls_known_snoc (h : Kept g) (hle : g.periods ≤ periods)
    (hc : ∀ p ∈ c.probe, p ≤ periods) : ∀ c' ∈ g.calls ++ [c], ∀ p ∈ c'.probe, p ≤ periods := by
  intro c' hc' p hp
  rcases mem_append.mp hc' with hc' | hc'
  · exact Nat.le_trans (h.calls_known c' hc' p hp) hle
  · rw [mem_singleton.mp hc'] at hp
    exact hc p hp

theorem Kept.marked_snoc (h : Kept g) (hc : c.probe ≠ none → c.current_is_half_open = true) :
    ∀ c' ∈ g.calls ++ [c], c'.probe ≠ none → c'.current_is_half_open = true := by
  intro c' hc' hp
  rcases mem_append.mp hc' with hc' | hc'
  · exact h.marked c' hc' hp
  · rw [mem_singleton.mp hc'] at hp ⊢
    exact hc hp

theorem countP_snoc {calls : List InnerCall} {period : Nat} (h : c.holds period = true) :
    (calls ++ [c]).countP (InnerCall.holds period) = calls.countP (InnerCall.holds period) + 1 := by
  simp [countP_append, h]

/-- A call goes to the inner service and takes the claim of its clone along. -/
theorem Kept.startCall (h : Kept g) {now : Nat} {probe : Option Nat}
    (hk : g.clones[k]? = some (.Ready probe)) (hcar : g.Careful (.call k now : ServiceEvent α))
    (hcal : g.startCall config k now probe = some g') : Kept g' := by
  have hc : ∀ {periods}, g.periods ≤ periods →
      ∀ st ∈ g.clones.set k .Idle, ∀ p ∈ st.probe, p ≤ periods :=
    fun hle => h.clones_known_set hle (by simp [Stage.probe])
  have hid : ∀ period, Stage.holds period .Idle = false := by simp [Stage.holds, Stage.probe]
  have hse := fun period => countP_set_add (a := Stage.Idle) (Stage.holds period) hk
  simp only [hid, false_eq_true, if_false] at hse
  unfold Service.startCall at hcal
  obtain ⟨hs, hcas⟩ | ⟨hs, hcas⟩ | ⟨hha, hcas⟩ | ⟨hs, hcas⟩ := call_cases config now g.shared
  · simp only [hcas, Option.some.injEq] at hcal
    subst hcal
    have hnot := not_halfOpen_of_closed hs
    simp only [Service.nextPeriods, hs, hnot, reduceCtorEq, if_false, false_eq_true]
    exact Kept.of_not_halfOpen (hc (Nat.le_refl _))
      (h.calls_known_snoc (Nat.le_refl _) (by simp)) (h.marked_snoc (by simp)) hnot
  · -- The call itself begins a new period.
    simp only [hcas, Option.some.injEq] at hcal
    subst hcal
    obtain ⟨hn, hca⟩ := h.nobody_holds_next
    have hi := hse (g.periods + 1)
    simp only [Service.nextPeriods, hs, if_true, Bool.true_or]
    refine ⟨hc (Nat.le_succ _), h.calls_known_snoc (Nat.le_succ _) (by simp),
      h.marked_snoc (by simp), ?_, ?_, by simp⟩
    · intro _
      rw [countP_snoc (by simp [InnerCall.holds]), hca]
    · intro _
      simp only
      rw [countP_snoc (by simp [InnerCall.holds]), hca]
      omega
  · -- The clone holds the slot, so no call was started yet.
    simp only [hcas, Option.some.injEq] at hcal
    subst hcal
    have hh := hcar hha (.Ready probe) hk
    have hp : probe = some g.periods := of_decide_eq_true hh
    subst hp
    have hi := hse g.periods
    simp only [hh, if_true] at hi
    have hs : g.shared.state = .HALF_OPEN_PROBE_HELD := by
      refine (held_or_free hha).resolve_right ?_
      intro hs
      have := h.free hs
      omega
    have hhe := h.held hs
    have hco := h.counted hha
    simp only [Service.nextPeriods, hs, hha, reduceCtorEq, if_true, if_false, Bool.true_or]
    refine ⟨hc (Nat.le_refl _), h.calls_known_snoc (Nat.le_refl _) (by simp),
      h.marked_snoc (by simp), ?_, ?_, by simp [hs]⟩
    · intro _
      rw [countP_snoc (by simp [InnerCall.holds]), hco]
    · intro _
      simp only
      rw [countP_snoc (by simp [InnerCall.holds])]
      omega
  · have hsa : g' = { g with clones := g.clones.set k .Idle } := by
      rcases hcas with ⟨fallback, hcas⟩ | ⟨err, hcas⟩
      all_goals
        simp only [hcas, Option.some.injEq] at hcal
        exact hcal.symm
    rw [hsa]
    exact h.move hk (by simp [Stage.probe]) (by simp [not_halfOpen_of_open hs])

theorem Kept.finish (h : Kept g) {shared : SharedBreakerState} (hf : g.calls[f]? = some c)
    (hl : shared.halfOpen = false ∨ (shared = g.shared ∧
      (g.shared.halfOpen = true → c.holds g.periods = false))) : Kept (g.finish f c shared) := by
  have hme := mem_of_getElem? hf
  have hc : ∀ c' ∈ g.calls.set f { c with finished := true },
      c' ∈ g.calls ∨ c' = { c with finished := true } := fun _ => mem_or_eq_of_mem_set
  have hk : ∀ c' ∈ (g.finish f c shared).calls, ∀ p ∈ c'.probe, p ≤ g.periods := by
    intro c' hc' p hp
    rcases hc c' hc' with hc' | rfl
    · exact h.calls_known c' hc' p hp
    · exact h.calls_known c hme p hp
  have hm : ∀ c' ∈ (g.finish f c shared).calls,
      c'.probe ≠ none → c'.current_is_half_open = true := by
    intro c' hc' hp
    rcases hc c' hc' with hc' | rfl
    · exact h.marked c' hc' hp
    · exact h.marked c hme hp
  rcases hl with hnot | ⟨rfl, ho⟩
  · exact Kept.of_not_halfOpen h.clones_known hk hm hnot
  · have hco : g.shared.halfOpen = true →
        (g.finish f c g.shared).calls.countP (InnerCall.holds g.periods) =
          g.calls.countP (InnerCall.holds g.periods) := by
      intro hh
      refine countP_set_same hf ?_
      rw [ho hh]
      simp [InnerCall.holds]
    refine ⟨h.clones_known, hk, hm, ?_, ?_, ?_⟩
    · intro hh
      exact (h.counted hh).trans (hco hh).symm
    · intro hs
      have hhe := h.held hs
      rw [← hco (halfOpen_of_held hs)] at hhe
      exact hhe
    · intro hs
      have hfr := h.free hs
      rw [← hco (halfOpen_of_free hs)] at hfr
      exact hfr

theorem Kept.clone (h : Kept g) : Kept { g with clones := g.clones ++ [.Idle] } := by
  have hc : ∀ period, (g.clones ++ [Stage.Idle]).countP (Stage.holds period) =
      g.clones.countP (Stage.holds period) := by
    intro period
    simp [countP_append, Stage.holds, Stage.probe]
  refine ⟨?_, h.calls_known, h.marked, h.counted, ?_, ?_⟩
  · intro stage hst p hp
    rcases mem_append.mp hst with hst | hst
    · exact h.clones_known stage hst p hp
    · simp [mem_singleton.mp hst, Stage.probe] at hp
  · intro hs
    simp only [hc]
    exact h.held hs
  · intro hs
    simp only [hc]
    exact h.free hs

theorem Kept.complete (h : Kept g) {now : Nat} (hf : g.calls[f]? = some c)
    (result : Except CamelError α) :
    Kept (g.finish f c (config.afterCall c.current_is_half_open result now g.shared)) := by
  refine h.finish hf ?_
  cases hh : g.shared.halfOpen with
  | false => exact .inl (afterCall_of_not config now hh result _)
  | true =>
    rcases afterCall_of_halfOpen config now hh result c.current_is_half_open with
      hnot | ⟨hc, hs⟩
    · exact .inl hnot
    · -- The failure of a call from before the period changes nothing.
      refine .inr ⟨hs, fun _ => ?_⟩
      cases hp : c.probe with
      | none => simp [InnerCall.holds, hp]
      | some p =>
        have hm := h.marked c (mem_of_getElem? hf) (by simp [hp])
        simp [hc] at hm

theorem Kept.step (h : Kept g) {e : ServiceEvent α} (hc : g.Careful e)
    (hs : g.step config e = some g') : Kept g' := by
  cases e with
  | clone =>
    simp only [Service.step, Option.some.injEq] at hs
    subst hs
    exact h.clone
  | poll_ready k now =>
    simp only [Service.step] at hs
    split at hs
    · rename_i hk
      exact h.pollReady hk hs
    · rename_i hk
      exact h.pollReady hk hs
    · simp at hs
  | inner_ready k answer =>
    simp only [Service.step] at hs
    split at hs
    · rename_i hk
      simp only [Option.some.injEq] at hs
      subst hs
      exact h.innerReady hk hc
    · simp at hs
  | call k now =>
    simp only [Service.step] at hs
    split at hs
    · rename_i hk
      exact h.startCall hk hc hs
    · simp at hs
  | complete f result now =>
    simp only [Service.step] at hs
    cases hf : g.calls[f]? with
    | none => simp [hf] at hs
    | some c =>
      simp only [hf] at hs
      split at hs
      · simp at hs
      · simp only [Option.some.injEq] at hs
        subst hs
        exact h.complete hf result
  | drop f =>
    simp only [Service.step] at hs
    cases hf : g.calls[f]? with
    | none => simp [hf] at hs
    | some c =>
      simp only [hf] at hs
      split at hs
      · simp at hs
      · simp only [Option.some.injEq] at hs
        subst hs
        exact h.finish hf (.inr ⟨rfl, fun hh => hc hh c hf⟩)

theorem Kept.run (h : Kept g) (events : List (ServiceEvent α))
    (hc : g.CarefulAll config events) (hru : g.run config events = some g') : Kept g' := by
  induction events generalizing g with
  | nil =>
    simp only [Service.run, Option.some.injEq] at hru
    rw [← hru]
    exact h
  | cons e events ih =>
    obtain ⟨hf, hr⟩ := hc
    obtain ⟨middle, hs, hru⟩ := Option.bind_eq_some_iff.mp hru
    exact ih (h.step hf hs) (hr middle hs) hru

end

/-! ## The way out of a half open period -/

section

variable {π α : Type} {config : CircuitBreakerConfig π} {g : Service}

/-- Some steps end the half open period. -/
def Service.CanLeave (config : CircuitBreakerConfig π) (α : Type) (g : Service) : Prop :=
  ∃ (events : List (ServiceEvent α)) (g' : Service),
    g.run config events = some g' ∧ g'.shared.halfOpen = false

theorem Service.CanLeave.of_step {e : ServiceEvent α} (hs : g.step config e = some g')
    (h : g'.CanLeave config α) : g.CanLeave config α := by
  obtain ⟨events, last, hr, hlast⟩ := h
  exact ⟨e :: events, last, by simp [Service.run, hs, hr], hlast⟩

theorem call_leaves (hh : g.shared.halfOpen = true) (hf : g.calls[f]? = some c)
    (ho : c.finished = false) (hc : c.current_is_half_open = true) :
    g.CanLeave config α := by
  have hs : g.step config (.complete f (.error .ChannelClosed) 0 : ServiceEvent α) =
      some (g.finish f c (g.shared.reopen 0)) := by
    simp [Service.step, hf, ho, hc, CircuitBreakerConfig.afterCall]
  refine Service.CanLeave.of_step hs ⟨[], _, rfl, ?_⟩
  simp only [Service.finish, SharedBreakerState.reopen_of_halfOpen hh]
  rfl

theorem ready_leaves {probe : Option Nat} (hh : g.shared.halfOpen = true)
    (hk : g.clones[k]? = some (.Ready probe)) : g.CanLeave config α := by
  obtain ⟨hs, -⟩ | ⟨hs, -⟩ | ⟨-, hca⟩ | ⟨hs, -⟩ := call_cases config 0 g.shared
  · simp [not_halfOpen_of_closed hs] at hh
  · simp [not_halfOpen_of_open hs] at hh
  · obtain ⟨g', hst, hsh, c, hc, ho, hcu⟩ : ∃ g',
        g.startCall config k 0 probe = some g' ∧ g'.shared = g.shared ∧ ∃ c : InnerCall,
          g'.calls = g.calls ++ [c] ∧ c.finished = false ∧ c.current_is_half_open = true := by
      simp only [Service.startCall, hca]
      exact ⟨_, rfl, rfl, _, rfl, rfl, rfl⟩
    have hste : g.step config (.call k 0 : ServiceEvent α) = some g' := by
      simpa [Service.step, hk] using hst
    refine Service.CanLeave.of_step hste ?_
    exact call_leaves (f := g.calls.length) (by rw [hsh]; exact hh) (by simp [hc]) ho hcu
  · simp [not_halfOpen_of_open hs] at hh

theorem polling_leaves {probe : Option Nat} (hh : g.shared.halfOpen = true)
    (hk : g.clones[k]? = some (.Polling probe)) : g.CanLeave config α := by
  have hl := (List.getElem?_eq_some_iff.mp hk).1
  have hs : g.step config (.inner_ready k (.Ready (.ok ())) : ServiceEvent α) =
      some { g with clones := g.clones.set k (.Ready probe) } := by
    simp [Service.step, hk, Service.innerReady]
  refine Service.CanLeave.of_step hs (@ready_leaves k π α config _ probe hh ?_)
  simp [hl]

theorem Kept.can_leave (h : Kept g) (hha : g.shared.halfOpen = true) (hhe : g.Held) :
    g.CanLeave config α := by
  rcases hhe with ⟨stage, hm, hh⟩ | ⟨c, hm, hh⟩
  · obtain ⟨k, hk⟩ := getElem?_of_mem hm
    cases stage with
    | Idle => simp [Stage.holds, Stage.probe] at hh
    | Polling probe => exact polling_leaves hha hk
    | Ready probe => exact ready_leaves hha hk
  · obtain ⟨f, hf⟩ := getElem?_of_mem hm
    simp only [InnerCall.holds, and_eq_true, not_eq_true', decide_eq_true_eq] at hh
    exact call_leaves hha hf hh.1 (h.marked c hm (by simp [hh.2]))

/-- After careful steps a slot that is taken has a holder, the half open period can still
end, and at most one inner call was started in it. -/
theorem half_open_never_wedges (config : CircuitBreakerConfig π) (events : List (ServiceEvent α))
    (g : Service) (hcareful : Service.new.CarefulAll config events)
    (hrun : Service.new.run config events = some g) :
    (g.shared.state = .HALF_OPEN_PROBE_HELD → g.Held ∧ g.CanLeave config α) ∧
      (g.shared.halfOpen = true → g.started ≤ 1) := by
  have hk := kept_new.run events hcareful hrun
  constructor
  · intro hs
    have ho := hk.held hs
    have hh : g.Held := by
      by_cases hc : 0 < g.clones.countP (Stage.holds g.periods)
      · exact .inl (countP_pos_iff.mp hc)
      · exact .inr (countP_pos_iff.mp (by omega))
    exact ⟨hh, hk.can_leave (halfOpen_of_held hs) hh⟩
  · intro hha
    rw [hk.counted hha]
    rcases held_or_free hha with hs | hs
    · have := hk.held hs
      omega
    · have := hk.free hs
      omega

/-- The only clone calls and fails. -/
def failing : List (ServiceEvent Unit) :=
  [.poll_ready 0 0, .inner_ready 0 (.Ready (.ok ())), .call 0 0,
    .complete 0 (.error .ChannelClosed) 0]

/-- The probe finds the inner service not ready at once, comes again, and calls. -/
def patient : List (ServiceEvent Unit) :=
  failing.append [.poll_ready 0 9, .inner_ready 0 .Pending,
    .poll_ready 0 10, .inner_ready 0 (.Ready (.ok ())), .call 0 10]

theorem patient_probe_never_wedges : Service.new.CarefulAll touchy patient ∧
    ∃ g, Service.new.run touchy patient = some g ∧ g.shared.state = .HALF_OPEN_PROBE_HELD ∧
      g.Held ∧ g.CanLeave touchy Unit := by
  have hc : Service.new.CarefulAll touchy patient := by decide
  refine ⟨hc, _, rfl, rfl, ?_⟩
  exact (half_open_never_wedges touchy patient _ hc rfl).1 rfl

/-- The inner service answers the probe with an error. -/
def erring : List (ServiceEvent Unit) :=
  failing.append [.poll_ready 0 9, .inner_ready 0 (.Ready (.error .ChannelClosed))]

/-- Two clones are made ready by the closed circuit, one fails and comes again as the probe,
and the other calls beside it. -/
def crowded : List (ServiceEvent Unit) :=
  [[.clone, .poll_ready 1 0, .inner_ready 1 (.Ready (.ok ()))], failing,
    [.poll_ready 0 9, .inner_ready 0 (.Ready (.ok ())), .call 0 9, .call 1 9]].flatten

/-- Nobody holds the slot, or two calls are out. -/
theorem half_open_wedges :
    (∃ g, Service.new.run touchy erring = some g ∧
      g.shared.state = .HALF_OPEN_PROBE_HELD ∧ ¬g.Held) ∧
    ∃ g, Service.new.run touchy crowded = some g ∧ g.shared.halfOpen = true ∧ g.started = 2 := by
  refine ⟨⟨_, rfl, rfl, by decide⟩, ⟨_, rfl, rfl, rfl⟩⟩

end

end camel_processor.circuit_breaker
