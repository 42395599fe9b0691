-- The circuit breaker gate of `circuit_breaker.rs`. It lets one caller try the route
-- after it was open, and decides by the results that come back. No result says which
-- call it belongs to, so an old one can decide too.
import RustCamel.Api.Exchange

open List

namespace camel_processor.circuit_breaker

open camel_api.error (CamelError)

/-! ## The shared state -/

/-- The codes of the state word. -/
inductive BreakerState where
  | CLOSED
  | OPEN
  | HALF_OPEN_PROBE_HELD
  | HALF_OPEN_PROBE_FREE
  deriving DecidableEq

def BreakerState.halfOpen : BreakerState → Bool
  | .HALF_OPEN_PROBE_HELD | .HALF_OPEN_PROBE_FREE => true
  | .CLOSED | .OPEN => false

/-- `π` are the processors. The success threshold is not read by the breaker. -/
structure CircuitBreakerConfig (π : Type) where
  failure_threshold : UInt32
  open_duration : Nat
  fallback : Option π

/-- An instant is its time on the clock. -/
structure SharedBreakerState where
  state : BreakerState
  consecutive_failures : UInt32
  opened_at : Option Nat
  deriving DecidableEq

inductive HalfOpenTransition where
  | Transitioned
  | NotExpired
  | LostRace

namespace SharedBreakerState

def new : SharedBreakerState := ⟨.CLOSED, 0, none⟩

def halfOpen (s : SharedBreakerState) : Bool := s.state.halfOpen

def compare_exchange (s : SharedBreakerState) (current new : BreakerState) :
    Bool × SharedBreakerState :=
  if s.state = current then (true, { s with state := new }) else (false, s)

def try_transition_to_half_open (s : SharedBreakerState) (open_duration now : Nat) :
    HalfOpenTransition × SharedBreakerState :=
  let expired := match s.opened_at with
    | some opened => decide (open_duration ≤ now - opened)
    | none => false
  if !expired then (.NotExpired, s)
  else match s.compare_exchange .OPEN .HALF_OPEN_PROBE_HELD with
    | (true, s) => (.Transitioned, s)
    | (false, s) => (.LostRace, s)

/-- The loop that closes a half open circuit, with the tries that are left. -/
def recover : Nat → SharedBreakerState → SharedBreakerState
  | 0, s => s
  | tries + 1, s =>
    if s.state ≠ .HALF_OPEN_PROBE_HELD ∧ s.state ≠ .HALF_OPEN_PROBE_FREE then s
    else match s.compare_exchange s.state .CLOSED with
      | (true, s) => { s with consecutive_failures := 0 }
      | (false, s) => recover tries s

variable (s : SharedBreakerState)

/-- A success, as the gate and the service take it. -/
def onOk : SharedBreakerState :=
  if s.state = .CLOSED then
    if s.consecutive_failures = 0 then s else { s with consecutive_failures := 0 }
  else if s.halfOpen then s.recover 3
  else s

/-- A failure that opens a half open circuit again. -/
def reopen (now : Nat) : SharedBreakerState :=
  if !s.halfOpen then s
  else ({ s with opened_at := some now }.compare_exchange s.state .OPEN).2

/-- A failure of a closed circuit. -/
def countFailure (failure_threshold : UInt32) (now : Nat) : SharedBreakerState :=
  if s.state ≠ .CLOSED then s
  else
    let prev := s.consecutive_failures
    let s := { s with consecutive_failures := prev + 1 }
    if failure_threshold ≤ prev + 1 then
      ({ s with opened_at := some now }.compare_exchange .CLOSED .OPEN).2
    else s

end SharedBreakerState

/-! ## The gate -/

inductive CircuitBreakerDecision (π : Type) where
  | Allow
  | Fallback (fallback : π)
  | Reject (err : CamelError)

section Gate

variable {π α : Type}

namespace CircuitBreakerConfig

variable (config : CircuitBreakerConfig π)

/-- What a caller gets while the circuit does not let it through. -/
def turnAway (msg : String) : CircuitBreakerDecision π :=
  match config.fallback with
  | some fallback => .Fallback fallback
  | none => .Reject (.CircuitOpen msg)

/-- The loop of `before_call`, with the rounds it may take. -/
def before_call_loop (now : Nat) : Nat → SharedBreakerState →
    Option (CircuitBreakerDecision π) × SharedBreakerState
  | 0, s => (none, s)
  | rounds + 1, s =>
    match s.state with
    | .CLOSED => (some .Allow, s)
    | .OPEN =>
      match s.try_transition_to_half_open config.open_duration now with
      | (.Transitioned, s) => (some .Allow, s)
      | (.NotExpired, s) => (some (config.turnAway "circuit breaker is open"), s)
      | (.LostRace, s) => before_call_loop now rounds s
    | .HALF_OPEN_PROBE_HELD =>
      (some (config.turnAway "circuit breaker is half-open (probe in flight)"), s)
    | .HALF_OPEN_PROBE_FREE =>
      match s.compare_exchange .HALF_OPEN_PROBE_FREE .HALF_OPEN_PROBE_HELD with
      | (true, s) => (some .Allow, s)
      | (false, s) => before_call_loop now rounds s

/-- `before_call` as one step. No other caller moves the state in between, so no exchange
is lost and one round is enough. -/
def before_call (now : Nat) (s : SharedBreakerState) :
    Option (CircuitBreakerDecision π) × SharedBreakerState :=
  config.before_call_loop now 1 s

def after_result (result : Except CamelError α) (now : Nat) (s : SharedBreakerState) :
    SharedBreakerState :=
  match result with
  | .ok _ => s.onOk
  | .error _ =>
    if s.halfOpen then s.reopen now
    else if s.state = .CLOSED then s.countFailure config.failure_threshold now
    else s

end CircuitBreakerConfig

/-! ## The callers -/

/-- A call that was let through. `probe_of` is the half open period it is the probe of, and
`none` when the circuit was closed. -/
structure Admission where
  probe_of : Option Nat
  reported : Bool

/-- The gate and its callers. `periods` counts the half open periods so far. -/
structure Gate where
  shared : SharedBreakerState
  periods : Nat
  calls : List Admission

def Gate.new : Gate := ⟨.new, 0, []⟩

/-- What callers do. A call whose future is dropped never reports. -/
inductive GateEvent (α : Type) where
  | before_call (now : Nat)
  | after_result (call : Nat) (result : Except CamelError α) (now : Nat)

namespace Gate

def letIn (g : Gate) (shared : SharedBreakerState) : Gate :=
  let periods := if g.shared.state = .OPEN then g.periods + 1 else g.periods
  let probe_of := if g.shared.state = .CLOSED then none else some periods
  ⟨shared, periods, g.calls ++ [⟨probe_of, false⟩]⟩

def report (g : Gate) (call : Nat) (shared : SharedBreakerState) : Gate :=
  { g with shared, calls := g.calls.modify call fun a => { a with reported := true } }

/-- One step of a caller, with its decision. Only a call that was let through reports, and
it reports once. -/
def step (config : CircuitBreakerConfig π) (g : Gate) :
    GateEvent α → Option (Option (CircuitBreakerDecision π) × Gate)
  | .before_call now =>
    match config.before_call now g.shared with
    | (some .Allow, shared) => some (some .Allow, g.letIn shared)
    | (decision, shared) => some (decision, { g with shared })
  | .after_result call result now =>
    match g.calls[call]? with
    | some a =>
      if a.reported then none
      else some (none, g.report call (config.after_result result now g.shared))
    | none => none

end Gate

/-- A step that was taken. -/
structure Record (π α : Type) where
  before : Gate
  event : GateEvent α
  decision : Option (CircuitBreakerDecision π)
  after : Gate

/-- The steps of callers in any order. -/
inductive GateRun (config : CircuitBreakerConfig π) : Gate → List (Record π α) → Gate → Prop
  | nil (g : Gate) : GateRun config g [] g
  | cons {g g' g'' : Gate} {event : GateEvent α}
      {decision : Option (CircuitBreakerDecision π)} {log : List (Record π α)} :
      g.step config event = some (decision, g') → GateRun config g' log g'' →
      GateRun config g (⟨g, event, decision, g'⟩ :: log) g''

end Gate

/-! ## What a step does -/

namespace SharedBreakerState

variable {s : SharedBreakerState} {now : Nat}

theorem halfOpen_iff :
    s.halfOpen = true ↔ s.state = .HALF_OPEN_PROBE_HELD ∨ s.state = .HALF_OPEN_PROBE_FREE := by
  cases hs : s.state <;> simp [halfOpen, BreakerState.halfOpen, hs]

theorem compare_exchange_self (s : SharedBreakerState) (new : BreakerState) :
    s.compare_exchange s.state new = (true, { s with state := new }) := by
  simp [compare_exchange]

theorem try_transition_of_open (h : s.state = .OPEN) (open_duration now : Nat) :
    s.try_transition_to_half_open open_duration now =
        (.Transitioned, { s with state := .HALF_OPEN_PROBE_HELD }) ∨
      s.try_transition_to_half_open open_duration now = (.NotExpired, s) := by
  unfold try_transition_to_half_open
  simp only [compare_exchange, h, if_true]
  by_cases he : (match s.opened_at with
    | some opened => decide (open_duration ≤ now - opened)
    | none => false) = true
  · exact .inl (by simp [he])
  · exact .inr (by simp [he])

/-- The first try closes the circuit, since nothing moves the state in between. -/
theorem recover_of_halfOpen (h : s.halfOpen = true) :
    s.recover 3 = { s with state := .CLOSED, consecutive_failures := 0 } := by
  have hs : ¬(s.state ≠ .HALF_OPEN_PROBE_HELD ∧ s.state ≠ .HALF_OPEN_PROBE_FREE) := by
    rintro ⟨hh, hf⟩
    exact (halfOpen_iff.mp h).elim hh hf
  simp [recover, hs, compare_exchange_self]

theorem onOk_of_halfOpen (h : s.halfOpen = true) :
    s.onOk = { s with state := .CLOSED, consecutive_failures := 0 } := by
  have hn : s.state ≠ .CLOSED := by
    intro hs
    simp [halfOpen_iff, hs] at h
  rw [onOk, if_neg hn, if_pos h, recover_of_halfOpen h]

theorem reopen_of_halfOpen (h : s.halfOpen = true) :
    s.reopen now = { s with state := .OPEN, opened_at := some now } := by
  simp [reopen, h, compare_exchange]

theorem onOk_state_of_not (h : s.halfOpen = false) : s.onOk.state = s.state := by
  unfold onOk
  split
  · split <;> rfl
  · simp [h]

theorem countFailure_not_halfOpen (h : s.halfOpen = false) (threshold : UInt32) :
    (s.countFailure threshold now).halfOpen = false := by
  unfold countFailure
  split
  · exact h
  · rename_i hs
    simp only [ne_eq, Decidable.not_not] at hs
    simp only [compare_exchange, hs, if_true]
    split
    · rfl
    · simpa [halfOpen, hs] using h

end SharedBreakerState

section

variable {s : SharedBreakerState}

theorem held_or_free (h : s.halfOpen = true) :
    s.state = .HALF_OPEN_PROBE_HELD ∨ s.state = .HALF_OPEN_PROBE_FREE :=
  SharedBreakerState.halfOpen_iff.mp h

theorem halfOpen_of_held (h : s.state = .HALF_OPEN_PROBE_HELD) : s.halfOpen = true :=
  SharedBreakerState.halfOpen_iff.mpr (.inl h)

theorem halfOpen_of_free (h : s.state = .HALF_OPEN_PROBE_FREE) : s.halfOpen = true :=
  SharedBreakerState.halfOpen_iff.mpr (.inr h)

theorem not_halfOpen_of_open (h : s.state = .OPEN) : s.halfOpen = false := by
  simp [SharedBreakerState.halfOpen, BreakerState.halfOpen, h]

theorem not_halfOpen_of_closed (h : s.state = .CLOSED) : s.halfOpen = false := by
  simp [SharedBreakerState.halfOpen, BreakerState.halfOpen, h]

end

section

variable {π α : Type} {config : CircuitBreakerConfig π} {s : SharedBreakerState}

theorem turnAway_ne_allow (config : CircuitBreakerConfig π) (msg : String) :
    config.turnAway msg ≠ .Allow := by
  unfold CircuitBreakerConfig.turnAway
  split <;> simp

/-- A caller is let through by a closed circuit, as the first after the open time, or into a
free slot. Otherwise it is turned away and changes nothing. -/
theorem before_call_cases (config : CircuitBreakerConfig π) (now : Nat) (s : SharedBreakerState) :
    (s.state = .CLOSED ∧ config.before_call now s = (some .Allow, s)) ∨
    ((s.state = .OPEN ∨ s.state = .HALF_OPEN_PROBE_FREE) ∧
      config.before_call now s = (some .Allow, { s with state := .HALF_OPEN_PROBE_HELD })) ∨
    ((s.state = .OPEN ∨ s.state = .HALF_OPEN_PROBE_HELD) ∧
      ∃ msg, config.before_call now s = (some (config.turnAway msg), s)) := by
  unfold CircuitBreakerConfig.before_call CircuitBreakerConfig.before_call_loop
  cases hs : s.state with
  | CLOSED => exact .inl ⟨rfl, rfl⟩
  | HALF_OPEN_PROBE_HELD => exact .inr (.inr ⟨.inr rfl, _, rfl⟩)
  | HALF_OPEN_PROBE_FREE =>
    refine .inr (.inl ⟨.inr rfl, ?_⟩)
    simp [SharedBreakerState.compare_exchange, hs]
  | OPEN =>
    rcases SharedBreakerState.try_transition_of_open hs config.open_duration now with ht | ht
    · exact .inr (.inl ⟨by simp, by simp [ht]⟩)
    · exact .inr (.inr ⟨by simp, "circuit breaker is open", by simp [ht]⟩)

theorem after_result_of_halfOpen (h : s.halfOpen = true) (result : Except CamelError α)
    (now : Nat) : (config.after_result result now s).halfOpen = false := by
  unfold CircuitBreakerConfig.after_result
  cases result with
  | ok _ =>
    simp only [SharedBreakerState.onOk_of_halfOpen h]
    rfl
  | error _ =>
    simp only [h, if_true, SharedBreakerState.reopen_of_halfOpen h]
    rfl

theorem after_result_of_not (h : s.halfOpen = false) (result : Except CamelError α) (now : Nat) :
    (config.after_result result now s).halfOpen = false := by
  unfold CircuitBreakerConfig.after_result
  cases result with
  | ok _ => simpa [SharedBreakerState.halfOpen, SharedBreakerState.onOk_state_of_not h] using h
  | error _ =>
    simp only [h, Bool.false_eq_true, if_false]
    split
    · exact SharedBreakerState.countFailure_not_halfOpen h _
    · exact h

variable {g g' : Gate} {event : GateEvent α} {decision : Option (CircuitBreakerDecision π)}

/-- The gate lets a call through while it is closed. -/
structure AdmitsClosed (g : Gate) (event : GateEvent α)
    (decision : Option (CircuitBreakerDecision π)) (g' : Gate) : Prop where
  asked : ∃ now, event = .before_call now
  allowed : decision = some .Allow
  closed : g.shared.state = .CLOSED
  after : g' = { g with calls := g.calls ++ [⟨none, false⟩] }

/-- The gate lets the probe of a new half open period through. -/
structure AdmitsProbe (g : Gate) (event : GateEvent α)
    (decision : Option (CircuitBreakerDecision π)) (g' : Gate) : Prop where
  asked : ∃ now, event = .before_call now
  allowed : decision = some .Allow
  opened : g.shared.state = .OPEN
  after : g' = ⟨{ g.shared with state := .HALF_OPEN_PROBE_HELD }, g.periods + 1,
    g.calls ++ [⟨some (g.periods + 1), false⟩]⟩

structure TurnsAway (g : Gate) (event : GateEvent α)
    (decision : Option (CircuitBreakerDecision π)) (g' : Gate) : Prop where
  asked : ∃ now, event = .before_call now
  refused : decision ≠ some .Allow
  same : g' = g

/-- A call reports. -/
structure Reports (config : CircuitBreakerConfig π) (g : Gate) (event : GateEvent α)
    (decision : Option (CircuitBreakerDecision π)) (g' : Gate) : Prop where
  silent : decision = none
  told : ∃ call result now probe_of, event = .after_result call result now ∧
    g.calls[call]? = some ⟨probe_of, false⟩ ∧
    g' = g.report call (config.after_result result now g.shared)

variable (hfree : g.shared.state ≠ .HALF_OPEN_PROBE_FREE)
  (h : g.step config event = some (decision, g'))

include hfree h

/-- What one step of a gate can be. The gate itself never frees the probe slot. -/
theorem step_cases :
    AdmitsClosed g event decision g' ∨ AdmitsProbe g event decision g' ∨
      TurnsAway g event decision g' ∨ Reports config g event decision g' := by
  cases event with
  | before_call now =>
    unfold Gate.step at h
    obtain ⟨hc, hca⟩ | ⟨ho | hs, hca⟩ | ⟨-, msg, hca⟩ := before_call_cases config now g.shared
    · simp only [hca, Option.some.injEq, Prod.mk.injEq] at h
      obtain ⟨rfl, rfl⟩ := h
      exact .inl ⟨⟨now, rfl⟩, rfl, hc, by simp [Gate.letIn, hc]⟩
    · simp only [hca, Option.some.injEq, Prod.mk.injEq] at h
      obtain ⟨rfl, rfl⟩ := h
      exact .inr (.inl ⟨⟨now, rfl⟩, rfl, ho, by simp [Gate.letIn, ho]⟩)
    · exact absurd hs hfree
    · have hn := turnAway_ne_allow config msg
      simp only [hca] at h
      cases ht : config.turnAway msg with
      | Allow => exact absurd ht hn
      | Fallback _ | Reject _ =>
        simp only [ht, Option.some.injEq, Prod.mk.injEq] at h
        obtain ⟨rfl, rfl⟩ := h
        exact .inr (.inr (.inl ⟨⟨now, rfl⟩, by simp, rfl⟩))
  | after_result call result now =>
    unfold Gate.step at h
    cases ha : g.calls[call]? with
    | none => simp [ha] at h
    | some a =>
      simp only [ha] at h
      cases hr : a.reported with
      | true => simp [hr] at h
      | false =>
        simp only [hr, Bool.false_eq_true, if_false, Option.some.injEq, Prod.mk.injEq] at h
        obtain ⟨rfl, rfl⟩ := h
        refine .inr (.inr (.inr ⟨rfl, call, result, now, a.probe_of, rfl, ?_, rfl⟩))
        rw [ha, ← hr]

theorem step_not_free : g'.shared.state ≠ .HALF_OPEN_PROBE_FREE := by
  obtain hs | hs | hs | hs := step_cases hfree h
  · rw [hs.after]
    exact hfree
  · simp [hs.after]
  · rw [hs.same]
    exact hfree
  · obtain ⟨call, result, now, probe_of, -, -, rfl⟩ := hs.told
    have hnot : (config.after_result result now g.shared).halfOpen = false := by
      cases hh : g.shared.halfOpen with
      | true => exact after_result_of_halfOpen hh result now
      | false => exact after_result_of_not hh result now
    intro hsl
    simp only [Gate.report] at hsl
    simp [halfOpen_of_free hsl] at hnot

end

/-! ## One probe for each half open period -/

section

variable {π α : Type} {config : CircuitBreakerConfig π} {g g' : Gate} {log log' : List (Record π α)}

def Record.allows (r : Record π α) : Bool :=
  match r.decision with
  | some .Allow => true
  | _ => false

theorem allows_iff (r : Record π α) : r.allows = true ↔ r.decision = some .Allow := by
  unfold Record.allows
  split <;> simp_all

theorem GateRun.of_append (h : GateRun config g (log ++ log') g') :
    ∃ middle, GateRun config g log middle ∧ GateRun config middle log' g' := by
  induction log generalizing g with
  | nil => exact ⟨g, .nil g, h⟩
  | cons r log ih =>
    cases h with
    | cons hs hru =>
      obtain ⟨middle, hf, hr⟩ := ih hru
      exact ⟨middle, .cons hs hf, hr⟩

theorem GateRun.not_free (h : GateRun config g log g')
    (hfree : g.shared.state ≠ .HALF_OPEN_PROBE_FREE) :
    g'.shared.state ≠ .HALF_OPEN_PROBE_FREE := by
  induction h with
  | nil g => exact hfree
  | cons hs _ ih => exact ih (step_not_free hfree hs)

theorem nobody_else_is_allowed (h : GateRun config g log g')
    (hh : g.shared.state = .HALF_OPEN_PROBE_HELD)
    (hs : ∀ r ∈ log, r.after.shared.halfOpen = true) : ∀ r ∈ log, r.allows = false := by
  induction h with
  | nil g => simp
  | @cons g g' g'' event decision log hst hru ih =>
    have hha : g.shared.halfOpen = true := halfOpen_of_held hh
    have ha : g'.shared.halfOpen = true := hs ⟨g, event, decision, g'⟩ (by simp)
    obtain hc | hc | hc | hc := step_cases (by simp [hh]) hst
    · simp [hc.closed] at hh
    · simp [hc.opened] at hh
    · -- A caller that is turned away leaves the gate as it is.
      have hsa := hc.same
      subst hsa
      intro r hr
      rcases mem_cons.mp hr with rfl | hr
      · rw [← Bool.not_eq_true, allows_iff]
        exact hc.refused
      · exact ih hh (fun r hr => hs r (by simp [hr])) r hr
    · -- A report would have ended the period.
      obtain ⟨call, result, now, probe_of, -, -, rfl⟩ := hc.told
      simp only [Gate.report, after_result_of_halfOpen hha] at ha
      simp at ha

/-- From the step that makes the gate half open, and as long as it stays so, one call of
`before_call` is answered with `Allow`. -/
theorem half_open_admits_one_probe (config : CircuitBreakerConfig π)
    (before during after : List (Record π α)) (t : Record π α)
    (hrun : GateRun config .new (before ++ t :: during ++ after) g)
    (hopen : t.before.shared.state = .OPEN) (hhalf : t.after.shared.halfOpen = true)
    (hstays : ∀ r ∈ during, r.after.shared.halfOpen = true) :
    ((t :: during).filter Record.allows).length = 1 := by
  rw [append_assoc] at hrun
  obtain ⟨middle, hb, hrun⟩ := hrun.of_append
  obtain ⟨_, hrun, -⟩ := hrun.of_append
  have hfree := hb.not_free (by simp [Gate.new, SharedBreakerState.new])
  cases hrun with
  | @cons _ half _ event decision _ hs hrun =>
    have ha : AdmitsProbe middle event decision half := by
      simp only at hopen hhalf
      obtain hc | hc | hc | hc := step_cases hfree hs
      · simp [hc.closed] at hopen
      · exact hc
      · rw [hc.same] at hhalf
        simp [not_halfOpen_of_open hopen] at hhalf
      · obtain ⟨call, result, now, probe_of, -, -, rfl⟩ := hc.told
        have ho : middle.shared.halfOpen = false := not_halfOpen_of_open hopen
        simp only [Gate.report, after_result_of_not ho] at hhalf
        simp at hhalf
    have hn := nobody_else_is_allowed hrun (by rw [ha.after]) hstays
    have hf : (⟨middle, event, decision, half⟩ : Record π α).allows = true := by
      rw [allows_iff]
      exact ha.allowed
    rw [filter_cons_of_pos hf, filter_eq_nil_iff.mpr]
    · rfl
    · intro r hr
      simp [hn r hr]

/-- A gate that one failure opens for 5 units of time. -/
def touchy : CircuitBreakerConfig Unit := ⟨1, 5, none⟩

/-- The gate after two calls went through and the first one failed at time 0. -/
def opened : Gate := ⟨⟨.OPEN, 1, some 0⟩, 0, [⟨none, true⟩, ⟨none, false⟩]⟩

/-- The gate after a third call came as the probe. -/
def probing : Gate :=
  ⟨⟨.HALF_OPEN_PROBE_HELD, 1, some 0⟩, 1, [⟨none, true⟩, ⟨none, false⟩, ⟨some 1, false⟩]⟩

/-- The steps that lead to `opened`. -/
def opening : List (Record Unit Unit) :=
  [⟨.new, .before_call 0, some .Allow, ⟨.new, 0, [⟨none, false⟩]⟩⟩,
    ⟨⟨.new, 0, [⟨none, false⟩]⟩, .before_call 0, some .Allow,
      ⟨.new, 0, [⟨none, false⟩, ⟨none, false⟩]⟩⟩,
    ⟨⟨.new, 0, [⟨none, false⟩, ⟨none, false⟩]⟩, .after_result 0 (.error .ChannelClosed) 0, none,
      opened⟩]

theorem GateRun.begin (event : GateEvent α) {decision : Option (CircuitBreakerDecision π)}
    {g'' : Gate} (hs : g.step config event = some (decision, g'))
    (hr : GateRun config g' log g'') :
    GateRun config g (⟨g, event, decision, g'⟩ :: log) g'' :=
  .cons hs hr

theorem opening_run {log : List (Record Unit Unit)} (h : GateRun touchy opened log g) :
    GateRun touchy .new (opening ++ log) g :=
  .cons rfl (.cons rfl (.cons rfl h))

/-- A second caller at the same time is turned away. -/
theorem two_callers_find_one_slot : ∃ (t r : Record Unit Unit),
    GateRun touchy .new (opening ++ t :: [r] ++ []) probing ∧
      t.event = .before_call 9 ∧ r.event = .before_call 9 ∧
      (([t, r]).filter Record.allows).length = 1 := by
  have hr : GateRun touchy .new (opening ++ ⟨opened, .before_call 9, some .Allow, probing⟩ ::
      [⟨probing, .before_call 9, some (touchy.turnAway
        "circuit breaker is half-open (probe in flight)"), probing⟩] ++ []) probing :=
    opening_run (.cons rfl (.cons rfl (.nil _)))
  exact ⟨_, _, hr, rfl, rfl,
    half_open_admits_one_probe touchy opening _ [] _ hr rfl rfl (by simp [probing]; rfl)⟩

end

/-! ## Who decides a half open period -/

section

variable {π α : Type} {config : CircuitBreakerConfig π} {g g' : Gate} {log : List (Record π α)}

/-- A step that ends the half open period is the report of its probe, and the report of a
call that a closed circuit let through changes nothing. -/
structure DecidedByProbe (r : Record π α) : Prop where
  probe : r.before.shared.halfOpen = true → r.after.shared.halfOpen = false →
    ∃ call result now, r.event = .after_result call result now ∧
      r.before.calls[call]? = some ⟨some r.before.periods, false⟩
  others : r.before.shared.halfOpen = true → ∀ call result now,
    r.event = .after_result call result now → r.before.calls[call]? = some ⟨none, false⟩ →
      r.after.shared = r.before.shared

/-- No call that a closed circuit let through reports while the circuit is half open. -/
def Prompt (r : Record π α) : Prop :=
  r.before.shared.halfOpen = true → ∀ call result now,
    r.event = .after_result call result now → r.before.calls[call]? ≠ some ⟨none, false⟩

/-- A probe that has not reported is the one of the half open period. -/
structure Probed (g : Gate) : Prop where
  held : g.shared.state ≠ .HALF_OPEN_PROBE_FREE
  known : ∀ (i k : Nat) (r : Bool), g.calls[i]? = some ⟨some k, r⟩ → k ≤ g.periods
  once : ∀ (i j k : Nat) (r r' : Bool), g.calls[i]? = some ⟨some k, r⟩ →
    g.calls[j]? = some ⟨some k, r'⟩ → i = j
  waiting : ∀ i k : Nat, g.calls[i]? = some ⟨some k, false⟩ →
    g.shared.halfOpen = true ∧ k = g.periods

theorem probed_new : Probed .new where
  held := by simp [Gate.new, SharedBreakerState.new]
  known := by simp [Gate.new]
  once := by simp [Gate.new]
  waiting := by simp [Gate.new]

theorem getElem?_snoc {calls : List Admission} {a b : Admission} {i : Nat}
    (h : (calls ++ [a])[i]? = some b) : calls[i]? = some b ∨ i = calls.length ∧ b = a := by
  rcases Nat.lt_trichotomy i calls.length with hi | rfl | hi
  · rw [getElem?_append_left hi] at h
    exact .inl h
  · simp at h
    exact .inr ⟨rfl, h.symm⟩
  · rw [getElem?_eq_none (by simp; omega)] at h
    simp at h

theorem Probed.admitsClosed (h : Probed g) :
    Probed { g with calls := g.calls ++ [⟨none, false⟩] } := by
  have hold : ∀ (i k : Nat) (r : Bool),
      (g.calls ++ [⟨none, false⟩])[i]? = some ⟨some k, r⟩ → g.calls[i]? = some ⟨some k, r⟩ := by
    intro i k r ha
    simpa using getElem?_snoc ha
  refine ⟨h.held, ?_, ?_, ?_⟩
  · intro i k r ha
    exact h.known i k r (hold i k r ha)
  · intro i j k r r' ha hb
    exact h.once i j k r r' (hold i k r ha) (hold j k r' hb)
  · intro i k ha
    exact h.waiting i k (hold i k false ha)

theorem Probed.admitsProbe (h : Probed g) (ho : g.shared.state = .OPEN) :
    Probed ⟨{ g.shared with state := .HALF_OPEN_PROBE_HELD }, g.periods + 1,
      g.calls ++ [⟨some (g.periods + 1), false⟩]⟩ := by
  refine ⟨by simp, ?_, ?_, ?_⟩
  · intro i k r ha
    rcases getElem?_snoc ha with ha | ⟨-, heq⟩
    · exact Nat.le_succ_of_le (h.known i k r ha)
    · simp only [Admission.mk.injEq, Option.some.injEq] at heq
      exact Nat.le_of_eq heq.1
  · intro i j k r r' ha hb
    rcases getElem?_snoc ha with ha | ⟨rfl, heq⟩ <;>
      rcases getElem?_snoc hb with hb | ⟨rfl, he'⟩
    · exact h.once i j k r r' ha hb
    · have := h.known i k r ha
      simp only [Admission.mk.injEq, Option.some.injEq] at he'
      omega
    · have := h.known j k r' hb
      simp only [Admission.mk.injEq, Option.some.injEq] at heq
      omega
    · rfl
  · intro i k ha
    rcases getElem?_snoc ha with ha | ⟨-, heq⟩
    · have hh := (h.waiting i k ha).1
      simp [not_halfOpen_of_open ho] at hh
    · simp only [Admission.mk.injEq, Option.some.injEq] at heq
      exact ⟨rfl, heq.1⟩

theorem report_calls {call i : Nat} {b : Admission} {shared : SharedBreakerState}
    (h : (g.report call shared).calls[i]? = some b) :
    (i ≠ call ∧ g.calls[i]? = some b) ∨
      (i = call ∧ ∃ a, g.calls[i]? = some a ∧ b = { a with reported := true }) := by
  simp only [Gate.report, getElem?_modify] at h
  obtain ⟨a, ha, rfl⟩ := Option.map_eq_some_iff.mp h
  by_cases hi : call = i
  · exact .inr ⟨hi.symm, a, ha, by simp [hi]⟩
  · exact .inl ⟨fun heq => hi heq.symm, by simp [hi, ha]⟩

theorem Probed.reports (h : Probed g) {call : Nat} {probe_of : Option Nat}
    {result : Except CamelError α} {now : Nat}
    (hc : g.calls[call]? = some ⟨probe_of, false⟩)
    (hp : g.shared.halfOpen = true → probe_of ≠ none) :
    Probed (g.report call (config.after_result result now g.shared)) := by
  have hnot : (config.after_result result now g.shared).halfOpen = false := by
    cases hh : g.shared.halfOpen with
    | true => exact after_result_of_halfOpen hh result now
    | false => exact after_result_of_not hh result now
  have hold : ∀ (i k : Nat) (r : Bool),
      (g.report call (config.after_result result now g.shared)).calls[i]? = some ⟨some k, r⟩ →
      ∃ r', g.calls[i]? = some ⟨some k, r'⟩ := by
    intro i k r ha
    rcases report_calls ha with ⟨-, ha⟩ | ⟨-, a, ha, heq⟩
    · exact ⟨r, ha⟩
    · simp only [Admission.mk.injEq] at heq
      exact ⟨a.reported, by rw [ha, heq.1]⟩
  refine ⟨?_, ?_, ?_, ?_⟩
  · intro hs
    simp only [Gate.report] at hs
    simp [halfOpen_of_free hs] at hnot
  · intro i k r ha
    obtain ⟨r', ha⟩ := hold i k r ha
    exact h.known i k r' ha
  · intro i j k r r' ha hb
    obtain ⟨_, ha⟩ := hold i k r ha
    obtain ⟨_, hb⟩ := hold j k r' hb
    exact h.once i j k _ _ ha hb
  · -- A probe that still waits would be the one that just reported.
    intro i k ha
    rcases report_calls ha with ⟨hn, ha⟩ | ⟨-, a, -, heq⟩
    · obtain ⟨hh, rfl⟩ := h.waiting i k ha
      cases probe_of with
      | none => exact absurd rfl (hp hh)
      | some k =>
        obtain ⟨-, rfl⟩ := h.waiting call k hc
        exact absurd (h.once i call _ _ _ ha hc) hn
    · simp at heq

theorem Probed.step (h : Probed g) {event : GateEvent α}
    {decision : Option (CircuitBreakerDecision π)}
    (hs : g.step config event = some (decision, g'))
    (hpr : Prompt (⟨g, event, decision, g'⟩ : Record π α)) :
    Probed g' ∧ DecidedByProbe (⟨g, event, decision, g'⟩ : Record π α) := by
  obtain hca | hca | hca | hca := step_cases h.held hs
  · have hc : g.shared.halfOpen = false := not_halfOpen_of_closed hca.closed
    refine ⟨hca.after ▸ h.admitsClosed, ?_, ?_⟩ <;> simp [hc]
  · have ho : g.shared.halfOpen = false := not_halfOpen_of_open hca.opened
    refine ⟨hca.after ▸ h.admitsProbe hca.opened, ?_, ?_⟩ <;> simp [ho]
  · have hsa := hca.same
    subst hsa
    refine ⟨h, ?_, ?_⟩
    · intro hh hnot
      simp only [hh] at hnot
      simp at hnot
    · intro _ _ _ _ _ _
      rfl
  · obtain ⟨call, result, now, probe_of, rfl, hcal, rfl⟩ := hca.told
    have hp : g.shared.halfOpen = true → probe_of ≠ none := by
      rintro hh rfl
      exact hpr hh call result now rfl hcal
    refine ⟨h.reports hcal hp, ?_, ?_⟩
    · intro hh _
      refine ⟨call, result, now, rfl, ?_⟩
      cases probe_of with
      | none => exact absurd rfl (hp hh)
      | some k =>
        obtain ⟨-, rfl⟩ := h.waiting call k hcal
        exact hcal
    · intro hh call' result' now' heq hcal'
      simp only [GateEvent.after_result.injEq] at heq
      obtain ⟨rfl, -, -⟩ := heq
      exact absurd hcal' (hpr hh call result now rfl)

theorem Prompt.of_decided {event : GateEvent α} {decision : Option (CircuitBreakerDecision π)}
    (hfree : g.shared.state ≠ .HALF_OPEN_PROBE_FREE)
    (hs : g.step config event = some (decision, g'))
    (h : DecidedByProbe (⟨g, event, decision, g'⟩ : Record π α)) :
    Prompt (⟨g, event, decision, g'⟩ : Record π α) := by
  intro hh call result now he hc
  have hsa := h.others hh call result now he hc
  obtain hca | hca | hca | hca := step_cases hfree hs
  · obtain ⟨now', ha⟩ := hca.asked
    simp only [ha] at he
    cases he
  · obtain ⟨now', ha⟩ := hca.asked
    simp only [ha] at he
    cases he
  · obtain ⟨now', ha⟩ := hca.asked
    simp only [ha] at he
    cases he
  · obtain ⟨call', result', now', probe_of, -, -, rfl⟩ := hca.told
    simp only [Gate.report] at hsa hh
    have hnot := @after_result_of_halfOpen π α config _ hh result' now'
    rw [hsa, hh] at hnot
    simp at hnot

theorem decided_iff_prompt (hru : GateRun config g log g') (h : Probed g) :
    (∀ r ∈ log, DecidedByProbe r) ↔ ∀ r ∈ log, Prompt r := by
  constructor
  · have hfree := h.held
    clear h
    induction hru with
    | nil g => simp
    | cons hs _ ih =>
      intro ha r hr
      rcases mem_cons.mp hr with rfl | hr
      · exact Prompt.of_decided hfree hs (ha _ (by simp))
      · exact ih (step_not_free hfree hs) (fun r hr => ha r (by simp [hr])) r hr
  · induction hru with
    | nil g => simp
    | cons hs _ ih =>
      intro ha r hr
      obtain ⟨hp, hd⟩ := h.step hs (ha _ (by simp))
      rcases mem_cons.mp hr with rfl | hr
      · exact hd
      · exact ih hp (fun r hr => ha r (by simp [hr])) r hr

/-- In every run, the probes decide the half open periods if and only if no call that a
closed circuit let through reports in one. -/
theorem probe_decides_iff (config : CircuitBreakerConfig π) (log : List (Record π α)) (g : Gate)
    (hrun : GateRun config .new log g) :
    (∀ r ∈ log, DecidedByProbe r) ↔ ∀ r ∈ log, Prompt r :=
  decided_iff_prompt hrun probed_new

/-- The probe fails and the gate opens again. The second old call reports after that. -/
theorem probe_decides_before_an_old_call : ∃ (log : List (Record Unit Unit)) (g : Gate),
    GateRun touchy .new log g ∧
      log.map (·.event) = [.before_call 0, .before_call 0,
        .after_result 0 (.error .ChannelClosed) 0, .before_call 9,
        .after_result 2 (.error .ChannelClosed) 10, .after_result 1 (.ok ()) 11] ∧
      ∀ r ∈ log, DecidedByProbe r := by
  have hru := opening_run (.begin (.before_call 9) rfl
    (.begin (.after_result 2 (.error .ChannelClosed) 10) rfl
      (.begin (.after_result 1 (.ok ()) 11) rfl (.nil _))))
  refine ⟨_, _, hru, rfl, (probe_decides_iff touchy _ _ hru).mpr ?_⟩
  intro r hr hh call result now he hc
  simp only [opening, cons_append, nil_append, mem_cons, not_mem_nil, or_false] at hr
  rcases hr with rfl | rfl | rfl | rfl | rfl | rfl
  -- Only the report of the probe comes while the gate is half open.
  case inr.inr.inr.inr.inl =>
    simp only [GateEvent.after_result.injEq] at he
    obtain ⟨rfl, -, -⟩ := he
    simp [opened, Gate.letIn] at hc
  all_goals exact absurd hh (by decide)

/-- The second old call succeeds while the probe is out, and its result closes the gate. -/
theorem an_old_result_closes_the_gate : ∃ (log : List (Record Unit Unit)) (g : Gate),
    GateRun touchy .new log g ∧
      log.map (·.event) = [.before_call 0, .before_call 0,
        .after_result 0 (.error .ChannelClosed) 0, .before_call 9, .after_result 1 (.ok ()) 10] ∧
      g.shared.state = .CLOSED ∧ ¬∀ r ∈ log, DecidedByProbe r := by
  refine ⟨_, _, opening_run (.begin (.before_call 9) rfl
    (.begin (.after_result 1 (.ok ()) 10) rfl (.nil _))), rfl, rfl, ?_⟩
  intro ha
  have hlast := (ha ⟨probing, .after_result 1 (.ok ()) 10, none,
    probing.report 1 (touchy.after_result (.ok ()) 10 probing.shared)⟩
      (mem_append_right _ (.tail _ (.head _)))).others rfl 1 (.ok ()) 10 rfl rfl
  revert hlast
  decide

end

end camel_processor.circuit_breaker
