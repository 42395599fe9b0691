-- The circuit breaker gate beside the circuit breaker of the textbook. As long as calls do
-- not overlap, the gate lets through and turns away the same calls.
import RustCamel.Processor.CircuitBreaker

namespace camel_processor.circuit_breaker

open camel_api.error (CamelError)

/-! ## Calls one after the other -/

/-- A call from its start to its report. A call that is turned away reports nothing. -/
structure WholeCall (α : Type) where
  start : Nat
  result : Except CamelError α
  finish : Nat

/-- No call starts before the one in front of it is over, and the clock does not go back. -/
def InOrder {α : Type} : Nat → List (WholeCall α) → Prop
  | _, [] => True
  | now, c :: calls => now ≤ c.start ∧ c.start ≤ c.finish ∧ InOrder c.finish calls

section

variable {π α : Type}

namespace CircuitBreakerConfig

variable (config : CircuitBreakerConfig π)

def serve (s : SharedBreakerState) (c : WholeCall α) :
    Option (CircuitBreakerDecision π) × SharedBreakerState :=
  match config.before_call c.start s with
  | (some .Allow, s) => (some .Allow, config.after_result c.result c.finish s)
  | (decision, s) => (decision, s)

/-- What the gate decides for each call. -/
def decisions (s : SharedBreakerState) :
    List (WholeCall α) → List (Option (CircuitBreakerDecision π))
  | [] => []
  | c :: calls => (config.serve s c).1 :: decisions (config.serve s c).2 calls

end CircuitBreakerConfig

end

/-! ## The textbook -/

/-- The three states. A closed breaker knows how many failures came in a row, an open one
since when it is open. -/
inductive Reference where
  | Closed (failures : Nat)
  | Open (since : Nat)
  | HalfOpen

namespace Reference

/-- Whether a call may pass, and the state it leaves. A half open breaker has its probe. -/
def letIn (open_duration now : Nat) : Reference → Bool × Reference
  | .Closed failures => (true, .Closed failures)
  | .Open since =>
    if since + open_duration ≤ now then (true, .HalfOpen) else (false, .Open since)
  | .HalfOpen => (false, .HalfOpen)

/-- The state after a call that passed. -/
def settle (threshold now : Nat) (failed : Bool) : Reference → Reference
  | .Closed failures =>
    if failed then
      if failures + 1 = threshold then .Open now else .Closed (failures + 1)
    else .Closed 0
  | .HalfOpen => if failed then .Open now else .Closed 0
  | .Open since => .Open since

section

variable {α : Type}

def serve (threshold open_duration : Nat) (r : Reference) (c : WholeCall α) : Bool × Reference :=
  match r.letIn open_duration c.start with
  | (true, r) => (true, r.settle threshold c.finish (c.result matches .error _))
  | (false, r) => (false, r)

def admissions (threshold open_duration : Nat) (r : Reference) : List (WholeCall α) → List Bool
  | [] => []
  | c :: calls =>
    (r.serve threshold open_duration c).1 ::
      admissions threshold open_duration (r.serve threshold open_duration c).2 calls

end

end Reference

/-! ## The gate against the textbook -/

variable {r : Reference} {failures : Nat} {open_duration : Nat} {since : Nat}

section

variable {π α : Type} {config : CircuitBreakerConfig π} {s : SharedBreakerState} {now : Nat}

/-- The shared state stands for a state of the textbook. A closed gate is below its threshold,
so its counter does not overflow. -/
def StandsFor (config : CircuitBreakerConfig π) (s : SharedBreakerState) (now : Nat) :
    Reference → Prop
  | .Closed failures => s.state = .CLOSED ∧ s.consecutive_failures.toNat = failures ∧
      failures < config.failure_threshold.toNat
  | .Open since => s.state = .OPEN ∧ s.opened_at = some since ∧ since ≤ now
  | .HalfOpen => s.state = .HALF_OPEN_PROBE_HELD

theorem StandsFor.later (h : StandsFor config s now r) {later : Nat} (hle : now ≤ later) :
    StandsFor config s later r := by
  cases r with
  | Closed failures | HalfOpen => exact h
  | Open since => exact ⟨h.1, h.2.1, Nat.le_trans h.2.2 hle⟩

theorem try_transition_of_expired (hs : s.state = .OPEN) (ho : s.opened_at = some since)
    (he : since + open_duration ≤ now) :
    s.try_transition_to_half_open open_duration now =
      (.Transitioned, { s with state := .HALF_OPEN_PROBE_HELD }) := by
  have hd : open_duration ≤ now - since := by omega
  simp [SharedBreakerState.try_transition_to_half_open, SharedBreakerState.compare_exchange,
    ho, hs, hd]

theorem try_transition_of_not_expired (ho : s.opened_at = some since) (hs : since ≤ now)
    (he : ¬since + open_duration ≤ now) :
    s.try_transition_to_half_open open_duration now = (.NotExpired, s) := by
  have hd : ¬open_duration ≤ now - since := by omega
  simp [SharedBreakerState.try_transition_to_half_open, ho, hd]

/-- A caller is let through exactly where the textbook lets it through. -/
theorem before_call_simulates (h : StandsFor config s now r) (hr : r ≠ .HalfOpen) :
    (config.before_call now s).1 = some (if (r.letIn config.open_duration now).1 then .Allow
        else config.turnAway "circuit breaker is open") ∧
      StandsFor config (config.before_call now s).2 now (r.letIn config.open_duration now).2 := by
  unfold CircuitBreakerConfig.before_call CircuitBreakerConfig.before_call_loop
  cases r with
  | Closed failures =>
    obtain ⟨hs, hc, hl⟩ := h
    simp only [hs, Reference.letIn, if_true, true_and]
    exact ⟨hs, hc, hl⟩
  | Open since =>
    obtain ⟨hs, ho, hsi⟩ := h
    by_cases he : since + config.open_duration ≤ now
    · simp only [hs, try_transition_of_expired hs ho he, Reference.letIn, he, if_true, true_and]
      exact rfl
    · simp only [hs, try_transition_of_not_expired ho hsi he, Reference.letIn,
        he, if_false, Bool.false_eq_true, true_and]
      exact ⟨hs, ho, hsi⟩
  | HalfOpen => exact absurd rfl hr

theorem countFailure_simulates (h : StandsFor config s now (.Closed failures)) :
    StandsFor config (s.countFailure config.failure_threshold now) now
      (if failures + 1 = config.failure_threshold.toNat then .Open now
        else .Closed (failures + 1)) := by
  obtain ⟨hs, rfl, hl⟩ := h
  have hbound := config.failure_threshold.toNat_lt
  -- below the threshold the counter has room for one more
  have hsu : (s.consecutive_failures + 1).toNat = s.consecutive_failures.toNat + 1 := by
    rw [UInt32.toNat_add]
    exact Nat.mod_eq_of_lt (by simp only [UInt32.toNat_one]; omega)
  unfold SharedBreakerState.countFailure
  simp only [hs, ne_eq, not_true, if_false, SharedBreakerState.compare_exchange, if_true]
  by_cases hr : config.failure_threshold ≤ s.consecutive_failures + 1
  · have hle := UInt32.le_iff_toNat_le.mp hr
    rw [if_pos hr, if_pos (by omega)]
    exact ⟨rfl, rfl, Nat.le_refl now⟩
  · have hle := mt UInt32.le_iff_toNat_le.mpr hr
    rw [if_neg hr, if_neg (by omega)]
    exact ⟨rfl, hsu, by omega⟩

theorem onOk_simulates (h : StandsFor config s now (.Closed failures)) :
    StandsFor config s.onOk now (.Closed 0) := by
  obtain ⟨hs, rfl, hl⟩ := h
  unfold SharedBreakerState.onOk
  rw [if_pos hs]
  split
  · rename_i hzero
    refine ⟨hs, ?_, by omega⟩
    rw [hzero]
    rfl
  · exact ⟨hs, rfl, by show 0 < _; omega⟩

/-- A report moves the gate where the textbook goes, and leaves no circuit half open. -/
theorem after_result_simulates (h : StandsFor config s now r)
    (ht : 1 ≤ config.failure_threshold) (result : Except CamelError α) :
    StandsFor config (config.after_result result now s) now
        (r.settle config.failure_threshold.toNat now (result matches .error _)) ∧
      r.settle config.failure_threshold.toNat now (result matches .error _) ≠ .HalfOpen := by
  have hp : 1 ≤ config.failure_threshold.toNat := UInt32.le_iff_toNat_le.mp ht
  unfold CircuitBreakerConfig.after_result
  cases r with
  | Closed failures =>
    have hnot := not_halfOpen_of_closed h.1
    cases result with
    | ok _ => exact ⟨onOk_simulates h, by simp [Reference.settle]⟩
    | error _ =>
      simp only [hnot, Bool.false_eq_true, if_false, h.1, if_true, Reference.settle]
      refine ⟨countFailure_simulates h, ?_⟩
      split <;> simp
  | Open since =>
    have hnot := not_halfOpen_of_open h.1
    cases result with
    | ok _ =>
      refine ⟨?_, by simp [Reference.settle]⟩
      simp only [SharedBreakerState.onOk, h.1, reduceCtorEq, if_false, hnot, Bool.false_eq_true]
      exact h
    | error _ =>
      refine ⟨?_, by simp [Reference.settle]⟩
      simp only [hnot, Bool.false_eq_true, if_false, h.1, reduceCtorEq]
      exact h
  | HalfOpen =>
    have hh := halfOpen_of_held h
    cases result with
    | ok _ =>
      refine ⟨?_, by simp [Reference.settle]⟩
      simp only [SharedBreakerState.onOk_of_halfOpen hh]
      exact ⟨rfl, rfl, hp⟩
    | error _ =>
      refine ⟨?_, by simp [Reference.settle]⟩
      simp only [hh, if_true, SharedBreakerState.reopen_of_halfOpen hh]
      exact ⟨rfl, rfl, Nat.le_refl now⟩

section

variable (h : StandsFor config s now r) (hr : r ≠ .HalfOpen)
  (hthreshold : 1 ≤ config.failure_threshold)

include h hr hthreshold

theorem serve_simulates (c : WholeCall α) (hs : now ≤ c.start) (hf : c.start ≤ c.finish) :
    (config.serve s c).1 =
        some (if (r.serve config.failure_threshold.toNat config.open_duration c).1 then .Allow
          else config.turnAway "circuit breaker is open") ∧
      StandsFor config (config.serve s c).2 c.finish
        (r.serve config.failure_threshold.toNat config.open_duration c).2 ∧
      (r.serve config.failure_threshold.toNat config.open_duration c).2 ≠ .HalfOpen := by
  obtain ⟨hd, ha⟩ := before_call_simulates (h.later hs) hr
  have ha := ha.later hf
  unfold CircuitBreakerConfig.serve Reference.serve
  cases hl : r.letIn config.open_duration c.start with
  | mk admitted r' =>
    rw [hl] at hd ha
    cases hca : config.before_call c.start s with
    | mk decision s' =>
      rw [hca] at hd ha
      subst hd
      cases admitted with
      | true => exact ⟨rfl, after_result_simulates ha hthreshold c.result⟩
      | false =>
        have ht := turnAway_ne_allow config "circuit breaker is open"
        have hc : r' ≠ .HalfOpen := by
          rintro rfl
          cases r with
          | Closed failures => simp [Reference.letIn] at hl
          | Open since =>
            simp only [Reference.letIn] at hl
            split at hl <;> cases hl
          | HalfOpen => exact hr rfl
        simp only [Bool.false_eq_true, if_false]
        cases htu : config.turnAway "circuit breaker is open" with
        | Allow => exact absurd htu ht
        | Fallback _ | Reject _ => exact ⟨rfl, ha, hc⟩

theorem decisions_simulate (calls : List (WholeCall α)) (ho : InOrder now calls) :
    config.decisions s calls =
      (r.admissions config.failure_threshold.toNat config.open_duration calls).map fun admitted =>
        some (if admitted then .Allow else config.turnAway "circuit breaker is open") := by
  induction calls generalizing s now r with
  | nil => rfl
  | cons c calls ih =>
    obtain ⟨hs, hf, hre⟩ := ho
    obtain ⟨hd, ha, hn⟩ := serve_simulates h hr hthreshold c hs hf
    simp only [CircuitBreakerConfig.decisions, Reference.admissions, List.map_cons]
    rw [hd, ih ha hn hre]

end

/-- The gate lets through the calls that the textbook lets through, and no other. -/
theorem gate_decides_as_the_textbook (config : CircuitBreakerConfig π)
    (hthreshold : 1 ≤ config.failure_threshold) (now : Nat) (calls : List (WholeCall α))
    (horder : InOrder now calls) :
    config.decisions .new calls =
      ((Reference.Closed 0).admissions config.failure_threshold.toNat config.open_duration
        calls).map fun admitted =>
          some (if admitted then .Allow else config.turnAway "circuit breaker is open") := by
  have hs : StandsFor config .new now (.Closed 0) :=
    ⟨rfl, rfl, UInt32.le_iff_toNat_le.mp hthreshold⟩
  exact decisions_simulate hs (by simp) hthreshold calls horder

end

/-- The first failure opens the gate, the second call is too soon, and the probe closes it. -/
theorem touchy_decides_as_the_textbook :
    1 ≤ touchy.failure_threshold ∧
      InOrder 0 [⟨0, .error (.ProcessorError "down"), 1⟩, ⟨3, .ok (), 3⟩, ⟨6, .ok (), 7⟩] ∧
      touchy.decisions .new [⟨0, .error (.ProcessorError "down"), 1⟩, ⟨3, .ok (), 3⟩,
          ⟨6, .ok (), 7⟩] =
        [some .Allow, some (.Reject (.CircuitOpen "circuit breaker is open")), some .Allow] := by
  have ho : InOrder 0 [⟨0, .error (.ProcessorError "down"), 1⟩, ⟨3, .ok (), 3⟩,
      ⟨6, .ok (), 7⟩] := by simp [InOrder]
  exact ⟨by decide, ho, gate_decides_as_the_textbook touchy (by decide) 0 _ ho⟩

end camel_processor.circuit_breaker
