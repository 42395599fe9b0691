-- The budget of acquisitions. `reconcile_event` counts each delivery that finds no delegate and
-- asks the retry policy before it makes one, and the retry tick asks the same policy before it
-- tries again. Beside the task runs a tally of the delegates that it has tried to make since the
-- last reset, and the tally is the count, cut off at the budget.
import RustCamel.Master.LeadershipChanges

namespace camel_master

open Runs Supervisor

variable {policy : NetworkRetryPolicy}

/-! ## The tally -/

/-- How many delegates the policy lets the task try to make. -/
def NetworkRetryPolicy.budget (policy : NetworkRetryPolicy) : Nat :=
  if policy.enabled then
    match policy.max_attempts_absolute with
    | none => policy.max_attempts
    | some abs_cap => min abs_cap policy.max_attempts
  else 0

theorem should_retry_iff (hm : 1 ≤ policy.max_attempts) (attempt : Nat) :
    policy.should_retry attempt = true ↔ attempt < policy.budget := by
  unfold NetworkRetryPolicy.should_retry NetworkRetryPolicy.budget
  cases policy.enabled with
  | false => simp
  | true =>
    cases policy.max_attempts_absolute with
    | none | some abs_cap => simp; omega

theorem should_retry_eq_false (hm : 1 ≤ policy.max_attempts) (attempt : Nat) :
    policy.should_retry attempt = false ↔ policy.budget ≤ attempt := by
  rw [← Bool.not_eq_true, should_retry_iff hm]
  omega

namespace Supervisor

/-- The count that the policy is asked about. -/
def consulted (s : Supervisor) (term_bump : Bool) : Nat := if term_bump then 0 else s.attempts

/-- Does this move try to make a delegate? -/
def tries_create (policy : NetworkRetryPolicy) (s : Supervisor) (e : Event) : Bool :=
  match s.control, e with
  | .Creating _ term_bump, .create _ _ => policy.should_retry (s.consulted term_bump)
  | _, _ => false

/-- Does this move reset the budget? The first value of the watch and an edge to leading do, and so
does a new term for a delegate that is active. -/
def resets (s : Supervisor) (e : Event) : Bool :=
  match s.control, e with
  | .Starting, .initial (some event) | .Select, .changed (some event) =>
    event = .StartedLeading && !s.is_leading
  | .Creating _ term_bump, .create _ _ => term_bump
  | _, _ => false

end Supervisor

structure Tally where
  supervisor : Supervisor
  -- since the last reset
  tries : Nat

namespace Tally

def start (epoch : Nat) : Tally := ⟨.start epoch, 0⟩

def step (policy : NetworkRetryPolicy) (t : Tally) (e : Event) : Option Tally :=
  (t.supervisor.step policy e).map fun s =>
    ⟨s, (if t.supervisor.resets e then 0 else t.tries) +
      if t.supervisor.tries_create policy e then 1 else 0⟩

end Tally

/-! ## Where a move leads -/

/-- A place that carries no error of a tick and is not behind the end of the budget. -/
def Control.open_budget : Control → Bool
  | .TickAcquire _ (some _) | .Tail .Budget _ | .Ended .Budget _ => false
  | _ => true

variable {e : Event} {tick_err : Option CamelError}

section

variable {s t : Supervisor} {caller : Caller} {event : LeadershipEvent}

section

variable (s : Supervisor) (caller : Caller)

theorem reconciled_goes (result : Except CamelError Unit) :
    ∃ control, control.open_budget = true ∧ s.reconciled caller result = s.goto control := by
  cases result with
  | ok _ => cases caller <;> exact ⟨_, rfl, rfl⟩
  | error err =>
    cases caller with
    | Initial | Watch => exact ⟨_, rfl, rfl⟩
    | StaleStamp | Acquisition =>
      dsimp only [reconciled]
      split <;> exact ⟨_, rfl, rfl⟩

theorem reconcile_event_goes (event : LeadershipEvent) :
    ∃ control, control.open_budget = true ∧ s.reconcile_event caller event = s.goto control := by
  cases event with
  | StartedLeading =>
    dsimp only [reconcile_event]
    split
    · split
      · exact reconciled_goes ..
      · exact ⟨_, rfl, rfl⟩
    · exact ⟨_, rfl, rfl⟩
  | StoppedLeading =>
    dsimp only [reconcile_event]
    split
    · exact ⟨_, rfl, rfl⟩
    · exact reconciled_goes ..

theorem delegate_stopped_goes (event : LeadershipEvent) (result : Except CamelError Unit) :
    ∃ control, control.open_budget = true ∧
      s.delegate_stopped caller event result = { s with state := .Inactive }.goto control := by
  cases result with
  | error err => exact reconciled_goes ..
  | ok _ =>
    cases event with
    | StartedLeading => exact ⟨_, rfl, rfl⟩
    | StoppedLeading => exact reconciled_goes ..

theorem retry_tick_goes :
    ∃ control, control.open_budget = true ∧ s.retry_tick = s.goto control := by
  unfold retry_tick
  split
  · split <;> exact ⟨_, rfl, rfl⟩
  · exact ⟨_, rfl, rfl⟩

end

theorem create_goes (policy : NetworkRetryPolicy) (s : Supervisor) (caller : Caller)
    (term_bump : Bool) (endpoint consumer : Except CamelError Unit) :
    ∃ control state, control.open_budget = true ∧
      s.create policy caller term_bump endpoint consumer =
        { s with
          attempts := min (s.consulted term_bump + 1) (2 ^ 32 - 1)
          state := state }.goto control := by
  unfold Supervisor.create create_error consulted
  generalize (if term_bump then 0 else s.attempts) = count
  dsimp only
  split
  · obtain ⟨control, ho, heq⟩ := reconciled_goes _ caller (.ok ())
    exact ⟨control, s.state, ho, heq⟩
  · split
    all_goals
      obtain ⟨control, ho, heq⟩ := reconciled_goes _ caller _
      exact ⟨control, _, ho, heq⟩

/-- The count is what it was, wherever the task goes behind a delegate that has ended. -/
theorem finished_delegate_attempts (dispatched : Bool) (ending : Ending) :
    (s.finished_delegate dispatched ending).attempts = s.attempts := by
  unfold finished_delegate
  split
  · rfl
  · split
    · rfl
    · split
      · rfl
      · split <;> rfl

theorem acquire_attempts (dispatched : Bool) (tick_err : Option CamelError) :
    (s.acquire policy dispatched tick_err).attempts = s.attempts := by
  unfold acquire
  split
  · rfl
  · split
    · rfl
    · split
      · rfl
      · split <;> rfl

/-- A move delivers to the place that makes delegates, or it leaves the count alone but for a
reset. -/
theorem step_attempts (h : s.step policy e = some t) :
    (∃ caller term_bump endpoint consumer, s.control = .Creating caller term_bump ∧
        e = .create endpoint consumer ∧
        t.attempts = min (s.consulted term_bump + 1) (2 ^ 32 - 1)) ∨
      s.tries_create policy e = false ∧ t.attempts = if s.resets e then 0 else s.attempts := by
  cases move_of_step h with
  | create caller term_bump endpoint consumer hc =>
    obtain ⟨control, state, -, heq⟩ := create_goes policy s caller term_bump endpoint consumer
    exact .inl ⟨caller, term_bump, endpoint, consumer, hc, rfl, by rw [heq]; rfl⟩
  | ends | publish | stop | cancel =>
    right
    unfold tries_create resets
    cases s.control <;> simp
  | initial event hc | changed event hc =>
    right
    simp [tries_create, resets, hc, observe, goto]
  | no_initial hc | cancel_seen hc | closed hc | no_change hc
  | back_off hc | unfinished _ hc =>
    right
    simp [tries_create, resets, hc, goto, leave]
  | stop_seen hc =>
    right
    rcases hc with hc | hc <;>
      simp [tries_create, resets, hc, goto, leave]
  | tick hc =>
    right
    obtain ⟨control, -, heq⟩ := retry_tick_goes s
    simp [tries_create, resets, hc, heq, goto]
  | reconcile caller event hc =>
    right
    obtain ⟨control, -, heq⟩ := reconcile_event_goes s caller event
    simp [tries_create, resets, hc, heq, goto]
  | drained caller event ending epoch hc =>
    right
    obtain ⟨control, -, heq⟩ := delegate_stopped_goes s caller event ending.delegate_result
    simp [tries_create, resets, hc, heq, goto]
  | timed_out caller event epoch hc =>
    right
    obtain ⟨control, -, heq⟩ := delegate_stopped_goes s caller event (.ok ())
    simp [tries_create, resets, hc, heq, goto]
  | finished dispatched ending epoch hc =>
    right
    simp [tries_create, resets, hc, finished_delegate_attempts]
  | acquire dispatched tick_err hc =>
    right
    simp [tries_create, resets, hc, acquire_attempts]
  | tail_drained cause fatal ending epoch hc | tail_timed_out cause fatal epoch hc
  | tail_inactive cause fatal hc =>
    right
    simp [tries_create, resets, hc, finish, goto]

end

/-! ## Where the budget ends the task -/

/-- What is known where the budget ends the task: it is spent, no delegate is left, and an error
that is handed out is a retryable one that the last tick has found. -/
structure Spent (policy : NetworkRetryPolicy) (s : Supervisor) : Prop where
  tick_err : ∀ dispatched err, s.control = .TickAcquire dispatched (some err) →
    is_retryable_camel_error err = true
  tail : ∀ fatal, s.control = .Tail .Budget fatal → policy.budget ≤ s.attempts ∧
    s.state = .Inactive ∧ ∀ err, fatal = some err → is_retryable_camel_error err = true
  ended : ∀ result, s.control = .Ended .Budget result → policy.budget ≤ s.attempts ∧
    (result = .ok () ∨ ∃ err, result = .error err ∧ is_retryable_camel_error err = true)

section

variable {s t : Supervisor} {caller : Caller} {event : LeadershipEvent}

theorem spent_of_open (h : s.control.open_budget = true) : Spent policy s := by
  constructor
  · intro dispatched err hc
    rw [hc] at h
    cases h
  · intro fatal hc
    rw [hc] at h
    cases h
  · intro result hc
    rw [hc] at h
    cases h

theorem spent_of_goes
    (h : ∃ control, control.open_budget = true ∧ t = s.goto control) : Spent policy t := by
  obtain ⟨control, ho, rfl⟩ := h
  exact spent_of_open ho

theorem finished_delegate_spent (dispatched : Bool) (ending : Ending) :
    Spent policy (s.finished_delegate dispatched ending) := by
  unfold finished_delegate
  split
  · exact spent_of_open rfl
  · split
    · exact spent_of_open rfl
    · split
      · exact spent_of_open rfl
      · split
        · rename_i hr
          refine ⟨?_, nofun, nofun⟩
          intro _ _ hc
          cases hc
          exact hr
        · exact spent_of_open rfl

theorem acquire_spent (hm : 1 ≤ policy.max_attempts) (hs : Spent policy s) {dispatched : Bool}
    (hc : s.control = .TickAcquire dispatched tick_err) :
    Spent policy (s.acquire policy dispatched tick_err) := by
  unfold acquire
  split
  · exact spent_of_open rfl
  · rename_i hst
    split
    · exact spent_of_open rfl
    · split
      · rename_i hr
        have hsp : policy.budget ≤ s.attempts :=
          (should_retry_eq_false hm _).mp (by simpa using hr)
        refine ⟨nofun, ?_, nofun⟩
        intro fatal hl
        cases hl
        refine ⟨hsp, hst, ?_⟩
        rintro err rfl
        exact hs.tick_err dispatched err hc
      · split <;> exact spent_of_open rfl

/-- The end of the tail, with no delegate left when it is the budget that ended the task. -/
theorem finish_spent (hs : Spent policy s) {cause : Cause} {fatal : Option CamelError}
    {tail : Except CamelError Unit} (hc : s.control = .Tail cause fatal)
    (ht : s.state = .Inactive → tail = .ok ()) : Spent policy (s.finish cause fatal tail) := by
  refine ⟨nofun, nofun, ?_⟩
  intro result he
  cases he
  obtain ⟨hsp, hst, hr⟩ := hs.tail fatal hc
  refine ⟨hsp, ?_⟩
  cases fatal with
  | none => exact .inl (ht hst)
  | some err => exact .inr ⟨err, rfl, hr err rfl⟩

theorem step_spent (hm : 1 ≤ policy.max_attempts) (hs : Spent policy s)
    (h : s.step policy e = some t) : Spent policy t := by
  cases move_of_step h with
  | ends ending epoch hst =>
    refine ⟨hs.tick_err, ?_, hs.ended⟩
    intro fatal hc
    have hi := (hs.tail fatal hc).2.1
    rw [hst] at hi
    cases hi
  | publish | stop | cancel => exact ⟨hs.tick_err, hs.tail, hs.ended⟩
  | no_change hc => exact hs
  | no_initial | initial | stop_seen | cancel_seen | closed | changed | unfinished | back_off =>
    exact spent_of_open rfl
  | tick hc => exact spent_of_goes (retry_tick_goes s)
  | reconcile caller event hc => exact spent_of_goes (reconcile_event_goes ..)
  | drained caller event ending epoch hc
  | timed_out caller event epoch hc => exact spent_of_goes (delegate_stopped_goes ..)
  | create caller term_bump endpoint consumer hc =>
    obtain ⟨control, state, ho, heq⟩ := create_goes policy s caller term_bump endpoint consumer
    exact spent_of_goes ⟨control, ho, heq⟩
  | finished dispatched ending epoch hc => exact finished_delegate_spent ..
  | acquire dispatched tick_err hc => exact acquire_spent hm hs hc
  | tail_drained cause fatal ending epoch hc hst =>
    refine finish_spent hs hc ?_
    intro hi
    rw [hi] at hst
    cases hst
  | tail_timed_out cause fatal epoch hc hst
  | tail_inactive cause fatal hc hst => exact finish_spent hs hc fun _ => rfl

end

/-! ## The tally is the count -/

structure Counted (policy : NetworkRetryPolicy) (t : Tally) : Prop where
  tries : t.tries = min t.supervisor.attempts policy.budget
  spent : Spent policy t.supervisor

theorem budget_le (policy : NetworkRetryPolicy) : policy.budget ≤ policy.max_attempts := by
  unfold NetworkRetryPolicy.budget
  split
  · split
    · exact le_rfl
    · exact Nat.min_le_right _ _
  · exact Nat.zero_le _

theorem start_counted (policy : NetworkRetryPolicy) (epoch : Nat) :
    Counted policy (Tally.start epoch) := by
  refine ⟨?_, spent_of_open rfl⟩
  show 0 = min 0 policy.budget
  omega

theorem step_counted (hm : 1 ≤ policy.max_attempts) (hbound : policy.max_attempts < 2 ^ 32)
    {t u : Tally} (ht : Counted policy t) (h : t.step policy e = some u) : Counted policy u := by
  obtain ⟨s, hs, rfl⟩ := Option.map_eq_some_iff.mp h
  refine ⟨?_, step_spent hm ht.spent hs⟩
  have htr := ht.tries
  have hb := budget_le policy
  rcases step_attempts hs with ⟨caller, term_bump, endpoint, consumer, hc, rfl, hco⟩ |
    ⟨hn, hco⟩
  · have hr : t.supervisor.resets (.create endpoint consumer) = term_bump := by
      simp [resets, hc]
    have htry : t.supervisor.tries_create policy (.create endpoint consumer) =
        policy.should_retry (t.supervisor.consulted term_bump) := by
      simp [tries_create, hc]
    have hba : (if term_bump = true then 0 else t.tries) =
        min (t.supervisor.consulted term_bump) policy.budget := by
      unfold consulted
      split
      · omega
      · exact htr
    dsimp only
    rw [hco, hr, htry, hba]
    -- the count goes on behind the budget, the tally does not
    by_cases hl : t.supervisor.consulted term_bump < policy.budget
    · rw [if_pos ((should_retry_iff hm _).mpr hl)]
      omega
    · rw [if_neg (by rw [should_retry_iff hm]; exact hl)]
      omega
  · dsimp only
    rw [hco, hn, htr]
    split
    · simp
    · simp

/-! ## Attempts that keep failing -/

/-- How an attempt at a delegate fails. -/
inductive Failure where
  | endpoint (err : CamelError)
  | consumer (err : CamelError)
  -- the delegate is made, and its task ends like this
  | task (ending : Ending)

namespace Failure

/-- The error that a tick finds where the failure has left a delegate. -/
def found : Option Failure → Option CamelError
  | some (.task ending) =>
    match ending.delegate_result with
    | .ok _ => none
    | .error err => some err
  | _ => none

def transient : Failure → Bool
  | .endpoint err | .consumer err => is_retryable_camel_error err
  | .task ending =>
    match ending.delegate_result with
    | .ok _ => false
    | .error err => is_retryable_camel_error err

/-- What the attempt leaves behind. -/
def leaves (epoch : Nat) : Option Failure → DelegateState
  | some (.task ending) => .Active (some ending) epoch
  | _ => .Inactive

def events : Failure → List Event
  | .endpoint err => [.create (.error err) (.ok ())]
  | .consumer err => [.create (.ok ()) (.error err)]
  | .task ending => [.create (.ok ()) (.ok ()), .ends ending]

end Failure

/-- A tick that tries to make a delegate, and how that fails. -/
def failed_tick (attempts : Nat) (failure : Failure) : List Event :=
  [.tick, .go] ++ ([.go] ++ ((if attempts > 1 then [.go] else []) ++ [.go]) ++ failure.events)

/-- Ticks whose attempts fail like this, and the tick that the budget refuses. -/
def failing_ticks (attempts : Nat) : List Failure → List Event
  | [] => [.tick, .go] ++ [.go, .go]
  | failure :: failures => failed_tick attempts failure ++ failing_ticks (attempts + 1) failures

/-- Leadership is there and there is no delegate, or one that has failed. -/
structure Waiting (s : Supervisor) (last : Option Failure) : Prop where
  control : s.control = .Select
  is_leading : s.is_leading = true
  state : s.state = Failure.leaves s.leader_epoch last
  stop_requested : s.stop_requested = false
  cancelled : s.cancelled = false

/-- Every event is let through. -/
def freely {σ : Type} : σ → Event → Bool := fun _ _ => true

section

variable {t : Tally} {last : Option Failure}

theorem tick_finds (hw : Waiting t.supervisor last)
    (hlast : ∀ failure, last = some failure → failure.transient = true) :
    run (Tally.step policy) freely t [.tick, .go] =
      some ⟨{ t.supervisor with
        control := .TickAcquire false (Failure.found last)
        state := .Inactive }, t.tries⟩ := by
  obtain ⟨hc, hl, hs, hst, hca⟩ := hw
  obtain ⟨⟨control, state, is_leading, attempts, leader_epoch, stop_requested, cancelled⟩, tries⟩ := t
  dsimp only at hc hl hs hst hca
  subst hc hl hst hca hs
  match last with
  | none | some (.endpoint _) | some (.consumer _) => rfl
  | some (.task ending) =>
    have hti : run (Tally.step policy) freely ⟨⟨.Select, .Active (some ending) leader_epoch, true,
        attempts, leader_epoch, false, false⟩, tries⟩ [.tick] =
        some ⟨⟨.TickFinished false, .Active (some ending) leader_epoch, true, attempts,
          leader_epoch, false, false⟩, tries⟩ := by
      have hq : retry_tick ⟨.Select, .Active (some ending) leader_epoch, true, attempts,
          leader_epoch, false, false⟩ = ⟨.TickFinished false, .Active (some ending) leader_epoch,
          true, attempts, leader_epoch, false, false⟩ := by simp [retry_tick, goto]
      rw [← hq]
      rfl
    have ht := hlast _ rfl
    simp only [Failure.transient] at ht
    cases he : ending.delegate_result with
    | ok _ =>
      rw [he] at ht
      cases ht
    | error err =>
      rw [he] at ht
      have hf : finished_delegate ⟨.TickFinished false, .Active (some ending) leader_epoch,
          true, attempts, leader_epoch, false, false⟩ false ending =
          ⟨.TickAcquire false (some err), .Inactive, true, attempts, leader_epoch, false,
            false⟩ := by simp [finished_delegate, goto, he, ht]
      have hfo : Failure.found (some (.task ending)) = some err := by
        simp [Failure.found, he]
      dsimp only [Failure.leaves]
      rw [show ([.tick, .go] : List Event) = [.tick] ++ [.go] from rfl]
      rw [run_append hti, hfo, ← hf]
      rfl

theorem admitted_creates {attempts leader_epoch tries : Nat}
    (hr : policy.should_retry attempts = true) :
    run (Tally.step policy) freely
      ⟨⟨.TickAcquire false tick_err, .Inactive, true, attempts, leader_epoch, false, false⟩, tries⟩
      ([.go] ++ ((if attempts > 1 then [.go] else []) ++ [.go])) =
    some ⟨⟨.Creating .Acquisition false, .Inactive, true, attempts, leader_epoch, false, false⟩,
      tries⟩ := by
  have ha : run (Tally.step policy) freely ⟨⟨.TickAcquire false tick_err, .Inactive, true,
      attempts, leader_epoch, false, false⟩, tries⟩ [.go] =
      some ⟨acquire policy ⟨.TickAcquire false tick_err, .Inactive, true, attempts, leader_epoch,
        false, false⟩ false tick_err, tries⟩ := rfl
  rw [run_append ha]
  by_cases hm : attempts > 1
  · have hw : acquire policy ⟨.TickAcquire false tick_err, .Inactive, true, attempts,
        leader_epoch, false, false⟩ false tick_err =
        ⟨.BackingOff, .Inactive, true, attempts, leader_epoch, false, false⟩ := by
      simp [acquire, goto, hr, hm]
    rw [hw, if_pos hm]
    rfl
  · have hn : acquire policy ⟨.TickAcquire false tick_err, .Inactive, true, attempts,
        leader_epoch, false, false⟩ false tick_err =
        ⟨.Reconciling .Acquisition .StartedLeading, .Inactive, true, attempts, leader_epoch, false,
          false⟩ := by
      simp [acquire, goto, hr, hm]
    rw [hn, if_neg hm]
    rfl

theorem run_create {attempts : Nat} (hr : policy.should_retry attempts = true)
    (leader_epoch tries : Nat) (endpoint consumer : Except CamelError Unit) :
    run (Tally.step policy) freely ⟨⟨.Creating .Acquisition false, .Inactive, true, attempts,
        leader_epoch, false, false⟩, tries⟩ [.create endpoint consumer] =
      some ⟨Supervisor.create policy ⟨.Creating .Acquisition false, .Inactive, true, attempts,
        leader_epoch, false, false⟩ .Acquisition false endpoint consumer, tries + 1⟩ := by
  have ht : (if policy.should_retry attempts then 1 else 0) = 1 := if_pos hr
  rw [← ht]
  rfl

theorem failed_tick_runs (hma : 1 ≤ policy.max_attempts) (hbound : policy.max_attempts < 2 ^ 32)
    (hw : Waiting t.supervisor last)
    (hlast : ∀ failure, last = some failure → failure.transient = true)
    (hle : t.supervisor.attempts < policy.budget) {failure : Failure}
    (hfa : failure.transient = true) :
    ∃ u, run (Tally.step policy) freely t (failed_tick t.supervisor.attempts failure) = some u ∧
      Waiting u.supervisor (some failure) ∧
      u.supervisor.attempts = t.supervisor.attempts + 1 := by
  have hr := (should_retry_iff hma t.supervisor.attempts).mpr hle
  have hb := budget_le policy
  have hc : min (t.supervisor.attempts + 1) (2 ^ 32 - 1) = t.supervisor.attempts + 1 := by
    omega
  unfold failed_tick
  rw [run_append (tick_finds hw hlast)]
  obtain ⟨-, hl, -, hs, hca⟩ := hw
  obtain ⟨⟨control, state, is_leading, attempts, leader_epoch, stop_requested, cancelled⟩, tries⟩ := t
  dsimp only at hl hs hca hr hc ⊢
  subst hl hs hca
  rw [run_append (admitted_creates hr)]
  have hf : ∀ endpoint consumer err, (endpoint = .error err ∨
      endpoint = .ok () ∧ consumer = .error err) → is_retryable_camel_error err = true →
      Supervisor.create policy ⟨.Creating .Acquisition false, .Inactive, true, attempts,
        leader_epoch, false, false⟩ .Acquisition false endpoint consumer =
      ⟨.Select, .Inactive, true, attempts + 1, leader_epoch, false, false⟩ := by
    rintro endpoint consumer err (rfl | ⟨rfl, rfl⟩) he <;>
      simp only [create, Bool.false_eq_true, if_false, hr, Bool.not_true, create_error, reconciled,
        he, goto, if_true, hc]
  cases failure with
  | endpoint err =>
    refine ⟨_, run_create hr leader_epoch tries _ _, ?_⟩
    rw [hf _ _ err (.inl rfl) hfa]
    exact ⟨⟨rfl, rfl, rfl, rfl, rfl⟩, rfl⟩
  | consumer err =>
    refine ⟨_, run_create hr leader_epoch tries _ _, ?_⟩
    rw [hf _ _ err (.inr ⟨rfl, rfl⟩) hfa]
    exact ⟨⟨rfl, rfl, rfl, rfl, rfl⟩, rfl⟩
  | task ending =>
    have hm : Supervisor.create policy ⟨.Creating .Acquisition false, .Inactive, true, attempts,
        leader_epoch, false, false⟩ .Acquisition false (.ok ()) (.ok ()) =
        ⟨.Select, .Active none leader_epoch, true, attempts + 1, leader_epoch, false, false⟩ := by
      simp only [create, Bool.false_eq_true, if_false, hr, Bool.not_true, reconciled, goto, hc]
    have hru := run_create hr leader_epoch tries (.ok ()) (.ok ())
    rw [hm] at hru
    rw [show Failure.events (.task ending) = [.create (.ok ()) (.ok ())] ++ [.ends ending] from rfl]
    rw [run_append hru]
    exact ⟨_, rfl, ⟨rfl, rfl, rfl, rfl, rfl⟩, rfl⟩

/-- What the task ends with when the budget is spent. -/
def refusal (last : Option Failure) : Except CamelError Unit :=
  match Failure.found last with
  | some err => .error err
  | none => .ok ()

theorem refused_tick_runs (hm : 1 ≤ policy.max_attempts) (hw : Waiting t.supervisor last)
    (hlast : ∀ failure, last = some failure → failure.transient = true)
    (hs : policy.budget ≤ t.supervisor.attempts) :
    ∃ u, run (Tally.step policy) freely t ([.tick, .go] ++ [.go, .go]) = some u ∧
      u.supervisor.control = .Ended .Budget (refusal last) := by
  have hr := (should_retry_eq_false hm t.supervisor.attempts).mpr hs
  rw [run_append (tick_finds hw hlast)]
  obtain ⟨-, hl, -, hst, hc⟩ := hw
  obtain ⟨⟨control, state, is_leading, attempts, leader_epoch, stop_requested, cancelled⟩, tries⟩ := t
  dsimp only at hl hst hc hr ⊢
  subst hl hst hc
  have ha : run (Tally.step policy) freely ⟨⟨.TickAcquire false (Failure.found last),
      .Inactive, true, attempts, leader_epoch, false, false⟩, tries⟩ [.go] =
      some ⟨acquire policy ⟨.TickAcquire false (Failure.found last), .Inactive, true, attempts,
        leader_epoch, false, false⟩ false (Failure.found last), tries⟩ := rfl
  have hre : acquire policy ⟨.TickAcquire false (Failure.found last), .Inactive, true,
      attempts, leader_epoch, false, false⟩ false (Failure.found last) =
      ⟨.Tail .Budget (Failure.found last), .Inactive, true, attempts, leader_epoch, false,
        false⟩ := by simp [acquire, leave, goto, hr]
  rw [show ([.go, .go] : List Event) = [.go] ++ [.go] from rfl, run_append ha, hre]
  exact ⟨_, rfl, rfl⟩

theorem failing_ticks_run (hm : 1 ≤ policy.max_attempts) (hbound : policy.max_attempts < 2 ^ 32)
    {failures : List Failure} (hw : Waiting t.supervisor last)
    (hlast : ∀ failure, last = some failure → failure.transient = true)
    (hfai : ∀ failure ∈ failures, failure.transient = true)
    (hl : t.supervisor.attempts + failures.length = policy.budget) :
    ∃ u, run (Tally.step policy) freely t (failing_ticks t.supervisor.attempts failures) = some u ∧
      u.supervisor.control = .Ended .Budget (refusal (failures.getLast?.or last)) := by
  induction failures generalizing t last with
  | nil => exact refused_tick_runs hm hw hlast (by simpa using hl.ge)
  | cons failure failures ih =>
    rw [List.length_cons] at hl
    have hfa := hfai failure (.head _)
    obtain ⟨t', hru, hw', hc⟩ := failed_tick_runs hm hbound hw hlast (by omega)
      hfa
    obtain ⟨u, hr, he⟩ := ih hw' (by rintro _ ⟨⟩; exact hfa)
      (fun f hf => hfai f (.tail _ hf)) (by omega)
    refine ⟨u, ?_, ?_⟩
    · rw [failing_ticks, run_append hru, ← hc]
      exact hr
    · rw [he]
      cases failures with
      | nil => rfl
      | cons f fs => simp [List.getLast?_cons]

end

/-! ## Deliveries of the same event -/

/-- A value of the watch that says what the task knows already. -/
def duplicate (s : Supervisor) : LeadershipEvent → Bool
  | .StartedLeading => s.is_leading
  | .StoppedLeading => !s.is_leading

theorem duplicate_changes_nothing {t : Tally} {event : LeadershipEvent}
    (hc : t.supervisor.control = .Select) (hs : duplicate t.supervisor event = true) :
    t.supervisor.resets (.changed (some event)) = false ∧
      ((∃ ending, event = .StartedLeading ∧
          t.supervisor.state = .Active ending t.supervisor.leader_epoch) ∨
        event = .StoppedLeading ∧ t.supervisor.state = .Inactive →
        run (Tally.step policy) freely t [.changed (some event), .go] = some t) := by
  obtain ⟨⟨control, state, is_leading, attempts, leader_epoch, stop_requested, cancelled⟩, tries⟩ := t
  dsimp only at hc ⊢
  subst hc
  cases event with
  | StartedLeading =>
    obtain rfl : is_leading = true := hs
    refine ⟨rfl, ?_⟩
    rintro (⟨ending, -, rfl⟩ | ⟨ho, -⟩)
    · have hd : reconcile_event ⟨.Reconciling .Watch .StartedLeading,
          .Active ending leader_epoch, true, attempts, leader_epoch, stop_requested,
            cancelled⟩ .Watch
          .StartedLeading = ⟨.Select, .Active ending leader_epoch, true, attempts, leader_epoch,
            stop_requested, cancelled⟩ := by simp [reconcile_event, reconciled, goto]
      refine Eq.trans ?_ (congrArg (fun s => some (Tally.mk s tries)) hd)
      rfl
    · cases ho
  | StoppedLeading =>
    obtain rfl : is_leading = false := by simpa [duplicate] using hs
    refine ⟨rfl, ?_⟩
    rintro (⟨ending, ho, -⟩ | ⟨-, rfl⟩)
    · cases ho
    · rfl

/-! ## The budget is exact -/

/-- Between two resets the task tries to make as many delegates as its budget lets it, and as many
exactly when the budget is what ends it. Then it ends with Ok or with the error of a delegate that
the last tick has found, and attempts that keep failing come to this end. Without a budget it tries
none. What it knows already resets nothing, and is an attempt only where no delegate is there. -/
theorem acquisition_budget_is_exact (policy : NetworkRetryPolicy) (hmax : 1 ≤ policy.max_attempts)
    (hbound : policy.max_attempts < 2 ^ 32) (epoch : Nat) (t : Tally)
    (h : Reach (Tally.step policy) (fun _ _ => True) (Tally.start epoch) t) :
    t.tries ≤ policy.budget ∧
      (policy.enabled = false → t.tries = 0) ∧
      (t.supervisor.control.cause = some .Budget → t.tries = policy.budget) ∧
      (∀ result, t.supervisor.control = .Ended .Budget result →
        result = .ok () ∨ ∃ err, result = .error err ∧ is_retryable_camel_error err = true) ∧
      (∀ failures : List Failure, Waiting t.supervisor none →
        (∀ failure ∈ failures, failure.transient = true) →
        t.supervisor.attempts + failures.length = policy.budget →
        ∃ u, run (Tally.step policy) freely t (failing_ticks t.supervisor.attempts failures) =
            some u ∧
          u.supervisor.control = .Ended .Budget (refusal failures.getLast?) ∧
          u.tries = policy.budget) ∧
      ∀ event, t.supervisor.control = .Select → duplicate t.supervisor event = true →
        t.supervisor.resets (.changed (some event)) = false ∧
        ((∃ ending, event = .StartedLeading ∧
            t.supervisor.state = .Active ending t.supervisor.leader_epoch) ∨
          event = .StoppedLeading ∧ t.supervisor.state = .Inactive →
          run (Tally.step policy) freely t [.changed (some event), .go] = some t) := by
  have hc : ∀ u, Reach (Tally.step policy) (fun _ _ => True) (Tally.start epoch) u →
      Counted policy u := fun u hu => hu.invariant (start_counted policy epoch)
        fun ht _ hst => step_counted hmax hbound ht hst
  have hs : ∀ u, Counted policy u → u.supervisor.control.cause = some .Budget →
      u.tries = policy.budget := by
    intro u hu hca
    have ha : policy.budget ≤ u.supervisor.attempts := by
      unfold Control.cause at hca
      split at hca
      · rename_i cause fatal hco
        cases hca
        exact (hu.spent.tail fatal hco).1
      · rename_i cause result hco
        cases hca
        exact (hu.spent.ended result hco).1
      · cases hca
    rw [hu.tries]
    omega
  have ht := hc t h
  have hle : t.tries ≤ policy.budget := by
    rw [ht.tries]
    exact Nat.min_le_right _ _
  refine ⟨hle, ?_, hs t ht, fun result he => (ht.spent.ended result he).2, ?_, ?_⟩
  · intro hd
    have hn : policy.budget = 0 := by simp [NetworkRetryPolicy.budget, hd]
    omega
  · intro failures hw hf hl
    obtain ⟨u, hr, he⟩ := failing_ticks_run hmax hbound hw nofun hf hl
    rw [Option.or_none] at he
    have hu := hc u (h.trans (reach_of_run (fun _ _ _ => trivial) hr))
    exact ⟨u, hr, he, hs u hu (by rw [he]; rfl)⟩
  · intro event hco hsa
    exact duplicate_changes_nothing hco hsa

/-- Leadership is there, and the first attempt has failed. -/
def refused_once : List Event :=
  [.initial (some .StartedLeading), .go, .create (.error connection_refused) (.ok ())]

/-- Two more attempts fail, the second of them because the delegate dies. -/
theorem three_failures_spend_three_tries :
    ∃ t u, Reach (Tally.step three_tries) (fun _ _ => True) (Tally.start 1) t ∧
      run (Tally.step three_tries) freely t (failing_ticks 1 [.consumer connection_refused,
        .task (.Returned (.error connection_refused))]) = some u ∧
      u.supervisor.control = .Ended .Budget (.error connection_refused) ∧ u.tries = 3 := by
  have hru : ∃ t, run (Tally.step three_tries) freely (Tally.start 1) refused_once = some t ∧
      Waiting t.supervisor none ∧ t.supervisor.attempts = 1 :=
    ⟨_, rfl, ⟨rfl, rfl, rfl, rfl, rfl⟩, rfl⟩
  obtain ⟨t, hru, hw, ha⟩ := hru
  have hr : Reach (Tally.step three_tries) (fun _ _ => True) (Tally.start 1) t :=
    reach_of_run (fun _ _ _ => trivial) hru
  obtain ⟨-, -, -, -, hf, -⟩ :=
    acquisition_budget_is_exact three_tries (by decide) (by decide) 1 t hr
  obtain ⟨u, hre, he, ht⟩ := hf
    [.consumer connection_refused, .task (.Returned (.error connection_refused))] hw
    (by simp [Failure.transient, Ending.delegate_result, connection_refused,
      is_retryable_camel_error]) (by rw [ha]; rfl)
  rw [ha] at hre
  exact ⟨t, u, hr, hre, he, ht⟩

/-- A delivery of what the task knows already is an attempt of its own while no delegate is there,
and the task that has spent its budget on failed attempts ends with Ok. -/
theorem duplicate_is_an_attempt :
    (∃ t u, Reach (Tally.step three_tries) (fun _ _ => True) (Tally.start 1) t ∧
      t.supervisor.control = .Select ∧ duplicate t.supervisor .StartedLeading = true ∧
      run (Tally.step three_tries) freely t
        [.changed (some .StartedLeading), .go, .create (.error connection_refused) (.ok ())] =
          some u ∧ u.tries = t.tries + 1) ∧
    ∃ u, Reach (Tally.step three_tries) (fun _ _ => True) (Tally.start 1) u ∧
      u.supervisor.control = .Ended .Budget (.ok ()) := by
  constructor
  · have hru : ∃ t u, run (Tally.step three_tries) freely (Tally.start 1) refused_once = some t ∧
        t.supervisor.control = .Select ∧ duplicate t.supervisor .StartedLeading = true ∧
        run (Tally.step three_tries) freely t
          [.changed (some .StartedLeading), .go, .create (.error connection_refused) (.ok ())] =
            some u ∧ u.tries = t.tries + 1 := ⟨_, _, rfl, rfl, rfl, rfl, rfl⟩
    obtain ⟨t, u, hru, hr⟩ := hru
    exact ⟨t, u, reach_of_run (fun _ _ _ => trivial) hru, hr⟩
  · have hru : ∃ u, run (Tally.step three_tries) freely (Tally.start 1) (refused_once ++
        failing_ticks 1 [.endpoint connection_refused, .endpoint connection_refused]) = some u ∧
        u.supervisor.control = .Ended .Budget (.ok ()) := ⟨_, rfl, rfl⟩
    obtain ⟨u, hru, he⟩ := hru
    exact ⟨u, reach_of_run (fun _ _ _ => trivial) hru, he⟩

end camel_master
