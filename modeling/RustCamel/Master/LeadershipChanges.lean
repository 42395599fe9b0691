-- What ends the supervision task. A delegate that fails with a retryable error is retried by the
-- tick, but the arm of the watch hands the same error out when it has to stop that delegate.
import RustCamel.Master.Supervision

namespace camel_master

open Runs Supervisor

variable {policy : NetworkRetryPolicy}

/-! ## The runs -/

/-- The causes that are meant to end the task. -/
def Cause.Expected (cause : Cause) : Prop :=
  cause = .Stop ∨ cause = .Cancelled ∨ cause = .Closed ∨ cause = .Budget

/-- Why the task has left its loop, once it has. -/
def Control.cause : Control → Option Cause
  | .Tail cause _ | .Ended cause _ => some cause
  | _ => none

/-- The result is Ok or an error that a retry can mend. -/
def mild_result : Except CamelError Unit → Bool
  | .ok _ => true
  | .error err => is_retryable_camel_error err

def Ending.mild (ending : Ending) : Bool := mild_result ending.delegate_result

/-- Delegates are built and end with Ok or a retryable error. -/
def mild : Event → Bool
  | .ends ending => ending.mild
  | .create endpoint consumer => mild_result endpoint && mild_result consumer
  | _ => true

/-- The arm of the watch does not come upon a delegate that ends with an error. -/
def undisturbed (s : Supervisor) : Event → Bool
  | .drained =>
    match s.control, s.state with
    | .Draining .Watch _, .Active (some ending) _ => ending.delegate_result.isOk
    | _, _ => true
  | _ => true

/-! ## The invariant -/

def DelegateState.Mild : DelegateState → Prop
  | .Active (some ending) _ => ending.mild
  | _ => True

/-- The task is in its loop, or has left it for an expected cause. -/
def Control.Sound (control : Control) : Prop := ∀ cause, control.cause = some cause → cause.Expected

/-- A delegate is active only where the initial value of the watch is behind the task. -/
def Control.Calm : Control → DelegateState → Prop
  | .Draining .Initial _, _ => False
  | .Reconciling .Initial _, state => state = .Inactive
  | .Starting, state => state = .Inactive
  | _, _ => True

structure Steady (s : Supervisor) : Prop where
  mild : s.state.Mild
  sound : s.control.Sound
  calm : s.control.Calm s.state

theorem start_steady (epoch : Nat) : Steady (start epoch) := by
  refine ⟨trivial, ?_, rfl⟩
  intro cause h
  cases h

variable {s : Supervisor} {caller : Caller} {ending : Ending} {result : Except CamelError Unit}
  {fatal : Option CamelError} {control : Control} {dispatched : Bool} {epoch : Nat}

theorem steady_goto (hm : s.state.Mild) (hc : control.cause = none)
    (hca : control.Calm s.state) : Steady (s.goto control) := by
  refine ⟨hm, ?_, hca⟩
  intro cause h
  rw [show (s.goto control).control = control from rfl, hc] at h
  cases h

theorem steady_leave {cause : Cause} (hm : s.state.Mild) (hc : cause.Expected) :
    Steady (s.leave cause fatal) := by
  refine ⟨hm, ?_, trivial⟩
  intro cause' h
  obtain rfl : cause = cause' := Option.some.inj h
  exact hc

theorem reconciled_steady (hm : s.state.Mild) (hr : mild_result result)
    (ho : result = .ok () ∨ caller = .StaleStamp ∨ caller = .Acquisition) :
    Steady (s.reconciled caller result) := by
  cases result with
  | ok u => cases caller <;> exact steady_goto hm rfl trivial
  | error err =>
    have he : is_retryable_camel_error err = true := hr
    cases caller with
    | Initial | Watch => simp at ho
    | StaleStamp | Acquisition =>
      rw [reconciled, if_pos he]
      exact steady_goto hm rfl trivial

theorem reconcile_event_steady {event : LeadershipEvent} (hm : s.state.Mild)
    (hi : caller = .Initial → s.state = .Inactive) :
    Steady (s.reconcile_event caller event) := by
  have hd : ∀ ending epoch, s.state = .Active ending epoch → ∀ event,
      Steady (s.goto (.Draining caller event)) := by
    intro ending epoch hs event
    refine steady_goto hm rfl ?_
    cases caller with
    | Initial => rw [hi rfl] at hs; cases hs
    | Watch | StaleStamp | Acquisition => trivial
  cases event with
  | StartedLeading =>
    simp only [reconcile_event]
    split
    · rename_i ending epoch hs
      split
      · exact reconciled_steady hm rfl (.inl rfl)
      · exact hd ending epoch hs _
    · exact steady_goto hm rfl (by cases caller <;> trivial)
  | StoppedLeading =>
    simp only [reconcile_event]
    split
    · rename_i ending epoch hs
      exact hd ending epoch hs _
    · exact reconciled_steady hm rfl (.inl rfl)

theorem delegate_stopped_steady {event : LeadershipEvent} (hr : mild_result result)
    (ho : result = .ok () ∨ caller = .StaleStamp ∨ caller = .Acquisition) :
    Steady (s.delegate_stopped caller event result) := by
  cases result with
  | error err => exact reconciled_steady trivial hr ho
  | ok u =>
    cases event with
    | StartedLeading => exact steady_goto trivial rfl (by cases caller <;> trivial)
    | StoppedLeading => exact reconciled_steady trivial rfl (.inl rfl)

theorem create_error_steady {err : CamelError} (hm : s.state.Mild)
    (he : mild_result (.error err)) : Steady (s.create_error caller err) := by
  have hr : is_retryable_camel_error err = true := he
  rw [create_error, if_pos hr]
  exact reconciled_steady hm rfl (.inl rfl)

theorem create_steady {term_bump : Bool} {endpoint consumer : Except CamelError Unit}
    (hm : s.state.Mild) (he : mild_result endpoint) (hc : mild_result consumer) :
    Steady (s.create policy caller term_bump endpoint consumer) := by
  unfold Supervisor.create
  generalize (if term_bump then 0 else s.attempts) = count
  dsimp only
  split
  · exact reconciled_steady hm rfl (.inl rfl)
  · split
    · exact create_error_steady hm he
    · exact create_error_steady hm hc
    · exact reconciled_steady trivial rfl (.inl rfl)

theorem finished_delegate_steady (hm : s.state.Mild) (he : ending.mild) :
    Steady (s.finished_delegate dispatched ending) := by
  unfold finished_delegate
  split
  · exact steady_leave hm (.inl rfl)
  · split
    · exact steady_leave hm (.inr (.inl rfl))
    · split
      · exact steady_goto trivial rfl trivial
      · rename_i err her
        have hr : is_retryable_camel_error err = true := by
          rw [Ending.mild, her] at he
          exact he
        rw [if_pos hr]
        exact steady_goto trivial rfl trivial

theorem acquire_steady {tick_err : Option CamelError} (hm : s.state.Mild) :
    Steady (s.acquire policy dispatched tick_err) := by
  unfold acquire
  split
  · exact steady_goto hm rfl trivial
  · split
    · exact steady_goto hm rfl trivial
    · split
      · exact steady_leave hm (by simp [Cause.Expected])
      · split <;> exact steady_goto hm rfl trivial

theorem retry_tick_steady (hm : s.state.Mild) : Steady s.retry_tick := by
  unfold retry_tick
  split
  · split <;> exact steady_goto hm rfl trivial
  · exact steady_goto hm rfl trivial

theorem finish_steady {cause : Cause} {tail : Except CamelError Unit} (hc : cause.Expected) :
    Steady (s.finish cause fatal tail) := by
  refine ⟨trivial, ?_, trivial⟩
  intro cause' h
  obtain rfl : cause = cause' := Option.some.inj h
  exact hc

/-! ## One move -/

theorem drained_result {event : LeadershipEvent} (hs : Steady s)
    (hc : s.control = .Draining caller event)
    (hst : s.state = .Active (some ending) epoch) (hw : undisturbed s .drained) :
    ending.delegate_result = .ok () ∨ caller = .StaleStamp ∨ caller = .Acquisition := by
  cases caller with
  | StaleStamp | Acquisition => simp
  | Initial =>
    have hca := hs.calm
    rw [hc] at hca
    exact absurd hca id
  | Watch =>
    simp only [undisturbed, hc, hst] at hw
    cases hr : ending.delegate_result with
    | ok u => exact .inl rfl
    | error err =>
      rw [hr] at hw
      cases hw

theorem calm_of_ended (h : control.Calm (.Active none epoch)) :
    control.Calm (.Active (some ending) epoch) := by
  cases control with
  | Starting => cases h
  | Reconciling caller event =>
    cases caller with
    | Initial => cases h
    | Watch | StaleStamp | Acquisition => trivial
  | Draining caller event => cases caller <;> exact h
  | _ => trivial

theorem step_steady {t : Supervisor} {e : Event} (hs : Steady s) (hm : mild e)
    (hw : undisturbed s e) (h : s.step policy e = some t) : Steady t := by
  have hst := hs.mild
  have hcal := hs.calm
  cases move_of_step h with
  | ends ending epoch ha => exact ⟨hm, hs.sound, calm_of_ended (ha ▸ hcal)⟩
  | publish | stop | cancel => exact ⟨hs.mild, hs.sound, hs.calm⟩
  | no_change hc => exact hs
  | no_initial hc
  | changed event hc
  | unfinished dispatched hc ha
  | back_off hc => exact steady_goto hst rfl trivial
  | initial event hc =>
    rw [hc] at hcal
    exact steady_goto hst rfl hcal
  | stop_seen hc hsto => exact steady_leave hst (.inl rfl)
  | cancel_seen hc hca => exact steady_leave hst (.inr (.inl rfl))
  | closed hc => exact steady_leave hst (.inr (.inr (.inl rfl)))
  | tick hc => exact retry_tick_steady hst
  | reconcile caller event hc =>
    rw [hc] at hcal
    exact reconcile_event_steady hst (by rintro rfl; exact hcal)
  | drained caller event ending epoch hc ha =>
    rw [ha] at hst
    exact delegate_stopped_steady hst (drained_result hs hc ha hw)
  | timed_out caller event epoch hc ha => exact delegate_stopped_steady rfl (.inl rfl)
  | create caller term_bump endpoint consumer hc =>
    obtain ⟨he, hco⟩ := Bool.and_eq_true_iff.mp hm
    exact create_steady hst he hco
  | finished dispatched ending epoch hc ha =>
    have hen : ending.mild := by
      rw [ha] at hst
      exact hst
    exact finished_delegate_steady hst hen
  | acquire dispatched tick_err hc => exact acquire_steady hst
  | tail_drained cause fatal ending epoch hc ha
  | tail_timed_out cause fatal epoch hc ha
  | tail_inactive cause fatal hc ha =>
    exact finish_steady (hs.sound cause (by rw [hc]; rfl))

/-! ## Whole runs -/

/-- Leadership changes do not end the task: as long as the arm of the watch does not come upon a
delegate that ends with an error, the task leaves its loop only because it is stopped or cancelled,
because the watch is closed, or because the budget of acquisitions is spent. -/
theorem leadership_changes_do_not_end_the_task (policy : NetworkRetryPolicy) (epoch : Nat)
    (s : Supervisor)
    (h : Reach (step policy) (fun s e => mild e ∧ undisturbed s e) (start epoch) s)
    (cause : Cause) (hcause : s.control.cause = some cause) : cause.Expected := by
  have hs : Steady s :=
    h.invariant (start_steady epoch) fun ht ho hst => step_steady ht ho.1 ho.2 hst
  exact hs.sound cause hcause

def three_tries : NetworkRetryPolicy := ⟨true, 3, none⟩

def connection_refused : CamelError := .Io "connection refused"

/-- Leadership is there, and a delegate runs. -/
def elected : List Event := [.initial (some .StartedLeading), .go, .create (.ok ()) (.ok ())]

/-- The tick comes upon the failed delegate and makes a new one. Leadership is lost while that one
runs, and the consumer is stopped. -/
def retried : List Event :=
  elected ++ [.ends (.Returned (.error connection_refused)), .tick, .go, .go, .go,
    .create (.ok ()) (.ok ()), .changed (some .StoppedLeading), .go, .timed_out, .stop, .stop_seen,
    .go]

theorem retried_run :
    ∃ s, Reach (step three_tries) (fun s e => mild e ∧ undisturbed s e) (start 1) s ∧
      s.control.cause = some .Stop := by
  have hr : ∃ s, run (step three_tries) (fun s e => mild e && undisturbed s e) (start 1)
      retried = some s ∧ s.control.cause = some .Stop := ⟨_, rfl, rfl⟩
  obtain ⟨s, hr, hc⟩ := hr
  exact ⟨s, reach_of_run (fun s e h => Bool.and_eq_true_iff.mp h) hr, hc⟩

theorem retried_delegate_ends_with_the_stop :
    ∃ s cause, Reach (step three_tries) (fun s e => mild e ∧ undisturbed s e) (start 1) s ∧
      s.control.cause = some cause ∧ cause.Expected := by
  obtain ⟨s, hr, hc⟩ := retried_run
  exact ⟨s, .Stop, hr, hc, leadership_changes_do_not_end_the_task three_tries 1 s hr .Stop hc⟩

/-- Leadership is lost before the next tick has seen that the delegate failed. -/
def lost_while_dying : List Event :=
  elected ++ [.ends (.Returned (.error connection_refused)), .changed (some .StoppedLeading), .go,
    .drained]

theorem losing_leadership_ends_the_task :
    ¬∀ (policy : NetworkRetryPolicy) (epoch : Nat) (s : Supervisor) (cause : Cause),
      Reach (step policy) (fun _ e => mild e) (start epoch) s →
      s.control.cause = some cause → cause.Expected := by
  intro ha
  have hr : ∃ s, run (step three_tries) (fun _ e => mild e) (start 1) lost_while_dying = some s ∧
      s.control.cause = some .ReconcileFailed := ⟨_, rfl, rfl⟩
  obtain ⟨s, hr, hc⟩ := hr
  have he := ha three_tries 1 s .ReconcileFailed (reach_of_run (fun _ _ h => h) hr) hc
  simp [Cause.Expected] at he

end camel_master
