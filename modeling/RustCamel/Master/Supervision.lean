-- The supervision task of the master component in `supervision.rs` and `leadership.rs`: the select
-- loop, the reconciliation of a leadership event and the teardown of a delegate. The task moves
-- from one await point or one look at shared state to the next, and the rest of the world moves in
-- between: the delegate ends, a term is published, the consumer is stopped.
import Mathlib.Algebra.Order.Ring.Nat
import Mathlib.Data.List.Infix
import RustCamel.Lib.Runs

open Option

namespace camel_master

/-! ## Errors and retries -/

/-- The errors by what `is_retryable_camel_error` tells apart. -/
inductive CamelError where
  | Io (text : String)
  | ProcessorError (text : String)
  | ProcessorErrorWithSource (text : String)
  -- every other variant
  | Other (text : String)

def has_transient_marker (text : String) : Bool := decide ("[TRANSIENT]".toList <:+: text.toList)

def is_retryable_camel_error : CamelError → Bool
  | .Io _ => true
  | .ProcessorError text | .ProcessorErrorWithSource text => has_transient_marker text
  | .Other _ => false

structure NetworkRetryPolicy where
  enabled : Bool
  max_attempts : Nat
  max_attempts_absolute : Option Nat

def NetworkRetryPolicy.should_retry (policy : NetworkRetryPolicy) (attempt : Nat) : Bool :=
  if !policy.enabled then false
  else if policy.max_attempts_absolute.any (fun abs_cap => attempt ≥ abs_cap) then false
  else policy.max_attempts = 0 || attempt < policy.max_attempts

/-! ## The delegate -/

/-- How the task of a delegate ended. -/
inductive Ending where
  | Returned (result : Except CamelError Unit)
  | Panicked (text : String)
  | Aborted (text : String)

/-- What `stop_delegate` makes of it. -/
def Ending.delegate_result : Ending → Except CamelError Unit
  | .Returned result => result
  | .Panicked text => .error (.ProcessorError ("master delegate task panicked: " ++ text))
  | .Aborted text => .error (.ProcessorError ("master delegate task cancelled: " ++ text))

inductive DelegateState where
  | Inactive
  -- `ending` is what the join handle gives, once the task has ended
  | Active (ending : Option Ending) (epoch : Nat)

inductive LeadershipEvent where
  | StartedLeading
  | StoppedLeading
  deriving DecidableEq

/-! ## The supervision task -/

/-- The place that calls `reconcile_event`. -/
inductive Caller where
  | Initial
  | Watch
  -- the two synthetic dispatches of the retry tick
  | StaleStamp
  | Acquisition

/-- Why the loop was left. -/
inductive Cause where
  | Stop
  | Cancelled
  | Closed
  | Budget
  -- the retry tick found a permanent error of the delegate
  | TaskFailed
  -- `reconcile_event` failed, and its caller returned the error
  | ReconcileFailed

/-- Where the supervision task stands. -/
inductive Control where
  | Starting
  | Select
  | Reconciling (caller : Caller) (event : LeadershipEvent)
  -- in `stop_delegate`, with the delegate told to stop
  | Draining (caller : Caller) (event : LeadershipEvent)
  | Creating (caller : Caller) (term_bump : Bool)
  | TickFinished (dispatched : Bool)
  | TickAcquire (dispatched : Bool) (tick_err : Option CamelError)
  | BackingOff
  | Tail (cause : Cause) (fatal : Option CamelError)
  | Ended (cause : Cause) (result : Except CamelError Unit)

structure Supervisor where
  control : Control
  state : DelegateState
  is_leading : Bool
  attempts : Nat
  leader_epoch : Nat
  stop_requested : Bool
  cancelled : Bool

/-- What happens in one move of the task or around it. -/
inductive Event where
  -- around the task
  | ends (ending : Ending)
  | publish (epoch : Nat)
  | stop
  | cancel
  -- the value in the watch when the task starts
  | initial (event : Option LeadershipEvent)
  -- the arms of the select
  | stop_seen
  | cancel_seen
  | closed
  | changed (event : Option LeadershipEvent)
  | tick
  -- one move on, with nothing to wait for
  | go
  -- the two ends of the wait for a delegate
  | drained
  | timed_out
  | create (endpoint consumer : Except CamelError Unit)

namespace Supervisor

/-- The task before its first move, with the term that is published then. -/
def start (epoch : Nat) : Supervisor := ⟨.Starting, .Inactive, false, 0, epoch, false, false⟩

variable (s : Supervisor)

def goto (control : Control) : Supervisor := { s with control }

/-- Out of the loop, to the graceful tail. -/
def leave (cause : Cause) (fatal : Option CamelError) : Supervisor := s.goto (.Tail cause fatal)

/-- Out of the task with an error, past the graceful tail. -/
def fail (err : CamelError) : Supervisor := s.goto (.Ended .ReconcileFailed (.error err))

/-- Where the caller of `reconcile_event` goes with its result. -/
def reconciled : Caller → Except CamelError Unit → Supervisor
  | .Initial, .ok _ | .Watch, .ok _ => s.goto .Select
  | .Initial, .error err | .Watch, .error err => s.fail err
  | .StaleStamp, .ok _ => s.goto (.TickFinished true)
  | .StaleStamp, .error err =>
    if is_retryable_camel_error err then s.goto (.TickFinished true) else s.fail err
  | .Acquisition, .ok _ => s.goto .Select
  | .Acquisition, .error err =>
    if is_retryable_camel_error err then s.goto .Select else s.fail err

/-- `reconcile_event` up to its first wait. -/
def reconcile_event (caller : Caller) : LeadershipEvent → Supervisor
  | .StartedLeading =>
    match s.state with
    | .Active _ epoch =>
      if epoch = s.leader_epoch then s.reconciled caller (.ok ())
      else s.goto (.Draining caller .StartedLeading)
    | .Inactive => s.goto (.Creating caller false)
  | .StoppedLeading =>
    match s.state with
    | .Active _ _ => s.goto (.Draining caller .StoppedLeading)
    | .Inactive => s.reconciled caller (.ok ())

/-- `reconcile_event` behind `stop_delegate`. -/
def delegate_stopped (caller : Caller) (event : LeadershipEvent) :
    Except CamelError Unit → Supervisor
  | .error err => { s with state := .Inactive }.reconciled caller (.error err)
  | .ok _ =>
    match event with
    | .StartedLeading => { s with state := .Inactive }.goto (.Creating caller true)
    | .StoppedLeading => { s with state := .Inactive }.reconciled caller (.ok ())

/-- An error of `create_endpoint` or `create_consumer`: a transient one is left to the next tick. -/
def create_error (caller : Caller) (err : CamelError) : Supervisor :=
  s.reconciled caller (if is_retryable_camel_error err then .ok () else .error err)

variable (policy : NetworkRetryPolicy)

/-- The consult of the budget and the create. -/
def create (s : Supervisor) (caller : Caller) (term_bump : Bool)
    (endpoint consumer : Except CamelError Unit) : Supervisor :=
  let count := if term_bump then 0 else s.attempts
  let counted := { s with attempts := min (count + 1) (2 ^ 32 - 1) }
  if !policy.should_retry count then counted.reconciled caller (.ok ())
  else
    match endpoint, consumer with
    | .error err, _ => counted.create_error caller err
    | .ok _, .error err => counted.create_error caller err
    | .ok _, .ok _ =>
      { counted with state := .Active none s.leader_epoch }.reconciled caller (.ok ())

/-- The head of the retry tick: a stamp that is not the published term is dispatched again. -/
def retry_tick : Supervisor :=
  match s.state with
  | .Active _ epoch =>
    if s.is_leading && epoch != s.leader_epoch then
      s.goto (.Reconciling .StaleStamp .StartedLeading)
    else s.goto (.TickFinished false)
  | .Inactive => s.goto (.TickFinished false)

/-- The retry tick at a delegate whose task has ended. -/
def finished_delegate (dispatched : Bool) (ending : Ending) : Supervisor :=
  if s.stop_requested then s.leave .Stop none
  else if s.cancelled then s.leave .Cancelled none
  else
    match ending.delegate_result with
    | .ok _ => { s with state := .Inactive }.goto (.TickAcquire dispatched none)
    | .error err =>
      if is_retryable_camel_error err then
        { s with state := .Inactive }.goto (.TickAcquire dispatched (some err))
      else { s with state := .Inactive }.leave .TaskFailed (some err)

def acquire (s : Supervisor) (dispatched : Bool) (tick_err : Option CamelError) : Supervisor :=
  match s.state with
  | .Active _ _ => s.goto .Select
  | .Inactive =>
    if dispatched || !s.is_leading then s.goto .Select
    else if !policy.should_retry s.attempts then s.leave .Budget tick_err
    else if s.attempts > 1 then s.goto .BackingOff
    else s.goto (.Reconciling .Acquisition .StartedLeading)

/-- The edge of leadership that a value of the watch makes. -/
def observe (event : LeadershipEvent) : Supervisor :=
  let leading := event = .StartedLeading
  { s with
    is_leading := leading
    attempts := if leading && !s.is_leading then 0 else s.attempts }

/-- The end of the tail: the first error is surfaced. -/
def finish (cause : Cause) (fatal : Option CamelError) (tail : Except CamelError Unit) :
    Supervisor :=
  { s with state := .Inactive }.goto (.Ended cause
    (match fatal with
      | some err => .error err
      | none => tail))

/-- One move of the task from the place where it stands. -/
def next (s : Supervisor) (e : Event) : Option Supervisor :=
  match s.control with
  | .Starting =>
    match e with
    | .initial none => some (s.goto .Select)
    | .initial (some event) => some ((s.observe event).goto (.Reconciling .Initial event))
    | _ => none
  | .Select =>
    match e with
    | .stop_seen => if s.stop_requested then some (s.leave .Stop none) else none
    | .cancel_seen => if s.cancelled then some (s.leave .Cancelled none) else none
    | .closed => some (s.leave .Closed none)
    | .changed none => some s
    | .changed (some event) => some ((s.observe event).goto (.Reconciling .Watch event))
    | .tick => some s.retry_tick
    | _ => none
  | .Reconciling caller event =>
    match e with
    | .go => some (s.reconcile_event caller event)
    | _ => none
  | .Draining caller event =>
    match s.state, e with
    | .Active (some ending) _, .drained =>
      some (s.delegate_stopped caller event ending.delegate_result)
    -- the delegate is aborted
    | .Active none _, .timed_out => some (s.delegate_stopped caller event (.ok ()))
    | _, _ => none
  | .Creating caller term_bump =>
    match e with
    | .create endpoint consumer => some (s.create policy caller term_bump endpoint consumer)
    | _ => none
  | .TickFinished dispatched =>
    match e with
    | .go =>
      match s.state with
      | .Active (some ending) _ => some (s.finished_delegate dispatched ending)
      | _ => some (s.goto (.TickAcquire dispatched none))
    | _ => none
  | .TickAcquire dispatched tick_err =>
    match e with
    | .go => some (s.acquire policy dispatched tick_err)
    | _ => none
  | .BackingOff =>
    match e with
    -- only the stop token is watched here
    | .stop_seen => if s.stop_requested then some (s.leave .Stop none) else none
    | .go => some (s.goto (.Reconciling .Acquisition .StartedLeading))
    | _ => none
  | .Tail cause fatal =>
    match s.state, e with
    | .Active (some ending) _, .drained => some (s.finish cause fatal ending.delegate_result)
    | .Active none _, .timed_out => some (s.finish cause fatal (.ok ()))
    | .Inactive, .go => some (s.finish cause fatal (.ok ()))
    | _, _ => none
  | .Ended _ _ => none

/-- One event: of the world around the task, or a move of the task. -/
def step (s : Supervisor) (e : Event) : Option Supervisor :=
  match e with
  | .ends ending =>
    match s.state with
    | .Active none epoch => some { s with state := .Active (some ending) epoch }
    | _ => none
  | .publish epoch => some { s with leader_epoch := epoch }
  | .stop => some { s with stop_requested := true }
  | .cancel => some { s with cancelled := true }
  | e => s.next policy e

end Supervisor

/-! ## The moves one by one -/

/-- What each event does, and where it can happen. -/
inductive Move (policy : NetworkRetryPolicy) (s : Supervisor) : Event → Supervisor → Prop
  | ends (ending : Ending) (epoch : Nat) (hstate : s.state = .Active none epoch) :
    Move policy s (.ends ending) { s with state := .Active (some ending) epoch }
  | publish (epoch : Nat) : Move policy s (.publish epoch) { s with leader_epoch := epoch }
  | stop : Move policy s .stop { s with stop_requested := true }
  | cancel : Move policy s .cancel { s with cancelled := true }
  | no_initial (hcontrol : s.control = .Starting) : Move policy s (.initial none) (s.goto .Select)
  | initial (event : LeadershipEvent) (hcontrol : s.control = .Starting) :
    Move policy s (.initial (some event)) ((s.observe event).goto (.Reconciling .Initial event))
  | stop_seen (hcontrol : s.control = .Select ∨ s.control = .BackingOff)
    (hstop : s.stop_requested = true) : Move policy s .stop_seen (s.leave .Stop none)
  | cancel_seen (hcontrol : s.control = .Select) (hcancel : s.cancelled = true) :
    Move policy s .cancel_seen (s.leave .Cancelled none)
  | closed (hcontrol : s.control = .Select) : Move policy s .closed (s.leave .Closed none)
  | no_change (hcontrol : s.control = .Select) : Move policy s (.changed none) s
  | changed (event : LeadershipEvent) (hcontrol : s.control = .Select) :
    Move policy s (.changed (some event)) ((s.observe event).goto (.Reconciling .Watch event))
  | tick (hcontrol : s.control = .Select) : Move policy s .tick s.retry_tick
  | reconcile (caller : Caller) (event : LeadershipEvent)
    (hcontrol : s.control = .Reconciling caller event) :
    Move policy s .go (s.reconcile_event caller event)
  | drained (caller : Caller) (event : LeadershipEvent) (ending : Ending) (epoch : Nat)
    (hcontrol : s.control = .Draining caller event)
    (hstate : s.state = .Active (some ending) epoch) :
    Move policy s .drained (s.delegate_stopped caller event ending.delegate_result)
  | timed_out (caller : Caller) (event : LeadershipEvent) (epoch : Nat)
    (hcontrol : s.control = .Draining caller event) (hstate : s.state = .Active none epoch) :
    Move policy s .timed_out (s.delegate_stopped caller event (.ok ()))
  | create (caller : Caller) (term_bump : Bool) (endpoint consumer : Except CamelError Unit)
    (hcontrol : s.control = .Creating caller term_bump) :
    Move policy s (.create endpoint consumer) (s.create policy caller term_bump endpoint consumer)
  | finished (dispatched : Bool) (ending : Ending) (epoch : Nat)
    (hcontrol : s.control = .TickFinished dispatched)
    (hstate : s.state = .Active (some ending) epoch) :
    Move policy s .go (s.finished_delegate dispatched ending)
  | unfinished (dispatched : Bool) (hcontrol : s.control = .TickFinished dispatched)
    (hstate : ∀ ending epoch, s.state ≠ .Active (some ending) epoch) :
    Move policy s .go (s.goto (.TickAcquire dispatched none))
  | acquire (dispatched : Bool) (tick_err : Option CamelError)
    (hcontrol : s.control = .TickAcquire dispatched tick_err) :
    Move policy s .go (s.acquire policy dispatched tick_err)
  | back_off (hcontrol : s.control = .BackingOff) :
    Move policy s .go (s.goto (.Reconciling .Acquisition .StartedLeading))
  | tail_drained (cause : Cause) (fatal : Option CamelError) (ending : Ending) (epoch : Nat)
    (hcontrol : s.control = .Tail cause fatal) (hstate : s.state = .Active (some ending) epoch) :
    Move policy s .drained (s.finish cause fatal ending.delegate_result)
  | tail_timed_out (cause : Cause) (fatal : Option CamelError) (epoch : Nat)
    (hcontrol : s.control = .Tail cause fatal) (hstate : s.state = .Active none epoch) :
    Move policy s .timed_out (s.finish cause fatal (.ok ()))
  | tail_inactive (cause : Cause) (fatal : Option CamelError)
    (hcontrol : s.control = .Tail cause fatal) (hstate : s.state = .Inactive) :
    Move policy s .go (s.finish cause fatal (.ok ()))

variable {policy : NetworkRetryPolicy} {e : Event}

theorem move_of_next {s t : Supervisor} (h : s.next policy e = some t) : Move policy s e t := by
  unfold Supervisor.next at h
  split at h
  case h_1 hc =>
    split at h
    · cases h
      exact .no_initial hc
    · cases h
      exact .initial _ hc
    · cases h
  case h_2 hc =>
    split at h
    · obtain ⟨hst, h⟩ := ite_none_right_eq_some.mp h
      cases h
      exact .stop_seen (.inl hc) hst
    · obtain ⟨hca, h⟩ := ite_none_right_eq_some.mp h
      cases h
      exact .cancel_seen hc hca
    · cases h
      exact .closed hc
    · cases h
      exact .no_change hc
    · cases h
      exact .changed _ hc
    · cases h
      exact .tick hc
    · cases h
  case h_3 caller event hc =>
    split at h
    · cases h
      exact .reconcile caller event hc
    · cases h
  case h_4 caller event hc =>
    split at h
    · rename_i ending epoch hs
      cases h
      exact .drained caller event ending epoch hc hs
    · rename_i epoch hs
      cases h
      exact .timed_out caller event epoch hc hs
    · cases h
  case h_5 caller term_bump hc =>
    split at h
    · cases h
      exact .create caller term_bump _ _ hc
    · cases h
  case h_6 dispatched hc =>
    split at h
    · split at h
      · rename_i ending epoch hs
        cases h
        exact .finished dispatched ending epoch hc hs
      · rename_i hs
        cases h
        exact .unfinished dispatched hc hs
    · cases h
  case h_7 dispatched tick_err hc =>
    split at h
    · cases h
      exact .acquire dispatched tick_err hc
    · cases h
  case h_8 hc =>
    split at h
    · obtain ⟨hst, h⟩ := ite_none_right_eq_some.mp h
      cases h
      exact .stop_seen (.inr hc) hst
    · cases h
      exact .back_off hc
    · cases h
  case h_9 cause fatal hc =>
    split at h
    · rename_i ending epoch hs
      cases h
      exact .tail_drained cause fatal ending epoch hc hs
    · rename_i epoch hs
      cases h
      exact .tail_timed_out cause fatal epoch hc hs
    · rename_i hs
      cases h
      exact .tail_inactive cause fatal hc hs
    · cases h
  case h_10 => cases h

theorem move_of_step {s t : Supervisor} (h : s.step policy e = some t) : Move policy s e t := by
  unfold Supervisor.step at h
  split at h
  · split at h
    · rename_i epoch hs
      cases h
      exact .ends _ epoch hs
    · cases h
  · cases h
    exact .publish _
  · cases h
    exact .stop
  · cases h
    exact .cancel
  · exact move_of_next h

end camel_master
