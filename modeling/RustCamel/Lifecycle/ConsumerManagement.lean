-- The task of a consumer and the watcher beside it (`consumer_management.rs`), for the two
-- startup modes. The task and its watcher share the flags, the latches and the cancel token,
-- and their calls interleave in any order.
import RustCamel.Lifecycle.Commands

namespace camel_core.lifecycle.consumer_management

open camel_api.error (CamelError)

/-! ## The calls -/

/-- How an `async fn` of the consumer ends. -/
inductive Ended where
  | returned (result : Except CamelError Unit)
  | panicked

/-- What the select over the background task and the cancel token gives. -/
inductive Joined where
  | finished (result : Except CamelError Unit)
  | panicked (join_err : String)
  | cancelled

/-- What one poll of a latch finds. -/
inductive Poll where
  | sent (msg : String)
  | closed
  | pending

inductive Call where
  -- the consumer and its startup signal
  | start
  | stop
  | background_task_handle
  | join_background
  | mark_ready
  | mark_failed (error : String)
  | is_cancelled
  -- what is published
  | send_crash (error : String)
  | publish_runtime_failure (error : String)
  | upgrade
  | now
  | execute (cmd : RuntimeCommand)
  -- the outcome cell and the guard of an explicit consumer
  | mark_accounted
  | is_accounted
  | drop_guard
  | await_terminated
  -- the latches of an immediate consumer
  | send_start_invoked
  | await_start_invoked
  | returned_ok
  | returned_err (error : String)
  | drop_senders
  | poll_err
  | poll_ok
  | await_grace
  | send_error_path_done
  | await_error_path_done
  | abort
  | cancel

@[reducible] def Answer : Call → Type
  | .start | .stop => Ended
  | .background_task_handle | .mark_ready | .is_cancelled | .send_crash _ | .upgrade
  | .is_accounted | .await_terminated | .await_start_invoked => Bool
  | .join_background => Joined
  | .now => Nat
  | .execute _ => Except CamelError RuntimeCommandResult
  | .poll_err | .poll_ok => Poll
  | _ => Unit

/-- A task of the runtime. It may end with a panic. -/
abbrev Task (α : Type) : Type := ExceptT Unit (Prog Call Answer) α

def call (c : Call) : Task (Answer c) := ExceptT.mk (.call c fun r => .done (.ok r))

/-- A panic of the consumer unwinds the task that awaits it. -/
def unwind : Ended → Task (Except CamelError Unit)
  | .returned result => pure result
  | .panicked => throw ()

/-! ## What both arms use -/

/-- What a consumer is spawned with. The stamp is that of the command id which the watcher of
an immediate consumer holds. -/
structure Spawn where
  route_id : String
  crash_notifier : Bool
  stamp : Nat := 0

def fail_command_id (route_id : String) (stamp : Nat) : String := s!"ctrl-fail-{route_id}-{stamp}"

def runtime_failure_command (route_id error : String) (stamp : Nat) : RuntimeCommand :=
  .FailRoute route_id error (fail_command_id route_id stamp) none

/-- An error of the bus is only logged. -/
def publish_runtime_failure (route_id error : String) : Task Unit := do
  call (.publish_runtime_failure error)
  if !(← call .upgrade) then return
  let stamp ← call .now
  let _ ← call (.execute (runtime_failure_command route_id error stamp))

def send_crash_notification (spawn : Spawn) (error : String) : Task Unit := do
  if spawn.crash_notifier then
    let _ ← call (.send_crash error)

/-- A background task that failed while the consumer was not cancelled. -/
def background_failed (spawn : Spawn) (error : String) (account : Task Unit) : Task Unit := do
  if !(← call .is_cancelled) then
    send_crash_notification spawn error
    publish_runtime_failure spawn.route_id error
    account

/-- After `start()` returned `Ok`: the defensive `mark_ready`, and the select over the
background task. Only the explicit arm has something to account. -/
def monitor_background (spawn : Spawn) (account : Task Unit) : Task Unit := do
  if !(← call .background_task_handle) then
    let _ ← call .mark_ready
  else
    match ← call .join_background with
    | .finished (.ok ()) => return
    | .finished (.error e) => background_failed spawn e.to_string account
    | .panicked join_err =>
      background_failed spawn s!"Consumer task panicked: {join_err}" account
    | .cancelled => return

/-! ## The explicit arm -/

def explicit_body (spawn : Spawn) : Task Unit := do
  match ← unwind (← call .start) with
  | .error e =>
    call (.mark_failed e.to_string)
    send_crash_notification spawn e.to_string
    publish_runtime_failure spawn.route_id e.to_string
    call .mark_accounted
    let _ ← unwind (← call .stop)
  | .ok () =>
    monitor_background spawn (call .mark_accounted)
    let _ ← unwind (← call .stop)
    call .mark_accounted

/-- The guard is dropped however the body ends. -/
def explicit_task (spawn : Spawn) : Task Unit :=
  ExceptT.mk (do
    let r ← (explicit_body spawn).run
    let _ ← Prog.ask .drop_guard
    pure r)

def run_outer_watcher (spawn : Spawn) : Task Unit := do
  if !(← call .await_terminated) then return
  if ← call .is_cancelled then return
  if ← call .is_accounted then return
  let error_msg := s!"Consumer outer task terminated abnormally (panic or abort): {spawn.route_id}"
  send_crash_notification spawn error_msg
  publish_runtime_failure spawn.route_id error_msg

/-! ## The immediate arm -/

def immediate_body (spawn : Spawn) : Task Unit := do
  call .send_start_invoked
  match ← unwind (← call .start) with
  | .error e =>
    call (.returned_err e.to_string)
    send_crash_notification spawn e.to_string
    let _ ← unwind (← call .stop)
    call .send_error_path_done
  | .ok () =>
    call .returned_ok
    monitor_background spawn (pure ())
    let _ ← unwind (← call .stop)

/-- The latch senders live as long as the task. -/
def immediate_task (spawn : Spawn) : Task Unit :=
  ExceptT.mk (do
    let r ← (immediate_body spawn).run
    let _ ← Prog.ask .drop_senders
    pure r)

/-- `ImmediateLatches::wait`, in the round of polls that resolves it. The branches are polled
in this order, and the task may go on between two of them. -/
def wait : Task (Except String Unit) := do
  match ← call .poll_err with
  | .sent msg => return .error msg
  | .closed => return .ok ()
  | .pending =>
    match ← call .poll_ok with
    | .sent _ | .closed => return .ok ()
    | .pending =>
      call .await_grace
      return .ok ()

def run_failure_watcher (spawn : Spawn) : Task Unit := do
  if !(← call .await_start_invoked) then return
  match ← wait with
  | .ok () => return
  | .error msg =>
    call .await_error_path_done
    call .abort
    call .cancel
    if !(← call .upgrade) then return
    let command := runtime_failure_command spawn.route_id msg spawn.stamp
    match ← call (.execute command) with
    | .ok _ => return
    | .error _ =>
      let _ ← call (.execute command)

/-! ## What the calls do -/

structure Shared where
  accounted : Bool := false
  terminated : Bool := false
  cancelled : Bool := false
  start_invoked : Bool := false
  err_latch : Option String := none
  ok_latch : Bool := false
  senders_dropped : Bool := false

def poll (latch : Option String) (closed : Bool) : Poll :=
  match latch with
  | some msg => .sent msg
  | none => if closed then .closed else .pending

/-- The runtime: whether its handle is alive, and what it may answer to a command. -/
structure Runtime where
  alive : Bool
  answers : RuntimeCommand → Except CamelError RuntimeCommandResult → Prop
  total : ∀ cmd, ∃ r, answers cmd r

def acceptingRuntime : Runtime where
  alive := true
  answers _ r := r = .ok .Accepted
  total _ := ⟨_, rfl⟩

/-- The consumer, the background task and the clock are free. Nobody cancels the token but the
watcher of an immediate consumer, and nobody else aborts a task. A wait for a oneshot goes on
only after its send. -/
def sem (runtime : Runtime) : Sem Call Answer Shared
  | .join_background, s, r, t => (r = .cancelled → s.cancelled = true) ∧ t = s
  | .is_cancelled, s, r, t => r = s.cancelled ∧ t = s
  | .upgrade, s, r, t => r = runtime.alive ∧ t = s
  | .execute cmd, s, r, t => runtime.answers cmd r ∧ t = s
  | .mark_accounted, s, _, t => t = { s with accounted := true }
  | .is_accounted, s, r, t => r = s.accounted ∧ t = s
  | .drop_guard, s, _, t => t = { s with terminated := true }
  | .await_terminated, s, r, t => s.terminated = true ∧ r = true ∧ t = s
  | .send_start_invoked, s, _, t => t = { s with start_invoked := true }
  | .await_start_invoked, s, r, t => s.start_invoked = true ∧ r = true ∧ t = s
  | .returned_ok, s, _, t => t = { s with ok_latch := true }
  | .returned_err error, s, _, t => t = { s with err_latch := some error }
  | .drop_senders, s, _, t => t = { s with senders_dropped := true }
  | .poll_err, s, r, t => r = poll s.err_latch s.senders_dropped ∧ t = s
  | .poll_ok, s, r, t => r = poll (if s.ok_latch then some "" else none) s.senders_dropped ∧ t = s
  | .cancel, s, _, t => t = { s with cancelled := true }
  | _, s, _, t => t = s

theorem signals_stay {runtime : Runtime} {c : Call} {s t : Shared} {r : Answer c}
    (h : sem runtime c s r t) :
    (s.terminated = true → t.terminated = true) ∧
      (s.start_invoked = true → t.start_invoked = true) := by
  cases c with
  | join_background | is_cancelled | upgrade | execute | is_accounted | poll_err | poll_ok =>
    obtain ⟨-, rfl⟩ := h
    exact ⟨id, id⟩
  | await_terminated | await_start_invoked =>
    obtain ⟨-, -, rfl⟩ := h
    exact ⟨id, id⟩
  | drop_guard =>
    obtain rfl := h
    exact ⟨fun _ => rfl, id⟩
  | send_start_invoked =>
    obtain rfl := h
    exact ⟨id, fun _ => rfl⟩
  | _ =>
    obtain rfl := h
    exact ⟨id, id⟩

theorem sem_total (runtime : Runtime) (c : Call) (s : Shared)
    (ht : c = .await_terminated → s.terminated = true)
    (hi : c = .await_start_invoked → s.start_invoked = true) :
    ∃ r t, sem runtime c s r t := by
  cases c with
  | start | stop => exact ⟨.panicked, s, rfl⟩
  | join_background => exact ⟨.panicked "", s, by simp, rfl⟩
  | background_task_handle | mark_ready | send_crash => exact ⟨true, s, rfl⟩
  | is_cancelled | upgrade | is_accounted | poll_err | poll_ok => exact ⟨_, s, rfl, rfl⟩
  | now => exact ⟨0, s, rfl⟩
  | execute cmd =>
    obtain ⟨r, hr⟩ := runtime.total cmd
    exact ⟨r, s, hr, rfl⟩
  | await_terminated => exact ⟨true, s, ht rfl, rfl, rfl⟩
  | await_start_invoked => exact ⟨true, s, hi rfl, rfl, rfl⟩
  | _ => exact ⟨(), _, rfl⟩

/-- A consumer whose outcomes are fixed, with a runtime that answers `accepted`. -/
structure Script where
  start : Ended
  stop : Ended := .returned (.ok ())
  background : Option Joined := none
  alive : Bool := true
  accepted : Except CamelError RuntimeCommandResult := .ok .Accepted

/-- The calls as functions. A wait is answered as if its send was there. -/
def scripted (script : Script) : (c : Call) → Shared → Answer c × Shared
  | .start, s => (script.start, s)
  | .stop, s => (script.stop, s)
  | .background_task_handle, s => (script.background.isSome, s)
  | .join_background, s => (script.background.getD .cancelled, s)
  | .mark_ready, s | .send_crash _, s => (false, s)
  | .is_cancelled, s => (s.cancelled, s)
  | .upgrade, s => (script.alive, s)
  | .now, s => (0, s)
  | .execute _, s => (script.accepted, s)
  | .mark_accounted, s => ((), { s with accounted := true })
  | .is_accounted, s => (s.accounted, s)
  | .drop_guard, s => ((), { s with terminated := true })
  | .await_terminated, s | .await_start_invoked, s => (true, s)
  | .send_start_invoked, s => ((), { s with start_invoked := true })
  | .returned_ok, s => ((), { s with ok_latch := true })
  | .returned_err error, s => ((), { s with err_latch := some error })
  | .drop_senders, s => ((), { s with senders_dropped := true })
  | .poll_err, s => (poll s.err_latch s.senders_dropped, s)
  | .poll_ok, s => (poll (if s.ok_latch then some "" else none) s.senders_dropped, s)
  | .cancel, s => ((), { s with cancelled := true })
  | .mark_failed _, s | .publish_runtime_failure _, s | .await_grace, s
  | .send_error_path_done, s | .await_error_path_done, s | .abort, s => ((), s)

/-- The two parties. -/
inductive Party where
  | task
  | watcher
  deriving DecidableEq

def explicit (spawn : Spawn) : Party → Prog Call Answer (Except Unit Unit)
  | .task => (explicit_task spawn).run
  | .watcher => (run_outer_watcher spawn).run

def immediate (spawn : Spawn) : Party → Prog Call Answer (Except Unit Unit)
  | .task => (immediate_task spawn).run
  | .watcher => (run_failure_watcher spawn).run

abbrev PartyStep := CallEvent Party Call Answer Shared

/-- Both are at their end. -/
def Complete (P : Party → Prog Call Answer (Except Unit Unit)) : Prop := ∀ i, ∃ r, P i = .done r

/-! ## What is seen in a run -/

/-- The consumer or its background task failed or panicked. -/
def isFailure : (c : Call) → Answer c → Bool
  | .start, .returned (.ok ()) => false
  | .start, _ => true
  | .stop, .panicked => true
  | .join_background, .finished (.error _) | .join_background, .panicked _ => true
  | _, _ => false

def isPublication : Call → Bool
  | .publish_runtime_failure _ => true
  | _ => false

def executedBy : Call → Option RuntimeCommand
  | .execute cmd => some cmd
  | _ => none

def failed (h : List PartyStep) : Bool := h.any fun e => isFailure e.call e.answer

def published (h : List PartyStep) : Nat := h.countP fun e => isPublication e.call

/-- The commands, the newest first. -/
def executed (h : List PartyStep) : List RuntimeCommand := h.filterMap fun e => executedBy e.call

end camel_core.lifecycle.consumer_management
