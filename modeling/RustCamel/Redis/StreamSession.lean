-- One session of the Redis Streams consumer in `streams.rs`: the read task, the session core, the
-- two channels between them and the cancellation token. A party moves from one await point or one
-- look at the token to the next. What a connection, a clock or the pipeline answers is an input.
import Mathlib.Algebra.Order.Ring.Nat
import Mathlib.Control.Monad.Basic
import RustCamel.Lib.Runs

namespace camel_redis.streams

/-! ## Errors and retries -/

/-- The errors of a session, by what the classifiers of `transport_error.rs` tell apart. -/
inductive CamelError where
  | ProcessorError (text : String)
  -- an error of the driver or of the topology that counts as transient
  | Transport (text : String)
  -- an error with the marker `TransientRetryBudgetExhausted`
  | RetryBudgetExhausted (text : String)
  | ChannelClosed
  deriving DecidableEq

def is_transient_redis_error : CamelError → Bool
  | .Transport _ | .RetryBudgetExhausted _ => true
  | .ProcessorError _ | .ChannelClosed => false

def is_retry_budget_exhausted : CamelError → Bool
  | .RetryBudgetExhausted _ => true
  | _ => false

def CamelError.to_string : CamelError → String
  | .ProcessorError text | .RetryBudgetExhausted text => "Processor error: " ++ text
  | .Transport text => text
  | .ChannelClosed => "Channel closed"

structure NetworkRetryPolicy where
  enabled : Bool
  max_attempts : Nat
  max_attempts_absolute : Option Nat

section

variable (policy : NetworkRetryPolicy)

def NetworkRetryPolicy.should_retry (attempt : Nat) : Bool :=
  if !policy.enabled then false
  else if policy.max_attempts_absolute.any (fun abs_cap => attempt ≥ abs_cap) then false
  else policy.max_attempts = 0 || attempt < policy.max_attempts

def retry_budget_exhausted (stage cause : String) : CamelError :=
  .RetryBudgetExhausted ("connection lost while " ++ stage ++ " (retry budget exhausted after " ++
    toString policy.max_attempts ++ " attempts): " ++ cause)

/-- The attempts counted now, and the error that ends the loop, if it ends. -/
def transient_retry_step (attempt : Nat) (err : CamelError) (stage : String) :
    Nat × Option CamelError :=
  if !is_transient_redis_error err then (attempt, some err)
  else if !policy.should_retry (attempt + 1) then
    (attempt + 1, some (retry_budget_exhausted policy stage err.to_string))
  else (attempt + 1, none)

end

/-- How resolving the master and connecting to it went. -/
inductive Dial where
  | Connected
  | ResolveFailed (err : CamelError)
  | ConnectFailed (err : CamelError)

/-! ## Messages -/

structure StreamEntry where
  id : String
  fields : List (String × String)
  delivery_count : Nat
  deriving DecidableEq

structure RecoveredEntry where
  entry : StreamEntry
  delivery_count : Option Nat

inductive DeliveryOutcome where
  | Completed
  | Failed
  | ChannelGone
  deriving DecidableEq

inductive ReadTaskMsg where
  | Connected
  | Batch (entries : List StreamEntry)
  | NilTick
  | ReadFailed (err : CamelError)
  deriving DecidableEq

inductive ReadTaskCmd where
  | Ack (ids : List String)
  | BatchDone
  deriving DecidableEq

structure StreamConsumerParams where
  recover_enabled : Bool
  recover_min_idle_ms : Nat

def READ_TASK_CHANNEL_CAPACITY : Nat := 8

/-! ## The read task -/

/-- Where `read_task_loop` stands. -/
inductive TaskPc where
  -- the look at the token at the head of `'session`
  | Top (started : Bool)
  | Dialling (started : Bool)
  | Greeting
  | AwaitingStart
  -- at the select over the read, with nothing polled yet
  | Selecting
  -- the read is out
  | Blocked
  | Reporting (message : ReadTaskMsg)
  | Settling
  | Acking (ids : List String)
  | AwaitingAck (ids : List String)
  -- `reconnect_after_ack`
  | AckTop (err : CamelError)
  | AckDialling (err : CamelError)
  | Replying (reply : Except CamelError Int) (stop : Bool)
  | Failing (err : CamelError)
  -- unwound, with the message of the panic still to send
  | Panicked (payload : String)
  | Returned

structure ReadTask where
  pc : TaskPc
  attempt : Nat

/-- The branch an unbiased select polls first. -/
inductive Branch where
  | Cancelled
  | Read
  deriving DecidableEq

/-- What the read task does or is told in one move. -/
inductive TaskLabel where
  | token (fired : Bool)
  | dial (result : Dial)
  | send (message : ReadTaskMsg)
  | refused
  -- the three outcomes of `next_cmd`
  | command (command : ReadTaskCmd)
  | closed
  | cancelled
  | poll (first : Branch) (fired : Bool)
  | read (result : Except CamelError (Option (List StreamEntry)))
  | xack (ids : List String)
  | acked (result : Except CamelError Int)
  | reply (result : Except CamelError Int)

namespace ReadTask

def goto (task : ReadTask) (pc : TaskPc) : ReadTask := { task with pc }

/-- One step of a retry loop: on to `again`, or the failure that `stop` makes of the error. -/
def retry (task : ReadTask) (policy : NetworkRetryPolicy) (err : CamelError) (stage : String)
    (again : TaskPc) (stop : CamelError → TaskPc) : ReadTask :=
  match transient_retry_step policy task.attempt err stage with
  | (attempt, none) => ⟨again, attempt⟩
  | (attempt, some err) => ⟨stop err, attempt⟩

def ack_before_start : CamelError :=
  .ProcessorError "stream read task received an ack before the start signal"

def reader_panic_error (payload : String) : CamelError :=
  .ProcessorError ("stream read task panicked: " ++ payload)

/-- `read_task_loop`, from one await point or look at the token to the next. -/
def next (policy : NetworkRetryPolicy) (task : ReadTask) (label : TaskLabel) : Option ReadTask :=
  match task.pc with
  | .Top started =>
    match label with
    | .token true => some (task.goto .Returned)
    | .token false => some (task.goto (.Dialling started))
    | _ => none
  | .Dialling started =>
    match label with
    | .dial .Connected => some (task.goto (if started then .Selecting else .Greeting))
    | .dial (.ResolveFailed err) =>
      some (task.retry policy err "resolving master for XREADGROUP" (.Top started) .Failing)
    | .dial (.ConnectFailed err) =>
      some (task.retry policy err "connecting for XREADGROUP" (.Top started) .Failing)
    | _ => none
  | .Greeting =>
    match label with
    | .send .Connected => some (task.goto .AwaitingStart)
    | .refused => some (task.goto .Returned)
    | _ => none
  | .AwaitingStart =>
    match label with
    | .command .BatchDone => some (task.goto .Selecting)
    | .command (.Ack _) => some (task.goto (.Replying (.error ack_before_start) true))
    | .closed | .cancelled => some (task.goto .Returned)
    | _ => none
  | .Selecting =>
    match label with
    | .poll .Cancelled true => some (task.goto .Returned)
    | .poll .Cancelled false | .poll .Read _ => some (task.goto .Blocked)
    | _ => none
  | .Blocked =>
    match label with
    | .cancelled => some (task.goto .Returned)
    | .read (.ok (some entries)) => some (task.goto (.Reporting (.Batch entries)))
    | .read (.ok none) => some (task.goto (.Reporting .NilTick))
    | .read (.error err) =>
      some (task.retry policy err "reading with XREADGROUP" (.Top true) .Failing)
    | _ => none
  | .Reporting message =>
    match label with
    | .send sent => if sent = message then some (task.goto .Settling) else none
    | .refused => some (task.goto .Returned)
    | _ => none
  | .Settling =>
    match label with
    | .command .BatchDone => some (task.goto .Selecting)
    | .command (.Ack ids) => some (task.goto (.Acking ids))
    | .closed | .cancelled => some (task.goto .Returned)
    | _ => none
  | .Acking ids =>
    match label with
    | .xack issued => if issued = ids then some (task.goto (.AwaitingAck ids)) else none
    | _ => none
  | .AwaitingAck _ =>
    match label with
    | .acked (.ok count) => some (task.goto (.Replying (.ok count) false))
    | .acked (.error err) =>
      if is_transient_redis_error err then some (task.goto (.AckTop err))
      else some (task.goto (.Replying (.error err) true))
    | _ => none
  | .AckTop err =>
    match label with
    | .token true => some (task.goto .Returned)
    | .token false => some (task.goto (.AckDialling err))
    | _ => none
  | .AckDialling err =>
    match label with
    | .dial .Connected => some (task.goto (.Replying (.error err) false))
    | .dial (.ResolveFailed failure) =>
      some (task.retry policy failure "resolving master for stream ack" (.AckTop err)
        fun fatal => .Replying (.error fatal) true)
    | .dial (.ConnectFailed failure) =>
      some (task.retry policy failure "reconnecting for stream ack" (.AckTop err)
        fun fatal => .Replying (.error fatal) true)
    | _ => none
  | .Replying reply stop =>
    match label with
    | .reply sent =>
      if sent = reply then some (task.goto (if stop then .Returned else .Settling)) else none
    | _ => none
  | .Failing err =>
    match label with
    | .send (.ReadFailed sent) => if sent = err then some (task.goto .Returned) else none
    | .refused => some (task.goto .Returned)
    | _ => none
  | .Panicked payload =>
    match label with
    | .send (.ReadFailed sent) =>
      if sent = reader_panic_error payload then some (task.goto .Returned) else none
    | .refused => some (task.goto .Returned)
    | _ => none
  | .Returned => none

end ReadTask

/-! ## The session core -/

/-- Which place of `session_core` calls `drain_recovered`: the loop, or the arm of `Connected`. -/
inductive Caller where
  | Loop
  | Connected

/-- A delivery in flight: of the read batch, with what is left of it, or of the recovery queue. -/
inductive Delivery where
  | Batch (pending : List StreamEntry) (awaiting_acks : List String)
  | Recovered (caller : Caller)

/-- The future under `wait_with_recovery`. -/
inductive Awaited where
  | Message
  | Outcome (entry : StreamEntry) (delivery : Delivery)
  | Reply

/-- What `recovery_pass` runs for. -/
inductive Pass where
  | Deadline (awaited : Awaited)
  | Connected

/-- What `connect_recovery` runs for. -/
inductive Reconnect where
  | Pass (pass : Pass)
  | Ack (caller : Caller)

/-- The branch a biased select comes to next. -/
inductive Poll where
  | Cancelled
  | Deadline
  | Future

/-- Where `session_core` stands. -/
inductive CorePc where
  | Drain (caller : Caller)
  | Hand (entry : StreamEntry) (delivery : Delivery)
  | Wait (awaited : Awaited) (poll : Poll)
  | PassStart (pass : Pass)
  | PassTop (pass : Pass)
  -- the select over `recover`, with what its frames have claimed so far
  | Recover (pass : Pass) (polled : Bool) (claimed : List StreamEntry)
  | ConnectTop (reason : Reconnect)
  | Connect (reason : Reconnect)
  | RecoveredDone (id : String) (caller : Caller)
  | RecoverAck (id : String) (caller : Caller)
  | AwaitingRecoverAck (id : String) (caller : Caller)
  | RecoveredGone (caller : Caller)
  | BatchNext (pending : List StreamEntry) (awaiting_acks : List String)
  | BatchDelivered (awaiting_acks : List String)
  | SendAck (ids : List String)
  | AckFailed (err : CamelError)
  | BatchSettled
  | SendDone
  -- the last look at the token before `err` is returned
  | Fail (err : CamelError)
  | Returned (result : Except CamelError Unit)
  | Dropped

structure SessionCore where
  pc : CorePc
  recovery_cursor : String
  last_recovery_pass : Option Nat
  recovery_attempt : Nat
  recovery_connected : Bool
  recovered : List RecoveredEntry
  on_ready : Bool

/-- What the session core does or is told in one move. -/
inductive CoreLabel where
  | idle
  | token (fired : Bool)
  | clock (now : Nat)
  | pending
  | message (received : Option ReadTaskMsg)
  | hand (entry : StreamEntry)
  | outcome (outcome : DeliveryOutcome)
  | reply (received : Option (Except CamelError Int))
  | send (command : ReadTaskCmd)
  | refused
  | dial (result : Dial)
  | claimed (entries : List StreamEntry)
  | recovered (counts : List (Option Nat)) (next_cursor : String)
  | recover_failed (err : CamelError)
  | xack (id : String)
  | acked (result : Except CamelError Int)

def reader_channel_closed : CamelError :=
  .ProcessorError "stream read task channel closed unexpectedly"

namespace SessionCore

def goto (core : SessionCore) (pc : CorePc) : SessionCore := { core with pc }

/-- Where `session_core` goes on after `drain_recovered`. -/
def drained : Caller → CorePc
  | .Loop => .Wait .Message .Cancelled
  | .Connected => .SendDone

/-- What `Waited::Cancelled` comes to. -/
def wait_cancelled : Awaited → CorePc
  | .Outcome _ (.Recovered caller) => drained caller
  | _ => .Returned (.ok ())

/-- What `RecoveryPass::Cancelled` comes to. -/
def pass_cancelled : Pass → CorePc
  | .Deadline awaited => wait_cancelled awaited
  | .Connected => .Returned (.ok ())

/-- What `RecoveryPass::Completed` comes to. -/
def pass_completed : Pass → CorePc
  | .Deadline .Message => .Drain .Loop
  | .Deadline awaited => .Wait awaited .Cancelled
  | .Connected => .Drain .Connected

/-- What `Ok(false)` of `connect_recovery` comes to. -/
def connect_cancelled : Reconnect → CorePc
  | .Pass pass => pass_cancelled pass
  | .Ack caller => drained caller

/-- What `Ok(true)` of `connect_recovery` comes to. -/
def connected : Reconnect → CorePc
  | .Pass pass => .Recover pass false []
  | .Ack caller => .Drain caller

/-- The deadline of `wait_with_recovery`. -/
def deadline (core : SessionCore) (params : StreamConsumerParams) : Option Nat :=
  if params.recover_enabled then
    core.last_recovery_pass.map fun started => started + params.recover_min_idle_ms
  else none

/-- One step of a retry loop of the recovery half. -/
def retry (core : SessionCore) (policy : NetworkRetryPolicy) (err : CamelError) (stage : String)
    (again : CorePc) : SessionCore :=
  match transient_retry_step policy core.recovery_attempt err stage with
  | (attempt, none) => { core with recovery_attempt := attempt, pc := again }
  | (attempt, some err) => { core with recovery_attempt := attempt, pc := .Returned (.error err) }

def on_message (core : SessionCore) (params : StreamConsumerParams) :
    Option ReadTaskMsg → SessionCore
  | none => core.goto (.Fail reader_channel_closed)
  | some .Connected =>
    { core with
      on_ready := false
      pc := if params.recover_enabled then .PassStart .Connected else .SendDone }
  | some (.Batch entries) => core.goto (.BatchNext entries [])
  | some .NilTick => core.goto .BatchSettled
  | some (.ReadFailed err) => core.goto (.Fail err)

/-- What a delivery leads to by its outcome. -/
def on_outcome (core : SessionCore) (entry : StreamEntry) : Delivery → DeliveryOutcome → SessionCore
  | .Batch pending awaiting_acks, .Completed =>
    core.goto (.BatchNext pending (awaiting_acks ++ [entry.id]))
  | .Batch pending awaiting_acks, .Failed => core.goto (.BatchNext pending awaiting_acks)
  | .Batch _ _, .ChannelGone => core.goto (.Fail .ChannelClosed)
  | .Recovered caller, .Completed => core.goto (.RecoveredDone entry.id caller)
  | .Recovered caller, .Failed => core.goto (.Drain caller)
  | .Recovered caller, .ChannelGone => core.goto (.RecoveredGone caller)

def on_reply (core : SessionCore) : Option (Except CamelError Int) → SessionCore
  | none => core.goto (.Fail reader_channel_closed)
  | some (.ok _) => core.goto .BatchSettled
  | some (.error err) => core.goto (.AckFailed err)

/-- The turn of `wait_with_recovery` over its biased select. -/
def wait (core : SessionCore) (params : StreamConsumerParams) (awaited : Awaited) (poll : Poll)
    (label : CoreLabel) : Option SessionCore :=
  match poll, label with
  | .Cancelled, .token true => some (core.goto (wait_cancelled awaited))
  | .Cancelled, .token false => some (core.goto (.Wait awaited .Deadline))
  | .Deadline, .clock now =>
    if (core.deadline params).any (· ≤ now) then some (core.goto (.PassStart (.Deadline awaited)))
    else some (core.goto (.Wait awaited .Future))
  | .Future, .pending => some (core.goto (.Wait awaited .Cancelled))
  | .Future, .message received =>
    match awaited with
    | .Message => some (core.on_message params received)
    | _ => none
  | .Future, .outcome outcome =>
    match awaited with
    | .Outcome entry delivery => some (core.on_outcome entry delivery outcome)
    | _ => none
  | .Future, .reply received =>
    match awaited with
    | .Reply => some (core.on_reply received)
    | _ => none
  | _, _ => none

/-- `drain_recovered` at the head of its loop. -/
def drain (core : SessionCore) (caller : Caller) (label : CoreLabel) : Option SessionCore :=
  match core.recovered, label with
  | [], .idle => some (core.goto (drained caller))
  | _ :: queue, .token true => some { core with recovered := queue, pc := drained caller }
  | ⟨entry, some count⟩ :: queue, .token false =>
    some { core with
      recovered := queue
      pc := .Hand { entry with delivery_count := count } (.Recovered caller) }
  | ⟨_, none⟩ :: queue, .token false => some { core with recovered := queue, pc := .Drain caller }
  | _, _ => none

/-- The select of `recovery_pass` over `recover`, which claims frame by frame. -/
def recover (core : SessionCore) (policy : NetworkRetryPolicy) (pass : Pass) (polled : Bool)
    (claimed : List StreamEntry) (label : CoreLabel) : Option SessionCore :=
  match polled, label with
  | false, .token true => some (core.goto (pass_cancelled pass))
  | false, .token false => some (core.goto (.Recover pass true claimed))
  | true, .pending => some (core.goto (.Recover pass false claimed))
  | true, .claimed entries => some (core.goto (.Recover pass false (claimed ++ entries)))
  | true, .recovered counts next_cursor =>
    if counts.length = claimed.length then
      some { core with
        recovery_cursor := next_cursor
        recovered := core.recovered ++ List.zipWith RecoveredEntry.mk claimed counts
        pc := pass_completed pass }
    else none
  | true, .recover_failed err =>
    some ({ core with recovery_connected := false }.retry policy err
      "recovering pending stream entries" (.PassTop pass))
  | _, _ => none

/-- `session_core` with the functions it awaits, from one await point or look at the token to the
next. -/
def next (params : StreamConsumerParams) (policy : NetworkRetryPolicy) (core : SessionCore)
    (label : CoreLabel) : Option SessionCore :=
  match core.pc with
  | .Drain caller => core.drain caller label
  | .Hand entry delivery =>
    match label with
    | .hand handed =>
      if handed = entry then some (core.goto (.Wait (.Outcome entry delivery) .Cancelled))
      else none
    | _ => none
  | .Wait awaited poll => core.wait params awaited poll label
  | .PassStart pass =>
    match label with
    | .clock now => some { core with last_recovery_pass := some now, pc := .PassTop pass }
    | _ => none
  | .PassTop pass =>
    match label with
    | .token true => some (core.goto (pass_cancelled pass))
    | .token false =>
      if core.recovery_connected then some (core.goto (.Recover pass false []))
      else some (core.goto (.ConnectTop (.Pass pass)))
    | _ => none
  | .Recover pass polled claimed => core.recover policy pass polled claimed label
  | .ConnectTop reason =>
    match label with
    | .token true => some (core.goto (connect_cancelled reason))
    | .token false => some (core.goto (.Connect reason))
    | _ => none
  | .Connect reason =>
    match label with
    | .dial .Connected => some { core with recovery_connected := true, pc := connected reason }
    | .dial (.ResolveFailed err) =>
      some (core.retry policy err "resolving master for stream recovery" (.ConnectTop reason))
    | .dial (.ConnectFailed err) =>
      some (core.retry policy err "connecting for stream recovery" (.ConnectTop reason))
    | _ => none
  | .RecoveredDone id caller =>
    match label with
    | .token true => some (core.goto (drained caller))
    | .token false => some (core.goto (.RecoverAck id caller))
    | _ => none
  | .RecoverAck id caller =>
    match label with
    | .xack issued =>
      if issued = id then some (core.goto (.AwaitingRecoverAck id caller)) else none
    | _ => none
  | .AwaitingRecoverAck _ caller =>
    match label with
    | .acked (.ok _) => some (core.goto (.Drain caller))
    | .acked (.error err) =>
      if is_transient_redis_error err then
        some { core with recovery_connected := false, pc := .ConnectTop (.Ack caller) }
      else some (core.goto (.Returned (.error err)))
    | _ => none
  | .RecoveredGone caller =>
    match label with
    | .token true => some (core.goto (drained caller))
    | .token false => some (core.goto (.Returned (.error .ChannelClosed)))
    | _ => none
  | .BatchNext pending awaiting_acks =>
    match label with
    | .token true => some (core.goto (.Returned (.ok ())))
    | .token false =>
      match pending with
      | [] => some (core.goto (.BatchDelivered awaiting_acks))
      | entry :: pending => some (core.goto (.Hand entry (.Batch pending awaiting_acks)))
    | _ => none
  | .BatchDelivered awaiting_acks =>
    match label with
    | .token true => some (core.goto (.Returned (.ok ())))
    | .token false =>
      some (core.goto (if awaiting_acks.isEmpty then .BatchSettled else .SendAck awaiting_acks))
    | _ => none
  | .SendAck ids =>
    match label with
    | .send command =>
      if command = .Ack ids then some (core.goto (.Wait .Reply .Cancelled)) else none
    | .refused => some (core.goto (.Fail reader_channel_closed))
    | _ => none
  | .AckFailed err =>
    match label with
    | .token true => some (core.goto (.Returned (.ok ())))
    | .token false =>
      if is_retry_budget_exhausted err || !is_transient_redis_error err then
        some (core.goto (.Returned (.error err)))
      else some (core.goto .BatchSettled)
    | _ => none
  | .BatchSettled =>
    match label with
    | .token true => some (core.goto (.Returned (.ok ())))
    | .token false => some (core.goto .SendDone)
    | _ => none
  | .SendDone =>
    match label with
    | .send .BatchDone => some (core.goto (.Drain .Loop))
    | .refused => some (core.goto (.Fail reader_channel_closed))
    | _ => none
  | .Fail err =>
    match label with
    | .token true => some (core.goto (.Returned (.ok ())))
    | .token false => some (core.goto (.Returned (.error err)))
    | _ => none
  | .Returned _ | .Dropped => none

end SessionCore

/-! ## The session -/

/-- The two connections of a session. -/
inductive Half where
  | Read
  | Recovery
  deriving DecidableEq

def Delivery.half : Delivery → Half
  | .Batch _ _ => .Read
  | .Recovered _ => .Recovery

/-- What a session is seen to do. -/
inductive Act where
  | Cancelled
  | Handed (entry : StreamEntry)
  | Observed (half : Half) (id : String) (outcome : DeliveryOutcome)
  | Xack (half : Half) (ids : List String)
  | Xreadgroup
  deriving DecidableEq

/-- The oneshot channel of the ack under way. The session makes the next one only after it has
the answer to the last. -/
inductive Reply where
  | Unused
  | Open
  | Sent (result : Except CamelError Int)
  | Dropped

/-- The sender is dropped without an answer. -/
def Reply.drop : Reply → Reply
  | .Open => .Dropped
  | reply => reply

structure State where
  cancelled : Bool
  task : ReadTask
  core : SessionCore
  messages : List ReadTaskMsg
  commands : List ReadTaskCmd
  reply : Reply
  log : List Act

inductive Event where
  | cancel
  | task (label : TaskLabel)
  | core (label : CoreLabel)
  -- a panic inside the read task
  | panic (payload : String)
  -- the guard aborts the read task
  | abort
  -- the future of the session is dropped
  | drop

/-- `stream_session` at its start. -/
def start : State where
  cancelled := false
  task := ⟨.Top false, 0⟩
  core := ⟨.Drain .Loop, "0-0", none, 0, false, [], true⟩
  messages := []
  commands := []
  reply := .Unused
  log := []

/-- The loop of the read task has returned or unwound, and its channel ends are gone. -/
def TaskPc.gone : TaskPc → Bool
  | .Panicked _ | .Returned => true
  | _ => false

/-- The session is over, and its channel ends are gone. -/
def CorePc.gone : CorePc → Bool
  | .Returned _ | .Dropped => true
  | _ => false

def CorePc.in_flight : CorePc → Option (StreamEntry × Delivery)
  | .Wait (.Outcome entry delivery) _ => some (entry, delivery)
  | _ => none

namespace State

variable (s : State)

def record (act : Act) : State := { s with log := s.log ++ [act] }

/-- The end of `read_task_loop`: queued commands and the answers they wait for are dropped. -/
def close : State := { s with commands := [], reply := s.reply.drop }

def put_task (task : ReadTask) : State :=
  if task.pc.gone then { s.close with task } else { s with task }

def look (fired : Bool) : Option State := if fired = s.cancelled then some s else none

/-- What a move of the read task asks of the rest and does to it. -/
def task_effect : TaskLabel → Option State
  | .token fired => s.look fired
  | .send message =>
    if s.core.pc.gone = false ∧ s.messages.length < READ_TASK_CHANNEL_CAPACITY then
      some { s with messages := s.messages ++ [message] }
    else none
  | .refused => if s.core.pc.gone then some s else none
  | .command command =>
    match s.commands with
    | [] => none
    | first :: commands => if first = command then some { s with commands } else none
  | .closed => if s.commands = [] ∧ s.core.pc.gone = true then some s else none
  | .cancelled => if s.cancelled then some s else none
  | .poll first fired =>
    if fired = s.cancelled then
      if first = .Cancelled ∧ fired = true then some s else some (s.record .Xreadgroup)
    else none
  | .xack ids => some (s.record (.Xack .Read ids))
  | .reply result => some { s with reply := .Sent result }
  | .dial _ | .read _ | .acked _ => some s

/-- What a move of the session core asks of the rest and does to it. -/
def core_effect : CoreLabel → Option State
  | .token fired => s.look fired
  | .message (some message) =>
    match s.messages with
    | [] => none
    | first :: messages => if first = message then some { s with messages } else none
  | .message none =>
    match s.messages, s.task.pc with
    | [], .Returned => some s
    | _, _ => none
  | .hand entry => some (s.record (.Handed entry))
  | .outcome outcome =>
    s.core.pc.in_flight.map fun (entry, delivery) =>
      s.record (.Observed delivery.half entry.id outcome)
  | .reply (some result) =>
    match s.reply with
    | .Sent sent => if sent = result then some s else none
    | _ => none
  | .reply none =>
    match s.reply with
    | .Dropped => some s
    | _ => none
  | .send command =>
    if s.task.pc.gone = false ∧ s.commands.length < READ_TASK_CHANNEL_CAPACITY then
      some { s with
        commands := s.commands ++ [command]
        reply := if command = .BatchDone then s.reply else .Open }
    else none
  | .refused => if s.task.pc.gone then some s else none
  | .xack id => some (s.record (.Xack .Recovery [id]))
  | .idle | .clock _ | .pending | .dial _ | .claimed _ | .recovered _ _ | .recover_failed _
  | .acked _ => some s

end State

/-- One move of a session. -/
def step (params : StreamConsumerParams) (policy : NetworkRetryPolicy) (s : State) :
    Event → Option State
  | .cancel => if s.cancelled then none else some ({ s with cancelled := true }.record .Cancelled)
  | .task label => do
    let task ← s.task.next policy label
    let s ← s.task_effect label
    return s.put_task task
  | .core label => do
    let core ← s.core.next params policy label
    let s ← s.core_effect label
    return { s with core }
  | .panic payload =>
    if s.task.pc.gone then none else some (s.put_task (s.task.goto (.Panicked payload)))
  | .abort => if s.core.pc.gone then some (s.put_task (s.task.goto .Returned)) else none
  | .drop => if s.core.pc.gone then none else some { s with core := s.core.goto .Dropped }

/-- What a session can come to, whatever is answered and in whatever order the parties move. -/
def Reaches (params : StreamConsumerParams) (policy : NetworkRetryPolicy) (s : State) : Prop :=
  Runs.Reach (step params policy) (fun _ _ => True) start s

end camel_redis.streams
