-- Which await point or look at the token can follow which, in the session core and in the read
-- task. The proofs about sessions go by these moves, whatever the rest of the state is.
import RustCamel.Redis.StreamSession

open Option

namespace camel_redis.streams

variable {params : StreamConsumerParams} {policy : NetworkRetryPolicy}

/-! ## The session core -/

inductive CoreMove : CorePc → CoreLabel → CorePc → Prop
  -- `drain_recovered`
  | drain_ends {c} : CoreMove (.Drain c) .idle (SessionCore.drained c)
  | drain_stops {c} : CoreMove (.Drain c) (.token true) (SessionCore.drained c)
  | drain_skips {c} : CoreMove (.Drain c) (.token false) (.Drain c)
  | drain_takes {c e} : CoreMove (.Drain c) (.token false) (.Hand e (.Recovered c))
  | hands {e d} : CoreMove (.Hand e d) (.hand e) (.Wait (.Outcome e d) .Cancelled)
  | ack_stops {i c} : CoreMove (.RecoveredDone i c) (.token true) (SessionCore.drained c)
  | ack_decided {i c} : CoreMove (.RecoveredDone i c) (.token false) (.RecoverAck i c)
  | recover_ack {i c} : CoreMove (.RecoverAck i c) (.xack i) (.AwaitingRecoverAck i c)
  | recover_acked {i c n} : CoreMove (.AwaitingRecoverAck i c) (.acked (.ok n)) (.Drain c)
  | recover_unknown {i c e} :
      CoreMove (.AwaitingRecoverAck i c) (.acked (.error e)) (.ConnectTop (.Ack c))
  | recover_refused {i c e} :
      CoreMove (.AwaitingRecoverAck i c) (.acked (.error e)) (.Returned (.error e))
  | gone_stops {c} : CoreMove (.RecoveredGone c) (.token true) (SessionCore.drained c)
  | gone {c} : CoreMove (.RecoveredGone c) (.token false) (.Returned (.error .ChannelClosed))
  -- `wait_with_recovery`
  | wait_stops {a} : CoreMove (.Wait a .Cancelled) (.token true) (SessionCore.wait_cancelled a)
  | wait_goes_on {a} : CoreMove (.Wait a .Cancelled) (.token false) (.Wait a .Deadline)
  | deadline {a n} : CoreMove (.Wait a .Deadline) (.clock n) (.PassStart (.Deadline a))
  | no_deadline {a n} : CoreMove (.Wait a .Deadline) (.clock n) (.Wait a .Future)
  | pending {a} : CoreMove (.Wait a .Future) .pending (.Wait a .Cancelled)
  -- `recovery_pass` and `connect_recovery`
  | pass_starts {p n} : CoreMove (.PassStart p) (.clock n) (.PassTop p)
  | pass_stops {p} : CoreMove (.PassTop p) (.token true) (SessionCore.pass_cancelled p)
  | pass_recovers {p} : CoreMove (.PassTop p) (.token false) (.Recover p false [])
  | pass_connects {p} : CoreMove (.PassTop p) (.token false) (.ConnectTop (.Pass p))
  | recover_stops {p es} :
      CoreMove (.Recover p false es) (.token true) (SessionCore.pass_cancelled p)
  | recover_goes_on {p es} : CoreMove (.Recover p false es) (.token false) (.Recover p true es)
  | recover_pending {p es} : CoreMove (.Recover p true es) .pending (.Recover p false es)
  | claims {p es new} : CoreMove (.Recover p true es) (.claimed new) (.Recover p false (es ++ new))
  | recovers {p es counts cursor} :
      CoreMove (.Recover p true es) (.recovered counts cursor) (SessionCore.pass_completed p)
  | recover_again {p es e} : CoreMove (.Recover p true es) (.recover_failed e) (.PassTop p)
  | recover_fails {p es e e'} :
      CoreMove (.Recover p true es) (.recover_failed e) (.Returned (.error e'))
  | connect_stops {r} : CoreMove (.ConnectTop r) (.token true) (SessionCore.connect_cancelled r)
  | connect_dials {r} : CoreMove (.ConnectTop r) (.token false) (.Connect r)
  | connects {r} : CoreMove (.Connect r) (.dial .Connected) (SessionCore.connected r)
  | connect_again {r d} : CoreMove (.Connect r) (.dial d) (.ConnectTop r)
  | connect_fails {r d e} : CoreMove (.Connect r) (.dial d) (.Returned (.error e))
  -- the arms over the message
  | reader_gone : CoreMove (.Wait .Message .Future) (.message none) (.Fail reader_channel_closed)
  | greeted_recovering :
      CoreMove (.Wait .Message .Future) (.message (some .Connected)) (.PassStart .Connected)
  | greeted : CoreMove (.Wait .Message .Future) (.message (some .Connected)) .SendDone
  | batch {es} : CoreMove (.Wait .Message .Future) (.message (some (.Batch es))) (.BatchNext es [])
  | nil_tick : CoreMove (.Wait .Message .Future) (.message (some .NilTick)) .BatchSettled
  | read_failed {e} : CoreMove (.Wait .Message .Future) (.message (some (.ReadFailed e))) (.Fail e)
  -- the outcomes of a delivery
  | batch_completed {e es acks} :
      CoreMove (.Wait (.Outcome e (.Batch es acks)) .Future) (.outcome .Completed)
        (.BatchNext es (acks ++ [e.id]))
  | batch_failed {e es acks} :
      CoreMove (.Wait (.Outcome e (.Batch es acks)) .Future) (.outcome .Failed) (.BatchNext es acks)
  | batch_gone {e es acks} :
      CoreMove (.Wait (.Outcome e (.Batch es acks)) .Future) (.outcome .ChannelGone)
        (.Fail .ChannelClosed)
  | recovered_completed {e c} :
      CoreMove (.Wait (.Outcome e (.Recovered c)) .Future) (.outcome .Completed)
        (.RecoveredDone e.id c)
  | recovered_failed {e c} :
      CoreMove (.Wait (.Outcome e (.Recovered c)) .Future) (.outcome .Failed) (.Drain c)
  | recovered_gone {e c} :
      CoreMove (.Wait (.Outcome e (.Recovered c)) .Future) (.outcome .ChannelGone)
        (.RecoveredGone c)
  -- the reply to the ack of a batch
  | reply_dropped : CoreMove (.Wait .Reply .Future) (.reply none) (.Fail reader_channel_closed)
  | reply_ok {n} : CoreMove (.Wait .Reply .Future) (.reply (some (.ok n))) .BatchSettled
  | reply_failed {e} : CoreMove (.Wait .Reply .Future) (.reply (some (.error e))) (.AckFailed e)
  -- a batch
  | batch_stops {es acks} : CoreMove (.BatchNext es acks) (.token true) (.Returned (.ok ()))
  | batch_takes {e es acks} :
      CoreMove (.BatchNext (e :: es) acks) (.token false) (.Hand e (.Batch es acks))
  | batch_ends {acks} : CoreMove (.BatchNext [] acks) (.token false) (.BatchDelivered acks)
  | delivered_stops {acks} : CoreMove (.BatchDelivered acks) (.token true) (.Returned (.ok ()))
  | delivered_settles : CoreMove (.BatchDelivered []) (.token false) .BatchSettled
  | delivered_acks {acks} : CoreMove (.BatchDelivered acks) (.token false) (.SendAck acks)
  | sends_ack {acks} : CoreMove (.SendAck acks) (.send (.Ack acks)) (.Wait .Reply .Cancelled)
  | ack_unsent {acks} : CoreMove (.SendAck acks) .refused (.Fail reader_channel_closed)
  | ack_failed_stops {e} : CoreMove (.AckFailed e) (.token true) (.Returned (.ok ()))
  | ack_failed {e} : CoreMove (.AckFailed e) (.token false) (.Returned (.error e))
  | ack_unknown {e} : CoreMove (.AckFailed e) (.token false) .BatchSettled
  | settled_stops : CoreMove .BatchSettled (.token true) (.Returned (.ok ()))
  | settled : CoreMove .BatchSettled (.token false) .SendDone
  | sends_done : CoreMove .SendDone (.send .BatchDone) (.Drain .Loop)
  | done_unsent : CoreMove .SendDone .refused (.Fail reader_channel_closed)
  | fail_stops {e} : CoreMove (.Fail e) (.token true) (.Returned (.ok ()))
  | fails {e} : CoreMove (.Fail e) (.token false) (.Returned (.error e))

namespace SessionCore

theorem retry_pc (policy : NetworkRetryPolicy) (core : SessionCore) (err : CamelError)
    (stage : String) (again : CorePc) :
    (core.retry policy err stage again).pc = again ∨
      ∃ e, (core.retry policy err stage again).pc = .Returned (.error e) := by
  unfold retry
  split
  · exact .inl rfl
  · exact .inr ⟨_, rfl⟩

variable {label : CoreLabel}

theorem drain_move {core core' : SessionCore} {caller : Caller}
    (h : core.drain caller label = some core') : CoreMove (.Drain caller) label core'.pc := by
  unfold drain at h
  split at h
  · cases h; exact .drain_ends
  · cases h; exact .drain_stops
  · cases h; exact .drain_takes
  · cases h; exact .drain_skips
  · cases h

theorem on_message_move (core : SessionCore) (received : Option ReadTaskMsg) :
    CoreMove (.Wait .Message .Future) (.message received) (core.on_message params received).pc := by
  unfold on_message
  split
  · exact .reader_gone
  · simp only
    split
    · exact .greeted_recovering
    · exact .greeted
  · exact .batch
  · exact .nil_tick
  · exact .read_failed

theorem on_outcome_move (core : SessionCore) (entry : StreamEntry) (delivery : Delivery)
    (outcome : DeliveryOutcome) :
    CoreMove (.Wait (.Outcome entry delivery) .Future) (.outcome outcome)
      (core.on_outcome entry delivery outcome).pc := by
  unfold on_outcome
  split
  · exact .batch_completed
  · exact .batch_failed
  · exact .batch_gone
  · exact .recovered_completed
  · exact .recovered_failed
  · exact .recovered_gone

theorem on_reply_move (core : SessionCore) (received : Option (Except CamelError Int)) :
    CoreMove (.Wait .Reply .Future) (.reply received) (core.on_reply received).pc := by
  unfold on_reply
  split
  · exact .reply_dropped
  · exact .reply_ok
  · exact .reply_failed

theorem wait_move {core core' : SessionCore} {awaited : Awaited} {poll : Poll}
    (h : core.wait params awaited poll label = some core') :
    CoreMove (.Wait awaited poll) label core'.pc := by
  unfold wait at h
  split at h
  · cases h; exact .wait_stops
  · cases h; exact .wait_goes_on
  · split at h
    · cases h; exact .deadline
    · cases h; exact .no_deadline
  · cases h; exact .pending
  · split at h
    · cases h; exact on_message_move core _
    · cases h
  · split at h
    · cases h; exact on_outcome_move core _ _ _
    · cases h
  · split at h
    · cases h; exact on_reply_move core _
    · cases h
  · cases h

theorem recover_move {core core' : SessionCore} {pass : Pass} {polled : Bool}
    {claimed : List StreamEntry} (h : core.recover policy pass polled claimed label = some core') :
    CoreMove (.Recover pass polled claimed) label core'.pc := by
  unfold recover at h
  split at h
  · cases h; exact .recover_stops
  · cases h; exact .recover_goes_on
  · cases h; exact .recover_pending
  · cases h; exact .claims
  · split at h
    · cases h; exact .recovers
    · cases h
  · cases h
    rcases retry_pc policy { core with recovery_connected := false } _
      "recovering pending stream entries" (.PassTop pass) with hp | ⟨e, hp⟩
    · rw [hp]; exact .recover_again
    · rw [hp]; exact .recover_fails
  · cases h

theorem connect_move (policy : NetworkRetryPolicy) (core : SessionCore) (reason : Reconnect)
    (result : Dial) (err : CamelError) (stage : String) :
    CoreMove (.Connect reason) (.dial result)
      (core.retry policy err stage (.ConnectTop reason)).pc := by
  rcases retry_pc policy core err stage (.ConnectTop reason) with hp | ⟨e, hp⟩
  · rw [hp]; exact .connect_again
  · rw [hp]; exact .connect_fails

theorem next_move {core core' : SessionCore} (h : core.next params policy label = some core') :
    CoreMove core.pc label core'.pc := by
  unfold next at h
  cases hp : core.pc <;> simp only [hp] at h
  case Drain caller => exact drain_move h
  case Wait awaited poll => exact wait_move h
  case Recover pass polled claimed => exact recover_move h
  case Connect reason =>
    split at h
    · cases h; exact .connects
    · cases h; exact connect_move ..
    · cases h; exact connect_move ..
    · cases h
  case BatchDelivered acks =>
    split at h
    · cases h; exact .delivered_stops
    · cases h
      simp only [goto]
      split
      · obtain rfl := List.isEmpty_iff.mp ‹_›; exact .delivered_settles
      · exact .delivered_acks
    · cases h
  -- each of the other places looks at the token or waits for one answer
  all_goals
    repeat' split at h
    all_goals first
      | (cases h
         subst_vars
         simp only [goto]
         constructor)
      | cases h

end SessionCore

/-! ## The read task -/

/-- The moves of `read_task_loop`. -/
inductive TaskMove : TaskPc → TaskLabel → TaskPc → Prop
  | top_stops {b} : TaskMove (.Top b) (.token true) .Returned
  | top_dials {b} : TaskMove (.Top b) (.token false) (.Dialling b)
  | dialled_again : TaskMove (.Dialling true) (.dial .Connected) .Selecting
  | dialled_first : TaskMove (.Dialling false) (.dial .Connected) .Greeting
  | dial_again {b d} : TaskMove (.Dialling b) (.dial d) (.Top b)
  | dial_fails {b d e} : TaskMove (.Dialling b) (.dial d) (.Failing e)
  | greets : TaskMove .Greeting (.send .Connected) .AwaitingStart
  | greeting_refused : TaskMove .Greeting .refused .Returned
  | starts : TaskMove .AwaitingStart (.command .BatchDone) .Selecting
  | early_ack {ids} :
      TaskMove .AwaitingStart (.command (.Ack ids))
        (.Replying (.error ReadTask.ack_before_start) true)
  | start_closed : TaskMove .AwaitingStart .closed .Returned
  | start_cancelled : TaskMove .AwaitingStart .cancelled .Returned
  | select_stops : TaskMove .Selecting (.poll .Cancelled true) .Returned
  | reads {first fired} (h : ¬(first = .Cancelled ∧ fired = true)) :
      TaskMove .Selecting (.poll first fired) .Blocked
  | blocked_stops : TaskMove .Blocked .cancelled .Returned
  | read_batch {es} : TaskMove .Blocked (.read (.ok (some es))) (.Reporting (.Batch es))
  | read_nil : TaskMove .Blocked (.read (.ok none)) (.Reporting .NilTick)
  | read_again {e} : TaskMove .Blocked (.read (.error e)) (.Top true)
  | read_fails {e e'} : TaskMove .Blocked (.read (.error e)) (.Failing e')
  | reports {m} : TaskMove (.Reporting m) (.send m) .Settling
  | report_refused {m} : TaskMove (.Reporting m) .refused .Returned
  | settles : TaskMove .Settling (.command .BatchDone) .Selecting
  | takes_ack {ids} : TaskMove .Settling (.command (.Ack ids)) (.Acking ids)
  | settle_closed : TaskMove .Settling .closed .Returned
  | settle_cancelled : TaskMove .Settling .cancelled .Returned
  | xacks {ids} : TaskMove (.Acking ids) (.xack ids) (.AwaitingAck ids)
  | acked {ids n} : TaskMove (.AwaitingAck ids) (.acked (.ok n)) (.Replying (.ok n) false)
  | ack_unknown {ids e} : TaskMove (.AwaitingAck ids) (.acked (.error e)) (.AckTop e)
  | ack_fails {ids e} : TaskMove (.AwaitingAck ids) (.acked (.error e)) (.Replying (.error e) true)
  | ack_stops {e} : TaskMove (.AckTop e) (.token true) .Returned
  | ack_dials {e} : TaskMove (.AckTop e) (.token false) (.AckDialling e)
  | ack_dialled {e} : TaskMove (.AckDialling e) (.dial .Connected) (.Replying (.error e) false)
  | ack_dial_again {e d} : TaskMove (.AckDialling e) (.dial d) (.AckTop e)
  | ack_dial_fails {e d e'} : TaskMove (.AckDialling e) (.dial d) (.Replying (.error e') true)
  | replies {r} : TaskMove (.Replying r false) (.reply r) .Settling
  | replies_last {r} : TaskMove (.Replying r true) (.reply r) .Returned
  | fails {e} : TaskMove (.Failing e) (.send (.ReadFailed e)) .Returned
  | fail_refused {e} : TaskMove (.Failing e) .refused .Returned
  | panics {p} :
      TaskMove (.Panicked p) (.send (.ReadFailed (ReadTask.reader_panic_error p))) .Returned
  | panic_refused {p} : TaskMove (.Panicked p) .refused .Returned

namespace ReadTask

theorem retry_pc (policy : NetworkRetryPolicy) (task : ReadTask) (err : CamelError)
    (stage : String) (again : TaskPc) (stop : CamelError → TaskPc) :
    (task.retry policy err stage again stop).pc = again ∨
      ∃ e, (task.retry policy err stage again stop).pc = stop e := by
  unfold retry
  split
  · exact .inl rfl
  · exact .inr ⟨_, rfl⟩

theorem next_move {task task' : ReadTask} {label : TaskLabel}
    (h : task.next policy label = some task') : TaskMove task.pc label task'.pc := by
  unfold next at h
  cases hp : task.pc <;> simp only [hp] at h
  case Dialling started =>
    split at h
    · cases h
      cases started
      · exact .dialled_first
      · exact .dialled_again
    · cases h
      rcases retry_pc policy task _ _ (.Top started) .Failing with hp | ⟨e, hp⟩
      · rw [hp]; exact .dial_again
      · rw [hp]; exact .dial_fails
    · cases h
      rcases retry_pc policy task _ _ (.Top started) .Failing with hp | ⟨e, hp⟩
      · rw [hp]; exact .dial_again
      · rw [hp]; exact .dial_fails
    · cases h
  case Selecting =>
    split at h
    · cases h; exact .select_stops
    · cases h; exact .reads (by simp)
    · cases h; exact .reads (by simp)
    · cases h
  case Blocked =>
    split at h
    · cases h; exact .blocked_stops
    · cases h; exact .read_batch
    · cases h; exact .read_nil
    · cases h
      rcases retry_pc policy task _ _ (.Top true) .Failing with hp | ⟨e, hp⟩
      · rw [hp]; exact .read_again
      · rw [hp]; exact .read_fails
    · cases h
  case AckDialling err =>
    split at h
    · cases h; exact .ack_dialled
    · cases h
      rcases retry_pc policy task _ _ (.AckTop err) _ with hp | ⟨e, hp⟩
      · rw [hp]; exact .ack_dial_again
      · rw [hp]; exact .ack_dial_fails
    · cases h
      rcases retry_pc policy task _ _ (.AckTop err) _ with hp | ⟨e, hp⟩
      · rw [hp]; exact .ack_dial_again
      · rw [hp]; exact .ack_dial_fails
    · cases h
  case Replying reply stop =>
    split at h
    · split at h
      · cases h
        subst_vars
        cases stop
        · exact .replies
        · exact .replies_last
      · cases h
    · cases h
  -- each of the other places looks at the token or waits for one answer
  all_goals
    repeat' split at h
    all_goals first
      | (cases h
         subst_vars
         simp only [goto]
         constructor)
      | cases h

end ReadTask

/-! ## The session -/

/-- Every step of a session is a move of one party, with what it does to the rest. -/
theorem step_cases {s s' : State} {event : Event} (h : step params policy s event = some s') :
    (event = .cancel ∧ s.cancelled = false ∧ s' = { s with cancelled := true }.record .Cancelled) ∨
    (∃ label task t, event = .task label ∧ s.task.next policy label = some task ∧
      s.task_effect label = some t ∧ s' = t.put_task task) ∨
    (∃ label core t, event = .core label ∧ s.core.next params policy label = some core ∧
      s.core_effect label = some t ∧ s' = { t with core }) ∨
    (∃ payload, event = .panic payload ∧ s.task.pc.gone = false ∧
      s' = s.put_task (s.task.goto (.Panicked payload))) ∨
    (event = .abort ∧ s.core.pc.gone = true ∧ s' = s.put_task (s.task.goto .Returned)) ∨
    (event = .drop ∧ s.core.pc.gone = false ∧ s' = { s with core := s.core.goto .Dropped }) := by
  cases event with
  | cancel =>
    simp only [step] at h
    split at h
    · cases h
    · exact .inl ⟨rfl, by simp_all, (some.inj h).symm⟩
  | task label =>
    simp only [step, bind_eq_bind, bind_eq_some_iff, pure_def, Option.some.injEq] at h
    obtain ⟨task, hta, t, ht, rfl⟩ := h
    exact .inr (.inl ⟨label, task, t, rfl, hta, ht, rfl⟩)
  | core label =>
    simp only [step, bind_eq_bind, bind_eq_some_iff, pure_def, Option.some.injEq] at h
    obtain ⟨core, hc, t, ht, rfl⟩ := h
    exact .inr (.inr (.inl ⟨label, core, t, rfl, hc, ht, rfl⟩))
  | panic payload =>
    simp only [step] at h
    split at h
    · cases h
    · exact .inr (.inr (.inr (.inl ⟨payload, rfl, by simp_all, (some.inj h).symm⟩)))
  | abort =>
    simp only [step] at h
    split at h
    · rename_i hg
      exact .inr (.inr (.inr (.inr (.inl ⟨rfl, hg, (some.inj h).symm⟩))))
    · cases h
  | drop =>
    simp only [step] at h
    split at h
    · cases h
    · exact .inr (.inr (.inr (.inr (.inr ⟨rfl, by simp_all, (some.inj h).symm⟩))))

end camel_redis.streams
