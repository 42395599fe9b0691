-- The end of a Kafka consumer with manual commits: who owns a sender of the commit channel, and
-- what the loop waits for. `run_consumer_loop` keeps its own sender until it returns.
import RustCamel.Kafka.ConsumerLoop

namespace camel_kafka

open camel_api.error (CamelError)

structure KafkaManualCommit where
  topic : String
  partition : Int32
  offset : Int64

/-- A request for the handle's offset. `sync` says that somebody waits for the reply. -/
structure CommitRequest where
  handle : KafkaManualCommit
  sync : Bool

/-- Where `run_consumer_loop` stands after it has subscribed. -/
inductive LoopStage where
  | Polling
  | Waiting
  | Returned (timed_out : Bool)
  | Failed (e : CamelError)

inductive HandlerStage where
  | Receiving
  | Committing (req : CommitRequest)
  | Ended

/-- The loop, the task of the commit handler, and the channel between them. `commit_tx` is the
sender that the loop owns, and each of the handles owns one more. -/
structure Committing where
  stage : LoopStage
  handler : HandlerStage
  commit_tx : Bool
  handles : List KafkaManualCommit
  queue : List CommitRequest
  cancelled : Bool

namespace Committing

def start : Committing := ⟨.Polling, .Receiving, true, [], [], false⟩

variable (s : Committing)

def senders : Nat := (if s.commit_tx then 1 else 0) + s.handles.length

/-- The locals of the loop are dropped when it returns. -/
def leave (stage : LoopStage) : Committing := { s with stage, commit_tx := false }

inductive Event where
  | cancel
  | shutdown
  | exhausted
  | received (msg : OwnedMessage) (around : Surroundings)
  | clone_handle (k : Nat)
  | drop_handle (k : Nat)
  | commit (k : Nat) (sync : Bool)
  | recv
  | reply
  | joined
  | time_out

/-- The exchange takes the handle along. It is dropped where the pipeline refuses it. -/
def dispatch (config : ResolvedKafkaEndpointConfig) (msg : OwnedMessage) (around : Surroundings) :
    Committing :=
  match build_exchange msg config.group_id with
  | .error e => s.leave (.Failed e)
  | .ok exchange =>
    match around.send exchange with
    | .ok () => { s with handles := s.handles ++ [⟨msg.topic, msg.partition, msg.offset⟩] }
    | .error _ => s

/-- `rx.recv()` gives a request, or nothing once the queue is empty and the last sender is gone. -/
def handler_recv : Option Committing :=
  match s.handler, s.queue with
  | .Receiving, req :: queue => some { s with handler := .Committing req, queue }
  | .Receiving, [] => if s.senders = 0 then some { s with handler := .Ended } else none
  | _, _ => none

/-- One step of the loop, of the handler, or of somebody with a handle. -/
def step (config : ResolvedKafkaEndpointConfig) (event : Event) : Option Committing :=
  match event, s.stage, s.handler with
  | .cancel, _, _ => some { s with cancelled := true }
  | .shutdown, .Polling, _ => if s.cancelled then some { s with stage := .Waiting } else none
  | .exhausted, .Polling, _ => some { s with stage := .Waiting }
  | .received msg around, .Polling, _ => some (s.dispatch config msg around)
  | .clone_handle k, _, _ => s.handles[k]?.map fun h => { s with handles := s.handles ++ [h] }
  | .drop_handle k, _, _ => some { s with handles := s.handles.eraseIdx k }
  | .commit _ _, _, .Ended => none
  | .commit k sync, _, _ =>
    if s.queue.length < 32 then
      s.handles[k]?.map fun h => { s with queue := s.queue ++ [⟨h, sync⟩] }
    else none
  | .recv, _, _ => s.handler_recv
  | .reply, _, .Committing _ => some { s with handler := .Receiving }
  | .joined, .Waiting, .Ended => some (s.leave (.Returned false))
  | .time_out, .Waiting, _ => some (s.leave (.Returned true))
  | _, _, _ => none

def run (config : ResolvedKafkaEndpointConfig) (s : Committing) (events : List Event) :
    Option Committing :=
  events.foldlM (fun s event => s.step config event) s

/-- Until the loop returns it owns a sender, so the handler does not end before. -/
def Owns : Prop :=
  match s.stage with
  | .Polling | .Waiting => s.commit_tx = true ∧ s.handler ≠ .Ended
  | .Returned timed_out => timed_out = true
  | .Failed _ => True

/-- No sender is alive, the handler ends, and the wait is over. -/
def Drains (config : ResolvedKafkaEndpointConfig) : Prop :=
  s.senders = 0 ∧ ∃ t, s.step config .recv = some t ∧ t.handler = .Ended ∧
    ∃ u, t.step config .joined = some u

variable {config : ResolvedKafkaEndpointConfig} {s} {t : Committing} {event : Event}

theorem owns_dispatch (msg : OwnedMessage) (around : Surroundings) (h : s.Owns)
    (hp : s.stage = .Polling) : (s.dispatch config msg around).Owns := by
  unfold dispatch
  split
  · trivial
  · split
    · simpa [Owns, hp] using h
    · exact h

-- The handler ends only where nobody owns a sender, and the loop owns one until it returns.
theorem owns_handler_recv (h : s.Owns) (hrecv : s.handler_recv = some t) : t.Owns := by
  unfold handler_recv at hrecv
  split at hrecv
  · cases hrecv
    cases hs : s.stage <;> simp_all [Owns]
  · split at hrecv
    · rename_i hn
      cases hrecv
      cases hs : s.stage <;> simp_all [Owns, senders]
    · cases hrecv
  · cases hrecv

-- What a holder of a handle or the token does leaves the stage, the loop's sender and the end of
-- the handler as they are.
theorem owns_of_eq (h : s.Owns) (hs : t.stage = s.stage) (ht : t.commit_tx = s.commit_tx)
    (he : t.handler = .Ended → s.handler = .Ended) : t.Owns := by
  unfold Owns at *
  rw [hs, ht]
  split at h
  · exact ⟨h.1, fun hen => h.2 (he hen)⟩
  · exact ⟨h.1, fun hen => h.2 (he hen)⟩
  · exact h
  · trivial

theorem owns_step (h : s.Owns) (hs : s.step config event = some t) : t.Owns := by
  unfold step at hs
  split at hs
  case h_1 => cases hs; exact owns_of_eq h rfl rfl id
  case h_2 hp =>
    split at hs
    · cases hs
      simpa [Owns, hp] using h
    · cases hs
  case h_3 hp =>
    cases hs
    simpa [Owns, hp] using h
  case h_4 hp =>
    cases hs
    exact owns_dispatch _ _ h hp
  case h_5 =>
    obtain ⟨handle, -, rfl⟩ := Option.map_eq_some_iff.mp hs
    exact owns_of_eq h rfl rfl id
  case h_6 => cases hs; exact owns_of_eq h rfl rfl id
  case h_8 =>
    split at hs
    · obtain ⟨handle, -, rfl⟩ := Option.map_eq_some_iff.mp hs
      exact owns_of_eq h rfl rfl id
    · cases hs
  case h_9 => exact owns_handler_recv h hs
  case h_10 => cases hs; exact owns_of_eq h rfl rfl nofun
  case h_11 hw he =>
    simp [Owns, hw, he] at h
  case h_12 => cases hs; rfl
  all_goals cases hs

theorem owns_run {events : List Event} (h : s.Owns) (hru : s.run config events = some t) :
    t.Owns := by
  induction events generalizing s with
  | nil =>
    cases hru
    exact h
  | cons event events ih =>
    obtain ⟨u, hs, hr⟩ := Option.bind_eq_some_iff.mp hru
    exact ih (owns_step h hs) hr

/-- In every run, a sender is alive and the handler goes on for as long as the loop waits, and the
wait has no other end than its time-out. -/
theorem wait_ends_by_time_out (config : ResolvedKafkaEndpointConfig) (events : List Event)
    (s : Committing) (hrun : start.run config events = some s) :
    (s.stage = .Waiting → 0 < s.senders ∧ s.handler ≠ .Ended ∧ ¬s.Drains config) ∧
      s.stage ≠ .Returned false := by
  have hs : start.Owns := ⟨rfl, nofun⟩
  have ho := owns_run hs hrun
  constructor
  · intro hw
    simp only [Owns, hw] at ho
    have hse : 0 < s.senders := by
      simp [senders, ho.1]
    exact ⟨hse, ho.2, fun hd => hse.ne' hd.1⟩
  · intro hr
    simp [Owns, hr] at ho

/-- A consumer with manual commits. -/
def idle : ResolvedKafkaEndpointConfig := ⟨"orders", "camel", true, ⟨true, 10, none⟩⟩

def parcel : OwnedMessage := ⟨"orders", 0, 7, none, some [104, 105], none⟩

def willing : Surroundings :=
  ⟨fun _ => .ok (), .ok, fun _ _ _ => .ok (), fun _ _ _ => .ok ()⟩

theorem committed_message_leaves_a_sender :
    ∃ s, start.run idle [.received parcel willing, .clone_handle 0, .commit 0 true, .recv,
        .drop_handle 0, .reply, .drop_handle 0, .cancel, .shutdown] = some s ∧
      s.handles = [] ∧ s.queue = [] ∧ 0 < s.senders :=
  ⟨⟨.Waiting, .Receiving, true, [], [], true⟩, rfl, rfl, rfl,
    ((wait_ends_by_time_out idle [.received parcel willing, .clone_handle 0, .commit 0 true, .recv,
      .drop_handle 0, .reply, .drop_handle 0, .cancel, .shutdown] _ rfl).1 rfl).1⟩

theorem idle_consumer_does_not_drain :
    ∃ s, start.run idle [.cancel, .shutdown] = some s ∧ s.stage = .Waiting ∧ s.cancelled ∧
      s.handles = [] ∧ s.queue = [] ∧ s.handler = .Receiving ∧ ¬s.Drains idle := by
  refine ⟨⟨.Waiting, .Receiving, true, [], [], true⟩, rfl, rfl, rfl, rfl, rfl, rfl, ?_⟩
  rintro ⟨hs, -⟩
  exact absurd hs (by decide)

end Committing

end camel_kafka
