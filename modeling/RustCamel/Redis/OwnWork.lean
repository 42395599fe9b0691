-- Recovery and the session's own work. A session runs against the group's pending list: a recovery
-- pass may claim whatever has been idle long enough, also what the session itself still holds. As
-- long as it does not, no entry is handed to the pipeline twice.
import RustCamel.Redis.Handoff

open List Option

namespace camel_redis.streams

variable {params : StreamConsumerParams} {policy : NetworkRetryPolicy}

/-! ## The server -/

/-- A consumer group: its clock, the ids it has delivered, and those still pending, each with the
time of its last delivery. -/
structure Server where
  now : Nat
  delivered : List String
  pending : List (String × Nat)
  known : ∀ entry ∈ pending, entry.1 ∈ delivered

namespace Server

def pending_ids (server : Server) : List String := server.pending.map (·.1)

/-- XREADGROUP with `>` delivers ids that were never delivered. -/
def fresh (server : Server) (ids : List String) : Prop :=
  ids.Nodup ∧ ∀ id ∈ ids, id ∉ server.delivered

instance (server : Server) (ids : List String) : Decidable (server.fresh ids) :=
  inferInstanceAs (Decidable (_ ∧ _))

/-- XAUTOCLAIM takes pending ids that have been idle long enough. -/
def claimable (server : Server) (min_idle : Nat) (ids : List String) : Prop :=
  ids.Nodup ∧ ∀ id ∈ ids, ∃ entry ∈ server.pending, entry.1 = id ∧ entry.2 + min_idle ≤ server.now

instance (server : Server) (min_idle : Nat) (ids : List String) :
    Decidable (server.claimable min_idle ids) := inferInstanceAs (Decidable (_ ∧ _))

def tick (server : Server) : Server := { server with now := server.now + 1 }

def read (server : Server) (ids : List String) : Server where
  now := server.now
  delivered := server.delivered ++ ids
  pending := server.pending ++ ids.map fun id => (id, server.now)
  known := by
    intro entry hentry
    rcases mem_append.mp hentry with hold | hnew
    · exact mem_append_left _ (server.known entry hold)
    · obtain ⟨id, hid, rfl⟩ := List.mem_map.mp hnew
      exact mem_append_right _ hid

def autoclaim (server : Server) (ids : List String) : Server where
  now := server.now
  delivered := server.delivered
  pending := server.pending.map fun entry =>
    if entry.1 ∈ ids then (entry.1, server.now) else entry
  known := by
    intro entry hentry
    obtain ⟨old, hold, rfl⟩ := List.mem_map.mp hentry
    have hknown := server.known old hold
    split <;> exact hknown

def ack (server : Server) (ids : List String) : Server where
  now := server.now
  delivered := server.delivered
  pending := server.pending.filter fun entry => entry.1 ∉ ids
  known := fun entry hentry => server.known entry (mem_filter.mp hentry).1

end Server

/-! ## A session against the server -/

/-- A session, the server, and the answers of the server that are on their way. -/
structure World where
  session : State
  server : Server
  -- the answer to the read that is out
  assigned : Option (List StreamEntry)
  -- the answer to the XAUTOCLAIM that is out
  claim : Option (List StreamEntry)
  -- the server has executed the XACK that is out on that connection
  acked : Half → Bool
  -- the ids whose XACK was answered with success
  settled : List String

inductive WorldEvent where
  | session (event : Event)
  -- the server executes a command of the session
  | read (entries : List StreamEntry)
  | autoclaim (entries : List StreamEntry)
  | ack (half : Half)
  | tick
  -- other consumers of the group
  | others_read (ids : List String)
  | others_claim (ids : List String)
  | others_ack (ids : List String)

def StreamEntry.ids (entries : List StreamEntry) : List String := entries.map (·.id)

/-- The ids of the XACK that is out. -/
def State.acking (s : State) : Half → Option (List String)
  | .Read =>
    match s.task.pc with
    | .AwaitingAck ids => some ids
    | _ => none
  | .Recovery =>
    match s.core.pc with
    | .AwaitingRecoverAck id _ => some [id]
    | _ => none

def State.reading (s : State) : Bool :=
  match s.task.pc with
  | .Blocked => true
  | _ => false

def State.recovering (s : State) : Bool :=
  match s.core.pc with
  | .Recover _ _ _ => true
  | _ => false

/-- The ids that a move of the read task sees acknowledged. -/
def TaskPc.settles : TaskPc → TaskLabel → List String
  | .AwaitingAck ids, .acked (.ok _) => ids
  | _, _ => []

/-- The ids that a move of the session core sees acknowledged. -/
def CorePc.settles : CorePc → CoreLabel → List String
  | .AwaitingRecoverAck id _, .acked (.ok _) => [id]
  | _, _ => []

/-- The ids that a move of the session sees acknowledged. -/
def State.settles (s : State) : Event → List String
  | .task label => s.task.pc.settles label
  | .core label => s.core.pc.settles label
  | _ => []

namespace World

def start (server : Server) : World := ⟨streams.start, server, none, none, fun _ => false, []⟩

/-- The answers a move of the session takes. A command that fails leaves open whether the server
has executed it. -/
def answers (w : World) : Event → Bool
  | .task (.read (.ok result)) => result = w.assigned
  | .task (.acked (.ok _)) => w.acked .Read
  | .core (.acked (.ok _)) => w.acked .Recovery
  | .core (.claimed entries) => w.claim = some entries
  | _ => true

/-- An answer is gone with the call it belongs to. -/
def after (w : World) (event : Event) (session : State) : World where
  session := session
  server := w.server
  assigned := if session.reading then w.assigned else none
  claim :=
    match event with
    | .core (.claimed _) => none
    | _ => if session.recovering then w.claim else none
  acked := fun half => if (session.acking half).isSome then w.acked half else false
  settled := w.settled ++ w.session.settles event

end World

def world_step (params : StreamConsumerParams) (policy : NetworkRetryPolicy) (w : World) :
    WorldEvent → Option World
  | .session event =>
    if w.answers event then (step params policy w.session event).map (w.after event) else none
  | .read entries =>
    if w.session.reading = true ∧ w.assigned = none ∧ w.server.fresh (StreamEntry.ids entries) then
      some { w with
        server := w.server.read (StreamEntry.ids entries)
        assigned := some entries }
    else none
  | .autoclaim entries =>
    if w.session.recovering = true ∧ w.claim = none ∧
        w.server.claimable params.recover_min_idle_ms (StreamEntry.ids entries) then
      some { w with
        server := w.server.autoclaim (StreamEntry.ids entries)
        claim := some entries }
    else none
  | .ack half =>
    match w.session.acking half with
    | some ids => some { w with
        server := w.server.ack ids
        acked := fun h => if h = half then true else w.acked h }
    | none => none
  | .tick => some { w with server := w.server.tick }
  | .others_read ids =>
    if w.server.fresh ids then some { w with server := w.server.read ids } else none
  | .others_claim ids => some { w with server := w.server.autoclaim ids }
  | .others_ack ids => some { w with server := w.server.ack ids }

/-! ## What the session holds -/

def Delivery.held : Delivery → List String
  | .Batch pending awaiting_acks => StreamEntry.ids pending ++ awaiting_acks
  | .Recovered _ => []

/-- The ids behind a delivery: its own, and with it those of the rest of its batch. -/
def carried_ids : Option (StreamEntry × Delivery) → List String
  | some (entry, delivery) => entry.id :: delivery.held
  | none => []

/-- The ids the session core has in hand: waiting, in flight, or completed and not yet
acknowledged. -/
def CorePc.held : CorePc → List String
  | .Hand entry delivery => entry.id :: delivery.held
  | .Recover pass _ claimed => carried_ids pass.carries ++ StreamEntry.ids claimed
  | .RecoveredDone id _ | .RecoverAck id _ | .AwaitingRecoverAck id _ => [id]
  | .BatchNext pending awaiting_acks => StreamEntry.ids pending ++ awaiting_acks
  | .BatchDelivered awaiting_acks | .SendAck awaiting_acks => awaiting_acks
  | pc => carried_ids pc.carries

def queued (queue : List RecoveredEntry) : List String := queue.map (·.entry.id)

def SessionCore.held (core : SessionCore) : List String := core.pc.held ++ queued core.recovered

def ReadTaskMsg.ids : ReadTaskMsg → List String
  | .Batch entries => StreamEntry.ids entries
  | _ => []

def TaskPc.held : TaskPc → List String
  | .Reporting message => message.ids
  | .Acking ids | .AwaitingAck ids => ids
  | _ => []

def State.held (s : State) : List String :=
  s.task.pc.held ++ s.messages.flatMap ReadTaskMsg.ids ++ s.commands.flatMap ReadTaskCmd.ids ++
    s.core.held

def answered (entries : Option (List StreamEntry)) : List String :=
  StreamEntry.ids (entries.getD [])

/-- All the ids the session holds, with those on their way to it. -/
def World.held (w : World) : List String :=
  answered w.assigned ++ answered w.claim ++ w.session.held

/-! ## The moves keep what is held -/

variable {pc' pc : CorePc} {s s' : State} {w w' : World} {claimed : List StreamEntry}
  {entries : List StreamEntry} {id : String}

section

variable {id : String} {label : CoreLabel}

def CoreLabel.brings : CoreLabel → List String
  | .message (some received) => received.ids
  | .claimed entries => StreamEntry.ids entries
  | _ => []

/-- The ids a move of the session core asks to acknowledge. -/
def CoreLabel.asks : CoreLabel → List String
  | .send cmd => cmd.ids
  | _ => []

def TaskLabel.brings : TaskLabel → List String
  | .command cmd => cmd.ids
  | .read (.ok (some entries)) => StreamEntry.ids entries
  | _ => []

/-- What a move of the read task passes on. -/
def TaskLabel.sends : TaskLabel → List String
  | .send message => message.ids
  | _ => []

theorem task_held {pc pc' : TaskPc} {label : TaskLabel} (h : TaskMove pc label pc')
    (id : String) :
    pc'.held.count id + label.sends.count id + (pc.settles label).count id ≤
      pc.held.count id + label.brings.count id := by
  cases h
  all_goals first
    | exact le_rfl
    | exact Nat.zero_le _
    | simp [TaskPc.held, TaskLabel.sends, TaskLabel.brings, TaskPc.settles, ReadTaskCmd.ids,
        ReadTaskMsg.ids]

@[simp] theorem held_drained (c : Caller) : (SessionCore.drained c).held = [] := by
  cases c <;> rfl

@[simp] theorem held_pass_completed (p : Pass) :
    (SessionCore.pass_completed p).held = carried_ids p.carries := by
  unfold SessionCore.pass_completed
  split <;> rfl

@[simp] theorem held_connected (r : Reconnect) :
    (SessionCore.connected r).held = (CorePc.Connect r).held := by
  cases r with
  | Pass p => exact append_nil _
  | Ack c => rfl

/-- The queue changes only where recovered entries are drained or claimed. -/
def CorePc.queue_still : CorePc → Bool
  | .Drain _ | .Recover _ _ _ => false
  | _ => true

theorem pc_held (h : CoreMove pc label pc') (hst : pc.queue_still = true) (id : String) :
    pc'.held.count id + label.asks.count id + (pc.settles label).count id ≤
      pc.held.count id + label.brings.count id := by
  by_cases hsto : label = .token true
  · subst hsto
    have hs : pc.settles (.token true) = [] := by
      unfold CorePc.settles
      split <;> first | rfl | contradiction
    rw [hs]
    rcases stops h with ⟨c, rfl⟩ | rfl
    · rw [held_drained]
      exact Nat.zero_le _
    · exact Nat.zero_le _
  · cases h
    case connects r =>
      rw [held_connected]
      exact le_rfl
    case pass_recovers p =>
      change (carried_ids p.carries ++ []).count id ≤ _
      rw [append_nil]
      exact le_rfl
    all_goals first
      | exact absurd rfl hsto
      | exact absurd hst Bool.false_ne_true
      | exact le_rfl
      | exact Nat.zero_le _
      | (simp [CorePc.held, CorePc.carries, carried_ids, Awaited.carries, Delivery.held,
           CoreLabel.asks, CoreLabel.brings, CorePc.settles, StreamEntry.ids, ReadTaskCmd.ids,
           ReadTaskMsg.ids, count_append, count_cons] <;> omega)

theorem retry_queue (policy : NetworkRetryPolicy) (core : SessionCore) (err : CamelError)
    (stage : String) (again : CorePc) :
    (core.retry policy err stage again).recovered = core.recovered := by
  unfold SessionCore.retry
  split <;> rfl

theorem next_queue {core core' : SessionCore} (h : core.next params policy label = some core')
    (hs : core.pc.queue_still = true) : core'.recovered = core.recovered := by
  unfold SessionCore.next at h
  cases hp : core.pc <;> simp only [hp] at h hs
  case Drain => cases hs
  case Recover => cases hs
  case Wait awaited poll =>
    unfold SessionCore.wait at h
    repeat' split at h
    all_goals first
      | (cases h
         first
           | rfl
           | (unfold SessionCore.on_message; split <;> rfl)
           | (unfold SessionCore.on_outcome; split <;> rfl)
           | (unfold SessionCore.on_reply; split <;> rfl))
      | cases h
  all_goals
    repeat' split at h
    all_goals first
      | (cases h
         first | rfl | exact retry_queue ..)
      | cases h

theorem drain_held {core core' : SessionCore} {caller : Caller}
    (h : core.drain caller label = some core') (id : String) :
    core'.held.count id ≤ (queued core.recovered).count id := by
  unfold SessionCore.drain at h
  split at h
  · cases h
    simp [SessionCore.held, SessionCore.goto]
  · rename_i hq
    cases h
    simp [SessionCore.held, hq, queued, count_cons]
  · rename_i hq
    cases h
    simp [SessionCore.held, hq, queued, count_cons, CorePc.held, Delivery.held]
  · rename_i hq
    cases h
    simp [SessionCore.held, hq, queued, count_cons, CorePc.held, CorePc.carries, carried_ids]
  · cases h

theorem queued_zipWith {counts : List (Option Nat)} (h : counts.length = claimed.length) :
    queued (List.zipWith RecoveredEntry.mk claimed counts) = StreamEntry.ids claimed := by
  induction claimed generalizing counts with
  | nil => rfl
  | cons entry claimed ih =>
    cases counts with
    | nil => cases h
    | cons count counts =>
      have ht := ih (Nat.succ.inj h)
      simp only [queued, StreamEntry.ids, zipWith_cons_cons, map_cons] at ht ⊢
      rw [ht]

theorem recover_held {core core' : SessionCore} {pass : Pass} {polled : Bool}
    (h : core.recover policy pass polled claimed label = some core') (id : String) :
    core'.held.count id ≤ (carried_ids pass.carries).count id +
      (StreamEntry.ids claimed).count id + (queued core.recovered).count id +
      label.brings.count id := by
  unfold SessionCore.recover at h
  split at h
  · cases h
    rcases pass_cancelled_cases pass with ⟨c, hp⟩ | hp
    · simp [SessionCore.held, SessionCore.goto, hp]
      omega
    · simp [SessionCore.held, SessionCore.goto, hp, CorePc.held, CorePc.carries, carried_ids]
      omega
  · cases h
    simp only [SessionCore.held, SessionCore.goto, CorePc.held, count_append]
    omega
  · cases h
    simp only [SessionCore.held, SessionCore.goto, CorePc.held, count_append]
    omega
  · cases h
    simp [SessionCore.held, SessionCore.goto, CorePc.held, CoreLabel.brings, StreamEntry.ids]
    omega
  · rename_i counts cursor
    split at h
    · rename_i hl
      cases h
      have hq : queued (core.recovered ++ List.zipWith RecoveredEntry.mk claimed counts) =
          queued core.recovered ++ StreamEntry.ids claimed := by
        rw [← queued_zipWith hl]
        exact map_append
      simp only [SessionCore.held, held_pass_completed, hq, count_append]
      omega
    · cases h
  · rename_i err
    cases h
    have hq := retry_queue policy { core with recovery_connected := false } err
      "recovering pending stream entries" (.PassTop pass)
    rcases SessionCore.retry_pc policy { core with recovery_connected := false } err
      "recovering pending stream entries" (.PassTop pass) with hp | ⟨e, hp⟩
    · simp only [SessionCore.held, hp, hq, CorePc.held, CorePc.carries, count_append]
      omega
    · simp only [SessionCore.held, hp, hq, CorePc.held, CorePc.carries, carried_ids,
        count_append, count_nil]
      omega
  · cases h

theorem asks_of_moving_queue (h : CoreMove pc label pc') (hm : pc.queue_still = false) :
    label.asks = [] ∧ pc.settles label = [] := by
  cases h <;> first | exact ⟨rfl, rfl⟩ | cases hm

theorem core_held {core core' : SessionCore} (h : core.next params policy label = some core')
    (id : String) :
    core'.held.count id + label.asks.count id + (core.pc.settles label).count id ≤
      core.held.count id + label.brings.count id := by
  by_cases hs : core.pc.queue_still = true
  · have hp := pc_held (SessionCore.next_move h) hs id
    have hq := next_queue h hs
    simp only [SessionCore.held, hq, count_append]
    omega
  · obtain ⟨ha, hse⟩ := asks_of_moving_queue (SessionCore.next_move h) (by simpa using hs)
    rw [ha, hse]
    unfold SessionCore.next at h
    cases hp : core.pc <;> simp only [hp] at h hs
    case Drain caller =>
      have hd := drain_held h id
      simp only [SessionCore.held, count_append, count_nil] at hd ⊢
      omega
    case Recover pass polled claimed =>
      have hr := recover_held h id
      simp only [SessionCore.held, hp, CorePc.held, count_append, count_nil]
        at hr ⊢
      omega
    all_goals exact absurd rfl hs

end

/-! ## Sessions keep what is held -/

/-- What a move of the session takes from the server. -/
def Event.brings : Event → List String
  | .task (.read (.ok (some entries))) => StreamEntry.ids entries
  | .core (.claimed entries) => StreamEntry.ids entries
  | _ => []

theorem held_put_task (s : State) (task : ReadTask) (id : String) :
    (s.put_task task).held.count id ≤ ({ s with task } : State).held.count id := by
  unfold State.put_task
  split
  · simp only [State.held, State.close, flatMap_nil, count_append, count_nil]
    omega
  · exact le_rfl

theorem task_channels_held {label : TaskLabel} {ms ms' : List ReadTaskMsg}
    {cs cs' : List ReadTaskCmd} {r r' : Reply} (h : label.channels ms ms' cs cs' r r')
    (id : String) :
    (ms'.flatMap ReadTaskMsg.ids).count id + (cs'.flatMap ReadTaskCmd.ids).count id +
        label.brings.count id =
      (ms.flatMap ReadTaskMsg.ids).count id + (cs.flatMap ReadTaskCmd.ids).count id +
        label.sends.count id + (Event.task label).brings.count id := by
  cases label
  case send message =>
    obtain ⟨rfl, rfl, -⟩ := h
    simp [TaskLabel.brings, TaskLabel.sends, Event.brings]
    omega
  case command cmd =>
    obtain ⟨rfl, rfl, -⟩ := h
    simp [TaskLabel.brings, TaskLabel.sends, Event.brings]
    omega
  case read result =>
    obtain ⟨rfl, rfl, -⟩ := h
    cases result with
    | error err => simp [TaskLabel.brings, TaskLabel.sends, Event.brings]
    | ok entries =>
      cases entries <;> simp [TaskLabel.brings, TaskLabel.sends, Event.brings]
  all_goals
    obtain ⟨rfl, rfl, -⟩ := h
    simp [TaskLabel.brings, TaskLabel.sends, Event.brings]

/-- What the session core sends or takes, the channels get or give. -/
theorem core_channels_held {label : CoreLabel} {ms ms' : List ReadTaskMsg}
    {cs cs' : List ReadTaskCmd} {r r' : Reply} (h : label.channels ms ms' cs cs' r r')
    (id : String) :
    (ms'.flatMap ReadTaskMsg.ids).count id + (cs'.flatMap ReadTaskCmd.ids).count id +
        label.brings.count id =
      (ms.flatMap ReadTaskMsg.ids).count id + (cs.flatMap ReadTaskCmd.ids).count id +
        label.asks.count id + (Event.core label).brings.count id := by
  cases label
  case send cmd =>
    obtain ⟨rfl, rfl, -⟩ := h
    simp [CoreLabel.brings, CoreLabel.asks, Event.brings]
    omega
  case message received =>
    cases received with
    | none =>
      obtain ⟨rfl, rfl, -⟩ := h
      simp [CoreLabel.brings, CoreLabel.asks, Event.brings]
    | some message =>
      obtain ⟨rfl, rfl, -⟩ := h
      simp [CoreLabel.brings, CoreLabel.asks, Event.brings]
      omega
  all_goals
    obtain ⟨rfl, rfl, -⟩ := h
    simp [CoreLabel.brings, CoreLabel.asks, Event.brings]

/-- A move of the session holds on to no more than it had or was brought, and lets go of what it
sees acknowledged. -/
theorem session_held {event : Event} (hs : step params policy s event = some s') (id : String) :
    s'.held.count id + (s.settles event).count id ≤ s.held.count id + event.brings.count id := by
  rcases step_cases hs with ⟨rfl, -, rfl⟩ | ⟨label, task, t, rfl, hn, he, rfl⟩ |
    ⟨label, core, t, rfl, hn, he, rfl⟩ | ⟨payload, rfl, -, rfl⟩ | ⟨rfl, -, rfl⟩ |
    ⟨rfl, -, rfl⟩
  · exact le_rfl
  · have hp := held_put_task t task id
    have ht := task_held (ReadTask.next_move hn) id
    have hc := task_channels_held (task_effect_channels he) id
    have hco := (task_effect_spec he).1
    simp only [State.held, State.settles, hco, count_append] at hp ⊢
    omega
  · have hh := core_held hn id
    obtain ⟨ht, hc, -, -⟩ := core_effect_channels he
    have hc := core_channels_held hc id
    simp only [State.held, State.settles, ht, count_append]
    omega
  · have hp := held_put_task s (s.task.goto (.Panicked payload)) id
    simp only [State.held, State.settles, ReadTask.goto, TaskPc.held, count_append,
      count_nil] at hp ⊢
    omega
  · have hp := held_put_task s (s.task.goto .Returned) id
    simp only [State.held, State.settles, ReadTask.goto, TaskPc.held, count_append,
      count_nil] at hp ⊢
    omega
  · simp only [State.held, State.settles, SessionCore.held, SessionCore.goto, CorePc.held,
      CorePc.carries, carried_ids, count_append, count_nil]
    omega

/-! ## A world in which the session claims only what it does not hold -/

/-- No XAUTOCLAIM of the session is answered with an entry the session holds. -/
def claims_only_others (w : World) : WorldEvent → Bool
  | .autoclaim entries => entries.all fun entry => entry.id ∉ w.held
  | _ => true

/-- Every id is in one hand, and what was acknowledged is in none. -/
structure Apart (w : World) : Prop where
  once : ∀ id, w.held.count id ≤ 1
  known : ∀ id ∈ w.held, id ∈ w.server.delivered
  settled_known : ∀ id ∈ w.settled, id ∈ w.server.delivered
  settled_away : ∀ id ∈ w.settled, id ∉ w.held ∧ id ∉ w.server.pending_ids
  acked_out : ∀ half, w.acked half = true → (w.session.acking half).isSome = true
  acked_away : ∀ half ids, w.acked half = true → w.session.acking half = some ids →
    ∀ id ∈ ids, id ∉ w.server.pending_ids

theorem apart_start (server : Server) : Apart (.start server) where
  once := fun id => Nat.zero_le _
  known := fun id hi => by cases hi
  settled_known := fun id hi => by cases hi
  settled_away := fun id hi => by cases hi
  acked_out := fun half h => by cases h
  acked_away := fun half ids h => by cases h

theorem reporting_of_read {pc pc' : TaskPc} (h : TaskMove pc (.read (.ok (some entries))) pc') :
    pc' = .Reporting (.Batch entries) := by
  cases h
  rfl

theorem reading_of_read
    (hs : step params policy s (.task (.read (.ok (some entries)))) = some s') :
    s'.reading = false := by
  rcases step_cases hs with ⟨h, -⟩ | ⟨label, task, t, hl, hn, -, rfl⟩ |
    ⟨label, core, t, h, -⟩ | ⟨payload, h, -⟩ | ⟨h, -⟩ | ⟨h, -⟩
  case inr.inl =>
    cases hl
    unfold State.reading
    rw [put_task_task, reporting_of_read (ReadTask.next_move hn)]
  all_goals cases h

theorem count_answered_if (b : Bool) (entries : Option (List StreamEntry)) (id : String) :
    (answered (if b then entries else none)).count id ≤ (answered entries).count id := by
  cases b
  · exact Nat.zero_le _
  · exact le_rfl

theorem world_held {event : Event} (han : w.answers event = true)
    (hst : step params policy w.session event = some s') (id : String) :
    (w.after event s').held.count id + (w.session.settles event).count id ≤ w.held.count id := by
  have hs := session_held hst id
  have ha : (answered (w.after event s').assigned).count id ≤
      (answered w.assigned).count id := count_answered_if _ _ id
  have hc : (answered (w.after event s').claim).count id ≤ (answered w.claim).count id := by
    unfold World.after
    simp only
    split
    · exact Nat.zero_le _
    · exact count_answered_if _ _ id
  simp only [World.held, count_append]
  unfold Event.brings at hs
  split at hs
  · rename_i entries
    have hr : w.assigned = some entries := (of_decide_eq_true han).symm
    have hn : (w.after (.task (.read (.ok (some entries)))) s').assigned = none := by
      simp [World.after, reading_of_read hst]
    rw [hn]
    simp only [hr, answered, getD_some, getD_none] at *
    change ([] : List String).count id + _ + s'.held.count id + _ ≤ _
    rw [count_nil]
    omega
  · rename_i entries
    have hcl : w.claim = some entries := of_decide_eq_true han
    have hn : (w.after (.core (.claimed entries)) s').claim = none := rfl
    rw [hn]
    simp only [hcl, answered, getD_some, getD_none] at *
    change _ + ([] : List String).count id + s'.held.count id + _ ≤ _
    rw [count_nil]
    omega
  · change _ + _ + s'.held.count id + _ ≤ _
    rw [count_nil] at hs
    omega

/-! ## The session keeps its work apart -/

theorem not_acking_after {pc' : TaskPc} {label : TaskLabel} {ids : List String}
    (h : TaskMove (.AwaitingAck ids) label pc') : ∀ ids', pc' ≠ .AwaitingAck ids' := by
  intro ids' heq
  subst heq
  cases h

theorem not_recover_acking_after {label : CoreLabel} {c : Caller}
    (h : CoreMove (.AwaitingRecoverAck id c) label pc') :
    ∀ id' c', pc' ≠ .AwaitingRecoverAck id' c' := by
  intro id' c' heq
  subst heq
  cases h

theorem acking_read {ids : List String} (h : s.acking .Read = some ids) :
    s.task.pc = .AwaitingAck ids := by
  unfold State.acking at h
  simp only at h
  split at h
  · rename_i hp
    rw [hp, some.inj h]
  · cases h

theorem acking_recovery {ids : List String} (h : s.acking .Recovery = some ids) :
    ∃ id c, s.core.pc = .AwaitingRecoverAck id c ∧ ids = [id] := by
  unfold State.acking at h
  simp only at h
  split at h
  · rename_i id c hp
    exact ⟨id, c, hp, (some.inj h).symm⟩
  · cases h

/-- The XACK that is out stays out or is answered; no other takes its place. -/
theorem acking_step {event : Event} {half : Half} {ids ids' : List String}
    (hs : step params policy s event = some s') (hb : s.acking half = some ids)
    (ha : s'.acking half = some ids') : ids' = ids := by
  cases half with
  | Read =>
    have hp := acking_read hb
    have hp' := acking_read ha
    rcases step_cases hs with ⟨-, -, rfl⟩ | ⟨label, task, t, -, hn, -, rfl⟩ |
      ⟨label, core, t, -, -, he, rfl⟩ | ⟨payload, -, -, rfl⟩ | ⟨-, -, rfl⟩ | ⟨-, -, rfl⟩
    · exact TaskPc.AwaitingAck.inj (hp'.symm.trans hp)
    · have hm := ReadTask.next_move hn
      rw [put_task_task] at hp'
      rw [hp] at hm
      exact absurd hp' (not_acking_after hm ids')
    · have ht : t.task.pc = .AwaitingAck ids' := hp'
      rw [(core_effect_channels he).1] at ht
      exact TaskPc.AwaitingAck.inj (ht.symm.trans hp)
    · rw [put_task_task] at hp'
      cases hp'
    · rw [put_task_task] at hp'
      cases hp'
    · exact TaskPc.AwaitingAck.inj (hp'.symm.trans hp)
  | Recovery =>
    obtain ⟨id, c, hp, rfl⟩ := acking_recovery hb
    obtain ⟨id', c', hp', rfl⟩ := acking_recovery ha
    have hsa : ∀ {core : SessionCore}, core = s.core → core.pc = .AwaitingRecoverAck id' c' →
        [id'] = [id] := by
      rintro core rfl hc
      rw [(CorePc.AwaitingRecoverAck.inj (hc.symm.trans hp)).1]
    rcases step_cases hs with ⟨-, -, rfl⟩ | ⟨label, task, t, -, -, he, rfl⟩ |
      ⟨label, core, t, -, hn, -, rfl⟩ | ⟨payload, -, -, rfl⟩ | ⟨-, -, rfl⟩ | ⟨-, -, rfl⟩
    · exact hsa rfl hp'
    · exact hsa ((put_task_core ..).trans (task_effect_spec he).1) hp'
    · have hm := SessionCore.next_move hn
      rw [hp] at hm
      exact absurd hp' (not_recover_acking_after hm id' c')
    · exact hsa (put_task_core ..) hp'
    · exact hsa (put_task_core ..) hp'
    · cases hp'

theorem mem_held_of_acking {half : Half} {ids : List String}
    (h : w.session.acking half = some ids) (hi : id ∈ ids) : id ∈ w.held := by
  cases half with
  | Read =>
    have hp := acking_read h
    simp [World.held, State.held, hp, TaskPc.held, hi]
  | Recovery =>
    obtain ⟨i, c, hp, rfl⟩ := acking_recovery h
    simp [World.held, State.held, SessionCore.held, hp, CorePc.held, mem_singleton.mp hi]

/-- What a move sees acknowledged was named by an XACK that the server had executed. -/
theorem mem_acking_of_settles {event : Event} (ha : w.answers event = true)
    (hi : id ∈ w.session.settles event) :
    ∃ half ids, w.acked half = true ∧ w.session.acking half = some ids ∧ id ∈ ids := by
  cases event
  case task label =>
    simp only [State.settles] at hi
    unfold TaskPc.settles at hi
    split at hi
    · rename_i ids n hp
      exact ⟨.Read, ids, ha, by simp [State.acking, hp], hi⟩
    · cases hi
  case core label =>
    simp only [State.settles] at hi
    unfold CorePc.settles at hi
    split at hi
    · rename_i i c n hp
      exact ⟨.Recovery, [i], ha, by simp [State.acking, hp], hi⟩
    · cases hi
  all_goals cases hi

theorem Apart.session {event : Event} (h : Apart w) (han : w.answers event = true)
    (hst : step params policy w.session event = some s') : Apart (w.after event s') := by
  have hh := world_held han hst
  have hl : ∀ id ∈ (w.after event s').held, id ∈ w.held := by
    intro id hi
    have hpo := count_pos_iff.mpr hi
    have hle := hh id
    exact count_pos_iff.mp (by omega)
  constructor
  case once =>
    intro id
    have hle := hh id
    have ho := h.once id
    omega
  case known => exact fun id hi => h.known id (hl id hi)
  case settled_known =>
    intro id hi
    rcases mem_append.mp hi with hold | hn
    · exact h.settled_known id hold
    · obtain ⟨half, ids, -, ha, hm⟩ := mem_acking_of_settles han hn
      exact h.known id (mem_held_of_acking ha hm)
  case settled_away =>
    intro id hi
    rcases mem_append.mp hi with hold | hn
    · obtain ⟨hh', hp⟩ := h.settled_away id hold
      exact ⟨fun hm => hh' (hl id hm), hp⟩
    · obtain ⟨half, ids, hac, ha, hm⟩ := mem_acking_of_settles han hn
      refine ⟨fun hs => ?_, h.acked_away half ids hac ha id hm⟩
      have hon := count_pos_iff.mpr hs
      have ht := count_pos_iff.mpr hn
      have hle := hh id
      have ho := h.once id
      omega
  case acked_out =>
    intro half hac
    simp only [World.after] at hac
    split at hac
    · assumption
    · cases hac
  case acked_away =>
    intro half ids hac ha id hi
    simp only [World.after] at hac ha
    split at hac
    · obtain ⟨ids₀, hb⟩ := isSome_iff_exists.mp (h.acked_out half hac)
      obtain rfl := acking_step hst hb ha
      exact h.acked_away half ids hac hb id hi
    · cases hac

/-! ## The server keeps it apart -/

theorem pending_ids_read (server : Server) (ids : List String) :
    (server.read ids).pending_ids = server.pending_ids ++ ids := by
  have hf : (ids.map fun id => (id, server.now)).map (·.1) = ids := by
    rw [List.map_map]
    exact List.map_id ids
  simp only [Server.pending_ids, Server.read, map_append, hf]

theorem pending_ids_autoclaim (server : Server) (ids : List String) :
    (server.autoclaim ids).pending_ids = server.pending_ids := by
  unfold Server.pending_ids Server.autoclaim
  rw [List.map_map]
  apply map_congr_left
  intro entry _
  simp only [Function.comp]
  split <;> rfl

theorem mem_pending_ids_ack {server : Server} {ids : List String}
    (h : id ∈ (server.ack ids).pending_ids) : id ∈ server.pending_ids ∧ id ∉ ids := by
  obtain ⟨entry, he, rfl⟩ := List.mem_map.mp h
  obtain ⟨hm, hnot⟩ := mem_filter.mp he
  exact ⟨List.mem_map.mpr ⟨entry, hm, rfl⟩, by simpa using hnot⟩

theorem delivered_of_pending (server : Server) (h : id ∈ server.pending_ids) :
    id ∈ server.delivered := by
  obtain ⟨entry, he, rfl⟩ := List.mem_map.mp h
  exact server.known entry he

theorem pending_of_claimable {server : Server} {min_idle : Nat} {ids : List String}
    (h : server.claimable min_idle ids) (hi : id ∈ ids) : id ∈ server.pending_ids := by
  obtain ⟨entry, he, rfl, -⟩ := h.2 id hi
  exact List.mem_map.mpr ⟨entry, he, rfl⟩

/-- A change of the server that the session does not see: nothing known is forgotten, and no id
comes back to the pending list. -/
theorem Apart.server (h : Apart w) (server : Server)
    (hk : ∀ id ∈ w.server.delivered, id ∈ server.delivered)
    (hp : ∀ id ∈ w.server.delivered, id ∈ server.pending_ids → id ∈ w.server.pending_ids) :
    Apart { w with server } where
  once := h.once
  known := fun id hi => hk id (h.known id hi)
  settled_known := fun id hi => hk id (h.settled_known id hi)
  settled_away := by
    intro id hi
    obtain ⟨hh, haw⟩ := h.settled_away id hi
    exact ⟨hh, fun hm => haw (hp id (h.settled_known id hi) hm)⟩
  acked_out := h.acked_out
  acked_away := by
    intro half ids ha hac id hi hm
    have hd := h.known id (mem_held_of_acking hac hi)
    exact h.acked_away half ids ha hac id hi (hp id hd hm)

theorem apart_read (h : Apart w) {ids : List String} (hf : w.server.fresh ids) :
    Apart { w with server := w.server.read ids } := by
  refine h.server _ (fun id hi => mem_append_left _ hi) ?_
  intro id hi hm
  rw [pending_ids_read] at hm
  rcases mem_append.mp hm with hold | hn
  · exact hold
  · exact absurd hi (hf.2 id hn)

theorem Apart.take (h : Apart w) (ids : List String) (hs : w'.session = w.session)
    (hse : w'.server = w.server) (ha : w'.acked = w.acked)
    (hset : w'.settled = w.settled)
    (hh : ∀ id, w'.held.count id = w.held.count id + ids.count id) (hn : ids.Nodup)
    (hk : ∀ id ∈ ids, id ∈ w.server.delivered) (hne : ∀ id ∈ ids, id ∉ w.held)
    (hu : ∀ id ∈ ids, id ∉ w.settled) : Apart w' := by
  have hc : ∀ id ∈ w'.held, id ∈ w.held ∨ id ∈ ids := by
    intro id hi
    have hp := count_pos_iff.mpr hi
    rw [hh] at hp
    rcases Nat.eq_zero_or_pos (w.held.count id) with hzero | hm
    · exact .inr (count_pos_iff.mp (by omega))
    · exact .inl (count_pos_iff.mp hm)
  constructor
  case once =>
    intro id
    rw [hh]
    by_cases hi : id ∈ ids
    · rw [count_eq_zero.mpr (hne id hi)]
      have := nodup_iff_count.mp hn id
      omega
    · rw [count_eq_zero.mpr hi]
      exact h.once id
  case known =>
    intro id hi
    rw [hse]
    exact (hc id hi).elim (h.known id) (hk id)
  case settled_known => rw [hset, hse]; exact h.settled_known
  case settled_away =>
    intro id hi
    rw [hset] at hi
    obtain ⟨hh', haw⟩ := h.settled_away id hi
    rw [hse]
    refine ⟨fun hm => ?_, haw⟩
    exact (hc id hm).elim hh' fun hin => hu id hin hi
  case acked_out => rw [ha, hs]; exact h.acked_out
  case acked_away => rw [ha, hs, hse]; exact h.acked_away

theorem Apart.ack (h : Apart w) {half : Half} {ids : List String}
    (hac : w.session.acking half = some ids) :
    Apart { w with
      server := w.server.ack ids
      acked := fun h => if h = half then true else w.acked h } := by
  have hg : ∀ id, id ∈ (w.server.ack ids).pending_ids → id ∈ w.server.pending_ids :=
    fun id hi => (mem_pending_ids_ack hi).1
  have hs := h.server (w.server.ack ids) (fun id hi => hi) fun id _ => hg id
  refine ⟨hs.once, hs.known, hs.settled_known, hs.settled_away, ?_, ?_⟩
  · intro hal' ha
    by_cases heq : hal' = half
    · subst heq
      simp [hac]
    · simp only [heq, if_false] at ha
      exact h.acked_out hal' ha
  · intro hal' ids' ha hac' id hi hm
    by_cases heq : hal' = half
    · subst heq
      obtain rfl := some.inj (hac.symm.trans hac')
      exact (mem_pending_ids_ack hm).2 hi
    · simp only [heq, if_false] at ha
      exact h.acked_away hal' ids' ha hac' id hi (hg id hm)

theorem Apart.step {event : WorldEvent} (h : Apart w) (hcla : claims_only_others w event = true)
    (hst : world_step params policy w event = some w') : Apart w' := by
  cases event
  case session event =>
    simp only [world_step] at hst
    split at hst
    · rename_i ha
      obtain ⟨s', hs, rfl⟩ := map_eq_some_iff.mp hst
      exact h.session ha hs
    · cases hst
  case read entries =>
    simp only [world_step] at hst
    split at hst
    · rename_i hr
      obtain ⟨-, hn, hf⟩ := hr
      cases hst
      refine (apart_read h hf).take (StreamEntry.ids entries) rfl rfl rfl rfl ?_
        hf.1 (fun id hi => mem_append_right _ hi) ?_ ?_
      · intro id
        simp only [World.held, hn, answered, count_append]
        change _ = ([] : List String).count id + _ + _ + _
        rw [count_nil, getD_some]
        omega
      · exact fun id hi hm => hf.2 id hi (h.known id hm)
      · exact fun id hi hm => hf.2 id hi (h.settled_known id hm)
    · cases hst
  case autoclaim entries =>
    simp only [world_step] at hst
    split at hst
    · rename_i hc
      obtain ⟨-, hn, hcl⟩ := hc
      cases hst
      have hse := h.server (w.server.autoclaim (StreamEntry.ids entries)) (fun id hi => hi)
        fun id _ hm => pending_ids_autoclaim w.server _ ▸ hm
      refine hse.take (StreamEntry.ids entries) rfl rfl rfl rfl ?_ hcl.1 ?_ ?_ ?_
      · intro id
        simp only [World.held, hn, answered, count_append]
        change _ = _ + ([] : List String).count id + _ + _
        rw [count_nil, getD_some]
        omega
      · intro id hi
        have hp := pending_of_claimable hcl hi
        exact delivered_of_pending w.server hp
      · intro id hi
        obtain ⟨entry, he, rfl⟩ := List.mem_map.mp hi
        exact of_decide_eq_true (List.all_eq_true.mp hcla entry he)
      · intro id hi hm
        exact (h.settled_away id hm).2 (pending_of_claimable hcl hi)
    · cases hst
  case ack half =>
    simp only [world_step] at hst
    split at hst
    · rename_i ids hac
      cases hst
      exact h.ack hac
    · cases hst
  case tick =>
    cases hst
    exact h.server _ (fun id hi => hi) fun id _ hm => hm
  case others_read ids =>
    simp only [world_step] at hst
    split at hst
    · rename_i hf
      cases hst
      exact apart_read h hf
    · cases hst
  case others_claim ids =>
    cases hst
    exact h.server _ (fun id hi => hi) fun id _ hm => pending_ids_autoclaim w.server _ ▸ hm
  case others_ack ids =>
    cases hst
    exact h.server _ (fun id hi => hi) fun id _ hm => (mem_pending_ids_ack hm).1

/-! ## Whole runs -/

/-- What the session is to deliver next: the rest of its batch, and its recovery queue. -/
def State.waiting (s : State) : List String :=
  (match s.core.pc with
    | .Hand _ (.Batch pending _) => StreamEntry.ids pending
    | _ => []) ++ queued s.core.recovered

theorem session_of_world {event : WorldEvent} (hst : world_step params policy w event = some w') :
    w'.session = w.session ∨ ∃ e, step params policy w.session e = some w'.session := by
  cases event <;> simp only [world_step] at hst
  case session event =>
    split at hst
    · obtain ⟨s', hs, rfl⟩ := map_eq_some_iff.mp hst
      exact .inr ⟨event, hs⟩
    · cases hst
  all_goals
    first
      | (cases hst
         exact .inl rfl)
      | (split at hst
         · cases hst
           exact .inl rfl
         · cases hst)

theorem hand_of_world {entry : StreamEntry}
    (hst : world_step params policy w (.session (.core (.hand entry))) = some w') :
    ∃ pc', CoreMove w.session.core.pc (.hand entry) pc' := by
  simp only [world_step] at hst
  split at hst
  · obtain ⟨s', hs, -⟩ := map_eq_some_iff.mp hst
    rcases step_cases hs with ⟨h, -⟩ | ⟨label, task, t, h, -⟩ |
      ⟨label, core, t, hl, hn, -⟩ | ⟨payload, h, -⟩ | ⟨h, -⟩ | ⟨h, -⟩
    case inr.inr.inl =>
      cases hl
      exact ⟨core.pc, SessionCore.next_move hn⟩
    all_goals cases h
  · cases hst

theorem hand_pc {entry : StreamEntry} (h : CoreMove pc (.hand entry) pc') :
    ∃ delivery, pc = .Hand entry delivery := by
  cases h
  exact ⟨_, rfl⟩

theorem hand_counts {core : SessionCore} {entry : StreamEntry}
    (h : CoreMove core.pc (.hand entry) pc') : 0 < core.held.count entry.id := by
  obtain ⟨delivery, hp⟩ := hand_pc h
  simp [SessionCore.held, hp, CorePc.held]

theorem waiting_counts {entry : StreamEntry} (h : CoreMove s.core.pc (.hand entry) pc')
    (hm : entry.id ∈ s.waiting) : 2 ≤ s.core.held.count entry.id := by
  obtain ⟨delivery, hp⟩ := hand_pc h
  have hw : 0 < delivery.held.count entry.id ∨ 0 < (queued s.core.recovered).count entry.id := by
    unfold State.waiting at hm
    rw [hp] at hm
    rcases mem_append.mp hm with hb | hq
    · cases delivery with
      | Batch pending acks =>
        exact .inl (count_pos_iff.mpr (mem_append_left _ hb))
      | Recovered c => cases hb
    · exact .inr (count_pos_iff.mpr hq)
  simp only [SessionCore.held, hp, CorePc.held, count_append, count_cons_self]
  omega

/-- In every run whose XAUTOCLAIMs are answered only with entries that the session does not hold,
whatever it hands to the pipeline is not in flight, is not waiting, and was not acknowledged. -/
theorem own_work_is_delivered_once (params : StreamConsumerParams) (policy : NetworkRetryPolicy)
    (server : Server) (w w' : World) (entry : StreamEntry)
    (h : Runs.Reach (world_step params policy) (fun w event => claims_only_others w event = true)
      (.start server) w)
    (hstep : world_step params policy w (.session (.core (.hand entry))) = some w') :
    outstanding w.session.log = none ∧ entry.id ∉ w.session.waiting ∧ entry.id ∉ w.settled := by
  have ha : Apart w := h.invariant (apart_start server) fun hw hok hs => hw.step hok hs
  have hb : Accounted w.session := by
    refine h.invariant (P := fun w => Accounted w.session) accounted_start ?_
    intro t u e ht _ hs
    rcases session_of_world hs with hsa | ⟨event, hse⟩
    · exact hsa ▸ ht
    · exact ht.step hse
  obtain ⟨pc', hm⟩ := hand_of_world hstep
  obtain ⟨hc, hh, -⟩ := carries_of_hand hm
  refine ⟨hb.free (gone_of_move hm) hc (.inr hh), ?_, ?_⟩
  · intro hme
    have ho := ha.once entry.id
    have htw := waiting_counts hm hme
    simp only [World.held, State.held, count_append] at ho
    omega
  · intro hme
    have hhe : entry.id ∈ w.held := by
      have hp := hand_counts hm
      simp only [World.held, State.held, mem_append]
      exact .inr (.inr (count_pos_iff.mp hp))
    exact (ha.settled_away entry.id hme).1 hhe

/-- The session connects, runs its first recovery pass, which claims the entries, and delivers
them. -/
def greeting (claimed : List StreamEntry) (counts : List (Option Nat)) : List WorldEvent :=
  [.session (.task (.token false)), .session (.task (.dial .Connected)),
    .session (.task (.send .Connected)), .session (.core .idle), .session (.core (.token false)),
    .session (.core (.clock 0)), .session (.core (.message (some .Connected))),
    .session (.core (.clock 0)), .session (.core (.token false)), .session (.core (.token false)),
    .session (.core (.dial .Connected)), .session (.core (.token false)), .autoclaim claimed,
    .session (.core (.claimed claimed)), .session (.core (.token false)),
    .session (.core (.recovered counts "0-0"))]

/-- The soup is in flight for so long that the next pass claims it. It completes and is
acknowledged, and the claimed copy is taken from the queue. -/
def slow_soup : List WorldEvent :=
  greeting [] [] ++
  [.session (.core .idle), .session (.core (.send .BatchDone)),
    .session (.task (.command .BatchDone)), .session (.task (.poll .Read false)), .read [soup],
    .session (.task (.read (.ok (some [soup])))), .session (.task (.send (.Batch [soup]))),
    .session (.core .idle), .session (.core (.token false)), .session (.core (.clock 0)),
    .session (.core (.message (some (.Batch [soup])))), .session (.core (.token false)),
    .session (.core (.hand soup)), .tick, .tick, .session (.core (.token false)),
    .session (.core (.clock 2)), .session (.core (.clock 2)), .session (.core (.token false)),
    .session (.core (.token false)), .autoclaim [soup], .session (.core (.claimed [soup])),
    .session (.core (.token false)), .session (.core (.recovered [some 2] "0-0")),
    .session (.core (.token false)), .session (.core (.clock 2)),
    .session (.core (.outcome .Completed)), .session (.core (.token false)),
    .session (.core (.token false)), .session (.core (.send (.Ack ["1-1"]))),
    .session (.task (.command (.Ack ["1-1"]))), .session (.task (.xack ["1-1"])), .ack .Read,
    .session (.task (.acked (.ok 1))), .session (.task (.reply (.ok 1))),
    .session (.core (.token false)), .session (.core (.clock 2)),
    .session (.core (.reply (some (.ok 1)))), .session (.core (.token false)),
    .session (.core (.send .BatchDone)), .session (.core (.token false))]

/-- A group in which another consumer has left the fish pending. -/
def stale_fish : Server := ⟨2, ["2-2"], [("2-2", 0)], by simp⟩

def quiet_group : Server := ⟨0, [], [], by simp⟩

theorem stale_fish_is_delivered_once :
    ∃ w w' entry, entry.id = "2-2" ∧
      world_step ⟨true, 2⟩ ⟨true, 0, none⟩ w (.session (.core (.hand entry))) = some w' ∧
      entry.id ∉ w.session.waiting ∧ entry.id ∉ w.settled := by
  have hru : ∃ w w', Runs.run (world_step ⟨true, 2⟩ ⟨true, 0, none⟩) claims_only_others
      (.start stale_fish) (greeting [fish] [some 2] ++ [.session (.core (.token false))]) = some w ∧
      world_step ⟨true, 2⟩ ⟨true, 0, none⟩ w
        (.session (.core (.hand { fish with delivery_count := 2 }))) = some w' :=
    ⟨_, _, rfl, rfl⟩
  obtain ⟨w, w', hw, hst⟩ := hru
  have hr : Runs.Reach (world_step ⟨true, 2⟩ ⟨true, 0, none⟩)
      (fun w event => claims_only_others w event = true) (.start stale_fish) w :=
    Runs.reach_of_run (fun _ _ h => h) hw
  obtain ⟨-, hwa, hs⟩ := own_work_is_delivered_once _ _ _ w w' _ hr hst
  exact ⟨w, w', _, rfl, hst, hwa, hs⟩

theorem slow_soup_is_delivered_again :
    ¬∀ (params : StreamConsumerParams) (policy : NetworkRetryPolicy) (server : Server)
      (w w' : World) (entry : StreamEntry),
      Runs.Reach (world_step params policy) (fun _ _ => True) (.start server) w →
      world_step params policy w (.session (.core (.hand entry))) = some w' →
      outstanding w.session.log = none ∧ entry.id ∉ w.session.waiting ∧ entry.id ∉ w.settled := by
  intro h
  have hru : ∃ w w', Runs.run (world_step ⟨true, 2⟩ ⟨true, 0, none⟩) (fun _ _ => true)
      (.start quiet_group) slow_soup = some w ∧
      world_step ⟨true, 2⟩ ⟨true, 0, none⟩ w
        (.session (.core (.hand { soup with delivery_count := 2 }))) = some w' ∧
      w.settled = ["1-1"] := ⟨_, _, rfl, rfl, rfl⟩
  obtain ⟨w, w', hw, hst, hs⟩ := hru
  have hr : Runs.Reach (world_step ⟨true, 2⟩ ⟨true, 0, none⟩) (fun _ _ => True)
      (.start quiet_group) w := Runs.reach_of_run (fun _ _ _ => trivial) hw
  obtain ⟨-, -, hnot⟩ := h _ _ _ w w' _ hr hst
  exact hnot (by simp [hs, soup])

end camel_redis.streams
