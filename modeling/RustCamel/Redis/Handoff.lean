-- The handoff between the read task and the session core. At any time one of the two has the turn,
-- or a message, a command or a reply is on its way to the one that waits for it. So the two never
-- wait for each other, and the acks of a batch come before the next read.
import RustCamel.Redis.AckAfterSuccess

open List Option

namespace camel_redis.streams

variable {params : StreamConsumerParams} {policy : NetworkRetryPolicy} {pc' : CorePc} {pc : CorePc}

/-! ## Turns -/

/-- What the read task is about, as far as the session core can tell. -/
inductive TaskTurn where
  | Working
  | Waiting
  | Acking
  -- about to send the last reply
  | Refusing
  -- about to send the last message
  | Failing
  | Panicked
  | Returned
  deriving DecidableEq

/-- What the session core is about, as far as the read task can tell. -/
inductive CoreTurn where
  | Receiving
  | Handling
  | Acking
  | Leaving

def TaskPc.turn : TaskPc → TaskTurn
  | .Top _ | .Dialling _ | .Greeting | .Selecting | .Blocked | .Reporting _ => .Working
  | .AwaitingStart | .Settling => .Waiting
  | .Acking _ | .AwaitingAck _ | .AckTop _ | .AckDialling _ | .Replying _ false => .Acking
  | .Replying _ true => .Refusing
  | .Failing _ => .Failing
  | .Panicked _ => .Panicked
  | .Returned => .Returned

def Caller.turn : Caller → CoreTurn
  | .Loop => .Receiving
  | .Connected => .Handling

def Delivery.turn : Delivery → CoreTurn
  | .Batch _ _ => .Handling
  | .Recovered caller => caller.turn

def Awaited.turn : Awaited → CoreTurn
  | .Message => .Receiving
  | .Outcome _ delivery => delivery.turn
  | .Reply => .Acking

def Pass.turn : Pass → CoreTurn
  | .Deadline awaited => awaited.turn
  | .Connected => .Handling

def Reconnect.turn : Reconnect → CoreTurn
  | .Pass pass => pass.turn
  | .Ack caller => caller.turn

def CorePc.turn : CorePc → CoreTurn
  | .Drain caller => caller.turn
  | .Hand _ delivery => delivery.turn
  | .Wait awaited _ => awaited.turn
  | .PassStart pass | .PassTop pass | .Recover pass _ _ => pass.turn
  | .ConnectTop reason | .Connect reason => reason.turn
  | .RecoveredDone _ caller | .RecoverAck _ caller | .AwaitingRecoverAck _ caller
  | .RecoveredGone caller => caller.turn
  | .BatchNext _ _ | .BatchDelivered _ | .SendAck _ | .AckFailed _ | .BatchSettled
  | .SendDone => .Handling
  | .Fail _ | .Returned _ | .Dropped => .Leaving

/-- The move touches no channel. -/
def TaskLabel.silent : TaskLabel → Bool
  | .send _ | .command _ | .reply _ => false
  | _ => true

def CoreLabel.silent : CoreLabel → Bool
  | .message _ | .reply _ | .send _ => false
  | _ => true

/-- What the moves of the read task do to its turn. -/
inductive TaskTurnMove : TaskTurn → TaskLabel → TaskTurn → Prop
  | works {l} (h : l.silent = true) : TaskTurnMove .Working l .Working
  | fails {l} (h : l.silent = true) : TaskTurnMove .Working l .Failing
  | reports {m} : TaskTurnMove .Working (.send m) .Waiting
  | resumes : TaskTurnMove .Waiting (.command .BatchDone) .Working
  | takes {ids} : TaskTurnMove .Waiting (.command (.Ack ids)) .Acking
  | refuses {ids} : TaskTurnMove .Waiting (.command (.Ack ids)) .Refusing
  | acks {l} (h : l.silent = true) : TaskTurnMove .Acking l .Acking
  | rejects {l} (h : l.silent = true) : TaskTurnMove .Acking l .Refusing
  | replies {r} : TaskTurnMove .Acking (.reply r) .Waiting
  | last_reply {r} : TaskTurnMove .Refusing (.reply r) .Returned
  | last_message {m} : TaskTurnMove .Failing (.send m) .Returned
  | panic_message {m} : TaskTurnMove .Panicked (.send m) .Returned
  | leaves {t l} (h : l.silent = true) : TaskTurnMove t l .Returned

/-- What the moves of the session core do to its turn. -/
inductive CoreTurnMove : CoreTurn → CoreLabel → CoreTurn → Prop
  | stays {t l} (h : l.silent = true) : CoreTurnMove t l t
  | receives {m} : CoreTurnMove .Receiving (.message (some m)) .Handling
  | hears_the_end {m} : CoreTurnMove .Receiving (.message m) .Leaving
  | asks {ids} : CoreTurnMove .Handling (.send (.Ack ids)) .Acking
  | hears {r} : CoreTurnMove .Acking (.reply r) .Handling
  | hears_nothing {r} : CoreTurnMove .Acking (.reply r) .Leaving
  | gives_back : CoreTurnMove .Handling (.send .BatchDone) .Receiving
  | leaves {t l} (h : l.silent = true) : CoreTurnMove t l .Leaving

theorem turn_of_task_move {pc pc' : TaskPc} {label : TaskLabel} (h : TaskMove pc label pc') :
    TaskTurnMove pc.turn label pc'.turn := by
  cases h
  case dialled_again => exact .works rfl
  case dialled_first => exact .works rfl
  all_goals first
    | exact .works rfl
    | exact .fails rfl
    | exact .acks rfl
    | exact .rejects rfl
    | exact .leaves rfl
    | constructor

@[simp] theorem turn_drained (c : Caller) : (SessionCore.drained c).turn = c.turn := by
  cases c <;> rfl

@[simp] theorem turn_pass_completed (p : Pass) : (SessionCore.pass_completed p).turn = p.turn := by
  unfold SessionCore.pass_completed
  split <;> rfl

theorem turn_wait_cancelled (a : Awaited) :
    (SessionCore.wait_cancelled a).turn = a.turn ∨
      (SessionCore.wait_cancelled a).turn = .Leaving := by
  unfold SessionCore.wait_cancelled
  split
  · exact .inl (turn_drained _)
  · exact .inr rfl

theorem turn_pass_cancelled (p : Pass) :
    (SessionCore.pass_cancelled p).turn = p.turn ∨
      (SessionCore.pass_cancelled p).turn = .Leaving := by
  cases p with
  | Deadline a => exact turn_wait_cancelled a
  | Connected => exact .inr rfl

theorem turn_connect_cancelled (r : Reconnect) :
    (SessionCore.connect_cancelled r).turn = r.turn ∨
      (SessionCore.connect_cancelled r).turn = .Leaving := by
  cases r with
  | Pass p => exact turn_pass_cancelled p
  | Ack c => exact .inl (turn_drained c)

theorem CoreTurnMove.of_or {t t' : CoreTurn} {l : CoreLabel} (h : l.silent = true)
    (ht : t' = t ∨ t' = .Leaving) : CoreTurnMove t l t' := by
  rcases ht with rfl | rfl
  · exact .stays h
  · exact .leaves h

theorem turn_of_core_move {label : CoreLabel} (h : CoreMove pc label pc') :
    CoreTurnMove pc.turn label pc'.turn := by
  cases h
  case wait_stops a => exact .of_or rfl (turn_wait_cancelled a)
  case pass_stops p => exact .of_or rfl (turn_pass_cancelled p)
  case recover_stops p es => exact .of_or rfl (turn_pass_cancelled p)
  case connect_stops r => exact .of_or rfl (turn_connect_cancelled r)
  case recovers p es counts cursor => exact .of_or rfl (.inl (turn_pass_completed p))
  case connects r => cases r <;> exact .stays rfl
  case drain_ends c => exact .of_or rfl (.inl (turn_drained c))
  case drain_stops c => exact .of_or rfl (.inl (turn_drained c))
  case ack_stops i c => exact .of_or rfl (.inl (turn_drained c))
  case gone_stops c => exact .of_or rfl (.inl (turn_drained c))
  all_goals first
    | exact .stays rfl
    | exact .leaves rfl
    | exact .receives
    | exact .hears_the_end
    | exact .hears
    | exact .hears_nothing
    | exact .asks
    | exact .gives_back

/-! ## The handoff -/

/-- Who has the turn, and what is on its way. -/
inductive Handoff : TaskTurn → CoreTurn → List ReadTaskMsg → List ReadTaskCmd → Reply → Prop
  | working {r} : Handoff .Working .Receiving [] [] r
  | reported {m r} : Handoff .Waiting .Receiving [m] [] r
  | handling {r} : Handoff .Waiting .Handling [] [] r
  | asked {ids} : Handoff .Waiting .Acking [] [.Ack ids] .Open
  | acking : Handoff .Acking .Acking [] [] .Open
  | answered {x} : Handoff .Waiting .Acking [] [] (.Sent x)
  | given_back {r} : Handoff .Waiting .Receiving [] [.BatchDone] r
  | refusing : Handoff .Refusing .Acking [] [] .Open
  | failing {r} : Handoff .Failing .Receiving [] [] r
  | panicked {c ms r} (hm : ms.length ≤ 1) (hr : r ≠ .Open) : Handoff .Panicked c ms [] r
  | returned {c ms r} (hm : ms.length ≤ 2) (hr : r ≠ .Open) : Handoff .Returned c ms [] r
  | left {t ms cs r} (h : cs = [] ∨ t = .Waiting ∧ ∃ c, cs = [c]) : Handoff t .Leaving ms cs r

def State.Handoff (s : State) : Prop :=
  streams.Handoff s.task.pc.turn s.core.pc.turn s.messages s.commands s.reply

theorem Reply.drop_ne_open (r : Reply) : r.drop ≠ .Open := by
  cases r <;> simp [Reply.drop]

variable {t : TaskTurn} {c : CoreTurn} {ms : List ReadTaskMsg} {cs : List ReadTaskCmd} {r : Reply}
  {ms' : List ReadTaskMsg} {cs' : List ReadTaskCmd} {r' : Reply} {cmd : ReadTaskCmd} {s : State}
  {t' : TaskTurn} {c' : CoreTurn}

theorem Handoff.close (h : Handoff t c ms cs r) : Handoff .Returned c ms [] r.drop := by
  cases h
  case returned hm hr => exact .returned hm (Reply.drop_ne_open r)
  case panicked hm hr => exact .returned (by omega) (Reply.drop_ne_open r)
  case left h => exact .left (.inl rfl)
  all_goals exact .returned (by simp) (Reply.drop_ne_open _)

def TaskLabel.channels (label : TaskLabel) (ms ms' : List ReadTaskMsg) (cs cs' : List ReadTaskCmd)
    (r r' : Reply) : Prop :=
  match label with
  | .send m => ms' = ms ++ [m] ∧ cs' = cs ∧ r' = r
  | .command c => ms' = ms ∧ cs = c :: cs' ∧ r' = r
  | .reply x => ms' = ms ∧ cs' = cs ∧ r' = .Sent x
  | _ => ms' = ms ∧ cs' = cs ∧ r' = r

theorem TaskLabel.channels_silent {label : TaskLabel} (hs : label.silent = true)
    (h : label.channels ms ms' cs cs' r r') : ms' = ms ∧ cs' = cs ∧ r' = r := by
  cases label <;> first | exact h | cases hs

/-- A command on its way is the only one, and nothing else is on its way. -/
theorem Handoff.command (h : Handoff .Waiting c ms (cmd :: cs) r) :
    cs = [] ∧ (c = .Leaving ∨ (c = .Receiving ∧ cmd = .BatchDone ∧ ms = []) ∨
      (c = .Acking ∧ (∃ ids, cmd = .Ack ids) ∧ ms = [] ∧ r = .Open)) := by
  cases h
  case asked ids => exact ⟨rfl, .inr (.inr ⟨rfl, ⟨ids, rfl⟩, rfl, rfl⟩)⟩
  case given_back => exact ⟨rfl, .inr (.inl ⟨rfl, rfl, rfl⟩)⟩
  case left h =>
    rcases h with h | ⟨-, x, h⟩
    · cases h
    · exact ⟨(List.cons.inj h).2, .inl rfl⟩

theorem Handoff.task {label : TaskLabel} (h : Handoff t c ms cs r)
    (hmo : TaskTurnMove t label t') (hc : label.channels ms ms' cs cs' r r') :
    (t' = .Returned ∧ Handoff .Returned c ms' [] r'.drop) ∨
      (t' ≠ .Returned ∧ t' ≠ .Panicked ∧ Handoff t' c ms' cs' r') := by
  cases hmo
  case leaves hs =>
    obtain ⟨rfl, rfl, rfl⟩ := TaskLabel.channels_silent hs hc
    exact .inl ⟨rfl, h.close⟩
  case works hs | acks hs =>
    obtain ⟨rfl, rfl, rfl⟩ := TaskLabel.channels_silent hs hc
    exact .inr ⟨by simp, by simp, h⟩
  case fails hs | rejects hs =>
    obtain ⟨rfl, rfl, rfl⟩ := TaskLabel.channels_silent hs hc
    refine .inr ⟨by simp, by simp, ?_⟩
    cases h with
    | left h => exact .left (.inl (h.resolve_right (by simp)))
    | _ => constructor
  case reports m | replies x =>
    obtain ⟨rfl, rfl, rfl⟩ := hc
    refine .inr ⟨by simp, by simp, ?_⟩
    cases h with
    | left h => exact .left (.inl (h.resolve_right (by simp)))
    | _ => constructor
  case resumes =>
    obtain ⟨rfl, rfl, rfl⟩ := hc
    refine .inr ⟨by simp, by simp, ?_⟩
    obtain ⟨rfl, rfl | ⟨rfl, -, rfl⟩ | ⟨-, ⟨ids, hi⟩, -⟩⟩ := h.command
    · exact .left (.inl rfl)
    · exact .working
    · cases hi
  case takes ids | refuses ids =>
    obtain ⟨rfl, rfl, rfl⟩ := hc
    refine .inr ⟨by simp, by simp, ?_⟩
    obtain ⟨rfl, rfl | ⟨-, hcm, -⟩ | ⟨rfl, -, rfl, rfl⟩⟩ := h.command
    · exact .left (.inl rfl)
    · cases hcm
    · constructor
  case last_reply x =>
    obtain ⟨rfl, rfl, rfl⟩ := hc
    refine .inl ⟨rfl, ?_⟩
    cases h
    case refusing => exact .returned (by simp) (by simp [Reply.drop])
    case left h => exact .left (.inl rfl)
  case last_message m =>
    obtain ⟨rfl, rfl, rfl⟩ := hc
    refine .inl ⟨rfl, ?_⟩
    cases h
    case failing => exact .returned (by simp) (Reply.drop_ne_open _)
    case left h => exact .left (.inl rfl)
  case panic_message m =>
    obtain ⟨rfl, rfl, rfl⟩ := hc
    refine .inl ⟨rfl, ?_⟩
    cases h
    case panicked hm hr => exact .returned (by simpa using hm) (Reply.drop_ne_open _)
    case left h => exact .left (.inl rfl)

/-- What a move of the session core does to the channels. -/
def CoreLabel.channels (label : CoreLabel) (ms ms' : List ReadTaskMsg) (cs cs' : List ReadTaskCmd)
    (r r' : Reply) : Prop :=
  match label with
  | .message (some m) => ms = m :: ms' ∧ cs' = cs ∧ r' = r
  | .send c => ms' = ms ∧ cs' = cs ++ [c] ∧ r' = if c = .BatchDone then r else .Open
  | _ => ms' = ms ∧ cs' = cs ∧ r' = r

theorem CoreLabel.channels_silent {label : CoreLabel} (hs : label.silent = true)
    (h : label.channels ms ms' cs cs' r r') : ms' = ms ∧ cs' = cs ∧ r' = r := by
  cases label <;> first | exact h | cases hs

theorem Handoff.leave (h : Handoff t c ms cs r) : Handoff t .Leaving ms' cs r := by
  apply Handoff.left
  cases h
  case left h => exact h
  case asked => exact .inr ⟨rfl, _, rfl⟩
  case given_back => exact .inr ⟨rfl, _, rfl⟩
  all_goals exact .inl rfl

/-- The session core keeps the handoff. It sends only to a read task that is still there. -/
theorem Handoff.core {label : CoreLabel} (h : Handoff t c ms cs r)
    (hmo : CoreTurnMove c label c') (hc : label.channels ms ms' cs cs' r r')
    (hsend : ∀ cmd, label = .send cmd → t ≠ .Panicked ∧ t ≠ .Returned)
    (hh : ∀ x, label = .reply x → r ≠ .Open) : Handoff t c' ms' cs' r' := by
  cases hmo
  case stays hs =>
    obtain ⟨rfl, rfl, rfl⟩ := CoreLabel.channels_silent hs hc
    exact h
  case leaves hs =>
    obtain ⟨rfl, rfl, rfl⟩ := CoreLabel.channels_silent hs hc
    exact h.leave
  case receives m =>
    obtain ⟨rfl, rfl, rfl⟩ := hc
    cases h
    case reported => exact .handling
    case panicked hm hr => exact .panicked (Nat.le_of_succ_le hm) hr
    case returned hm hr => exact .returned (Nat.le_of_succ_le hm) hr
  case hears_the_end m =>
    cases m with
    | none | some m =>
      obtain ⟨rfl, rfl, rfl⟩ := hc
      exact h.leave
  case asks ids =>
    obtain ⟨rfl, rfl, rfl⟩ := hc
    obtain ⟨hp, hre⟩ := hsend _ rfl
    cases h
    case handling => exact .asked
    case panicked => exact absurd rfl hp
    case returned => exact absurd rfl hre
  case gives_back =>
    obtain ⟨rfl, rfl, rfl⟩ := hc
    obtain ⟨hp, hre⟩ := hsend _ rfl
    cases h
    case handling => exact .given_back
    case panicked => exact absurd rfl hp
    case returned => exact absurd rfl hre
  case hears x =>
    obtain ⟨rfl, rfl, rfl⟩ := hc
    have ho := hh x rfl
    cases h
    case answered => exact .handling
    case panicked hm hr => exact .panicked hm hr
    case returned hm hr => exact .returned hm hr
    all_goals exact absurd rfl ho
  case hears_nothing x =>
    obtain ⟨rfl, rfl, rfl⟩ := hc
    exact h.leave

/-! ## Sessions keep the handoff -/

theorem task_effect_channels {t : State} {label : TaskLabel} (h : s.task_effect label = some t) :
    label.channels s.messages t.messages s.commands t.commands s.reply t.reply := by
  cases label <;> simp only [State.task_effect, State.look] at h
  all_goals
    repeat' split at h
    all_goals first
      | (cases h
         simp_all [State.record, TaskLabel.channels])
      | cases h

theorem core_effect_channels {t : State} {label : CoreLabel} (h : s.core_effect label = some t) :
    t.task = s.task ∧ label.channels s.messages t.messages s.commands t.commands s.reply t.reply ∧
      (∀ cmd, label = .send cmd → s.task.pc.gone = false) ∧
      (∀ x, label = .reply x → s.reply ≠ .Open) := by
  cases label
  case' message received => cases received
  case' reply received => cases received
  case outcome =>
    obtain ⟨carried, -, rfl⟩ := map_eq_some_iff.mp h
    simp [State.record, CoreLabel.channels]
  all_goals
    simp only [State.core_effect, State.look] at h
    repeat' split at h
    all_goals first
      | (cases h
         simp_all [State.record, CoreLabel.channels])
      | cases h

theorem gone_iff_turn (pc : TaskPc) :
    pc.gone = true ↔ pc.turn = .Panicked ∨ pc.turn = .Returned := by
  cases pc <;> simp [TaskPc.gone, TaskPc.turn]
  case Replying reply stop => cases stop <;> simp

theorem State.Handoff.put_task {s : State} {task : ReadTask}
    (h : (task.pc.turn = .Returned ∧
        streams.Handoff .Returned s.core.pc.turn s.messages [] s.reply.drop) ∨
      (task.pc.turn ≠ .Returned ∧ task.pc.turn ≠ .Panicked ∧
        streams.Handoff task.pc.turn s.core.pc.turn s.messages s.commands s.reply)) :
    (s.put_task task).Handoff := by
  unfold State.put_task State.Handoff
  rcases h with ⟨ht, h⟩ | ⟨hr, hp, h⟩
  · rw [if_pos ((gone_iff_turn _).mpr (.inr ht))]
    simpa only [State.close, ht] using h
  · have hl : ¬ task.pc.gone = true := by
      rw [gone_iff_turn]
      exact fun hg => hg.elim hp hr
    rw [if_neg hl]
    exact h

theorem Handoff.panic (h : Handoff t c ms cs r) (hl : t ≠ .Returned) :
    Handoff .Panicked c ms [] r.drop := by
  cases h
  case returned hm hr => exact absurd rfl hl
  case panicked hm hr => exact .panicked hm (Reply.drop_ne_open r)
  case left h => exact .left (.inl rfl)
  all_goals exact .panicked (by simp) (Reply.drop_ne_open _)

theorem State.Handoff.step {s s' : State} {event : Event} (h : s.Handoff)
    (hs : step params policy s event = some s') : s'.Handoff := by
  rcases step_cases hs with ⟨-, -, rfl⟩ | ⟨label, task, t, -, hn, he, rfl⟩ |
    ⟨label, core, t, -, hn, he, rfl⟩ | ⟨payload, -, hli, rfl⟩ | ⟨-, -, rfl⟩ | ⟨-, -, rfl⟩
  · exact h
  · apply State.Handoff.put_task
    rw [(task_effect_spec he).1]
    exact streams.Handoff.task h (turn_of_task_move (ReadTask.next_move hn))
      (task_effect_channels he)
  · obtain ⟨ht, hc, hsend, hh⟩ := core_effect_channels he
    unfold State.Handoff
    simp only [ht]
    refine streams.Handoff.core h (turn_of_core_move (SessionCore.next_move hn)) hc ?_
      hh
    intro cmd hl
    have hli := hsend cmd hl
    constructor
    · intro htu
      simp [(gone_iff_turn _).mpr (.inl htu)] at hli
    · intro htu
      simp [(gone_iff_turn _).mpr (.inr htu)] at hli
  · have hr : s.task.pc.turn ≠ .Returned := by
      intro htu
      simp [(gone_iff_turn _).mpr (.inr htu)] at hli
    exact streams.Handoff.panic h hr
  · apply State.Handoff.put_task
    exact .inl ⟨rfl, streams.Handoff.close h⟩
  · exact streams.Handoff.leave h

/-! ## Acks before the next read -/

def Act.completed_id : Act → Option String
  | .Observed .Read id .Completed => some id
  | _ => none

def Act.acked_ids : Act → List String
  | .Xack .Read ids => ids
  | _ => []

/-- The ids of the read deliveries that completed, in order. -/
def completed_ids (log : List Act) : List String := log.filterMap Act.completed_id

/-- The ids of the XACKs on the read connection, in order. -/
def acked_ids (log : List Act) : List String := log.flatMap Act.acked_ids

/-- A read comes only when all that completed is acknowledged. -/
def ReadsClear (before : List Act) : Act → Prop
  | .Xreadgroup => completed_ids before = acked_ids before
  | _ => True

def TaskTurn.live : TaskTurn → Bool
  | .Working | .Waiting | .Acking => true
  | _ => false

/-- The ids a move asks the read task to acknowledge. -/
def CoreLabel.asked : CoreLabel → List String
  | .send (.Ack ids) => ids
  | _ => []

theorem task_ids_in_order {pc pc' : TaskPc} {label : TaskLabel} (h : TaskMove pc label pc')
    (hl : pc'.turn.live = true) : pc.ids ++ label.taken = label.acknowledges ++ pc'.ids := by
  cases h
  case early_ack => cases hl
  all_goals simp [TaskPc.ids, TaskLabel.taken, TaskLabel.acknowledges, ReadTaskCmd.ids]

theorem hoped_of_wait_cancelled {a : Awaited}
    (h : (SessionCore.wait_cancelled a).turn ≠ .Leaving) (poll : Poll) :
    (CorePc.Wait a poll).hoped .Read = [] := by
  unfold SessionCore.wait_cancelled at h
  split at h
  · rfl
  · exact absurd rfl h

theorem hoped_of_pass_cancelled {p : Pass}
    (h : (SessionCore.pass_cancelled p).turn ≠ .Leaving) : (CorePc.PassTop p).hoped .Read = [] := by
  cases p with
  | Deadline a => exact hoped_of_wait_cancelled h .Cancelled
  | Connected => rfl

theorem nothing_hoped_of_stops (h : CoreMove pc (.token true) pc')
    (hg : pc'.turn ≠ .Leaving) : pc.owed .Read = [] ∧ pc.hoped .Read = [] := by
  cases h
  case wait_stops a => exact ⟨rfl, hoped_of_wait_cancelled hg .Cancelled⟩
  case pass_stops p => exact ⟨rfl, hoped_of_pass_cancelled hg⟩
  case recover_stops p es => exact ⟨rfl, hoped_of_pass_cancelled hg⟩
  case connect_stops r =>
    cases r with
    | Pass p => exact ⟨rfl, hoped_of_pass_cancelled hg⟩
    | Ack c => exact ⟨rfl, rfl⟩
  all_goals first | exact ⟨rfl, rfl⟩ | exact absurd rfl hg

/-- Between the looks at the token no id is lost as long as the session goes on. -/
theorem core_ids_in_order {label : CoreLabel} (h : CoreMove pc label pc')
    (hg : pc'.turn ≠ .Leaving) :
    pc.owed .Read ++ pc.hoped .Read ++ completed_ids (label.shown pc).toList =
      label.asked ++ (pc'.owed .Read ++ pc'.hoped .Read) := by
  by_cases hs : label = .token true
  · subst hs
    obtain ⟨ho, hh⟩ := nothing_hoped_of_stops h hg
    rcases stops h with ⟨c, rfl⟩ | rfl
    · simp [ho, hh, CoreLabel.shown, CoreLabel.asked, completed_ids]
    · exact absurd rfl hg
  · cases h
    case recovers p es counts cursor =>
      rw [owed_pass_completed, hoped_pass_completed]
      exact append_nil _
    case connects r =>
      rw [owed_connected, hoped_connected]
      exact append_nil _
    case drain_ends c =>
      rw [owed_drained, hoped_drained]
      rfl
    case batch_completed e es acks => rfl
    all_goals first
      | exact absurd rfl hs
      | exact absurd rfl hg
      | exact append_nil _
      | exact (append_nil _).trans (append_nil _)
      | rfl

theorem handling_of_completed {label : CoreLabel} (h : CoreMove pc label pc')
    (ht : pc.turn ≠ .Handling) : completed_ids (label.shown pc).toList = [] := by
  cases h
  case batch_completed => exact absurd rfl ht
  all_goals rfl

/-- What the log says of the acks, and what is on its way, agree; and where the read task may read
next, nothing is left to acknowledge. -/
structure InOrder (s : State) : Prop where
  handoff : s.Handoff
  pending : s.core.pc.turn ≠ .Leaving → s.task.pc.turn.live = true →
    completed_ids s.log = acked_ids s.log ++ (s.task.pc.ids ++ s.commands.flatMap ReadTaskCmd.ids ++
      (s.core.pc.owed .Read ++ s.core.pc.hoped .Read))
  clear : s.task.pc.turn = .Working ∨ ReadTaskCmd.BatchDone ∈ s.commands →
    completed_ids s.log = acked_ids s.log
  sound : History.Each ReadsClear s.log

theorem in_order_start : InOrder start where
  handoff := .working
  pending := fun _ _ => rfl
  clear := fun _ => rfl
  sound := History.each_nil

theorem ids_of_turn {pc : TaskPc} (h : pc.turn ≠ .Acking) : pc.ids = [] := by
  cases pc <;> first | rfl | exact absurd rfl h

theorem acknowledges_of_turn {pc pc' : TaskPc} {label : TaskLabel} (h : TaskMove pc label pc')
    (ht : pc.turn ≠ .Acking) : label.acknowledges = [] := by
  cases h
  case xacks => exact absurd rfl ht
  all_goals rfl

theorem live_of_task_move {label : TaskLabel} (h : TaskTurnMove t label t')
    (hl : t'.live = true) : t.live = true := by
  cases h <;> first | rfl | cases hl

theorem goes_on_of_core_move {label : CoreLabel} (h : CoreTurnMove c label c')
    (hg : c' ≠ .Leaving) : c ≠ .Leaving := by
  cases h
  case stays => exact hg
  all_goals simp_all

theorem Handoff.may_read (h : Handoff t c ms cs r)
    (hr : t = .Working ∨ ReadTaskCmd.BatchDone ∈ cs) : c ≠ .Handling ∧ t ≠ .Acking := by
  cases h <;> simp_all
  case left h =>
    intro ha
    simp_all

theorem task_log {t : State} {label : TaskLabel} (h : s.task_effect label = some t) :
    completed_ids t.log = completed_ids s.log ∧
      acked_ids t.log = acked_ids s.log ++ label.acknowledges := by
  obtain ⟨-, -, -, hl⟩ := task_effect_spec h
  rw [hl]
  unfold completed_ids acked_ids
  rw [filterMap_append, flatMap_append]
  cases label
  case poll first fired =>
    simp only
    split <;> simp [Act.completed_id, Act.acked_ids, TaskLabel.acknowledges]
  all_goals simp [Act.completed_id, Act.acked_ids, TaskLabel.acknowledges]

theorem acked_shown (pc : CorePc) (label : CoreLabel) : acked_ids (label.shown pc).toList = [] := by
  cases hs : label.shown pc with
  | none => rfl
  | some act =>
    cases label <;> simp only [CoreLabel.shown] at hs
    case outcome seen =>
      obtain ⟨carried, -, rfl⟩ := map_eq_some_iff.mp hs
      rfl
    all_goals cases hs
    all_goals rfl

theorem put_task_live {task : ReadTask} (hl : task.pc.turn.live = true) :
    s.put_task task = { s with task } := by
  unfold State.put_task
  rw [if_neg]
  rw [gone_iff_turn]
  intro hg
  rcases hg with hg | hg <;> simp [hg, TaskTurn.live] at hl

theorem mem_commands_of_put_task {task : ReadTask} (h : cmd ∈ (s.put_task task).commands) :
    cmd ∈ s.commands := by
  unfold State.put_task at h
  split at h
  · cases h
  · exact h

theorem put_task_task (s : State) (task : ReadTask) : (s.put_task task).task = task := by
  unfold State.put_task
  split <;> rfl

theorem mem_commands_of_effect {t : State} {label : TaskLabel} (h : s.task_effect label = some t)
    (hm : cmd ∈ t.commands) : cmd ∈ s.commands := by
  have hc := task_effect_channels h
  cases label
  case command c =>
    obtain ⟨-, hco, -⟩ := hc
    rw [hco]
    exact .tail _ hm
  case send m =>
    obtain ⟨-, hco, -⟩ := hc
    exact hco ▸ hm
  case reply x =>
    obtain ⟨-, hco, -⟩ := hc
    exact hco ▸ hm
  all_goals
    obtain ⟨-, hco, -⟩ := TaskLabel.channels_silent rfl hc
    exact hco ▸ hm

theorem may_read_before {t : State} {label : TaskLabel} {task : ReadTask}
    (hmo : TaskMove s.task.pc label task.pc) (he : s.task_effect label = some t)
    (hr : (t.put_task task).task.pc.turn = .Working ∨
      ReadTaskCmd.BatchDone ∈ (t.put_task task).commands) :
    s.task.pc.turn = .Working ∨ ReadTaskCmd.BatchDone ∈ s.commands := by
  rcases hr with ht | hme
  · rw [put_task_task] at ht
    have hm := turn_of_task_move hmo
    rw [ht] at hm
    generalize hb : s.task.pc.turn = before at hm
    cases hm
    · exact .inl rfl
    · obtain ⟨-, hc, -⟩ := task_effect_channels he
      exact .inr (by simp [hc])
  · exact .inr (mem_commands_of_effect he (mem_commands_of_put_task hme))

theorem working_of_poll {pc pc' : TaskPc} {first : Branch} {fired : Bool}
    (h : TaskMove pc (.poll first fired) pc') : pc.turn = .Working := by
  cases h <;> rfl

theorem InOrder.task {s t : State} {label : TaskLabel} {task : ReadTask} (h : InOrder s)
    (hm : TaskMove s.task.pc label task.pc) (he : s.task_effect label = some t)
    (hh : (t.put_task task).Handoff) : InOrder (t.put_task task) := by
  obtain ⟨hcor, -, hc, hlo⟩ := task_effect_spec he
  obtain ⟨hco, ha⟩ := task_log he
  refine ⟨hh, ?_, ?_, ?_⟩
  · intro hg hl
    rw [put_task_task] at hl
    rw [put_task_live hl] at hg ⊢
    simp only [hcor] at hg ⊢
    have hb := h.pending hg (live_of_task_move (turn_of_task_move hm) hl)
    have hi := task_ids_in_order hm hl
    rw [hco, ha, hb, hc]
    simp only [append_assoc, append_cancel_left_eq]
    simp only [← append_assoc, hi]
  · intro hr
    have hr' := may_read_before hm he hr
    obtain ⟨-, ht⟩ := streams.Handoff.may_read h.handoff hr'
    rw [put_task_log, hco, ha, acknowledges_of_turn hm ht, append_nil]
    exact h.clear hr'
  · rw [put_task_log, hlo]
    cases label
    case poll first fired =>
      simp only
      split
      · simpa using h.sound
      · refine History.each_append_one.mpr ⟨h.sound, ?_⟩
        exact h.clear (.inl (working_of_poll hm))
    case xack ids => exact History.each_append_one.mpr ⟨h.sound, trivial⟩
    all_goals simpa using h.sound

theorem commands_of_core {label : CoreLabel} (h : label.channels ms ms' cs cs' r r') :
    (∃ cmd, label = .send cmd ∧ cs' = cs ++ [cmd]) ∨ ((∀ cmd, label ≠ .send cmd) ∧ cs' = cs) := by
  cases label
  case send cmd => exact .inl ⟨cmd, rfl, h.2.1⟩
  case message received =>
    cases received
    all_goals exact .inr ⟨by simp, h.2.1⟩
  all_goals exact .inr ⟨by simp, h.2.1⟩

/-- While the session core handles a message, a read task that is there waits. -/
theorem Handoff.waiting (h : Handoff t .Handling ms cs r) (hl : ¬(t = .Panicked ∨ t = .Returned)) :
    t = .Waiting ∧ cs = [] := by
  cases h
  case handling => exact ⟨rfl, rfl⟩
  case panicked => exact absurd (.inl rfl) hl
  case returned => exact absurd (.inr rfl) hl

theorem send_done_of_move (h : CoreMove pc (.send .BatchDone) pc') : pc = .SendDone := by
  cases h
  rfl

theorem InOrder.gives_back (h : InOrder s) (hm : CoreMove s.core.pc (.send .BatchDone) pc')
    (hl : s.task.pc.gone = false) : completed_ids s.log = acked_ids s.log := by
  have hpc := send_done_of_move hm
  have hg : ¬(s.task.pc.turn = .Panicked ∨ s.task.pc.turn = .Returned) := by
    rw [← gone_iff_turn]
    simp [hl]
  have hh := h.handoff
  unfold State.Handoff at hh
  rw [hpc] at hh
  obtain ⟨ht, hc⟩ := hh.waiting hg
  have hp := h.pending (by simp [hpc, CorePc.turn]) (by simp [ht, TaskTurn.live])
  have hi : s.task.pc.ids = [] := ids_of_turn (by simp [ht])
  simpa [hi, hc, hpc, CorePc.owed, CorePc.hoped, CorePc.carries] using hp

theorem InOrder.core {s t : State} {label : CoreLabel} {core : SessionCore} (h : InOrder s)
    (hm : CoreMove s.core.pc label core.pc) (he : s.core_effect label = some t)
    (hh : ({ t with core } : State).Handoff) : InOrder { t with core } := by
  obtain ⟨-, hlo, -, -⟩ := core_effect_spec he
  obtain ⟨ht, hc, hsend, -⟩ := core_effect_channels he
  have hco : completed_ids t.log =
      completed_ids s.log ++ completed_ids (label.shown s.core.pc).toList := by
    rw [hlo]
    exact filterMap_append
  have ha : acked_ids t.log = acked_ids s.log := by
    rw [hlo]
    unfold acked_ids
    rw [flatMap_append]
    simpa [acked_ids] using acked_shown s.core.pc label
  have hcom : t.commands.flatMap ReadTaskCmd.ids =
      s.commands.flatMap ReadTaskCmd.ids ++ label.asked := by
    rcases commands_of_core hc with ⟨cmd, rfl, hcs⟩ | ⟨hl, hcs⟩
    · rw [hcs, flatMap_append]
      cases cmd <;> simp [CoreLabel.asked, ReadTaskCmd.ids]
    · have has : label.asked = [] := by
        unfold CoreLabel.asked
        split
        · exact absurd rfl (hl _)
        · rfl
      rw [hcs, has, append_nil]
  refine ⟨hh, ?_, ?_, ?_⟩
  · intro hg hli
    have hb := h.pending (goes_on_of_core_move (turn_of_core_move hm) hg) (ht ▸ hli)
    have hi := core_ids_in_order hm hg
    simp only [ht]
    rw [hco, ha, hcom, hb]
    simp only [append_assoc] at hi ⊢
    simp only [append_cancel_left_eq]
    exact hi
  · intro hr
    simp only [ht] at hr
    change completed_ids t.log = acked_ids t.log
    rw [hco, ha]
    by_cases hr' : s.task.pc.turn = .Working ∨ ReadTaskCmd.BatchDone ∈ s.commands
    · obtain ⟨htu, -⟩ := streams.Handoff.may_read h.handoff hr'
      rw [handling_of_completed hm htu, append_nil]
      exact h.clear hr'
    · have hme := hr.resolve_left fun htu => hr' (.inl htu)
      rcases commands_of_core hc with ⟨cmd, rfl, hcs⟩ | ⟨-, hcs⟩
      · have hd : cmd = .BatchDone := by
          rw [hcs] at hme
          rcases mem_append.mp hme with hme | hme
          · exact absurd (.inr hme) hr'
          · exact (mem_singleton.mp hme).symm
        subst hd
        simpa [CoreLabel.shown, completed_ids] using h.gives_back hm (hsend _ rfl)
      · exact absurd (.inr (hcs ▸ hme)) hr'
  · change History.Each ReadsClear t.log
    rw [hlo]
    cases hs : label.shown s.core.pc with
    | none => simpa using h.sound
    | some act =>
      refine History.each_append_one.mpr ⟨h.sound, ?_⟩
      cases label <;> simp only [CoreLabel.shown] at hs
      case outcome seen =>
        obtain ⟨carried, -, rfl⟩ := map_eq_some_iff.mp hs
        trivial
      all_goals cases hs
      all_goals trivial

theorem InOrder.ends (h : InOrder s) {task : ReadTask} (hh : (s.put_task task).Handoff)
    (hg : task.pc.gone = true) (hl : task.pc.turn.live = false) :
    InOrder (s.put_task task) := by
  refine ⟨hh, ?_, ?_, ?_⟩
  · intro _ hl'
    rw [put_task_task, hl] at hl'
    cases hl'
  · intro hr
    rcases hr with ht | hm
    · rw [put_task_task] at ht
      simp [ht, TaskTurn.live] at hl
    · simp [State.put_task, hg, State.close] at hm
  · rw [put_task_log]
    exact h.sound

theorem cancelled_log (log : List Act) :
    completed_ids (log ++ [.Cancelled]) = completed_ids log ∧
      acked_ids (log ++ [.Cancelled]) = acked_ids log := by
  unfold completed_ids acked_ids
  rw [filterMap_append, flatMap_append]
  exact ⟨append_nil _, append_nil _⟩

theorem InOrder.step {s s' : State} {event : Event} (h : InOrder s)
    (hs : step params policy s event = some s') : InOrder s' := by
  have hh := h.handoff.step hs
  rcases step_cases hs with ⟨-, -, rfl⟩ | ⟨label, task, t, -, hn, he, rfl⟩ |
    ⟨label, core, t, -, hn, he, rfl⟩ | ⟨payload, -, -, rfl⟩ | ⟨-, -, rfl⟩ | ⟨-, -, rfl⟩
  · refine ⟨hh, ?_, ?_, History.each_append_one.mpr ⟨h.sound, trivial⟩⟩
    · intro hg hl
      obtain ⟨hc, ha⟩ := cancelled_log s.log
      simp only [State.record, hc, ha]
      exact h.pending hg hl
    · intro hr
      obtain ⟨hc, ha⟩ := cancelled_log s.log
      simp only [State.record, hc, ha]
      exact h.clear hr
  · exact h.task (ReadTask.next_move hn) he hh
  · exact h.core (SessionCore.next_move hn) he hh
  · exact h.ends hh rfl rfl
  · exact h.ends hh rfl rfl
  · refine ⟨hh, ?_, h.clear, h.sound⟩
    intro hg
    exact absurd rfl hg

theorem in_order_of_reaches (h : Reaches params policy s) : InOrder s :=
  h.invariant in_order_start fun hs _ hst => hs.step hst

/-! ## No deadlock -/

/-- The read task waits for a command that is not there, or for room. -/
def State.task_waits (s : State) : Bool :=
  !s.core.pc.gone &&
    match s.task.pc with
    | .AwaitingStart | .Settling => s.commands.isEmpty
    | .Greeting | .Reporting _ | .Failing _ | .Panicked _ =>
      s.messages.length ≥ READ_TASK_CHANNEL_CAPACITY
    | _ => false

def State.session_waits (s : State) : Bool :=
  match s.core.pc with
  | .Wait .Message _ =>
    match s.task.pc with
    | .Returned => false
    | _ => s.messages.isEmpty
  | .Wait .Reply _ =>
    match s.reply with
    | .Open => true
    | _ => false
  | .SendAck _ | .SendDone =>
    !s.task.pc.gone && s.commands.length ≥ READ_TASK_CHANNEL_CAPACITY
  | _ => false

theorem task_waits_cases (h : s.task_waits = true) :
    (s.task.pc.turn = .Waiting ∧ s.commands = [] ∧ s.core.pc.gone = false) ∨
      (s.task.pc.turn ≠ .Returned ∧ READ_TASK_CHANNEL_CAPACITY ≤ s.messages.length) := by
  unfold State.task_waits at h
  obtain ⟨hg, h⟩ := Bool.and_eq_true_iff.mp h
  have hl : s.core.pc.gone = false := by simpa using hg
  cases hp : s.task.pc <;> simp only [hp] at h
  case AwaitingStart => exact .inl ⟨rfl, List.isEmpty_iff.mp h, hl⟩
  case Settling => exact .inl ⟨rfl, List.isEmpty_iff.mp h, hl⟩
  case Greeting => exact .inr ⟨by simp [TaskPc.turn], of_decide_eq_true h⟩
  case Reporting => exact .inr ⟨by simp [TaskPc.turn], of_decide_eq_true h⟩
  case Failing => exact .inr ⟨by simp [TaskPc.turn], of_decide_eq_true h⟩
  case Panicked => exact .inr ⟨by simp [TaskPc.turn], of_decide_eq_true h⟩
  all_goals cases h

theorem session_waits_cases (h : s.session_waits = true) :
    (s.core.pc.turn = .Receiving ∧ s.messages = [] ∧ s.task.pc ≠ .Returned) ∨
      (s.core.pc.turn = .Acking ∧ s.reply = .Open) ∨
      (s.core.pc.turn = .Handling ∧ s.task.pc.gone = false ∧
        READ_TASK_CHANNEL_CAPACITY ≤ s.commands.length) := by
  unfold State.session_waits at h
  split at h
  · rename_i hp
    split at h
    · cases h
    · rename_i hnot
      exact .inl ⟨by rw [hp]; rfl, List.isEmpty_iff.mp h, hnot⟩
  · rename_i hp
    split at h
    · rename_i ho
      exact .inr (.inl ⟨by rw [hp]; rfl, ho⟩)
    · cases h
  · rename_i hp
    obtain ⟨hg, hf⟩ := Bool.and_eq_true_iff.mp h
    exact .inr (.inr ⟨by rw [hp]; rfl, by simpa using hg, of_decide_eq_true hf⟩)
  · rename_i hp
    obtain ⟨hg, hf⟩ := Bool.and_eq_true_iff.mp h
    exact .inr (.inr ⟨by rw [hp]; rfl, by simpa using hg, of_decide_eq_true hf⟩)
  · cases h

theorem Handoff.lengths (h : Handoff t c ms cs r) (hg : c ≠ .Leaving) :
    ms.length ≤ 2 ∧ cs.length ≤ 1 := by
  cases h <;> simp_all
  omega

/-- The read task waits for a command only while the session has something to do. -/
theorem Handoff.no_deadlock (h : Handoff t c ms cs r) (ht : t = .Waiting) (hc : cs = []) :
    ¬(c = .Receiving ∧ ms = []) ∧ ¬(c = .Acking ∧ r = .Open) := by
  cases h <;> simp_all

theorem Handoff.reply_of_returned (h : Handoff t c ms cs r) (hr : t = .Returned)
    (hg : c ≠ .Leaving) : r ≠ .Open := by
  cases h <;> simp_all

/-- In no state do the read task and the session core wait for each other, and the session core
never waits for a read task that has returned. At every XREADGROUP the ids the read task has
acknowledged are those of all read deliveries that have completed. -/
theorem handoff_never_deadlocks (params : StreamConsumerParams) (policy : NetworkRetryPolicy)
    (s : State) (h : Reaches params policy s) :
    ¬(s.task_waits = true ∧ s.session_waits = true) ∧
    (s.session_waits = true → s.task.pc ≠ .Returned) ∧
    ∀ before after, s.log = before ++ .Xreadgroup :: after →
      completed_ids before = acked_ids before := by
  have ho := in_order_of_reaches h
  have hh : streams.Handoff _ _ _ _ _ := ho.handoff
  refine ⟨?_, ?_, fun before after hlo => ho.sound before _ after hlo⟩
  · rintro ⟨ht, hs⟩
    have hg : s.core.pc.turn ≠ .Leaving := by
      rcases session_waits_cases hs with ⟨htu, -⟩ | ⟨htu, -⟩ | ⟨htu, -⟩ <;>
        simp [htu]
    obtain ⟨hm, hc⟩ := hh.lengths hg
    rcases task_waits_cases ht with ⟨hw, he, -⟩ | ⟨-, hf⟩
    · obtain ⟨hme, hr⟩ := hh.no_deadlock hw he
      rcases session_waits_cases hs with ⟨htu, hn, -⟩ | ⟨htu, hop⟩ | ⟨-, -, hf⟩
      · exact hme ⟨htu, hn⟩
      · exact hr ⟨htu, hop⟩
      · simp only [READ_TASK_CHANNEL_CAPACITY] at hf
        omega
    · simp only [READ_TASK_CHANNEL_CAPACITY] at hf
      omega
  · intro hs hre
    rcases session_waits_cases hs with ⟨-, -, hnot⟩ | ⟨htu, hop⟩ | ⟨-, hl, -⟩
    · exact hnot hre
    · exact hh.reply_of_returned (by rw [hre]; rfl) (by simp [htu]) hop
    · simp [hre, TaskPc.gone] at hl

/-- One entry is delivered and acknowledged, and the next read is out. -/
def soup_and_read_on : List Event :=
  [.task (.token false), .task (.dial .Connected), .task (.send .Connected),
    .core .idle, .core (.token false), .core (.clock 0), .core (.message (some .Connected)),
    .core (.send .BatchDone), .task (.command .BatchDone), .task (.poll .Read false),
    .task (.read (.ok (some [soup]))), .task (.send (.Batch [soup])),
    .core .idle, .core (.token false), .core (.clock 1), .core (.message (some (.Batch [soup]))),
    .core (.token false), .core (.hand soup), .core (.token false), .core (.clock 2),
    .core (.outcome .Completed), .core (.token false), .core (.token false),
    .core (.send (.Ack ["1-1"])), .task (.command (.Ack ["1-1"])), .task (.xack ["1-1"]),
    .task (.acked (.ok 1)), .task (.reply (.ok 1)), .core (.token false), .core (.clock 3),
    .core (.reply (some (.ok 1))), .core (.token false), .core (.send .BatchDone),
    .task (.command .BatchDone), .task (.poll .Cancelled false), .core .idle]

theorem soup_is_acknowledged_before_the_next_read :
    ∃ s before, Reaches ⟨false, 0⟩ ⟨true, 0, none⟩ s ∧ s.session_waits = true ∧
      s.task_waits = false ∧ s.log = before ++ [.Xreadgroup] ∧
      completed_ids before = ["1-1"] ∧ acked_ids before = ["1-1"] := by
  have hru : ∃ s, Runs.run (step ⟨false, 0⟩ ⟨true, 0, none⟩) (fun _ _ => true) start
      soup_and_read_on = some s ∧ s.session_waits = true ∧
      s.log = [.Xreadgroup, .Handed soup, .Observed .Read "1-1" .Completed,
        .Xack .Read ["1-1"], .Xreadgroup] := ⟨_, rfl, rfl, rfl⟩
  obtain ⟨s, hs, hw, hl⟩ := hru
  have hr : Reaches ⟨false, 0⟩ ⟨true, 0, none⟩ s := Runs.reach_of_run (fun _ _ _ => trivial) hs
  obtain ⟨hf, -, hc⟩ := handoff_never_deadlocks _ _ s hr
  have hco : completed_ids [.Xreadgroup, .Handed soup, .Observed .Read "1-1" .Completed,
      .Xack .Read ["1-1"]] = ["1-1"] := rfl
  refine ⟨s, _, hr, hw, ?_, hl, hco, ?_⟩
  · simpa [hw] using hf
  · exact (hc _ [] hl).symm.trans hco

end camel_redis.streams
