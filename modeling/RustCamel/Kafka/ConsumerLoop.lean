-- The loop of a Kafka consumer (`consumer.rs`) and what the monitor of its task makes of the
-- way it ends. Only one of its exits is an end that nobody asked for and nobody hears of.
import RustCamel.Endpoint.Uri
import RustCamel.Lifecycle.ConsumerFailures
import RustCamel.Redis.StreamSession

namespace camel_kafka

open camel_api (Value Exchange Message Body)
open camel_api.error (CamelError)
open camel_core.lifecycle.consumer_management List Option
open camel_redis.streams (NetworkRetryPolicy)

/-! ## Messages -/

structure ResolvedKafkaEndpointConfig where
  topic : String
  group_id : String
  allow_manual_commit : Bool
  reconnect : NetworkRetryPolicy

structure OwnedMessage where
  topic : String
  partition : Int32
  offset : Int64
  key : Option (List UInt8)
  payload : Option (List UInt8)
  timestamp : Option Int64

/-- A signed integer as `serde_json` keeps it. -/
def number (n : Int64) : Value := .Number (if 0 ≤ n then .PosInt n.toUInt64 else .NegInt n)

def resolve_payload_body (msg : OwnedMessage) : Body :=
  match msg.payload with
  | some bytes =>
    match camel_endpoint.uri.from_utf8 bytes with
    | some text => .Text text
    | none => .Bytes bytes
  | none => .Empty

def set_core_headers (exchange : Exchange) (msg : OwnedMessage) (group_id : String) : Exchange :=
  (((exchange.set_header "CamelKafkaTopic" (.String msg.topic)).set_header
    "CamelKafkaPartition" (number msg.partition.toInt64)).set_header
    "CamelKafkaOffset" (number msg.offset)).set_header "CamelKafkaGroupId" (.String group_id)

def set_timestamp (exchange : Exchange) (msg : OwnedMessage) : Exchange :=
  match msg.timestamp with
  | some ts => exchange.set_header "CamelKafkaTimestamp" (number ts)
  | none => exchange

def build_exchange (msg : OwnedMessage) (group_id : String) : Except CamelError Exchange :=
  let exchange := Exchange.new { Message.default with body := resolve_payload_body msg }
  let exchange := set_core_headers exchange msg group_id
  match msg.key with
  | some key_bytes =>
    match camel_endpoint.uri.from_utf8 key_bytes with
    | some s => .ok (set_timestamp (exchange.set_header "CamelKafkaKey" (.String s)) msg)
    | none => .error (.ProcessorError "non-UTF8 Kafka key not supported")
  | none => .ok (set_timestamp exchange msg)

/-! ## Dispatch -/

/-- What the pipeline and the broker answer while one message is dispatched. -/
structure Surroundings where
  send : Exchange → Except CamelError Unit
  send_and_wait : Exchange → Except CamelError Exchange
  add_partition_offset : String → Int32 → Int64 → Except String Unit
  commit : String → Int32 → Int64 → Except String Unit

def auto_commit_step (exchange : Exchange) (msg : OwnedMessage) (around : Surroundings) :
    Except CamelError Unit :=
  match around.send_and_wait exchange with
  | .error e => .error e
  | .ok _ =>
    match around.add_partition_offset msg.topic msg.partition (msg.offset + 1) with
    | .error e => .error (.ProcessorError s!"Failed to build TPL for auto-commit: {e}")
    | .ok () =>
      match around.commit msg.topic msg.partition (msg.offset + 1) with
      | .error e => .error (.ProcessorError s!"Failed to commit Kafka offset: {e}")
      | .ok () => .ok ()

section

variable (config : ResolvedKafkaEndpointConfig)

/-- Under manual commit a pipeline that does not take the exchange is only logged. -/
def dispatch_message (msg : OwnedMessage) (around : Surroundings) : Except CamelError Unit :=
  match build_exchange msg config.group_id with
  | .error e => .error e
  | .ok exchange =>
    if config.allow_manual_commit then
      match around.send exchange with
      | .ok () | .error _ => .ok ()
    else auto_commit_step exchange msg around

/-! ## The loop -/

inductive Stage where
  | Creating
  | Subscribing
  | Polling (attempt : Nat)
  | Ended (result : Except CamelError Unit)

/-- The task that runs the loop, and the token it shares with the context of the consumer. -/
structure Loop where
  stage : Stage
  cancelled : Bool

def Loop.start : Loop := ⟨.Creating, false⟩

/-- What happens next: the client is made and subscribed, somebody cancels the token, the select
takes the branch of the token, or it takes that of `recv()`. -/
inductive Event where
  | created (result : Except String Unit)
  | subscribed (result : Except String Unit)
  | cancel
  | shutdown
  | recv_failed (e : String)
  | received (msg : OwnedMessage) (around : Surroundings)

/-- What follows a `break`. A consumer that cannot be cleared and a commit handler that does not
drain are only logged. -/
def close : Except CamelError Unit := .ok ()

/-- How the loop goes on. The counter cannot pass a bound of the policy, so that it does not
matter that it wraps at 32 bits. -/
def poll (attempt : Nat) (cancelled : Bool) : Event → Option Stage
  | .shutdown => if cancelled then some (.Ended close) else none
  | .recv_failed _ =>
    if config.reconnect.should_retry (attempt + 1) then some (.Polling (attempt + 1))
    else some (.Ended close)
  | .received msg around =>
    match dispatch_message config msg around with
    | .error e => some (.Ended (.error e))
    | .ok () => some (.Polling 0)
  | _ => none

def next (loop : Loop) (event : Event) : Option Stage :=
  match loop.stage, event with
  | .Creating, .created (.error e) =>
    some (.Ended (.error (.ProcessorError s!"Failed to create Kafka consumer: {e}")))
  | .Creating, .created (.ok ()) => some .Subscribing
  | .Subscribing, .subscribed (.error e) =>
    some (.Ended (.error (.ProcessorError
      s!"Failed to subscribe to topic '{config.topic}': {e}")))
  | .Subscribing, .subscribed (.ok ()) => some (.Polling 0)
  | .Polling attempt, event => poll config attempt loop.cancelled event
  | _, _ => none

/-- One step of the task or of whoever cancels it, up to its end. -/
def step (loop : Loop) (event : Event) : Option Loop :=
  match loop.stage, event with
  | .Ended _, _ => none
  | _, .cancel => some { loop with cancelled := true }
  | _, event => (next config loop event).map fun stage => { loop with stage := stage }

def run_consumer_loop (events : List Event) : Option Loop := events.foldlM (step config) Loop.start

end

/-! ## The exits of the loop -/

def Event.is_recv_failed : Event → Bool
  | .recv_failed _ => true
  | _ => false

def Event.is_cancel : Event → Bool
  | .cancel => true
  | _ => false

/-- The receive errors since the last message, or since the consumer subscribed. -/
def errors_in_a_row (events : List Event) : Nat :=
  (events.reverse.takeWhile Event.is_recv_failed).length

/-- While nobody has cancelled the consumer, a receive error comes that the policy allows no
retry for. -/
def Exhausts (policy : NetworkRetryPolicy) (events : List Event) : Prop :=
  ∃ before e after, events = before ++ .recv_failed e :: after ∧
    before.any Event.is_cancel = false ∧
    policy.should_retry (errors_in_a_row before + 1) = false

section

variable {config : ResolvedKafkaEndpointConfig} {loop next' : Loop} {events : List Event}
  {event : Event} {result : Except CamelError Unit} {stage : Stage}

theorem step_ended (h : loop.stage = .Ended result) : step config loop event = none := by
  unfold step
  rw [h]

theorem run_concat (h : run_consumer_loop config (events ++ [event]) = some next') :
    ∃ loop, run_consumer_loop config events = some loop ∧ step config loop event = some next' := by
  unfold run_consumer_loop at h ⊢
  rw [foldlM_append] at h
  obtain ⟨loop, hl, hs⟩ := bind_eq_some_iff.mp h
  refine ⟨loop, hl, ?_⟩
  simpa using hs

/-- The two kinds of step: the token is cancelled, or the task goes on. -/
theorem step_cases (h : step config loop event = some next') :
    (event.is_cancel = true ∧ next' = { loop with cancelled := true }) ∨
      event.is_cancel = false ∧ ∃ stage, next config loop event = some stage ∧
        next' = { loop with stage := stage } := by
  unfold step at h
  split at h
  · cases h
  · exact .inl ⟨rfl, (some.inj h).symm⟩
  · rename_i hc _
    obtain ⟨stage, hs, heq⟩ := map_eq_some_iff.mp h
    refine .inr ⟨?_, stage, hs, heq.symm⟩
    unfold Event.is_cancel
    split
    · exact absurd rfl hc
    · rfl

theorem errors_in_a_row_concat (events : List Event) (event : Event) :
    errors_in_a_row (events ++ [event]) =
      if event.is_recv_failed then errors_in_a_row events + 1 else 0 := by
  unfold errors_in_a_row
  rw [reverse_append, reverse_singleton, singleton_append, takeWhile_cons]
  split
  · rfl
  · rfl

/-- How the task goes on. Two of its ends are no error: that of a consumer that was cancelled,
and that of one that ran out of retries. -/
inductive Turn (config : ResolvedKafkaEndpointConfig) (loop : Loop) : Event → Stage → Prop
  | failed {event : Event} {e : CamelError} (hevent : event.is_recv_failed = false) :
      Turn config loop event (.Ended (.error e))
  | made {event : Event} (hevent : event.is_recv_failed = false) :
      Turn config loop event .Subscribing
  | polls {event : Event} (hevent : event.is_recv_failed = false) :
      Turn config loop event (.Polling 0)
  | stopped (hcancelled : loop.cancelled = true) : Turn config loop .shutdown (.Ended (.ok ()))
  | retries {attempt : Nat} {e : String} (hstage : loop.stage = .Polling attempt)
      (hretry : config.reconnect.should_retry (attempt + 1) = true) :
      Turn config loop (.recv_failed e) (.Polling (attempt + 1))
  | gives_up {attempt : Nat} {e : String} (hstage : loop.stage = .Polling attempt)
      (hretry : config.reconnect.should_retry (attempt + 1) = false) :
      Turn config loop (.recv_failed e) (.Ended (.ok ()))

theorem poll_turns {attempt : Nat} (hs : loop.stage = .Polling attempt)
    (h : poll config attempt loop.cancelled event = some stage) : Turn config loop event stage := by
  unfold poll at h
  split at h
  · split at h <;> cases h
    exact .stopped ‹_›
  · split at h <;> cases h
    · exact .retries hs ‹_›
    · rename_i hr
      exact .gives_up hs (by simpa using hr)
  · split at h <;> cases h
    · exact .failed rfl
    · exact .polls rfl
  · cases h

theorem next_turns (h : next config loop event = some stage) : Turn config loop event stage := by
  unfold next at h
  split at h
  · cases h
    exact .failed rfl
  · cases h
    exact .made rfl
  · cases h
    exact .failed rfl
  · cases h
    exact .polls rfl
  · exact poll_turns ‹_› h
  · cases h

variable (h : run_consumer_loop config events = some loop)

include h

theorem run_tracks :
    loop.cancelled = events.any Event.is_cancel ∧
      (events.any Event.is_cancel = false → ∀ attempt, loop.stage = .Polling attempt →
        attempt = errors_in_a_row events) := by
  induction events using List.reverseRecOn generalizing loop with
  | nil =>
    cases h
    exact ⟨rfl, fun _ attempt hs => by cases hs⟩
  | append_singleton events event ih =>
    obtain ⟨before, hb, hst⟩ := run_concat h
    obtain ⟨hc, hco⟩ := ih hb
    rcases step_cases hst with ⟨hca, rfl⟩ | ⟨hca, stage, hn, rfl⟩
    · simp [hca]
    · simp only [any_append, any_cons, any_nil, hca, Bool.or_false]
      refine ⟨hc, fun hno attempt hs => ?_⟩
      rw [errors_in_a_row_concat]
      subst hs
      cases next_turns hn with
      | polls he => rw [he, if_neg (by simp)]
      | retries hs hr =>
        rw [← hco hno _ hs]
        rfl

/-- A consumer that runs out of retries ends as if it had been asked to. -/
theorem exhausted_ends (hex : Exhausts config.reconnect events) :
    loop.stage = .Ended (.ok ()) ∧ loop.cancelled = false := by
  obtain ⟨before, e, after, rfl, hc, hr⟩ := hex
  unfold run_consumer_loop at h
  rw [foldlM_append] at h
  obtain ⟨mid, hm, hre⟩ := bind_eq_some_iff.mp h
  have hb : run_consumer_loop config before = some mid := hm
  obtain ⟨hca, hco⟩ := run_tracks hb
  rw [hc] at hca
  rw [foldlM_cons] at hre
  obtain ⟨ended, hst, ha⟩ := bind_eq_some_iff.mp hre
  have he : ended = ⟨.Ended (.ok ()), false⟩ := by
    rcases step_cases hst with ⟨hab, -⟩ | ⟨-, stage, hn, rfl⟩
    · cases hab
    · rw [hca]
      cases next_turns hn with
      | failed hev | made hev | polls hev => cases hev
      | retries hs hag =>
        rw [hco hc _ hs, hr] at hag
        cases hag
      | gives_up hs _ => rfl
  subst he
  cases after with
  | nil =>
    cases ha
    exact ⟨rfl, rfl⟩
  | cons event after =>
    rw [foldlM_cons, step_ended rfl] at ha
    cases ha

theorem ends_are_errors (hen : loop.stage = .Ended result)
    (hca : loop.cancelled = false) :
    (∃ e, result = .error e) ∨ Exhausts config.reconnect events := by
  rcases eq_nil_or_concat events with rfl | ⟨before, event, rfl⟩
  · cases h
    cases hen
  · rw [concat_eq_append] at h ⊢
    obtain ⟨mid, hmi, hste⟩ := run_concat h
    obtain ⟨hm, hc⟩ := run_tracks hmi
    rcases step_cases hste with ⟨-, rfl⟩ | ⟨-, stage, hn, rfl⟩
    · cases hca
    · subst hen
      have hno : before.any Event.is_cancel = false := hm.symm.trans hca
      cases next_turns hn with
      | failed he => exact .inl ⟨_, rfl⟩
      | stopped hs =>
        rw [show mid.cancelled = false from hca] at hs
        cases hs
      | gives_up hst hr =>
        refine .inr ⟨before, _, [], rfl, hno, ?_⟩
        rw [← hc hno _ hst]
        exact hr

end

/-! ## What the monitor makes of them -/

/-- In a run of the task of the consumer and its watcher, the background task was joined with
this result. -/
def JoinedWith (result : Except CamelError Unit) (h : List PartyStep) : Prop :=
  ∃ i before after, (⟨i, .join_background, .finished result, before, after⟩ : PartyStep) ∈ h

/-- However the task of the consumer and its watcher interleave, they publish the failure of the
route once when the background task ends so. -/
def Heard (result : Except CamelError Unit) : Prop :=
  ∀ (runtime : Runtime) (spawn : Spawn) (h : List PartyStep)
    (P : Party → Prog Call Answer (Except Unit Unit)) (s : Shared),
    Interleaves (sem runtime) (explicit spawn) {} h P s → Complete P → JoinedWith result h →
      published h = 1

theorem heard_of_error (e : CamelError) : Heard (.error e) := by
  intro runtime spawn h P s hr hd ⟨i, before, after, hj⟩
  have hf : failed h = true := List.any_eq_true.mpr ⟨_, hj, rfl⟩
  rw [(published_once hr hd).published, if_pos hf]

/-- A consumer that ends although nobody cancelled it ends with an error, and the failure of its
route is published, exactly as long as it does not run out of retries. -/
theorem stops_are_heard_iff (config : ResolvedKafkaEndpointConfig) (events : List Event)
    (loop : Loop) (h : run_consumer_loop config events = some loop) :
    (∀ result, loop.stage = .Ended result → loop.cancelled = false →
      (∃ e, result = .error e) ∧ Heard result) ↔ ¬Exhausts config.reconnect events := by
  constructor
  · intro hh hex
    obtain ⟨hen, hc⟩ := exhausted_ends h hex
    obtain ⟨⟨e, he⟩, -⟩ := hh _ hen hc
    cases he
  · intro hr result hen hc
    rcases ends_are_errors h hen hc with ⟨e, rfl⟩ | hex
    · exact ⟨⟨e, rfl⟩, heard_of_error e⟩
    · exact absurd hex hr

/-- The default policy, of ten attempts. -/
def orders : ResolvedKafkaEndpointConfig := ⟨"orders", "camel", false, ⟨true, 10, none⟩⟩

/-- A message that the pipeline rejects. -/
def rejected : List Event :=
  [.created (.ok ()), .subscribed (.ok ()), .recv_failed "Disconnected",
    .received ⟨"orders", 0, 7, none, none, none⟩
      ⟨fun _ => .ok (), fun _ => .error .ChannelClosed, fun _ _ _ => .ok (), fun _ _ _ => .ok ()⟩]

theorem rejection_is_heard :
    run_consumer_loop orders rejected = some ⟨.Ended (.error .ChannelClosed), false⟩ ∧
      Heard (.error .ChannelClosed) := by
  have hr : run_consumer_loop orders rejected = some ⟨.Ended (.error .ChannelClosed), false⟩ :=
    rfl
  refine ⟨hr, ((stops_are_heard_iff orders rejected _ hr).mpr ?_ _ rfl rfl).2⟩
  rintro he
  have := (exhausted_ends hr he).1
  cases this

/-- Ten receive errors after each other. -/
def broker_away : List Event :=
  [.created (.ok ()), .subscribed (.ok ())] ++ List.replicate 10 (.recv_failed "Disconnected")

theorem exhausted_consumer_stops_silently :
    ¬∀ (config : ResolvedKafkaEndpointConfig) (events : List Event) (loop : Loop),
      run_consumer_loop config events = some loop →
        ∀ result, loop.stage = .Ended result → loop.cancelled = false → ∃ e, result = .error e := by
  intro ha
  have hr : run_consumer_loop orders broker_away = some ⟨.Ended (.ok ()), false⟩ := rfl
  obtain ⟨e, he⟩ := ha orders broker_away _ hr _ rfl rfl
  cases he

end camel_kafka
