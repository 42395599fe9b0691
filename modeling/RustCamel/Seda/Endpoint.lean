-- A SEDA endpoint: bounded channels, the producers that fill them, the forwarders that empty
-- them into the route, and the consumers that start and stop. Every await and every touch of
-- what is shared is a step of its own.
import RustCamel.Api.Exchange
import RustCamel.Lib.Interleaving

namespace camel_component_seda

open camel_api (Exchange)
open camel_api.error (CamelError)

/-! ## Configuration -/

inductive WaitForTaskToComplete where
  | Never
  | IfReplyExpected
  | Always

inductive ExchangePattern where
  | InOnly
  | InOut
deriving DecidableEq

/-- What all who name the endpoint agree on. -/
structure SedaConfig where
  name : String
  size : Nat
  concurrent_consumers : Nat
  multiple_consumers : Bool
  exchange_pattern : ExchangePattern

structure ProducerConfig where
  block_when_full : Bool
  discard_if_no_consumers : Bool
  timeout_ms : Nat
  wait_for_task_to_complete : WaitForTaskToComplete

def ProducerConfig.should_wait (config : ProducerConfig) (pattern : ExchangePattern) : Bool :=
  match config.wait_for_task_to_complete with
  | .Never => false
  | .Always => true
  | .IfReplyExpected => pattern = .InOut

inductive NoActiveConsumersGate where
  | Single
  | Fanout

def NoActiveConsumersGate.detail : NoActiveConsumersGate → String → String
  | .Single, endpoint_name => s!"SEDA endpoint '{endpoint_name}' has no active consumers"
  | .Fanout, endpoint_name => s!"SEDA endpoint '{endpoint_name}' has no active subscribers"

def NoActiveConsumersGate.rejection (gate : NoActiveConsumersGate) (endpoint_name : String) :
    CamelError := .EndpointCreationFailedWithSource (gate.detail endpoint_name)

def single_mode_gate_rejection (name : String) : CamelError :=
  NoActiveConsumersGate.Single.rejection name

def fanout_preenqueue_gate_rejection (name : String) : CamelError :=
  NoActiveConsumersGate.Fanout.rejection name

def fanout_subscriber_list_gate_rejection (name : String) : CamelError :=
  NoActiveConsumersGate.Fanout.rejection name

def terminal_config_rejection : CamelError :=
  .EndpointCreationFailedWithSource
    ("multipleConsumers=true with waitForTaskToComplete != Never " ++
      "is not supported — a single request cannot have N valid " ++
      "replies without aggregator semantics")

/-! ## Channels -/

/-- What goes through a channel. The call it comes from tells the copies of one exchange from
those of another. -/
structure Envelope where
  call : Nat
  exchange : Exchange
  reply_tx : Bool

/-- A bounded `mpsc` channel. Of its slots some are free, one is used by each envelope in the
queue, and the rest are reserved. What left the queue is kept to count by. -/
structure Channel where
  is_open : Bool
  free : Nat
  queue : List Envelope
  taken : List Envelope

namespace Channel

def new (size : Nat) : Channel := ⟨true, size, [], []⟩

/-- Every envelope that was ever put in the queue. -/
def placed (ch : Channel) : List Envelope := ch.taken ++ ch.queue

/-- A permit is given out. -/
def reserve (ch : Channel) : Channel := { ch with free := ch.free - 1 }

/-- A permit is dropped. -/
def release (ch : Channel) : Channel := { ch with free := ch.free + 1 }

/-- `Permit::send`. Where the receiver is gone, nobody will see the envelope. -/
def send (env : Envelope) (ch : Channel) : Channel :=
  if ch.is_open then { ch with queue := ch.queue ++ [env] } else ch

/-- What the receiver leaves when it takes the first envelope. -/
def pop (ch : Channel) : Channel :=
  { ch with queue := ch.queue.tail, taken := ch.taken ++ ch.queue.take 1, free := ch.free + 1 }

/-- The receiver is dropped, and what is queued with it. -/
def close (ch : Channel) : Channel := { ch with is_open := false, queue := [], taken := ch.placed }

end Channel

/-! ## The endpoint -/

/-- `Arc<AsyncMutex<Option<Receiver>>>`, shared by the forwarders that one start spawned and
by the consumer. -/
structure Session where
  consumer : Nat
  receiver : Option Nat
  locked : Bool
  to_spawn : Nat

/-- A consumer is busy while its start or stop runs: both take it by `&mut self`. -/
structure SedaConsumer where
  started : Bool
  cancelled : Bool
  shared_rx : Option Nat
  busy : Bool

def SedaConsumer.new : SedaConsumer := ⟨false, false, none, false⟩

/-- `rx` and `active` belong to `SedaMode::Single`, whose one channel comes first, and the
subscribers, each a consumer and its channel, to `SedaMode::Fanout`. A reply is none when its
sender was dropped. -/
structure SedaEndpointState where
  config : SedaConfig
  channels : List Channel
  rx : Option Nat
  active : Bool
  subscribers : List (Nat × Nat)
  depth : Int
  sessions : List Session
  consumers : Nat → SedaConsumer
  replies : List (Nat × Option (Except CamelError Exchange))
  calls : Nat

namespace SedaEndpointState

def new (config : SedaConfig) : SedaEndpointState where
  config := config
  channels := if config.multiple_consumers then [] else [.new config.size]
  rx := if config.multiple_consumers then none else some 0
  active := false
  subscribers := []
  depth := 0
  sessions := []
  consumers := fun _ => .new
  replies := []
  calls := 0

def has_active_consumers (e : SedaEndpointState) : Bool :=
  if e.config.multiple_consumers then !e.subscribers.isEmpty else e.active

/-- Whether the receiver of a channel still stands. -/
def is_open (e : SedaEndpointState) (c : Nat) : Bool := e.channels[c]?.any Channel.is_open

def free (e : SedaEndpointState) (c : Nat) : Nat := (e.channels[c]?.map Channel.free).getD 0

def queue (e : SedaEndpointState) (c : Nat) : List Envelope :=
  (e.channels[c]?.map Channel.queue).getD []

def placed (e : SedaEndpointState) (c : Nat) : List Envelope :=
  (e.channels[c]?.map Channel.placed).getD []

def on (e : SedaEndpointState) (c : Nat) (f : Channel → Channel) : SedaEndpointState :=
  { e with channels := e.channels.modify c f }

/-- `fetch_add` and `fetch_sub` on the counter. -/
def count (e : SedaEndpointState) (n : Int) : SedaEndpointState := { e with depth := e.depth + n }

def on_session (e : SedaEndpointState) (s : Nat) (f : Session → Session) : SedaEndpointState :=
  { e with sessions := e.sessions.modify s f }

def unlock (e : SedaEndpointState) (s : Nat) : SedaEndpointState :=
  e.on_session s fun session => { session with locked := false }

def on_consumer (e : SedaEndpointState) (k : Nat) (f : SedaConsumer → SedaConsumer) :
    SedaEndpointState :=
  { e with consumers := Function.update e.consumers k (f (e.consumers k)) }

/-- What goes over the reply channel of an envelope that has one. -/
def reply (e : SedaEndpointState) (env : Envelope) (r : Option (Except CamelError Exchange)) :
    SedaEndpointState :=
  if env.reply_tx then { e with replies := e.replies ++ [(env.call, r)] } else e

end SedaEndpointState

/-- What a step does not decide itself: that a time limit passed, that the task was dropped
(aborted, or left by a panic), that it saw its cancel token, in which order a map gave its
values, and what the pipeline made of an exchange. -/
inductive Answer where
  | go
  | elapsed
  | dropped
  | cancelled
  | ordered (senders : List Nat)
  | finished (result : Except CamelError Exchange)

/-! ## Producers -/

/-- How a call ended: it returned, or its future was dropped. -/
inductive Outcome where
  | returned (result : Except CamelError Exchange)
  | dropped

/-- Where a call stands. In single mode it is counted in, then holds the slot it will use, then
has used it. In fanout mode it reserves a permit on each channel that is to do, counts one in
for each, and sends. A call that fails while it reserves gives its permits back one by one. -/
inductive ProducerStage where
  | Called
  | Passed
  | Counted
  | Holding
  | Pushed
  | Replying
  | Reserving (permits todo : List Nat)
  | Releasing (permits : List Nat) (outcome : Outcome)
  | Sending (permits : List Nat)
  | Ended (outcome : Outcome)

/-- A call of `SedaProducer`. The sender list is its snapshot of the subscribers, and `live`
keeps those of them whose receiver still stood at the commit. -/
structure SedaProducer where
  config : ProducerConfig
  exchange : Exchange
  call : Nat
  sender_list : List Nat
  live : List Nat
  stage : ProducerStage

namespace SedaProducer

def new (config : ProducerConfig) (exchange : Exchange) : SedaProducer :=
  ⟨config, exchange, 0, [], [], .Called⟩

def goes (p : SedaProducer) (stage : ProducerStage) : SedaProducer := { p with stage := stage }

def ends (p : SedaProducer) (outcome : Outcome) : SedaProducer := p.goes (.Ended outcome)

def fails (p : SedaProducer) (error : CamelError) : SedaProducer :=
  p.ends (.returned (.error error))

/-- The envelope of the call. Only in single mode may a reply be waited for. -/
def envelope (p : SedaProducer) (config : SedaConfig) : Envelope where
  call := p.call
  exchange := p.exchange
  reply_tx := !config.multiple_consumers && p.config.should_wait config.exchange_pattern

/-- The first poll: the gate for an endpoint that nobody consumes from. -/
def gate (e : SedaEndpointState) (p : SedaProducer) (answer : Answer) :
    SedaEndpointState × SedaProducer :=
  let p := { p with call := e.calls }
  let next := { e with calls := e.calls + 1 }
  match answer with
  | .dropped => (next, p.ends .dropped)
  | _ =>
    if e.has_active_consumers then (next, p.goes .Passed)
    else if p.config.discard_if_no_consumers then (next, p.ends (.returned (.ok p.exchange)))
    else if e.config.multiple_consumers then
      (next, p.fails (fanout_preenqueue_gate_rejection e.config.name))
    else (next, p.fails (single_mode_gate_rejection e.config.name))

/-- The way through the mode. The subscribers' senders come in any order. -/
def dispatch (e : SedaEndpointState) (p : SedaProducer) (answer : Answer) :
    Option (SedaEndpointState × SedaProducer) :=
  if e.config.multiple_consumers then
    if p.config.should_wait e.config.exchange_pattern then
      some (e, p.fails terminal_config_rejection)
    else
      match answer with
      | .ordered senders =>
        if e.subscribers.isEmpty then
          if p.config.discard_if_no_consumers then
            some (e, p.ends (.returned (.ok p.exchange)))
          else some (e, p.fails (fanout_subscriber_list_gate_rejection e.config.name))
        else if senders.isPerm (e.subscribers.map Prod.snd) then
          some (e, { p with sender_list := senders, stage := .Reserving [] senders })
        else none
      | _ => none
  else some (e.count 1, p.goes .Counted)

/-- The wait for a slot in single mode, or `try_send`. What fails drops the guard. -/
def enqueue (e : SedaEndpointState) (p : SedaProducer) (answer : Answer) :
    Option (SedaEndpointState × SedaProducer) :=
  match answer with
  | .elapsed =>
    if p.config.block_when_full then
      some (e.count (-1), p.fails (.EndpointCreationFailed
        s!"SEDA producer timeout enqueueing on '{e.config.name}' ({p.config.timeout_ms}ms)"))
    else none
  | .dropped => if p.config.block_when_full then some (e.count (-1), p.ends .dropped) else none
  | _ =>
    if !e.is_open 0 then some (e.count (-1), p.fails .ChannelClosed)
    else if e.free 0 = 0 then
      if p.config.block_when_full then none
      else some (e.count (-1), p.fails (.EndpointCreationFailed
        s!"SEDA queue '{e.config.name}' is full (size={e.config.size})"))
    else some (e.on 0 Channel.reserve, p.goes .Holding)

/-- A slot was assigned, and the envelope goes into it, unless the wait ends first. -/
def hand_over (e : SedaEndpointState) (p : SedaProducer) (answer : Answer) :
    Option (SedaEndpointState × SedaProducer) :=
  match answer with
  | .elapsed =>
    if p.config.block_when_full then
      some ((e.on 0 Channel.release).count (-1), p.fails (.EndpointCreationFailed
        s!"SEDA producer timeout enqueueing on '{e.config.name}' ({p.config.timeout_ms}ms)"))
    else none
  | .dropped =>
    if p.config.block_when_full then
      some ((e.on 0 Channel.release).count (-1), p.ends .dropped)
    else none
  | _ => some (e.on 0 (Channel.send (p.envelope e.config)), p.goes .Pushed)

/-- The guard is forgotten, and the call returns or waits for its reply. -/
def commit (e : SedaEndpointState) (p : SedaProducer) : SedaEndpointState × SedaProducer :=
  if p.config.should_wait e.config.exchange_pattern then (e, p.goes .Replying)
  else (e, p.ends (.returned (.ok p.exchange)))

def await_reply (e : SedaEndpointState) (p : SedaProducer) (answer : Answer) :
    Option (SedaEndpointState × SedaProducer) :=
  match answer with
  | .elapsed =>
    some (e, p.fails (.EndpointCreationFailed
      s!"SEDA producer timeout waiting for reply on '{e.config.name}' ({p.config.timeout_ms}ms)"))
  | .dropped => some (e, p.ends .dropped)
  | _ =>
    match e.replies.lookup p.call with
    | none => none
    | some none => some (e, p.fails .ChannelClosed)
    | some (some result) => some (e, p.ends (.returned result))

/-- One more permit in fanout mode, or all copies are counted in. -/
def reserve (e : SedaEndpointState) (p : SedaProducer) (permits todo : List Nat)
    (answer : Answer) : Option (SedaEndpointState × SedaProducer) :=
  match answer with
  | .elapsed =>
    if p.config.block_when_full then
      some (e, p.goes (.Releasing permits (.returned (.error (.EndpointCreationFailed
        s!"SEDA fanout timeout on '{e.config.name}' ({p.config.timeout_ms}ms)")))))
    else none
  | .dropped =>
    if p.config.block_when_full then some (e, p.goes (.Releasing permits .dropped)) else none
  | _ =>
    match todo with
    | [] => some (e.count permits.length, p.goes (.Sending permits))
    | c :: todo =>
      if !e.is_open c then
        some (e, p.goes (.Releasing permits (.returned (.error .ChannelClosed))))
      else if e.free c = 0 then
        if p.config.block_when_full then none
        else some (e, p.goes (.Releasing permits (.returned (.error (.EndpointCreationFailed
          s!"SEDA queue '{e.config.name}' subscriber full during fanout (size={e.config.size})")))))
      else some (e.on c Channel.reserve, p.goes (.Reserving (permits ++ [c]) todo))

def release (e : SedaEndpointState) (p : SedaProducer) (permits : List Nat) (outcome : Outcome) :
    SedaEndpointState × SedaProducer :=
  match permits with
  | [] => (e, p.ends outcome)
  | c :: permits => (e.on c Channel.release, p.goes (.Releasing permits outcome))

/-- One more copy is sent, or the guard is forgotten and the call returns. -/
def send (e : SedaEndpointState) (p : SedaProducer) (permits : List Nat) :
    SedaEndpointState × SedaProducer :=
  match permits with
  | [] =>
    (e, { p with live := p.sender_list.filter e.is_open,
                 stage := .Ended (.returned (.ok p.exchange)) })
  | c :: permits => (e.on c (Channel.send (p.envelope e.config)), p.goes (.Sending permits))

def advance (e : SedaEndpointState) (p : SedaProducer) (answer : Answer) :
    Option (SedaEndpointState × SedaProducer) :=
  match p.stage with
  | .Called => some (p.gate e answer)
  | .Passed => p.dispatch e answer
  | .Counted => p.enqueue e answer
  | .Holding => p.hand_over e answer
  | .Pushed => some (p.commit e)
  | .Replying => p.await_reply e answer
  | .Reserving permits todo => p.reserve e permits todo answer
  | .Releasing permits outcome => some (p.release e permits outcome)
  | .Sending permits => some (p.send e permits)
  | .Ended _ => none

end SedaProducer

/-! ## Forwarders -/

inductive ForwarderStage where
  | Spawned
  | Locking
  | Receiving (c : Nat)
  | Forwarding (env : Envelope)
  | Ended

structure Forwarder where
  session : Nat
  stage : ForwarderStage

namespace Forwarder

def goes (f : Forwarder) (stage : ForwarderStage) : Forwarder := { f with stage := stage }

/-- A forwarder is spawned by a start, as many times as that asked for. -/
def begin (e : SedaEndpointState) (f : Forwarder) : Option (SedaEndpointState × Forwarder) :=
  match e.sessions[f.session]? with
  | none => none
  | some session =>
    if session.to_spawn = 0 then none
    else some (e.on_session f.session fun session =>
      { session with to_spawn := session.to_spawn - 1 }, f.goes .Locking)

/-- `shared_rx.lock()`. A receiver that stop took back ends the forwarder. -/
def lock (e : SedaEndpointState) (f : Forwarder) (answer : Answer) :
    Option (SedaEndpointState × Forwarder) :=
  match answer with
  | .dropped => some (e, f.goes .Ended)
  | _ =>
    match e.sessions[f.session]? with
    | none => none
    | some session =>
      if session.locked then none
      else
        match session.receiver with
        | none => some (e, f.goes .Ended)
        | some c =>
          some (e.on_session f.session fun session => { session with locked := true },
            f.goes (.Receiving c))

/-- `rx.recv()` against the cancel token, under the lock. -/
def recv (e : SedaEndpointState) (f : Forwarder) (c : Nat) (answer : Answer) :
    Option (SedaEndpointState × Forwarder) :=
  match answer with
  | .dropped => some (e.unlock f.session, f.goes .Ended)
  | .cancelled =>
    match e.sessions[f.session]? with
    | none => none
    | some session =>
      if (e.consumers session.consumer).cancelled then some (e.unlock f.session, f.goes .Ended)
      else none
  | _ =>
    match e.queue c with
    | env :: _ => some ((e.on c Channel.pop).unlock f.session, f.goes (.Forwarding env))
    | [] => if e.is_open c then none else some (e.unlock f.session, f.goes .Ended)

/-- `forward_envelope` under a claim, which counts the envelope out when the pipeline is done
with it and when the forwarder is left midway. -/
def forward (e : SedaEndpointState) (f : Forwarder) (env : Envelope) (answer : Answer) :
    Option (SedaEndpointState × Forwarder) :=
  match answer with
  | .finished result => some ((e.reply env (some result)).count (-1), f.goes .Locking)
  | .dropped => some ((e.reply env none).count (-1), f.goes .Ended)
  | _ => none

def advance (e : SedaEndpointState) (f : Forwarder) (answer : Answer) :
    Option (SedaEndpointState × Forwarder) :=
  match f.stage with
  | .Spawned => f.begin e
  | .Locking => f.lock e answer
  | .Receiving c => f.recv e c answer
  | .Forwarding env => f.forward e env answer
  | .Ended => none

end Forwarder

/-! ## Consumers -/

/-- The start of a consumer, with what it returned. Nothing in it waits. -/
structure Starter where
  consumer : Nat
  result : Option (Except CamelError Unit)

namespace Starter

/-- A receiver goes into a session of its own, for so many forwarders. -/
def opens (e : SedaEndpointState) (k c forwarders : Nat) : SedaEndpointState :=
  let session : Session := ⟨k, some c, false, forwarders⟩
  let next := { e with sessions := e.sessions ++ [session] }
  next.on_consumer k fun consumer =>
    { consumer with started := true, shared_rx := some e.sessions.length }

def start (e : SedaEndpointState) (k : Nat) : SedaEndpointState × Except CamelError Unit :=
  if (e.consumers k).started then
    (e, .error (.EndpointCreationFailed "consumer already started"))
  else if e.config.multiple_consumers then
    let c := e.channels.length
    (opens { e with channels := e.channels ++ [.new e.config.size],
                    subscribers := e.subscribers.filter (fun sub => sub.1 ≠ k) ++ [(k, c)] }
      k c 1, .ok ())
  else
    match e.rx with
    | none =>
      (e, .error (.EndpointCreationFailed
        s!"endpoint '{e.config.name}' already has a registered consumer"))
    | some c =>
      (opens { e with rx := none, active := true } k c e.config.concurrent_consumers, .ok ())

def advance (e : SedaEndpointState) (t : Starter) : Option (SedaEndpointState × Starter) :=
  match t.result with
  | some _ => none
  | none =>
    if (e.consumers t.consumer).busy then none
    else
      let (e, result) := start e t.consumer
      some (e, { t with result := some result })

end Starter

/-- Where a stop stands. In single mode it takes the receiver and puts it back; in fanout mode
it drains the channel, gives back the counts of what it discarded, and drops the receiver. -/
inductive StopperStage where
  | Begin
  | Cancelled
  | Locking (s : Nat)
  | Restoring (c : Nat)
  | Draining (s c discarded : Nat)
  | Returning (s c discarded : Nat)
  | Dropping (s c : Nat)
  | Done

structure Stopper where
  consumer : Nat
  stage : StopperStage

namespace Stopper

def goes (t : Stopper) (stage : StopperStage) : Stopper := { t with stage := stage }

/-- The token is cancelled and the forwarders are aborted, which they see when they will. -/
def begin (e : SedaEndpointState) (t : Stopper) : Option (SedaEndpointState × Stopper) :=
  if (e.consumers t.consumer).busy then none
  else if !(e.consumers t.consumer).started then some (e, t.goes .Done)
  else some (e.on_consumer t.consumer fun consumer =>
    { consumer with cancelled := true, busy := true }, t.goes .Cancelled)

/-- The consumer is not active any more, or not among the subscribers. -/
def leave (e : SedaEndpointState) (k : Nat) : SedaEndpointState :=
  let e := e.on_consumer k fun consumer => { consumer with shared_rx := none }
  if e.config.multiple_consumers then
    { e with subscribers := e.subscribers.filter fun sub => sub.1 ≠ k }
  else { e with active := false }

def finish (e : SedaEndpointState) (k : Nat) : SedaEndpointState :=
  e.on_consumer k fun consumer => { consumer with started := false, busy := false }

/-- `shared_rx.lock().await.take()`. In fanout mode the lock stays for what follows. -/
def take (e : SedaEndpointState) (t : Stopper) (s : Nat) : Option (SedaEndpointState × Stopper) :=
  match e.sessions[s]? with
  | none => none
  | some session =>
    if session.locked then none
    else
      match session.receiver with
      | none => some (finish e t.consumer, t.goes .Done)
      | some c =>
        let next := e.on_session s fun session =>
          { session with receiver := none, locked := e.config.multiple_consumers }
        if e.config.multiple_consumers then some (next, t.goes (.Draining s c 0))
        else some (next, t.goes (.Restoring c))

/-- `rx.try_recv()`. -/
def drain (e : SedaEndpointState) (t : Stopper) (s c discarded : Nat) :
    SedaEndpointState × Stopper :=
  match e.queue c with
  | [] => (e, t.goes (.Returning s c discarded))
  | _ :: _ => (e.on c Channel.pop, t.goes (.Draining s c (discarded + 1)))

def advance (e : SedaEndpointState) (t : Stopper) : Option (SedaEndpointState × Stopper) :=
  match t.stage with
  | .Begin => t.begin e
  | .Cancelled =>
    match (e.consumers t.consumer).shared_rx with
    | none => some (finish (leave e t.consumer) t.consumer, t.goes .Done)
    | some s => some (leave e t.consumer, t.goes (.Locking s))
  | .Locking s => t.take e s
  | .Restoring c => some (finish { e with rx := some c } t.consumer, t.goes .Done)
  | .Draining s c discarded => some (t.drain e s c discarded)
  | .Returning s c discarded => some (e.count (-discarded), t.goes (.Dropping s c))
  | .Dropping s c => some (finish ((e.on c Channel.close).unlock s) t.consumer, t.goes .Done)
  | .Done => none

end Stopper

/-! ## All of them together -/

inductive Task where
  | producer (p : SedaProducer)
  | forwarder (f : Forwarder)
  | starter (t : Starter)
  | stopper (t : Stopper)

inductive Spawn where
  | call (config : ProducerConfig) (exchange : Exchange)
  | forwarder (session : Nat)
  | start (consumer : Nat)
  | stop (consumer : Nat)

def Task.begin : Spawn → Task
  | .call config exchange => .producer (.new config exchange)
  | .forwarder session => .forwarder ⟨session, .Spawned⟩
  | .start consumer => .starter ⟨consumer, none⟩
  | .stop consumer => .stopper ⟨consumer, .Begin⟩

def Task.advance (e : SedaEndpointState) (t : Task) (answer : Answer) :
    Option (SedaEndpointState × Task) :=
  match t with
  | .producer p => (p.advance e answer).map fun r => (r.1, .producer r.2)
  | .forwarder f => (f.advance e answer).map fun r => (r.1, .forwarder r.2)
  | .starter t => (t.advance e).map fun r => (r.1, .starter r.2)
  | .stopper t => (t.advance e).map fun r => (r.1, .stopper r.2)

/-- The producers, forwarders and consumers of one endpoint. -/
def seda : Interleaving SedaEndpointState Spawn Task Answer := ⟨Task.begin, Task.advance⟩

/-- The endpoint as it was made, before anybody uses it. -/
def idle (config : SedaConfig) : Interleaving.State SedaEndpointState Task := ⟨.new config, []⟩

end camel_component_seda
