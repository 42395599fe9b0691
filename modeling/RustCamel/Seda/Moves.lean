-- What a step of a producer, a forwarder or a consumer can do to the channels and to the
-- counter of its endpoint. Every invariant is proved from these moves.
import RustCamel.Seda.Endpoint

namespace camel_component_seda

open camel_api Option

/-- Two states of an endpoint that differ only in what no count looks at: who has the receiver,
which locks are held, and where the consumers stand. -/
structure Alike (e e' : SedaEndpointState) : Prop where
  config : e'.config = e.config
  channels : e'.channels = e.channels
  depth : e'.depth = e.depth
  calls : e'.calls = e.calls
  subscribers : e'.subscribers = e.subscribers

namespace Alike

variable {e e' : SedaEndpointState}

theorem refl (e : SedaEndpointState) : Alike e e := ⟨rfl, rfl, rfl, rfl, rfl⟩

theorem on_session (e : SedaEndpointState) (s : Nat) (f : Session → Session) :
    Alike e (e.on_session s f) := ⟨rfl, rfl, rfl, rfl, rfl⟩

theorem on_consumer (e : SedaEndpointState) (k : Nat) (f : SedaConsumer → SedaConsumer) :
    Alike e (e.on_consumer k f) := ⟨rfl, rfl, rfl, rfl, rfl⟩

theorem reply (e : SedaEndpointState) (env : Envelope)
    (r : Option (Except error.CamelError Exchange)) : Alike e (e.reply env r) := by
  unfold SedaEndpointState.reply
  split
  · exact ⟨rfl, rfl, rfl, rfl, rfl⟩
  · exact refl e

theorem opens (e : SedaEndpointState) (k c forwarders : Nat) :
    Alike e (Starter.opens e k c forwarders) := ⟨rfl, rfl, rfl, rfl, rfl⟩

end Alike

/-! ## Channels -/

namespace SedaEndpointState

variable {e e' : SedaEndpointState} {c d : Nat} {f : Channel → Channel}

theorem channel_on (e : SedaEndpointState) (c d : Nat) (f : Channel → Channel) :
    (e.on c f).channels[d]? = if d = c then e.channels[d]?.map f else e.channels[d]? :=
  List.getElem?_modify_ite _ _ _ _

theorem is_open_on (h : ∀ ch, (f ch).is_open = ch.is_open) :
    (e.on c f).is_open d = e.is_open d := by
  unfold is_open
  rw [channel_on]
  split
  · cases e.channels[d]? with
    | none => rfl
    | some ch => simp [h ch]
  · rfl

theorem is_open_send (env : Envelope) : (e.on c (Channel.send env)).is_open d = e.is_open d := by
  apply is_open_on
  intro ch
  unfold Channel.send
  split
  · rfl
  · rfl

end SedaEndpointState

theorem Alike.is_open {e e' : SedaEndpointState} (h : Alike e e') (c : Nat) :
    e'.is_open c = e.is_open c := by
  unfold SedaEndpointState.is_open
  rw [h.channels]

/-! ## Producers -/

/-- The call did not succeed. -/
def Outcome.failed : Outcome → Bool
  | .returned (.ok _) => false
  | .returned (.error _) => true
  | .dropped => true

inductive ProducerMove (e : SedaEndpointState) (p : SedaProducer) :
    SedaEndpointState → SedaProducer → Prop
  | polled {stage : ProducerStage} (hstage : p.stage = .Called)
      (hnext : stage = .Passed ∨ ∃ outcome, stage = .Ended outcome) :
      ProducerMove e p { e with calls := e.calls + 1 } { p with call := e.calls, stage := stage }
  | turned {outcome : Outcome}
      (hstage : p.stage = .Passed ∨ p.stage = .Pushed ∨ p.stage = .Replying) :
      ProducerMove e p e (p.ends outcome)
  | counted (hstage : p.stage = .Passed) (hmode : e.config.multiple_consumers = false) :
      ProducerMove e p (e.count 1) (p.goes .Counted)
  | listed {senders : List Nat} (hstage : p.stage = .Passed)
      (hmode : e.config.multiple_consumers = true)
      (hsenders : senders.Perm (e.subscribers.map Prod.snd)) :
      ProducerMove e p e { p with sender_list := senders, stage := .Reserving [] senders }
  | refused {outcome : Outcome} (hstage : p.stage = .Counted) :
      ProducerMove e p (e.count (-1)) (p.ends outcome)
  | held (hstage : p.stage = .Counted) (hopen : e.is_open 0 = true) (hfree : e.free 0 ≠ 0) :
      ProducerMove e p (e.on 0 Channel.reserve) (p.goes .Holding)
  | let_go {outcome : Outcome} (hstage : p.stage = .Holding) :
      ProducerMove e p ((e.on 0 Channel.release).count (-1)) (p.ends outcome)
  | pushed (hstage : p.stage = .Holding) :
      ProducerMove e p (e.on 0 (Channel.send (p.envelope e.config))) (p.goes .Pushed)
  | waits (hstage : p.stage = .Pushed) : ProducerMove e p e (p.goes .Replying)
  | reserved {permits todo : List Nat} {c : Nat} (hstage : p.stage = .Reserving permits (c :: todo))
      (hopen : e.is_open c = true) (hfree : e.free c ≠ 0) :
      ProducerMove e p (e.on c Channel.reserve) (p.goes (.Reserving (permits ++ [c]) todo))
  | gives_up {permits todo : List Nat} {outcome : Outcome}
      (hstage : p.stage = .Reserving permits todo) (hfailed : outcome.failed = true) :
      ProducerMove e p e (p.goes (.Releasing permits outcome))
  | counted_in {permits : List Nat} (hstage : p.stage = .Reserving permits []) :
      ProducerMove e p (e.count permits.length) (p.goes (.Sending permits))
  | released {permits : List Nat} {c : Nat} {outcome : Outcome}
      (hstage : p.stage = .Releasing (c :: permits) outcome) :
      ProducerMove e p (e.on c Channel.release) (p.goes (.Releasing permits outcome))
  | gave_up {outcome : Outcome} (hstage : p.stage = .Releasing [] outcome) :
      ProducerMove e p e (p.ends outcome)
  | sent {permits : List Nat} {c : Nat} (hstage : p.stage = .Sending (c :: permits)) :
      ProducerMove e p (e.on c (Channel.send (p.envelope e.config))) (p.goes (.Sending permits))
  | committed (hstage : p.stage = .Sending []) :
      ProducerMove e p e { p with live := p.sender_list.filter e.is_open,
                                  stage := .Ended (.returned (.ok p.exchange)) }

namespace SedaProducer

variable {e e' : SedaEndpointState} {p p' : SedaProducer} {answer : Answer} {permits : List Nat}

theorem gate_moves (answer : Answer) (hs : p.stage = .Called) :
    ProducerMove e p (p.gate e answer).1 (p.gate e answer).2 := by
  unfold gate
  simp only
  split
  · exact .polled hs (.inr ⟨_, rfl⟩)
  · split
    · exact .polled hs (.inl rfl)
    · split
      · exact .polled hs (.inr ⟨_, rfl⟩)
      · split
        all_goals exact .polled hs (.inr ⟨_, rfl⟩)

theorem dispatch_moves (hs : p.stage = .Passed) (h : p.dispatch e answer = some (e', p')) :
    ProducerMove e p e' p' := by
  unfold dispatch at h
  split at h
  · rename_i hm
    split at h
    · cases h
      exact .turned (.inl hs)
    · split at h
      · split at h
        · split at h
          all_goals
            cases h
            exact .turned (.inl hs)
        · split at h
          · rename_i hp
            cases h
            exact .listed hs hm (List.isPerm_iff.mp hp)
          · cases h
      · cases h
  · rename_i hm
    cases h
    exact .counted hs (by simpa using hm)

theorem enqueue_moves (hs : p.stage = .Counted) (h : p.enqueue e answer = some (e', p')) :
    ProducerMove e p e' p' := by
  unfold enqueue at h
  split at h
  · split at h <;> cases h
    exact .refused hs
  · split at h <;> cases h
    exact .refused hs
  · split at h
    · cases h
      exact .refused hs
    · rename_i ho
      split at h
      · split at h <;> cases h
        exact .refused hs
      · rename_i hf
        cases h
        exact .held hs (by simpa using ho) hf

theorem hand_over_moves (hs : p.stage = .Holding)
    (h : p.hand_over e answer = some (e', p')) : ProducerMove e p e' p' := by
  unfold hand_over at h
  split at h
  · split at h <;> cases h
    exact .let_go hs
  · split at h <;> cases h
    exact .let_go hs
  · cases h
    exact .pushed hs

theorem commit_moves (hs : p.stage = .Pushed) : ProducerMove e p (p.commit e).1 (p.commit e).2 := by
  unfold commit
  split
  · exact .waits hs
  · exact .turned (.inr (.inl hs))

theorem await_reply_moves (hs : p.stage = .Replying)
    (h : p.await_reply e answer = some (e', p')) : ProducerMove e p e' p' := by
  unfold await_reply at h
  split at h
  · cases h
    exact .turned (.inr (.inr hs))
  · cases h
    exact .turned (.inr (.inr hs))
  · split at h <;> cases h
    all_goals exact .turned (.inr (.inr hs))

theorem reserve_moves {todo : List Nat} (hs : p.stage = .Reserving permits todo)
    (h : p.reserve e permits todo answer = some (e', p')) : ProducerMove e p e' p' := by
  unfold reserve at h
  split at h
  · split at h <;> cases h
    exact .gives_up hs rfl
  · split at h <;> cases h
    exact .gives_up hs rfl
  · split at h
    · cases h
      exact .counted_in hs
    · split at h
      · cases h
        exact .gives_up hs rfl
      · rename_i ho
        split at h
        · split at h <;> cases h
          exact .gives_up hs rfl
        · rename_i hf
          cases h
          exact .reserved hs (by simpa using ho) hf

theorem release_moves {outcome : Outcome} (hs : p.stage = .Releasing permits outcome) :
    ProducerMove e p (p.release e permits outcome).1 (p.release e permits outcome).2 := by
  unfold release
  cases permits with
  | nil => exact .gave_up hs
  | cons c permits => exact .released hs

theorem send_moves (hs : p.stage = .Sending permits) :
    ProducerMove e p (p.send e permits).1 (p.send e permits).2 := by
  unfold send
  cases permits with
  | nil => exact .committed hs
  | cons c permits => exact .sent hs

theorem advance_moves (h : p.advance e answer = some (e', p')) : ProducerMove e p e' p' := by
  unfold advance at h
  split at h
  · rename_i hs
    have hm := gate_moves (e := e) answer hs
    rwa [some.inj h] at hm
  · rename_i hs
    exact dispatch_moves hs h
  · rename_i hs
    exact enqueue_moves hs h
  · rename_i hs
    exact hand_over_moves hs h
  · rename_i hs
    have hm := commit_moves (e := e) hs
    rwa [some.inj h] at hm
  · rename_i hs
    exact await_reply_moves hs h
  · rename_i hs
    exact reserve_moves hs h
  · rename_i hs
    have hm := release_moves (e := e) hs
    rwa [some.inj h] at hm
  · rename_i hs
    have hm := send_moves (e := e) hs
    rwa [some.inj h] at hm
  · cases h

end SedaProducer

/-! ## Forwarders -/

/-- The copy that the forwarder has a claim on. -/
def ForwarderStage.forwards : ForwarderStage → Bool
  | .Forwarding _ => true
  | _ => false

inductive ForwarderMove (e : SedaEndpointState) (f : Forwarder) :
    SedaEndpointState → Forwarder → Prop
  | waits {e' : SedaEndpointState} {stage : ForwarderStage} (hold : f.stage.forwards = false)
      (hnew : stage.forwards = false) (halike : Alike e e') : ForwarderMove e f e' (f.goes stage)
  | received {e' : SedaEndpointState} {c : Nat} {env : Envelope} (hold : f.stage.forwards = false)
      (hqueue : (e.queue c).head? = some env) (halike : Alike (e.on c Channel.pop) e') :
      ForwarderMove e f e' (f.goes (.Forwarding env))
  | forwarded {e' : SedaEndpointState} {stage : ForwarderStage} (hold : f.stage.forwards = true)
      (hnew : stage.forwards = false) (halike : Alike (e.count (-1)) e') :
      ForwarderMove e f e' (f.goes stage)

namespace Forwarder

variable {e e' : SedaEndpointState} {f f' : Forwarder} {answer : Answer}

theorem begin_moves (hs : f.stage.forwards = false) (h : f.begin e = some (e', f')) :
    ForwarderMove e f e' f' := by
  unfold begin at h
  split at h
  · cases h
  · split at h
    · cases h
    · cases h
      exact .waits hs rfl (.on_session e _ _)

theorem lock_moves (hs : f.stage.forwards = false) (h : f.lock e answer = some (e', f')) :
    ForwarderMove e f e' f' := by
  unfold lock at h
  split at h
  · cases h
    exact .waits hs rfl (.refl e)
  · split at h
    · cases h
    · split at h
      · cases h
      · split at h
        · cases h
          exact .waits hs rfl (.refl e)
        · cases h
          exact .waits hs rfl (.on_session e _ _)

theorem recv_moves {c : Nat} (hs : f.stage.forwards = false)
    (h : f.recv e c answer = some (e', f')) : ForwarderMove e f e' f' := by
  unfold recv at h
  split at h
  · cases h
    exact .waits hs rfl (.on_session e _ _)
  · split at h
    · cases h
    · split at h
      · cases h
        exact .waits hs rfl (.on_session e _ _)
      · cases h
  · split at h
    · rename_i hq
      cases h
      exact .received hs (by rw [hq]; rfl) (.on_session _ _ _)
    · split at h
      · cases h
      · cases h
        exact .waits hs rfl (.on_session e _ _)

theorem forward_moves {env : Envelope} (hs : f.stage = .Forwarding env)
    (h : f.forward e env answer = some (e', f')) : ForwarderMove e f e' f' := by
  have hf : f.stage.forwards = true := by rw [hs]; rfl
  have hc : ∀ r, Alike (e.count (-1)) ((e.reply env r).count (-1)) := by
    intro r
    have ha := Alike.reply e env r
    refine ⟨ha.config, ha.channels, ?_, ha.calls, ha.subscribers⟩
    simp only [SedaEndpointState.count, ha.depth]
  unfold forward at h
  split at h
  · cases h
    exact .forwarded hf rfl (hc _)
  · cases h
    exact .forwarded hf rfl (hc _)
  · cases h

theorem advance_moves (h : f.advance e answer = some (e', f')) : ForwarderMove e f e' f' := by
  unfold advance at h
  split at h
  · rename_i hs
    exact begin_moves (by rw [hs]; rfl) h
  · rename_i hs
    exact lock_moves (by rw [hs]; rfl) h
  · rename_i hs
    exact recv_moves (by rw [hs]; rfl) h
  · rename_i hs
    exact forward_moves hs h
  · cases h

end Forwarder

/-! ## Consumers -/

/-- A start changes the channels only where it opens one of its own, in fanout mode. -/
inductive StarterMove (e : SedaEndpointState) (t : Starter) :
    SedaEndpointState → Starter → Prop
  | stays {e' : SedaEndpointState} {result : Except error.CamelError Unit} (halike : Alike e e') :
      StarterMove e t e' { t with result := some result }
  | subscribed {e' : SedaEndpointState} (hmode : e.config.multiple_consumers = true)
      (halike : Alike { e with
        channels := e.channels ++ [.new e.config.size],
        subscribers := e.subscribers.filter (fun sub => sub.1 ≠ t.consumer) ++
          [(t.consumer, e.channels.length)] } e') :
      StarterMove e t e' { t with result := some (.ok ()) }

namespace Starter

variable {e e' : SedaEndpointState} {t t' : Starter}

theorem start_moves : StarterMove e t (start e t.consumer).1
    { t with result := some (start e t.consumer).2 } := by
  unfold start
  split
  · exact .stays (.refl e)
  · split
    · rename_i hm
      exact .subscribed hm (.opens _ _ _ _)
    · split
      · exact .stays (.refl e)
      · exact .stays ⟨rfl, rfl, rfl, rfl, rfl⟩

theorem advance_moves (h : t.advance e = some (e', t')) : StarterMove e t e' t' := by
  unfold advance at h
  split at h
  · cases h
  · split at h
    · cases h
    · cases h
      exact start_moves

end Starter

/-- The stop has the receiver of a fanout channel in hand. -/
def StopperStage.drains : StopperStage → Bool
  | .Draining .. | .Returning .. | .Dropping .. => true
  | _ => false

inductive StopperMove (e : SedaEndpointState) (t : Stopper) :
    SedaEndpointState → Stopper → Prop
  | goes {e' : SedaEndpointState} {stage : StopperStage} (hold : t.stage.drains = false)
      (hnew : stage.drains = false) (halike : Alike e e') : StopperMove e t e' (t.goes stage)
  | left {e' : SedaEndpointState} {stage : StopperStage} (hold : t.stage.drains = false)
      (hnew : stage.drains = false)
      (halike : Alike { e with
        subscribers := e.subscribers.filter fun sub => sub.1 ≠ t.consumer } e') :
      StopperMove e t e' (t.goes stage)
  | took {e' : SedaEndpointState} {s c : Nat} (hold : t.stage.drains = false)
      (hmode : e.config.multiple_consumers = true) (halike : Alike e e') :
      StopperMove e t e' (t.goes (.Draining s c 0))
  | drained {s c discarded : Nat} {env : Envelope} (hstage : t.stage = .Draining s c discarded)
      (hqueue : (e.queue c).head? = some env) :
      StopperMove e t (e.on c Channel.pop) (t.goes (.Draining s c (discarded + 1)))
  | emptied {s c discarded : Nat} (hstage : t.stage = .Draining s c discarded) :
      StopperMove e t e (t.goes (.Returning s c discarded))
  | returned {s c discarded : Nat} (hstage : t.stage = .Returning s c discarded) :
      StopperMove e t (e.count (-discarded)) (t.goes (.Dropping s c))
  | dropped {e' : SedaEndpointState} {s c : Nat} (hstage : t.stage = .Dropping s c)
      (halike : Alike (e.on c Channel.close) e') : StopperMove e t e' (t.goes .Done)

namespace Stopper

variable {e e' : SedaEndpointState} {t t' : Stopper}

theorem begin_moves (hs : t.stage = .Begin) (h : t.begin e = some (e', t')) :
    StopperMove e t e' t' := by
  have hold : t.stage.drains = false := by rw [hs]; rfl
  unfold begin at h
  split at h
  · cases h
  · split at h
    · cases h
      exact .goes hold rfl (.refl e)
    · cases h
      exact .goes hold rfl (.on_consumer e _ _)

/-- Leaving touches the subscribers or the flag, whatever is done to the consumer after it. -/
theorem leave_moves (hold : t.stage.drains = false) {stage : StopperStage}
    (hn : stage.drains = false) (ha : Alike (leave e t.consumer) e') :
    StopperMove e t e' (t.goes stage) := by
  unfold leave at ha
  simp only at ha
  split at ha
  · exact .left hold hn ⟨ha.config, ha.channels, ha.depth, ha.calls, ha.subscribers⟩
  · exact .goes hold hn ⟨ha.config, ha.channels, ha.depth, ha.calls, ha.subscribers⟩

theorem take_moves {s : Nat} (hs : t.stage = .Locking s) (h : t.take e s = some (e', t')) :
    StopperMove e t e' t' := by
  have hold : t.stage.drains = false := by rw [hs]; rfl
  unfold take at h
  split at h
  · cases h
  · split at h
    · cases h
    · split at h
      · cases h
        exact .goes hold rfl (.on_consumer e _ _)
      · simp only at h
        split at h
        · rename_i hm
          cases h
          exact .took hold hm (.on_session e _ _)
        · cases h
          exact .goes hold rfl (.on_session e _ _)

theorem drain_moves {s c discarded : Nat} (hs : t.stage = .Draining s c discarded) :
    StopperMove e t (t.drain e s c discarded).1 (t.drain e s c discarded).2 := by
  unfold drain
  split
  · exact .emptied hs
  · rename_i hq
    exact .drained hs (by rw [hq]; rfl)

theorem advance_moves (h : t.advance e = some (e', t')) : StopperMove e t e' t' := by
  unfold advance at h
  split at h
  · rename_i hs
    exact begin_moves hs h
  · rename_i hs
    have hold : t.stage.drains = false := by rw [hs]; rfl
    split at h
    · cases h
      exact leave_moves hold rfl (.on_consumer _ _ _)
    · cases h
      exact leave_moves hold rfl (.refl _)
  · rename_i hs
    exact take_moves hs h
  · rename_i hs
    cases h
    exact .goes (by rw [hs]; rfl) rfl ⟨rfl, rfl, rfl, rfl, rfl⟩
  · rename_i hs
    have hm := drain_moves (e := e) hs
    rwa [some.inj h] at hm
  · rename_i hs
    cases h
    exact .returned hs
  · rename_i hs
    cases h
    exact .dropped hs ⟨rfl, rfl, rfl, rfl, rfl⟩
  · cases h

end Stopper

/-! ## Any task -/

inductive Move (e e' : SedaEndpointState) : Task → Task → Prop
  | producer {p p' : SedaProducer} (h : ProducerMove e p e' p') :
      Move e e' (.producer p) (.producer p')
  | forwarder {f f' : Forwarder} (h : ForwarderMove e f e' f') :
      Move e e' (.forwarder f) (.forwarder f')
  | starter {t t' : Starter} (h : StarterMove e t e' t') : Move e e' (.starter t) (.starter t')
  | stopper {t t' : Stopper} (h : StopperMove e t e' t') : Move e e' (.stopper t) (.stopper t')

theorem Task.advance_moves {e e' : SedaEndpointState} {t t' : Task} {answer : Answer}
    (h : t.advance e answer = some (e', t')) : Move e e' t t' := by
  cases t with
  | producer p =>
    obtain ⟨⟨next, p'⟩, ha, heq⟩ := map_eq_some_iff.mp h
    cases heq
    exact .producer (SedaProducer.advance_moves ha)
  | forwarder f =>
    obtain ⟨⟨next, f'⟩, ha, heq⟩ := map_eq_some_iff.mp h
    cases heq
    exact .forwarder (Forwarder.advance_moves ha)
  | starter t =>
    obtain ⟨⟨next, t'⟩, ha, heq⟩ := map_eq_some_iff.mp h
    cases heq
    exact .starter (Starter.advance_moves ha)
  | stopper t =>
    obtain ⟨⟨next, t'⟩, ha, heq⟩ := map_eq_some_iff.mp h
    cases heq
    exact .stopper (Stopper.advance_moves ha)

/-! ## What any step leaves -/

/-- Receivers are dropped and never taken up again, and nothing is forgotten. -/
structure Grows (e e' : SedaEndpointState) : Prop where
  config : e'.config = e.config
  calls : e.calls ≤ e'.calls
  length : e.channels.length ≤ e'.channels.length
  was_open : ∀ c, c < e.channels.length → e'.is_open c = true → e.is_open c = true

section

variable {e e' : SedaEndpointState}

theorem Alike.grows {e₁ : SedaEndpointState} (ha : Alike e₁ e') (h : Grows e e₁) : Grows e e' where
  config := ha.config.trans h.config
  calls := by
    rw [ha.calls]
    exact h.calls
  length := by
    rw [ha.channels]
    exact h.length
  was_open := by
    intro c hc ho
    rw [ha.is_open] at ho
    exact h.was_open c hc ho

theorem Grows.of_channels (hc : e'.config = e.config) (hca : e.calls ≤ e'.calls)
    (hch : e'.channels = e.channels) : Grows e e' where
  config := hc
  calls := hca
  length := Nat.le_of_eq (by rw [hch])
  was_open := by
    intro c _ ho
    unfold SedaEndpointState.is_open at ho ⊢
    rwa [hch] at ho

theorem Grows.refl (e : SedaEndpointState) : Grows e e := .of_channels rfl (Nat.le_refl _) rfl

theorem Grows.count (n : Int) : Grows e (e.count n) := .of_channels rfl (Nat.le_refl _) rfl

theorem Grows.on (c : Nat) (f : Channel → Channel)
    (h : ∀ ch, (f ch).is_open = true → ch.is_open = true) : Grows e (e.on c f) where
  config := rfl
  calls := Nat.le_refl _
  length := by simp [SedaEndpointState.on]
  was_open := by
    intro d _ ho
    unfold SedaEndpointState.is_open at ho ⊢
    rw [SedaEndpointState.channel_on] at ho
    split at ho
    · cases hc : e.channels[d]? with
      | none => simp [hc] at ho
      | some ch => simpa [hc] using h ch (by simpa [hc] using ho)
    · exact ho

theorem send_opens_none (env : Envelope) (ch : Channel)
    (h : (Channel.send env ch).is_open = true) : ch.is_open = true := by
  unfold Channel.send at h
  split at h
  · exact h
  · exact h

theorem ProducerMove.grows {p p' : SedaProducer} (h : ProducerMove e p e' p') : Grows e e' := by
  cases h with
  | polled hs hn => exact .of_channels rfl (Nat.le_succ _) rfl
  | counted hs hm => exact .count 1
  | refused hs => exact .count (-1)
  | held hs ho hf => exact .on 0 Channel.reserve fun _ h => h
  | let_go hs =>
    have hr : Grows e (e.on 0 Channel.release) := .on 0 Channel.release fun _ h => h
    exact ⟨hr.config, hr.calls, hr.length, hr.was_open⟩
  | pushed hs => exact .on 0 _ (send_opens_none _)
  | @reserved permits todo c hs ho hf => exact .on c Channel.reserve fun _ h => h
  | @released permits c outcome hs => exact .on c Channel.release fun _ h => h
  | counted_in hs => exact .count _
  | @sent permits c hs => exact .on c _ (send_opens_none _)
  | _ => exact .refl e

theorem ForwarderMove.grows {f f' : Forwarder} (h : ForwarderMove e f e' f') : Grows e e' := by
  cases h with
  | waits hold hn ha => exact ha.grows (.refl e)
  | @received c env hold hq ha => exact ha.grows (.on c Channel.pop fun _ h => h)
  | forwarded hold hn ha => exact ha.grows (.count (-1))

theorem StarterMove.grows {t t' : Starter} (h : StarterMove e t e' t') : Grows e e' := by
  cases h with
  | stays ha => exact ha.grows (.refl e)
  | subscribed hm ha =>
    refine ha.grows ⟨rfl, Nat.le_refl _, by simp, ?_⟩
    intro c hc ho
    unfold SedaEndpointState.is_open at ho ⊢
    simp only at ho
    rwa [List.getElem?_append_left hc] at ho

theorem StopperMove.grows {t t' : Stopper} (h : StopperMove e t e' t') : Grows e e' := by
  cases h with
  | goes hold hn ha | took hold hm ha => exact ha.grows (.refl e)
  | left hold hn ha => exact ha.grows (.of_channels rfl (Nat.le_refl _) rfl)
  | drained hs hq => exact .on _ Channel.pop fun _ h => h
  | emptied hs => exact .refl e
  | returned hs => exact .count _
  | dropped hs ha =>
    refine ha.grows (.on _ Channel.close ?_)
    intro ch h
    simp [Channel.close] at h

theorem Move.grows {t t' : Task} (h : Move e e' t t') : Grows e e' := by
  cases h with
  | producer h | forwarder h | starter h | stopper h => exact h.grows

end

end camel_component_seda
