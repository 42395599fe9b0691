-- The depth counter of an endpoint. Every unit of it has one owner: a copy in a queue, the
-- guard of a producer, the claim of a forwarder, or what a stop discarded and has yet to give
-- back.
import RustCamel.Seda.Moves

namespace camel_component_seda

open camel_api List

/-! ## Who answers for the counter -/

/-- The copies that stand in the queues. -/
def queued (e : SedaEndpointState) : Nat := (e.channels.map fun ch => ch.queue.length).sum

/-- How much of the counter a producer answers for: what it counted in and has not put in a
queue. -/
def ProducerStage.owed : ProducerStage → Nat
  | .Counted | .Holding => 1
  | .Sending permits => permits.length
  | _ => 0

def ForwarderStage.owed : ForwarderStage → Nat
  | .Forwarding _ => 1
  | _ => 0

def StopperStage.owed : StopperStage → Nat
  | .Draining _ _ discarded | .Returning _ _ discarded => discarded
  | _ => 0

def Task.owed : Task → Nat
  | .producer p => p.stage.owed
  | .forwarder f => f.stage.owed
  | .starter _ => 0
  | .stopper t => t.stage.owed

/-- A forwarder has a copy in hand. -/
def Task.forwards : Task → Bool
  | .forwarder f => f.stage.forwards
  | _ => false

/-- A producer is between counting in and committing. -/
def Task.counting : Task → Bool
  | .producer p =>
    match p.stage with
    | .Counted | .Holding | .Pushed | .Sending _ => true
    | _ => false
  | _ => false

/-- The copies that are being forwarded. -/
def forwarding (tasks : List Task) : Nat := tasks.countP Task.forwards

/-! ## What the channel operations do to the queues -/

section

variable {e e' : SedaEndpointState} {c : Nat} {ch : Channel} {f : Channel → Channel}

theorem queued_alike (h : Alike e e') : queued e' = queued e := by
  unfold queued
  rw [h.channels]

theorem on_of_missing (h : e.channels[c]? = none) : e.on c f = e := by
  unfold SedaEndpointState.on
  rw [modify_eq_set_getElem?, h]
  rfl

theorem queued_on_add (h : e.channels[c]? = some ch) :
    queued (e.on c f) + ch.queue.length = queued e + (f ch).queue.length :=
  sum_map_modify_add (fun ch => ch.queue.length) f h

theorem queued_on_same (h : ∀ ch, (f ch).queue = ch.queue) : queued (e.on c f) = queued e := by
  cases hc : e.channels[c]? with
  | none => rw [on_of_missing hc]
  | some ch =>
    have ha := queued_on_add (f := f) hc
    rw [h ch] at ha
    omega

section

variable (e : SedaEndpointState)

theorem queued_count (n : Int) : queued (e.count n) = queued e := rfl

theorem depth_count (n : Int) : (e.count n).depth = e.depth + n := rfl

theorem depth_on (c : Nat) (f : Channel → Channel) : (e.on c f).depth = e.depth := rfl

end

theorem queued_send_le (env : Envelope) : queued (e.on c (Channel.send env)) ≤ queued e + 1 := by
  cases hc : e.channels[c]? with
  | none =>
    rw [on_of_missing hc]
    omega
  | some ch =>
    have ha := queued_on_add (f := Channel.send env) hc
    have hl : (Channel.send env ch).queue.length ≤ ch.queue.length + 1 := by
      unfold Channel.send
      split
      · simp
      · omega
    omega

theorem queued_send_open (env : Envelope) (ho : e.is_open c = true) :
    queued (e.on c (Channel.send env)) = queued e + 1 := by
  unfold SedaEndpointState.is_open at ho
  cases hc : e.channels[c]? with
  | none => simp [hc] at ho
  | some ch =>
    have ha := queued_on_add (f := Channel.send env) hc
    have hl : (Channel.send env ch).queue.length = ch.queue.length + 1 := by
      have : ch.is_open = true := by simpa [hc] using ho
      simp [Channel.send, this]
    omega

theorem queued_pop {env : Envelope} (hq : (e.queue c).head? = some env) :
    queued (e.on c Channel.pop) + 1 = queued e := by
  unfold SedaEndpointState.queue at hq
  cases hc : e.channels[c]? with
  | none => simp [hc] at hq
  | some ch =>
    have ha := queued_on_add (f := Channel.pop) hc
    simp only [hc, Option.map_some, Option.getD_some] at hq
    obtain ⟨rest, hr⟩ := head?_eq_some_iff.mp hq
    simp only [Channel.pop, hr, tail_cons, length_cons] at ha
    omega

theorem queued_close_le : queued (e.on c Channel.close) ≤ queued e := by
  cases hc : e.channels[c]? with
  | none => exact Nat.le_of_eq (by rw [on_of_missing hc])
  | some ch =>
    have ha := queued_on_add (f := Channel.close) hc
    simp only [Channel.close, length_nil] at ha
    omega

end

/-! ## One step -/

/-- The task is in a stage that only fanout mode leads to. -/
def Task.in_fanout : Task → Bool
  | .producer p =>
    match p.stage with
    | .Reserving .. | .Releasing .. | .Sending _ => true
    | _ => false
  | .stopper t => t.stage.drains
  | _ => false

/-- What the counter says beyond the queues and beyond what one task answers for. -/
def slack (e : SedaEndpointState) (t : Task) : Int := e.depth - queued e - t.owed

/-- The slack does not shrink, and outside of fanout it stays, as the one channel there is
stays open. -/
def Settles (e e' : SedaEndpointState) (t t' : Task) : Prop :=
  slack e t ≤ slack e' t' ∧ (t.in_fanout = false → e.is_open 0 = true → slack e' t' = slack e t)

variable {t t' : Task} {config : SedaConfig} {s : Interleaving.State SedaEndpointState Task}
  {stage : ForwarderStage}

section

variable {e e' : SedaEndpointState}

theorem settles_of_eq (h : slack e' t' = slack e t) : Settles e e' t t' :=
  ⟨Int.le_of_eq h.symm, fun _ _ => h⟩

theorem slack_alike {e₁ : SedaEndpointState} (h : Alike e₁ e') (t : Task) :
    slack e' t = slack e₁ t := by
  unfold slack
  rw [queued_alike h, h.depth]

theorem ProducerMove.settles {p p' : SedaProducer} (h : ProducerMove e p e' p') :
    Settles e e' (.producer p) (.producer p') := by
  cases h with
  | polled hs hn =>
    apply settles_of_eq
    rcases hn with rfl | ⟨outcome, rfl⟩ <;>
      simp only [slack, queued, Task.owed, hs, ProducerStage.owed]
  | turned hs =>
    apply settles_of_eq
    rcases hs with hs | hs | hs
    all_goals
      simp only [slack, Task.owed, hs, ProducerStage.owed, SedaProducer.ends, SedaProducer.goes]
  | counted hs | refused hs | counted_in hs =>
    apply settles_of_eq
    simp only [slack, queued_count, Task.owed, hs, ProducerStage.owed, SedaProducer.ends,
      SedaProducer.goes, depth_count]
    omega
  | held hs ho hfr =>
    apply settles_of_eq
    have hq := queued_on_same (e := e) (c := 0) (f := Channel.reserve) fun _ => rfl
    simp only [slack, hq, depth_on, Task.owed, hs, ProducerStage.owed, SedaProducer.goes]
  | let_go hs =>
    apply settles_of_eq
    have hq := queued_on_same (e := e) (c := 0) (f := Channel.release) fun _ => rfl
    simp only [slack, queued_count, hq, Task.owed, hs, ProducerStage.owed,
      SedaProducer.ends, SedaProducer.goes, depth_count, depth_on]
    omega
  | pushed hs =>
    constructor
    · have hq := queued_send_le (e := e) (c := 0) (p.envelope e.config)
      simp only [slack, Task.owed, hs, ProducerStage.owed, SedaProducer.goes]
      simp only [depth_on]
      omega
    · intro _ ho
      have hq := queued_send_open (p.envelope e.config) ho
      simp only [slack, hq, Task.owed, hs, ProducerStage.owed, SedaProducer.goes]
      simp only [depth_on]
      omega
  | listed hs | waits hs | gives_up hs | gave_up hs | committed hs =>
    apply settles_of_eq
    simp only [slack, Task.owed, hs, ProducerStage.owed, SedaProducer.ends, SedaProducer.goes,
      length_nil]
  | @reserved permits todo c hs ho hfr =>
    apply settles_of_eq
    have hq := queued_on_same (e := e) (c := c) (f := Channel.reserve) fun _ => rfl
    simp only [slack, hq, depth_on, Task.owed, hs, ProducerStage.owed, SedaProducer.goes]
  | @released permits c outcome hs =>
    apply settles_of_eq
    have hq := queued_on_same (e := e) (c := c) (f := Channel.release) fun _ => rfl
    simp only [slack, hq, depth_on, Task.owed, hs, ProducerStage.owed, SedaProducer.goes]
  | @sent permits c hs =>
    constructor
    · have hq := queued_send_le (e := e) (c := c) (p.envelope e.config)
      simp only [slack, Task.owed, hs, ProducerStage.owed, SedaProducer.goes, length_cons]
      simp only [depth_on]
      omega
    · intro hfa
      simp [Task.in_fanout, hs] at hfa

theorem owed_of_waiting (h : stage.forwards = false) : stage.owed = 0 := by
  cases stage with
  | Forwarding env => simp [ForwarderStage.forwards] at h
  | _ => rfl

theorem owed_of_forwarding (h : stage.forwards = true) : stage.owed = 1 := by
  cases stage with
  | Forwarding env => rfl
  | _ => simp [ForwarderStage.forwards] at h

theorem ForwarderMove.settles {f f' : Forwarder} (h : ForwarderMove e f e' f') :
    Settles e e' (.forwarder f) (.forwarder f') := by
  apply settles_of_eq
  cases h with
  | waits hold hn ha =>
    rw [slack_alike ha]
    simp only [slack, Task.owed, Forwarder.goes, owed_of_waiting hold, owed_of_waiting hn]
  | @received c env hold hq ha =>
    rw [slack_alike ha]
    have hqu := queued_pop hq
    have ho : (ForwarderStage.Forwarding env).owed = 1 := rfl
    simp only [slack, Task.owed, Forwarder.goes, owed_of_waiting hold, ho]
    simp only [depth_on]
    omega
  | forwarded hold hn ha =>
    rw [slack_alike ha]
    simp only [slack, Task.owed, Forwarder.goes, owed_of_forwarding hold, owed_of_waiting hn,
      queued_count, depth_count]
    omega

theorem StarterMove.settles {t t' : Starter} (h : StarterMove e t e' t') :
    Settles e e' (.starter t) (.starter t') := by
  apply settles_of_eq
  cases h with
  | stays ha =>
    rw [slack_alike ha]
    simp only [slack, Task.owed]
  | subscribed hm ha =>
    rw [slack_alike ha]
    simp only [slack, Task.owed, queued, map_append, sum_append]
    simp [Channel.new]

theorem owed_of_not_draining {stage : StopperStage} (h : stage.drains = false) :
    stage.owed = 0 := by
  cases stage with
  | Draining s c discarded | Returning s c discarded => simp [StopperStage.drains] at h
  | _ => rfl

theorem StopperMove.settles {t t' : Stopper} (h : StopperMove e t e' t') :
    Settles e e' (.stopper t) (.stopper t') := by
  cases h with
  | goes hold hn ha | left hold hn ha =>
    apply settles_of_eq
    rw [slack_alike ha]
    simp only [slack, queued, Task.owed, Stopper.goes, owed_of_not_draining hold,
      owed_of_not_draining hn]
  | @took e' s c hold hm ha =>
    apply settles_of_eq
    rw [slack_alike ha]
    have hzero : (StopperStage.Draining s c 0).owed = 0 := rfl
    simp only [slack, Task.owed, Stopper.goes, owed_of_not_draining hold, hzero]
  | drained hs hq =>
    apply settles_of_eq
    have hqu := queued_pop hq
    simp only [slack, Task.owed, Stopper.goes, hs, StopperStage.owed]
    simp only [depth_on]
    omega
  | emptied hs =>
    apply settles_of_eq
    simp only [slack, Task.owed, Stopper.goes, hs, StopperStage.owed]
  | returned hs =>
    apply settles_of_eq
    simp only [slack, Task.owed, Stopper.goes, hs, StopperStage.owed, queued_count, depth_count]
    omega
  | @dropped e' s c hs ha =>
    constructor
    · rw [slack_alike ha]
      have hqu := queued_close_le (e := e) (c := c)
      simp only [slack, Task.owed, Stopper.goes, hs, StopperStage.owed]
      simp only [depth_on]
      omega
    · intro hf
      simp [Task.in_fanout, hs, StopperStage.drains] at hf

theorem Move.settles (h : Move e e' t t') : Settles e e' t t' := by
  cases h with
  | producer h | forwarder h | starter h | stopper h => exact h.settles

end

/-! ## Whole runs -/

section

variable {e e' : SedaEndpointState}

theorem ProducerMove.single {p p' : SedaProducer} (h : ProducerMove e p e' p')
    (hmo : e.config.multiple_consumers = false) (hfa : (Task.producer p).in_fanout = false) :
    (Task.producer p').in_fanout = false ∧ e'.is_open 0 = e.is_open 0 := by
  cases h with
  | polled hs hn =>
    refine ⟨?_, rfl⟩
    rcases hn with rfl | ⟨outcome, rfl⟩
    · rfl
    · rfl
  | listed hs hm hse => simp [hmo] at hm
  | held hs ho hfr | let_go hs => exact ⟨rfl, SedaEndpointState.is_open_on fun _ => rfl⟩
  | pushed hs => exact ⟨rfl, SedaEndpointState.is_open_send _⟩
  | reserved hs ho hfr
  | gives_up hs hf
  | counted_in hs
  | released hs
  | sent hs => simp [Task.in_fanout, hs] at hfa
  | _ => exact ⟨rfl, rfl⟩

theorem StopperMove.single {t t' : Stopper} (h : StopperMove e t e' t')
    (hmo : e.config.multiple_consumers = false) (hf : (Task.stopper t).in_fanout = false) :
    (Task.stopper t').in_fanout = false ∧ e'.is_open 0 = e.is_open 0 := by
  cases h with
  | goes hold hn ha | left hold hn ha => exact ⟨hn, ha.is_open 0⟩
  | took hold hm ha => simp [hmo] at hm
  | drained hs hq
  | emptied hs
  | returned hs
  | dropped hs ha => simp [Task.in_fanout, hs, StopperStage.drains] at hf

theorem Move.single (h : Move e e' t t') (hmo : e.config.multiple_consumers = false)
    (hf : t.in_fanout = false) : t'.in_fanout = false ∧ e'.is_open 0 = e.is_open 0 := by
  cases h with
  | producer h | stopper h => exact h.single hmo hf
  | forwarder h =>
    refine ⟨rfl, ?_⟩
    cases h with
    | waits hold hn ha | forwarded hold hn ha => exact ha.is_open 0
    | received hold hq ha =>
      exact (ha.is_open 0).trans (SedaEndpointState.is_open_on fun _ => rfl)
  | starter h =>
    refine ⟨rfl, ?_⟩
    cases h with
    | stays ha => exact ha.is_open 0
    | subscribed hm ha => simp [hmo] at hm

end

def owed (tasks : List Task) : Nat := (tasks.map Task.owed).sum

/-- The counter covers the queues and what the tasks answer for, and in single mode, where the
channel stays open, it says no more. -/
structure Balanced (config : SedaConfig) (s : Interleaving.State SedaEndpointState Task) :
    Prop where
  same_config : s.shared.config = config
  covered : queued s.shared + owed s.tasks ≤ s.shared.depth
  single : config.multiple_consumers = false → s.shared.is_open 0 = true ∧
    (∀ t ∈ s.tasks, t.in_fanout = false) ∧ s.shared.depth = queued s.shared + owed s.tasks

theorem idle_balanced (config : SedaConfig) : Balanced config (idle config) where
  same_config := rfl
  covered := by
    unfold idle SedaEndpointState.new queued owed
    by_cases hm : config.multiple_consumers = true
    · simp [hm]
    · simp [hm, Channel.new]
  single := by
    intro hm
    refine ⟨?_, by simp [idle], ?_⟩
    · simp [idle, SedaEndpointState.new, SedaEndpointState.is_open, hm, Channel.new]
    · simp [idle, SedaEndpointState.new, queued, owed, hm, Channel.new]

theorem begin_owes_nothing (a : Spawn) :
    (Task.begin a).owed = 0 ∧ (Task.begin a).in_fanout = false := by
  cases a <;> exact ⟨rfl, rfl⟩

theorem Balanced.spawn (h : Balanced config s) (a : Spawn) :
    Balanced config { s with tasks := s.tasks ++ [seda.start a] } := by
  obtain ⟨hzero, hm⟩ := begin_owes_nothing a
  have ho : owed (s.tasks ++ [seda.start a]) = owed s.tasks := by
    simp only [owed, map_append, sum_append, map_cons, map_nil, sum_cons, sum_nil]
    have : (seda.start a).owed = 0 := hzero
    omega
  refine ⟨h.same_config, ?_, ?_⟩
  · simp only [ho]
    exact h.covered
  · intro hs
    obtain ⟨hop, hf, hd⟩ := h.single hs
    simp only [ho]
    exact ⟨hop, forall_mem_concat hf hm, hd⟩

theorem Balanced.move (h : Balanced config s) {i : Nat} {e' : SedaEndpointState}
    (ht : s.tasks[i]? = some t) (hm : Move s.shared e' t t') :
    Balanced config ⟨e', s.tasks.set i t'⟩ := by
  have how : owed (s.tasks.set i t') + t.owed = owed s.tasks + t'.owed :=
    sum_map_set_add Task.owed ht
  obtain ⟨hle, heq⟩ := hm.settles
  unfold slack at hle heq
  refine ⟨hm.grows.config.trans h.same_config, ?_, ?_⟩
  · have hc := h.covered
    simp only
    omega
  · intro hs
    obtain ⟨hop, hf, hd⟩ := h.single hs
    have hmo : s.shared.config.multiple_consumers = false := by
      rw [h.same_config]
      exact hs
    have hme : t ∈ s.tasks := mem_of_getElem? ht
    obtain ⟨hf', hop'⟩ := hm.single hmo (hf t hme)
    refine ⟨hop'.trans hop, ?_, ?_⟩
    · intro other ho
      rcases mem_set_cases ht ho with rfl | ⟨j, -, hj⟩
      · exact hf'
      · exact hf other (mem_of_getElem? hj)
    · have hsl := heq (hf t hme) hop
      simp only
      omega

theorem balanced_of_reach (h : seda.Reach Interleaving.Free (idle config) s) :
    Balanced config s := by
  refine h.invariant (idle_balanced config) ?_ ?_
  · intro s a hs _
    exact hs.spawn a
  · intro s i t answer e' t' hs _ ht ha
    exact hs.move ht (Task.advance_moves ha)

theorem forwarding_le_owed (tasks : List Task) : forwarding tasks ≤ owed tasks := by
  apply countP_le_sum_map
  intro t ht
  cases t with
  | forwarder f => exact Nat.le_of_eq (owed_of_forwarding ht).symm
  | _ => simp [Task.forwards] at ht

/-- In single mode, nobody but the forwarders and the producers that are counting answers for
anything. -/
theorem owed_eq_forwarding {tasks : List Task} (hfa : ∀ t ∈ tasks, t.in_fanout = false)
    (hc : ∀ t ∈ tasks, t.counting = false) : owed tasks = forwarding tasks := by
  apply sum_map_eq_countP
  intro t ht
  have hn := hc t ht
  have hm := hfa t ht
  cases t with
  | producer p =>
    unfold Task.counting at hn
    simp only [Task.owed, Task.forwards, Bool.false_eq_true, if_false]
    cases hs : p.stage with
    | Counted | Holding | Sending permits => simp [hs] at hn
    | _ => rfl
  | forwarder f =>
    by_cases hf : f.stage.forwards = true
    · simp [Task.owed, Task.forwards, hf, owed_of_forwarding hf]
    · have hw : f.stage.forwards = false := by simpa using hf
      simp [Task.owed, Task.forwards, hw, owed_of_waiting hw]
  | starter t => rfl
  | stopper t =>
    simp only [Task.owed, Task.forwards, Bool.false_eq_true, if_false]
    exact owed_of_not_draining hm

/-- Whatever producers, forwarders and consumers do, in whatever order, the counter is at least
the number of copies that are queued or being forwarded, and in single mode it is that number
whenever no producer is between counting in and committing. -/
theorem depth_covers_copies {config : SedaConfig}
    {s : Interleaving.State SedaEndpointState Task}
    (h : seda.Reach Interleaving.Free (idle config) s) :
    queued s.shared + forwarding s.tasks ≤ s.shared.depth ∧
      (config.multiple_consumers = false → (∀ t ∈ s.tasks, t.counting = false) →
        s.shared.depth = queued s.shared + forwarding s.tasks) := by
  have hb := balanced_of_reach h
  have hle := forwarding_le_owed s.tasks
  constructor
  · have hc := hb.covered
    omega
  · intro hm hco
    obtain ⟨-, hf, hd⟩ := hb.single hm
    have heq := owed_eq_forwarding hf hco
    omega

/-- A single-mode endpoint of two slots. -/
def orders : SedaConfig := ⟨"orders", 2, 1, false, .InOnly⟩

/-- Two exchanges are produced, of which one is being forwarded. -/
def one_queued_one_forwarded : List (Interleaving.Event Spawn Answer) :=
  [.spawn (.start 0), .step 0 .go, .spawn (.forwarder 0), .step 1 .go,
    .spawn (.call ⟨true, false, 30000, .Never⟩ (.new .default)), .step 2 .go, .step 2 .go,
    .step 2 .go, .step 2 .go, .step 2 .go,
    .spawn (.call ⟨false, false, 30000, .Never⟩ (.new .default)), .step 3 .go, .step 3 .go,
    .step 3 .go, .step 3 .go, .step 3 .go,
    .step 1 .go, .step 1 .go]

theorem depth_of_one_queued_one_forwarded :
    ∃ s, seda.run (fun _ _ => true) (idle orders) one_queued_one_forwarded = some s ∧
      queued s.shared = 1 ∧ forwarding s.tasks = 1 ∧ s.shared.depth = 2 := by
  refine ⟨_, rfl, rfl, rfl, ?_⟩
  have hru : seda.run (fun _ _ => true) (idle orders) one_queued_one_forwarded = some _ := rfl
  have hr := (Interleaving.reach_of_run hru).mono fun _ _ _ => trivial
  refine ((depth_covers_copies hr).2 rfl ?_).trans rfl
  decide

end camel_component_seda
