-- A fanout call and the queues of its subscribers: either every subscriber whose receiver
-- stands at the commit has one copy, or none has any, and no slot is lost on the way.
import RustCamel.Seda.DepthAccounting

namespace camel_component_seda

open camel_api List

/-! ## The copies of a call -/

/-- The copies that a call ever put in the queue of a channel. -/
def copies (e : SedaEndpointState) (call c : Nat) : List Envelope :=
  (e.placed c).filter fun env => env.call = call

section

variable {e e' : SedaEndpointState} {c d : Nat} {f : Channel → Channel} {env : Envelope}

theorem placed_on (h : ∀ ch, (f ch).placed = ch.placed) : (e.on c f).placed d = e.placed d := by
  unfold SedaEndpointState.placed
  rw [SedaEndpointState.channel_on]
  split
  · cases e.channels[d]? with
    | none => rfl
    | some ch => simp [h ch]
  · rfl

theorem placed_pop : (e.on c Channel.pop).placed d = e.placed d := by
  apply placed_on
  intro ch
  simp only [Channel.placed, Channel.pop, append_assoc]
  rw [← drop_one, take_append_drop]

theorem placed_close : (e.on c Channel.close).placed d = e.placed d := by
  apply placed_on
  intro ch
  simp only [Channel.placed, Channel.close, append_nil]

theorem placed_send_elsewhere (h : d ≠ c) : (e.on c (Channel.send env)).placed d = e.placed d := by
  unfold SedaEndpointState.placed
  rw [SedaEndpointState.channel_on, if_neg h]

theorem placed_send_open (ho : e.is_open c = true) :
    (e.on c (Channel.send env)).placed c = e.placed c ++ [env] := by
  unfold SedaEndpointState.is_open at ho
  unfold SedaEndpointState.placed
  rw [SedaEndpointState.channel_on, if_pos rfl]
  cases hc : e.channels[c]? with
  | none => simp [hc] at ho
  | some ch =>
    have : ch.is_open = true := by simpa [hc] using ho
    simp [Channel.placed, Channel.send, this]

theorem placed_send_closed (hc : e.is_open c = false) :
    (e.on c (Channel.send env)).placed c = e.placed c := by
  unfold SedaEndpointState.is_open at hc
  unfold SedaEndpointState.placed
  rw [SedaEndpointState.channel_on, if_pos rfl]
  cases hch : e.channels[c]? with
  | none => rfl
  | some ch =>
    have : ch.is_open = false := by simpa [hch] using hc
    simp [Channel.send, this]

/-- What is ever sent is in the queue it was sent to, or was there before. -/
theorem mem_placed_send {env' : Envelope} (h : env' ∈ (e.on c (Channel.send env)).placed d) :
    env' = env ∨ env' ∈ e.placed d := by
  by_cases hd : d = c
  · subst hd
    by_cases ho : e.is_open d = true
    · rw [placed_send_open ho] at h
      simpa [or_comm] using h
    · rw [placed_send_closed (by simpa using ho)] at h
      exact .inr h
  · rw [placed_send_elsewhere hd] at h
    exact .inr h

theorem copies_send_other {call : Nat} (h : env.call ≠ call) :
    copies (e.on c (Channel.send env)) call d = copies e call d := by
  unfold copies
  by_cases hd : d = c
  · subst hd
    by_cases ho : e.is_open d = true
    · simp [placed_send_open ho, h]
    · rw [placed_send_closed (by simpa using ho)]
  · rw [placed_send_elsewhere hd]

theorem placed_alike (h : Alike e e') : e'.placed d = e.placed d := by
  unfold SedaEndpointState.placed
  rw [h.channels]

theorem placed_new (size : Nat) :
    (({ e with channels := e.channels ++ [.new size] } : SedaEndpointState).placed d) =
      e.placed d := by
  unfold SedaEndpointState.placed
  simp only [getElem?_append, getElem?_singleton]
  by_cases hd : d < e.channels.length
  · rw [if_pos hd]
  · rw [if_neg hd, getElem?_eq_none (Nat.le_of_not_lt hd)]
    split
    · rfl
    · rfl

end

/-! ## What any step leaves -/

variable {t t' : Task} {i : Nat} {ch : Channel}

section

variable {e e' : SedaEndpointState}

theorem ProducerMove.placed {p p' : SedaProducer} (h : ProducerMove e p e' p') :
    (∀ c, e'.placed c = e.placed c) ∨
      ((∃ permits c, p.stage = .Sending (c :: permits) ∧
        e' = e.on c (Channel.send (p.envelope e.config))) ∨
        p.stage = .Holding ∧ e' = e.on 0 (Channel.send (p.envelope e.config))) := by
  cases h with
  | held hs ho hf
  | let_go hs
  | reserved hs ho hf
  | released hs => exact .inl fun _ => placed_on fun _ => rfl
  | pushed hs => exact .inr (.inr ⟨hs, rfl⟩)
  | sent hs => exact .inr (.inl ⟨_, _, hs, rfl⟩)
  | _ => exact .inl fun _ => rfl

theorem ForwarderMove.placed {f f' : Forwarder} (h : ForwarderMove e f e' f') (c : Nat) :
    e'.placed c = e.placed c := by
  cases h with
  | waits hold hn ha => exact placed_alike ha
  | received hold hq ha => exact (placed_alike ha).trans placed_pop
  | forwarded hold hn ha => exact (placed_alike ha).trans rfl

theorem StarterMove.placed {t t' : Starter} (h : StarterMove e t e' t') (c : Nat) :
    e'.placed c = e.placed c := by
  cases h with
  | stays ha => exact placed_alike ha
  | subscribed hm ha => exact (placed_alike ha).trans (placed_new _)

theorem StopperMove.placed {t t' : Stopper} (h : StopperMove e t e' t') (c : Nat) :
    e'.placed c = e.placed c := by
  cases h with
  | goes hold hn ha | took hold hm ha => exact placed_alike ha
  | left hold hn ha => exact (placed_alike ha).trans rfl
  | drained hs hq => exact placed_pop
  | emptied hs | returned hs => rfl
  | dropped hs ha => exact (placed_alike ha).trans placed_close

theorem Move.copies (h : Move e e' t t') {call : Nat}
    (ho : ∀ p, t = .producer p → p.call ≠ call) (c : Nat) :
    copies e' call c = copies e call c := by
  cases h with
  | producer h =>
    rcases h.placed with hs | ⟨permits, d, -, rfl⟩ | ⟨-, rfl⟩
    · simp only [camel_component_seda.copies, hs c]
    all_goals exact copies_send_other (ho _ rfl)
  | forwarder h | starter h | stopper h => simp only [camel_component_seda.copies, h.placed c]

end

/-! ## What holds of one call -/

def NonePlaced (e : SedaEndpointState) (p : SedaProducer) : Prop := ∀ c, copies e p.call c = []

/-- Of the channels the call has sent to, each has one copy, unless its receiver was gone. No
other channel has any. -/
def Delivered (e : SedaEndpointState) (p : SedaProducer) (sent : List Nat) : Prop :=
  ∀ c, (c ∉ sent → copies e p.call c = []) ∧
    (c ∈ sent → copies e p.call c = [p.envelope e.config] ∨
      copies e p.call c = [] ∧ e.is_open c = false)

/-- What a fanout call has placed, as it stands. A call of single mode has no sender list. -/
def Stands (e : SedaEndpointState) (p : SedaProducer) : ProducerStage → Prop
  | .Called | .Counted | .Holding | .Pushed | .Replying => p.sender_list = []
  | .Passed => p.sender_list = [] ∧ NonePlaced e p
  | .Reserving permits todo => permits ++ todo = p.sender_list ∧ NonePlaced e p
  | .Releasing _ outcome => outcome.failed = true ∧ NonePlaced e p
  | .Sending permits => ∃ sent, sent ++ permits = p.sender_list ∧ Delivered e p sent
  | .Ended outcome => p.sender_list ≠ [] →
      (outcome = .returned (.ok p.exchange) ∧ Delivered e p p.sender_list ∧
        ∀ c ∈ p.live, copies e p.call c = [p.envelope e.config]) ∨
      (outcome.failed = true ∧ NonePlaced e p)

structure Kept (e : SedaEndpointState) (p : SedaProducer) : Prop where
  called : p.stage ≠ .Called → p.call < e.calls
  distinct : p.sender_list.Nodup
  in_range : ∀ c ∈ p.sender_list, c < e.channels.length
  stands : Stands e p p.stage

/-- The subscribers have channels of their own, and every envelope is of a call that began. -/
structure Sound (e : SedaEndpointState) : Prop where
  distinct : (e.subscribers.map Prod.snd).Nodup
  in_range : ∀ c ∈ e.subscribers.map Prod.snd, c < e.channels.length
  begun : ∀ c, ∀ env ∈ e.placed c, env.call < e.calls

section

variable {e e' : SedaEndpointState} {p p' : SedaProducer}

theorem Sound.fresh (h : Sound e) (c : Nat) : copies e e.calls c = [] := by
  apply filter_eq_nil_iff.mpr
  intro env he
  have := h.begun c env he
  simp only [decide_eq_true_eq]
  omega

theorem Delivered.keep {sent : List Nat} (h : Delivered e p sent) (hg : Grows e e')
    (hco : ∀ c, copies e' p.call c = copies e p.call c)
    (hr : ∀ c ∈ sent, c < e.channels.length) : Delivered e' p sent := by
  intro c
  obtain ⟨hou, hi⟩ := h c
  rw [hco c, hg.config]
  refine ⟨hou, ?_⟩
  intro hc
  rcases hi hc with hon | ⟨hn, hcl⟩
  · exact .inl hon
  · refine .inr ⟨hn, ?_⟩
    by_contra ho
    have := hg.was_open c (hr c hc) (by simpa using ho)
    simp [hcl] at this

theorem Kept.keep (h : Kept e p) (hg : Grows e e')
    (hco : ∀ c, copies e' p.call c = copies e p.call c) : Kept e' p := by
  have hn : NonePlaced e p → NonePlaced e' p := fun hn c => (hco c).trans (hn c)
  refine ⟨fun hca => Nat.lt_of_lt_of_le (h.called hca) hg.calls, h.distinct,
    fun c hc => Nat.lt_of_lt_of_le (h.in_range c hc) hg.length, ?_⟩
  have hs := h.stands
  cases hst : p.stage with
  | Passed | Reserving permits todo | Releasing permits outcome =>
    rw [hst] at hs
    exact ⟨hs.1, hn hs.2⟩
  | Sending permits =>
    rw [hst] at hs
    obtain ⟨sent, hse, hd⟩ := hs
    refine ⟨sent, hse, hd.keep hg hco ?_⟩
    intro c hc
    exact h.in_range c (by rw [← hse]; exact mem_append_left _ hc)
  | Ended outcome =>
    rw [hst] at hs
    intro hl
    rcases hs hl with ⟨ho, hd, hli⟩ | ⟨hf, hp⟩
    · refine .inl ⟨ho, hd.keep hg hco h.in_range, ?_⟩
      intro c hc
      rw [hco c, hg.config]
      exact hli c hc
    · exact .inr ⟨hf, hn hp⟩
  | _ =>
    rw [hst] at hs
    exact hs

theorem Delivered.send {sent : List Nat} {c : Nat} (h : Delivered e p sent)
    (hne : c ∉ sent) :
    Delivered (e.on c (Channel.send (p.envelope e.config))) p (sent ++ [c]) := by
  intro d
  obtain ⟨hou, hi⟩ := h d
  have hc : (e.on c (Channel.send (p.envelope e.config))).config = e.config := rfl
  rw [SedaEndpointState.is_open_send, hc]
  by_cases hd : d = c
  · subst hd
    refine ⟨fun hm => absurd (mem_append_right _ (mem_singleton.mpr rfl)) hm, ?_⟩
    intro _
    have hn := hou hne
    unfold copies at hn ⊢
    by_cases ho : e.is_open d = true
    · left
      rw [placed_send_open ho, filter_append, hn]
      simp [SedaProducer.envelope]
    · have hcl : e.is_open d = false := by simpa using ho
      right
      rw [placed_send_closed hcl]
      exact ⟨hn, hcl⟩
  · have hs : copies (e.on c (Channel.send (p.envelope e.config))) p.call d =
        copies e p.call d := by
      unfold copies
      rw [placed_send_elsewhere hd]
    rw [hs]
    refine ⟨fun hm => hou fun hold => hm (mem_append_left _ hold), ?_⟩
    intro hm
    rcases mem_append.mp hm with hold | hlast
    · exact hi hold
    · exact absurd (mem_singleton.mp hlast) hd

theorem Kept.goes (h : Kept e p) (hg : Grows e e') (hca : p.stage ≠ .Called)
    {stage : ProducerStage} (hs : Stands e' (p.goes stage) stage) :
    Kept e' (p.goes stage) where
  called := fun _ => Nat.lt_of_lt_of_le (h.called hca) hg.calls
  distinct := h.distinct
  in_range := fun c hc => Nat.lt_of_lt_of_le (h.in_range c hc) hg.length
  stands := hs

theorem ProducerMove.kept (h : ProducerMove e p e' p') (hso : Sound e) (hk : Kept e p) :
    Kept e' p' := by
  have hg := h.grows
  have hs := hk.stands
  have hnot : ∀ {stage : ProducerStage}, p.stage = stage → stage ≠ .Called →
      p.stage ≠ .Called := fun hst hne => by rwa [hst]
  -- outside of fanout there is no list, and an end says nothing
  have he : p.sender_list = [] → ∀ outcome : Outcome,
      Stands e' (p.ends outcome) (.Ended outcome) := fun hnil _ hl => absurd hnil hl
  cases h with
  | polled hst hnex =>
    rw [hst] at hs
    refine ⟨fun _ => Nat.lt_succ_self _, hk.distinct, hk.in_range, ?_⟩
    rcases hnex with rfl | ⟨outcome, rfl⟩
    · exact ⟨hs, fun c => hso.fresh c⟩
    · intro hl
      exact absurd hs hl
  | turned hst =>
    rcases hst with hst | hst | hst
    · rw [hst] at hs
      exact hk.goes hg (hnot hst (by simp)) (he hs.1 _)
    all_goals
      rw [hst] at hs
      exact hk.goes hg (hnot hst (by simp)) (he hs _)
  | counted hst hm =>
    rw [hst] at hs
    exact hk.goes hg (hnot hst (by simp)) hs.1
  | @listed senders hst hm hse =>
    rw [hst] at hs
    refine ⟨fun _ => hk.called (hnot hst (by simp)), ?_, ?_, ?_⟩
    · exact hse.nodup_iff.mpr hso.distinct
    · intro c hc
      exact hso.in_range c (hse.mem_iff.mp hc)
    · exact ⟨rfl, hs.2⟩
  | refused hst | let_go hst =>
    rw [hst] at hs
    exact hk.goes hg (hnot hst (by simp)) (he hs _)
  | held hst ho hfr | pushed hst | waits hst =>
    rw [hst] at hs
    exact hk.goes hg (hnot hst (by simp)) hs
  | @reserved permits todo c hst ho hfr =>
    rw [hst] at hs
    refine hk.goes hg (hnot hst (by simp)) ⟨?_, ?_⟩
    · rw [append_assoc]
      exact hs.1
    · intro d
      have hp : (e.on c Channel.reserve).placed d = e.placed d := placed_on fun _ => rfl
      simp only [copies, hp]
      exact hs.2 d
  | gives_up hst hf =>
    rw [hst] at hs
    exact hk.goes hg (hnot hst (by simp)) ⟨hf, hs.2⟩
  | @counted_in permits hst =>
    rw [hst] at hs
    refine hk.goes hg (hnot hst (by simp)) ⟨[], ?_, ?_⟩
    · exact (append_nil permits).symm.trans hs.1
    · intro c
      exact ⟨fun _ => hs.2 c, fun hc => absurd hc not_mem_nil⟩
  | @released permits c outcome hst =>
    rw [hst] at hs
    refine hk.goes hg (hnot hst (by simp)) ⟨hs.1, ?_⟩
    intro d
    have hp : (e.on c Channel.release).placed d = e.placed d := placed_on fun _ => rfl
    simp only [copies, hp]
    exact hs.2 d
  | gave_up hst =>
    rw [hst] at hs
    exact hk.goes hg (hnot hst (by simp)) fun _ => .inr hs
  | @sent permits c hst =>
    rw [hst] at hs
    obtain ⟨sent, hsen, hd⟩ := hs
    have hnew : c ∉ sent := by
      have hn := hk.distinct
      rw [← hsen] at hn
      intro hme
      exact (nodup_append.mp hn).2.2 c hme c mem_cons_self rfl
    refine hk.goes hg (hnot hst (by simp)) ⟨sent ++ [c], ?_, hd.send hnew⟩
    rw [append_assoc]
    exact hsen
  | committed hst =>
    rw [hst] at hs
    obtain ⟨sent, hsen, hd⟩ := hs
    rw [append_nil] at hsen
    rw [hsen] at hd
    refine ⟨fun _ => hk.called (hnot hst (by simp)), hk.distinct, hk.in_range, ?_⟩
    refine fun _ => .inl ⟨rfl, hd, ?_⟩
    intro c hc
    obtain ⟨hme, ho⟩ := mem_filter.mp hc
    rcases (hd c).2 hme with hon | ⟨-, hcl⟩
    · exact hon
    · simp [hcl] at ho

end

/-! ## The endpoint in every step -/

section

variable {e e' : SedaEndpointState}

theorem idle_sound (config : SedaConfig) : Sound (SedaEndpointState.new config) where
  distinct := nodup_nil
  in_range := fun c hc => absurd hc not_mem_nil
  begun := by
    intro c env he
    have hn : (SedaEndpointState.new config).placed c = [] := by
      unfold SedaEndpointState.placed SedaEndpointState.new
      by_cases hm : config.multiple_consumers = true
      · simp [hm]
      · simp only [hm, Bool.false_eq_true, if_false, getElem?_singleton]
        split
        · rfl
        · rfl
    rw [hn] at he
    exact absurd he not_mem_nil

theorem Sound.keep (h : Sound e) (hs : e'.subscribers.Sublist e.subscribers)
    (hg : Grows e e') (hp : ∀ c, e'.placed c = e.placed c) : Sound e' where
  distinct := h.distinct.sublist (hs.map _)
  in_range := by
    intro c hc
    exact Nat.lt_of_lt_of_le (h.in_range c ((hs.map _).subset hc)) hg.length
  begun := by
    intro c env he
    rw [hp c] at he
    exact Nat.lt_of_lt_of_le (h.begun c env he) hg.calls

theorem Sound.send (h : Sound e) (c : Nat) {env : Envelope} (he : env.call < e.calls) :
    Sound (e.on c (Channel.send env)) where
  distinct := h.distinct
  in_range := by
    intro d hd
    have hl : (e.on c (Channel.send env)).channels.length = e.channels.length := by
      simp [SedaEndpointState.on]
    rw [hl]
    exact h.in_range d hd
  begun := by
    intro d env' he'
    rcases mem_placed_send he' with rfl | hold
    · exact he
    · exact h.begun d env' hold

theorem ProducerMove.subscribers {p p' : SedaProducer} (h : ProducerMove e p e' p') :
    e'.subscribers = e.subscribers := by
  cases h <;> rfl

theorem ProducerMove.sound {p p' : SedaProducer} (h : ProducerMove e p e' p')
    (hso : Sound e) (hk : Kept e p) : Sound e' := by
  rcases h.placed with hsa | ⟨permits, c, hs, rfl⟩ | ⟨hs, rfl⟩
  · have hsu := h.subscribers
    exact hso.keep (by rw [hsu]) h.grows hsa
  · exact hso.send c (hk.called (by simp [hs]))
  · exact hso.send 0 (hk.called (by simp [hs]))

theorem ForwarderMove.subscribers {f f' : Forwarder} (h : ForwarderMove e f e' f') :
    e'.subscribers = e.subscribers := by
  cases h with
  | waits hold hn ha | received hold hq ha | forwarded hold hn ha => exact ha.subscribers

theorem StarterMove.sound {t t' : Starter} (h : StarterMove e t e' t') (hs : Sound e) :
    Sound e' := by
  have hg := h.grows
  have hp := h.placed
  cases h with
  | stays ha => exact hs.keep (by rw [ha.subscribers]) hg hp
  | subscribed hm ha =>
    have hf : ((e.subscribers.filter fun sub => sub.1 ≠ t.consumer).map Prod.snd).Sublist
        (e.subscribers.map Prod.snd) := filter_sublist.map _
    have hl : e'.channels.length = e.channels.length + 1 := by simp [ha.channels]
    refine ⟨?_, ?_, ?_⟩
    · rw [ha.subscribers]
      simp only [map_append, map_cons, map_nil]
      refine nodup_append.mpr ⟨hs.distinct.sublist hf, by simp, ?_⟩
      intro c hc d hd heq
      rw [mem_singleton.mp hd] at heq
      have := hs.in_range c (hf.subset hc)
      omega
    · intro c hc
      rw [ha.subscribers] at hc
      simp only [map_append, map_cons, map_nil] at hc
      rw [hl]
      rcases mem_append.mp hc with hold | hn
      · have := hs.in_range c (hf.subset hold)
        omega
      · rw [mem_singleton.mp hn]
        omega
    · intro c env he
      rw [hp c] at he
      exact Nat.lt_of_lt_of_le (hs.begun c env he) hg.calls

theorem StopperMove.subscribers {t t' : Stopper} (h : StopperMove e t e' t') :
    e'.subscribers.Sublist e.subscribers := by
  cases h with
  | goes hold hn ha | took hold hm ha => rw [ha.subscribers]
  | left hold hn ha =>
    rw [ha.subscribers]
    exact filter_sublist
  | drained hs hq | emptied hs | returned hs => exact .refl _
  | dropped hs ha =>
    rw [ha.subscribers]
    exact .refl _

theorem Move.sound (h : Move e e' t t') (hso : Sound e) (hk : ∀ p, t = .producer p → Kept e p) :
    Sound e' := by
  cases h with
  | producer h => exact h.sound hso (hk _ rfl)
  | forwarder h =>
    have hs := h.subscribers
    exact hso.keep (by rw [hs]) h.grows h.placed
  | starter h => exact h.sound hso
  | stopper h => exact hso.keep h.subscribers h.grows h.placed

end

/-! ## The slots of a channel -/

/-- The slots of a channel that a call has reserved and not used. -/
def ProducerStage.reserved (c : Nat) : ProducerStage → Nat
  | .Holding => if c = 0 then 1 else 0
  | .Reserving permits _ | .Releasing permits _ | .Sending permits => permits.count c
  | _ => 0

def Task.reserved (c : Nat) : Task → Nat
  | .producer p => p.stage.reserved c
  | _ => 0

def reserved (tasks : List Task) (c : Nat) : Nat := (tasks.map (Task.reserved c)).sum

/-- The slots that are free and those that the queue uses. -/
def unreserved (e : SedaEndpointState) (c : Nat) : Nat := e.free c + (e.queue c).length

section

variable {e e' : SedaEndpointState} {c d : Nat}

theorem unreserved_of_channel (h : e.channels[c]? = some ch) :
    unreserved e c = ch.free + ch.queue.length := by
  simp [unreserved, SedaEndpointState.free, SedaEndpointState.queue, h]

theorem unreserved_alike (h : Alike e e') : unreserved e' c = unreserved e c := by
  unfold unreserved SedaEndpointState.free SedaEndpointState.queue
  rw [h.channels]

variable (f : Channel → Channel)

theorem unreserved_elsewhere (h : d ≠ c) : unreserved (e.on c f) d = unreserved e d := by
  unfold unreserved SedaEndpointState.free SedaEndpointState.queue
  rw [SedaEndpointState.channel_on, if_neg h]

theorem unreserved_on (h : e.channels[c]? = some ch) :
    unreserved (e.on c f) c = (f ch).free + (f ch).queue.length := by
  apply unreserved_of_channel
  rw [SedaEndpointState.channel_on, if_pos rfl, h]
  rfl

theorem unreserved_reserve (h : e.free c ≠ 0) :
    unreserved (e.on c Channel.reserve) c + 1 = unreserved e c := by
  unfold SedaEndpointState.free at h
  cases hc : e.channels[c]? with
  | none => simp [hc] at h
  | some ch =>
    have hf : ch.free ≠ 0 := by simpa [hc] using h
    rw [unreserved_on _ hc, unreserved_of_channel hc]
    simp only [Channel.reserve]
    omega

theorem unreserved_release (h : c < e.channels.length) :
    unreserved (e.on c Channel.release) c = unreserved e c + 1 := by
  have hc := getElem?_eq_getElem h
  rw [unreserved_on _ hc, unreserved_of_channel hc]
  simp only [Channel.release]
  omega

theorem unreserved_send (env : Envelope) (h : e.is_open c = true) :
    unreserved (e.on c (Channel.send env)) c = unreserved e c + 1 := by
  unfold SedaEndpointState.is_open at h
  cases hc : e.channels[c]? with
  | none => simp [hc] at h
  | some ch =>
    have ho : ch.is_open = true := by simpa [hc] using h
    rw [unreserved_on _ hc, unreserved_of_channel hc]
    simp only [Channel.send, ho, if_true, length_append, length_singleton]
    omega

theorem unreserved_pop {env : Envelope} (h : (e.queue c).head? = some env) :
    unreserved (e.on c Channel.pop) d = unreserved e d := by
  by_cases hd : d = c
  · subst hd
    unfold SedaEndpointState.queue at h
    cases hc : e.channels[d]? with
    | none => simp [hc] at h
    | some ch =>
      simp only [hc, Option.map_some, Option.getD_some] at h
      obtain ⟨rest, hr⟩ := head?_eq_some_iff.mp h
      rw [unreserved_on _ hc, unreserved_of_channel hc]
      simp only [Channel.pop, hr, tail_cons, length_cons]
      omega
  · exact unreserved_elsewhere _ hd

variable {p p' : SedaProducer}

theorem ProducerMove.slots (h : ProducerMove e p e' p') (hd : d < e.channels.length)
    (ho : e'.is_open d = true) :
    unreserved e' d + p'.stage.reserved d = unreserved e d + p.stage.reserved d := by
  have hg := h.grows
  cases h with
  | polled hs hn =>
    rcases hn with rfl | ⟨outcome, rfl⟩
    all_goals
      simp only [hs, ProducerStage.reserved]
      rfl
  | turned hs =>
    rcases hs with hs | hs | hs
    all_goals simp only [hs, SedaProducer.ends, SedaProducer.goes, ProducerStage.reserved]
  | counted hs | refused hs | counted_in hs =>
    simp only [hs, SedaProducer.ends, SedaProducer.goes, ProducerStage.reserved]
    rfl
  | held hs ho hfr =>
    simp only [hs, SedaProducer.goes, ProducerStage.reserved]
    by_cases hzero : d = 0
    · subst hzero
      have := unreserved_reserve hfr
      rw [if_pos rfl]
      omega
    · rw [if_neg hzero, unreserved_elsewhere _ hzero]
  | let_go hs =>
    simp only [hs, SedaProducer.ends, SedaProducer.goes, ProducerStage.reserved]
    have hco : unreserved ((e.on 0 Channel.release).count (-1)) d =
        unreserved (e.on 0 Channel.release) d := rfl
    rw [hco]
    by_cases hzero : d = 0
    · subst hzero
      rw [if_pos rfl, unreserved_release hd]
    · rw [if_neg hzero, unreserved_elsewhere _ hzero]
  | pushed hs =>
    simp only [hs, SedaProducer.goes, ProducerStage.reserved]
    by_cases hzero : d = 0
    · subst hzero
      rw [if_pos rfl, unreserved_send _ (hg.was_open 0 hd ho)]
    · rw [if_neg hzero, unreserved_elsewhere _ hzero]
  | listed hs | waits hs | gives_up hs | gave_up hs | committed hs =>
    simp only [hs, SedaProducer.ends, SedaProducer.goes, ProducerStage.reserved, count_nil]
  | @reserved permits todo c hs hf hfr =>
    simp only [hs, SedaProducer.goes, ProducerStage.reserved, count_append, count_singleton]
    by_cases hc : d = c
    · subst hc
      have := unreserved_reserve hfr
      simp only [beq_self_eq_true, if_true]
      omega
    · rw [unreserved_elsewhere _ hc]
      simp [Ne.symm hc]
  | @released permits c outcome hs =>
    simp only [hs, SedaProducer.goes, ProducerStage.reserved, count_cons]
    by_cases hc : d = c
    · subst hc
      rw [unreserved_release hd]
      simp only [beq_self_eq_true, if_true]
      omega
    · rw [unreserved_elsewhere _ hc]
      simp [Ne.symm hc]
  | @sent permits c hs =>
    simp only [hs, SedaProducer.goes, ProducerStage.reserved, count_cons]
    by_cases hc : d = c
    · subst hc
      rw [unreserved_send _ (hg.was_open d hd ho)]
      simp only [beq_self_eq_true, if_true]
      omega
    · rw [unreserved_elsewhere _ hc]
      simp [Ne.symm hc]

theorem StopperMove.slots {t t' : Stopper} (h : StopperMove e t e' t')
    (ho : e'.is_open d = true) : unreserved e' d = unreserved e d := by
  cases h with
  | goes hold hn ha | took hold hm ha => exact unreserved_alike ha
  | left hold hn ha => exact (unreserved_alike ha).trans rfl
  | drained hs hq => exact unreserved_pop hq
  | emptied hs | returned hs => rfl
  | @dropped e' s c hs ha =>
    rw [ha.is_open] at ho
    have hd : d ≠ c := by
      intro hd
      subst hd
      unfold SedaEndpointState.is_open at ho
      rw [SedaEndpointState.channel_on, if_pos rfl] at ho
      cases hc : e.channels[d]? with
      | none => simp [hc] at ho
      | some ch => simp [hc, Channel.close] at ho
    exact (unreserved_alike ha).trans (unreserved_elsewhere _ hd)

theorem Move.slots (h : Move e e' t t') (hd : d < e.channels.length) (ho : e'.is_open d = true) :
    unreserved e' d + t'.reserved d = unreserved e d + t.reserved d := by
  cases h with
  | producer h => exact h.slots hd ho
  | forwarder h =>
    cases h with
    | waits hold hn ha => simp only [Task.reserved, unreserved_alike ha]
    | received hold hq ha =>
      simp only [Task.reserved, unreserved_alike ha, unreserved_pop hq]
    | forwarded hold hn ha =>
      simp only [Task.reserved, unreserved_alike ha]
      rfl
  | starter h =>
    cases h with
    | stays ha => simp only [Task.reserved, unreserved_alike ha]
    | subscribed hm ha =>
      simp only [Task.reserved, unreserved_alike ha]
      unfold unreserved SedaEndpointState.free SedaEndpointState.queue
      simp only [getElem?_append_left hd]
  | stopper h => simp only [Task.reserved, h.slots ho]

theorem lt_of_is_open (h : e.is_open c = true) : c < e.channels.length := by
  by_contra hg
  simp [SedaEndpointState.is_open, getElem?_eq_none (Nat.le_of_not_lt hg)] at h

theorem length_on (e : SedaEndpointState) (c : Nat) (f : Channel → Channel) :
    (e.on c f).channels.length = e.channels.length := by
  simp [SedaEndpointState.on]

theorem ProducerMove.reserves_in_range (h : ProducerMove e p e' p') (hd : e.channels.length ≤ d)
    (hn : p.stage.reserved d = 0) : p'.stage.reserved d = 0 := by
  cases h with
  | polled hs hnex =>
    rcases hnex with rfl | ⟨outcome, rfl⟩
    · rfl
    · rfl
  | held hs ho hfr =>
    have := lt_of_is_open ho
    simp only [SedaProducer.goes, ProducerStage.reserved]
    rw [if_neg (by omega)]
  | @reserved permits todo c hs ho hfr =>
    have := lt_of_is_open ho
    simp only [hs, ProducerStage.reserved] at hn
    simp only [SedaProducer.goes, ProducerStage.reserved, count_append, hn, count_singleton]
    have hne : (c == d) = false := by
      rw [beq_eq_false_iff_ne]
      omega
    simp [hne]
  | gives_up hs hf | counted_in hs =>
    simp only [hs, ProducerStage.reserved] at hn
    exact hn
  | released hs | sent hs =>
    simp only [hs, ProducerStage.reserved, count_cons] at hn
    exact Nat.eq_zero_of_add_eq_zero_right hn
  | _ => rfl

theorem Move.reserves_in_range (h : Move e e' t t') (hd : e.channels.length ≤ d)
    (hn : t.reserved d = 0) : t'.reserved d = 0 := by
  cases h with
  | producer h => exact h.reserves_in_range hd hn
  | forwarder h | starter h | stopper h => rfl

theorem ProducerMove.length (h : ProducerMove e p e' p') :
    e'.channels.length = e.channels.length := by
  cases h with
  | held hs ho hf
  | let_go hs
  | pushed hs
  | reserved hs ho hf
  | released hs
  | sent hs => exact length_on e _ _
  | _ => rfl

theorem ForwarderMove.length {f f' : Forwarder} (h : ForwarderMove e f e' f') :
    e'.channels.length = e.channels.length := by
  cases h with
  | waits hold hn ha => rw [ha.channels]
  | received hold hq ha =>
    rw [ha.channels]
    exact length_on e _ _
  | forwarded hold hn ha =>
    rw [ha.channels]
    rfl

theorem StopperMove.length {t t' : Stopper} (h : StopperMove e t e' t') :
    e'.channels.length = e.channels.length := by
  cases h with
  | goes hold hn ha | left hold hn ha | took hold hm ha => rw [ha.channels]
  | drained hs hq => exact length_on e _ _
  | emptied hs | returned hs => rfl
  | dropped hs ha =>
    rw [ha.channels]
    exact length_on e _ _

theorem Move.opened (h : Move e e' t t') (hn : e.channels.length ≤ d)
    (hd : d < e'.channels.length) : unreserved e' d = e.config.size := by
  cases h with
  | producer h | forwarder h | stopper h =>
    have := h.length
    omega
  | starter h =>
    cases h with
    | stays ha =>
      rw [ha.channels] at hd
      omega
    | subscribed hm ha =>
      have hl : e'.channels.length = e.channels.length + 1 := by simp [ha.channels]
      have heq : d = e.channels.length := by omega
      have hc : e'.channels[d]? = some (.new e.config.size) := by simp [ha.channels, heq]
      simp [unreserved_of_channel hc, Channel.new]

end

/-! ## Whole runs -/

/-- The call that a producer has begun. -/
def Task.has_call (t : Task) (call : Nat) : Prop :=
  ∃ p, t = .producer p ∧ p.stage ≠ .Called ∧ p.call = call

/-- No two calls are taken for one, each has placed what it should, and every slot of an open
channel is free, in use, or reserved by a call under way. -/
structure Shared (config : SedaConfig) (s : Interleaving.State SedaEndpointState Task) : Prop where
  same_config : s.shared.config = config
  sound : Sound s.shared
  own : s.tasks.OneClaim Task.has_call
  kept : ∀ p, Task.producer p ∈ s.tasks → Kept s.shared p
  in_range : ∀ c, s.shared.channels.length ≤ c → reserved s.tasks c = 0
  slots : ∀ c, s.shared.is_open c = true → unreserved s.shared c + reserved s.tasks c = config.size

theorem new_kept (e : SedaEndpointState) (config : ProducerConfig) (exchange : Exchange) :
    Kept e (.new config exchange) where
  called := fun h => absurd rfl h
  distinct := nodup_nil
  in_range := fun _ hc => absurd hc not_mem_nil
  stands := rfl

theorem idle_shared (config : SedaConfig) : Shared config (idle config) where
  same_config := rfl
  sound := idle_sound config
  own := by
    intro i j a b call hi
    simp [idle] at hi
  kept := fun p hp => absurd hp not_mem_nil
  in_range := fun _ _ => rfl
  slots := by
    intro c ho
    unfold SedaEndpointState.is_open idle SedaEndpointState.new at ho
    by_cases hm : config.multiple_consumers = true
    · simp [hm] at ho
    · have hc : (idle config).shared.channels[c]? = some (.new config.size) := by
        simp only [hm, Bool.false_eq_true, if_false, getElem?_singleton] at ho
        simp only [idle, SedaEndpointState.new, hm, Bool.false_eq_true, if_false,
          getElem?_singleton]
        split at ho
        · rw [if_pos ‹_›]
        · simp at ho
      rw [unreserved_of_channel hc]
      rfl

section

variable {config : SedaConfig} {s : Interleaving.State SedaEndpointState Task}

theorem Shared.spawn (h : Shared config s) (a : Spawn) :
    Shared config { s with tasks := s.tasks ++ [seda.start a] } := by
  have hr : ∀ c, reserved (s.tasks ++ [seda.start a]) c = reserved s.tasks c := by
    intro c
    have hzero : (seda.start a).reserved c = 0 := by cases a <;> rfl
    simp [reserved, hzero]
  refine ⟨h.same_config, h.sound, h.own.append ?_, ?_, ?_, ?_⟩
  · rintro call ⟨p, hp, hca, -⟩
    cases a <;> cases hp
    exact hca rfl
  · intro p hp
    rcases mem_append.mp hp with hold | hn
    · exact h.kept p hold
    · have heq := mem_singleton.mp hn
      cases a <;> cases heq
      exact new_kept _ _ _
  · intro c hc
    rw [hr c]
    exact h.in_range c hc
  · intro c ho
    simp only [hr c]
    exact h.slots c ho

variable {p : SedaProducer} {e' : SedaEndpointState}

theorem Shared.kept_of_task (h : Shared config s) (hi : s.tasks[i]? = some (.producer p)) :
    Kept s.shared p :=
  h.kept p (mem_of_getElem? hi)

theorem ProducerMove.call {e : SedaEndpointState} {p' : SedaProducer} (h : ProducerMove e p e' p') :
    (p.stage ≠ .Called ∧ p'.call = p.call) ∨ p'.call = e.calls := by
  cases h with
  | polled hs hn => exact .inr rfl
  | turned hs =>
    refine .inl ⟨?_, rfl⟩
    rcases hs with hs | hs | hs
    all_goals simp [hs]
  | _ hs => exact .inl ⟨by simp [hs], rfl⟩

section

variable (h : Shared config s) (ht : s.tasks[i]? = some t) (hmove : Move s.shared e' t t')

include h ht hmove

theorem Shared.keeps_others {j : Nat} (hij : j ≠ i) (hj : s.tasks[j]? = some (.producer p)) :
    Kept e' p := by
  have hk := h.kept_of_task hj
  by_cases hca : p.stage = .Called
  · have hl : p.sender_list = [] := by
      have hs := hk.stands
      rw [hca] at hs
      exact hs
    refine ⟨fun hn => absurd hca hn, hk.distinct, ?_, ?_⟩
    · rw [hl]
      exact fun c hc => absurd hc not_mem_nil
    · rw [hca]
      exact hl
  · by_cases hm : ∃ q, t = .producer q ∧ q.stage = .Called
    · obtain ⟨q, rfl, hq⟩ := hm
      cases hmove with
      | producer hmove =>
        refine hk.keep hmove.grows ?_
        intro c
        rcases hmove.placed with hsa | ⟨permits, d, hst, -⟩ | ⟨hst, -⟩
        · simp only [copies, hsa c]
        all_goals simp [hq] at hst
    · refine hk.keep hmove.grows (hmove.copies ?_)
      intro q hq hsa
      have hqc : q.stage ≠ .Called := fun hst => hm ⟨q, hq, hst⟩
      exact hij (h.own j i _ _ p.call hj ht ⟨p, rfl, hca, rfl⟩ ⟨q, hq, hqc, hsa⟩)

theorem Shared.owns_call : (s.tasks.set i t').OneClaim Task.has_call := by
  refine h.own.set ht ?_
  rintro call ⟨p', rfl, -, hca⟩
  cases hmove with
  | @producer p p' hmove =>
    rcases hmove.call with ⟨hc, hs⟩ | hf
    · exact .inl ⟨p, rfl, hc, hs.symm.trans hca⟩
    · right
      rintro t hm ⟨q, rfl, hq, hqc⟩
      have := (h.kept q hm).called hq
      omega

theorem Shared.move : Shared config ⟨e', s.tasks.set i t'⟩ := by
  have hme : t ∈ s.tasks := mem_of_getElem? ht
  have hg := hmove.grows
  have hmi : ∀ p, t = .producer p → Kept s.shared p := by
    rintro p rfl
    exact h.kept p hme
  have hsum : ∀ c, reserved (s.tasks.set i t') c + t.reserved c =
      reserved s.tasks c + t'.reserved c := fun c => sum_map_set_add (Task.reserved c) ht
  have hn : ∀ c, s.shared.channels.length ≤ c → reserved (s.tasks.set i t') c = 0 := by
    intro c hc
    have hzero := h.in_range c hc
    have hold : t.reserved c = 0 :=
      List.sum_eq_zero_iff_forall_eq_nat.mp hzero _ (mem_map_of_mem hme)
    have hne := hmove.reserves_in_range hc hold
    have := hsum c
    omega
  refine ⟨hg.config.trans h.same_config, hmove.sound h.sound hmi, h.owns_call ht hmove, ?_, ?_, ?_⟩
  · intro p hp
    rcases mem_set_cases ht hp with heq | ⟨j, hji, hj⟩
    · subst heq
      cases hmove with
      | producer hmove => exact hmove.kept h.sound (hmi _ rfl)
    · exact h.keeps_others ht hmove hji hj
  · intro c hc
    exact hn c (Nat.le_trans hg.length hc)
  · intro c ho
    simp only
    by_cases hc : c < s.shared.channels.length
    · have hs := h.slots c (hg.was_open c hc ho)
      have hm := hmove.slots hc ho
      have := hsum c
      omega
    · have hf := hmove.opened (Nat.le_of_not_lt hc) (lt_of_is_open ho)
      have hzero := hn c (Nat.le_of_not_lt hc)
      rw [h.same_config] at hf
      omega

end

theorem shared_of_reach (h : seda.Reach Interleaving.Free (idle config) s) : Shared config s := by
  refine h.invariant (idle_shared config) ?_ ?_
  · intro s a hs _
    exact hs.spawn a
  · intro s i t answer e' t' hs _ ht ha
    exact hs.move ht (Task.advance_moves ha)

end

/-- A fanout call that has ended either put one copy of its exchange in the queue of every
subscriber of its list whose receiver stood at the commit (as does each that stands now), and in
no other queue any, or it failed and put none in any queue. Every slot of an open channel is
free, in use by an envelope, or reserved by a call that is still under way. -/
theorem fanout_is_all_or_nothing {config : SedaConfig}
    {s : Interleaving.State SedaEndpointState Task}
    (h : seda.Reach Interleaving.Free (idle config) s) {p : SedaProducer} {outcome : Outcome}
    (hp : Task.producer p ∈ s.tasks) (hlist : p.sender_list ≠ [])
    (hended : p.stage = .Ended outcome) :
    ((outcome = .returned (.ok p.exchange) ∧
        (∀ c ∈ p.sender_list, c ∈ p.live ∨ s.shared.is_open c = true →
          copies s.shared p.call c = [p.envelope config]) ∧
        (∀ c ∈ p.sender_list, (copies s.shared p.call c).length ≤ 1) ∧
        ∀ c, c ∉ p.sender_list → copies s.shared p.call c = []) ∨
      (outcome.failed = true ∧ ∀ c, copies s.shared p.call c = [])) ∧
    ∀ c, s.shared.is_open c = true →
      s.shared.free c + (s.shared.queue c).length + reserved s.tasks c = config.size := by
  have hs := shared_of_reach h
  refine ⟨?_, hs.slots⟩
  have hst := (hs.kept p hp).stands
  rw [hended] at hst
  rcases hst hlist with ⟨hok, hd, hl⟩ | hf
  · left
    refine ⟨hok, ?_, ?_, fun c hc => (hd c).1 hc⟩
    · intro c hc hsto
      rw [← hs.same_config]
      rcases hsto with hsto | ho
      · exact hl c hsto
      · rcases (hd c).2 hc with hon | ⟨-, hcl⟩
        · exact hon
        · simp [hcl] at ho
    · intro c hc
      rcases (hd c).2 hc with hon | ⟨hn, -⟩
      · simp [hon]
      · simp [hn]
  · exact .inr hf

/-- A fanout endpoint with one slot for each subscriber. -/
def prices : SedaConfig := ⟨"prices", 1, 1, true, .InOnly⟩

/-- Of two calls to two subscribers the first fills their queues. -/
def second_finds_full : List (Interleaving.Event Spawn Answer) :=
  [.spawn (.start 0), .step 0 .go, .spawn (.start 1), .step 1 .go,
    .spawn (.call ⟨false, false, 30000, .Never⟩ (.new .default)), .step 2 .go,
    .step 2 (.ordered [1, 0]), .step 2 .go, .step 2 .go, .step 2 .go, .step 2 .go, .step 2 .go,
    .step 2 .go,
    .spawn (.call ⟨false, false, 30000, .Never⟩ (.new .default)), .step 3 .go,
    .step 3 (.ordered [0, 1]), .step 3 .go, .step 3 .go]

def endedCall (s : Interleaving.State SedaEndpointState Task) (i : Nat) :
    Option (SedaProducer × Outcome) :=
  match s.tasks[i]? with
  | some (.producer p) =>
    match p.stage with
    | .Ended outcome => some (p, outcome)
    | _ => none
  | _ => none

theorem of_endedCall {s : Interleaving.State SedaEndpointState Task} {p : SedaProducer}
    {outcome : Outcome} (h : endedCall s i = some (p, outcome)) :
    s.tasks[i]? = some (.producer p) ∧ p.stage = .Ended outcome := by
  unfold endedCall at h
  split at h
  · rename_i p' hta
    split at h
    · rename_i outcome' hs
      cases h
      exact ⟨hta, hs⟩
    · cases h
  · cases h

theorem second_call_places_none :
    ∃ s first second, seda.run (fun _ _ => true) (idle prices) second_finds_full = some s ∧
      s.tasks[2]? = some (.producer first) ∧ s.tasks[3]? = some (.producer second) ∧
      copies s.shared first.call 0 = [first.envelope prices] ∧
      ∀ c, copies s.shared second.call c = [] := by
  have hen : (seda.run (fun _ _ => true) (idle prices) second_finds_full).any (fun s =>
      (endedCall s 2).any (fun (p, outcome) =>
        !outcome.failed && p.sender_list.contains 0 && p.live.contains 0) &&
      (endedCall s 3).any fun (p, outcome) =>
        outcome.failed && p.sender_list.contains 0) = true := by
    decide +kernel
  obtain ⟨s, hru, hen⟩ := (Option.any_eq_true _ _).mp hen
  obtain ⟨hf, hs⟩ := Bool.and_eq_true_iff.mp hen
  obtain ⟨⟨first, outcome⟩, he, hf⟩ := (Option.any_eq_true _ _).mp hf
  obtain ⟨⟨second, outcome'⟩, he', hs⟩ := (Option.any_eq_true _ _).mp hs
  simp only [Bool.and_eq_true, Bool.not_eq_true', contains_eq_mem, decide_eq_true_eq]
    at hf hs
  obtain ⟨hta, hst⟩ := of_endedCall he
  obtain ⟨hta', hst'⟩ := of_endedCall he'
  have hr := (Interleaving.reach_of_run hru).mono fun _ _ _ => trivial
  refine ⟨s, first, second, hru, hta, hta', ?_, ?_⟩
  · have hp := fanout_is_all_or_nothing hr (mem_of_getElem? hta)
      (ne_nil_of_mem hf.1.2) hst
    rcases hp.1 with ⟨-, ho, -⟩ | ⟨hfa, -⟩
    · exact ho 0 hf.1.2 (.inl hf.2)
    · rw [hf.1.1] at hfa
      cases hfa
  · have hp := fanout_is_all_or_nothing hr (mem_of_getElem? hta')
      (ne_nil_of_mem hs.2) hst'
    rcases hp.1 with ⟨hok, -⟩ | ⟨-, hn⟩
    · rw [hok] at hs
      cases hs.1
    · exact hn

end camel_component_seda
