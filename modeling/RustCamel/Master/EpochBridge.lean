-- The delegates of a master consumer and their epoch bridges (`spawn_epoch_bridge` and
-- `stop_delegate` in `leadership.rs`), as tasks of their own beside the supervision task. A
-- delegate sends to its bridge, and the bridge stamps each envelope with the term that it was made
-- for.
import RustCamel.Master.AcquisitionBudget

open Bool

namespace camel_master

open Runs Supervisor List Option

variable {policy : NetworkRetryPolicy} {i : Nat}

/-! ## Envelopes and bridges -/

structure Envelope where
  -- the delegate that has sent it, by its number
  delegate : Nat
  -- the property `x-camel-leader-epoch`
  leader_epoch : Option Nat

def stamp_epoch (env : Envelope) (epoch : Nat) : Envelope := { env with leader_epoch := some epoch }

/-- A delegate that was made, with its bridge. -/
structure Delegate where
  -- the term that was published when it was made
  published : Nat
  running : Bool
  my_epoch : Nat
  bridge_running : Bool
  stamp_rx : List Envelope

/-- The capacity of the channel to the bridge. -/
def STAMP_CAPACITY : Nat := 128

namespace Delegate

def ended (d : Delegate) : Delegate := { d with running := false }

def bridge_ended (d : Delegate) : Delegate := { d with bridge_running := false, stamp_rx := [] }

/-- Neither the task nor the bridge is left. -/
def gone (d : Delegate) : Bool := !d.running && !d.bridge_running

end Delegate

structure Fleet where
  supervisor : Supervisor
  -- every one that was made, oldest first
  delegates : List Delegate
  -- did the last wait for a delegate run into its timeout?
  aborted : Bool
  -- what the pipeline has received, oldest first
  pipeline : List Envelope

/-- What happens to the tasks. -/
inductive FleetEvent where
  | task (e : Event)
  -- the two timeouts of `stop_delegate`
  | abort_delegate
  | abort_bridge
  -- an envelope for the bridge of this delegate, whatever properties it has
  | send (delegate : Nat) (leader_epoch : Option Nat)
  | forward (delegate : Nat)
  -- the pipeline is closed
  | forward_fails (delegate : Nat)
  | bridge_ends (delegate : Nat)

namespace Fleet

def start (epoch : Nat) : Fleet := ⟨.start epoch, [], false, []⟩

variable (policy : NetworkRetryPolicy)

/-- Does this move of the task make a delegate? -/
def makes (s : Supervisor) : Event → Bool
  | .create (.ok _) (.ok _) => s.tries_create policy (.create (.ok ()) (.ok ()))
  | _ => false

/-- Has the task let go of its delegate in this move? -/
def lets_go (s t : Supervisor) : Bool :=
  match s.state, t.state with
  | .Active _ _, .Inactive => true
  | _, _ => false

/-- Is the task at a place where it waits for a delegate and its bridge to end? -/
def waits (s : Supervisor) : Bool :=
  match s.control, s.state with
  | .Draining _ _, .Active _ _ | .Tail _ _, .Active _ _
  | .TickFinished _, .Active (some _) _ => true
  | _, _ => false

variable (f : Fleet)

/-- The waits for the last delegate and for its bridge are over. -/
def joined (e : Event) : Bool :=
  f.delegates.getLast?.any Delegate.gone &&
    match e with
    | .timed_out => f.aborted
    | _ => !f.aborted

/-- A delegate that the task has just made, with a bridge that stamps the term in the state. -/
def spawned (published : Nat) : DelegateState → Delegate
  | .Active _ epoch => ⟨published, true, epoch, true, []⟩
  | .Inactive => ⟨published, false, published, false, []⟩

def last : Nat := f.delegates.length - 1

def at_last (p : Delegate → Bool) : Bool := f.delegates.getLast?.any p

def at_bridge (i : Nat) (p : Delegate → Bool) : Bool :=
  f.delegates[i]?.any fun d => d.bridge_running && p d

def task_step (e : Event) : Option Fleet :=
  (f.supervisor.step policy e).bind fun t =>
    if makes policy f.supervisor e then
      some { f with
        supervisor := t
        delegates := f.delegates ++ [spawned f.supervisor.leader_epoch t.state]
        aborted := false }
    else if lets_go f.supervisor t then
      if f.joined e then some { f with supervisor := t } else none
    else
      match e with
      | .ends _ =>
        if f.at_last Delegate.running then
          some { f with supervisor := t, delegates := f.delegates.modify f.last Delegate.ended }
        else none
      | _ => some { f with supervisor := t }

def step : FleetEvent → Option Fleet
  | .task e => f.task_step policy e
  | .abort_delegate =>
    if waits f.supervisor && f.at_last Delegate.running then
      some { f with delegates := f.delegates.modify f.last Delegate.ended, aborted := true }
    else none
  | .abort_bridge =>
    if waits f.supervisor && f.at_last (!·.running) then
      some { f with delegates := f.delegates.modify f.last Delegate.bridge_ended }
    else none
  -- an envelope counts until it is forwarded; in the source its slot is free once the bridge has it
  -- in hand, so there one more may wait
  | .send i leader_epoch =>
    if f.at_bridge i fun d => d.stamp_rx.length < STAMP_CAPACITY then
      some { f with
        delegates := f.delegates.modify i fun d =>
          { d with stamp_rx := d.stamp_rx ++ [⟨i, leader_epoch⟩] } }
    else none
  | .forward i =>
    match f.delegates[i]? with
    | some ⟨_, _, my_epoch, true, env :: rest⟩ =>
      some { f with
        delegates := f.delegates.modify i fun d => { d with stamp_rx := rest }
        pipeline := f.pipeline ++ [stamp_epoch env my_epoch] }
    | _ => none
  | .forward_fails i =>
    if f.at_bridge i fun d => !d.stamp_rx.isEmpty then
      some { f with delegates := f.delegates.modify i Delegate.bridge_ended }
    else none
  -- all senders are dropped, or the route is cancelled
  | .bridge_ends i =>
    if f.at_bridge i fun d => d.stamp_rx.isEmpty || f.supervisor.cancelled then
      some { f with delegates := f.delegates.modify i Delegate.bridge_ended }
    else none

end Fleet

open Fleet

/-! ## What the task does to its delegates -/

section

variable {s t : Supervisor} {e : Event}

theorem creating_inactive (hs : ∀ caller term_bump, s.control = .Creating caller term_bump →
    s.state = .Inactive) (h : s.step policy e = some t) :
    ∀ caller term_bump, t.control = .Creating caller term_bump → t.state = .Inactive := by
  have hr : ∀ (s : Supervisor) caller result caller' term_bump,
      (s.reconciled caller result).control ≠ .Creating caller' term_bump := by
    intro s caller result caller' term_bump hc
    cases result with
    | ok _ => cases caller <;> cases hc
    | error err =>
      cases caller with
      | Initial | Watch => cases hc
      | StaleStamp | Acquisition =>
        dsimp only [reconciled] at hc
        split at hc <;> cases hc
  intro caller term_bump hc
  cases move_of_step h with
  | ends ending epoch hst =>
    rw [hs caller term_bump hc] at hst
    cases hst
  | publish | stop | cancel | no_change => exact hs caller term_bump hc
  | no_initial | initial | stop_seen | cancel_seen | closed | changed | unfinished | back_off
  | tail_drained | tail_timed_out | tail_inactive => cases hc
  | tick hco =>
    unfold retry_tick at hc
    split at hc
    · split at hc <;> cases hc
    · cases hc
  | reconcile caller' event hco =>
    cases event with
    | StartedLeading =>
      dsimp only [reconcile_event] at hc ⊢
      split at hc
      · split at hc
        · exact absurd hc (hr _ _ _ _ _)
        · cases hc
      · rename_i hst
        exact hst
    | StoppedLeading =>
      dsimp only [reconcile_event] at hc
      split at hc
      · cases hc
      · exact absurd hc (hr _ _ _ _ _)
  | drained caller' event ending epoch hco =>
    obtain ⟨control, -, heq⟩ := delegate_stopped_goes s caller' event ending.delegate_result
    rw [heq]
    rfl
  | timed_out caller' event epoch hco =>
    obtain ⟨control, -, heq⟩ := delegate_stopped_goes s caller' event (.ok ())
    rw [heq]
    rfl
  | create caller' term_bump' endpoint consumer hco =>
    exfalso
    unfold Supervisor.create create_error at hc
    generalize (if term_bump' then 0 else s.attempts) = count at hc
    dsimp only at hc
    split at hc
    · exact hr _ _ _ _ _ hc
    · split at hc <;> exact hr _ _ _ _ _ hc
  | finished dispatched ending epoch hco =>
    unfold finished_delegate at hc
    split at hc
    · cases hc
    · split at hc
      · cases hc
      · split at hc
        · cases hc
        · split at hc <;> cases hc
  | acquire dispatched tick_err hco =>
    unfold acquire at hc
    split at hc
    · cases hc
    · split at hc
      · cases hc
      · split at hc
        · cases hc
        · split at hc <;> cases hc

theorem leader_epoch_kept (h : s.step policy e = some t) (he : ∀ epoch, e ≠ .publish epoch) :
    t.leader_epoch = s.leader_epoch := by
  cases move_of_step h with
  | publish epoch => exact absurd rfl (he epoch)
  | ends | stop | cancel | no_change | no_initial | initial | stop_seen | cancel_seen | closed
  | changed | unfinished | back_off | tail_drained | tail_timed_out | tail_inactive => rfl
  | tick hc =>
    obtain ⟨control, -, heq⟩ := retry_tick_goes s
    rw [heq]
    rfl
  | reconcile caller event hc =>
    obtain ⟨control, -, heq⟩ := reconcile_event_goes s caller event
    rw [heq]
    rfl
  | drained caller event ending epoch hc =>
    obtain ⟨control, -, heq⟩ := delegate_stopped_goes s caller event ending.delegate_result
    rw [heq]
    rfl
  | timed_out caller event epoch hc =>
    obtain ⟨control, -, heq⟩ := delegate_stopped_goes s caller event (.ok ())
    rw [heq]
    rfl
  | create caller term_bump endpoint consumer hc =>
    obtain ⟨control, state, -, heq⟩ := create_goes policy s caller term_bump endpoint consumer
    rw [heq]
    rfl
  | finished dispatched ending epoch hc =>
    unfold finished_delegate
    split
    · rfl
    · split
      · rfl
      · split
        · rfl
        · split <;> rfl
  | acquire dispatched tick_err hc =>
    unfold acquire
    split
    · rfl
    · split
      · rfl
      · split
        · rfl
        · split <;> rfl

theorem made_active (h : s.step policy e = some t) (hm : makes policy s e = true) :
    (∃ caller term_bump, s.control = .Creating caller term_bump) ∧
      t.state = .Active none s.leader_epoch := by
  unfold makes at hm
  split at hm
  · unfold tries_create at hm
    split at hm
    · rename_i caller term_bump endpoint consumer hc he
      cases move_of_step h with
      | create caller' term_bump' _ _ hc' =>
        rw [hc] at hc'
        cases hc'
        refine ⟨⟨caller, term_bump, hc⟩, ?_⟩
        have hr : policy.should_retry (if term_bump then 0 else s.attempts) = true := hm
        unfold Supervisor.create
        dsimp only
        rw [hr]
        obtain ⟨control, -, heq⟩ := reconciled_goes { s with
          attempts := min ((if term_bump then 0 else s.attempts) + 1) (2 ^ 32 - 1)
          state := .Active none s.leader_epoch } caller (.ok ())
        simp only [Bool.not_true, false_eq_true, if_false]
        rw [heq]
        rfl
    · cases hm
  · cases hm

end

/-! ## What happens to the delegates -/

/-- The same delegates, some of them further on. -/
structure Later (ds ds' : List Delegate) : Prop where
  length : ds'.length = ds.length
  each : ∀ (i : Nat) (d' : Delegate), ds'[i]? = some d' → ∃ d, ds[i]? = some d ∧
    d'.published = d.published ∧
    d'.my_epoch = d.my_epoch ∧ (d.gone = true → d'.gone = true) ∧
    ∀ env ∈ d'.stamp_rx, env ∈ d.stamp_rx ∨ env.delegate = i

theorem Later.refl (ds : List Delegate) : Later ds ds :=
  ⟨rfl, fun _ d' hd' => ⟨d', hd', rfl, rfl, fun h => h, fun _ he => .inl he⟩⟩

variable {ds ds' : List Delegate} {e : FleetEvent}

theorem later_modify {g : Delegate → Delegate}
    (hg : ∀ d, ds[i]? = some d → (g d).published = d.published ∧ (g d).my_epoch = d.my_epoch ∧
      (d.gone = true → (g d).gone = true) ∧
      ∀ env ∈ (g d).stamp_rx, env ∈ d.stamp_rx ∨ env.delegate = i) : Later ds (ds.modify i g) := by
  refine ⟨length_modify .., ?_⟩
  intro j d' hd'
  rw [getElem?_modify] at hd'
  obtain ⟨d, hd, rfl⟩ := map_eq_some_iff.mp hd'
  refine ⟨d, hd, ?_⟩
  split
  · rename_i heq
    subst heq
    exact hg d hd
  · exact ⟨rfl, rfl, fun h => h, fun _ he => .inl he⟩

theorem later_ended (ds : List Delegate) (i : Nat) : Later ds (ds.modify i Delegate.ended) := by
  refine later_modify fun d _ => ⟨rfl, rfl, ?_, fun _ he => .inl he⟩
  intro hg
  rw [Delegate.gone, and_eq_true] at hg
  simp [Delegate.ended, Delegate.gone, hg.2]

theorem later_bridge_ended (ds : List Delegate) (i : Nat) :
    Later ds (ds.modify i Delegate.bridge_ended) := by
  refine later_modify fun d _ => ⟨rfl, rfl, ?_, nofun⟩
  intro hg
  rw [Delegate.gone, and_eq_true] at hg
  simp [Delegate.bridge_ended, Delegate.gone, hg.1]

/-- What the pipeline receives from a bridge that runs. -/
def Received (f f' : Fleet) : Prop :=
  f'.pipeline = f.pipeline ∨ ∃ (i : Nat) (d : Delegate) (env : Envelope),
    f.delegates[i]? = some d ∧ d.gone = false ∧ env ∈ d.stamp_rx ∧
      f'.pipeline = f.pipeline ++ [stamp_epoch env d.my_epoch]

/-- A move makes a delegate, or it leaves the delegates that there are. -/
theorem fleet_step_cases {f f' : Fleet} (h : f.step policy e = some f') :
    (∃ e' t, e = .task e' ∧ f.supervisor.step policy e' = some t ∧
        makes policy f.supervisor e' = true ∧
        f' = { f with
          supervisor := t
          delegates := f.delegates ++ [spawned f.supervisor.leader_epoch t.state]
          aborted := false }) ∨
      (∃ e', e = .task e' ∧ f.supervisor.step policy e' = some f'.supervisor ∧
        Later f.delegates f'.delegates ∧ f'.pipeline = f.pipeline ∧
        (lets_go f.supervisor f'.supervisor = true →
          f'.delegates = f.delegates ∧ f.delegates.getLast?.any Delegate.gone = true)) ∨
      f'.supervisor = f.supervisor ∧ Later f.delegates f'.delegates ∧ Received f f' := by
  cases e with
  | task e =>
    obtain ⟨t, hs, hr⟩ := bind_eq_some_iff.mp h
    split at hr
    · rename_i hm
      cases hr
      exact .inl ⟨e, t, rfl, hs, hm, rfl⟩
    · right
      left
      split at hr
      · obtain ⟨hj, hr⟩ := ite_none_right_eq_some.mp hr
        cases hr
        refine ⟨e, rfl, hs, .refl _, rfl, fun _ => ⟨rfl, ?_⟩⟩
        unfold joined at hj
        exact (and_eq_true_iff.mp hj).1
      · rename_i hk
        split at hr
        · obtain ⟨-, hr⟩ := ite_none_right_eq_some.mp hr
          cases hr
          exact ⟨_, rfl, hs, later_ended .., rfl, fun hgo => absurd hgo hk⟩
        · cases hr
          exact ⟨e, rfl, hs, .refl _, rfl, fun hgo => absurd hgo hk⟩
  | abort_delegate =>
    obtain ⟨-, hr⟩ := ite_none_right_eq_some.mp h
    cases hr
    exact .inr (.inr ⟨rfl, later_ended .., .inl rfl⟩)
  | abort_bridge | forward_fails i | bridge_ends i =>
    obtain ⟨-, hr⟩ := ite_none_right_eq_some.mp h
    cases hr
    exact .inr (.inr ⟨rfl, later_bridge_ended .., .inl rfl⟩)
  | send i leader_epoch =>
    obtain ⟨-, hr⟩ := ite_none_right_eq_some.mp h
    cases hr
    refine .inr (.inr ⟨rfl, later_modify ?_, .inl rfl⟩)
    intro d _
    refine ⟨rfl, rfl, fun hg => hg, ?_⟩
    intro env he
    rcases mem_append.mp he with he | he
    · exact .inl he
    · rw [mem_singleton.mp he]
      exact .inr rfl
  | forward i =>
    simp only [Fleet.step] at h
    split at h
    · rename_i published running my_epoch env rest hd
      cases h
      refine .inr (.inr ⟨rfl, later_modify ?_, ?_⟩)
      · intro d hd'
        obtain rfl := some.inj (hd.symm.trans hd')
        exact ⟨rfl, rfl, fun hg => hg, fun _ he => .inl (.tail _ he)⟩
      · exact .inr ⟨i, _, env, hd, by simp [Delegate.gone], mem_cons_self .., rfl⟩
    · cases h

/-! ## The invariant -/

structure OneEach (f : Fleet) : Prop where
  creating : ∀ caller term_bump, f.supervisor.control = .Creating caller term_bump →
    f.supervisor.state = .Inactive
  -- only the last delegate can be there, and only while the task holds it
  alive : ∀ (i : Nat) (d : Delegate), f.delegates[i]? = some d → d.gone = false →
    i + 1 = f.delegates.length ∧ f.supervisor.state ≠ .Inactive
  stamped : ∀ d ∈ f.delegates, d.my_epoch = d.published
  reached : ∀ d ∈ f.delegates, d.my_epoch ≤ f.supervisor.leader_epoch
  ordered : f.delegates.Pairwise (·.my_epoch ≤ ·.my_epoch)
  queued : ∀ (i : Nat) (d : Delegate), f.delegates[i]? = some d →
    ∀ env ∈ d.stamp_rx, env.delegate = i
  forwarded : ∀ env ∈ f.pipeline, ∃ d : Delegate, f.delegates[env.delegate]? = some d ∧
    env.leader_epoch = some d.my_epoch
  in_order : f.pipeline.Pairwise (·.delegate ≤ ·.delegate)

theorem start_oneEach (epoch : Nat) : OneEach (Fleet.start epoch) := by
  refine ⟨nofun, ?_, nofun, nofun, .nil, ?_, nofun, .nil⟩
  all_goals
    intro i d hd
    simp [Fleet.start] at hd

section

variable {f f' : Fleet}

theorem Later.epochs (h : Later ds ds') : ds'.map Delegate.my_epoch = ds.map Delegate.my_epoch := by
  apply ext_getElem?
  intro i
  rw [getElem?_map, getElem?_map]
  cases hd' : ds'[i]? with
  | some d' =>
    obtain ⟨d, hd, -, he, -⟩ := h.each i d' hd'
    rw [hd]
    exact congrArg some he
  | none =>
    have hl : ds.length ≤ i := by
      rw [← h.length]
      exact List.getElem?_eq_none_iff.mp hd'
    rw [getElem?_eq_none hl]

theorem Later.forth (h : Later ds ds') {d : Delegate} (hd : ds[i]? = some d) :
    ∃ d', ds'[i]? = some d' ∧ d'.my_epoch = d.my_epoch := by
  have hi : i < ds'.length := by
    rw [h.length]
    exact (List.getElem?_eq_some_iff.mp hd).1
  obtain ⟨d₀, hd₀, -, he, -⟩ := h.each i _ (getElem?_eq_getElem hi)
  obtain rfl := some.inj (hd.symm.trans hd₀)
  exact ⟨_, getElem?_eq_getElem hi, he⟩

theorem Later.mem (h : Later ds ds') {d' : Delegate} (hd' : d' ∈ ds') :
    ∃ d ∈ ds, d'.published = d.published ∧ d'.my_epoch = d.my_epoch := by
  obtain ⟨i, hi⟩ := mem_iff_getElem?.mp hd'
  obtain ⟨d, hd, hp, he, -⟩ := h.each i d' hi
  exact ⟨d, mem_iff_getElem?.mpr ⟨i, hd⟩, hp, he⟩

/-- What is left of the invariant to show when no delegate is made. -/
theorem OneEach.later (hf : OneEach f) (hl : Later f.delegates f'.delegates)
    (hc : ∀ caller term_bump, f'.supervisor.control = .Creating caller term_bump →
      f'.supervisor.state = .Inactive)
    (he : f.supervisor.leader_epoch ≤ f'.supervisor.leader_epoch)
    (hsta : f'.supervisor.state = .Inactive → f.supervisor.state ≠ .Inactive →
      ∀ d ∈ f'.delegates, d.gone = true)
    (hr : Received f f') : OneEach f' := by
  refine ⟨hc, ?_, ?_, ?_, ?_, ?_, ?_, ?_⟩
  · intro i d' hd' hg
    obtain ⟨d, hd, -, -, hs, -⟩ := hl.each i d' hd'
    have ha : d.gone = false := by
      cases hca : d.gone with
      | false => rfl
      | true =>
        rw [hs hca] at hg
        cases hg
    obtain ⟨hlast, hh⟩ := hf.alive i d hd ha
    refine ⟨by rw [hl.length]; exact hlast, ?_⟩
    intro hi
    have hd'gone := hsta hi hh d' (mem_iff_getElem?.mpr ⟨i, hd'⟩)
    rw [hd'gone] at hg
    cases hg
  · intro d' hd'
    obtain ⟨d, hd, hp, hm⟩ := hl.mem hd'
    rw [hp, hm]
    exact hf.stamped d hd
  · intro d' hd'
    obtain ⟨d, hd, -, hm⟩ := hl.mem hd'
    rw [hm]
    exact Nat.le_trans (hf.reached d hd) he
  · have hma := pairwise_map.mpr hf.ordered
    rw [← hl.epochs] at hma
    exact pairwise_map.mp hma
  · intro i d' hd' env hen
    obtain ⟨d, hd, -, -, -, hq⟩ := hl.each i d' hd'
    rcases hq env hen with hen | hen
    · exact hf.queued i d hd env hen
    · exact hen
  · have hold : ∀ env ∈ f.pipeline, ∃ d' : Delegate, f'.delegates[env.delegate]? = some d' ∧
        env.leader_epoch = some d'.my_epoch := by
      intro env hen
      obtain ⟨d, hd, hst⟩ := hf.forwarded env hen
      obtain ⟨d', hd', hm⟩ := hl.forth hd
      exact ⟨d', hd', by rw [hm]; exact hst⟩
    rcases hr with hsa | ⟨i, d, env, hd, -, hen, hn⟩
    · rw [hsa]
      exact hold
    · intro env' hen'
      rw [hn] at hen'
      rcases mem_append.mp hen' with hen' | hen'
      · exact hold env' hen'
      · rw [mem_singleton.mp hen']
        obtain ⟨d', hd', hm⟩ := hl.forth hd
        have hfr := hf.queued i d hd env hen
        exact ⟨d', by rw [show (stamp_epoch env d.my_epoch).delegate = i from hfr]; exact hd',
          by rw [hm]; rfl⟩
  · rcases hr with hsa | ⟨i, d, env, hd, ha, hen, hn⟩
    · rw [hsa]
      exact hf.in_order
    · rw [hn, pairwise_append]
      refine ⟨hf.in_order, pairwise_singleton _ _, ?_⟩
      intro env' hen' new hn'
      rw [mem_singleton.mp hn']
      obtain ⟨d', hd', -⟩ := hf.forwarded env' hen'
      -- the bridge that forwards is the one of the last delegate
      have hlast := (hf.alive i d hd ha).1
      have hbound := (List.getElem?_eq_some_iff.mp hd').1
      have hfr : (stamp_epoch env d.my_epoch).delegate = i := hf.queued i d hd env hen
      rw [hfr]
      omega

theorem OneEach.spawned (hf : OneEach f) {t : Supervisor} {e : Event}
    (hst : f.supervisor.step policy e = some t)
    (hm : makes policy f.supervisor e = true) :
    OneEach { f with
      supervisor := t
      delegates := f.delegates ++ [Fleet.spawned f.supervisor.leader_epoch t.state]
      aborted := false } := by
  obtain ⟨⟨caller, term_bump, hc⟩, ha⟩ := made_active hst hm
  have hin := hf.creating caller term_bump hc
  have he : t.leader_epoch = f.supervisor.leader_epoch := by
    refine leader_epoch_kept hst ?_
    rintro epoch rfl
    cases hm
  have hn : ∀ i d, (f.delegates ++ [Fleet.spawned f.supervisor.leader_epoch t.state])[i]? =
      some d → f.delegates[i]? = some d ∨ i = f.delegates.length ∧
        d = ⟨f.supervisor.leader_epoch, true, f.supervisor.leader_epoch, true, []⟩ := by
    intro i d hd
    rw [ha] at hd
    by_cases hi : i < f.delegates.length
    · rw [getElem?_append_left hi] at hd
      exact .inl hd
    · rw [getElem?_append_right (by omega)] at hd
      obtain ⟨hzero, hd⟩ := List.getElem?_eq_some_iff.mp hd
      rw [length_singleton] at hzero
      refine .inr ⟨by omega, ?_⟩
      rw [← hd, getElem_singleton]
      rfl
  have hme : ∀ d ∈ f.delegates ++ [Fleet.spawned f.supervisor.leader_epoch t.state],
      d ∈ f.delegates ∨
        d = ⟨f.supervisor.leader_epoch, true, f.supervisor.leader_epoch, true, []⟩ := by
    intro d hd
    obtain ⟨i, hi⟩ := mem_iff_getElem?.mp hd
    rcases hn i d hi with hold | ⟨-, hd⟩
    · exact .inl (mem_iff_getElem?.mpr ⟨i, hold⟩)
    · exact .inr hd
  refine ⟨creating_inactive hf.creating hst, ?_, ?_, ?_, ?_, ?_, ?_, hf.in_order⟩
  · intro i d hd hg
    rcases hn i d hd with hold | ⟨rfl, -⟩
    · exact absurd hin (hf.alive i d hold hg).2
    · refine ⟨by simp, ?_⟩
      dsimp only
      rw [ha]
      nofun
  · intro d hd
    rcases hme d hd with hold | rfl
    · exact hf.stamped d hold
    · rfl
  · intro d hd
    dsimp only
    rw [he]
    rcases hme d hd with hold | rfl
    · exact hf.reached d hold
    · exact le_rfl
  · rw [pairwise_append]
    refine ⟨hf.ordered, pairwise_singleton _ _, ?_⟩
    intro d hd d' hd'
    rw [mem_singleton.mp hd', ha]
    exact hf.reached d hd
  · intro i d hd env hen
    rcases hn i d hd with hold | ⟨-, rfl⟩
    · exact hf.queued i d hold env hen
    · cases hen
  · intro env hen
    obtain ⟨d, hd, hs⟩ := hf.forwarded env hen
    refine ⟨d, ?_, hs⟩
    rw [getElem?_append_left (List.getElem?_eq_some_iff.mp hd).1]
    exact hd

end

/-- The published term never goes back. -/
def never_back (f : Fleet) : FleetEvent → Prop
  | .task (.publish epoch) => f.supervisor.leader_epoch ≤ epoch
  | _ => True

theorem step_oneEach {f f' : Fleet} (hf : OneEach f) (hb : never_back f e)
    (h : f.step policy e = some f') : OneEach f' := by
  rcases fleet_step_cases h with ⟨e', t, rfl, hst, hm, rfl⟩ |
    ⟨e', rfl, hst, hl, hp, hg⟩ | ⟨hsa, hl, hr⟩
  · exact hf.spawned hst hm
  · refine hf.later hl (creating_inactive hf.creating hst) ?_ ?_ (.inl hp)
    · by_cases hpu : ∃ epoch, e' = .publish epoch
      · obtain ⟨epoch, rfl⟩ := hpu
        rw [← some.inj hst]
        exact hb
      · exact (leader_epoch_kept hst fun epoch heq => hpu ⟨epoch, heq⟩).ge
    · intro hin hh d hd
      have hgo : lets_go f.supervisor f'.supervisor = true := by
        unfold lets_go
        rw [hin]
        cases hs : f.supervisor.state with
        | Inactive => exact absurd hs hh
        | Active ending epoch => rfl
      obtain ⟨hsa, hlast⟩ := hg hgo
      rw [hsa] at hd
      obtain ⟨i, hi⟩ := mem_iff_getElem?.mp hd
      cases hc : d.gone with
      | true => rfl
      | false =>
        have he := (hf.alive i d hi hc).1
        rw [getLast?_eq_getElem?, ← he, Nat.add_sub_cancel, hi] at hlast
        rw [← hc]
        exact hlast
  · refine hf.later hl ?_ (by rw [hsa]) ?_ hr
    · rw [hsa]
      exact hf.creating
    · intro hin hh
      rw [hsa] at hin
      exact absurd hin hh

/-! ## One delegate, one epoch -/

/-- At any time one delegate and one bridge at most are there. What the pipeline has received from
a delegate carries the term that was published when the delegate was made, and no term comes
before a smaller one. -/
theorem one_delegate_one_epoch (policy : NetworkRetryPolicy) (epoch : Nat) (f : Fleet)
    (h : Reach (Fleet.step policy) never_back (Fleet.start epoch) f) :
    (∀ (i j : Nat) (d d' : Delegate), f.delegates[i]? = some d → f.delegates[j]? = some d' →
        d.gone = false → d'.gone = false → i = j) ∧
      (∀ env ∈ f.pipeline, ∃ d : Delegate, f.delegates[env.delegate]? = some d ∧
        env.leader_epoch = some d.published) ∧
      f.pipeline.Pairwise fun a b => ∀ m n, a.leader_epoch = some m → b.leader_epoch = some n →
        m ≤ n := by
  have hf : OneEach f := h.invariant (start_oneEach epoch) fun ht ho hst => step_oneEach ht ho hst
  refine ⟨?_, ?_, ?_⟩
  · intro i j d d' hd hd' hal hal'
    have hlast := (hf.alive i d hd hal).1
    have hlast' := (hf.alive j d' hd' hal').1
    omega
  · intro env he
    obtain ⟨d, hd, hs⟩ := hf.forwarded env he
    refine ⟨d, hd, ?_⟩
    rw [← hf.stamped d (mem_iff_getElem?.mpr ⟨_, hd⟩)]
    exact hs
  · refine hf.in_order.imp_of_mem ?_
    intro a b ha hb hle m n hm hn
    obtain ⟨d, hd, hs⟩ := hf.forwarded a ha
    obtain ⟨d', hd', hs'⟩ := hf.forwarded b hb
    obtain rfl := some.inj (hm.symm.trans hs)
    obtain rfl := some.inj (hn.symm.trans hs')
    obtain ⟨hi, hdi⟩ := List.getElem?_eq_some_iff.mp hd
    obtain ⟨hj, hdj⟩ := List.getElem?_eq_some_iff.mp hd'
    rcases Nat.lt_or_eq_of_le hle with hl | heq
    · rw [← hdi, ← hdj]
      exact pairwise_iff_getElem.mp hf.ordered _ _ hi hj hl
    · rw [heq] at hd
      obtain rfl := some.inj (hd.symm.trans hd')
      exact le_rfl

/-- A term is adopted while a delegate still has an envelope on its way: the old delegate and its
bridge end before the new ones are made. -/
def adopted_term : List FleetEvent :=
  (elected.map .task) ++ [.send 0 none, .task (.publish 2), .task .tick, .task .go, .abort_delegate,
    .forward 0, .bridge_ends 0, .task .timed_out, .task (.create (.ok ()) (.ok ())),
    .send 1 (some 1), .forward 1]

theorem adopted_term_is_stamped :
    ∃ f, Reach (Fleet.step three_tries) never_back (Fleet.start 1) f ∧
      f.pipeline.map (·.leader_epoch) = [some 1, some 2] ∧
      f.delegates.map Delegate.gone = [true, false] ∧
      f.pipeline.Pairwise fun a b => ∀ m n, a.leader_epoch = some m → b.leader_epoch = some n →
        m ≤ n := by
  have hru : ∃ f, run (Fleet.step three_tries) (fun f e => match e with
        | .task (.publish epoch) => f.supervisor.leader_epoch ≤ epoch
        | _ => true) (Fleet.start 1) adopted_term = some f ∧
      f.pipeline.map (·.leader_epoch) = [some 1, some 2] ∧
      f.delegates.map Delegate.gone = [true, false] := ⟨_, rfl, rfl, rfl⟩
  obtain ⟨f, hru, hp, hg⟩ := hru
  have hr : Reach (Fleet.step three_tries) never_back (Fleet.start 1) f := by
    refine reach_of_run ?_ hru
    intro f e ht
    unfold never_back
    split
    · simpa using ht
    · trivial
  exact ⟨f, hr, hp, hg, (one_delegate_one_epoch three_tries 1 f hr).2.2⟩

end camel_master
