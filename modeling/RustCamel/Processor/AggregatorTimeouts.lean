-- Which push a timeout of the aggregator acts on. Timers go by their key alone: at the cap
-- the old timer of a key stays, and a task that passed its check takes whatever bucket it
-- finds. Where neither happens, a task drains the bucket of the push that armed it.
import RustCamel.Processor.Aggregator

open List Option Bool OrdMap

namespace camel_processor.aggregator

/-! ## What is promised -/

section

variable {config : AggregatorConfig} {s s' : State}

/-- The number of the most recent push. -/
def Bucket.last (bucket : Bucket) : Option Nat := bucket.exchanges.getLast?.map (·.1)

/-- The task sleeps and nobody has stopped it. -/
def Timer.Live (s : State) (t : Timer) : Prop :=
  t.stage = .Sleeping ∧ t.token ∉ s.cancelled ∧ t.token ∉ s.aborted

/-- Between the check of a task and its drain. -/
def TimerStage.passing : TimerStage → Bool
  | .Passed | .Draining => true
  | .Sleeping | .Gone => false

/-- Before the old timer is stopped. -/
def SubmitStage.unsettled : SubmitStage → Bool
  | .Counting | .Cancelling => true
  | _ => false

/-- After the old timer was stopped and before the new one is there. -/
def SubmitStage.cleared : SubmitStage → Bool
  | .Aborting | .Inserting | .Spawning _ => true
  | _ => false

def SubmitStage.arming (stage : SubmitStage) : Bool := stage.unsettled || stage.cleared

/-- The submit is not yet through with the old timer. -/
def SubmitStage.stopping : SubmitStage → Bool
  | .Counting | .Cancelling | .Completing => true
  | _ => false

/-- A task that is about to drain a bucket was armed by the most recent push into it, and
a push stops the earlier timers of its key before its submit goes on. -/
structure Timeouts (s : State) : Prop where
  drains_own : ∀ t ∈ s.timers, t.stage = .Draining →
    ∀ bucket, s.buckets.get t.key = some bucket → bucket.last = some t.armed_by
  supersedes : ∀ t ∈ s.timers, t.Live s → ∀ a ∈ s.accepted, a.key = t.key → t.armed_by < a.id →
    ∃ u ∈ s.submits, u.id = a.id ∧ u.key = t.key ∧ u.stage.stopping = true

/-- The steps that keep clear of the two defects. A submit comes when no task of its key is
between check and drain and no other submit of its key arms a timer, a task passes its
check when no submit of its key is about to stop it, and a submit that finds the cap
reached has no live timer of its key. -/
def Spares (config : AggregatorConfig) (s : State) : Event → Prop
  | .submit _ exchange _ => ∀ key_value, config.extract_correlation_key exchange = .ok key_value →
    (∀ t ∈ s.timers, t.key = config.to_string key_value → t.stage.passing = false) ∧
    ∀ u ∈ s.submits, u.key = config.to_string key_value → u.stage.arming = false
  | .timer i _ => ∀ t : Timer, s.timers[i]? = some t → t.Live s →
    ∀ u ∈ s.submits, u.key = t.key → u.stage.unsettled = false
  | .submitter i => ∀ u : Submit, s.submits[i]? = some u → u.stage = .Counting →
    config.max_timeout_tasks ≤ s.timeout_handles.rows.length →
    ∀ t ∈ s.timers, t.key = u.key → ¬t.Live s
  | _ => True

/-- The states of the runs whose steps all keep clear. -/
inductive Reached (config : AggregatorConfig) : State → Prop where
  | new : Reached config State.new
  | step {s s' : State} {e : Event} (h : Reached config s) (hspares : Spares config s e)
      (hstep : s.step config e = some s') : Reached config s'

/-! ## What these runs keep -/

structure Timely (config : AggregatorConfig) (s : State) : Prop where
  one_live : s.timers.OnePer (Timer.Live s) Timer.key
  one_arming : s.submits.OnePer (fun u => u.stage.arming = true) Submit.key
  entry : ∀ t ∈ s.timers, t.Live s → s.timeout_tasks.get t.key = some t.token
  last : ∀ t ∈ s.timers, t.Live s → ∀ bucket, s.buckets.get t.key = some bucket →
    bucket.last = some t.armed_by ∨ ∃ u ∈ s.submits, u.key = t.key ∧ u.stage.unsettled = true
  passing : ∀ t ∈ s.timers, t.stage.passing = true →
    ∀ bucket, s.buckets.get t.key = some bucket → bucket.last = some t.armed_by
  arming : ∀ u ∈ s.submits, u.stage.arming = true →
    ∀ bucket, s.buckets.get u.key = some bucket → bucket.last = some u.id
  latest : ∀ u ∈ s.submits, u.stage.arming = true → ∀ a ∈ s.accepted, a.key = u.key → a.id ≤ u.id
  cleared : ∀ u ∈ s.submits, u.stage.cleared = true → ∀ t ∈ s.timers, t.key = u.key → ¬t.Live s
  spawning : ∀ u ∈ s.submits, ∀ token, u.stage = .Spawning token →
    token ∈ s.cancelled ∨ s.timeout_tasks.get u.key = some token
  supersedes : ∀ t ∈ s.timers, t.Live s → ∀ a ∈ s.accepted, a.key = t.key → t.armed_by < a.id →
    ∃ u ∈ s.submits, u.id = a.id ∧ u.key = t.key ∧ u.stage.stopping = true
  quiet : has_timeout_condition config.completion = false →
    s.timers = [] ∧ ∀ u ∈ s.submits, u.stage.arming = false
  numbered : ∀ a ∈ s.accepted, a.id < s.accepted.length

theorem timely_new (config : AggregatorConfig) : Timely config State.new where
  one_live := by simp [State.new, List.OnePer]
  one_arming := by simp [State.new, List.OnePer]
  entry := by simp [State.new]
  last := by simp [State.new]
  passing := by simp [State.new]
  arming := by simp [State.new]
  latest := by simp [State.new]
  cleared := by simp [State.new]
  spawning := by simp [State.new]
  supersedes := by simp [State.new]
  quiet := by simp [State.new]
  numbered := by simp [State.new]

theorem Timely.timeouts (h : Timely config s) : Timeouts s where
  drains_own t ht hs := h.passing t ht (by rw [hs]; rfl)
  supersedes := h.supersedes

theorem Timer.Live.mono {t : Timer} (h : t.Live s')
    (hca : ∀ c ∈ s.cancelled, c ∈ s'.cancelled)
    (ha : ∀ c ∈ s.aborted, c ∈ s'.aborted) : t.Live s :=
  ⟨h.1, fun hc => h.2.1 (hca _ hc), fun hc => h.2.2 (ha _ hc)⟩

/-! ## Buckets and entries that are only taken away -/

/-- Buckets go, and entries go with their tokens cancelled. -/
structure Calms (s s' : State) : Prop where
  timers : s'.timers = s.timers
  submits : s'.submits = s.submits
  accepted : s'.accepted = s.accepted
  cancelled : ∀ c ∈ s.cancelled, c ∈ s'.cancelled
  aborted : s'.aborted = s.aborted
  buckets : ∀ key bucket, s'.buckets.get key = some bucket → s.buckets.get key = some bucket
  entries : ∀ key token, s.timeout_tasks.get key = some token →
    s'.timeout_tasks.get key = some token ∨ token ∈ s'.cancelled

theorem Calms.trans {s'' : State} (h : Calms s s') (h' : Calms s' s'') : Calms s s'' := by
  refine ⟨h'.timers.trans h.timers, h'.submits.trans h.submits, h'.accepted.trans h.accepted,
    fun c hc => h'.cancelled c (h.cancelled c hc), h'.aborted.trans h.aborted,
    fun key bucket hb => h.buckets key bucket (h'.buckets key bucket hb), ?_⟩
  intro key token ht
  rcases h.entries key token ht with ht | hca
  · exact h'.entries key token ht
  · exact .inr (h'.cancelled token hca)

theorem Timely.calm (h : Timely config s) (hca : Calms s s') : Timely config s' := by
  have hli : ∀ {t : Timer}, t.Live s' → t.Live s := fun ht =>
    ht.mono hca.cancelled (by rw [hca.aborted]; exact fun _ => id)
  refine ⟨?_, ?_, ?_, ?_, ?_, ?_, ?_, ?_, ?_, ?_, ?_, ?_⟩
  · rw [hca.timers]
    exact fun i j t t' hi hj ht ht' => h.one_live i j t t' hi hj (hli ht) (hli ht')
  · rw [hca.submits]
    exact h.one_arming
  · intro t ht hl
    rw [hca.timers] at ht
    rcases hca.entries _ _ (h.entry t ht (hli hl)) with he | hc
    · exact he
    · exact absurd hc hl.2.1
  · rw [hca.timers, hca.submits]
    exact fun t ht hl bucket hb => h.last t ht (hli hl) bucket (hca.buckets _ _ hb)
  · rw [hca.timers]
    exact fun t ht hp bucket hb => h.passing t ht hp bucket (hca.buckets _ _ hb)
  · rw [hca.submits]
    exact fun u hu ha bucket hb => h.arming u hu ha bucket (hca.buckets _ _ hb)
  · rw [hca.submits, hca.accepted]
    exact h.latest
  · rw [hca.submits, hca.timers]
    exact fun u hu hcl t ht hk hl => h.cleared u hu hcl t ht hk (hli hl)
  · rw [hca.submits]
    intro u hu token hs
    rcases h.spawning u hu token hs with hc | he
    · exact .inl (hca.cancelled token hc)
    · exact (hca.entries _ _ he).symm
  · rw [hca.timers, hca.accepted, hca.submits]
    exact fun t ht hl => h.supersedes t ht (hli hl)
  · rw [hca.timers, hca.submits]
    exact h.quiet
  · rw [hca.accepted]
    exact h.numbered

theorem calms_of_buckets (ht : s'.timers = s.timers) (hs : s'.submits = s.submits)
    (ha : s'.accepted = s.accepted) (hc : s'.cancelled = s.cancelled)
    (hab : s'.aborted = s.aborted) (hta : s'.timeout_tasks = s.timeout_tasks)
    (hb : ∀ key bucket, s'.buckets.get key = some bucket → s.buckets.get key = some bucket) :
    Calms s s' := by
  refine ⟨ht, hs, ha, by rw [hc]; exact fun _ => id, hab, hb, ?_⟩
  rw [hta]
  exact fun _ _ => .inl

theorem calms_retain (reason : Discard) (keep : String × Bucket → Bool) :
    Calms s (s.retain reason keep) :=
  calms_of_buckets rfl rfl rfl rfl rfl rfl fun _ _ => get_of_retain

theorem calms_evict (now : Nat) : Calms s (s.evict config now) := by
  unfold State.evict
  split
  · exact calms_retain _ _
  · exact calms_of_buckets rfl rfl rfl rfl rfl rfl fun _ _ => id

theorem calms_cancel_timeout_task (key : String) : Calms s (s.cancel_timeout_task key) := by
  unfold State.cancel_timeout_task
  split
  · rename_i token ht
    refine ⟨rfl, rfl, rfl, fun c hc => by simp [hc], rfl, fun _ _ => id, ?_⟩
    intro key' token' ht'
    by_cases hk : key' = key
    · rw [hk, ht] at ht'
      exact .inr (by simp [some.inj ht'])
    · exact .inl ((get_remove_of_ne _ hk).trans ht')
  · exact calms_of_buckets rfl rfl rfl rfl rfl rfl fun _ _ => id

theorem calms_send_late (reason : CompletionReason) (full : Bool) (key : String)
    (bucket : Bucket) : Calms s (s.send_late config reason full key bucket) := by
  unfold State.send_late
  split
  · split <;> exact calms_of_buckets rfl rfl rfl rfl rfl rfl fun _ _ => id
  · exact calms_of_buckets rfl rfl rfl rfl rfl rfl fun _ _ => id

theorem calms_force_one (full : String → Bool) (r : String × Bucket) :
    Calms s (State.force_one config full s r) := by
  have hc : Calms s (s.cancel_timeout_task_with_handle r.1) :=
    (calms_cancel_timeout_task r.1).trans
      (calms_of_buckets rfl rfl rfl rfl rfl rfl fun _ _ => id)
  unfold State.force_one
  simp only
  split
  · exact hc.trans (calms_send_late _ _ _ _)
  · exact hc.trans (calms_of_buckets rfl rfl rfl rfl rfl rfl fun _ _ => id)

theorem calms_force_rows (full : String → Bool) (rows : List (String × Bucket)) (s : State) :
    Calms s (rows.foldl (State.force_one config full) s) := by
  induction rows generalizing s with
  | nil => exact calms_of_buckets rfl rfl rfl rfl rfl rfl fun _ _ => id
  | cons r rows ih => exact (calms_force_one full r).trans (ih _)

theorem calms_force_complete_all (full : String → Bool) :
    Calms s (s.force_complete_all config full) := by
  have he : Calms s { s with buckets := .empty } :=
    calms_of_buckets rfl rfl rfl rfl rfl rfl (by simp)
  exact he.trans (calms_force_rows full _ _)

end

/-! ## The steps of a submit -/

section

variable {config : AggregatorConfig} {s s' : State} {i : Nat} {u : Submit} {stage : SubmitStage}

/-- What a submit stood for before it moved on, it stands for still, or it gave it up. -/
theorem submit_kept (hu : s.submits[i]? = some u) {q : SubmitStage → Bool} {gone : Prop}
    (hgo : q u.stage = true → q stage = true ∨ gone) {v : Submit} (hv : v ∈ s.submits)
    (hq : q v.stage = true) :
    (∃ w ∈ s.submits.set i { u with stage }, w.id = v.id ∧ w.key = v.key ∧ q w.stage = true) ∨
      (v = u ∧ gone) := by
  rcases mem_set_or_eq { u with stage } hu hv with hv | rfl
  · exact .inl ⟨v, hv, rfl, rfl, hq⟩
  · rcases hgo hq with hs | hg
    · have hl := (List.getElem?_eq_some_iff.mp hu).1
      exact .inl ⟨_, mem_of_getElem? (getElem?_set_self hl), rfl, rfl, hs⟩
    · exact .inr ⟨rfl, hg⟩

section

variable (h : Timely config s)

include h

theorem Timely.submitter (hu : s.submits[i]? = some u)
    (hsu : s'.submits = s.submits.set i { u with stage }) (hti : s'.timers = s.timers)
    (hac : s'.accepted = s.accepted) (hbu : s'.buckets = s.buckets)
    (hli : ∀ t : Timer, t.Live s' → t.Live s)
    (he : ∀ t ∈ s.timers, t.Live s' → s'.timeout_tasks.get t.key = some t.token)
    (hsp : ∀ v ∈ s.submits.set i { u with stage }, ∀ token, v.stage = .Spawning token →
      token ∈ s'.cancelled ∨ s'.timeout_tasks.get v.key = some token)
    (har : stage.arming = true → u.stage.arming = true)
    (hc : stage.cleared = true → ∀ t ∈ s.timers, t.key = u.key → ¬t.Live s')
    (hun : u.stage.unsettled = true → stage.unsettled = true ∨
      ∀ t ∈ s.timers, t.key = u.key → ¬t.Live s')
    (hst : u.stage.stopping = true → stage.stopping = true ∨
      ∀ t ∈ s.timers, t.key = u.key → ¬t.Live s') : Timely config s' := by
  have hm := mem_of_getElem? hu
  -- Every submit is one of before, with its key, its number and an earlier stage.
  have hold : ∀ v ∈ s.submits.set i { u with stage }, v.stage.arming = true →
      ∃ v' ∈ s.submits, v'.key = v.key ∧ v'.id = v.id ∧ v'.stage.arming = true := by
    intro v hv hva
    rcases mem_or_eq_of_mem_set hv with hv | rfl
    · exact ⟨v, hv, rfl, rfl, hva⟩
    · exact ⟨u, hm, rfl, rfl, har hva⟩
  refine ⟨?_, ?_, by rw [hti]; exact he, ?_, ?_, ?_, ?_, ?_, ?_, ?_, ?_, ?_⟩
  · rw [hti]
    exact h.one_live.imp hli
  · rw [hsu]
    exact h.one_arming.set hu rfl har
  · rw [hti, hbu, hsu]
    intro t ht hl bucket hb
    rcases h.last t ht (hli t hl) bucket hb with hlast | ⟨v, hv, hk, hvs⟩
    · exact .inl hlast
    · rcases submit_kept hu hun hv hvs with ⟨w, hw, -, hwk, hws⟩ | ⟨rfl, hn⟩
      · exact .inr ⟨w, hw, hwk.trans hk, hws⟩
      · exact absurd hl (hn t ht hk.symm)
  · rw [hti, hbu]
    exact h.passing
  · rw [hsu, hbu]
    intro v hv hva
    obtain ⟨v', hv', hk, hi, hva'⟩ := hold v hv hva
    rw [← hk, ← hi]
    exact h.arming v' hv' hva'
  · rw [hsu, hac]
    intro v hv hva
    obtain ⟨v', hv', hk, hi, hva'⟩ := hold v hv hva
    rw [← hk, ← hi]
    exact h.latest v' hv' hva'
  · rw [hsu, hti]
    intro v hv hvc t ht hk hl
    rcases mem_or_eq_of_mem_set hv with hv | rfl
    · exact h.cleared v hv hvc t ht hk (hli t hl)
    · exact hc hvc t ht hk hl
  · rw [hsu]
    exact hsp
  · rw [hti, hac, hsu]
    intro t ht hl a ha hk hla
    obtain ⟨v, hv, hi, hvk, hvs⟩ := h.supersedes t ht (hli t hl) a ha hk hla
    rcases submit_kept hu hst hv hvs with ⟨w, hw, hwi, hwk, hws⟩ | ⟨rfl, hn⟩
    · exact ⟨w, hw, hwi.trans hi, hwk.trans hvk, hws⟩
    · exact absurd hl (hn t ht hvk.symm)
  · intro hq
    rw [hti, hsu]
    refine ⟨(h.quiet hq).1, ?_⟩
    intro v hv
    rcases mem_or_eq_of_mem_set hv with hv | rfl
    · exact (h.quiet hq).2 v hv
    · rw [eq_false_iff]
      intro hs
      have := har hs
      simp [(h.quiet hq).2 u hm] at this
  · rw [hac]
    exact h.numbered

/-- What the tokens of a submit that inserts nothing say stays true. -/
theorem Timely.spawning_kept (hs : ∀ token, stage ≠ .Spawning token) :
    ∀ v ∈ s.submits.set i { u with stage }, ∀ token, v.stage = .Spawning token →
      token ∈ s.cancelled ∨ s.timeout_tasks.get v.key = some token := by
  intro v hv token hvs
  rcases mem_or_eq_of_mem_set hv with hv | rfl
  · exact h.spawning v hv token hvs
  · exact absurd hvs (hs token)

theorem Timely.spawned (hu : s.submits[i]? = some u) {token : Nat}
    (hs : u.stage = .Spawning token) :
    Timely config { s.moveSubmit i u (.Handling token) with
      timers := s.timers ++ [⟨u.key, token, u.id, .Sleeping⟩] } := by
  have hme := mem_of_getElem? hu
  have har : u.stage.arming = true := by rw [hs]; rfl
  have hn := h.cleared u hme (by rw [hs]; rfl)
  have hm : Timely config (s.moveSubmit i u (.Handling token)) :=
    h.submitter hu rfl rfl rfl rfl (fun _ => id) h.entry (h.spawning_kept (by simp))
      (by simp [SubmitStage.arming, SubmitStage.unsettled, SubmitStage.cleared])
      (by simp [SubmitStage.cleared])
      (by simp [hs, SubmitStage.unsettled]) (by simp [hs, SubmitStage.stopping])
  -- No submit of the key but this one arms a timer, and it does so no longer.
  have ho : ∀ v ∈ (s.moveSubmit i u (.Handling token)).submits, v.stage.arming = true →
      v.key ≠ u.key := by
    intro v hv hva hk
    obtain ⟨j, hj⟩ := getElem?_of_mem hv
    rcases getElem?_set_cases hu hj with ⟨-, rfl⟩ | ⟨hne, hj⟩
    · simp [SubmitStage.arming, SubmitStage.unsettled, SubmitStage.cleared] at hva
    · exact hne (h.one_arming j i v u hj hu hva har hk)
  refine ⟨?_, hm.one_arming, ?_, ?_, ?_, hm.arming, hm.latest, ?_, hm.spawning, ?_, ?_, hm.numbered⟩
  · exact h.one_live.append fun t ht hli hk => hn t ht hk hli
  · intro t ht hli
    rcases mem_append.mp ht with ht | ht
    · exact h.entry t ht hli
    · rw [mem_singleton.mp ht] at hli ⊢
      rcases h.spawning u hme token hs with hc | he
      · exact absurd hc hli.2.1
      · exact he
  · intro t ht hli bucket hb
    rcases mem_append.mp ht with ht | ht
    · exact hm.last t ht hli bucket hb
    · rw [mem_singleton.mp ht] at hb ⊢
      exact .inl (h.arming u hme har bucket hb)
  · intro t ht hp
    rcases mem_append.mp ht with ht | ht
    · exact h.passing t ht hp
    · rw [mem_singleton.mp ht] at hp
      simp [TimerStage.passing] at hp
  · intro v hv hcl t ht hk
    rcases mem_append.mp ht with ht | ht
    · exact hm.cleared v hv hcl t ht hk
    · rw [mem_singleton.mp ht] at hk
      exact absurd hk.symm (ho v hv (by simp [SubmitStage.arming, hcl]))
  · intro t ht hli a ha hk hl
    rcases mem_append.mp ht with ht | ht
    · exact hm.supersedes t ht hli a ha hk hl
    · rw [mem_singleton.mp ht] at hk hl
      have := h.latest u hme har a ha hk
      simp only at hl
      omega
  · intro hq
    have := (h.quiet hq).2 u hme
    simp [har] at this

theorem Timely.stopped {key : String} (hli : ∀ t : Timer, t.Live s' → t.Live s)
    (hc : ∀ token, s.timeout_tasks.get key = some token → token ∈ s'.cancelled) :
    ∀ t ∈ s.timers, t.key = key → ¬t.Live s' := by
  intro t ht hk hl
  have he := h.entry t ht (hli t hl)
  rw [hk] at he
  exact hl.2.1 (hc _ he)

variable (hu : s.submits[i]? = some u)

include hu

theorem Timely.cancelling (hst : u.stage = .Cancelling)
    (hsu : s'.submits = s.submits.set i { u with stage := .Aborting })
    (hti : s'.timers = s.timers) (ha : s'.accepted = s.accepted)
    (hb : s'.buckets = s.buckets) (hta : s'.timeout_tasks = s.timeout_tasks)
    (hab : s'.aborted = s.aborted) (hk : ∀ c ∈ s.cancelled, c ∈ s'.cancelled)
    (hca : ∀ token, s.timeout_tasks.get u.key = some token → token ∈ s'.cancelled) :
    Timely config s' := by
  have hli : ∀ t : Timer, t.Live s' → t.Live s := fun t ht =>
    ht.mono hk (by rw [hab]; exact fun _ => id)
  have hs := h.stopped hli hca
  refine h.submitter hu hsu hti ha hb hli ?_ ?_ (by simp [hst,
    SubmitStage.arming, SubmitStage.unsettled]) (fun _ => hs) (fun _ => .inr hs)
    (fun _ => .inr hs)
  · intro t ht hl
    rw [hta]
    exact h.entry t ht (hli t hl)
  · intro v hv token hvs
    rw [hta]
    rcases h.spawning_kept (by simp) v hv token hvs with hc | he
    · exact .inl (hk token hc)
    · exact .inr he

theorem Timely.aborting (hs : u.stage = .Aborting)
    (hsu : s'.submits = s.submits.set i { u with stage := .Inserting })
    (hti : s'.timers = s.timers) (ha : s'.accepted = s.accepted)
    (hb : s'.buckets = s.buckets) (hta : s'.timeout_tasks = s.timeout_tasks)
    (hc : s'.cancelled = s.cancelled) (hab : ∀ c ∈ s.aborted, c ∈ s'.aborted) :
    Timely config s' := by
  have hli : ∀ t : Timer, t.Live s' → t.Live s := fun t ht =>
    ht.mono (by rw [hc]; exact fun _ => id) hab
  have hn := h.cleared u (mem_of_getElem? hu) (by rw [hs]; rfl)
  refine h.submitter hu hsu hti ha hb hli ?_ ?_
    (by simp [hs, SubmitStage.arming, SubmitStage.unsettled, SubmitStage.cleared])
    (fun _ t ht hk hl => hn t ht hk (hli t hl))
    (by simp [hs, SubmitStage.unsettled]) (by simp [hs, SubmitStage.stopping])
  · intro t ht hl
    rw [hta]
    exact h.entry t ht (hli t hl)
  · rw [hta, hc]
    exact h.spawning_kept (by simp)

theorem Timely.inserting (hs : u.stage = .Inserting) :
    Timely config { s.moveSubmit i u (.Spawning s.tokens) with
      timeout_tasks := s.timeout_tasks.insert u.key s.tokens
      tokens := s.tokens + 1 } := by
  have hm := mem_of_getElem? hu
  have ha : u.stage.arming = true := by rw [hs]; rfl
  have hn := h.cleared u hm (by rw [hs]; rfl)
  refine h.submitter hu rfl rfl rfl rfl (fun _ => id) ?_ ?_ (fun _ => ha) (fun _ => hn)
    (by simp [hs, SubmitStage.unsettled]) (by simp [hs, SubmitStage.stopping])
  · intro t ht hl
    have hne : t.key ≠ u.key := fun hk => hn t ht hk hl
    exact (get_insert_of_ne _ _ hne).trans (h.entry t ht hl)
  · intro v hv token hvs
    obtain ⟨j, hj⟩ := getElem?_of_mem hv
    rcases getElem?_set_cases hu hj with ⟨-, rfl⟩ | ⟨hij, hj⟩
    · obtain rfl := SubmitStage.Spawning.inj hvs
      exact .inr (get_insert_self _ _ _)
    · have hva : v.stage.arming = true := by rw [hvs]; rfl
      have hne : v.key ≠ u.key := fun hk =>
        hij (h.one_arming j i v u hj hu hva ha hk)
      rcases h.spawning v (mem_of_getElem? hj) token hvs with hc | he
      · exact .inl hc
      · exact .inr ((get_insert_of_ne _ _ hne).trans he)

theorem Timely.completing (hst : u.stage = .Completing) :
    Timely config ((s.cancel_timeout_task u.key).moveSubmit i u .Releasing) := by
  have hc := calms_cancel_timeout_task (s := s) u.key
  have hca := h.calm hc
  have hu' : (s.cancel_timeout_task u.key).submits[i]? = some u := by
    rw [hc.submits]
    exact hu
  have hs : ∀ t ∈ (s.cancel_timeout_task u.key).timers, t.key = u.key →
      ¬t.Live (s.cancel_timeout_task u.key) := by
    refine hca.stopped (fun _ => id) ?_
    intro token ht
    unfold State.cancel_timeout_task at ht
    split at ht
    · simp at ht
    · rename_i hn
      rw [hn] at ht
      simp at ht
  exact hca.submitter hu' rfl rfl rfl rfl (fun _ => id) hca.entry
    (hca.spawning_kept (by simp))
    (by simp [SubmitStage.arming, SubmitStage.unsettled, SubmitStage.cleared])
    (by simp [SubmitStage.cleared]) (by simp [hst, SubmitStage.unsettled])
    (fun _ => .inr hs)

end

theorem Timely.advance (h : Timely config s) (hsp : Spares config s (.submitter i))
    (hst : s.advance config i = some s') : Timely config s' := by
  unfold State.advance at hst
  split at hst
  · simp at hst
  · rename_i u hu
    split at hst
    · rename_i hs
      split at hst
      · -- At the cap, and the key has no live timer.
        rename_i hca
        have hn := hsp u hu hs hca
        rw [← some.inj hst]
        exact h.submitter hu rfl rfl rfl rfl (fun _ => id) h.entry (h.spawning_kept (by simp))
          (by simp [SubmitStage.arming, SubmitStage.unsettled, SubmitStage.cleared])
          (by simp [SubmitStage.cleared]) (fun _ => .inr hn) (fun _ => .inr hn)
      · rw [← some.inj hst]
        exact h.submitter hu rfl rfl rfl rfl (fun _ => id) h.entry (h.spawning_kept (by simp))
          (by simp [hs, SubmitStage.arming, SubmitStage.unsettled])
          (by simp [SubmitStage.cleared]) (fun _ => .inl rfl) (fun _ => .inl rfl)
    · rename_i hs
      split at hst
      · rename_i token ht
        rw [← some.inj hst]
        refine h.cancelling hu hs rfl rfl rfl rfl rfl rfl (fun c hc => by simp [hc]) ?_
        intro token' ht'
        rw [ht] at ht'
        simp [some.inj ht']
      · rename_i hn
        rw [← some.inj hst]
        refine h.cancelling hu hs rfl rfl rfl rfl rfl rfl (fun _ => id) ?_
        intro token ht
        rw [hn] at ht
        simp at ht
    · rename_i hs
      split at hst
      · rw [← some.inj hst]
        exact h.aborting hu hs rfl rfl rfl rfl rfl rfl fun c hc => .tail _ hc
      · rw [← some.inj hst]
        exact h.aborting hu hs rfl rfl rfl rfl rfl rfl fun _ => id
    · rename_i hs
      rw [← some.inj hst]
      exact h.inserting hu hs
    · rename_i token hs
      rw [← some.inj hst]
      exact h.spawned hu hs
    · rename_i token hs
      rw [← some.inj hst]
      exact h.submitter hu rfl rfl rfl rfl (fun _ => id) h.entry (h.spawning_kept (by simp))
        (by simp [SubmitStage.arming, SubmitStage.unsettled, SubmitStage.cleared])
        (by simp [SubmitStage.cleared]) (by simp [hs, SubmitStage.unsettled])
        (by simp [hs, SubmitStage.stopping])
    · rename_i hs
      rw [← some.inj hst]
      exact h.completing hu hs
    · rename_i hs
      rw [← some.inj hst]
      exact h.submitter hu rfl rfl rfl rfl (fun _ => id) h.entry (h.spawning_kept (by simp))
        (by simp [SubmitStage.arming, SubmitStage.unsettled, SubmitStage.cleared])
        (by simp [SubmitStage.cleared]) (by simp [hs, SubmitStage.unsettled])
        (by simp [hs, SubmitStage.stopping])
    · simp at hst

end

/-! ## The steps of a task -/

section

variable {config : AggregatorConfig} {s s' : State} {i : Nat} {t : Timer} {stage : TimerStage}

theorem Timely.timer (h : Timely config s) (ht : s.timers[i]? = some t)
    (hti : s'.timers = s.timers.set i { t with stage }) (hs : s'.submits = s.submits)
    (hac : s'.accepted = s.accepted) (hca : s'.cancelled = s.cancelled)
    (hab : s'.aborted = s.aborted)
    (hbu : ∀ key bucket, s'.buckets.get key = some bucket → s.buckets.get key = some bucket)
    (haw : stage ≠ .Sleeping)
    (hen : ∀ j t', j ≠ i → s.timers[j]? = some t' → t'.Live s →
      s'.timeout_tasks.get t'.key = some t'.token)
    (hsp : ∀ v ∈ s.submits, ∀ token, v.stage = .Spawning token →
      token ∈ s.cancelled ∨ s'.timeout_tasks.get v.key = some token)
    (hpa : stage.passing = true →
      ∀ bucket, s.buckets.get t.key = some bucket → bucket.last = some t.armed_by) :
    Timely config s' := by
  have hli : ∀ t : Timer, t.Live s' → t.Live s := fun t ht =>
    ht.mono (by rw [hca]; exact fun _ => id) (by rw [hab]; exact fun _ => id)
  -- A task that is live was there before, at its place.
  have hp : ∀ {j : Nat} {t' : Timer}, s'.timers[j]? = some t' → t'.Live s' →
      j ≠ i ∧ s.timers[j]? = some t' := by
    intro j t' hj hl
    rw [hti] at hj
    rcases getElem?_set_cases ht hj with ⟨-, rfl⟩ | hp
    · exact absurd hl.1 haw
    · exact hp
  have hm : ∀ t' ∈ s'.timers, t'.Live s' → t' ∈ s.timers := by
    intro t' ht' hl
    obtain ⟨j, hj⟩ := getElem?_of_mem ht'
    exact mem_of_getElem? (hp hj hl).2
  refine ⟨?_, ?_, ?_, ?_, ?_, ?_, ?_, ?_, ?_, ?_, ?_, ?_⟩
  · intro j k t₁ t₂ hj hk hli₁ hli₂
    exact h.one_live j k t₁ t₂ (hp hj hli₁).2 (hp hk hli₂).2 (hli _ hli₁) (hli _ hli₂)
  · rw [hs]
    exact h.one_arming
  · intro t' ht' hl
    obtain ⟨j, hj⟩ := getElem?_of_mem ht'
    obtain ⟨hn, hj⟩ := hp hj hl
    exact hen j t' hn hj (hli _ hl)
  · rw [hs]
    exact fun t' ht' hl bucket hb =>
      h.last t' (hm t' ht' hl) (hli _ hl) bucket (hbu _ _ hb)
  · intro t' ht' hpas bucket hb
    rw [hti] at ht'
    rcases mem_or_eq_of_mem_set ht' with ht' | rfl
    · exact h.passing t' ht' hpas bucket (hbu _ _ hb)
    · exact hpa hpas bucket (hbu _ _ hb)
  · rw [hs]
    exact fun u hu ha bucket hb => h.arming u hu ha bucket (hbu _ _ hb)
  · rw [hs, hac]
    exact h.latest
  · rw [hs]
    exact fun u hu hc t' ht' hke hl =>
      h.cleared u hu hc t' (hm t' ht' hl) hke (hli _ hl)
  · rw [hs, hca]
    exact hsp
  · rw [hac, hs]
    exact fun t' ht' hl => h.supersedes t' (hm t' ht' hl) (hli _ hl)
  · intro hq
    have he := (h.quiet hq).1
    rw [he] at ht
    simp at ht
  · rw [hac]
    exact h.numbered

theorem Timely.fire {full : Bool} (h : Timely config s) (hsp : Spares config s (.timer i full))
    (hst : s.fire config i full = some s') : Timely config s' := by
  have he : ∀ j t', j ≠ i → s.timers[j]? = some t' → t'.Live s →
      s.timeout_tasks.get t'.key = some t'.token :=
    fun _ t' _ hj hl => h.entry t' (mem_of_getElem? hj) hl
  unfold State.fire at hst
  split at hst
  · simp at hst
  · rename_i t ht
    have hm := mem_of_getElem? ht
    split at hst
    · rename_i hs
      split at hst
      · rw [← some.inj hst]
        exact h.timer ht rfl rfl rfl rfl rfl (fun _ _ => id) (by simp) he h.spawning
          (by simp [TimerStage.passing])
      · -- The check: the task is live, and no submit of its key is about to stop it.
        rename_i hnot
        have hl : t.Live s := ⟨hs, fun hc => hnot (.inl hc), fun hc => hnot (.inr hc)⟩
        rw [← some.inj hst]
        refine h.timer ht rfl rfl rfl rfl rfl (fun _ _ => id) (by simp) ?_ ?_ ?_
        · intro j t' hn hj hl'
          have hk : t'.key ≠ t.key := fun hk =>
            hn (h.one_live j i t' t hj ht hl' hl hk)
          exact (get_remove_of_ne _ hk).trans (he j t' hn hj hl')
        · intro v hv token hvs
          have hk : v.key ≠ t.key := fun hk =>
            h.cleared v hv (by rw [hvs]; rfl) t hm hk.symm hl
          rcases h.spawning v hv token hvs with hc | hen
          · exact .inl hc
          · exact .inr ((get_remove_of_ne _ hk).trans hen)
        · intro _ bucket hb
          rcases h.last t hm hl bucket hb with hlast | ⟨u, hu, hk, hus⟩
          · exact hlast
          · have := hsp t ht hl u hu hk
            simp [hus] at this
    · rename_i hs
      rw [← some.inj hst]
      exact h.timer ht rfl rfl rfl rfl rfl (fun _ _ => id) (by simp) he h.spawning
        (fun _ => h.passing t hm (by rw [hs]; rfl))
    · have hg : Timely config (s.moveTimer i t .Gone) :=
        h.timer ht rfl rfl rfl rfl rfl (fun _ _ => id) (by simp) he h.spawning
          (by simp [TimerStage.passing])
      split at hst
      · have hta : Timely config
            { s.moveTimer i t .Gone with buckets := s.buckets.remove t.key } :=
          hg.calm (calms_of_buckets rfl rfl rfl rfl rfl rfl fun _ _ => get_of_remove)
        split at hst
        · rw [← some.inj hst]
          exact hta.calm (calms_of_buckets rfl rfl rfl rfl rfl rfl fun _ _ => id)
        · rw [← some.inj hst]
          exact hta.calm (calms_send_late _ _ _ _)
      · rw [← some.inj hst]
        exact hg
    · simp at hst

end

/-! ## The pushes -/

section

open camel_api (Exchange Value)
open camel_processor.multicast_segment (textExchange)

variable {t : Timer} {u : Submit} {a : Arrival} {config : AggregatorConfig} {s s' : State}
  {key : String} {stage : SubmitStage}

/-- The stage of a submit right behind its push. -/
def SubmitStage.Fresh (config : AggregatorConfig) (stage : SubmitStage) : Prop :=
  (stage = .Counting ∧ has_timeout_condition config.completion = true) ∨ stage = .Completing ∨
    (stage = .Done ∧ has_timeout_condition config.completion = false)

theorem SubmitStage.Fresh.cleared (h : stage.Fresh config) : stage.cleared = false := by
  rcases h with ⟨rfl, -⟩ | rfl | ⟨rfl, -⟩ <;> rfl

/-- A push into a bucket of `key` that no task is about to drain and no submit arms for. -/
structure Pushed (config : AggregatorConfig) (key : String) (stage : SubmitStage) (s s' : State) :
    Prop where
  submits : s'.submits = s.submits ++ [⟨key, s.accepted.length, stage⟩]
  accepted : ∃ exchange, s'.accepted = s.accepted ++ [⟨key, s.accepted.length, exchange⟩]
  timers : s'.timers = s.timers
  timeout_tasks : s'.timeout_tasks = s.timeout_tasks
  cancelled : s'.cancelled = s.cancelled
  aborted : s'.aborted = s.aborted
  buckets : ∀ key', key' ≠ key → s'.buckets.get key' = s.buckets.get key'
  bucket : ∀ bucket, s'.buckets.get key = some bucket →
    bucket.last = some s.accepted.length ∧ stage ≠ .Completing
  fresh : stage.Fresh config
  passing : ∀ t ∈ s.timers, t.key = key → t.stage.passing = false
  arming : ∀ u ∈ s.submits, u.key = key → u.stage.arming = false

namespace Pushed

variable (hpush : Pushed config key stage s s')

include hpush

theorem live (h : t.Live s') : t.Live s :=
  h.mono (by rw [hpush.cancelled]; exact fun _ => id) (by rw [hpush.aborted]; exact fun _ => id)

theorem mem_new : (⟨key, s.accepted.length, stage⟩ : Submit) ∈ s'.submits := by
  simp [hpush.submits]

theorem mem_old (hu : u ∈ s.submits) : u ∈ s'.submits := by
  simp [hpush.submits, hu]

theorem mem_submits (hu : u ∈ s'.submits) :
    u ∈ s.submits ∨ u = ⟨key, s.accepted.length, stage⟩ := by
  simpa [hpush.submits] using hu

theorem mem_accepted (ha : a ∈ s'.accepted) :
    a ∈ s.accepted ∨ (a.key = key ∧ a.id = s.accepted.length) := by
  obtain ⟨exchange, hac⟩ := hpush.accepted
  rw [hac] at ha
  rcases mem_append.mp ha with ha | ha
  · exact .inl ha
  · rw [mem_singleton.mp ha]
    exact .inr ⟨rfl, rfl⟩

theorem other (hu : u ∈ s.submits) (hua : u.stage.arming = true) : u.key ≠ key := by
  intro hk
  simp [hpush.arming u hu hk] at hua

theorem looks (h : Timely config s) (ht : t ∈ s.timers) :
    stage = .Counting ∨ stage = .Completing := by
  rcases hpush.fresh with ⟨hc, -⟩ | hco | ⟨-, hq⟩
  · exact .inl hc
  · exact .inr hco
  · rw [(h.quiet hq).1] at ht
    simp at ht

theorem last (h : Timely config s) (ht : t ∈ s.timers) (hl : t.Live s') {bucket : Bucket}
    (hb : s'.buckets.get t.key = some bucket) :
    bucket.last = some t.armed_by ∨ ∃ u ∈ s'.submits, u.key = t.key ∧ u.stage.unsettled = true := by
  by_cases hk : t.key = key
  · rw [hk] at hb
    rcases hpush.looks h ht with hc | hco
    · exact .inr ⟨_, hpush.mem_new, hk.symm, by rw [hc]; rfl⟩
    · exact absurd hco (hpush.bucket bucket hb).2
  · rw [hpush.buckets _ hk] at hb
    rcases h.last t ht (hpush.live hl) bucket hb with hlast | ⟨u, hu, huk, hus⟩
    · exact .inl hlast
    · exact .inr ⟨u, hpush.mem_old hu, huk, hus⟩

theorem latest (h : Timely config s) (hu : u ∈ s'.submits) (hua : u.stage.arming = true)
    (ha : a ∈ s'.accepted) (hk : a.key = u.key) : a.id ≤ u.id := by
  rcases hpush.mem_submits hu with hu | rfl
  · rcases hpush.mem_accepted ha with ha | ⟨hak, -⟩
    · exact h.latest u hu hua a ha hk
    · exact absurd (hk.symm.trans hak) (hpush.other hu hua)
  · rcases hpush.mem_accepted ha with ha | ⟨-, hi⟩
    · exact Nat.le_of_lt (h.numbered a ha)
    · exact Nat.le_of_eq hi

theorem supersedes (h : Timely config s) (ht : t ∈ s.timers) (hl : t.Live s')
    (ha : a ∈ s'.accepted) (hk : a.key = t.key) (hla : t.armed_by < a.id) :
    ∃ u ∈ s'.submits, u.id = a.id ∧ u.key = t.key ∧ u.stage.stopping = true := by
  rcases hpush.mem_accepted ha with ha | ⟨hak, hi⟩
  · obtain ⟨u, hu, hr⟩ := h.supersedes t ht (hpush.live hl) a ha hk hla
    exact ⟨u, hpush.mem_old hu, hr⟩
  · refine ⟨_, hpush.mem_new, hi.symm, hak.symm.trans hk, ?_⟩
    rcases hpush.looks h ht with hc | hco
    · rw [hc]
      rfl
    · rw [hco]
      rfl

theorem quiet (h : Timely config s) (hq : has_timeout_condition config.completion = false)
    (hu : u ∈ s'.submits) : u.stage.arming = false := by
  rcases hpush.mem_submits hu with hu | rfl
  · exact (h.quiet hq).2 u hu
  · rcases hpush.fresh with ⟨-, ht⟩ | rfl | ⟨rfl, -⟩
    · rw [hq] at ht
      simp at ht
    · rfl
    · rfl

theorem numbered (h : Timely config s) (ha : a ∈ s'.accepted) : a.id < s'.accepted.length := by
  have hl : s'.accepted.length = s.accepted.length + 1 := by
    obtain ⟨exchange, hac⟩ := hpush.accepted
    simp [hac]
  rcases hpush.mem_accepted ha with ha | ⟨-, hi⟩
  · have := h.numbered a ha
    omega
  · omega

end Pushed

theorem Timely.pushed (h : Timely config s) (hpush : Pushed config key stage s s') :
    Timely config s' where
  one_live := by
    rw [hpush.timers]
    exact h.one_live.imp fun _ => hpush.live
  one_arming := by
    rw [hpush.submits]
    exact h.one_arming.append fun u hu => hpush.other hu
  entry := by
    rw [hpush.timers, hpush.timeout_tasks]
    exact fun t ht hl => h.entry t ht (hpush.live hl)
  last := by
    rw [hpush.timers]
    exact fun t ht hl bucket => hpush.last h ht hl
  passing := by
    rw [hpush.timers]
    intro t ht hp bucket hb
    have hk : t.key ≠ key := by
      intro hk
      simp [hpush.passing t ht hk] at hp
    rw [hpush.buckets _ hk] at hb
    exact h.passing t ht hp bucket hb
  arming := by
    intro u hu hua bucket hb
    rcases hpush.mem_submits hu with hu | rfl
    · rw [hpush.buckets _ (hpush.other hu hua)] at hb
      exact h.arming u hu hua bucket hb
    · exact (hpush.bucket bucket hb).1
  latest := fun u hu hua a ha => hpush.latest h hu hua ha
  cleared := by
    rw [hpush.timers]
    intro u hu hc t ht hk hl
    rcases hpush.mem_submits hu with hu | rfl
    · exact h.cleared u hu hc t ht hk (hpush.live hl)
    · simp [hpush.fresh.cleared] at hc
  spawning := by
    rw [hpush.timeout_tasks, hpush.cancelled]
    intro u hu token hus
    rcases hpush.mem_submits hu with hu | rfl
    · exact h.spawning u hu token hus
    · have hc := hpush.fresh.cleared
      simp only at hus
      simp [hus, SubmitStage.cleared] at hc
  supersedes := by
    rw [hpush.timers]
    exact fun t ht hl a ha => hpush.supersedes h ht hl ha
  quiet := fun hq => ⟨by rw [hpush.timers]; exact (h.quiet hq).1, fun u hu => hpush.quiet h hq hu⟩
  numbered := fun a ha => hpush.numbered h ha

theorem last_push (bucket : Bucket) (now id : Nat) (exchange : Exchange) (claim : Option Nat) :
    (bucket.push now id exchange claim).last = some id := by
  simp [Bucket.push, Bucket.last]

theorem calms_answer (reason : CompletionReason) (key_value : Value) (key : String)
    (bucket : Bucket) : Calms s (s.answer config reason key_value key bucket) := by
  unfold State.answer
  split <;> exact calms_of_buckets rfl rfl rfl rfl rfl rfl fun _ _ => id

theorem Timely.push (h : Timely config s) {now : Nat} {key_value : Value} {satisfied : Bool}
    {exchange : Exchange} {claim : Option Nat}
    (hp : ∀ t ∈ s.timers, t.key = config.to_string key_value → t.stage.passing = false)
    (ha : ∀ u ∈ s.submits, u.key = config.to_string key_value → u.stage.arming = false) :
    Timely config (s.push config now key_value satisfied exchange claim) := by
  unfold State.push
  simp only
  split
  · refine Timely.calm ?_ (calms_answer _ _ _ _)
    refine h.pushed ⟨rfl, ⟨_, rfl⟩, rfl, rfl, rfl, rfl, ?_, ?_, .inr (.inl rfl), hp, ha⟩
    · intro key' hn
      exact get_remove_of_ne _ hn
    · simp
  · refine h.pushed ⟨rfl, ⟨_, rfl⟩, rfl, rfl, rfl, rfl, ?_, ?_, ?_, hp, ha⟩
    · intro key' hn
      exact get_insert_of_ne _ _ hn
    · intro bucket hb
      rw [get_insert_self] at hb
      rw [← some.inj hb]
      refine ⟨last_push _ _ _ _ _, ?_⟩
      split <;> simp
    · split
      · rename_i ht
        exact .inl ⟨rfl, ht⟩
      · rename_i ht
        exact .inr (.inr ⟨rfl, by simpa using ht⟩)

theorem Timely.submit (h : Timely config s) (now : Nat) (exchange : Exchange) (claim : Option Nat)
    (hs : Spares config s (.submit now exchange claim)) :
    Timely config (s.submit_with_claim config now exchange claim).2 := by
  unfold State.submit_with_claim
  split
  · exact h
  · rename_i key_value hk
    obtain ⟨hp, ha⟩ := hs key_value hk
    split
    · exact h
    · have hc : Calms s (s.evict config now) := calms_evict now
      have he := h.calm hc
      unfold State.enter
      simp only
      split
      · exact he
      · split
        · exact he
        · refine he.push ?_ ?_
          · rw [hc.timers]
            exact hp
          · rw [hc.submits]
            exact ha

theorem Timely.step (h : Timely config s) (e : Event) (hs : Spares config s e)
    (hst : s.step config e = some s') : Timely config s' := by
  cases e with
  | submit now exchange claim =>
    rw [← some.inj hst]
    exact h.submit now exchange claim hs
  | submitter i => exact h.advance hs hst
  | timer i full => exact h.fire hs hst
  | force_complete_all full =>
    rw [← some.inj hst]
    exact h.calm (calms_force_complete_all full)
  | release_unarmed_buckets =>
    rw [← some.inj hst]
    exact h.calm (calms_retain _ _)
  | sweep now =>
    rw [← some.inj hst]
    exact h.calm (calms_evict now)

theorem Reached.timely (h : Reached config s) : Timely config s := by
  induction h with
  | new => exact timely_new config
  | step _ hs hst ih => exact ih.step _ hs hst

/-- In a run whose steps all keep clear of the defects, a task that drains a bucket was
armed by the last push into it, and a push stops the earlier timers of its key. -/
theorem timeouts_act_on_their_own_push (config : AggregatorConfig) (s : State)
    (h : Reached config s) : Timeouts s :=
  h.timely.timeouts

/-- A test that is enough for a step to keep clear. -/
def clear (config : AggregatorConfig) (s : State) : Event → Bool
  | .submit _ _ _ =>
    s.timers.all (fun t => !t.stage.passing) && s.submits.all fun u => !u.stage.arming
  | .timer _ _ => s.submits.all fun u => !u.stage.unsettled
  | .submitter _ =>
    s.submits.all (fun u => !u.stage.unsettled) ||
      decide (s.timeout_handles.rows.length < config.max_timeout_tasks)
  | _ => true

theorem spares_of_clear {e : Event} (h : clear config s e = true) : Spares config s e := by
  cases e with
  | submit now exchange claim =>
    simp only [clear, and_eq_true, List.all_eq_true, not_eq_true'] at h
    exact fun _ _ => ⟨fun t ht _ => h.1 t ht, fun u hu _ => h.2 u hu⟩
  | timer i full =>
    simp only [clear, List.all_eq_true, not_eq_true'] at h
    exact fun _ _ _ u hu _ => h u hu
  | submitter i =>
    simp only [clear, or_eq_true, List.all_eq_true, not_eq_true', decide_eq_true_eq] at h
    intro u hu hs hc
    rcases h with h | h
    · have := h u (mem_of_getElem? hu)
      simp [hs, SubmitStage.unsettled] at this
    · omega
  | force_complete_all full | release_unarmed_buckets | sweep now => trivial

/-- A run that stops at a step that fails the test. -/
def clearRun (config : AggregatorConfig) (s : State) : List Event → Option State
  | [] => some s
  | e :: events =>
    if clear config s e then (s.step config e).bind fun s => clearRun config s events else none

theorem reached_of_clearRun (h : Reached config s) {events : List Event}
    (hr : clearRun config s events = some s') : Reached config s' := by
  induction events generalizing s with
  | nil =>
    cases hr
    exact h
  | cons e events ih =>
    unfold clearRun at hr
    split at hr
    · rename_i hc
      obtain ⟨middle, hs, hr⟩ := bind_eq_some_iff.mp hr
      exact ih (h.step (spares_of_clear hc) hs) hr
    · simp at hr

/-- Room for three timers. -/
def roomyConfig : AggregatorConfig := { sampleConfig 5 with max_timeout_tasks := 3 }

/-- The second push of a key arms a new timer, the old one is gone, and the new one is about
to drain. -/
def rearmed : List Event :=
  [armed 0 "a" 0, armed 1 "a" 1, [.timer 0 false, .timer 1 false, .timer 1 false]].flatten

theorem the_new_timer_drains :
    ∃ s, Reached roomyConfig s ∧
      (s.timers.map fun t => (t.armed_by, t.stage.passing)) = [(0, false), (1, true)] ∧
      Timeouts s := by
  have hc : (clearRun roomyConfig State.new rearmed).map
      (fun s => s.timers.map fun t => (t.armed_by, t.stage.passing)) =
      some [(0, false), (1, true)] := by decide +kernel
  obtain ⟨s, hs, hc⟩ := map_eq_some_iff.mp hc
  have hr := reached_of_clearRun .new hs
  exact ⟨s, hr, hc, timeouts_act_on_their_own_push _ s hr⟩

/-- A task is about to drain a bucket that another push came into last. -/
def drainsForeign (s : State) : Bool :=
  s.timers.any fun t => t.stage = .Draining &&
    (s.buckets.get t.key).any fun bucket => bucket.last != some t.armed_by

theorem not_timeouts_of_drainsForeign (h : drainsForeign s = true) : ¬Timeouts s := by
  intro hti
  obtain ⟨t, ht, hf⟩ := List.any_eq_true.mp h
  simp only [and_eq_true, decide_eq_true_eq, Option.any_eq_true, bne_iff_ne] at hf
  obtain ⟨hs, bucket, hb, hn⟩ := hf
  exact hn (hti.drains_own t ht hs bucket hb)

/-- There is room for one timer, and the second push finds it taken by that of its own key. -/
def capped : List Event :=
  (armed 0 "a" 0).append [.submit 1 (textExchange "a") none, .submitter 1, .timer 0 false,
    .timer 0 false]

/-- There is room for more, a task passes its check, and the second push comes before it
drains. -/
def overtaken : List Event :=
  [armed 0 "a" 0, [.timer 0 false], armed 1 "a" 1, [.timer 0 false]].flatten

/-- In both runs the timer of the first push drains what the second push brought. -/
theorem the_old_timer_drains :
    (∃ s, State.new.run (sampleConfig 5) capped = some s ∧ ¬Timeouts s) ∧
    ∃ s, State.new.run roomyConfig overtaken = some s ∧ ¬Timeouts s := by
  have hc : (State.new.run (sampleConfig 5) capped).map drainsForeign = some true := by
    decide +kernel
  have hr : (State.new.run roomyConfig overtaken).map drainsForeign = some true := by
    decide +kernel
  obtain ⟨s, hs, hf⟩ := map_eq_some_iff.mp hc
  obtain ⟨s', hs', hf'⟩ := map_eq_some_iff.mp hr
  exact ⟨⟨s, hs, not_timeouts_of_drainsForeign hf⟩, ⟨s', hs', not_timeouts_of_drainsForeign hf'⟩⟩

end

end camel_processor.aggregator
