-- An entry is acknowledged only after its own success: every XACK of a session is backed by
-- deliveries that were seen to complete before the token fired, one for each id it names.
import Mathlib.Data.List.Induction
import Mathlib.Data.List.TakeWhile
import RustCamel.Lib.History
import RustCamel.Redis.ControlFlow

open List Option

namespace camel_redis.streams

variable {params : StreamConsumerParams} {policy : NetworkRetryPolicy}

/-! ## What the log says -/

/-- How often an act acknowledges the id on that connection. -/
def Act.acks (half : Half) (id : String) : Act → Nat
  | .Xack on ids => if on = half then ids.count id else 0
  | _ => 0

def acks (half : Half) (id : String) (log : List Act) : Nat := (log.map (·.acks half id)).sum

/-- How often a delivery of the id was seen to complete. -/
def completions (half : Half) (id : String) (log : List Act) : Nat :=
  log.count (.Observed half id .Completed)

def before_cancel (log : List Act) : List Act := log.takeWhile (· ≠ .Cancelled)

def Act.is_handed : Act → Bool
  | .Handed _ => true
  | _ => false

def Act.is_observed : Act → Bool
  | .Observed _ _ _ => true
  | _ => false

/-- The entry handed to the pipeline last, until its outcome is seen. -/
def outstanding (log : List Act) : Option StreamEntry :=
  log.foldl (fun last act =>
    match act with
    | .Handed entry => some entry
    | .Observed _ _ _ => none
    | _ => last) none

def Justified (before : List Act) : Act → Prop
  | .Handed _ => outstanding before = none
  | .Observed _ id _ => ∃ entry, outstanding before = some entry ∧ entry.id = id
  | .Xack half ids =>
    ∀ id, acks half id before + ids.count id ≤ completions half id (before_cancel before)
  | .Cancelled | .Xreadgroup => True

@[simp] theorem acks_append_one (half : Half) (id : String) (log : List Act) (act : Act) :
    acks half id (log ++ [act]) = acks half id log + act.acks half id := by
  simp [acks]

variable {log : List Act} {s t : State} {pc : CorePc} {pc' : CorePc}

theorem before_cancel_of_not_mem (h : Act.Cancelled ∉ log) : before_cancel log = log := by
  unfold before_cancel
  rw [takeWhile_eq_self_iff]
  intro act ha
  exact decide_eq_true fun heq => h (heq ▸ ha)

theorem before_cancel_append_of_mem (h : Act.Cancelled ∈ log) (act : Act) :
    before_cancel (log ++ [act]) = before_cancel log := by
  unfold before_cancel
  rw [takeWhile_append]
  have hs : (log.takeWhile (· ≠ .Cancelled)).length ≠ log.length := by
    intro heq
    have ha := takeWhile_eq_self_iff.mp (List.takeWhile_prefix _ |>.eq_of_length heq)
    exact absurd (ha _ h) (by simp)
  rw [if_neg hs]

theorem completions_mono (half : Half) (id : String) (log : List Act) (act : Act) :
    completions half id (before_cancel log) ≤
      completions half id (before_cancel (log ++ [act])) := by
  by_cases h : Act.Cancelled ∈ log
  · exact le_of_eq (by rw [before_cancel_append_of_mem h])
  · rw [before_cancel_of_not_mem h]
    unfold before_cancel
    rw [takeWhile_append_of_pos]
    · unfold completions
      rw [count_append]
      omega
    · intro a ha
      exact decide_eq_true fun heq => h (heq ▸ ha)

theorem completions_observed (h : Act.Cancelled ∉ log) (half on : Half) (id i : String) :
    completions half id (before_cancel (log ++ [.Observed on i .Completed])) =
      completions half id (before_cancel log) + if on = half ∧ i = id then 1 else 0 := by
  have h' : Act.Cancelled ∉ log ++ [.Observed on i .Completed] := by simpa using h
  rw [before_cancel_of_not_mem h, before_cancel_of_not_mem h', completions, completions,
    count_append]
  congr 1
  by_cases heq : on = half ∧ i = id
  · obtain ⟨rfl, rfl⟩ := heq
    simp
  · rw [if_neg heq]
    apply count_eq_zero_of_not_mem
    intro hm
    simp only [mem_singleton, Act.Observed.injEq] at hm
    exact heq ⟨hm.1.symm, hm.2.1.symm⟩

@[simp] theorem outstanding_append_one (log : List Act) (act : Act) :
    outstanding (log ++ [act]) =
      match act with
      | .Handed entry => some entry
      | .Observed _ _ _ => none
      | _ => outstanding log := by
  unfold outstanding
  rw [foldl_append]
  rfl

theorem handed_of_outstanding {entry : StreamEntry} (h : outstanding log = some entry) :
    ∃ before after, log = before ++ .Handed entry :: after ∧
      ∀ act ∈ after, act.is_handed = false ∧ act.is_observed = false := by
  induction log using List.reverseRecOn with
  | nil => cases h
  | append_singleton log act ih =>
    rw [outstanding_append_one] at h
    split at h
    · cases h
      exact ⟨log, [], rfl, by simp⟩
    · cases h
    · rename_i hh ho
      obtain ⟨before, after, rfl, hq⟩ := ih h
      refine ⟨before, after ++ [act], by simp, ?_⟩
      intro a ha
      rcases mem_append.mp ha with ha | ha
      · exact hq a ha
      · obtain rfl := mem_singleton.mp ha
        cases a with
        | Handed e => exact absurd rfl (hh e)
        | Observed half id o => exact absurd rfl (ho half id o)
        | Cancelled | Xack half ids | Xreadgroup => exact ⟨rfl, rfl⟩

/-- Deliveries go one at a time, so at most one handed entry is not seen yet. -/
theorem handed_le_observed (h : History.Each Justified log) :
    log.countP Act.is_handed = log.countP Act.is_observed + (outstanding log).toList.length := by
  induction log using List.reverseRecOn with
  | nil => rfl
  | append_singleton log act ih =>
    obtain ⟨hl, ha⟩ := History.each_append_one.mp h
    have ih := ih hl
    rw [countP_append, countP_append, outstanding_append_one]
    cases act with
    | Handed e =>
      have hn : outstanding log = none := ha
      simp only [hn] at ih
      simp [countP_cons, Act.is_handed, Act.is_observed, ih]
    | Observed half id o =>
      obtain ⟨e, hs, -⟩ := ha
      simp only [hs] at ih
      simp [countP_cons, Act.is_handed, Act.is_observed, ih]
    | Cancelled
    | Xack half ids
    | Xreadgroup => simpa [countP_cons, Act.is_handed, Act.is_observed] using ih

/-! ## What the parties hold -/

def Awaited.carries : Awaited → Option (StreamEntry × Delivery)
  | .Outcome entry delivery => some (entry, delivery)
  | _ => none

def Pass.carries : Pass → Option (StreamEntry × Delivery)
  | .Deadline awaited => awaited.carries
  | .Connected => none

def Reconnect.carries : Reconnect → Option (StreamEntry × Delivery)
  | .Pass pass => pass.carries
  | .Ack _ => none

/-- The delivery whose future the session still holds, also while a recovery pass runs. -/
def CorePc.carries : CorePc → Option (StreamEntry × Delivery)
  | .Wait awaited _ => awaited.carries
  | .PassStart pass | .PassTop pass | .Recover pass _ _ => pass.carries
  | .ConnectTop reason | .Connect reason => reason.carries
  | _ => none

def Delivery.awaiting_acks : Delivery → List String
  | .Batch _ awaiting_acks => awaiting_acks
  | .Recovered _ => []

/-- The ids of completed deliveries before the decision to acknowledge them. -/
def CorePc.hoped (pc : CorePc) : Half → List String
  | .Read =>
    match pc with
    | .BatchNext _ awaiting_acks | .BatchDelivered awaiting_acks => awaiting_acks
    | .Hand _ delivery => delivery.awaiting_acks
    | pc => (pc.carries.map fun carried => carried.2.awaiting_acks).getD []
  | .Recovery =>
    match pc with
    | .RecoveredDone id _ => [id]
    | _ => []

/-- The ids the session has decided to acknowledge. -/
def CorePc.owed (pc : CorePc) : Half → List String
  | .Read =>
    match pc with
    | .SendAck ids => ids
    | _ => []
  | .Recovery =>
    match pc with
    | .RecoverAck id _ => [id]
    | _ => []

def CorePc.about_to_hand : CorePc → Bool
  | .Hand _ _ => true
  | _ => false

/-- How often a move passes the id on to be acknowledged. -/
def CoreLabel.acks (label : CoreLabel) (id : String) : Half → Nat
  | .Read =>
    match label with
    | .send (.Ack ids) => ids.count id
    | _ => 0
  | .Recovery =>
    match label with
    | .xack issued => [issued].count id
    | _ => 0

/-- How often a move sees a delivery of the id complete. -/
def CorePc.completes (pc : CorePc) (label : CoreLabel) (half : Half) (id : String) : Nat :=
  match label, pc.carries with
  | .outcome .Completed, some (entry, delivery) =>
    if delivery.half = half ∧ entry.id = id then 1 else 0
  | _, _ => 0

section

variable {pc pc' : CorePc} {label : CoreLabel}

@[simp] theorem carries_drained (c : Caller) : (SessionCore.drained c).carries = none := by
  cases c <;> rfl

@[simp] theorem hoped_drained (c : Caller) (half : Half) :
    (SessionCore.drained c).hoped half = [] := by
  cases c <;> cases half <;> rfl

@[simp] theorem owed_drained (c : Caller) (half : Half) :
    (SessionCore.drained c).owed half = [] := by
  cases c <;> cases half <;> rfl

theorem wait_cancelled_cases (a : Awaited) :
    (∃ c, SessionCore.wait_cancelled a = SessionCore.drained c) ∨
      SessionCore.wait_cancelled a = .Returned (.ok ()) := by
  unfold SessionCore.wait_cancelled
  split
  · exact .inl ⟨_, rfl⟩
  · exact .inr rfl

theorem pass_cancelled_cases (p : Pass) :
    (∃ c, SessionCore.pass_cancelled p = SessionCore.drained c) ∨
      SessionCore.pass_cancelled p = .Returned (.ok ()) := by
  cases p with
  | Deadline a => exact wait_cancelled_cases a
  | Connected => exact .inr rfl

theorem connect_cancelled_cases (r : Reconnect) :
    (∃ c, SessionCore.connect_cancelled r = SessionCore.drained c) ∨
      SessionCore.connect_cancelled r = .Returned (.ok ()) := by
  cases r with
  | Pass p => exact pass_cancelled_cases p
  | Ack c => exact .inl ⟨c, rfl⟩

theorem pass_completed_carries (p : Pass) : (SessionCore.pass_completed p).carries = p.carries := by
  unfold SessionCore.pass_completed
  split <;> rfl

theorem stops (h : CoreMove pc (.token true) pc') :
    (∃ c, pc' = SessionCore.drained c) ∨ pc' = .Returned (.ok ()) := by
  cases h
  case wait_stops a => exact wait_cancelled_cases a
  case pass_stops p => exact pass_cancelled_cases p
  case recover_stops p es => exact pass_cancelled_cases p
  case connect_stops r => exact connect_cancelled_cases r
  all_goals first | exact .inr rfl | exact .inl ⟨_, rfl⟩

@[simp] theorem hoped_pass_completed (p : Pass) (half : Half) :
    (SessionCore.pass_completed p).hoped half = (CorePc.PassTop p).hoped half := by
  cases half with
  | Read | Recovery =>
    unfold SessionCore.pass_completed
    split <;> rfl

@[simp] theorem owed_pass_completed (p : Pass) (half : Half) :
    (SessionCore.pass_completed p).owed half = [] := by
  unfold SessionCore.pass_completed
  cases half <;> split <;> rfl

@[simp] theorem hoped_connected (r : Reconnect) (half : Half) :
    (SessionCore.connected r).hoped half = (CorePc.Connect r).hoped half := by
  cases r <;> cases half <;> rfl

@[simp] theorem owed_connected (r : Reconnect) (half : Half) :
    (SessionCore.connected r).owed half = [] := by
  cases r <;> cases half <;> rfl

section

variable (h : CoreMove pc label pc')

include h

theorem move_books (half : Half) (id : String) :
    (pc'.owed half).count id + (pc'.hoped half).count id + label.acks id half ≤
      (pc.owed half).count id + (pc.hoped half).count id + pc.completes label half id := by
  by_cases hs : label = .token true
  · subst hs
    rcases stops h with ⟨c, rfl⟩ | rfl
    · cases half <;> simp [CoreLabel.acks]
    · cases half <;> simp [CoreLabel.acks, CorePc.owed, CorePc.hoped, CorePc.carries]
  · cases h
    case drain_ends c =>
      rw [owed_drained, hoped_drained]
      cases half <;> exact Nat.zero_le _
    case recovers p es counts cursor =>
      rw [owed_pass_completed, hoped_pass_completed]
      cases half <;> exact le_rfl
    case connects r =>
      rw [owed_connected, hoped_connected]
      cases half <;> exact le_rfl
    all_goals cases half
    all_goals first
      | exact absurd rfl hs
      | exact le_rfl
      | exact Nat.zero_le _
      | simp [CorePc.owed, CorePc.hoped, CorePc.carries, CoreLabel.acks, CorePc.completes,
          Awaited.carries, Delivery.half, Delivery.awaiting_acks, count_append,
          count_singleton]

theorem move_owes (hl : label ≠ .token false) (half : Half) (id : String) :
    (pc'.owed half).count id + label.acks id half ≤ (pc.owed half).count id := by
  by_cases hs : label = .token true
  · subst hs
    rcases stops h with ⟨c, rfl⟩ | rfl
    · cases half <;> simp [CoreLabel.acks]
    · cases half <;> simp [CoreLabel.acks, CorePc.owed]
  · cases h
    case drain_ends c =>
      rw [owed_drained]
      cases half <;> exact Nat.zero_le _
    case recovers p es counts cursor =>
      rw [owed_pass_completed]
      cases half <;> exact Nat.zero_le _
    case connects r =>
      rw [owed_connected]
      cases half <;> exact Nat.zero_le _
    all_goals cases half
    all_goals first
      | exact absurd rfl hs
      | exact absurd rfl hl
      | exact le_rfl
      | exact Nat.zero_le _
      | simp [CorePc.owed, CoreLabel.acks]

/-- The delivery held is the one handed, until its outcome or the end of the session. -/
theorem move_carries :
    pc'.carries = pc.carries ∨
      (∃ e d, pc = .Hand e d ∧ label = .hand e ∧ pc'.carries = some (e, d)) ∨
      (pc'.carries = none ∧
        (label = .token true ∨ (∃ o, label = .outcome o) ∨ pc'.gone = true)) := by
  by_cases hs : label = .token true
  · subst hs
    refine .inr (.inr ⟨?_, .inl rfl⟩)
    rcases stops h with ⟨c, rfl⟩ | rfl
    · exact carries_drained c
    · rfl
  · cases h
    case recovers p es counts cursor => exact .inl (pass_completed_carries p)
    case connects r =>
      cases r with
      | Pass p | Ack c => exact .inl rfl
    case drain_ends c => exact .inl (carries_drained c)
    all_goals first
      | exact absurd rfl hs
      | exact .inl rfl
      | exact .inr (.inl ⟨_, _, rfl, rfl, rfl⟩)
      | exact .inr (.inr ⟨rfl, .inr (.inl ⟨_, rfl⟩)⟩)
      | exact .inr (.inr ⟨rfl, .inr (.inr rfl)⟩)

/-- The session comes to a delivery only past a token that has not fired. -/
theorem move_about_to_hand (hh : pc'.about_to_hand = true) :
    label = .token false ∧ pc.carries = none ∧ pc.gone = false := by
  by_cases hs : label = .token true
  · subst hs
    rcases stops h with ⟨c, rfl⟩ | rfl
    · cases c <;> cases hh
    · cases hh
  · cases h
    case recovers p es counts cursor =>
      unfold SessionCore.pass_completed at hh
      split at hh <;> cases hh
    case connects r => cases r <;> cases hh
    case drain_ends c => cases c <;> cases hh
    all_goals first
      | exact absurd rfl hs
      | exact ⟨rfl, rfl, rfl⟩
      | cases hh

theorem move_returns_ok (ho : pc' = .Returned (.ok ())) : label = .token true := by
  by_cases hs : label = .token true
  · exact hs
  · cases h
    case recovers p es counts cursor =>
      unfold SessionCore.pass_completed at ho
      split at ho <;> cases ho
    case connects r => cases r <;> cases ho
    case drain_ends c => cases c <;> cases ho
    all_goals first
      | exact absurd rfl hs
      | cases ho

theorem gone_of_move : pc.gone = false := by
  cases h <;> rfl

end

theorem in_flight_of_outcome {o : DeliveryOutcome} (h : CoreMove pc (.outcome o) pc') :
    ∃ e d, pc.in_flight = some (e, d) ∧ pc.carries = some (e, d) ∧ pc'.carries = none := by
  cases h <;> exact ⟨_, _, rfl, rfl, rfl⟩

theorem carries_of_hand {e : StreamEntry} (h : CoreMove pc (.hand e) pc') :
    pc.carries = none ∧ pc.about_to_hand = true ∧ ∃ d, pc'.carries = some (e, d) := by
  cases h
  exact ⟨rfl, rfl, _, rfl⟩

end

/-! ## The books of a session -/

def ReadTaskCmd.ids : ReadTaskCmd → List String
  | .Ack ids => ids
  | .BatchDone => []

def TaskPc.ids : TaskPc → List String
  | .Acking ids => ids
  | _ => []

/-- How often the id is on its way to an XACK of the read task. -/
def State.under_way (s : State) (id : String) : Half → Nat
  | .Read => (s.commands.flatMap ReadTaskCmd.ids).count id + s.task.pc.ids.count id
  | .Recovery => 0

/-- The log, and what the parties hold, agree. Ids that the session may still acknowledge are
covered by completed deliveries; those it has decided on, by deliveries before the token fired. -/
structure Accounted (s : State) : Prop where
  token : s.cancelled = true ↔ Act.Cancelled ∈ s.log
  sound : History.Each Justified s.log
  carried : ∀ e d, s.core.pc.carries = some (e, d) → outstanding s.log = some e
  free : s.core.pc.gone = false → s.core.pc.carries = none →
    (s.cancelled = false ∨ s.core.pc.about_to_hand = true) → outstanding s.log = none
  owed : ∀ half id, acks half id s.log + s.under_way id half + (s.core.pc.owed half).count id ≤
    completions half id (before_cancel s.log)
  hoped : s.cancelled = false → ∀ half id,
    acks half id s.log + s.under_way id half + (s.core.pc.owed half).count id +
      (s.core.pc.hoped half).count id ≤ completions half id (before_cancel s.log)
  finished : s.core.pc = .Returned (.ok ()) → s.cancelled = true

theorem accounted_start : Accounted start where
  token := by simp [start]
  sound := History.each_nil
  carried := by simp [start, CorePc.carries]
  free := fun _ _ _ => rfl
  owed := by
    intro half id
    cases half <;> exact le_rfl
  hoped := by
    intro _ half id
    cases half <;> exact le_rfl
  finished := by simp [start]

theorem Accounted.cancel (h : Accounted s) (hf : s.cancelled = false) :
    Accounted ({ s with cancelled := true }.record .Cancelled) where
  token := by simp [State.record]
  sound := History.each_append_one.mpr ⟨h.sound, trivial⟩
  carried := by
    intro e d hc
    simpa [State.record] using h.carried e d hc
  free := by
    intro hg hc _
    simpa [State.record] using h.free hg hc (.inl hf)
  owed := by
    intro half id
    have hm := completions_mono half id s.log .Cancelled
    have ho := h.owed half id
    simp only [State.record, acks_append_one, Act.acks, State.under_way] at ho ⊢
    omega
  hoped := by
    intro hnot
    cases hnot
  finished := fun _ => rfl

/-- What an act other than a delivery, an outcome or the cancellation leaves as it was. -/
theorem quiet_append (log : List Act) {act : Act} (hh : act.is_handed = false)
    (ho : act.is_observed = false) (hc : act ≠ .Cancelled) :
    outstanding (log ++ [act]) = outstanding log ∧
      (Act.Cancelled ∈ log ++ [act] ↔ Act.Cancelled ∈ log) := by
  constructor
  · cases act <;> simp_all [Act.is_handed, Act.is_observed]
  · simp [Ne.symm hc]

theorem Accounted.same_log (h : Accounted s) (hc : t.core = s.core)
    (hca : t.cancelled = s.cancelled) (hl : t.log = s.log)
    (hb : ∀ half id, t.under_way id half ≤ s.under_way id half) : Accounted t where
  token := by rw [hca, hl]; exact h.token
  sound := by rw [hl]; exact h.sound
  carried := by rw [hc, hl]; exact h.carried
  free := by rw [hc, hl, hca]; exact h.free
  owed := by
    intro half id
    have ho := h.owed half id
    have hba := hb half id
    rw [hc, hl]
    omega
  hoped := by
    intro hnot half id
    have hh := h.hoped (hca ▸ hnot) half id
    have hba := hb half id
    rw [hc, hl]
    omega
  finished := by rw [hc, hca]; exact h.finished

theorem Accounted.act (h : Accounted s) {act : Act} (hc : t.core = s.core)
    (hca : t.cancelled = s.cancelled) (hl : t.log = s.log ++ [act])
    (hha : act.is_handed = false) (hob : act.is_observed = false)
    (hcan : act ≠ .Cancelled) (hj : Justified s.log act)
    (hb : ∀ half id, act.acks half id + t.under_way id half ≤ s.under_way id half) :
    Accounted t := by
  obtain ⟨ho, ht⟩ := quiet_append s.log hha hob hcan
  constructor
  case token => rw [hca, hl, ht]; exact h.token
  case sound => rw [hl]; exact History.each_append_one.mpr ⟨h.sound, hj⟩
  case carried => rw [hc, hl, ho]; exact h.carried
  case free => rw [hc, hl, hca, ho]; exact h.free
  case owed =>
    intro half id
    have how := h.owed half id
    have hba := hb half id
    have hm := completions_mono half id s.log act
    rw [hc, hl, acks_append_one]
    omega
  case hoped =>
    intro hnot half id
    have hh := h.hoped (hca ▸ hnot) half id
    have hba := hb half id
    have hm := completions_mono half id s.log act
    rw [hc, hl, acks_append_one]
    omega
  case finished => rw [hc, hca]; exact h.finished

/-! ## The read task keeps the books -/

theorem under_way_put_task (s : State) (task : ReadTask) (id : String) (half : Half) :
    (s.put_task task).under_way id half ≤ ({ s with task } : State).under_way id half := by
  unfold State.put_task
  split
  · cases half
    · simp [State.under_way, State.close]
    · exact le_rfl
  · exact le_rfl

theorem put_task_core (s : State) (task : ReadTask) : (s.put_task task).core = s.core := by
  unfold State.put_task
  split <;> rfl

theorem put_task_cancelled (s : State) (task : ReadTask) :
    (s.put_task task).cancelled = s.cancelled := by
  unfold State.put_task
  split <;> rfl

theorem put_task_log (s : State) (task : ReadTask) : (s.put_task task).log = s.log := by
  unfold State.put_task
  split <;> rfl

theorem Accounted.put_task (h : Accounted s) {task : ReadTask}
    (hi : ∀ id, task.pc.ids.count id ≤ s.task.pc.ids.count id) : Accounted (s.put_task task) := by
  refine h.same_log (put_task_core ..) (put_task_cancelled ..) (put_task_log ..) ?_
  intro half id
  apply (under_way_put_task s task id half).trans
  cases half with
  | Read => exact Nat.add_le_add_left (hi id) _
  | Recovery => exact le_rfl

/-- The ids of the command a move takes. -/
def TaskLabel.taken : TaskLabel → List String
  | .command cmd => cmd.ids
  | _ => []

/-- The ids a move acknowledges. -/
def TaskLabel.acknowledges : TaskLabel → List String
  | .xack ids => ids
  | _ => []

theorem task_move_ids {pc pc' : TaskPc} {label : TaskLabel} (h : TaskMove pc label pc')
    (id : String) :
    pc'.ids.count id + label.acknowledges.count id ≤ pc.ids.count id + label.taken.count id := by
  cases h <;> simp [TaskPc.ids, TaskLabel.acknowledges, TaskLabel.taken, ReadTaskCmd.ids]

theorem acking_of_xack {pc pc' : TaskPc} {ids : List String} (h : TaskMove pc (.xack ids) pc') :
    pc = .Acking ids := by
  cases h
  rfl

theorem task_effect_spec {label : TaskLabel} (h : s.task_effect label = some t) :
    t.core = s.core ∧ t.cancelled = s.cancelled ∧
      s.commands.flatMap ReadTaskCmd.ids = label.taken ++ t.commands.flatMap ReadTaskCmd.ids ∧
      t.log = s.log ++ (match label with
        | .poll first fired => if first = .Cancelled ∧ fired = true then [] else [.Xreadgroup]
        | .xack ids => [.Xack .Read ids]
        | _ => []) := by
  cases label <;> simp only [State.task_effect, State.look] at h
  case command command =>
    split at h
    · cases h
    · rename_i first commands hc
      split at h
      · cases h
        subst_vars
        simp [hc, TaskLabel.taken]
      · cases h
  case poll first fired =>
    split at h
    · split at h
      · cases h
        simp_all [TaskLabel.taken]
      · cases h
        simp_all [TaskLabel.taken, State.record]
    · cases h
  case xack ids =>
    cases h
    simp [TaskLabel.taken, State.record]
  all_goals
    first
      | split at h
      | skip
    all_goals first
      | (cases h
         simp [TaskLabel.taken])
      | cases h

theorem Accounted.task {label : TaskLabel} {task : ReadTask} (h : Accounted s)
    (hm : TaskMove s.task.pc label task.pc) (he : s.task_effect label = some t) :
    Accounted (t.put_task task) := by
  obtain ⟨hcor, hc, hco, hlo⟩ := task_effect_spec he
  have hw : ∀ half id, label.acknowledges.count id * (if half = .Read then 1 else 0) +
      (t.put_task task).under_way id half ≤ s.under_way id half := by
    intro half id
    have hp := under_way_put_task t task id half
    cases half with
    | Recovery => exact Nat.le_of_eq (by simp [State.under_way])
    | Read =>
      have hi := task_move_ids hm id
      simp only [State.under_way, hco, count_append] at hp ⊢
      simp only [if_true, Nat.mul_one]
      omega
  have hcor' : (t.put_task task).core = s.core := (put_task_core ..).trans hcor
  have hc' : (t.put_task task).cancelled = s.cancelled := (put_task_cancelled ..).trans hc
  have hlo' := (put_task_log t task).trans hlo
  have hl : ∀ half id, (t.put_task task).under_way id half ≤ s.under_way id half :=
    fun half id => (Nat.le_add_left _ _).trans (hw half id)
  cases label
  case poll first fired =>
    simp only at hlo'
    split at hlo'
    · exact h.same_log hcor' hc' (by simpa using hlo') hl
    · refine h.act hcor' hc' hlo' rfl rfl (by simp) trivial ?_
      intro half id
      simpa [Act.acks] using hl half id
  case xack ids =>
    have ha : s.task.pc = .Acking ids := acking_of_xack hm
    refine h.act hcor' hc' hlo' rfl rfl (by simp) ?_ ?_
    · intro id
      have ho := h.owed .Read id
      simp only [State.under_way, ha, TaskPc.ids] at ho
      omega
    · intro half id
      have := hw half id
      cases half
      · simpa [Act.acks, TaskLabel.acknowledges] using this
      · simpa [Act.acks] using this
  all_goals exact h.same_log hcor' hc' (by simpa using hlo') hl

/-! ## The session core keeps the books -/

/-- What a move of the session core shows in the log. -/
def CoreLabel.shown (label : CoreLabel) (pc : CorePc) : Option Act :=
  match label with
  | .hand entry => some (.Handed entry)
  | .outcome seen => pc.in_flight.map fun (entry, delivery) =>
      .Observed delivery.half entry.id seen
  | .xack id => some (.Xack .Recovery [id])
  | _ => none

theorem core_effect_spec {label : CoreLabel} (h : s.core_effect label = some t) :
    t.cancelled = s.cancelled ∧ t.log = s.log ++ (label.shown s.core.pc).toList ∧
      (∀ fired, label = .token fired → fired = s.cancelled) ∧
      (∀ half id, acks half id t.log + t.under_way id half =
        acks half id s.log + s.under_way id half + label.acks id half) := by
  cases label
  case' message received => cases received
  case' reply received => cases received
  all_goals simp only [State.core_effect, State.look] at h
  case token fired =>
    split at h
    · cases h
      refine ⟨rfl, by simp [CoreLabel.shown], by simp_all, ?_⟩
      intro half id
      cases half <;> rfl
    · cases h
  case hand entry =>
    cases h
    refine ⟨rfl, rfl, by simp, ?_⟩
    intro half id
    simp only [State.record, acks_append_one]
    cases half <;> rfl
  case outcome outcome =>
    obtain ⟨carried, hc, rfl⟩ := map_eq_some_iff.mp h
    refine ⟨rfl, by simp [CoreLabel.shown, hc, State.record], by simp, ?_⟩
    intro half id
    simp only [State.record, acks_append_one]
    cases half <;> rfl
  case xack id =>
    cases h
    refine ⟨rfl, rfl, by simp, ?_⟩
    intro half i
    simp only [State.record, acks_append_one]
    cases half
    · rfl
    · simp [Act.acks, State.under_way, CoreLabel.acks]
  case send command =>
    split at h
    · cases h
      refine ⟨rfl, by simp [CoreLabel.shown], by simp, ?_⟩
      intro half id
      cases half with
      | Read =>
        simp only [State.under_way, flatMap_append, count_append]
        cases command
        · simp [CoreLabel.acks, ReadTaskCmd.ids]
          omega
        · simp [CoreLabel.acks, ReadTaskCmd.ids]
      | Recovery => simp [State.under_way, CoreLabel.acks]
    · cases h
  -- the other moves neither show in the log nor put an id on its way
  all_goals
    repeat' split at h
    all_goals first
      | (cases h
         refine ⟨rfl, by simp [CoreLabel.shown], by simp, ?_⟩
         intro half id
         cases half <;> rfl)
      | cases h

theorem not_cancelled_mem_shown {label : CoreLabel} :
    Act.Cancelled ∈ log ++ (label.shown pc).toList ↔ Act.Cancelled ∈ log := by
  have hnot : Act.Cancelled ∉ (label.shown pc).toList := by
    intro hm
    rw [mem_toList] at hm
    cases label <;> simp only [CoreLabel.shown] at hm
    case outcome seen =>
      obtain ⟨carried, -, ha⟩ := map_eq_some_iff.mp hm
      cases ha
    all_goals cases hm
  simp [hnot]

/-- The outcome a move sees counts as long as the token has not fired. -/
theorem completions_shown {label : CoreLabel} (hm : CoreMove pc label pc') (log : List Act)
    (half : Half) (id : String) :
    completions half id (before_cancel log) ≤
        completions half id (before_cancel (log ++ (label.shown pc).toList)) ∧
      (Act.Cancelled ∉ log →
        completions half id (before_cancel log) + pc.completes label half id ≤
          completions half id (before_cancel (log ++ (label.shown pc).toList))) := by
  have hmo : completions half id (before_cancel log) ≤
      completions half id (before_cancel (log ++ (label.shown pc).toList)) := by
    cases label.shown pc with
    | none => simp
    | some act => exact completions_mono half id log act
  refine ⟨hmo, fun hf => ?_⟩
  by_cases hc : label = .outcome .Completed
  · subst hc
    obtain ⟨e, d, hfl, hca, -⟩ := in_flight_of_outcome hm
    simp only [CoreLabel.shown, hfl, map_some, toList_some]
    rw [completions_observed hf]
    simp [CorePc.completes, hca]
  · have hzero : pc.completes label half id = 0 := by
      unfold CorePc.completes
      split
      · exact absurd rfl hc
      · rfl
    omega

theorem Accounted.shown (h : Accounted s) {label : CoreLabel} {pc' : CorePc}
    (hm : CoreMove s.core.pc label pc') {act : Act} (ha : label.shown s.core.pc = some act) :
    Justified s.log act := by
  cases label <;> simp only [CoreLabel.shown] at ha
  case hand entry =>
    cases ha
    obtain ⟨hc, hh, -⟩ := carries_of_hand hm
    exact h.free (gone_of_move hm) hc (.inr hh)
  case outcome seen =>
    obtain ⟨e, d, hf, hc, -⟩ := in_flight_of_outcome hm
    simp only [hf, map_some, Option.some.injEq] at ha
    subst ha
    exact ⟨e, h.carried e d hc, rfl⟩
  case xack i =>
    cases ha
    intro id
    have ho := h.owed .Recovery id
    have how := move_owes hm (by simp) .Recovery id
    simp only [CoreLabel.acks, State.under_way] at ho how
    omega
  all_goals cases ha

theorem outstanding_shown {label : CoreLabel} (log : List Act) (hh : ∀ e, label ≠ .hand e)
    (ho : ∀ o, label ≠ .outcome o) :
    outstanding (log ++ (label.shown pc).toList) = outstanding log := by
  cases label
  case hand e => exact absurd rfl (hh e)
  case outcome o => exact absurd rfl (ho o)
  case xack id => simp [CoreLabel.shown]
  all_goals simp [CoreLabel.shown]

theorem Accounted.core_carries {label : CoreLabel} (h : Accounted s)
    (hm : CoreMove s.core.pc label pc') (hef : s.core_effect label = some t) :
    (∀ e d, pc'.carries = some (e, d) → outstanding t.log = some e) ∧
      (pc'.gone = false → pc'.carries = none →
        (t.cancelled = false ∨ pc'.about_to_hand = true) → outstanding t.log = none) := by
  obtain ⟨hc, hlog, hlo, -⟩ := core_effect_spec hef
  rw [hlog, hc]
  by_cases hh : ∃ e, label = .hand e
  · obtain ⟨e, rfl⟩ := hh
    obtain ⟨-, -, d, hca⟩ := carries_of_hand hm
    refine ⟨fun e' d' hca' => ?_, fun _ hn => ?_⟩
    · obtain ⟨rfl, rfl⟩ : e = e' ∧ d = d' := by simpa [hca] using hca'
      simp [CoreLabel.shown]
    · simp [hca] at hn
  by_cases hou : ∃ o, label = .outcome o
  · obtain ⟨o, rfl⟩ := hou
    obtain ⟨e, d, hf, -, hn⟩ := in_flight_of_outcome hm
    refine ⟨fun e' d' hca' => ?_, fun _ _ _ => ?_⟩
    · simp [hn] at hca'
    · simp [CoreLabel.shown, hf]
  rw [outstanding_shown s.log (fun e he => hh ⟨e, he⟩) fun o ho => hou ⟨o, ho⟩]
  have hu : pc'.about_to_hand = true → s.cancelled = false := fun hne =>
    (hlo _ (move_about_to_hand hm hne).1).symm
  rcases move_carries hm with hs | ⟨e, d, -, hl, -⟩ | ⟨hn, hw⟩
  · refine ⟨fun e d hca => h.carried e d (hs ▸ hca), ?_⟩
    intro _ hn hfr
    exact h.free (gone_of_move hm) (hs ▸ hn) (.inl (hfr.elim id hu))
  · exact absurd ⟨e, hl⟩ hh
  · refine ⟨fun e d hca => by simp [hn] at hca, ?_⟩
    intro hg _ hfr
    rcases hw with rfl | ⟨o, ho⟩ | hg'
    · have hfi : s.cancelled = true := (hlo true rfl).symm
      have := hfr.elim id hu
      simp [hfi] at this
    · exact absurd ⟨o, ho⟩ hou
    · simp [hg] at hg'

theorem Accounted.core {label : CoreLabel} {core : SessionCore} (h : Accounted s)
    (hmo : CoreMove s.core.pc label core.pc) (he : s.core_effect label = some t) :
    Accounted { t with core } := by
  obtain ⟨hc, hlog, hlo, hb⟩ := core_effect_spec he
  obtain ⟨hca, hfr⟩ := h.core_carries hmo he
  have hbo : s.cancelled = false → ∀ half id,
      acks half id t.log + t.under_way id half + (core.pc.owed half).count id +
        (core.pc.hoped half).count id ≤ completions half id (before_cancel t.log) := by
    intro hf half id
    have hnot : Act.Cancelled ∉ s.log := fun hme => by simp [h.token.mpr hme] at hf
    have hco := (completions_shown hmo s.log half id).2 hnot
    have hm := move_books hmo half id
    have hh := h.hoped hf half id
    have hba := hb half id
    rw [← hlog] at hco
    omega
  constructor
  case token => rw [hc, hlog, not_cancelled_mem_shown]; exact h.token
  case sound =>
    rw [hlog]
    cases hs : label.shown s.core.pc with
    | none => simpa using h.sound
    | some act => exact History.each_append_one.mpr ⟨h.sound, h.shown hmo hs⟩
  case carried => exact hca
  case free => exact hfr
  case owed =>
    intro half id
    by_cases hl : label = .token false
    · have hf : s.cancelled = false := (hlo false hl).symm
      exact (Nat.le_add_right _ _).trans (hbo hf half id)
    · have hm := move_owes hmo hl half id
      have ho := h.owed half id
      have hba := hb half id
      have hco := (completions_shown hmo s.log half id).1
      rw [← hlog] at hco
      change acks half id t.log + t.under_way id half + (core.pc.owed half).count id ≤
        completions half id (before_cancel t.log)
      omega
  case hoped =>
    intro hnot half id
    exact hbo (hc ▸ hnot) half id
  case finished =>
    intro hok
    rw [hc]
    exact (hlo true (move_returns_ok hmo hok)).symm

/-! ## Whole sessions -/

theorem Accounted.step {s' : State} {event : Event} (h : Accounted s)
    (hs : step params policy s event = some s') : Accounted s' := by
  rcases step_cases hs with ⟨-, hf, rfl⟩ | ⟨label, task, t, -, hn, he, rfl⟩ |
    ⟨label, core, t, -, hn, he, rfl⟩ | ⟨payload, -, -, rfl⟩ | ⟨-, -, rfl⟩ | ⟨-, hl, rfl⟩
  · exact h.cancel hf
  · exact h.task (ReadTask.next_move hn) he
  · exact h.core (SessionCore.next_move hn) he
  · exact h.put_task fun id => Nat.zero_le _
  · exact h.put_task fun id => Nat.zero_le _
  · constructor
    case token => exact h.token
    case sound => exact h.sound
    case carried =>
      intro e d hc
      cases hc
    case free =>
      intro hg
      cases hg
    case owed =>
      intro half id
      have ho := h.owed half id
      cases half
      all_goals exact (Nat.le_add_right _ _).trans ho
    case hoped =>
      intro hf half id
      have hh := h.hoped hf half id
      have hno : ((CorePc.Dropped).owed half).count id = 0 ∧
          ((CorePc.Dropped).hoped half).count id = 0 := by cases half <;> exact ⟨rfl, rfl⟩
      have hw : ({ s with core := s.core.goto .Dropped } : State).under_way id half =
          s.under_way id half := by cases half <;> rfl
      simp only [SessionCore.goto] at hw ⊢
      omega
    case finished =>
      intro hok
      cases hok

theorem accounted_of_reaches (h : Reaches params policy s) : Accounted s :=
  h.invariant accounted_start fun hs _ hst => hs.step hst

/-- A delivery of the entry with that id was handed to the pipeline and seen to complete, both
before the token fired. -/
def CompletedBeforeCancel (half : Half) (id : String) (log : List Act) : Prop :=
  ∃ before between after entry, entry.id = id ∧
    log = before ++ .Handed entry :: between ++ .Observed half id .Completed :: after ∧
    (∀ act ∈ between, act.is_handed = false ∧ act.is_observed = false) ∧
    Act.Cancelled ∉ before ++ .Handed entry :: between

theorem completed_of_completions {half : Half} {id : String} (hso : History.Each Justified log)
    (h : 0 < completions half id (before_cancel log)) : CompletedBeforeCancel half id log := by
  obtain ⟨earlier, later, hs⟩ := append_of_mem (count_pos_iff.mp h)
  have hl : log = earlier ++ .Observed half id .Completed ::
      (later ++ log.dropWhile (· ≠ .Cancelled)) := by
    rw [← takeWhile_append_dropWhile (p := (· ≠ .Cancelled)) (l := log)]
    change before_cancel log ++ _ = _
    rw [hs]
    simp
  obtain ⟨entry, ho, hi⟩ := hso _ _ _ hl
  obtain ⟨before, between, rfl, hq⟩ := handed_of_outstanding ho
  refine ⟨before, between, _, entry, hi, hl, hq, fun hm => ?_⟩
  have hin : Act.Cancelled ∈ before_cancel log := by
    rw [hs]
    exact mem_append_left _ hm
  have := mem_takeWhile_imp hin
  simp at this

/-- An XACK names an id only after a delivery of it was seen to complete, before the token fired;
no id is acknowledged more often than its deliveries complete, so a failed delivery brings no ack;
at most one delivery is outstanding; and a session returns `Ok` only after a cancellation. -/
theorem acknowledged_only_after_success (params : StreamConsumerParams)
    (policy : NetworkRetryPolicy) (s : State) (h : Reaches params policy s) :
    (∀ before half ids after, s.log = before ++ .Xack half ids :: after →
      ∀ id ∈ ids, CompletedBeforeCancel half id before) ∧
    (∀ half id, acks half id s.log ≤ completions half id (before_cancel s.log)) ∧
    s.log.countP Act.is_handed ≤ s.log.countP Act.is_observed + 1 ∧
    (s.core.pc = .Returned (.ok ()) → s.cancelled = true) := by
  have hbo := accounted_of_reaches h
  refine ⟨?_, ?_, ?_, hbo.finished⟩
  · intro before half ids after hl id hi
    have hj := hbo.sound before _ after hl id
    have hp := count_pos_iff.mpr hi
    refine completed_of_completions (fun b a l hb => ?_) (by omega)
    exact hbo.sound b a (l ++ .Xack half ids :: after) (by simp [hl, hb])
  · intro half id
    have ho := hbo.owed half id
    omega
  · have hon := handed_le_observed hbo.sound
    have hle : (outstanding s.log).toList.length ≤ 1 := by cases outstanding s.log <;> simp
    omega

def soup : StreamEntry := ⟨"1-1", [("dish", "soup")], 1⟩

def fish : StreamEntry := ⟨"2-2", [("dish", "fish")], 1⟩

/-- A batch of two entries. The first completes and is acknowledged, the second fails. -/
def soup_then_fish : List Event :=
  [.task (.token false), .task (.dial .Connected), .task (.send .Connected),
    .core .idle, .core (.token false), .core (.clock 0), .core (.message (some .Connected)),
    .core (.send .BatchDone), .task (.command .BatchDone), .task (.poll .Read false),
    .task (.read (.ok (some [soup, fish]))), .task (.send (.Batch [soup, fish])),
    .core .idle, .core (.token false), .core (.clock 1),
    .core (.message (some (.Batch [soup, fish]))),
    .core (.token false), .core (.hand soup), .core (.token false), .core (.clock 2),
    .core (.outcome .Completed),
    .core (.token false), .core (.hand fish), .core (.token false), .core (.clock 3),
    .core (.outcome .Failed),
    .core (.token false), .core (.token false), .core (.send (.Ack ["1-1"])),
    .task (.command (.Ack ["1-1"])), .task (.xack ["1-1"]), .task (.acked (.ok 1)),
    .task (.reply (.ok 1)), .core (.token false), .core (.clock 4),
    .core (.reply (some (.ok 1))), .cancel, .core (.token true)]

theorem only_the_soup_is_acknowledged :
    ∃ s before, Reaches ⟨false, 0⟩ ⟨true, 0, none⟩ s ∧
      s.log = before ++ [.Xack .Read ["1-1"], .Cancelled] ∧
      CompletedBeforeCancel .Read "1-1" before ∧ acks .Read "2-2" s.log ≤ 0 ∧
      s.cancelled = true := by
  have hru : ∃ s, Runs.run (step ⟨false, 0⟩ ⟨true, 0, none⟩) (fun _ _ => true) start
      soup_then_fish = some s ∧ s.core.pc = .Returned (.ok ()) ∧
      s.log = [.Xreadgroup, .Handed soup, .Observed .Read "1-1" .Completed, .Handed fish,
        .Observed .Read "2-2" .Failed, .Xack .Read ["1-1"], .Cancelled] := ⟨_, rfl, rfl, rfl⟩
  obtain ⟨s, hs, he, hl⟩ := hru
  have hr : Reaches ⟨false, 0⟩ ⟨true, 0, none⟩ s := Runs.reach_of_run (fun _ _ _ => trivial) hs
  obtain ⟨ha, hc, -, ho⟩ := acknowledged_only_after_success _ _ s hr
  refine ⟨s, [.Xreadgroup, .Handed soup, .Observed .Read "1-1" .Completed, .Handed fish,
    .Observed .Read "2-2" .Failed], hr, hl, ?_, ?_, ho he⟩
  · exact ha _ .Read ["1-1"] [.Cancelled] hl "1-1" (by simp)
  · have hzero : completions .Read "2-2" (before_cancel s.log) = 0 := by rw [hl]; decide
    exact hzero ▸ hc .Read "2-2"

end camel_redis.streams
