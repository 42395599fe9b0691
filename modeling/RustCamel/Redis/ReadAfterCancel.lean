-- Reads after the cancellation. The select of the read task over its read is unbiased: once the
-- token has fired, it still reads when it polls the read first. It stops exactly in the runs where
-- the cancellation is polled first whenever the token has fired.
import RustCamel.Redis.Handoff

open List Option

namespace camel_redis.streams

variable {params : StreamConsumerParams} {policy : NetworkRetryPolicy}

/-- A read comes only before the cancellation. -/
def ReadsBeforeCancel (before : List Act) : Act → Prop
  | .Xreadgroup => Act.Cancelled ∉ before
  | _ => True

/-- The select over the read is not entered with the token fired and the read polled first. -/
def cancellation_polled_first (s : State) : Event → Bool
  | .task (.poll .Read _) => !s.cancelled
  | _ => true

/-! ## One move -/

variable {s s' : State} {events : List Event}

theorem log_of_step {event : Event} (hst : step params policy s event = some s') :
    s'.log = s.log ∨ ∃ act, s'.log = s.log ++ [act] ∧
      (act = .Xreadgroup → ∃ first fired, event = .task (.poll first fired) ∧
        fired = s.cancelled ∧ ¬(first = .Cancelled ∧ fired = true)) := by
  rcases step_cases hst with ⟨-, -, rfl⟩ | ⟨label, task, t, rfl, hn, he, rfl⟩ |
    ⟨label, core, t, rfl, hn, he, rfl⟩ | ⟨payload, -, -, rfl⟩ | ⟨-, -, rfl⟩ | ⟨-, -, rfl⟩
  · exact .inr ⟨.Cancelled, rfl, by simp⟩
  · obtain ⟨-, -, -, hl⟩ := task_effect_spec he
    rw [put_task_log, hl]
    cases label
    case poll first fired =>
      simp only
      split
      · exact .inl (append_nil _)
      · rename_i hp
        have hf : fired = s.cancelled := by
          simp only [State.task_effect] at he
          split at he
          · assumption
          · cases he
        exact .inr ⟨.Xreadgroup, rfl, fun _ => ⟨first, fired, rfl, hf, hp⟩⟩
    case xack ids => exact .inr ⟨_, rfl, by simp⟩
    all_goals exact .inl (append_nil _)
  · obtain ⟨-, hl, -, -⟩ := core_effect_spec he
    change t.log = s.log ∨ ∃ act, t.log = s.log ++ [act] ∧ _
    rw [hl]
    cases hs : label.shown s.core.pc with
    | none => exact .inl (append_nil _)
    | some act =>
      refine .inr ⟨act, rfl, ?_⟩
      rintro rfl
      cases label <;> simp only [CoreLabel.shown] at hs
      case outcome seen =>
        obtain ⟨carried, -, ha⟩ := map_eq_some_iff.mp hs
        cases ha
      all_goals cases hs
  · exact .inl (put_task_log ..)
  · exact .inl (put_task_log ..)
  · exact .inl rfl

theorem reads_before_cancel_step {event : Event} (hb : Accounted s)
    (h : History.Each ReadsBeforeCancel s.log) (ht : cancellation_polled_first s event = true)
    (hs : step params policy s event = some s') : History.Each ReadsBeforeCancel s'.log := by
  rcases log_of_step hs with hl | ⟨act, hl, hr⟩
  · rw [hl]
    exact h
  · rw [hl, History.each_append_one]
    refine ⟨h, ?_⟩
    by_cases ha : act = .Xreadgroup
    · obtain ⟨first, fired, rfl, rfl, hp⟩ := hr ha
      subst ha
      intro hm
      have hf := hb.token.mpr hm
      cases first with
      | Cancelled => exact hp ⟨rfl, hf⟩
      | Read => simp [cancellation_polled_first, hf] at ht
    · cases act <;> trivial

theorem reads_after_cancel_step {event : Event} (hb : Accounted s)
    (ht : cancellation_polled_first s event = false)
    (hs : step params policy s event = some s') :
    Act.Cancelled ∈ s.log ∧ s'.log = s.log ++ [.Xreadgroup] := by
  unfold cancellation_polled_first at ht
  split at ht
  · have hf : s.cancelled = true := by simpa using ht
    refine ⟨hb.token.mp hf, ?_⟩
    rcases step_cases hs with ⟨hc, -⟩ | ⟨label, task, t, hl, -, he, rfl⟩ |
      ⟨label, core, t, hl, -⟩ | ⟨payload, hp, -⟩ | ⟨ha, -⟩ | ⟨hd, -⟩
    · cases hc
    · cases hl
      rw [put_task_log, (task_effect_spec he).2.2.2]
      simp
    · cases hl
    · cases hp
    · cases ha
    · cases hd
  · cases ht

/-! ## Whole runs -/

theorem log_grows (hr : Runs.run (step params policy) (fun _ _ => true) s events = some s') :
    s.log <+: s'.log := by
  induction events generalizing s with
  | nil =>
    cases hr
    exact prefix_refl _
  | cons event events ih =>
    simp only [Runs.run, if_true] at hr
    obtain ⟨u, hs, hr⟩ := bind_eq_some_iff.mp hr
    refine List.IsPrefix.trans ?_ (ih hr)
    rcases log_of_step hs with hl | ⟨act, hl, -⟩
    · exact hl ▸ prefix_refl _
    · rw [hl]
      exact prefix_append _ _

theorem reads_before_cancel_from (hb : Accounted s) (h : History.Each ReadsBeforeCancel s.log)
    (hru : Runs.run (step params policy) (fun _ _ => true) s events = some s') :
    History.Each ReadsBeforeCancel s'.log ↔
      Runs.run (step params policy) cancellation_polled_first s events = some s' := by
  induction events generalizing s with
  | nil =>
    cases hru
    exact ⟨fun _ => rfl, fun _ => h⟩
  | cons event events ih =>
    simp only [Runs.run, if_true] at hru ⊢
    obtain ⟨u, hs, hru⟩ := bind_eq_some_iff.mp hru
    cases ht : cancellation_polled_first s event with
    | true =>
      simp only [if_true, hs, bind_some]
      exact ih (hb.step hs) (reads_before_cancel_step hb h ht hs) hru
    | false =>
      obtain ⟨hm, hlo⟩ := reads_after_cancel_step hb ht hs
      obtain ⟨later, hl⟩ := log_grows hru
      refine ⟨fun hr => ?_, fun hn => by simp at hn⟩
      exact absurd hm (hr s.log .Xreadgroup later (by simp [← hl, hlo]))

/-- A run reads nothing after the cancellation if and only if, whenever its read task comes to the
select over the read with the token fired, that select polls the cancellation first. -/
theorem no_read_after_cancel_iff (params : StreamConsumerParams) (policy : NetworkRetryPolicy)
    (events : List Event) (s : State)
    (hrun : Runs.run (step params policy) (fun _ _ => true) start events = some s) :
    (∀ before after, s.log = before ++ .Xreadgroup :: after → Act.Cancelled ∉ before) ↔
      Runs.run (step params policy) cancellation_polled_first start events = some s := by
  rw [← reads_before_cancel_from accounted_start History.each_nil hrun]
  constructor
  · intro h before act after hl
    cases act <;> first | trivial | exact h before after hl
  · intro h before after hl
    exact h before .Xreadgroup after hl

/-- The token fires while the session greets the read task. Its batch-done command is taken all
the same, and the read is polled first. -/
def late_read (first : Branch) : List Event :=
  [.task (.token false), .task (.dial .Connected), .task (.send .Connected),
    .core .idle, .core (.token false), .core (.clock 0), .core (.message (some .Connected)),
    .cancel, .core (.send .BatchDone), .task (.command .BatchDone), .task (.poll first true)]

theorem late_read_stops :
    ∃ s, Runs.run (step ⟨false, 0⟩ ⟨true, 0, none⟩) (fun _ _ => true) start
      (late_read .Cancelled) = some s ∧
      ∀ before after, s.log = before ++ .Xreadgroup :: after → Act.Cancelled ∉ before := by
  refine ⟨_, rfl, ?_⟩
  apply (no_read_after_cancel_iff ⟨false, 0⟩ ⟨true, 0, none⟩ (late_read .Cancelled) _ rfl).mpr
  rfl

theorem late_read_goes_out :
    ¬∀ (params : StreamConsumerParams) (policy : NetworkRetryPolicy) (s : State),
      Reaches params policy s →
        ∀ before after, s.log = before ++ .Xreadgroup :: after → Act.Cancelled ∉ before := by
  intro h
  have hru : ∃ s, Runs.run (step ⟨false, 0⟩ ⟨true, 0, none⟩) (fun _ _ => true) start
      (late_read .Read) = some s ∧ s.log = [.Cancelled, .Xreadgroup] := ⟨_, rfl, rfl⟩
  obtain ⟨s, hs, hl⟩ := hru
  have hr : Reaches ⟨false, 0⟩ ⟨true, 0, none⟩ s := Runs.reach_of_run (fun _ _ _ => trivial) hs
  exact h _ _ s hr [.Cancelled] [] hl (by simp)

end camel_redis.streams
