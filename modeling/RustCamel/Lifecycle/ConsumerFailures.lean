-- What becomes of the failure of a consumer. The end of an explicit consumer is published by
-- its task or by its watcher, and never by both.
import RustCamel.Lifecycle.ConsumerManagement

namespace camel_core.lifecycle.consumer_management

variable {Q : Except Unit Unit → View → Prop} {route_id : String}
  {p : Prog Call Answer (Except Unit Unit)} {watcher : View} {runtime : Runtime}

open camel_api.error (CamelError)
open Prog List

/-! ## What a party knows -/

/-- What the calls of one party have told it. It is sound as long as no answer said that the
consumer was cancelled or that the task never ran. -/
structure View where
  party : Party
  sound : Bool := true
  failed : Bool := false
  published : Nat := 0
  upgraded : Option Bool := none
  executed : List RuntimeCommand := []
  accounted : Bool := false
  dropped : Bool := false
  terminated : Bool := false
  found : Option Bool := none

def View.next (v : View) : (c : Call) → Answer c → View
  | .start, ended => { v with failed := v.failed || isFailure .start ended }
  | .stop, ended => { v with failed := v.failed || isFailure .stop ended }
  | .join_background, .cancelled => { v with sound := false }
  | .join_background, joined => { v with failed := v.failed || isFailure .join_background joined }
  | .is_cancelled, cancelled => { v with sound := v.sound && !cancelled }
  | .publish_runtime_failure _, () => { v with published := v.published + 1 }
  | .upgrade, alive => { v with upgraded := some alive }
  | .execute cmd, _ => { v with executed := cmd :: v.executed }
  | .mark_accounted, () => { v with accounted := true }
  | .is_accounted, accounted => { v with found := some accounted }
  | .drop_guard, () => { v with dropped := true }
  | .await_terminated, fired => { v with terminated := fired, sound := v.sound && fired }
  | _, _ => v

section

variable (v : View) (c : Call) (r : Answer c)

include v c r

theorem View.next_party : (v.next c r).party = v.party := by
  cases c with
  | join_background => cases r <;> rfl
  | _ => rfl

theorem View.next_published :
    (v.next c r).published = v.published + if isPublication c then 1 else 0 := by
  cases c with
  | join_background => cases r <;> rfl
  | _ => rfl

theorem View.next_failed : (v.next c r).failed = (v.failed || isFailure c r) := by
  cases c with
  | start | stop => rfl
  | join_background =>
    cases r with
    | cancelled => simp [View.next, isFailure]
    | finished result | panicked join_err => rfl
  | _ => simp [View.next, isFailure]

theorem View.next_executed : (v.next c r).executed = (executedBy c).toList ++ v.executed := by
  cases c with
  | join_background => cases r <;> rfl
  | _ => rfl

end

/-- The calls that a party may make. The task makes none of its own calls after the guard, and
the watcher looks at the outcome only after it. -/
def View.Ok (v : View) : Call → Prop
  | .cancel | .await_start_invoked => False
  | .start | .stop | .join_background | .mark_accounted | .drop_guard =>
    v.party = .task ∧ v.dropped = false
  | .await_terminated => v.party = .watcher
  | .is_accounted => v.party = .watcher ∧ v.terminated = true
  | _ => True

abbrev viewRule : Rule Call Answer View := ofProtocol View.Ok View.next

section

variable {β : Type} {v : View} {f : Unit → Task β}

theorem wp_call (c : Call) (Q : Except Unit (Answer c) → View → Prop) :
    wp viewRule (call c).run Q v ↔ v.Ok c ∧ ∀ r, Q (.ok r) (v.next c r) := Iff.rfl

theorem wp_send_crash_bind (spawn : Spawn) (error : String) {Q : Except Unit β → View → Prop}
    (h : wp viewRule (f ()).run Q v) :
    wp viewRule (send_crash_notification spawn error >>= f).run Q v := by
  unfold send_crash_notification
  cases spawn.crash_notifier with
  | false => exact h
  | true => exact ⟨trivial, fun _ => h⟩

/-- What a publication adds to what a party knows. -/
def Published (route_id error : String) (v v' : View) : Prop :=
  v' = { v with published := v.published + 1, upgraded := some false } ∨
  ∃ stamp, v' = { v with
    published := v.published + 1
    upgraded := some true
    executed := runtime_failure_command route_id error stamp :: v.executed }

theorem wp_publish (route_id error : String)
    (h : ∀ v', Published route_id error v v' → Q (.ok ()) v') :
    wp viewRule (publish_runtime_failure route_id error).run Q v := by
  unfold publish_runtime_failure
  refine ⟨trivial, fun _ => ⟨trivial, fun alive => ?_⟩⟩
  cases alive with
  | false => exact h _ (.inl rfl)
  | true => exact ⟨trivial, fun stamp => ⟨trivial, fun _ => h _ (.inr ⟨stamp, rfl⟩)⟩⟩

theorem wp_publish_bind (route_id error : String) {Q : Except Unit β → View → Prop}
    (h : ∀ v', Published route_id error v v' → wp viewRule (f ()).run Q v') :
    wp viewRule (publish_runtime_failure route_id error >>= f).run Q v := by
  rw [wp_run_bind]
  exact wp_publish route_id error h

end

/-- There is one command for each publication while the runtime is alive. -/
def Commands (route_id : String) (v : View) : Prop :=
  (v.published = 0 ∧ v.executed = []) ∨
  (v.published = 1 ∧ v.upgraded = some false ∧ v.executed = []) ∨
  (v.published = 1 ∧ v.upgraded = some true ∧
    ∃ error stamp, v.executed = [runtime_failure_command route_id error stamp])

variable {v : View}

theorem Published.commands {error : String} {v' : View} (h : Published route_id error v v')
    (hp : v.published = 0) (he : v.executed = []) : Commands route_id v' := by
  rcases h with rfl | ⟨stamp, rfl⟩
  · exact .inr (.inl ⟨by simp [hp], rfl, he⟩)
  · exact .inr (.inr ⟨by simp [hp], rfl, error, stamp, by simp [he]⟩)

/-! ## The task alone -/

/-- The task before its last `stop()`: what failed so far is published and accounted. -/
structure Running (route_id : String) (v : View) : Prop where
  party : v.party = .task
  dropped : v.dropped = false
  commands : v.sound = true → Commands route_id v
  published : v.sound = true → v.published = if v.failed then 1 else 0
  accounted : v.sound = true → v.accounted = v.failed

theorem running_fresh (route_id : String) : Running route_id { party := .task } where
  party := rfl
  dropped := rfl
  commands _ := .inl ⟨rfl, rfl⟩
  published _ := rfl
  accounted _ := rfl

theorem running_unsound (hp : v.party = .task) (hd : v.dropped = false)
    (h : v.sound = false) : Running route_id v where
  party := hp
  dropped := hd
  commands hs := absurd hs (by simp [h])
  published hs := absurd hs (by simp [h])
  accounted hs := absurd hs (by simp [h])

theorem wp_background_failed (spawn : Spawn) (error : String)
    (hv : v = { party := .task, failed := true })
    (h : ∀ v', Running spawn.route_id v' → Q (.ok ()) v') :
    wp viewRule (background_failed spawn error (call .mark_accounted)).run Q v := by
  unfold background_failed
  refine ⟨trivial, fun cancelled => ?_⟩
  cases cancelled with
  | true => exact h _ (running_unsound (by rw [hv]; rfl) (by rw [hv]; rfl) (by rw [hv]; rfl))
  | false =>
    apply wp_send_crash_bind
    apply wp_publish_bind
    intro v' hp
    subst hv
    have hc := hp.commands rfl rfl
    refine ⟨?_, fun _ => h _ ?_⟩
    · rcases hp with rfl | ⟨stamp, rfl⟩ <;> exact ⟨rfl, rfl⟩
    · rcases hp with rfl | ⟨stamp, rfl⟩
      all_goals exact ⟨rfl, rfl, fun _ => hc, fun _ => rfl, fun _ => rfl⟩

theorem wp_monitor_background (spawn : Spawn)
    (h : ∀ v', Running spawn.route_id v' → Q (.ok ()) v') :
    wp viewRule (monitor_background spawn (call .mark_accounted)).run Q { party := .task } := by
  unfold monitor_background
  refine ⟨trivial, fun handle => ?_⟩
  cases handle with
  | false => exact ⟨trivial, fun _ => h _ (running_fresh _)⟩
  | true =>
    refine ⟨⟨rfl, rfl⟩, fun joined => ?_⟩
    cases joined with
    | finished result =>
      cases result with
      | ok u => exact h _ (running_fresh _)
      | error e => exact wp_background_failed spawn _ rfl h
    | panicked join_err => exact wp_background_failed spawn _ rfl h
    | cancelled => exact h _ (running_unsound rfl rfl rfl)

/-- How the task ends: it accounted for what it published, or it failed and left that to the
watcher. -/
structure TaskEnds (route_id : String) (v : View) : Prop where
  dropped : v.dropped = true
  commands : v.sound = true → Commands route_id v
  outcome : v.sound = true →
    (v.accounted = true ∧ v.published = if v.failed then 1 else 0) ∨
    (v.accounted = false ∧ v.published = 0 ∧ v.failed = true)

theorem ends_after_panic (h : Running route_id v) :
    TaskEnds route_id ((v.next .stop .panicked).next .drop_guard ()) := by
  refine ⟨rfl, h.commands, fun hs => ?_⟩
  have hp := h.published hs
  have ha := h.accounted hs
  cases hf : v.failed with
  | false =>
    simp only [hf, Bool.false_eq_true, if_false] at hp ha
    exact .inr ⟨ha, hp, by simp [View.next, isFailure]⟩
  | true =>
    simp only [hf, if_true] at hp ha
    exact .inl ⟨ha, by simpa [View.next, isFailure] using hp⟩

theorem ends_accounted (h : Running route_id v) (result : Except CamelError Unit) :
    TaskEnds route_id
      (((v.next .stop (.returned result)).next .mark_accounted ()).next .drop_guard ()) := by
  refine ⟨rfl, h.commands, fun hs => .inl ⟨rfl, ?_⟩⟩
  simpa [View.next, isFailure] using h.published hs

/-- A failure of `start()` is accounted before the `stop()` after it. -/
theorem ends_after_start_error (h : Running route_id v) (hf : v.failed = true)
    (result : Except CamelError Unit) :
    TaskEnds route_id ((v.next .stop (.returned result)).next .drop_guard ()) := by
  refine ⟨rfl, h.commands, fun hs => .inl ⟨(h.accounted hs).trans hf, ?_⟩⟩
  simpa [View.next, isFailure] using h.published hs

theorem wp_explicit_task (spawn : Spawn)
    (h : wp viewRule (explicit_body spawn).run (fun _ v' =>
      v'.Ok .drop_guard ∧ TaskEnds route_id (v'.next .drop_guard ())) v) :
    wp viewRule (explicit_task spawn).run (fun _ => TaskEnds route_id) v := by
  unfold explicit_task
  rw [ExceptT.run_mk, wp_bind]
  refine wp_mono (mono_ofProtocol _ _) ?_ h
  intro r v' he
  exact ⟨he.1, fun _ => he.2⟩

theorem explicit_task_ends (spawn : Spawn) :
    wp viewRule (explicit_task spawn).run (fun _ => TaskEnds spawn.route_id)
      { party := .task } := by
  apply wp_explicit_task
  unfold explicit_body
  refine ⟨⟨rfl, rfl⟩, fun ended => ?_⟩
  cases ended with
  | panicked =>
    -- nothing is accounted, and the watcher will publish
    exact ⟨⟨rfl, rfl⟩, rfl, fun _ => .inl ⟨rfl, rfl⟩, fun _ => .inr ⟨rfl, rfl, rfl⟩⟩
  | returned result =>
    cases result with
    | error e =>
      refine ⟨trivial, fun _ => ?_⟩
      apply wp_send_crash_bind
      apply wp_publish_bind
      intro v' hp
      have hc := hp.commands rfl rfl
      have hr : v'.Ok .mark_accounted ∧ (v'.next .mark_accounted ()).failed = true ∧
          Running spawn.route_id (v'.next .mark_accounted ()) := by
        rcases hp with rfl | ⟨stamp, rfl⟩ <;>
          exact ⟨⟨rfl, rfl⟩, rfl, rfl, rfl, fun _ => hc, fun _ => rfl, fun _ => rfl⟩
      obtain ⟨ho, hf, hr⟩ := hr
      refine ⟨ho, fun _ => ⟨⟨hr.party, hr.dropped⟩, fun ended => ?_⟩⟩
      cases ended with
      | panicked => exact ⟨⟨hr.party, hr.dropped⟩, ends_after_panic hr⟩
      | returned result =>
        exact ⟨⟨hr.party, hr.dropped⟩, ends_after_start_error hr hf result⟩
    | ok u =>
      change wp viewRule (monitor_background spawn (call .mark_accounted) >>= _).run _ _
      rw [wp_run_bind]
      apply wp_monitor_background
      intro v hr
      refine ⟨⟨hr.party, hr.dropped⟩, fun ended => ?_⟩
      cases ended with
      | panicked => exact ⟨⟨hr.party, hr.dropped⟩, ends_after_panic hr⟩
      | returned result =>
        exact ⟨⟨hr.party, hr.dropped⟩, fun _ =>
          ⟨⟨hr.party, hr.dropped⟩, ends_accounted hr result⟩⟩

/-! ## The watcher alone -/

/-- How the watcher ends: it publishes exactly when it finds the end not accounted. -/
def WatcherEnds (route_id : String) (v : View) : Prop :=
  v.sound = true → Commands route_id v ∧ v.failed = false ∧
    ∃ accounted, v.found = some accounted ∧ v.published = if accounted then 0 else 1

theorem run_outer_watcher_ends (spawn : Spawn) :
    wp viewRule (run_outer_watcher spawn).run (fun _ => WatcherEnds spawn.route_id)
      { party := .watcher } := by
  unfold run_outer_watcher
  refine ⟨rfl, fun fired => ?_⟩
  cases fired with
  | false =>
    intro hs
    simp [View.next] at hs
  | true =>
    refine ⟨trivial, fun cancelled => ?_⟩
    cases cancelled with
    | true =>
      intro hs
      simp [View.next] at hs
    | false =>
      refine ⟨⟨rfl, rfl⟩, fun accounted => ?_⟩
      cases accounted with
      | true =>
        intro _
        exact ⟨.inl ⟨rfl, rfl⟩, rfl, true, rfl, rfl⟩
      | false =>
        apply wp_send_crash_bind
        apply wp_publish
        intro v' hp hs
        have hc := hp.commands rfl rfl
        rcases hp with rfl | ⟨stamp, rfl⟩
        all_goals exact ⟨hc, rfl, false, rfl, rfl⟩

/-! ## The two together -/

/-- What the shared state has to do with what the two parties know. -/
structure Linked (runtime : Runtime) (task watcher : View) (s : Shared) : Prop where
  task_party : task.party = .task
  watcher_party : watcher.party = .watcher
  task_sound : task.sound = true
  watcher_sound : watcher.sound = true
  cancelled : s.cancelled = false
  accounted : s.accounted = task.accounted
  terminated : s.terminated = task.dropped
  task_upgraded : ∀ b, task.upgraded = some b → b = runtime.alive
  watcher_upgraded : ∀ b, watcher.upgraded = some b → b = runtime.alive
  seen : watcher.terminated = true → task.dropped = true
  found : ∀ b, watcher.found = some b → task.dropped = true ∧ b = task.accounted

variable {c : Call} {r : Answer c}

theorem task_step_linked {task : View} {s t : Shared} (h : Linked runtime task watcher s)
    (ho : task.Ok c) (hs : sem runtime c s r t) : Linked runtime (task.next c r) watcher t := by
  have hc := h.cancelled
  have hp := h.task_party
  have hbe : c ≠ .cancel := by
    rintro rfl
    exact ho
  cases c with
  | mark_accounted =>
    obtain rfl := hs
    have hd := ho.2
    refine { h with accounted := rfl, found := ?_ }
    intro b hb
    have := (h.found b hb).1
    rw [hd] at this
    simp at this
  | drop_guard =>
    obtain rfl := hs
    exact { h with
      terminated := rfl
      seen := fun _ => rfl
      found := fun b hb => ⟨rfl, (h.found b hb).2⟩ }
  | join_background =>
    obtain ⟨hr, rfl⟩ := hs
    cases r with
    | cancelled => simp [hc] at hr
    | finished result | panicked join_err => exact { h with }
  | is_cancelled =>
    obtain ⟨rfl, rfl⟩ := hs
    exact { h with task_sound := by simp [View.next, hc, h.task_sound] }
  | upgrade =>
    obtain ⟨rfl, rfl⟩ := hs
    exact { h with task_upgraded := fun b hb => (Option.some.inj hb).symm }
  | execute cmd | poll_err | poll_ok =>
    obtain ⟨-, rfl⟩ := hs
    exact { h with }
  | await_terminated | is_accounted => simp [View.Ok, hp] at ho
  | cancel => exact absurd rfl hbe
  | await_start_invoked => exact ho.elim
  | _ =>
    obtain rfl := hs
    exact { h with }

theorem watcher_step_linked {task : View} {s t : Shared} (h : Linked runtime task watcher s)
    (ho : watcher.Ok c) (hs : sem runtime c s r t) :
    Linked runtime task (watcher.next c r) t := by
  have hc := h.cancelled
  have hp := h.watcher_party
  cases c with
  | mark_accounted | drop_guard | join_background | start | stop => simp [View.Ok, hp] at ho
  | cancel | await_start_invoked => exact ho.elim
  | is_cancelled =>
    obtain ⟨rfl, rfl⟩ := hs
    exact { h with watcher_sound := by simp [View.next, hc, h.watcher_sound] }
  | upgrade =>
    obtain ⟨rfl, rfl⟩ := hs
    exact { h with watcher_upgraded := fun b hb => (Option.some.inj hb).symm }
  | execute cmd | poll_err | poll_ok =>
    obtain ⟨-, rfl⟩ := hs
    exact { h with }
  | await_terminated =>
    obtain ⟨ht, rfl, rfl⟩ := hs
    exact { h with
      watcher_sound := by simp [View.next, h.watcher_sound]
      seen := fun _ => by rw [← h.terminated]; exact ht }
  | is_accounted =>
    obtain ⟨rfl, rfl⟩ := hs
    refine { h with found := ?_ }
    intro b hb
    have heq := Option.some.inj hb
    exact ⟨h.seen ho.2, by rw [← heq, h.accounted]⟩
  | _ =>
    obtain rfl := hs
    exact { h with }

def viewOf (h : List PartyStep) (i : Party) : View :=
  Interleaves.ghost View.next (fun i => { party := i }) h i

def Ends (route_id : String) : Party → Except Unit Unit → View → Prop
  | .task, _, v => TaskEnds route_id v
  | .watcher, _, v => WatcherEnds route_id v

theorem explicit_ends (spawn : Spawn) (i : Party) :
    wp viewRule (explicit spawn i) (Ends spawn.route_id i) { party := i } := by
  cases i with
  | task => exact explicit_task_ends spawn
  | watcher => exact run_outer_watcher_ends spawn

section

variable {runtime : Runtime} {spawn : Spawn} {h : List PartyStep}
  {P : Party → Prog Call Answer (Except Unit Unit)} {s : Shared}

section

variable (hrun : Interleaves (sem runtime) (explicit spawn) {} h P s)

include hrun

theorem follows_explicit (i : Party) : wp viewRule (P i) (Ends spawn.route_id i) (viewOf h i) :=
  Interleaves.follows (explicit_ends spawn) hrun i

theorem linked : Linked runtime (viewOf h .task) (viewOf h .watcher) s := by
  induction hrun with
  | start =>
    exact ⟨rfl, rfl, rfl, rfl, rfl, rfl, rfl, by simp [viewOf], by simp [viewOf], by simp [viewOf],
      by simp [viewOf]⟩
  | @step h P s t i c k r hrun hP hs ih =>
    have ho : (viewOf h i).Ok c := by
      have := follows_explicit hrun i
      rw [hP] at this
      exact this.1
    cases i with
    | task =>
      have := task_step_linked ih ho hs
      simpa [viewOf, Interleaves.ghost] using this
    | watcher =>
      have := watcher_step_linked ih ho hs
      simpa [viewOf, Interleaves.ghost] using this

end

theorem viewOf_cons (e : PartyStep) (h : List PartyStep) (i : Party) :
    viewOf (e :: h) i = if e.task = i then (viewOf h i).next e.call e.answer else viewOf h i := rfl

theorem published_eq (h : List PartyStep) :
    published h = (viewOf h .task).published + (viewOf h .watcher).published := by
  induction h with
  | nil => rfl
  | cons e h ih =>
    unfold published at ih ⊢
    rw [countP_cons, ih, viewOf_cons, viewOf_cons]
    cases e.task <;> simp [View.next_published] <;> omega

theorem failed_eq (h : List PartyStep) :
    failed h = ((viewOf h .task).failed || (viewOf h .watcher).failed) := by
  induction h with
  | nil => rfl
  | cons e h ih =>
    unfold failed at ih ⊢
    rw [any_cons, ih, viewOf_cons, viewOf_cons]
    cases e.task <;>
      simp [View.next_failed, Bool.or_assoc, Bool.or_comm, Bool.or_left_comm]

theorem executed_perm (h : List PartyStep) :
    (executed h).Perm ((viewOf h .task).executed ++ (viewOf h .watcher).executed) := by
  induction h with
  | nil => exact .nil
  | cons e h ih =>
    have hc : executed (e :: h) = (executedBy e.call).toList ++ executed h := by
      unfold executed
      rw [filterMap_cons]
      cases executedBy e.call <;> rfl
    rw [hc, viewOf_cons, viewOf_cons]
    cases e.task with
    | task =>
      simp only [if_true, reduceCtorEq, if_false, View.next_executed, append_assoc]
      exact ih.append_left _
    | watcher =>
      simp only [if_true, reduceCtorEq, if_false, View.next_executed]
      refine (ih.append_left _).trans ?_
      rw [← append_assoc, ← append_assoc]
      exact perm_append_comm.append_right _

/-! ## Exactly one publication -/

/-- One publication when something failed, and none otherwise. It is a `FailRoute` for the
route when the runtime is alive. -/
structure PublishedOnce (runtime : Runtime) (spawn : Spawn) (h : List PartyStep) : Prop where
  published : published h = if failed h then 1 else 0
  executed : if failed h && runtime.alive then
      ∃ error stamp, executed h = [runtime_failure_command spawn.route_id error stamp]
    else executed h = []

theorem ends_add_up {task : View} (ht : TaskEnds route_id task)
    (hw : WatcherEnds route_id watcher) (hl : Linked runtime task watcher s) :
    task.published + watcher.published = (if task.failed || watcher.failed then 1 else 0) ∧
    Commands route_id task ∧ Commands route_id watcher := by
  obtain ⟨hc, hf, b, hfo, hp⟩ := hw hl.watcher_sound
  obtain ⟨-, rfl⟩ := hl.found b hfo
  refine ⟨?_, ht.commands hl.task_sound, hc⟩
  rcases ht.outcome hl.task_sound with ⟨ha, htp⟩ | ⟨ha, htp, htf⟩
  · simp [hp, ha, htp, hf]
  · simp [hp, ha, htp, htf]

variable {v : View}

theorem executed_of_commands (h : Commands route_id v)
    (ha : ∀ b, v.upgraded = some b → b = runtime.alive) :
    (v.published = 0 ∧ v.executed = []) ∨
    (v.published = 1 ∧ if runtime.alive then
      ∃ error stamp, v.executed = [runtime_failure_command route_id error stamp]
      else v.executed = []) := by
  rcases h with hn | ⟨hp, hu, he⟩ | ⟨hp, hu, he⟩
  · exact .inl hn
  · exact .inr ⟨hp, by simp [← ha false hu, he]⟩
  · exact .inr ⟨hp, by simpa [← ha true hu] using he⟩

theorem published_once (hrun : Interleaves (sem runtime) (explicit spawn) {} h P s)
    (hd : Complete P) : PublishedOnce runtime spawn h := by
  have hl := linked hrun
  have he : ∀ i, ∃ r, Ends spawn.route_id i r (viewOf h i) := by
    intro i
    obtain ⟨r, hr⟩ := hd i
    have := follows_explicit hrun i
    rw [hr] at this
    exact ⟨r, this⟩
  obtain ⟨_, ht⟩ := he .task
  obtain ⟨_, hw⟩ := he .watcher
  obtain ⟨hsum, htc, hwc⟩ := ends_add_up ht hw hl
  rw [← failed_eq, ← published_eq] at hsum
  refine ⟨hsum, ?_⟩
  have hp := executed_perm h
  rw [published_eq] at hsum
  have hta := executed_of_commands htc hl.task_upgraded
  have hwa := executed_of_commands hwc hl.watcher_upgraded
  cases hf : failed h with
  | false =>
    rcases hta with ⟨-, hte⟩ | ⟨htp, -⟩
    · rcases hwa with ⟨-, hwe⟩ | ⟨hwp, -⟩
      · rw [hte, hwe] at hp
        simpa using hp.eq_nil
      · simp [hf, hwp] at hsum
    · simp [hf, htp] at hsum
  | true =>
    simp only [hf, if_true] at hsum
    -- one of the two published, and the other one executed nothing
    have ho : ∃ v : View, (executed h).Perm v.executed ∧ (if runtime.alive then
        ∃ error stamp, v.executed = [runtime_failure_command spawn.route_id error stamp]
        else v.executed = []) := by
      rcases hta with ⟨htp, hte⟩ | ⟨htp, hte⟩
      · rcases hwa with ⟨hwp, -⟩ | ⟨-, hwe⟩
        · omega
        · exact ⟨_, by rw [hte] at hp; exact hp, hwe⟩
      · rcases hwa with ⟨-, hwe⟩ | ⟨hwp, -⟩
        · exact ⟨_, by rw [hwe, append_nil] at hp; exact hp, hte⟩
        · omega
    obtain ⟨v, hv, hex⟩ := ho
    cases ha : runtime.alive with
    | false =>
      simp only [ha, Bool.false_eq_true, if_false] at hex
      rw [hex] at hv
      simpa using hv.eq_nil
    | true =>
      simp only [ha, if_true] at hex
      obtain ⟨error, stamp, hex⟩ := hex
      rw [hex] at hv
      simpa using ⟨error, stamp, hv.eq_singleton⟩

theorem View.Ok.not_await_start_invoked (h : v.Ok c) :
    c = .await_start_invoked → s.start_invoked = true := by
  rintro rfl
  exact h.elim

theorem task_goes_on (hp : wp viewRule p Q v) (hv : v.party = .task) (s : Shared) :
    ∃ a t, Runs (sem runtime) p s a t := by
  have ht : ∀ (v : View) c (s : Shared), v.party = .task → v.Ok c →
      ∃ r t, sem runtime c s r t ∧ (v.next c r).party = .task := by
    intro v c s hv ho
    have ha : c = .await_terminated → s.terminated = true := by
      rintro rfl
      simp [View.Ok, hv] at ho
    obtain ⟨r, t, hs⟩ := sem_total runtime c s ha ho.not_await_start_invoked
    exact ⟨r, t, hs, by rw [View.next_party, hv]⟩
  obtain ⟨a, t, -, hr, -, -⟩ := exists_runs_of_protocol ht hp hv
  exact ⟨a, t, hr⟩

theorem watcher_goes_on (hp : wp viewRule p Q v) (hs : s.terminated = true) :
    ∃ a t, Runs (sem runtime) p s a t := by
  have ht : ∀ (v : View) c (s : Shared), s.terminated = true → v.Ok c →
      ∃ r t, sem runtime c s r t ∧ t.terminated = true := by
    intro v c s hs ho
    obtain ⟨r, t, hse⟩ := sem_total runtime c s (fun _ => hs) ho.not_await_start_invoked
    exact ⟨r, t, hse, (signals_stay hse).1 hs⟩
  obtain ⟨a, t, -, hr, -, -⟩ := exists_runs_of_protocol ht hp hs
  exact ⟨a, t, hr⟩

/-- The task can always go on to its end, and after it the watcher. -/
theorem exists_completion (hrun : Interleaves (sem runtime) (explicit spawn) {} h P s) :
    ∃ h' P' s', Interleaves (sem runtime) (explicit spawn) {} (h' ++ h) P' s' ∧ Complete P' := by
  obtain ⟨a, t, hta⟩ := task_goes_on (follows_explicit hrun .task) (linked hrun).task_party s
  obtain ⟨h₁, hr₁⟩ := hrun.run_task .task hta
  -- the guard is dropped now
  have ht : t.terminated = true := by
    have he := follows_explicit hr₁ .task
    rw [Function.update_self] at he
    rw [(linked hr₁).terminated]
    exact TaskEnds.dropped he
  obtain ⟨b, u, hw⟩ := watcher_goes_on (follows_explicit hr₁ .watcher) ht
  obtain ⟨h₂, hr₂⟩ := hr₁.run_task .watcher hw
  refine ⟨h₂ ++ h₁, _, u, by rw [append_assoc]; exact hr₂, ?_⟩
  intro i
  cases i with
  | task => exact ⟨a, by rw [Function.update_of_ne (by decide), Function.update_self]⟩
  | watcher => exact ⟨b, by rw [Function.update_self]⟩

end

/-- The abnormal end of an explicit consumer is published exactly once. Every run of the task
and its watcher that is at its end has one publication if something failed, and none if not; no
run has more than one; and every run can go on to its end. -/
theorem the_end_of_an_explicit_consumer_is_published_once (runtime : Runtime) (spawn : Spawn)
    {h : List PartyStep} {P : Party → Prog Call Answer (Except Unit Unit)} {s : Shared}
    (hrun : Interleaves (sem runtime) (explicit spawn) {} h P s) :
    (Complete P → PublishedOnce runtime spawn h) ∧ published h ≤ 1 ∧
    ∃ h' P' s', Interleaves (sem runtime) (explicit spawn) {} (h' ++ h) P' s' ∧ Complete P' := by
  obtain ⟨h', P', s', hr', hd⟩ := exists_completion hrun
  refine ⟨published_once hrun, ?_, h', P', s', hr', hd⟩
  have ho := (published_once hr' hd).published
  have ha : published (h' ++ h) = published h' + published h := by
    unfold published
    exact countP_append
  have hle : published (h' ++ h) ≤ 1 := by
    rw [ho]
    split <;> omega
  omega

/-- The run in which `start()` panics after it has called `mark_ready`. -/
def panickedStart : Interleaves.RunState Party Call Answer (Except Unit Unit) Shared :=
  [.task, .task, .watcher, .watcher, .watcher, .watcher, .watcher, .watcher, .watcher].foldl
    (Interleaves.advance (scripted { start := .panicked })) ([], explicit ⟨"r", false, 0⟩, {})

theorem a_panic_in_start_is_published_once :
    Complete panickedStart.2.1 ∧ failed panickedStart.1 = true ∧ published panickedStart.1 = 1 ∧
      ∃ error stamp, executed panickedStart.1 = [runtime_failure_command "r" error stamp] := by
  have hrun : Interleaves (sem acceptingRuntime) (explicit ⟨"r", false, 0⟩) {} panickedStart.1
      panickedStart.2.1 panickedStart.2.2 := by
    refine Interleaves.schedule_of_allowed .start ?_
    exact ⟨rfl, rfl, ⟨rfl, rfl, rfl⟩, ⟨rfl, rfl⟩, ⟨rfl, rfl⟩, rfl, ⟨rfl, rfl⟩, rfl, ⟨rfl, rfl⟩, trivial⟩
  have hd : Complete panickedStart.2.1 := by
    intro i
    cases i with
    | task | watcher => exact ⟨_, rfl⟩
  have ho := (the_end_of_an_explicit_consumer_is_published_once _ _ hrun).1 hd
  exact ⟨hd, rfl, ho.published, ho.executed⟩

end camel_core.lifecycle.consumer_management
