-- The failure of an immediate consumer. Its task never publishes an error of `start()`, and its
-- watcher looks at the error latch for the last time when the grace period resolves the wait.
import RustCamel.Lifecycle.ConsumerManagement

namespace camel_core.lifecycle.consumer_management

variable {msg : String}

open camel_api.error (CamelError)
open Prog List

/-! ## What is seen in a run -/

def acceptedBy : (c : Call) → Answer c → Option RuntimeCommand
  | .execute cmd, .ok _ => some cmd
  | _, _ => none

def startErrorOf : (c : Call) → Answer c → Option String
  | .start, .returned (.error e) => some e.to_string
  | _, _ => none

def accepted (h : List PartyStep) : List RuntimeCommand :=
  h.filterMap fun e => acceptedBy e.call e.answer

def startErrors (h : List PartyStep) : List String :=
  h.filterMap fun e => startErrorOf e.call e.answer

/-- What the error latch holds when a step looks at it. -/
def lookOf (e : PartyStep) : Option (Option String) :=
  match e.call with
  | .poll_err => some e.before.err_latch
  | _ => none

/-- The looks at the error latch, the newest first. -/
def looks (h : List PartyStep) : List (Option String) := h.filterMap lookOf

/-- The commands of one party, the newest first. -/
def commandsOf (h : List PartyStep) (i : Party) : List RuntimeCommand :=
  executed (h.filter fun e => e.task = i)

/-- The commands that surface what the latch holds: a `FailRoute` with its text, or nothing. -/
def surfacing (spawn : Spawn) (latch : Option String) : List RuntimeCommand :=
  (latch.map fun msg => runtime_failure_command spawn.route_id msg spawn.stamp).toList

/-! ## What a party knows -/

/-- A look is what the latch holds, and `lost` says that the runtime was gone or refused a
command, or that the start signal was dropped. -/
structure Sight where
  party : Party
  invoked : Bool := false
  errors : List String := []
  looks : List (Option String) := []
  lost : Bool := false
  executed : List RuntimeCommand := []
  accepted : List RuntimeCommand := []

section

variable (v : Sight)

def Sight.next : (c : Call) → Answer c → Sight
  | .start, .returned (.error e) => { v with errors := e.to_string :: v.errors }
  | .send_start_invoked, () => { v with invoked := true }
  | .await_start_invoked, fired => { v with lost := v.lost || !fired }
  | .poll_err, .sent msg => { v with looks := some msg :: v.looks }
  | .poll_err, _ => { v with looks := none :: v.looks }
  | .upgrade, alive => { v with lost := v.lost || !alive }
  | .execute cmd, .ok _ =>
    { v with executed := cmd :: v.executed, accepted := cmd :: v.accepted }
  | .execute cmd, .error _ => { v with executed := cmd :: v.executed, lost := true }
  | _, _ => v

/-- The calls that a party may make. The task latches only an error that `start()` returned. -/
def Sight.Ok : Call → Prop
  | .await_terminated => False
  | .await_start_invoked | .poll_err => v.party = .watcher
  | .returned_err error => v.party = .task ∧ error ∈ v.errors
  | _ => True

abbrev sightRule : Rule Call Answer Sight := ofProtocol Sight.Ok Sight.next

variable (c : Call) (r : Answer c)

theorem Sight.next_party : (v.next c r).party = v.party := by
  unfold Sight.next
  split <;> rfl

theorem Sight.next_invoked (h : v.invoked = true) : (v.next c r).invoked = true := by
  unfold Sight.next
  split <;> first | rfl | exact h

theorem Sight.next_looks (h : c ≠ .poll_err) : (v.next c r).looks = v.looks := by
  unfold Sight.next
  split <;> first | rfl | exact absurd rfl h

theorem Sight.next_errors : (v.next c r).errors = (startErrorOf c r).toList ++ v.errors := by
  unfold Sight.next startErrorOf
  split <;> simp_all

theorem Sight.next_executed : (v.next c r).executed = (executedBy c).toList ++ v.executed := by
  cases c with
  | start => rcases r with (e | _) | _ <;> rfl
  | poll_err | execute cmd => cases r <;> rfl
  | _ => rfl

theorem Sight.next_accepted : (v.next c r).accepted = (acceptedBy c r).toList ++ v.accepted := by
  unfold Sight.next acceptedBy
  split <;> simp_all

end

/-! ## The task alone -/

/-- The calls that no party has to answer for. -/
def Plain : Call → Prop
  | .await_terminated | .await_start_invoked | .poll_err | .returned_err _ => False
  | _ => True

variable {c : Call} {v : Sight}

theorem Plain.ok (h : Plain c) (v : Sight) : v.Ok c := by
  unfold Sight.Ok
  split <;> trivial

theorem makes_send_crash_notification (spawn : Spawn) (error : String) :
    Makes Plain (send_crash_notification spawn error).run := by
  unfold send_crash_notification
  cases spawn.crash_notifier with
  | false => trivial
  | true => exact ⟨trivial, fun _ => trivial⟩

theorem makes_publish_runtime_failure (route_id error : String) :
    Makes Plain (publish_runtime_failure route_id error).run := by
  unfold publish_runtime_failure
  refine ⟨trivial, fun _ => ⟨trivial, fun alive => ?_⟩⟩
  cases alive with
  | false => trivial
  | true => exact ⟨trivial, fun _ => ⟨trivial, fun _ => trivial⟩⟩

theorem makes_background_failed (spawn : Spawn) (error : String) :
    Makes Plain (background_failed spawn error (pure ())).run := by
  unfold background_failed
  refine ⟨trivial, fun cancelled => ?_⟩
  cases cancelled with
  | true => trivial
  | false =>
    refine Makes.run_bind (makes_send_crash_notification spawn error) fun _ => ?_
    exact Makes.run_bind (makes_publish_runtime_failure spawn.route_id error) fun _ => trivial

theorem makes_monitor_background (spawn : Spawn) :
    Makes Plain (monitor_background spawn (pure ())).run := by
  unfold monitor_background
  refine ⟨trivial, fun handle => ?_⟩
  cases handle with
  | false => exact ⟨trivial, fun _ => trivial⟩
  | true =>
    refine ⟨trivial, fun joined => ?_⟩
    cases joined with
    | finished result =>
      cases result with
      | ok u => trivial
      | error e => exact makes_background_failed spawn _
    | panicked join_err => exact makes_background_failed spawn _
    | cancelled => trivial

theorem makes_unwind (ended : Ended) : Makes Plain (unwind ended).run := by
  cases ended <;> trivial

theorem wp_of_plain {α : Type} {p : Prog Call Answer α} (hp : Makes Plain p)
    (hv : v.invoked = true) :
    wp sightRule p (fun _ v' => v'.invoked = true) v :=
  wp_of_makes (fun v _ _ hc => hc.ok v) (fun v c r hv _ => v.next_invoked c r hv) hp hv

theorem immediate_task_follows (spawn : Spawn) :
    wp sightRule (immediate_task spawn).run (fun _ v => v.invoked = true) { party := .task } := by
  unfold immediate_task
  rw [ExceptT.run_mk, wp_bind]
  have hd : ∀ (r : Except Unit Unit) (v : Sight), v.invoked = true →
      wp sightRule (do let _ ← ask .drop_senders; pure r) (fun _ v => v.invoked = true) v := by
    intro r v hv
    exact ⟨trivial, fun _ => hv⟩
  refine wp_mono (mono_ofProtocol _ _) hd ?_
  unfold immediate_body
  refine ⟨trivial, fun _ => ⟨trivial, fun ended => ?_⟩⟩
  cases ended with
  | panicked => exact rfl
  | returned result =>
    cases result with
    | error e =>
      -- the message is that of the error which `start()` returned
      refine ⟨⟨rfl, mem_cons_self⟩, fun _ => ?_⟩
      refine wp_of_plain ?_ rfl
      refine Makes.run_bind (makes_send_crash_notification spawn e.to_string) fun _ => ?_
      refine ⟨trivial, fun ended => ?_⟩
      exact Makes.run_bind (makes_unwind ended) fun _ => ⟨trivial, fun _ => trivial⟩
    | ok u =>
      refine ⟨trivial, fun _ => ?_⟩
      refine wp_of_plain ?_ rfl
      refine Makes.run_bind (makes_monitor_background spawn) fun _ => ?_
      refine ⟨trivial, fun ended => ?_⟩
      exact Makes.run_bind (makes_unwind ended) fun _ => trivial

/-! ## The watcher alone -/

/-- The watcher has looked at the latch once and surfaced what it found there, unless something
was lost. -/
def Surfaces (spawn : Spawn) (v : Sight) : Prop :=
  v.lost = true ∨ ∃ latch, v.looks = [latch] ∧ v.executed = surfacing spawn latch ∧
    v.accepted = v.executed

theorem run_failure_watcher_follows (spawn : Spawn) :
    wp sightRule (run_failure_watcher spawn).run (fun _ => Surfaces spawn)
      { party := .watcher } := by
  unfold run_failure_watcher
  refine ⟨rfl, fun fired => ?_⟩
  cases fired with
  | false => exact .inl rfl
  | true =>
    change wp sightRule (wait >>= _).run _ _
    rw [wp_run_bind]
    unfold wait
    refine ⟨rfl, fun found => ?_⟩
    cases found with
    | closed => exact .inr ⟨none, rfl, rfl, rfl⟩
    | pending =>
      refine ⟨trivial, fun found => ?_⟩
      cases found with
      | sent _ | closed => exact .inr ⟨none, rfl, rfl, rfl⟩
      | pending => exact ⟨trivial, fun _ => .inr ⟨none, rfl, rfl, rfl⟩⟩
    | sent msg =>
      refine ⟨trivial, fun _ => ⟨trivial, fun _ => ⟨trivial, fun _ => ⟨trivial, fun alive => ?_⟩⟩⟩⟩
      cases alive with
      | false => exact .inl rfl
      | true =>
        refine ⟨trivial, fun answer => ?_⟩
        cases answer with
        | ok result => exact .inr ⟨some msg, rfl, rfl, rfl⟩
        | error e =>
          refine ⟨trivial, fun answer => .inl ?_⟩
          cases answer <;> rfl

/-! ## The two together -/

def sightOf (h : List PartyStep) (i : Party) : Sight :=
  Interleaves.ghost Sight.next (fun i => { party := i }) h i

def Follows (spawn : Spawn) : Party → Except Unit Unit → Sight → Prop
  | .task, _, v => v.invoked = true
  | .watcher, _, v => Surfaces spawn v

theorem immediate_follows (spawn : Spawn) (i : Party) :
    wp sightRule (immediate spawn i) (Follows spawn i) { party := i } := by
  cases i with
  | task => exact immediate_task_follows spawn
  | watcher => exact run_failure_watcher_follows spawn

theorem sightOf_cons (e : PartyStep) (h : List PartyStep) (i : Party) :
    sightOf (e :: h) i =
      if e.task = i then (sightOf h i).next e.call e.answer else sightOf h i := rfl

section

variable (h : List PartyStep) (i : Party)

include h i

theorem sightOf_party : (sightOf h i).party = i := by
  induction h with
  | nil => rfl
  | cons e h ih =>
    rw [sightOf_cons]
    split
    · rw [Sight.next_party, ih]
    · exact ih

theorem errors_subset : (sightOf h i).errors ⊆ startErrors h :=
  Interleaves.ghost_subset (fun _ => rfl) Sight.next_errors h i

theorem sightOf_executed : (sightOf h i).executed = commandsOf h i := by
  induction h with
  | nil => rfl
  | cons e h ih =>
    unfold commandsOf executed at ih ⊢
    rw [sightOf_cons, filter_cons]
    by_cases hi : e.task = i
    · simp only [hi, if_true, decide_true, Sight.next_executed, ih, filterMap_cons]
      cases executedBy e.call <;> rfl
    · simp only [hi, if_false, decide_false, ih, Bool.false_eq_true]

theorem accepted_subset : (sightOf h i).accepted ⊆ accepted h :=
  Interleaves.ghost_subset (fun _ => rfl) Sight.next_accepted h i

end

/-- The runtime handle is alive, and the runtime accepts the commands. -/
structure Runtime.Accepts (runtime : Runtime) : Prop where
  alive : runtime.alive = true
  accepts : ∀ cmd r, runtime.answers cmd r → ∃ result, r = .ok result

section

variable {runtime : Runtime} {spawn : Spawn} {h : List PartyStep}
  {P : Party → Prog Call Answer (Except Unit Unit)} {s : Shared} {r : Answer c}

theorem follows_immediate (hr : Interleaves (sem runtime) (immediate spawn) {} h P s) (i : Party) :
    wp sightRule (P i) (Follows spawn i) (sightOf h i) :=
  Interleaves.follows (immediate_follows spawn) hr i

theorem not_lost {t : Shared} (ha : runtime.Accepts) (hs : sem runtime c s r t)
    (hv : v.lost = false) : (v.next c r).lost = false := by
  cases c with
  | upgrade =>
    obtain ⟨rfl, -⟩ := hs
    simp [Sight.next, hv, ha.alive]
  | await_start_invoked =>
    obtain ⟨-, rfl, -⟩ := hs
    simp [Sight.next, hv]
  | execute cmd =>
    obtain ⟨result, rfl⟩ := ha.accepts cmd r hs.1
    exact hv
  | start => rcases r with (e | _) | _ <;> exact hv
  | poll_err => cases r <;> exact hv
  | _ => exact hv

theorem never_lost (ha : runtime.Accepts)
    (hr : Interleaves (sem runtime) (immediate spawn) {} h P s) (i : Party) :
    (sightOf h i).lost = false := by
  induction hr with
  | start => rfl
  | @step h P s t j c k r _ _ hs ih =>
    rw [sightOf_cons]
    split
    · exact not_lost ha hs ih
    · exact ih

/-- What the latch and the start signal have to do with what the task knows. -/
structure Latched (task : Sight) (s : Shared) : Prop where
  invoked : task.invoked = true → s.start_invoked = true
  error : ∀ msg, s.err_latch = some msg → msg ∈ task.errors

theorem task_step_latched {t : Shared} (h : Latched v s) (ho : v.Ok c)
    (hs : sem runtime c s r t) : Latched (v.next c r) t := by
  cases c with
  | send_start_invoked =>
    obtain rfl := hs
    exact { h with invoked := fun _ => rfl }
  | returned_err error =>
    obtain rfl := hs
    refine { h with error := ?_ }
    intro msg hm
    rw [← Option.some.inj hm]
    exact ho.2
  | start =>
    obtain rfl := hs
    rcases r with (e | _) | _
    · exact { h with error := fun msg hm => .tail _ (h.error msg hm) }
    all_goals exact { h with }
  | poll_err | execute cmd =>
    obtain ⟨-, rfl⟩ := hs
    cases r <;> exact { h with }
  | await_terminated => exact ho.elim
  | await_start_invoked =>
    obtain ⟨-, -, rfl⟩ := hs
    exact { h with }
  | join_background | is_cancelled | upgrade | is_accounted | poll_ok =>
    obtain ⟨-, rfl⟩ := hs
    exact { h with }
  | _ =>
    obtain rfl := hs
    exact { h with }

theorem watcher_step_latched {w : Sight} {t : Shared} (h : Latched v s)
    (hp : w.party = .watcher) (ho : w.Ok c) (hs : sem runtime c s r t) : Latched v t := by
  cases c with
  | send_start_invoked =>
    obtain rfl := hs
    exact { h with invoked := fun _ => rfl }
  | returned_err error => simp [Sight.Ok, hp] at ho
  | await_terminated => exact ho.elim
  | await_start_invoked =>
    obtain ⟨-, -, rfl⟩ := hs
    exact h
  | join_background | is_cancelled | upgrade | is_accounted | poll_ok | poll_err | execute =>
    obtain ⟨-, rfl⟩ := hs
    exact h
  | _ =>
    obtain rfl := hs
    exact { h with }

section

variable (hrun : Interleaves (sem runtime) (immediate spawn) {} h P s)

include hrun

theorem latched : Latched (sightOf h .task) s := by
  induction hrun with
  | start => exact ⟨by simp [sightOf], by simp⟩
  | @step h P s t i c k r hrun hP hs ih =>
    have ho : (sightOf h i).Ok c := by
      have := follows_immediate hrun i
      rw [hP] at this
      exact this.1
    rw [sightOf_cons]
    cases i with
    | task => exact task_step_latched ih ho hs
    | watcher => exact watcher_step_latched ih (sightOf_party h .watcher) ho hs

/-- The watcher knows of every look, and what a look finds `start()` returned. -/
theorem looks_known :
    (sightOf h .watcher).looks = looks h ∧ ∀ msg, some msg ∈ looks h → msg ∈ startErrors h := by
  induction hrun with
  | start => exact ⟨rfl, by simp [looks]⟩
  | @step h P s t i c k r hrun hP hsem ih =>
    have ho : (sightOf h i).Ok c := by
      have := follows_immediate hrun i
      rw [hP] at this
      exact this.1
    by_cases hc : c = .poll_err
    · subst hc
      obtain ⟨rfl, rfl⟩ := hsem
      have hw : i = .watcher := (sightOf_party h i).symm.trans ho
      subst hw
      have hl : looks (⟨.watcher, .poll_err, poll t.err_latch t.senders_dropped, t, t⟩ :: h) =
          t.err_latch :: looks h := rfl
      rw [hl, sightOf_cons, if_pos rfl, ← ih.1]
      refine ⟨?_, ?_⟩
      · unfold poll
        cases t.err_latch with
        | some msg => rfl
        | none => cases t.senders_dropped <;> rfl
      · intro msg hm
        rcases mem_cons.mp hm with hm | hm
        · exact errors_subset h .task ((latched hrun).error msg hm.symm)
        · exact ih.2 msg (ih.1 ▸ hm)
    · have hl : looks (⟨i, c, r, s, t⟩ :: h) = looks h := by
        unfold looks lookOf
        cases c <;> first | rfl | exact absurd rfl hc
      rw [hl, sightOf_cons]
      refine ⟨?_, fun msg hm => ?_⟩
      · split
        · obtain rfl : i = .watcher := ‹_›
          exact (Sight.next_looks _ _ _ hc).trans ih.1
        · exact ih.1
      · have hold := ih.2 msg hm
        unfold startErrors at hold ⊢
        rw [filterMap_cons]
        split
        · exact hold
        · exact .tail _ hold

end

theorem Sight.Ok.not_await_terminated (h : v.Ok c) :
    c = .await_terminated → s.terminated = true := by
  rintro rfl
  exact h.elim

variable (hrun : Interleaves (sem runtime) (immediate spawn) {} h P s)

include hrun

theorem immediate_task_goes_on : ∃ a t, Runs (sem runtime) (P .task) s a t := by
  have ht : ∀ (v : Sight) c (s : Shared), v.party = .task → v.Ok c →
      ∃ r t, sem runtime c s r t ∧ (v.next c r).party = .task := by
    intro v c s hv ho
    have hi : c = .await_start_invoked → s.start_invoked = true := by
      rintro rfl
      simp [Sight.Ok, hv] at ho
    obtain ⟨r, t, hs⟩ := sem_total runtime c s ho.not_await_terminated hi
    exact ⟨r, t, hs, by rw [Sight.next_party, hv]⟩
  obtain ⟨a, t, -, hr, -, -⟩ :=
    exists_runs_of_protocol ht (follows_immediate hrun .task) (sightOf_party h .task)
  exact ⟨a, t, hr⟩

theorem immediate_watcher_goes_on (hs : s.start_invoked = true) :
    ∃ a t, Runs (sem runtime) (P .watcher) s a t := by
  have ht : ∀ (v : Sight) c (s : Shared), s.start_invoked = true → v.Ok c →
      ∃ r t, sem runtime c s r t ∧ t.start_invoked = true := by
    intro v c s hs ho
    obtain ⟨r, t, hse⟩ := sem_total runtime c s ho.not_await_terminated (fun _ => hs)
    exact ⟨r, t, hse, (signals_stay hse).2 hs⟩
  obtain ⟨a, t, -, hr, -, -⟩ := exists_runs_of_protocol ht (follows_immediate hrun .watcher) hs
  exact ⟨a, t, hr⟩

theorem exists_watched :
    ∃ h' P' s', Interleaves (sem runtime) (immediate spawn) {} (h' ++ h) P' s' ∧
      ∃ r, P' .watcher = .done r := by
  obtain ⟨a, t, ht⟩ := immediate_task_goes_on hrun
  obtain ⟨h₁, hr₁⟩ := hrun.run_task .task ht
  have hi : t.start_invoked = true := by
    have hf := follows_immediate hr₁ .task
    rw [Function.update_self] at hf
    exact (latched hr₁).invoked hf
  obtain ⟨b, u, hw⟩ := immediate_watcher_goes_on hr₁ hi
  obtain ⟨h₂, hr₂⟩ := hr₁.run_task .watcher hw
  refine ⟨h₂ ++ h₁, _, u, by rw [append_assoc]; exact hr₂, b, ?_⟩
  rw [Function.update_self]

end

theorem acceptingRuntime_accepts : acceptingRuntime.Accepts where
  alive := rfl
  accepts _ _ h := ⟨_, h⟩

/-- A consumer whose `start()` returns an error. -/
def refusedStart : Script where
  start := .returned (.error (.EndpointCreationFailed "address in use"))

/-- The error comes before the watcher has looked. -/
def promptError : Interleaves.RunState Party Call Answer (Except Unit Unit) Shared :=
  [.task, .task, .task, .watcher, .watcher, .watcher, .watcher, .watcher, .watcher, .watcher].foldl
    (Interleaves.advance (scripted refusedStart)) ([], immediate ⟨"r", false, 7⟩, {})

/-- The watcher has looked, and its grace is over, before the error comes. -/
def lateError : Interleaves.RunState Party Call Answer (Except Unit Unit) Shared :=
  [.task, .watcher, .watcher, .watcher, .watcher, .task, .task, .task, .task, .task].foldl
    (Interleaves.advance (scripted refusedStart)) ([], immediate ⟨"r", false, 7⟩, {})

end camel_core.lifecycle.consumer_management
