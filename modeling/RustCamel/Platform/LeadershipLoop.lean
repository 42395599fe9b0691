-- The leadership loops of the pods in `platform_service.rs` against one Lease. The server takes
-- each request in one step, at any time or never, and a pod may give up waiting at any time. The
-- clocks of a pod are read where the code reads them.
import Mathlib.Logic.Function.Basic
import RustCamel.Lib.Runs
import RustCamel.Platform.Lease

namespace camel_platform_kubernetes

/-! ## The server -/

inductive Call where
  | Get
  | Create (lease : Lease)
  | Replace (lease : Lease) (resource_version : Nat)

inductive Reply where
  | Found (lease : Option (Lease × Nat))
  | Stored (lease : Lease) (resource_version : Nat)
  | Conflict
  | NotFound

/-- The Lease of the server. Each write gives it a new resource version. -/
structure Server where
  lease : Option Lease
  version : Nat

/-- What the server does with a call, and what it answers. A replacement carries the version
the pod has read. -/
def Server.handle (server : Server) : Call → Server × Reply
  | .Get => (server, .Found (server.lease.map fun lease => (lease, server.version)))
  | .Create lease =>
    match server.lease with
    | some _ => (server, .Conflict)
    | none => (⟨some lease, server.version + 1⟩, .Stored lease (server.version + 1))
  | .Replace lease resource_version =>
    match server.lease with
    | none => (server, .NotFound)
    | some _ =>
      if resource_version = server.version then
        (⟨some lease, server.version + 1⟩, .Stored lease (server.version + 1))
      else (server, .Conflict)

/-! ## One pod -/

/-- The attempt that runs under a budget, with the sleep drawn for after it and the time that
`reconcile_lease` took at its start. -/
structure Attempt where
  started : Nat
  budget : Nat
  retry_sleep : Nat
  now : Int

/-- The answer for which `reconcile_lease` waits. -/
inductive Phase where
  | Get
  | Create
  | Renew
  | TakeOver

/-- Where the loop of a pod stands. -/
inductive Stage where
  | Idle
  | Sleeping (wake_at : Nat)
  | Attempting (attempt : Attempt) (phase : Phase) (id : Nat)
  | Releasing (writing : Bool) (id : Nat)
  | Ended

structure Pod where
  is_leader : Bool
  leader_epoch : Nat
  state : LoopState
  cancelled : Bool
  stage : Stage

def apply_renewal_epoch (leader_epoch : Nat) (observed : Option Nat) : Nat :=
  match clamp_epoch leader_epoch observed with
  | .Store term => term
  | .Keep => leader_epoch

/-- How `reconcile_lease` goes on. -/
inductive Progress where
  | Ask (phase : Phase) (call : Call)
  | Verdict (outcome : CycleOutcome)

/-- `reconcile_lease` after the answer to `get_opt`. -/
def reconcile_found (config : KubernetesPlatformConfig) (holder_identity : String) (now : Int) :
    Option (Lease × Nat) → Progress
  | none => .Ask .Create (.Create (build_first_time_lease holder_identity config now))
  | some (lease, version) =>
    if holder_matches lease.spec_or_default holder_identity then
      .Ask .Renew (.Replace (renewed_lease lease holder_identity config now) version)
    else if lease_is_expired lease.spec_or_default now then
      .Ask .TakeOver (.Replace (taken_over_lease lease holder_identity config now) version)
    else .Verdict .Lost

/-- `reconcile_lease` after the answer to its write. -/
def reconcile_written (phase : Phase) : Reply → CycleOutcome
  | .Stored lease _ =>
    match phase with
    | .Renew => .Renewed (extract_leader_term lease)
    | _ => .Acquired ((extract_leader_term lease).getD 1)
  | .Conflict => .Conflict
  | .NotFound | .Found _ => .Failed

namespace Pod

/-- A pod before its loop begins. -/
def idle : Pod := ⟨false, 0, ⟨false, none⟩, false, .Idle⟩

variable (pod : Pod)

def apply_action (action : CycleAction) (retry_sleep : Nat) : Pod × Nat :=
  match action with
  | .BecomeLeader term sleep => ({ pod with is_leader := true, leader_epoch := term }, sleep)
  | .ContinueLeading term sleep =>
    ({ pod with leader_epoch := apply_renewal_epoch pod.leader_epoch term }, sleep)
  | .StepDown _ => ({ pod with is_leader := false }, retry_sleep)
  | .SleepAcquiring sleep => (pod, sleep)

variable (config : KubernetesPlatformConfig)

def finish (outcome : CycleOutcome) (retry_sleep now : Nat) : Pod :=
  let (state, action) := decide pod.state outcome config retry_sleep now
  let (pod, sleep_for) := { pod with state }.apply_action action retry_sleep
  { pod with stage := .Sleeping (now + sleep_for) }

/-- The head of the loop: the fence before the attempt, or the first request of it. -/
def begin_cycle (retry_sleep now : Nat) (timestamp : Int) (id : Nat) : Pod × Option Call :=
  if budget_exhausted pod.state.last_success config now then
    let (pod, sleep_for) := pod.apply_action (.StepDown .BudgetExhausted) retry_sleep
    ({ pod with state := ⟨false, none⟩, stage := .Sleeping (now + sleep_for) }, none)
  else
    let budget := (remaining_budget pod.state.last_success config now).getD config.renew_deadline
    ({ pod with stage := .Attempting ⟨now, budget, retry_sleep, timestamp⟩ .Get id }, some .Get)

def released : Pod := { pod with is_leader := false, stage := .Ended }

/-- The answer to the request that the pod waits for. -/
def receive (holder_identity : String) (reply : Reply) (now id : Nat) :
    Option (Pod × Option Call) :=
  match pod.stage, reply with
  | .Attempting attempt .Get _, .Found found =>
    match reconcile_found config holder_identity attempt.now found with
    | .Ask phase call => some ({ pod with stage := .Attempting attempt phase id }, some call)
    | .Verdict outcome => some (pod.finish config outcome attempt.retry_sleep now, none)
  | .Attempting _ .Get _, _ => none
  | .Attempting attempt phase _, reply =>
    some (pod.finish config (reconcile_written phase reply) attempt.retry_sleep now, none)
  | .Releasing false _, .Found (some (lease, version)) =>
    if holder_matches lease.spec_or_default holder_identity then
      some ({ pod with stage := .Releasing true id },
        some (.Replace (released_lease lease holder_identity) version))
    else some (pod.released, none)
  | .Releasing _ _, _ => some (pod.released, none)
  | _, _ => none

end Pod

/-- What happens to a pod, with its readings of the clocks and of the random numbers. -/
inductive Input where
  | wake (now : Nat) (timestamp : Int) (random : ℚ)
  | answer (now : Nat)
  | fail (now : Nat)
  | cancel
  | leave

/-- The request for which the loop waits. -/
def Stage.pending : Stage → Option Nat
  | .Attempting _ _ id => some id
  | .Releasing _ id => some id
  | _ => none

/-- One step of a pod. A failure is an error on the way or the end of the budget, whatever the
server does with the request. The new request, if there is one, gets the given id. -/
def Pod.advance (pod : Pod) (config : KubernetesPlatformConfig) (holder_identity : String)
    (reply : Nat → Option Reply) (id : Nat) : Input → Option (Pod × Option Call)
  | .wake now timestamp random =>
    match pod.stage with
    | .Idle | .Sleeping _ =>
      if pod.cancelled || !(0 ≤ random && random < 1) then none
      else
        let retry_sleep := jittered_duration config.retry_period config.jitter_factor random
        some (pod.begin_cycle config retry_sleep now timestamp id)
    | _ => none
  | .answer now =>
    match pod.stage.pending.bind reply with
    | some reply => pod.receive config holder_identity reply now id
    | none => none
  | .fail now =>
    match pod.stage with
    | .Attempting attempt _ _ => some (pod.finish config .Failed attempt.retry_sleep now, none)
    | .Releasing _ _ => some (pod.released, none)
    | _ => none
  | .cancel => some ({ pod with cancelled := true }, none)
  | .leave =>
    match pod.stage with
    | .Idle | .Sleeping _ =>
      if !pod.cancelled then none
      else if pod.state.currently_leader then
        some ({ pod with stage := .Releasing false id }, some .Get)
      else some ({ pod with stage := .Ended }, none)
    | _ => none

/-! ## All pods -/

structure Request where
  sender : String
  call : Call
  reply : Option Reply

/-- The pods under their holder identities. One that never moves is not there. -/
structure State where
  now : Nat
  server : Server
  requests : Nat → Option Request
  fresh : Nat
  pods : String → Pod

inductive Event where
  | tick (duration : Nat)
  | serve (id : Nat)
  | act (holder_identity : String) (input : Input)

namespace State

/-- The state before the first loop begins. -/
def start (server : Server) (now : Nat) : State := ⟨now, server, fun _ => none, 0, fun _ => .idle⟩

def reply (s : State) (id : Nat) : Option Reply := (s.requests id).bind (·.reply)

def answered (s : State) (id : Nat) (request : Request) : State :=
  let (server, reply) := s.server.handle request.call
  { s with server
           requests := Function.update s.requests id (some { request with reply := some reply }) }

def acted (s : State) (holder_identity : String) (pod : Pod) (call : Option Call) : State :=
  let pods := Function.update s.pods holder_identity pod
  match call with
  | none => { s with pods }
  | some call =>
    { s with pods
             requests := Function.update s.requests s.fresh (some ⟨holder_identity, call, none⟩)
             fresh := s.fresh + 1 }

def step (config : KubernetesPlatformConfig) (s : State) : Event → Option State
  | .tick duration => some { s with now := s.now + duration }
  | .serve id =>
    match s.requests id with
    | none => none
    | some request => if request.reply.isSome then none else some (s.answered id request)
  | .act holder_identity input =>
    match (s.pods holder_identity).advance config holder_identity s.reply s.fresh input with
    | none => none
    | some (pod, call) => some (s.acted holder_identity pod call)

end State

/-! ## What a pod can do -/

/-- The loop is about to begin a cycle. -/
def Stage.Rests : Stage → Prop
  | .Idle | .Sleeping _ => True
  | _ => False

/-- The steps of a pod, one by one. -/
inductive Moves (config : KubernetesPlatformConfig) (p : String) (pod : Pod)
    (reply : Nat → Option Reply) (id : Nat) : Input → Pod → Option Call → Prop
  | cancel : Moves config p pod reply id .cancel { pod with cancelled := true } none
  | fence {now : Nat} {timestamp : Int} {random : ℚ} {sleep : Nat} : pod.stage.Rests →
      budget_exhausted pod.state.last_success config now = true →
      Moves config p pod reply id (.wake now timestamp random)
        { pod with is_leader := false, state := ⟨false, none⟩, stage := .Sleeping (now + sleep) }
        none
  | attempt {now : Nat} {timestamp : Int} {random : ℚ} : pod.stage.Rests → random < 1 →
      budget_exhausted pod.state.last_success config now = false →
      Moves config p pod reply id (.wake now timestamp random)
        { pod with
          stage := .Attempting
            ⟨now, (remaining_budget pod.state.last_success config now).getD config.renew_deadline,
              jittered_duration config.retry_period config.jitter_factor random, timestamp⟩
            .Get id }
        (some .Get)
  | ask {now i : Nat} {a : Attempt} {found : Option (Lease × Nat)} {phase : Phase} {call : Call} :
      pod.stage = .Attempting a .Get i → reply i = some (.Found found) →
      reconcile_found config p a.now found = .Ask phase call →
      Moves config p pod reply id (.answer now) { pod with stage := .Attempting a phase id }
        (some call)
  | lost {now i : Nat} {a : Attempt} : pod.stage = .Attempting a .Get i →
      Moves config p pod reply id (.answer now) (pod.finish config .Lost a.retry_sleep now) none
  | written {now i : Nat} {a : Attempt} {phase : Phase} {r : Reply} : phase ≠ .Get →
      pod.stage = .Attempting a phase i → reply i = some r →
      Moves config p pod reply id (.answer now)
        (pod.finish config (reconcile_written phase r) a.retry_sleep now) none
  | fail {now i : Nat} {a : Attempt} {phase : Phase} : pod.stage = .Attempting a phase i →
      Moves config p pod reply id (.fail now) (pod.finish config .Failed a.retry_sleep now) none
  | release : pod.stage.Rests → pod.state.currently_leader = true →
      Moves config p pod reply id .leave { pod with stage := .Releasing false id } (some .Get)
  | ended : pod.stage.Rests → pod.state.currently_leader = false →
      Moves config p pod reply id .leave { pod with stage := .Ended } none
  | write_release {now i version : Nat} {lease : Lease} : pod.stage = .Releasing false i →
      reply i = some (.Found (some (lease, version))) → lease.holder = some p →
      Moves config p pod reply id (.answer now) { pod with stage := .Releasing true id }
        (some (.Replace (released_lease lease p) version))
  | released {input : Input} {i : Nat} {writing : Bool} : pod.stage = .Releasing writing i →
      Moves config p pod reply id input pod.released none

variable {config : KubernetesPlatformConfig} {pod : Pod}

theorem verdict_lost {p : String} {now : Int} {found : Option (Lease × Nat)}
    {outcome : CycleOutcome} (h : reconcile_found config p now found = .Verdict outcome) :
    outcome = .Lost := by
  unfold reconcile_found at h
  split at h
  · cases h
  · split at h
    · cases h
    · split at h
      · cases h
      · cases h
        rfl

section

variable {config : KubernetesPlatformConfig} {p : String} {pod pod' : Pod}
  {reply : Nat → Option Reply} {id : Nat} {call : Option Call}

theorem moves_of_receive {now i : Nat} {r : Reply} (hpe : pod.stage.pending = some i)
    (hr : reply i = some r) (h : pod.receive config p r now id = some (pod', call)) :
    Moves config p pod reply id (.answer now) pod' call := by
  unfold Pod.receive at h
  split at h
  · rename_i a i' found hs
    rw [hs] at hpe
    obtain rfl : i' = i := Option.some.inj hpe
    split at h
    · rename_i phase call' hf
      cases h
      exact .ask hs hr hf
    · rename_i outcome hf
      cases h
      rw [verdict_lost hf]
      exact .lost hs
  · cases h
  · rename_i a phase i' hp hs _
    rw [hs] at hpe
    obtain rfl : i' = i := Option.some.inj hpe
    cases h
    exact .written hp hs hr
  · rename_i i' lease version hs
    rw [hs] at hpe
    obtain rfl : i' = i := Option.some.inj hpe
    split at h
    · rename_i hh
      cases h
      exact .write_release hs hr ((holder_matches_iff _ _).mp hh)
    · cases h
      exact .released hs
  · rename_i hs _
    cases h
    exact .released hs
  · cases h

theorem moves_of_advance {input : Input}
    (h : pod.advance config p reply id input = some (pod', call)) :
    Moves config p pod reply id input pod' call := by
  cases input with
  | wake now timestamp random =>
    have hb : pod.stage.Rests → random < 1 → pod.begin_cycle config
        (jittered_duration config.retry_period config.jitter_factor random) now timestamp id =
          (pod', call) → Moves config p pod reply id (.wake now timestamp random) pod' call := by
      intro hre hra hb
      unfold Pod.begin_cycle at hb
      split at hb
      · rename_i he
        cases hb
        exact .fence hre he
      · rename_i he
        cases hb
        exact .attempt hre hra (by simpa using he)
    simp only [Pod.advance] at h
    split at h
    · rename_i hs
      split at h
      · cases h
      · rename_i ho
        simp only [Bool.or_eq_true, Bool.not_eq_true', Bool.and_eq_false_iff, not_or] at ho
        exact hb (by rw [hs]; trivial) (by simpa using ho.2.2) (Option.some.inj h)
    · rename_i hs
      split at h
      · cases h
      · rename_i ho
        simp only [Bool.or_eq_true, Bool.not_eq_true', Bool.and_eq_false_iff, not_or] at ho
        exact hb (by rw [hs]; trivial) (by simpa using ho.2.2) (Option.some.inj h)
    · cases h
  | answer now =>
    simp only [Pod.advance] at h
    split at h
    · rename_i r hr
      obtain ⟨i, hp, hrep⟩ := Option.bind_eq_some_iff.mp hr
      exact moves_of_receive hp hrep h
    · cases h
  | fail now =>
    simp only [Pod.advance] at h
    split at h
    · rename_i hs
      cases h
      exact .fail hs
    · rename_i hs
      cases h
      exact .released hs
    · cases h
  | cancel =>
    cases h
    exact .cancel
  | leave =>
    have hl : pod.stage.Rests → (if !pod.cancelled then none
        else if pod.state.currently_leader then
          some ({ pod with stage := .Releasing false id }, some Call.Get)
        else some ({ pod with stage := .Ended }, none)) = some (pod', call) →
        Moves config p pod reply id .leave pod' call := by
      intro hre h
      split at h
      · cases h
      · split at h
        · rename_i hle
          cases h
          exact .release hre hle
        · rename_i hle
          cases h
          exact .ended hre (by simpa using hle)
    simp only [Pod.advance] at h
    split at h
    · rename_i hs
      exact hl (by rw [hs]; trivial) h
    · rename_i hs
      exact hl (by rw [hs]; trivial) h
    · cases h

end

/-! ## The end of a cycle -/

/-- An outcome that renews the budget, with the epoch of a pod that begins to lead and the
term shown to one that goes on. -/
inductive Succeeds : CycleOutcome → Nat → Option Nat → Prop
  | acquired (term : Nat) : Succeeds (.Acquired term) term (some term)
  | renewed (term : Option Nat) : Succeeds (.Renewed term) (term.getD 1) term

inductive Finishes (config : KubernetesPlatformConfig) (pod : Pod) (retry_sleep now : Nat) :
    CycleOutcome → Pod → Prop
  | begins {outcome : CycleOutcome} {first : Nat} {next : Option Nat} :
      Succeeds outcome first next → pod.state.currently_leader = false →
      Finishes config pod retry_sleep now outcome
        { pod with is_leader := true
                   leader_epoch := first
                   state := ⟨true, some now⟩
                   stage := .Sleeping (now + retry_sleep) }
  | renews {outcome : CycleOutcome} {first : Nat} {next : Option Nat} :
      Succeeds outcome first next → pod.state.currently_leader = true →
      Finishes config pod retry_sleep now outcome
        { pod with leader_epoch := apply_renewal_epoch pod.leader_epoch next
                   state := ⟨true, some now⟩
                   stage := .Sleeping (now + min retry_sleep config.renew_deadline) }
  | waits {outcome : CycleOutcome} : pod.state.currently_leader = false →
      Finishes config pod retry_sleep now outcome
        { pod with stage := .Sleeping (now + retry_sleep) }
  | goes_on {outcome : CycleOutcome} : pod.state.currently_leader = true →
      budget_exhausted pod.state.last_success config now = false →
      Finishes config pod retry_sleep now outcome
        { pod with
          stage := .Sleeping
            (now + min retry_sleep ((remaining_budget pod.state.last_success config now).getD 0)) }
  | steps_down {outcome : CycleOutcome} :
      Finishes config pod retry_sleep now outcome
        { pod with is_leader := false
                   state := ⟨false, none⟩
                   stage := .Sleeping (now + retry_sleep) }

theorem finishes_success {retry_sleep now : Nat} {outcome : CycleOutcome} {first : Nat}
    {next : Option Nat} (h : Succeeds outcome first next) :
    Finishes config pod retry_sleep now outcome (pod.finish config outcome retry_sleep now) := by
  have hd : decide pod.state outcome config retry_sleep now =
      decide_success pod.state config retry_sleep now first next := by
    cases h <;> rfl
  unfold Pod.finish
  rw [hd, decide_success]
  cases hl : pod.state.currently_leader with
  | false => exact .begins h hl
  | true => exact .renews h hl

theorem finishes_failure {retry_sleep now : Nat} {outcome : CycleOutcome}
    (h : decide pod.state outcome config retry_sleep now =
      decide_failure pod.state config retry_sleep now) :
    Finishes config pod retry_sleep now outcome (pod.finish config outcome retry_sleep now) := by
  unfold Pod.finish
  rw [h, decide_failure]
  cases hl : pod.state.currently_leader with
  | false => exact .waits hl
  | true =>
    simp only [Bool.not_true, Bool.false_eq_true, if_false]
    cases he : budget_exhausted pod.state.last_success config now with
    | true => exact .steps_down
    | false => exact .goes_on hl he

theorem finishes_finish (config : KubernetesPlatformConfig) (pod : Pod) (outcome : CycleOutcome)
    (retry_sleep now : Nat) :
    Finishes config pod retry_sleep now outcome (pod.finish config outcome retry_sleep now) := by
  cases outcome with
  | Acquired term => exact finishes_success (.acquired term)
  | Renewed term => exact finishes_success (.renewed term)
  | Lost =>
    unfold Pod.finish decide
    cases hl : pod.state.currently_leader with
    | false => exact .waits hl
    | true => exact .steps_down
  | Conflict | Failed => exact finishes_failure rfl

end camel_platform_kubernetes
