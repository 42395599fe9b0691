-- The Lease a pod reads and writes in `platform_service.rs`, and the decision table of
-- `leadership_fsm.rs`. Durations and instants are in nanoseconds, and a factor in `f64` is the
-- rational number it stands for.
import Mathlib.Data.Rat.Floor
import Mathlib.Tactic.Linarith
import RustCamel.Cache.BlobNames

namespace camel_platform_kubernetes

open camel_core.cache.offload (parse_u64)

/-! ## The configuration -/

structure KubernetesPlatformConfig where
  lease_duration : Nat
  renew_deadline : Nat
  retry_period : Nat
  jitter_factor : ℚ

/-- The configurations `validate` refuses, each with the values of its message. -/
inductive ConfigError where
  | deadlineNotBelowDuration (renew_deadline lease_duration : Nat)
  | retryNotBelowDeadline (retry_period renew_deadline : Nat)
  | noRetryWindow (lease_duration renew_deadline retry_period : Nat)
  | jitterOutOfRange (jitter_factor : ℚ)
  | jitteredRetryTooLong (retry_period : Nat) (jitter_factor : ℚ) (renew_deadline : Nat)
  deriving DecidableEq

def as_secs (duration : Nat) : Nat := duration / 1000000000

def as_millis (duration : Nat) : Nat := duration / 1000000

def from_millis (millis : Nat) : Nat := millis * 1000000

def from_secs (secs : Nat) : Nat := secs * 1000000000

namespace KubernetesPlatformConfig

def validate (config : KubernetesPlatformConfig) : Except ConfigError Unit :=
  if config.lease_duration ≤ config.renew_deadline then
    .error (.deadlineNotBelowDuration config.renew_deadline config.lease_duration)
  else if config.renew_deadline ≤ config.retry_period then
    .error (.retryNotBelowDeadline config.retry_period config.renew_deadline)
  else if config.lease_duration - config.renew_deadline < config.retry_period then
    .error (.noRetryWindow config.lease_duration config.renew_deadline config.retry_period)
  else if ¬(0 ≤ config.jitter_factor ∧ config.jitter_factor ≤ 1) then
    .error (.jitterOutOfRange config.jitter_factor)
  else
    let jittered_retry_bound_ms : ℚ := as_millis config.retry_period * (1 + config.jitter_factor)
    if (as_millis config.renew_deadline : ℚ) ≤ jittered_retry_bound_ms then
      .error (.jitteredRetryTooLong config.retry_period config.jitter_factor config.renew_deadline)
    else .ok ()

def default : KubernetesPlatformConfig where
  lease_duration := from_secs 15
  renew_deadline := from_secs 10
  retry_period := from_secs 2
  jitter_factor := 1 / 5

end KubernetesPlatformConfig

/-- The random number is at least 0 and below 1. -/
def jittered_duration (base : Nat) (jitter_factor random : ℚ) : Nat :=
  let capped_ms : ℚ := as_millis base
  if jitter_factor ≤ 0 ∨ capped_ms ≤ 0 then base
  else
    let jitter := capped_ms * jitter_factor * (random * 2 - 1)
    from_millis ⌊max (capped_ms + jitter) 0⌋₊

/-! ## The Lease -/

structure LeaseSpec where
  holder_identity : Option String
  lease_duration_seconds : Option Int
  acquire_time : Option Int
  renew_time : Option Int
  deriving DecidableEq

/-- A Lease. Of its annotations only the one of the leader term is read. -/
structure Lease where
  leader_term : Option String
  spec : Option LeaseSpec
  deriving DecidableEq

/-- `MicroTime` as it is written: a timestamp in whole microseconds. -/
def micro_time (timestamp : Int) : Int := timestamp / 1000 * 1000

/-- The cast of a `u64` to an `i32`. -/
def as_i32 (n : Nat) : Int := Int.bmod n (2 ^ 32)

/-- `unwrap_or_default` on the spec. -/
def Lease.spec_or_default (lease : Lease) : LeaseSpec := lease.spec.getD ⟨none, none, none, none⟩

def holder_matches (spec : LeaseSpec) (holder : String) : Bool := spec.holder_identity = some holder

def extract_leader_term (lease : Lease) : Option Nat :=
  (lease.leader_term.bind fun v => parse_u64 v.toList).filter (fun term => 0 < term)

def lease_is_expired (spec : LeaseSpec) (now : Int) : Bool :=
  match spec.lease_duration_seconds with
  | none => true
  | some lease_duration_seconds =>
    match spec.renew_time.or spec.acquire_time with
    | none => true
    | some last_renewal => last_renewal + lease_duration_seconds * 1000000000 < now

/-- The seconds a pod writes into the Lease. -/
def written_seconds (config : KubernetesPlatformConfig) : Int :=
  as_i32 (as_secs config.lease_duration)

def build_first_time_lease (holder_identity : String) (config : KubernetesPlatformConfig)
    (now : Int) : Lease where
  leader_term := some "1"
  spec := some
    { holder_identity := some holder_identity
      lease_duration_seconds := some (written_seconds config)
      acquire_time := some (micro_time now)
      renew_time := some (micro_time now) }

/-- The Lease that `reconcile_lease` writes to renew one of its own. -/
def renewed_lease (lease : Lease) (holder_identity : String) (config : KubernetesPlatformConfig)
    (now : Int) : Lease where
  leader_term := if (extract_leader_term lease).isNone then some "1" else lease.leader_term
  spec := some
    { lease.spec_or_default with
      holder_identity := some holder_identity
      lease_duration_seconds := some (written_seconds config)
      renew_time := some (micro_time now) }

/-- The Lease that `reconcile_lease` writes to take over one that expired. The sum is one of
`u64`. -/
def taken_over_lease (lease : Lease) (holder_identity : String)
    (config : KubernetesPlatformConfig) (now : Int) : Lease :=
  let current_term := (extract_leader_term lease).getD 0
  let new_term := (current_term + 1) % 2 ^ 64
  { leader_term := some (toString new_term)
    spec := some
      { holder_identity := some holder_identity
        lease_duration_seconds := some (written_seconds config)
        acquire_time := some (micro_time now)
        renew_time := some (micro_time now) } }

/-- The Lease that `release_lease` writes: renewed last at the epoch. -/
def released_lease (lease : Lease) (holder_identity : String) : Lease :=
  { lease with
    spec := some
      { lease.spec_or_default with
        holder_identity := some holder_identity
        renew_time := some 0 } }

/-! ## The decision table -/

structure LoopState where
  currently_leader : Bool
  last_success : Option Nat

def remaining_budget (last_success : Option Nat) (config : KubernetesPlatformConfig) (now : Nat) :
    Option Nat :=
  last_success.map fun success => config.renew_deadline - (now - success)

def budget_exhausted (last_success : Option Nat) (config : KubernetesPlatformConfig) (now : Nat) :
    Bool :=
  remaining_budget last_success config now = some 0

inductive EpochUpdate where
  | Keep
  | Store (term : Nat)

def clamp_epoch (current : Nat) (observed : Option Nat) : EpochUpdate :=
  match observed with
  | some term => if current < term then .Store term else .Keep
  | none => .Keep

inductive StepDownReason where
  | BudgetExhausted
  | LostLease

inductive CycleAction where
  | BecomeLeader (term sleep : Nat)
  | ContinueLeading (term : Option Nat) (sleep : Nat)
  | StepDown (reason : StepDownReason)
  | SleepAcquiring (sleep : Nat)

inductive CycleOutcome where
  | Acquired (term : Nat)
  | Renewed (term : Option Nat)
  | Lost
  | Conflict
  | Failed

/-- What `decide` does after a success, under the term to begin with and the one to go on
with. -/
def decide_success (state : LoopState) (config : KubernetesPlatformConfig)
    (retry_sleep now first : Nat) (next : Option Nat) : LoopState × CycleAction :=
  if !state.currently_leader then (⟨true, some now⟩, .BecomeLeader first retry_sleep)
  else
    ({ state with last_success := some now },
      .ContinueLeading next (min retry_sleep config.renew_deadline))

/-- What `decide` does after a conflict or a failure. -/
def decide_failure (state : LoopState) (config : KubernetesPlatformConfig)
    (retry_sleep now : Nat) : LoopState × CycleAction :=
  if !state.currently_leader then (state, .SleepAcquiring retry_sleep)
  else if budget_exhausted state.last_success config now then
    (⟨false, none⟩, .StepDown .BudgetExhausted)
  else
    let remaining := (remaining_budget state.last_success config now).getD 0
    (state, .ContinueLeading none (min retry_sleep remaining))

def decide (state : LoopState) (outcome : CycleOutcome) (config : KubernetesPlatformConfig)
    (retry_sleep now : Nat) : LoopState × CycleAction :=
  match outcome with
  | .Acquired term => decide_success state config retry_sleep now term (some term)
  | .Renewed term => decide_success state config retry_sleep now (term.getD 1) term
  | .Lost =>
    if !state.currently_leader then (state, .SleepAcquiring retry_sleep)
    else (⟨false, none⟩, .StepDown .LostLease)
  | .Conflict => decide_failure state config retry_sleep now
  | .Failed => decide_failure state config retry_sleep now

/-! ## What a valid configuration gives -/

theorem jittered_duration_le {config : KubernetesPlatformConfig}
    (hvalid : config.validate = .ok ()) {random : ℚ} (hra : random ≤ 1) :
    jittered_duration config.retry_period config.jitter_factor random ≤ config.renew_deadline := by
  unfold KubernetesPlatformConfig.validate at hvalid
  split at hvalid
  · cases hvalid
  split at hvalid
  · cases hvalid
  rename_i hr
  split at hvalid
  · cases hvalid
  split at hvalid
  · cases hvalid
  simp only at hvalid
  split at hvalid
  · cases hvalid
  rename_i hbound
  unfold jittered_duration
  simp only
  split
  · omega
  · rename_i hpo
    rw [not_or, not_le, not_le] at hpo
    have hle : max ((as_millis config.retry_period : ℚ) +
        as_millis config.retry_period * config.jitter_factor * (random * 2 - 1)) 0 ≤
        as_millis config.renew_deadline := by
      apply max_le
      · have hp : (as_millis config.retry_period : ℚ) * config.jitter_factor *
            (random * 2 - 1) ≤ as_millis config.retry_period * config.jitter_factor * 1 := by
          apply mul_le_mul_of_nonneg_left (by linarith)
          exact mul_nonneg hpo.2.le hpo.1.le
        rw [not_le, mul_add, mul_one] at hbound
        linarith
      · exact Nat.cast_nonneg _
    have hf := Nat.floor_le_floor hle
    rw [Nat.floor_natCast] at hf
    calc from_millis _ ≤ from_millis (as_millis config.renew_deadline) := by
          unfold from_millis
          exact Nat.mul_le_mul_right _ hf
      _ ≤ config.renew_deadline := Nat.div_mul_le_self _ _

/-! ## What is written into the Lease -/

def Lease.holder (lease : Lease) : Option String := lease.spec_or_default.holder_identity

/-- The term of a Lease, zero for one without it. -/
def Lease.term (lease : Lease) : Nat := (extract_leader_term lease).getD 0

theorem holder_matches_iff (lease : Lease) (holder : String) :
    holder_matches lease.spec_or_default holder = true ↔ lease.holder = some holder := by
  simp [holder_matches, Lease.holder]

theorem extract_of_digits {n : Nat} (hpo : 0 < n) (hl : n < 2 ^ 64)
    (h : lease.leader_term = some (toString n)) : extract_leader_term lease = some n := by
  have hp : parse_u64 (toString n).toList = some n := by
    have hd : (toString n).toList = Nat.toDigits 10 n := by
      simp [ToString.toString, Nat.repr]
    rw [hd]
    exact camel_core.cache.offload.parse_u64_digits hl
  rw [extract_leader_term, h, Option.bind_some, hp]
  simp [Option.filter, hpo]

theorem extract_first_time (holder : String) (config : KubernetesPlatformConfig) (now : Int) :
    extract_leader_term (build_first_time_lease holder config now) = some 1 :=
  extract_of_digits Nat.one_pos (by decide) rfl

theorem extract_renewed (lease : Lease) (holder : String) (config : KubernetesPlatformConfig)
    (now : Int) :
    extract_leader_term (renewed_lease lease holder config now) =
      some ((extract_leader_term lease).getD 1) := by
  cases ht : extract_leader_term lease with
  | none =>
    apply extract_of_digits Nat.one_pos (by decide)
    simp only [renewed_lease, ht, Option.isNone_none, if_true]
    rfl
  | some term =>
    have hk : (renewed_lease lease holder config now).leader_term = lease.leader_term := by
      simp [renewed_lease, ht]
    rw [extract_leader_term, hk]
    exact ht

theorem extract_taken_over {lease : Lease} (hm : lease.term + 1 < 2 ^ 64) (holder : String)
    (config : KubernetesPlatformConfig) (now : Int) :
    extract_leader_term (taken_over_lease lease holder config now) = some (lease.term + 1) := by
  apply extract_of_digits (Nat.succ_pos _) hm
  change some (toString ((lease.term + 1) % 2 ^ 64)) = _
  rw [Nat.mod_eq_of_lt hm]

end camel_platform_kubernetes
