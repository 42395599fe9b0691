-- The aggregator of `aggregator.rs`. Exchanges of one key wait in a bucket until it is
-- complete, its timer fires or the route stops. Each section under a lock is one step. An
-- exchange that went in is in a bucket, in one aggregate or in a bucket that was dropped.
import RustCamel.Lib.OrdMap
import RustCamel.Processor.Segments
import Mathlib.Algebra.Order.Group.Multiset
import Mathlib.Data.String.Basic
import Mathlib.Tactic.Abel

open List Option OrdMap

namespace camel_processor.aggregator

open camel_api (Exchange Value)
open camel_api.error (CamelError)
open camel_processor.split_segment (body_value)

/-! ## The settings -/

/-- The conditions. What a `PredicateExpr` answers comes from its language. -/
inductive CompletionCondition where
  | Size (n : Nat)
  | Predicate (pred : List Exchange → Bool)
  | PredicateExpr (expr language : String)
  | Timeout (dur : Nat)

inductive CompletionMode where
  | Single (cond : CompletionCondition)
  | Any (conditions : List CompletionCondition)

inductive CompletionReason where
  | Size
  | Predicate
  | Timeout
  | Stop

def CompletionReason.as_str : CompletionReason → String
  | .Size => "size"
  | .Predicate => "predicate"
  | .Timeout => "timeout"
  | .Stop => "stop"

inductive AggregationStrategy where
  | CollectAll
  | Custom (f : Exchange → Exchange → Exchange)

/-- The settings with their compiled expressions. `extract_correlation_key` and
`evaluate_completion_predicate` ask the languages, `to_string` is that of `serde_json` and
`origin` gives the origin of a stream. -/
structure AggregatorConfig where
  completion : CompletionMode
  extract_correlation_key : Exchange → Except CamelError Value
  to_string : Value → String
  evaluate_completion_predicate : Exchange → Except CamelError Bool
  strategy : AggregationStrategy
  origin : Nat → Option String
  max_buckets : Option Nat
  max_bucket_size : Option Nat
  bucket_ttl : Option Nat
  force_completion_on_stop : Bool
  discard_on_timeout : Bool
  max_timeout_tasks : Nat

def CAMEL_AGGREGATED_SIZE : String := "CamelAggregatedSize"
def CAMEL_AGGREGATED_KEY : String := "CamelAggregatedKey"
def CAMEL_AGGREGATED_COMPLETION_REASON : String := "CamelAggregatedCompletionReason"

def CompletionCondition.is_timeout : CompletionCondition → Bool
  | .Timeout _ => true
  | _ => false

def has_timeout_condition : CompletionMode → Bool
  | .Single cond => cond.is_timeout
  | .Any conditions => conditions.any CompletionCondition.is_timeout

def check_single (cond : CompletionCondition) (exchanges : List Exchange)
    (predicate_satisfied : Bool) : Bool × CompletionReason :=
  match cond with
  | .Size n => (decide (n ≤ exchanges.length), .Size)
  | .Predicate pred => (pred exchanges, .Predicate)
  | .PredicateExpr _ _ => (predicate_satisfied, .Predicate)
  | .Timeout _ => (false, .Timeout)

def check_any (exchanges : List Exchange) (predicate_satisfied : Bool) :
    List CompletionCondition → Bool × CompletionReason
  | [] => (false, .Size)
  | cond :: conditions =>
    if cond.is_timeout then check_any exchanges predicate_satisfied conditions
    else
      match check_single cond exchanges predicate_satisfied with
      | (true, reason) => (true, reason)
      | (false, _) => check_any exchanges predicate_satisfied conditions

def check_sync_completion (mode : CompletionMode) (exchanges : List Exchange)
    (predicate_satisfied : Bool) : Bool × CompletionReason :=
  match mode with
  | .Single cond => check_single cond exchanges predicate_satisfied
  | .Any conditions => check_any exchanges predicate_satisfied conditions

def aggregate (origin : Nat → Option String) (exchanges : List Exchange) :
    AggregationStrategy → Except CamelError Exchange
  | .CollectAll =>
    let bodies := exchanges.map fun e => body_value origin e.input.body
    .ok (.new ⟨fun _ => none, .Json (.Array bodies)⟩)
  | .Custom f =>
    match exchanges with
    | [] => .error (.ProcessorError "Aggregator: empty bucket")
    | first :: rest => .ok (rest.foldl f first)

/-! ## The state -/

/-- A bucket. The numbers of the exchanges are not in the code, they tell equal exchanges
apart. A claim stands as a number. -/
structure Bucket where
  exchanges : List (Nat × Exchange)
  claims : List (Option Nat)
  last_updated : Nat

def Bucket.new (now : Nat) : Bucket := ⟨[], [], now⟩

def Bucket.push (bucket : Bucket) (now id : Nat) (exchange : Exchange) (claim : Option Nat) :
    Bucket where
  exchanges := bucket.exchanges ++ [(id, exchange)]
  claims := bucket.claims ++ [claim]
  last_updated := now

def Bucket.is_expired (bucket : Bucket) (now ttl : Nat) : Bool :=
  decide (ttl ≤ now - bucket.last_updated)

/-- Where a submit stands after its exchange went in. The first six arm the timer. -/
inductive SubmitStage where
  | Counting
  | Cancelling
  | Aborting
  | Inserting
  | Spawning (token : Nat)
  | Handling (token : Nat)
  | Completing
  | Releasing
  | Done

structure Submit where
  key : String
  id : Nat
  stage : SubmitStage

inductive TimerStage where
  | Sleeping
  | Passed
  | Draining
  | Gone
  deriving DecidableEq

/-- A timeout task with the exchange whose submit armed it. -/
structure Timer where
  key : String
  token : Nat
  armed_by : Nat
  stage : TimerStage

/-- Why a bucket was dropped. -/
inductive Discard where
  | Ttl
  | Timeout
  | Stop
  | Unarmed
  | ChannelFull
  | AggregationFailed

structure Arrival where
  key : String
  id : Nat
  exchange : Exchange

/-- An aggregate that went out, as the answer of a submit or through the late channel. -/
structure Emission where
  key : String
  exchanges : List (Nat × Exchange)
  claims : List (Option Nat)
  exchange : Exchange

/-- The maps of the service, the submits and tasks that run, and the books. Tokens count
from 0, and a handle is the token of its task. -/
structure State where
  buckets : OrdMap String Bucket
  timeout_tasks : OrdMap String Nat
  timeout_handles : OrdMap String Nat
  tokens : Nat
  cancelled : List Nat
  aborted : List Nat
  submits : List Submit
  timers : List Timer
  emitted : List Emission
  discarded : List (Discard × String × Bucket)
  accepted : List Arrival

/-- `full` says that the late channel has no room. -/
inductive Event where
  | submit (now : Nat) (exchange : Exchange) (claim : Option Nat)
  | submitter (i : Nat)
  | timer (i : Nat) (full : Bool)
  | force_complete_all (full : String → Bool)
  | release_unarmed_buckets
  | sweep (now : Nat)

namespace State

def new : State where
  buckets := .empty
  timeout_tasks := .empty
  timeout_handles := .empty
  tokens := 0
  cancelled := []
  aborted := []
  submits := []
  timers := []
  emitted := []
  discarded := []
  accepted := []

variable (config : AggregatorConfig) (s : State)

def discard (reason : Discard) (key : String) (bucket : Bucket) : State :=
  { s with discarded := s.discarded ++ [(reason, key, bucket)] }

def emit (key : String) (bucket : Bucket) (exchange : Exchange) : State :=
  { s with emitted := s.emitted ++ [⟨key, bucket.exchanges, bucket.claims, exchange⟩] }

def send_late (reason : CompletionReason) (full : Bool) (key : String) (bucket : Bucket) : State :=
  match aggregate config.origin (bucket.exchanges.map (·.2)) config.strategy with
  | .ok result =>
    if full then s.discard .ChannelFull key bucket
    else s.emit key bucket
      (result.set_property CAMEL_AGGREGATED_COMPLETION_REASON (.String reason.as_str))
  | .error _ => s.discard .AggregationFailed key bucket

/-- The aggregate of a complete bucket is the answer of the submit. -/
def answer (reason : CompletionReason) (key_value : Value) (key : String) (bucket : Bucket) :
    State :=
  match aggregate config.origin (bucket.exchanges.map (·.2)) config.strategy with
  | .ok result => s.emit key bucket
      (((result.set_property CAMEL_AGGREGATED_SIZE
        (.Number (.PosInt (.ofNat bucket.exchanges.length)))).set_property
        CAMEL_AGGREGATED_KEY key_value).set_property
        CAMEL_AGGREGATED_COMPLETION_REASON (.String reason.as_str))
  | .error _ => s.discard .AggregationFailed key bucket

/-- Keeps the buckets that pass the test and drops the others. -/
def retain (reason : Discard) (keep : String × Bucket → Bool) : State :=
  { s with
    buckets := s.buckets.retain keep
    discarded := s.discarded ++ (s.buckets.rows.filter fun r => !keep r).map fun r => (reason, r) }

def evict (now : Nat) : State :=
  match config.bucket_ttl with
  | some ttl => s.retain .Ttl fun r => !r.2.is_expired now ttl
  | none => s

/-- The exchange goes into the bucket of its key, which leaves the map when it is complete. -/
def push (now : Nat) (key_value : Value) (predicate_satisfied : Bool) (exchange : Exchange)
    (claim : Option Nat) : State :=
  let key := config.to_string key_value
  let id := s.accepted.length
  let bucket := ((s.buckets.get key).getD (Bucket.new now)).push now id exchange claim
  let s : State := { s with accepted := s.accepted ++ [⟨key, id, exchange⟩] }
  match check_sync_completion config.completion (bucket.exchanges.map (·.2))
    predicate_satisfied with
  | (true, reason) =>
    let s : State := { s with
      buckets := s.buckets.remove key
      submits := s.submits ++ [⟨key, id, .Completing⟩] }
    s.answer config reason key_value key bucket
  | (false, _) =>
    { s with
      buckets := s.buckets.insert key bucket
      submits := s.submits ++
        [⟨key, id, if has_timeout_condition config.completion then .Counting else .Done⟩] }

/-- The checks of the caps, and the push behind them. -/
def enter (now : Nat) (key_value : Value) (predicate_satisfied : Bool) (exchange : Exchange)
    (claim : Option Nat) : Option CamelError × State :=
  let key := config.to_string key_value
  match config.max_buckets.filter fun max =>
    !s.buckets.contains_key key && decide (max ≤ s.buckets.rows.length) with
  | some max => (some (.ProcessorError s!"Aggregator reached maximum {max} buckets"), s)
  | none =>
    match config.max_bucket_size.filter fun max_size =>
      match s.buckets.get key with
      | some existing => decide (max_size ≤ existing.exchanges.length)
      | none => false with
    | some max_size =>
      (some (.ProcessorError s!"Aggregator bucket reached maximum {max_size} exchanges"), s)
    | none => (none, s.push config now key_value predicate_satisfied exchange claim)

/-- `submit_with_claim` up to the end of its section, with the error of a rejection. -/
def submit_with_claim (now : Nat) (exchange : Exchange) (claim : Option Nat) :
    Option CamelError × State :=
  match config.extract_correlation_key exchange with
  | .error err => (some err, s)
  | .ok key_value =>
    match config.evaluate_completion_predicate exchange with
    | .error err => (some err, s)
    | .ok predicate_satisfied =>
      (s.evict config now).enter config now key_value predicate_satisfied exchange claim

def moveSubmit (i : Nat) (u : Submit) (stage : SubmitStage) : State :=
  { s with submits := s.submits.set i { u with stage } }

def moveTimer (i : Nat) (t : Timer) (stage : TimerStage) : State :=
  { s with timers := s.timers.set i { t with stage } }

def cancel_timeout_task (key : String) : State :=
  match s.timeout_tasks.get key with
  | some token =>
    { s with timeout_tasks := s.timeout_tasks.remove key, cancelled := token :: s.cancelled }
  | none => s

/-- The next step of a submit. -/
def advance (i : Nat) : Option State :=
  match s.submits[i]? with
  | none => none
  | some u =>
    match u.stage with
    | .Counting =>
      if config.max_timeout_tasks ≤ s.timeout_handles.rows.length then
        some (s.moveSubmit i u .Done)
      else some (s.moveSubmit i u .Cancelling)
    | .Cancelling =>
      match s.timeout_tasks.get u.key with
      | some token => some { s.moveSubmit i u .Aborting with cancelled := token :: s.cancelled }
      | none => some (s.moveSubmit i u .Aborting)
    | .Aborting =>
      match s.timeout_handles.get u.key with
      | some token =>
        some { s.moveSubmit i u .Inserting with
          timeout_handles := s.timeout_handles.remove u.key
          aborted := token :: s.aborted }
      | none => some (s.moveSubmit i u .Inserting)
    | .Inserting =>
      some { s.moveSubmit i u (.Spawning s.tokens) with
        timeout_tasks := s.timeout_tasks.insert u.key s.tokens
        tokens := s.tokens + 1 }
    | .Spawning token =>
      some { s.moveSubmit i u (.Handling token) with
        timers := s.timers ++ [⟨u.key, token, u.id, .Sleeping⟩] }
    | .Handling token =>
      some { s.moveSubmit i u .Done with
        timeout_handles := s.timeout_handles.insert u.key token }
    | .Completing => some ((s.cancel_timeout_task u.key).moveSubmit i u .Releasing)
    | .Releasing =>
      some { s.moveSubmit i u .Done with timeout_handles := s.timeout_handles.remove u.key }
    | .Done => none

/-- The next step of a timeout task. Its sleep may end at any time, and an abort reaches it
only while it sleeps. -/
def fire (i : Nat) (full : Bool) : Option State :=
  match s.timers[i]? with
  | none => none
  | some t =>
    match t.stage with
    | .Sleeping =>
      if t.token ∈ s.cancelled ∨ t.token ∈ s.aborted then some (s.moveTimer i t .Gone)
      else some { s.moveTimer i t .Passed with timeout_tasks := s.timeout_tasks.remove t.key }
    | .Passed =>
      some { s.moveTimer i t .Draining with timeout_handles := s.timeout_handles.remove t.key }
    | .Draining =>
      match s.buckets.get t.key with
      | some bucket =>
        let s : State := { s.moveTimer i t .Gone with buckets := s.buckets.remove t.key }
        if config.discard_on_timeout then some (s.discard .Timeout t.key bucket)
        else some (s.send_late config .Timeout full t.key bucket)
      | none => some (s.moveTimer i t .Gone)
    | .Gone => none

def cancel_timeout_task_with_handle (key : String) : State :=
  { s.cancel_timeout_task key with timeout_handles := s.timeout_handles.remove key }

def force_one (full : String → Bool) (s : State) (r : String × Bucket) : State :=
  let s := s.cancel_timeout_task_with_handle r.1
  if config.force_completion_on_stop then s.send_late config .Stop (full r.1) r.1 r.2
  else s.discard .Stop r.1 r.2

/-- The lock of the buckets is held throughout. -/
def force_complete_all (full : String → Bool) : State :=
  s.buckets.rows.foldl (force_one config full) { s with buckets := .empty }

def release_unarmed_buckets : State := s.retain .Unarmed fun r => s.timeout_tasks.contains_key r.1

def step : Event → Option State
  | .submit now exchange claim => some (s.submit_with_claim config now exchange claim).2
  | .submitter i => s.advance config i
  | .timer i full => s.fire config i full
  | .force_complete_all full => some (s.force_complete_all config full)
  | .release_unarmed_buckets => some s.release_unarmed_buckets
  | .sweep now => some (s.evict config now)

def run (config : AggregatorConfig) (s : State) : List Event → Option State
  | [] => some s
  | e :: events => (s.step config e).bind fun s => run config s events

end State

/-! ## The books -/

section

open camel_processor.multicast_segment (textExchange)

variable {exchange : Exchange} {now : Nat} {claim : Option Nat} {key_value : Value}
  {satisfied : Bool} {config : AggregatorConfig} {s s' : State} {loose : List (String × Bucket)}
  {key : String} {bucket : Bucket}

abbrev Place := String × List (Nat × Exchange)

def arrivals (place : Place) : List Arrival := place.2.map fun ex => ⟨place.1, ex.1, ex.2⟩

def place (r : String × Bucket) : Place := (r.1, r.2.exchanges)

/-- The open buckets, the aggregates and the buckets that were dropped. -/
def State.places (s : State) : List Place :=
  s.buckets.rows.map place ++ s.emitted.map (fun e => (e.key, e.exchanges)) ++
    s.discarded.map fun d => place d.2

/-- The exchanges in some places, in any order. -/
def weigh (places : List Place) : Multiset Arrival := places.flatMap arrivals

@[simp] theorem weigh_nil : weigh [] = 0 := rfl

@[simp] theorem weigh_append (a b : List Place) : weigh (a ++ b) = weigh a + weigh b := by
  simp [weigh, ← Multiset.coe_add]

theorem weigh_cons (a : Place) (places : List Place) :
    weigh (a :: places) = weigh [a] + weigh places := weigh_append [a] places

theorem weigh_of_perm {a b : List Place} (h : a.Perm b) : weigh a = weigh b :=
  Multiset.coe_eq_coe.mpr (h.flatMap_right arrivals)

theorem weigh_remove {m : OrdMap String Bucket} (h : m.get key = some bucket) :
    weigh (m.rows.map place) =
      weigh [place (key, bucket)] + weigh ((m.remove key).rows.map place) := by
  rw [weigh_of_perm ((perm_remove h).map place), map_cons, weigh_cons]

variable (m : OrdMap String Bucket)

theorem weigh_insert (key : String) (bucket : Bucket) :
    weigh ((m.insert key bucket).rows.map place) =
      weigh [place (key, bucket)] + weigh ((m.remove key).rows.map place) := by
  rw [weigh_of_perm ((perm_insert m key bucket).map place), map_cons, weigh_cons]

theorem weigh_retain (keep : String × Bucket → Bool) :
    weigh (m.rows.map place) = weigh ((m.retain keep).rows.map place) +
      weigh ((m.rows.filter fun r => !keep r).map place) := by
  rw [← weigh_append, ← map_append]
  exact weigh_of_perm ((filter_append_perm keep m.rows).symm.map place)

/-- What holds of a bucket when `n` exchanges have gone in. -/
structure Bucket.Fine (config : AggregatorConfig) (n : Nat) (bucket : Bucket) : Prop where
  filled : bucket.exchanges ≠ []
  ordered : (bucket.exchanges.map (·.1)).Pairwise (· < ·)
  below : ∀ ex ∈ bucket.exchanges, ex.1 < n
  claims : bucket.claims.length = bucket.exchanges.length
  size : ∀ max, config.max_bucket_size = some max → 1 ≤ max → bucket.exchanges.length ≤ max

/-- The aggregate is that of its exchanges in the order of their arrival. -/
structure Emission.Fine (config : AggregatorConfig) (e : Emission) : Prop where
  ordered : (e.exchanges.map (·.1)).Pairwise (· < ·)
  claims : e.claims.length = e.exchanges.length
  result : ∃ result, aggregate config.origin (e.exchanges.map (·.2)) config.strategy = .ok result ∧
    e.exchange.input = result.input

/-- What the settings say about a bucket that is dropped. -/
def Discard.Allowed (config : AggregatorConfig) : Discard → Prop
  | .Ttl => config.bucket_ttl.isSome = true
  | .Timeout => config.discard_on_timeout = true
  | .Stop => config.force_completion_on_stop = false
  | .Unarmed => True
  | .ChannelFull => True
  | .AggregationFailed => False

/-- What every step keeps, where the buckets in `loose` are on their way. -/
structure Inv (config : AggregatorConfig) (loose : List (String × Bucket)) (s : State) : Prop where
  placed : weigh s.places + weigh (loose.map place) = s.accepted
  numbered : s.accepted.map Arrival.id = List.range s.accepted.length
  keyed : ∀ a ∈ s.accepted, ∃ key_value,
    config.extract_correlation_key a.exchange = .ok key_value ∧ a.key = config.to_string key_value
  buckets : ∀ r ∈ s.buckets.rows, r.2.Fine config s.accepted.length
  loose : ∀ r ∈ loose, r.2.Fine config s.accepted.length
  count : ∀ max, config.max_buckets = some max → s.buckets.rows.length ≤ max
  emitted : ∀ e ∈ s.emitted, e.Fine config
  discarded : ∀ d ∈ s.discarded, d.1.Allowed config

theorem inv_new (config : AggregatorConfig) : Inv config [] State.new where
  placed := rfl
  numbered := rfl
  keyed := by simp [State.new]
  buckets := by simp [State.new]
  loose := by simp
  count := by simp [State.new]
  emitted := by simp [State.new]
  discarded := by simp [State.new]

theorem State.weight_eq (s : State) : weigh s.places = weigh (s.buckets.rows.map place) +
    weigh (s.emitted.map fun e => (e.key, e.exchanges)) +
    weigh (s.discarded.map fun d => place d.2) := by
  simp only [State.places, weigh_append]

theorem Inv.congr (h : Inv config loose s) (hb : s'.buckets = s.buckets)
    (he : s'.emitted = s.emitted) (hd : s'.discarded = s.discarded)
    (ha : s'.accepted = s.accepted) : Inv config loose s' := by
  refine ⟨?_, ?_, ?_, ?_, ?_, ?_, ?_, ?_⟩
  · rw [State.weight_eq, hb, he, hd, ha, ← State.weight_eq]
    exact h.placed
  · rw [ha]
    exact h.numbered
  · rw [ha]
    exact h.keyed
  · rw [hb, ha]
    exact h.buckets
  · rw [ha]
    exact h.loose
  · rw [hb]
    exact h.count
  · rw [he]
    exact h.emitted
  · rw [hd]
    exact h.discarded

theorem weigh_loose (key : String) (bucket : Bucket) (loose : List (String × Bucket)) :
    weigh (((key, bucket) :: loose).map place) =
      weigh [place (key, bucket)] + weigh (loose.map place) := weigh_cons _ _

theorem Inv.take (h : Inv config loose s) (hb : s.buckets.get key = some bucket) :
    Inv config ((key, bucket) :: loose) { s with buckets := s.buckets.remove key } := by
  have hf := h.buckets _ (get_eq_some.mp hb)
  refine ⟨?_, h.numbered, h.keyed, ?_, ?_, ?_, h.emitted, h.discarded⟩
  · rw [← h.placed, State.weight_eq s, weigh_remove hb, State.weight_eq, weigh_loose]
    abel
  · intro r hr
    exact h.buckets r ((mem_remove _ _ _).mp hr).1
  · intro r hr
    rcases mem_cons.mp hr with rfl | hr
    · exact hf
    · exact h.loose r hr
  · intro max hm
    exact Nat.le_trans (length_remove_le _ _) (h.count max hm)

theorem Inv.discard (h : Inv config ((key, bucket) :: loose) s) {reason : Discard}
    (ha : reason.Allowed config) : Inv config loose (s.discard reason key bucket) := by
  refine ⟨?_, h.numbered, h.keyed, h.buckets, fun r hr => h.loose r (by simp [hr]), h.count,
    h.emitted, ?_⟩
  · rw [State.discard, ← h.placed, State.weight_eq s, State.weight_eq, map_append, weigh_append,
      weigh_loose]
    simp only [map_cons, map_nil]
    abel
  · intro d hd
    rcases mem_append.mp hd with hd | hd
    · exact h.discarded d hd
    · rw [mem_singleton.mp hd]
      exact ha

theorem Inv.emit (h : Inv config ((key, bucket) :: loose) s) {result : Exchange}
    (hre : aggregate config.origin (bucket.exchanges.map (·.2)) config.strategy = .ok result)
    (hi : exchange.input = result.input) : Inv config loose (s.emit key bucket exchange) := by
  have hf := h.loose (key, bucket) (by simp)
  refine ⟨?_, h.numbered, h.keyed, h.buckets, fun r hr => h.loose r (by simp [hr]), h.count, ?_,
    h.discarded⟩
  · rw [State.emit, ← h.placed, State.weight_eq s, State.weight_eq, map_append, weigh_append,
      weigh_loose]
    simp only [map_cons, map_nil, place]
    abel
  · intro e he
    rcases mem_append.mp he with he | he
    · exact h.emitted e he
    · rw [mem_singleton.mp he]
      exact ⟨hf.ordered, hf.claims, result, hre, hi⟩

theorem aggregate_ok {exchanges : List Exchange} (h : exchanges ≠ [])
    (origin : Nat → Option String) (strategy : AggregationStrategy) :
    ∃ result, aggregate origin exchanges strategy = .ok result := by
  cases strategy with
  | CollectAll => exact ⟨_, rfl⟩
  | Custom f =>
    cases exchanges with
    | nil => exact absurd rfl h
    | cons first rest => exact ⟨_, rfl⟩

theorem Inv.aggregates (h : Inv config ((key, bucket) :: loose) s) :
    ∃ result, aggregate config.origin (bucket.exchanges.map (·.2)) config.strategy = .ok result := by
  refine aggregate_ok ?_ _ _
  simpa using (h.loose (key, bucket) (by simp)).filled

theorem Inv.send_late (h : Inv config ((key, bucket) :: loose) s) (reason : CompletionReason)
    (full : Bool) : Inv config loose (s.send_late config reason full key bucket) := by
  obtain ⟨result, hr⟩ := h.aggregates
  simp only [State.send_late, hr]
  split
  · exact h.discard trivial
  · exact h.emit hr rfl

theorem Inv.answer (h : Inv config ((key, bucket) :: loose) s) (reason : CompletionReason)
    (key_value : Value) : Inv config loose (s.answer config reason key_value key bucket) := by
  obtain ⟨result, hr⟩ := h.aggregates
  simp only [State.answer, hr]
  exact h.emit hr rfl

theorem Inv.retain (h : Inv config [] s) {reason : Discard} (ha : reason.Allowed config)
    (keep : String × Bucket → Bool) : Inv config [] (s.retain reason keep) := by
  refine ⟨?_, h.numbered, h.keyed, ?_, by simp, ?_, h.emitted, ?_⟩
  · rw [State.retain, ← h.placed, State.weight_eq s, weigh_retain s.buckets keep, State.weight_eq]
    simp only [map_append, List.map_map, weigh_append, Function.comp_def]
    abel
  · intro r hr
    exact h.buckets r (mem_filter.mp hr).1
  · intro max hm
    exact Nat.le_trans (length_filter_le _ _) (h.count max hm)
  · intro d hd
    rcases mem_append.mp hd with hd | hd
    · exact h.discarded d hd
    · obtain ⟨r, -, rfl⟩ := List.mem_map.mp hd
      exact ha

theorem Inv.evict (h : Inv config [] s) (now : Nat) : Inv config [] (s.evict config now) := by
  unfold State.evict
  split
  · rename_i ttl ht
    exact h.retain (by simp [Discard.Allowed, ht]) _
  · exact h

theorem Bucket.Fine.mono {n m : Nat} (h : bucket.Fine config n) (hn : n ≤ m) :
    bucket.Fine config m :=
  ⟨h.filled, h.ordered, fun ex hex => Nat.lt_of_lt_of_le (h.below ex hex) hn, h.claims, h.size⟩

theorem pushed_fine {n : Nat} (ho : (bucket.exchanges.map (·.1)).Pairwise (· < ·))
    (hbe : ∀ ex ∈ bucket.exchanges, ex.1 < n)
    (hc : bucket.claims.length = bucket.exchanges.length)
    (hs : ∀ max, config.max_bucket_size = some max → 1 ≤ max → bucket.exchanges.length < max) :
    (bucket.push now n exchange claim).Fine config (n + 1) where
  filled := by simp [Bucket.push]
  ordered := by
    simp only [Bucket.push, map_append, map_cons, map_nil, pairwise_append]
    refine ⟨ho, pairwise_singleton _ _, ?_⟩
    intro a ha b hb
    obtain ⟨ex, hex, rfl⟩ := List.mem_map.mp ha
    rw [mem_singleton.mp hb]
    exact hbe ex hex
  below := by
    intro ex hex
    rcases mem_append.mp hex with hex | hex
    · exact Nat.lt_succ_of_lt (hbe ex hex)
    · rw [mem_singleton.mp hex]
      exact Nat.lt_succ_self n
  claims := by simp [Bucket.push, hc]
  size := by
    intro max hm hon
    have := hs max hm hon
    simp only [Bucket.push, length_append, length_singleton]
    omega

theorem Inv.arrive (h : Inv config [] s) {old : Bucket} (claim : Option Nat)
    (hk : config.extract_correlation_key exchange = .ok key_value)
    (hold : s.buckets.get (config.to_string key_value) = some old ∨
      (s.buckets.get (config.to_string key_value) = none ∧ old = Bucket.new now))
    (hs : ∀ max, config.max_bucket_size = some max → 1 ≤ max → old.exchanges.length < max) :
    Inv config
      [(config.to_string key_value, old.push now s.accepted.length exchange claim)]
      { s with
        buckets := s.buckets.remove (config.to_string key_value)
        accepted := s.accepted ++
          [⟨config.to_string key_value, s.accepted.length, exchange⟩] } := by
  have hw : weigh (s.buckets.rows.map place) =
      weigh [place (config.to_string key_value, old)] +
        weigh ((s.buckets.remove (config.to_string key_value)).rows.map place) := by
    rcases hold with hold | ⟨hn, rfl⟩
    · exact weigh_remove hold
    · rw [remove_of_none hn]
      exact (zero_add _).symm
  have hf : (old.exchanges.map (·.1)).Pairwise (· < ·) ∧
      (∀ ex ∈ old.exchanges, ex.1 < s.accepted.length) ∧
      old.claims.length = old.exchanges.length := by
    rcases hold with hold | ⟨-, rfl⟩
    · have hold := h.buckets _ (get_eq_some.mp hold)
      exact ⟨hold.ordered, hold.below, hold.claims⟩
    · simp [Bucket.new]
  have hpu : weigh [place (config.to_string key_value,
      old.push now s.accepted.length exchange claim)] =
      weigh [place (config.to_string key_value, old)] +
        {⟨config.to_string key_value, s.accepted.length, exchange⟩} := by
    simp [weigh, arrivals, place, Bucket.push, ← Multiset.coe_add]
  refine ⟨?_, ?_, ?_, ?_, ?_, ?_, h.emitted, h.discarded⟩
  · have hp := h.placed
    rw [State.weight_eq, hw, map_nil, weigh_nil, add_zero] at hp
    rw [State.weight_eq, map_cons, map_nil, hpu]
    simp only [← Multiset.coe_add, ← hp, ← Multiset.coe_singleton]
    abel
  · simp only [map_append, h.numbered, map_cons, map_nil, length_append,
      length_singleton, range_succ]
  · intro a ha
    rcases mem_append.mp ha with ha | ha
    · exact h.keyed a ha
    · rw [mem_singleton.mp ha]
      exact ⟨key_value, hk, rfl⟩
  · intro r hr
    exact (h.buckets r ((mem_remove _ _ _).mp hr).1).mono (by simp)
  · intro r hr
    rw [mem_singleton.mp hr, length_append, length_singleton]
    exact pushed_fine hf.1 hf.2.1 hf.2.2 hs
  · intro max hm
    exact Nat.le_trans (length_remove_le _ _) (h.count max hm)

theorem Inv.insert (h : Inv config [(key, bucket)] s) (hn : s.buckets.get key = none)
    (hc : ∀ max, config.max_buckets = some max → s.buckets.rows.length + 1 ≤ max) :
    Inv config [] { s with buckets := s.buckets.insert key bucket } := by
  refine ⟨?_, h.numbered, h.keyed, ?_, by simp, ?_, h.emitted, h.discarded⟩
  · rw [← h.placed, State.weight_eq s, State.weight_eq, weigh_insert, remove_of_none hn]
    simp only [map_cons, map_nil, weigh_nil]
    abel
  · intro r hr
    rcases (mem_insert _ _ _ _).mp hr with rfl | ⟨hr, -⟩
    · exact h.loose _ (by simp)
    · exact h.buckets r hr
  · intro max hm
    exact Nat.le_trans (length_insert_le _ _ _) (hc max hm)

theorem Inv.push (h : Inv config [] s)
    (hk : config.extract_correlation_key exchange = .ok key_value)
    (hc : ∀ max, config.max_buckets = some max →
      s.buckets.get (config.to_string key_value) = none → s.buckets.rows.length < max)
    (hs : ∀ max, config.max_bucket_size = some max → 1 ≤ max →
      ((s.buckets.get (config.to_string key_value)).getD (Bucket.new now)).exchanges.length < max) :
    Inv config [] (s.push config now key_value satisfied exchange claim) := by
  have hold : s.buckets.get (config.to_string key_value) =
      some ((s.buckets.get (config.to_string key_value)).getD (Bucket.new now)) ∨
      (s.buckets.get (config.to_string key_value) = none ∧
        (s.buckets.get (config.to_string key_value)).getD (Bucket.new now) = Bucket.new now) := by
    cases s.buckets.get (config.to_string key_value) <;> simp
  have ha := h.arrive claim hk hold hs
  unfold State.push
  simp only
  split
  · refine Inv.answer ?_ _ _
    exact ha.congr rfl rfl rfl rfl
  · have hr : ∀ max, config.max_buckets = some max →
        (s.buckets.remove (config.to_string key_value)).rows.length + 1 ≤ max := by
      intro max hm
      rcases hold with hold | ⟨hn, -⟩
      · have hl := (perm_remove hold).length_eq
        rw [length_cons] at hl
        rw [← hl]
        exact h.count max hm
      · rw [remove_of_none hn]
        exact hc max hm hn
    have hi := ha.insert (get_remove_self _ _) hr
    refine hi.congr ?_ rfl rfl rfl
    simp only [insert_remove]

theorem Inv.enter (h : Inv config [] s)
    (hk : config.extract_correlation_key exchange = .ok key_value) :
    Inv config [] (s.enter config now key_value satisfied exchange claim).2 := by
  unfold State.enter
  simp only
  split
  · exact h
  · rename_i hb
    split
    · exact h
    · rename_i hs
      refine h.push hk ?_ ?_
      · intro max hm hn
        have hp := filter_eq_none_iff.mp hb max hm
        have hno : s.buckets.contains_key (config.to_string key_value) = false := by
          rw [Bool.eq_false_iff]
          intro hc
          obtain ⟨bucket, hme⟩ := (contains_key_eq_true _ _).mp hc
          rw [get_eq_some.mpr hme] at hn
          simp at hn
        simpa [hno] using hp
      · intro max hm ho
        have hp := filter_eq_none_iff.mp hs max hm
        cases hg : s.buckets.get (config.to_string key_value) with
        | none =>
          simp only [getD_none, Bucket.new, length_nil]
          omega
        | some existing => simpa [hg] using hp

theorem Inv.submit (h : Inv config [] s) (now : Nat) (exchange : Exchange) (claim : Option Nat) :
    Inv config [] (s.submit_with_claim config now exchange claim).2 := by
  unfold State.submit_with_claim
  split
  · exact h
  · rename_i hk
    split
    · exact h
    · exact (h.evict now).enter hk

@[simp] theorem cancel_timeout_task_buckets (key : String) :
    (s.cancel_timeout_task key).buckets = s.buckets := by
  unfold State.cancel_timeout_task
  split <;> rfl

@[simp] theorem cancel_timeout_task_emitted (key : String) :
    (s.cancel_timeout_task key).emitted = s.emitted := by
  unfold State.cancel_timeout_task
  split <;> rfl

@[simp] theorem cancel_timeout_task_discarded (key : String) :
    (s.cancel_timeout_task key).discarded = s.discarded := by
  unfold State.cancel_timeout_task
  split <;> rfl

@[simp] theorem cancel_timeout_task_accepted (key : String) :
    (s.cancel_timeout_task key).accepted = s.accepted := by
  unfold State.cancel_timeout_task
  split <;> rfl

theorem Inv.force_one (h : Inv config ((key, bucket) :: loose) s) (full : String → Bool) :
    Inv config loose (State.force_one config full s (key, bucket)) := by
  have hc : Inv config ((key, bucket) :: loose) (s.cancel_timeout_task_with_handle key) :=
    h.congr (by simp [State.cancel_timeout_task_with_handle])
      (by simp [State.cancel_timeout_task_with_handle])
      (by simp [State.cancel_timeout_task_with_handle])
      (by simp [State.cancel_timeout_task_with_handle])
  unfold State.force_one
  simp only
  split
  · exact hc.send_late _ _
  · rename_i hf
    exact hc.discard (by simpa [Discard.Allowed] using hf)

theorem Inv.force_rows (full : String → Bool) (h : Inv config loose s) :
    Inv config [] (loose.foldl (State.force_one config full) s) := by
  induction loose generalizing s with
  | nil => exact h
  | cons r loose ih => exact ih (Inv.force_one h full)

theorem Inv.force_complete_all (h : Inv config [] s) (full : String → Bool) :
    Inv config [] (s.force_complete_all config full) := by
  refine Inv.force_rows full ?_
  refine ⟨?_, h.numbered, h.keyed, by simp, h.buckets, by simp, h.emitted, h.discarded⟩
  have hp := h.placed
  rw [State.weight_eq, map_nil, weigh_nil, add_zero] at hp
  rw [State.weight_eq, ← hp]
  simp only [rows_empty, map_nil, weigh_nil]
  abel

theorem Inv.advance {i : Nat} (h : Inv config [] s) (hs : s.advance config i = some s') :
    Inv config [] s' := by
  unfold State.advance at hs
  split at hs
  · simp at hs
  · split at hs
    case h_7 =>
      rw [← some.inj hs]
      exact h.congr (by simp [State.moveSubmit]) (by simp [State.moveSubmit])
        (by simp [State.moveSubmit]) (by simp [State.moveSubmit])
    case h_9 => simp at hs
    all_goals try split at hs
    all_goals
      rw [← some.inj hs]
      exact h.congr rfl rfl rfl rfl

theorem Inv.fire {i : Nat} {full : Bool} (h : Inv config [] s)
    (hs : s.fire config i full = some s') : Inv config [] s' := by
  unfold State.fire at hs
  split at hs
  · simp at hs
  · rename_i t _
    split at hs
    · split at hs
      all_goals
        rw [← some.inj hs]
        exact h.congr rfl rfl rfl rfl
    · rw [← some.inj hs]
      exact h.congr rfl rfl rfl rfl
    · split at hs
      · rename_i bucket hb
        have ht : Inv config [(t.key, bucket)]
            { s.moveTimer i t .Gone with buckets := s.buckets.remove t.key } :=
          (h.take hb).congr rfl rfl rfl rfl
        split at hs
        · rename_i hd
          rw [← some.inj hs]
          exact ht.discard hd
        · rw [← some.inj hs]
          exact ht.send_late _ _
      · rw [← some.inj hs]
        exact h.congr rfl rfl rfl rfl
    · simp at hs

theorem Inv.step (h : Inv config [] s) (e : Event) (hs : s.step config e = some s') :
    Inv config [] s' := by
  cases e with
  | submit now exchange claim =>
    rw [← some.inj hs]
    exact h.submit now exchange claim
  | submitter i => exact h.advance hs
  | timer i full => exact h.fire hs
  | force_complete_all full =>
    rw [← some.inj hs]
    exact h.force_complete_all full
  | release_unarmed_buckets =>
    rw [← some.inj hs]
    exact h.retain (show Discard.Allowed config .Unarmed from trivial) _
  | sweep now =>
    rw [← some.inj hs]
    exact h.evict now

theorem Inv.run (h : Inv config [] s) (events : List Event)
    (hr : s.run config events = some s') : Inv config [] s' := by
  induction events generalizing s with
  | nil =>
    cases hr
    exact h
  | cons e events ih =>
    obtain ⟨middle, hs, hr⟩ := bind_eq_some_iff.mp hr
    exact ih (h.step e hs) hr

/-- Each exchange that went in is in one place under its own key, and the caps hold. -/
structure Conserved (config : AggregatorConfig) (s : State) : Prop where
  placed : (s.places.flatMap arrivals).Perm s.accepted
  numbers : (s.accepted.map Arrival.id).Nodup
  keys : ∀ a ∈ s.accepted, ∃ key_value,
    config.extract_correlation_key a.exchange = .ok key_value ∧ a.key = config.to_string key_value
  emitted : ∀ e ∈ s.emitted, e.Fine config
  discarded : ∀ d ∈ s.discarded, d.1.Allowed config
  claims : ∀ r ∈ s.buckets.rows, r.2.claims.length = r.2.exchanges.length
  count : ∀ max, config.max_buckets = some max → s.buckets.rows.length ≤ max
  size : ∀ max, config.max_bucket_size = some max → 1 ≤ max →
    ∀ r ∈ s.buckets.rows, r.2.exchanges.length ≤ max

theorem Inv.conserved (h : Inv config [] s) : Conserved config s := by
  refine ⟨?_, ?_, h.keyed, h.emitted, h.discarded, fun r hr => (h.buckets r hr).claims, h.count,
    fun max hm ho r hr => (h.buckets r hr).size max hm ho⟩
  · have hp := h.placed
    rw [map_nil, weigh_nil, add_zero] at hp
    exact Multiset.coe_eq_coe.mp hp
  · rw [h.numbered]
    exact nodup_range

/-- The bucket outlives the eviction of a submit. -/
def Bucket.Survives (config : AggregatorConfig) (now : Nat) (bucket : Bucket) : Prop :=
  ∀ ttl, config.bucket_ttl = some ttl → bucket.is_expired now ttl = false

/-- A submit that is rejected leaves the buckets that survive the eviction, and no others. -/
def RejectsCleanly (config : AggregatorConfig) (s : State) : Prop :=
  ∀ now exchange claim err, (s.submit_with_claim config now exchange claim).1 = some err →
    ∀ key bucket,
      (s.buckets.get key = some bucket → bucket.Survives config now →
        (s.submit_with_claim config now exchange claim).2.buckets.get key = some bucket) ∧
      ((s.submit_with_claim config now exchange claim).2.buckets.get key = some bucket →
        s.buckets.get key = some bucket)

theorem evict_keeps (hb : s.buckets.get key = some bucket)
    (hs : bucket.Survives config now) :
    (s.evict config now).buckets.get key = some bucket := by
  unfold State.evict
  split
  · rename_i ttl ht
    exact get_retain hb (by simp [hs ttl ht])
  · exact hb

theorem get_of_evict (h : (s.evict config now).buckets.get key = some bucket) :
    s.buckets.get key = some bucket := by
  unfold State.evict at h
  split at h
  · exact get_of_retain h
  · exact h

theorem enter_rejected {err : CamelError}
    (h : (s.enter config now key_value satisfied exchange claim).1 = some err) :
    (s.enter config now key_value satisfied exchange claim).2 = s := by
  revert h
  unfold State.enter
  simp only
  split
  · exact fun _ => rfl
  · split
    · exact fun _ => rfl
    · simp

theorem rejects_cleanly (config : AggregatorConfig) (s : State) : RejectsCleanly config s := by
  intro now exchange claim err
  unfold State.submit_with_claim
  intro hr key bucket
  split at hr
  · exact ⟨fun hb _ => hb, id⟩
  · split at hr
    · exact ⟨fun hb _ => hb, id⟩
    · simp only [enter_rejected hr]
      exact ⟨evict_keeps, get_of_evict⟩

/-- On every run each exchange that went in is in an open bucket of its key, in one
aggregate or in a bucket that was dropped for a reason that the settings allow. -/
theorem aggregator_conserves (config : AggregatorConfig) (events : List Event) (s : State)
    (hrun : State.new.run config events = some s) : Conserved config s ∧ RejectsCleanly config s :=
  ⟨((inv_new config).run events hrun).conserved, rejects_cleanly config s⟩

/-- The key is the text, a bucket is complete with `size`, one timer may live. -/
def sampleConfig (size : Nat) : AggregatorConfig where
  completion := .Any [.Size size, .Timeout 10]
  extract_correlation_key exchange :=
    match exchange.input.body with
    | .Text text => .ok (.String text)
    | _ => .error (.ProcessorError "Aggregator: correlation function returned None")
  to_string value :=
    match value with
    | .String text => text
    | _ => ""
  evaluate_completion_predicate _ := .ok false
  strategy := .CollectAll
  origin _ := none
  max_buckets := some 2
  max_bucket_size := some 2
  bucket_ttl := some 1000
  force_completion_on_stop := false
  discard_on_timeout := false
  max_timeout_tasks := 1

/-- Two exchanges of one key make an aggregate, and a third waits. -/
theorem two_exchanges_make_an_aggregate :
    ∃ s, State.new.run (sampleConfig 2) [.submit 0 (textExchange "a") (some 7),
        .submit 1 (textExchange "a") none, .submit 2 (textExchange "b") none] = some s ∧
      s.emitted.length = 1 ∧ s.buckets.rows.length = 1 ∧ Conserved (sampleConfig 2) s ∧
      RejectsCleanly (sampleConfig 2) s := by
  have hc : (State.new.run (sampleConfig 2) [.submit 0 (textExchange "a") (some 7),
      .submit 1 (textExchange "a") none, .submit 2 (textExchange "b") none]).map
      (fun s => (s.emitted.length, s.buckets.rows.length)) = some (1, 1) := by decide +kernel
  obtain ⟨s, hs, hc⟩ := map_eq_some_iff.mp hc
  obtain ⟨he, hb⟩ := Prod.mk.inj hc
  have h := aggregator_conserves (sampleConfig 2) _ s hs
  exact ⟨s, hs, he, hb, h⟩

/-- The reasons for a dropped bucket that are an eviction or a discard on timeout. -/
def Discard.evicts : Discard → Bool
  | .Ttl | .Timeout => true
  | _ => false

/-- A submit of a text arms its timer in six steps. -/
def armed (now : Nat) (text : String) (i : Nat) : List Event :=
  .submit now (textExchange text) none :: List.replicate 6 (.submitter i)

/-- One bucket has no timer and is released, one comes when the late channel is full, and one
is open when the route stops. -/
def droppings : List Event :=
  (armed 0 "a" 0).append [.submit 1 (textExchange "b") none, .submitter 1,
    .release_unarmed_buckets, .timer 0 true, .timer 0 true, .timer 0 true,
    .submit 2 (textExchange "c") none, .force_complete_all fun _ => false]

/-- Three exchanges that are in no bucket and in no aggregate, although nothing was evicted
or discarded on timeout. -/
theorem exchanges_are_dropped_otherwise :
    ∃ s, State.new.run (sampleConfig 5) droppings = some s ∧
      s.accepted.length = 3 ∧ s.buckets.rows.length = 0 ∧ s.emitted.length = 0 ∧
      (s.discarded.filter fun d => d.1.evicts).length = 0 := by
  have hc : (State.new.run (sampleConfig 5) droppings).map (fun s => (s.accepted.length,
      s.buckets.rows.length, s.emitted.length,
      (s.discarded.filter fun d => d.1.evicts).length)) = some (3, 0, 0, 0) := by decide +kernel
  obtain ⟨s, hs, hc⟩ := map_eq_some_iff.mp hc
  exact ⟨s, hs, congrArg (·.1) hc, congrArg (·.2.1) hc, congrArg (·.2.2.1) hc,
    congrArg (·.2.2.2) hc⟩

end

end camel_processor.aggregator
