-- The batch resequencer of `resequencer/batch.rs`. Exchanges of one key wait in a bucket,
-- and the bucket goes out as a sorted batch when it is full, when its timer fires or at
-- the end. Each section under a lock is one step, and the timers run between the steps.
-- `+` on a `u64` panics at its end here, as it does with the checks of the dev profile.
import RustCamel.Api.Value
import RustCamel.Lib.OrdMap
import RustCamel.Lib.ListCount
import Mathlib.Data.String.Basic
import Mathlib.Algebra.Group.Prod
import Mathlib.Algebra.Order.Group.Multiset
import Mathlib.Tactic.Abel
import RustCamel.Lifecycle.RouteRuntime

open List Option OrdMap

namespace camel_processor.resequencer.batch

open camel_api
open camel_core.lifecycle (u64_max)

/-! ## The policy -/

inductive BatchCompletion where
  | Size (size : Nat)
  | Timeout (timeout_ms : Nat)
  | SizeOrTimeout (size timeout_ms : Nat)

/-- `value::cmp_values`. Numbers compare as `f64`, arrays and objects as their JSON text. -/
def cmp_values (cmp_numbers : Number → Number → Ordering) (json : Value → String) :
    Value → Value → Ordering
  | .Null, .Null => .eq
  | .Null, _ => .lt
  | _, .Null => .gt
  | .Bool a, .Bool b => compare a b
  | .Bool _, _ => .lt
  | _, .Bool _ => .gt
  | .Number a, .Number b => cmp_numbers a b
  | .Number _, _ => .lt
  | _, .Number _ => .gt
  | .String a, .String b => compare a b
  | .Array a, .Array b => compare (json (.Array a)) (json (.Array b))
  | .Object a, .Object b => compare (json (.Object a)) (json (.Object b))
  -- a string has no arm of its own here, so it comes after arrays and objects
  | .Array _, _ => .lt
  | _, .Array _ => .gt
  | .Object _, _ => .lt
  | _, .Object _ => .gt

/-- The settings of the policy. `ε` are the exchanges. `eval_key` gives the text of the
correlation expression, or nothing when it fails. -/
structure BatchPolicy (ε : Type) where
  eval_key : ε → Option String
  sort_expr : ε → Option Value
  cmp_numbers : Number → Number → Ordering
  json : Value → String
  completion : BatchCompletion
  max_buckets : Nat
  max_bucket_size : Nat
  max_timeout_tasks : Nat

/-- The exchanges of a bucket with their numbers. `born` says which bucket it is: the code
has no such numbers, they tell equal exchanges and buckets of one key apart. -/
structure Bucket (ε : Type) where
  born : Nat
  exchanges : List (Nat × ε)

namespace BatchPolicy

variable {ε : Type} (p : BatchPolicy ε)

def is_complete_by_size (count : Nat) : Bool :=
  match p.completion with
  | .Size s | .SizeOrTimeout s _ => decide (s ≤ count)
  | .Timeout _ => false

def needs_timeout : Bool :=
  match p.completion with
  | .Timeout _ | .SizeOrTimeout _ _ => true
  | .Size _ => false

def drain_and_sort (bucket : Bucket ε) : Bucket ε :=
  let indexed := bucket.exchanges.map fun ex => ((p.sort_expr ex.2).getD .Null, ex)
  let sorted := indexed.mergeSort fun a b =>
    cmp_values p.cmp_numbers p.json a.1 b.1 != .gt
  { bucket with exchanges := sorted.map (·.2) }

end BatchPolicy

/-! ## The parties -/

/-- Where a timeout task stands. -/
inductive TimerStage (ε : Type) where
  | Sleeping
  | Woken
  | Ready
  | Holding (bucket : Bucket ε)
  | Leaving
  | Gone

/-- A timeout task. `armed_for` is the bucket whose first exchange had it spawned. -/
structure Timer (ε : Type) where
  key : String
  generation : Nat
  armed_for : Nat
  stage : TimerStage ε

/-- Where the actor stands in its `accept`, or the shutdown in its `flush`. `born` is the
bucket that the exchange went into. -/
inductive ActorStage (ε : Type) where
  | Idle
  | Pushed (key : String) (born count : Nat)
  | Arming (key : String) (born count : Nat)
  | Inserting (key : String) (born count generation : Nat)
  | Spawning (key : String) (born count generation : Nat)
  | Armed (key : String) (count : Nat)
  | Taking (key : String)
  | Holding (key : String) (bucket : Bucket ε)
  | Panicked
  | Flushing
  | Cancelling (all_keys : List String) (all_sorted : List (String × Bucket ε))
  | FlushTaking (key : String) (all_keys : List String) (all_sorted : List (String × Bucket ε))
  | Clearing (all_sorted : List (String × Bucket ε))
  | Dropping (tasks : List Nat) (all_sorted : List (String × Bucket ε))
  | Closed

/-- An exchange that was buffered. -/
structure Arrival (ε : Type) where
  key : String
  born : Nat
  id : Nat
  exchange : ε

/-- The fields that change, the tasks, and what went out. A token is the generation of its
task. `accepted` and `buckets_born` are the books: the code keeps neither. -/
structure State (ε : Type) where
  buckets : OrdMap String (Bucket ε)
  timeout_tasks : OrdMap String Nat
  timeout_generation : Nat
  shutdown_started : Bool
  cancelled : List Nat
  timers : List (Timer ε)
  actor : ActorStage ε
  emitted : List (String × Bucket ε)
  accepted : List (Arrival ε)
  buckets_born : Nat

/-- `snapshot` gives the keys in the order of the hash map. -/
inductive Event (ε : Type) where
  | accept (input : ε)
  | actor
  | flush
  | snapshot (all_keys : List String)
  | timer (i : Nat)

namespace State

variable {ε : Type} (p : BatchPolicy ε) (s : State ε)

/-- As the service has it: its channel is set before the actor starts. -/
def new_cyclic : State ε where
  buckets := .empty
  timeout_tasks := .empty
  timeout_generation := 0
  shutdown_started := false
  cancelled := []
  timers := []
  actor := .Idle
  emitted := []
  accepted := []
  buckets_born := 0

/-- The bucket of `key` takes the exchange, unless it is full. -/
def push (key : String) (bucket : Bucket ε) (input : ε) : State ε :=
  if p.max_bucket_size ≤ bucket.exchanges.length then
    { s with buckets := s.buckets.insert key bucket }
  else
    let bucket := { bucket with exchanges := bucket.exchanges ++ [(s.accepted.length, input)] }
    { s with
      buckets := s.buckets.insert key bucket
      accepted := s.accepted ++ [⟨key, bucket.born, s.accepted.length, input⟩]
      actor := .Pushed key bucket.born bucket.exchanges.length }

/-- `accept` up to the end of its first section. -/
def accept (input : ε) : State ε :=
  match p.eval_key input with
  | none => s
  | some key =>
    match s.buckets.get key with
    | some bucket => s.push p key bucket input
    | none =>
      if p.max_buckets ≤ s.buckets.rows.length then s
      else { s with buckets_born := s.buckets_born + 1 }.push p key ⟨s.buckets_born, []⟩ input

def cancel_timeout (key : String) : State ε :=
  match s.timeout_tasks.get key with
  | some generation =>
    { s with
      timeout_tasks := s.timeout_tasks.remove key
      cancelled := generation :: s.cancelled }
  | none => s

/-- The next step of `accept` or `flush`. -/
def advance : Option (State ε) :=
  match s.actor with
  | .Pushed key born count =>
    if count = 1 ∧ p.needs_timeout then
      if s.timeout_tasks.rows.length < p.max_timeout_tasks then
        some { s with actor := .Arming key born count }
      else some { s with actor := .Armed key count }
    else some { s with actor := .Armed key count }
  | .Arming key born count =>
    if s.timeout_generation < u64_max then
      some { s with
        timeout_generation := s.timeout_generation + 1
        actor := .Inserting key born count (s.timeout_generation + 1) }
    else some { s with actor := .Panicked }
  | .Inserting key born count generation =>
    some { s with
      timeout_tasks := s.timeout_tasks.insert key generation
      actor := .Spawning key born count generation }
  | .Spawning key born count generation =>
    some { s with
      timers := s.timers ++ [⟨key, generation, born, .Sleeping⟩]
      actor := .Armed key count }
  | .Armed key count =>
    if p.is_complete_by_size count then some { s.cancel_timeout key with actor := .Taking key }
    else some { s with actor := .Idle }
  | .Taking key =>
    match s.buckets.get key with
    | some bucket =>
      some { s with buckets := s.buckets.remove key, actor := .Holding key bucket }
    | none => some { s with actor := .Idle }
  | .Holding key bucket =>
    some { s with emitted := s.emitted ++ [(key, p.drain_and_sort bucket)], actor := .Idle }
  | .Cancelling (key :: all_keys) all_sorted =>
    some { s.cancel_timeout key with actor := .FlushTaking key all_keys all_sorted }
  | .Cancelling [] all_sorted => some { s with actor := .Clearing all_sorted }
  | .FlushTaking key all_keys all_sorted =>
    match s.buckets.get key with
    | some bucket =>
      some { s with
        buckets := s.buckets.remove key
        actor := .Cancelling all_keys (all_sorted ++ [(key, p.drain_and_sort bucket)]) }
    | none => some { s with actor := .Cancelling all_keys all_sorted }
  | .Clearing all_sorted =>
    some { s with
      timeout_tasks := .empty
      actor := .Dropping (s.timeout_tasks.rows.map (·.2)) all_sorted }
  | .Dropping (generation :: tasks) all_sorted =>
    some { s with
      cancelled := generation :: s.cancelled
      actor := .Dropping tasks all_sorted }
  | .Dropping [] all_sorted =>
    some { s with emitted := s.emitted ++ all_sorted, actor := .Closed }
  | .Idle | .Panicked | .Flushing | .Closed => none

def take_bucket_if_current_timeout_task (key : String) (generation : Nat) :
    Option (Bucket ε) × State ε :=
  if s.timeout_tasks.get key = some generation then
    (s.buckets.get key, { s with buckets := s.buckets.remove key })
  else (none, s)

def remove_timeout_task_if_current (key : String) (generation : Nat) : State ε :=
  if s.timeout_tasks.get key = some generation then
    { s with timeout_tasks := s.timeout_tasks.remove key }
  else s

def moveTimer (i : Nat) (t : Timer ε) (stage : TimerStage ε) : State ε :=
  { s with timers := s.timers.set i { t with stage } }

/-- The next step of a timeout task. Its sleep may end at any time. -/
def fire (i : Nat) : Option (State ε) :=
  match s.timers[i]? with
  | none => none
  | some t =>
    match t.stage with
    | .Sleeping =>
      if t.generation ∈ s.cancelled then some (s.moveTimer i t .Gone)
      else some (s.moveTimer i t .Woken)
    | .Woken =>
      if s.shutdown_started then some (s.moveTimer i t .Gone)
      else some (s.moveTimer i t .Ready)
    | .Ready =>
      match s.take_bucket_if_current_timeout_task t.key t.generation with
      | (some bucket, s) => some (s.moveTimer i t (.Holding bucket))
      | (none, s) => some (s.moveTimer i t .Leaving)
    | .Holding bucket =>
      some { s.moveTimer i t .Leaving with
        emitted := s.emitted ++ [(t.key, p.drain_and_sort bucket)] }
    | .Leaving =>
      some ((s.remove_timeout_task_if_current t.key t.generation).moveTimer i t .Gone)
    | .Gone => none

/-- The actor takes one input after the other. The flush comes when the actor is done. -/
def step : Event ε → Option (State ε)
  | .accept input =>
    match s.actor with
    | .Idle => some (s.accept p input)
    | _ => none
  | .actor => s.advance p
  | .flush =>
    match s.actor with
    | .Idle | .Panicked => some { s with shutdown_started := true, actor := .Flushing }
    | _ => none
  | .snapshot all_keys =>
    match s.actor with
    | .Flushing =>
      if all_keys.Perm (s.buckets.rows.map (·.1)) then
        some { s with actor := .Cancelling all_keys [] }
      else none
    | _ => none
  | .timer i => s.fire p i

def run (p : BatchPolicy ε) (s : State ε) : List (Event ε) → Option (State ε)
  | [] => some s
  | e :: events => (s.step p e).bind fun s => run p s events

end State

/-! ## Every exchange is in one place -/

section

variable {i : Nat} {ε : Type} {p : BatchPolicy ε} {s s' : State ε} {bucket : Bucket ε}
  {t : Timer ε}

/-- The exchanges of a bucket under its key. -/
def arrivals (held : String × Bucket ε) : List (Arrival ε) :=
  held.2.exchanges.map fun ex => ⟨held.1, held.2.born, ex.1, ex.2⟩

def ActorStage.held : ActorStage ε → List (String × Bucket ε)
  | .Holding key bucket => [(key, bucket)]
  | .Cancelling _ all_sorted | .FlushTaking _ _ all_sorted | .Clearing all_sorted
  | .Dropping _ all_sorted => all_sorted
  | _ => []

def Timer.held (t : Timer ε) : List (String × Bucket ε) :=
  match t.stage with
  | .Holding bucket => [(t.key, bucket)]
  | _ => []

/-- The buckets that wait, those that someone took, and those that went out. -/
def State.holdings (s : State ε) : List (String × Bucket ε) :=
  s.buckets.rows ++ s.actor.held ++ s.timers.flatMap Timer.held ++ s.emitted

/-- What is in some buckets and which buckets they are, in any order. -/
def weigh (held : List (String × Bucket ε)) : Multiset (Arrival ε) × Multiset Nat :=
  (held.flatMap arrivals, held.map (·.2.born))

@[simp] theorem weigh_nil : weigh ([] : List (String × Bucket ε)) = 0 := rfl

@[simp] theorem weigh_append (a b : List (String × Bucket ε)) :
    weigh (a ++ b) = weigh a + weigh b := by
  simp [weigh, ← Multiset.coe_add]

theorem weigh_cons (h : String × Bucket ε) (held : List (String × Bucket ε)) :
    weigh (h :: held) = weigh [h] + weigh held := weigh_append [h] held

theorem weigh_of_perm {a b : List (String × Bucket ε)} (h : a.Perm b) : weigh a = weigh b := by
  have ha := Multiset.coe_eq_coe.mpr (h.flatMap_right arrivals)
  have hb := Multiset.coe_eq_coe.mpr (h.map fun held : String × Bucket ε => held.2.born)
  exact Prod.ext ha hb

theorem drain_and_sort_perm (p : BatchPolicy ε) (bucket : Bucket ε) :
    (p.drain_and_sort bucket).exchanges.Perm bucket.exchanges := by
  have hs := (mergeSort_perm
    (bucket.exchanges.map fun ex => ((p.sort_expr ex.2).getD .Null, ex))
    fun a b => cmp_values p.cmp_numbers p.json a.1 b.1 != .gt).map (·.2)
  simpa [BatchPolicy.drain_and_sort, Function.comp_def] using hs

@[simp] theorem drain_and_sort_born (p : BatchPolicy ε) (bucket : Bucket ε) :
    (p.drain_and_sort bucket).born = bucket.born := rfl

@[simp] theorem weigh_drain_and_sort (key : String) (bucket : Bucket ε) :
    weigh [(key, p.drain_and_sort bucket)] = weigh [(key, bucket)] := by
  have hp := (drain_and_sort_perm p bucket).map fun ex =>
    (⟨key, bucket.born, ex.1, ex.2⟩ : Arrival ε)
  refine Prod.ext ?_ rfl
  simpa only [weigh, arrivals, flatMap_singleton, drain_and_sort_born] using Multiset.coe_eq_coe.mpr hp

theorem weigh_remove {m : OrdMap String (Bucket ε)} {key : String} (h : m.get key = some bucket) :
    weigh m.rows = weigh (m.remove key).rows + weigh [(key, bucket)] := by
  rw [weigh_of_perm (perm_remove h), weigh_cons, add_comm]

theorem weigh_insert (m : OrdMap String (Bucket ε)) (key : String) (bucket : Bucket ε) :
    weigh (m.insert key bucket).rows = weigh (m.remove key).rows + weigh [(key, bucket)] := by
  rw [weigh_of_perm (perm_insert m key bucket), weigh_cons, add_comm]

theorem weigh_timers {timers : List (Timer ε)} (t' : Timer ε) (h : timers[i]? = some t) :
    weigh ((timers.set i t').flatMap Timer.held) + weigh t.held =
      weigh (timers.flatMap Timer.held) + weigh t'.held := by
  rw [← weigh_append, ← weigh_append]
  exact weigh_of_perm (flatMap_set_perm Timer.held h)

def State.weight (s : State ε) : Multiset (Arrival ε) × Multiset Nat := weigh s.holdings

theorem State.weight_eq (s : State ε) : s.weight = weigh s.buckets.rows + weigh s.actor.held +
    weigh (s.timers.flatMap Timer.held) + weigh s.emitted := by
  simp only [State.weight, State.holdings, weigh_append]

@[simp] theorem cancel_timeout_buckets (key : String) :
    (s.cancel_timeout key).buckets = s.buckets := by
  unfold State.cancel_timeout
  split <;> rfl

@[simp] theorem cancel_timeout_timers (key : String) :
    (s.cancel_timeout key).timers = s.timers := by
  unfold State.cancel_timeout
  split <;> rfl

@[simp] theorem cancel_timeout_emitted (key : String) :
    (s.cancel_timeout key).emitted = s.emitted := by
  unfold State.cancel_timeout
  split <;> rfl

@[simp] theorem cancel_timeout_accepted (key : String) :
    (s.cancel_timeout key).accepted = s.accepted := by
  unfold State.cancel_timeout
  split <;> rfl

@[simp] theorem cancel_timeout_buckets_born (key : String) :
    (s.cancel_timeout key).buckets_born = s.buckets_born := by
  unfold State.cancel_timeout
  split <;> rfl

@[simp] theorem cancel_timeout_timeout_generation (key : String) :
    (s.cancel_timeout key).timeout_generation = s.timeout_generation := by
  unfold State.cancel_timeout
  split <;> rfl

/-- All that a step of `accept` or `flush` can do. -/
inductive Advances (p : BatchPolicy ε) (s : State ε) : State ε → Prop where
  | arms {key : String} {born : Nat} (hactor : s.actor = .Pushed key born 1) :
      Advances p s { s with actor := .Arming key born 1 }
  | skips {key : String} {born count : Nat} (hactor : s.actor = .Pushed key born count) :
      Advances p s { s with actor := .Armed key count }
  | numbers {key : String} {born count : Nat} (hactor : s.actor = .Arming key born count)
      (hroom : s.timeout_generation < u64_max) :
      Advances p s { s with
        timeout_generation := s.timeout_generation + 1
        actor := .Inserting key born count (s.timeout_generation + 1) }
  | panics {key : String} {born count : Nat} (hactor : s.actor = .Arming key born count) :
      Advances p s { s with actor := .Panicked }
  | inserts {key : String} {born count generation : Nat}
      (hactor : s.actor = .Inserting key born count generation) :
      Advances p s { s with
        timeout_tasks := s.timeout_tasks.insert key generation
        actor := .Spawning key born count generation }
  | spawns {key : String} {born count generation : Nat}
      (hactor : s.actor = .Spawning key born count generation) :
      Advances p s { s with
        timers := s.timers ++ [⟨key, generation, born, .Sleeping⟩]
        actor := .Armed key count }
  | completes {key : String} {count : Nat} (hactor : s.actor = .Armed key count) :
      Advances p s { s.cancel_timeout key with actor := .Taking key }
  | waits {key : String} {count : Nat} (hactor : s.actor = .Armed key count) :
      Advances p s { s with actor := .Idle }
  | takes {key : String} {bucket : Bucket ε} (hactor : s.actor = .Taking key)
      (hbucket : s.buckets.get key = some bucket) :
      Advances p s { s with buckets := s.buckets.remove key, actor := .Holding key bucket }
  | comes_late {key : String} (hactor : s.actor = .Taking key) :
      Advances p s { s with actor := .Idle }
  | emits {key : String} {bucket : Bucket ε} (hactor : s.actor = .Holding key bucket) :
      Advances p s { s with
        emitted := s.emitted ++ [(key, p.drain_and_sort bucket)]
        actor := .Idle }
  | cancels {key : String} {all_keys : List String} {all_sorted : List (String × Bucket ε)}
      (hactor : s.actor = .Cancelling (key :: all_keys) all_sorted) :
      Advances p s { s.cancel_timeout key with actor := .FlushTaking key all_keys all_sorted }
  | has_all {all_sorted : List (String × Bucket ε)} (hactor : s.actor = .Cancelling [] all_sorted) :
      Advances p s { s with actor := .Clearing all_sorted }
  | flushes {key : String} {all_keys : List String} {all_sorted : List (String × Bucket ε)}
      {bucket : Bucket ε} (hactor : s.actor = .FlushTaking key all_keys all_sorted)
      (hbucket : s.buckets.get key = some bucket) :
      Advances p s { s with
        buckets := s.buckets.remove key
        actor := .Cancelling all_keys (all_sorted ++ [(key, p.drain_and_sort bucket)]) }
  | passes {key : String} {all_keys : List String} {all_sorted : List (String × Bucket ε)}
      (hactor : s.actor = .FlushTaking key all_keys all_sorted)
      (hbucket : s.buckets.get key = none) :
      Advances p s { s with actor := .Cancelling all_keys all_sorted }
  | clears {all_sorted : List (String × Bucket ε)} (hactor : s.actor = .Clearing all_sorted) :
      Advances p s { s with
        timeout_tasks := .empty
        actor := .Dropping (s.timeout_tasks.rows.map (·.2)) all_sorted }
  | drops {generation : Nat} {tasks : List Nat} {all_sorted : List (String × Bucket ε)}
      (hactor : s.actor = .Dropping (generation :: tasks) all_sorted) :
      Advances p s { s with
        cancelled := generation :: s.cancelled
        actor := .Dropping tasks all_sorted }
  | returns {all_sorted : List (String × Bucket ε)} (hactor : s.actor = .Dropping [] all_sorted) :
      Advances p s { s with emitted := s.emitted ++ all_sorted, actor := .Closed }

theorem advance_cases (h : s.advance p = some s') : Advances p s s' := by
  unfold State.advance at h
  split at h
  · rename_i key born count ha
    split at h
    · rename_i hf
      obtain ⟨rfl, -⟩ := hf
      split at h
      · exact some.inj h ▸ .arms ha
      · exact some.inj h ▸ .skips ha
    · exact some.inj h ▸ .skips ha
  · rename_i ha
    split at h
    · rename_i hr
      exact some.inj h ▸ .numbers ha hr
    · exact some.inj h ▸ .panics ha
  · rename_i ha
    exact some.inj h ▸ .inserts ha
  · rename_i ha
    exact some.inj h ▸ .spawns ha
  · rename_i ha
    split at h
    · exact some.inj h ▸ .completes ha
    · exact some.inj h ▸ .waits ha
  · rename_i ha
    split at h
    · rename_i hb
      exact some.inj h ▸ .takes ha hb
    · exact some.inj h ▸ .comes_late ha
  · rename_i ha
    exact some.inj h ▸ .emits ha
  · rename_i ha
    exact some.inj h ▸ .cancels ha
  · rename_i ha
    exact some.inj h ▸ .has_all ha
  · rename_i ha
    split at h
    · rename_i hb
      exact some.inj h ▸ .flushes ha hb
    · rename_i hb
      exact some.inj h ▸ .passes ha hb
  · rename_i ha
    exact some.inj h ▸ .clears ha
  · rename_i ha
    exact some.inj h ▸ .drops ha
  · rename_i ha
    exact some.inj h ▸ .returns ha
  all_goals simp at h

/-- A step that only moves buckets. -/
structure Moves (s s' : State ε) : Prop where
  weight : s'.weight = s.weight
  accepted : s'.accepted = s.accepted
  buckets_born : s'.buckets_born = s.buckets_born

theorem Advances.moves (h : Advances p s s') : Moves s s' := by
  cases h with
  | takes ha hb | flushes ha hb =>
    refine ⟨?_, rfl, rfl⟩
    simp only [State.weight_eq, ha, ActorStage.held, weigh_remove hb, weigh_append,
      weigh_drain_and_sort, weigh_nil]
    abel
  | emits ha | returns ha =>
    refine ⟨?_, rfl, rfl⟩
    simp only [State.weight_eq, ha, ActorStage.held, weigh_append, weigh_drain_and_sort, weigh_nil]
    abel
  | spawns ha =>
    exact ⟨by simp [State.weight_eq, ha, ActorStage.held, Timer.held], rfl, rfl⟩
  | completes ha | cancels ha =>
    exact ⟨by simp [State.weight_eq, ha, ActorStage.held], by simp, by simp⟩
  | arms ha | skips ha | numbers ha _ | panics ha | inserts ha | waits ha
  | comes_late ha | has_all ha | passes ha _ | clears ha | drops ha =>
    exact ⟨by simp [State.weight_eq, ha, ActorStage.held], rfl, rfl⟩

/-- All that a step of a timeout task can do. -/
inductive Fires (p : BatchPolicy ε) (s : State ε) (i : Nat) : State ε → Prop where
  | gives_up {t : Timer ε} (ht : s.timers[i]? = some t)
      (hstage : t.stage = .Sleeping ∨ t.stage = .Woken) : Fires p s i (s.moveTimer i t .Gone)
  | wakes {t : Timer ε} (ht : s.timers[i]? = some t) (hstage : t.stage = .Sleeping) :
      Fires p s i (s.moveTimer i t .Woken)
  | readies {t : Timer ε} (ht : s.timers[i]? = some t) (hstage : t.stage = .Woken) :
      Fires p s i (s.moveTimer i t .Ready)
  | takes {t : Timer ε} {bucket : Bucket ε} (ht : s.timers[i]? = some t)
      (hstage : t.stage = .Ready) (hcurrent : s.timeout_tasks.get t.key = some t.generation)
      (hbucket : s.buckets.get t.key = some bucket) :
      Fires p s i ({ s with buckets := s.buckets.remove t.key }.moveTimer i t (.Holding bucket))
  | finds_nothing {t : Timer ε} (ht : s.timers[i]? = some t) (hstage : t.stage = .Ready) :
      Fires p s i (s.moveTimer i t .Leaving)
  | emits {t : Timer ε} {bucket : Bucket ε} (ht : s.timers[i]? = some t)
      (hstage : t.stage = .Holding bucket) :
      Fires p s i { s.moveTimer i t .Leaving with
        emitted := s.emitted ++ [(t.key, p.drain_and_sort bucket)] }
  | removes {t : Timer ε} (ht : s.timers[i]? = some t) (hstage : t.stage = .Leaving)
      (hcurrent : s.timeout_tasks.get t.key = some t.generation) :
      Fires p s i
        ({ s with timeout_tasks := s.timeout_tasks.remove t.key }.moveTimer i t .Gone)
  | was_replaced {t : Timer ε} (ht : s.timers[i]? = some t) (hstage : t.stage = .Leaving) :
      Fires p s i (s.moveTimer i t .Gone)

theorem fire_cases (h : s.fire p i = some s') : Fires p s i s' := by
  unfold State.fire at h
  split at h
  · simp at h
  · rename_i t ht
    split at h
    · rename_i hs
      split at h
      · exact some.inj h ▸ .gives_up ht (.inl hs)
      · exact some.inj h ▸ .wakes ht hs
    · rename_i hs
      split at h
      · exact some.inj h ▸ .gives_up ht (.inr hs)
      · exact some.inj h ▸ .readies ht hs
    · rename_i hs
      unfold State.take_bucket_if_current_timeout_task at h
      by_cases hc : s.timeout_tasks.get t.key = some t.generation
      · rw [if_pos hc] at h
        cases hb : s.buckets.get t.key with
        | some bucket =>
          rw [hb] at h
          exact some.inj h ▸ .takes ht hs hc hb
        | none =>
          rw [hb, remove_of_none hb] at h
          exact some.inj h ▸ .finds_nothing ht hs
      · rw [if_neg hc] at h
        exact some.inj h ▸ .finds_nothing ht hs
    · rename_i hs
      exact some.inj h ▸ .emits ht hs
    · rename_i hs
      unfold State.remove_timeout_task_if_current at h
      by_cases hc : s.timeout_tasks.get t.key = some t.generation
      · rw [if_pos hc] at h
        exact some.inj h ▸ .removes ht hs hc
      · rw [if_neg hc] at h
        exact some.inj h ▸ .was_replaced ht hs
    · simp at h

theorem weigh_moveTimer (stage : TimerStage ε) (ht : s.timers[i]? = some t)
    (hb : t.held = []) (ha : Timer.held { t with stage } = []) :
    weigh ((s.timers.set i { t with stage }).flatMap Timer.held) =
      weigh (s.timers.flatMap Timer.held) := by
  have hs := weigh_timers { t with stage } ht
  simpa only [hb, ha, weigh_nil, add_zero] using hs

theorem moves_moveTimer {stage : TimerStage ε} (ht : s.timers[i]? = some t)
    (hb : t.held = []) (ha : Timer.held { t with stage } = []) :
    Moves s (s.moveTimer i t stage) := by
  refine ⟨?_, rfl, rfl⟩
  simp only [State.weight_eq, State.moveTimer, weigh_moveTimer _ ht hb ha]

theorem Fires.moves (h : Fires p s i s') : Moves s s' := by
  cases h with
  | gives_up ht hs =>
    refine moves_moveTimer ht ?_ rfl
    rcases hs with hs | hs <;> simp [Timer.held, hs]
  | wakes ht hs | readies ht hs | finds_nothing ht hs | was_replaced ht hs =>
    exact moves_moveTimer ht (by simp [Timer.held, hs]) rfl
  | removes ht hs hc =>
    refine ⟨?_, rfl, rfl⟩
    simp only [State.weight_eq, State.moveTimer,
      weigh_moveTimer .Gone ht (by simp [Timer.held, hs]) rfl]
  | @takes t bucket ht hs hc hb =>
    refine ⟨?_, rfl, rfl⟩
    have hse := weigh_timers { t with stage := .Holding bucket } ht
    simp only [Timer.held, hs, weigh_nil, add_zero] at hse
    simp only [State.weight_eq, State.moveTimer, hse, weigh_remove hb]
    abel
  | @emits t bucket ht hs =>
    refine ⟨?_, rfl, rfl⟩
    have hse := weigh_timers { t with stage := .Leaving } ht
    simp only [Timer.held, hs, weigh_nil, add_zero] at hse
    simp only [State.weight_eq, State.moveTimer, weigh_append, weigh_drain_and_sort, ← hse]
    abel

/-- Each exchange that was buffered is in one bucket, and each bucket is in one place. -/
structure Exact (s : State ε) : Prop where
  placed : s.weight.1 = s.accepted
  once : s.weight.2.Nodup
  below : ∀ n ∈ s.weight.2, n < s.buckets_born
  numbered : s.accepted.map Arrival.id = List.range s.accepted.length

theorem exact_new : Exact (State.new_cyclic : State ε) where
  placed := rfl
  once := Multiset.nodup_zero
  below := by simp [State.weight_eq, State.new_cyclic, ActorStage.held]
  numbered := rfl

theorem Exact.moves (h : Exact s) (hm : Moves s s') : Exact s' where
  placed := by
    rw [hm.weight, hm.accepted]
    exact h.placed
  once := by
    rw [hm.weight]
    exact h.once
  below := by
    rw [hm.weight, hm.buckets_born]
    exact h.below
  numbered := by
    rw [hm.accepted]
    exact h.numbered

theorem moves_put_back {key : String} (hb : s.buckets.get key = some bucket) :
    Moves s { s with buckets := s.buckets.insert key bucket } := by
  refine ⟨?_, rfl, rfl⟩
  simp only [State.weight_eq, weigh_insert, weigh_remove hb]

theorem Exact.opened (h : Exact s) {key : String} (hno : s.buckets.get key = none) :
    Exact { s with
      buckets := s.buckets.insert key ⟨s.buckets_born, []⟩
      buckets_born := s.buckets_born + 1 } := by
  have hw : State.weight { s with
      buckets := s.buckets.insert key ⟨s.buckets_born, []⟩
      buckets_born := s.buckets_born + 1 } = s.weight + (0, {s.buckets_born}) := by
    have hne : weigh [(key, (⟨s.buckets_born, []⟩ : Bucket ε))] = (0, {s.buckets_born}) := rfl
    simp only [State.weight_eq, weigh_insert, remove_of_none hno, hne]
    abel
  have hf : s.buckets_born ∉ s.weight.2 := by
    intro hm
    have := h.below _ hm
    omega
  refine ⟨?_, ?_, ?_, h.numbered⟩
  · simpa [hw] using h.placed
  · rw [hw, Prod.snd_add, add_comm, Multiset.singleton_add]
    exact Multiset.nodup_cons.mpr ⟨hf, h.once⟩
  · intro n hn
    rw [hw, Prod.snd_add, Multiset.mem_add, Multiset.mem_singleton] at hn
    rcases hn with hn | hn
    · exact Nat.lt_succ_of_lt (h.below n hn)
    · rw [hn]
      exact Nat.lt_succ_self _

theorem Exact.pushed (h : Exact s) {key : String} (input : ε) (count : Nat)
    (hb : s.buckets.get key = some bucket) (hi : s.actor = .Idle) :
    Exact { s with
      buckets := s.buckets.insert key
        { bucket with exchanges := bucket.exchanges ++ [(s.accepted.length, input)] }
      accepted := s.accepted ++ [⟨key, bucket.born, s.accepted.length, input⟩]
      actor := .Pushed key bucket.born count } := by
  have hn : weigh [(key, { bucket with
      exchanges := bucket.exchanges ++ [(s.accepted.length, input)] })] =
      weigh [(key, bucket)] + ({⟨key, bucket.born, s.accepted.length, input⟩}, 0) := by
    refine Prod.ext ?_ rfl
    simp [weigh, arrivals, ← Multiset.coe_add]
  have hw : State.weight { s with
      buckets := s.buckets.insert key
        { bucket with exchanges := bucket.exchanges ++ [(s.accepted.length, input)] }
      accepted := s.accepted ++ [⟨key, bucket.born, s.accepted.length, input⟩]
      actor := .Pushed key bucket.born count } =
      s.weight + ({⟨key, bucket.born, s.accepted.length, input⟩}, 0) := by
    simp only [State.weight_eq, weigh_insert, weigh_remove hb, hn, hi, ActorStage.held]
    abel
  refine ⟨?_, ?_, ?_, ?_⟩
  · rw [hw, Prod.fst_add, h.placed]
    simp [← Multiset.coe_add]
  · simpa [hw] using h.once
  · simpa [hw] using h.below
  · simp only [map_append, h.numbered, map_cons, map_nil, length_append,
      length_singleton, range_succ]

/-- A bucket with one more exchange. -/
def Bucket.with (bucket : Bucket ε) (id : Nat) (input : ε) : Bucket ε :=
  { bucket with exchanges := bucket.exchanges ++ [(id, input)] }

/-- All that the first section of `accept` can do. -/
inductive Accepts (p : BatchPolicy ε) (s : State ε) (input : ε) : State ε → Prop where
  | refuses : Accepts p s input s
  | is_full {key : String} {bucket : Bucket ε} (hbucket : s.buckets.get key = some bucket) :
      Accepts p s input { s with buckets := s.buckets.insert key bucket }
  | opens_for_nothing {key : String} (hnone : s.buckets.get key = none)
      (hzero : p.max_bucket_size = 0) :
      Accepts p s input { s with
        buckets := s.buckets.insert key ⟨s.buckets_born, []⟩
        buckets_born := s.buckets_born + 1 }
  | pushes {key : String} {bucket : Bucket ε} (hkey : p.eval_key input = some key)
      (hbucket : s.buckets.get key = some bucket)
      (hroom : bucket.exchanges.length < p.max_bucket_size) :
      Accepts p s input { s with
        buckets := s.buckets.insert key (bucket.with s.accepted.length input)
        accepted := s.accepted ++ [⟨key, bucket.born, s.accepted.length, input⟩]
        actor := .Pushed key bucket.born (bucket.exchanges.length + 1) }
  | opens {key : String} (hkey : p.eval_key input = some key)
      (hnone : s.buckets.get key = none) :
      Accepts p s input { s with
        buckets := s.buckets.insert key ⟨s.buckets_born, [(s.accepted.length, input)]⟩
        buckets_born := s.buckets_born + 1
        accepted := s.accepted ++ [⟨key, s.buckets_born, s.accepted.length, input⟩]
        actor := .Pushed key s.buckets_born 1 }

theorem accept_cases (p : BatchPolicy ε) (s : State ε) (input : ε) :
    Accepts p s input (s.accept p input) := by
  unfold State.accept
  split
  · exact .refuses
  · rename_i hk
    split
    · rename_i hb
      unfold State.push
      split
      · exact .is_full hb
      · rename_i hf
        simp only [length_append, length_singleton]
        exact .pushes hk hb (Nat.lt_of_not_le hf)
    · rename_i hn
      split
      · exact .refuses
      · unfold State.push
        split
        · rename_i hf
          exact .opens_for_nothing hn (Nat.le_zero.mp hf)
        · exact .opens hk hn

theorem Accepts.exact {input : ε} (h : Accepts p s input s') (he : Exact s)
    (hi : s.actor = .Idle) : Exact s' := by
  cases h with
  | refuses => exact he
  | is_full hb => exact he.moves (moves_put_back hb)
  | opens_for_nothing hn hzero => exact he.opened hn
  | pushes hk hb hr => exact he.pushed input _ hb hi
  | opens hk hn =>
    -- A bucket is opened, and then the exchange goes in.
    have hp := (he.opened hn).pushed input 1
      (get_insert_self _ _ _) hi
    rw [insert_insert] at hp
    exact hp

end

/-! ## A timer takes the bucket it was armed for -/

section

variable {generation born : Nat} {i : Nat} {ε : Type} {p : BatchPolicy ε} {s s' : State ε}
  {bucket : Bucket ε}

/-- The task has not come to its bucket yet. -/
def TimerStage.waits : TimerStage ε → Bool
  | .Sleeping | .Woken | .Ready => true
  | .Holding _ | .Leaving | .Gone => false

/-- The bucket of `key` is `born`, and no timer was armed for it. -/
structure Fresh (s : State ε) (key : String) (born : Nat) : Prop where
  stands : ∃ bucket, s.buckets.get key = some bucket ∧ bucket.born = born
  unarmed : ∀ t ∈ s.timers, t.armed_for ≠ born
  below : born < s.buckets_born

/-- No task has the generation, and none will get it. -/
def Unused (s : State ε) (generation : Nat) : Prop :=
  generation ≤ s.timeout_generation ∧ ∀ t ∈ s.timers, t.generation ≠ generation

def ActorStage.Fits (s : State ε) : ActorStage ε → Prop
  | .Pushed key born count => count = 1 → Fresh s key born
  | .Arming key born _ => Fresh s key born
  | .Inserting key born _ generation | .Spawning key born _ generation =>
    Fresh s key born ∧ Unused s generation
  | .Taking key | .FlushTaking key _ _ => s.timeout_tasks.get key = none
  | _ => True

/-- What holds of the buckets, the entries and the tasks. -/
structure Owned (p : BatchPolicy ε) (s : State ε) : Prop where
  filled : ∀ key bucket, s.buckets.get key = some bucket → bucket.exchanges = [] →
    p.max_bucket_size = 0
  generations : (s.timers.map Timer.generation).Nodup
  spawned : ∀ t ∈ s.timers, t.generation ≤ s.timeout_generation
  armed : ∀ t ∈ s.timers, t.armed_for < s.buckets_born
  owner : ∀ t ∈ s.timers, t.stage.waits = true →
    s.timeout_tasks.get t.key = some t.generation →
    ∃ bucket, s.buckets.get t.key = some bucket ∧ bucket.born = t.armed_for
  holder : ∀ t ∈ s.timers, ∀ bucket, t.stage = .Holding bucket → bucket.born = t.armed_for
  actor : s.actor.Fits s

theorem owned_new (p : BatchPolicy ε) : Owned p (State.new_cyclic : State ε) where
  filled := by simp [State.new_cyclic]
  generations := nodup_nil
  spawned := by simp [State.new_cyclic]
  armed := by simp [State.new_cyclic]
  owner := by simp [State.new_cyclic]
  holder := by simp [State.new_cyclic]
  actor := trivial

theorem Owned.keep (h : Owned p s) (hti : s'.timers = s.timers)
    (hg : s.timeout_generation ≤ s'.timeout_generation)
    (hbo : s.buckets_born ≤ s'.buckets_born)
    (hf : ∀ key bucket, s'.buckets.get key = some bucket → bucket.exchanges = [] →
      p.max_bucket_size = 0)
    (he : ∀ t ∈ s.timers, s'.timeout_tasks.get t.key = some t.generation →
      s.timeout_tasks.get t.key = some t.generation)
    (hs : ∀ t ∈ s.timers, s'.timeout_tasks.get t.key = some t.generation →
      ∀ bucket, s.buckets.get t.key = some bucket →
      ∃ bucket', s'.buckets.get t.key = some bucket' ∧ bucket'.born = bucket.born)
    (ha : s'.actor.Fits s') : Owned p s' := by
  refine ⟨hf, by rw [hti]; exact h.generations, ?_, ?_, ?_, ?_, ha⟩
  · intro t ht
    rw [hti] at ht
    exact Nat.le_trans (h.spawned t ht) hg
  · intro t ht
    rw [hti] at ht
    exact Nat.lt_of_lt_of_le (h.armed t ht) hbo
  · intro t ht hw hc
    rw [hti] at ht
    obtain ⟨bucket, hb, hfo⟩ := h.owner t ht hw (he t ht hc)
    obtain ⟨bucket', hb', hsa⟩ := hs t ht hc bucket hb
    exact ⟨bucket', hb', hsa.trans hfo⟩
  · intro t ht
    rw [hti] at ht
    exact h.holder t ht

theorem Owned.stay (h : Owned p s) (hbu : s'.buckets = s.buckets)
    (ht : s'.timeout_tasks = s.timeout_tasks) (hti : s'.timers = s.timers)
    (hg : s'.timeout_generation = s.timeout_generation)
    (hbo : s'.buckets_born = s.buckets_born) (ha : s'.actor.Fits s') : Owned p s' := by
  refine h.keep hti (by rw [hg]) (by rw [hbo]) ?_ ?_ ?_ ha
  · rw [hbu]
    exact h.filled
  · rw [ht]
    exact fun _ _ => id
  · intro t _ _ bucket hb
    exact ⟨bucket, by rw [hbu]; exact hb, rfl⟩

theorem Owned.lose (h : Owned p s) (hbu : s'.buckets = s.buckets)
    (ht : s'.timers = s.timers)
    (hg : s'.timeout_generation = s.timeout_generation)
    (hbo : s'.buckets_born = s.buckets_born)
    (hta : ∀ key generation, s'.timeout_tasks.get key = some generation →
      s.timeout_tasks.get key = some generation)
    (ha : s'.actor.Fits s') : Owned p s' := by
  refine h.keep ht (by rw [hg]) (by rw [hbo]) ?_ (fun t _ => hta _ _) ?_ ha
  · rw [hbu]
    exact h.filled
  · intro t _ _ bucket hb
    exact ⟨bucket, by rw [hbu]; exact hb, rfl⟩

theorem Owned.remove (h : Owned p s) {key : String} (hn : s.timeout_tasks.get key = none)
    (hbu : s'.buckets = s.buckets.remove key) (ht : s'.timeout_tasks = s.timeout_tasks)
    (hti : s'.timers = s.timers) (hg : s'.timeout_generation = s.timeout_generation)
    (hbo : s'.buckets_born = s.buckets_born) (ha : s'.actor.Fits s') : Owned p s' := by
  refine h.keep hti (by rw [hg]) (by rw [hbo]) ?_ ?_ ?_ ha
  · intro key' bucket hb
    rw [hbu] at hb
    exact h.filled key' bucket (get_of_remove hb)
  · rw [ht]
    exact fun _ _ => id
  · intro t _ hc bucket hb
    have hne : t.key ≠ key := by
      intro heq
      rw [ht, heq, hn] at hc
      simp at hc
    exact ⟨bucket, by rw [hbu, get_remove_of_ne _ hne]; exact hb, rfl⟩

theorem cancel_timeout_get_self (key : String) :
    (s.cancel_timeout key).timeout_tasks.get key = none := by
  unfold State.cancel_timeout
  split
  · exact get_remove_self _ _
  · assumption

theorem get_of_cancel_timeout {key key' : String}
    (h : (s.cancel_timeout key).timeout_tasks.get key' = some generation) :
    s.timeout_tasks.get key' = some generation := by
  unfold State.cancel_timeout at h
  split at h
  · exact get_of_remove h
  · exact h

theorem Fresh.congr {key : String} (h : Fresh s key born) (hb : s'.buckets = s.buckets)
    (ht : s'.timers = s.timers) (hbo : s'.buckets_born = s.buckets_born) :
    Fresh s' key born := by
  refine ⟨?_, ?_, ?_⟩
  · rw [hb]
    exact h.stands
  · rw [ht]
    exact h.unarmed
  · rw [hbo]
    exact h.below

theorem Owned.spawn (h : Owned p s) {key : String} {count : Nat} (hf : Fresh s key born)
    (hu : Unused s generation) :
    Owned p { s with
      timers := s.timers ++ [⟨key, generation, born, .Sleeping⟩]
      actor := .Armed key count } := by
  refine ⟨h.filled, ?_, ?_, ?_, ?_, ?_, trivial⟩
  · simp only [map_append, map_cons, map_nil]
    rw [nodup_append]
    refine ⟨h.generations, nodup_singleton _, ?_⟩
    intro g hg g' hg'
    obtain ⟨t, ht, rfl⟩ := List.mem_map.mp hg
    rw [mem_singleton.mp hg']
    exact hu.2 t ht
  · exact forall_mem_concat h.spawned hu.1
  · exact forall_mem_concat h.armed hf.below
  · exact forall_mem_concat h.owner fun _ _ => hf.stands
  · refine forall_mem_concat h.holder ?_
    intro bucket hs
    simp at hs

theorem Advances.owned (h : Advances p s s') (ho : Owned p s) : Owned p s' := by
  have hfi := ho.actor
  cases h with
  | arms ha =>
    rw [ha] at hfi
    exact ho.stay rfl rfl rfl rfl rfl ((hfi rfl).congr rfl rfl rfl)
  | numbers ha hr =>
    rw [ha] at hfi
    refine ho.keep rfl (Nat.le_succ _) le_rfl ho.filled (fun _ _ => id)
      (fun t _ _ bucket hb => ⟨bucket, hb, rfl⟩)
      ⟨Fresh.congr hfi rfl rfl rfl, Nat.le_refl _, ?_⟩
    intro t ht
    have := ho.spawned t ht
    omega
  | @inserts key born count generation ha =>
    rw [ha] at hfi
    obtain ⟨hf, hu⟩ := hfi
    have he : ∀ t ∈ s.timers,
        (s.timeout_tasks.insert key generation).get t.key = some t.generation →
        s.timeout_tasks.get t.key = some t.generation := by
      intro t ht hc
      by_cases hk : t.key = key
      · rw [hk, get_insert_self] at hc
        exact absurd (some.inj hc).symm (hu.2 t ht)
      · rwa [get_insert_of_ne _ _ hk] at hc
    exact ho.keep rfl le_rfl le_rfl ho.filled he
      (fun t _ _ bucket hb => ⟨bucket, hb, rfl⟩) ⟨hf.congr rfl rfl rfl, hu⟩
  | spawns ha =>
    rw [ha] at hfi
    exact ho.spawn hfi.1 hfi.2
  | completes ha | cancels ha =>
    exact ho.lose (by simp) (by simp) (by simp) (by simp) (fun _ _ => get_of_cancel_timeout)
      (cancel_timeout_get_self _)
  | takes ha hb | flushes ha hb =>
    rw [ha] at hfi
    exact ho.remove hfi rfl rfl rfl rfl rfl trivial
  | clears ha =>
    exact ho.lose rfl rfl rfl rfl (by simp) trivial
  | skips | panics | waits | comes_late | emits | has_all | passes | drops | returns =>
    exact ho.stay rfl rfl rfl rfl rfl trivial

theorem Owned.fresh_opened (h : Owned p s) {key : String}
    (hb : s'.buckets = s.buckets.insert key bucket) (hbu : bucket.born = s.buckets_born)
    (hti : s'.timers = s.timers) (hbo : s'.buckets_born = s.buckets_born + 1) :
    Fresh s' key s.buckets_born := by
  refine ⟨⟨bucket, by rw [hb]; exact get_insert_self _ _ _, hbu⟩, ?_, by omega⟩
  intro t ht
  rw [hti] at ht
  have := h.armed t ht
  omega

theorem Owned.insert (h : Owned p s) {key : String} {bucket : Bucket ε}
    (hb : s'.buckets = s.buckets.insert key bucket)
    (ht : s'.timeout_tasks = s.timeout_tasks) (hti : s'.timers = s.timers)
    (hg : s'.timeout_generation = s.timeout_generation)
    (hbo : s.buckets_born ≤ s'.buckets_born)
    (hf : bucket.exchanges = [] → p.max_bucket_size = 0)
    (hs : ∀ old, s.buckets.get key = some old → bucket.born = old.born)
    (ha : s'.actor.Fits s') : Owned p s' := by
  refine h.keep hti (by rw [hg]) hbo ?_ ?_ ?_ ha
  · intro key' bucket' hb'
    rw [hb] at hb'
    by_cases hk : key' = key
    · rw [hk, get_insert_self] at hb'
      cases hb'
      exact hf
    · rw [get_insert_of_ne _ _ hk] at hb'
      exact h.filled key' bucket' hb'
  · rw [ht]
    exact fun _ _ => id
  · intro t _ _ old hold
    by_cases hk : t.key = key
    · rw [hk] at hold
      exact ⟨bucket, by rw [hb, hk]; exact get_insert_self _ _ _, hs old hold⟩
    · exact ⟨old, by rw [hb, get_insert_of_ne _ _ hk]; exact hold, rfl⟩

theorem Accepts.owned {input : ε} (h : Accepts p s input s') (ho : Owned p s)
    (hi : s.actor = .Idle) : Owned p s' := by
  have hno : ∀ {key : String} {P : Bucket ε → Prop}, s.buckets.get key = none →
      ∀ old, s.buckets.get key = some old → P old := by
    intro key P hn old hold
    rw [hn] at hold
    simp at hold
  cases h with
  | refuses => exact ho
  | is_full hb =>
    refine ho.insert rfl rfl rfl rfl le_rfl (ho.filled _ _ hb) ?_ ?_
    · intro old hold
      rw [hb] at hold
      rw [some.inj hold]
    · simp only [hi]
      trivial
  | opens_for_nothing hn hzero =>
    refine ho.insert rfl rfl rfl rfl (Nat.le_succ _) (fun _ => hzero) (hno hn) ?_
    simp only [hi]
    trivial
  | pushes hk hb hr =>
    refine ho.insert rfl rfl rfl rfl le_rfl (by simp [Bucket.with]) ?_ ?_
    · intro old hold
      rw [hb] at hold
      rw [← some.inj hold]
      rfl
    · -- A bucket that stood was not empty, so this is not its first exchange.
      intro hon
      have he := length_eq_zero_iff.mp (Nat.succ.inj hon)
      have hzero := ho.filled _ _ hb he
      omega
  | opens hk hn =>
    exact ho.insert rfl rfl rfl rfl (Nat.le_succ _) (by simp) (hno hn)
      (fun _ => ho.fresh_opened rfl rfl rfl rfl)

/-- A step of a task: it moves on, and it may take the bucket or the entry that it owns. -/
structure TimerMoves (s s' : State ε) (i : Nat) (t : Timer ε) (stage : TimerStage ε) : Prop where
  there : s.timers[i]? = some t
  timers : s'.timers = s.timers.set i { t with stage }
  generation : s'.timeout_generation = s.timeout_generation
  born : s'.buckets_born = s.buckets_born
  actor : s'.actor = s.actor
  tasks : ∀ key generation, s'.timeout_tasks.get key = some generation →
    s.timeout_tasks.get key = some generation
  buckets : s'.buckets = s.buckets ∨ (s'.buckets = s.buckets.remove t.key ∧
    t.stage = .Ready ∧ s.timeout_tasks.get t.key = some t.generation ∧ stage.waits = false)

namespace TimerMoves

variable {i : Nat} {t : Timer ε} {stage : TimerStage ε} (hmove : TimerMoves s s' i t stage)

include hmove

theorem mem : t ∈ s.timers := mem_of_getElem? hmove.there

theorem get {key : String} {bucket : Bucket ε} (hb : s'.buckets.get key = some bucket) :
    s.buckets.get key = some bucket := by
  rcases hmove.buckets with heq | ⟨heq, -⟩
  · rwa [heq] at hb
  · rw [heq] at hb
    exact get_of_remove hb

theorem stands {key : String} (hb : s.buckets.get key = some bucket) :
    s'.buckets.get key = some bucket ∨ (key = t.key ∧ t.stage = .Ready ∧
      s.timeout_tasks.get t.key = some t.generation ∧ stage.waits = false) := by
  rcases hmove.buckets with heq | ⟨heq, hr⟩
  · rw [heq]
    exact .inl hb
  · by_cases hk : key = t.key
    · exact .inr ⟨hk, hr⟩
    · rw [heq, get_remove_of_ne _ hk]
      exact .inl hb

theorem generations : s'.timers.map Timer.generation = s.timers.map Timer.generation := by
  obtain ⟨hl, ht⟩ := List.getElem?_eq_some_iff.mp hmove.there
  rw [hmove.timers, map_set, ← ht]
  exact (congrArg _ (getElem_map _).symm).trans (set_getElem_self (by simpa using hl))

theorem timer_before {u : Timer ε} (hu : u ∈ s'.timers) :
    ∃ v ∈ s.timers, u.generation = v.generation ∧ u.armed_for = v.armed_for := by
  rw [hmove.timers] at hu
  rcases mem_or_eq_of_mem_set hu with hu | rfl
  · exact ⟨u, hu, rfl, rfl⟩
  · exact ⟨t, hmove.mem, rfl, rfl⟩

theorem fresh (h : Owned p s) {key : String} (hf : Fresh s key born) : Fresh s' key born := by
  obtain ⟨bucket, hb, hs⟩ := hf.stands
  refine ⟨⟨bucket, ?_, hs⟩, ?_, by rw [hmove.born]; exact hf.below⟩
  · rcases hmove.stands hb with hb' | ⟨hk, hr, hc, -⟩
    · exact hb'
    · -- The task would own a bucket that no task was armed for.
      obtain ⟨bucket', hb', hfo⟩ := h.owner t hmove.mem (by rw [hr]; rfl) hc
      rw [← hk, hb] at hb'
      cases hb'
      exact absurd (hfo.symm.trans hs) (hf.unarmed t hmove.mem)
  · intro u hu
    obtain ⟨v, hv, -, hfo⟩ := hmove.timer_before hu
    rw [hfo]
    exact hf.unarmed v hv

theorem unused (hun : Unused s generation) : Unused s' generation := by
  refine ⟨by rw [hmove.generation]; exact hun.1, ?_⟩
  intro u hu
  obtain ⟨v, hv, hg, -⟩ := hmove.timer_before hu
  rw [hg]
  exact hun.2 v hv

theorem owner (h : Owned p s) (hw : stage.waits = true → t.stage.waits = true) {u : Timer ε}
    (hu : u ∈ s'.timers) (huw : u.stage.waits = true)
    (hc : s'.timeout_tasks.get u.key = some u.generation) :
    ∃ bucket, s'.buckets.get u.key = some bucket ∧ bucket.born = u.armed_for := by
  rw [hmove.timers] at hu
  obtain ⟨j, hj⟩ := getElem?_of_mem hu
  rcases getElem?_set_cases hmove.there hj with ⟨-, rfl⟩ | ⟨hn, hj⟩
  · obtain ⟨bucket, hb, hf⟩ := h.owner t hmove.mem (hw huw) (hmove.tasks _ _ hc)
    rcases hmove.stands hb with hb' | ⟨-, -, -, hnot⟩
    · exact ⟨bucket, hb', hf⟩
    · simp only [hnot, Bool.false_eq_true] at huw
  · obtain ⟨bucket, hb, hf⟩ := h.owner u (mem_of_getElem? hj) huw (hmove.tasks _ _ hc)
    rcases hmove.stands hb with hb' | ⟨hk, -, ho, -⟩
    · exact ⟨bucket, hb', hf⟩
    · have hg : u.generation = t.generation := by
        rw [← hk, hmove.tasks _ _ hc] at ho
        exact some.inj ho
      have hl : j < (s.timers.map Timer.generation).length := by
        simpa using (List.getElem?_eq_some_iff.mp hj).1
      exact absurd ((getElem?_inj hl h.generations).mp (by simp [hmove.there, hj, hg])) hn

theorem fits (h : Owned p s) : s'.actor.Fits s' := by
  have hf := h.actor
  rw [hmove.actor]
  cases hs : s.actor with
  | Pushed key born count =>
    rw [hs] at hf
    exact fun ho => hmove.fresh h (hf ho)
  | Arming key born count =>
    rw [hs] at hf
    exact hmove.fresh h hf
  | Inserting key born count generation | Spawning key born count generation =>
    rw [hs] at hf
    exact ⟨hmove.fresh h hf.1, hmove.unused hf.2⟩
  | Taking key | FlushTaking key all_keys all_sorted =>
    rw [hs] at hf
    cases hg : s'.timeout_tasks.get key with
    | none => exact hg
    | some generation =>
      have hold := hmove.tasks _ _ hg
      rw [show s.timeout_tasks.get key = none from hf] at hold
      simp at hold
  | _ => trivial

end TimerMoves

theorem Owned.move (h : Owned p s) {t : Timer ε} {stage : TimerStage ε}
    (hmove : TimerMoves s s' i t stage) (hw : stage.waits = true → t.stage.waits = true)
    (hh : ∀ bucket, stage = .Holding bucket → bucket.born = t.armed_for) : Owned p s' where
  filled key bucket hb := h.filled key bucket (hmove.get hb)
  generations := by
    rw [hmove.generations]
    exact h.generations
  spawned u hu := by
    obtain ⟨v, hv, hg, -⟩ := hmove.timer_before hu
    rw [hg, hmove.generation]
    exact h.spawned v hv
  armed u hu := by
    obtain ⟨v, hv, -, hf⟩ := hmove.timer_before hu
    rw [hf, hmove.born]
    exact h.armed v hv
  owner u hu huw hc := hmove.owner h hw hu huw hc
  holder u hu bucket hs := by
    rw [hmove.timers] at hu
    rcases mem_or_eq_of_mem_set hu with hu | rfl
    · exact h.holder u hu bucket hs
    · exact hh bucket hs
  actor := hmove.fits h

theorem Fires.owned (h : Fires p s i s') (ho : Owned p s) : Owned p s' := by
  cases h with
  | gives_up ht hs | finds_nothing ht hs | emits ht hs | was_replaced ht hs =>
    exact ho.move ⟨ht, rfl, rfl, rfl, rfl, fun _ _ => id, .inl rfl⟩ (by simp [TimerStage.waits])
      (by simp)
  | wakes ht hs | readies ht hs =>
    exact ho.move ⟨ht, rfl, rfl, rfl, rfl, fun _ _ => id, .inl rfl⟩
      (by simp [TimerStage.waits, hs]) (by simp)
  | takes ht hs hc hb =>
    refine ho.move ⟨ht, rfl, rfl, rfl, rfl, fun _ _ => id,
      .inr ⟨rfl, hs, hc, rfl⟩⟩ (by simp [TimerStage.waits]) ?_
    intro bucket heq
    obtain rfl := TimerStage.Holding.inj heq
    obtain ⟨bucket', hb', hf⟩ := ho.owner _ (mem_of_getElem? ht) (by rw [hs]; rfl) hc
    rw [hb] at hb'
    rw [some.inj hb']
    exact hf
  | removes ht hs hc =>
    exact ho.move ⟨ht, rfl, rfl, rfl, rfl, fun _ _ => get_of_remove, .inl rfl⟩
      (by simp [TimerStage.waits]) (by simp)

end

/-! ## The end -/

section

variable {ε : Type} {p : BatchPolicy ε} {s s' : State ε} {input : ε} {i : Nat}

/-- The keys that a flush has still to look at. -/
def ActorStage.left : ActorStage ε → Option (List String)
  | .Cancelling all_keys _ => some all_keys
  | .FlushTaking key all_keys _ => some (key :: all_keys)
  | .Clearing _ | .Dropping _ _ | .Closed => some []
  | _ => none

/-- A flush passes no bucket over. -/
def Covered (s : State ε) : Prop :=
  ∀ keys, s.actor.left = some keys → ∀ r ∈ s.buckets.rows, r.1 ∈ keys

theorem Advances.covered (h : Advances p s s') (hc : Covered s) : Covered s' := by
  intro keys hl r hr
  cases h with
  | cancels ha =>
    rw [cancel_timeout_buckets] at hr
    exact hc keys (by rw [ha]; exact hl) r hr
  | flushes ha hb =>
    cases hl
    obtain ⟨hr, hn⟩ := (mem_remove _ _ _).mp hr
    exact mem_of_ne_of_mem hn (hc _ (by rw [ha]; rfl) r hr)
  | passes ha hb =>
    cases hl
    have hn := get_eq_none.mp hb r hr
    exact mem_of_ne_of_mem hn (hc _ (by rw [ha]; rfl) r hr)
  | has_all ha | clears ha | drops ha | returns ha =>
    exact hc keys (by rw [ha]; exact hl) r hr
  | _ => simp [ActorStage.left] at hl

theorem Fires.covered (h : Fires p s i s') (hco : Covered s) : Covered s' := by
  intro keys hl r hr
  cases h with
  | takes ht hs hc hb =>
    exact hco keys hl r ((mem_remove _ _ _).mp hr).1
  | _ => exact hco keys hl r hr

/-- What every run keeps. -/
structure Inv (p : BatchPolicy ε) (s : State ε) : Prop where
  once : Exact s
  owned : Owned p s
  covered : Covered s
  keyed : ∀ a ∈ s.accepted, p.eval_key a.exchange = some a.key

theorem inv_new (p : BatchPolicy ε) : Inv p (State.new_cyclic : State ε) where
  once := exact_new
  owned := owned_new p
  covered := by simp [Covered, State.new_cyclic]
  keyed := by simp [State.new_cyclic]

theorem Accepts.keyed (h : Accepts p s input s')
    (hk : ∀ a ∈ s.accepted, p.eval_key a.exchange = some a.key) :
    ∀ a ∈ s'.accepted, p.eval_key a.exchange = some a.key := by
  intro a ha
  cases h with
  | pushes hke _ _ | opens hke _ =>
    rcases mem_append.mp ha with ha | ha
    · exact hk a ha
    · rw [mem_singleton.mp ha]
      exact hke
  | _ => exact hk a ha

theorem Accepts.covered (h : Accepts p s input s') (hi : s.actor = .Idle) : Covered s' := by
  intro keys hl
  cases h <;> simp [ActorStage.left, hi] at hl

theorem Inv.turn (h : Inv p s) {actor : ActorStage ε} {started : Bool}
    (hh : actor.held = s.actor.held)
    (hf : actor.Fits { s with shutdown_started := started, actor })
    (hl : ∀ keys, actor.left = some keys → ∀ r ∈ s.buckets.rows, r.1 ∈ keys) :
    Inv p { s with shutdown_started := started, actor } := by
  have hm : Moves s { s with shutdown_started := started, actor } := by
    refine ⟨?_, rfl, rfl⟩
    simp only [State.weight_eq, hh]
  exact ⟨h.once.moves hm, h.owned.stay rfl rfl rfl rfl rfl hf, hl, h.keyed⟩

theorem Inv.step (h : Inv p s) (e : Event ε) (hs : s.step p e = some s') : Inv p s' := by
  cases e with
  | accept input =>
    simp only [State.step] at hs
    split at hs
    · rename_i hi
      rw [← some.inj hs]
      have ha := accept_cases p s input
      exact ⟨ha.exact h.once hi, ha.owned h.owned hi, ha.covered hi, ha.keyed h.keyed⟩
    · simp at hs
  | actor =>
    have had := advance_cases hs
    refine ⟨h.once.moves had.moves, had.owned h.owned, had.covered h.covered, ?_⟩
    rw [had.moves.accepted]
    exact h.keyed
  | flush =>
    simp only [State.step] at hs
    split at hs
    · rename_i hac
      rw [← some.inj hs]
      exact h.turn (by rw [hac]; rfl) trivial (by simp [ActorStage.left])
    · rename_i hac
      rw [← some.inj hs]
      exact h.turn (by rw [hac]; rfl) trivial (by simp [ActorStage.left])
    · simp at hs
  | snapshot all_keys =>
    simp only [State.step] at hs
    split at hs
    · rename_i hac
      split at hs
      · rename_i hp
        rw [← some.inj hs]
        refine h.turn (by rw [hac]; rfl) trivial ?_
        intro keys hl r hr
        cases hl
        exact hp.mem_iff.mpr (List.mem_map_of_mem hr)
      · simp at hs
    · simp at hs
  | timer i =>
    have hf := fire_cases hs
    refine ⟨h.once.moves hf.moves, hf.owned h.owned, hf.covered h.covered, ?_⟩
    rw [hf.moves.accepted]
    exact h.keyed

theorem Inv.run (h : Inv p s) (events : List (Event ε)) (hr : s.run p events = some s') :
    Inv p s' := by
  induction events generalizing s with
  | nil =>
    cases hr
    exact h
  | cons e events ih =>
    obtain ⟨middle, hs, hr⟩ := bind_eq_some_iff.mp hr
    exact ih (h.step e hs) hr

/-- The flush is through, and no task holds a bucket. -/
def State.Finished (s : State ε) : Prop := s.actor = .Closed ∧ ∀ t ∈ s.timers, t.held = []

theorem Inv.weight_of_finished (h : Inv p s) (hf : s.Finished) : s.weight = weigh s.emitted := by
  have hro : s.buckets.rows = [] := by
    rw [eq_nil_iff_forall_not_mem]
    intro r hr
    simpa using h.covered [] (by rw [hf.1]; rfl) r hr
  have ht : s.timers.flatMap Timer.held = [] := flatMap_eq_nil_iff.mpr hf.2
  rw [State.weight_eq, hro, ht, hf.1]
  simp [ActorStage.held]

/-- How far the actor is from the end of its flush. -/
def State.distance (s : State ε) : Nat :=
  let tasks := s.timeout_tasks.rows.length
  let rows := s.buckets.rows.length
  match s.actor with
  | .Closed => 0
  | .Dropping entries _ => entries.length + 1
  | .Clearing _ => tasks + 2
  | .Cancelling all_keys _ => tasks + 2 * all_keys.length + 3
  | .FlushTaking _ all_keys _ => tasks + 2 * all_keys.length + 4
  | .Flushing => tasks + 2 * rows + 4
  | .Idle | .Panicked => tasks + 2 * rows + 5
  | .Holding _ _ => tasks + 2 * rows + 6
  | .Taking _ => tasks + 2 * rows + 7
  | .Armed _ _ => tasks + 2 * rows + 8
  | .Spawning _ _ _ _ => tasks + 2 * rows + 9
  | .Inserting _ _ _ _ => tasks + 2 * rows + 11
  | .Arming _ _ _ => tasks + 2 * rows + 12
  | .Pushed _ _ _ => tasks + 2 * rows + 13

theorem length_cancel_timeout_le (key : String) :
    (s.cancel_timeout key).timeout_tasks.rows.length ≤ s.timeout_tasks.rows.length := by
  unfold State.cancel_timeout
  split
  · exact length_remove_le _ _
  · exact le_rfl

theorem Advances.nearer (h : Advances p s s') : s'.distance < s.distance := by
  cases h with
  | inserts ha =>
    have := length_insert_le s.timeout_tasks
    simp only [State.distance, ha]
    grind
  | @completes key _ ha | @cancels key _ _ ha =>
    have := length_cancel_timeout_le (s := s) key
    simp only [State.distance, ha, cancel_timeout_buckets, length_cons]
    omega
  | @takes key bucket ha hb =>
    have := length_remove_le s.buckets key
    simp only [State.distance, ha]
    omega
  | clears ha => simp [State.distance, ha]
  | arms ha | skips ha | numbers ha | panics ha | spawns ha | waits ha
  | comes_late ha | emits ha | has_all ha | flushes ha | passes ha
  | drops ha | returns ha =>
    simp only [State.distance, ha, length_cons, length_nil]
    omega

/-- Until the flush is through, the actor or the shutdown has a step. -/
theorem exists_nearer (p : BatchPolicy ε) (s : State ε) (h : s.actor ≠ .Closed) :
    ∃ e s', s.step p e = some s' ∧ s'.distance < s.distance := by
  have ha : s.advance p ≠ none → ∃ e s', s.step p e = some s' ∧ s'.distance < s.distance := by
    intro hs
    obtain ⟨s', hs'⟩ := ne_none_iff_exists'.mp hs
    exact ⟨.actor, s', hs', (advance_cases hs').nearer⟩
  cases hac : s.actor with
  | Closed => exact absurd hac h
  | Idle | Panicked =>
    refine ⟨.flush, { s with shutdown_started := true, actor := .Flushing }, ?_, ?_⟩
    · simp [State.step, hac]
    · simp [State.distance, hac]
  | Flushing =>
    refine ⟨.snapshot (s.buckets.rows.map (·.1)),
      { s with actor := .Cancelling (s.buckets.rows.map (·.1)) [] }, ?_, ?_⟩
    · simp [State.step, hac]
    · simp [State.distance, hac]
  | Cancelling all_keys all_sorted =>
    cases all_keys <;> exact ha (by simp [State.advance, hac])
  | Dropping entries all_sorted =>
    cases entries <;> exact ha (by simp [State.advance, hac])
  | Taking key | FlushTaking key all_keys all_sorted =>
    refine ha ?_
    cases hb : s.buckets.get key <;> simp [State.advance, hac, hb]
  | Pushed key born count | Arming key born count | Armed key count =>
    refine ha ?_
    simp only [State.advance, hac]
    repeat' split
    all_goals simp
  | _ => exact ha (by simp [State.advance, hac])

theorem State.run_append {events events' : List (Event ε)} (h : s.run p events = some s') :
    s.run p (events ++ events') = s'.run p events' := by
  induction events generalizing s with
  | nil =>
    cases h
    rfl
  | cons e events ih =>
    obtain ⟨middle, hs, hr⟩ := bind_eq_some_iff.mp h
    simp only [cons_append, State.run, hs, bind_some]
    exact ih hr

section

variable (p : BatchPolicy ε) (s : State ε)

theorem can_close : ∃ events s', s.run p events = some s' ∧ s'.actor = .Closed := by
  generalize hn : s.distance = n
  induction n using Nat.strongRecOn generalizing s with
  | ind n ih =>
    by_cases hc : s.actor = .Closed
    · exact ⟨[], s, rfl, hc⟩
    · obtain ⟨e, s₁, hs, hl⟩ := exists_nearer p s hc
      obtain ⟨events, s', hr, hs'⟩ := ih s₁.distance (by omega) s₁ rfl
      exact ⟨e :: events, s', by simp [State.run, hs, hr], hs'⟩

/-- The tasks that hold a bucket. -/
def Timer.holds (t : Timer ε) : Bool := !t.held.isEmpty

theorem can_empty :
    ∃ events s', s.run p events = some s' ∧ s'.actor = s.actor ∧ ∀ t ∈ s'.timers, t.held = [] := by
  generalize hn : s.timers.countP Timer.holds = n
  induction n generalizing s with
  | zero =>
    refine ⟨[], s, rfl, rfl, ?_⟩
    intro t ht
    simpa [Timer.holds] using countP_eq_zero.mp hn t ht
  | succ n ih =>
    obtain ⟨t, hm, hh⟩ := countP_pos_iff.mp (by omega : 0 < s.timers.countP Timer.holds)
    obtain ⟨i, hi⟩ := getElem?_of_mem hm
    obtain ⟨bucket, hs⟩ : ∃ bucket, t.stage = .Holding bucket := by
      cases hs : t.stage <;> simp [Timer.holds, Timer.held, hs] at hh ⊢
    have hc := countP_set_add (a := { t with stage := .Leaving }) Timer.holds hi
    have ha : Timer.holds ({ t with stage := .Leaving } : Timer ε) = false := rfl
    simp only [hh, ha, if_true, Bool.false_eq_true, if_false] at hc
    obtain ⟨events, s', hr, hac, hno⟩ := ih
      { s.moveTimer i t .Leaving with
        emitted := s.emitted ++ [(t.key, p.drain_and_sort bucket)] }
      (by simp only [State.moveTimer]; omega)
    refine ⟨.timer i :: events, s', ?_, hac, hno⟩
    simp only [State.run, State.step, State.fire, hi, hs, bind_some]
    exact hr

theorem can_finish : ∃ events s', s.run p events = some s' ∧ s'.Finished := by
  obtain ⟨events, s₁, hr, hc⟩ := can_close p s
  obtain ⟨events', s', hr', ha, hn⟩ := can_empty p s₁
  refine ⟨events ++ events', s', ?_, ha.trans hc, hn⟩
  rw [State.run_append hr]
  exact hr'

end

/-- The buckets hold what was accepted, each exchange once and under its own key and
bucket, and no bucket comes twice. -/
structure Once (p : BatchPolicy ε) (held : List (String × Bucket ε)) (accepted : List (Arrival ε)) :
    Prop where
  placed : (held.flatMap arrivals).Perm accepted
  numbers : (accepted.map Arrival.id).Nodup
  keys : ∀ a ∈ accepted, p.eval_key a.exchange = some a.key
  buckets : (held.map (·.2.born)).Nodup

theorem Inv.once_of_weight (h : Inv p s) {held : List (String × Bucket ε)}
    (hw : s.weight = weigh held) : Once p held s.accepted := by
  refine ⟨?_, ?_, h.keyed, ?_⟩
  · have hp := h.once.placed
    rw [hw] at hp
    exact Multiset.coe_eq_coe.mp hp
  · rw [h.once.numbered]
    exact nodup_range
  · have ho := h.once.once
    rw [hw] at ho
    exact Multiset.coe_nodup.mp ho

/-- A task takes no bucket but the one it was armed for, and removes no entry but its own. -/
structure NoStale (p : BatchPolicy ε) (s : State ε) : Prop where
  drains_own : ∀ t ∈ s.timers, ∀ bucket, t.stage = .Holding bucket → bucket.born = t.armed_for
  distinct : (s.timers.map Timer.generation).Nodup
  removes_own : ∀ i t s', s.timers[i]? = some t → s.step p (.timer i) = some s' →
    ∀ key generation, s.timeout_tasks.get key = some generation → generation ≠ t.generation →
    s'.timeout_tasks.get key = some generation

theorem Fires.removes_own {t : Timer ε} (h : Fires p s i s') (ht : s.timers[i]? = some t)
    {key : String} {generation : Nat} (he : s.timeout_tasks.get key = some generation)
    (ho : generation ≠ t.generation) : s'.timeout_tasks.get key = some generation := by
  cases h with
  | @removes t' ht' hs hc =>
    rw [ht] at ht'
    cases ht'
    have hn : key ≠ t.key := by
      intro hk
      rw [hk, hc] at he
      exact ho (some.inj he).symm
    exact (get_remove_of_ne _ hn).trans he
  | _ => exact he

/-- On every run, each exchange that was buffered is in one bucket of its key, and no timer
that has become stale takes a newer bucket or entry. At the end each of them is in one
batch that went out, and every run can be brought to its end. -/
theorem every_exchange_leaves_in_one_batch (p : BatchPolicy ε) (events : List (Event ε))
    (s : State ε) (hrun : State.new_cyclic.run p events = some s) :
    Once p s.holdings s.accepted ∧ NoStale p s ∧ (s.Finished → Once p s.emitted s.accepted) ∧
      ∃ events' s', s.run p events' = some s' ∧ s'.Finished := by
  have hinv := (inv_new p).run events hrun
  refine ⟨hinv.once_of_weight rfl, ⟨hinv.owned.holder, hinv.owned.generations, ?_⟩, ?_,
    can_finish p s⟩
  · intro i t s' ht hs key generation he ho
    exact (fire_cases hs).removes_own ht he ho
  · intro hf
    exact hinv.once_of_weight (hinv.weight_of_finished hf)

/-- All exchanges have one key, and a bucket is full with two. -/
def pairs : BatchPolicy Nat :=
  ⟨fun _ => some "k", fun _ => none, fun _ _ => .eq, fun _ => "", .SizeOrTimeout 2 100, 10, 10, 10⟩

/-- A timer passes its checks, its bucket fills up, and the key gets a new bucket and a new
timer before the old one goes on. -/
def overtaken : List (Event Nat) :=
  [[.accept 1], List.replicate 5 .actor, [.timer 0, .timer 0], [.accept 2],
    List.replicate 4 .actor, [.accept 3], List.replicate 5 .actor, [.timer 0, .timer 0]].flatten

/-- The old timer takes nothing. -/
theorem a_stale_timer_takes_nothing :
    ∃ s, State.new_cyclic.run pairs overtaken = some s ∧ NoStale pairs s ∧
      Once pairs s.holdings s.accepted ∧ s.accepted.length = 3 ∧ s.emitted.length = 1 := by
  have hc : (State.new_cyclic.run pairs overtaken).map
      (fun s => (s.accepted.length, s.emitted.length)) = some (3, 1) := by decide +kernel
  obtain ⟨s, hs, hc⟩ := map_eq_some_iff.mp hc
  obtain ⟨ha, he⟩ := Prod.mk.inj hc
  have h := every_exchange_leaves_in_one_batch pairs overtaken s hs
  exact ⟨s, hs, h.2.1, h.1, ha, he⟩

end

end camel_processor.resequencer.batch
