-- Groups that are complete after `n` exchanges, in the aggregator and in the batch resequencer.
-- Neither `AggregatorConfig::validate` nor the DSL compares `n` with the cap of a bucket, so a
-- group is complete at its last submit exactly as far as the caps allow.
import RustCamel.Processor.Aggregator
import RustCamel.Processor.BatchResequencer
import Mathlib.Data.List.Chain

open List Option OrdMap

theorem OrdMap.remove_alone {V : Type} (key : String) (value : V) :
    (OrdMap.empty.insert key value).remove key = .empty :=
  OrdMap.ext (by simp [OrdMap.remove, OrdMap.insert])

namespace camel_processor.aggregator

open camel_api (Exchange Value)
open camel_processor.multicast_segment (textExchange)

/-! ## The aggregator -/

inductive ConfigValidationError where
  | AggregatorMissingMemoryBound
  | AggregatorTimeoutRequiresTtl

variable (config : AggregatorConfig)

def AggregatorConfig.validate : Except ConfigValidationError Unit :=
  let has_timeout := has_timeout_condition config.completion
  if !(config.max_buckets.isSome || has_timeout || config.bucket_ttl.isSome) then
    .error .AggregatorMissingMemoryBound
  else if has_timeout && config.bucket_ttl.isNone then .error .AggregatorTimeoutRequiresTtl
  else .ok ()

/-- The settings complete a group after `n` exchanges, or when a timer fires. -/
def CompletionMode.CompletesAt (n : Nat) : CompletionMode → Prop
  | .Single cond => cond = .Size n
  | .Any conditions => .Size n ∈ conditions ∧
      ∀ cond ∈ conditions, (∃ m, cond = .Size m ∧ n ≤ m) ∨ cond.is_timeout = true

/-- An exchange with the time of its submit. -/
abbrev Timed := Nat × Exchange

/-- The states of a new instance that has got these submits, with the steps that a submit takes
after its exchange went in, and no other event. -/
inductive Submitted : List Timed → State → Prop
  | new : Submitted [] .new
  | submit {subs : List Timed} {s : State} (now : Nat) (exchange : Exchange) (claim : Option Nat)
      (h : Submitted subs s) :
      Submitted (subs ++ [(now, exchange)]) (s.submit_with_claim config now exchange claim).2
  | advance {subs : List Timed} {s s' : State} {i : Nat} (h : Submitted subs s)
      (hstep : s.advance config i = some s') : Submitted subs s'

/-- The submits have one key, and none of them comes so late that the bucket has expired. -/
structure OneGroup (key_value : Value) (subs : List Timed) : Prop where
  keyed : ∀ sub ∈ subs, config.extract_correlation_key sub.2 = .ok key_value
  answered : ∀ sub ∈ subs, ∃ satisfied, config.evaluate_completion_predicate sub.2 = .ok satisfied
  prompt : ∀ ttl, config.bucket_ttl = some ttl → subs.IsChain fun a b => b.1 - a.1 < ttl

/-- A cap does not come before the last of `n` exchanges. -/
structure Roomy (n : Nat) : Prop where
  buckets : ∀ max, config.max_buckets = some max → 1 ≤ max
  size : ∀ max, config.max_bucket_size = some max → n = 1 ∨ n ≤ max

/-- The state after the submits of one group: it waits for more, or it went out whole. -/
structure Filled (key : String) (n : Nat) (subs : List Timed) (s : State) : Prop where
  accepted : s.accepted.length = subs.length
  waits : subs.length < n → s.emitted = [] ∧
    if subs = [] then s.buckets = .empty
    else ∃ bucket, s.buckets = OrdMap.empty.insert key bucket ∧
      bucket.exchanges.map (·.2) = subs.map (·.2) ∧
      subs.getLast?.map (·.1) = some bucket.last_updated
  completes : subs.length = n → s.buckets = .empty ∧
    ∃ e, s.emitted = [e] ∧ e.key = key ∧ e.exchanges.map (·.2) = subs.map (·.2)

variable {config} {n : Nat} {key : String} {key_value : Value} {subs : List Timed} {s s' : State}

theorem check_any_eq (exchanges : List Exchange) (satisfied : Bool)
    (conditions : List CompletionCondition) : (check_any exchanges satisfied conditions).1 =
      conditions.any fun c => !c.is_timeout && (check_single c exchanges satisfied).1 := by
  induction conditions with
  | nil => rfl
  | cons cond conditions ih =>
    rw [any_cons, check_any]
    split
    · simp [*]
    · split <;> simp_all

theorem check_completes_at {mode : CompletionMode} (h : mode.CompletesAt n)
    (exchanges : List Exchange) (satisfied : Bool) :
    (check_sync_completion mode exchanges satisfied).1 = true ↔ n ≤ exchanges.length := by
  cases mode with
  | Single cond =>
    cases h
    exact decide_eq_true_iff
  | Any conditions =>
    obtain ⟨hme, ha⟩ := h
    rw [check_sync_completion, check_any_eq, List.any_eq_true]
    constructor
    · rintro ⟨cond, hc, hch⟩
      rcases ha cond hc with ⟨m, rfl, hm⟩ | ht
      · exact hm.trans (by simpa [CompletionCondition.is_timeout, check_single] using hch)
      · simp [ht] at hch
    · intro hle
      exact ⟨_, hme, by simpa [CompletionCondition.is_timeout, check_single] using hle⟩

theorem Filled.congr (h : Filled key n subs s) (hb : s'.buckets = s.buckets)
    (he : s'.emitted = s.emitted) (ha : s'.accepted = s.accepted) :
    Filled key n subs s' :=
  ⟨ha ▸ h.accepted, hb ▸ he ▸ h.waits, hb ▸ he ▸ h.completes⟩

theorem Filled.advance {i : Nat} (h : Filled key n subs s) (hs : s.advance config i = some s') :
    Filled key n subs s' := by
  unfold State.advance at hs
  split at hs
  · cases hs
  · split at hs
    case h_7 =>
      cases hs
      apply h.congr <;> simp [State.moveSubmit]
    case h_9 => cases hs
    all_goals try split at hs
    all_goals
      cases hs
      exact h.congr rfl rfl rfl

variable {now : Nat} {exchange : Exchange} {claim : Option Nat}

/-- The bucket that the next exchange finds. -/
theorem Filled.bucket (h : Filled key n subs s) (hl : subs.length < n) (now : Nat) :
    ((s.buckets.get key).getD (.new now)).exchanges.map (·.2) = subs.map (·.2) ∧
      (∀ row ∈ s.buckets.rows, subs.getLast?.map (·.1) = some row.2.last_updated) ∧
      (s.buckets.contains_key key = false → s.buckets.rows = []) ∧
      ∀ bucket, s.buckets.get key = some bucket → subs ≠ [] := by
  obtain ⟨-, hw⟩ := h.waits hl
  split at hw
  · rename_i hnil
    rw [hw, hnil]
    exact ⟨rfl, by simp, fun _ => rfl, by simp⟩
  · rename_i hs
    obtain ⟨bucket, hb, he, hlast⟩ := hw
    rw [hb]
    refine ⟨by simpa using he, ?_, ?_, fun _ _ => hs⟩
    · intro row hr
      simp only [mem_insert, rows_empty, not_mem_nil, false_and, or_false] at hr
      rw [hr]
      exact hlast
    · intro hn
      simp [OrdMap.contains_key, OrdMap.insert] at hn

theorem Filled.evict (h : Filled key n subs s) (hl : subs.length < n)
    (ho : OneGroup config key_value (subs ++ [(now, exchange)])) :
    Filled key n subs (s.evict config now) := by
  unfold State.evict
  cases ht : config.bucket_ttl with
  | none => exact h
  | some ttl =>
    refine h.congr (OrdMap.ext (filter_eq_self.mpr ?_)) rfl rfl
    intro row hr
    obtain ⟨sub, hs, hlast⟩ := map_eq_some_iff.mp ((h.bucket hl now).2.1 row hr)
    have hg := (isChain_append.mp (ho.prompt ttl ht)).2.2 sub hs _ rfl
    simp only [hlast] at hg
    simpa [Bucket.is_expired] using hg

/-- No cap stands in the way of the next exchange. -/
theorem Filled.enter (h : Filled key n subs s) (hlt : subs.length < n) (hr : Roomy config n)
    (hk : config.to_string key_value = key) (satisfied : Bool) :
    s.enter config now key_value satisfied exchange claim =
      (none, s.push config now key_value satisfied exchange claim) := by
  obtain ⟨he, -, hem, hs⟩ := h.bucket hlt now
  have hl := congrArg length he
  rw [length_map, length_map] at hl
  simp only [State.enter, hk]
  split
  · rename_i max hf
    obtain ⟨hm, hfu⟩ := Option.filter_eq_some_iff.mp hf
    rw [Bool.and_eq_true, Bool.not_eq_true', decide_eq_true_eq] at hfu
    rw [hem hfu.1, length_nil] at hfu
    exact absurd (hr.buckets max hm) (by omega)
  · split
    · rename_i max hf
      obtain ⟨hm, hfu⟩ := Option.filter_eq_some_iff.mp hf
      cases hg : s.buckets.get key with
      | none => simp [hg] at hfu
      | some existing =>
        have hp := length_pos_of_ne_nil (hs existing hg)
        have hro := hr.size max hm
        simp only [hg, decide_eq_true_eq, getD_some] at hfu hl
        omega
    · rfl

variable (config) in
theorem aggregate_of_filled {exchanges : List Exchange} (h : exchanges ≠ []) :
    ∃ result, aggregate config.origin exchanges config.strategy = .ok result := by
  cases config.strategy with
  | CollectAll => exact ⟨_, rfl⟩
  | Custom f =>
    obtain ⟨first, rest, rfl⟩ := exists_cons_of_ne_nil h
    exact ⟨_, rfl⟩

theorem Filled.buckets_eq (h : Filled key n subs s) (hl : subs.length < n) (bucket : Bucket) :
    s.buckets.insert key bucket = OrdMap.empty.insert key bucket ∧
      s.buckets.remove key = .empty := by
  obtain ⟨-, hw⟩ := h.waits hl
  split at hw
  · rw [hw]
    exact ⟨rfl, rfl⟩
  · obtain ⟨old, hb, -⟩ := hw
    rw [hb]
    exact ⟨insert_insert _ _ _ _, remove_alone key old⟩

theorem Filled.push (h : Filled key n subs s) (hl : subs.length < n)
    (hco : config.completion.CompletesAt n) (hk : config.to_string key_value = key)
    (satisfied : Bool) : Filled key n (subs ++ [(now, exchange)])
      (s.push config now key_value satisfied exchange claim) := by
  set bucket := ((s.buckets.get key).getD (.new now)).push now s.accepted.length exchange claim
    with hb
  have he : bucket.exchanges.map (·.2) = (subs ++ [(now, exchange)]).map (·.2) := by
    rw [hb, Bucket.push, map_append, map_append, (h.bucket hl now).1]
    rfl
  have hc := check_completes_at hco (bucket.exchanges.map (·.2)) satisfied
  have hso : bucket.exchanges.map (·.2) ≠ [] := by simp [he]
  rw [he, length_map] at hc
  obtain ⟨hi, hr⟩ := h.buckets_eq hl bucket
  obtain ⟨hem, -⟩ := h.waits hl
  simp only [State.push, hk, ← hb]
  split
  · rename_i reason heq
    obtain ⟨result, hre⟩ := aggregate_of_filled config hso
    rw [he] at heq
    rw [heq] at hc
    simp only [State.answer, hre, State.emit, hem, hr]
    refine ⟨by simp [h.accepted], ?_, fun _ => ⟨rfl, _, rfl, rfl, he⟩⟩
    exact fun hs => absurd (hc.mp rfl) (Nat.not_le.mpr hs)
  · rename_i reason heq
    rw [he] at heq
    rw [heq] at hc
    simp only [hi]
    refine ⟨by simp [h.accepted], ?_, fun hf => ?_⟩
    · intro _
      rw [if_neg (show subs ++ [(now, exchange)] ≠ [] by simp)]
      exact ⟨hem, bucket, rfl, he, by simp [hb, Bucket.push]⟩
    · exact absurd (hc.mpr hf.ge) (by simp)

theorem OneGroup.init {sub : Timed} (h : OneGroup config key_value (subs ++ [sub])) :
    OneGroup config key_value subs :=
  ⟨fun x hx => h.keyed x (mem_append_left _ hx), fun x hx => h.answered x (mem_append_left _ hx),
    fun ttl ht => (h.prompt ttl ht).left_of_append⟩

/-- What the submits have led to, for every number of them up to `n`. -/
theorem filled_of_submitted (hc : config.completion.CompletesAt n)
    (hr : Roomy config n) (hsu : Submitted config subs s)
    (ho : OneGroup config key_value subs) (hle : subs.length ≤ n) (hn : 1 ≤ n) :
    Filled (config.to_string key_value) n subs s := by
  induction hsu with
  | new =>
    refine ⟨rfl, fun _ => ⟨rfl, rfl⟩, ?_⟩
    rintro rfl
    cases hn
  | @submit subs s now exchange claim _ ih =>
    rw [length_append, length_singleton] at hle
    have hl : subs.length < n := hle
    have hf := ((ih ho.init (by omega)).evict hl ho)
    obtain ⟨satisfied, hs⟩ := ho.answered (now, exchange) (by simp)
    have hk := ho.keyed (now, exchange) (by simp)
    simp only [State.submit_with_claim, hk, hs, hf.enter hl hr rfl satisfied]
    exact hf.push hl hc rfl satisfied
  | advance _ hst ih => exact (ih ho hle).advance hst

end camel_processor.aggregator

/-! ## The batch resequencer -/

namespace camel_processor.resequencer.batch

open camel_api.error (CamelError)

structure ResequenceCompletionYaml where
  size : Option Nat
  timeout : Option Nat
  size_or_timeout : Option (List Nat)

def parse_resequence_completion (c : ResequenceCompletionYaml) :
    Except CamelError BatchCompletion :=
  match c.size, c.timeout, c.size_or_timeout with
  | some s, none, none =>
    if s = 0 then .error (.ValidationError "resequence: batch completion size must be > 0")
    else .ok (.Size s)
  | none, some t, none =>
    if t = 0 then .error (.ValidationError "resequence: batch completion timeout must be > 0")
    else .ok (.Timeout t)
  | none, none, some [size, timeout] =>
    if size = 0 ∨ timeout = 0 then
      .error (.ValidationError
        "resequence: both size and timeout in size_or_timeout must be > 0")
    else .ok (.SizeOrTimeout size timeout)
  | none, none, some v =>
    .error (.ValidationError
      s!"resequence: size_or_timeout must be [size, timeout_ms], got {v.length} elements")
  | _, _, _ =>
    .error (.ValidationError ("resequence: completion must specify exactly one of 'size', " ++
      "'timeout', or 'size_or_timeout'"))

def BatchCompletion.CompletesAt (n : Nat) : BatchCompletion → Prop
  | .Size size | .SizeOrTimeout size _ => size = n
  | .Timeout _ => False

theorem one_le_of_parsed {c : ResequenceCompletionYaml} {completion : BatchCompletion} {n : Nat}
    (hp : parse_resequence_completion c = .ok completion) (h : completion.CompletesAt n) :
    1 ≤ n := by
  unfold parse_resequence_completion at hp
  split at hp
  all_goals try split_ifs at hp
  all_goals try cases hp
  all_goals
    simp [BatchCompletion.CompletesAt] at h
    try omega

variable {ε : Type} (p : BatchPolicy ε)

/-- The states of a new instance that has taken these exchanges, with the steps of the actor and
no timer. -/
inductive Accepted : List ε → State ε → Prop
  | new : Accepted [] .new_cyclic
  | accept {xs : List ε} {s : State ε} (input : ε) (h : Accepted xs s) (hidle : s.actor = .Idle) :
      Accepted (xs ++ [input]) (s.accept p input)
  | actor {xs : List ε} {s s' : State ε} (h : Accepted xs s) (hstep : s.advance p = some s') :
      Accepted xs s'

def Held (key : String) (xs : List ε) (s : State ε) : Prop :=
  s.emitted = [] ∧
    ∃ bucket, s.buckets = OrdMap.empty.insert key bucket ∧ bucket.exchanges.map (·.2) = xs

def WentOut (key : String) (xs : List ε) (s : State ε) : Prop :=
  s.buckets = .empty ∧ ∃ bucket, s.emitted = [(key, p.drain_and_sort bucket)] ∧
    bucket.exchanges.map (·.2) = xs

/-- Where the actor stands when it has taken `xs`. -/
def Filling (key : String) (n : Nat) (xs : List ε) (s : State ε) : Prop :=
  match s.actor with
  | .Idle => (xs = [] ∧ s.buckets = .empty ∧ s.emitted = [] ∧ s.timeout_generation = 0) ∨
      (xs ≠ [] ∧ xs.length < n ∧ Held key xs s) ∨ (xs.length = n ∧ WentOut p key xs s)
  | .Pushed k _ count => k = key ∧ count = xs.length ∧ xs ≠ [] ∧ Held key xs s ∧
      (count = 1 → s.timeout_generation = 0)
  | .Arming k _ count =>
      k = key ∧ count = xs.length ∧ xs ≠ [] ∧ Held key xs s ∧ s.timeout_generation = 0
  | .Inserting k _ count _ | .Spawning k _ count _ | .Armed k count =>
      k = key ∧ count = xs.length ∧ xs ≠ [] ∧ Held key xs s
  | .Taking k => k = key ∧ xs.length = n ∧ Held key xs s
  | .Holding k bucket => k = key ∧ xs.length = n ∧ s.emitted = [] ∧ s.buckets = .empty ∧
      bucket.exchanges.map (·.2) = xs
  | _ => False

/-- How many steps the actor has at most before it is idle. -/
def steps_left : ActorStage ε → Nat
  | .Pushed .. => 7
  | .Arming .. => 6
  | .Inserting .. => 5
  | .Spawning .. => 4
  | .Armed .. => 3
  | .Taking .. => 2
  | .Holding .. => 1
  | _ => 0

variable {p} {key : String} {n : Nat} {xs : List ε} {s : State ε}

theorem Filling.actor (h : Filling p key n xs s) (hle : xs.length ≤ n)
    (hs : p.completion.CompletesAt n) (hbu : s.actor ≠ .Idle) :
    ∃ s', s.advance p = some s' ∧ Filling p key n xs s' ∧ s'.accepted = s.accepted ∧
      steps_left s'.actor < steps_left s.actor := by
  have hc : ∀ count, p.is_complete_by_size count = true ↔ n ≤ count := by
    intro count
    unfold BatchPolicy.is_complete_by_size
    split <;> simp_all [BatchCompletion.CompletesAt]
  unfold Filling at h
  unfold State.advance
  split at h
  all_goals try rename_i ha; rw [ha]
  case h_1 => exact absurd ha hbu
  case h_2 =>
    obtain ⟨rfl, rfl, hx, hh, hg⟩ := h
    simp only []
    split_ifs with hf hr
    · exact ⟨_, rfl, ⟨rfl, rfl, hx, hh, hg hf.1⟩, rfl, by simp [steps_left]⟩
    all_goals exact ⟨_, rfl, ⟨rfl, rfl, hx, hh⟩, rfl, by simp [steps_left]⟩
  case h_3 =>
    obtain ⟨rfl, rfl, hx, hh, hg⟩ := h
    simp only [hg]
    exact ⟨_, if_pos (by decide), ⟨rfl, rfl, hx, hh⟩, rfl, by simp [steps_left]⟩
  case h_4 => exact ⟨_, rfl, h, rfl, by simp [steps_left]⟩
  case h_5 => exact ⟨_, rfl, h, rfl, by simp [steps_left]⟩
  case h_6 =>
    obtain ⟨rfl, rfl, hx, hh⟩ := h
    simp only []
    split_ifs with hfu
    · have hn := (hc _).mp hfu
      refine ⟨_, rfl, ⟨rfl, by omega, ?_⟩, ?_, by simp [steps_left]⟩
      · unfold State.cancel_timeout
        split <;> exact hh
      · unfold State.cancel_timeout
        split <;> rfl
    · have hn := mt (hc _).mpr hfu
      exact ⟨_, rfl, .inr (.inl ⟨hx, by omega, hh⟩), rfl, by simp [steps_left]⟩
  case h_7 =>
    obtain ⟨rfl, hn, he, bucket, hb, hex⟩ := h
    simp only [hb, get_insert_self]
    exact ⟨_, rfl, ⟨rfl, hn, he, remove_alone _ bucket, hex⟩, rfl, by simp [steps_left]⟩
  case h_8 =>
    obtain ⟨rfl, hn, he, hb, hex⟩ := h
    exact ⟨_, rfl, .inr (.inr ⟨hn, hb, _, by simp [he], hex⟩), rfl, by simp [steps_left]⟩
  case h_9 => exact h.elim

theorem Filling.accept {input : ε} (h : Filling p key n xs s) (hi : s.actor = .Idle)
    (hl : xs.length < n) (hk : p.eval_key input = some key) (hc : n ≤ p.max_bucket_size)
    (hm : 1 ≤ p.max_buckets) : Filling p key n (xs ++ [input]) (s.accept p input) ∧
      (s.accept p input).accepted.length = s.accepted.length + 1 := by
  unfold Filling at h
  rw [hi] at h
  unfold State.accept
  rw [hk]
  rcases h with ⟨rfl, hb, he, hg⟩ | ⟨hx, -, he, bucket, hb, rfl⟩ |
    ⟨hn, -⟩
  · simp only [hb, get_empty, rows_empty, length_nil, State.push]
    rw [if_neg (by omega), if_neg (by rw [length_nil] at hl; omega)]
    exact ⟨⟨rfl, rfl, by simp, ⟨he, _, rfl, rfl⟩, fun _ => hg⟩, by simp⟩
  · have hr : ¬p.max_bucket_size ≤ bucket.exchanges.length := by
      rw [length_map] at hl
      omega
    simp only [hb, get_insert_self, State.push, if_neg hr, insert_insert]
    refine ⟨⟨rfl, by simp, by simp, ⟨he, _, rfl, by simp⟩, ?_⟩, by simp⟩
    intro ho
    simp at ho hx
    exact absurd ho hx
  · omega

theorem filling_of_accepted (ha : Accepted p xs s) (hle : xs.length ≤ n)
    (hk : ∀ x ∈ xs, p.eval_key x = some key) (hs : p.completion.CompletesAt n)
    (hca : n ≤ p.max_bucket_size) (hma : 1 ≤ p.max_buckets) :
    Filling p key n xs s ∧ s.accepted.length = xs.length := by
  induction ha with
  | new => exact ⟨.inl ⟨rfl, rfl, rfl, rfl⟩, rfl⟩
  | @accept xs s input _ hi ih =>
    rw [length_append, length_singleton] at hle
    obtain ⟨hf, hc⟩ := ih (by omega) fun x hx => hk x (mem_append_left _ hx)
    obtain ⟨hn, hm⟩ := hf.accept hi hle (hk input (by simp)) hca hma
    exact ⟨hn, by simp [hm, hc]⟩
  | @actor xs s s' _ hst ih =>
    obtain ⟨hf, hc⟩ := ih hle hk
    have hb : s.actor ≠ .Idle := by
      intro hi
      simp [State.advance, hi] at hst
    obtain ⟨next, hn, hfi, hsa, -⟩ := hf.actor hle hs hb
    cases hst.symm.trans hn
    exact ⟨hfi, hsa ▸ hc⟩

theorem Filling.rests (h : Filling p key n xs s) (hle : xs.length ≤ n)
    (hs : p.completion.CompletesAt n) :
    ∃ s', Relation.ReflTransGen (fun a b => a.advance p = some b) s s' ∧ s'.actor = .Idle ∧
      Filling p key n xs s' ∧ s'.accepted = s.accepted := by
  induction hl : steps_left s.actor using Nat.strong_induction_on generalizing s with
  | _ left ih =>
    by_cases hi : s.actor = .Idle
    · exact ⟨s, .refl, hi, h, rfl⟩
    · obtain ⟨next, hst, hn, hsa, hf⟩ := h.actor hle hs hi
      obtain ⟨s', hru, hr, hfi, ha⟩ := ih _ (hl ▸ hf) hn rfl
      exact ⟨s', .head hst hru, hr, hfi, ha.trans hsa⟩

end camel_processor.resequencer.batch

/-! ## Both -/

namespace camel_processor

open camel_api (Value)
open aggregator (AggregatorConfig Filled OneGroup Roomy Submitted Timed sampleConfig)
open multicast_segment (textExchange)
open resequencer.batch (Accepted BatchPolicy ResequenceCompletionYaml WentOut
  parse_resequence_completion)

/-- A group of `n` is complete at its last exchange and none of them is rejected, where the caps
leave room for `n` and the bucket does not expire. -/
theorem size_completion_is_reachable (n : Nat) :
    (∀ (config : AggregatorConfig) (key_value : Value) (subs : List Timed) (s : aggregator.State),
      config.validate = .ok () → config.completion.CompletesAt n → 1 ≤ n → Roomy config n →
        OneGroup config key_value subs → Submitted config subs s → subs.length ≤ n →
          Filled (config.to_string key_value) n subs s) ∧
    ∀ (ε : Type) (c : ResequenceCompletionYaml) (p : BatchPolicy ε) (key : String) (xs : List ε)
      (s : resequencer.batch.State ε), parse_resequence_completion c = .ok p.completion →
        p.completion.CompletesAt n → n ≤ p.max_bucket_size → 1 ≤ p.max_buckets →
          (∀ x ∈ xs, p.eval_key x = some key) → Accepted p xs s → xs.length ≤ n →
            ∃ s', Relation.ReflTransGen (fun a b => a.advance p = some b) s s' ∧
              s'.actor = .Idle ∧ s'.accepted.length = xs.length ∧
              (xs.length < n → s'.emitted = []) ∧ (xs.length = n → WentOut p key xs s') := by
  refine ⟨fun config key_value subs s _ hc hn hr ho hs hle =>
    aggregator.filled_of_submitted hc hr hs ho hle hn, ?_⟩
  intro ε c p key xs s hp hsi hca hm hk ha hle
  obtain ⟨hf, hco⟩ := resequencer.batch.filling_of_accepted ha hle hk hsi hca hm
  obtain ⟨s', hru, hi, hre, hsa⟩ := hf.rests hle hsi
  refine ⟨s', hru, hi, hsa ▸ hco, ?_⟩
  have hn := resequencer.batch.one_le_of_parsed hp hsi
  unfold resequencer.batch.Filling at hre
  rw [hi] at hre
  rcases hre with ⟨rfl, -, he, -⟩ | ⟨-, hl, he, -⟩ | ⟨hfu, hou⟩
  · exact ⟨fun _ => he, fun hzero => by rw [← hzero] at hn; cases hn⟩
  · exact ⟨fun _ => he, fun hfu => absurd hfu hl.ne⟩
  · exact ⟨fun hl => absurd hfu hl.ne, fun _ => hou⟩

/-- One exchange of the text `a`, at a time. -/
def at_time (now : Nat) : Timed := (now, textExchange "a")

theorem sample_completes (n : Nat) : (sampleConfig n).completion.CompletesAt n :=
  ⟨mem_cons_self, by simp [aggregator.CompletionCondition.is_timeout]⟩

theorem sample_group (n : Nat) :
    OneGroup (sampleConfig n) (.String "a") [at_time 0, at_time 1, at_time 2] := by
  refine ⟨?_, fun _ _ => ⟨false, rfl⟩, by simp [sampleConfig, at_time]⟩
  intro sub hs
  simp only [mem_cons, not_mem_nil, or_false] at hs
  rcases hs with rfl | rfl | rfl <;> rfl

def pairs : BatchPolicy Nat :=
  ⟨fun _ => some "k", fun _ => none, fun _ _ => .eq, fun _ => "", .Size 2, 10000, 1000, 1024⟩

theorem groups_are_complete :
    (∃ s, Submitted (sampleConfig 2) [at_time 0, at_time 1] s ∧ s.accepted.length = 2 ∧
      s.emitted.length = 1) ∧ ∃ s, WentOut pairs "k" [7, 5] s := by
  have hs : Submitted (sampleConfig 2) [at_time 0, at_time 1] _ :=
    (Submitted.new.submit 0 _ none).submit 1 _ none
  have hf := (size_completion_is_reachable 2).1 (sampleConfig 2) (.String "a") _ _ rfl
    (sample_completes 2) (by decide) ⟨by simp [sampleConfig], by simp [sampleConfig]⟩
    (sample_group 2).init hs (by decide)
  obtain ⟨-, e, he, -⟩ := hf.completes rfl
  have hp : Accepted pairs [7, 5] _ :=
    (((Accepted.new.accept 7 rfl).actor rfl).actor rfl).accept 5 rfl
  obtain ⟨s, -, -, -, -, ho⟩ := (size_completion_is_reachable 2).2 Nat ⟨some 2, none, none⟩ pairs
    "k" [7, 5] _ rfl rfl (by decide) (by decide) (fun _ _ => rfl) hp (by decide)
  exact ⟨⟨_, hs, hf.accepted, by rw [he]; rfl⟩, s, ho rfl⟩

theorem third_is_rejected :
    (sampleConfig 3).validate = .ok () ∧ (sampleConfig 3).completion.CompletesAt 3 ∧
      OneGroup (sampleConfig 3) (.String "a") [at_time 0, at_time 1, at_time 2] ∧
      ∃ s, Submitted (sampleConfig 3) [at_time 0, at_time 1, at_time 2] s ∧
        s.accepted.length = 2 ∧ s.emitted.length = 0 :=
  ⟨rfl, sample_completes 3, sample_group 3, _,
    ((Submitted.new.submit 0 _ none).submit 1 _ none).submit 2 _ none,
    by decide +kernel, by decide +kernel⟩

end camel_processor
