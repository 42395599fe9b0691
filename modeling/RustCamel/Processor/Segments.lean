-- The split and multicast segments of `split_segment.rs` and `multicast_segment.rs`, one
-- body after the other and all bodies at once. What the tasks do stands in ParallelTasks,
-- and here is what a segment makes of their results.
import RustCamel.Api.Splitter
import RustCamel.Processor.ParallelTasks

open List

/-! ## Text -/

namespace camel_processor.parallel

open camel_api (Exchange)
open camel_api.error (CamelError)
open camel_processor.error_handler (PipelineOutcome)

def continuation (b : UInt8) : Bool := 0x80 ≤ b && b ≤ 0xBF

/-- The second bytes that may follow a first byte of three or four. -/
def second_byte (first second : UInt8) : Bool :=
  if first = 0xE0 then 0xA0 ≤ second && second ≤ 0xBF
  else if first = 0xED then 0x80 ≤ second && second ≤ 0x9F
  else if first = 0xF0 then 0x90 ≤ second && second ≤ 0xBF
  else if first = 0xF4 then 0x80 ≤ second && second ≤ 0x8F
  else continuation second

def low_bits (b : UInt8) (width : Nat) : Nat := b.toNat % 2 ^ width

/-- The first character of bytes that are not empty, and the bytes it takes. A sequence that
breaks off gives one replacement character for the part that was fine. -/
def lossy_char : List UInt8 → Char × Nat
  | [] => ('\uFFFD', 1)
  | a :: rest =>
    if a < 0x80 then (Char.ofNat a.toNat, 1)
    else if 0xC2 ≤ a && a ≤ 0xDF then
      match rest with
      | b :: _ =>
        if continuation b then (Char.ofNat (low_bits a 5 * 64 + low_bits b 6), 2)
        else ('\uFFFD', 1)
      | [] => ('\uFFFD', 1)
    else if 0xE0 ≤ a && a ≤ 0xEF then
      match rest with
      | b :: rest =>
        if second_byte a b then
          match rest with
          | c :: _ =>
            if continuation c then
              (Char.ofNat ((low_bits a 4 * 64 + low_bits b 6) * 64 + low_bits c 6), 3)
            else ('\uFFFD', 2)
          | [] => ('\uFFFD', 2)
        else ('\uFFFD', 1)
      | [] => ('\uFFFD', 1)
    else if 0xF0 ≤ a && a ≤ 0xF4 then
      match rest with
      | b :: rest =>
        if second_byte a b then
          match rest with
          | c :: rest =>
            if continuation c then
              match rest with
              | d :: _ =>
                if continuation d then
                  (Char.ofNat (((low_bits a 3 * 64 + low_bits b 6) * 64 + low_bits c 6) * 64 +
                    low_bits d 6), 4)
                else ('\uFFFD', 3)
              | [] => ('\uFFFD', 3)
            else ('\uFFFD', 2)
          | [] => ('\uFFFD', 2)
        else ('\uFFFD', 1)
      | [] => ('\uFFFD', 1)
    else ('\uFFFD', 1)

def lossy_chars : Nat → List UInt8 → List Char
  | 0, _ => []
  | _ + 1, [] => []
  | rounds + 1, bytes =>
    let (c, taken) := lossy_char bytes
    c :: lossy_chars rounds (bytes.drop taken)

/-- `String::from_utf8_lossy`. -/
def from_utf8_lossy (bytes : List UInt8) : String := String.ofList (lossy_chars bytes.length bytes)

example :
    from_utf8_lossy [0x61, 0xC3, 0xA9, 0xE2, 0x82, 0xFF, 0xF0, 0x9F, 0x98, 0x80] = "aé��😀" := by
  decide +kernel

/-- A whole part of a duration with the nanoseconds after it, at `unit` of them. -/
def fmt_decimal (whole frac unit : Nat) (suffix : String) : String :=
  let digits := (toString (unit + frac)).toList.drop 1
  let digits := (digits.reverse.dropWhile (· = '0')).reverse
  if digits.isEmpty then s!"{whole}{suffix}" else s!"{whole}.{String.ofList digits}{suffix}"

/-- A duration in nanoseconds as `{:?}` writes it. -/
def fmt_duration (nanos : Nat) : String :=
  if 1000000000 ≤ nanos then fmt_decimal (nanos / 1000000000) (nanos % 1000000000) 1000000000 "s"
  else if 1000000 ≤ nanos then fmt_decimal (nanos / 1000000) (nanos % 1000000) 1000000 "ms"
  else if 1000 ≤ nanos then fmt_decimal (nanos / 1000) (nanos % 1000) 1000 "µs"
  else fmt_decimal nanos 0 1 "ns"

example : fmt_duration 1500000000 = "1.5s" ∧ fmt_duration 2000040 = "2.00004ms" ∧
    fmt_duration 7 = "7ns" := by
  decide +kernel

/-! ## What the two segments share -/

/-- One body after the other. A body that panics takes the segment with it. -/
def sequential (stop_on_exception : Bool)
    (finish : List Exchange → Option CamelError → PipelineOutcome) :
    List BodyEnd → List Exchange → Option CamelError → Option PipelineOutcome
  | [], outputs, last_error => some (finish outputs last_error)
  | .Ended (.Completed ex) :: bodies, outputs, last_error =>
    sequential stop_on_exception finish bodies (outputs ++ [ex]) last_error
  | .Ended (.Stopped ex) :: _, _, _ => some (.Stopped ex)
  | .Ended (.Failed err) :: bodies, outputs, _ =>
    if stop_on_exception then some (.Failed err)
    else sequential stop_on_exception finish bodies outputs (some err)
  | .Panicked :: _, _, _ => none

def stopped_outcome (original : Exchange) (t : Tasks) : PipelineOutcome :=
  match t.stopped_idx with
  | none => .Stopped original
  | some winning_idx =>
    match t.results.find? fun (idx, _) => idx = winning_idx with
    | some (_, .Stopped ex) => .Stopped ex
    | _ => .Stopped original

def sort_by_idx (results : List (Nat × PipelineOutcome)) : List (Nat × PipelineOutcome) :=
  results.mergeSort fun a b => decide (a.1 ≤ b.1)

def first_failed (results : List (Nat × PipelineOutcome)) : Option (Nat × CamelError) :=
  results.foldl (fun first (idx, o) =>
    match o with
    | .Failed err => if (first.map fun (i, _) => decide (idx < i)).getD true then some (idx, err)
      else first
    | _ => first) none

def keep_error (last_error : Option CamelError) : PipelineOutcome → Option CamelError
  | .Failed err => some err
  | _ => last_error

def last_error (results : List (Nat × PipelineOutcome)) : Option CamelError :=
  results.foldl (fun last (_, o) => keep_error last o) none

def completed_exchange : PipelineOutcome → Option Exchange
  | .Completed ex => some ex
  | _ => none

def completed (results : List (Nat × PipelineOutcome)) : List Exchange :=
  results.filterMap fun (_, o) => completed_exchange o

/-- A schedule takes the tasks to `t`, and `t` has all of them joined. -/
def Ends (bodies : List BodyEnd) (parallel_limit : Option Nat) (t : Tasks) : Prop :=
  (∃ events, (Tasks.spawn bodies parallel_limit).run bodies events = some t) ∧ t.Complete

end camel_processor.parallel

/-! ## Split -/

namespace camel_processor.split_segment

open camel_api (AggregationStrategy Body Exchange Value)
open camel_api.error (CamelError)
open camel_processor.error_handler (PipelineOutcome)
open camel_processor.parallel

def body_value (origin : Nat → Option String) : Body → Value
  | .Text s => .String s
  | .Json v => v
  | .Xml s => .String s
  | .Bytes b => .String (from_utf8_lossy b)
  | .Stream s => .Object [("_stream", .Object [
      ("origin", match origin s with
        | some o => .String o
        | none => .Null),
      ("placeholder", .Bool true),
      ("hint", .String ("Materialize exchange body with .into_bytes() before aggregation " ++
        "if content needed"))])]
  | .Empty => .Null

def aggregate_completed (origin : Nat → Option String) (completed : List Exchange)
    (original : Exchange) : AggregationStrategy → Exchange
  | .LastWins => completed.getLast?.getD original
  | .CollectAll =>
    let bodies := completed.map fun ex => body_value origin ex.input.body
    { original with input := { original.input with body := .Json (.Array bodies) } }
  | .Custom fold_fn =>
    match completed with
    | [] => original
    | first :: rest => rest.foldl fold_fn first
  | .Original => original

structure SplitSegment where
  parallel_limit : Option Nat
  stop_on_exception : Bool
  aggregation : AggregationStrategy
  origin : Nat → Option String

variable (seg : SplitSegment) (original : Exchange)

/-- The end of both modes. -/
def finish (outputs : List Exchange) : Option CamelError → PipelineOutcome
  | some err => .Failed err
  | none => .Completed (aggregate_completed seg.origin outputs original seg.aggregation)

def sequential_split (bodies : List BodyEnd) : Option PipelineOutcome :=
  sequential seg.stop_on_exception (finish seg original) bodies [] none

/-- What `parallel_split` returns when its tasks were joined. -/
def parallel_split (t : Tasks) : PipelineOutcome :=
  if t.stopped_seen then stopped_outcome original t
  else
    let results := sort_by_idx t.results
    if seg.stop_on_exception then
      finish seg original (completed results) ((first_failed results).map (·.2))
    else finish seg original (completed results) (last_error results)

end camel_processor.split_segment

/-! ## Multicast -/

namespace camel_processor.multicast_segment

open camel_api (Exchange)
open camel_api.error (CamelError)
open camel_processor.error_handler (PipelineOutcome)
open camel_processor.parallel

structure MulticastSegment where
  parallel_limit : Option Nat
  stop_on_exception : Bool
  /-- In nanoseconds. -/
  timeout : Option Nat
  aggregator : List Exchange → Exchange

/-- What the task of a branch makes of its end. A branch is `late` when the timeout comes
before its end. -/
def branch_outcome (timeout : Option Nat) (late : Bool) (idx : Nat) (branch : BodyEnd) :
    PipelineOutcome :=
  match timeout, late, branch with
  | some dur, true, _ =>
    .Failed (.ProcessorError s!"multicast branch {idx} timed out after {fmt_duration dur}")
  | _, _, .Ended outcome => outcome
  | _, _, .Panicked => .Failed (.ProcessorError s!"multicast branch {idx} panicked")

/-- The bodies of the tasks. The branches at the indices in `late` run out of their time. -/
def branch_bodies (seg : MulticastSegment) (late : Nat → Bool) (branches : List BodyEnd) :
    List BodyEnd :=
  branches.mapIdx fun idx branch => .Ended (branch_outcome seg.timeout (late idx) idx branch)

variable (seg : MulticastSegment)

def finish (outputs : List Exchange) : Option CamelError → PipelineOutcome
  | some err => if outputs.isEmpty then .Failed err else .Completed (seg.aggregator outputs)
  | none => .Completed (seg.aggregator outputs)

def sequential_multicast (branches : List BodyEnd) : Option PipelineOutcome :=
  sequential seg.stop_on_exception (finish seg) branches [] none

/-- What `parallel_multicast` returns when its tasks were joined. -/
def parallel_multicast (exchange : Exchange) (t : Tasks) : PipelineOutcome :=
  if t.stopped_seen then stopped_outcome exchange t
  else
    let results := sort_by_idx t.results
    if seg.stop_on_exception then
      match first_failed results with
      | some (_, err) => .Failed err
      | none => finish seg (completed results) none
    else finish seg (completed results) (last_error results)

end camel_processor.multicast_segment

/-! ## Every schedule gives the same results -/

namespace camel_processor.parallel

open camel_api (Exchange)
open camel_api.error (CamelError)
open camel_processor.error_handler (PipelineOutcome)

variable {bodies : List BodyEnd} {parallel_limit : Option Nat} {t : Tasks}

theorem Ends.sound (h : Ends bodies parallel_limit t) : Sound bodies t := by
  obtain ⟨⟨events, hr⟩, -⟩ := h
  exact (sound_spawn bodies parallel_limit).run events hr

theorem exists_ends (bodies : List BodyEnd) (parallel_limit : Option Nat) :
    ∃ t, Ends bodies parallel_limit t := by
  obtain ⟨events, t, hr, hc⟩ := (sound_spawn bodies parallel_limit).can_complete
  exact ⟨t, ⟨events, hr⟩, hc⟩

variable {i : Nat}

theorem given_fst {p : Nat × PipelineOutcome} (h : t.given i = some p) : p.1 = i := by
  unfold Tasks.given at h
  split at h
  · rw [← Option.some.inj h]
  · simp at h

theorem Sound.sorted_results (h : Sound bodies t) (hc : t.Complete) :
    sort_by_idx t.results = (List.range bodies.length).filterMap t.given := by
  have hpe : (sort_by_idx t.results).Perm ((List.range bodies.length).filterMap t.given) :=
    (mergeSort_perm _ _).trans ((h.joined_perm hc).filterMap _)
  have hs : (sort_by_idx t.results).Pairwise fun a b => a.1 ≤ b.1 := by
    have := @List.pairwise_mergeSort _ (fun a b : Nat × PipelineOutcome => decide (a.1 ≤ b.1))
      (by simp only [decide_eq_true_eq]; omega)
      (by simp only [Bool.or_eq_true, decide_eq_true_eq]; omega) t.results
    simpa only [sort_by_idx, decide_eq_true_eq] using this
  have hr : ((List.range bodies.length).filterMap t.given).Pairwise fun a b => a.1 ≤ b.1 := by
    refine pairwise_lt_range.filterMap t.given ?_
    intro i j hij p hp q hq
    rw [given_fst hp, given_fst hq]
    omega
  -- Two results of one index are the same result.
  have ha : ∀ p q, p ∈ sort_by_idx t.results →
      q ∈ (List.range bodies.length).filterMap t.given → p.1 ≤ q.1 → q.1 ≤ p.1 → p = q := by
    intro p q hp hq hpq hqp
    obtain ⟨i, -, hi⟩ := mem_filterMap.mp (hpe.mem_iff.mp hp)
    obtain ⟨j, -, hj⟩ := mem_filterMap.mp hq
    have hij : i = j := by
      rw [← given_fst hi, ← given_fst hj]
      omega
    rw [hij, hj] at hi
    exact (Option.some.inj hi).symm
  exact List.Perm.eq_of_pairwise ha hs hr hpe

theorem filterMap_range_getElem? {α β : Type} (f : α → Option β) (xs : List α) :
    ((List.range xs.length).filterMap fun i => xs[i]?.bind f) = xs.filterMap f := by
  induction xs using List.reverseRecOn with
  | nil => rfl
  | append_singleton xs x ih =>
    rw [length_append, length_singleton, range_succ, filterMap_append, filterMap_append, ← ih]
    congr 1
    · apply filterMap_congr
      intro i hi
      rw [getElem?_append_left (List.mem_range.mp hi)]
    · simp [filterMap_cons]

theorem Ends.outcomes (h : Ends bodies parallel_limit t) (hn : ∀ i, ¬Stops bodies i) :
    (sort_by_idx t.results).map (·.2) = bodies.filterMap BodyEnd.outcome := by
  rw [h.sound.sorted_results h.2, map_filterMap, ← filterMap_range_getElem? _ bodies]
  apply filterMap_congr
  intro i hi
  rw [h.sound.given_of_complete h.2 hn]
  cases bodies[i]?.bind BodyEnd.outcome <;> rfl

theorem last_error_eq (results : List (Nat × PipelineOutcome)) :
    last_error results = (results.map (·.2)).foldl keep_error none := by
  rw [last_error, foldl_map]

theorem completed_eq (results : List (Nat × PipelineOutcome)) :
    completed results = (results.map (·.2)).filterMap completed_exchange := by
  rw [completed, filterMap_map]
  rfl

theorem sequential_collects (finish : List Exchange → Option CamelError → PipelineOutcome)
    (outcomes : List PipelineOutcome) (hn : ∀ ex, .Stopped ex ∉ outcomes)
    (outputs : List Exchange) (last : Option CamelError) :
    sequential false finish (outcomes.map .Ended) outputs last =
      some (finish (outputs ++ outcomes.filterMap completed_exchange)
        (outcomes.foldl keep_error last)) := by
  induction outcomes generalizing outputs last with
  | nil => simp [sequential]
  | cons outcome outcomes ih =>
    have hr : ∀ ex, .Stopped ex ∉ outcomes := fun ex hex => hn ex (by simp [hex])
    cases outcome with
    | Completed ex => simp [sequential, ih hr, completed_exchange, keep_error]
    | Failed err => simp [sequential, ih hr, filterMap_cons, completed_exchange, keep_error]
    | Stopped ex => exact absurd (by simp) (hn ex)

/-! ## Panics -/

def counted_outcome (err : Nat → CamelError) (i : Nat) : BodyEnd → PipelineOutcome
  | .Ended outcome => outcome
  | .Panicked => .Failed (err i)

def counted (err : Nat → CamelError) (bodies : List BodyEnd) : List BodyEnd :=
  bodies.mapIdx fun i body => .Ended (counted_outcome err i body)

def Panics (bodies : List BodyEnd) (i : Nat) : Prop := bodies[i]? = some .Panicked

def FailsWith (bodies : List BodyEnd) (i : Nat) (err : CamelError) : Prop :=
  bodies[i]? = some (.Ended (.Failed err))

def LastFails (bodies : List BodyEnd) (j : Nat) (err : CamelError) : Prop :=
  FailsWith bodies j err ∧ ∀ k e, j < k → ¬FailsWith bodies k e

/-- The last panic has a failure after it, or it would count as the failure that the last
body to fail gave before it. -/
def PanicsCovered (err : Nat → CamelError) (bodies : List BodyEnd) : Prop :=
  ∀ i, Panics bodies i → (∀ k, i < k → ¬Panics bodies k) →
    ∃ j e, LastFails bodies j e ∧ (i < j ∨ e = err i)

section

variable {err : Nat → CamelError} {xs : List BodyEnd} {x : BodyEnd}

theorem panics_append (i : Nat) :
    Panics (xs ++ [x]) i ↔ Panics xs i ∨ (i = xs.length ∧ x = .Panicked) := by
  simp only [Panics, getElem?_append, getElem?_singleton]
  grind

theorem failsWith_append (i : Nat) (e : CamelError) :
    FailsWith (xs ++ [x]) i e ↔ FailsWith xs i e ∨ (i = xs.length ∧ x = .Ended (.Failed e)) := by
  simp only [FailsWith, getElem?_append, getElem?_singleton]
  grind

theorem Panics.lt (h : Panics xs i) : i < xs.length := (List.getElem?_eq_some_iff.mp h).1

theorem FailsWith.lt {e : CamelError} (h : FailsWith xs i e) : i < xs.length :=
  (List.getElem?_eq_some_iff.mp h).1

theorem lastFails_append_failed (e : CamelError) :
    LastFails (xs ++ [.Ended (.Failed e)]) xs.length e := by
  refine ⟨(failsWith_append _ _).mpr (.inr ⟨rfl, rfl⟩), ?_⟩
  intro k e' hk hf
  have := hf.lt
  simp only [length_append, length_singleton] at this
  omega

theorem lastFails_append (hx : ∀ e, x ≠ .Ended (.Failed e)) (j : Nat) (e : CamelError) :
    LastFails (xs ++ [x]) j e ↔ LastFails xs j e := by
  simp only [LastFails, failsWith_append, hx, and_false, or_false]

/-- The error that a parallel run keeps. -/
def parError (bodies : List BodyEnd) : Option CamelError :=
  (bodies.filterMap BodyEnd.outcome).foldl keep_error none

/-- The error that a sequential run keeps. -/
def seqError (err : Nat → CamelError) (bodies : List BodyEnd) : Option CamelError :=
  (bodies.mapIdx (counted_outcome err)).foldl keep_error none

theorem parError_append_ended (outcome : PipelineOutcome) :
    parError (xs ++ [.Ended outcome]) = keep_error (parError xs) outcome := by
  simp [parError, BodyEnd.outcome]

theorem parError_append_panicked : parError (xs ++ [.Panicked]) = parError xs := by
  simp [parError, BodyEnd.outcome, filterMap_cons]

theorem seqError_append : seqError err (xs ++ [x]) =
    keep_error (seqError err xs) (counted_outcome err xs.length x) := by
  simp [seqError, mapIdx_append]

theorem parError_eq_some (e : CamelError) : parError xs = some e ↔ ∃ j, LastFails xs j e := by
  induction xs using List.reverseRecOn with
  | nil => simp [parError, LastFails, FailsWith]
  | append_singleton xs x ih =>
    match x with
    | .Panicked =>
      simp only [parError_append_panicked, ih, lastFails_append (x := .Panicked) (by simp)]
    | .Ended (.Completed ex) =>
      simp only [parError_append_ended, keep_error, ih,
        lastFails_append (x := .Ended (.Completed ex)) (by simp)]
    | .Ended (.Stopped ex) =>
      simp only [parError_append_ended, keep_error, ih,
        lastFails_append (x := .Ended (.Stopped ex)) (by simp)]
    | .Ended (.Failed e') =>
      simp only [parError_append_ended, keep_error, Option.some.injEq]
      constructor
      · rintro rfl
        exact ⟨xs.length, lastFails_append_failed _⟩
      · rintro ⟨j, hf, hlast⟩
        rcases (failsWith_append _ _).mp hf with hb | ⟨-, heq⟩
        · exact absurd (lastFails_append_failed e').1 (hlast xs.length e' hb.lt)
        · simpa using heq

theorem panicsCovered_append (hf : ∀ e, x ≠ .Ended (.Failed e)) (hp : x ≠ .Panicked) :
    PanicsCovered err (xs ++ [x]) ↔ PanicsCovered err xs := by
  simp only [PanicsCovered, panics_append, lastFails_append hf, hp, and_false, or_false]

theorem seqError_eq_parError : seqError err xs = parError xs ↔ PanicsCovered err xs := by
  induction xs using List.reverseRecOn with
  | nil => simp [seqError, parError, PanicsCovered, Panics]
  | append_singleton xs x ih =>
    rw [seqError_append]
    match x with
    | .Ended (.Completed ex) | .Ended (.Stopped ex) =>
      rw [parError_append_ended, panicsCovered_append (by simp) (by simp), ← ih]
      rfl
    | .Ended (.Failed e) =>
      rw [parError_append_ended]
      refine iff_of_true rfl ?_
      intro i hi hlast
      refine ⟨xs.length, e, lastFails_append_failed e, .inl ?_⟩
      rcases (panics_append i).mp hi with hi | ⟨-, heq⟩
      · exact hi.lt
      · simp at heq
    | .Panicked =>
      -- The last body is the last panic, and no failure comes after it.
      rw [parError_append_panicked]
      have hp : Panics (xs ++ [.Panicked]) xs.length := (panics_append _).mpr (.inr ⟨rfl, rfl⟩)
      constructor
      · intro heq i hi hlast
        have hil : i = xs.length := by
          rcases (panics_append i).mp hi with hb | ⟨hi, -⟩
          · exact absurd hp (hlast _ hb.lt)
          · exact hi
        obtain ⟨j, hj⟩ := (parError_eq_some (err xs.length)).mp heq.symm
        exact ⟨j, _, (lastFails_append (by simp) _ _).mpr hj, .inr (by rw [hil])⟩
      · intro hc
        have hn : ∀ k, xs.length < k → ¬Panics (xs ++ [.Panicked]) k := by
          intro k hk hpa
          have := hpa.lt
          simp only [length_append, length_singleton] at this
          omega
        obtain ⟨j, e, hj, ho⟩ := hc _ hp hn
        have hj := (lastFails_append (by simp) _ _).mp hj
        rcases ho with hl | heq
        · have := hj.1.lt
          omega
        · rw [heq] at hj
          exact ((parError_eq_some _).mpr ⟨j, hj⟩).symm

end

end camel_processor.parallel

/-! ## The parallel split against the sequential one -/

namespace camel_processor.split_segment

open camel_api (Exchange Message)
open camel_api.error (CamelError)
open camel_processor.error_handler (PipelineOutcome)
open camel_processor.parallel

variable {seg : SplitSegment} {original : Exchange} {bodies : List BodyEnd} {t : Tasks}
  {err : Nat → CamelError}

/-- The outcome is that of the sequential split, where a panic counts as a failure, and the
split completes only if every fragment did. -/
structure Refines (seg : SplitSegment) (original : Exchange) (err : Nat → CamelError)
    (bodies : List BodyEnd) (t : Tasks) : Prop where
  same : some (parallel_split seg original t) = sequential_split seg original (counted err bodies)
  complete : ∀ ex, parallel_split seg original t = .Completed ex →
    ∀ body ∈ bodies, ∃ ex, body = .Ended (.Completed ex)

theorem completed_counted (err : Nat → CamelError) (bodies : List BodyEnd) :
    (bodies.mapIdx (counted_outcome err)).filterMap completed_exchange =
      (bodies.filterMap BodyEnd.outcome).filterMap completed_exchange := by
  induction bodies using List.reverseRecOn with
  | nil => rfl
  | append_singleton bodies body ih =>
    rw [mapIdx_append, filterMap_append, ih, filterMap_append, filterMap_append]
    cases body <;> rfl

section

variable (hcollect : seg.stop_on_exception = false) (hno : ∀ i, ¬Stops bodies i)

include hcollect hno

theorem parallel_split_eq (h : Ends bodies seg.parallel_limit t) :
    parallel_split seg original t = finish seg original
      ((bodies.filterMap BodyEnd.outcome).filterMap completed_exchange) (parError bodies) := by
  simp only [parallel_split, h.sound.not_seen hno, hcollect, Bool.false_eq_true, if_false,
    completed_eq, last_error_eq, h.outcomes hno]
  rfl

theorem sequential_split_counted :
    sequential_split seg original (counted err bodies) = some (finish seg original
      ((bodies.filterMap BodyEnd.outcome).filterMap completed_exchange) (seqError err bodies)) := by
  have hc : counted err bodies = (bodies.mapIdx (counted_outcome err)).map .Ended := by
    rw [counted, mapIdx_eq_iff]
    intro i
    simp
    rfl
  have hs : ∀ ex, .Stopped ex ∉ bodies.mapIdx (counted_outcome err) := by
    intro ex hex
    obtain ⟨i, hi, heq⟩ := mem_mapIdx.mp hex
    cases hb : bodies[i] with
    | Ended outcome =>
      rw [hb] at heq
      refine hno i ⟨ex, ?_⟩
      rw [getElem?_eq_getElem hi, hb]
      exact congrArg (some ∘ BodyEnd.Ended) heq
    | Panicked => simp [hb, counted_outcome] at heq
  rw [sequential_split, hcollect, hc, sequential_collects _ _ hs, completed_counted]
  rfl

end

theorem finish_inj {outputs : List Exchange} {e e' : Option CamelError}
    (h : finish seg original outputs e = finish seg original outputs e') : e = e' := by
  cases e with
  | none => cases e' <;> simp [finish] at h ⊢
  | some e => cases e' <;> simp [finish] at h ⊢; exact h

theorem all_complete (hno : ∀ i, ¬Stops bodies i) (hn : seqError err bodies = none) :
    ∀ body ∈ bodies, ∃ ex, body = .Ended (.Completed ex) := by
  induction bodies using List.reverseRecOn with
  | nil => simp
  | append_singleton bodies last ih =>
    rw [seqError_append] at hn
    have hlast : ∃ ex, last = .Ended (.Completed ex) := by
      match last with
      | .Panicked | .Ended (.Failed e) => simp [counted_outcome, keep_error] at hn
      | .Ended (.Stopped ex) => exact absurd ⟨ex, by simp⟩ (hno bodies.length)
      | .Ended (.Completed ex) => exact ⟨ex, rfl⟩
    have hb : ∀ i, ¬Stops bodies i := by
      intro i ⟨ex, hi⟩
      refine hno i ⟨ex, ?_⟩
      rw [getElem?_append_left (List.getElem?_eq_some_iff.mp hi).1]
      exact hi
    intro body hbo
    obtain ⟨ex, rfl⟩ := hlast
    rcases mem_append.mp hbo with hf | hbo
    · exact ih hb hn body hf
    · exact ⟨ex, mem_singleton.mp hbo⟩

/-- Where errors are collected and no fragment stops, every schedule gives what the
sequential split gives exactly when the last panic is covered by a failure. -/
theorem parallel_split_refines_iff (seg : SplitSegment) (original : Exchange)
    (err : Nat → CamelError) (bodies : List BodyEnd)
    (hcollect : seg.stop_on_exception = false) (hno : ∀ i, ¬Stops bodies i) :
    ((∃ t, Ends bodies seg.parallel_limit t) ∧
      ∀ t, Ends bodies seg.parallel_limit t → Refines seg original err bodies t) ↔
    PanicsCovered err bodies := by
  rw [← seqError_eq_parError]
  constructor
  · rintro ⟨⟨t, hen⟩, hr⟩
    have hs := (hr t hen).same
    rw [parallel_split_eq hcollect hno hen, sequential_split_counted hcollect hno] at hs
    exact (finish_inj (Option.some.inj hs)).symm
  · intro hc
    refine ⟨exists_ends bodies seg.parallel_limit, ?_⟩
    intro t hen
    refine ⟨?_, ?_⟩
    · rw [parallel_split_eq hcollect hno hen, sequential_split_counted hcollect hno, hc]
    · intro ex hco
      rw [parallel_split_eq hcollect hno hen, ← hc] at hco
      refine @all_complete _ err hno ?_
      cases he : seqError err bodies with
      | none => rfl
      | some e => simp [finish, he] at hco

/-- Three fragments with the limit 2: the second panics and the third fails. -/
theorem a_later_failure_covers_a_panic :
    (∃ t, Ends [.Ended (.Completed (.new .default)), .Panicked, .Ended (.Failed .ChannelClosed)]
      (some 2) t) ∧
    ∀ t, Ends [.Ended (.Completed (.new .default)), .Panicked, .Ended (.Failed .ChannelClosed)]
      (some 2) t → Refines ⟨some 2, false, .CollectAll, fun _ => none⟩ (.new .default)
        (fun _ => .ProcessorError "fragment panicked")
        [.Ended (.Completed (.new .default)), .Panicked, .Ended (.Failed .ChannelClosed)] t := by
  refine (parallel_split_refines_iff ⟨some 2, false, .CollectAll, fun _ => none⟩ (.new .default)
    (fun _ => .ProcessorError "fragment panicked")
    [.Ended (.Completed (.new .default)), .Panicked, .Ended (.Failed .ChannelClosed)] rfl ?_).mpr ?_
  · rintro i ⟨ex, hi⟩
    match i with
    | 0 | 1 | 2 | i + 3 => simp at hi
  · intro i hi _
    refine ⟨2, .ChannelClosed, ⟨rfl, ?_⟩, .inl ?_⟩
    · intro k e hk hf
      have := hf.lt
      simp only [length_cons, length_nil] at this
      omega
    · match i with
      | 0 | 1 => omega
      | 2 | i + 3 => simp [Panics] at hi

/-- The one fragment panics. The sequential split would fail, the parallel one completes. -/
theorem a_panic_is_lost : ∃ t, Ends [.Panicked] none t ∧
    parallel_split ⟨none, false, .CollectAll, fun _ => none⟩ (.new .default) t =
      .Completed (.new ⟨fun _ => none, .Json (.Array [])⟩) ∧
    sequential_split ⟨none, false, .CollectAll, fun _ => none⟩ (.new .default)
      (counted (fun _ => .ProcessorError "fragment panicked") [.Panicked]) =
      some (.Failed (.ProcessorError "fragment panicked")) ∧
    ¬Refines ⟨none, false, .CollectAll, fun _ => none⟩ (.new .default)
      (fun _ => .ProcessorError "fragment panicked") [.Panicked] t := by
  have hp : parallel_split ⟨none, false, .CollectAll, fun _ => none⟩ (.new .default)
      ⟨false, none, none, [.Dead], [0]⟩ =
      .Completed (.new ⟨fun _ => none, .Json (.Array [])⟩) := by
    simp [parallel_split, Tasks.results, Tasks.given, sort_by_idx, last_error, completed, finish,
      aggregate_completed, Exchange.new, Message.default]
  refine ⟨⟨false, none, none, [.Dead], [0]⟩,
    ⟨⟨[.advance 0 false, .advance 0 false, .advance 0 false, .join 0], rfl⟩, ?_⟩, hp, rfl, ?_⟩
  · intro i hi
    simpa using hi
  · intro hr
    have hs := hr.same
    rw [hp] at hs
    cases hs

end camel_processor.split_segment

/-! ## Stops in parallel -/

namespace camel_processor.parallel

open camel_api (Exchange)
open camel_api.error (CamelError)
open camel_processor.error_handler (PipelineOutcome)

variable {bodies : List BodyEnd} {parallel_limit : Option Nat} {t : Tasks} {i : Nat}
  {ex : Exchange} {par : Tasks → PipelineOutcome} {seq : Option PipelineOutcome}

def LowestStop (bodies : List BodyEnd) (i : Nat) (ex : Exchange) : Prop :=
  bodies[i]? = some (.Ended (.Stopped ex)) ∧ ∀ j < i, ¬Stops bodies j

def StopAlike (bodies : List BodyEnd) (ex : Exchange) : Prop :=
  ∀ (j : Nat) (ex' : Exchange), bodies[j]? = some (.Ended (.Stopped ex')) → ex' = ex

/-- The stop of body `i` is the outcome of a segment: there are schedules, each of them ends
with it, and so does the sequential mode if the bodies before it complete. -/
structure StopWins (bodies : List BodyEnd) (parallel_limit : Option Nat) (i : Nat)
    (ex : Exchange) (par : Tasks → PipelineOutcome) (seq : Option PipelineOutcome) : Prop where
  some_schedule : ∃ t, Ends bodies parallel_limit t
  every_schedule : ∀ t, Ends bodies parallel_limit t → par t = .Stopped ex
  one_by_one : (∀ j < i, ∃ ex', bodies[j]? = some (.Ended (.Completed ex'))) →
    seq = some (.Stopped ex)

theorem sequential_stops {stop_on_exception : Bool}
    {finish : List Exchange → Option CamelError → PipelineOutcome}
    (hi : bodies[i]? = some (.Ended (.Stopped ex)))
    (hb : ∀ j < i, ∃ ex', bodies[j]? = some (.Ended (.Completed ex')))
    (outputs : List Exchange) (last : Option CamelError) :
    sequential stop_on_exception finish bodies outputs last = some (.Stopped ex) := by
  induction bodies generalizing i outputs with
  | nil => simp at hi
  | cons body bodies ih =>
    cases i with
    | zero =>
      simp only [getElem?_cons_zero, Option.some.injEq] at hi
      rw [hi]
      rfl
    | succ i =>
      obtain ⟨ex', hf⟩ := hb 0 (by omega)
      simp only [getElem?_cons_zero, Option.some.injEq] at hf
      rw [hf]
      refine ih (i := i) hi ?_ (outputs ++ [ex'])
      intro j hj
      exact hb (j + 1) (by omega)

theorem Ends.stopped_outcome (h : Ends bodies parallel_limit t) (original : Exchange)
    (hst : Stops bodies i) :
    t.stopped_seen = true ∧ ∃ w ex, t.stopped_idx = some w ∧
      bodies[w]? = some (.Ended (.Stopped ex)) ∧ stopped_outcome original t = .Stopped ex := by
  obtain ⟨hse, w, ex, hw, hs, hb⟩ := h.sound.winner_of_complete h.2 hst
  refine ⟨hse, w, ex, hw, hb, ?_⟩
  have hg : t.given w = some (w, .Stopped ex) := by simp [Tasks.given, hs]
  have hm : (w, .Stopped ex) ∈ t.results :=
    mem_filterMap.mpr ⟨w, h.2 w (List.getElem?_eq_some_iff.mp hs).1, hg⟩
  have hf : (t.results.find? fun (idx, _) => idx = w) = some (w, .Stopped ex) := by
    cases hfi : t.results.find? fun (idx, _) => idx = w with
    | none => simpa using find?_eq_none.mp hfi _ hm
    | some p =>
      have hp := find?_some hfi
      simp only [decide_eq_true_eq] at hp
      obtain ⟨j, -, hj⟩ := mem_filterMap.mp (mem_of_find?_eq_some hfi)
      rw [← given_fst hj, hp, hg] at hj
      exact hj.symm
  simp only [parallel.stopped_outcome, hw, hf]

theorem exists_winner (parallel_limit : Option Nat)
    (hb : bodies[i]? = some (.Ended (.Stopped ex))) :
    ∃ t, Ends bodies parallel_limit t ∧ t.stopped_idx = some i := by
  obtain ⟨events, t₁, hr, hf, hi⟩ := stops_alone parallel_limit hb
  obtain ⟨events', t, hr', hc⟩ :=
    ((sound_spawn bodies parallel_limit).run events hr).can_complete
  refine ⟨t, ⟨⟨events ++ events', ?_⟩, hc⟩, ?_⟩
  · rw [Tasks.run_append hr]
    exact hr'
  · rw [hf.run events' hr', hi]

theorem stopWins_iff (original : Exchange) (hl : LowestStop bodies i ex)
    (hp : ∀ t, t.stopped_seen = true → par t = stopped_outcome original t)
    (hse : (∀ j < i, ∃ ex', bodies[j]? = some (.Ended (.Completed ex'))) →
      seq = some (.Stopped ex)) :
    StopWins bodies parallel_limit i ex par seq ↔ StopAlike bodies ex := by
  constructor
  · intro hwi j ex' hj
    obtain ⟨t, he, hi⟩ := exists_winner parallel_limit hj
    obtain ⟨hs, w, exw, hw, hb, ho⟩ := he.stopped_outcome original
      ⟨ex', hj⟩
    rw [hi] at hw
    cases hw
    rw [hj] at hb
    have hst := hwi.every_schedule t he
    rw [hp t hs, ho] at hst
    simp only [Option.some.injEq, BodyEnd.Ended.injEq, PipelineOutcome.Stopped.injEq] at hb hst
    rw [hb, hst]
  · intro ha
    refine ⟨exists_ends bodies parallel_limit, ?_, hse⟩
    intro t he
    obtain ⟨hs, w, exw, -, hb, ho⟩ := he.stopped_outcome original
      ⟨ex, hl.1⟩
    rw [hp t hs, ho, ha w exw hb]

end camel_processor.parallel

namespace camel_processor.multicast_segment

open camel_api (Exchange)
open camel_processor.split_segment (SplitSegment parallel_split sequential_split)
open camel_processor.parallel

/-- What completes or stops in its task was not late, and did so on its own. -/
theorem branch_of_body {seg : MulticastSegment} {late : Nat → Bool} {branches : List BodyEnd}
    {i : Nat} {outcome : error_handler.PipelineOutcome}
    (h : (branch_bodies seg late branches)[i]? = some (.Ended outcome))
    (hf : ∀ err, outcome ≠ .Failed err) : branches[i]? = some (.Ended outcome) := by
  simp only [branch_bodies, getElem?_mapIdx, Option.map_eq_some_iff, BodyEnd.Ended.injEq] at h
  obtain ⟨branch, hb, ho⟩ := h
  unfold branch_outcome at ho
  split at ho
  · exact absurd ho.symm (hf _)
  · rw [hb, ho]
  · exact absurd ho.symm (hf _)

/-- In both segments the lowest stop is the outcome of every schedule exactly when all
bodies that stop do so with the same exchange. -/
theorem lowest_stop_wins_iff (split : SplitSegment) (multicast : MulticastSegment)
    (exchange : Exchange) (late : Nat → Bool) (bodies : List BodyEnd) (i : Nat) (ex : Exchange) :
    (LowestStop bodies i ex →
      (StopWins bodies split.parallel_limit i ex (parallel_split split exchange)
        (sequential_split split exchange bodies) ↔ StopAlike bodies ex)) ∧
    (LowestStop (branch_bodies multicast late bodies) i ex →
      (StopWins (branch_bodies multicast late bodies) multicast.parallel_limit i ex
        (parallel_multicast multicast exchange) (sequential_multicast multicast bodies) ↔
      StopAlike (branch_bodies multicast late bodies) ex)) := by
  constructor
  · intro hl
    refine stopWins_iff exchange hl ?_ ?_
    · intro t hs
      simp [parallel_split, hs]
    · intro hb
      exact sequential_stops hl.1 hb [] none
  · intro hl
    refine stopWins_iff exchange hl ?_ ?_
    · intro t hs
      simp [parallel_multicast, hs]
    · intro hb
      refine sequential_stops (branch_of_body hl.1 (by simp)) ?_ [] none
      intro j hj
      obtain ⟨ex', hj⟩ := hb j hj
      exact ⟨ex', branch_of_body hj (by simp)⟩

def textExchange (text : String) : Exchange := .new ⟨fun _ => none, .Text text⟩

/-- One body completes and one stops. -/
theorem a_single_stop_wins :
    StopWins [.Ended (.Completed (textExchange "a")), .Ended (.Stopped (textExchange "b"))]
      (some 1) 1 (textExchange "b")
      (parallel_split ⟨some 1, false, .LastWins, fun _ => none⟩ (textExchange "o"))
      (some (.Stopped (textExchange "b"))) ∧
    StopWins [.Ended (.Completed (textExchange "a")), .Ended (.Stopped (textExchange "b"))]
      none 1 (textExchange "b")
      (parallel_multicast ⟨none, true, none, fun _ => textExchange "o"⟩ (textExchange "o"))
      (some (.Stopped (textExchange "b"))) := by
  have hl : LowestStop
      [.Ended (.Completed (textExchange "a")), .Ended (.Stopped (textExchange "b"))] 1
      (textExchange "b") := by
    refine ⟨rfl, ?_⟩
    rintro j hj ⟨ex, hs⟩
    obtain rfl : j = 0 := by omega
    simp at hs
  have ha : StopAlike
      [.Ended (.Completed (textExchange "a")), .Ended (.Stopped (textExchange "b"))]
      (textExchange "b") := by
    intro j ex hj
    match j with
    | 0 | j + 2 => simp at hj
    | 1 => simpa using hj.symm
  have hw := lowest_stop_wins_iff ⟨some 1, false, .LastWins, fun _ => none⟩
    ⟨none, true, none, fun _ => textExchange "o"⟩ (textExchange "o") (fun _ => false)
    [.Ended (.Completed (textExchange "a")), .Ended (.Stopped (textExchange "b"))] 1
    (textExchange "b")
  exact ⟨(hw.1 hl).mpr ha, (hw.2 hl).mpr ha⟩

/-- Both bodies stop and the second one is first. The gate turns the first one away. -/
theorem the_second_stop_wins :
    ∃ t, Ends [.Ended (.Stopped (textExchange "a")), .Ended (.Stopped (textExchange "b"))] none t ∧
      LowestStop [.Ended (.Stopped (textExchange "a")), .Ended (.Stopped (textExchange "b"))] 0
        (textExchange "a") ∧
      branch_bodies ⟨none, false, none, fun _ => textExchange "o"⟩ (fun _ => false)
        [.Ended (.Stopped (textExchange "a")), .Ended (.Stopped (textExchange "b"))] =
        [.Ended (.Stopped (textExchange "a")), .Ended (.Stopped (textExchange "b"))] ∧
      parallel_split ⟨none, false, .LastWins, fun _ => none⟩ (textExchange "o") t ≠
        .Stopped (textExchange "a") ∧
      parallel_multicast ⟨none, false, none, fun _ => textExchange "o"⟩ (textExchange "o") t ≠
        .Stopped (textExchange "a") := by
  refine ⟨⟨true, some 1, none, [.Done none, .Done (some (.Stopped (textExchange "b")))], [0, 1]⟩,
    ⟨⟨(List.replicate 6 (.advance 1 false)).append [.advance 0 false, .join 0, .join 1], rfl⟩, ?_⟩,
    ⟨rfl, by simp⟩, rfl, ?_, ?_⟩
  · intro i hi
    match i with
    | 0 | 1 => simp
    | i + 2 => exact absurd hi (by simp)
  all_goals
    simp [parallel_split, parallel_multicast, stopped_outcome, Tasks.results, Tasks.given,
      textExchange, Exchange.new]

end camel_processor.multicast_segment
