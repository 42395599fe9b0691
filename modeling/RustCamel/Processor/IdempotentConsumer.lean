-- The idempotent consumer of `idempotent_consumer.rs` over the repository in memory of
-- `memory_repository.rs`. Deliveries run at the same time, and in eager mode the key that
-- one of them adds keeps the others out.
import Mathlib.Data.List.MinMax
import Mathlib.Data.String.Basic
import RustCamel.Lib.Interleaving
import RustCamel.Lib.OrdMap
import RustCamel.Processor.ErrorHandler

open List OrdMap

/-! ## The repository -/

namespace camel_core.idempotent

/-- Each key with its number in the order of insertion. -/
structure MemoryIdempotentRepository where
  keys : OrdMap String Nat
  max_entries : Nat
  next_seq : Nat

namespace MemoryIdempotentRepository

variable (repo : MemoryIdempotentRepository) (key : String)

def new_with_max_entries (max_entries : Nat) : MemoryIdempotentRepository :=
  ⟨.empty, max_entries, 0⟩

def contains : Bool := repo.keys.contains_key key

/-- A new key does not fit. -/
def evicts : Bool := !repo.contains key && decide (repo.max_entries ≤ repo.keys.rows.length)

/-- The keys after the oldest one made room, if it had to. -/
def keys_with_room : OrdMap String Nat :=
  if repo.evicts key then
    match repo.keys.rows.argmin (·.2) with
    | some oldest => repo.keys.remove oldest.1
    | none => repo.keys
  else repo.keys

/-- Says whether the key is new. -/
def add : MemoryIdempotentRepository × Bool :=
  let prior := (repo.keys_with_room key).get key
  ({ repo with
      keys := (repo.keys_with_room key).insert key repo.next_seq
      next_seq := repo.next_seq + 1 }, prior.isNone)

def remove : MemoryIdempotentRepository := { repo with keys := repo.keys.remove key }

variable {repo key} {other : String}

theorem add_contains (h : repo.evicts key = false) :
    (repo.add key).1.contains other = true ↔ other = key ∨ repo.contains other = true := by
  simp only [add, contains, keys_with_room, h, Bool.false_eq_true, if_false,
    contains_key_eq_true, mem_insert, Prod.mk.injEq]
  by_cases ho : other = key
  · simp [ho]
  · simp [ho]

theorem add_new (h : repo.evicts key = false) : (repo.add key).2 = !repo.contains key := by
  simp only [add, keys_with_room, h, Bool.false_eq_true, if_false]
  rw [Bool.eq_iff_iff, Option.isNone_iff_eq_none, get_eq_none]
  simp [contains, OrdMap.contains_key]

theorem remove_contains (h : other ≠ key) :
    (repo.remove key).contains other = repo.contains other := by
  rw [Bool.eq_iff_iff]
  simp [remove, contains, h]

end MemoryIdempotentRepository

end camel_core.idempotent

namespace camel_processor.idempotent_consumer

open camel_api (Exchange)
open camel_api.error (CamelError)
open camel_core.idempotent (MemoryIdempotentRepository)
open camel_processor.error_handler (PipelineOutcome)

/-! ## The segment -/

/-- The settings of an `IdempotentConsumerSegment`. -/
structure Segment where
  eager : Bool
  remove_on_failure : Bool

/-- Where `run` stands. A delivery without a key runs the child all the same. `child` is the
outcome of the child, once it ran to its end. -/
inductive Stage where
  | Extracting
  | Checking (key : String)
  | Adding (key : String)
  | Starting (key : Option String)
  | Running (key : Option String)
  | Ended (key : Option String) (child : PipelineOutcome)
  | Done (key : Option String) (child : Option PipelineOutcome) (outcome : PipelineOutcome)
  | Dropped (key : Option String) (child : Option PipelineOutcome)

structure Delivery where
  exchange : Exchange
  stage : Stage

/-- What `run` is told: the message id, that the repository answers or that it cannot, how
the child ends, or that the delivery is dropped. -/
inductive Answer where
  | id (message_id : Except CamelError (Option String))
  | ready
  | unavailable (err : CamelError)
  | child (outcome : PipelineOutcome)
  | dropped

/-- The bookkeeping after the child. A repository that fails here is only logged. -/
def after_child (segment : Segment) (repo : MemoryIdempotentRepository) (key : String)
    (available : Bool) : PipelineOutcome → MemoryIdempotentRepository
  | .Completed _ => if !segment.eager && available then (repo.add key).1 else repo
  | .Failed _ =>
    if segment.eager && segment.remove_on_failure && available then repo.remove key else repo
  | .Stopped _ => repo

/-- One step of `run`, as far as the next thing it waits for. -/
def advance (segment : Segment) (repo : MemoryIdempotentRepository) (d : Delivery) :
    Answer → Option (MemoryIdempotentRepository × Delivery)
  | .id (.error e) =>
    match d.stage with
    | .Extracting => some (repo, { d with stage := .Done none none (.Failed e) })
    | _ => none
  | .id (.ok key) =>
    match d.stage, key with
    | .Extracting, none => some (repo, { d with stage := .Starting none })
    | .Extracting, some key => some (repo, { d with stage := .Checking key })
    | _, _ => none
  | .ready =>
    match d.stage with
    | .Checking key =>
      if repo.contains key then
        some (repo, { d with stage := .Done (some key) none (.Completed d.exchange) })
      else if segment.eager then some (repo, { d with stage := .Adding key })
      else some (repo, { d with stage := .Starting (some key) })
    | .Adding key =>
      let (repo, new) := repo.add key
      if new then some (repo, { d with stage := .Starting (some key) })
      else some (repo, { d with stage := .Done (some key) none (.Completed d.exchange) })
    | .Starting key => some (repo, { d with stage := .Running key })
    | .Ended none child => some (repo, { d with stage := .Done none (some child) child })
    | .Ended (some key) child =>
      some (after_child segment repo key true child,
        { d with stage := .Done (some key) (some child) child })
    | _ => none
  | .unavailable e =>
    match d.stage with
    | .Checking key => some (repo, { d with stage := .Done (some key) none (.Failed e) })
    | .Adding key => some (repo, { d with stage := .Done (some key) none (.Failed e) })
    | .Ended (some key) child =>
      some (after_child segment repo key false child,
        { d with stage := .Done (some key) (some child) child })
    | _ => none
  | .child outcome =>
    match d.stage with
    | .Running key => some (repo, { d with stage := .Ended key outcome })
    | _ => none
  | .dropped =>
    match d.stage with
    | .Extracting => some (repo, { d with stage := .Dropped none none })
    | .Checking key | .Adding key => some (repo, { d with stage := .Dropped (some key) none })
    | .Running key => some (repo, { d with stage := .Dropped key none })
    | .Ended key child => some (repo, { d with stage := .Dropped key (some child) })
    | _ => none

/-- Any number of deliveries over one repository. -/
def deliveries (segment : Segment) :
    Interleaving MemoryIdempotentRepository Exchange Delivery Answer where
  start exchange := ⟨exchange, .Extracting⟩
  advance := advance segment

/-! ## What a key keeps out -/

/-- The child came to an end that is not to be repeated. -/
def Kept : PipelineOutcome → Prop
  | .Completed _ => True
  | .Stopped _ => True
  | .Failed _ => False

/-- The key that a delivery added and did not give back: its child is about to run, runs or
waits for the bookkeeping, or it came to an end that is not to be repeated. -/
def Claims : Stage → String → Prop
  | .Starting key, k => key = some k
  | .Running key, k => key = some k
  | .Ended key _, k => key = some k
  | .Done key (some child) _, k => key = some k ∧ Kept child
  | .Dropped key (some child), k => key = some k ∧ Kept child
  | _, _ => False

/-- The child of a delivery for the key `k` ended, not to be repeated. -/
def Settled (k : String) (d : Delivery) : Prop :=
  match d.stage with
  | .Ended key child => key = some k ∧ Kept child
  | .Done key (some child) _ => key = some k ∧ Kept child
  | .Dropped key (some child) => key = some k ∧ Kept child
  | _ => False

def Runs (k : String) (d : Delivery) : Prop := d.stage = .Running (some k)

abbrev State := Interleaving.State MemoryIdempotentRepository Delivery
abbrev Event := Interleaving.Event Exchange Answer

/-- The event makes the repository drop no key. -/
def neverEvicts (s : State) : Event → Bool
  | .spawn _ => true
  | .step i _ =>
    match s.tasks[i]? with
    | some ⟨_, .Adding key⟩ => !s.shared.evicts key
    | _ => true

/-- A key that is claimed is stored, and one delivery claims it. -/
structure Exclusive (s : State) : Prop where
  stored : ∀ d ∈ s.tasks, ∀ k, Claims d.stage k → s.shared.contains k = true
  one : s.tasks.OneClaim (fun d k => Claims d.stage k)

variable {k : String}

section

variable {segment : Segment} {repo repo' : MemoryIdempotentRepository} {d d' : Delivery}
  {answer : Answer}

theorem after_child_unavailable (segment : Segment) (repo : MemoryIdempotentRepository)
    (key : String) (child : PipelineOutcome) :
    after_child segment repo key false child = repo := by
  cases child <;> simp [after_child]

theorem advance_cases (he : segment.eager = true)
    (h : advance segment repo d answer = some (repo', d')) :
    (repo' = repo ∧ ∀ k, Claims d'.stage k → Claims d.stage k) ∨
      (∃ key, d.stage = .Adding key ∧ repo' = (repo.add key).1 ∧
        ∀ k, Claims d'.stage k → k = key ∧ (repo.add key).2 = true) ∨
      ∃ key err, d.stage = .Ended (some key) (.Failed err) ∧ repo' = repo.remove key ∧
        ∀ k, ¬Claims d'.stage k := by
  obtain ⟨exchange, stage⟩ := d
  have hke : ∀ {repo'' : MemoryIdempotentRepository} {stage' : Stage},
      some (repo'', (⟨exchange, stage'⟩ : Delivery)) = some (repo', d') → repo'' = repo →
        (∀ k, Claims stage' k → Claims stage k) →
          repo' = repo ∧ ∀ k, Claims d'.stage k → Claims stage k := by
    rintro repo'' stage' heq rfl himp
    cases heq
    exact ⟨rfl, himp⟩
  cases answer with
  | id message_id =>
    cases message_id with
    | error e =>
      cases stage <;> simp only [advance, reduceCtorEq] at h
      exact .inl (hke h rfl (by simp [Claims]))
    | ok key =>
      cases stage <;> cases key <;> simp only [advance, reduceCtorEq] at h
      all_goals exact .inl (hke h rfl (by simp [Claims]))
  | ready =>
    cases stage with
    | Extracting | Running key | Done key child outcome | Dropped key child => cases h
    | Checking key =>
      simp only [advance, he, if_true] at h
      split at h
      all_goals exact .inl (hke h rfl (by simp [Claims]))
    | Adding key =>
      simp only [advance] at h
      split at h
      · rename_i hn
        cases h
        exact .inr (.inl ⟨key, rfl, rfl, fun k hk => ⟨(Option.some.inj hk).symm, hn⟩⟩)
      · cases h
        exact .inr (.inl ⟨key, rfl, rfl, fun k hk => hk.elim⟩)
    | Starting key => exact .inl (hke h rfl (by simp [Claims]))
    | Ended key child =>
      cases key with
      | none => exact .inl (hke h rfl (by simp [Claims]))
      | some key =>
        cases child with
        | Completed exchange' =>
          exact .inl (hke h (by simp [after_child, he]) (by simp [Claims]))
        | Stopped exchange' => exact .inl (hke h rfl (by simp [Claims]))
        | Failed err =>
          cases hr : segment.remove_on_failure with
          | true =>
            cases h
            exact .inr (.inr ⟨key, err, rfl, by simp [after_child, he, hr], fun k hk => hk.2⟩)
          | false =>
            exact .inl (hke h (by simp [after_child, hr]) (by simp [Claims, Kept]))
  | unavailable e =>
    cases stage with
    | Checking key | Adding key => exact .inl (hke h rfl (by simp [Claims]))
    | Ended key child =>
      cases key with
      | none => cases h
      | some key =>
        exact .inl (hke h (after_child_unavailable segment repo key child)
          (by simp +contextual [Claims]))
    | _ => cases h
  | child outcome =>
    cases stage <;> simp only [advance, reduceCtorEq] at h
    exact .inl (hke h rfl (by simp [Claims]))
  | dropped =>
    cases stage <;> simp only [advance, reduceCtorEq] at h
    all_goals exact .inl (hke h rfl (by simp +contextual [Claims]))

theorem advance_settled (h : advance segment repo d answer = some (repo', d'))
    (hs : Settled k d) : Settled k d' := by
  obtain ⟨exchange, stage⟩ := d
  cases stage with
  | Ended key child =>
    obtain ⟨rfl, hk⟩ := hs
    cases answer with
    | id message_id =>
      cases message_id with
      | error e => cases h
      | ok key => cases key <;> cases h
    | ready | unavailable e | dropped =>
      cases h
      exact ⟨rfl, hk⟩
    | child outcome => cases h
  | Done key child outcome | Dropped key child =>
    cases answer with
    | id message_id =>
      cases message_id with
      | error e => cases h
      | ok key => cases key <;> cases h
    | _ => cases h
  | _ => exact hs.elim

theorem claims_of_settled (h : Settled k d) : Claims d.stage k := by
  obtain ⟨exchange, stage⟩ := d
  cases stage with
  | Ended key child => exact h.1
  | Done key child outcome | Dropped key child =>
    cases child with
    | none => exact h.elim
    | some child => exact h
  | _ => exact h.elim

end

/-! ## Every run -/

section

variable {segment : Segment} {s s' : State}

theorem Exclusive.spawn (h : Exclusive s) (exchange : Exchange) :
    Exclusive { s with tasks := s.tasks ++ [(deliveries segment).start exchange] } where
  stored := by
    refine forall_mem_concat h.stored ?_
    intro k hk
    exact hk.elim
  one := h.one.append (fun k hk => hk.elim)

theorem Exclusive.step (hea : segment.eager = true) (h : Exclusive s) {i : Nat} {d d' : Delivery}
    {answer : Answer} {repo : MemoryIdempotentRepository}
    (hf : neverEvicts s (.step i answer) = true) (hd : s.tasks[i]? = some d)
    (hadv : advance segment s.shared d answer = some (repo, d')) :
    Exclusive ⟨repo, s.tasks.set i d'⟩ := by
  have hm := mem_of_getElem? hd
  rcases advance_cases hea hadv with ⟨rfl, himp⟩ | ⟨key, hs, rfl, hnew⟩ |
    ⟨key, err, hs, rfl, hn⟩
  · -- The claims are those from before, or fewer.
    refine ⟨?_, h.one.set hd fun k hk => .inl (himp k hk)⟩
    intro e he k hk
    rcases mem_or_eq_of_mem_set he with he | rfl
    · exact h.stored e he k hk
    · exact h.stored d hm k (himp k hk)
  · -- A key that nobody had is added, or the claims are fewer.
    have hr : s.shared.evicts key = false := by
      obtain ⟨exchange, stage⟩ := d
      cases hs
      simpa [neverEvicts, hd] using hf
    refine ⟨?_, h.one.set hd fun k hk => .inr ?_⟩
    · intro e he k hk
      rw [MemoryIdempotentRepository.add_contains hr]
      rcases mem_or_eq_of_mem_set he with he | rfl
      · exact .inr (h.stored e he k hk)
      · exact .inl (hnew k hk).1
    · obtain ⟨rfl, ha⟩ := hnew k hk
      rw [MemoryIdempotentRepository.add_new hr] at ha
      intro e he hc
      simp [h.stored e he k hc] at ha
  · -- The one that claimed the key gives it back.
    refine ⟨?_, h.one.set hd fun k hk => (hn k hk).elim⟩
    intro e he k hk
    obtain ⟨j, hj⟩ := getElem?_of_mem he
    rcases getElem?_set_cases hd hj with ⟨-, rfl⟩ | ⟨hne, hold⟩
    · exact (hn k hk).elim
    · have hke : k ≠ key := by
        rintro rfl
        have hc : Claims d.stage k := by rw [hs]; rfl
        exact hne (h.one j i e d k hold hd hk hc)
      rw [MemoryIdempotentRepository.remove_contains hke]
      exact h.stored e (mem_of_getElem? hold) k hk

/-- What deliveries can come to over a repository that never evicts. -/
abbrev Reached (segment : Segment) : State → State → Prop :=
  (deliveries segment).Reach (fun s e => neverEvicts s e = true)

theorem exclusive_of_reached (he : segment.eager = true) (h : Exclusive s)
    (hr : Reached segment s s') : Exclusive s' := by
  refine hr.invariant h ?_ ?_
  · intro s exchange hs _
    exact hs.spawn exchange
  · intro s i d answer repo d' hs hf hd ha
    exact hs.step he hf hd ha

theorem settled_of_reached (h : ∃ d ∈ s.tasks, Settled k d) (hr : Reached segment s s') :
    ∃ d ∈ s'.tasks, Settled k d := by
  refine Interleaving.Reach.invariant (P := fun s => ∃ d ∈ s.tasks, Settled k d) hr h ?_ ?_
  · rintro s exchange ⟨d, hd, hs⟩ _
    exact ⟨d, mem_append_left _ hd, hs⟩
  · rintro s i d answer repo d' ⟨e, he, hs⟩ _ hd ha
    rcases mem_set_or_eq d' hd he with he | rfl
    · exact ⟨e, he, hs⟩
    · have hl := (List.getElem?_eq_some_iff.mp hd).1
      exact ⟨d', mem_set hl d', advance_settled ha hs⟩

/-- No two children run for a key at the same time, and none runs once one of them has
completed or stopped, whatever happens later. -/
theorem eager_child_runs_once (remove_on_failure : Bool) (repo : MemoryIdempotentRepository)
    (s : State) (hreach : Reached ⟨true, remove_on_failure⟩ ⟨repo, []⟩ s) (k : String) :
    (∀ (i j : Nat) (d e : Delivery), s.tasks[i]? = some d → s.tasks[j]? = some e →
        Runs k d → Runs k e → i = j) ∧
      ∀ d ∈ s.tasks, Settled k d → ∀ s', Reached ⟨true, remove_on_failure⟩ s s' →
        ∀ e ∈ s'.tasks, ¬Runs k e := by
  have hs : Exclusive ⟨repo, []⟩ := ⟨by simp, by intro i j d e k hd; simp at hd⟩
  have hc : ∀ {d}, Runs k d → Claims d.stage k := by
    intro d hr
    rw [hr]
    rfl
  constructor
  · intro i j d e hi hj hd he
    exact (exclusive_of_reached rfl hs hreach).one i j d e k hi hj (hc hd) (hc he)
  · intro d hd hse s' hr' e he hr
    have hs' := exclusive_of_reached rfl hs (hreach.trans hr')
    obtain ⟨d', hd', hse'⟩ := settled_of_reached ⟨d, hd, hse⟩ hr'
    obtain ⟨i, hi⟩ := getElem?_of_mem hd'
    obtain ⟨j, hj⟩ := getElem?_of_mem he
    have hij := hs'.one i j d' e k hi hj (claims_of_settled hse') (hc hr)
    subst hij
    rw [hi] at hj
    cases hj
    rw [Settled, hr] at hse'
    exact hse'

/-- One delivery of the key `k` completes, and a second one is just checked. -/
def completesOnce : List Event :=
  let order := Exchange.new .default
  [.spawn order, .spawn order, .step 0 (.id (.ok (some "k"))), .step 0 .ready, .step 0 .ready,
    .step 0 .ready, .step 0 (.child (.Completed order)), .step 0 .ready,
    .step 1 (.id (.ok (some "k")))]

def completedOnce : State :=
  let order := Exchange.new .default
  ⟨⟨⟨[("k", 0)], pairwise_singleton _ _⟩, 5, 1⟩,
    [⟨order, .Done (some "k") (some (.Completed order)) (.Completed order)⟩,
      ⟨order, .Checking "k"⟩]⟩

theorem completed_child_runs_once :
    Reached ⟨true, true⟩ ⟨.new_with_max_entries 5, []⟩ completedOnce ∧
      ∀ s', Reached ⟨true, true⟩ completedOnce s' → ∀ e ∈ s'.tasks, ¬Runs "k" e :=
  have hru : (deliveries ⟨true, true⟩).run neverEvicts ⟨.new_with_max_entries 5, []⟩
      completesOnce = some completedOnce := rfl
  have hr := Interleaving.reach_of_run hru
  ⟨hr, (eager_child_runs_once true (.new_with_max_entries 5) completedOnce hr "k").2 _
    (.head _) ⟨rfl, trivial⟩⟩

end

end camel_processor.idempotent_consumer
