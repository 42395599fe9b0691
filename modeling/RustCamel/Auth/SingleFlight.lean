-- Calls of `CachingPermissionEvaluator::evaluate` that run at the same time. Each key has a
-- mutex of its own, which the first call makes and the last one takes away again, and with it
-- one inner evaluation at a time.
import RustCamel.Auth.PermissionCache
import RustCamel.Lib.Interleaving

open List OrdMap

namespace camel_auth.permission_cache

open camel_api (Value)
open camel_auth.permission (AuthError PermissionDecision PermissionRequest)

/-! ## The mutexes of the keys -/

/-- An `Arc<Mutex<()>>`: whether it is locked, and how many point to it. -/
structure KeyMutex where
  locked : Bool
  strong_count : Nat

/-- The map of the mutexes. A mutex is known by its place among all that were ever made. -/
structure InFlight where
  map : OrdMap String Nat
  mutexes : List KeyMutex

namespace InFlight

def new : InFlight := ⟨.empty, []⟩

variable (flight : InFlight)

def update (mutex : Nat) (f : KeyMutex → KeyMutex) : InFlight :=
  { flight with mutexes := flight.mutexes.modify mutex f }

/-- `entry(key).or_insert_with(..).clone()`. -/
def checkout (key : String) : InFlight × Nat :=
  match flight.map.get key with
  | some mutex =>
    (flight.update mutex fun m => { m with strong_count := m.strong_count + 1 }, mutex)
  | none =>
    let mutex := flight.mutexes.length
    (⟨flight.map.insert key mutex, flight.mutexes ++ [⟨false, 2⟩]⟩, mutex)

def locked (flight : InFlight) (mutex : Nat) : Bool := flight.mutexes[mutex]?.any (·.locked)

def lock (mutex : Nat) : InFlight := flight.update mutex fun m => { m with locked := true }

def unlock (mutex : Nat) : InFlight := flight.update mutex fun m => { m with locked := false }

/-- One that points to the mutex goes. -/
def forget (mutex : Nat) : InFlight :=
  flight.update mutex fun m => { m with strong_count := m.strong_count - 1 }

/-- The mutex of a key goes if nobody but the map points to it. -/
def cleanup (key : String) : InFlight :=
  match flight.map.get key with
  | none => flight
  | some mutex =>
    if flight.mutexes[mutex]?.any (·.strong_count = 1) then
      { flight.forget mutex with map := flight.map.remove key }
    else flight

end InFlight

/-! ## A call step by step -/

/-- Where `evaluate` stands. `now` is the time it read first, and `mutex` that of its key. A
call that is dropped gives back the lock, and then the mutex. -/
inductive Stage where
  | Entering
  | Reading (now : Nat)
  | Registering (now : Nat)
  | Locking (now mutex : Nat)
  | Checking (now mutex : Nat)
  | Evaluating (mutex : Nat)
  | Evicting (mutex : Nat) (decision : PermissionDecision)
  | Inserting (mutex : Nat) (decision : PermissionDecision)
  | Releasing (mutex : Nat) (result : Except AuthError PermissionDecision)
  | Forgetting (mutex : Nat) (result : Except AuthError PermissionDecision)
  | Cleaning (result : Except AuthError PermissionDecision)
  | Done (result : Except AuthError PermissionDecision)
  | Unwinding (mutex : Nat)
  | Abandoning (mutex : Nat)
  | Dropped

structure Evaluation where
  request : PermissionRequest
  key : String
  stage : Stage

structure Shared where
  now : Nat
  cache : Cache
  in_flight : InFlight

/-- What a call is told: to go on after some time, what the inner evaluator says, or that it
is dropped. -/
inductive Answer where
  | go (passed : Nat)
  | inner (result : Except AuthError PermissionDecision)
  | dropped

section

variable (sha256_hex : String → String) (to_string : Value → String)
  (options : PermissionCacheOptions)

/-- One step of `evaluate`. It can be dropped where it waits. -/
def advance (s : Shared) (t : Evaluation) : Answer → Option (Shared × Evaluation)
  | .go passed =>
    let s := { s with now := s.now + passed }
    match t.stage with
    | .Entering => some (s, { t with stage := .Reading s.now })
    | .Reading now =>
      match lookup options s.cache now t.key with
      | some decision => some (s, { t with stage := .Done (.ok decision) })
      | none => some (s, { t with stage := .Registering now })
    | .Registering now =>
      let (in_flight, mutex) := s.in_flight.checkout t.key
      some ({ s with in_flight }, { t with stage := .Locking now mutex })
    | .Locking now mutex =>
      if s.in_flight.locked mutex then none
      else
        some ({ s with in_flight := s.in_flight.lock mutex },
          { t with stage := .Checking now mutex })
    | .Checking now mutex =>
      match lookup options s.cache now t.key with
      | some decision => some (s, { t with stage := .Releasing mutex (.ok decision) })
      | none => some (s, { t with stage := .Evaluating mutex })
    | .Evicting mutex decision =>
      some ({ s with cache := evict_if_needed options s.cache s.now },
        { t with stage := .Inserting mutex decision })
    | .Inserting mutex decision =>
      some ({ s with cache := s.cache.insert t.key ⟨decision, s.now⟩ },
        { t with stage := .Releasing mutex (.ok decision) })
    | .Releasing mutex result =>
      some ({ s with in_flight := s.in_flight.unlock mutex },
        { t with stage := .Forgetting mutex result })
    | .Forgetting mutex result =>
      some ({ s with in_flight := s.in_flight.forget mutex }, { t with stage := .Cleaning result })
    | .Cleaning result =>
      some ({ s with in_flight := s.in_flight.cleanup t.key }, { t with stage := .Done result })
    | .Unwinding mutex =>
      some ({ s with in_flight := s.in_flight.unlock mutex }, { t with stage := .Abandoning mutex })
    | .Abandoning mutex =>
      some ({ s with in_flight := s.in_flight.forget mutex }, { t with stage := .Dropped })
    | .Evaluating _ | .Done _ | .Dropped => none
  | .inner result =>
    match t.stage, result with
    | .Evaluating mutex, .ok decision => some (s, { t with stage := .Evicting mutex decision })
    | .Evaluating mutex, .error err => some (s, { t with stage := .Releasing mutex (.error err) })
    | _, _ => none
  | .dropped =>
    match t.stage with
    | .Entering | .Reading _ | .Registering _ | .Cleaning _ =>
      some (s, { t with stage := .Dropped })
    | .Locking _ mutex => some (s, { t with stage := .Abandoning mutex })
    | .Checking _ mutex | .Evaluating mutex | .Evicting mutex _ | .Inserting mutex _ =>
      some (s, { t with stage := .Unwinding mutex })
    | _ => none

/-- Any number of calls over one cache. -/
def evaluations : Interleaving Shared PermissionRequest Evaluation Answer where
  start request := ⟨request, cache_key sha256_hex to_string request, .Entering⟩
  advance := advance options

end

/-! ## Who holds what -/

namespace Stage

/-- The mutex that the call points to. -/
def arc : Stage → Option Nat
  | .Locking _ mutex | .Checking _ mutex | .Evaluating mutex | .Evicting mutex _
  | .Inserting mutex _ | .Releasing mutex _ | .Forgetting mutex _ | .Unwinding mutex
  | .Abandoning mutex => some mutex
  | _ => none

/-- The mutex that the call has locked. -/
def guard : Stage → Option Nat
  | .Checking _ mutex | .Evaluating mutex | .Evicting mutex _ | .Inserting mutex _
  | .Releasing mutex _ | .Unwinding mutex => some mutex
  | _ => none

theorem arc_of_guard {stage : Stage} {mutex : Nat} (h : stage.guard = some mutex) :
    stage.arc = some mutex := by
  cases stage <;> first | exact h | cases h

end Stage

/-- What a step can do to the mutexes and to what the call holds: nothing, or one of the
operations. -/
inductive Moves (flight : InFlight) (key : String) : Stage → InFlight → Stage → Prop
  | keep {stage stage' : Stage} (harc : stage'.arc = stage.arc)
      (hguard : stage'.guard = stage.guard) : Moves flight key stage flight stage'
  | checkout {stage stage' : Stage} (harc : stage.arc = none) (hguard : stage.guard = none)
      (harc' : stage'.arc = some (flight.checkout key).2) (hguard' : stage'.guard = none) :
      Moves flight key stage (flight.checkout key).1 stage'
  | lock {stage stage' : Stage} {mutex : Nat} (hfree : flight.locked mutex = false)
      (harc : stage.arc = some mutex) (hguard : stage.guard = none)
      (harc' : stage'.arc = some mutex) (hguard' : stage'.guard = some mutex) :
      Moves flight key stage (flight.lock mutex) stage'
  | unlock {stage stage' : Stage} {mutex : Nat} (hguard : stage.guard = some mutex)
      (harc' : stage'.arc = some mutex) (hguard' : stage'.guard = none) :
      Moves flight key stage (flight.unlock mutex) stage'
  | forget {stage stage' : Stage} {mutex : Nat} (harc : stage.arc = some mutex)
      (hguard : stage.guard = none) (harc' : stage'.arc = none) (hguard' : stage'.guard = none) :
      Moves flight key stage (flight.forget mutex) stage'
  | cleanup {stage stage' : Stage} (harc : stage.arc = none) (hguard : stage.guard = none)
      (harc' : stage'.arc = none) (hguard' : stage'.guard = none) :
      Moves flight key stage (flight.cleanup key) stage'

section

variable {options : PermissionCacheOptions} {s s' : Shared} {t t' : Evaluation} {answer : Answer}

theorem advance_moves (h : advance options s t answer = some (s', t')) :
    t'.request = t.request ∧ t'.key = t.key ∧
      Moves s.in_flight t.key t.stage s'.in_flight t'.stage := by
  obtain ⟨request, key, stage⟩ := t
  cases answer with
  | go passed =>
    cases stage with
    | Entering | Evicting mutex decision | Inserting mutex decision =>
      cases h
      exact ⟨rfl, rfl, .keep rfl rfl⟩
    | Reading now | Checking now mutex =>
      simp only [advance] at h
      split at h <;> (cases h; exact ⟨rfl, rfl, .keep rfl rfl⟩)
    | Registering now =>
      cases h
      exact ⟨rfl, rfl, .checkout rfl rfl rfl rfl⟩
    | Locking now mutex =>
      simp only [advance] at h
      split at h
      · cases h
      · rename_i hf
        cases h
        exact ⟨rfl, rfl, .lock (Bool.eq_false_iff.mpr hf) rfl rfl rfl rfl⟩
    | Evaluating mutex | Done result | Dropped => cases h
    | Releasing mutex result | Unwinding mutex =>
      cases h
      exact ⟨rfl, rfl, .unlock rfl rfl rfl⟩
    | Forgetting mutex result | Abandoning mutex =>
      cases h
      exact ⟨rfl, rfl, .forget rfl rfl rfl rfl⟩
    | Cleaning result =>
      cases h
      exact ⟨rfl, rfl, .cleanup rfl rfl rfl rfl⟩
  | inner result =>
    cases stage <;> cases result <;> simp only [advance, reduceCtorEq] at h
    all_goals
      cases h
      exact ⟨rfl, rfl, .keep rfl rfl⟩
  | dropped =>
    cases stage <;> simp only [advance, reduceCtorEq] at h
    all_goals
      cases h
      exact ⟨rfl, rfl, .keep rfl rfl⟩

end

/-! ## One mutex for each key -/

/-- Whoever points to a mutex points to that of its key in the map, the map knows how many do,
and a mutex is locked by one. -/
structure Exclusive (flight : InFlight) (tasks : List Evaluation) : Prop where
  arcs : ∀ t ∈ tasks, ∀ mutex, t.stage.arc = some mutex → flight.map.get t.key = some mutex
  counts : ∀ key mutex, flight.map.get key = some mutex → ∃ m, flight.mutexes[mutex]? = some m ∧
    m.strong_count = 1 + tasks.countP (fun t => t.stage.arc = some mutex)
  keys : ∀ key key' mutex, flight.map.get key = some mutex → flight.map.get key' = some mutex →
    key = key'
  locked : ∀ t ∈ tasks, ∀ mutex, t.stage.guard = some mutex → flight.locked mutex = true
  guards : tasks.OneClaim (fun t mutex => t.stage.guard = some mutex)

section

variable {flight : InFlight} {tasks : List Evaluation} {t t' : Evaluation} {i : Nat} {mutex : Nat}
  {flight' : InFlight}

section

variable (flight : InFlight) (mutex : Nat) (f : KeyMutex → KeyMutex)

theorem getElem?_update (other : Nat) :
    (flight.update mutex f).mutexes[other]? =
      if other = mutex then flight.mutexes[other]?.map f else flight.mutexes[other]? :=
  getElem?_modify_ite flight.mutexes mutex f other

theorem locked_update (other : Nat) (h : other = mutex → ∀ m, (f m).locked = m.locked) :
    (flight.update mutex f).locked other = flight.locked other := by
  unfold InFlight.locked
  rw [getElem?_update]
  split
  · rename_i heq
    cases flight.mutexes[other]? with
    | none => rfl
    | some m => simp [h heq m]
  · rfl

theorem locked_forget (other : Nat) : (flight.forget mutex).locked other = flight.locked other :=
  locked_update _ _ _ _ fun _ _ => rfl

end

section

variable (h : Exclusive flight tasks) (ht : tasks[i]? = some t)

include h ht

/-- The guards after a step of a call that holds the same lock as before, or none. -/
theorem Exclusive.guards_set
    (hg : ∀ mutex, t'.stage.guard = some mutex → t.stage.guard = some mutex) :
    (tasks.set i t').OneClaim (fun t mutex => t.stage.guard = some mutex) :=
  h.guards.set ht fun mutex hm => .inl (hg mutex hm)

theorem Exclusive.guards_unlocked (hg' : t'.stage.guard = none) :
    (tasks.set i t').OneClaim (fun t mutex => t.stage.guard = some mutex) := by
  refine h.guards_set ht ?_
  intro mutex hm
  rw [hg'] at hm
  cases hm

theorem Exclusive.arcs_set (hk : t'.key = t.key)
    (ha : ∀ mutex, t'.stage.arc = some mutex → flight.map.get t.key = some mutex) :
    ∀ u ∈ tasks.set i t', ∀ mutex, u.stage.arc = some mutex →
      flight.map.get u.key = some mutex := by
  intro u hu mutex hm
  rcases mem_set_cases ht hu with rfl | ⟨j, -, hj⟩
  · rw [hk]
    exact ha mutex hm
  · exact h.arcs u (mem_of_getElem? hj) mutex hm

theorem Exclusive.counts_update {f : KeyMutex → KeyMutex}
    (ho : ∀ other, other ≠ mutex → (t'.stage.arc = some other ↔ t.stage.arc = some other))
    (hs : ∀ m, 1 ≤ m.strong_count →
      (f m).strong_count + (if t.stage.arc = some mutex then 1 else 0) =
        m.strong_count + (if t'.stage.arc = some mutex then 1 else 0)) :
    ∀ key other, flight.map.get key = some other →
      ∃ m, (flight.update mutex f).mutexes[other]? = some m ∧
        m.strong_count = 1 + (tasks.set i t').countP (fun t => t.stage.arc = some other) := by
  intro key other hg
  obtain ⟨m, hm, hc⟩ := h.counts key other hg
  have hse := countP_set_add (a := t') (fun t => decide (t.stage.arc = some other)) ht
  simp only [decide_eq_true_eq] at hse
  rw [getElem?_update, hm]
  split
  · rename_i heq
    subst heq
    have hm' := hs m (by omega)
    refine ⟨f m, rfl, ?_⟩
    omega
  · rename_i hn
    simp only [ho other hn] at hse
    refine ⟨m, rfl, ?_⟩
    omega

theorem Exclusive.locked_set (hg' : t'.stage.guard = none)
    (hs : ∀ mutex, flight.locked mutex = true → flight'.locked mutex = true) :
    ∀ u ∈ tasks.set i t', ∀ mutex, u.stage.guard = some mutex → flight'.locked mutex = true := by
  intro u hu mutex hm
  rcases mem_set_cases ht hu with rfl | ⟨j, -, hj⟩
  · rw [hg'] at hm
    cases hm
  · exact hs mutex (h.locked u (mem_of_getElem? hj) mutex hm)

theorem Exclusive.keep (hk : t'.key = t.key) (ha : t'.stage.arc = t.stage.arc)
    (hg : t'.stage.guard = t.stage.guard) : Exclusive flight (tasks.set i t') where
  arcs := by
    refine h.arcs_set ht hk ?_
    intro mutex hmu
    rw [ha] at hmu
    exact h.arcs t (mem_of_getElem? ht) mutex hmu
  counts := by
    intro key mutex hge
    obtain ⟨m, hm, hc⟩ := h.counts key mutex hge
    refine ⟨m, hm, ?_⟩
    rw [countP_set_same ht (by rw [ha])]
    exact hc
  keys := h.keys
  locked := by
    intro u hu mutex hmu
    rcases mem_set_cases ht hu with rfl | ⟨j, -, hj⟩
    · rw [hg] at hmu
      exact h.locked t (mem_of_getElem? ht) mutex hmu
    · exact h.locked u (mem_of_getElem? hj) mutex hmu
  guards := h.guards_set ht fun mutex hmu => hg ▸ hmu

end

theorem Exclusive.lock (h : Exclusive flight tasks) (ht : tasks[i]? = some t)
    (hk : t'.key = t.key) (hf : flight.locked mutex = false)
    (ha : t.stage.arc = some mutex) (ha' : t'.stage.arc = some mutex)
    (hg' : t'.stage.guard = some mutex) : Exclusive (flight.lock mutex) (tasks.set i t') where
  arcs := by
    refine h.arcs_set ht hk ?_
    intro mutex' hmu
    rw [ha', ← ha] at hmu
    exact h.arcs t (mem_of_getElem? ht) mutex' hmu
  counts := by
    refine h.counts_update ht ?_ ?_
    · intro other _
      rw [ha, ha']
    · intro m _
      rw [ha, ha']
  keys := h.keys
  locked := by
    obtain ⟨m, hm, -⟩ := h.counts t.key mutex (h.arcs t (mem_of_getElem? ht) mutex ha)
    have hal : ∀ other, flight.locked other = true ∨ other = mutex →
        (flight.lock mutex).locked other = true := by
      intro other ho
      unfold InFlight.locked InFlight.lock at *
      rw [getElem?_update]
      split
      · rename_i heq
        rw [heq, hm]
        rfl
      · rename_i hn
        exact ho.resolve_right hn
    intro u hu mutex' hmu
    rcases mem_set_cases ht hu with rfl | ⟨j, -, hj⟩
    · rw [hg'] at hmu
      exact hal mutex' (.inr (Option.some.inj hmu).symm)
    · exact hal mutex' (.inl (h.locked u (mem_of_getElem? hj) mutex' hmu))
  guards := by
    apply h.guards.set ht
    intro mutex' hmu
    rw [hg'] at hmu
    cases hmu
    refine .inr fun u hu hl => ?_
    rw [h.locked u hu mutex hl] at hf
    cases hf

theorem Exclusive.unlock (h : Exclusive flight tasks) (ht : tasks[i]? = some t)
    (hk : t'.key = t.key) (hg : t.stage.guard = some mutex)
    (ha' : t'.stage.arc = some mutex) (hg' : t'.stage.guard = none) :
    Exclusive (flight.unlock mutex) (tasks.set i t') where
  arcs := by
    refine h.arcs_set ht hk ?_
    intro mutex' hm
    rw [ha', ← Stage.arc_of_guard hg] at hm
    exact h.arcs t (mem_of_getElem? ht) mutex' hm
  counts := by
    refine h.counts_update ht ?_ ?_
    · intro other _
      rw [Stage.arc_of_guard hg, ha']
    · intro m _
      rw [Stage.arc_of_guard hg, ha']
  keys := h.keys
  locked := by
    intro u hu mutex' hm
    rcases mem_set_cases ht hu with rfl | ⟨j, hn, hj⟩
    · rw [hg'] at hm
      cases hm
    · have ho : mutex' ≠ mutex := by
        rintro rfl
        exact hn (h.guards j i u t mutex' hj ht hm hg)
      unfold InFlight.unlock
      rw [locked_update _ _ _ _ fun heq => absurd heq ho]
      exact h.locked u (mem_of_getElem? hj) mutex' hm
  guards := h.guards_unlocked ht hg'

theorem Exclusive.forget (h : Exclusive flight tasks) (ht : tasks[i]? = some t)
    (hk : t'.key = t.key) (ha : t.stage.arc = some mutex) (ha' : t'.stage.arc = none)
    (hg' : t'.stage.guard = none) : Exclusive (flight.forget mutex) (tasks.set i t') where
  arcs := by
    refine h.arcs_set ht hk ?_
    intro mutex' hmu
    rw [ha'] at hmu
    cases hmu
  counts := by
    refine h.counts_update ht ?_ ?_
    · intro other hn
      simp [ha, ha', Ne.symm hn]
    · intro m hm
      simp only [ha, ha', if_true, reduceCtorEq, if_false]
      omega
  keys := h.keys
  locked := by
    refine h.locked_set ht hg' ?_
    intro other hl
    rw [locked_forget]
    exact hl
  guards := h.guards_unlocked ht hg'

/-- The last one takes the mutex away: nobody points to it any more. -/
theorem Exclusive.cleanup (h : Exclusive flight tasks) (ht : tasks[i]? = some t)
    (hke : t'.key = t.key) (ha : t.stage.arc = none) (hg : t.stage.guard = none)
    (ha' : t'.stage.arc = none) (hg' : t'.stage.guard = none) :
    Exclusive (flight.cleanup t.key) (tasks.set i t') := by
  have hk := h.keep ht hke (ha'.trans ha.symm) (hg'.trans hg.symm)
  unfold InFlight.cleanup
  cases hge : flight.map.get t.key with
  | none => exact hk
  | some mutex =>
    obtain ⟨m, hm, hc⟩ := hk.counts t.key mutex hge
    simp only [hm, Option.any_some, decide_eq_true_eq]
    split
    · rename_i hlast
      have hn : ∀ u ∈ tasks.set i t', u.stage.arc ≠ some mutex := by
        have hzero : (tasks.set i t').countP (fun t => decide (t.stage.arc = some mutex)) = 0 := by
          omega
        simpa using hzero
      constructor
      · intro u hu mutex' hmu
        have hold := hk.arcs u hu mutex' hmu
        have ho : u.key ≠ t.key := by
          intro heq
          rw [heq, hge] at hold
          rw [← hold] at hmu
          exact hn u hu hmu
        simp only [get_remove_of_ne _ ho]
        exact hold
      · intro key mutex' hge'
        have hold := get_of_remove hge'
        obtain ⟨m', hm', hc'⟩ := hk.counts key mutex' hold
        have ho : mutex' ≠ mutex := by
          rintro rfl
          rw [hk.keys key t.key mutex' hold hge, get_remove_self] at hge'
          cases hge'
        refine ⟨m', ?_, hc'⟩
        simp only [InFlight.forget, getElem?_update, if_neg ho]
        exact hm'
      · intro key key' mutex' hge₁ hge₂
        exact hk.keys key key' mutex' (get_of_remove hge₁) (get_of_remove hge₂)
      · intro u hu mutex' hmu
        have hl := hk.locked u hu mutex' hmu
        rw [← locked_forget flight mutex] at hl
        exact hl
      · exact hk.guards
    · exact hk

theorem Exclusive.arc_lt (h : Exclusive flight tasks) (ht : t ∈ tasks)
    (ha : t.stage.arc = some mutex) : mutex < flight.mutexes.length := by
  obtain ⟨m, hm, -⟩ := h.counts t.key mutex (h.arcs t ht mutex ha)
  exact (List.getElem?_eq_some_iff.mp hm).1

section

variable (h : Exclusive flight tasks) (ht : tasks[i]? = some t) (hkey : t'.key = t.key)

include h ht hkey

theorem Exclusive.share (hg : flight.map.get t.key = some mutex) (ha : t.stage.arc = none)
    (ha' : t'.stage.arc = some mutex) (hg' : t'.stage.guard = none) :
    Exclusive (flight.update mutex fun m => { m with strong_count := m.strong_count + 1 })
      (tasks.set i t') where
  arcs := by
    refine h.arcs_set ht hkey ?_
    intro mutex' hm
    rwa [← ha', hm] at hg
  counts := by
    refine h.counts_update ht ?_ ?_
    · intro other hn
      simp [ha, ha', Ne.symm hn]
    · intro m _
      simp [ha, ha']
  keys := h.keys
  locked := by
    refine h.locked_set ht hg' ?_
    intro other hl
    rw [locked_update _ _ (fun m => { m with strong_count := m.strong_count + 1 }) _
      fun _ _ => rfl]
    exact hl
  guards := h.guards_unlocked ht hg'

/-- The first call of a key makes its mutex, which nobody else can point to. -/
theorem Exclusive.create (hg : flight.map.get t.key = none) (har : t.stage.arc = none)
    (har' : t'.stage.arc = some flight.mutexes.length) (hg' : t'.stage.guard = none) :
    Exclusive ⟨flight.map.insert t.key flight.mutexes.length, flight.mutexes ++ [⟨false, 2⟩]⟩
      (tasks.set i t') := by
  have hlt : ∀ key mutex, flight.map.get key = some mutex → mutex < flight.mutexes.length := by
    intro key mutex hmu
    obtain ⟨m, hm, -⟩ := h.counts key mutex hmu
    exact (List.getElem?_eq_some_iff.mp hm).1
  constructor
  · intro u hu mutex hmu
    rcases mem_set_cases ht hu with rfl | ⟨j, -, hj⟩
    · rw [hkey, ← hmu, har', get_insert_self]
    · have hold := h.arcs u (mem_of_getElem? hj) mutex hmu
      have hne : u.key ≠ t.key := by
        intro heq
        rw [heq, hg] at hold
        cases hold
      rw [get_insert_of_ne _ _ hne]
      exact hold
  · intro key mutex hmu
    have hs := countP_set_add (a := t') (fun t => decide (t.stage.arc = some mutex)) ht
    rcases get_of_insert hmu with ⟨-, rfl⟩ | hold
    · refine ⟨⟨false, 2⟩, getElem?_concat_length, ?_⟩
      have hzero :
          tasks.countP (fun t => decide (t.stage.arc = some flight.mutexes.length)) = 0 := by
        rw [countP_eq_zero]
        intro u hu ha
        exact Nat.lt_irrefl _ (h.arc_lt hu (of_decide_eq_true ha))
      simp only [har, har', hzero, decide_true, if_true, reduceCtorEq, decide_false,
        Bool.false_eq_true, if_false] at hs
      simp only
      omega
    · obtain ⟨m, hm, hc⟩ := h.counts key mutex hold
      have hne : flight.mutexes.length ≠ mutex := Nat.ne_of_gt (hlt key mutex hold)
      refine ⟨m, (getElem?_append_left (hlt key mutex hold)).trans hm, ?_⟩
      simp only [har, har', Option.some.injEq, hne, reduceCtorEq, decide_false,
        Bool.false_eq_true, if_false] at hs
      omega
  · intro key key' mutex hmu hmu'
    rcases get_of_insert hmu with ⟨hk, hn⟩ | hold <;>
      rcases get_of_insert hmu' with ⟨hk', hn'⟩ | ho'
    · rw [hk, hk']
    · exact absurd hn (Nat.ne_of_lt (hlt key' mutex ho'))
    · exact absurd hn' (Nat.ne_of_lt (hlt key mutex hold))
    · exact h.keys key key' mutex hold ho'
  · refine h.locked_set ht hg' ?_
    intro mutex hl
    unfold InFlight.locked at hl ⊢
    cases hm : flight.mutexes[mutex]? with
    | none =>
      rw [hm] at hl
      cases hl
    | some m =>
      rw [hm] at hl
      rw [getElem?_append_left (List.getElem?_eq_some_iff.mp hm).1, hm]
      exact hl
  · exact h.guards_unlocked ht hg'

end

theorem Exclusive.checkout (h : Exclusive flight tasks) (ht : tasks[i]? = some t)
    (hkey : t'.key = t.key) (ha : t.stage.arc = none)
    (ha' : t'.stage.arc = some (flight.checkout t.key).2) (hg' : t'.stage.guard = none) :
    Exclusive (flight.checkout t.key).1 (tasks.set i t') := by
  unfold InFlight.checkout at ha' ⊢
  split at ha' <;> rename_i hg
  · exact h.share ht hkey hg ha ha' hg'
  · exact h.create ht hkey hg ha ha' hg'

theorem Exclusive.moves (h : Exclusive flight tasks) (ht : tasks[i]? = some t)
    (hkey : t'.key = t.key) (hm : Moves flight t.key t.stage flight' t'.stage) :
    Exclusive flight' (tasks.set i t') := by
  generalize hs : t.stage = stage at hm
  generalize hs' : t'.stage = stage' at hm
  cases hm <;> subst hs hs'
  case keep ha hg => exact h.keep ht hkey ha hg
  case checkout ha _ ha' hg' => exact h.checkout ht hkey ha ha' hg'
  case lock hf ha _ ha' hg' => exact h.lock ht hkey hf ha ha' hg'
  case unlock hg ha' hg' => exact h.unlock ht hkey hg ha' hg'
  case forget ha _ ha' hg' => exact h.forget ht hkey ha ha' hg'
  case cleanup ha hg ha' hg' => exact h.cleanup ht hkey ha hg ha' hg'

theorem Exclusive.new : Exclusive .new [] := by
  have he : ∀ key, InFlight.new.map.get key = none := get_empty
  constructor
  · intro t ht
    cases ht
  · intro key mutex hg
    rw [he] at hg
    cases hg
  · intro key key' mutex hg
    rw [he] at hg
    cases hg
  · intro t ht
    cases ht
  · intro i j t u mutex hi
    cases hi

theorem Exclusive.append (h : Exclusive flight tasks) (ha : t.stage.arc = none)
    (hg : t.stage.guard = none) : Exclusive flight (tasks ++ [t]) where
  arcs := by
    refine forall_mem_concat h.arcs ?_
    intro mutex hmu
    rw [ha] at hmu
    cases hmu
  counts := by
    intro key mutex hge
    obtain ⟨m, hm, hc⟩ := h.counts key mutex hge
    refine ⟨m, hm, ?_⟩
    rw [countP_append, countP_singleton, ha]
    exact hc
  keys := h.keys
  locked := by
    refine forall_mem_concat h.locked ?_
    intro mutex hmu
    rw [hg] at hmu
    cases hmu
  guards := h.guards.append fun mutex hmu => by
    rw [hg] at hmu
    cases hmu

end

section

variable {sha256_hex : String → String} {to_string : Value → String}
  {options : PermissionCacheOptions} {now : Nat} {cache : Cache}
  {s : Interleaving.State Shared Evaluation}

section

variable
  (h : (evaluations sha256_hex to_string options).Reach Interleaving.Free
    ⟨⟨now, cache, .new⟩, []⟩ s)

include h

theorem exclusive_of_reach : Exclusive s.shared.in_flight s.tasks := by
  refine h.invariant (P := fun s => Exclusive s.shared.in_flight s.tasks) ?_ ?_ ?_
  · exact .new
  · intro s request hs _
    exact hs.append rfl rfl
  · intro s i t answer shared t' hs _ ht ha
    obtain ⟨-, hkey, hm⟩ := advance_moves ha
    exact hs.moves ht hkey hm

theorem key_of_reach : ∀ t ∈ s.tasks, t.key = cache_key sha256_hex to_string t.request := by
  refine h.invariant
    (P := fun s => ∀ t ∈ s.tasks, t.key = cache_key sha256_hex to_string t.request) ?_ ?_ ?_
  · intro t ht
    cases ht
  · intro s request hs _
    exact forall_mem_concat hs rfl
  · intro s i t answer shared t' hs _ ht ha
    obtain ⟨hr, hkey, -⟩ := advance_moves ha
    intro u hu
    rcases mem_set_cases ht hu with rfl | ⟨j, -, hj⟩
    · rw [hkey, hr]
      exact hs t (mem_of_getElem? ht)
    · exact hs u (mem_of_getElem? hj)

end

/-- Two calls that wait for the inner evaluator with the same key are one. -/
theorem evaluations_are_single_flight
    (h : (evaluations sha256_hex to_string options).Reach Interleaving.Free
      ⟨⟨now, cache, .new⟩, []⟩ s)
    {i j : Nat} {t u : Evaluation} (hi : s.tasks[i]? = some t) (hj : s.tasks[j]? = some u)
    (hkey : cache_key sha256_hex to_string t.request = cache_key sha256_hex to_string u.request)
    {mutex mutex' : Nat} (ht : t.stage = .Evaluating mutex) (hu : u.stage = .Evaluating mutex') :
    i = j := by
  have he := exclusive_of_reach h
  have htm := mem_of_getElem? hi
  have hum := mem_of_getElem? hj
  have hs : t.key = u.key := by
    rw [key_of_reach h t htm, key_of_reach h u hum, hkey]
  -- both point to the mutex of the key, and only one has it locked
  have htge := he.arcs t htm mutex (by rw [ht]; rfl)
  have huge := he.arcs u hum mutex' (by rw [hu]; rfl)
  rw [hs, huge, Option.some.injEq] at htge
  have htg : t.stage.guard = some mutex := by rw [ht]; rfl
  have hug : u.stage.guard = some mutex := by rw [hu, htge]; rfl
  exact he.guards i j t u mutex hi hj htg hug

end

/-- The third call of a key comes when the first has failed and the second evaluates. -/
def threeCalls : List (Interleaving.Event PermissionRequest Answer) :=
  [.spawn (aliceReads [] "/orders"), .spawn (aliceReads [] "/orders"),
    .step 0 (.go 0), .step 0 (.go 0), .step 0 (.go 0), .step 0 (.go 0), .step 0 (.go 0),
    .step 1 (.go 0), .step 1 (.go 0), .step 1 (.go 0),
    .step 0 (.inner (.error .TokenExpired)), .step 0 (.go 0),
    .step 1 (.go 0), .step 1 (.go 0),
    .step 0 (.go 0), .step 0 (.go 0),
    .spawn (aliceReads ["admin"] "/orders"),
    .step 2 (.go 0), .step 2 (.go 0), .step 2 (.go 0)]

theorem second_of_three_calls_evaluates :
    ((evaluations twoHashes emptyObject oneSecond).run (fun _ _ => true)
        ⟨⟨0, .empty, .new⟩, []⟩ threeCalls).isSome = true ∧
      ∀ s, (evaluations twoHashes emptyObject oneSecond).run (fun _ _ => true)
          ⟨⟨0, .empty, .new⟩, []⟩ threeCalls = some s →
        ∀ (i : Nat) (t : Evaluation) (mutex : Nat), s.tasks[i]? = some t →
          cache_key twoHashes emptyObject t.request =
            cache_key twoHashes emptyObject (aliceReads [] "/orders") →
          t.stage = .Evaluating mutex → i = 1 := by
  refine ⟨by decide +kernel, ?_⟩
  intro s hru i t mutex hi hkey ht
  have hr : (evaluations twoHashes emptyObject oneSecond).Reach Interleaving.Free
      ⟨⟨0, .empty, .new⟩, []⟩ s := (Interleaving.reach_of_run hru).mono fun _ _ _ => trivial
  have hs : ∃ u, s.tasks[1]? = some u ∧ u.request = aliceReads [] "/orders" ∧
      u.stage = .Evaluating 0 := by
    cases hru
    exact ⟨_, rfl, rfl, rfl⟩
  obtain ⟨u, hu, hre, hst⟩ := hs
  exact evaluations_are_single_flight hr hi hu (hkey.trans (by rw [hre])) ht hst

end camel_auth.permission_cache
