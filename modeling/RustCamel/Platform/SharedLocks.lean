-- The locks that `KubernetesLeadershipService::start` shares between its handles, for one lock
-- name. A start call looks at the token of the lock and counts itself in by separate steps, and so
-- does the last handle that counts itself out and cancels the token. Where one falls into the gap
-- of the other, a handle is returned for a lock that is shut down.
import RustCamel.Lib.ListCount
import RustCamel.Lib.Runs

open List Option Bool

namespace camel_platform_kubernetes.shared_locks

/-! ## The service -/

inductive Elector where
  | Unspawned
  | Running
  -- terminated, and about to take the lock out of the map
  | Removing
  | Gone

structure CachedLock where
  ref_count : Nat
  -- the token `cancel`
  cancelled : Bool
  terminated : Bool
  elector : Elector

def CachedLock.new : CachedLock := ⟨0, false, false, .Unspawned⟩

/-- A start call, then the handle it has returned with its bridge task. A lock is named by its
number. `again` tells the second look into the map from the first. -/
inductive Stage where
  | Entering (again : Bool)
  -- under the mutex, before the token is read
  | Filtering (again : Bool) (lock : Nat)
  -- the token was not cancelled
  | Checked (again : Bool) (lock : Nat)
  -- in `create_cached_handle`, under the mutex
  | Sharing (lock : Nat)
  -- with a lock of its own in the map
  | Spawning (lock : Nat)
  -- in `create_cached_handle`, without the mutex
  | Joining (lock : Nat)
  | Holding (lock : Nat)
  -- the handle is cancelled
  | Cancelled (lock : Nat)
  -- it was the last one to count itself out
  | Leaving (lock : Nat)
  | Waiting (lock : Nat)
  | Left
  deriving DecidableEq

structure State where
  locks : List CachedLock
  -- the entry of the map
  entry : Option Nat
  mutex : Bool
  holders : List Stage

inductive Event where
  | start
  | step (i : Nat)
  -- the holder cancels its handle
  | cancel (i : Nat)
  | elector (lock : Nat)

namespace State

def empty : State := ⟨[], none, false, []⟩

variable (s : State)

def put (i : Nat) (stage : Stage) : State := { s with holders := s.holders.set i stage }

def change (lock : Nat) (f : CachedLock → CachedLock) : State :=
  { s with locks := s.locks.modify lock f }

/-- The look into the map has found no lock to share. -/
def not_shared (i : Nat) : Bool → State
  | false => { s.put i (.Entering true) with mutex := false }
  | true =>
    let lock := s.locks.length
    { s.put i (.Spawning lock) with
      locks := s.locks ++ [.new], entry := some lock, mutex := false }

/-- The next access of a start call or of a bridge task to what they share. -/
def advance (i : Nat) : Stage → Option State
  | .Entering again =>
    if s.mutex then none
    else
      match s.entry with
      | none => some (s.not_shared i again)
      | some lock => some { s.put i (.Filtering again lock) with mutex := true }
  | .Filtering again lock =>
    s.locks[lock]?.map fun l =>
      if l.cancelled then s.not_shared i again else s.put i (.Checked again lock)
  | .Checked again lock =>
    s.locks[lock]?.map fun l =>
      if l.terminated then s.not_shared i again else s.put i (.Sharing lock)
  | .Sharing lock =>
    some { (s.change lock fun l => { l with ref_count := l.ref_count + 1 }).put i
      (.Holding lock) with mutex := false }
  | .Spawning lock =>
    some ((s.change lock fun l => { l with elector := .Running }).put i (.Joining lock))
  | .Joining lock =>
    some ((s.change lock fun l => { l with ref_count := l.ref_count + 1 }).put i (.Holding lock))
  | .Cancelled lock =>
    s.locks[lock]?.map fun l =>
      let prev := l.ref_count
      (s.change lock fun l => { l with ref_count := l.ref_count - 1 }).put i
        (if prev = 1 then .Leaving lock else .Left)
  | .Leaving lock =>
    some ((s.change lock fun l => { l with cancelled := true }).put i (.Waiting lock))
  | .Waiting lock =>
    s.locks[lock]?.bind fun l => if l.terminated then some (s.put i .Left) else none
  | .Holding _ | .Left => none

/-- The elector of a lock runs until the token is cancelled. -/
def elector_step (lock : Nat) : Option State :=
  s.locks[lock]?.bind fun l =>
    match l.elector with
    | .Unspawned | .Gone => none
    | .Running =>
      if l.cancelled then
        some (s.change lock fun l => { l with terminated := true, elector := .Removing })
      else none
    | .Removing =>
      if s.mutex then none
      else
        let s := s.change lock fun l => { l with elector := .Gone }
        some { s with entry := if s.entry = some lock then none else s.entry }

def step : Event → Option State
  | .start => some { s with holders := s.holders ++ [.Entering false] }
  | .step i => s.holders[i]?.bind (s.advance i)
  | .cancel i =>
    match s.holders[i]? with
    | some (.Holding lock) => some (s.put i (.Cancelled lock))
    | _ => none
  | .elector lock => s.elector_step lock

end State

/-! ## The condition -/

namespace Stage

def counted (lock : Nat) : Stage → Bool
  | .Holding l | .Cancelled l => l = lock
  | _ => false

/-- Has the call made up its mind for the lock, and not counted itself in yet? -/
def approaches (lock : Nat) : Stage → Bool
  | .Checked _ l | .Sharing l | .Spawning l | .Joining l => l = lock
  | _ => false

end Stage

/-- The last handle does not count itself out of a lock that a start call is about to join, and no
start call reads the token of a lock whose last handle is about to cancel it. -/
def undisturbed (s : State) : Event → Bool
  | .step i =>
    match s.holders[i]? with
    | some (.Filtering _ lock) =>
      s.locks[lock]?.all fun l => l.cancelled || !s.holders.contains (.Leaving lock)
    | some (.Cancelled lock) =>
      s.locks[lock]?.all fun l => l.ref_count ≠ 1 || s.holders.all fun h => !h.approaches lock
    | _ => true
  | _ => true

/-! ## The invariant -/

/-- The lock is shut down, or about to be. -/
def dying (s : State) (lock : Nat) (l : CachedLock) : Prop :=
  l.cancelled = true ∨ .Leaving lock ∈ s.holders

structure Inv (s : State) : Prop where
  counts : ∀ lock l, s.locks[lock]? = some l → l.ref_count = s.holders.countP (Stage.counted lock)
  dead : ∀ lock l, s.locks[lock]? = some l → dying s lock l →
    l.ref_count = 0 ∧ ∀ h ∈ s.holders, h.approaches lock = false
  known : ∀ h ∈ s.holders, ∀ lock, h.counted lock = true ∨ h.approaches lock = true ∨
    h = .Leaving lock → lock < s.locks.length

variable {mutex : Bool}

section

variable {s : State} {i : Nat} {old new : Stage}

theorem Inv.uncounted (h : Inv s) {lock : Nat} {l : CachedLock} (hl : s.locks[lock]? = some l)
    (hzero : l.ref_count = 0) {stage : Stage} (hs : stage ∈ s.holders) :
    stage.counted lock = false := by
  have hc := h.counts lock l hl
  rw [hzero, eq_comm, countP_eq_zero] at hc
  simpa using hc stage hs

theorem inv_put (h : Inv s) (hi : s.holders[i]? = some old) {locks : List CachedLock}
    {entry : Option Nat}
    (hlo : ∀ lock l', locks[lock]? = some l' → ∃ l, s.locks[lock]? = some l ∧
      l'.ref_count + (if old.counted lock then 1 else 0) =
        l.ref_count + (if new.counted lock then 1 else 0) ∧
      (l'.cancelled = true → l.cancelled = true ∨ old = .Leaving lock))
    (hlen : s.locks.length ≤ locks.length)
    (hcou : ∀ lock, new.counted lock = true → old.counted lock = true ∨ old.approaches lock = true)
    (hap : ∀ lock, new.approaches lock = true → old.approaches lock = true ∨
      ∃ l, s.locks[lock]? = some l ∧ ¬dying s lock l)
    (hlea : ∀ lock, new = .Leaving lock → ∃ l, s.locks[lock]? = some l ∧ l.ref_count = 1 ∧
      old = .Cancelled lock ∧ ∀ h ∈ s.holders, h.approaches lock = false) :
    Inv ⟨locks, entry, mutex, s.holders.set i new⟩ := by
  have hold : old ∈ s.holders := mem_of_getElem? hi
  refine ⟨?_, ?_, ?_⟩
  · intro lock l' hl'
    obtain ⟨l, hl, hco, -⟩ := hlo lock l' hl'
    have hs := countP_set_add (a := new) (Stage.counted lock) hi
    have hb := h.counts lock l hl
    dsimp only
    omega
  · intro lock l' hl' hd
    obtain ⟨l, hl, hco, hca⟩ := hlo lock l' hl'
    by_cases hne : new = .Leaving lock
    · -- the last one counts itself out
      obtain ⟨l₁, hl₁, ho, hw, hn⟩ := hlea lock hne
      rw [hl] at hl₁
      cases hl₁
      rw [ho, hw, hne] at hco
      simp only [Stage.counted, decide_true, if_true, false_eq_true, if_false] at hco
      refine ⟨by omega, ?_⟩
      intro g hg
      rcases mem_set_cases hi hg with rfl | ⟨j, -, hj⟩
      · rw [hne]
        rfl
      · exact hn g (mem_of_getElem? hj)
    · have hb : dying s lock l := by
        rcases hd with hc | hle
        · rcases hca hc with hc | hw
          · exact .inl hc
          · rw [hw] at hold
            exact .inr hold
        · rcases mem_set_cases hi hle with heq | ⟨j, -, hj⟩
          · exact absurd heq.symm hne
          · exact .inr (mem_of_getElem? hj)
      obtain ⟨hzero, hn⟩ := h.dead lock l hl hb
      have hou : old.counted lock = false := h.uncounted hl hzero hold
      have hin : new.counted lock = false := by
        by_contra hin
        rcases hcou lock (by simpa using hin) with hw | hw
        · rw [hou] at hw
          cases hw
        · rw [hn old hold] at hw
          cases hw
      rw [hou, hin] at hco
      refine ⟨by simpa [hzero] using hco, ?_⟩
      intro g hg
      rcases mem_set_cases hi hg with rfl | ⟨j, -, hj⟩
      · by_contra hin
        rcases hap lock (by simpa using hin) with hw | ⟨l₁, hl₁, hal⟩
        · rw [hn old hold] at hw
          cases hw
        · rw [hl] at hl₁
          cases hl₁
          exact hal hb
      · exact hn g (mem_of_getElem? hj)
  · intro g hg lock hm
    dsimp only
    suffices hlt : lock < s.locks.length by omega
    rcases mem_set_cases hi hg with rfl | ⟨j, -, hj⟩
    · rcases hm with hc | ha | hl
      · rcases hcou lock hc with hw | hw
        · exact h.known old hold lock (.inl hw)
        · exact h.known old hold lock (.inr (.inl hw))
      · rcases hap lock ha with hw | ⟨l, hl, -⟩
        · exact h.known old hold lock (.inr (.inl hw))
        · exact (List.getElem?_eq_some_iff.mp hl).1
      · obtain ⟨l, hl, -⟩ := hlea lock hl
        exact (List.getElem?_eq_some_iff.mp hl).1
    · exact h.known g (mem_of_getElem? hj) lock hm

theorem change_locks {k : Nat} {f : CachedLock → CachedLock}
    (ho : ∀ lock, lock ≠ k → old.counted lock = new.counted lock)
    (hf : ∀ l, s.locks[k]? = some l →
      (f l).ref_count + (if old.counted k then 1 else 0) =
        l.ref_count + (if new.counted k then 1 else 0) ∧
      ((f l).cancelled = true → l.cancelled = true ∨ old = .Leaving k))
    (lock : Nat) (l' : CachedLock)
    (hl' : (s.locks.modify k f)[lock]? = some l') : ∃ l, s.locks[lock]? = some l ∧
      l'.ref_count + (if old.counted lock then 1 else 0) =
        l.ref_count + (if new.counted lock then 1 else 0) ∧
      (l'.cancelled = true → l.cancelled = true ∨ old = .Leaving lock) := by
  rw [getElem?_modify_ite] at hl'
  split at hl'
  · rename_i hlo
    subst hlo
    obtain ⟨l, hl, rfl⟩ := map_eq_some_iff.mp hl'
    exact ⟨l, hl, hf l hl⟩
  · rename_i hlo
    exact ⟨l', hl', by rw [ho lock hlo], .inl⟩

theorem same_locks {locks : List CachedLock}
    (hc : ∀ lock, old.counted lock = new.counted lock) (lock : Nat) (l' : CachedLock)
    (hl' : locks[lock]? = some l') : ∃ l, locks[lock]? = some l ∧
      l'.ref_count + (if old.counted lock then 1 else 0) =
        l.ref_count + (if new.counted lock then 1 else 0) ∧
      (l'.cancelled = true → l.cancelled = true ∨ old = .Leaving lock) :=
  ⟨l', hl', by rw [hc lock], .inl⟩

variable (h : Inv s)

include h

theorem inv_push : Inv { s with locks := s.locks ++ [.new] } := by
  have hu : ∀ g ∈ s.holders, ¬(g.counted s.locks.length = true ∨
      g.approaches s.locks.length = true ∨ g = .Leaving s.locks.length) := by
    intro g hg hm
    exact absurd (h.known g hg _ hm) (Nat.lt_irrefl _)
  have hca : ∀ lock l, (s.locks ++ [CachedLock.new])[lock]? = some l →
      s.locks[lock]? = some l ∨ lock = s.locks.length ∧ l = .new := by
    intro lock l hl
    rw [getElem?_append] at hl
    split at hl
    · exact .inl hl
    · rw [getElem?_singleton] at hl
      split at hl
      · cases hl
        exact .inr ⟨by omega, rfl⟩
      · cases hl
  refine ⟨?_, ?_, ?_⟩
  · intro lock l hl
    rcases hca lock l hl with hl | ⟨rfl, rfl⟩
    · exact h.counts lock l hl
    · dsimp only [CachedLock.new]
      rw [eq_comm, countP_eq_zero]
      intro g hg hc
      exact hu g hg (.inl hc)
  · intro lock l hl hd
    rcases hca lock l hl with hl | ⟨rfl, rfl⟩
    · exact h.dead lock l hl hd
    · rcases hd with hc | hle
      · cases hc
      · exact absurd (.inr (.inr rfl)) (hu _ hle)
  · intro g hg lock hm
    have hlt := h.known g hg lock hm
    simp only [length_append, length_singleton]
    omega

theorem inv_not_shared (hi : s.holders[i]? = some old) (hlo : ∀ lock, old.counted lock = false)
    (again : Bool) : Inv (s.not_shared i again) := by
  cases again with
  | false =>
    refine inv_put h hi (same_locks ?_) (Nat.le_refl _) ?_ ?_ ?_
    · intro lock
      rw [hlo lock]
      rfl
    all_goals
      intro lock hloc
      cases hloc
  | true =>
    have hp := inv_push h
    refine inv_put hp hi (same_locks ?_) (Nat.le_refl _) ?_ ?_ ?_
    · intro lock
      rw [hlo lock]
      rfl
    · intro lock hloc
      cases hloc
    · intro lock hloc
      obtain rfl : s.locks.length = lock := of_decide_eq_true hloc
      refine .inr ⟨.new, by simp, ?_⟩
      rintro (hc | hl)
      · cases hc
      · exact absurd (h.known _ hl _ (.inr (.inr rfl))) (Nat.lt_irrefl _)
    · intro lock hloc
      cases hloc

theorem inv_join (hi : s.holders[i]? = some old) {lock : Nat}
    (ha : old.approaches lock = true) (hu : ∀ other, old.counted other = false)
    {entry : Option Nat} :
    Inv ⟨s.locks.modify lock fun l => { l with ref_count := l.ref_count + 1 }, entry, mutex,
      s.holders.set i (.Holding lock)⟩ := by
  refine inv_put h hi (change_locks ?_ ?_) (by simp) ?_ ?_ ?_
  · intro other ho
    rw [hu other]
    exact (decide_eq_false (Ne.symm ho)).symm
  · intro l _
    rw [hu lock]
    exact ⟨by simp [Stage.counted], .inl⟩
  · intro other ho
    obtain rfl : lock = other := of_decide_eq_true ho
    exact .inr ha
  all_goals
    intro other ho
    cases ho

/-- A step of a start call or of a bridge task, outside the gaps of the others. -/
theorem inv_advance (hi : s.holders[i]? = some old) (hok : undisturbed s (.step i) = true)
    {s' : State} (hs : s.advance i old = some s') : Inv s' := by
  have hold : old ∈ s.holders := mem_of_getElem? hi
  simp only [undisturbed, hi] at hok
  cases old with
  | Entering again =>
    simp only [State.advance] at hs
    split at hs
    · cases hs
    · split at hs
      · cases hs
        exact inv_not_shared h hi (fun _ => rfl) again
      · cases hs
        refine inv_put h hi (same_locks fun _ => rfl) (Nat.le_refl _) ?_ ?_ ?_
        all_goals
          intro lock hlo
          cases hlo
  | Filtering again lock =>
    obtain ⟨l, hl, rfl⟩ := map_eq_some_iff.mp hs
    split
    · exact inv_not_shared h hi (fun _ => rfl) again
    · rename_i ha
      refine inv_put h hi (same_locks fun _ => rfl) (Nat.le_refl _) ?_ ?_ ?_
      · intro other ho
        cases ho
      · intro other ho
        obtain rfl : lock = other := of_decide_eq_true ho
        refine .inr ⟨l, hl, ?_⟩
        dsimp only at hok
        rw [hl, all_some, or_eq_true] at hok
        rintro (hc | hle)
        · exact ha hc
        · rcases hok with hc | hf
          · exact ha hc
          · simp [hle] at hf
      · intro other ho
        cases ho
  | Checked again lock =>
    obtain ⟨l, hl, rfl⟩ := map_eq_some_iff.mp hs
    split
    · exact inv_not_shared h hi (fun _ => rfl) again
    · refine inv_put h hi (same_locks fun _ => rfl) (Nat.le_refl _) ?_ ?_ ?_
      · intro other ho
        cases ho
      · intro other ho
        exact .inl ho
      · intro other ho
        cases ho
  | Sharing lock | Joining lock =>
    cases hs
    exact inv_join h hi (by simp [Stage.approaches]) (fun _ => rfl)
  | Spawning lock =>
    cases hs
    refine inv_put h hi (change_locks (fun _ _ => rfl) ?_)
      (Nat.le_of_eq (length_modify ..).symm) ?_ ?_ ?_
    · intro l _
      exact ⟨rfl, .inl⟩
    · intro other ho
      cases ho
    · intro other ho
      exact .inl ho
    · intro other ho
      cases ho
  | Cancelled lock =>
    obtain ⟨l, hl, rfl⟩ := map_eq_some_iff.mp hs
    have hp : 0 < l.ref_count := by
      rw [h.counts lock l hl, countP_pos_iff]
      exact ⟨_, hold, by simp [Stage.counted]⟩
    have hles : ∀ l', s.locks[lock]? = some l' → ∀ new : Stage, new.counted lock = false →
        l'.ref_count - 1 + (if (Stage.Cancelled lock).counted lock then 1 else 0) =
          l'.ref_count + (if new.counted lock then 1 else 0) := by
      intro l' hl' new hne
      rw [hl] at hl'
      cases hl'
      rw [hne]
      simp only [Stage.counted, decide_true, if_true, false_eq_true, if_false]
      omega
    have hot : ∀ new : Stage, (∀ other, new.counted other = false) → ∀ other, other ≠ lock →
        (Stage.Cancelled lock).counted other = new.counted other := by
      intro new hne other ho
      rw [hne other]
      exact decide_eq_false (Ne.symm ho)
    dsimp only
    split
    · rename_i hlast
      refine inv_put h hi (change_locks (hot _ fun _ => rfl) ?_)
        (Nat.le_of_eq (length_modify ..).symm) ?_ ?_ ?_
      · intro l' hl'
        exact ⟨hles l' hl' _ rfl, .inl⟩
      · intro other ho
        cases ho
      · intro other ho
        cases ho
      · intro other ho
        cases ho
        dsimp only at hok
        rw [hl, all_some, or_eq_true, List.all_eq_true] at hok
        refine ⟨l, hl, hlast, rfl, ?_⟩
        intro g hg
        rcases hok with hm | hn
        · exact absurd hlast (of_decide_eq_true hm)
        · simpa using hn g hg
    · refine inv_put h hi (change_locks (hot _ fun _ => rfl) ?_)
        (Nat.le_of_eq (length_modify ..).symm) ?_ ?_ ?_
      · intro l' hl'
        exact ⟨hles l' hl' _ rfl, .inl⟩
      all_goals
        intro other ho
        cases ho
  | Leaving lock =>
    cases hs
    refine inv_put h hi (change_locks (fun _ _ => rfl) ?_)
      (Nat.le_of_eq (length_modify ..).symm) ?_ ?_ ?_
    · intro l _
      exact ⟨rfl, fun _ => .inr rfl⟩
    all_goals
      intro other ho
      cases ho
  | Waiting lock =>
    obtain ⟨l, hl, ht⟩ := bind_eq_some_iff.mp hs
    split at ht
    · cases ht
      refine inv_put h hi (same_locks fun _ => rfl) (Nat.le_refl _) ?_ ?_ ?_
      all_goals
        intro other ho
        cases ho
    · cases ht
  | Holding lock | Left => cases hs

theorem inv_elector {lock : Nat} {f : CachedLock → CachedLock}
    (hf : ∀ l, (f l).ref_count = l.ref_count ∧ (f l).cancelled = l.cancelled) {entry : Option Nat} :
    Inv ⟨s.locks.modify lock f, entry, mutex, s.holders⟩ := by
  have hb : ∀ (other : Nat) (l' : CachedLock), (s.locks.modify lock f)[other]? = some l' →
      ∃ l, s.locks[other]? = some l ∧ l'.ref_count = l.ref_count ∧ l'.cancelled = l.cancelled := by
    intro other l' hl'
    rw [getElem?_modify_ite] at hl'
    split at hl'
    · obtain ⟨l, hl, rfl⟩ := map_eq_some_iff.mp hl'
      exact ⟨l, hl, hf l⟩
    · exact ⟨l', hl', rfl, rfl⟩
  refine ⟨?_, ?_, ?_⟩
  · intro other l' hl'
    obtain ⟨l, hl, hco, -⟩ := hb other l' hl'
    rw [hco]
    exact h.counts other l hl
  · intro other l' hl' hd
    obtain ⟨l, hl, hco, hca⟩ := hb other l' hl'
    rw [hco]
    apply h.dead other l hl
    rcases hd with hc | hle
    · exact .inl (by rw [← hca]; exact hc)
    · exact .inr hle
  · intro g hg other hm
    dsimp only
    rw [length_modify]
    exact h.known g hg other hm

theorem inv_start : Inv { s with holders := s.holders ++ [.Entering false] } := by
  refine ⟨?_, ?_, ?_⟩
  · intro lock l hl
    rw [countP_append]
    exact h.counts lock l hl
  · intro lock l hl hd
    have hb : dying s lock l := by
      rcases hd with hc | hle
      · exact .inl hc
      · exact .inr (by simpa using hle)
    obtain ⟨hzero, hn⟩ := h.dead lock l hl hb
    exact ⟨hzero, forall_mem_concat hn rfl⟩
  · refine forall_mem_concat h.known ?_
    rintro lock (hc | hc | hc) <;> cases hc

theorem inv_step {e : Event} {s' : State} (hok : undisturbed s e = true)
    (hs : s.step e = some s') : Inv s' := by
  cases e with
  | start =>
    cases hs
    exact inv_start h
  | step i =>
    obtain ⟨stage, hi, ha⟩ := bind_eq_some_iff.mp hs
    exact inv_advance h hi hok ha
  | cancel i =>
    simp only [State.step] at hs
    split at hs
    · rename_i lock hi
      cases hs
      refine inv_put h hi (same_locks fun _ => rfl) (Nat.le_refl _) ?_ ?_ ?_
      · intro other ho
        exact .inl ho
      all_goals
        intro other ho
        cases ho
    · cases hs
  | elector lock =>
    obtain ⟨l, -, hn⟩ := bind_eq_some_iff.mp hs
    split at hn
    · cases hn
    · cases hn
    · split at hn
      · cases hn
        apply inv_elector h
        intro l
        exact ⟨rfl, rfl⟩
      · cases hn
    · split at hn
      · cases hn
      · cases hn
        apply inv_elector h
        intro l
        exact ⟨rfl, rfl⟩

end

/-! ## Handles of live locks -/

/-- Every handle that was returned and not cancelled has a lock whose token is not cancelled. -/
def handles_alive (s : State) : Prop :=
  ∀ i lock : Nat, s.holders[i]? = some (.Holding lock) →
    ∃ l, s.locks[lock]? = some l ∧ l.cancelled = false

/-- In every run in which the last handle of a lock and a start call for it keep out of each
other's way, the lock of each handle in use is alive. -/
theorem undisturbed_handles_alive (s : State)
    (hreach : Runs.Reach State.step (fun s e => undisturbed s e = true) .empty s) :
    handles_alive s := by
  have hinv : Inv s := by
    apply hreach.invariant
    · refine ⟨?_, ?_, ?_⟩
      · intro lock l hl
        cases hl
      · intro lock l hl
        cases hl
      · intro g hg
        cases hg
    · intro s s' e h ho hs
      exact inv_step h ho hs
  intro i lock hi
  have hm := mem_of_getElem? hi
  have hco : (Stage.Holding lock).counted lock = true := by simp [Stage.counted]
  have hlt := hinv.known _ hm lock (.inl hco)
  refine ⟨s.locks[lock], getElem?_eq_getElem hlt, ?_⟩
  by_contra hc
  have hl : s.locks[lock]? = some s.locks[lock] := getElem?_eq_getElem hlt
  obtain ⟨hzero, -⟩ := hinv.dead lock _ hl (.inl (by simpa using hc))
  rw [hinv.uncounted hl hzero hm] at hco
  cases hco

/-- The first start call makes the lock and holds it. -/
def first_holder : List Event := [.start, .step 0, .step 0, .step 0, .step 0]

/-- A second one shares the lock, and the first one leaves it. -/
def one_after_the_other : List Event :=
  first_holder ++ [.start, .step 1, .step 1, .step 1, .step 1, .cancel 0, .step 0]

theorem second_handle_keeps_lock : ∃ s,
    Runs.run State.step undisturbed .empty one_after_the_other = some s ∧
      s.holders = [.Left, .Holding 0] ∧ handles_alive s := by
  have hru : (Runs.run State.step undisturbed .empty one_after_the_other).map (·.holders) =
      some [.Left, .Holding 0] := by
    decide
  obtain ⟨s, hs, hh⟩ := map_eq_some_iff.mp hru
  have hr := Runs.reach_of_run (fun _ _ ho => ho) hs
  exact ⟨s, hs, hh, undisturbed_handles_alive s hr⟩

/-- The second one has looked at the token when the first one leaves, and counts itself in after. -/
def into_the_gap : List Event :=
  first_holder ++ [.start, .step 1, .step 1, .cancel 0, .step 0, .step 0, .step 1, .step 1]

theorem handle_of_cancelled_lock : ¬∀ s : State,
    Runs.Reach State.step (fun _ _ => True) .empty s → handles_alive s := by
  intro hal
  have hru : (Runs.run State.step (fun _ _ => true) .empty into_the_gap).map
      (fun s => (s.holders, s.locks.map (·.cancelled))) =
        some ([.Waiting 0, .Holding 0], [true]) := by
    decide
  obtain ⟨s, hs, he⟩ := map_eq_some_iff.mp hru
  simp only [Prod.mk.injEq] at he
  obtain ⟨hh, hlo⟩ := he
  have hr : Runs.Reach State.step (fun _ _ => True) .empty s :=
    Runs.reach_of_run (fun _ _ _ => trivial) hs
  obtain ⟨l, hl, ha⟩ := hal s hr 1 0 (by rw [hh]; rfl)
  have hc : (s.locks.map (·.cancelled))[0]? = some l.cancelled := by
    rw [getElem?_map, hl]
    rfl
  rw [hlo, ha] at hc
  cases hc

end camel_platform_kubernetes.shared_locks
