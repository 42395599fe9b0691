-- The repository of `camel-core/src/cache/offload.rs`, which keeps the payloads of another
-- repository as blobs in a store: its operations, the runs of its clients, and what a set
-- can do.
import RustCamel.Cache.BlobNames

open Option

namespace camel_core.cache.offload

open camel_api.cache (CacheEntry CacheRepository ContentType RowStore)
open camel_api.error (CamelError)

/-! ## Durations -/

def NANOS_PER_SEC : Nat := 10 ^ 9

def DURATION_MAX : Nat := 2 ^ 64 * NANOS_PER_SEC - 1

def saturating_add (a b : Nat) : Nat := min (a + b) DURATION_MAX

def as_secs (nanos : Nat) : Nat := nanos / NANOS_PER_SEC

/-! ## The repository -/

/-- What a `PayloadStore` holds under a name. -/
abbrev Blobs := String → Option (List UInt8)

namespace Blobs

def put (store : Blobs) (name : String) (bytes : List UInt8) : Blobs :=
  fun n => if n = name then some bytes else store n

def unlink (store : Blobs) (name : String) : Blobs :=
  fun n => if n = name then none else store n

end Blobs

structure Settings where
  stale_retention : Nat
  sweep_interval : Nat
  payload_max_ttl : Nat

structure OffloadRepository (ρ : Type) where
  inner : ρ
  store : Blobs

/-- What goes wrong or takes time while a value is set: the silent read of the old row, the
put and the unlink may fail, and `delay` is the time up to the set of the index. -/
structure Faults where
  peek : Bool
  put : Bool
  unlink : Bool
  delay : Nat

section

variable {ρ : Type} (blake3_128hex : List UInt8 → String) (backend : CacheRepository ρ)
  (settings : Settings)

/-- The payload of a row is put back into it. A corrupt path and a payload that is gone are
misses. -/
def hydrate (store : Blobs) (entry : CacheEntry) : Option CacheEntry :=
  match entry.payload_path with
  | none => some entry
  | some raw_path =>
    match sanitize_blob_name raw_path with
    | none => none
    | some name =>
      match store name with
      | some bytes => some { entry with bytes, payload_path := none }
      | none => none

/-- The name of the old blob, if it may be unlinked. -/
def eligible (key : String) (old_name keep_name : Option String) : Option String :=
  old_name.filter fun old =>
    keep_name ≠ some old && (sanitize_blob_name old).isSome && (parse_death_epoch old).isSome &&
      starts_with old (blake3_128hex (as_bytes key) ++ ".")

/-- Yields the store and the name that was unlinked. -/
def reclaim_predecessor (store : Blobs) (unlink_fails : Bool) (key : String)
    (old_name keep_name : Option String) : Blobs × Option String :=
  match eligible blake3_128hex key old_name keep_name with
  | none => (store, none)
  | some old =>
    if unlink_fails then (store, none)
    else (store.unlink old, some old)

/-- The second in which the blob may go, in whole seconds. -/
def death_epoch (now ttl : Nat) : Nat :=
  as_secs (saturating_add (saturating_add (saturating_add now ttl) settings.stale_retention)
    settings.sweep_interval)

namespace OffloadRepository

variable (repo : OffloadRepository ρ)

def get (now : Nat) (key : String) : OffloadRepository ρ × Option CacheEntry :=
  let (inner, found) := backend.get repo.inner now key
  ({ repo with inner }, found.bind (hydrate repo.store))

def peek_stale (key : String) : OffloadRepository ρ × Option CacheEntry :=
  let (inner, found) := backend.peek_stale repo.inner key
  ({ repo with inner }, found.bind (hydrate repo.store))

def invalidate (key : String) : OffloadRepository ρ :=
  { repo with inner := backend.invalidate repo.inner key }

/-- The inner set, and then the reclaim if it was accepted. -/
def swap (now : Nat) (faults : Faults) (key : String) (entry : CacheEntry) (ttl : Nat)
    (old_name keep_name : Option String) :
    OffloadRepository ρ × Except CamelError Unit × Option String :=
  let (inner, result) := backend.set repo.inner now key entry (some ttl)
  match result with
  | .error err => ({ repo with inner }, .error err, none)
  | .ok () =>
    let (store, unlinked) :=
      reclaim_predecessor blake3_128hex repo.store faults.unlink key old_name keep_name
    (⟨inner, store⟩, .ok (), unlinked)

/-- The read before the swap: the name of the blob of the row that is there. -/
def capture (peek_fails : Bool) (key : String) : ρ × Option String :=
  if peek_fails then (repo.inner, none)
  else
    let (inner, row) := backend.peek_row_silent repo.inner key
    (inner, row.bind (·.payload_path))

/-- Yields also the name that was unlinked. -/
def set (now : Nat) (faults : Faults) (key : String) (entry : CacheEntry) (ttl : Option Nat) :
    OffloadRepository ρ × Except CamelError Unit × Option String :=
  let effective_ttl := ttl.getD settings.payload_max_ttl
  let (inner, old_name) := repo.capture backend faults.peek key
  let dest_name := blob_filename blake3_128hex key (death_epoch settings now effective_ttl) entry
  if faults.put then
    swap blake3_128hex backend ⟨inner, repo.store⟩ (now + faults.delay) faults key entry
      effective_ttl old_name none
  else
    swap blake3_128hex backend ⟨inner, repo.store.put dest_name entry.bytes⟩ (now + faults.delay)
      faults key { entry with bytes := [], payload_path := some dest_name } effective_ttl old_name
      (some dest_name)

end OffloadRepository

end

/-! ## Runs -/

/-- What clients do, and what happens beside them: time passes, the backend drops a row by
itself, and the store drops a blob whose time has come. -/
inductive Op where
  | set (key : String) (bytes : List UInt8) (content_type : ContentType) (ttl : Nat)
      (faults : Faults)
  | get (key : String)
  | peek_stale (key : String)
  | invalidate (key : String)
  | pass (nanos : Nat)
  | reclaim (key : String)
  | reap (name : String)

inductive Output where
  | none
  | stored (result : Except CamelError Unit)
  | served (entry : Option CacheEntry)

def newEntry (bytes : List UInt8) (content_type : ContentType) : CacheEntry :=
  ⟨bytes, none, content_type, none⟩

/-- The blob may be gone. -/
def late (now : Nat) (name : String) : Bool :=
  (parse_death_epoch name).any (fun death => death ≤ as_secs now)

structure World (ρ : Type) where
  now : Nat
  repo : OffloadRepository ρ

/-- The same without the decorator. -/
structure Plain (ρ : Type) where
  now : Nat
  inner : ρ

section

variable {ρ : Type} (blake3_128hex : List UInt8 → String) (backend : CacheRepository ρ)
  (settings : Settings)

def Plain.step (p : Plain ρ) : Op → Plain ρ × Output
  | .set key bytes content_type ttl faults =>
    let (inner, result) :=
      backend.set p.inner (p.now + faults.delay) key (newEntry bytes content_type) (some ttl)
    (⟨p.now + faults.delay, inner⟩, .stored result)
  | .get key =>
    let (inner, found) := backend.get p.inner p.now key
    ({ p with inner }, .served found)
  | .peek_stale key =>
    let (inner, found) := backend.peek_stale p.inner key
    ({ p with inner }, .served found)
  | .invalidate key => ({ p with inner := backend.invalidate p.inner key }, .none)
  | .pass nanos => ({ p with now := p.now + nanos }, .none)
  | .reclaim key => ({ p with inner := backend.reclaim p.inner p.now key }, .none)
  | .reap _ => (p, .none)

/-- Yields also the name that was unlinked. -/
def World.step (w : World ρ) : Op → World ρ × Output × Option String
  | .set key bytes content_type ttl faults =>
    let (repo, result, unlinked) := w.repo.set blake3_128hex backend settings w.now faults key
      (newEntry bytes content_type) (some ttl)
    (⟨w.now + faults.delay, repo⟩, .stored result, unlinked)
  | .get key =>
    let (repo, found) := w.repo.get backend w.now key
    ({ w with repo }, .served found, none)
  | .peek_stale key =>
    let (repo, found) := w.repo.peek_stale backend key
    ({ w with repo }, .served found, none)
  | .invalidate key => ({ w with repo := w.repo.invalidate backend key }, .none, none)
  | .pass nanos => ({ w with now := w.now + nanos }, .none, none)
  | .reclaim key =>
    let inner := backend.reclaim w.repo.inner w.now key
    ({ w with repo := { w.repo with inner } }, .none, none)
  | .reap name =>
    let store := if late w.now name then w.repo.store.unlink name else w.repo.store
    ({ w with repo := { w.repo with store } }, .none, none)

def Plain.run (p : Plain ρ) (ops : List Op) : Plain ρ :=
  ops.foldl (fun p op => (p.step backend op).1) p

def World.run (w : World ρ) (ops : List Op) : World ρ :=
  ops.foldl (fun w op => (w.step blake3_128hex backend settings op).1) w

end

/-! ## What a set does -/

section

variable {ρ : Type} (blake3_128hex : List UInt8 → String) {backend : CacheRepository ρ}
  (settings : Settings)

/-- The name of the blob that a set writes. -/
def destName (now ttl : Nat) (key : String) (entry : CacheEntry) : String :=
  blob_filename blake3_128hex key (death_epoch settings now ttl) entry

variable (rows : RowStore backend) (repo : OffloadRepository ρ)

theorem capture_spec (peek_fails : Bool) (key : String) :
    rows.table (repo.capture backend peek_fails key).1 = rows.table repo.inner ∧
      ∀ old, (repo.capture backend peek_fails key).2 = some old →
        ∃ row, (rows.table repo.inner).get key = some row ∧ row.payload_path = some old := by
  unfold OffloadRepository.capture
  cases peek_fails with
  | true => simp
  | false =>
    refine ⟨rows.silent_table repo.inner key, ?_⟩
    intro old hold
    simp only [Bool.false_eq_true, if_false, bind_eq_some_iff] at hold
    obtain ⟨row, hr, hold⟩ := hold
    rcases rows.silent_result repo.inner key with hs | hs
    · rw [hs] at hr
      exact ⟨row, hr, hold⟩
    · rw [hs] at hr
      cases hr

theorem reclaim_cases (store : Blobs) (unlink_fails : Bool) (key : String)
    (old_name keep_name : Option String) :
    reclaim_predecessor blake3_128hex store unlink_fails key old_name keep_name = (store, none) ∨
      ∃ old, old_name = some old ∧ keep_name ≠ some old ∧
        reclaim_predecessor blake3_128hex store unlink_fails key old_name keep_name =
          (store.unlink old, some old) := by
  unfold reclaim_predecessor
  cases he : eligible blake3_128hex key old_name keep_name with
  | none => exact .inl rfl
  | some old =>
    obtain ⟨hold, hm⟩ := filter_eq_some_iff.mp he
    simp only [Bool.and_eq_true, decide_eq_true_eq] at hm
    cases unlink_fails with
    | true => exact .inl rfl
    | false => exact .inr ⟨old, hold, hm.1.1.1, rfl⟩

/-- What a set may do: `stored` is the row it wants to set and `put` the store with the new
blob, if it could be put. -/
structure SetOutcome (rows : RowStore backend) (repo : OffloadRepository ρ) (now : Nat)
    (key : String) (ttl : Nat) (stored : CacheEntry) (put : Blobs)
    (out : OffloadRepository ρ × Except CamelError Unit × Option String) : Prop where
  result : out.2.1 = if rows.accepts ((rows.table repo.inner).rows.map (·.1)) key then .ok ()
    else .error rows.refusal
  table : rows.table out.1.inner =
    if rows.accepts ((rows.table repo.inner).rows.map (·.1)) key then
      (rows.table repo.inner).insert key { stored with expires_at := some (now + ttl) }
    else rows.table repo.inner
  store : (out.1.store = put ∧ out.2.2 = none) ∨
    rows.accepts ((rows.table repo.inner).rows.map (·.1)) key = true ∧
      ∃ old row, (rows.table repo.inner).get key = some row ∧ row.payload_path = some old ∧
        stored.payload_path ≠ some old ∧ out.1.store = put.unlink old ∧ out.2.2 = some old

theorem swap_outcome (inner : ρ) (hi : rows.table inner = rows.table repo.inner) (now : Nat)
    (faults : Faults) (key : String) (stored : CacheEntry) (ttl : Nat) (put : Blobs)
    {old_name : Option String}
    (hold : ∀ old, old_name = some old →
      ∃ row, (rows.table repo.inner).get key = some row ∧ row.payload_path = some old) :
    SetOutcome rows repo now key ttl stored put
      (OffloadRepository.swap blake3_128hex backend ⟨inner, put⟩ now faults key stored ttl old_name
        stored.payload_path) := by
  have ht := rows.set_table inner now key stored (some ttl)
  have hr := rows.set_result inner now key stored (some ttl)
  rw [hi, map_some] at ht
  rw [hi] at hr
  unfold OffloadRepository.swap
  generalize backend.set inner now key stored (some ttl) = answer at *
  obtain ⟨inner', result⟩ := answer
  simp only at ht hr
  cases ha : rows.accepts ((rows.table repo.inner).rows.map (·.1)) key with
  | false =>
    rw [ha] at ht hr
    simp only [Bool.false_eq_true, if_false] at ht hr
    subst hr
    exact ⟨by simp [ha], by simp [ha, ht], .inl ⟨rfl, rfl⟩⟩
  | true =>
    rw [ha] at ht hr
    simp only [if_true] at ht hr
    subst hr
    refine ⟨by simp [ha], by simp [ha, ht], ?_⟩
    rcases reclaim_cases blake3_128hex put faults.unlink key old_name
      stored.payload_path with hre | ⟨old, rfl, hk, hre⟩
    · left
      simp only [hre, and_self]
    · obtain ⟨row, hro, hp⟩ := hold old rfl
      simp only [hre]
      exact .inr ⟨ha, old, row, hro, hp, hk, rfl, rfl⟩

/-- Either the payload went into a blob and the row names it, or the row keeps it. -/
theorem set_outcome (rows : RowStore backend) (repo : OffloadRepository ρ) (now : Nat)
    (faults : Faults) (key : String) (bytes : List UInt8) (content_type : ContentType)
    (ttl : Nat) :
    let entry := newEntry bytes content_type
    let dest := destName blake3_128hex settings now ttl key entry
    let out := repo.set blake3_128hex backend settings now faults key entry (some ttl)
    SetOutcome rows repo (now + faults.delay) key ttl entry repo.store out ∨
      SetOutcome rows repo (now + faults.delay) key ttl
        ⟨[], some dest, content_type, none⟩ (repo.store.put dest bytes) out := by
  intro entry dest out
  obtain ⟨hi, hold⟩ := capture_spec rows repo faults.peek key
  have hs := fun stored put => swap_outcome blake3_128hex rows repo _ hi
    (now + faults.delay) faults key stored ttl put hold
  simp only [out, OffloadRepository.set]
  split
  · exact .inl (hs entry repo.store)
  · exact .inr (hs ⟨[], some dest, content_type, none⟩ (repo.store.put dest bytes))

end

end camel_core.cache.offload
