-- The cache repositories of `camel-api/src/cache.rs` and of `camel-core/src/cache`: what a
-- repository offers, the ones over redb and in memory, and that both are tables of rows.
import Mathlib.Data.String.Basic
import RustCamel.Api.Exchange
import RustCamel.Lib.OrdMap

/-! ## Entries -/

namespace camel_api.cache

open camel_api.error (CamelError)

inductive ContentType where
  | Bytes
  | Text
  | Json
  | Xml
  deriving DecidableEq

/-- A time stands in nanoseconds since the Unix epoch. -/
structure CacheEntry where
  bytes : List UInt8
  payload_path : Option String
  content_type : ContentType
  expires_at : Option Nat
  deriving DecidableEq

namespace CacheEntry

def live (now : Nat) (entry : CacheEntry) : Bool := !entry.expires_at.any (fun e => e ≤ now)

end CacheEntry

/-- The counters of `CacheStats`. -/
structure CacheStats where
  hits : Nat
  misses : Nat
  evictions : Nat
  entries : Nat
  peek_stale_served : Nat
  invalidations : Nat

def CacheStats.default : CacheStats := ⟨0, 0, 0, 0, 0, 0⟩

/-- What a backend offers over its state. `reclaim` is what it does by itself: at some time
it may drop the row of some key. -/
structure CacheRepository (ρ : Type) where
  get : ρ → Nat → String → ρ × Option CacheEntry
  set : ρ → Nat → String → CacheEntry → Option Nat → ρ × Except CamelError Unit
  peek_stale : ρ → String → ρ × Option CacheEntry
  peek_row_silent : ρ → String → ρ × Option CacheEntry
  invalidate : ρ → String → ρ
  reclaim : ρ → Nat → String → ρ

/-- A backend that is a table of rows. Which key it takes depends on the keys it has, and
which row it drops by itself on the time of its expiry. -/
structure RowStore {ρ : Type} (repo : CacheRepository ρ) where
  table : ρ → OrdMap String CacheEntry
  accepts : List String → String → Bool
  refusal : CamelError
  dead : Nat → Option Nat → Bool
  get_table : ∀ r now key, table (repo.get r now key).1 = table r
  get_result : ∀ r now key, (repo.get r now key).2 = ((table r).get key).filter (·.live now)
  peek_table : ∀ r key, table (repo.peek_stale r key).1 = table r
  peek_result : ∀ r key, (repo.peek_stale r key).2 = (table r).get key
  silent_table : ∀ r key, table (repo.peek_row_silent r key).1 = table r
  silent_result : ∀ r key, (repo.peek_row_silent r key).2 = (table r).get key ∨
    (repo.peek_row_silent r key).2 = none
  set_table : ∀ r now key value ttl, table (repo.set r now key value ttl).1 =
    if accepts ((table r).rows.map (·.1)) key then
      (table r).insert key { value with expires_at := ttl.map (now + ·) }
    else table r
  set_result : ∀ r now key value ttl, (repo.set r now key value ttl).2 =
    if accepts ((table r).rows.map (·.1)) key then .ok () else .error refusal
  invalidate_table : ∀ r key, table (repo.invalidate r key) = (table r).remove key
  reclaim_table : ∀ r now key, table (repo.reclaim r now key) =
    if ((table r).get key).any (fun e => dead now e.expires_at) then (table r).remove key
    else table r

end camel_api.cache

namespace camel_core.cache

open camel_api.cache (CacheEntry CacheRepository CacheStats RowStore)
open camel_api.error (CamelError)

/-! ## The repository over redb -/

/-- The settings of a `RedbCacheRepository` that its operations look at. -/
structure RedbSettings where
  stale_retention : Nat
  max_entries : Option Nat

structure RedbCacheRepository where
  table : OrdMap String CacheEntry
  stats : CacheStats

namespace RedbCacheRepository

variable (settings : RedbSettings) (repo : RedbCacheRepository)

def new : RedbCacheRepository := ⟨.empty, .default⟩

def get (now : Nat) (key : String) : RedbCacheRepository × Option CacheEntry :=
  match repo.table.get key with
  | some entry =>
    let expired := entry.expires_at.any (fun e => e ≤ now)
    if expired then ({ repo with stats.misses := repo.stats.misses + 1 }, none)
    else ({ repo with stats.hits := repo.stats.hits + 1 }, some entry)
  | none => ({ repo with stats.misses := repo.stats.misses + 1 }, none)

/-- A new key does not fit. -/
def full (key : String) : Option Nat :=
  match repo.table.get key, settings.max_entries with
  | none, some max => if max ≤ repo.table.rows.length then some max else none
  | _, _ => none

def set (now : Nat) (key : String) (value : CacheEntry) (ttl : Option Nat) :
    RedbCacheRepository × Except CamelError Unit :=
  let value := { value with expires_at := ttl.map (now + ·) }
  match repo.full settings key with
  | some max => (repo, .error (.Config s!"cache: max_entries ({max}) exceeded"))
  | none =>
    let was_new := (repo.table.get key).isNone
    ({ repo with
        table := repo.table.insert key value
        stats.entries := repo.stats.entries + if was_new then 1 else 0 }, .ok ())

def peek_stale (key : String) : RedbCacheRepository × Option CacheEntry :=
  let result := repo.table.get key
  if result.isSome then
    ({ repo with stats.peek_stale_served := repo.stats.peek_stale_served + 1 }, result)
  else (repo, result)

def peek_row_silent (key : String) : RedbCacheRepository × Option CacheEntry := repo.peek_stale key

def invalidate (key : String) : RedbCacheRepository :=
  let was_present := (repo.table.get key).isSome
  { repo with
    table := repo.table.remove key
    stats.entries := repo.stats.entries - if was_present then 1 else 0
    stats.invalidations := repo.stats.invalidations + 1 }

/-- The row is past the time for which stale rows are kept. -/
def should_delete (now : Nat) (expires_at : Option Nat) : Bool :=
  expires_at.any (fun e => e + settings.stale_retention < now)

def sweep_reclaim (now : Nat) (key : String) : RedbCacheRepository :=
  if (repo.table.get key).any (fun e => should_delete settings now e.expires_at) then
    { repo with
      table := repo.table.remove key
      stats.entries := repo.stats.entries - 1
      stats.evictions := repo.stats.evictions + 1 }
  else repo

end RedbCacheRepository

def redb (settings : RedbSettings) : CacheRepository RedbCacheRepository where
  get := RedbCacheRepository.get
  set := RedbCacheRepository.set settings
  peek_stale := RedbCacheRepository.peek_stale
  peek_row_silent := RedbCacheRepository.peek_row_silent
  invalidate := RedbCacheRepository.invalidate
  reclaim := RedbCacheRepository.sweep_reclaim settings

/-! ## The repository in memory -/

/-- The entries of the cache of `moka`. -/
structure MemoryCacheRepository where
  inner : OrdMap String CacheEntry
  stats : CacheStats

namespace MemoryCacheRepository

variable (repo : MemoryCacheRepository)

def new : MemoryCacheRepository := ⟨.empty, .default⟩

def get (now : Nat) (key : String) : MemoryCacheRepository × Option CacheEntry :=
  match repo.inner.get key with
  | some entry =>
    let expired := entry.expires_at.any (fun e => e ≤ now)
    if expired then ({ repo with stats.misses := repo.stats.misses + 1 }, none)
    else ({ repo with stats.hits := repo.stats.hits + 1 }, some entry)
  | none => ({ repo with stats.misses := repo.stats.misses + 1 }, none)

def set (now : Nat) (key : String) (value : CacheEntry) (ttl : Option Nat) :
    MemoryCacheRepository × Except CamelError Unit :=
  ({ repo with inner := repo.inner.insert key { value with expires_at := ttl.map (now + ·) } },
    .ok ())

def peek_stale (key : String) : MemoryCacheRepository × Option CacheEntry :=
  let entry := repo.inner.get key
  if entry.isSome then
    ({ repo with stats.peek_stale_served := repo.stats.peek_stale_served + 1 }, entry)
  else (repo, entry)

def peek_row_silent (key : String) : MemoryCacheRepository × Option CacheEntry :=
  (repo, repo.inner.get key)

def invalidate (key : String) : MemoryCacheRepository :=
  { repo with
    inner := repo.inner.remove key
    stats.invalidations := repo.stats.invalidations + 1 }

/-- The cache drops the entry of a key for its size. -/
def evict (_now : Nat) (key : String) : MemoryCacheRepository :=
  if (repo.inner.get key).isSome then
    { repo with
      inner := repo.inner.remove key
      stats.evictions := repo.stats.evictions + 1 }
  else repo

end MemoryCacheRepository

def memory : CacheRepository MemoryCacheRepository where
  get := MemoryCacheRepository.get
  set := MemoryCacheRepository.set
  peek_stale := MemoryCacheRepository.peek_stale
  peek_row_silent := MemoryCacheRepository.peek_row_silent
  invalidate := MemoryCacheRepository.invalidate
  reclaim := MemoryCacheRepository.evict

/-! ## Both are tables of rows -/

namespace RedbCacheRepository

variable (settings : RedbSettings) (repo : RedbCacheRepository)

theorem get_eq (now : Nat) (key : String) :
    (repo.get now key).1.table = repo.table ∧
      (repo.get now key).2 = (repo.table.get key).filter (·.live now) := by
  unfold get
  cases hr : repo.table.get key with
  | none => simp
  | some entry =>
    cases he : entry.expires_at.any (fun e => e ≤ now) with
    | true | false => simp [Option.filter, CacheEntry.live, he]

theorem peek_stale_eq (key : String) :
    (repo.peek_stale key).1.table = repo.table ∧ (repo.peek_stale key).2 = repo.table.get key := by
  simp only [peek_stale]
  split <;> simp

/-- A key fits if it is there or if there is room. -/
def accepts (keys : List String) (key : String) : Bool :=
  keys.contains key || settings.max_entries.all (fun max => keys.length < max)

theorem full_eq (key : String) :
    repo.full settings key =
      if accepts settings (repo.table.rows.map (·.1)) key then none
      else settings.max_entries := by
  have hk : (repo.table.rows.map (·.1)).contains key = (repo.table.get key).isSome := by
    rw [Bool.eq_iff_iff, List.contains_iff_mem, Option.isSome_iff_exists]
    simp [OrdMap.get_eq_some]
  unfold full accepts
  rw [hk, List.length_map]
  cases repo.table.get key with
  | some entry => simp
  | none =>
    cases settings.max_entries with
    | none => simp
    | some max =>
      by_cases hf : max ≤ repo.table.rows.length
      · simp [hf, Nat.not_lt.mpr hf]
      · simp [hf, Nat.lt_of_not_le hf]

theorem set_eq (now : Nat) (key : String) (value : CacheEntry) (ttl : Option Nat) :
    (repo.set settings now key value ttl).1.table =
        (if accepts settings (repo.table.rows.map (·.1)) key then
          repo.table.insert key { value with expires_at := ttl.map (now + ·) }
        else repo.table) ∧
      (repo.set settings now key value ttl).2 =
        if accepts settings (repo.table.rows.map (·.1)) key then .ok ()
        else .error (.Config s!"cache: max_entries ({settings.max_entries.getD 0}) exceeded") := by
  simp only [set, full_eq]
  cases hf : accepts settings (repo.table.rows.map (·.1)) key with
  | true => simp
  | false =>
    cases hm : settings.max_entries with
    | none => simp [accepts, hm] at hf
    | some max => simp

end RedbCacheRepository

namespace MemoryCacheRepository

variable (repo : MemoryCacheRepository)

theorem get_eq (now : Nat) (key : String) :
    (repo.get now key).1.inner = repo.inner ∧
      (repo.get now key).2 = (repo.inner.get key).filter (·.live now) := by
  unfold get
  cases hr : repo.inner.get key with
  | none => simp
  | some entry =>
    cases he : entry.expires_at.any (fun e => e ≤ now) with
    | true | false => simp [Option.filter, CacheEntry.live, he]

theorem peek_stale_eq (key : String) :
    (repo.peek_stale key).1.inner = repo.inner ∧ (repo.peek_stale key).2 = repo.inner.get key := by
  simp only [peek_stale]
  split <;> simp

end MemoryCacheRepository

def redbRows (settings : RedbSettings) : RowStore (redb settings) where
  table := RedbCacheRepository.table
  accepts := RedbCacheRepository.accepts settings
  refusal := .Config s!"cache: max_entries ({settings.max_entries.getD 0}) exceeded"
  dead := RedbCacheRepository.should_delete settings
  get_table r now key := (r.get_eq now key).1
  get_result r now key := (r.get_eq now key).2
  peek_table r key := (r.peek_stale_eq key).1
  peek_result r key := (r.peek_stale_eq key).2
  silent_table r key := (r.peek_stale_eq key).1
  silent_result r key := .inl (r.peek_stale_eq key).2
  set_table r now key value ttl := (r.set_eq settings now key value ttl).1
  set_result r now key value ttl := (r.set_eq settings now key value ttl).2
  invalidate_table _ _ := rfl
  reclaim_table r now key := by
    simp only [redb, RedbCacheRepository.sweep_reclaim]
    split <;> rfl

def memoryRows : RowStore memory where
  table := MemoryCacheRepository.inner
  accepts _ _ := true
  refusal := .Config ""
  dead _ _ := true
  get_table r now key := (r.get_eq now key).1
  get_result r now key := (r.get_eq now key).2
  peek_table r key := (r.peek_stale_eq key).1
  peek_result r key := (r.peek_stale_eq key).2
  silent_table _ _ := rfl
  silent_result _ _ := .inl rfl
  set_table _ _ _ _ _ := rfl
  set_result _ _ _ _ _ := rfl
  invalidate_table _ _ := rfl
  reclaim_table r now key := by
    simp only [memory, MemoryCacheRepository.evict, Option.any_true]
    split <;> rfl

end camel_core.cache
