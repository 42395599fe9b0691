-- The three cache backends side by side: `memory.rs`, `redb.rs` and the `cache_repo.rs` over Redis.
-- Each computes the expiry of an entry its own way: the first two add without a check and panic
-- past the end of time, redb reclaims what it cannot add its retention to, and Redis counts whole
-- seconds.
import Mathlib.Data.Finset.Card
import RustCamel.Cache.Repositories
import RustCamel.RedisRepo.Keyspace

open List Option OrdMap

namespace camel_core.cache

open camel_api.cache (CacheEntry)
open camel_api.error (CamelError)

/-! ## The clock -/

def NANOS_PER_SEC : Nat := 10 ^ 9

/-- The end of `SystemTime` on Linux: seconds since the epoch in 63 bits, with nanoseconds. -/
def END_OF_TIME : Nat := 2 ^ 63 * NANOS_PER_SEC

def checked_add (t d : Nat) : Option Nat := if t + d < END_OF_TIME then some (t + d) else none

/-- `ttl.map(|d| SystemTime::now() + d)`. Without a value, the addition panics. -/
def expires_at (now : Nat) : Option Nat → Option (Option Nat)
  | none => some none
  | some d => (checked_add now d).map some

/-! ## Memory and redb, with the additions that panic -/

/-- `set`, after the addition that may panic. -/
def MemoryCacheRepository.set_clocked (repo : MemoryCacheRepository) (now : Nat) (key : String)
    (value : CacheEntry) (ttl : Option Nat) :
    Option (MemoryCacheRepository × Except CamelError Unit) :=
  (expires_at now ttl).map fun _ => repo.set now key value ttl

namespace RedbCacheRepository

variable (settings : RedbSettings) (repo : RedbCacheRepository)

/-- `set`, after the addition that may panic. -/
def set_clocked (now : Nat) (key : String) (value : CacheEntry) (ttl : Option Nat) :
    Option (RedbCacheRepository × Except CamelError Unit) :=
  (expires_at now ttl).map fun _ => repo.set settings now key value ttl

/-- The row is past the time for which stale rows are kept, or that time cannot be told. -/
def should_delete_clocked (now : Nat) : Option Nat → Bool
  | none => false
  | some exp =>
    match checked_add exp settings.stale_retention with
    | some threshold => threshold < now
    | none => true

/-- A pass of `sweep_reclaim` over all rows. -/
def reclaim_pass (now : Nat) : RedbCacheRepository :=
  let table := repo.table.retain fun r => !should_delete_clocked settings now r.2.expires_at
  let reclaimed := repo.table.rows.length - table.rows.length
  { repo with
    table
    stats.evictions := repo.stats.evictions + reclaimed
    stats.entries := repo.stats.entries - min repo.stats.entries reclaimed }

end RedbCacheRepository

end camel_core.cache

namespace camel_redis_repo

open camel_api.cache (CacheEntry)
open camel_api.error (CamelError)
open camel_core.cache

/-! ## Redis -/

structure RedisSettings where
  key_prefix : String
  name : String
  stale_retention : Nat

/-- What the server holds at a key. It drops the row from the second `exat` on. -/
structure Row where
  entry : CacheEntry
  exat : Option Nat

structure RedisCacheRepository where
  rows : OrdMap String Row
  hits : Nat
  misses : Nat

namespace RedisCacheRepository

def new : RedisCacheRepository := ⟨.empty, 0, 0⟩

variable (settings : RedisSettings) (repo : RedisCacheRepository)

/-- The seconds since the epoch of the expiry and the retention, when they can be told. -/
def exat_secs (expires_at : Option Nat) : Option Nat :=
  (expires_at.bind fun t => checked_add t settings.stale_retention).map (· / NANOS_PER_SEC)

def set_entry (now : Nat) (key : String) (value : CacheEntry) (ttl : Option Nat) :
    RedisCacheRepository × Except CamelError Unit :=
  if RESERVED_PAYLOAD_SEGMENT.toList.isPrefixOf key.toList then
    (repo, .error (.Config (s!"cache key '{key}' starts with the reserved " ++
      s!"'{RESERVED_PAYLOAD_SEGMENT}' segment: reserved for payload blobs on the redis backend " ++
      "(ADR-0065)")))
  else
    let entry := { value with expires_at := ttl.bind fun d => checked_add now d }
    let row := ⟨entry, exat_secs settings entry.expires_at⟩
    ({ repo with rows := repo.rows.insert (namespaced settings.key_prefix settings.name key) row },
      .ok ())

def fetch_entry (now : Nat) (key : String) : Option CacheEntry :=
  match repo.rows.get (namespaced settings.key_prefix settings.name key) with
  | none => none
  | some row =>
    if row.exat.any fun secs => secs * NANOS_PER_SEC ≤ now then none else some row.entry

def get_entry (now : Nat) (key : String) : RedisCacheRepository × Option CacheEntry :=
  match repo.fetch_entry settings now key with
  | none => ({ repo with misses := repo.misses + 1 }, none)
  | some entry =>
    let expired := entry.expires_at.any fun e => e ≤ now
    if expired then ({ repo with misses := repo.misses + 1 }, none)
    else ({ repo with hits := repo.hits + 1 }, some entry)

def invalidate_key (key : String) : RedisCacheRepository :=
  { repo with rows := repo.rows.remove (namespaced settings.key_prefix settings.name key) }

end RedisCacheRepository

/-! ## The three side by side -/

inductive Op where
  | set (key : String) (value : CacheEntry) (ttl : Option Nat)
  | get (key : String)
  | invalidate (key : String)
  -- a reclaim pass of redb
  | reclaim

/-- A call at a reading of the clock. -/
structure Timed where
  now : Nat
  op : Op

structure Backends where
  memory : MemoryCacheRepository
  redb : RedbCacheRepository
  redis : RedisCacheRepository

structure Answers where
  memory : Option CacheEntry
  redb : Option CacheEntry
  redis : Option CacheEntry
  deriving DecidableEq

namespace Backends

def new : Backends := ⟨.new, .new, .new⟩

variable (redb_settings : RedbSettings) (redis_settings : RedisSettings)

/-- The same call to all three, with the answers to a `get`. No value is a panic. -/
def call (b : Backends) (c : Timed) : Option (Backends × List Answers) :=
  match c.op with
  | .set key value ttl => do
    let (memory, _) ← b.memory.set_clocked c.now key value ttl
    let (redb, _) ← b.redb.set_clocked redb_settings c.now key value ttl
    let (redis, _) := b.redis.set_entry redis_settings c.now key value ttl
    pure (⟨memory, redb, redis⟩, [])
  | .get key =>
    let (memory, from_memory) := b.memory.get c.now key
    let (redb, from_redb) := b.redb.get c.now key
    let (redis, from_redis) := b.redis.get_entry redis_settings c.now key
    some (⟨memory, redb, redis⟩, [⟨from_memory, from_redb, from_redis⟩])
  | .invalidate key =>
    some (⟨b.memory.invalidate key, b.redb.invalidate key,
      b.redis.invalidate_key redis_settings key⟩, [])
  | .reclaim => some ({ b with redb := b.redb.reclaim_pass redb_settings c.now }, [])

/-- All answers of a sequence of calls. -/
def run (b : Backends) : List Timed → Option (List Answers)
  | [] => some []
  | c :: calls => do
    let (b, answers) ← b.call redb_settings redis_settings c
    let later ← b.run calls
    pure (answers ++ later)

end Backends

/-! ## What a cache is for -/

/-- The last entry that was written to each key, and whether redb has run a reclaim pass since. -/
abbrev Store := String → Option (CacheEntry × Bool)

def write (store : Store) (c : Timed) : Store :=
  match c.op with
  | .set key value ttl =>
    Function.update store key (some ({ value with expires_at := ttl.map (c.now + ·) }, false))
  | .invalidate key => Function.update store key none
  | .get _ => store
  | .reclaim => fun key => (store key).map fun written => (written.1, true)

/-- What a `get` should answer: the last entry written, at every instant before its expiry. -/
def expected (store : Store) : List Timed → List (Option CacheEntry)
  | [] => []
  | c :: calls =>
    match c.op with
    | .get key => ((store key).map (·.1)).filter (·.live c.now) :: expected (write store c) calls
    | _ => expected (write store c) calls

section

variable (redb_retention : Nat) (redis_settings : RedisSettings)

/-- A live entry is in redb: its time was told, or no reclaim pass has run since it was written. -/
def kept_by_redb (written : CacheEntry × Bool) : Prop :=
  written.2 = true → ∀ x, written.1.expires_at = some x → (checked_add x redb_retention).isSome = true

/-- A live entry is in Redis: its second has not begun. -/
def kept_by_redis (now : Nat) (written : CacheEntry × Bool) : Prop :=
  ∀ secs, RedisCacheRepository.exat_secs redis_settings written.1.expires_at = some secs →
    now < secs * NANOS_PER_SEC

/-- The condition on one call. -/
def allowed (store : Store) (c : Timed) : Prop :=
  match c.op with
  | .set _ _ ttl => (expires_at c.now ttl).isSome = true
  | .get key => ∀ written, store key = some written → written.1.live c.now = true →
    kept_by_redb redb_retention written ∧ kept_by_redis redis_settings c.now written
  | .invalidate _ | .reclaim => True

/-- The condition on a sequence of calls. -/
def clean (store : Store) : List Timed → Prop
  | [] => True
  | c :: calls => allowed redb_retention redis_settings store c ∧ clean (write store c) calls

end

/-! ## The backends against the store -/

variable {row : Option CacheEntry} {written : CacheEntry × Bool}

section

variable {redb_settings : RedbSettings} {redis_settings : RedisSettings}

/-- The row is gone from redb, or will go with the next reclaim pass, whatever the time. -/
def untold (redb_settings : RedbSettings) (entry : CacheEntry) : Prop :=
  ∃ x, entry.expires_at = some x ∧ checked_add x redb_settings.stale_retention = none

/-- What redb may hold for a written entry. -/
inductive RedbHolds (redb_settings : RedbSettings) (now : Nat) :
    Option (CacheEntry × Bool) → Option CacheEntry → Prop
  | nothing : RedbHolds redb_settings now none none
  | kept (entry : CacheEntry) (swept : Bool) (h : swept = true → ¬untold redb_settings entry) :
    RedbHolds redb_settings now (some (entry, swept)) (some entry)
  | reclaimed (entry : CacheEntry) (h : untold redb_settings entry) :
    RedbHolds redb_settings now (some (entry, true)) none
  | expired (entry : CacheEntry) (swept : Bool) (h : entry.live now = false)
    (hswept : swept = true → ¬untold redb_settings entry) :
    RedbHolds redb_settings now (some (entry, swept)) none

/-- The three backends hold what was written, up to the time `now`. -/
structure Agree (redb_settings : RedbSettings) (redis_settings : RedisSettings)
    (names : List String) (now : Nat) (store : Store) (b : Backends) : Prop where
  memory : ∀ key, b.memory.inner.get key = (store key).map (·.1)
  redb : ∀ key, RedbHolds redb_settings now (store key) (b.redb.table.get key)
  redis : ∀ key, b.redis.rows.get (namespaced redis_settings.key_prefix redis_settings.name key) =
    (store key).map fun written =>
      ⟨written.1, RedisCacheRepository.exat_secs redis_settings written.1.expires_at⟩
  names : ∀ r ∈ b.redb.table.rows, r.1 ∈ names

theorem namespaced_inj {prefix' name key key' : String}
    (h : namespaced prefix' name key = namespaced prefix' name key') : key = key' := by
  have hl := congrArg String.toList h
  rw [namespaced_toList, namespaced_toList prefix' name key'] at hl
  exact String.toList_injective (append_cancel_left hl)

theorem live_mono {entry : CacheEntry} {now later : Nat} (hle : now ≤ later)
    (h : entry.live now = false) : entry.live later = false := by
  unfold CacheEntry.live at h ⊢
  cases hx : entry.expires_at with
  | none => simp [hx] at h
  | some x =>
    simp only [hx, any_some, Bool.not_eq_eq_eq_not, Bool.not_false, decide_eq_true_eq] at h ⊢
    omega

theorem RedbHolds.later {now later : Nat} (hle : now ≤ later) {written : Option (CacheEntry × Bool)}
    (h : RedbHolds redb_settings now written row) : RedbHolds redb_settings later written row := by
  cases h with
  | nothing => exact .nothing
  | kept entry swept h => exact .kept entry swept h
  | reclaimed entry h => exact .reclaimed entry h
  | expired entry swept h hs => exact .expired entry swept (live_mono hle h) hs

theorem expires_at_cases (now : Nat) (ttl : Option Nat) :
    expires_at now ttl = none ∨ expires_at now ttl = some (ttl.map (now + ·)) ∧
      (ttl.bind fun d => checked_add now d) = ttl.map (now + ·) := by
  cases ttl with
  | none => exact .inr ⟨rfl, rfl⟩
  | some d =>
    by_cases hf : now + d < END_OF_TIME
    all_goals simp [expires_at, checked_add, hf]

theorem accepts_of_names {names : List String} {table : OrdMap String CacheEntry} {key : String}
    (hro : ∀ max, redb_settings.max_entries = some max → names.toFinset.card ≤ max)
    (hna : ∀ r ∈ table.rows, r.1 ∈ names) (hk : key ∈ names) :
    RedbCacheRepository.accepts redb_settings (table.rows.map (·.1)) key = true := by
  unfold RedbCacheRepository.accepts
  cases hm : redb_settings.max_entries with
  | none => simp
  | some max =>
    by_cases hi : key ∈ table.rows.map (·.1)
    · simp [hi]
    · have hn : (table.rows.map (·.1)).Nodup := by
        rw [List.Nodup, pairwise_map]
        exact table.sorted.imp fun hl => ne_of_lt hl
      have hs : insert key (table.rows.map (·.1)).toFinset ⊆ names.toFinset := by
        intro name hnam
        rcases Finset.mem_insert.mp hnam with rfl | hnam
        · exact List.mem_toFinset.mpr hk
        · obtain ⟨r, hr, rfl⟩ := List.mem_map.mp (List.mem_toFinset.mp hnam)
          exact List.mem_toFinset.mpr (hna r hr)
      have hc := Finset.card_le_card hs
      rw [Finset.card_insert_of_notMem (by simpa using hi), toFinset_card_of_nodup hn] at hc
      have hle := hro max hm
      rw [Bool.or_eq_true, all_some, decide_eq_true_eq]
      right
      omega

theorem redis_get_eq (settings : RedisSettings) (repo : RedisCacheRepository) (now : Nat)
    (key : String) :
    (repo.get_entry settings now key).1.rows = repo.rows ∧
      (repo.get_entry settings now key).2 =
        (repo.fetch_entry settings now key).filter (·.live now) := by
  unfold RedisCacheRepository.get_entry
  cases hr : repo.fetch_entry settings now key with
  | none => simp
  | some entry =>
    cases he : entry.expires_at.any (fun e => e ≤ now) with
    | true | false => simp [Option.filter, CacheEntry.live, he]

variable {names : List String} {now : Nat} {store : Store} {b : Backends} {c : Timed}

section

variable (h : Agree redb_settings redis_settings names now store b) (hle : now ≤ c.now)
  {key : String}

include h hle

theorem agree_set {value : CacheEntry} {ttl : Option Nat} (hop : c.op = .set key value ttl)
    (hro : ∀ max, redb_settings.max_entries = some max → names.toFinset.card ≤ max)
    (hk : key ∈ names) (hf : RESERVED_PAYLOAD_SEGMENT.toList.isPrefixOf key.toList = false) :
    expires_at c.now ttl = none ∧ b.call redb_settings redis_settings c = none ∨
      (expires_at c.now ttl).isSome = true ∧
        ∃ b', b.call redb_settings redis_settings c = some (b', []) ∧
          Agree redb_settings redis_settings names c.now (write store c) b' := by
  rcases expires_at_cases c.now ttl with hn | ⟨hs, hsa⟩
  · left
    refine ⟨hn, ?_⟩
    simp only [Backends.call, hop, MemoryCacheRepository.set_clocked, hn]
    rfl
  · right
    refine ⟨by rw [hs]; rfl, ?_⟩
    have hc : b.call redb_settings redis_settings c =
        some (⟨(b.memory.set c.now key value ttl).1,
          (b.redb.set redb_settings c.now key value ttl).1,
          (b.redis.set_entry redis_settings c.now key value ttl).1⟩, []) := by
      simp only [Backends.call, hop, MemoryCacheRepository.set_clocked,
        RedbCacheRepository.set_clocked, hs]
      rfl
    refine ⟨_, hc, ?_⟩
    have hre := (b.redb.set_eq redb_settings c.now key value ttl).1
    rw [if_pos (accepts_of_names hro h.names hk)] at hre
    have hw : write store c = Function.update store key
        (some ({ value with expires_at := ttl.map (c.now + ·) }, false)) := by
      simp only [write, hop]
    refine ⟨?_, ?_, ?_, ?_⟩
    · intro other
      rw [hw]
      dsimp only [MemoryCacheRepository.set]
      by_cases ho : other = key
      · rw [ho, get_insert_self, Function.update_self]
        rfl
      · rw [get_insert_of_ne _ _ ho, Function.update_of_ne ho]
        exact h.memory other
    · intro other
      rw [hw, hre]
      by_cases ho : other = key
      · rw [ho, get_insert_self, Function.update_self]
        exact .kept _ _ nofun
      · rw [get_insert_of_ne _ _ ho, Function.update_of_ne ho]
        exact (h.redb other).later hle
    · intro other
      rw [hw]
      dsimp only [RedisCacheRepository.set_entry]
      rw [if_neg (by rw [hf]; nofun)]
      dsimp only
      by_cases ho : other = key
      · rw [ho, get_insert_self, Function.update_self, hsa]
        rfl
      · have hne : namespaced redis_settings.key_prefix redis_settings.name other ≠
            namespaced redis_settings.key_prefix redis_settings.name key :=
          fun heq => ho (namespaced_inj heq)
        rw [get_insert_of_ne _ _ hne, Function.update_of_ne ho]
        exact h.redis other
    · intro r hr
      rw [hre] at hr
      rcases (mem_insert _ _ _ _).mp hr with rfl | ⟨hr, -⟩
      · exact hk
      · exact h.names r hr

theorem agree_invalidate (hop : c.op = .invalidate key) :
    ∃ b', b.call redb_settings redis_settings c = some (b', []) ∧
      Agree redb_settings redis_settings names c.now (write store c) b' := by
  have hw : write store c = Function.update store key none := by
    simp only [write, hop]
  refine ⟨⟨b.memory.invalidate key, b.redb.invalidate key,
    b.redis.invalidate_key redis_settings key⟩, by simp only [Backends.call, hop], ?_⟩
  rw [hw]
  refine ⟨?_, ?_, ?_, ?_⟩
  · intro other
    dsimp only [MemoryCacheRepository.invalidate]
    by_cases ho : other = key
    · rw [ho, get_remove_self, Function.update_self]
      rfl
    · rw [get_remove_of_ne _ ho, Function.update_of_ne ho]
      exact h.memory other
  · intro other
    dsimp only [RedbCacheRepository.invalidate]
    by_cases ho : other = key
    · rw [ho, get_remove_self, Function.update_self]
      exact .nothing
    · rw [get_remove_of_ne _ ho, Function.update_of_ne ho]
      exact (h.redb other).later hle
  · intro other
    dsimp only [RedisCacheRepository.invalidate_key]
    by_cases ho : other = key
    · rw [ho, get_remove_self, Function.update_self]
      rfl
    · have hn : namespaced redis_settings.key_prefix redis_settings.name other ≠
          namespaced redis_settings.key_prefix redis_settings.name key :=
        fun heq => ho (namespaced_inj heq)
      rw [get_remove_of_ne _ hn, Function.update_of_ne ho]
      exact h.redis other
  · intro r hr
    exact h.names r ((mem_remove _ _ _).mp hr).1

end

theorem redb_holds_reclaim {written : Option (CacheEntry × Bool)}
    (h : RedbHolds redb_settings now written row) (hle : now ≤ c.now) :
    RedbHolds redb_settings c.now (written.map fun written => (written.1, true))
      (row.filter fun entry =>
        !RedbCacheRepository.should_delete_clocked redb_settings c.now entry.expires_at) := by
  cases h with
  | nothing => exact .nothing
  | reclaimed entry h => exact .reclaimed entry h
  | expired entry swept h hs =>
    by_cases hu : untold redb_settings entry
    · exact .reclaimed entry hu
    · exact .expired entry true (live_mono hle h) fun _ => hu
  | kept entry swept h =>
    cases hx : entry.expires_at with
    | none =>
      have ht : ¬untold redb_settings entry := by
        rintro ⟨x, hso, -⟩
        rw [hx] at hso
        cases hso
      simp only [Option.filter, hx, RedbCacheRepository.should_delete_clocked, Bool.not_false,
        if_true]
      exact .kept entry true fun _ => ht
    | some x =>
      cases ha : checked_add x redb_settings.stale_retention with
      | none =>
        simp only [Option.filter, hx, RedbCacheRepository.should_delete_clocked, ha,
          Bool.not_true, Bool.false_eq_true, if_false]
        exact .reclaimed entry ⟨x, hx, ha⟩
      | some threshold =>
        have ht : ¬untold redb_settings entry := by
          rintro ⟨y, hso, hn⟩
          rw [hx] at hso
          cases hso
          rw [ha] at hn
          cases hn
        have hl' : x ≤ threshold := by
          unfold checked_add at ha
          split at ha
          · cases ha
            omega
          · cases ha
        simp only [Option.filter, hx, RedbCacheRepository.should_delete_clocked, ha]
        by_cases hp : threshold < c.now
        · simp only [hp, decide_true, Bool.not_true, Bool.false_eq_true, if_false]
          refine .expired entry true ?_ fun _ => ht
          simp only [CacheEntry.live, hx, any_some, Bool.not_eq_eq_eq_not, Bool.not_false,
            decide_eq_true_eq]
          omega
        · simp only [hp, decide_false, Bool.not_false, if_true]
          exact .kept entry true fun _ => ht

theorem get_retain_filter (table : OrdMap String CacheEntry) (p : CacheEntry → Bool)
    (key : String) :
    (table.retain fun r => p r.2).get key = (table.get key).filter p := by
  cases hr : table.get key with
  | none =>
    cases ha : (table.retain fun r => p r.2).get key with
    | none => rfl
    | some entry =>
      rw [get_of_retain ha] at hr
      cases hr
  | some entry =>
    cases hp : p entry with
    | true =>
      rw [get_retain hr hp]
      simp [Option.filter, hp]
    | false =>
      cases ha : (table.retain fun r => p r.2).get key with
      | none => simp [Option.filter, hp]
      | some other =>
        have hm := mem_filter.mp (get_eq_some.mp ha)
        rw [get_of_retain ha] at hr
        cases hr
        rw [hp] at hm
        cases hm.2

theorem agree_reclaim (h : Agree redb_settings redis_settings names now store b)
    (hle : now ≤ c.now) (ho : c.op = .reclaim) :
    ∃ b', b.call redb_settings redis_settings c = some (b', []) ∧
      Agree redb_settings redis_settings names c.now (write store c) b' := by
  have hw : write store c = fun key => (store key).map fun written => (written.1, true) := by
    simp only [write, ho]
  refine ⟨_, by simp only [Backends.call, ho]; rfl, ?_⟩
  rw [hw]
  refine ⟨?_, ?_, ?_, ?_⟩
  · intro key
    rw [Option.map_map]
    exact h.memory key
  · intro key
    dsimp only [RedbCacheRepository.reclaim_pass]
    rw [get_retain_filter _ fun entry =>
      !RedbCacheRepository.should_delete_clocked redb_settings c.now entry.expires_at]
    exact redb_holds_reclaim (h.redb key) hle
  · intro key
    rw [Option.map_map]
    exact h.redis key
  · intro r hr
    exact h.names r (mem_filter.mp hr).1

theorem redb_nothing (h : RedbHolds redb_settings now none row) : row = none := by
  cases h
  rfl

section

variable (h : RedbHolds redb_settings now (some written) row)

include h

theorem redb_row : row = some written.1 ∨ row = none := by
  cases h with
  | kept => exact .inl rfl
  | reclaimed | expired => exact .inr rfl

theorem redb_answer (hle : now ≤ c.now) (hl : written.1.live c.now = true) :
    row = some written.1 ↔ kept_by_redb redb_settings.stale_retention written := by
  cases h with
  | kept entry swept h =>
    refine ⟨fun _ => ?_, fun _ => rfl⟩
    intro hs x hx
    rw [isSome_iff_ne_none]
    intro hn
    exact h hs ⟨x, hx, hn⟩
  | reclaimed entry h =>
    refine ⟨nofun, fun hk => ?_⟩
    obtain ⟨x, hx, hn⟩ := h
    have hso := hk rfl x hx
    rw [hn] at hso
    cases hso
  | expired entry swept h hs =>
    rw [live_mono hle h] at hl
    cases hl

end

section

variable (h : Agree redb_settings redis_settings names now store b) {key : String}

include h

theorem redis_fetch (hw : store key = some written) (later : Nat) :
    b.redis.fetch_entry redis_settings later key =
      if (RedisCacheRepository.exat_secs redis_settings written.1.expires_at).any
        fun secs => secs * NANOS_PER_SEC ≤ later then none else some written.1 := by
  unfold RedisCacheRepository.fetch_entry
  rw [h.redis key, hw]
  rfl

theorem redis_answer (hw : store key = some written) (later : Nat) :
    b.redis.fetch_entry redis_settings later key = some written.1 ↔
      kept_by_redis redis_settings later written := by
  rw [redis_fetch h hw]
  unfold kept_by_redis
  cases RedisCacheRepository.exat_secs redis_settings written.1.expires_at with
  | none => exact ⟨fun _ => nofun, fun _ => rfl⟩
  | some secs =>
    rw [any_some]
    by_cases hb : secs * NANOS_PER_SEC ≤ later
    · rw [if_pos (decide_eq_true hb)]
      refine ⟨nofun, fun hl => ?_⟩
      exact absurd (hl secs rfl) (Nat.not_lt.mpr hb)
    · rw [if_neg (by rw [decide_eq_true_iff]; exact hb)]
      refine ⟨fun _ => ?_, fun _ => rfl⟩
      intro secs' heq
      rw [← some.inj heq]
      exact Nat.lt_of_not_le hb

theorem agree_get (hle : now ≤ c.now) (ho : c.op = .get key) :
    ∃ b' answers, b.call redb_settings redis_settings c = some (b', [answers]) ∧
      Agree redb_settings redis_settings names c.now (write store c) b' ∧
      let answer := ((store key).map (·.1)).filter (·.live c.now)
      (answers = ⟨answer, answer, answer⟩ ↔
        allowed redb_settings.stale_retention redis_settings store c) := by
  obtain ⟨hm, hf⟩ := b.memory.get_eq c.now key
  obtain ⟨hre, hfr⟩ := b.redb.get_eq c.now key
  obtain ⟨hr, hfro⟩ := redis_get_eq redis_settings b.redis c.now key
  refine ⟨⟨(b.memory.get c.now key).1, (b.redb.get c.now key).1,
    (b.redis.get_entry redis_settings c.now key).1⟩, ⟨(b.memory.get c.now key).2,
    (b.redb.get c.now key).2, (b.redis.get_entry redis_settings c.now key).2⟩, ?_, ?_, ?_⟩
  · simp only [Backends.call, ho]
  · have hw : write store c = store := by
      simp only [write, ho]
    rw [hw]
    refine ⟨?_, ?_, ?_, ?_⟩
    · rw [hm]
      exact h.memory
    · intro other
      rw [hre]
      exact (h.redb other).later hle
    · rw [hr]
      exact h.redis
    · rw [hre]
      exact h.names
  · dsimp only
    rw [hf, hfr, hfro, h.memory key]
    simp only [Answers.mk.injEq, true_and, allowed, ho]
    cases hwr : store key with
    | none =>
      have hh := h.redb key
      rw [hwr] at hh
      have hfe : b.redis.fetch_entry redis_settings c.now key = none := by
        unfold RedisCacheRepository.fetch_entry
        rw [h.redis key, hwr]
        rfl
      rw [redb_nothing hh, hfe]
      simp
    | some written =>
      have hh := h.redb key
      rw [hwr] at hh
      have hro := redb_row hh
      have hfe : b.redis.fetch_entry redis_settings c.now key = some written.1 ∨
          b.redis.fetch_entry redis_settings c.now key = none := by
        rw [redis_fetch h hwr]
        split
        · exact .inr rfl
        · exact .inl rfl
      cases hl : written.1.live c.now with
      | false =>
        -- nobody serves what has expired
        have hfi : ∀ row : Option CacheEntry, row = some written.1 ∨ row = none →
            row.filter (·.live c.now) = none := by
          rintro row (rfl | rfl)
          · simp [Option.filter, hl]
          · rfl
        rw [hfi _ hro, hfi _ hfe, map_some, hfi _ (.inl rfl)]
        simp [hl]
      | true =>
        have hfi : ∀ row : Option CacheEntry, row = some written.1 ∨ row = none →
            row.filter (·.live c.now) = row := by
          rintro row (rfl | rfl)
          · simp [Option.filter, hl]
          · rfl
        rw [hfi _ hro, hfi _ hfe, map_some, hfi _ (.inl rfl),
          redb_answer hh hle hl, redis_answer h hwr]
        constructor
        · rintro hk other heq -
          rw [← some.inj heq]
          exact hk
        · intro ha
          exact ha written rfl hl

end

def set_keys (calls : List Timed) : List String :=
  calls.filterMap fun c =>
    match c.op with
    | .set key _ _ => some key
    | _ => none

/-- All three answer as a cache should, and nothing panics. -/
def alike (redb_settings : RedbSettings) (redis_settings : RedisSettings) (b : Backends)
    (store : Store) (calls : List Timed) : Prop :=
  b.run redb_settings redis_settings calls =
    some ((expected store calls).map fun answer => ⟨answer, answer, answer⟩)

theorem run_cons {b' : Backends} {answers : List Answers}
    (hc : b.call redb_settings redis_settings c = some (b', answers)) (calls : List Timed) :
    b.run redb_settings redis_settings (c :: calls) =
      (b'.run redb_settings redis_settings calls).map (answers ++ ·) := by
  rw [Backends.run, hc]
  cases hr : b'.run redb_settings redis_settings calls with
  | none | some later => simp [hr]

theorem alike_iff_clean (h : Agree redb_settings redis_settings names now store b)
    (calls : List Timed) (hc : (now :: calls.map (·.now)).Pairwise (· ≤ ·))
    (hr : ∀ max, redb_settings.max_entries = some max → names.toFinset.card ≤ max)
    (hn : ∀ key ∈ set_keys calls, key ∈ names ∧
      RESERVED_PAYLOAD_SEGMENT.toList.isPrefixOf key.toList = false) :
    alike redb_settings redis_settings b store calls ↔
      clean redb_settings.stale_retention redis_settings store calls := by
  induction calls generalizing now store b with
  | nil => exact ⟨fun _ => trivial, fun _ => rfl⟩
  | cons c calls ih =>
    obtain ⟨hnow, hc⟩ := pairwise_cons.mp hc
    have hle : now ≤ c.now := hnow c.now mem_cons_self
    have hl : ∀ key ∈ set_keys calls, key ∈ names ∧
        RESERVED_PAYLOAD_SEGMENT.toList.isPrefixOf key.toList = false := by
      intro key hk
      apply hn
      obtain ⟨d, hd, heq⟩ := mem_filterMap.mp hk
      exact mem_filterMap.mpr ⟨d, mem_cons_of_mem c hd, heq⟩
    -- a call without an answer, that all three take
    have hq : (∃ b', b.call redb_settings redis_settings c = some (b', []) ∧
        Agree redb_settings redis_settings names c.now (write store c) b') →
        expected store (c :: calls) = expected (write store c) calls →
        (alike redb_settings redis_settings b store (c :: calls) ↔
          clean redb_settings.stale_retention redis_settings (write store c) calls) := by
      rintro ⟨b', hca, ha⟩ he
      rw [← ih ha hc hl]
      unfold alike
      rw [he, run_cons hca]
      simp
    unfold clean allowed
    cases ho : c.op with
    | set key value ttl =>
      have hk : key ∈ set_keys (c :: calls) :=
        mem_filterMap.mpr ⟨c, mem_cons_self, by simp only [ho]⟩
      obtain ⟨hna, hf⟩ := hn key hk
      rcases agree_set h hle ho hr hna hf with ⟨hno, hca⟩ | ⟨hs, hne⟩
      · dsimp only
        rw [hno]
        unfold alike
        rw [Backends.run, hca]
        simp
      · rw [hq hne (by simp only [expected, ho])]
        exact (and_iff_right hs).symm
    | get key =>
      obtain ⟨b', answers, hca, ha, han⟩ := agree_get h hle ho
      simp only [allowed, ho] at han
      dsimp only
      rw [← han, ← ih ha hc hl]
      unfold alike
      rw [run_cons hca]
      have he : expected store (c :: calls) =
          ((store key).map (·.1)).filter (·.live c.now) :: expected (write store c) calls := by
        simp only [expected, ho]
      rw [he]
      cases b'.run redb_settings redis_settings calls with
      | none | some later => simp
    | invalidate key =>
      rw [true_and]
      exact hq (agree_invalidate h hle ho) (by simp only [expected, ho])
    | reclaim =>
      rw [true_and]
      exact hq (agree_reclaim h hle ho) (by simp only [expected, ho])

end

theorem agree_new (redb_settings : RedbSettings) (redis_settings : RedisSettings)
    (names : List String) :
    Agree redb_settings redis_settings names 0 (fun _ => none) Backends.new := by
  refine ⟨fun _ => rfl, fun _ => .nothing, fun _ => rfl, ?_⟩
  intro r hr
  cases hr

/-- The three backends answer every `get` with the last entry written, at every instant before its
expiry, exactly when every call meets the condition. -/
theorem backends_alike_iff (redb_settings : RedbSettings) (redis_settings : RedisSettings)
    (calls : List Timed) (hclock : (calls.map (·.now)).Pairwise (· ≤ ·))
    (hroom : ∀ max, redb_settings.max_entries = some max → (set_keys calls).toFinset.card ≤ max)
    (hfree : ∀ key ∈ set_keys calls,
      RESERVED_PAYLOAD_SEGMENT.toList.isPrefixOf key.toList = false) :
    alike redb_settings redis_settings .new (fun _ => none) calls ↔
      clean redb_settings.stale_retention redis_settings (fun _ => none) calls := by
  apply alike_iff_clean (agree_new redb_settings redis_settings (set_keys calls)) calls _ hroom
  · intro key hk
    exact ⟨hk, hfree key hk⟩
  · exact pairwise_cons.mpr ⟨fun _ _ => Nat.zero_le _, hclock⟩

def greeting : CacheEntry := ⟨[104, 105], none, .Text, none⟩

/-- With an hour of retention on both sides, an entry for a minute is there for its minute. -/
theorem minute_is_served_by_all :
    alike ⟨3600 * NANOS_PER_SEC, none⟩ ⟨"camel:cache", "default", 3600 * NANOS_PER_SEC⟩ .new
      (fun _ => none)
      [⟨1700000000600000000, .set "k" greeting (some (60 * NANOS_PER_SEC))⟩,
        ⟨1700000030000000000, .reclaim⟩, ⟨1700000060599999999, .get "k"⟩] := by
  apply (backends_alike_iff _ _ _ (by decide) (fun _ hm => by cases hm) (by decide)).mpr
  refine ⟨show (expires_at _ _).isSome = true by decide, trivial, ?_, trivial⟩
  intro written hw _
  cases hw
  refine ⟨?_, ?_⟩
  · intro _ x hx
    cases hx
    decide
  · intro secs hs
    cases hs
    decide

/-- Without retention, Redis drops the entry with the second in which it expires. -/
theorem redis_drops_before_expiry : ¬∀ (redb_settings : RedbSettings)
    (redis_settings : RedisSettings) (calls : List Timed),
    (calls.map (·.now)).Pairwise (· ≤ ·) →
    (∀ max, redb_settings.max_entries = some max → (set_keys calls).toFinset.card ≤ max) →
    (∀ key ∈ set_keys calls, RESERVED_PAYLOAD_SEGMENT.toList.isPrefixOf key.toList = false) →
    alike redb_settings redis_settings .new (fun _ => none) calls := by
  intro hal
  have ha := hal ⟨0, none⟩ ⟨"camel:cache", "default", 0⟩
    [⟨1700000000600000000, .set "k" greeting (some 500000000)⟩, ⟨1700000001050000000, .get "k"⟩]
    (by decide) nofun (by decide)
  revert ha
  unfold alike
  decide +kernel

end camel_redis_repo
