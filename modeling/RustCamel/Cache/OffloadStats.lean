-- The counters of `RedbCacheRepository` under an `OffloadRepository`: what they count against
-- what the clients asked for and got. The read of the old row in `set` is counted too.
import RustCamel.Cache.Transparency

open List

namespace camel_core.cache.offload

open camel_api.cache (CacheEntry CacheStats ContentType)

/-! ## What the clients got -/

structure Tally where
  hits : Nat
  misses : Nat
  peek_stale_served : Nat
  deriving DecidableEq

namespace Tally

def add (a b : Tally) : Tally :=
  ⟨a.hits + b.hits, a.misses + b.misses, a.peek_stale_served + b.peek_stale_served⟩

def ofStats (stats : CacheStats) : Tally := ⟨stats.hits, stats.misses, stats.peek_stale_served⟩

end Tally

/-- What an operation counts for: a get that yields an entry is a hit and any other a miss,
and a peek that yields an entry is one that was served. -/
def countedOf : Op → Output → Tally
  | .get _, .served (some _) => ⟨1, 0, 0⟩
  | .get _, .served none => ⟨0, 1, 0⟩
  | .peek_stale _, .served (some _) => ⟨0, 0, 1⟩
  | _, _ => ⟨0, 0, 0⟩

section

variable (blake3_128hex : List UInt8 → String) (redbSettings : RedbSettings) (settings : Settings)

abbrev RedbWorld := World RedbCacheRepository

/-- The counts of all operations of a run. -/
def counted (w : RedbWorld) : List Op → Tally
  | [] => ⟨0, 0, 0⟩
  | op :: ops =>
    let out := w.step blake3_128hex (redb redbSettings) settings op
    (countedOf op out.2.1).add (counted out.1 ops)

/-! ## What is counted beside -/

variable (w : RedbWorld)

/-- A get that finds a live row and no payload is counted as a hit. -/
def lostHits : Op → Nat
  | .get key =>
    (((w.repo.inner.table.get key).filter (·.live w.now)).any fun row =>
      (hydrate w.repo.store row).isNone).toNat
  | _ => 0

/-- The read of the old row in a set is counted, and a peek that finds a row and no payload. -/
def extraPeeks : Op → Nat
  | .set key _ _ _ faults => (!faults.peek && (w.repo.inner.table.get key).isSome).toNat
  | .peek_stale key =>
    ((w.repo.inner.table.get key).any fun row => (hydrate w.repo.store row).isNone).toNat
  | _ => 0

theorem ofStats_set (repo : RedbCacheRepository) (now : Nat) (key : String) (value : CacheEntry)
    (ttl : Option Nat) :
    Tally.ofStats (repo.set redbSettings now key value ttl).1.stats = Tally.ofStats repo.stats := by
  simp only [RedbCacheRepository.set]
  cases repo.full redbSettings key with
  | none | some max => rfl

/-- After the read of the old row a set leaves the counters to the index. -/
theorem ofStats_offload_set (repo : OffloadRepository RedbCacheRepository) (now : Nat)
    (faults : Faults) (key : String) (entry : CacheEntry) (ttl : Option Nat) :
    Tally.ofStats (repo.set blake3_128hex (redb redbSettings) settings now faults key entry
        ttl).1.inner.stats =
      Tally.ofStats (repo.capture (redb redbSettings) faults.peek key).1.stats := by
  have hs : ∀ (inner : RedbCacheRepository) (store : Blobs) (now : Nat) (entry : CacheEntry)
      (ttl : Nat) (old_name keep_name : Option String),
      Tally.ofStats (OffloadRepository.swap blake3_128hex (redb redbSettings) ⟨inner, store⟩ now
        faults key entry ttl old_name keep_name).1.inner.stats = Tally.ofStats inner.stats := by
    intro inner store now entry ttl old_name keep_name
    rw [← ofStats_set redbSettings inner now key entry (some ttl)]
    simp only [OffloadRepository.swap, redb]
    split
    · rfl
    · rfl
  simp only [OffloadRepository.set]
  split
  all_goals exact hs _ _ _ _ _ _ _

theorem stats_of_step (w : RedbWorld) (op : Op) :
    let out := w.step blake3_128hex (redb redbSettings) settings op
    let before := Tally.ofStats w.repo.inner.stats
    let after := Tally.ofStats out.1.repo.inner.stats
    after.hits = before.hits + (countedOf op out.2.1).hits + lostHits w op ∧
      after.misses + lostHits w op = before.misses + (countedOf op out.2.1).misses ∧
      after.peek_stale_served =
        before.peek_stale_served + (countedOf op out.2.1).peek_stale_served + extraPeeks w op := by
  cases op with
  | set key bytes content_type ttl faults =>
    have hs := ofStats_offload_set blake3_128hex redbSettings settings w.repo w.now faults key
      (newEntry bytes content_type) (some ttl)
    simp only [World.step, countedOf, lostHits, extraPeeks, hs]
    cases faults.peek with
    | true => exact ⟨rfl, rfl, rfl⟩
    | false =>
      simp only [OffloadRepository.capture, redb, RedbCacheRepository.peek_row_silent,
        RedbCacheRepository.peek_stale]
      cases w.repo.inner.table.get key with
      | none | some row => exact ⟨rfl, rfl, rfl⟩
  | get key =>
    simp only [World.step, OffloadRepository.get, redb, RedbCacheRepository.get, lostHits,
      extraPeeks]
    cases w.repo.inner.table.get key with
    | none => exact ⟨rfl, rfl, rfl⟩
    | some row =>
      cases he : row.expires_at.any (fun e => e ≤ w.now) with
      | true => simp [Option.filter, CacheEntry.live, he, countedOf, Tally.ofStats]
      | false =>
        cases hf : hydrate w.repo.store row with
        | none => simp [Option.filter, CacheEntry.live, he, hf, countedOf, Tally.ofStats]
        | some entry =>
          simp [Option.filter, CacheEntry.live, he, hf, countedOf, Tally.ofStats]
  | peek_stale key =>
    simp only [World.step, OffloadRepository.peek_stale, redb, RedbCacheRepository.peek_stale,
      lostHits, extraPeeks]
    cases w.repo.inner.table.get key with
    | none => exact ⟨rfl, rfl, rfl⟩
    | some row =>
      cases hf : hydrate w.repo.store row with
      | none | some entry => simp [hf, countedOf, Tally.ofStats]
  | invalidate key | pass nanos | reap name => exact ⟨rfl, rfl, rfl⟩
  | reclaim key =>
    simp only [World.step, redb, RedbCacheRepository.sweep_reclaim]
    split
    all_goals exact ⟨rfl, rfl, rfl⟩

/-- The counters do not tell the step from what the clients asked for: a set reads no old
row, and a get or a peek finds no row without its payload. -/
def Invisible : Op → Prop
  | .set key _ _ _ faults => faults.peek = true ∨ w.repo.inner.table.get key = none
  | .get key => ∀ row, w.repo.inner.table.get key = some row → row.live w.now = true →
      hydrate w.repo.store row ≠ none
  | .peek_stale key => ∀ row, w.repo.inner.table.get key = some row →
      hydrate w.repo.store row ≠ none
  | _ => True

theorem invisible_iff (op : Op) : Invisible w op ↔ lostHits w op = 0 ∧ extraPeeks w op = 0 := by
  cases op with
  | set key bytes content_type ttl faults =>
    simp only [Invisible, lostHits, extraPeeks, true_and, Bool.toNat_eq_zero]
    cases faults.peek <;> simp
  | get key =>
    simp only [Invisible, lostHits, extraPeeks, and_true, Bool.toNat_eq_zero]
    cases w.repo.inner.table.get key with
    | none => simp
    | some row =>
      cases hl : row.live w.now <;>
        simp [Option.filter, hl, Option.isSome_iff_ne_none]
  | peek_stale key =>
    simp only [Invisible, lostHits, extraPeeks, true_and, Bool.toNat_eq_zero]
    cases w.repo.inner.table.get key <;> simp [Option.isSome_iff_ne_none]
  | _ => simp [Invisible, lostHits, extraPeeks]

theorem stats_of_run (w : RedbWorld) (ops : List Op) :
    let before := Tally.ofStats w.repo.inner.stats
    let total := counted blake3_128hex redbSettings settings w ops
    let after := Tally.ofStats
      (w.run blake3_128hex (redb redbSettings) settings ops).repo.inner.stats
    ∃ lost extra, after.hits = before.hits + total.hits + lost ∧
      after.misses + lost = before.misses + total.misses ∧
      after.peek_stale_served = before.peek_stale_served + total.peek_stale_served + extra ∧
      (lost = 0 ∧ extra = 0 ↔ ∀ done op rest, ops = done ++ op :: rest →
        Invisible (w.run blake3_128hex (redb redbSettings) settings done) op) := by
  induction ops generalizing w with
  | nil => exact ⟨0, 0, rfl, rfl, rfl, by simp⟩
  | cons op ops ih =>
    have hs := stats_of_step blake3_128hex redbSettings settings w op
    obtain ⟨lost, extra, hh, hm, hp, hi⟩ :=
      ih (w.step blake3_128hex (redb redbSettings) settings op).1
    obtain ⟨hh', hm', hp'⟩ := hs
    refine ⟨lostHits w op + lost, extraPeeks w op + extra, ?_, ?_, ?_, ?_⟩
    · simp only [counted, Tally.add, World.run, foldl_cons] at *
      omega
    · simp only [counted, Tally.add, World.run, foldl_cons] at *
      omega
    · simp only [counted, Tally.add, World.run, foldl_cons] at *
      omega
    · constructor
      · rintro ⟨hl, he⟩ done op' rest ho
        cases done with
        | nil =>
          cases ho
          simp only [World.run, foldl_nil, invisible_iff]
          omega
        | cons op'' done =>
          cases ho
          exact hi.mp ⟨by omega, by omega⟩ done op' rest rfl
      · intro ha
        have hf := ha [] op ops rfl
        simp only [World.run, foldl_nil, invisible_iff] at hf
        obtain ⟨hl', he'⟩ := hi.mpr fun done op' rest ho =>
          ha (op :: done) op' rest (by rw [ho]; rfl)
        omega

/-- The counters are those of what the clients asked for and got, if and only if no step of
the run shows in them otherwise. -/
theorem statistics_are_those_of_clients_iff (w : RedbWorld) (ops : List Op) :
    Tally.ofStats (w.run blake3_128hex (redb redbSettings) settings ops).repo.inner.stats =
        (Tally.ofStats w.repo.inner.stats).add (counted blake3_128hex redbSettings settings w ops) ↔
      ∀ done op rest, ops = done ++ op :: rest →
        Invisible (w.run blake3_128hex (redb redbSettings) settings done) op := by
  obtain ⟨lost, extra, hh, hm, hp, hi⟩ := stats_of_run blake3_128hex redbSettings settings w ops
  rw [← hi]
  constructor
  · intro heq
    rw [heq] at hh hm hp
    simp only [Tally.add] at hh hm hp
    omega
  · rintro ⟨rfl, rfl⟩
    generalize Tally.ofStats (w.run _ _ _ ops).repo.inner.stats = after at *
    obtain ⟨hits, misses, peek_stale_served⟩ := after
    simp only [Tally.add, Tally.mk.injEq]
    exact ⟨hh, hm, hp⟩

end

/-- Two sets of one key and no read: one peek is counted. -/
theorem overwrite_counts_a_peek :
    Tally.ofStats (World.run fewHashes (redb ⟨NANOS_PER_SEC, none⟩) oneSecond
        ⟨0, ⟨.new, fun _ => none⟩⟩ overwrite).repo.inner.stats = ⟨0, 0, 1⟩ ∧
      counted fewHashes ⟨NANOS_PER_SEC, none⟩ oneSecond ⟨0, ⟨.new, fun _ => none⟩⟩ overwrite =
        ⟨0, 0, 0⟩ := by
  decide +kernel

end camel_core.cache.offload
