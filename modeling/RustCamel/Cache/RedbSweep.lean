-- The sweep of `redb.rs` beside its reads: what a sweep deletes is expired for a reader too, as
-- long as the retention can be added to the expiry of every live row.
import RustCamel.Cache.RedbTable

open OrdMap

namespace camel_core.cache.redb

open camel_api.cache (CacheEntry CacheStats)
open camel_api.error (CamelError)
open Fallible (bind_eq_ok)

section

variable {from_slice : List UInt8 → Except String CacheEntry} {repo : RedbRepository}
  {stale_retention now : Nat}

theorem entry_of_eq_ok {bytes : List UInt8} {entry : CacheEntry} :
    entry_of from_slice bytes = .ok entry ↔ from_slice bytes = .ok entry := by
  unfold entry_of
  cases from_slice bytes <;> simp

theorem get_of_row {key : String} {bytes : List UInt8} {entry : CacheEntry}
    (hro : repo.table.get ⟨key⟩ = some bytes) (hen : from_slice bytes = .ok entry) :
    (get works from_slice repo now key).1 = .ok (if entry.live now then some entry else none) := by
  have hr : read_row works from_slice repo key = .ok (some entry) := by
    simp [read_row, attempt_works, hro, entry_of, hen, bind, Except.bind]
  unfold get CacheEntry.live
  rw [hr]
  cases he : entry.expires_at.any fun e => e ≤ now <;> simp [he]

/-- A sweep that went through has decoded every row, and has deleted those that were due. -/
theorem sweep_reclaim_eq_ok {failing : RedbCall → Option String} {reclaimed : Nat}
    {table : CacheTable}
    (h : sweep_reclaim failing from_slice repo stale_retention now = .ok (reclaimed, table)) :
    (∀ r ∈ repo.table.rows, ∃ entry, from_slice r.2 = .ok entry) ∧
      ∀ key bytes entry, repo.table.get key = some bytes → from_slice bytes = .ok entry →
        table.get key =
          if should_delete stale_retention now entry.expires_at then none else some bytes := by
  obtain ⟨-, -, h⟩ := bind_eq_ok h
  obtain ⟨-, -, h⟩ := bind_eq_ok h
  obtain ⟨-, -, h⟩ := bind_eq_ok h
  obtain ⟨to_delete, hc, h⟩ := bind_eq_ok h
  obtain ⟨table', hre, h⟩ := bind_eq_ok h
  obtain ⟨-, -, h⟩ := bind_eq_ok h
  cases h
  obtain ⟨hp, hk⟩ := collect_eq_ok hc
  refine ⟨?_, ?_⟩
  · intro r hr
    obtain ⟨due, hpa⟩ := hp r hr
    obtain ⟨-, -, hpa⟩ := bind_eq_ok hpa
    obtain ⟨entry, he, -⟩ := bind_eq_ok hpa
    exact ⟨entry, entry_of_eq_ok.mp he⟩
  · intro key bytes entry hro he
    have hm := get_eq_some.mp hro
    have hpa : ∀ due, (do
        attempt failing (.iter_item key.text)
        let entry ← entry_of from_slice bytes
        .ok (should_delete stale_retention now entry.expires_at)) = Except.ok due →
        due = should_delete stale_retention now entry.expires_at := by
      intro due hdu
      obtain ⟨-, -, hdu⟩ := bind_eq_ok hdu
      obtain ⟨entry', he', hdu⟩ := bind_eq_ok hdu
      cases he.symm.trans (entry_of_eq_ok.mp he')
      cases hdu
      rfl
    obtain ⟨due, hdu⟩ := hp _ hm
    have hs := hpa due hdu
    -- a key stands once, so the loop deletes it for its own row
    have hd : key ∈ to_delete ↔ should_delete stale_retention now entry.expires_at = true := by
      rw [hk, ← hs]
      constructor
      · rintro ⟨⟨_, bytes'⟩, hr, rfl, ht⟩
        cases eq_of_key_eq hr hm rfl
        exact Except.ok.inj (hdu.symm.trans ht)
      · rintro rfl
        exact ⟨_, hm, rfl, hdu⟩
    rw [remove_all_eq_ok hre, get_removeAll, hro]
    simp [hd]

theorem sweep_reclaim_works (h : ∀ r ∈ repo.table.rows, ∃ entry, from_slice r.2 = .ok entry) :
    ∃ reclaimed table,
      sweep_reclaim works from_slice repo stale_retention now = .ok (reclaimed, table) := by
  have hen : ∃ keys, collect (fun r => do
      attempt works (.iter_item r.1.text)
      let entry ← entry_of from_slice r.2
      .ok (should_delete stale_retention now entry.expires_at)) repo.table.rows = .ok keys := by
    apply collect_ends
    intro r hr
    obtain ⟨entry, he⟩ := h r hr
    exact ⟨should_delete stale_retention now entry.expires_at, by
      simp [attempt_works, entry_of, he, bind, Except.bind]⟩
  obtain ⟨keys, hc⟩ := hen
  refine ⟨keys.length, keys.foldl .remove repo.table, ?_⟩
  unfold sweep_reclaim
  simp only [attempt_works, bind, Except.bind] at hc ⊢
  rw [hc]
  simp only [remove_all_works]

theorem should_delete_of_live {exp : Nat} (hli : now < exp) :
    should_delete stale_retention now (some exp) = (checked_add exp stale_retention).isNone := by
  unfold should_delete checked_add
  by_cases hf : exp + stale_retention < END_OF_TIME
  · have hl : ¬exp + stale_retention < now := by omega
    simp [hf, hl]
  · simp [hf]

theorem live_iff {entry : CacheEntry} :
    entry.live now = true ↔ ∀ exp, entry.expires_at = some exp → now < exp := by
  unfold CacheEntry.live
  cases entry.expires_at <;> simp

end

/-- Every row that a sweep deletes is a miss for a reader at the same instant, exactly when a row
cannot be decoded (then no sweep goes through), or the retention can be added to the expiry of each
live row. -/
theorem sweep_spares_the_live_iff (from_slice : List UInt8 → Except String CacheEntry)
    (repo : RedbRepository) (stale_retention now : Nat) :
    (∀ failing reclaimed table,
      sweep_reclaim failing from_slice repo stale_retention now = .ok (reclaimed, table) →
        ∀ key, (repo.table.get ⟨key⟩).isSome → table.get ⟨key⟩ = none →
          (get works from_slice repo now key).1 = .ok none) ↔
      (∃ r ∈ repo.table.rows, ∀ entry, from_slice r.2 ≠ .ok entry) ∨
      ∀ r ∈ repo.table.rows, ∀ entry exp, from_slice r.2 = .ok entry →
        entry.expires_at = some exp → now < exp → (checked_add exp stale_retention).isSome := by
  constructor
  · intro h
    by_contra hnot
    push Not at hnot
    obtain ⟨hd, r, hr, entry, exp, hen, hex, hl, ho⟩ := hnot
    obtain ⟨reclaimed, table, hs⟩ := sweep_reclaim_works hd
    have hrow : repo.table.get ⟨r.1.text⟩ = some r.2 := get_eq_some.mpr hr
    have hg := (sweep_reclaim_eq_ok hs).2 _ _ _ hrow hen
    have hn : checked_add exp stale_retention = none := by simpa using ho
    rw [hex, should_delete_of_live hl, hn] at hg
    have hm := h works reclaimed table hs r.1.text (by rw [hrow]; rfl) hg
    have hh : entry.live now = true := live_iff.mpr fun e he => by
      cases hex.symm.trans he
      exact hl
    rw [get_of_row hrow hen, hh] at hm
    cases hm
  · intro h failing reclaimed table hs key hso hn
    obtain ⟨hd, hro⟩ := sweep_reclaim_eq_ok hs
    obtain ⟨bytes, hrow⟩ := Option.isSome_iff_exists.mp hso
    have hme := get_eq_some.mp hrow
    obtain ⟨entry, hen⟩ := hd _ hme
    have hdu := hro _ _ _ hrow hen
    rw [get_of_row hrow hen]
    -- a row that is live was not due
    cases hl : entry.live now with
    | false => rfl
    | true =>
      exfalso
      rcases h with ⟨r, hr, hb⟩ | hf
      · obtain ⟨entry', hen'⟩ := hd r hr
        exact hb entry' hen'
      · cases hex : entry.expires_at with
        | none =>
          rw [hex, hn] at hdu
          cases hdu
        | some exp =>
          have ha := live_iff.mp hl exp hex
          have had := hf _ hme entry exp hen hex ha
          rw [hex, should_delete_of_live ha, hn] at hdu
          cases hsum : checked_add exp stale_retention with
          | none =>
            rw [hsum] at had
            cases had
          | some sum =>
            rw [hsum] at hdu
            cases hdu

/-- An entry that is to stay for as long as there is time, as it is stored. -/
def foreverBytes : List UInt8 :=
  let json := "\x7b\"bytes\":[],\"payload_path\":null,\"content_type\":\"Bytes\"," ++
    "\"expires_at\":\x7b\"secs_since_epoch\":9223372036854775807,\"nanos_since_epoch\":0\x7d\x7d"
  json.toUTF8.data.toList

def forever : CacheEntry := ⟨[], none, .Bytes, some (9223372036854775807 * NANOS_PER_SEC)⟩

def decodes (bytes : List UInt8) : Except String CacheEntry :=
  if bytes = foreverBytes then .ok forever else .error "expected value at line 1 column 1"

def foreverRepo : RedbRepository := ⟨OrdMap.empty.insert ⟨"k"⟩ foreverBytes, .default⟩

/-- A retention of a day cannot be added to the expiry, so the sweep deletes a row that a reader
would get. -/
theorem an_endless_row_is_swept :
    ¬∀ from_slice repo stale_retention now failing reclaimed table,
      sweep_reclaim failing from_slice repo stale_retention now = .ok (reclaimed, table) →
        ∀ key, (repo.table.get ⟨key⟩).isSome → table.get ⟨key⟩ = none →
          (get works from_slice repo now key).1 = .ok none := by
  intro h
  have hro : foreverRepo.table.get ⟨"k"⟩ = some foreverBytes := get_insert_self _ _ _
  have he : decodes foreverBytes = .ok forever := if_pos rfl
  have hd : ∀ r ∈ foreverRepo.table.rows, ∃ entry, decodes r.2 = .ok entry := by
    intro r hr
    have hr' : r = (⟨"k"⟩, foreverBytes) := by simpa [foreverRepo] using hr
    exact ⟨forever, by rw [hr']; exact he⟩
  have hs : ∃ reclaimed table, sweep_reclaim works decodes foreverRepo
      (86400 * NANOS_PER_SEC) (1700000000 * NANOS_PER_SEC) = .ok (reclaimed, table) :=
    sweep_reclaim_works hd
  obtain ⟨reclaimed, table, hsw⟩ := hs
  have hg := (sweep_reclaim_eq_ok hsw).2 _ _ _ hro he
  have hdu : should_delete (86400 * NANOS_PER_SEC) (1700000000 * NANOS_PER_SEC)
      forever.expires_at = true := by decide
  rw [hdu] at hg
  have hm := h _ _ _ _ _ _ _ hsw "k" (by rw [hro]; rfl) hg
  have hl : forever.live (1700000000 * NANOS_PER_SEC) = true := by decide
  rw [get_of_row hro he, hl] at hm
  cases hm

end camel_core.cache.redb
