-- To its clients the repository with the payloads in blobs is the one it decorates, as long
-- as the store keeps the blobs: both run side by side, and each row of the one stands for an
-- entry of the other.
import RustCamel.Cache.Offload

open List Option OrdMap

namespace camel_core.cache.offload

open camel_api.cache (CacheEntry CacheRepository ContentType RowStore)
open camel_api.error (CamelError)

/-! ## A row and the entry it stands for -/

def hashed : Op → List (List UInt8)
  | .set key bytes content_type _ _ =>
    [as_bytes key, bytes ++ [content_type_discriminant content_type]]
  | _ => []

variable {now' : Nat} {row : CacheEntry}

theorem late_mono {now : Nat} (h : now ≤ now') {name : String} (hl : late now name = true) :
    late now' name = true := by
  unfold late at *
  simp only [Option.any_eq_true, decide_eq_true_eq] at *
  obtain ⟨death, hd, hle⟩ := hl
  exact ⟨death, hd, hle.trans (Nat.div_le_div_right h)⟩

/-- The blob has the bytes, unless it is late and gone. -/
def Kept (now : Nat) (store : Blobs) (name : String) (bytes : List UInt8) : Prop :=
  store name = some bytes ∨ (late now name = true ∧ store name = none)

namespace Kept

variable {now : Nat} {store : Blobs} {name : String} {bytes : List UInt8}

theorem later (h : Kept now store name bytes) (hle : now ≤ now') : Kept now' store name bytes := by
  rcases h with h | ⟨hl, h⟩
  · exact .inl h
  · exact .inr ⟨late_mono hle hl, h⟩

theorem put {name' : String} {bytes' : List UInt8} (h : Kept now store name bytes)
    (hs : name = name' → bytes = bytes') : Kept now (store.put name' bytes') name bytes := by
  unfold Kept Blobs.put
  by_cases heq : name = name'
  · simp [heq, hs heq]
  · simp only [if_neg heq]
    exact h

theorem unlink {name' : String} (h : Kept now store name bytes)
    (ho : name = name' → late now name = true) : Kept now (store.unlink name') name bytes := by
  unfold Kept Blobs.unlink
  by_cases heq : name = name'
  · simp only [if_pos heq]
    exact .inr ⟨ho heq, trivial⟩
  · simp only [if_neg heq]
    exact h

end Kept

section Stands

variable {blake3_128hex : List UInt8 → String} {known : List (List UInt8)}

/-- The hash has seen the key and the content of the entry. -/
def Known (known : List (List UInt8)) (key : String) (entry : CacheEntry) : Prop :=
  as_bytes key ∈ known ∧ entry.bytes ++ [content_type_discriminant entry.content_type] ∈ known

/-- The row is the entry, or it names the blob with the payload of the entry. -/
structure Stands (blake3_128hex : List UInt8 → String) (known : List (List UInt8)) (now : Nat)
    (store : Blobs) (key : String) (row entry : CacheEntry) : Prop where
  content_type : row.content_type = entry.content_type
  expires_at : row.expires_at = entry.expires_at
  inline : entry.payload_path = none
  payload : row = entry ∨ ∃ epoch, Known known key entry ∧
    row.payload_path = some (blob_filename blake3_128hex key epoch entry) ∧
    Kept now store (blob_filename blake3_128hex key epoch entry) entry.bytes

theorem same_blob (hh : Hex128 blake3_128hex) (hf : CollisionFree blake3_128hex known)
    {key key' : String} {epoch epoch' : Nat} {entry entry' : CacheEntry}
    (hk : Known known key entry) (hk' : Known known key' entry')
    (h : blob_filename blake3_128hex key epoch entry =
      blob_filename blake3_128hex key' epoch' entry') :
    key = key' ∧ entry.bytes = entry'.bytes := by
  obtain ⟨hke, hc⟩ := parts_of_blob_filename hh h
  refine ⟨as_bytes_injective (hf _ hk.1 _ hk'.1 hke), ?_⟩
  exact (append_inj' (hf _ hk.2 _ hk'.2 hc) rfl).1

namespace Stands

variable {now : Nat} {store : Blobs} {key : String} {row entry : CacheEntry}

theorem mono {store' : Blobs} (h : Stands blake3_128hex known now store key row entry)
    (hke : ∀ epoch, Known known key entry →
      row.payload_path = some (blob_filename blake3_128hex key epoch entry) →
      Kept now store (blob_filename blake3_128hex key epoch entry) entry.bytes →
      Kept now' store' (blob_filename blake3_128hex key epoch entry) entry.bytes) :
    Stands blake3_128hex known now' store' key row entry := by
  refine ⟨h.content_type, h.expires_at, h.inline, ?_⟩
  rcases h.payload with hr | ⟨epoch, hkn, hp, hk⟩
  · exact .inl hr
  · exact .inr ⟨epoch, hkn, hp, hke epoch hkn hp hk⟩

theorem later (h : Stands blake3_128hex known now store key row entry) (hle : now ≤ now') :
    Stands blake3_128hex known now' store key row entry :=
  h.mono fun _ _ _ hk => hk.later hle

theorem put (hh : Hex128 blake3_128hex) (hf : CollisionFree blake3_128hex known)
    (h : Stands blake3_128hex known now store key row entry) {key' : String} (epoch' : Nat)
    {entry' : CacheEntry} (hkn' : Known known key' entry') :
    Stands blake3_128hex known now
      (store.put (blob_filename blake3_128hex key' epoch' entry') entry'.bytes) key row entry :=
  h.mono fun _ hk _ hke =>
    hke.put fun heq => (same_blob hh hf hk hkn' heq).2

theorem unlink (h : Stands blake3_128hex known now store key row entry) {old : String}
    (ho : row.payload_path = some old → late now old = true) :
    Stands blake3_128hex known now (store.unlink old) key row entry := by
  apply h.mono
  intro epoch _ hp hk
  apply hk.unlink
  intro heq
  rw [heq] at hp ⊢
  exact ho hp

theorem of_put (blake3_128hex : List UInt8 → String) (now : Nat) (store : Blobs)
    {bytes : List UInt8} {content_type : ContentType} (epoch : Nat) (expires_at : Option Nat)
    (hk : Known known key (newEntry bytes content_type)) :
    let name := blob_filename blake3_128hex key epoch (newEntry bytes content_type)
    Stands blake3_128hex known now (store.put name bytes) key
      ⟨[], some name, content_type, expires_at⟩
      { newEntry bytes content_type with expires_at := expires_at } :=
  ⟨rfl, rfl, rfl, .inr ⟨epoch, hk, rfl, .inl (if_pos rfl)⟩⟩

theorem names (h : Stands blake3_128hex known now store key row entry) {name : String}
    (hn : row.payload_path = some name) :
    ∃ epoch, Known known key entry ∧ name = blob_filename blake3_128hex key epoch entry := by
  rcases h.payload with rfl | ⟨epoch, hk, hp, -⟩
  · rw [h.inline] at hn
    cases hn
  · rw [hp] at hn
    exact ⟨epoch, hk, (some.inj hn).symm⟩

theorem hydrate_cases (hh : Hex128 blake3_128hex)
    (h : Stands blake3_128hex known now store key row entry) :
    hydrate store row = some entry ∨
      (hydrate store row = none ∧ row.payload_path.any (late now) = true) := by
  rcases h.payload with rfl | ⟨epoch, -, hp, hk⟩
  · left
    simp [hydrate, h.inline]
  · simp only [hydrate, hp, sanitize_blob_filename hh, any_some]
    rcases hk with hs | ⟨hl, hs⟩
    · left
      rw [hs]
      simp only [h.content_type, h.expires_at, Option.some.injEq]
      rw [← h.inline]
    · right
      rw [hs]
      exact ⟨rfl, hl⟩

end Stands

end Stands

/-! ## Both repositories side by side -/

section

variable {ρ : Type} {blake3_128hex : List UInt8 → String} {backend : CacheRepository ρ}
  {settings : Settings} {rows : RowStore backend} {known : List (List UInt8)} {w : World ρ}
  {p : Plain ρ}

/-- The clocks agree, the tables have the same keys, and each row stands for the entry. -/
structure Agree (blake3_128hex : List UInt8 → String) (rows : RowStore backend)
    (known : List (List UInt8)) (w : World ρ) (p : Plain ρ) : Prop where
  now : w.now = p.now
  tables : (rows.table w.repo.inner).Related (Stands blake3_128hex known w.now w.repo.store)
    (rows.table p.inner)

theorem Agree.stands (h : Agree blake3_128hex rows known w p) {key : String}
    (hr : (key, row) ∈ (rows.table w.repo.inner).rows) :
    ∃ entry, Stands blake3_128hex known w.now w.repo.store key row entry := by
  rcases h.tables.get_cases key with ⟨hn, -⟩ | ⟨_, entry, hr', -, hs⟩
  · rw [get_eq_some.mpr hr] at hn
    cases hn
  · rw [get_eq_some.mpr hr] at hr'
    cases hr'
    exact ⟨entry, hs⟩

theorem Agree.one_key (hh : Hex128 blake3_128hex) (hf : CollisionFree blake3_128hex known)
    (h : Agree blake3_128hex rows known w p) {key key' : String} {row' : CacheEntry}
    (hr : (key, row) ∈ (rows.table w.repo.inner).rows)
    (hr' : (key', row') ∈ (rows.table w.repo.inner).rows) {name : String}
    (hn : row.payload_path = some name) (hn' : row'.payload_path = some name) :
    key = key' := by
  obtain ⟨entry, hs⟩ := h.stands hr
  obtain ⟨entry', hs'⟩ := h.stands hr'
  obtain ⟨_, hk, heq⟩ := hs.names hn
  obtain ⟨_, hk', he'⟩ := hs'.names hn'
  exact (same_blob hh hf hk hk' (heq.symm.trans he')).1

/-- No row names the blob that a step has unlinked. -/
def Unnamed (rows : RowStore backend) (w : World ρ) (unlinked : Option String) : Prop :=
  ∀ name, unlinked = some name →
    ∀ row ∈ (rows.table w.repo.inner).rows, row.2.payload_path ≠ some name

theorem Agree.set (hh : Hex128 blake3_128hex) (hf : CollisionFree blake3_128hex known)
    {w : World ρ} {p : Plain ρ} (h : Agree blake3_128hex rows known w p) {key : String}
    {stored entry : CacheEntry} {put : Blobs} {delay ttl : Nat}
    {out : OffloadRepository ρ × Except CamelError Unit × Option String}
    (hou : SetOutcome rows w.repo (w.now + delay) key ttl stored put out)
    (hsta : Stands blake3_128hex known w.now put key
      { stored with expires_at := some (w.now + delay + ttl) }
      { entry with expires_at := some (w.now + delay + ttl) })
    (hput : ∀ key row entry, Stands blake3_128hex known w.now w.repo.store key row entry →
      Stands blake3_128hex known w.now put key row entry) :
    Agree blake3_128hex rows known ⟨w.now + delay, out.1⟩
        ⟨p.now + delay, (backend.set p.inner (p.now + delay) key entry (some ttl)).1⟩ ∧
      out.2.1 = (backend.set p.inner (p.now + delay) key entry (some ttl)).2 ∧
      Unnamed rows ⟨w.now + delay, out.1⟩ out.2.2 := by
  have hle : w.now ≤ w.now + delay := Nat.le_add_right _ _
  rw [← h.now]
  have ht := rows.set_table p.inner (w.now + delay) key entry (some ttl)
  rw [← h.tables.keys, map_some] at ht
  have hr := rows.set_result p.inner (w.now + delay) key entry (some ttl)
  rw [← h.tables.keys, ← hou.result] at hr
  have hpu := h.tables.mono fun k row entry' _ => hput k row entry'
  cases ha : rows.accepts ((rows.table w.repo.inner).rows.map (·.1)) key with
  | false =>
    -- the backend is full: no row changes, and nothing is unlinked
    have hst : out.1.store = put ∧ out.2.2 = none := by
      simpa [ha] using hou.store
    refine ⟨⟨rfl, ?_⟩, hr.symm, by simp [Unnamed, hst.2]⟩
    simp only [hou.table, ht, ha, hst.1, Bool.false_eq_true, if_false]
    exact hpu.mono fun _ _ _ _ hs => hs.later hle
  | true =>
    have hnew := hou.table
    rw [ha, if_pos rfl] at hnew
    rw [ha, if_pos rfl] at ht
    -- the row that was there named a blob of this key, which no other key has
    have ho : ∀ old row, (rows.table w.repo.inner).get key = some row →
        row.payload_path = some old → stored.payload_path ≠ some old →
        ∀ k row', (k, row') ∈ (rows.table out.1.inner).rows → row'.payload_path ≠ some old := by
      intro old row hro hpa hk k row' hm hpa'
      rw [hnew, mem_insert] at hm
      rcases hm with heq | ⟨hm, hne⟩
      · cases heq
        exact hk hpa'
      · have hm' := get_eq_some.mp hro
        exact hne (h.one_key hh hf hm hm' hpa' hpa)
    have hre : (rows.table out.1.inner).Related (Stands blake3_128hex known w.now put)
        (rows.table (backend.set p.inner (w.now + delay) key entry (some ttl)).1) := by
      rw [hnew, ht]
      exact (hpu.remove key).insert hsta
    rcases hou.store with ⟨hst, hn⟩ | ⟨-, old, row, hro, hpa, hk, hst, hso⟩
    · refine ⟨⟨rfl, ?_⟩, hr.symm, by simp [Unnamed, hn]⟩
      simp only [hst]
      exact hre.mono fun _ _ _ _ hs => hs.later hle
    · refine ⟨⟨rfl, ?_⟩, hr.symm, ?_⟩
      · simp only [hst]
        apply hre.mono
        intro k row' entry' hm hs
        have hnot := ho old row hro hpa hk k row' hm
        exact (hs.unlink fun hp => absurd hp hnot).later hle
      · intro name hna row' hm
        rw [hso] at hna
        cases hna
        exact ho old row hro hpa hk _ _ hm

theorem Agree.read (hh : Hex128 blake3_128hex) (h : Agree blake3_128hex rows known w p)
    (key : String) {keep : CacheEntry → Bool}
    (hke : ∀ row entry : CacheEntry, row.expires_at = entry.expires_at → keep row = keep entry) :
    let row := (rows.table w.repo.inner).get key
    let served := (row.filter keep).bind (hydrate w.repo.store)
    served = ((rows.table p.inner).get key).filter keep ∨
      (served = none ∧ row.any (fun row => keep row && row.payload_path.any (late w.now))) := by
  intro row served
  rcases h.tables.get_cases key with ⟨hr, he⟩ | ⟨found, entry, hr, he, hs⟩
  · left
    simp [served, row, hr, he]
  · have hsa := hke found entry hs.expires_at
    cases hk : keep entry with
    | false =>
      left
      simp [served, row, hr, he, Option.filter, hsa, hk]
    | true =>
      rcases hs.hydrate_cases hh with hso | ⟨hn, hl⟩
      · left
        simp [served, row, hr, he, Option.filter, hsa, hk, hso]
      · right
        simp only [served, row, hr, Option.filter, hsa, hk, if_true, bind_some, hn,
          any_some, Bool.true_and, true_and]
        exact hl

/-- The operation reads a row whose blob may be gone. -/
def lateRead (rows : RowStore backend) (w : World ρ) : Op → Bool
  | .get key => ((rows.table w.repo.inner).get key).any fun row =>
      row.live w.now && row.payload_path.any (late w.now)
  | .peek_stale key => ((rows.table w.repo.inner).get key).any fun row =>
      row.payload_path.any (late w.now)
  | _ => false

/-- One operation on both: the outputs are the same, unless the blob is late and the
decorated one misses, and the repositories still agree. -/
theorem Agree.step (settings : Settings) (hh : Hex128 blake3_128hex)
    (hf : CollisionFree blake3_128hex known) {w : World ρ} {p : Plain ρ}
    (h : Agree blake3_128hex rows known w p) (op : Op)
    (hk : ∀ data ∈ hashed op, data ∈ known) :
    let out := w.step blake3_128hex backend settings op
    Agree blake3_128hex rows known out.1 (p.step backend op).1 ∧
      (out.2.1 = (p.step backend op).2 ∨ (out.2.1 = .served none ∧ lateRead rows w op = true)) ∧
      Unnamed rows out.1 out.2.2 := by
  have hnot : ∀ w : World ρ, Unnamed rows w none := by
    intro w name hn
    cases hn
  cases op with
  | set key bytes content_type ttl faults =>
    have hke : Known known key (newEntry bytes content_type) :=
      ⟨hk _ (by simp [hashed]), hk _ (by simp [hashed, newEntry])⟩
    rcases set_outcome blake3_128hex settings rows w.repo w.now
      faults key bytes content_type ttl with ho | ho
    · obtain ⟨ha, hsa, hu⟩ := h.set hh hf ho
        ⟨rfl, rfl, rfl, .inl rfl⟩ (fun _ _ _ hs => hs)
      exact ⟨ha, .inl (congrArg Output.stored hsa), hu⟩
    · have hne := Stands.of_put blake3_128hex w.now w.repo.store
        (death_epoch settings w.now ttl) (some (w.now + faults.delay + ttl)) hke
      obtain ⟨ha, hsa, hu⟩ := h.set hh hf ho hne
        (fun _ _ _ hs => hs.put hh hf _ hke)
      exact ⟨ha, .inl (congrArg Output.stored hsa), hu⟩
  | get key =>
    refine ⟨⟨h.now, ?_⟩, ?_, hnot _⟩
    · simp only [World.step, OffloadRepository.get, Plain.step, rows.get_table]
      exact h.tables
    · simp only [World.step, OffloadRepository.get, Plain.step, lateRead, rows.get_result, ← h.now,
        Output.served.injEq]
      exact h.read hh key fun row entry heq => by simp only [CacheEntry.live, heq]
  | peek_stale key =>
    refine ⟨⟨h.now, ?_⟩, ?_, hnot _⟩
    · simp only [World.step, OffloadRepository.peek_stale, Plain.step, rows.peek_table]
      exact h.tables
    · simp only [World.step, OffloadRepository.peek_stale, Plain.step, lateRead, rows.peek_result,
        Output.served.injEq]
      have hal : ∀ row : Option CacheEntry, row.filter (fun _ => true) = row := by
        rintro (_ | row) <;> rfl
      simpa [hal] using h.read hh key (fun _ _ _ => rfl : ∀ _ _, _ → true = true)
  | invalidate key =>
    refine ⟨⟨h.now, ?_⟩, .inl rfl, hnot _⟩
    simp only [World.step, OffloadRepository.invalidate, Plain.step, rows.invalidate_table]
    exact h.tables.remove key
  | pass nanos =>
    refine ⟨⟨congrArg (· + nanos) h.now, ?_⟩, .inl rfl, hnot _⟩
    exact h.tables.mono fun _ _ _ _ hs => hs.later (Nat.le_add_right _ _)
  | reclaim key =>
    refine ⟨⟨h.now, ?_⟩, .inl rfl, hnot _⟩
    simp only [World.step, Plain.step, rows.reclaim_table, ← h.now]
    rcases h.tables.get_cases key with ⟨hr, he⟩ | ⟨row, entry, hr, he, hst⟩
    · simp only [hr, he, any_none, Bool.false_eq_true, if_false]
      exact h.tables
    · simp only [hr, he, any_some, hst.expires_at]
      split
      · exact h.tables.remove key
      · exact h.tables
  | reap name =>
    refine ⟨⟨h.now, ?_⟩, .inl rfl, hnot _⟩
    simp only [World.step, Plain.step]
    by_cases hl : late w.now name = true
    · rw [if_pos hl]
      exact h.tables.mono fun _ _ _ _ hs => hs.unlink fun _ => hl
    · rw [if_neg hl]
      exact h.tables

theorem Agree.run (hh : Hex128 blake3_128hex) (hf : CollisionFree blake3_128hex known)
    {w : World ρ} {p : Plain ρ} (h : Agree blake3_128hex rows known w p) {ops : List Op}
    (hk : ∀ data ∈ ops.flatMap hashed, data ∈ known) :
    Agree blake3_128hex rows known (w.run blake3_128hex backend settings ops)
      (p.run backend ops) := by
  induction ops generalizing w p with
  | nil => exact h
  | cons op ops ih =>
    simp only [flatMap_cons, mem_append] at hk
    have hs := h.step settings hh hf op fun data hd => hk data (.inl hd)
    exact ih hs.1 fun data hd => hk data (.inr hd)

theorem Agree.start {inner : ρ}
    (hi : ∀ row ∈ (rows.table inner).rows, row.2.payload_path = none) (now : Nat)
    (store : Blobs) : Agree blake3_128hex rows known ⟨now, ⟨inner, store⟩⟩ ⟨now, inner⟩ := by
  refine ⟨rfl, rfl, ?_⟩
  intro key row entry hr he
  obtain rfl : row = entry := by
    simpa using eq_of_key_eq hr he rfl
  exact ⟨rfl, rfl, hi _ hr, .inl rfl⟩

end

/-! ## A live row is never late -/

section

variable {ρ : Type} {blake3_128hex : List UInt8 → String} {backend : CacheRepository ρ}
  {settings : Settings} {rows : RowStore backend} {w : World ρ}

theorem death_epoch_eq (now ttl : Nat) :
    death_epoch settings now ttl =
      as_secs (min (now + ttl + settings.stale_retention + settings.sweep_interval)
        DURATION_MAX) := by
  unfold death_epoch saturating_add
  congr 1
  omega

theorem death_epoch_lt (now ttl : Nat) : death_epoch settings now ttl < 2 ^ 64 := by
  rw [death_epoch_eq]
  unfold as_secs DURATION_MAX NANOS_PER_SEC
  omega

/-- The set was through a second before the grace of the deadline was over. -/
def inTime (settings : Settings) : Op → Bool
  | .set _ _ _ _ faults =>
    faults.delay + NANOS_PER_SEC ≤ settings.stale_retention + settings.sweep_interval
  | _ => true

/-- The blob of a live row is not late, as long as the clock fits a `Duration`. -/
def Timely (row : CacheEntry) : Prop :=
  ∀ now, as_secs now < 2 ^ 64 - 1 → row.live now = true → row.payload_path.any (late now) = false

theorem timely_of_set (hh : Hex128 blake3_128hex) {now delay ttl : Nat}
    (h : delay + NANOS_PER_SEC ≤ settings.stale_retention + settings.sweep_interval)
    (key : String) (entry : CacheEntry) (content_type : ContentType) :
    Timely ⟨[], some (destName blake3_128hex settings now ttl key entry), content_type,
      some (now + delay + ttl)⟩ := by
  intro now' hc hl
  have hb : now' < now + delay + ttl := by simpa [CacheEntry.live] using hl
  have he : as_secs now' < death_epoch settings now ttl := by
    rw [death_epoch_eq]
    unfold as_secs DURATION_MAX NANOS_PER_SEC at *
    omega
  unfold late destName
  rw [any_some, parse_death_epoch_blob_filename hh _ (death_epoch_lt now ttl)]
  simpa using he

theorem rows_of_step (w : World ρ) (op : Op) {row : String × CacheEntry}
    (hr : row ∈ (rows.table (w.step blake3_128hex backend settings op).1.repo.inner).rows) :
    row ∈ (rows.table w.repo.inner).rows ∨
      ∃ key bytes content_type ttl faults, op = .set key bytes content_type ttl faults ∧
        (row.2.payload_path = none ∨
          row.2 = ⟨[], some (destName blake3_128hex settings w.now ttl key
            (newEntry bytes content_type)), content_type, some (w.now + faults.delay + ttl)⟩) := by
  cases op with
  | set key bytes content_type ttl faults =>
    have hs : ∀ {stored put out}, SetOutcome rows w.repo (w.now + faults.delay) key ttl stored
        put out → row ∈ (rows.table out.1.inner).rows → row ∈ (rows.table w.repo.inner).rows ∨
          row.2 = { stored with expires_at := some (w.now + faults.delay + ttl) } := by
      intro stored put out ho hm
      rw [ho.table] at hm
      split at hm
      · rcases (mem_insert _ _ _ _).mp hm with rfl | ⟨hm, -⟩
        · exact .inr rfl
        · exact .inl hm
      · exact .inl hm
    rcases set_outcome blake3_128hex settings rows w.repo w.now
      faults key bytes content_type ttl with ho | ho
    · rcases hs ho hr with hm | heq
      · exact .inl hm
      · exact .inr ⟨key, bytes, content_type, ttl, faults, rfl, .inl (by rw [heq]; rfl)⟩
    · rcases hs ho hr with hm | heq
      · exact .inl hm
      · exact .inr ⟨key, bytes, content_type, ttl, faults, rfl, .inr heq⟩
  | get key =>
    simp only [World.step, OffloadRepository.get, rows.get_table] at hr
    exact .inl hr
  | peek_stale key =>
    simp only [World.step, OffloadRepository.peek_stale, rows.peek_table] at hr
    exact .inl hr
  | invalidate key =>
    simp only [World.step, OffloadRepository.invalidate, rows.invalidate_table] at hr
    exact .inl ((mem_remove _ _ _).mp hr).1
  | pass nanos | reap name => exact .inl hr
  | reclaim key =>
    simp only [World.step, rows.reclaim_table] at hr
    split at hr
    · exact .inl ((mem_remove _ _ _).mp hr).1
    · exact .inl hr

theorem timely_of_inline (h : row.payload_path = none) : Timely row := by
  intro now _ _
  rw [h, any_none]

theorem timely_run (hh : Hex128 blake3_128hex) {ops : List Op}
    (hs : ∀ row ∈ (rows.table w.repo.inner).rows, Timely row.2)
    (ho : ∀ op ∈ ops, inTime settings op = true) :
    ∀ row ∈ (rows.table (w.run blake3_128hex backend settings ops).repo.inner).rows,
      Timely row.2 := by
  induction ops generalizing w with
  | nil => exact hs
  | cons op ops ih =>
    refine ih ?_ fun op' hop' => ho op' (.tail _ hop')
    intro row hr
    rcases rows_of_step w op hr with hm | ⟨key, bytes, content_type, ttl, faults, rfl, hn⟩
    · exact hs row hm
    · have hd := ho _ mem_cons_self
      simp only [inTime, decide_eq_true_eq] at hd
      rcases hn with hi | hb
      · exact timely_of_inline hi
      · rw [hb]
        exact timely_of_set hh hd key _ content_type

theorem get_in_time (ht : ∀ row ∈ (rows.table w.repo.inner).rows, Timely row.2)
    (hc : as_secs w.now < 2 ^ 64 - 1) (key : String) : lateRead rows w (.get key) = false := by
  simp only [lateRead]
  cases hr : (rows.table w.repo.inner).get key with
  | none => rfl
  | some row =>
    have hnot := ht _ (get_eq_some.mp hr) w.now hc
    rw [any_some, Bool.and_eq_false_iff]
    cases hl : row.live w.now with
    | false => exact .inl rfl
    | true => exact .inr (hnot hl)

end

/-! ## Offloading is transparent -/

section

variable {ρ : Type} {blake3_128hex : List UInt8 → String} {backend : CacheRepository ρ}

/-- After any operations, from a table with inline rows only and any store: an operation gives
what it gives without the decorator, unless it reads a row whose blob is late and misses; it
unlinks no blob that a row names; and a get never reads a late row, if the sets were in time. -/
theorem offloading_is_transparent (rows : RowStore backend) (settings : Settings)
    (hhash : Hex128 blake3_128hex) {inner : ρ}
    (hinline : ∀ row ∈ (rows.table inner).rows, row.2.payload_path = none) (now : Nat)
    (store : Blobs) (ops : List Op) (op : Op)
    (hfree : CollisionFree blake3_128hex ((ops ++ [op]).flatMap hashed)) :
    let w := World.run blake3_128hex backend settings ⟨now, ⟨inner, store⟩⟩ ops
    let p := Plain.run backend ⟨now, inner⟩ ops
    let out := w.step blake3_128hex backend settings op
    (lateRead rows w op = false → out.2.1 = (p.step backend op).2) ∧
      (out.2.1 = (p.step backend op).2 ∨ out.2.1 = .served none) ∧
      (∀ name, out.2.2 = some name →
        ∀ row ∈ (rows.table out.1.repo.inner).rows, row.2.payload_path ≠ some name) ∧
      ((∀ op' ∈ ops, inTime settings op' = true) → as_secs w.now < 2 ^ 64 - 1 →
        ∀ key, op = .get key → out.2.1 = (p.step backend op).2) := by
  intro w p out
  have ha : Agree blake3_128hex rows _ w p :=
    (Agree.start hinline now store).run hhash hfree fun data hd => by
      rw [flatMap_append, mem_append]
      exact .inl hd
  obtain ⟨-, hs, hu⟩ := ha.step settings hhash hfree op
    fun data hd => by
      rw [flatMap_append, mem_append]
      exact .inr (by simpa using hd)
  have hi : lateRead rows w op = false → out.2.1 = (p.step backend op).2 := by
    intro hnot
    rcases hs with hs | ⟨-, hl⟩
    · exact hs
    · rw [hnot] at hl
      cases hl
  refine ⟨hi, hs.imp_right And.left, hu, ?_⟩
  rintro ho hc key rfl
  apply hi
  exact get_in_time (timely_run hhash (fun row hr => timely_of_inline (hinline row hr)) ho)
    hc key

end

/-- The hashes of the key `k` and of the bytes 1 and 2. -/
def fewHashes (data : List UInt8) : String :=
  if data = [107] then "5cbcb0cee824b91866cd67f57a6643dd"
  else if data = [1, 0] then "687376c930d7020a32f04c396fc2e5ea"
  else if data = [2, 0] then "cd60d75282bae1f9754e8cbc7590d8b3"
  else "00000000000000000000000000000000"

theorem fewHashes_hex : Hex128 fewHashes := by
  constructor
  · intro data
    unfold fewHashes
    split_ifs <;> rfl
  · intro data c hc
    have ha : (fewHashes data).toList.all ("0123456789abcdef".toList.contains ·) = true := by
      unfold fewHashes
      split_ifs <;> rfl
    exact contains_iff_mem.mp (List.all_eq_true.mp ha c hc)

def oneSecond : Settings := ⟨NANOS_PER_SEC, NANOS_PER_SEC, NANOS_PER_SEC⟩

def noFaults : Faults := ⟨false, false, false, 0⟩

/-- A value takes the place of another. -/
def overwrite : List Op :=
  [.set "k" [1] .Bytes NANOS_PER_SEC noFaults, .set "k" [2] .Bytes NANOS_PER_SEC noFaults]

theorem overwritten_value_is_read :
    ((World.run fewHashes memory oneSecond ⟨0, ⟨.new, fun _ => none⟩⟩ overwrite).step fewHashes
      memory oneSecond (.get "k")).2.1 =
        .served (some ⟨[2], none, .Bytes, some NANOS_PER_SEC⟩) := by
  have hi : ∀ row ∈ (memoryRows.table .new).rows, row.2.payload_path = none := by
    intro row hr
    cases hr
  have h := offloading_is_transparent memoryRows oneSecond fewHashes_hex hi 0
    (fun _ => none) overwrite (.get "k") (by unfold CollisionFree; decide)
  exact h.2.2.2 (by decide) (by decide) "k" rfl

/-- The name of the blob with the byte 1. -/
def firstBlob : String := "5cbcb0cee824b91866cd67f57a6643dd.3.687376c930d7020a32f04c396fc2e5ea.blob"

/-- A value that expires, and whose blob the store drops at its time. -/
def expire : List Op :=
  [.set "k" [1] .Bytes NANOS_PER_SEC noFaults, .pass (10 * NANOS_PER_SEC), .reap firstBlob]

/-- The stale row is still there, but a peek misses it. -/
theorem late_peek_misses :
    CollisionFree fewHashes ((expire ++ [Op.peek_stale "k"]).flatMap hashed) ∧
      ((World.run fewHashes memory oneSecond ⟨0, ⟨.new, fun _ => none⟩⟩ expire).step fewHashes
        memory oneSecond (.peek_stale "k")).2.1 = .served none ∧
      ((Plain.run memory ⟨0, .new⟩ expire).step memory (.peek_stale "k")).2 =
        .served (some ⟨[1], none, .Bytes, some NANOS_PER_SEC⟩) :=
  ⟨by unfold CollisionFree; decide, rfl, rfl⟩

end camel_core.cache.offload
