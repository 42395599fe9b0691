-- Sets of one key that run at the same time over one `OffloadRepository`. Each of them reads
-- the row, names its blob, puts it, swaps the row and unlinks the blob of the row it read.
-- The blob of the row is there, unless two of them that overlap use one name.
import RustCamel.Cache.Transparency
import RustCamel.Lib.Interleaving

open List

namespace camel_core.cache.offload

open camel_api.cache (CacheEntry CacheRepository ContentType RowStore)
open camel_api.error (CamelError)

variable {store : Blobs} {row : CacheEntry}

/-! ## A set step by step -/

/-- Where `set` stands: `old_name` is that of the row it read, `dest_name` its own. -/
inductive Stage where
  | Reading
  | Naming (old_name : Option String)
  | Putting (old_name : Option String) (dest_name : String)
  | Swapping (old_name : Option String) (dest_name : String)
  | Reclaiming (old_name : Option String) (dest_name : String)
  | Done
  deriving DecidableEq

structure Write where
  entry : CacheEntry
  ttl : Option Nat
  stage : Stage

section

variable {ρ : Type} (blake3_128hex : List UInt8 → String) (backend : CacheRepository ρ)
  (settings : Settings) (key : String)

/-- One step of `set`, at a time that has passed since the last step of any. Every step
succeeds. -/
def advance (w : World ρ) (t : Write) (passed : Nat) : Option (World ρ × Write) :=
  let now := w.now + passed
  let effective_ttl := t.ttl.getD settings.payload_max_ttl
  match t.stage with
  | .Reading =>
    let (inner, old_name) := w.repo.capture backend false key
    some (⟨now, { w.repo with inner }⟩, { t with stage := .Naming old_name })
  | .Naming old_name =>
    let dest_name :=
      blob_filename blake3_128hex key (death_epoch settings now effective_ttl) t.entry
    some (⟨now, w.repo⟩, { t with stage := .Putting old_name dest_name })
  | .Putting old_name dest_name =>
    let store := w.repo.store.put dest_name t.entry.bytes
    some (⟨now, { w.repo with store }⟩, { t with stage := .Swapping old_name dest_name })
  | .Swapping old_name dest_name =>
    let entry := { t.entry with bytes := [], payload_path := some dest_name }
    let (inner, result) := backend.set w.repo.inner now key entry (some effective_ttl)
    match result with
    | .ok () =>
      some (⟨now, { w.repo with inner }⟩, { t with stage := .Reclaiming old_name dest_name })
    | .error _ => none
  | .Reclaiming old_name dest_name =>
    let (store, _) :=
      reclaim_predecessor blake3_128hex w.repo.store false key old_name (some dest_name)
    some (⟨now, { w.repo with store }⟩, { t with stage := .Done })
  | .Done => none

/-- Any number of sets of the key. -/
def sets : Interleaving (World ρ) (CacheEntry × Option Nat) Write Nat where
  start a := ⟨a.1, a.2, .Reading⟩
  advance := advance blake3_128hex backend settings key

end

/-! ## Names that overlapping sets share -/

namespace Stage

/-- It will unlink the blob with this name, as far as is known. -/
def reclaims (name : String) : Stage → Bool
  | .Naming old_name => old_name = some name
  | .Putting old_name dest_name | .Swapping old_name dest_name
  | .Reclaiming old_name dest_name => old_name = some name ∧ dest_name ≠ name
  | .Reading | .Done => false

/-- It has put the blob with this name, and the row does not name it yet. -/
def holds (name : String) : Stage → Bool
  | .Swapping _ dest_name => dest_name = name
  | _ => false

def swapped : Stage → Bool
  | .Reclaiming _ _ | .Done => true
  | _ => false

def dest_name : Stage → Option String
  | .Putting _ dest_name | .Swapping _ dest_name | .Reclaiming _ dest_name => some dest_name
  | _ => none

end Stage

section

variable {ρ : Type} (backend : CacheRepository ρ) (key : String)

/-- A set reads no name that another one has put and not yet swapped in, and puts none that
another one will unlink. -/
def unshared (s : Interleaving.State (World ρ) Write) :
    Interleaving.Event (CacheEntry × Option Nat) Nat → Bool
  | .spawn _ => true
  | .step i _ =>
    match s.tasks[i]? with
    | some ⟨_, _, .Reading⟩ => (s.shared.repo.capture backend false key).2.all fun name =>
        s.tasks.all fun t => !t.stage.holds name
    | some ⟨_, _, .Putting _ dest_name⟩ => s.tasks.all fun t => !t.stage.reclaims dest_name
    | _ => true

/-- The row can be read; a blob that was put is there; nobody will unlink it before the row
names it; and the row does not name what will be unlinked. -/
structure Sound {backend : CacheRepository ρ} (rows : RowStore backend) (key : String)
    (s : Interleaving.State (World ρ) Write) : Prop where
  read : ∀ row, (rows.table s.shared.repo.inner).get key = some row →
    (hydrate s.shared.repo.store row).isSome = true
  bare : ∀ t ∈ s.tasks, ∀ name, t.stage.dest_name = some name → sanitize_blob_name name = some name
  held : ∀ t ∈ s.tasks, ∀ name, t.stage.holds name = true → (s.shared.repo.store name).isSome = true
  apart : ∀ t ∈ s.tasks, ∀ t' ∈ s.tasks, ∀ name, t.stage.reclaims name = true →
    t'.stage.holds name = false
  moved : ∀ t ∈ s.tasks, t.stage.swapped = true → ∀ name, t.stage.reclaims name = true →
    ∀ row, (rows.table s.shared.repo.inner).get key = some row → row.payload_path ≠ some name
  there : ∀ t ∈ s.tasks, t.stage.swapped = true →
    ((rows.table s.shared.repo.inner).get key).isSome = true

end

/-! ## What a step keeps -/

theorem hydrate_isSome :
    (hydrate store row).isSome = true ↔ ∀ raw_path, row.payload_path = some raw_path →
      ∃ name, sanitize_blob_name raw_path = some name ∧ (store name).isSome = true := by
  unfold hydrate
  cases hp : row.payload_path with
  | none => simp
  | some raw_path =>
    cases hn : sanitize_blob_name raw_path with
    | none => simp [hn]
    | some name =>
      cases hs : store name with
      | none | some bytes => simp [hn, hs]

theorem sanitize_eq {path name : String} (h : sanitize_blob_name path = some name) :
    name = path := by
  unfold sanitize_blob_name at h
  split at h
  · cases h
  · exact (Option.some.inj h).symm

theorem isSome_put {name name' : String} (bytes : List UInt8) (h : (store name).isSome = true) :
    ((store.put name' bytes) name).isSome = true := by
  unfold Blobs.put
  split
  · rfl
  · exact h

theorem isSome_unlink {name name' : String} (hn : name ≠ name') (h : (store name).isSome = true) :
    ((store.unlink name') name).isSome = true := by
  unfold Blobs.unlink
  rwa [if_neg hn]

section

variable {ρ : Type} {blake3_128hex : List UInt8 → String} {backend : CacheRepository ρ}
  {settings : Settings} {key : String} {rows : RowStore backend} {tasks : List Write} {i : Nat}
  {entry : CacheEntry} {ttl : Option Nat} {old_name : Option String} {w : World ρ} {now : Nat}
  {repo : OffloadRepository ρ}

section

variable (h : Sound rows key ⟨w, tasks⟩) {dest_name : String}

include h

section

variable (htable : rows.table repo.inner = rows.table w.repo.inner)

include htable

theorem Sound.goes_on {t' : Write}
    (hs : ∀ name, (w.repo.store name).isSome = true → (repo.store name).isSome = true)
    (hb : ∀ name, t'.stage.dest_name = some name → sanitize_blob_name name = some name)
    (hhe : ∀ name, t'.stage.holds name = true → (repo.store name).isSome = true ∧
      ∀ u ∈ tasks, u.stage.reclaims name = false)
    (hr : ∀ name, t'.stage.reclaims name = true → t'.stage.holds name = false ∧
      ∀ u ∈ tasks, u.stage.holds name = false) (hswa : t'.stage.swapped = false) :
    Sound rows key ⟨⟨now, repo⟩, tasks.set i t'⟩ := by
  constructor
  · intro row hro
    rw [htable] at hro
    rw [hydrate_isSome]
    intro raw_path hp
    obtain ⟨name, hn, hso⟩ := hydrate_isSome.mp (h.read row hro) raw_path hp
    exact ⟨name, hn, hs name hso⟩
  · intro u hm
    rcases mem_or_eq_of_mem_set hm with hu | rfl
    · exact h.bare u hu
    · exact hb
  · intro u hm name hh
    rcases mem_or_eq_of_mem_set hm with hu | rfl
    · exact hs name (h.held u hu name hh)
    · exact (hhe name hh).1
  · intro u hm u' hm' name hrec
    rcases mem_or_eq_of_mem_set hm with hu | rfl
    · rcases mem_or_eq_of_mem_set hm' with hu' | rfl
      · exact h.apart u hu u' hu' name hrec
      · rw [Bool.eq_false_iff]
        intro hh
        rw [(hhe name hh).2 u hu] at hrec
        cases hrec
    · rcases mem_or_eq_of_mem_set hm' with hu' | rfl
      · exact (hr name hrec).2 u' hu'
      · exact (hr name hrec).1
  · intro u hm hsw
    rcases mem_or_eq_of_mem_set hm with hu | rfl
    · simp only [htable]
      exact h.moved u hu hsw
    · rw [hswa] at hsw
      cases hsw
  · intro u hm hsw
    rcases mem_or_eq_of_mem_set hm with hu | rfl
    · simp only [htable]
      exact h.there u hu hsw
    · rw [hswa] at hsw
      cases hsw

theorem Sound.reading (hs : repo.store = w.repo.store)
    (hf : ∀ name, old_name = some name → ∀ u ∈ tasks, u.stage.holds name = false) :
    Sound rows key ⟨⟨now, repo⟩, tasks.set i ⟨entry, ttl, .Naming old_name⟩⟩ := by
  apply h.goes_on htable
  · intro name hso
    rwa [hs]
  · intro name hn
    cases hn
  · intro name hh
    cases hh
  · intro name hrec
    exact ⟨rfl, hf name (by simpa [Stage.reclaims] using hrec)⟩
  · rfl

end

theorem Sound.naming (ht : ⟨entry, ttl, .Naming old_name⟩ ∈ tasks)
    (hb : sanitize_blob_name dest_name = some dest_name) :
    Sound rows key ⟨⟨now, w.repo⟩, tasks.set i ⟨entry, ttl, .Putting old_name dest_name⟩⟩ := by
  apply h.goes_on rfl
  · exact fun _ hs => hs
  · intro name hn
    cases hn
    exact hb
  · intro name hh
    cases hh
  · intro name hrec
    simp only [Stage.reclaims, decide_eq_true_eq] at hrec
    refine ⟨rfl, fun u hu => h.apart _ ht u hu name ?_⟩
    simpa [Stage.reclaims] using hrec.1
  · rfl

theorem Sound.putting (ht : ⟨entry, ttl, .Putting old_name dest_name⟩ ∈ tasks)
    (hf : ∀ u ∈ tasks, u.stage.reclaims dest_name = false) :
    Sound rows key ⟨⟨now, w.repo.inner, w.repo.store.put dest_name entry.bytes⟩,
      tasks.set i ⟨entry, ttl, .Swapping old_name dest_name⟩⟩ := by
  refine h.goes_on ?_ ?_ ?_ ?_ ?_ ?_
  · rfl
  · exact fun _ hs => isSome_put _ hs
  · intro name hn
    exact h.bare _ ht name hn
  · intro name hh
    simp only [Stage.holds, decide_eq_true_eq] at hh
    subst hh
    exact ⟨by simp [Blobs.put], hf⟩
  · intro name hrec
    refine ⟨?_, fun u hu => h.apart _ ht u hu name hrec⟩
    simp only [Stage.reclaims, decide_eq_true_eq] at hrec
    simpa [Stage.holds] using hrec.2
  · rfl

theorem Sound.swapping (ht : ⟨entry, ttl, .Swapping old_name dest_name⟩ ∈ tasks) {inner : ρ}
    (hr : (rows.table inner).get key = some row) (hp : row.payload_path = some dest_name) :
    Sound rows key ⟨⟨now, inner, w.repo.store⟩,
      tasks.set i ⟨entry, ttl, .Reclaiming old_name dest_name⟩⟩ := by
  have hh : (Stage.Swapping old_name dest_name).holds dest_name = true := by
    simp [Stage.holds]
  constructor
  · intro row' hr'
    rw [hr] at hr'
    cases hr'
    rw [hydrate_isSome]
    intro raw_path hra
    rw [hp] at hra
    cases hra
    exact ⟨dest_name, h.bare _ ht dest_name rfl, h.held _ ht dest_name hh⟩
  · intro u hm
    rcases mem_or_eq_of_mem_set hm with hu | rfl
    · exact h.bare u hu
    · intro name hn
      exact h.bare _ ht name hn
  · intro u hm
    rcases mem_or_eq_of_mem_set hm with hu | rfl
    · exact h.held u hu
    · intro name hn
      cases hn
  · intro u hm u' hm' name hrec
    have hre' : ∃ v ∈ tasks, v.stage.reclaims name = true := by
      rcases mem_or_eq_of_mem_set hm with hu | rfl
      · exact ⟨u, hu, hrec⟩
      · exact ⟨_, ht, hrec⟩
    obtain ⟨v, hv, hre'⟩ := hre'
    rcases mem_or_eq_of_mem_set hm' with hu' | rfl
    · exact h.apart v hv u' hu' name hre'
    · rfl
  · intro u hm _ name hrec row' hr' hn
    rw [hr] at hr'
    cases hr'
    rw [hp] at hn
    cases hn
    rcases mem_or_eq_of_mem_set hm with hu | rfl
    · have hnot := h.apart u hu _ ht dest_name hrec
      rw [hh] at hnot
      cases hnot
    · simp [Stage.reclaims] at hrec
  · intro u _ _
    simp [hr]

theorem Sound.reclaiming (ht : ⟨entry, ttl, .Reclaiming old_name dest_name⟩ ∈ tasks) :
    Sound rows key ⟨⟨now, w.repo.inner, (reclaim_predecessor blake3_128hex w.repo.store false key
      old_name (some dest_name)).1⟩, tasks.set i ⟨entry, ttl, .Done⟩⟩ := by
  -- what is unlinked is neither named by the row nor held by another set
  have hs : ∀ name,
      (∀ u ∈ tasks, u.stage = .Reclaiming old_name dest_name → u.stage.reclaims name = false) →
      (w.repo.store name).isSome = true → ((reclaim_predecessor blake3_128hex w.repo.store false key
        old_name (some dest_name)).1 name).isSome = true := by
    intro name hk hso
    rcases reclaim_cases blake3_128hex w.repo.store false key old_name (some dest_name) with
      heq | ⟨old, rfl, hne, heq⟩
    · rwa [heq]
    · rw [heq]
      apply isSome_unlink _ hso
      rintro rfl
      have hnot := hk _ ht rfl
      simp [Stage.reclaims] at hnot
      exact hne (congrArg some hnot)
  constructor
  · intro row hr
    rw [hydrate_isSome]
    intro raw_path hp
    obtain ⟨name, hn, hso⟩ := hydrate_isSome.mp (h.read row hr) raw_path hp
    refine ⟨name, hn, hs name ?_ hso⟩
    intro u hu hst
    rw [Bool.eq_false_iff]
    intro hrec
    rw [sanitize_eq hn] at hrec
    exact h.moved u hu (by rw [hst]; rfl) raw_path hrec row hr hp
  · intro u hm
    rcases mem_or_eq_of_mem_set hm with hu | rfl
    · exact h.bare u hu
    · intro name hn
      cases hn
  · intro u hm name hh
    rcases mem_or_eq_of_mem_set hm with hu | rfl
    · refine hs name ?_ (h.held u hu name hh)
      intro v hv _
      rw [Bool.eq_false_iff]
      intro hrec
      rw [h.apart v hv u hu name hrec] at hh
      cases hh
    · cases hh
  · intro u hm u' hm' name hrec
    rcases mem_or_eq_of_mem_set hm with hu | rfl
    · rcases mem_or_eq_of_mem_set hm' with hu' | rfl
      · exact h.apart u hu u' hu' name hrec
      · rfl
    · cases hrec
  · intro u hm hsw name hrec
    rcases mem_or_eq_of_mem_set hm with hu | rfl
    · exact h.moved u hu hsw name hrec
    · cases hrec
  · intro u hm hsw
    rcases mem_or_eq_of_mem_set hm with hu | rfl
    · exact h.there u hu hsw
    · exact h.there _ ht rfl

end

theorem Sound.step (hh : Hex128 blake3_128hex) (h : Sound rows key ⟨w, tasks⟩) {t t' : Write}
    {w' : World ρ} {passed : Nat} (ht : tasks[i]? = some t)
    (hs : advance blake3_128hex backend settings key w t passed = some (w', t'))
    (ho : unshared backend key ⟨w, tasks⟩ (.step i passed) = true) :
    Sound rows key ⟨w', tasks.set i t'⟩ := by
  have hm := mem_of_getElem? ht
  obtain ⟨entry, ttl, stage⟩ := t
  simp only [unshared, ht] at ho
  cases stage with
  | Reading =>
    simp only [advance, Option.some.injEq, Prod.mk.injEq] at hs
    obtain ⟨rfl, rfl⟩ := hs
    obtain ⟨htable, -⟩ := capture_spec rows w.repo false key
    refine h.reading htable rfl ?_
    intro name hn u hu
    simp only [hn, Option.all_some] at ho
    simpa using all_eq_true.mp ho u hu
  | Naming old_name =>
    cases hs
    exact h.naming hm (sanitize_blob_filename hh _ _ _)
  | Putting old_name dest_name =>
    cases hs
    refine h.putting hm ?_
    intro u hu
    simpa using all_eq_true.mp ho u hu
  | Swapping old_name dest_name =>
    have hr := rows.set_result w.repo.inner (w.now + passed) key
      { entry with bytes := [], payload_path := some dest_name }
      (some (ttl.getD settings.payload_max_ttl))
    have htable := rows.set_table w.repo.inner (w.now + passed) key
      { entry with bytes := [], payload_path := some dest_name }
      (some (ttl.getD settings.payload_max_ttl))
    simp only [advance] at hs
    split at hs
    · rename_i ho'
      cases hs
      rw [ho'] at hr
      split at hr
      · rename_i ha
        rw [if_pos ha] at htable
        refine h.swapping hm (htable ▸ OrdMap.get_insert_self _ _ _) rfl
      · cases hr
    · cases hs
  | Reclaiming old_name dest_name =>
    cases hs
    exact h.reclaiming hm
  | Done => cases hs

theorem Sound.spawn (h : Sound rows key ⟨w, tasks⟩) (a : CacheEntry × Option Nat) :
    Sound rows key ⟨w, tasks ++ [⟨a.1, a.2, .Reading⟩]⟩ := by
  constructor
  · exact h.read
  · exact forall_mem_concat h.bare (by intro name hn; cases hn)
  · exact forall_mem_concat h.held (by intro name hn; cases hn)
  · refine forall_mem_concat (fun u hu => forall_mem_concat (h.apart u hu) ?_) ?_
    · intro name _
      rfl
    · intro u' _ name hrec
      cases hrec
  · exact forall_mem_concat h.moved (by intro hs; cases hs)
  · exact forall_mem_concat h.there (by intro hs; cases hs)

end

/-! ## Overlapping sets -/

/-- In every run of sets of one key, of which no two that overlap share a name in this way:
the blob that the row names is there, a get of a live row is a hit, and after a set the row
is there. -/
theorem overlapping_sets_keep_the_blob {ρ : Type} {blake3_128hex : List UInt8 → String}
    {backend : CacheRepository ρ} (rows : RowStore backend) (settings : Settings) (key : String)
    (hhash : Hex128 blake3_128hex) {w : World ρ}
    (hstart : ∀ row, (rows.table w.repo.inner).get key = some row →
      (hydrate w.repo.store row).isSome = true)
    {s : Interleaving.State (World ρ) Write}
    (h : (sets blake3_128hex backend settings key).Reach
      (fun s e => unshared backend key s e = true) ⟨w, []⟩ s) :
    (∀ row name, (rows.table s.shared.repo.inner).get key = some row →
        row.payload_path = some name → (s.shared.repo.store name).isSome = true) ∧
      (∀ now, (s.shared.repo.get backend now key).2.isSome =
        ((rows.table s.shared.repo.inner).get key).any (·.live now)) ∧
      ∀ t ∈ s.tasks, t.stage = .Done →
        ((rows.table s.shared.repo.inner).get key).isSome = true := by
  have hso : Sound rows key s := by
    refine h.invariant ⟨hstart, ?_, ?_, ?_, ?_, ?_⟩ ?_ ?_
    iterate 5 exact fun t ht => absurd ht not_mem_nil
    · exact fun s a hs _ => hs.spawn a
    · exact fun s i t passed w' t' hs ho ht hst => hs.step hhash ht hst ho
  refine ⟨?_, ?_, ?_⟩
  · intro row name hro hp
    obtain ⟨name', hn, hsom⟩ := hydrate_isSome.mp (hso.read row hro) name hp
    rwa [sanitize_eq hn] at hsom
  · intro now
    simp only [OffloadRepository.get, rows.get_result]
    cases hro : (rows.table s.shared.repo.inner).get key with
    | none => rfl
    | some row =>
      have hr := hso.read row hro
      cases hl : row.live now with
      | true => simp [Option.filter, hl, hr]
      | false => simp [Option.filter, hl]
  · intro t ht hd
    exact hso.there t ht (by rw [hd]; rfl)

/-- The first set ends. Then two sets read its row, and both name their blobs anew. -/
def disjointNames : List (Interleaving.Event (CacheEntry × Option Nat) Nat) :=
  [.spawn (newEntry [1] .Bytes, none), .step 0 0, .step 0 0, .step 0 0, .step 0 0, .step 0 0,
    .spawn (newEntry [2] .Bytes, none), .spawn (newEntry [1] .Bytes, none),
    .step 1 NANOS_PER_SEC, .step 2 0, .step 1 0, .step 2 0, .step 1 0, .step 2 0, .step 1 0,
    .step 2 0, .step 1 0, .step 2 0]

/-- As before, but the third set writes what the first one wrote, in the same second, and the
second set unlinks it. -/
def sharedName : List (Interleaving.Event (CacheEntry × Option Nat) Nat) :=
  [.spawn (newEntry [1] .Bytes, none), .step 0 0, .step 0 0, .step 0 0, .step 0 0, .step 0 0,
    .spawn (newEntry [2] .Bytes, none), .step 1 0, .step 1 0, .step 1 0, .step 1 0,
    .spawn (newEntry [1] .Bytes, none), .step 2 0, .step 2 0, .step 2 0, .step 2 0, .step 2 0,
    .step 1 0]

def firstWorld : World MemoryCacheRepository := ⟨0, ⟨.new, fun _ => none⟩⟩

theorem disjoint_names_keep_the_blob :
    (((sets fewHashes memory oneSecond "k").run (unshared memory "k") ⟨firstWorld, []⟩
      disjointNames).map fun s => (s.shared.repo.get memory s.shared.now "k").2.isSome) =
        some true := by
  have hl : (((sets fewHashes memory oneSecond "k").run (unshared memory "k") ⟨firstWorld, []⟩
      disjointNames).map fun s => ((memoryRows.table s.shared.repo.inner).get "k").any
        (·.live s.shared.now)) = some true := by decide +kernel
  cases hr : (sets fewHashes memory oneSecond "k").run (unshared memory "k") ⟨firstWorld, []⟩
      disjointNames with
  | none =>
    rw [hr] at hl
    cases hl
  | some s =>
    have hg := (overlapping_sets_keep_the_blob memoryRows oneSecond "k" fewHashes_hex
      (by intro row hro; cases hro) (Interleaving.reach_of_run hr)).2.1 s.shared.now
    rw [hr] at hl
    rwa [Option.map_some, hg]

/-- Every set has ended and the row is live, but its blob is gone and a get misses it. -/
theorem shared_name_loses_the_blob :
    (((sets fewHashes memory oneSecond "k").run (fun _ _ => true) ⟨firstWorld, []⟩ sharedName).map
      fun s => (s.tasks.map (·.stage), (memoryRows.table s.shared.repo.inner).get "k",
        s.shared.repo.store firstBlob, (s.shared.repo.get memory s.shared.now "k").2)) =
      some ([.Done, .Done, .Done], some ⟨[], some firstBlob, .Bytes, some NANOS_PER_SEC⟩,
        none, none) := by
  decide +kernel

end camel_core.cache.offload
