-- The table of `redb.rs` as the database keeps it: the keys in the order of their UTF-8 bytes, the
-- entries as bytes. Each call of the database may fail, and what a transaction did is then undone.
import Mathlib.Data.Char
import RustCamel.Lib.Fallible
import RustCamel.Lib.PrefixRanges
import RustCamel.RedisRepo.CacheBackends

open List

namespace camel_core.cache.redb

open camel_api.cache (CacheEntry CacheStats)
open camel_api.error (CamelError)
open Fallible (bind_eq_ok)

/-! ## Keys -/

/-- The bytes of a text. -/
def utf8 (s : String) : List Nat := s.toUTF8.data.toList.map (·.toNat)

theorem utf8_injective : Function.Injective utf8 := by
  intro a b h
  have hb := (map_injective_iff.mpr fun x y => UInt8.toNat_inj.mp) h
  apply String.toByteArray_inj.mp
  rw [← String.toUTF8_eq_toByteArray, ← String.toUTF8_eq_toByteArray]
  exact ByteArray.ext (Array.toList_inj.mp hb)

structure StrKey where
  text : String
  deriving DecidableEq

/-- redb compares keys by their bytes. -/
instance : LinearOrder StrKey :=
  LinearOrder.lift' (fun key => utf8 key.text) fun a b h => by
    obtain ⟨a⟩ := a
    obtain ⟨b⟩ := b
    exact congrArg StrKey.mk (utf8_injective h)

theorem StrKey.le_iff {a b : StrKey} : a ≤ b ↔ utf8 a.text ≤ utf8 b.text := Iff.rfl

theorem StrKey.lt_iff {a b : StrKey} : a < b ↔ utf8 a.text < utf8 b.text := Iff.rfl

abbrev CacheTable := OrdMap StrKey (List UInt8)

/-! ## Ranges of keys -/

inductive Bound where
  | Included (key : String)
  | Excluded (key : String)
  | Unbounded

def Bound.admits (upper : Bound) (key : StrKey) : Bool :=
  match upper with
  | .Included s => key ≤ ⟨s⟩
  | .Excluded s => key < ⟨s⟩
  | .Unbounded => true

def range (table : CacheTable) (lower : String) (upper : Bound) : List (StrKey × List UInt8) :=
  table.rows.filter fun r => ⟨lower⟩ ≤ r.1 && upper.admits r.1

/-- `char::from_u32`. -/
def from_u32 (n : Nat) : Option Char := if n.isValidChar then some (Char.ofNat n) else none

def increment_scalar (c : Char) : Option Char :=
  if c.toNat = 0xD7FF then some (Char.ofNat 0xE000)
  else if c.toNat = 0x10FFFF then none
  else from_u32 (c.toNat + 1)

/-- The loop of `successor_bound`, over the scalars from the last one. -/
def successor_of : List Char → Bound
  | [] => .Unbounded
  | last :: rest =>
    match increment_scalar last with
    | some next => .Excluded (.ofList (rest.reverse ++ [next]))
    | none => successor_of rest

def successor_bound (prefix' : String) : Bound := successor_of prefix'.toList.reverse

/-! ## Calls that may fail -/

inductive RedbCall where
  | begin_read
  | begin_write
  | open_table (writes : Bool)
  | get
  | iter
  | iter_item (key : String)
  | range
  | range_item (key : String)
  | remove (key : String)
  | commit

def RedbCall.name : RedbCall → String
  | .begin_read => "begin_read"
  | .begin_write => "begin_write"
  | .open_table _ => "open_table"
  | .get => "get"
  | .iter => "iter"
  | .iter_item _ => "iter item"
  | .range => "range"
  | .range_item _ => "range item"
  | .remove _ => "remove"
  | .commit => "commit"

def works : RedbCall → Option String := fun _ => none

section

variable (failing : RedbCall → Option String) (from_slice : List UInt8 → Except String CacheEntry)

/-- A call, which fails with the text that `failing` gives. -/
def attempt (call : RedbCall) : Except CamelError Unit :=
  match failing call with
  | some e => .error (.Io s!"redb {call.name}: {e}")
  | none => .ok ()

def entry_of (bytes : List UInt8) : Except CamelError CacheEntry :=
  match from_slice bytes with
  | .ok entry => .ok entry
  | .error e => .error (.Io s!"cache deserialization: {e}")

/-- A loop over rows that collects the keys of those that pass. -/
def collect (passes : StrKey × List UInt8 → Except CamelError Bool) :
    List (StrKey × List UInt8) → Except CamelError (List StrKey)
  | [] => .ok []
  | r :: rows => do
    let hit ← passes r
    let keys ← collect passes rows
    .ok (if hit then r.1 :: keys else keys)

def remove_all (table : CacheTable) (keys : List StrKey) : Except CamelError CacheTable :=
  keys.foldlM (fun table k => do
    attempt failing (.remove k.text)
    .ok (table.remove k)) table

/-! ## The repository -/

structure RedbRepository where
  table : CacheTable
  stats : CacheStats

variable (repo : RedbRepository)

def read_row (key : String) : Except CamelError (Option CacheEntry) := do
  attempt failing .begin_read
  attempt failing (.open_table false)
  attempt failing .get
  match repo.table.get ⟨key⟩ with
  | some bytes => do
    let entry ← entry_of from_slice bytes
    .ok (some entry)
  | none => .ok none

def get (now : Nat) (key : String) : Except CamelError (Option CacheEntry) × RedbRepository :=
  match read_row failing from_slice repo key with
  | .error e => (.error e, repo)
  | .ok (some entry) =>
    let expired := entry.expires_at.any fun e => e ≤ now
    if expired then (.ok none, { repo with stats.misses := repo.stats.misses + 1 })
    else (.ok (some entry), { repo with stats.hits := repo.stats.hits + 1 })
  | .ok none => (.ok none, { repo with stats.misses := repo.stats.misses + 1 })

/-- The two transactions of `invalidate_prefix`: one collects the keys, the other removes them. -/
def delete_prefix (prefix' : String) : Except CamelError (Nat × CacheTable) := do
  attempt failing .begin_read
  attempt failing (.open_table false)
  let upper := successor_bound prefix'
  attempt failing .range
  let keys ← collect (fun r => do
    attempt failing (.range_item r.1.text)
    .ok true) (range repo.table prefix' upper)
  attempt failing .begin_write
  attempt failing (.open_table true)
  let table ← remove_all failing repo.table keys
  attempt failing .commit
  .ok (keys.length, table)

def invalidate_prefix (prefix' : String) : Except CamelError Nat × RedbRepository :=
  match delete_prefix failing repo prefix' with
  | .error e => (.error e, repo)
  | .ok (deleted, table) =>
    (.ok deleted, { table, stats := { repo.stats with
      invalidations := repo.stats.invalidations + 1
      entries := repo.stats.entries - min repo.stats.entries deleted } })

variable (stale_retention : Nat)

/-- A row goes when it is past its retention, or when that time cannot be told. -/
def should_delete (now : Nat) : Option Nat → Bool
  | some exp =>
    match checked_add exp stale_retention with
    | some threshold => threshold < now
    | none => true
  | none => false

def sweep_reclaim (now : Nat) : Except CamelError (Nat × CacheTable) := do
  attempt failing .begin_write
  attempt failing (.open_table true)
  attempt failing .iter
  let to_delete ← collect (fun r => do
    attempt failing (.iter_item r.1.text)
    let entry ← entry_of from_slice r.2
    .ok (should_delete stale_retention now entry.expires_at)) repo.table.rows
  let table ← remove_all failing repo.table to_delete
  attempt failing .commit
  .ok (to_delete.length, table)

end

/-! ## What the loops do -/

section

variable {failing : RedbCall → Option String}
  {passes : StrKey × List UInt8 → Except CamelError Bool} {rows : List (StrKey × List UInt8)}

theorem attempt_works (call : RedbCall) : attempt works call = .ok () := rfl

theorem collect_eq_ok {keys : List StrKey} (h : collect passes rows = .ok keys) :
    (∀ r ∈ rows, ∃ hi, passes r = .ok hi) ∧
      ∀ key, key ∈ keys ↔ ∃ r ∈ rows, r.1 = key ∧ passes r = .ok true := by
  induction rows generalizing keys with
  | nil =>
    cases h
    simp
  | cons r rows ih =>
    obtain ⟨hi, hp, h⟩ := bind_eq_ok h
    obtain ⟨keys', hr, h⟩ := bind_eq_ok h
    obtain ⟨ha, hm⟩ := ih hr
    cases h
    refine ⟨?_, ?_⟩
    · intro r' hr'
      rcases mem_cons.mp hr' with rfl | hr'
      · exact ⟨hi, hp⟩
      · exact ha r' hr'
    · intro key
      cases hi <;> simp [hm, hp, eq_comm]

theorem collect_ends (h : ∀ r ∈ rows, ∃ hi, passes r = .ok hi) :
    ∃ keys, collect passes rows = .ok keys := by
  induction rows with
  | nil => exact ⟨[], rfl⟩
  | cons r rows ih =>
    obtain ⟨hi, hp⟩ := h r (by simp)
    obtain ⟨keys, hk⟩ := ih fun r' hr' => h r' (by simp [hr'])
    exact ⟨_, by simp [collect, hp, hk, bind, Except.bind]; rfl⟩

theorem remove_all_eq_ok {table table' : CacheTable} {keys : List StrKey}
    (h : remove_all failing table keys = .ok table') : table' = keys.foldl .remove table := by
  induction keys generalizing table with
  | nil =>
    cases h
    rfl
  | cons k keys ih =>
    unfold remove_all at h ih
    rw [foldlM_cons] at h
    obtain ⟨table₁, hr, h⟩ := bind_eq_ok h
    obtain ⟨u, -, hr⟩ := bind_eq_ok hr
    cases hr
    exact ih h

theorem remove_all_works (table : CacheTable) (keys : List StrKey) :
    remove_all works table keys = .ok (keys.foldl .remove table) := by
  induction keys generalizing table with
  | nil => rfl
  | cons k keys ih => exact ih (table.remove k)

theorem get_removeAll (table : CacheTable) (keys : List StrKey) (key : StrKey) :
    (keys.foldl .remove table).get key = if key ∈ keys then none else table.get key := by
  induction keys generalizing table with
  | nil => simp
  | cons k keys ih =>
    rw [foldl_cons, ih]
    by_cases hk : key = k
    · subst hk
      simp
    · simp [hk, OrdMap.get_remove_of_ne _ hk]

end

end camel_core.cache.redb
