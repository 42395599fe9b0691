-- The names of the blobs in `camel-core/src/cache/offload.rs`: the hash of the key, the
-- second in which the blob dies, and the hash of what it holds.
import RustCamel.Cache.Repositories

open List

namespace camel_core.cache.offload

open camel_api.cache (CacheEntry ContentType)

/-! ## The names -/

def content_type_discriminant : ContentType → UInt8
  | .Bytes => 0
  | .Text => 1
  | .Json => 2
  | .Xml => 3

def as_bytes (s : String) : List UInt8 := s.toUTF8.data.toList

section

variable (blake3_128hex : List UInt8 → String)

def content_fingerprint (entry : CacheEntry) : String :=
  blake3_128hex (entry.bytes ++ [content_type_discriminant entry.content_type])

def blob_filename (key : String) (death_epoch : Nat) (entry : CacheEntry) : String :=
  blake3_128hex (as_bytes key) ++ "." ++ toString death_epoch ++ "." ++
    content_fingerprint blake3_128hex entry ++ ".blob"

/-- `str::parse` for `u64`. -/
def parse_u64 (s : List Char) : Option Nat :=
  let digits := match s with
    | '+' :: digits => digits
    | digits => digits
  if digits.isEmpty ∨ ¬digits.all Char.isDigit then none
  else
    let n := Nat.ofDigitChars 10 digits 0
    if n < 2 ^ 64 then some n else none

def parse_death_epoch (file_name : String) : Option Nat :=
  (file_name.toList.splitOn '.')[1]?.bind parse_u64

/-- The text contains `..`. -/
def contains_dots : List Char → Bool
  | [] => false
  | c :: rest => (c == '.' && rest.head? == some '.') || contains_dots rest

def sanitize_blob_name (path : String) : Option String :=
  if path.isEmpty ∨ '/' ∈ path.toList ∨ '\\' ∈ path.toList ∨ contains_dots path.toList then none
  else some path

def starts_with (s start : String) : Bool := start.toList.isPrefixOf s.toList

end

/-! ## What is known of the hash -/

/-- A hash of 128 bits in lower case. -/
structure Hex128 (blake3_128hex : List UInt8 → String) : Prop where
  length : ∀ data, (blake3_128hex data).toList.length = 32
  hex : ∀ data, ∀ c ∈ (blake3_128hex data).toList, c ∈ "0123456789abcdef".toList

/-- No two of the inputs have the same hash. -/
def CollisionFree (blake3_128hex : List UInt8 → String) (inputs : List (List UInt8)) : Prop :=
  ∀ a ∈ inputs, ∀ b ∈ inputs, blake3_128hex a = blake3_128hex b → a = b

/-! ## A name and its parts -/

theorem cut_at_dot {a a' b b' : List Char} (ha : '.' ∉ a) (ha' : '.' ∉ a')
    (h : a ++ '.' :: b = a' ++ '.' :: b') : a = a' ∧ b = b' := by
  induction a generalizing a' with
  | nil =>
    cases a' with
    | nil => simpa using h
    | cons c a' =>
      simp only [nil_append, cons_append, List.cons.injEq] at h
      exact absurd (by simp [← h.1]) ha'
  | cons c a ih =>
    cases a' with
    | nil =>
      simp only [nil_append, cons_append, List.cons.injEq] at h
      exact absurd (by simp [h.1]) ha
    | cons c' a' =>
      simp only [cons_append, List.cons.injEq] at h
      obtain ⟨rfl, rfl⟩ := ih (fun hm => ha (by simp [hm])) (fun hm => ha' (by simp [hm])) h.2
      simp [h.1]

theorem as_bytes_injective {s s' : String} (h : as_bytes s = as_bytes s') : s = s' := by
  apply String.toByteArray_inj.mp
  exact ByteArray.ext (Array.toList_inj.mp h)

variable {c : Char} {epoch : Nat}

theorem not_mem_digits (hc : c.isDigit = false) (n : Nat) : c ∉ Nat.toDigits 10 n := by
  intro hm
  rw [Nat.isDigit_of_mem_toDigits (by decide) (by decide) hm] at hc
  cases hc

theorem parse_u64_digits {n : Nat} (h : n < 2 ^ 64) : parse_u64 (Nat.toDigits 10 n) = some n := by
  have hd : ∀ c ∈ Nat.toDigits 10 n, c.isDigit = true :=
    fun c hc => Nat.isDigit_of_mem_toDigits (by decide) (by decide) hc
  have hv : Nat.ofDigitChars 10 (Nat.toDigits 10 n) 0 = n := Nat.ofDigitChars_ten_toDigits
  have hn := @Nat.toDigits_ne_nil n 10
  generalize Nat.toDigits 10 n = digits at *
  -- digits do not start with a sign
  have hs : ∀ rest, digits ≠ '+' :: rest := by
    rintro rest rfl
    exact absurd (hd '+' (by simp)) (by decide)
  have ha : digits.all Char.isDigit = true := List.all_eq_true.mpr hd
  unfold parse_u64
  split
  · rename_i rest
    exact absurd rfl (hs rest)
  · simp only [List.isEmpty_iff, hn, ha, hv, not_true_eq_false, or_self, if_false, h, if_true]

/-- A dot between two texts that have none, the first of which is not empty. -/
theorem contains_dots_cut {a b : List Char} (ha : '.' ∉ a) (hb : contains_dots b = false)
    (hh : b.head? ≠ some '.') : contains_dots (a ++ '.' :: b) = false := by
  induction a with
  | nil => simp [contains_dots, hb, hh]
  | cons c a ih =>
    have hc : c ≠ '.' := fun heq => ha (by simp [heq])
    have hr := ih (fun hm => ha (by simp [hm]))
    simp [contains_dots, hc, hr]

theorem head_ne_dot {a : List Char} (b : List Char) (ha : '.' ∉ a) (hn : a ≠ []) :
    (a ++ b).head? ≠ some '.' := by
  cases a with
  | nil => exact absurd rfl hn
  | cons c a =>
    intro heq
    simp only [cons_append, head?_cons, Option.some.injEq] at heq
    exact ha (by simp [heq])

section

variable {blake3_128hex : List UInt8 → String}

theorem toList_blob_filename (key : String) (death_epoch : Nat) (entry : CacheEntry) :
    (blob_filename blake3_128hex key death_epoch entry).toList =
      (blake3_128hex (as_bytes key)).toList ++ '.' :: (Nat.toDigits 10 death_epoch ++
        '.' :: ((content_fingerprint blake3_128hex entry).toList ++ '.' :: "blob".toList)) := by
  simp [blob_filename]

variable (hhash : Hex128 blake3_128hex)
include hhash

theorem not_mem_hash (hc : c ∉ "0123456789abcdef".toList) (data : List UInt8) :
    c ∉ (blake3_128hex data).toList :=
  fun hm => hc (hhash.hex data c hm)

theorem parts_of_blob_filename {key key' : String} {epoch' : Nat} {entry entry' : CacheEntry}
    (h : blob_filename blake3_128hex key epoch entry =
      blob_filename blake3_128hex key' epoch' entry') :
    blake3_128hex (as_bytes key) = blake3_128hex (as_bytes key') ∧
      content_fingerprint blake3_128hex entry = content_fingerprint blake3_128hex entry' := by
  have hd := fun data => not_mem_hash hhash (c := '.') (by decide) data
  have hl := congrArg String.toList h
  rw [toList_blob_filename, toList_blob_filename] at hl
  obtain ⟨hk, hl⟩ := cut_at_dot (hd _) (hd _) hl
  obtain ⟨-, hl⟩ := cut_at_dot (not_mem_digits rfl _) (not_mem_digits rfl _) hl
  obtain ⟨hc, -⟩ := cut_at_dot (hd _) (hd _) hl
  exact ⟨String.toList_inj.mp hk, String.toList_inj.mp hc⟩

theorem parse_death_epoch_blob_filename (key : String) (he : epoch < 2 ^ 64)
    (entry : CacheEntry) :
    parse_death_epoch (blob_filename blake3_128hex key epoch entry) = some epoch := by
  have hd := fun data => not_mem_hash hhash (c := '.') (by decide) data
  unfold parse_death_epoch
  rw [toList_blob_filename, splitOn_append_cons_self_of_not_mem (hd _),
    splitOn_append_cons_self_of_not_mem (not_mem_digits rfl _)]
  rw [getElem?_cons_succ, getElem?_cons_zero, Option.bind_some]
  exact parse_u64_digits he

theorem not_mem_blob_filename (hc : c ∉ "0123456789abcdef".toList) (hdi : c.isDigit = false)
    (ho : c ∉ ".blob".toList) (key : String) (epoch : Nat) (entry : CacheEntry) :
    c ∉ (blob_filename blake3_128hex key epoch entry).toList := by
  have hh := not_mem_hash hhash hc
  have hd := not_mem_digits hdi epoch
  simp only [show ".blob".toList = '.' :: "blob".toList from rfl, mem_cons, not_or] at ho
  rw [toList_blob_filename]
  simp only [mem_append, mem_cons, not_or]
  exact ⟨hh _, ho.1, hd, ho.1, hh _, ho.1, ho.2⟩

theorem sanitize_blob_filename (key : String) (epoch : Nat) (entry : CacheEntry) :
    sanitize_blob_name (blob_filename blake3_128hex key epoch entry) =
      some (blob_filename blake3_128hex key epoch entry) := by
  have hdo := fun data => not_mem_hash hhash (c := '.') (by decide) data
  have hf : ∀ data, (blake3_128hex data).toList ≠ [] := by
    intro data hnil
    have hl := hhash.length data
    rw [hnil] at hl
    simp at hl
  have he : (blob_filename blake3_128hex key epoch entry).isEmpty = false := by
    rw [Bool.eq_false_iff]
    intro ht
    have hli := @toList_blob_filename blake3_128hex key epoch entry
    rw [String.isEmpty_iff.mp ht] at hli
    simp at hli
  have hd : contains_dots (blob_filename blake3_128hex key epoch entry).toList = false := by
    rw [toList_blob_filename]
    refine contains_dots_cut (hdo _) (contains_dots_cut (not_mem_digits rfl _)
      (contains_dots_cut (hdo _) (by decide) (by decide)) ?_) ?_
    · exact head_ne_dot _ (hdo _) (hf _)
    · exact head_ne_dot _ (not_mem_digits rfl _) Nat.toDigits_ne_nil
  have hs := not_mem_blob_filename hhash (c := '/') (by decide) rfl (by decide) key epoch entry
  have hb := not_mem_blob_filename hhash (c := '\\') (by decide) rfl (by decide) key epoch entry
  unfold sanitize_blob_name
  simp [he, hs, hb, hd]

end

end camel_core.cache.offload
