-- Prefix invalidation of `redb.rs`: UTF-8 keeps the order of the scalars, so the keys from a prefix
-- up to its successor are those that begin with it.
import RustCamel.Cache.BlobNames
import RustCamel.Cache.RedbTable

namespace camel_core.cache.redb

open PrefixRanges List
open Fallible (bind_eq_ok)
open camel_core.cache.offload (starts_with)

/-! ## UTF-8 keeps the order -/

def scalar_bytes (c : Char) : List Nat := (String.utf8EncodeChar c).map (·.toNat)

theorem utf8_eq (s : String) : utf8 s = s.toList.flatMap scalar_bytes := by
  have hb : s.toUTF8.data.toList = s.toList.flatMap String.utf8EncodeChar := by
    rw [String.toUTF8_eq_toByteArray, ← String.utf8Encode_toList]
    simp [List.utf8Encode, data_toByteArray]
  unfold utf8 scalar_bytes
  rw [hb, map_flatMap]

/-- No scalar stands in the surrogate gap, and none above the last one. -/
theorem toNat_valid (c : Char) : c.toNat < 0xD800 ∨ 0xDFFF < c.toNat ∧ c.toNat < 0x110000 := c.valid

theorem scalar_bytes_eq (c : Char) :
    scalar_bytes c =
      if c.toNat ≤ 0x7F then [c.toNat]
      else if c.toNat ≤ 0x7FF then [c.toNat / 64 + 0xC0, c.toNat % 64 + 0x80]
      else if c.toNat ≤ 0xFFFF then
        [c.toNat / 4096 + 0xE0, c.toNat / 64 % 64 + 0x80, c.toNat % 64 + 0x80]
      else [c.toNat / 262144 + 0xF0, c.toNat / 4096 % 64 + 0x80, c.toNat / 64 % 64 + 0x80,
        c.toNat % 64 + 0x80] := by
  have hvalid := toNat_valid c
  unfold scalar_bytes String.utf8EncodeChar
  simp only [Char.toNat_val]
  split_ifs <;> simp only [map_cons, map_nil, UInt8.toNat_ofNat', List.cons.injEq,
    and_true] <;> omega

theorem scalar_bytes_ordered : Ordered scalar_bytes where
  ne_nil c := by simp [scalar_bytes, String.utf8EncodeChar_ne_nil]
  lt := by
    intro a b hl x y
    have hab : a.toNat < b.toNat := hl
    rw [scalar_bytes_eq, scalar_bytes_eq]
    -- a longer code starts with a larger byte, and codes of one length are digits
    split_ifs <;> first
      | omega
      | exact cons_lt_cons_iff.mpr (.inl (by omega))
      | refine append_lt_append (by rfl) ?_ x y
        simp only [cons_lt_cons_iff, not_lt_nil, and_false, or_false]
        omega

/-- Texts stand in the order of their bytes as in the order of their scalars. -/
theorem utf8_lt_iff {a b : String} : utf8 a < utf8 b ↔ a.toList < b.toList := by
  rw [utf8_eq, utf8_eq]
  exact scalar_bytes_ordered.strictMono.lt_iff_lt

theorem utf8_le_iff {a b : String} : utf8 a ≤ utf8 b ↔ a.toList ≤ b.toList := by
  rw [utf8_eq, utf8_eq]
  exact scalar_bytes_ordered.strictMono.le_iff_le

/-! ## The successor of a prefix -/

theorem toNat_ofNat_of_valid {n : Nat} (h : n.isValidChar) : (Char.ofNat n).toNat = n := by
  unfold Char.ofNat
  rw [dif_pos h]
  rfl

theorem increment_scalar_eq_some {a b : Char} (h : increment_scalar a = some b) :
    b.toNat = if a.toNat = 0xD7FF then 0xE000 else a.toNat + 1 := by
  unfold increment_scalar from_u32 at h
  split_ifs at h with hg hlast hvalid
  · cases h
    rw [if_pos hg]
    exact toNat_ofNat_of_valid (by decide)
  · cases h
    rw [if_neg hg]
    exact toNat_ofNat_of_valid hvalid

theorem increment_scalar_eq_none {a : Char} (h : increment_scalar a = none) :
    a.toNat = 0x10FFFF := by
  have hvalid := toNat_valid a
  unfold increment_scalar from_u32 at h
  split_ifs at h with hg hlast hi
  · exact hlast
  · unfold Nat.isValidChar at hi
    omega

theorem increment_scalar_next : Next increment_scalar where
  after := by
    intro a b h x
    have hb := increment_scalar_eq_some h
    have hx := toNat_valid x
    show a.toNat < x.toNat ↔ b.toNat ≤ x.toNat
    split_ifs at hb <;> omega
  last := by
    intro a h x
    have ha := increment_scalar_eq_none h
    have hx := toNat_valid x
    show x.toNat ≤ a.toNat
    omega

theorem successor_bound_eq (prefix' : String) :
    successor_bound prefix' =
      match successor increment_scalar prefix'.toList with
      | some after => .Excluded (.ofList after)
      | none => .Unbounded := by
  unfold successor_bound
  generalize hc : prefix'.toList = chars
  clear hc
  induction chars using List.reverseRecOn with
  | nil => rfl
  | append_singleton rest last ih =>
    rw [reverse_concat, successor_of, successor_concat]
    cases hn : increment_scalar last with
    | some next => simp
    | none => exact ih

theorem in_range_iff (prefix' s : String) :
    (utf8 prefix' ≤ utf8 s ∧ (successor_bound prefix').admits ⟨s⟩ = true) ↔
      starts_with s prefix' = true := by
  unfold starts_with
  rw [List.isPrefixOf_iff_prefix, prefix_iff increment_scalar_next, utf8_le_iff, successor_bound_eq]
  cases successor increment_scalar prefix'.toList with
  | none => simp [Bound.admits]
  | some after => simp [Bound.admits, StrKey.lt_iff, utf8_lt_iff]

/-! ## Invalidation -/

section

variable {failing : RedbCall → Option String} {repo : RedbRepository} {prefix' : String}

theorem mem_range {r : StrKey × List UInt8} :
    r ∈ range repo.table prefix' (successor_bound prefix') ↔
      r ∈ repo.table.rows ∧ starts_with r.1.text prefix' = true := by
  rw [range, mem_filter, Bool.and_eq_true, decide_eq_true_eq, StrKey.le_iff, in_range_iff]

theorem delete_prefix_eq_ok {deleted : Nat} {table : CacheTable}
    (h : delete_prefix failing repo prefix' = .ok (deleted, table)) (key : String) :
    table.get ⟨key⟩ = if starts_with key prefix' then none else repo.table.get ⟨key⟩ := by
  obtain ⟨-, -, h⟩ := bind_eq_ok h
  obtain ⟨-, -, h⟩ := bind_eq_ok h
  obtain ⟨-, -, h⟩ := bind_eq_ok h
  obtain ⟨keys, hc, h⟩ := bind_eq_ok h
  obtain ⟨-, -, h⟩ := bind_eq_ok h
  obtain ⟨-, -, h⟩ := bind_eq_ok h
  obtain ⟨table', hre, h⟩ := bind_eq_ok h
  obtain ⟨-, -, h⟩ := bind_eq_ok h
  cases h
  rw [remove_all_eq_ok hre, get_removeAll]
  obtain ⟨hp, hk⟩ := collect_eq_ok hc
  -- the keys that were collected are those of the rows in the range
  have hco : (⟨key⟩ : StrKey) ∈ keys ↔
      (∃ bytes, repo.table.get ⟨key⟩ = some bytes) ∧ starts_with key prefix' = true := by
    rw [hk]
    constructor
    · rintro ⟨⟨_, bytes⟩, hr, rfl, -⟩
      obtain ⟨hm, hs⟩ := mem_range.mp hr
      exact ⟨⟨bytes, OrdMap.get_eq_some.mpr hm⟩, hs⟩
    · rintro ⟨⟨bytes, hro⟩, hs⟩
      have hr : (⟨key⟩, bytes) ∈ range repo.table prefix' (successor_bound prefix') :=
        mem_range.mpr ⟨OrdMap.get_eq_some.mp hro, hs⟩
      obtain ⟨hit, hpa⟩ := hp _ hr
      refine ⟨_, hr, rfl, ?_⟩
      obtain ⟨u, hi, -⟩ := bind_eq_ok hpa
      rw [hi]
      rfl
  cases hro : repo.table.get ⟨key⟩ with
  | none => simp
  | some bytes => simp [hco, hro]

theorem delete_prefix_works (repo : RedbRepository) (prefix' : String) :
    ∃ deleted table, delete_prefix works repo prefix' = .ok (deleted, table) := by
  have he : ∃ keys, collect (fun r => do
      attempt works (.range_item r.1.text)
      .ok true) (range repo.table prefix' (successor_bound prefix')) = .ok keys :=
    collect_ends fun r _ => ⟨true, rfl⟩
  obtain ⟨keys, hc⟩ := he
  refine ⟨keys.length, keys.foldl .remove repo.table, ?_⟩
  unfold delete_prefix
  simp only [attempt_works, bind, Except.bind] at hc ⊢
  rw [hc]
  simp only [remove_all_works]

/-- The keys that begin with a prefix are those that are not before it and, if it has a successor,
before that one, in the order of UTF-8. An invalidation that does not fail takes their rows and no
other, one that fails takes none, and it fails only where a call of the database does. -/
theorem invalidation_takes_the_prefixed_keys (failing : RedbCall → Option String)
    (repo : RedbRepository) (prefix' : String) :
    (∀ s, starts_with s prefix' = true ↔
      utf8 prefix' ≤ utf8 s ∧ (successor_bound prefix' = .Unbounded ∨
        ∃ after, successor_bound prefix' = .Excluded after ∧ utf8 s < utf8 after)) ∧
    (∀ key, ( invalidate_prefix failing repo prefix').2.table.get ⟨key⟩ =
      if ( invalidate_prefix failing repo prefix').1.isOk && starts_with key prefix' then none
      else repo.table.get ⟨key⟩) ∧
    ( invalidate_prefix works repo prefix').1.isOk = true := by
  refine ⟨fun s => ?_, fun key => ?_, ?_⟩
  · rw [← in_range_iff, successor_bound_eq]
    cases successor increment_scalar prefix'.toList with
    | none => simp [Bound.admits]
    | some after => simp [Bound.admits, StrKey.lt_iff]
  · unfold invalidate_prefix
    cases hd : delete_prefix failing repo prefix' with
    | error e => simp [Except.isOk, Except.toBool]
    | ok result =>
      obtain ⟨deleted, table⟩ := result
      simpa [Except.isOk, Except.toBool] using delete_prefix_eq_ok hd key
  · obtain ⟨deleted, table, hd⟩ := delete_prefix_works repo prefix'
    unfold invalidate_prefix
    rw [hd]
    rfl

end

end camel_core.cache.redb
