-- An ordered map as an embedded store keeps it: the rows stand in the order
-- of their keys, and each key stands once.
import Mathlib.Order.Lattice
import Mathlib.Order.Basic
import Mathlib.Order.Defs.LinearOrder
import Mathlib.Data.List.Pairwise

open List

/-- A map whose rows stand in the order of their keys. -/
structure OrdMap (K V : Type) [LinearOrder K] where
  rows : List (K × V)
  sorted : rows.Pairwise (fun a b => a.1 < b.1)

namespace OrdMap

variable {K V : Type} [LinearOrder K] {value : V} {p : K × V → Bool} {key' : K}

def empty : OrdMap K V := ⟨[], List.Pairwise.nil⟩

section

variable (m : OrdMap K V)

/-- The row of `key` takes the place of the one that was there, if any. -/
def insert (key : K) (value : V) : OrdMap K V where
  rows := m.rows.filter (fun r => r.1 < key) ++ (key, value) :: m.rows.filter (fun r => key < r.1)
  sorted := by
    rw [pairwise_append]
    refine ⟨m.sorted.filter _, ?_, ?_⟩
    · rw [pairwise_cons]
      refine ⟨?_, m.sorted.filter _⟩
      intro r hr
      simpa using (mem_filter.mp hr).2
    · intro a ha b hb
      have ha' : a.1 < key := by simpa using (mem_filter.mp ha).2
      rcases mem_cons.mp hb with hb | hb
      · rw [hb]
        exact ha'
      · have hb' : key < b.1 := by simpa using (mem_filter.mp hb).2
        exact lt_trans ha' hb'

def remove (key : K) : OrdMap K V where
  rows := m.rows.filter (fun r => r.1 ≠ key)
  sorted := m.sorted.filter _

/-- The rows that pass a test. -/
def retain (p : K × V → Bool) : OrdMap K V where
  rows := m.rows.filter p
  sorted := m.sorted.filter _

/-- The largest key, as the end of the iterator gives it. -/
def lastKey : Option K := m.rows.getLast?.map (·.1)

/-- The smallest key, as the start of the iterator gives it. -/
def firstKey : Option K := m.rows.head?.map (·.1)

def get (key : K) : Option V := (m.rows.find? (fun r => r.1 = key)).map (·.2)

def contains_key (key : K) : Bool := m.rows.any (fun r => r.1 = key)

@[simp] theorem rows_empty : (empty : OrdMap K V).rows = [] := rfl

@[simp] theorem mem_insert (key : K) (value : V) (r : K × V) :
    r ∈ (m.insert key value).rows ↔ r = (key, value) ∨ (r ∈ m.rows ∧ r.1 ≠ key) := by
  simp only [insert, mem_append, mem_filter, mem_cons, decide_eq_true_eq]
  constructor
  · rintro (⟨hr, hl⟩ | rfl | ⟨hr, hl⟩)
    · exact .inr ⟨hr, ne_of_lt hl⟩
    · exact .inl rfl
    · exact .inr ⟨hr, ne_of_gt hl⟩
  · rintro (rfl | ⟨hr, hn⟩)
    · exact .inr (.inl rfl)
    · rcases lt_or_gt_of_ne hn with hl | hl
      · exact .inl ⟨hr, hl⟩
      · exact .inr (.inr ⟨hr, hl⟩)

@[simp] theorem mem_remove (key : K) (r : K × V) :
    r ∈ (m.remove key).rows ↔ r ∈ m.rows ∧ r.1 ≠ key := by
  simp [remove]

@[simp] theorem contains_key_eq_true (key : K) :
    m.contains_key key = true ↔ ∃ value, (key, value) ∈ m.rows := by
  simp [contains_key]

theorem insert_ne_nil (key : K) (value : V) : (m.insert key value).rows ≠ [] := by
  simp [insert]

theorem le_of_lastKey {m : OrdMap K V} {k : K} (h : m.lastKey = some k) :
    ∀ r ∈ m.rows, r.1 ≤ k := by
  obtain ⟨last, hlast, rfl⟩ := Option.map_eq_some_iff.mp h
  obtain ⟨front, hro⟩ := getLast?_eq_some_iff.mp hlast
  intro r hr
  have hs := m.sorted
  rw [hro] at hr hs
  rcases mem_append.mp hr with hr | hr
  · exact le_of_lt ((pairwise_append.mp hs).2.2 r hr last (by simp))
  · rw [mem_singleton.mp hr]

theorem rows_of_lastKey_none {m : OrdMap K V} (h : m.lastKey = none) : m.rows = [] := by
  simpa [lastKey] using h

theorem rows_insert_top {m : OrdMap K V} {key : K} (value : V) (h : ∀ r ∈ m.rows, r.1 < key) :
    (m.insert key value).rows = m.rows ++ [(key, value)] := by
  have hl : m.rows.filter (fun r => r.1 < key) = m.rows := by
    rw [filter_eq_self]
    intro r hr
    simpa using h r hr
  have hh : m.rows.filter (fun r => key < r.1) = [] := by
    rw [filter_eq_nil_iff]
    intro r hr
    simpa using le_of_lt (h r hr)
  simp only [insert, hl, hh]

theorem rows_removeAll (keys : List K) :
    (keys.foldl remove m).rows = m.rows.filter (fun r => r.1 ∉ keys) := by
  induction keys generalizing m with
  | nil =>
    rw [foldl_nil, filter_eq_self.mpr]
    simp
  | cons key keys ih =>
    rw [foldl_cons, ih]
    simp only [remove, filter_filter]
    congr 1
    funext r
    by_cases hk : r.1 = key <;> simp [hk]

theorem eq_of_key_eq {m : OrdMap K V} {a b : K × V} (ha : a ∈ m.rows) (hb : b ∈ m.rows)
    (h : a.1 = b.1) : a = b := by
  by_contra hn
  have hs : m.rows.Pairwise (fun a b => a.1 ≠ b.1) := m.sorted.imp ne_of_lt
  have : Std.Symm (fun a b : K × V => a.1 ≠ b.1) := ⟨fun _ _ hab => Ne.symm hab⟩
  exact hs.forall ha hb hn h

theorem get_eq_some {m : OrdMap K V} {key : K} :
    m.get key = some value ↔ (key, value) ∈ m.rows := by
  constructor
  · intro h
    obtain ⟨r, hf, rfl⟩ := Option.map_eq_some_iff.mp h
    have hk : r.1 = key := by simpa using find?_some hf
    rw [← hk]
    exact mem_of_find?_eq_some hf
  · intro h
    cases hf : m.rows.find? (fun r => r.1 = key) with
    | none =>
      have hn := find?_eq_none.mp hf (key, value) h
      simp at hn
    | some r =>
      have hk : r.1 = key := by simpa using find?_some hf
      rw [get, hf, eq_of_key_eq (mem_of_find?_eq_some hf) h hk]
      rfl

theorem get_eq_none {m : OrdMap K V} {key : K} : m.get key = none ↔ ∀ r ∈ m.rows, r.1 ≠ key := by
  simp [get]

@[simp] theorem get_empty (key : K) : (empty : OrdMap K V).get key = none := rfl

@[simp] theorem get_insert_self (key : K) (value : V) :
    (m.insert key value).get key = some value := by
  simp [get_eq_some]

theorem get_insert_of_ne {key : K} (value : V) (h : key' ≠ key) :
    (m.insert key value).get key' = m.get key' := by
  apply Option.ext
  intro v
  simp [get_eq_some, h]

@[simp] theorem get_remove_self (key : K) : (m.remove key).get key = none := by
  simp [get_eq_none]

theorem get_remove_of_ne {key : K} (h : key' ≠ key) : (m.remove key).get key' = m.get key' := by
  apply Option.ext
  intro v
  simp [get_eq_some, h]

@[ext] theorem ext {m m' : OrdMap K V} (h : m.rows = m'.rows) : m = m' := by
  cases m
  cases m'
  cases h
  rfl

theorem rows_removeAll_filter (p : K × V → Bool) :
    (((m.rows.filter p).map (·.1)).foldl remove m).rows = m.rows.filter (fun r => !p r) := by
  rw [rows_removeAll]
  apply filter_congr
  intro r hr
  by_cases hp : p r = true
  · have : r.1 ∈ (m.rows.filter p).map (·.1) := mem_map.mpr ⟨r, mem_filter.mpr ⟨hr, hp⟩, rfl⟩
    simp [this, hp]
  · have : r.1 ∉ (m.rows.filter p).map (·.1) := by
      intro hm
      obtain ⟨x, hx, hxr⟩ := mem_map.mp hm
      obtain ⟨hxm, hxp⟩ := mem_filter.mp hx
      rw [eq_of_key_eq hxm hr hxr] at hxp
      exact hp hxp
    simp [this, hp]

theorem perm_remove {m : OrdMap K V} {key : K} (h : m.get key = some value) :
    m.rows.Perm ((key, value) :: (m.remove key).rows) := by
  have hm := get_eq_some.mp h
  have hk : m.rows.filter (fun r => r.1 = key) = [(key, value)] := by
    have ha : ∀ r ∈ m.rows.filter (fun r => r.1 = key), r = (key, value) := by
      intro r hr
      obtain ⟨hr, hke⟩ := mem_filter.mp hr
      exact eq_of_key_eq hr hm (by simpa using hke)
    have hn : (m.rows.filter (fun r => r.1 = key)).Nodup :=
      (m.sorted.imp (fun hl heq => absurd (heq ▸ hl) (lt_irrefl _))).filter _
    have hi : (key, value) ∈ m.rows.filter (fun r => r.1 = key) := by simp [hm]
    generalize m.rows.filter (fun r => r.1 = key) = found at *
    match found with
    | [] => simp at hi
    | [r] => rw [ha r (by simp)]
    | r :: r' :: rest =>
      rw [ha r (by simp), ha r' (by simp)] at hn
      simp at hn
  have hp := filter_append_perm (fun r => decide (r.1 = key)) m.rows
  rw [hk] at hp
  refine hp.symm.trans ?_
  simp [remove]

theorem perm_insert (key : K) (value : V) :
    (m.insert key value).rows.Perm ((key, value) :: (m.remove key).rows) := by
  have hl : (m.remove key).rows.filter (fun r => decide (r.1 < key)) =
      m.rows.filter (fun r => r.1 < key) := by
    simp only [remove, filter_filter]
    apply filter_congr
    intro r _
    by_cases hlt : r.1 < key
    · simp [hlt, ne_of_lt hlt]
    · simp [hlt]
  have hh : (m.remove key).rows.filter (fun r => !decide (r.1 < key)) =
      m.rows.filter (fun r => key < r.1) := by
    simp only [remove, filter_filter]
    apply filter_congr
    intro r _
    rcases lt_trichotomy r.1 key with hlt | heq | hlt
    · simp [hlt, not_lt_of_gt hlt]
    · simp [heq]
    · simp [hlt, ne_of_gt hlt, not_lt_of_gt hlt]
  have hp := filter_append_perm (fun r => decide (r.1 < key)) (m.remove key).rows
  rw [hl, hh] at hp
  exact perm_middle.trans (hp.cons _)

theorem remove_of_none {m : OrdMap K V} {key : K} (h : m.get key = none) : m.remove key = m := by
  apply ext
  simp only [remove]
  rw [filter_eq_self]
  intro r hr
  simpa using get_eq_none.mp h r hr

theorem get_of_remove {m : OrdMap K V} {key : K} (h : (m.remove key).get key' = some value) :
    m.get key' = some value := by
  rw [get_eq_some, mem_remove] at h
  exact get_eq_some.mpr h.1

theorem get_of_insert {m : OrdMap K V} {key : K} {value' : V}
    (h : (m.insert key value).get key' = some value') :
    (key' = key ∧ value' = value) ∨ m.get key' = some value' := by
  by_cases heq : key' = key
  · rw [heq, get_insert_self] at h
    exact .inl ⟨heq, (Option.some.inj h).symm⟩
  · rw [get_insert_of_ne _ _ heq] at h
    exact .inr h

theorem insert_insert (key : K) (value value' : V) :
    (m.insert key value).insert key value' = m.insert key value' := by
  apply ext
  have hl : (m.rows.filter fun r => key < r.1).filter (fun r => r.1 < key) = [] := by
    rw [filter_eq_nil_iff]
    intro r hr
    simpa using le_of_lt (by simpa using (mem_filter.mp hr).2)
  have hh : (m.rows.filter fun r => r.1 < key).filter (fun r => key < r.1) = [] := by
    rw [filter_eq_nil_iff]
    intro r hr
    simpa using le_of_lt (by simpa using (mem_filter.mp hr).2)
  simp [insert, hl, hh]

theorem insert_remove (key : K) (value : V) :
    (m.remove key).insert key value = m.insert key value := by
  apply ext
  simp only [insert, remove, filter_filter]
  congr 1
  · apply filter_congr
    intro r _
    by_cases hl : r.1 < key
    · simp [hl, ne_of_lt hl]
    · simp [hl]
  · congr 1
    apply filter_congr
    intro r _
    by_cases hl : key < r.1
    · simp [hl, ne_of_gt hl]
    · simp [hl]

theorem length_remove_le (key : K) :
    (m.remove key).rows.length ≤ m.rows.length := length_filter_le _ _

theorem length_insert_le (key : K) (value : V) :
    (m.insert key value).rows.length ≤ m.rows.length + 1 := by
  rw [(perm_insert m key value).length_eq, length_cons]
  exact Nat.succ_le_succ (length_remove_le m key)

end

theorem get_retain {m : OrdMap K V} {key : K} (h : m.get key = some value)
    (hp : p (key, value) = true) : (m.retain p).get key = some value := by
  rw [get_eq_some]
  exact mem_filter.mpr ⟨get_eq_some.mp h, hp⟩

theorem get_of_retain {m : OrdMap K V} {key : K} (h : (m.retain p).get key = some value) :
    m.get key = some value := by
  rw [get_eq_some] at h ⊢
  exact (mem_filter.mp h).1

/-! ## Two maps with the same keys -/

section Related

variable {V' : Type}

/-- The maps have the same keys, and the values of each key are related. -/
structure Related (R : K → V → V' → Prop) (m : OrdMap K V) (m' : OrdMap K V') : Prop where
  keys : m.rows.map (·.1) = m'.rows.map (·.1)
  values : ∀ key value value', (key, value) ∈ m.rows → (key, value') ∈ m'.rows → R key value value'

omit [LinearOrder K] in
theorem keys_filter (p : K → Bool) (rows : List (K × V)) :
    (rows.filter (fun r => p r.1)).map (·.1) = (rows.map (·.1)).filter p :=
  filter_map.symm

namespace Related

variable {R : K → V → V' → Prop} {m : OrdMap K V} {m' : OrdMap K V'}

theorem get_cases (h : Related R m m') (key : K) :
    (m.get key = none ∧ m'.get key = none) ∨
      ∃ value value', m.get key = some value ∧ m'.get key = some value' ∧ R key value value' := by
  have hm : (∃ value, (key, value) ∈ m.rows) ↔ ∃ value', (key, value') ∈ m'.rows := by
    simpa using Eq.to_iff (congrArg (fun keys => key ∈ keys) h.keys)
  cases hg : m.get key with
  | none =>
    cases hg' : m'.get key with
    | none => exact .inl ⟨rfl, rfl⟩
    | some value' =>
      obtain ⟨value, hv⟩ := hm.mpr ⟨value', get_eq_some.mp hg'⟩
      rw [get_eq_some.mpr hv] at hg
      cases hg
  | some value =>
    obtain ⟨value', hv'⟩ := hm.mp ⟨value, get_eq_some.mp hg⟩
    exact .inr ⟨value, value', rfl, get_eq_some.mpr hv',
      h.values key value value' (get_eq_some.mp hg) hv'⟩

theorem mono {R' : K → V → V' → Prop} (h : Related R m m')
    (himp : ∀ key value value', (key, value) ∈ m.rows → R key value value' →
      R' key value value') : Related R' m m' :=
  ⟨h.keys, fun key value value' hm hm' => himp key value value' hm
    (h.values key value value' hm hm')⟩

theorem remove (h : Related R m m') (key : K) : Related R (m.remove key) (m'.remove key) := by
  constructor
  · have hf := congrArg (List.filter (fun k => decide (k ≠ key))) h.keys
    rwa [← keys_filter, ← keys_filter] at hf
  · intro k value value' hm hm'
    exact h.values k value value' ((mem_remove _ _ _).mp hm).1 ((mem_remove _ _ _).mp hm').1

theorem insert {key : K} (h : Related R (m.remove key) (m'.remove key)) {value : V} {value' : V'}
    (hv : R key value value') : Related R (m.insert key value) (m'.insert key value') := by
  rw [← insert_remove m, ← insert_remove m']
  constructor
  · have hl := congrArg (List.filter (fun k => decide (k < key))) h.keys
    have hh := congrArg (List.filter (fun k => decide (key < k))) h.keys
    rw [← keys_filter, ← keys_filter] at hl hh
    simp only [OrdMap.insert, map_append, map_cons]
    rw [hl, hh]
  · intro k old old' hm hm'
    rcases (mem_insert _ _ _ _).mp hm with heq | ⟨hm, hn⟩
    · cases heq
      rcases (mem_insert _ _ _ _).mp hm' with he' | ⟨-, hn⟩
      · cases he'
        exact hv
      · exact absurd rfl hn
    · rcases (mem_insert _ _ _ _).mp hm' with he' | ⟨hm', -⟩
      · cases he'
        exact absurd rfl hn
      · exact h.values k old old' hm hm'

end Related

end Related

end OrdMap
