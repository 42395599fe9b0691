-- A map with a bound, which makes room before a row is stored: when it is full, the dead rows
-- go, and then the oldest one if it is still full.
import Mathlib.Data.Finset.Card
import Mathlib.Data.List.MinMax
import RustCamel.Lib.OrdMap

open List

namespace OrdMap

variable {K V : Type} [LinearOrder K] {dead : V → Bool} {age : V → Nat} {max : Nat}
  {m : OrdMap K V} {r : K × V}

/-- Of rows of one age the one with the smallest key goes. -/
def make_room (dead : V → Bool) (age : V → Nat) (max : Nat) (m : OrdMap K V) : OrdMap K V :=
  if m.rows.length < max then m
  else
    let alive := m.retain (fun r => !dead r.2)
    if max ≤ alive.rows.length then
      match alive.rows.argmin (fun r => age r.2) with
      | some oldest => alive.remove oldest.1
      | none => alive
    else alive

theorem make_room_cases (dead : V → Bool) (age : V → Nat) (max : Nat) (m : OrdMap K V) :
    (m.rows.length < max ∧ m.make_room dead age max = m) ∨
      ((m.retain fun r => !dead r.2).rows.length < max ∧
        m.make_room dead age max = m.retain fun r => !dead r.2) ∨
      ((m.retain fun r => !dead r.2).rows = [] ∧
        m.make_room dead age max = m.retain fun r => !dead r.2) ∨
      ∃ oldest ∈ (m.retain fun r => !dead r.2).rows,
        m.make_room dead age max = (m.retain fun r => !dead r.2).remove oldest.1 := by
  unfold make_room
  by_cases hr : m.rows.length < max
  · exact .inl ⟨hr, if_pos hr⟩
  · rw [if_neg hr]
    by_cases hf : max ≤ (m.retain fun r => !dead r.2).rows.length
    · simp only [if_pos hf]
      cases ho : (m.retain fun r => !dead r.2).rows.argmin (fun r => age r.2) with
      | none => exact .inr (.inr (.inl ⟨argmin_eq_none.mp ho, rfl⟩))
      | some oldest => exact .inr (.inr (.inr ⟨oldest, argmin_mem ho, rfl⟩))
    · simp only [if_neg hf]
      exact .inr (.inl ⟨Nat.lt_of_not_le hf, trivial⟩)

theorem mem_of_make_room (h : r ∈ (m.make_room dead age max).rows) : r ∈ m.rows := by
  have hre : ∀ {r}, r ∈ (m.retain fun r => !dead r.2).rows → r ∈ m.rows :=
    fun hr => mem_of_mem_filter hr
  rcases make_room_cases dead age max m with ⟨-, heq⟩ | ⟨-, heq⟩ | ⟨-, heq⟩ | ⟨oldest, -, heq⟩
  · rwa [heq] at h
  · rw [heq] at h
    exact hre h
  · rw [heq] at h
    exact hre h
  · rw [heq] at h
    exact hre ((mem_remove _ _ _).mp h).1

theorem length_remove_lt (h : r ∈ m.rows) : (m.remove r.1).rows.length < m.rows.length := by
  have hp := perm_remove (get_eq_some.mpr h)
  rw [hp.length_eq, length_cons]
  exact Nat.lt_succ_self _

theorem length_make_room_lt (hm : 1 ≤ max) (h : m.rows.length ≤ max) :
    (m.make_room dead age max).rows.length < max := by
  have hr : (m.retain fun r => !dead r.2).rows.length ≤ m.rows.length := length_filter_le _ _
  rcases make_room_cases dead age max m with
    ⟨hl, heq⟩ | ⟨hl, heq⟩ | ⟨hnil, heq⟩ | ⟨oldest, hme, heq⟩
  · rwa [heq]
  · rwa [heq]
  · rw [heq, hnil]
    exact hm
  · rw [heq]
    exact Nat.lt_of_lt_of_le (length_remove_lt hme) (hr.trans h)

/-! ## Keys -/

def keys (m : OrdMap K V) : Finset K := (m.rows.map (·.1)).toFinset

theorem mem_keys {key : K} : key ∈ m.keys ↔ ∃ value, (key, value) ∈ m.rows := by
  simp [keys]

theorem card_keys (m : OrdMap K V) : m.keys.card = m.rows.length := by
  have hn : (m.rows.map (·.1)).Nodup := pairwise_map.mpr (m.sorted.imp ne_of_lt)
  rw [keys, toFinset_card_of_nodup hn, length_map]

theorem keys_insert (m : OrdMap K V) (key : K) (value : V) :
    (m.insert key value).keys = {key} ∪ m.keys := by
  ext k
  simp only [mem_keys, mem_insert, Finset.mem_union, Finset.mem_singleton, Prod.mk.injEq]
  by_cases hk : k = key
  · simp [hk]
  · simp [hk]

end OrdMap
