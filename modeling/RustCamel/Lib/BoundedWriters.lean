-- Many writers over one map with a bound. A writer makes room in one step and stores its row
-- in another, and others may come in between, so the room made for one row can be too little.
import Mathlib.Data.Finset.Option
import RustCamel.Lib.Interleaving
import RustCamel.Lib.LazyEviction

open List Option

namespace OrdMap

variable {K V τ : Type} [LinearOrder K] {max : Nat}

/-- The keys that the tasks still have to store. -/
def waiting (waits : τ → Option K) (tasks : List τ) : Finset K := (tasks.filterMap waits).toFinset

/-- A writer that leaves these rows and has to store its key finds no other that waits, or
there is room for all of them. -/
def Fits (max : Nat) (left : OrdMap K V) (others : Finset K) (key : K) : Prop :=
  others = ∅ ∨ (left.keys ∪ others ∪ {key}).card ≤ max

instance (max : Nat) (left : OrdMap K V) (others : Finset K) (key : K) :
    Decidable (Fits max left others key) := inferInstanceAs (Decidable (_ ∨ _))

/-- What a step of a task does to the map and to the key it has to store, where the others
wait. -/
inductive Writes (max : Nat) (m : OrdMap K V) (others : Finset K) :
    Option K → OrdMap K V → Option K → Prop
  | keep {m' : OrdMap K V} {claim claim' : Option K} (hsub : m'.keys ⊆ m.keys)
      (h : claim' = claim ∨ claim' = none) : Writes max m others claim m' claim'
  | make_room {dead : V → Bool} {age : V → Nat} {key : K}
      (hfits : Fits max (m.make_room dead age max) others key) :
      Writes max m others none (m.make_room dead age max) (some key)
  | store {key : K} {value : V} : Writes max m others (some key) (m.insert key value) none

section

variable {waits : τ → Option K} {tasks : List τ} {t t' : τ} {i : Nat} {m m' : OrdMap K V} {key : K}

theorem mem_waiting : key ∈ waiting waits tasks ↔ ∃ t ∈ tasks, waits t = some key := by
  simp [waiting]

theorem mem_waiting_of_getElem? (ht : tasks[i]? = some t) (h : waits t = some key) :
    key ∈ waiting waits tasks := mem_waiting.mpr ⟨t, mem_of_getElem? ht, h⟩

theorem waiting_append (h : waits t = none) :
    waiting waits (tasks ++ [t]) = waiting waits tasks := by
  simp [waiting, h]

theorem waiting_set_subset (waits : τ → Option K) (t' : τ) (ht : tasks[i]? = some t) :
    waiting waits (tasks.set i t') ⊆ waiting waits tasks ∪ (waits t').toFinset := by
  intro key hk
  obtain ⟨u, hu, hw⟩ := mem_waiting.mp hk
  rw [Finset.mem_union, Option.mem_toFinset]
  rcases mem_set_cases ht hu with rfl | ⟨j, -, hj⟩
  · exact .inr hw
  · exact .inl (mem_waiting_of_getElem? hj hw)

theorem subset_waiting_set (t' : τ) (ht : tasks[i]? = some t) (hn : waits t = none) :
    waiting waits tasks ∪ (waits t').toFinset ⊆ waiting waits (tasks.set i t') := by
  intro key hk
  rw [Finset.mem_union, Option.mem_toFinset] at hk
  rcases hk with hold | hne
  · obtain ⟨u, hu, hw⟩ := mem_waiting.mp hold
    rcases mem_set_or_eq t' ht hu with hm | rfl
    · exact mem_waiting.mpr ⟨u, hm, hw⟩
    · rw [hn] at hw
      cases hw
  · have hl : i < tasks.length := (List.getElem?_eq_some_iff.mp ht).1
    exact mem_waiting_of_getElem? (getElem?_set_self hl) hne

theorem Writes.bounded (hm : 1 ≤ max) (ht : tasks[i]? = some t)
    (hw : Writes max m (waiting waits tasks) (waits t) m' (waits t'))
    (h : (m.keys ∪ waiting waits tasks).card ≤ max) :
    (m'.keys ∪ waiting waits (tasks.set i t')).card ≤ max := by
  have hs := waiting_set_subset waits t' ht
  generalize hc : waits t = claim at hw
  generalize hc' : waits t' = claim' at hw hs
  cases hw
  case keep hsu hk =>
    refine (Finset.card_le_card (Finset.union_subset_union hsu ?_)).trans h
    refine hs.trans (Finset.union_subset subset_rfl ?_)
    intro key hke
    rw [Option.mem_toFinset] at hke
    rcases hk with rfl | rfl
    · exact mem_waiting_of_getElem? ht (hc.trans hke)
    · cases hke
  case make_room dead age key hf =>
    have hsu : (m.make_room dead age max).keys ∪ waiting waits (tasks.set i t') ⊆
        (m.make_room dead age max).keys ∪ waiting waits tasks ∪ {key} := by
      rw [Finset.union_assoc]
      exact Finset.union_subset_union_right hs
    refine (Finset.card_le_card hsu).trans ?_
    rcases hf with he | hf
    · -- nobody else waits, and the one row that comes has its room
      have hlen : m.rows.length ≤ max := by
        rw [← card_keys]
        exact (Finset.card_le_card Finset.subset_union_left).trans h
      have hr : (m.make_room dead age max).rows.length < max := length_make_room_lt hm hlen
      rw [← card_keys] at hr
      rw [he, Finset.union_empty]
      refine (Finset.card_union_le _ _).trans ?_
      rw [Finset.card_singleton]
      omega
    · exact hf
  case store key value =>
    have hke : key ∈ waiting waits tasks := mem_waiting_of_getElem? ht hc
    refine (Finset.card_le_card ?_).trans h
    rw [keys_insert]
    refine Finset.union_subset (Finset.union_subset ?_ Finset.subset_union_left) ?_
    · rw [Finset.singleton_subset_iff]
      exact Finset.mem_union_right _ hke
    · refine hs.trans (Finset.union_subset Finset.subset_union_right ?_)
      simp

end

/-! ## Whole runs -/

section

variable {σ α ι : Type} {machine : Interleaving σ α τ ι} (map : σ → OrdMap K V)
  (waits : τ → Option K) {s₀ s : Interleaving.State σ τ}

/-- Where each step that makes room leaves enough of it, the map keeps its bound. -/
theorem bounded_of_reach {ok : Interleaving.State σ τ → Interleaving.Event α ι → Prop}
    (hr : machine.Reach ok s₀ s) (hm : 1 ≤ max) (he : map s₀.shared = .empty)
    (hn : s₀.tasks = []) (hsp : ∀ a, waits (machine.start a) = none)
    (hst : ∀ s i t answer shared t', ok s (.step i answer) → s.tasks[i]? = some t →
      machine.advance s.shared t answer = some (shared, t') →
      Writes max (map s.shared) (waiting waits s.tasks) (waits t) (map shared) (waits t')) :
    (map s.shared).rows.length ≤ max := by
  have hbound : ((map s.shared).keys ∪ waiting waits s.tasks).card ≤ max := by
    refine hr.invariant
      (P := fun s => ((map s.shared).keys ∪ waiting waits s.tasks).card ≤ max) ?_ ?_ ?_
    · rw [he, hn]
      exact Nat.zero_le max
    · intro s a hs _
      rw [waiting_append (hsp a)]
      exact hs
    · intro s i t answer shared t' hs ho ht ha
      exact (hst s i t answer shared t' ho ht ha).bounded hm ht hs
  rw [← card_keys]
  exact (Finset.card_le_card Finset.subset_union_left).trans hbound

variable
  (hstore : ∀ shared t key, waits t = some key → ∃ answer shared' t',
    machine.advance shared t answer = some (shared', t') ∧
      (map shared').keys = {key} ∪ (map shared).keys ∧ waits t' = none)

include hstore

theorem exists_all_stored (s : Interleaving.State σ τ) :
    ∃ s', machine.Reach Interleaving.Free s s' ∧
      (map s.shared).keys ∪ waiting waits s.tasks ⊆ (map s'.shared).keys := by
  -- by induction on how many wait
  induction hc : s.tasks.countP (fun t => (waits t).isSome) generalizing s with
  | zero =>
    refine ⟨s, .refl, Finset.union_subset subset_rfl ?_⟩
    intro key hkey
    obtain ⟨t, ht, hw⟩ := mem_waiting.mp hkey
    have hnot := countP_eq_zero.mp hc t ht
    simp [hw] at hnot
  | succ n ih =>
    have hp : 0 < s.tasks.countP (fun t => (waits t).isSome) := by omega
    obtain ⟨t, ht, hs⟩ := countP_pos_iff.mp hp
    obtain ⟨key, hkey⟩ := isSome_iff_exists.mp hs
    obtain ⟨i, hi⟩ := getElem?_of_mem ht
    obtain ⟨answer, shared', t', ha, hke, hn⟩ := hstore s.shared t key hkey
    have hse := countP_set_add (a := t') (fun t => (waits t).isSome) hi
    simp only [hkey, hn, isSome_some, isSome_none, if_true, Bool.false_eq_true, if_false] at hse
    obtain ⟨s', hr, hsu⟩ := ih ⟨shared', s.tasks.set i t'⟩ (by simp only; omega)
    have hst : machine.step s (.step i answer) = some ⟨shared', s.tasks.set i t'⟩ := by
      simp only [Interleaving.step, hi, ha]
    refine ⟨s', (Interleaving.Reach.step .refl trivial hst).trans hr, ?_⟩
    refine Finset.Subset.trans (Finset.union_subset ?_ ?_) hsu
    · intro k hk
      rw [Finset.mem_union, hke]
      exact .inl (Finset.mem_union_right _ hk)
    · intro k hk
      obtain ⟨u, hu, hw⟩ := mem_waiting.mp hk
      rw [Finset.mem_union, hke]
      rcases mem_set_or_eq t' hi hu with hm | rfl
      · exact .inr (mem_waiting.mpr ⟨u, hm, hw⟩)
      · rw [hkey, Option.some.injEq] at hw
        rw [← hw]
        exact .inl (Finset.mem_union_left _ (Finset.mem_singleton_self _))

/-- A step that makes too little room can lead to a map over its bound. -/
theorem overfull_of_not_fits {i : Nat} {t t' : τ} {shared : σ} {key : K}
    (ht : s.tasks[i]? = some t) (hn : waits t = none) (hk : waits t' = some key)
    (h : ¬Fits max (map shared) (waiting waits s.tasks) key) :
    ∃ s', machine.Reach Interleaving.Free ⟨shared, s.tasks.set i t'⟩ s' ∧
      max < (map s'.shared).rows.length := by
  obtain ⟨s', hr, hs⟩ := exists_all_stored map waits hstore ⟨shared, s.tasks.set i t'⟩
  refine ⟨s', hr, ?_⟩
  have ho : max < ((map shared).keys ∪ waiting waits s.tasks ∪ {key}).card := by
    simp only [Fits, not_or, Nat.not_le] at h
    exact h.2
  have hse := subset_waiting_set t' ht hn
  rw [hk, toFinset_some] at hse
  rw [← card_keys]
  refine Nat.lt_of_lt_of_le ho (Finset.card_le_card (Finset.Subset.trans ?_ hs))
  rw [Finset.union_assoc]
  exact Finset.union_subset_union_right hse

end

end OrdMap
