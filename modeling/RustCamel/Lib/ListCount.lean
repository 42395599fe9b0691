-- What a list counts and what it gathers, when one place is overwritten, and lists in which
-- one place at most stands out for each key.
import Mathlib.Algebra.Order.Ring.Nat
import Mathlib.Data.List.Count
import Mathlib.Data.List.Perm.Basic

namespace List

variable {α β : Type} {p : α → Bool} {xs : List α} {i : Nat} {a b : α} {c : α} {g : α → Nat}

theorem countP_set_add (p : α → Bool) (h : xs[i]? = some b) :
    (xs.set i a).countP p + (if p b then 1 else 0) = xs.countP p + (if p a then 1 else 0) := by
  induction xs generalizing i with
  | nil => simp at h
  | cons x xs ih =>
    cases i with
    | zero =>
      simp only [getElem?_cons_zero, Option.some.injEq] at h
      subst h
      simp only [set_cons_zero, countP_cons]
      omega
    | succ i =>
      have := ih (by simpa using h)
      simp only [set_cons_succ, countP_cons]
      omega

theorem countP_set_of_zero (h : xs[i]? = some b) (hzero : xs.countP p = 0) (ha : p a = true) :
    (xs.set i a).countP p = 1 := by
  have hb : ¬p b = true := countP_eq_zero.mp hzero b (mem_of_getElem? h)
  have hs := countP_set_add (a := a) p h
  simp only [hzero, ha, hb, if_true, Bool.false_eq_true, if_false] at hs
  omega

theorem countP_set_same (h : xs[i]? = some b) (hs : p a = p b) :
    (xs.set i a).countP p = xs.countP p := by
  have hse := countP_set_add (a := a) p h
  rw [hs] at hse
  omega

theorem sum_map_set_add (g : α → Nat) (h : xs[i]? = some b) :
    ((xs.set i a).map g).sum + g b = (xs.map g).sum + g a := by
  induction xs generalizing i with
  | nil => simp at h
  | cons x xs ih =>
    cases i with
    | zero =>
      simp only [getElem?_cons_zero, Option.some.injEq] at h
      subst h
      simp only [set_cons_zero, map_cons, sum_cons]
      omega
    | succ i =>
      have := ih (by simpa using h)
      simp only [set_cons_succ, map_cons, sum_cons]
      omega

theorem sum_map_modify_add (g : α → Nat) (f : α → α) (h : xs[i]? = some b) :
    ((xs.modify i f).map g).sum + g b = (xs.map g).sum + g (f b) := by
  have hs : xs.modify i f = xs.set i (f b) := by
    rw [modify_eq_set_getElem?, h]
    rfl
  rw [hs]
  exact sum_map_set_add g h

theorem countP_le_sum_map (h : ∀ a, p a = true → 1 ≤ g a) (xs : List α) :
    xs.countP p ≤ (xs.map g).sum := by
  induction xs with
  | nil => simp
  | cons x xs ih =>
    simp only [countP_cons, map_cons, sum_cons]
    split
    · have := h x ‹_›
      omega
    · omega

theorem sum_map_eq_countP (h : ∀ a ∈ xs, g a = if p a then 1 else 0) :
    (xs.map g).sum = xs.countP p := by
  induction xs with
  | nil => rfl
  | cons x xs ih =>
    have ht := ih fun a ha => h a (mem_cons_of_mem x ha)
    simp only [map_cons, sum_cons, countP_cons, h x mem_cons_self, ht]
    omega

/-- A place that is overwritten gives what stands there now in place of what stood there. -/
theorem flatMap_set_perm (f : α → List β) (h : xs[i]? = some b) :
    ((xs.set i a).flatMap f ++ f b).Perm (xs.flatMap f ++ f a) := by
  induction xs generalizing i with
  | nil => simp at h
  | cons x xs ih =>
    cases i with
    | zero =>
      simp only [getElem?_cons_zero, Option.some.injEq] at h
      subst h
      simp only [set_cons_zero, flatMap_cons, append_assoc]
      have hs : (f a ++ (xs.flatMap f ++ f x)).Perm (xs.flatMap f ++ (f x ++ f a)) := by
        rw [← append_assoc (xs.flatMap f)]
        exact perm_append_comm
      exact hs.trans (perm_append_comm_assoc _ _ _)
    | succ i =>
      simp only [set_cons_succ, flatMap_cons, append_assoc]
      exact (ih (by simpa using h)).append_left _

/-- One place at most stands out for each key. -/
def OnePer {κ : Type} (p : α → Prop) (key : α → κ) (xs : List α) : Prop :=
  ∀ (i j : Nat) (a b : α), xs[i]? = some a → xs[j]? = some b → p a → p b → key a = key b → i = j

section

variable {κ : Type} {q r : α → Prop} {key : α → κ}

theorem OnePer.imp (h : OnePer q key xs) (himp : ∀ a, r a → q a) : OnePer r key xs :=
  fun i j a b hi hj ha hb => h i j a b hi hj (himp a ha) (himp b hb)

theorem OnePer.append (h : OnePer q key xs) (hn : ∀ b ∈ xs, q b → key b ≠ key a) :
    OnePer q key (xs ++ [a]) := by
  intro i j b c hi hj hb hc hk
  simp only [getElem?_append, getElem?_singleton] at hi hj
  split at hi <;> split at hj
  · exact h i j b c hi hj hb hc hk
  · split at hj
    · rw [← Option.some.inj hj] at hk
      exact absurd hk (hn b (mem_of_getElem? hi) hb)
    · simp at hj
  · split at hi
    · rw [← Option.some.inj hi] at hk
      exact absurd hk.symm (hn c (mem_of_getElem? hj) hc)
    · simp at hi
  · split at hi <;> split at hj <;> simp at hi hj
    omega

theorem getElem?_set_cases (h : xs[i]? = some b) {j : Nat} (hj : (xs.set i a)[j]? = some c) :
    (j = i ∧ c = a) ∨ (j ≠ i ∧ xs[j]? = some c) := by
  by_cases hij : i = j
  · subst hij
    rw [getElem?_set_self (getElem?_eq_some_iff.mp h).1] at hj
    exact .inl ⟨rfl, (Option.some.inj hj).symm⟩
  · rw [getElem?_set_ne hij] at hj
    exact .inr ⟨Ne.symm hij, hj⟩

theorem forall_mem_concat (hal : ∀ b ∈ xs, q b) (ha : q a) : ∀ b ∈ xs ++ [a], q b := by
  intro b hb
  rcases mem_append.mp hb with hb | hb
  · exact hal b hb
  · rw [mem_singleton.mp hb]
    exact ha

theorem getElem?_modify_ite (xs : List α) (i : Nat) (f : α → α) (j : Nat) :
    (xs.modify i f)[j]? = if j = i then xs[j]?.map f else xs[j]? := by
  rw [getElem?_modify]
  by_cases h : i = j
  · simp [h]
  · simp [h, Ne.symm h]

/-- What stands in a list after one place was overwritten: what was put there, and what stands
at the other places. -/
theorem mem_set_cases (h : xs[i]? = some b) (hc : c ∈ xs.set i a) :
    c = a ∨ ∃ j, j ≠ i ∧ xs[j]? = some c := by
  obtain ⟨j, hj⟩ := getElem?_of_mem hc
  rcases getElem?_set_cases h hj with ⟨-, heq⟩ | ⟨hn, hold⟩
  · exact .inl heq
  · exact .inr ⟨j, hn, hold⟩

/-- A place is overwritten by one of its key that stands out only where it stood out. -/
theorem OnePer.set (h : OnePer q key xs) (hb : xs[i]? = some b) (hke : key a = key b)
    (ho : q a → q b) : OnePer q key (xs.set i a) := by
  have hold : ∀ (j : Nat) (c : α), (xs.set i a)[j]? = some c → q c →
      ∃ d, xs[j]? = some d ∧ key d = key c ∧ q d := by
    intro j c hj hc
    rcases getElem?_set_cases hb hj with ⟨rfl, rfl⟩ | ⟨-, hj⟩
    · exact ⟨b, hb, hke.symm, ho hc⟩
    · exact ⟨c, hj, rfl, hc⟩
  intro j k c d hj hk hc hd hs
  obtain ⟨c', hj, hck, hc'⟩ := hold j c hj hc
  obtain ⟨d', hk, hdk, hd'⟩ := hold k d hk hd
  exact h j k c' d' hj hk hc' hd' (by rw [hck, hdk, hs])

theorem mem_set_or_eq (a : α) (h : xs[i]? = some b) (hc : c ∈ xs) : c ∈ xs.set i a ∨ c = b := by
  obtain ⟨j, hj⟩ := getElem?_of_mem hc
  by_cases hij : i = j
  · subst hij
    rw [h] at hj
    exact .inr (Option.some.inj hj).symm
  · exact .inl (mem_of_getElem? (by rw [getElem?_set_ne hij]; exact hj))

end

/-- One place at most has a claim to each key. -/
def OneClaim {κ : Type} (claims : α → κ → Prop) (xs : List α) : Prop :=
  ∀ (i j : Nat) (a b : α) (k : κ), xs[i]? = some a → xs[j]? = some b → claims a k → claims b k →
    i = j

section

variable {κ : Type} {claims : α → κ → Prop}

theorem OneClaim.append (h : OneClaim claims xs) (hn : ∀ k, ¬claims a k) :
    OneClaim claims (xs ++ [a]) := by
  have hold : ∀ (j : Nat) (c : α) (k : κ), (xs ++ [a])[j]? = some c → claims c k →
      xs[j]? = some c := by
    intro j c k hj hc
    rw [getElem?_append] at hj
    split at hj
    · exact hj
    · rw [getElem?_singleton] at hj
      split at hj
      · rw [← Option.some.inj hj] at hc
        exact absurd hc (hn k)
      · cases hj
  intro i j b c k hi hj hb hc
  exact h i j b c k (hold i b k hi hb) (hold j c k hj hc) hb hc

/-- A place is overwritten, and what it claims now it claimed before, or nobody did. -/
theorem OneClaim.set (h : OneClaim claims xs) (hb : xs[i]? = some b)
    (hf : ∀ k, claims a k → claims b k ∨ ∀ c ∈ xs, ¬claims c k) :
    OneClaim claims (xs.set i a) := by
  have hne : ∀ (j : Nat) (c : α) (k : κ), xs[j]? = some c → claims a k → claims c k → i = j := by
    intro j c k hj ha hc
    rcases hf k ha with hold | hn
    · exact h i j b c k hb hj hold hc
    · exact absurd hc (hn c (mem_of_getElem? hj))
  intro j l c d k hj hl hc hd
  rcases getElem?_set_cases hb hj with ⟨hji, hca⟩ | ⟨-, hj'⟩ <;>
    rcases getElem?_set_cases hb hl with ⟨hli, hda⟩ | ⟨-, hl'⟩
  · rw [hji, hli]
  · rw [hca] at hc
    rw [hji]
    exact hne l d k hl' hc hd
  · rw [hda] at hd
    rw [hli]
    exact (hne j c k hj' hd hc).symm
  · exact h j l c d k hj' hl' hc hd

end

end List
