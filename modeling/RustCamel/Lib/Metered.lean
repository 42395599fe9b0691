-- Programs that charge a meter and may fail: how they run on a state, and a rule for each way
-- to build one that bounds what it charges.
import Mathlib.Tactic.Common

namespace Metered

variable {ε σ α β : Type}

/-- A program that may fail keeps the state it failed in. -/
abbrev Program (ε σ α : Type) := ExceptT ε (StateM σ) α

/-! ## Runs -/

/-- The result of a program on a state, and the state after it. -/
def exec (m : Program ε σ α) (s : σ) : Except ε α × σ := m.run.run s

@[simp] theorem exec_pure (a : α) (s : σ) : exec (pure a : Program ε σ α) s = (.ok a, s) := rfl

@[simp] theorem exec_throw (e : ε) (s : σ) : exec (throw e : Program ε σ α) s = (.error e, s) := rfl

@[simp] theorem exec_get (s : σ) : exec (get : Program ε σ σ) s = (.ok s, s) := rfl

@[simp] theorem exec_set (s' s : σ) : exec (set s' : Program ε σ PUnit) s = (.ok ⟨⟩, s') := rfl

@[simp] theorem exec_modify (f : σ → σ) (s : σ) :
    exec (modify f : Program ε σ PUnit) s = (.ok ⟨⟩, f s) := rfl

@[simp] theorem exec_mk_pure (r : Except ε α) (s : σ) :
    exec (ExceptT.mk (pure r) : Program ε σ α) s = (r, s) := rfl

theorem exec_bind (m : Program ε σ α) (f : α → Program ε σ β) (s : σ) :
    exec (m >>= f) s = match exec m s with
      | (.ok a, s') => exec (f a) s'
      | (.error e, s') => (.error e, s') := by
  have h : exec (m >>= f) s = match exec m s with
      | (r, s') => exec (ExceptT.mk (ExceptT.bindCont f r)) s' := rfl
  rw [h]
  rcases exec m s with ⟨_ | _, s'⟩ <;> rfl

/-! ## Costs -/

variable {m : Program ε σ α} {f : α → Program ε σ β} {m' : Program ε σ α} {cost : Nat}
  {r : Except ε α} {cost' : Nat} {p : Prop} {e : ε}

section

variable (meter : σ → Nat) (limit : Nat) (spent : ε)

/-- With room for `cost` on the meter the program does not fail for the meter's limit, and it
charges `cost` at most, whether it succeeds or not. -/
def Costs (m : Program ε σ α) (cost : Nat) : Prop :=
  ∀ s, meter s + cost ≤ limit → (exec m s).1 ≠ .error spent ∧ meter (exec m s).2 ≤ meter s + cost

variable {meter limit spent}

theorem Costs.mono (h : Costs meter limit spent m cost) (hle : cost ≤ cost') :
    Costs meter limit spent m cost' := by
  intro s hr
  obtain ⟨ho, hc⟩ := h s (by omega)
  exact ⟨ho, by omega⟩

theorem costs_pure (a : α) : Costs meter limit spent (pure a : Program ε σ α) 0 := by
  intro s _
  simp

theorem costs_throw (h : e ≠ spent) : Costs meter limit spent (throw e : Program ε σ α) 0 := by
  intro s _
  simpa using h

theorem costs_get : Costs meter limit spent (get : Program ε σ σ) 0 := by
  intro s _
  simp

theorem costs_mk_pure (h : r ≠ .error spent) :
    Costs meter limit spent (ExceptT.mk (pure r) : Program ε σ α) 0 := by
  intro s _
  simpa using h

theorem Costs.bind (hm : Costs meter limit spent m cost)
    (hf : ∀ a, Costs meter limit spent (f a) cost') :
    Costs meter limit spent (m >>= f) (cost + cost') := by
  intro s hr
  obtain ⟨ho, hc⟩ := hm s (by omega)
  rw [exec_bind]
  rcases he : exec m s with ⟨e | a, s'⟩
  · rw [he] at ho hc
    simp only at ho hc ⊢
    refine ⟨?_, by omega⟩
    simpa using ho
  · rw [he] at hc
    simp only at hc ⊢
    obtain ⟨ho', hc'⟩ := hf a s' (by omega)
    exact ⟨ho', by omega⟩

theorem Costs.map (h : Costs meter limit spent m cost) (f : α → β) :
    Costs meter limit spent (f <$> m) cost := by
  rw [map_eq_pure_bind]
  exact h.bind fun a => costs_pure (f a)

theorem Costs.ite [Decidable p] (hm : Costs meter limit spent m cost)
    (hm' : Costs meter limit spent m' cost) :
    Costs meter limit spent (if p then m else m') cost := by
  split
  · exact hm
  · exact hm'

end

/-! ## Errors -/

/-- Whatever the state, the program fails only with an error that is allowed. -/
def FailsIn (allowed : ε → Prop) (m : Program ε σ α) : Prop :=
  ∀ s e, (exec m s).1 = .error e → allowed e

section

variable {allowed allowed' : ε → Prop}

theorem FailsIn.mono (h : FailsIn allowed m) (hle : ∀ e, allowed e → allowed' e) :
    FailsIn allowed' m :=
  fun s e he => hle e (h s e he)

theorem fails_in_pure (a : α) : FailsIn allowed (pure a : Program ε σ α) := by
  intro s e he
  cases he

theorem fails_in_throw (h : allowed e) : FailsIn allowed (throw e : Program ε σ α) := by
  intro s e' he
  cases he
  exact h

theorem fails_in_get : FailsIn allowed (get : Program ε σ σ) := by
  intro s e he
  cases he

theorem fails_in_set (s' : σ) : FailsIn allowed (set s' : Program ε σ PUnit) := by
  intro s e he
  cases he

theorem fails_in_modify (f : σ → σ) : FailsIn allowed (modify f : Program ε σ PUnit) := by
  intro s e he
  cases he

theorem fails_in_mk_pure (h : ∀ e, r = .error e → allowed e) :
    FailsIn allowed (ExceptT.mk (pure r) : Program ε σ α) :=
  fun _ e he => h e he

theorem FailsIn.bind (hm : FailsIn allowed m) (hf : ∀ a, FailsIn allowed (f a)) :
    FailsIn allowed (m >>= f) := by
  intro s e he
  rw [exec_bind] at he
  rcases hex : exec m s with ⟨e' | a, s'⟩
  · rw [hex] at he
    cases he
    exact hm s e (by rw [hex])
  · rw [hex] at he
    exact hf a s' e he

theorem FailsIn.map (h : FailsIn allowed m) (f : α → β) : FailsIn allowed (f <$> m) := by
  rw [map_eq_pure_bind]
  exact h.bind fun a => fails_in_pure (f a)

theorem FailsIn.ite [Decidable p] (hm : FailsIn allowed m) (hm' : FailsIn allowed m') :
    FailsIn allowed (if p then m else m') := by
  split
  · exact hm
  · exact hm'

end

end Metered
