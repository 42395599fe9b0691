-- The replay of a log of events, where each event speaks of one key. What
-- the replay gives for a key depends on the events of that key alone, and an
-- event that clears or resets its key makes the earlier ones superfluous.
import Mathlib.Order.Lattice
import Mathlib.Order.Defs.LinearOrder
import Mathlib.Data.List.Induction

open List

namespace KeyedReplay

variable {κ ε σ : Type} [DecidableEq κ] (key : ε → κ) (step : Option σ → ε → Option σ)

variable (k : κ)

/-- One event, as the key `k` sees it. -/
def stepAt (s : Option σ) (e : ε) : Option σ := if key e = k then step s e else s

/-- What the events leave at the key `k`. -/
def replayAt (es : List ε) : Option σ := es.foldl (stepAt key step k) none

@[simp] theorem replayAt_nil : replayAt key step k [] = none := rfl

theorem replayAt_append (es fs : List ε) :
    replayAt key step k (es ++ fs) = fs.foldl (stepAt key step k) (replayAt key step k es) := by
  simp [replayAt, foldl_append]

theorem replayAt_snoc (es : List ε) (e : ε) :
    replayAt key step k (es ++ [e]) = stepAt key step k (replayAt key step k es) e := by
  simp [replayAt_append]

theorem replayAt_append_other {k : κ} {fs : List ε} (h : ∀ e ∈ fs, key e ≠ k) (es : List ε) :
    replayAt key step k (es ++ fs) = replayAt key step k es := by
  induction fs using List.reverseRecOn with
  | nil => rw [append_nil]
  | append_singleton fs e ih =>
    have he : key e ≠ k := h e (mem_append_right _ (mem_singleton_self e))
    rw [← append_assoc, replayAt_snoc, stepAt, if_neg he]
    exact ih fun e' he' => h e' (mem_append_left _ he')

/-- Logs that agree at a key still agree after the same new events. -/
theorem replayAt_append_congr {k : κ} {es es' : List ε}
    (h : replayAt key step k es = replayAt key step k es') (fs : List ε) :
    replayAt key step k (es ++ fs) = replayAt key step k (es' ++ fs) := by
  rw [replayAt_append, replayAt_append, h]

theorem replayAt_rows_congr {K : Type} {k : κ} {p q : K × ε → Bool} {rows : List (K × ε)}
    (h : ∀ r ∈ rows, key r.2 = k → p r = q r) :
    replayAt key step k ((rows.filter p).map (·.2)) =
      replayAt key step k ((rows.filter q).map (·.2)) := by
  induction rows using List.reverseRecOn with
  | nil => rfl
  | append_singleton rows r ih =>
    have ih := ih fun r' hr' => h r' (by simp [hr'])
    rw [filter_append, filter_append, map_append, map_append, replayAt_append, replayAt_append, ih]
    by_cases hk : key r.2 = k
    · simp [filter_cons, h r (by simp) hk]
    · simp only [filter_cons, filter_nil]
      split <;> split <;> simp [stepAt, hk]

/-! ## What may be dropped -/

variable {K : Type}

/-- The stamp of the last event of `k` with the property. -/
def lastAt (p : ε → Bool) (k : κ) (rows : List (K × ε)) : Option K :=
  rows.foldl (fun last r => if key r.2 = k ∧ p r.2 then some r.1 else last) none

theorem lastAt_snoc (p : ε → Bool) (k : κ) (rows : List (K × ε)) (r : K × ε) :
    lastAt key p k (rows ++ [r]) =
      if key r.2 = k ∧ p r.2 then some r.1 else lastAt key p k rows := by
  simp [lastAt, foldl_append]

variable [LinearOrder K] {rows : List (K × ε)} {x : K}

/-- A row at or before the last clear, or before the last reset, is dropped. -/
def survives (clear reset : Option K) (stamp : K) : Bool :=
  !clear.any (fun c => stamp ≤ c) && !reset.any (fun c => stamp < c)

theorem lastAt_lt {p : ε → Bool} {k : κ} {c : K} (h : lastAt key p k rows = some c)
    (hx : ∀ r ∈ rows, r.1 < x) : c < x := by
  induction rows using List.reverseRecOn with
  | nil => simp [lastAt] at h
  | append_singleton rows r ih =>
    rw [lastAt_snoc] at h
    split at h
    · cases h
      exact hx r (by simp)
    · exact ih h fun r hr => hx r (by simp [hr])

theorem survives_above {p q : ε → Bool} {k : κ} (hx : ∀ r ∈ rows, r.1 < x) :
    survives (lastAt key p k rows) (lastAt key q k rows) x = true := by
  unfold survives
  rcases hp : lastAt key p k rows with _ | c <;> rcases hq : lastAt key q k rows with _ | d
  · rfl
  · simpa using le_of_lt (lastAt_lt key hq hx)
  · simpa using lastAt_lt key hp hx
  · simpa using ⟨lastAt_lt key hp hx, le_of_lt (lastAt_lt key hq hx)⟩

theorem filter_survives_nil {clear reset : Option K} (h : clear = some x ∨ reset = some x)
    (hx : ∀ r ∈ rows, r.1 < x) : rows.filter (fun r => survives clear reset r.1) = [] := by
  rw [filter_eq_nil_iff]
  intro r hr
  rcases h with rfl | rfl
  · simp [survives, le_of_lt (hx r hr)]
  · simp [survives, hx r hr]

variable {key step}

theorem replayAt_survivors {clears resets : ε → Bool}
    (hcl : ∀ e, clears e = true → ∀ s, step s e = none)
    (hre : ∀ e, resets e = true → ∀ s, step s e = step none e)
    (hs : rows.Pairwise (fun a b => a.1 < b.1)) :
    replayAt key step k ((rows.filter fun r =>
        survives (lastAt key clears k rows) (lastAt key resets k rows) r.1).map (·.2)) =
      replayAt key step k (rows.map (·.2)) := by
  -- The newest row decides: it clears the key, or it resets it, or it is one
  -- more row that survives.
  induction rows using List.reverseRecOn with
  | nil => rfl
  | append_singleton rows x ih =>
    have hx : ∀ r ∈ rows, r.1 < x.1 := fun r hr =>
      (pairwise_append.mp hs).2.2 r hr x (by simp)
    have ih := ih (pairwise_append.mp hs).1
    rw [lastAt_snoc, lastAt_snoc, filter_append, map_append, map_append,
      map_singleton, replayAt_snoc, ← ih]
    by_cases hk : key x.2 = k
    · by_cases hc : clears x.2 = true
      · rw [filter_survives_nil (.inl (by simp [hk, hc])) hx]
        simp [stepAt, hk, hc, hcl, survives]
      · by_cases hr : resets x.2 = true
        · rw [filter_survives_nil (x := x.1) (.inr (by simp [hk, hr])) hx]
          have hsx : survives (lastAt key clears k rows) (some x.1) x.1 = true := by
            have := survives_above key (p := clears) (q := clears) (k := k) hx
            simp only [survives, Bool.and_eq_true] at this ⊢
            exact ⟨this.1, by simp⟩
          simp [hk, hc, hr, hsx, replayAt, stepAt, hre x.2 hr (List.foldl _ _ _)]
        · have hsx := survives_above key (p := clears) (q := resets) (k := k) hx
          simp [hk, hc, hr, hsx, replayAt_snoc]
    · simp only [hk, false_and, if_false]
      rw [replayAt_append]
      simp only [filter_cons, filter_nil]
      split <;> simp [stepAt, hk]

end KeyedReplay
