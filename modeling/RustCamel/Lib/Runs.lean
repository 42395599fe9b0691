-- Systems that move one event at a time: what a run can come to, and what it keeps.

namespace Runs

variable {σ ε : Type} {step : σ → ε → Option σ} {ok ok' : σ → ε → Prop} {test : σ → ε → Bool}
  {P : σ → Prop}

/-- What a run from `s` can come to, when every event passes the test where it happens. -/
inductive Reach (step : σ → ε → Option σ) (ok : σ → ε → Prop) (s : σ) : σ → Prop
  | refl : Reach step ok s s
  | tail {t u : σ} {e : ε} : Reach step ok s t → ok t e → step t e = some u → Reach step ok s u

theorem Reach.trans {s t u : σ} (hst : Reach step ok s t) (ht : Reach step ok t u) :
    Reach step ok s u := by
  induction ht with
  | refl => exact hst
  | tail _ ho hs ih => exact .tail ih ho hs

theorem Reach.mono (h : ∀ s e, ok s e → ok' s e) {s t : σ} (hst : Reach step ok s t) :
    Reach step ok' s t := by
  induction hst with
  | refl => exact .refl
  | tail _ ho hs ih => exact .tail ih (h _ _ ho) hs

/-- What holds at the start and is kept by every event holds ever after. -/
theorem Reach.invariant {s t : σ} (h : Reach step ok s t) (hs : P s)
    (hst : ∀ {t u : σ} {e : ε}, P t → ok t e → step t e = some u → P u) : P t := by
  induction h with
  | refl => exact hs
  | tail _ ho h ih => exact hst ih ho h

theorem Reach.relates {R : σ → σ → Prop} {s t : σ} (h : Reach step ok s t) (hs : P s)
    (hrefl : ∀ s, R s s) (ht : ∀ {s t u}, R s t → R t u → R s u)
    (hst : ∀ {t u : σ} {e : ε}, P t → ok t e → step t e = some u → P u ∧ R t u) : R s t := by
  have hb : P t ∧ R s t := by
    induction h with
    | refl => exact ⟨hs, hrefl s⟩
    | tail _ ho h ih =>
      obtain ⟨hP, hR⟩ := hst ih.1 ho h
      exact ⟨hP, ht ih.2 hR⟩
  exact hb.2

/-- The events one after the other, each of which passes the test where it happens. -/
def run (step : σ → ε → Option σ) (test : σ → ε → Bool) (s : σ) : List ε → Option σ
  | [] => some s
  | e :: events => if test s e then (step s e).bind fun t => run step test t events else none

theorem run_append {s t : σ} {before after : List ε} (h : run step test s before = some t) :
    run step test s (before ++ after) = run step test t after := by
  induction before generalizing s with
  | nil =>
    obtain rfl : s = t := Option.some.inj h
    rfl
  | cons e before ih =>
    simp only [run, List.cons_append] at h ⊢
    split at h
    · rename_i ho
      obtain ⟨u, hs, hr⟩ := Option.bind_eq_some_iff.mp h
      rw [if_pos ho, hs]
      exact ih hr
    · cases h

theorem reach_of_run (ht : ∀ s e, test s e = true → ok s e) {s t : σ} {events : List ε}
    (h : run step test s events = some t) : Reach step ok s t := by
  induction events generalizing s with
  | nil =>
    obtain rfl : s = t := Option.some.inj h
    exact .refl
  | cons e events ih =>
    simp only [run] at h
    split at h
    · rename_i hok
      obtain ⟨u, hs, hr⟩ := Option.bind_eq_some_iff.mp h
      have ho : Reach step ok s u := .tail .refl (ht s e hok) hs
      exact ho.trans (ih hr)
    · cases h

end Runs
