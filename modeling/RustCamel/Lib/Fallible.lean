-- Computations that may fail, as `?` chains them: a chain succeeds where each of its parts does.

namespace Fallible

variable {ε α β : Type} {x : Except ε α} {f : α → Except ε β}

theorem bind_eq_ok {b : β} (h : x >>= f = .ok b) : ∃ a, x = .ok a ∧ f a = .ok b := by
  cases x with
  | error e => cases h
  | ok a => exact ⟨a, rfl, h⟩

def FailsIn (allowed : ε → Prop) (x : Except ε α) : Prop := ∀ e, x = .error e → allowed e

variable {allowed allowed' : ε → Prop}

theorem FailsIn.mono (h : FailsIn allowed x) (hle : ∀ e, allowed e → allowed' e) :
    FailsIn allowed' x :=
  fun e he => hle e (h e he)

theorem fails_in_ok (a : α) : FailsIn allowed (.ok a : Except ε α) := by
  intro e he
  cases he

theorem fails_in_error {e : ε} (h : allowed e) : FailsIn allowed (.error e : Except ε α) := by
  intro e' he
  cases he
  exact h

theorem FailsIn.bind (hx : FailsIn allowed x) (hf : ∀ a, FailsIn allowed (f a)) :
    FailsIn allowed (x >>= f) := by
  intro e he
  cases x with
  | error e' =>
    cases he
    exact hx e rfl
  | ok a => exact hf a e he

theorem FailsIn.map (h : FailsIn allowed x) (f : α → β) : FailsIn allowed (f <$> x) := by
  intro e he
  cases x with
  | error e' =>
    cases he
    exact h e rfl
  | ok a => cases he

end Fallible
