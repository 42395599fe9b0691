-- Histories that only grow at their end: what each entry owes to what came before it.

namespace History

variable {α : Type} {J J' : List α → α → Prop}

/-- Every entry of a history is justified by the entries before it. -/
def Each (J : List α → α → Prop) (log : List α) : Prop :=
  ∀ before a after, log = before ++ a :: after → J before a

theorem each_nil : Each J [] := by
  intro before a after h
  simp at h

theorem each_append_one {log : List α} {a : α} : Each J (log ++ [a]) ↔ Each J log ∧ J log a := by
  constructor
  · intro h
    refine ⟨fun before b after hl => h before b (after ++ [a]) (by simp [hl]), ?_⟩
    exact h log a [] rfl
  · rintro ⟨hl, ha⟩ before b after h
    rcases List.eq_nil_or_concat after with rfl | ⟨after, c, rfl⟩
    · obtain ⟨rfl, hb⟩ := List.append_inj' h rfl
      obtain rfl : a = b := by simpa using hb
      exact ha
    · have h' : log ++ [a] = (before ++ b :: after) ++ [c] := by simpa using h
      exact hl before b after (List.append_inj' h' rfl).1

end History
