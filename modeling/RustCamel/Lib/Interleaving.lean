-- Tasks that run interleaved over what they share. A task moves one step at a time, in any
-- order with the others, and new ones come at any time.
import RustCamel.Lib.ListCount

/-- How a task begins, and what one step of it does to what is shared and to itself. The
answer is what the step does not decide itself, as a reading of the clock. -/
structure Interleaving (σ α τ ι : Type) where
  start : α → τ
  advance : σ → τ → ι → Option (σ × τ)

namespace Interleaving

variable {σ α τ ι : Type}

structure State (σ τ : Type) where
  shared : σ
  tasks : List τ

inductive Event (α ι : Type) where
  | spawn (a : α)
  | step (i : Nat) (answer : ι)

variable (m : Interleaving σ α τ ι)

def step (s : State σ τ) : Event α ι → Option (State σ τ)
  | .spawn a => some { s with tasks := s.tasks ++ [m.start a] }
  | .step i answer =>
    match s.tasks[i]? with
    | none => none
    | some t =>
      match m.advance s.shared t answer with
      | none => none
      | some (shared, t') => some ⟨shared, s.tasks.set i t'⟩

/-- The events one after the other, each of which passes the test where it happens. -/
def run (ok : State σ τ → Event α ι → Bool) (s : State σ τ) : List (Event α ι) → Option (State σ τ)
  | [] => some s
  | e :: events => if ok s e then (m.step s e).bind fun s => run ok s events else none

/-- What the tasks can come to, when every event passes the test where it happens. -/
inductive Reach (ok : State σ τ → Event α ι → Prop) (s₀ : State σ τ) : State σ τ → Prop
  | refl : Reach ok s₀ s₀
  | step {s s' : State σ τ} {e : Event α ι} :
      Reach ok s₀ s → ok s e → m.step s e = some s' → Reach ok s₀ s'

/-- Any event may happen. -/
def Free (_ : State σ τ) (_ : Event α ι) : Prop := True

variable {m} {events : List (Event α ι)} {ok : State σ τ → Event α ι → Prop}

theorem step_cases {s s' : State σ τ} {e : Event α ι} (h : m.step s e = some s') :
    (∃ a, e = .spawn a ∧ s' = { s with tasks := s.tasks ++ [m.start a] }) ∨
      ∃ i answer t shared t', e = .step i answer ∧ s.tasks[i]? = some t ∧
        m.advance s.shared t answer = some (shared, t') ∧ s' = ⟨shared, s.tasks.set i t'⟩ := by
  cases e with
  | spawn a => exact .inl ⟨a, rfl, (Option.some.inj h).symm⟩
  | step i answer =>
    simp only [step] at h
    split at h
    · cases h
    · rename_i t ht
      split at h
      · cases h
      · rename_i shared t' ha
        exact .inr ⟨i, answer, t, shared, t', rfl, ht, ha, (Option.some.inj h).symm⟩

/-- What holds at the start and is kept by a task that comes and by a step of any task
holds ever after. -/
theorem Reach.invariant {P : State σ τ → Prop} {s₀ s : State σ τ} (h : m.Reach ok s₀ s)
    (hs : P s₀)
    (hsp : ∀ s a, P s → ok s (.spawn a) → P { s with tasks := s.tasks ++ [m.start a] })
    (hst : ∀ s i t answer shared t', P s → ok s (.step i answer) → s.tasks[i]? = some t →
      m.advance s.shared t answer = some (shared, t') → P ⟨shared, s.tasks.set i t'⟩) : P s := by
  induction h with
  | refl => exact hs
  | step _ ho hst' ih =>
    rcases step_cases hst' with ⟨a, rfl, rfl⟩ | ⟨i, answer, t, shared, t', rfl, ht, ha, rfl⟩
    · exact hsp _ a ih ho
    · exact hst _ i t answer shared t' ih ho ht ha

theorem Reach.trans {s₀ s s' : State σ τ} (h : m.Reach ok s₀ s) (h' : m.Reach ok s s') :
    m.Reach ok s₀ s' := by
  induction h' with
  | refl => exact h
  | step _ ho hs ih => exact .step ih ho hs

theorem Reach.append {ok : State σ τ → Event α ι → Bool} {s₀ s s' : State σ τ}
    (h : m.Reach (fun s e => ok s e = true) s₀ s) (hr : m.run ok s events = some s') :
    m.Reach (fun s e => ok s e = true) s₀ s' := by
  induction events generalizing s with
  | nil =>
    simp only [run, Option.some.injEq] at hr
    rwa [← hr]
  | cons e events ih =>
    simp only [run] at hr
    split at hr
    · rename_i ho
      obtain ⟨next, hn, hr⟩ := Option.bind_eq_some_iff.mp hr
      exact ih (.step h ho hn) hr
    · cases hr

theorem reach_of_run {ok : State σ τ → Event α ι → Bool} {s s' : State σ τ}
    (hr : m.run ok s events = some s') :
    m.Reach (fun s e => ok s e = true) s s' := Reach.append .refl hr

theorem Reach.mono {ok' : State σ τ → Event α ι → Prop} {s₀ s : State σ τ} (h : m.Reach ok s₀ s)
    (himp : ∀ s e, ok s e → ok' s e) : m.Reach ok' s₀ s := by
  induction h with
  | refl => exact .refl
  | step _ ho hs ih => exact .step ih (himp _ _ ho) hs

end Interleaving
