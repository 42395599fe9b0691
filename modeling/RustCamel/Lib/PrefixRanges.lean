-- The words that begin with a given word, in the order of a dictionary: they are those between it
-- and its successor. And codes that keep that order.
import Mathlib.Order.Lattice
import Mathlib.Data.List.Lex
import Mathlib.Order.Monotone.Basic

open List

namespace PrefixRanges

/-- The first word after all that begin with the given one, if there is any. -/
def successor {α : Type} (next : α → Option α) : List α → Option (List α)
  | [] => none
  | a :: word =>
    match successor next word with
    | some after => some (a :: after)
    | none => (next a).map fun b => [b]

/-- Seen from its end: the last letter moves on, and the last of all letters gives way. -/
theorem successor_concat {α : Type} (next : α → Option α) (word : List α) (a : α) :
    successor next (word ++ [a]) =
      match next a with
      | some b => some (word ++ [b])
      | none => successor next word := by
  induction word with
  | nil => cases hn : next a <;> simp [successor, hn]
  | cons x word ih =>
    rw [cons_append, successor, ih]
    cases hn : next a <;> simp [successor]

section

variable {α : Type} [LinearOrder α]

/-- `next` gives what comes right after a letter, and nothing for the last one. -/
structure Next (next : α → Option α) : Prop where
  after : ∀ {a b : α}, next a = some b → ∀ x, a < x ↔ b ≤ x
  last : ∀ {a : α}, next a = none → ∀ x, x ≤ a

theorem cons_le_cons_iff {a x : α} {word s : List α} :
    a :: word ≤ x :: s ↔ a ≤ x ∧ (a = x → word ≤ s) := by
  rw [← not_lt, cons_lt_cons_iff, not_or, not_lt, not_and, not_lt]
  constructor
  all_goals
    rintro ⟨ha, hle⟩
    exact ⟨ha, fun h => hle h.symm⟩

/-- A word begins with `word` exactly when it is not before it and before its successor. -/
theorem prefix_iff {next : α → Option α} (h : Next next) (word s : List α) :
    word <+: s ↔ word ≤ s ∧ ∀ after, successor next word = some after → s < after := by
  induction word generalizing s with
  | nil =>
    have hl : ([] : List α) ≤ s := not_lt.mp (not_lt_nil s)
    simp [successor, hl]
  | cons a word ih =>
    cases s with
    | nil => simp
    | cons x s =>
      rw [cons_prefix_cons, ih s, cons_le_cons_iff]
      cases hs : successor next word with
      | some after =>
        simp only [successor, hs, Option.some.injEq, forall_eq', cons_lt_cons_iff]
        constructor
        · rintro ⟨rfl, hle, hlt⟩
          exact ⟨⟨le_rfl, fun _ => hle⟩, .inr ⟨rfl, hlt⟩⟩
        · rintro ⟨⟨hax, hle⟩, hx | ⟨rfl, hlt⟩⟩
          · exact absurd hx (not_lt.mpr hax)
          · exact ⟨rfl, hle rfl, hlt⟩
      | none =>
        cases hn : next a with
        | some b =>
          have ha := h.after hn x
          simp only [successor, hs, hn, Option.map_some, Option.some.injEq, forall_eq',
            reduceCtorEq, false_implies, implies_true, and_true, cons_lt_cons_iff,
            not_lt_nil, and_false, or_false]
          constructor
          · rintro ⟨rfl, hle⟩
            refine ⟨⟨le_rfl, fun _ => hle⟩, ?_⟩
            by_contra hxb
            exact lt_irrefl a (ha.mpr (not_lt.mp hxb))
          · rintro ⟨⟨hax, hle⟩, hxb⟩
            have hx : ¬a < x := fun hlt => absurd (ha.mp hlt) (not_le.mpr hxb)
            obtain rfl : a = x := le_antisymm hax (not_lt.mp hx)
            exact ⟨rfl, hle rfl⟩
        | none =>
          have hlast := h.last hn x
          simp only [successor, hs, hn, Option.map_none, reduceCtorEq, false_implies,
            implies_true, and_true]
          constructor
          · rintro ⟨rfl, hle⟩
            exact ⟨le_rfl, fun _ => hle⟩
          · rintro ⟨hax, hle⟩
            obtain rfl : a = x := le_antisymm hax hlast
            exact ⟨rfl, hle rfl⟩

end

section

variable {α β : Type} [LinearOrder α] [LinearOrder β]

/-- A code under which a smaller letter makes a smaller text, whatever comes behind. -/
structure Ordered (code : α → List β) : Prop where
  ne_nil : ∀ a, code a ≠ []
  lt : ∀ {a b : α}, a < b → ∀ x y, code a ++ x < code b ++ y

theorem append_lt_append_iff (front : List β) {x y : List β} : front ++ x < front ++ y ↔ x < y := by
  induction front with
  | nil => rfl
  | cons b front ih =>
    rw [cons_append, cons_append, cons_lt_cons_iff, ih]
    simp

/-- Texts of the same length that differ are ordered before what comes behind them. -/
theorem append_lt_append {a b : List β} (hl : a.length = b.length) (h : a < b)
    (x y : List β) : a ++ x < b ++ y := by
  induction a generalizing b with
  | nil =>
    cases b with
    | nil => exact absurd h (lt_irrefl _)
    | cons d b => simp at hl
  | cons c a ih =>
    cases b with
    | nil => simp at hl
    | cons d b =>
      rw [cons_append, cons_append, cons_lt_cons_iff]
      rcases cons_lt_cons_iff.mp h with hc | ⟨rfl, hr⟩
      · exact .inl hc
      · exact .inr ⟨rfl, ih (by simpa using hl) hr⟩

theorem Ordered.strictMono {code : α → List β} (h : Ordered code) :
    StrictMono fun word : List α => word.flatMap code := by
  intro word word' hl
  induction word generalizing word' with
  | nil =>
    cases word' with
    | nil => exact absurd hl (lt_irrefl _)
    | cons b word' =>
      obtain ⟨c, rest, hc⟩ := exists_cons_of_ne_nil (h.ne_nil b)
      simp only [flatMap_nil, flatMap_cons, hc, cons_append]
      exact nil_lt_cons _ _
  | cons a word ih =>
    cases word' with
    | nil => exact absurd hl (not_lt_nil _)
    | cons b word' =>
      simp only [flatMap_cons]
      rcases cons_lt_cons_iff.mp hl with hab | ⟨rfl, hr⟩
      · exact h.lt hab _ _
      · exact (append_lt_append_iff _).mpr (ih hr)

end

end PrefixRanges
