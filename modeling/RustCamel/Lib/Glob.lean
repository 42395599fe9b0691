-- Patterns as Redis matches them: a star for any text, a question mark for any character, a class
-- in brackets, a backslash before a character that stands for itself.
import Mathlib.Data.List.Infix

open List

namespace Glob

inductive Piece where
  | star
  | one (test : Char → Bool)

/-- A class up to its bracket: the ranges it names, and what comes behind it. -/
def class_of : List Char → List (Char × Char) × List Char
  | [] => ([], [])
  | ']' :: rest => ([], rest)
  | '\\' :: c :: rest =>
    let (ranges, rest) := class_of rest
    ((c, c) :: ranges, rest)
  | a :: '-' :: b :: rest =>
    let (ranges, rest) := class_of rest
    ((a, b) :: ranges, rest)
  | c :: rest =>
    let (ranges, rest) := class_of rest
    ((c, c) :: ranges, rest)

def in_class (ranges : List (Char × Char)) (c : Char) : Bool :=
  ranges.any fun (a, b) => (a ≤ c && c ≤ b) || (b ≤ c && c ≤ a)

theorem class_of_length (cs : List Char) : (class_of cs).2.length ≤ cs.length := by
  fun_induction class_of cs <;> simp_all <;> omega

def pieces : List Char → List Piece
  | [] => []
  | '*' :: rest => .star :: pieces rest
  | '?' :: rest => .one (fun _ => true) :: pieces rest
  | '\\' :: c :: rest => .one (· == c) :: pieces rest
  | '[' :: '^' :: rest => .one (fun c => !in_class (class_of rest).1 c) :: pieces (class_of rest).2
  | '[' :: rest => .one (in_class (class_of rest).1) :: pieces (class_of rest).2
  | c :: rest => .one (· == c) :: pieces rest
termination_by cs => cs.length
decreasing_by
  all_goals simp only [length_cons]
  all_goals have := class_of_length rest
  all_goals omega

def accepts : List Piece → List Char → Bool
  | [], text => text.isEmpty
  | .star :: ps, text => text.tails.any (accepts ps)
  | .one _ :: _, [] => false
  | .one test :: ps, c :: text => test c && accepts ps text

def is_match (pattern text : List Char) : Bool := accepts (pieces pattern) text

/-- A character that stands for itself in a pattern. -/
def plain (c : Char) : Bool := c != '*' && c != '?' && c != '[' && c != '\\'

theorem pieces_plain {c : Char} (h : plain c = true) (rest : List Char) :
    pieces (c :: rest) = .one (· == c) :: pieces rest := by
  simp only [plain, Bool.and_eq_true, bne_iff_ne] at h
  obtain ⟨⟨⟨hst, hm⟩, hb⟩, hs⟩ := h
  rw [pieces.eq_def]
  split
  · rename_i heq; cases heq
  · rename_i heq; cases heq; exact absurd rfl hst
  · rename_i heq; cases heq; exact absurd rfl hm
  · rename_i heq; cases heq; exact absurd rfl hs
  · rename_i heq; cases heq; exact absurd rfl hb
  · rename_i heq; cases heq; exact absurd rfl hb
  · rename_i heq; cases heq; rfl

theorem pieces_star : pieces ['*'] = [.star] := by
  rw [pieces, pieces]

theorem accepts_star (text : List Char) : accepts [.star] text = true := by
  rw [accepts, List.any_eq_true]
  exact ⟨[], (mem_tails _ _).mpr List.nil_suffix, rfl⟩

theorem is_match_plain_star {start : List Char} (h : ∀ c ∈ start, plain c = true)
    (text : List Char) : is_match (start ++ ['*']) text = true ↔ start <+: text := by
  unfold is_match
  induction start generalizing text with
  | nil =>
    rw [nil_append, pieces_star, accepts_star]
    simp
  | cons c start ih =>
    obtain ⟨hc, hs⟩ := forall_mem_cons.mp h
    rw [cons_append, pieces_plain hc]
    cases text with
    | nil => simp [accepts]
    | cons d text =>
      rw [accepts, Bool.and_eq_true, beq_iff_eq, ih hs, cons_prefix_cons]
      constructor
      all_goals
        rintro ⟨rfl, hp⟩
        exact ⟨rfl, hp⟩

end Glob
