-- The names of done markers: the pattern that producer and consumer expand, each in its own way
-- (`lib.rs` and `poll_logic.rs`).
import RustCamel.Lib.UnixPath

namespace camel_file

variable {replacement : Text} {pattern : Text} {text : Text} {file_name : Text}

open UnixPath List

/-! ## `str::replace` -/

/-- The text behind the next `skip` characters, with every occurrence of the pattern replaced. -/
def replace_from (pattern replacement : Text) : Nat → Text → Text
  | _, [] => []
  | skip + 1, _ :: text => replace_from pattern replacement skip text
  | 0, c :: text =>
    if pattern.isPrefixOf (c :: text) then
      replacement ++ replace_from pattern replacement (pattern.length - 1) text
    else c :: replace_from pattern replacement 0 text

/-- `str::replace` for a pattern that is not empty. -/
def replace (pattern replacement text : Text) : Text := replace_from pattern replacement 0 text

/-! ## The pattern -/

def FILE_NAME : Text := "$\x7bfile:name\x7d".toList

def FILE_NAME_NOEXT : Text := "$\x7bfile:name.noext\x7d".toList

/-- The text before the last dot, if there is one. -/
def stem (file_name : Text) : Text :=
  if '.' ∈ file_name then (file_name.reverse.dropWhile (· ≠ '.')).tail.reverse else file_name

def resolve_done_file_name (pattern file_name : Text) : Text :=
  replace FILE_NAME_NOEXT (stem file_name) (replace FILE_NAME file_name pattern)

/-- Does the text have `$` before an opening brace? -/
def has_placeholder : Text → Bool
  | '$' :: '\x7b' :: _ => true
  | _ :: text => has_placeholder text
  | [] => false

def is_done_marker (file_name pattern : Text) : Bool :=
  if !has_placeholder pattern then file_name = pattern
  else if "$\x7b".toList.isPrefixOf pattern then
    (resolve_done_file_name pattern []).isSuffixOf file_name
  else (resolve_done_file_name pattern []).isPrefixOf file_name

/-! ## What a replacement leaves alone -/

theorem replace_from_skip (pattern replacement : Text) (skip : Nat) (text : Text) :
    replace_from pattern replacement skip text = replace pattern replacement (text.drop skip) := by
  induction text generalizing skip with
  | nil => cases skip <;> rfl
  | cons c text ih =>
    cases skip with
    | zero => rfl
    | succ skip => exact ih skip

theorem replace_of_not_within (h : ¬pattern <:+: text) :
    replace pattern replacement text = text := by
  induction text with
  | nil => rfl
  | cons c text ih =>
    have hh : ¬pattern.isPrefixOf (c :: text) = true := by
      intro hp
      exact h (List.isPrefixOf_iff_prefix.mp hp).isInfix
    have hr : ¬pattern <:+: text := by
      intro hi
      exact h (hi.trans (suffix_cons c text).isInfix)
    unfold replace replace_from
    rw [if_neg hh]
    exact congrArg (List.cons c) (ih hr)

variable {c : Char}

/-- Nothing is replaced in a text without the first character of the pattern. -/
theorem replace_append {front : Text} (h : c ∉ front) :
    replace (c :: pattern) replacement (front ++ text) =
      front ++ replace (c :: pattern) replacement text := by
  induction front with
  | nil => rfl
  | cons d front ih =>
    rw [mem_cons, not_or] at h
    have hh : (c :: pattern).isPrefixOf (d :: (front ++ text)) = false := by
      simp [List.isPrefixOf, h.1]
    rw [cons_append, cons_append, ← ih h.2]
    unfold replace
    rw [replace_from, hh]
    rfl

theorem replace_at_head :
    replace (c :: pattern) replacement (c :: pattern ++ text) =
      replacement ++ replace (c :: pattern) replacement text := by
  have hh : (c :: pattern).isPrefixOf (c :: (pattern ++ text)) = true :=
    List.isPrefixOf_iff_prefix.mpr (prefix_append (c :: pattern) text)
  rw [cons_append]
  unfold replace
  rw [replace_from, if_pos hh, replace_from_skip, length_cons, Nat.add_sub_cancel, drop_left]
  rfl

theorem mem_replace_from {skip : Nat} (h : c ∈ replace_from pattern replacement skip text) :
    c ∈ replacement ∨ c ∈ text := by
  induction text generalizing skip with
  | nil => cases skip <;> exact .inr h
  | cons d text ih =>
    cases skip with
    | succ skip =>
      rcases ih h with hc | hc
      · exact .inl hc
      · exact .inr (.tail _ hc)
    | zero =>
      rw [replace_from] at h
      split at h
      · rcases mem_append.mp h with hc | hc
        · exact .inl hc
        · rcases ih hc with hc | hc
          · exact .inl hc
          · exact .inr (.tail _ hc)
      · rcases mem_cons.mp h with rfl | hc
        · exact .inr (.head _)
        · rcases ih hc with hc | hc
          · exact .inl hc
          · exact .inr (.tail _ hc)

theorem mem_stem (h : c ∈ stem file_name) : c ∈ file_name := by
  unfold stem at h
  split at h
  · rw [mem_reverse] at h
    have hd := (dropWhile_sublist _).subset (mem_of_mem_tail h)
    rwa [mem_reverse] at hd
  · exact h

theorem mem_resolve_done_file_name (h : c ∈ resolve_done_file_name pattern file_name) :
    c ∈ file_name ∨ c ∈ pattern := by
  rcases mem_replace_from h with hc | hc
  · exact .inl (mem_stem hc)
  · exact mem_replace_from hc

end camel_file
