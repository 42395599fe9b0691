-- The redaction of raw URLs in `camel-api/src/redact.rs`: authority windows are found on the
-- input, and masked by their byte offsets in the output from the last one to the first.
import Mathlib.Algebra.Order.Ring.Nat
import Mathlib.Data.List.Sort
import Mathlib.Data.List.Destutter

namespace camel_api.redact

/-! ## Strings and their bytes -/

def byte_len (s : List Char) : Nat := (s.map Char.utf8Size).sum

/-- A string cut at a byte offset. An offset past the end or inside a character panics. -/
def cut : Nat → List Char → Option (List Char × List Char)
  | 0, s => some ([], s)
  | _ + 1, [] => none
  | offset + 1, c :: s =>
    if offset + 1 < c.utf8Size then none
    else (cut (offset + 1 - c.utf8Size) s).map fun (before, after) => (c :: before, after)

/-- The text before the last occurrence of a character, and the text from there on. -/
def split_last (sep : Char) : List Char → Option (List Char × List Char)
  | [] => none
  | c :: s =>
    match split_last sep s with
    | some (before, after) => some (c :: before, after)
    | none => if c = sep then some ([], c :: s) else none

/-! ## Authority windows -/

def is_slash (c : Char) : Bool := c = '/' || c = '\\'

def ends_window (c : Char) : Bool := c = '/' || c = '?' || c = '#'

def window_text (rest : List Char) : List Char := rest.takeWhile fun c => !ends_window c

def is_scheme_char (c : Char) : Bool := c.isAlphanum || c = '+' || c = '.' || c = '-'

/-- The length of the scheme that ends with the text before a run. The text is given with its
last character first. -/
def scheme_prefix_len : List Char → Option Nat
  | ':' :: before =>
    let name := before.takeWhile is_scheme_char
    match name.getLast? with
    | some first => if first.isAlpha then some name.length else none
    | none => none
  | _ => none

def single_backslash_credential_gate (rest : List Char) : Bool :=
  match split_last '@' (window_text rest) with
  | some (user, _) => user.contains ':'
  | none => false

/-- Whether a maximal run of slashes ends between two parts of the input and opens a window
there. The part before is given with its last character first. -/
def opens (before rest : List Char) : Bool :=
  let run := before.takeWhile is_slash
  let run_len := run.length
  if run_len = 0 || rest.head?.any is_slash then false
  else if run.contains '\\' then
    match scheme_prefix_len (before.dropWhile is_slash) with
    | none => false
    | some scheme_len =>
      2 ≤ run_len || (2 ≤ scheme_len || (scheme_len = 1 && single_backslash_credential_gate rest))
  else 2 ≤ run_len

/-- The windows from byte `i` on, where the input is cut in two. -/
def windows_from (before : List Char) (i : Nat) (rest : List Char) : List (Nat × Nat) :=
  let here := if opens before rest then [(i, i + byte_len (window_text rest))] else []
  match rest with
  | [] => here
  | c :: rest => here ++ windows_from (c :: before) (i + c.utf8Size) rest

def authority_windows (input : List Char) : List (Nat × Nat) := windows_from [] 0 input

/-- The order of pairs of offsets. -/
def WindowLe (a b : Nat × Nat) : Prop := a.1 < b.1 ∨ (a.1 = b.1 ∧ a.2 ≤ b.2)

instance : DecidableRel WindowLe := fun _ _ => inferInstanceAs (Decidable (_ ∨ _))

/-- The text of a window masked up to its last `@`. -/
def mask_window (window : Nat × Nat) (out : List Char) : Option (List Char) := do
  let (before, rest) ← cut window.1 out
  let (text, after) ← cut (window.2 - window.1) rest
  match split_last '@' text with
  | some (_, kept) => some (before ++ "***".toList ++ kept ++ after)
  | none => some out

def mask_authority_windows (input : List Char) : Option (List Char) :=
  let windows := ((authority_windows input).insertionSort WindowLe).destutter (· ≠ ·)
  windows.foldr (fun window out => out.bind (mask_window window)) (some input)

/-! ## Redaction -/

def truncate_utf8_safe : List Char → Nat → List Char
  | [], _ => []
  | c :: s, max => if c.utf8Size ≤ max then c :: truncate_utf8_safe s (max - c.utf8Size) else []

def is_introducer (c : Char) : Bool := c = '?' || c = '#'

/-- The sentinels for the introducers that the text has, in the order in which they come. -/
def sentinels (out : List Char) : List Char :=
  match out.idxOf? '?', out.idxOf? '#' with
  | some q, some f =>
    if f < q then "#[redacted]?[redacted]".toList else "?[redacted]#[redacted]".toList
  | some _, none => "?[redacted]".toList
  | none, some _ => "#[redacted]".toList
  | none, none => []

def redacted (raw : List Char) : Option (List Char) :=
  (mask_authority_windows raw).map fun out =>
    let sentinels := sentinels out
    let out := out.takeWhile fun c => !is_introducer c
    let out := truncate_utf8_safe out (256 - sentinels.length) ++ sentinels
    truncate_utf8_safe out 256

def redact_url (raw : String) : Option String := (redacted raw.toList).map String.ofList

end camel_api.redact
