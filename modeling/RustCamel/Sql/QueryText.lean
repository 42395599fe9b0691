-- The text of a prepared statement depends on the template and on the lengths of the IN lists
-- only. The template is read once more by its grammar, against which the scan is proved.
import Mathlib.Data.List.TakeWhile
import RustCamel.Sql.Query

open List Option

namespace camel_component_sql.query

open camel_api (Exchange Value)
open camel_api.error (CamelError)
open camel_api.exchange_lookup (ExchangeLookupPath)
open camel_core.lifecycle (Fault Outcome)
open camel_endpoint.uri (split_once)

/-! ## The grammar of templates -/

/-- A part of a template as it is written. -/
inductive Part where
  | text (source : List Char)
  | slot (source : List Char) (param : ParamSlot)

def Part.source : Part → List Char
  | .text source => source
  | .slot source _ => source

def Part.param? : Part → Option ParamSlot
  | .text _ => none
  | .slot _ param => some param

/-- What is left of a literal up to its closing quote, and what follows. A doubled quote does
not close it. -/
def literal : List Char → List Char × List Char
  | [] => ([], [])
  | '\'' :: '\'' :: rest => ('\'' :: '\'' :: (literal rest).1, (literal rest).2)
  | '\'' :: rest => (['\''], rest)
  | c :: rest => (c :: (literal rest).1, (literal rest).2)

def name_at (chars : List Char) : List Char := chars.takeWhile fun c => !is_name_terminator c

/-- The slot behind `:#`: how it is written, what it asks for, and what follows. -/
def named_slot (after : List Char) : Option (List Char × ParamSlot × List Char) :=
  if after.take 3 = "in:".toList then
    let name := name_at (after.drop 3)
    if name.isEmpty then none
    else some ("in:".toList ++ name, .InClause (.ofList name), after.drop (3 + name.length))
  else if after.take 2 = "$\x7b".toList then
    match split_once '}' (after.drop 2) with
    | none => none
    | some (expr, rest) =>
      if expr.isEmpty then none
      else some ("$\x7b".toList ++ expr ++ ['}'], .Expression (.ofList expr), rest)
  else
    let name := name_at after
    if name.isEmpty then none
    else some (name, .Named (.ofList name), after.drop name.length)

/-- The parts of a template, read from the left; `k` positional slots stand before. A part has
a character at least. -/
def parts : Nat → Nat → List Char → Option (List Part)
  | 0, _, _ => some []
  | _ + 1, _, [] => some []
  | n + 1, k, c :: rest =>
    if c = '\'' then (.text (c :: (literal rest).1) :: ·) <$> parts n k (literal rest).2
    else if c = '#' then (.slot ['#'] (.Positional k) :: ·) <$> parts n (k + 1) rest
    else if c = ':' ∧ rest.head? = some '#' then
      match named_slot rest.tail with
      | none => none
      | some (source, param, rest) =>
        (.slot (':' :: '#' :: source) param :: ·) <$> parts n k rest
    else (.text [c] :: ·) <$> parts n k rest

def slots (ps : List Part) : List ParamSlot := ps.filterMap Part.param?

/-- The texts between the slots. -/
def texts (pending : List Char) : List Part → List String
  | [] => [.ofList pending]
  | .text source :: ps => texts (pending ++ source) ps
  | .slot _ _ :: ps => .ofList pending :: texts [] ps

/-! ### What is read -/

theorem literal_append (rest : List Char) : (literal rest).1 ++ (literal rest).2 = rest := by
  fun_induction literal rest with
  | case1 | case3 rest _ => rfl
  | case2 rest ih | case4 c rest _ _ ih => simp only [cons_append, ih]

theorem literal_closed (rest : List Char) (h : (literal rest).2 ≠ []) :
    (literal rest).1.getLast? = some '\'' := by
  fun_induction literal rest with
  | case1 => exact absurd rfl h
  | case2 rest ih | case4 c rest _ _ ih => simp [getLast?_cons, ih h]
  | case3 rest _ => rfl

theorem name_at_append (chars : List Char) :
    name_at chars ++ chars.drop (name_at chars).length = chars := by
  rw [← prefix_iff_eq_append]
  exact List.takeWhile_prefix _

theorem colon_not_mem_name_at (chars : List Char) : ':' ∉ name_at chars := by
  intro hm
  have hc := mem_takeWhile_imp hm
  exact absurd hc (by decide)

theorem split_once_eq {sep : Char} {cs before after : List Char}
    (h : split_once sep cs = some (before, after)) : cs = before ++ sep :: after := by
  induction cs generalizing before with
  | nil => simp [split_once] at h
  | cons c cs ih =>
    rw [split_once] at h
    split at h
    · rename_i hc
      obtain ⟨rfl, rfl⟩ : [] = before ∧ cs = after := by simpa using h
      rw [hc]
      rfl
    · simp only [map_eq_some_iff, Prod.exists, Prod.mk.injEq] at h
      obtain ⟨b, a, hs, rfl, rfl⟩ := h
      rw [ih hs]
      rfl

/-- The place of a separator is the length of what stands before it. -/
theorem findIdx_eq_split_once (sep : Char) (cs : List Char) :
    cs.findIdx? (fun c => decide (c = sep)) = (split_once sep cs).map (·.1.length) := by
  induction cs with
  | nil => rfl
  | cons c cs ih =>
    rw [findIdx?_cons, split_once, ih]
    by_cases hc : c = sep
    · simp [hc]
    · simp [hc, Function.comp_def]

theorem getLast_name_at {chars : List Char} (before : List Char) (h : name_at chars ≠ []) :
    (before ++ name_at chars).getLast? ≠ some ':' := by
  rw [getLast?_append_of_ne_nil _ h]
  intro hlast
  exact colon_not_mem_name_at chars (mem_of_getLast? hlast)

variable {param : ParamSlot} {exchange : Exchange} {in_separator : String} {value : Value}
  {c : Char}

/-- A slot behind `:#` is written in full, and no colon ends it. -/
theorem named_slot_spec {after source rest : List Char}
    (h : named_slot after = some (source, param, rest)) :
    after = source ++ rest ∧ source.getLast? ≠ some ':' ∧ source ≠ [] := by
  unfold named_slot at h
  dsimp only at h
  split at h
  · rename_i hi
    split at h
    · cases h
    · rename_i hne
      simp only [Option.some.injEq, Prod.mk.injEq] at h
      obtain ⟨rfl, -, rfl⟩ := h
      refine ⟨?_, getLast_name_at _ (by simpa using hne), by simp⟩
      rw [append_assoc, ← drop_drop, name_at_append, ← hi, take_append_drop]
  · split at h
    · rename_i he
      split at h
      · cases h
      · rename_i expr rest' hs
        split at h
        · cases h
        · simp only [Option.some.injEq, Prod.mk.injEq] at h
          obtain ⟨rfl, -, rfl⟩ := h
          refine ⟨?_, by rw [getLast?_concat]; decide, by simp⟩
          rw [append_assoc, append_assoc, singleton_append, ← split_once_eq hs,
            ← he, take_append_drop]
    · split at h
      · cases h
      · rename_i hne
        simp only [Option.some.injEq, Prod.mk.injEq] at h
        obtain ⟨rfl, -, rfl⟩ := h
        have hn : name_at after ≠ [] := by simpa using hne
        exact ⟨(name_at_append after).symm, getLast_name_at [] hn, hn⟩

theorem source_of_parts : ∀ (n k : Nat) (chars : List Char) (ps : List Part),
    chars.length ≤ n → parts n k chars = some ps → ps.flatMap Part.source = chars
  | 0, _, chars, ps, hn, h => by
    obtain rfl : chars = [] := eq_nil_of_length_eq_zero (by omega)
    obtain rfl : [] = ps := by simpa [parts] using h
    rfl
  | _ + 1, _, [], ps, _, h => by
    obtain rfl : [] = ps := by simpa [parts] using h
    rfl
  | n + 1, k, c :: rest, ps, hn, h => by
    simp only [length_cons] at hn
    rw [parts] at h
    split at h
    · have hlen := congrArg List.length (literal_append rest)
      rw [length_append] at hlen
      obtain ⟨qs, hq, rfl⟩ := map_eq_some_iff.mp h
      have ih := source_of_parts n k _ qs (by omega) hq
      rw [flatMap_cons, ih]
      simp only [Part.source, cons_append, literal_append]
    · split at h
      · rename_i hh
        obtain ⟨qs, hq, rfl⟩ := map_eq_some_iff.mp h
        rw [flatMap_cons, source_of_parts n (k + 1) rest qs (by omega) hq, hh]
        rfl
      · split at h
        · rename_i hc
          split at h
          · cases h
          · rename_i source param after hs
            obtain ⟨qs, hq, rfl⟩ := map_eq_some_iff.mp h
            obtain ⟨ht, -, -⟩ := named_slot_spec hs
            obtain ⟨tail, rfl⟩ : ∃ tail, rest = '#' :: tail := by
              cases rest with
              | nil => simp at hc
              | cons d tail => exact ⟨tail, by simpa using hc.2⟩
            have hlen := congrArg List.length ht
            simp only [tail_cons, length_append, length_cons] at hlen hn
            have ih := source_of_parts n k after qs (by omega) hq
            simp only [tail_cons] at ht
            rw [flatMap_cons, ih, hc.1, ht]
            rfl
        · obtain ⟨qs, hq, rfl⟩ := map_eq_some_iff.mp h
          rw [flatMap_cons, source_of_parts n k rest qs (by omega) hq]
          rfl

/-! ## The scan -/

/-- The scan stands between `pre` and `rest`. -/
structure At (chars : List Char) (s : Scan) (pre rest : List Char) : Prop where
  split : chars = pre ++ rest
  index : s.i = pre.length
  behind : s.last_param_end ≤ pre.length

namespace At

variable {chars pre rest : List Char} {s : Scan}

theorem getElem (h : At chars s pre rest) (j : Nat) : chars[s.i + j]? = rest[j]? := by
  rw [h.split, h.index, getElem?_append_right (by omega)]
  simp

theorem head (h : At chars s pre rest) : chars[s.i]? = rest.head? := by
  rw [head?_eq_getElem?]
  exact h.getElem 0

theorem drop (h : At chars s pre rest) (j : Nat) : chars.drop (s.i + j) = rest.drop j := by
  rw [h.split, h.index, drop_length_add_append]

theorem previous (h : At chars s pre rest) :
    (0 < s.i ∧ chars[s.i - 1]? = some ':') ↔ pre.getLast? = some ':' := by
  rw [h.split, h.index, getLast?_eq_getElem?]
  cases pre with
  | nil => simp
  | cons c pre =>
    rw [getElem?_append_left (by simp)]
    simp

theorem fragment (h : At chars s pre rest) :
    slice chars s.last_param_end pre.length = .ok (.ofList (pre.drop s.last_param_end)) := by
  have hlen : pre.length ≤ chars.length := by
    rw [h.split, length_append]
    omega
  rw [slice, if_pos ⟨h.behind, hlen⟩, h.split, take_left]

theorem move (source : List Char) (h : At chars s pre (source ++ rest)) (b : Bool) :
    At chars { s with in_literal := b, i := s.i + source.length } (pre ++ source) rest := by
  refine ⟨by rw [h.split, append_assoc], ?_, ?_⟩
  · simp only [h.index, length_append]
  · have := h.behind
    simp only [length_append]
    omega

theorem push (source : List Char) (h : At chars s pre (source ++ rest)) (fragment : String)
    (param : ParamSlot) (k : Nat) :
    At chars { s.push fragment param (pre.length + source.length) with positional_index := k }
      (pre ++ source) rest := by
  refine ⟨by rw [h.split, append_assoc], ?_, ?_⟩
  · simp only [Scan.push, length_append]
  · simp only [Scan.push, length_append, Nat.le_refl]

end At

section

variable {chars pre rest : List Char} {s : Scan}

theorem scanLoop_nil (h : At chars s pre []) (n : Nat) : scanLoop chars '#' n s = .ok s := by
  cases n with
  | zero => rfl
  | succ n =>
    unfold scanLoop
    rw [h.head]
    rfl

theorem scanLoop_cons {s' : Scan} (h : At chars s pre (c :: rest)) (n : Nat)
    (hc : scan_char chars '#' s c = .ok s') :
    scanLoop chars '#' (n + 1) s = scanLoop chars '#' n s' := by
  rw [scanLoop, h.head]
  simp only [head?_cons, hc]

theorem scan_char_text (hq : c ≠ '\'') (h : s.in_literal = true ∨ c ≠ '#') :
    scan_char chars '#' s c = .ok { s with i := s.i + 1 } := by
  rw [scan_char, if_neg hq, if_neg]
  rintro ⟨ho, hh⟩
  rcases h with h | h
  · simp [h] at ho
  · exact h hh

theorem literal_run (rest : List Char) : ∀ (pre : List Char) (s : Scan) (n : Nat),
    At chars s pre rest → s.in_literal = true → rest.length ≤ n →
    ∃ m b, (literal rest).2.length ≤ m ∧ (b = true → (literal rest).2 = []) ∧
      scanLoop chars '#' n s =
        scanLoop chars '#' m
          { s with in_literal := b, i := s.i + (literal rest).1.length } := by
  fun_induction literal rest with
  | case1 =>
    intro pre s n ha hi hn
    refine ⟨n, true, Nat.zero_le _, fun _ => rfl, ?_⟩
    rw [← hi]
    rfl
  | case2 rest ih =>
    intro pre s n ha hi hn
    simp only [length_cons] at hn
    obtain ⟨n, rfl⟩ : ∃ m, n = m + 1 := ⟨n - 1, by omega⟩
    have hch : scan_char chars '#' s '\'' = .ok { s with i := s.i + 2 } := by
      rw [scan_char, if_pos rfl, if_pos ⟨hi, by rw [ha.getElem]; rfl⟩]
    have ha' : At chars { s with i := s.i + 2 } (pre ++ ['\'', '\'']) rest :=
      ha.move ['\'', '\''] s.in_literal
    obtain ⟨m, b, hm, hb, hr⟩ := ih _ _ n ha' hi (by omega)
    refine ⟨m, b, hm, hb, ?_⟩
    rw [scanLoop_cons ha n hch, hr]
    simp only [length_cons, Nat.add_assoc, Nat.add_comm 2]
  | case3 rest hnot =>
    intro pre s n ha hi hn
    simp only [length_cons] at hn
    obtain ⟨n, rfl⟩ : ∃ m, n = m + 1 := ⟨n - 1, by omega⟩
    have hne : ¬(s.in_literal = true ∧ chars[s.i + 1]? = some '\'') := by
      rintro ⟨-, hq⟩
      rw [ha.getElem] at hq
      cases rest with
      | nil => simp at hq
      | cons d rest =>
        obtain rfl : d = '\'' := by simpa using hq
        exact hnot rest rfl
    have hch : scan_char chars '#' s '\'' =
        .ok { s with in_literal := !s.in_literal, i := s.i + 1 } := by
      rw [scan_char, if_pos rfl, if_neg hne]
    refine ⟨n, false, Nat.le_of_succ_le_succ hn, by simp, ?_⟩
    rw [scanLoop_cons ha n hch, hi]
    rfl
  | case4 c rest hd hs ih =>
    intro pre s n ha hi hn
    simp only [length_cons] at hn
    obtain ⟨n, rfl⟩ : ∃ m, n = m + 1 := ⟨n - 1, by omega⟩
    have hq : c ≠ '\'' := fun hc => hs hc
    have ha' : At chars { s with i := s.i + 1 } (pre ++ [c]) rest := ha.move [c] s.in_literal
    obtain ⟨m, b, hm, hb, hr⟩ := ih _ _ n ha' hi (by omega)
    refine ⟨m, b, hm, hb, ?_⟩
    rw [scanLoop_cons ha n (scan_char_text hq (.inl hi)), hr]
    simp only [length_cons, Nat.add_assoc, Nat.add_comm 1]

theorem scan_literal (ha : At chars s pre ('\'' :: rest)) (ho : s.in_literal = false) {n : Nat}
    (hn : rest.length ≤ n) :
    ∃ m b, (literal rest).2.length ≤ m ∧ (b = true → (literal rest).2 = []) ∧
      scanLoop chars '#' (n + 1) s =
        scanLoop chars '#' m
          { s with in_literal := b, i := s.i + ('\'' :: (literal rest).1).length } := by
  have hc : scan_char chars '#' s '\'' = .ok { s with in_literal := true, i := s.i + 1 } := by
    rw [scan_char, if_pos rfl, if_neg (by simp [ho]), ho]
    rfl
  obtain ⟨m, b, hm, hb, hr⟩ :=
    literal_run rest _ { s with in_literal := true, i := s.i + 1 } n
      (ha.move ['\''] true) rfl hn
  refine ⟨m, b, hm, hb, ?_⟩
  rw [scanLoop_cons ha n hc, hr]
  simp only [length_cons, Nat.add_assoc, Nat.add_comm 1]

theorem isEmpty_ofList (cs : List Char) : (String.ofList cs).isEmpty = cs.isEmpty := by
  rw [Bool.eq_iff_iff, String.isEmpty_iff, List.isEmpty_iff]
  constructor
  · intro h
    have := congrArg String.toList h
    simpa using this
  · rintro rfl
    rfl

theorem extract_param_name_eq {start : Nat} {after : List Char} (h : chars.drop start = after) :
    extract_param_name chars start = (.ofList (name_at after), start + (name_at after).length) := by
  rw [extract_param_name, h]
  rfl

/-- The expression of a slot, from its opening brace to the first closing one. -/
theorem brace_spec {start : Nat} {after : List Char} (h : chars.drop start = '{' :: after)
    (hst : start < chars.length) :
    match split_once '}' after with
    | none => find_matching_brace chars start = none
    | some (expr, _) =>
      find_matching_brace chars start = some (start + 1 + expr.length) ∧
        slice chars (start + 1) (start + 1 + expr.length) = .ok (.ofList expr) := by
  have hf : find_matching_brace chars start =
      (split_once '}' after).map fun found => start + 1 + found.1.length := by
    rw [find_matching_brace, h, findIdx?_cons, findIdx_eq_split_once]
    cases split_once '}' after with
    | none => rfl
    | some found => simp [Nat.add_assoc, Nat.add_comm 1]
  rw [hf]
  cases hs : split_once '}' after with
  | none => rfl
  | some found =>
    obtain ⟨expr, rest⟩ := found
    refine ⟨rfl, ?_⟩
    have hd : chars.drop (start + 1) = expr ++ '}' :: rest := by
      rw [← drop_drop, h, ← split_once_eq hs]
      rfl
    have hlen := congrArg List.length hd
    simp only [length_drop, length_append, length_cons] at hlen
    rw [slice, if_pos ⟨by omega, by omega⟩, drop_take, hd]
    simp

theorem scan_named_spec {after : List Char} (ha : At chars s (pre ++ [':']) ('#' :: after))
    (hbe : s.last_param_end ≤ pre.length) :
    match named_slot after with
    | none => ∃ e, scan_named chars s = .error (.err e)
    | some (source, param, _) =>
      scan_named chars s =
        .ok (s.push (.ofList (pre.drop s.last_param_end)) param
          (pre.length + (':' :: '#' :: source).length)) := by
  have hi : s.i = pre.length + 1 := by simp [ha.index]
  have hb : At chars { s with i := pre.length } pre (':' :: '#' :: after) :=
    ⟨by rw [ha.split, append_assoc]; rfl, rfl, hbe⟩
  have hf : slice chars s.last_param_end (s.i - 1) = .ok (.ofList (pre.drop s.last_param_end)) := by
    rw [hi]
    exact hb.fragment
  have hd (j : Nat) : chars.drop (s.i + (j + 1)) = after.drop j := ha.drop (j + 1)
  have hd₀ : chars.drop (s.i + 1) = after := hd 0
  have hin : check_in_prefix chars (s.i + 1) = decide (after.take 3 = "in:".toList) := by
    unfold check_in_prefix
    rw [hd₀]
  have hex : (chars[s.i + 1]? = some '$' ∧ chars[s.i + 2]? = some '{') ↔
      after.take 2 = "$\x7b".toList := by
    rw [ha.getElem, ha.getElem]
    cases after with
    | nil => simp
    | cons a after =>
      cases after with
      | nil | cons b after => simp
  unfold scan_named named_slot
  rw [hin]
  simp only [hex, decide_eq_true_eq]
  by_cases hc : after.take 3 = "in:".toList
  · have hn := extract_param_name_eq (hd 3)
    simp only [if_pos hc, hn, isEmpty_ofList, hf]
    by_cases he : (name_at (after.drop 3)).isEmpty = true
    · simp only [if_pos he]
      exact ⟨_, rfl⟩
    · simp only [if_neg he]
      have hen : s.i + (3 + 1) + (name_at (after.drop 3)).length =
          pre.length + (':' :: '#' :: ("in:".toList ++ name_at (after.drop 3))).length := by
        simp [hi]
        omega
      rw [hen]
      rfl
  by_cases hbr : after.take 2 = "$\x7b".toList
  · obtain ⟨tail, rfl⟩ : ∃ tail, after = '$' :: '{' :: tail := by
      refine ⟨after.drop 2, ?_⟩
      calc after = after.take 2 ++ after.drop 2 := (take_append_drop 2 after).symm
        _ = _ := by rw [hbr]; rfl
    have hlen : s.i + 2 < chars.length := by
      have := congrArg List.length ha.split
      simp only [length_append, length_cons] at this
      omega
    have hsp := brace_spec (hd 1) hlen
    simp only [if_neg hc, if_pos hbr, hf]
    have ht : ('$' :: '{' :: tail).drop 2 = tail := rfl
    rw [ht]
    cases hs : split_once '}' tail with
    | none =>
      simp only [hs] at hsp
      simp only [hsp]
      exact ⟨_, rfl⟩
    | some found =>
      obtain ⟨expr, rest⟩ := found
      simp only [hs] at hsp
      have hsl : slice chars (s.i + 3) (s.i + 2 + 1 + expr.length) = .ok (.ofList expr) := hsp.2
      simp only [hsp.1, hsl]
      by_cases he : expr.isEmpty = true
      · simp only [if_pos he]
        refine ⟨.ProcessorError s!"Empty expression at position {s.i}", ?_⟩
        change (if (String.ofList expr).isEmpty = true then _ else _) = _
        rw [isEmpty_ofList, if_pos he]
        rfl
      · simp only [if_neg he]
        change (if (String.ofList expr).isEmpty = true then _ else _) = _
        rw [isEmpty_ofList, if_neg he]
        have hen : s.i + 2 + 1 + expr.length + 1 =
            pre.length + (':' :: '#' :: ("$\x7b".toList ++ expr ++ ['}'])).length := by
          simp [hi]
          omega
        rw [hen]
        rfl
  · simp only [if_neg hc, if_neg hbr, extract_param_name_eq hd₀, isEmpty_ofList, hf]
    by_cases he : (name_at after).isEmpty = true
    · simp only [if_pos he]
      exact ⟨_, rfl⟩
    · simp only [if_neg he]
      have hen : s.i + 1 + (name_at after).length =
          pre.length + (':' :: '#' :: name_at after).length := by
        simp [hi]
        omega
      rw [hen]
      rfl

/-- The scan has gone to the end, with these fragments and slots. -/
def Ends (chars : List Char) (fragments : List String) (params : List ParamSlot)
    (r : Outcome CamelError Scan) : Prop :=
  ∃ s, r = .ok s ∧ s.last_param_end ≤ chars.length ∧
    s.fragments ++ [.ofList (chars.drop s.last_param_end)] = fragments ∧ s.params = params

/-- The scan finds what the parts of the rest say, or refuses a slot that has no name. -/
def Scans (chars : List Char) (s : Scan) (pre : List Char) (r : Outcome CamelError Scan) :
    Option (List Part) → Prop
  | none => ∃ e, r = .error (.err e)
  | some ps =>
    Ends chars (s.fragments ++ texts (pre.drop s.last_param_end) ps) (s.params ++ slots ps) r

theorem Scans.text {source : List Char} {b : Bool} {i : Nat} {r : Outcome CamelError Scan}
    {found : Option (List Part)} (hb : s.last_param_end ≤ pre.length)
    (h : Scans chars { s with in_literal := b, i := i } (pre ++ source) r found) :
    Scans chars s pre r ((.text source :: ·) <$> found) := by
  cases found with
  | none => exact h
  | some ps =>
    rw [Scans, drop_append_of_le_length hb] at h
    exact h

theorem Scans.slot {source : List Char} {k : Nat} {r : Outcome CamelError Scan}
    {found : Option (List Part)}
    (h : Scans chars { s.push (.ofList (pre.drop s.last_param_end)) param
      (pre.length + source.length) with positional_index := k } (pre ++ source) r found) :
    Scans chars s pre r ((.slot source param :: ·) <$> found) := by
  cases found with
  | none => exact h
  | some ps =>
    have hd : (pre ++ source).drop (pre.length + source.length) = [] := by
      rw [← length_append, drop_length]
    simp only [Scans, Scan.push, hd, append_assoc, singleton_append] at h
    exact h

theorem scans_nil (ha : At chars s pre []) (n : Nat) :
    Scans chars s pre (scanLoop chars '#' n s) (some []) := by
  have hc : chars = pre := by rw [ha.split, append_nil]
  refine ⟨s, scanLoop_nil ha n, ?_, ?_, ?_⟩
  · rw [hc]
    exact ha.behind
  · rw [hc]
    rfl
  · simp [slots]

theorem scan_spec : ∀ (m n : Nat) (s : Scan) (pre rest : List Char),
    rest.length ≤ m → rest.length ≤ n → At chars s pre rest → (s.in_literal = true → rest = []) →
    ¬(pre.getLast? = some ':' ∧ rest.head? = some '#') →
    Scans chars s pre (scanLoop chars '#' n s) (parts m s.positional_index rest) := by
  intro m
  induction m with
  | zero =>
    intro n s pre rest hm hn hat hi hc
    obtain rfl : rest = [] := eq_nil_of_length_eq_zero (by omega)
    exact scans_nil hat n
  | succ m ih =>
    intro n s pre rest hm hn hat hi hc
    cases rest with
    | nil => exact scans_nil hat n
    | cons c rest =>
      have ho : s.in_literal = false := by
        rw [← Bool.not_eq_true]
        intro h
        cases hi h
      simp only [length_cons] at hm hn
      obtain ⟨n, rfl⟩ : ∃ k, n = k + 1 := ⟨n - 1, by omega⟩
      rw [parts]
      by_cases hq : c = '\''
      · subst hq
        rw [if_pos rfl]
        obtain ⟨k, b, hk, hb, hr⟩ := scan_literal hat ho (by omega : rest.length ≤ n)
        have hlen := congrArg List.length (literal_append rest)
        rw [length_append] at hlen
        have hs : '\'' :: rest = '\'' :: (literal rest).1 ++ (literal rest).2 := by
          rw [cons_append, literal_append]
        rw [hs] at hat
        rw [hr]
        refine Scans.text (b := b) (i := s.i + ('\'' :: (literal rest).1).length) hat.behind ?_
        refine ih k _ _ _ (by omega) hk (hat.move _ b) hb ?_
        rintro ⟨hlast, hh⟩
        have hne : (literal rest).2 ≠ [] := by
          intro hnil
          simp [hnil] at hh
        simp [getLast?_append, getLast?_cons, literal_closed rest hne] at hlast
      by_cases hha : c = '#'
      · subst hha
        rw [if_neg hq, if_pos rfl]
        have hp : ¬(0 < s.i ∧ chars[s.i - 1]? = some ':') := by
          rw [hat.previous]
          exact fun h => hc ⟨h, rfl⟩
        have hf := hat.fragment
        rw [← hat.index] at hf
        have hch : scan_char chars '#' s '#' =
            .ok { s.push (.ofList (pre.drop s.last_param_end)) (.Positional s.positional_index)
              (pre.length + 1) with positional_index := s.positional_index + 1 } := by
          rw [scan_char, if_neg hq, if_pos ⟨by simp [ho], rfl⟩, if_neg hp, hf, ← hat.index]
          rfl
        rw [scanLoop_cons hat n hch]
        refine Scans.slot (k := s.positional_index + 1) ?_
        refine ih n _ _ rest (by omega) (by omega) (hat.push ['#'] _ _ _) ?_ ?_
        · intro h
          simp [Scan.push, ho] at h
        · rintro ⟨hlast, -⟩
          simp at hlast
      rw [if_neg hq, if_neg hha]
      have hst := scanLoop_cons hat n (scan_char_text hq (.inr hha))
      have hat' : At chars { s with i := s.i + 1 } (pre ++ [c]) rest := hat.move [c] s.in_literal
      rw [hst]
      by_cases hna : c = ':' ∧ rest.head? = some '#'
      · rw [if_pos hna]
        obtain ⟨rfl, hh⟩ := hna
        obtain ⟨after, rfl⟩ : ∃ after, rest = '#' :: after := by
          cases rest with
          | nil => cases hh
          | cons d after => exact ⟨after, by simpa using hh⟩
        have hsp := scan_named_spec hat' hat.behind
        have hch : scan_char chars '#' { s with i := s.i + 1 } '#' =
            scan_named chars { s with i := s.i + 1 } := by
          rw [scan_char, if_neg (by decide), if_pos ⟨by simp [ho], rfl⟩,
            if_pos (hat'.previous.mpr (by simp))]
        simp only [length_cons] at hm hn
        obtain ⟨n, rfl⟩ : ∃ k, n = k + 1 := ⟨n - 1, by omega⟩
        simp only [tail_cons]
        cases hsl : named_slot after with
        | none =>
          simp only [hsl] at hsp
          obtain ⟨e, he⟩ := hsp
          refine ⟨e, ?_⟩
          rw [scanLoop, hat'.head]
          simp only [head?_cons, hch, he]
        | some found =>
          obtain ⟨source, param, rest⟩ := found
          simp only [hsl] at hsp
          obtain ⟨ha, hlast, hne⟩ := named_slot_spec hsl
          have hlen := congrArg List.length ha
          rw [length_append] at hlen
          rw [scanLoop_cons hat' n (hch.trans hsp)]
          have hs : ':' :: '#' :: after = ':' :: '#' :: source ++ rest := by
            rw [ha]
            rfl
          rw [hs] at hat
          refine Scans.slot (k := s.positional_index) ?_
          refine ih n _ _ rest (by omega) (by omega) (hat.push _ _ _ _) ?_ ?_
          · intro h
            simp [Scan.push, ho] at h
          · rintro ⟨hc', -⟩
            rw [getLast?_append_of_ne_nil _ (by simp)] at hc'
            obtain ⟨d, ds, rfl⟩ := exists_cons_of_ne_nil hne
            exact hlast (by simpa [getLast?_cons] using hc')
      · rw [if_neg hna]
        refine Scans.text (b := s.in_literal) (i := s.i + 1) hat.behind ?_
        refine ih n _ _ rest (by omega) (by omega) hat' (by simp [ho]) ?_
        rintro ⟨hlast, hh⟩
        exact hna ⟨by simpa using hlast, hh⟩

end

def parts_of (template : String) : Option (List Part) :=
  parts template.toList.length 0 template.toList

theorem parse_query_template_eq (template : String) :
    match parts_of template with
    | none => ∃ e, parse_query_template template '#' = .error (.err e)
    | some ps => parse_query_template template '#' = .ok ⟨texts [] ps, slots ps⟩ := by
  have ha : At template.toList ⟨[], [], 0, 0, 0, false⟩ [] template.toList :=
    ⟨rfl, rfl, Nat.le_refl 0⟩
  have hsp := scan_spec _ _ _ _ _ le_rfl le_rfl ha (by simp) (by simp)
  unfold parts_of parse_query_template
  cases hp : parts template.toList.length 0 template.toList with
  | none =>
    simp only [hp] at hsp
    obtain ⟨e, he⟩ := hsp
    refine ⟨e, ?_⟩
    dsimp only
    rw [he]
    rfl
  | some ps =>
    simp only [hp] at hsp
    obtain ⟨s, hs, hen, hf, hpa⟩ := hsp
    have hlast : slice template.toList s.last_param_end template.toList.length =
        .ok (.ofList (template.toList.drop s.last_param_end)) := by
      rw [slice, if_pos ⟨hen, Nat.le_refl _⟩, take_length]
    dsimp only
    rw [hs]
    change (do
      let last ← slice template.toList s.last_param_end template.toList.length
      .ok (⟨s.fragments ++ [last], s.params⟩ : QueryTemplate)) = _
    rw [hlast, hpa]
    change Except.ok (⟨s.fragments ++ [_], _⟩ : QueryTemplate) = _
    rw [hf]
    rfl

/-! ## The statement -/

/-- The value that a path names. A bare scope names none. -/
def value_at (exchange : Exchange) (name : String) : Option Value :=
  match ExchangeLookupPath.parse name with
  | .error _ => none
  | .ok (.Body []) => none
  | .ok path => path.lookup exchange

def slot_values (exchange : Exchange) : ParamSlot → Option (List Value)
  | .Positional index => ((body_array exchange).bind (·[index]?)).map ([·])
  | .Named name | .Expression name => (value_at exchange name).map ([·])
  | .InClause name =>
    match value_at exchange name with
    | some (.Array values) => some values
    | _ => none

/-- A part of a statement. -/
inductive SqlPart where
  | text (s : String)
  | placeholder (number : Nat)

def SqlPart.to_string : SqlPart → String
  | .text s => s
  | .placeholder number => s!"${number}"

def SqlPart.number? : SqlPart → Option Nat
  | .text _ => none
  | .placeholder number => some number

def sql_text (ps : List SqlPart) : String := String.join (ps.map SqlPart.to_string)

/-- What stands for a slot of this many values: the next numbers, and `NULL` for an IN clause
without values. -/
def numbered (in_separator : String) (next width : Nat) : ParamSlot → List SqlPart
  | .InClause _ =>
    if width = 0 then [.text "NULL"]
    else ((List.range' next width).map SqlPart.placeholder).intersperse (.text in_separator)
  | _ => (List.range' next width).map .placeholder

/-- The statement of a template, from the number of values of each slot. -/
def statement (in_separator : String) : Nat → List Part → List Nat → List SqlPart
  | _, [], _ => []
  | next, .text source :: ps, widths =>
    .text (.ofList source) :: statement in_separator next ps widths
  | next, .slot _ param :: ps, widths =>
    numbered in_separator next (widths.headD 1) param ++
      statement in_separator (next + widths.headD 1) ps widths.tail

@[simp] theorem sql_text_append (ps qs : List SqlPart) :
    sql_text (ps ++ qs) = sql_text ps ++ sql_text qs := by
  simp [sql_text]

@[simp] theorem sql_text_text (s : String) (ps : List SqlPart) :
    sql_text (.text s :: ps) = s ++ sql_text ps := by
  simp [sql_text, SqlPart.to_string]

theorem resolve_named_param_ok {name : String} (h : resolve_named_param name exchange = .ok value) :
    value_at exchange name = some value := by
  unfold resolve_named_param at h
  split at h
  · cases h
  · cases h
  · rename_i path hb hp
    split at h
    · rename_i found hl
      obtain rfl : found = value := by simpa using h
      simp only [value_at, hp, hl]
    · cases h

theorem resolve_expression_param_ok {expr : String}
    (h : resolve_expression_param expr exchange = .ok value) :
    value_at exchange expr = some value := by
  unfold resolve_expression_param at h
  split at h
  · cases h
  · cases h
  · rename_i path hb hp
    split at h
    · rename_i found hl
      obtain rfl : found = value := by simpa using h
      simp only [value_at, hp, hl]
    · cases h

theorem sql_text_intersperse (in_separator : String) (numbers : List Nat) :
    sql_text ((numbers.map SqlPart.placeholder).intersperse (.text in_separator)) =
      in_separator.intercalate (numbers.map fun k => s!"${k}") := by
  induction numbers with
  | nil => rfl
  | cons k numbers ih =>
    cases numbers with
    | nil => simp [sql_text, SqlPart.to_string]
    | cons k' numbers =>
      simp only [map_cons, intersperse_cons_cons, String.intercalate_cons_cons] at ih ⊢
      have hc (k : Nat) (ps : List SqlPart) :
          sql_text (.placeholder k :: ps) = s!"${k}" ++ sql_text ps := by
        simp [sql_text, SqlPart.to_string]
      rw [hc, sql_text_text, ih]
      simp only [String.append_assoc]

theorem resolve_param_spec {n n' : Numbering}
    (h : resolve_param exchange in_separator n param = .ok n') :
    ∃ values, slot_values exchange param = some values ∧ n'.bindings = n.bindings ++ values ∧
      n'.placeholder_num = n.placeholder_num + values.length ∧
      String.join n'.sql_parts = String.join n.sql_parts ++
        sql_text (numbered in_separator n.placeholder_num values.length param) := by
  have ho (value : Value) : String.join (n.bind_value value).sql_parts =
      String.join n.sql_parts ++ sql_text ((List.range' n.placeholder_num 1).map .placeholder) := by
    simp [Numbering.bind_value, sql_text, SqlPart.to_string]
  cases param with
  | Positional index =>
    simp only [resolve_param] at h
    split at h
    · cases h
    · rename_i arr ha
      split at h
      · cases h
      · rename_i value hv
        obtain rfl : n.bind_value value = n' := by simpa using h
        exact ⟨[value], by simp [slot_values, ha, hv], rfl, rfl, ho value⟩
  | Named name =>
    simp only [resolve_param] at h
    cases hv : resolve_named_param name exchange with
    | error e => rw [hv] at h; cases h
    | ok value =>
      rw [hv] at h
      obtain rfl : n.bind_value value = n' := by simpa using h
      exact ⟨[value], by simp [slot_values, resolve_named_param_ok hv], rfl, rfl, ho value⟩
  | Expression expr =>
    simp only [resolve_param] at h
    cases hv : resolve_expression_param expr exchange with
    | error e => rw [hv] at h; cases h
    | ok value =>
      rw [hv] at h
      obtain rfl : n.bind_value value = n' := by simpa using h
      exact ⟨[value], by simp [slot_values, resolve_expression_param_ok hv], rfl, rfl, ho value⟩
  | InClause name =>
    simp only [resolve_param] at h
    cases hv : resolve_named_param name exchange with
    | error e => rw [hv] at h; cases h
    | ok value =>
      rw [hv] at h
      dsimp only [bind, Except.bind] at h
      have hat := resolve_named_param_ok hv
      split at h
      · obtain rfl : n.part "NULL" = n' := by simpa using h
        refine ⟨[], by simp [slot_values, hat], by simp [Numbering.part], rfl, ?_⟩
        simp [Numbering.part, numbered, sql_text]
        rfl
      · rename_i arr hn
        obtain rfl : n.bind_list in_separator arr = n' := by simpa using h
        have hw : arr.length ≠ 0 := by
          intro hzero
          exact hn (by rw [eq_nil_of_length_eq_zero hzero])
        refine ⟨arr, by simp [slot_values, hat], rfl, rfl, ?_⟩
        rw [numbered, if_neg hw, sql_text_intersperse]
        simp [Numbering.bind_list]
      · cases h

theorem slots_slot (source : List Char) (param : ParamSlot) (ps : List Part) :
    slots (.slot source param :: ps) = param :: slots ps := rfl

theorem resolveLoop_spec {fragments : List String} {n' : Numbering} :
    ∀ (ps : List Part) (pending : List Char) (i : Nat) (n : Numbering),
    fragments.drop i = texts pending ps →
    resolveLoop fragments exchange in_separator i n (slots ps) = .ok n' →
    ∃ values : List (List Value), (slots ps).map (slot_values exchange) = values.map some ∧
      n'.bindings = n.bindings ++ values.flatten ∧
      String.join (n'.sql_parts ++ [fragments.getLast?.getD ""]) =
        String.join n.sql_parts ++ .ofList pending ++
          sql_text (statement in_separator n.placeholder_num ps (values.map List.length))
  | [], pending, i, n, hd, h => by
    obtain rfl : n = n' := by simpa [slots, resolveLoop] using h
    have hlast : fragments.getLast? = some (.ofList pending) := by
      have := congrArg List.getLast? hd
      rw [getLast?_drop] at this
      split at this
      · cases this
      · simpa [texts] using this
    refine ⟨[], rfl, by simp, ?_⟩
    simp [hlast, statement, sql_text]
  | .text source :: ps, pending, i, n, hd, h => by
    obtain ⟨values, hv, hb, ht⟩ := resolveLoop_spec ps (pending ++ source) i n hd h
    refine ⟨values, hv, hb, ?_⟩
    rw [ht, statement, sql_text_text, String.ofList_append]
    simp only [String.append_assoc]
  | .slot source param :: ps, pending, i, n, hd, h => by
    have hf : fragments[i]? = some (.ofList pending) := by
      rw [← head?_drop, hd]
      rfl
    have hr : fragments.drop (i + 1) = texts [] ps := by
      rw [← drop_drop, hd]
      rfl
    rw [slots_slot, resolveLoop, hf] at h
    simp only at h
    split at h
    · cases h
    · rename_i n₁ hp
      obtain ⟨first, hfi, hbound, hn, hs⟩ := resolve_param_spec hp
      obtain ⟨values, hv, hb, ht⟩ := resolveLoop_spec ps [] (i + 1) n₁ hr h
      refine ⟨first :: values, ?_, ?_, ?_⟩
      · rw [slots_slot, map_cons, map_cons, hfi, hv]
      · rw [hb, hbound]
        simp [Numbering.part]
      · rw [ht, hs, hn]
        simp [statement, Numbering.part, String.append_assoc]

theorem numbers_of_numbered (in_separator : String) (next width : Nat) (param : ParamSlot) :
    (numbered in_separator next width param).filterMap SqlPart.number? =
      List.range' next width := by
  have hp (numbers : List Nat) :
      (numbers.map SqlPart.placeholder).filterMap SqlPart.number? = numbers := by
    rw [filterMap_map]
    exact filterMap_some
  have hi (numbers : List Nat) :
      ((numbers.map SqlPart.placeholder).intersperse (.text in_separator)).filterMap
        SqlPart.number? = numbers := by
    induction numbers with
    | nil => rfl
    | cons k numbers ih =>
      cases numbers with
      | nil => rfl
      | cons k' numbers =>
        simp only [map_cons, intersperse_cons_cons] at ih ⊢
        simpa [filterMap_cons, SqlPart.number?] using ih
  cases param with
  | InClause name =>
    rw [numbered]
    split
    · rename_i hzero
      rw [hzero]
      rfl
    · exact hi _
  | Positional _ | Named _ | Expression _ => exact hp _

theorem numbers_of_statement (in_separator : String) : ∀ (ps : List Part) (next : Nat)
    (widths : List Nat), widths.length = (slots ps).length →
    (statement in_separator next ps widths).filterMap SqlPart.number? = List.range' next widths.sum
  | [], next, widths, hlen => by
    obtain rfl : widths = [] := eq_nil_of_length_eq_zero hlen
    rfl
  | .text source :: ps, next, widths, hlen => by
    rw [statement, filterMap_cons]
    exact numbers_of_statement in_separator ps next widths hlen
  | .slot source param :: ps, next, widths, hlen => by
    cases widths with
    | nil => simp [slots_slot] at hlen
    | cons width widths =>
      rw [statement, filterMap_append, numbers_of_numbered]
      rw [headD_cons, tail_cons,
        numbers_of_statement in_separator ps (next + width) widths
          (by simpa [slots_slot] using hlen), sum_cons]
      exact range'_append_1

/-- What a prepared statement is made of. -/
structure Prepared (ps : List Part) (exchange : Exchange) (in_separator : String)
    (q : PreparedQuery) (values : List (List Value)) : Prop where
  /-- Each slot has its own values, in the order of the slots. -/
  values_eq : (slots ps).map (slot_values exchange) = values.map some
  /-- The statement is the template with numbers in its slots. -/
  sql_eq : q.sql = sql_text (statement in_separator 1 ps (values.map List.length))
  /-- The bindings are the values. -/
  bindings_eq : q.bindings = values.flatten
  /-- There is one number for each binding, from one on. -/
  numbers_eq : (statement in_separator 1 ps (values.map List.length)).filterMap SqlPart.number? =
    List.range' 1 q.bindings.length

theorem prepared_of_resolve_params {ps : List Part} {q : PreparedQuery}
    (h : resolve_params ⟨texts [] ps, slots ps⟩ exchange in_separator = .ok q) :
    ∃ values, Prepared ps exchange in_separator q values := by
  unfold resolve_params at h
  cases hl : resolveLoop (texts [] ps) exchange in_separator 0 ⟨[], [], 1⟩ (slots ps) with
  | error e =>
    simp only [hl] at h
    cases h
  | ok n =>
    simp only [hl] at h
    obtain rfl : (⟨String.join (n.sql_parts ++ [(texts [] ps).getLast?.getD ""]), n.bindings⟩ :
        PreparedQuery) = q := Except.ok.inj h
    obtain ⟨values, hv, hb, ht⟩ := resolveLoop_spec ps [] 0 _ rfl hl
    have hlen : (values.map List.length).length = (slots ps).length := by
      have := congrArg List.length hv
      simpa using this.symm
    refine ⟨values, hv, ?_, ?_, ?_⟩
    · rw [ht]
      simp
    · rw [hb]
      rfl
    · rw [numbers_of_statement in_separator ps 1 _ hlen, hb]
      simp

theorem slot_values_length {values : List Value} (h : slot_values exchange param = some values)
    (hi : ∀ name, param ≠ .InClause name) : values.length = 1 := by
  cases param with
  | InClause name => exact absurd rfl (hi name)
  | Positional _ | Named _ | Expression _ =>
    simp only [slot_values, map_eq_some_iff] at h
    obtain ⟨value, -, rfl⟩ := h
    rfl

/-- The numbers of values of the slots are fixed by the lengths of the IN lists. -/
theorem widths_eq {exchange' : Exchange} : ∀ {params : List ParamSlot}
    {values values' : List (List Value)},
    params.map (slot_values exchange) = values.map some →
    params.map (slot_values exchange') = values'.map some →
    (∀ name, .InClause name ∈ params →
      (slot_values exchange (.InClause name)).map List.length =
        (slot_values exchange' (.InClause name)).map List.length) →
    values.map List.length = values'.map List.length
  | [], values, values', h, h', _ => by
    obtain rfl : values = [] := by simpa using h.symm
    obtain rfl : values' = [] := by simpa using h'.symm
    rfl
  | param :: params, values, values', h, h', hi => by
    cases values with
    | nil => simp at h
    | cons first values =>
      cases values' with
      | nil => simp at h'
      | cons first' values' =>
        simp only [map_cons, List.cons.injEq] at h h' ⊢
        refine ⟨?_, widths_eq h.2 h'.2 fun name hn => hi name (.tail _ hn)⟩
        by_cases hc : ∃ name, param = .InClause name
        · obtain ⟨name, rfl⟩ := hc
          have hlen := hi name mem_cons_self
          rw [h.1, h'.1] at hlen
          simpa using hlen
        · have ho : ∀ name, param ≠ .InClause name := fun name heq => hc ⟨name, heq⟩
          rw [slot_values_length h.1 ho, slot_values_length h'.1 ho]

/-- For an accepted template, the statement is the template with the next numbers in its slots,
the bindings are the values of the slots, and two exchanges with IN lists of equal lengths get
the same text. -/
theorem sql_text_does_not_depend_on_message_data (template : String) (tpl : QueryTemplate)
    (htpl : parse_query_template template '#' = .ok tpl) :
    ∃ ps, parts_of template = some ps ∧ ps.flatMap Part.source = template.toList ∧
      tpl.params = slots ps ∧
      (∀ exchange in_separator q, resolve_params tpl exchange in_separator = .ok q →
        ∃ values, Prepared ps exchange in_separator q values) ∧
      ∀ exchange exchange' in_separator q q',
        resolve_params tpl exchange in_separator = .ok q →
        resolve_params tpl exchange' in_separator = .ok q' →
        (∀ name, .InClause name ∈ tpl.params →
          (slot_values exchange (.InClause name)).map List.length =
            (slot_values exchange' (.InClause name)).map List.length) →
        q.sql = q'.sql := by
  have hs := parse_query_template_eq template
  cases hp : parts_of template with
  | none =>
    simp only [hp, htpl] at hs
    obtain ⟨e, he⟩ := hs
    cases he
  | some ps =>
    simp only [hp, htpl] at hs
    obtain rfl : tpl = ⟨texts [] ps, slots ps⟩ := Except.ok.inj hs
    refine ⟨ps, rfl, source_of_parts _ _ _ ps le_rfl hp, rfl,
      fun exchange in_separator q h => prepared_of_resolve_params h, ?_⟩
    intro exchange exchange' in_separator q q' h h' hi
    obtain ⟨values, hq⟩ := prepared_of_resolve_params h
    obtain ⟨values', hq'⟩ := prepared_of_resolve_params h'
    rw [hq.sql_eq, hq'.sql_eq, widths_eq hq.values_eq hq'.values_eq hi]

/-- A literal with a doubled quote, an IN clause and a cast behind a name. -/
def order_query : String := "SELECT 'it''s :#x' WHERE id IN (:#in:ids) AND n = :#n::text"

def order_template : QueryTemplate :=
  ⟨["SELECT 'it''s :#x' WHERE id IN (", ") AND n = ", "::text"], [.InClause "ids", .Named "n"]⟩

def order_exchange : Exchange :=
  .new { headers := fun _ => none,
         body := .Json (.Object [("ids", .Array [.Bool true, .Null]), ("n", .String "1; DROP")]) }

theorem order_query_is_numbered : ∃ ps q values,
    parts_of order_query = some ps ∧
      resolve_params order_template order_exchange ", " = .ok q ∧
      Prepared ps order_exchange ", " q values ∧
      q.sql = "SELECT 'it''s :#x' WHERE id IN ($1, $2) AND n = $3::text" := by
  have ht : parse_query_template order_query '#' = .ok order_template := by rfl
  have hr : resolve_params order_template order_exchange ", " =
      .ok ⟨"SELECT 'it''s :#x' WHERE id IN ($1, $2) AND n = $3::text",
        [.Bool true, .Null, .String "1; DROP"]⟩ := by rfl
  obtain ⟨ps, hps, -, -, hp, -⟩ :=
    sql_text_does_not_depend_on_message_data order_query order_template ht
  obtain ⟨values, hv⟩ := hp _ _ _ hr
  exact ⟨ps, _, values, hps, hr, hv, rfl⟩

end camel_component_sql.query
