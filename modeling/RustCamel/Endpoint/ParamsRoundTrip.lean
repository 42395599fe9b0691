-- When `parse_uri` reads the parameters back that `EndpointUri` wrote. The escapes hold, but
-- the value of a sensitive key is read without decoding it, a `RAW(` that stays open takes the
-- next pairs with it, and a character of more than one byte makes the parser panic.
import Mathlib.Data.List.Forall2
import Mathlib.Data.List.Perm.Subperm
import RustCamel.Endpoint.EndpointUri
import RustCamel.Lib.Fallible

namespace camel_api.endpoint_uri

open camel_core.lifecycle (Outcome)
open camel_endpoint.uri List Option

/-! ## Where a `RAW(` stands open -/

/-- How many `RAW(` are open after a text, as `split_query_pairs` counts them. -/
def raw_depth (depth : Nat) : List Char → Nat
  | [] => depth
  | 'R' :: 'A' :: 'W' :: '(' :: rest => raw_depth (depth + 1) rest
  | c :: rest =>
    if c = ')' ∧ 0 < depth then raw_depth (depth - 1) rest else raw_depth depth rest

/-- A text after which no `RAW(` goes on. -/
def Breaks (rest : List Char) : Prop := ∀ c ∈ rest.head?, c ∉ "AW(".toList

theorem not_raw_append {c : Char} {text rest : List Char} (hbreak : Breaks rest)
    (hraw : ∀ more, c = 'R' → text = 'A' :: 'W' :: '(' :: more → False) :
    ∀ more, c = 'R' → text ++ rest = 'A' :: 'W' :: '(' :: more → False := by
  intro more hc heq
  have hhead : ∀ d ∈ "AW(".toList, ∀ more, rest ≠ d :: more := by
    rintro d hd more rfl
    exact hbreak d rfl hd
  rcases text with _ | ⟨a, _ | ⟨w, _ | ⟨p, text⟩⟩⟩
  · exact hhead 'A' (by decide) _ heq
  · simp only [cons_append, nil_append, List.cons.injEq] at heq
    exact hhead 'W' (by decide) _ heq.2
  · simp only [cons_append, nil_append, List.cons.injEq] at heq
    exact hhead '(' (by decide) _ heq.2.2
  · simp only [cons_append, List.cons.injEq] at heq
    obtain ⟨rfl, rfl, rfl, -⟩ := heq
    exact hraw text hc rfl

theorem raw_depth_append (depth : Nat) (text : List Char) {rest : List Char}
    (hb : Breaks rest) :
    raw_depth depth (text ++ rest) = raw_depth (raw_depth depth text) rest := by
  fun_induction raw_depth depth text with
  | case1 => rfl
  | case2 depth text ih =>
    rw [cons_append, cons_append, cons_append, cons_append, raw_depth, ih]
  | case3 depth c text hr hc ih =>
    rw [cons_append, raw_depth.eq_3 _ _ _ (not_raw_append hb hr), if_pos hc, ih]
  | case4 depth c text hr hc ih =>
    rw [cons_append, raw_depth.eq_3 _ _ _ (not_raw_append hb hr), if_neg hc, ih]

/-- The loop of `split_query_pairs` goes over a text without `&` in one go. -/
theorem splitLoop_append (pair : List Char) (depth : Nat) {text rest : List Char}
    (ha : ∀ c ∈ text, c.toNat < 128) (ham : '&' ∉ text) (hb : Breaks rest) :
    splitLoop pair depth (text ++ rest) = splitLoop (pair ++ text) (raw_depth depth text) rest := by
  fun_induction raw_depth depth text generalizing pair with
  | case1 => rw [nil_append, append_nil]
  | case2 depth text ih =>
    simp only [mem_cons, not_or] at ha ham
    rw [cons_append, cons_append, cons_append, cons_append, splitLoop,
      ih _ (fun c hc => ha c (by simp [hc])) ham.2.2.2.2]
    simp
  | case3 depth c text hr hcl ih =>
    simp only [mem_cons, not_or] at ham
    have hs : ¬ 128 ≤ c.toNat := Nat.not_le_of_lt (ha c mem_cons_self)
    rw [cons_append, splitLoop.eq_3 _ _ _ _ (not_raw_append hb hr), if_neg hs,
      if_pos hcl, ih _ (fun d hd => ha d (.tail _ hd)) ham.2]
    simp
  | case4 depth c text hr hcl ih =>
    simp only [mem_cons, not_or] at ham
    have hs : ¬ 128 ≤ c.toNat := Nat.not_le_of_lt (ha c mem_cons_self)
    rw [cons_append, splitLoop.eq_3 _ _ _ _ (not_raw_append hb hr), if_neg hs,
      if_neg hcl, if_neg (fun h => ham.1 h.1.symm),
      ih _ (fun d hd => ha d (.tail _ hd)) ham.2]
    simp

/-! ## The pairs of a query -/

/-- The texts of a query joined by `&`. -/
def joined (texts : List (List Char)) : List Char := texts.flatMap ('&' :: ·)

theorem breaks_joined (texts : List (List Char)) : Breaks (joined texts) := by
  cases texts with
  | nil => simp [Breaks, joined]
  | cons text texts =>
    intro c hc
    obtain rfl : '&' = c := some.inj hc
    decide

def Closed (depth : Nat) (text : List Char) : List (List Char) → Prop
  | [] => True
  | next :: texts => raw_depth depth text = 0 ∧ Closed 0 next texts

/-- A query splits into its texts if every `RAW(` is closed in its own text, and into fewer
pairs if not. -/
theorem splitLoop_joined (pair : List Char) (depth : Nat) (text : List Char)
    (texts pairs : List (List Char)) (ha : ∀ t ∈ text :: texts, ∀ c ∈ t, c.toNat < 128)
    (ham : ∀ t ∈ text :: texts, '&' ∉ t)
    (hs : splitLoop pair depth (text ++ joined texts) = some pairs) :
    (Closed depth text texts → pairs = (pair ++ text) :: texts) ∧
      (¬ Closed depth text texts → pairs.length < texts.length + 1) ∧
      pairs.length ≤ texts.length + 1 := by
  induction texts generalizing pair depth text pairs with
  | nil =>
    rw [splitLoop_append _ _ (ha text (by simp)) (ham text (by simp)) (breaks_joined [])]
      at hs
    obtain rfl : [pair ++ text] = pairs := some.inj hs
    exact ⟨fun _ => rfl, fun h => absurd trivial h, le_refl _⟩
  | cons next texts ih =>
    have ha' : ∀ t ∈ next :: texts, ∀ c ∈ t, c.toNat < 128 :=
      fun t ht => ha t (.tail _ ht)
    have ham' : ∀ t ∈ next :: texts, '&' ∉ t := fun t ht => ham t (.tail _ ht)
    rw [splitLoop_append _ _ (ha text (by simp)) (ham text (by simp)) (breaks_joined _)]
      at hs
    have hn : joined (next :: texts) = '&' :: (next ++ joined texts) := rfl
    rw [hn, splitLoop.eq_3 _ _ _ _ (by simp), if_neg (by decide), if_neg (by simp)] at hs
    by_cases hd : raw_depth depth text = 0
    · rw [hd, if_pos ⟨rfl, rfl⟩, Option.map_eq_map, map_eq_some_iff] at hs
      obtain ⟨rest, hr, rfl⟩ := hs
      obtain ⟨hal, hf, hle⟩ := ih _ _ _ _ ha' ham' hr
      simp only [Closed, hd, true_and, length_cons]
      refine ⟨fun h => by rw [hal h, nil_append], fun h => ?_, by omega⟩
      have := hf h
      omega
    · rw [if_neg (fun h => hd h.2)] at hs
      obtain ⟨-, -, hle⟩ := ih _ _ _ _ ha' ham' hs
      simp only [Closed, hd, false_and, length_cons]
      exact ⟨fun h => h.elim, fun _ => by omega, by omega⟩

/-! ## What the escapes leave alone -/

theorem start_of_percent_encoded (start : List Char) (h : ∀ c ∈ start, is_reserved c = false)
    {value : List Char} :
    (∃ rest, percent_encoded value = start ++ rest) ↔ ∃ rest, value = start ++ rest := by
  induction start generalizing value with
  | nil => simp
  | cons c start ih =>
    have hs : ∀ d ∈ start, is_reserved d = false :=
      fun d hd => h d (.tail _ hd)
    have hp := h c mem_cons_self
    cases value with
    | nil => simp [percent_encoded]
    | cons d value =>
      rw [percent_encoded_cons]
      rcases percent_encoded_char_cases d with ⟨-, hc⟩ | ⟨hr, hi, -, lo, -, hc, -⟩
      · rw [hc]
        simp only [cons_append, nil_append, List.cons.injEq, exists_and_left]
        rw [ih hs]
      · have hn : d ≠ c := by
          rintro rfl
          rw [hp] at hr
          cases hr
        have hpe : '%' ≠ c := by
          rintro rfl
          cases hp
        rw [hc]
        simp [hn, hpe]

variable {c : Char} {params : OrdMap String String} {texts : List (List Char)} {query : List Char}
  {value : String} {rows : List (String × String)} {base : String}

theorem percent_encoded_plain (h : is_reserved c = false) (rest : List Char) :
    percent_encoded (c :: rest) = c :: percent_encoded rest := by
  rw [percent_encoded_cons, percent_encoded_char_eq h, singleton_append]

theorem raw_depth_char {c : Char} {depth : Nat} {rest : List Char}
    (h : ∀ more, c = 'R' → rest = 'A' :: 'W' :: '(' :: more → False) :
    raw_depth depth (c :: rest) =
      if c = ')' ∧ 0 < depth then raw_depth (depth - 1) rest else raw_depth depth rest :=
  raw_depth.eq_3 _ _ _ h

theorem raw_depth_skip {c : Char} (h : c ∉ "R)".toList) (depth : Nat) (rest : List Char) :
    raw_depth depth (c :: rest) = raw_depth depth rest := by
  have hr : c ≠ 'R' := by
    rintro rfl
    exact h (by decide)
  have hclose : c ≠ ')' := by
    rintro rfl
    exact h (by decide)
  rw [raw_depth.eq_3 _ _ _ (fun _ hc => absurd hc hr), if_neg (fun h => hclose h.1)]

/-- Escapes do not open or close a `RAW(`. -/
theorem raw_depth_percent_encoded (depth : Nat) (value : List Char) :
    raw_depth depth (percent_encoded value) = raw_depth depth value := by
  fun_induction raw_depth depth value with
  | case1 => rfl
  | case2 depth rest ih =>
    rw [percent_encoded_plain (by decide),
      percent_encoded_plain (by decide),
      percent_encoded_plain (by decide),
      percent_encoded_plain (by decide), raw_depth, ih]
  | case3 depth c rest hr hcl ih =>
    obtain ⟨rfl, hp⟩ := hcl
    rw [percent_encoded_plain (by decide),
      raw_depth.eq_3 _ _ _ (fun _ hc => by cases hc), if_pos ⟨rfl, hp⟩, ih]
  | case4 depth c rest hr hcl ih =>
    rw [percent_encoded_cons]
    rcases percent_encoded_char_cases c with ⟨-, hch⟩ | ⟨-, hi, hh, lo, hl, hch, -⟩
    · -- no `RAW(` can begin at a character where none began before
      have hr' : ∀ more, c = 'R' → percent_encoded rest = 'A' :: 'W' :: '(' :: more → False := by
        intro more hc heq
        obtain ⟨tail, ht⟩ := (start_of_percent_encoded "AW(".toList
          (@of_decide_eq_true _ (decidableBAll _ _) rfl)).mp ⟨more, heq⟩
        exact hr tail hc ht
      rw [hch, singleton_append, raw_depth.eq_3 _ _ _ hr', if_neg hcl, ih]
    · have hd : ∀ d ∈ escape_digits, d ∉ "R)".toList :=
        @of_decide_eq_true _ (decidableBAll _ _) rfl
      rw [hch, cons_append, cons_append, cons_append, nil_append,
        raw_depth_skip (by decide), raw_depth_skip (hd hi hh), raw_depth_skip (hd lo hl),
        ih]

section

variable (value : List Char)

theorem last_of_percent_encoded :
    (percent_encoded value).getLast? = some ')' ↔ value.getLast? = some ')' := by
  rcases eq_nil_or_concat value with rfl | ⟨front, c, rfl⟩
  · rfl
  · have hencoded : percent_encoded (front ++ [c]) =
        percent_encoded front ++ percent_encoded_char c := by
      simp [percent_encoded, flatMap_append]
    rw [concat_eq_append, hencoded]
    rcases percent_encoded_char_cases c with ⟨-, hchar⟩ | ⟨hreserved, hi, -, lo, hlo, hchar, -⟩
    · rw [hchar]
      simp
    · have hdigit : ∀ d ∈ escape_digits, d ≠ ')' := @of_decide_eq_true _ (decidableBAll _ _) rfl
      have hne : c ≠ ')' := by
        rintro rfl
        cases hreserved
      rw [hchar]
      simp [hdigit lo hlo, hne]

theorem is_raw_value_iff :
    is_raw_value value = true ↔
      (∃ rest, value = "RAW(".toList ++ rest) ∧ value.getLast? = some ')' := by
  simp only [is_raw_value, Bool.and_eq_true, List.isPrefixOf_iff_prefix, List.isSuffixOf_iff_suffix]
  rw [← singleton_suffix_iff_getLast?_eq_some]
  constructor
  all_goals
    rintro ⟨⟨rest, hr⟩, hlast⟩
    exact ⟨⟨rest, hr.symm⟩, hlast⟩

theorem is_raw_value_percent_encoded :
    is_raw_value (percent_encoded value) = is_raw_value value := by
  apply Bool.eq_iff_iff.mpr
  rw [is_raw_value_iff, is_raw_value_iff, last_of_percent_encoded,
    start_of_percent_encoded "RAW(".toList (@of_decide_eq_true _ (decidableBAll _ _) rfl)]

end

/-! ## The value of a row -/

def HasReserved (value : String) : Prop := ∃ c ∈ value.toList, is_reserved c = true

/-- The parser reads a value back. A sensitive key has no escapes and loses a `RAW(..)`
around its value, and a `RAW(..)` under another key is not decoded. -/
def ValueSurvives (key value : String) : Prop :=
  (is_sensitive_key key = true → ¬ HasReserved value ∧ is_raw_value value.toList = false) ∧
    (is_raw_value value.toList = true → ¬ HasReserved value)

theorem percent_encoded_eq_iff_not_reserved (value : String) :
    String.ofList (percent_encoded value.toList) = value ↔ ¬ HasReserved value := by
  rw [String.ofList_eq, percent_encoded_eq_iff]
  unfold HasReserved
  simp

theorem unwrap_raw_percent_encoded_ne (hra : is_raw_value value.toList = true) :
    String.ofList (unwrap_raw (percent_encoded value.toList)) ≠ value := by
  intro heq
  rw [String.ofList_eq, unwrap_raw, is_raw_value_percent_encoded, if_pos hra] at heq
  -- `RAW()` has five characters, and escapes add an even number
  obtain ⟨k, hk, -⟩ := length_percent_encoded value.toList
  obtain ⟨⟨rest, hr⟩, -⟩ := (is_raw_value_iff _).mp hra
  have hl := congrArg List.length heq
  have hf := congrArg List.length hr
  rw [length_dropLast, length_drop, hk] at hl
  rw [length_append] at hf
  change _ = 4 + _ at hf
  omega

theorem parsed_value_percent_encoded {key : String} (h : ∀ c ∈ value.toList, c.toNat < 128) :
    parsed_value key (percent_encoded value.toList) = .ok value ↔ ValueSurvives key value := by
  unfold parsed_value ValueSurvives
  rw [is_raw_value_percent_encoded]
  by_cases hr : is_raw_value value.toList = true
  · by_cases hk : is_sensitive_key key = true
    · simp only [hr, hk, if_true, Except.ok.injEq, Bool.true_eq_false, and_false,
        forall_const, false_and, iff_false]
      exact unwrap_raw_percent_encoded_ne hr
    · simp only [hr, hk, if_true, if_false, Except.ok.injEq, Bool.false_eq_true,
        false_implies, forall_const, true_and]
      exact percent_encoded_eq_iff_not_reserved value
  · by_cases hk : is_sensitive_key key = true
    · simp only [hr, hk, if_true, if_false, Except.ok.injEq, Bool.false_eq_true,
        false_implies, forall_const, and_true]
      exact percent_encoded_eq_iff_not_reserved value
    · simp only [hr, hk, if_false, Bool.false_eq_true, false_implies, and_true, iff_true]
      rw [percent_decode_percent_encoded h, String.ofList_toList]

/-! ## The rows of the map -/

section

variable (row : String × String)

/-- The text of a row in the canonical rendering. -/
def row_text : List Char := row.1.toList ++ '=' :: percent_encoded row.2.toList

theorem key_not_reserved {key : String} (h : is_invalid_key key = false) (hc : c ∈ key.toList) :
    is_reserved c = false := by
  simp only [is_invalid_key, Bool.or_eq_false_iff, List.any_eq_false, Bool.not_eq_true] at h
  exact h.2 c hc

theorem not_reserved_of_not_ascii (h : 128 ≤ c.toNat) : is_reserved c = false := by
  rw [← Bool.not_eq_true]
  intro hr
  simp only [is_reserved, Bool.or_eq_true, decide_eq_true_eq] at hr
  rcases hr with (((((rfl | rfl) | rfl) | rfl) | rfl) | rfl) | rfl <;> revert h <;> decide

theorem amp_not_mem_row_text {row : String × String} (h : is_invalid_key row.1 = false) :
    '&' ∉ row_text row := by
  intro hm
  rcases mem_append.mp hm with hm | hm
  · exact absurd (key_not_reserved h hm) (by decide)
  · rcases mem_cons.mp hm with hm | hm
    · cases hm
    · rcases mem_percent_encoded hm with ⟨-, hp⟩ | hm | hm
      · cases hp
      · cases hm
      · revert hm
        decide

def AsciiRow : Prop := ∀ c ∈ row.1.toList ++ row.2.toList, c.toNat < 128

theorem ascii_row_text_iff : (∀ c ∈ row_text row, c.toNat < 128) ↔ AsciiRow row := by
  constructor
  · intro h c hc
    by_contra hb
    rcases mem_append.mp hc with hc | hc
    · exact hb (h c (mem_append_left _ hc))
    · have hp := not_reserved_of_not_ascii (Nat.le_of_not_lt hb)
      have hm := mem_percent_encoded_of_mem hc hp
      exact hb (h c (mem_append_right _ (.tail _ hm)))
  · intro h c hc
    rcases mem_append.mp hc with hc | hc
    · exact h c (mem_append_left _ hc)
    · rcases mem_cons.mp hc with rfl | hc
      · decide
      · rcases mem_percent_encoded hc with ⟨hc, -⟩ | rfl | hc
        · exact h c (mem_append_right _ hc)
        · decide
        · exact @of_decide_eq_true (∀ d ∈ escape_digits, d.toNat < 128) (decidableBAll _ _) rfl c hc

/-- How many `RAW(` a row leaves open. -/
def open_after : Nat := raw_depth 0 (row.1.toList ++ '=' :: row.2.toList)

theorem raw_depth_row_text : raw_depth 0 (row_text row) = open_after row := by
  have hb : ∀ rest, Breaks ('=' :: rest) := by
    intro rest c hc
    obtain rfl : '=' = c := some.inj hc
    decide
  unfold row_text open_after
  rw [raw_depth_append _ _ (hb _), raw_depth_append _ _ (hb _),
    raw_depth_skip (by decide), raw_depth_skip (by decide), raw_depth_percent_encoded]

theorem closed_rows_iff (rows : List (String × String)) :
    Closed 0 (row_text row) (rows.map row_text) ↔
      ∀ r ∈ (row :: rows).dropLast, open_after r = 0 := by
  induction rows generalizing row with
  | nil => simp [Closed]
  | cons next rows ih =>
    rw [map_cons, Closed, raw_depth_row_text, ih, dropLast_cons_cons]
    simp only [mem_cons, forall_eq_or_imp]

/-! ## Reading the pairs -/

theorem length_parsePairs {params out : List (String × String)} {pairs : List (List Char)}
    (h : parsePairs params pairs = .ok out) : out.length = params.length + pairs.length := by
  induction pairs generalizing params with
  | nil =>
    obtain rfl : params = out := Except.ok.inj h
    rfl
  | cons pair pairs ih =>
    simp only [parsePairs] at h
    split at h
    · cases h
    · obtain ⟨key, -, h⟩ := Fallible.bind_eq_ok h
      split at h
      · cases h
      · obtain ⟨value, -, h⟩ := Fallible.bind_eq_ok h
        have := ih h
        simp only [length_append, length_cons, length_nil] at this ⊢
        omega

/-- The parser reads a value under the key of its row. -/
def ReadAs (read : String × String) : Prop :=
  read.1 = row.1 ∧ parsed_value row.1 (percent_encoded row.2.toList) = .ok read.2

end

theorem parsePairs_cons {params : List (String × String)} {row : String × String}
    (hk : is_invalid_key row.1 = false) (ha : AsciiRow row)
    (hf : params.lookup row.1 = none) (pairs : List (List Char)) :
    parsePairs params (row_text row :: pairs) =
      (parsed_value row.1 (percent_encoded row.2.toList)).bind fun value =>
        parsePairs (params ++ [(row.1, value)]) pairs := by
  have heq : '=' ∉ row.1.toList := fun h => absurd (key_not_reserved hk h) (by decide)
  have hd : percent_decode (.ofList row.1.toList) = .ok (.ofList row.1.toList) :=
    percent_decode_plain (fun c hc => ha c (mem_append_left _ hc))
      (fun c hc => key_not_reserved hk hc)
  rw [String.ofList_toList] at hd
  rw [parsePairs, row_text, split_once_append _ heq]
  simp only [String.ofList_toList, hd]
  change (if (params.lookup row.1).isSome = true then _ else _) = _
  rw [hf]
  rfl

theorem parsePairs_rows {params out : List (String × String)}
    (hk : ∀ row ∈ rows, is_invalid_key row.1 = false) (ha : ∀ row ∈ rows, AsciiRow row)
    (hf : ∀ row ∈ rows, params.lookup row.1 = none) (hn : (rows.map Prod.fst).Nodup) :
    parsePairs params (rows.map row_text) = .ok out ↔
      ∃ reads, out = params ++ reads ∧ List.Forall₂ ReadAs rows reads := by
  induction rows generalizing params with
  | nil =>
    simp only [map_nil, parsePairs, Except.ok.injEq]
    constructor
    · rintro rfl
      exact ⟨[], (append_nil _).symm, .nil⟩
    · rintro ⟨reads, rfl, hre⟩
      cases hre
      rw [append_nil]
  | cons row rows ih =>
    rw [map_cons, nodup_cons] at hn
    have hres : ∀ value, ∀ r ∈ rows, (params ++ [(row.1, value)]).lookup r.1 = none := by
      intro value r hr
      have hne : r.1 ≠ row.1 := by
        intro heq
        exact hn.1 (heq ▸ List.mem_map_of_mem hr)
      rw [lookup_append, hf r (.tail _ hr)]
      simp [lookup_cons, beq_false_of_ne hne]
    rw [map_cons, parsePairs_cons (hk row mem_cons_self)
      (ha row mem_cons_self) (hf row mem_cons_self)]
    constructor
    · intro h
      obtain ⟨value, hv, h⟩ := Fallible.bind_eq_ok h
      rw [ih (fun r hr => hk r (.tail _ hr))
        (fun r hr => ha r (.tail _ hr)) (hres value) hn.2] at h
      obtain ⟨reads, rfl, hre⟩ := h
      exact ⟨(row.1, value) :: reads, by simp, .cons ⟨rfl, hv⟩ hre⟩
    · rintro ⟨reads, rfl, hre⟩
      cases hre with
      | @cons _ read _ reads hrea hre =>
        obtain ⟨key, value⟩ := read
        obtain ⟨rfl, hv⟩ := hrea
        rw [hv]
        apply (ih (fun r hr => hk r (.tail _ hr))
          (fun r hr => ha r (.tail _ hr)) (hres value) hn.2).mpr
        exact ⟨reads, by simp, hre⟩

theorem lookup_eq_none_of_not_mem {key : String} (h : key ∉ rows.map Prod.fst) :
    rows.lookup key = none := by
  rw [lookup_eq_none_iff]
  intro row hr
  rw [bne_iff_ne]
  rintro rfl
  exact h (List.mem_map_of_mem hr)

theorem lookup_reads_iff {reads : List (String × String)}
    (hr : List.Forall₂ ReadAs rows reads) (hn : (rows.map Prod.fst).Nodup) :
    (∀ key, reads.lookup key = rows.lookup key) ↔
      ∀ row ∈ rows, parsed_value row.1 (percent_encoded row.2.toList) = .ok row.2 := by
  have hk : ∀ {rows reads}, List.Forall₂ ReadAs rows reads →
      reads.map Prod.fst = rows.map Prod.fst := by
    intro rows reads h
    induction h with
    | nil => rfl
    | cons hre _ ih => rw [map_cons, map_cons, hre.1, ih]
  induction hr with
  | nil => simp
  | @cons row read rows reads hre hr ih =>
    obtain ⟨_, stored⟩ := row
    obtain ⟨name, value⟩ := read
    obtain ⟨rfl, hv⟩ := hre
    rw [map_cons, nodup_cons] at hn
    have hnot : name ∉ reads.map Prod.fst := by
      rw [hk hr]
      exact hn.1
    rw [forall_mem_cons, hv]
    apply Iff.trans ?_ (and_congr Iff.rfl (ih hn.2))
    simp only [lookup_cons]
    constructor
    · intro h
      refine ⟨?_, ?_⟩
      · simpa using h name
      · intro key
        by_cases heq : key = name
        · rw [heq, lookup_eq_none_of_not_mem hnot, lookup_eq_none_of_not_mem hn.1]
        · simpa [beq_false_of_ne heq] using h key
    · rintro ⟨ho, h⟩ key
      by_cases heq : key = name
      · simpa [heq] using ho
      · simpa [beq_false_of_ne heq] using h key

/-! ## The round trip -/

/-- The map comes back from the query of its rows. -/
structure Survives (params : OrdMap String String) : Prop where
  ascii : ∀ row ∈ params.rows, AsciiRow row
  value : ∀ row ∈ params.rows, ValueSurvives row.1 row.2
  closed : ∀ row ∈ params.rows.dropLast, open_after row = 0

theorem nodup_keys (params : OrdMap String String) : (params.rows.map Prod.fst).Nodup := by
  apply pairwise_map.mpr
  exact params.sorted.imp fun h => ne_of_lt h

theorem get_eq_lookup (params : OrdMap String String) (key : String) :
    params.get key = params.rows.lookup key := by
  unfold OrdMap.get
  induction params.rows with
  | nil => rfl
  | cons row rows ih =>
    obtain ⟨name, value⟩ := row
    rw [find?_cons, lookup_cons]
    by_cases heq : key = name
    · simp [heq]
    · simp [beq_false_of_ne heq, Ne.symm heq, ih]

theorem split_of_ascii (h : ∀ c ∈ query, c.toNat < 128) :
    ∃ pairs, split_query_pairs query = some pairs := by
  rw [← isSome_iff_exists, ← not_isNone, Bool.not_eq_true', ← Bool.not_eq_true,
    isNone_iff_eq_none, split_query_pairs, splitLoop_eq_none_iff]
  rintro ⟨c, hc, hb⟩
  exact absurd (h c hc) (Nat.not_lt_of_le hb)

theorem mem_joined {text : List Char} :
    c ∈ text ++ joined texts → c = '&' ∨ ∃ t ∈ text :: texts, c ∈ t := by
  intro hc
  rcases mem_append.mp hc with hc | hc
  · exact .inr ⟨text, by simp, hc⟩
  · obtain ⟨t, ht, hc⟩ := mem_flatMap.mp hc
    rcases mem_cons.mp hc with hc | hc
    · exact .inl hc
    · exact .inr ⟨t, .tail _ ht, hc⟩

theorem mem_joined_of_mem {text t : List Char} (ht : t ∈ text :: texts) (hc : c ∈ t) :
    c ∈ text ++ joined texts := by
  rcases mem_cons.mp ht with rfl | ht
  · exact mem_append_left _ hc
  · exact mem_append_right _ (mem_flatMap.mpr ⟨t, ht, .tail _ hc⟩)

theorem row_text_ne_nil (row : String × String) : row_text row ≠ [] := by
  simp [row_text]

def QueryReads (rows : List (String × String)) (query : List Char) : Prop :=
  ∃ out, parse_query query = .ok out ∧ ∀ key, out.lookup key = rows.lookup key

theorem parse_query_of_split {pairs : List (List Char)} (h : split_query_pairs query = some pairs)
    (out : List (String × String)) :
    parse_query query = .ok out ↔
      parsePairs [] (pairs.filter fun pair => !pair.isEmpty) = .ok out := by
  unfold parse_query
  rw [h]
  simp only
  cases parsePairs [] (pairs.filter fun pair => !pair.isEmpty) <;> simp [orErr]

section

variable {row : String × String} {rows : List (String × String)}
  (hkey : ∀ r ∈ row :: rows, is_invalid_key r.1 = false)
  (hascii : ∀ r ∈ row :: rows, AsciiRow r) (hnodup : ((row :: rows).map Prod.fst).Nodup)
  {pairs : List (List Char)}

include hkey hascii

theorem split_rows
    (h : split_query_pairs (row_text row ++ joined (rows.map row_text)) = some pairs) :
    ((∀ r ∈ (row :: rows).dropLast, open_after r = 0) → pairs = (row :: rows).map row_text) ∧
      (¬ (∀ r ∈ (row :: rows).dropLast, open_after r = 0) →
        pairs.length < (row :: rows).length) := by
  have ha' : ∀ t ∈ row_text row :: rows.map row_text, ∀ c ∈ t, c.toNat < 128 := by
    intro t ht
    obtain ⟨r, hr, rfl⟩ := List.mem_map.mp (show t ∈ (row :: rows).map row_text from ht)
    exact (ascii_row_text_iff r).mpr (hascii r hr)
  have ha : ∀ t ∈ row_text row :: rows.map row_text, '&' ∉ t := by
    intro t ht
    obtain ⟨r, hr, rfl⟩ := List.mem_map.mp (show t ∈ (row :: rows).map row_text from ht)
    exact amp_not_mem_row_text (hkey r hr)
  obtain ⟨hal, hf, -⟩ := splitLoop_joined [] 0 _ _ pairs ha' ha h
  rw [closed_rows_iff] at hal hf
  refine ⟨hal, ?_⟩
  rw [length_map] at hf
  exact hf

include hnodup

variable (hsplit : split_query_pairs (row_text row ++ joined (rows.map row_text)) = some pairs)

include hsplit

theorem query_reads_iff_of_closed (hcl : ∀ r ∈ (row :: rows).dropLast, open_after r = 0) :
    QueryReads (row :: rows) (row_text row ++ joined (rows.map row_text)) ↔
      ∀ r ∈ row :: rows, ValueSurvives r.1 r.2 := by
  have hp : pairs.filter (fun pair => !pair.isEmpty) = (row :: rows).map row_text := by
    rw [(split_rows hkey hascii hsplit).1 hcl, filter_eq_self]
    intro t ht
    obtain ⟨r, -, rfl⟩ := List.mem_map.mp ht
    simpa using row_text_ne_nil r
  have hv : ∀ r ∈ row :: rows, (parsed_value r.1 (percent_encoded r.2.toList) = .ok r.2 ↔
      ValueSurvives r.1 r.2) := fun r hr =>
    parsed_value_percent_encoded fun c hc => hascii r hr c (mem_append_right _ hc)
  have hrea : ∀ out, parse_query (row_text row ++ joined (rows.map row_text)) = .ok out ↔
      List.Forall₂ ReadAs (row :: rows) out := by
    intro out
    rw [parse_query_of_split hsplit, hp, parsePairs_rows hkey hascii (fun _ _ => rfl) hnodup]
    simp
  unfold QueryReads
  constructor
  · rintro ⟨out, ho, hl⟩ r hr
    exact (hv r hr).mp ((lookup_reads_iff ((hrea out).mp ho) hnodup).mp hl r hr)
  · intro hs
    have hre : List.Forall₂ ReadAs (row :: rows) (row :: rows) := by
      rw [forall₂_same]
      exact fun r hr => ⟨rfl, (hv r hr).mpr (hs r hr)⟩
    exact ⟨row :: rows, (hrea _).mpr hre, fun _ => rfl⟩

/-- A `RAW(` that stays open before the last row loses a row. -/
theorem query_not_read_of_open (ho : ¬ ∀ r ∈ (row :: rows).dropLast, open_after r = 0) :
    ¬ QueryReads (row :: rows) (row_text row ++ joined (rows.map row_text)) := by
  rintro ⟨out, hou, hl⟩
  have hfe := (split_rows hkey hascii hsplit).2 ho
  have hlen := length_parsePairs ((parse_query_of_split hsplit out).mp hou)
  have hf := length_filter_le (fun pair : List Char => !pair.isEmpty) pairs
  -- but each key of the map is among the keys that were read
  have hs : (row :: rows).map Prod.fst ⊆ out.map Prod.fst := by
    intro key hm
    by_contra hnot
    have hn := hl key
    rw [lookup_eq_none_of_not_mem hnot] at hn
    obtain ⟨r, hr, rfl⟩ := List.mem_map.mp hm
    have := lookup_eq_none_iff.mp hn.symm r hr
    simp at this
  have hle := (subperm_of_subset hnodup hs).length_le
  simp only [length_map, length_nil] at hle hlen
  omega

end

theorem query_reads_iff {row : String × String} (hro : params.rows = row :: rows)
    (hkey : ∀ r ∈ row :: rows, is_invalid_key r.1 = false) :
    QueryReads (row :: rows) (row_text row ++ joined (rows.map row_text)) ↔ Survives params := by
  have hnodup := nodup_keys params
  rw [hro] at hnodup
  by_cases hascii : ∀ r ∈ row :: rows, AsciiRow r
  · have hq : ∀ c ∈ row_text row ++ joined (rows.map row_text), c.toNat < 128 := by
      intro c hc
      rcases mem_joined hc with rfl | ⟨t, ht, hc⟩
      · decide
      · obtain ⟨r, hr, rfl⟩ := List.mem_map.mp (show t ∈ (row :: rows).map row_text from ht)
        exact (ascii_row_text_iff r).mpr (hascii r hr) c hc
    obtain ⟨pairs, hsplit⟩ := split_of_ascii hq
    by_cases hcl : ∀ r ∈ (row :: rows).dropLast, open_after r = 0
    · rw [query_reads_iff_of_closed hkey hascii hnodup hsplit hcl]
      constructor
      · intro hv
        exact ⟨by rwa [hro], by rwa [hro], by rwa [hro]⟩
      · intro h
        have := h.value
        rwa [hro] at this
    · apply iff_of_false (query_not_read_of_open hkey hascii hnodup hsplit hcl)
      intro h
      have := h.closed
      rw [hro] at this
      exact hcl this
  · -- the parser panics at a character of more than one byte
    apply iff_of_false
    · rintro ⟨out, ho, -⟩
      simp only [not_forall] at hascii
      obtain ⟨r, hr, hascii⟩ := hascii
      rw [← ascii_row_text_iff] at hascii
      simp only [not_forall, Nat.not_lt] at hascii
      obtain ⟨c, hc, hb⟩ := hascii
      have ht : row_text r ∈ row_text row :: rows.map row_text :=
        List.mem_map_of_mem (f := row_text) hr
      have hp := (parse_query_eq_panic_iff _).mpr ⟨c, mem_joined_of_mem ht hc, hb⟩
      rw [ho] at hp
      cases hp
    · intro h
      have := h.ascii
      rw [hro] at this
      exact hascii this

/-! ## The whole URI -/

theorem split_once_eq_some {sep : Char} {s a b : List Char} (h : split_once sep s = some (a, b)) :
    s = a ++ sep :: b ∧ sep ∉ a := by
  induction s generalizing a with
  | nil => cases h
  | cons c s ih =>
    rw [split_once] at h
    split at h
    · rename_i hc
      simp only [Option.some.injEq, Prod.mk.injEq] at h
      obtain ⟨rfl, rfl⟩ := h
      exact ⟨by rw [hc, nil_append], not_mem_nil⟩
    · rename_i hc
      obtain ⟨⟨before, after⟩, hsplit, heq⟩ := map_eq_some_iff.mp h
      simp only [Prod.mk.injEq] at heq
      obtain ⟨rfl, rfl⟩ := heq
      obtain ⟨rfl, hnot⟩ := ih hsplit
      refine ⟨rfl, ?_⟩
      simp only [mem_cons, not_or]
      exact ⟨Ne.symm hc, hnot⟩

/-- A base URI without a query, as the parser takes it. -/
structure PlainBase (base : String) (scheme path : List Char) : Prop where
  text : base.toList = scheme ++ ':' :: path
  colon : ':' ∉ scheme
  question : '?' ∉ path
  scheme_ne : scheme ≠ []
  scheme_ok : scheme.all is_scheme_char = true

theorem PlainBase.of_parse {parts : UriComponents} (hp : parse_uri base = .ok parts)
    (hq : '?' ∉ base.toList) :
    ∃ scheme path, PlainBase base scheme path ∧ parts.scheme = .ofList scheme ∧
      percent_decode (.ofList path) = .ok parts.path := by
  unfold parse_uri at hp
  split at hp
  · cases hp
  · rename_i scheme rest hsplit
    obtain ⟨ht, hc⟩ := split_once_eq_some hsplit
    have hr : '?' ∉ rest := by
      intro hm
      apply hq
      rw [ht]
      exact mem_append_right _ (.tail _ hm)
    split at hp
    · cases hp
    · rename_i hn
      split at hp
      · cases hp
      · rename_i ho
        rw [parse_rest, split_once_none hr] at hp
        simp only at hp
        split at hp
        · cases hp
        · rename_i path hpa
          obtain rfl := Except.ok.inj hp
          exact ⟨scheme, rest, ⟨ht, hc, hr, by simpa using hn, by simpa using ho⟩, rfl, hpa⟩

section

variable {base : String} {scheme path : List Char} (hbase : PlainBase base scheme path)

include hbase

theorem merge_plain_iff {uri : EndpointUri} :
    try_from_uri_and_params base params = .ok uri ↔
      uri = ⟨.ofList scheme, .ofList path, params, none⟩ ∧
        ∀ row ∈ params.rows, is_invalid_key row.1 = false := by
  have hne : scheme.isEmpty = false := by simpa using hbase.scheme_ne
  rw [try_from_uri_and_params, hbase.text, split_once_append _ hbase.colon]
  simp only [hne, Bool.false_eq_true, if_false, split_once_none hbase.question]
  constructor
  · intro h
    obtain ⟨keys, hk, h⟩ := Fallible.bind_eq_ok h
    obtain rfl : [] = keys := Except.ok.inj hk
    split at h
    · cases h
    · rename_i hn
      split at h
      · cases h
      · refine ⟨(Except.ok.inj h).symm, ?_⟩
        intro row hr
        simpa using find?_eq_none.mp hn row hr
  · rintro ⟨rfl, hkey⟩
    have hvalid : params.rows.find? (fun row => is_invalid_key row.1) = none := by
      rw [find?_eq_none]
      intro row hr
      simp [hkey row hr]
    have hf : params.rows.find? (fun row => ([] : List String).contains row.1) = none := by
      rw [find?_eq_none]
      simp
    simp only [bind, Except.bind, hvalid, hf]
    rfl

theorem parse_uri_of_plain (rest : List Char) :
    parse_uri (.ofList (scheme ++ ':' :: rest)) =
      match parse_rest rest with
      | .error e => .error e
      | .ok (path, raw_query, params) =>
        match percent_decode (.ofList path) with
        | .error e => .error (.err e)
        | .ok path => .ok { scheme := .ofList scheme, path, params, raw_query } := by
  have hn : ¬ scheme.isEmpty = true := by simpa using hbase.scheme_ne
  have ha : ¬ (!scheme.all is_scheme_char) = true := by simp [hbase.scheme_ok]
  have hs := split_once_append rest hbase.colon
  rw [parse_uri, String.toList_ofList]
  generalize split_once ':' (scheme ++ ':' :: rest) = halves at hs ⊢
  subst hs
  exact (if_neg hn).trans (if_neg ha)

theorem parse_rest_of_plain (query : List Char) :
    parse_rest (path ++ '?' :: query) =
      match parse_query query with
      | .error e => .error e
      | .ok params => .ok (path, some (String.ofList query), params) := by
  have hs := split_once_append query hbase.question
  rw [parse_rest]
  generalize split_once '?' (path ++ '?' :: query) = halves at hs ⊢
  subst hs
  rfl

end

theorem canonical_of_plain (scheme path : List Char) (params : OrdMap String String) :
    EndpointUri.to_canonical_string ⟨.ofList scheme, .ofList path, params, none⟩ =
      .ofList (scheme ++ ':' :: (path ++ match params.rows with
        | [] => []
        | row :: rows => '?' :: (row_text row ++ joined (rows.map row_text)))) := by
  have ht : (EndpointUri.mk (.ofList scheme) (.ofList path) params none).pairs.map
      RenderPair.text = params.rows.map row_text := by
    simp only [EndpointUri.pairs, nil_append, List.map_map]
    rfl
  rw [EndpointUri.to_canonical_string, ht, String.toList_ofList, String.toList_ofList]
  cases params.rows <;> rfl

theorem parse_plain_base {scheme path : List Char} {decoded : String}
    (hbase : PlainBase base scheme path) (hp : percent_decode (.ofList path) = .ok decoded) :
    parse_uri base = .ok ⟨.ofList scheme, decoded, [], none⟩ := by
  rw [← @String.ofList_toList base, hbase.text, parse_uri_of_plain hbase, parse_rest,
    split_once_none hbase.question]
  simp only [hp]

/-- The canonical text parses to the scheme and path of the base and to the map. -/
def RoundTrips (parts : UriComponents) (params : OrdMap String String) (uri : EndpointUri) : Prop :=
  ∃ read, parse_uri uri.to_canonical_string = .ok read ∧ read.scheme = parts.scheme ∧
    read.path = parts.path ∧ ∀ key, read.get key = params.get key

theorem round_trips_iff_query_reads {scheme path : List Char} {parts : UriComponents}
    {row : String × String} (hbase : PlainBase base scheme path)
    (hs : parts.scheme = .ofList scheme)
    (hp : percent_decode (.ofList path) = .ok parts.path) (hr : params.rows = row :: rows) :
    RoundTrips parts params ⟨.ofList scheme, .ofList path, params, none⟩ ↔
      QueryReads (row :: rows) (row_text row ++ joined (rows.map row_text)) := by
  unfold RoundTrips QueryReads
  rw [canonical_of_plain, parse_uri_of_plain hbase, hr, parse_rest_of_plain hbase]
  simp only [get_eq_lookup, UriComponents.get, hr]
  cases parse_query (row_text row ++ joined (rows.map row_text)) with
  | error e => simp
  | ok out =>
    simp only [hp]
    constructor
    · rintro ⟨read, hre, -, -, hg⟩
      obtain rfl := Except.ok.inj hre
      exact ⟨out, rfl, hg⟩
    · rintro ⟨_, ho, hg⟩
      obtain rfl := Except.ok.inj ho
      exact ⟨_, rfl, hs.symm, rfl, hg⟩

/-- The parameters survive exactly if they are ASCII, no sensitive key has a reserved
character or a `RAW(..)` in its value, no `RAW(..)` holds a reserved character, and no row
before the last leaves a `RAW(` open. -/
theorem params_survive_iff {base : String} {parts : UriComponents}
    {params : OrdMap String String} {uri : EndpointUri} (hparse : parse_uri base = .ok parts)
    (hquery : '?' ∉ base.toList) (hmerge : try_from_uri_and_params base params = .ok uri) :
    RoundTrips parts params uri ↔ Survives params := by
  obtain ⟨scheme, path, hbase, hs, hpa⟩ := PlainBase.of_parse hparse hquery
  obtain ⟨rfl, hkey⟩ := (merge_plain_iff hbase).mp hmerge
  cases hr : params.rows with
  | nil =>
    apply iff_of_true
    · refine ⟨parts, ?_, rfl, rfl, fun key => ?_⟩
      · rw [canonical_of_plain, hr, append_nil, ← hbase.text, String.ofList_toList]
        exact hparse
      · have hp := parse_plain_base hbase hpa
        rw [hparse] at hp
        rw [get_eq_lookup, hr, Except.ok.inj hp]
        rfl
    · exact ⟨by simp [hr], by simp [hr], by simp [hr]⟩
  | cons row rows =>
    rw [hr] at hkey
    rw [round_trips_iff_query_reads hbase hs hpa hr, query_reads_iff hr hkey]

/-! ### Maps with one row -/

def single (key value : String) : OrdMap String String := ⟨[(key, value)], pairwise_singleton _ _⟩

theorem orders_plain : PlainBase "kafka:orders" "kafka".toList "orders".toList :=
  ⟨rfl, by decide, by decide, by decide, by decide⟩

theorem orders_path : percent_decode (.ofList "orders".toList) = .ok "orders" :=
  percent_decode_plain (@of_decide_eq_true _ (decidableBAll _ _) rfl)
    (@of_decide_eq_true _ (decidableBAll _ _) rfl)

theorem escaped_topic_survives :
    ∃ uri, try_from_uri_and_params "kafka:orders" (single "topic" "new & old?") = .ok uri ∧
      RoundTrips ⟨"kafka", "orders", [], none⟩ (single "topic" "new & old?") uri := by
  have hm := (merge_plain_iff orders_plain).mpr
    ⟨rfl, show ∀ row ∈ (single "topic" "new & old?").rows, is_invalid_key row.1 = false by decide⟩
  refine ⟨_, hm, ?_⟩
  apply (params_survive_iff (parse_plain_base orders_plain orders_path) (by decide) hm).mpr
  refine ⟨?_, ?_, by simp [single]⟩
  · intro row hr
    obtain rfl := mem_singleton.mp hr
    exact @of_decide_eq_true _ (decidableBAll _ _) rfl
  · have hkey : is_sensitive_key "topic" = false := by decide +kernel
    have hr : is_raw_value "new & old?".toList = false := by decide
    intro row hro
    obtain rfl := mem_singleton.mp hro
    refine ⟨fun h => ?_, fun h => ?_⟩
    · rw [hkey] at h
      cases h
    · rw [hr] at h
      cases h

theorem row_does_not_survive {row : String × String}
    (hro : row ∈ [("password", "p&ss"), ("name", "Zoë")]) :
    ∃ parts uri, parse_uri "kafka:orders" = .ok parts ∧ '?' ∉ "kafka:orders".toList ∧
      try_from_uri_and_params "kafka:orders" (single row.1 row.2) = .ok uri ∧
        ¬ RoundTrips parts (single row.1 row.2) uri := by
  have hkey : ∀ r ∈ [row], is_invalid_key r.1 = false := by
    revert row
    decide
  refine ⟨_, _, parse_plain_base orders_plain orders_path, by decide,
    (merge_plain_iff orders_plain).mpr ⟨rfl, hkey⟩, ?_⟩
  have hr : (single row.1 row.2).rows = [row] := rfl
  rw [round_trips_iff_query_reads orders_plain rfl orders_path hr, query_reads_iff hr hkey]
  intro h
  have hv := h.value row mem_cons_self
  have hascii := h.ascii row mem_cons_self
  simp only [mem_cons, not_mem_nil, or_false] at hro
  rcases hro with rfl | rfl
  · exact (hv.1 (by decide +kernel)).1 ⟨'&', by decide, rfl⟩
  · exact absurd (hascii 'ë' (by decide)) (by decide)

/-- A password with an ampersand comes back with the escape in it, and a name that is not
ASCII makes the parser panic. -/
theorem password_and_name_do_not_survive :
    (∃ parts uri, parse_uri "kafka:orders" = .ok parts ∧ '?' ∉ "kafka:orders".toList ∧
      try_from_uri_and_params "kafka:orders" (single "password" "p&ss") = .ok uri ∧
        ¬ RoundTrips parts (single "password" "p&ss") uri) ∧
    ∃ parts uri, parse_uri "kafka:orders" = .ok parts ∧ '?' ∉ "kafka:orders".toList ∧
      try_from_uri_and_params "kafka:orders" (single "name" "Zoë") = .ok uri ∧
        ¬ RoundTrips parts (single "name" "Zoë") uri :=
  ⟨row_does_not_survive (.head _), row_does_not_survive (.tail _ (.head _))⟩

end camel_api.endpoint_uri
