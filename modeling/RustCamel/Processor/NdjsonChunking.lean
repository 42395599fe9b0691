-- Whether the chunks matter to the NDJSON codec of `ndjson.rs`. A line that comes in one
-- piece is checked for blanks and for UTF-8 before its length, a line that comes in
-- pieces for its length first, so long lines are where two ways of cutting can differ.
import RustCamel.Processor.RecordCodecs

open List

namespace camel_processor.stream_codec.ndjson

open camel_api (Body Exchange StreamSplitConfig Value)
open camel_api.error (CamelError)
open Batches (inBatches)

/-! ## Two ways to read a text -/

section

variable (from_str : String → Except String Value) (config : StreamSplitConfig)

/-- The line that ends the text without a line feed. -/
def lastLine (line : List UInt8) : List Value × Option CamelError :=
  if config.max_record_bytes < line.length then
    ([], some (.StreamLimitExceeded config.max_record_bytes))
  else
    match line_value from_str config line with
    | .error err => ([], some err)
    | .ok value => (value.toList, none)

def wholeLines : List (List UInt8) → List Value × Option CamelError
  | [] => ([], none)
  | [line] => lastLine from_str config line
  | line :: lines =>
    match line_value from_str config line with
    | .error err => ([], some err)
    | .ok value => (value.toList ++ (wholeLines lines).1, (wholeLines lines).2)

/-- The values of the lines, each of which comes byte for byte. -/
def slowLines : List (List UInt8) → List Value × Option CamelError
  | [] => ([], none)
  | [line] => lastLine from_str config line
  | line :: lines =>
    if config.max_record_bytes < line.length then
      ([], some (.StreamLimitExceeded config.max_record_bytes))
    else
      match line_value from_str config line with
      | .error err => ([], some err)
      | .ok value => (value.toList ++ (slowLines lines).1, (slowLines lines).2)

/-- Behind blank lines there is a line that is too long, and nothing else is said of it. -/
def stopsAtLimit : List (List UInt8) → Bool
  | [] => false
  | [line] => config.max_record_bytes < line.length
  | line :: lines =>
    match from_utf8 line with
    | none => false
    | some s =>
      if (trim s).isEmpty then stopsAtLimit lines else config.max_record_bytes < line.length

/-- Up to the first line that is refused, no line is too long. If that line is too long, it
is refused for its length, however it comes. -/
def uniform : List (List UInt8) → Bool
  | [] => true
  | [_] => true
  | line :: lines =>
    if config.max_record_bytes < line.length then stopsAtLimit config (line :: lines)
    else
      match line_value from_str config line with
      | .error _ => true
      | .ok _ => uniform lines

end

/-! ## The check of a line -/

variable {s : String} {R : Type}

section

variable {from_str : String → Except String Value} {config : StreamSplitConfig}
  {line : List UInt8} {lines : List (List UInt8)}

theorem line_value_nil : line_value from_str config [] = .ok none := by
  have he : from_utf8 [] = some "" := by decide +kernel
  simp [line_value, he, trim_empty]

theorem line_value_blank (hu : from_utf8 line = some s) (hb : (trim s).isEmpty = true) :
    line_value from_str config line = .ok none := by
  simp only [line_value, hu, hb, if_true]

theorem line_value_limit (hu : from_utf8 line = some s) (hb : (trim s).isEmpty = false)
    (hl : config.max_record_bytes < line.length) :
    line_value from_str config line = .error (.StreamLimitExceeded config.max_record_bytes) := by
  simp only [line_value, hu, hb, hl, Bool.false_eq_true, if_false, if_true]

theorem line_value_invalid (hu : from_utf8 line = none) :
    line_value from_str config line =
      .error (.TypeConversionFailed "NDJSON line is not valid UTF-8") := by
  simp only [line_value, hu]

theorem line_value_text (hu : from_utf8 line = some s) (hb : (trim s).isEmpty = false) :
    line_value from_str config line ≠ .ok none := by
  simp only [line_value, hu, hb, Bool.false_eq_true, if_false]
  split
  · simp
  · cases from_str (trim s) <;> simp

theorem line_value_long (hl : config.max_record_bytes < line.length) (value : Value) :
    line_value from_str config line ≠ .ok (some value) := by
  cases hu : from_utf8 line with
  | none => simp [line_value_invalid hu]
  | some s =>
    cases hb : (trim s).isEmpty with
    | true => simp [line_value_blank hu hb]
    | false => simp [line_value_limit hu hb hl]

theorem line_value_short (hs : ¬config.max_record_bytes < line.length) {err : CamelError}
    (h : line_value from_str config line = .error err) :
    ∃ msg, err = .TypeConversionFailed msg := by
  unfold line_value at h
  cases hu : from_utf8 line with
  | none =>
    simp only [hu] at h
    cases h
    exact ⟨_, rfl⟩
  | some s =>
    simp only [hu, hs, if_false] at h
    split at h
    · cases h
    · cases hp : from_str (trim s) with
      | ok value => simp [hp] at h
      | error e =>
        simp only [hp] at h
        cases h
        exact ⟨_, rfl⟩

end

/-! ## One line before the others -/

section

variable {from_str : String → Except String Value} {config : StreamSplitConfig}
  {line : List UInt8} {lines : List (List UInt8)}

theorem wholeLines_cons (h : lines ≠ []) :
    wholeLines from_str config (line :: lines) =
      match line_value from_str config line with
      | .error err => ([], some err)
      | .ok value => (value.toList ++ (wholeLines from_str config lines).1,
          (wholeLines from_str config lines).2) := by
  cases lines with
  | nil => exact absurd rfl h
  | cons line' lines => rfl

theorem slowLines_long (hl : config.max_record_bytes < line.length) :
    slowLines from_str config (line :: lines) =
      ([], some (.StreamLimitExceeded config.max_record_bytes)) := by
  cases lines with
  | nil => simp only [slowLines, lastLine, hl, if_true]
  | cons line' lines => simp only [slowLines, hl, if_true]

theorem slowLines_short (hs : ¬config.max_record_bytes < line.length) (h : lines ≠ []) :
    slowLines from_str config (line :: lines) =
      match line_value from_str config line with
      | .error err => ([], some err)
      | .ok value => (value.toList ++ (slowLines from_str config lines).1,
          (slowLines from_str config lines).2) := by
  cases lines with
  | nil => exact absurd rfl h
  | cons line' lines => simp only [slowLines, hs, if_false]

theorem stopsAtLimit_cons (h : lines ≠ []) :
    stopsAtLimit config (line :: lines) =
      match from_utf8 line with
      | none => false
      | some s => if (trim s).isEmpty then stopsAtLimit config lines
        else decide (config.max_record_bytes < line.length) := by
  cases lines with
  | nil => exact absurd rfl h
  | cons line' lines => rfl

theorem stopsAtLimit_cases (hn : lines ≠ []) (h : stopsAtLimit config (line :: lines) = true) :
    (line_value from_str config line = .ok none ∧ stopsAtLimit config lines = true) ∨
      line_value from_str config line = .error (.StreamLimitExceeded config.max_record_bytes) := by
  rw [stopsAtLimit_cons hn] at h
  cases hu : from_utf8 line with
  | none => simp [hu] at h
  | some s =>
    cases hb : (trim s).isEmpty with
    | true =>
      simp only [hu, hb, if_true] at h
      exact .inl ⟨line_value_blank hu hb, h⟩
    | false =>
      simp only [hu, hb, Bool.false_eq_true, if_false, decide_eq_true_eq] at h
      exact .inr (line_value_limit hu hb h)

theorem uniform_long (hl : config.max_record_bytes < line.length) (h : lines ≠ []) :
    uniform from_str config (line :: lines) = stopsAtLimit config (line :: lines) := by
  cases lines with
  | nil => exact absurd rfl h
  | cons line' lines => simp only [uniform, hl, if_true]

theorem uniform_short (hs : ¬config.max_record_bytes < line.length) {value : Option Value}
    (hv : line_value from_str config line = .ok value) (h : lines ≠ []) :
    uniform from_str config (line :: lines) = uniform from_str config lines := by
  cases lines with
  | nil => exact absurd rfl h
  | cons line' lines => simp only [uniform, hs, if_false, hv]

end

/-! ## However the text is cut -/

section

variable {from_str : String → Except String Value} {config : StreamSplitConfig}

/-- What is read of a text in the end, from what was received of it. -/
def ended (from_str : String → Except String Value) (config : StreamSplitConfig)
    (r : List Value × Except CamelError (List UInt8)) : List Value × Option CamelError :=
  (NdjsonCodec from_str config).finish r

theorem ended_error (rs : List Value) (err : CamelError) :
    ended from_str config (rs, .error err) = (rs, some err) := rfl

theorem ended_ok (rest : List UInt8) (hs : rest.length ≤ config.max_record_bytes) :
    ended from_str config ([], .ok rest) = lastLine from_str config rest := by
  have hlast : (NdjsonCodec from_str config).last rest = line_value from_str config rest := rfl
  have hf : ¬config.max_record_bytes < rest.length := by omega
  unfold ended RecordCodec.finish lastLine
  simp only [hlast, hf, if_false]
  cases rest with
  | nil => simp [line_value_nil]
  | cons b rest =>
    simp only [isEmpty_cons, Bool.false_eq_true, if_false]
    cases line_value from_str config (b :: rest) <;> simp

theorem ended_append (rs rs' : List Value) (res : Except CamelError (List UInt8)) :
    ended from_str config (rs ++ rs', res) =
      (rs ++ (ended from_str config (rs', res)).1, (ended from_str config (rs', res)).2) := by
  cases res with
  | error err => rfl
  | ok rest =>
    unfold ended
    rw [RecordCodec.finish_ok, RecordCodec.finish_ok _ rs']
    simp

theorem ended_of_stopsAtLimit {lines : List (List UInt8)}
    {r : List Value × Except CamelError (List UInt8)}
    (hr : Reads config.max_record_bytes (line_value from_str config) lines r)
    (h : stopsAtLimit config lines = true) :
    ended from_str config r = ([], some (.StreamLimitExceeded config.max_record_bytes)) := by
  induction hr with
  | tail hs =>
    simp only [stopsAtLimit, decide_eq_true_eq] at h
    omega
  | long hlo => rfl
  | bad hn hc =>
    rcases stopsAtLimit_cases hn h with ⟨hb, -⟩ | hl
    · rw [hc] at hb
      cases hb
    · rw [hc] at hl
      cases hl
      rfl
  | blank hc hre ih =>
    rcases stopsAtLimit_cases hre.ne_nil h with ⟨-, hst⟩ | hl
    · exact ih hst
    · rw [hc] at hl
      cases hl
  | record hc hre ih =>
    rcases stopsAtLimit_cases hre.ne_nil h with ⟨hb, -⟩ | hl
    · rw [hc] at hb
      cases hb
    · rw [hc] at hl
      cases hl

theorem ended_of_uniform {lines : List (List UInt8)}
    {r : List Value × Except CamelError (List UInt8)}
    (hr : Reads config.max_record_bytes (line_value from_str config) lines r)
    (h : uniform from_str config lines = true) :
    ended from_str config r = slowLines from_str config lines := by
  induction hr with
  | tail hs => exact ended_ok _ hs
  | long hl => rw [slowLines_long hl, ended_error]
  | @bad line lines err hn hc =>
    by_cases hl : config.max_record_bytes < line.length
    · rw [uniform_long hl hn] at h
      rw [slowLines_long hl]
      exact ended_of_stopsAtLimit (.bad hn hc) h
    · rw [slowLines_short hl hn, hc, ended_error]
  | @blank line lines r hc hre ih =>
    have hn := hre.ne_nil
    by_cases hl : config.max_record_bytes < line.length
    · rw [uniform_long hl hn] at h
      rw [slowLines_long hl]
      exact ended_of_stopsAtLimit (.blank hc hre) h
    · rw [uniform_short hl hc hn] at h
      rw [slowLines_short hl hn, hc, ih h]
      rfl
  | @record line lines value rs res hc hre ih =>
    have hn := hre.ne_nil
    by_cases hl : config.max_record_bytes < line.length
    · exact absurd hc (line_value_long hl value)
    · rw [uniform_short hl hc hn] at h
      have ha := @ended_append from_str config [value] rs res
      rw [slowLines_short hl hn, hc, ← ih h]
      exact ha

/-! ## A text in one chunk -/

theorem front_eq (buffer : List UInt8) :
    (NdjsonCodec from_str config).front buffer =
      line_front config.max_record_bytes (line_value from_str config) buffer := rfl

theorem ended_scan (rounds : Nat) (buffer : List UInt8) (h : buffer.length < rounds) :
    ended from_str config ((NdjsonCodec from_str config).scan rounds buffer) =
      wholeLines from_str config (buffer.splitOn LF) := by
  induction rounds generalizing buffer with
  | zero => omega
  | succ rounds ih =>
    unfold RecordCodec.scan
    rw [front_eq]
    unfold line_front
    by_cases hlo : config.max_record_bytes < buffer.length ∧ ¬LF ∈ buffer
    · rw [if_pos hlo, splitOn_of_not_mem hlo.2]
      simp only [wholeLines, lastLine, hlo.1, if_true, ended_error]
    · rw [if_neg hlo]
      cases hs : split_to_newline buffer with
      | none =>
        have hn := split_to_newline_eq_none hs
        simp only [hn, not_false_eq_true, and_true] at hlo
        rw [splitOn_of_not_mem hn]
        exact ended_ok buffer (by omega)
      | some cut =>
        obtain ⟨line, rest⟩ := cut
        have hl := splitOn_cut hs []
        rw [append_nil, append_nil] at hl
        have hle : rest.length < rounds := by
          have := congrArg List.length (split_to_newline_eq_some hs).1
          simp only [length_append, length_cons] at this
          omega
        rw [hl, wholeLines_cons (splitOn_ne_nil _ _), ← ih rest hle]
        simp only
        cases hc : line_value from_str config line with
        | error err => rfl
        | ok found =>
          cases found with
          | none => rfl
          | some value => exact ended_append [value] _ _

theorem ended_single_chunk (bytes : List UInt8) :
    ended from_str config ((NdjsonCodec from_str config).received [] [bytes]) =
      wholeLines from_str config (bytes.splitOn LF) := by
  have hs := @ended_scan from_str config (bytes.length + 1) bytes (by omega)
  rw [← hs, RecordCodec.received, nil_append]
  obtain ⟨rs, res⟩ := (NdjsonCodec from_str config).scan (bytes.length + 1) bytes
  cases res with
  | error err => rfl
  | ok rest => simp [RecordCodec.received]

/-! ## A text byte for byte -/

variable {line : List UInt8}

theorem split_to_newline_snoc (h : LF ∉ line) :
    split_to_newline (line ++ [LF]) = some (line, []) := by
  induction line with
  | nil => rfl
  | cons b line ih =>
    have hb : b ≠ LF := fun heq => h (by simp [heq])
    have hl : LF ∉ line := fun hm => h (by simp [hm])
    simp only [cons_append, split_to_newline, hb, if_false, ih hl, Option.map_some]

theorem split_to_newline_of_not_mem (h : LF ∉ line) : split_to_newline line = none := by
  induction line with
  | nil => rfl
  | cons b line ih =>
    have hb : b ≠ LF := fun heq => h (by simp [heq])
    have hl : LF ∉ line := fun hm => h (by simp [hm])
    simp only [split_to_newline, hb, if_false, ih hl, Option.map_none]

theorem scan_open {buffer : List UInt8} (rounds : Nat) (h : LF ∉ buffer) :
    (NdjsonCodec from_str config).scan (rounds + 1) buffer =
      if config.max_record_bytes < buffer.length then
        ([], .error (.StreamLimitExceeded config.max_record_bytes))
      else ([], .ok buffer) := by
  unfold RecordCodec.scan
  rw [front_eq]
  unfold line_front
  by_cases hl : config.max_record_bytes < buffer.length
  · simp only [hl, h, not_false_eq_true, and_true, if_true]
  · simp only [hl, false_and, if_false, split_to_newline_of_not_mem h]

theorem scan_line_end (rounds : Nat) (h : LF ∉ line) :
    (NdjsonCodec from_str config).scan (rounds + 2) (line ++ [LF]) =
      match line_value from_str config line with
      | .error err => ([], .error err)
      | .ok value => (value.toList, .ok []) := by
  have hnil := @scan_open from_str config [] rounds (by simp)
  simp only [length_nil, Nat.not_lt_zero, if_false] at hnil
  have hm : LF ∈ line ++ [LF] := by simp
  unfold RecordCodec.scan
  rw [front_eq]
  unfold line_front
  simp only [hm, not_true_eq_false, and_false, if_false, split_to_newline_snoc h]
  cases hc : line_value from_str config line with
  | error err => rfl
  | ok found => cases found <;> simp [hnil]

theorem ended_bytes (bytes buffer : List UInt8) (hno : LF ∉ buffer)
    (hsh : buffer.length ≤ config.max_record_bytes) :
    ended from_str config ((NdjsonCodec from_str config).received buffer (bytes.map ([·]))) =
      slowLines from_str config ((buffer ++ bytes).splitOn LF) := by
  induction bytes generalizing buffer with
  | nil =>
    simp only [map_nil, RecordCodec.received, append_nil, splitOn_of_not_mem hno]
    exact ended_ok buffer hsh
  | cons b bytes ih =>
    have hl : (buffer ++ [b]).length = buffer.length + 1 := by simp
    rw [map_cons, RecordCodec.received, hl]
    by_cases hb : b = LF
    · -- The line has ended, and it is not too long.
      subst hb
      have hf : ¬config.max_record_bytes < buffer.length := by omega
      have hr := ih [] (by simp) (by simp)
      rw [nil_append] at hr
      rw [scan_line_end buffer.length hno, splitOn_line bytes hno,
        slowLines_short hf (splitOn_ne_nil _ _), ← hr]
      cases line_value from_str config buffer with
      | error err => rfl
      | ok found => exact ended_append found.toList _ _
    · have hn : LF ∉ buffer ++ [b] := by
        simp only [mem_append, mem_singleton, not_or]
        exact ⟨hno, fun heq => hb heq.symm⟩
      rw [scan_open (buffer.length + 1) hn, append_cons buffer b bytes]
      by_cases hlo : config.max_record_bytes < (buffer ++ [b]).length
      · obtain ⟨more, lines, hs⟩ := splitOn_start bytes hn
        rw [if_pos hlo, hs, slowLines_long (by rw [length_append]; omega)]
        rfl
      · rw [if_neg hlo, ← ih (buffer ++ [b]) hn (by omega)]
        rfl

end

/-! ## Where the two ways differ -/

section

variable {from_str : String → Except String Value} {config : StreamSplitConfig}

/-- The error that ends the items, up to its text. -/
def ends (err : Option CamelError) : Option Nat := err.map CamelError.ctorIdx

/-- Values come behind, or another kind of error ends them. -/
def GoesOn (config : StreamSplitConfig) (r : List Value × Option CamelError) : Prop :=
  r.1 ≠ [] ∨ ends r.2 ≠ ends (some (.StreamLimitExceeded config.max_record_bytes))

theorem goesOn_of_short {line : List UInt8} (rest : List Value × Option CamelError)
    (hs : ¬config.max_record_bytes < line.length)
    (hv : line_value from_str config line ≠ .ok none) :
    GoesOn config (match line_value from_str config line with
      | .error err => ([], some err)
      | .ok value => (value.toList ++ rest.1, rest.2)) := by
  cases hc : line_value from_str config line with
  | error err =>
    obtain ⟨msg, rfl⟩ := line_value_short hs hc
    exact .inr (by simp [ends, CamelError.ctorIdx])
  | ok found =>
    cases found with
    | none => exact absurd hc hv
    | some value => exact .inl (by simp)

theorem wholeLines_goesOn {lines : List (List UInt8)} (h : stopsAtLimit config lines = false) :
    GoesOn config (wholeLines from_str config lines) := by
  induction lines with
  | nil => exact .inr (by simp [wholeLines, ends])
  | cons line lines ih =>
    by_cases hn : lines = []
    · subst hn
      simp only [stopsAtLimit, decide_eq_false_iff_not] at h
      simp only [wholeLines, lastLine, h, if_false]
      cases hc : line_value from_str config line with
      | error err =>
        obtain ⟨msg, rfl⟩ := line_value_short h hc
        exact .inr (by simp [ends, CamelError.ctorIdx])
      | ok value => exact .inr (by simp [ends])
    · rw [stopsAtLimit_cons hn] at h
      rw [wholeLines_cons hn]
      cases hu : from_utf8 line with
      | none =>
        rw [line_value_invalid hu]
        exact .inr (by simp [ends, CamelError.ctorIdx])
      | some s =>
        cases hb : (trim s).isEmpty with
        | true =>
          simp only [hu, hb, if_true] at h
          rw [line_value_blank hu hb]
          exact ih h
        | false =>
          simp only [hu, hb, Bool.false_eq_true, if_false, decide_eq_false_iff_not] at h
          exact goesOn_of_short _ h (line_value_text hu hb)

theorem whole_differs {lines : List (List UInt8)} (h : uniform from_str config lines = false) :
    ∃ rs r, slowLines from_str config lines =
        (rs, some (.StreamLimitExceeded config.max_record_bytes)) ∧
      wholeLines from_str config lines = (rs ++ r.1, r.2) ∧ GoesOn config r := by
  induction lines with
  | nil => simp [uniform] at h
  | cons line lines ih =>
    by_cases hn : lines = []
    · simp [hn, uniform] at h
    · by_cases hl : config.max_record_bytes < line.length
      · rw [uniform_long hl hn] at h
        exact ⟨[], wholeLines from_str config (line :: lines), slowLines_long hl, rfl,
          wholeLines_goesOn h⟩
      · cases hc : line_value from_str config line with
        | error err =>
          obtain ⟨line', lines, rfl⟩ := exists_cons_of_ne_nil hn
          simp [uniform, hl, hc] at h
        | ok value =>
          rw [uniform_short hl hc hn] at h
          obtain ⟨rs, r, hs, hw, ho⟩ := ih h
          refine ⟨value.toList ++ rs, r, ?_, ?_, ho⟩
          · rw [slowLines_short hl hn, hc, hs]
          · rw [wholeLines_cons hn, hc, hw, append_assoc]

end

/-! ## What the items show -/

section

variable {config : StreamSplitConfig} {from_str : String → Except String Value}

/-- An item up to the text of its error. -/
def kind : Item → Except Nat Exchange
  | .ok ex => .ok ex
  | .error err => .error err.ctorIdx

/-- The number of records that an exchange says it has. -/
def batchSize (ex : Exchange) : Nat :=
  match ex.properties CAMEL_STREAM_BATCH_SIZE with
  | some (.Number (.PosInt n)) => n.toNat
  | _ => 0

/-- The number of records that items say they have. -/
def totalSize (kinds : List (Except Nat Exchange)) : Nat :=
  (kinds.map fun
    | .ok ex => batchSize ex
    | .error _ => 0).sum

variable (codec : RecordCodec R)

theorem batchSize_exchange (input : StreamSplitInput) (first : Nat) {batch : List R}
    (hn : batch ≠ []) (hs : batch.length < 2 ^ 64) :
    batchSize (codec.batch_exchange input config (first + batch.length) batch) = batch.length := by
  have hp := length_pos_iff.mpr hn
  have hd : first ≠ first + batch.length := by omega
  simp only [RecordCodec.batch_exchange, Nat.add_sub_cancel, hd, ne_eq, not_false_eq_true,
    if_true, Nat.add_sub_cancel_left]
  simp only [batchSize, Exchange.set_property, if_true, count_value, UInt64.toNat_ofNat']
  exact Nat.mod_eq_of_lt hs

theorem totalSize_items (input : StreamSplitInput) {bs : List (List R)} (hn : ∀ b ∈ bs, b ≠ [])
    (hs : ∀ b ∈ bs, b.length < 2 ^ 64) (first : Nat) :
    totalSize ((codec.items input config first bs).map kind) = bs.flatten.length := by
  induction bs generalizing first with
  | nil => rfl
  | cons b bs ih =>
    have hb := @batchSize_exchange R config codec input first b (hn b (by simp)) (hs b (by simp))
    have hr := ih (fun c hc => hn c (by simp [hc])) (fun c hc => hs c (by simp [hc]))
      (first + b.length)
    simp only [totalSize, List.map_map] at hr
    simp only [RecordCodec.items, totalSize, map_cons, List.map_map, sum_cons,
      flatten_cons, length_append, hr]
    simp only [kind, hb]

theorem mem_items_ok {codec : RecordCodec R} {input : StreamSplitInput} {bs : List (List R)}
    {first n : Nat} : .error n ∉ (codec.items input config first bs).map kind := by
  induction bs generalizing first with
  | nil => simp [RecordCodec.items]
  | cons b bs ih =>
    simp only [RecordCodec.items, map_cons, kind, mem_cons, reduceCtorEq, false_or]
    exact ih

theorem items_stream (parent : Exchange) (metadata : StreamMetadata)
    (stream stream' : List (Except CamelError (List UInt8))) (first : Nat) (bs : List (List R)) :
    codec.items ⟨parent, stream, metadata⟩ config first bs =
      codec.items ⟨parent, stream', metadata⟩ config first bs := by
  induction bs generalizing first with
  | nil => rfl
  | cons b bs ih =>
    rw [RecordCodec.items, RecordCodec.items, ih]
    rfl

/-- The items of what was read. -/
def output (from_str : String → Except String Value) (config : StreamSplitConfig)
    (parent : Exchange) (metadata : StreamMetadata) (r : List Value × Option CamelError) :
    List Item :=
  (NdjsonCodec from_str config).items ⟨parent, [], metadata⟩ config 0
    (inBatches config.batch_size r.1) ++ r.2.toList.map .error

theorem split_eq_output (parent : Exchange) (metadata : StreamMetadata)
    (chunks : List (List UInt8)) :
    split from_str config ⟨parent, chunks.map .ok, metadata⟩ =
      output from_str config parent metadata
        (ended from_str config ((NdjsonCodec from_str config).received [] chunks)) := by
  unfold split output
  rw [RecordCodec.split_reads]
  exact congrArg (· ++ _) (items_stream _ parent metadata _ [] 0 _)

theorem not_goesOn_of_same_items (hp : 0 < config.batch_size)
    (hs : config.batch_size < 2 ^ 64) {parent : Exchange} {metadata : StreamMetadata}
    {rs : List Value} {r : List Value × Option CamelError}
    (h : (output from_str config parent metadata (rs ++ r.1, r.2)).map kind =
      (output from_str config parent metadata
        (rs, some (.StreamLimitExceeded config.max_record_bytes))).map kind) :
    ¬GoesOn config r := by
  have ht := fun rs => @totalSize_items Value config (NdjsonCodec from_str config)
    ⟨parent, [], metadata⟩ (inBatches config.batch_size rs)
    (Batches.ne_nil_of_mem_inBatches hp rs)
    (fun b hb => Nat.lt_of_le_of_lt (Batches.length_le_of_mem_inBatches hp rs b hb) hs) 0
  simp only [Batches.flatten_inBatches] at ht
  obtain ⟨more, err⟩ := r
  unfold output at h
  rw [map_append, map_append] at h
  cases err with
  | none =>
    -- All items of the one are exchanges, and the other ends with an error.
    simp only [Option.toList_none, map_nil, append_nil] at h
    have hme := @mem_items_ok Value config (NdjsonCodec from_str config) ⟨parent, [], metadata⟩
      (inBatches config.batch_size (rs ++ more)) 0
      (CamelError.StreamLimitExceeded config.max_record_bytes).ctorIdx
    rw [h] at hme
    exact absurd (by simp [kind]) hme
  | some err =>
    obtain ⟨hi, hlast⟩ := append_inj' h rfl
    have hl := (ht (rs ++ more)).symm.trans
      ((congrArg totalSize hi).trans (ht rs))
    rintro (hm | he)
    · rw [length_append] at hl
      exact hm (length_eq_zero_iff.mp (by simp only; omega))
    · apply he
      simpa [kind, ends] using hlast

end

/-! ## The chunks do not matter for uniform lines -/

/-- The codec yields the same items, up to the texts of its errors, however a text is cut
into chunks. That is so for the texts whose lines are uniform. -/
theorem split_ignores_chunks_iff (from_str : String → Except String Value)
    (config : StreamSplitConfig) (hvalid : config.validate = .ok ())
    (hsize : config.batch_size < 2 ^ 64) (parent : Exchange) (metadata : StreamMetadata)
    (bytes : List UInt8) :
    (∀ chunks chunks' : List (List UInt8), chunks.flatten = bytes → chunks'.flatten = bytes →
      (split from_str config ⟨parent, chunks.map .ok, metadata⟩).map kind =
        (split from_str config ⟨parent, chunks'.map .ok, metadata⟩).map kind) ↔
      uniform from_str config (bytes.splitOn LF) = true := by
  have hp := StreamSplitConfig.batch_size_pos hvalid
  constructor
  · intro hs
    by_contra hu
    obtain ⟨rs, r, hsl, hw, ho⟩ := whole_differs (by simpa using hu)
    have hb : (bytes.map ([·])).flatten = bytes := by
      rw [← flatMap_def, flatMap_singleton']
    have hcu := hs [bytes] (bytes.map ([·])) (by simp) hb
    rw [split_eq_output, split_eq_output, ended_single_chunk,
      ended_bytes bytes [] (by simp) (by simp), nil_append, hsl, hw] at hcu
    exact not_goesOn_of_same_items hp hsize hcu ho
  · intro hu
    have hre : ∀ chunks : List (List UInt8), chunks.flatten = bytes →
        split from_str config ⟨parent, chunks.map .ok, metadata⟩ =
          output from_str config parent metadata
            (slowLines from_str config (bytes.splitOn LF)) := by
      intro chunks hc
      have hr := @received_reads Value config.max_record_bytes (line_value from_str config)
        (NdjsonCodec from_str config) rfl chunks [] (by simp) (by simp)
      rw [nil_append, hc] at hr
      rw [split_eq_output, ended_of_uniform hr hu]
    intro chunks chunks' h h'
    rw [hre chunks h, hre chunks' h']

/-- Records of at most three bytes. -/
def shortRecords : StreamSplitConfig :=
  { StreamSplitConfig.default with format := .Ndjson, max_record_bytes := 3 }

/-- A parser that refuses all it is given. -/
def parseNothing (_ : String) : Except String Value := .error "EOF while parsing a value"

/-- A line of four blanks is skipped if it comes at once. If its line feed comes later, it is
too long. -/
theorem chunks_matter_for_blank_line :
    shortRecords.validate = .ok () ∧ shortRecords.batch_size < 2 ^ 64 ∧
      [[32, 32, 32, 32, 10]].flatten = [[32, 32, 32, 32], [(10 : UInt8)]].flatten ∧
      (split parseNothing shortRecords
          ⟨.new .default, [[32, 32, 32, 32, 10]].map .ok, ⟨none, none⟩⟩).map kind ≠
        (split parseNothing shortRecords
          ⟨.new .default, [[32, 32, 32, 32], [10]].map .ok, ⟨none, none⟩⟩).map kind := by
  refine ⟨rfl, by decide, rfl, fun h => ?_⟩
  have hl := congrArg List.length h
  rw [length_map, length_map] at hl
  exact absurd hl (by decide +kernel)

def parseDigits (text : String) : Except String Value :=
  if text.toList.all Char.isDigit then
    .ok (.Number (.PosInt (.ofNat (text.toList.foldl (fun n c => 10 * n + (c.toNat - 48)) 0))))
  else .error "expected value"

/-- The numbers 1 and 42, in one chunk or with a cut within the second. -/
theorem chunks_do_not_matter_for_two_numbers :
    shortRecords.validate = .ok () ∧ shortRecords.batch_size < 2 ^ 64 ∧
      (split parseDigits shortRecords
          ⟨.new .default, [[49, 10, 52, 50, 10]].map .ok, ⟨none, none⟩⟩).length = 2 ∧
      (split parseDigits shortRecords
          ⟨.new .default, [[49, 10, 52, 50, 10]].map .ok, ⟨none, none⟩⟩).map kind =
        (split parseDigits shortRecords
          ⟨.new .default, [[49, 10, 52], [50, 10]].map .ok, ⟨none, none⟩⟩).map kind :=
  ⟨rfl, by decide, by decide +kernel, (split_ignores_chunks_iff parseDigits shortRecords rfl
    (by decide) (.new .default) ⟨none, none⟩ [49, 10, 52, 50, 10]).mpr (by decide +kernel)
    [[49, 10, 52, 50, 10]] [[49, 10, 52], [50, 10]] rfl rfl⟩

end camel_processor.stream_codec.ndjson
