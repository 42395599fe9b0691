-- The line codec of `stream_codec/lines.rs`: it reads chunks of bytes into a buffer and
-- sends the lines on in batches. The chunks do not matter, only the bytes do, and what
-- it sends is what one would read off the whole text.
import RustCamel.Api.Splitter

open List

namespace camel_processor.stream_codec

open camel_api (Body Exchange StreamSplitConfig Value fragment_exchange is_whitespace
  PROPERTY_HTTP_CONTENT_TYPE_INHERITED)
open camel_api.error (CamelError)

/-! ## Fragments -/

def CAMEL_STREAM_ORIGIN : String := "CamelStreamOrigin"
def CAMEL_STREAM_SOURCE_CONTENT_TYPE : String := "CamelStreamSourceContentType"
def CAMEL_STREAM_OFFSET : String := "CamelStreamOffset"
def CAMEL_STREAM_BATCH_SIZE : String := "CamelStreamBatchSize"

def fragment_stream_exchange (parent : Exchange) (body : Body) : Exchange :=
  let ex := fragment_exchange parent body
  let headers := fun key =>
    if key = "Content-Length" ∨ key = "Content-Type" then none else ex.input.headers key
  { ex with input := { ex.input with headers } }.remove_property
    PROPERTY_HTTP_CONTENT_TYPE_INHERITED

structure StreamMetadata where
  content_type : Option String
  origin : Option String

/-- The stream gives chunks of bytes, or an error in place of one. -/
structure StreamSplitInput where
  parent : Exchange
  stream : List (Except CamelError (List UInt8))
  metadata : StreamMetadata

/-! ## Strings -/

def from_utf8 (bytes : List UInt8) : Option String := String.fromUTF8? ⟨bytes.toArray⟩

def trim (s : String) : String :=
  String.ofList ((s.toList.dropWhile is_whitespace).reverse.dropWhile is_whitespace).reverse

/-- A count of records or bytes as `Value::from(n as i64)`. It is below `i64::MAX`. -/
def count_value (n : Nat) : Value := .Number (.PosInt (.ofNat n))

/-! ## The codec -/

/-- What the codec keeps between two chunks. -/
structure LinesState where
  buffer : List UInt8
  offset : Nat
  batch : List String

def LinesState.new : LinesState := ⟨[], 0, []⟩

abbrev Item := Except CamelError Exchange

/-- The line feed. -/
def LF : UInt8 := 10

/-- The first line of the buffer, and what follows its line feed. -/
def split_to_newline : List UInt8 → Option (List UInt8 × List UInt8)
  | [] => none
  | b :: bytes =>
    if b = LF then some ([], bytes)
    else (split_to_newline bytes).map fun (line, rest) => (b :: line, rest)

section

variable (input : StreamSplitInput) (config : StreamSplitConfig)

def batch_exchange (offset : Nat) (lines : List String) : Exchange :=
  let batch_offset := offset - lines.length
  let body := match lines with
    | [line] => .Text line
    | lines => .Text ("\n".intercalate lines)
  let ex := fragment_stream_exchange input.parent body
  let ex := ex.set_property CAMEL_STREAM_OFFSET (count_value batch_offset)
  let ex := match input.metadata.content_type with
    | some ct => ex.set_property CAMEL_STREAM_SOURCE_CONTENT_TYPE (.String ct)
    | none => ex
  let ex := if config.include_origin then
      match input.metadata.origin with
      | some o => ex.set_property CAMEL_STREAM_ORIGIN (.String o)
      | none => ex
    else ex
  if batch_offset ≠ offset then
    ex.set_property CAMEL_STREAM_BATCH_SIZE (count_value (offset - batch_offset))
  else ex

def flush_batch (st : LinesState) : List Item × LinesState :=
  if st.batch.isEmpty then ([], st)
  else ([.ok (batch_exchange input config st.offset st.batch)], { st with batch := [] })

/-- The batch goes out, and the error ends the stream. -/
def fail (st : LinesState) (err : CamelError) : List Item × Option LinesState :=
  ((flush_batch input config st).1 ++ [.error err], none)

/-- A record is put into the batch, which goes out when it is full. -/
def push (st : LinesState) (record : String) : List Item × Option LinesState :=
  let st := { st with batch := st.batch ++ [record], offset := st.offset + 1 }
  if config.batch_size ≤ st.batch.length then
    let (items, st) := flush_batch input config st
    (items, some st)
  else ([], some st)

/-- The loop over the complete lines in the buffer, with the rounds it may take. -/
def lines_loop : Nat → LinesState → List Item × Option LinesState
  | 0, st => ([], some st)
  | rounds + 1, st =>
    if config.max_record_bytes < st.buffer.length ∧ ¬LF ∈ st.buffer then
      fail input config st (.StreamLimitExceeded config.max_record_bytes)
    else
      match split_to_newline st.buffer with
      | none => ([], some st)
      | some (line, rest) =>
        let st := { st with buffer := rest }
        if config.max_record_bytes < line.length then
          fail input config st (.StreamLimitExceeded config.max_record_bytes)
        else
          match from_utf8 line with
          | none => fail input config st (.TypeConversionFailed "Line is not valid UTF-8")
          | some s =>
            if (trim s).isEmpty then lines_loop rounds st
            else
              match push input config st (trim s) with
              | (items, none) => (items, none)
              | (items, some st) =>
                let (later, st) := lines_loop rounds st
                (items ++ later, st)

/-- Each round takes a line feed out of the buffer, so these rounds are enough. -/
def process_chunk (st : LinesState) (chunk : List UInt8) : List Item × Option LinesState :=
  let st := { st with buffer := st.buffer ++ chunk }
  lines_loop input config (st.buffer.length + 1) st

/-- What follows after the last chunk. -/
def end_of_stream (st : LinesState) : List Item :=
  let (items, st) :=
    if st.buffer.isEmpty then ([], some st)
    else
      let line := st.buffer
      let st := { st with buffer := [] }
      match from_utf8 line with
      | none => fail input config st (.TypeConversionFailed "Line is not valid UTF-8")
      | some s =>
        if (trim s).isEmpty then ([], some st)
        else if config.max_record_bytes < line.length then
          fail input config st (.StreamLimitExceeded config.max_record_bytes)
        else push input config st (trim s)
  match st with
  | none => items
  | some st => items ++ (flush_batch input config st).1

/-- The chunks that are left. -/
def split_loop (st : LinesState) : List (Except CamelError (List UInt8)) → List Item
  | [] => end_of_stream input config st
  | .error err :: _ => [.error err]
  | .ok chunk :: stream =>
    match process_chunk input config st chunk with
    | (items, none) => items
    | (items, some st) => items ++ split_loop st stream

def split : List Item := split_loop input config .new input.stream

end

/-! ## What the text says -/

section

variable (parent : Exchange) (metadata : StreamMetadata) (config : StreamSplitConfig)

def recordOf (line : List UInt8) : Except CamelError (Option String) :=
  if config.max_record_bytes < line.length then
    .error (.StreamLimitExceeded config.max_record_bytes)
  else
    match from_utf8 line with
    | none => .error (.TypeConversionFailed "Line is not valid UTF-8")
    | some s => .ok (if trim s = "" then none else some (trim s))

/-- The records up to the first bad line, and its error. -/
def recordsOf : List (List UInt8) → List String × Option CamelError
  | [] => ([], none)
  | line :: lines =>
    match recordOf config line with
    | .error err => ([], some err)
    | .ok none => recordsOf lines
    | .ok (some record) => (record :: (recordsOf lines).1, (recordsOf lines).2)

/-- The records in batches of `n`, the last one with what is left. -/
def batches (n : Nat) (records : List String) : List (List String) :=
  if records = [] ∨ n = 0 then [] else records.take n :: batches n (records.drop n)
termination_by records.length
decreasing_by
  have := length_pos_iff.mpr (not_or.mp ‹_›).1
  simp only [length_drop]
  omega

/-- The exchange of a batch whose first record has the index `first`. -/
def fragment (first : Nat) (lines : List String) : Exchange :=
  let ex := fragment_stream_exchange parent (.Text ("\n".intercalate lines))
  let ex := ex.set_property CAMEL_STREAM_OFFSET (count_value first)
  let ex := match metadata.content_type with
    | some ct => ex.set_property CAMEL_STREAM_SOURCE_CONTENT_TYPE (.String ct)
    | none => ex
  let ex := if config.include_origin then
      match metadata.origin with
      | some o => ex.set_property CAMEL_STREAM_ORIGIN (.String o)
      | none => ex
    else ex
  ex.set_property CAMEL_STREAM_BATCH_SIZE (count_value lines.length)

/-- What the codec should yield for the whole text. -/
def specification (bytes : List UInt8) : List Item :=
  let (records, err) := recordsOf config (bytes.splitOn LF)
  (batches config.batch_size records).mapIdx
    (fun i lines => .ok (fragment parent metadata config (i * config.batch_size) lines)) ++
    err.toList.map .error

end

/-! ## Lines of a buffer -/

variable {records batch : List String} {r : List Item × Option LinesState} {bytes : List UInt8}
  {first : Nat} {n : Nat} {st : LinesState} {st' : LinesState} {line : List UInt8}

section

variable {input : StreamSplitInput} {config : StreamSplitConfig}

theorem split_to_newline_eq_none (h : split_to_newline bytes = none) : LF ∉ bytes := by
  induction bytes with
  | nil => simp
  | cons b bytes ih =>
    simp only [split_to_newline] at h
    split at h
    · simp at h
    · rename_i hb
      simp only [Option.map_eq_none_iff] at h
      simp only [mem_cons, not_or]
      exact ⟨fun heq => hb heq.symm, ih h⟩

theorem split_to_newline_eq_some {rest : List UInt8}
    (h : split_to_newline bytes = some (line, rest)) : bytes = line ++ LF :: rest ∧ LF ∉ line := by
  induction bytes generalizing line with
  | nil => simp [split_to_newline] at h
  | cons b bytes ih =>
    simp only [split_to_newline] at h
    split at h
    · rename_i hb
      simp only [Option.some.injEq, Prod.mk.injEq] at h
      obtain ⟨rfl, rfl⟩ := h
      simp [hb]
    · rename_i hb
      obtain ⟨⟨line', rest'⟩, hs, heq⟩ := Option.map_eq_some_iff.mp h
      simp only [Prod.mk.injEq] at heq
      obtain ⟨rfl, rfl⟩ := heq
      obtain ⟨hby, hl⟩ := ih hs
      refine ⟨by rw [hby]; rfl, ?_⟩
      simp only [mem_cons, not_or]
      exact ⟨fun heq => hb heq.symm, hl⟩

theorem splitOn_line (rest : List UInt8) (h : LF ∉ line) :
    (line ++ LF :: rest).splitOn LF = line :: rest.splitOn LF := by
  rw [splitOn_eq_splitOnP, splitOn_eq_splitOnP]
  refine splitOnP_append_cons_of_forall_mem ?_ LF (by simp) rest
  intro b hb
  rw [beq_eq_false_iff_ne]
  rintro rfl
  exact h hb

theorem splitOn_cut {rest : List UInt8} (h : split_to_newline bytes = some (line, rest))
    (more : List UInt8) : (bytes ++ more).splitOn LF = line :: (rest ++ more).splitOn LF := by
  obtain ⟨hb, hl⟩ := split_to_newline_eq_some h
  rw [hb, append_assoc, cons_append]
  exact splitOn_line _ hl

theorem splitOn_of_not_mem (h : LF ∉ bytes) : bytes.splitOn LF = [bytes] := by
  rw [splitOn_eq_splitOnP, splitOnP_eq_singleton]
  intro b hb
  rw [beq_eq_false_iff_ne]
  rintro rfl
  exact h hb

theorem splitOn_start {start : List UInt8} (rest : List UInt8) (h : LF ∉ start) :
    ∃ more lines, (start ++ rest).splitOn LF = (start ++ more) :: lines := by
  cases hs : split_to_newline rest with
  | none =>
    refine ⟨rest, [], splitOn_of_not_mem ?_⟩
    simp [h, split_to_newline_eq_none hs]
  | some cut =>
    obtain ⟨hr, hl⟩ := @split_to_newline_eq_some _ cut.1 cut.2 hs
    refine ⟨cut.1, cut.2.splitOn LF, ?_⟩
    rw [hr, ← append_assoc]
    refine splitOn_line cut.2 ?_
    simp [h, hl]

/-! ## The record of a line -/

section

variable {line : List UInt8} {s : String}

theorem recordOf_long (hl : config.max_record_bytes < line.length) :
    recordOf config line = .error (.StreamLimitExceeded config.max_record_bytes) := by
  simp [recordOf, hl]

variable (hfits : ¬config.max_record_bytes < line.length)

include hfits

theorem recordOf_invalid (hu : from_utf8 line = none) :
    recordOf config line = .error (.TypeConversionFailed "Line is not valid UTF-8") := by
  simp [recordOf, hfits, hu]

theorem recordOf_blank (hu : from_utf8 line = some s) (hb : (trim s).isEmpty = true) :
    recordOf config line = .ok none := by
  simp [recordOf, hfits, hu, String.isEmpty_iff.mp hb]

theorem recordOf_text (hu : from_utf8 line = some s) (hb : (trim s).isEmpty = false) :
    recordOf config line = .ok (some (trim s)) := by
  have hn : trim s ≠ "" := by
    intro heq
    simp [String.isEmpty_iff.mpr heq] at hb
  simp [recordOf, hfits, hu, hn]

end

/-! ## One line after the other -/

theorem batch_exchange_eq {lines : List String} (first : Nat) (h : lines ≠ []) :
    batch_exchange input config (first + lines.length) lines =
      fragment input.parent input.metadata config first lines := by
  have hp := length_pos_iff.mpr h
  have hb : (match lines with
      | [line] => Body.Text line
      | lines => .Text ("\n".intercalate lines)) = .Text ("\n".intercalate lines) := by
    split
    · rename_i line
      simp [String.intercalate_singleton]
    · rfl
  have hn : first ≠ first + lines.length := by omega
  simp only [batch_exchange, fragment, Nat.add_sub_cancel, Nat.add_sub_cancel_left, hb, hn,
    ne_eq, not_false_eq_true, if_true]

/-- The lines are read one after the other, with the records of the open batch. -/
def reading (input : StreamSplitInput) (config : StreamSplitConfig) (offset : Nat)
    (batch : List String) : List (List UInt8) → List Item
  | [] => (flush_batch input config ⟨[], offset, batch⟩).1
  | line :: lines =>
    match recordOf config line with
    | .error err => (flush_batch input config ⟨[], offset, batch⟩).1 ++ [.error err]
    | .ok none => reading input config offset batch lines
    | .ok (some record) =>
      if config.batch_size ≤ (batch ++ [record]).length then
        .ok (batch_exchange input config (offset + 1) (batch ++ [record])) ::
          reading input config (offset + 1) [] lines
      else reading input config (offset + 1) (batch ++ [record]) lines

theorem flush_batch_buffer (input : StreamSplitInput) (config : StreamSplitConfig)
    (buffer : List UInt8) (st : LinesState) :
    (flush_batch input config { st with buffer }).1 =
      (flush_batch input config ⟨[], st.offset, st.batch⟩).1 := by
  unfold flush_batch
  split <;> simp_all

/-- What was yielded is what reading on from `st` yields first, whatever comes behind the
buffer. If the codec goes on, its buffer is the short start of a line. -/
def Yields (input : StreamSplitInput) (config : StreamSplitConfig) (st : LinesState)
    (r : List Item × Option LinesState) : Prop :=
  match r with
  | (items, none) => ∀ rest,
      reading input config st.offset st.batch ((st.buffer ++ rest).splitOn LF) = items
  | (items, some st') => (LF ∉ st'.buffer ∧ st'.buffer.length ≤ config.max_record_bytes) ∧
      ∀ rest, reading input config st.offset st.batch ((st.buffer ++ rest).splitOn LF) =
        items ++ reading input config st'.offset st'.batch ((st'.buffer ++ rest).splitOn LF)

theorem yields_fail {err : CamelError} (hsa : st'.offset = st.offset ∧ st'.batch = st.batch)
    (hl : ∀ rest, ∃ line lines, (st.buffer ++ rest).splitOn LF = line :: lines ∧
      recordOf config line = .error err) : Yields input config st (fail input config st' err) := by
  intro rest
  obtain ⟨line, lines, hs, hr⟩ := hl rest
  have hf := flush_batch_buffer input config st'.buffer st'
  simp only [hs, reading, hr]
  rw [show st' = { st' with buffer := st'.buffer } from rfl, hf, hsa.1, hsa.2]

theorem reading_push (input : StreamSplitInput) {record : String} (st : LinesState)
    (hr : recordOf config line = .ok (some record)) :
    ∃ items st', push input config st record = (items, some st') ∧ st'.buffer = st.buffer ∧
      ∀ lines, reading input config st.offset st.batch (line :: lines) =
        items ++ reading input config st'.offset st'.batch lines := by
  simp only [reading, hr, push]
  by_cases hf : config.batch_size ≤ (st.batch ++ [record]).length
  · have hs : (st.batch ++ [record]).isEmpty = false := by simp
    simp only [hf, if_true, flush_batch, hs, Bool.false_eq_true, if_false]
    exact ⟨_, _, rfl, rfl, fun lines => rfl⟩
  · simp only [hf, if_false]
    exact ⟨_, _, rfl, rfl, fun lines => rfl⟩

theorem Yields.skip {buffer : List UInt8}
    (hs : split_to_newline st.buffer = some (line, buffer))
    (hr : recordOf config line = .ok none) (h : Yields input config { st with buffer } r) :
    Yields input config st r := by
  have hsk : ∀ rest, reading input config st.offset st.batch ((st.buffer ++ rest).splitOn LF) =
      reading input config st.offset st.batch ((buffer ++ rest).splitOn LF) := by
    intro rest
    rw [splitOn_cut hs rest]
    simp only [reading, hr]
  unfold Yields at h ⊢
  simp only [hsk]
  exact h

theorem Yields.prepend {items : List Item}
    (hs : split_to_newline st.buffer = some (line, st'.buffer))
    (hr : ∀ lines, reading input config st.offset st.batch (line :: lines) =
      items ++ reading input config st'.offset st'.batch lines) (h : Yields input config st' r) :
    Yields input config st (items ++ r.1, r.2) := by
  obtain ⟨later, last⟩ := r
  cases last with
  | none =>
    intro rest
    rw [splitOn_cut hs rest, hr, h rest]
  | some last =>
    refine ⟨h.1, fun rest => ?_⟩
    rw [splitOn_cut hs rest, hr, h.2 rest, append_assoc]

theorem lines_loop_yields (rounds : Nat) (st : LinesState) (h : st.buffer.length < rounds) :
    Yields input config st (lines_loop input config rounds st) := by
  induction rounds generalizing st with
  | zero => omega
  | succ rounds ih =>
    unfold lines_loop
    by_cases hlo : config.max_record_bytes < st.buffer.length ∧ ¬LF ∈ st.buffer
    · -- The line is too long already, wherever it ends.
      rw [if_pos hlo]
      refine yields_fail ⟨rfl, rfl⟩ ?_
      intro rest
      obtain ⟨more, lines, hs⟩ := splitOn_start rest hlo.2
      refine ⟨_, lines, hs, recordOf_long ?_⟩
      rw [length_append]
      omega
    · rw [if_neg hlo]
      cases hs : split_to_newline st.buffer with
      | none =>
        have hn := split_to_newline_eq_none hs
        refine ⟨⟨hn, ?_⟩, fun rest => (nil_append _).symm⟩
        simp only [hn, not_false_eq_true, and_true] at hlo
        omega
      | some cut =>
        obtain ⟨line, buffer⟩ := cut
        have hl := splitOn_cut hs
        have hle : buffer.length < rounds := by
          have := congrArg List.length (split_to_newline_eq_some hs).1
          simp only [length_append, length_cons] at this
          omega
        simp only
        by_cases hfits : config.max_record_bytes < line.length
        · rw [if_pos hfits]
          exact yields_fail ⟨rfl, rfl⟩ fun rest => ⟨line, _, hl rest, recordOf_long hfits⟩
        · rw [if_neg hfits]
          cases hu : from_utf8 line with
          | none =>
            exact yields_fail ⟨rfl, rfl⟩
              fun rest => ⟨line, _, hl rest, recordOf_invalid hfits hu⟩
          | some s =>
            simp only
            cases hb : (trim s).isEmpty with
            | true =>
              rw [if_pos rfl]
              exact (ih { st with buffer } hle).skip hs (recordOf_blank hfits hu hb)
            | false =>
              rw [if_neg Bool.false_ne_true]
              obtain ⟨items, st', hp, hk, hr⟩ :=
                reading_push input { st with buffer } (recordOf_text hfits hu hb)
              have hre := ih st' (by rw [hk]; exact hle)
              simp only [hp]
              exact hre.prepend (by rw [hk]; exact hs) hr

theorem trim_empty : trim "" = "" := by
  simp [trim]

theorem recordOf_nil : recordOf config [] = .ok none := by
  have he : from_utf8 [] = some "" := by decide +kernel
  simp [recordOf, he, trim_empty]

theorem end_of_stream_reads (st : LinesState) (hn : LF ∉ st.buffer)
    (hs : st.buffer.length ≤ config.max_record_bytes) :
    end_of_stream input config st =
      reading input config st.offset st.batch (st.buffer.splitOn LF) := by
  have hfits : ¬config.max_record_bytes < st.buffer.length := by omega
  have hf := fun buffer => flush_batch_buffer input config buffer st
  rw [splitOn_of_not_mem hn]
  unfold end_of_stream
  by_cases he : st.buffer = []
  · have hlast := hf st.buffer
    rw [he] at hlast ⊢
    simp only [isEmpty_nil, if_true, nil_append, reading, recordOf_nil]
    rw [← hlast, ← he]
  · have hso : st.buffer.isEmpty = false := by simpa using he
    simp only [hso, Bool.false_eq_true, if_false]
    cases hu : from_utf8 st.buffer with
    | none =>
      simp only [fail, reading, recordOf_invalid hfits hu]
    | some s =>
      cases hb : (trim s).isEmpty with
      | true =>
        simp only [hb, if_true, nil_append, reading, recordOf_blank hfits hu hb]
      | false =>
        obtain ⟨items, st', hp, -, hr⟩ :=
          reading_push input { st with buffer := [] } (recordOf_text hfits hu hb)
        have hlast := flush_batch_buffer input config st'.buffer st'
        have hr := hr []
        simp only [hb, hfits, Bool.false_eq_true, if_false, hp] at hr ⊢
        rw [hr, reading, ← hlast]

theorem split_loop_reads (chunks : List (List UInt8)) (st : LinesState) (hn : LF ∉ st.buffer)
    (hs : st.buffer.length ≤ config.max_record_bytes) :
    split_loop input config st (chunks.map .ok) =
      reading input config st.offset st.batch ((st.buffer ++ chunks.flatten).splitOn LF) := by
  induction chunks generalizing st with
  | nil => simpa [split_loop] using end_of_stream_reads st hn hs
  | cons chunk chunks ih =>
    have hc := @lines_loop_yields input config
      ((st.buffer ++ chunk).length + 1) { st with buffer := st.buffer ++ chunk } (by simp)
    simp only [map_cons, split_loop, process_chunk, flatten_cons]
    generalize lines_loop input config ((st.buffer ++ chunk).length + 1)
      { st with buffer := st.buffer ++ chunk } = r at *
    obtain ⟨items, next⟩ := r
    cases next with
    | none =>
      have ha := hc chunks.flatten
      simp only [append_assoc] at ha
      exact ha.symm
    | some st' =>
      obtain ⟨⟨hn', hs'⟩, ha⟩ := hc
      have ha := ha chunks.flatten
      simp only [append_assoc] at ha
      simp only
      rw [ih st' hn' hs', ha]

/-! ## Batches -/

theorem batches_nil (n : Nat) : batches n [] = [] := by
  unfold batches
  simp

theorem batches_of_short (h : records.length < n) (hn : records ≠ []) :
    batches n records = [records] := by
  have hp : n ≠ 0 := by omega
  unfold batches
  simp [hn, hp, take_of_length_le (Nat.le_of_lt h),
    drop_of_length_le (Nat.le_of_lt h), batches_nil]

theorem batches_of_full (h : batch.length = n) (hp : 0 < n) :
    batches n (batch ++ records) = batch :: batches n records := by
  have hn : batch ≠ [] := by
    rintro rfl
    simp at h
    omega
  rw [batches]
  simp [hn, ← h]

def batchItems (input : StreamSplitInput) (config : StreamSplitConfig) (first : Nat)
    (records : List String) : List Item :=
  (batches config.batch_size records).mapIdx
    fun i lines => .ok (fragment input.parent input.metadata config
      (first + i * config.batch_size) lines)

theorem flush_batch_items (hs : batch.length < config.batch_size) :
    (flush_batch input config ⟨[], first + batch.length, batch⟩).1 =
      batchItems input config first batch := by
  unfold flush_batch batchItems
  by_cases he : batch = []
  · simp [he, batches_nil]
  · have hso : batch.isEmpty = false := by simpa using he
    simp [hso, batches_of_short hs he, batch_exchange_eq first he]

theorem batchItems_full (hf : batch.length = config.batch_size) (hp : 0 < config.batch_size) :
    batchItems input config first (batch ++ records) =
      .ok (fragment input.parent input.metadata config first batch) ::
        batchItems input config (first + config.batch_size) records := by
  unfold batchItems
  rw [batches_of_full hf hp, mapIdx_cons]
  congr 1
  · simp
  · congr 1
    funext i lines
    congr 2
    rw [Nat.add_mul, Nat.one_mul]
    omega

theorem reading_eq (hp : 0 < config.batch_size) (lines : List (List UInt8)) (first : Nat)
    (batch : List String) (hs : batch.length < config.batch_size) :
    reading input config (first + batch.length) batch lines =
      batchItems input config first (batch ++ (recordsOf config lines).1) ++
        (recordsOf config lines).2.toList.map .error := by
  induction lines generalizing first batch with
  | nil => simp [reading, recordsOf, flush_batch_items hs]
  | cons line lines ih =>
    cases hr : recordOf config line with
    | error err => simp [reading, recordsOf, hr, flush_batch_items hs]
    | ok found =>
      cases found with
      | none =>
        simp only [reading, recordsOf, hr]
        exact ih first batch hs
      | some record =>
        have hl : (batch ++ [record]).length = batch.length + 1 := by simp
        have hc : batch ++ record :: (recordsOf config lines).1 =
            (batch ++ [record]) ++ (recordsOf config lines).1 := by simp
        simp only [reading, recordsOf, hr]
        rw [hc]
        by_cases hf : config.batch_size ≤ (batch ++ [record]).length
        · have heq : (batch ++ [record]).length = config.batch_size := by omega
          have ho : first + batch.length + 1 = first + (batch ++ [record]).length := by omega
          have hre := ih (first + config.batch_size) [] hp
          simp only [hf, if_true, batchItems_full heq hp, cons_append]
          rw [ho, batch_exchange_eq first (by simp), heq]
          simpa using hre
        · have ho : first + batch.length + 1 = first + (batch ++ [record]).length := by omega
          simp only [hf, if_false]
          rw [ho]
          exact ih first (batch ++ [record]) (by omega)

end

/-! ## The codec meets its specification -/

/-- However the bytes are cut into chunks, the codec yields what the whole text says. -/
theorem split_meets_specification (config : StreamSplitConfig)
    (hvalid : config.validate = .ok ()) (parent : Exchange) (metadata : StreamMetadata)
    (chunks : List (List UInt8)) :
    split ⟨parent, chunks.map .ok, metadata⟩ config =
      specification parent metadata config chunks.flatten := by
  have hp := StreamSplitConfig.batch_size_pos hvalid
  unfold split specification
  rw [split_loop_reads chunks .new (by simp [LinesState.new]) (by simp [LinesState.new])]
  have hr := @reading_eq ⟨parent, chunks.map .ok, metadata⟩ _ hp
    (chunks.flatten.splitOn LF) 0 [] hp
  simpa [LinesState.new, batchItems] using hr

/-- Batches of two lines. -/
def pairsOfLines : StreamSplitConfig :=
  { StreamSplitConfig.default with format := .Lines, batch_size := 2 }

/-- Two lines and a half in three chunks. -/
theorem split_of_three_chunks :
    pairsOfLines.validate = .ok () ∧
      split ⟨.new .default, [[97, 10], [], [98, 10, 99]].map .ok, ⟨none, none⟩⟩ pairsOfLines =
        specification (.new .default) ⟨none, none⟩ pairsOfLines [97, 10, 98, 10, 99] :=
  ⟨rfl, split_meets_specification _ rfl _ _ [[97, 10], [], [98, 10, 99]]⟩

end camel_processor.stream_codec
