-- The incremental codecs of `stream_codec.rs`. All three cut records off the front of a
-- buffer and put them into batches; `ndjson.rs` and `chunks.rs` stand here over one common
-- loop, and the line codec is shown to be the same loop with its own records.
import RustCamel.Lib.Batches
import RustCamel.Processor.LinesCodec

open List Option

namespace camel_processor.stream_codec

open camel_api (Body Exchange StreamSplitConfig StreamSplitFormat Value)
open camel_api.error (CamelError)
open Batches (fill fill_full fill_open fill_append leftover inBatches)

/-! ## The common loop -/

/-- What stands at the front of the buffer. -/
inductive Front (R : Type) where
  | more
  | blank (rest : List UInt8)
  | record (r : R) (rest : List UInt8)
  | bad (err : CamelError)

/-- What makes one codec differ from the others: the body of a batch, what it takes from
the front of the buffer, and what it takes of the bytes that are left at the end. -/
structure RecordCodec (R : Type) where
  body : List R → Body
  front : List UInt8 → Front R
  last : List UInt8 → Except CamelError (Option R)

structure CodecState (R : Type) where
  buffer : List UInt8
  offset : Nat
  batch : List R

namespace RecordCodec

section

variable {R : Type} (codec : RecordCodec R) (input : StreamSplitInput) (config : StreamSplitConfig)

/-- The exchange of a batch that is not empty, as `flush_batch!` builds it. -/
def batch_exchange (offset : Nat) (records : List R) : Exchange :=
  let batch_offset := offset - records.length
  let ex := fragment_stream_exchange input.parent (codec.body records)
  let ex := ex.set_property CAMEL_STREAM_OFFSET (count_value batch_offset)
  let ex := match input.metadata.content_type with
    | some ct => ex.set_property CAMEL_STREAM_SOURCE_CONTENT_TYPE (.String ct)
    | none => ex
  let ex := if config.include_origin then
      match input.metadata.origin with
      | some o => ex.set_property CAMEL_STREAM_ORIGIN (.String o)
      | none => ex
    else ex
  if batch_offset ≠ offset then
    ex.set_property CAMEL_STREAM_BATCH_SIZE (count_value (offset - batch_offset))
  else ex

def flush_batch (st : CodecState R) : List Item × CodecState R :=
  if st.batch.isEmpty then ([], st)
  else ([.ok (codec.batch_exchange input config st.offset st.batch)], { st with batch := [] })

/-- The batch goes out, and the error ends the stream. -/
def fail (st : CodecState R) (err : CamelError) : List Item × Option (CodecState R) :=
  ((codec.flush_batch input config st).1 ++ [.error err], none)

/-- A record is put into the batch, which goes out when it is full. -/
def push (st : CodecState R) (record : R) : List Item × CodecState R :=
  let st := { st with batch := st.batch ++ [record], offset := st.offset + 1 }
  if config.batch_size ≤ st.batch.length then codec.flush_batch input config st else ([], st)

/-- The loop over the records in the buffer, with the rounds it may take. -/
def record_loop : Nat → CodecState R → List Item × Option (CodecState R)
  | 0, st => ([], some st)
  | rounds + 1, st =>
    match codec.front st.buffer with
    | .more => ([], some st)
    | .blank rest => record_loop rounds { st with buffer := rest }
    | .bad err => codec.fail input config st err
    | .record r rest =>
      let (items, st) := codec.push input config { st with buffer := rest } r
      let (later, st) := record_loop rounds st
      (items ++ later, st)

/-- Each round takes a byte out of the buffer, so these rounds are enough. -/
def process_chunk (st : CodecState R) (chunk : List UInt8) : List Item × Option (CodecState R) :=
  let st := { st with buffer := st.buffer ++ chunk }
  codec.record_loop input config (st.buffer.length + 1) st

/-- What follows after the last chunk. -/
def end_of_stream (st : CodecState R) : List Item :=
  if st.buffer.isEmpty then (codec.flush_batch input config st).1
  else
    let line := st.buffer
    let st := { st with buffer := [] }
    match codec.last line with
    | .error err => (codec.fail input config st err).1
    | .ok none => (codec.flush_batch input config st).1
    | .ok (some r) =>
      let (items, st) := codec.push input config st r
      items ++ (codec.flush_batch input config st).1

/-- The chunks that are left. An error of the stream leaves at once, as `chunk?` does. -/
def split_loop (st : CodecState R) : List (Except CamelError (List UInt8)) → List Item
  | [] => codec.end_of_stream input config st
  | .error err :: _ => [.error err]
  | .ok chunk :: stream =>
    match codec.process_chunk input config st chunk with
    | (items, none) => items
    | (items, some st) => items ++ split_loop st stream

def split : List Item := codec.split_loop input config ⟨[], 0, []⟩ input.stream

end

end RecordCodec

/-! ## Codecs over lines -/

/-- The first line of the buffer, as its check reads it. A line whose end has not come yet
is too long as soon as its bytes are. -/
def line_front {R : Type} (max_record_bytes : Nat)
    (check : List UInt8 → Except CamelError (Option R)) (buffer : List UInt8) : Front R :=
  if max_record_bytes < buffer.length ∧ ¬LF ∈ buffer then
    .bad (.StreamLimitExceeded max_record_bytes)
  else
    match split_to_newline buffer with
    | none => .more
    | some (line, rest) =>
      match check line with
      | .error err => .bad err
      | .ok none => .blank rest
      | .ok (some r) => .record r rest

namespace ndjson

variable (from_str : String → Except String Value) (config : StreamSplitConfig)

/-- The value of a line. The check of its length stands behind the check for a blank line. -/
def line_value (line : List UInt8) : Except CamelError (Option Value) :=
  match from_utf8 line with
  | none => .error (.TypeConversionFailed "NDJSON line is not valid UTF-8")
  | some s =>
    let trimmed := trim s
    if trimmed.isEmpty then .ok none
    else if config.max_record_bytes < line.length then
      .error (.StreamLimitExceeded config.max_record_bytes)
    else
      match from_str trimmed with
      | .ok value => .ok (some value)
      | .error e => .error (.TypeConversionFailed s!"NDJSON parse error: {e}")

def body : List Value → Body
  | [value] => .Json value
  | values => .Json (.Array values)

def NdjsonCodec : RecordCodec Value where
  body := body
  front := line_front config.max_record_bytes (line_value from_str config)
  last := line_value from_str config

def split (input : StreamSplitInput) : List Item := (NdjsonCodec from_str config).split input config

end ndjson

/-! ## Chunks of a fixed size -/

namespace chunks

variable (config : StreamSplitConfig)

def chunk_size : Nat := config.chunk_size.getD 8192

def body : List (List UInt8) → Body
  | [chunk] => .Bytes chunk
  | chunks => .Bytes chunks.flatten

def front (buffer : List UInt8) : Front (List UInt8) :=
  if chunk_size config ≤ buffer.length then
    .record (buffer.take (chunk_size config)) (buffer.drop (chunk_size config))
  else .more

def last (buffer : List UInt8) : Except CamelError (Option (List UInt8)) :=
  if config.max_record_bytes < buffer.length then
    .error (.StreamLimitExceeded config.max_record_bytes)
  else .ok (some buffer)

def ChunksCodec : RecordCodec (List UInt8) where
  body := body
  front := front config
  last := last config

def split (input : StreamSplitInput) : List Item := (ChunksCodec config).split input config

end chunks

/-! ## The line codec as one of them -/

namespace lines

variable (config : StreamSplitConfig)

def body : List String → Body
  | [line] => .Text line
  | lines => .Text ("\n".intercalate lines)

/-- The last line is checked in another order than the lines before it. -/
def last (line : List UInt8) : Except CamelError (Option String) :=
  match from_utf8 line with
  | none => .error (.TypeConversionFailed "Line is not valid UTF-8")
  | some s =>
    if (trim s).isEmpty then .ok none
    else if config.max_record_bytes < line.length then
      .error (.StreamLimitExceeded config.max_record_bytes)
    else .ok (some (trim s))

def LinesCodec : RecordCodec String where
  body := body
  front := line_front config.max_record_bytes (recordOf config)
  last := last config

end lines

/-! ## The three codecs -/

inductive IncrementalCodec where
  | Ndjson
  | Lines
  | Chunks

namespace IncrementalCodec

def split (from_str : String → Except String Value) (input : StreamSplitInput)
    (config : StreamSplitConfig) : IncrementalCodec → List Item
  | .Ndjson => ndjson.split from_str config input
  | .Lines => stream_codec.split input config
  | .Chunks => chunks.split config input

end IncrementalCodec

namespace RecordCodec

/-! ## What a codec reads -/

section

variable {R : Type} (codec : RecordCodec R) (input : StreamSplitInput) (config : StreamSplitConfig)

/-- The records at the front of the bytes, and what is left or the error that ends them. -/
def scan : Nat → List UInt8 → List R × Except CamelError (List UInt8)
  | 0, buffer => ([], .ok buffer)
  | rounds + 1, buffer =>
    match codec.front buffer with
    | .more => ([], .ok buffer)
    | .blank rest => scan rounds rest
    | .bad err => ([], .error err)
    | .record r rest => (r :: (scan rounds rest).1, (scan rounds rest).2)

/-- The records that were completely received with the chunks. The codec stops at its own
first error; else some bytes of the next record are left. -/
def received : List UInt8 → List (List UInt8) → List R × Except CamelError (List UInt8)
  | buffer, [] => ([], .ok buffer)
  | buffer, chunk :: chunks =>
    match codec.scan ((buffer ++ chunk).length + 1) (buffer ++ chunk) with
    | (records, .error err) => (records, .error err)
    | (records, .ok rest) => (records ++ (received rest chunks).1, (received rest chunks).2)

/-- The items of batches, the first record of which has the index `first`. -/
def items : Nat → List (List R) → List Item
  | _, [] => []
  | first, batch :: batches =>
    .ok (codec.batch_exchange input config (first + batch.length) batch) ::
      items (first + batch.length) batches

end

section

variable {R : Type} {codec : RecordCodec R} {input : StreamSplitInput}
  {config : StreamSplitConfig} (first : Nat) {batch : List R} {r : R}

theorem items_append (bs cs : List (List R)) :
    codec.items input config first (bs ++ cs) =
      codec.items input config first bs ++
        codec.items input config (first + bs.flatten.length) cs := by
  induction bs generalizing first with
  | nil => simp [items]
  | cons b bs ih =>
    simp only [cons_append, items, ih, flatten_cons, length_append]
    rw [Nat.add_assoc]

theorem flush_batch_items (buffer : List UInt8) (batch : List R) :
    (codec.flush_batch input config ⟨buffer, first + batch.length, batch⟩).1 =
      codec.items input config first (leftover batch) := by
  unfold flush_batch leftover
  cases batch with
  | nil | cons r batch => simp [items]

/-- What the loop yields for the records: the batches that get full, and then either the
error behind the open batch or the state to go on with. -/
def after (codec : RecordCodec R) (input : StreamSplitInput) (config : StreamSplitConfig)
    (first : Nat) (batch : List R) (r : List R × Except CamelError (List UInt8)) :
    List Item × Option (CodecState R) :=
  let (full, left) := fill config.batch_size batch r.1
  match r.2 with
  | .error err =>
    (codec.items input config first (full ++ leftover left) ++ [.error err], none)
  | .ok buffer =>
    (codec.items input config first full, some ⟨buffer, first + batch.length + r.1.length, left⟩)

theorem after_full {first : Nat} (rs : List R) (res : Except CamelError (List UInt8))
    (h : config.batch_size ≤ (batch ++ [r]).length) :
    after codec input config first batch (r :: rs, res) =
      (.ok (codec.batch_exchange input config (first + (batch ++ [r]).length) (batch ++ [r])) ::
          (after codec input config (first + (batch ++ [r]).length) [] (rs, res)).1,
        (after codec input config (first + (batch ++ [r]).length) [] (rs, res)).2) := by
  have ho : first + batch.length + (r :: rs).length =
      first + (batch ++ [r]).length + ([] : List R).length + rs.length := by
    simp only [length_cons, length_append, length_nil]
    omega
  unfold after
  rw [fill_full h, ho]
  cases res with
  | error err => simp only [cons_append, items]
  | ok buffer => simp only [items]

theorem after_open {first : Nat} (rs : List R) (res : Except CamelError (List UInt8))
    (h : ¬config.batch_size ≤ (batch ++ [r]).length) :
    after codec input config first batch (r :: rs, res) =
      after codec input config first (batch ++ [r]) (rs, res) := by
  have ho : first + batch.length + (r :: rs).length =
      first + (batch ++ [r]).length + rs.length := by
    simp only [length_cons, length_append, length_nil]
    omega
  unfold after
  rw [fill_open h, ho]

theorem push_eq (buffer : List UInt8) (batch : List R) (r : R) :
    codec.push input config ⟨buffer, first + batch.length, batch⟩ r =
      if config.batch_size ≤ (batch ++ [r]).length then
        ([.ok (codec.batch_exchange input config (first + (batch ++ [r]).length) (batch ++ [r]))],
          ⟨buffer, first + (batch ++ [r]).length, []⟩)
      else ([], ⟨buffer, first + (batch ++ [r]).length, batch ++ [r]⟩) := by
  have ho : first + batch.length + 1 = first + (batch ++ [r]).length := by simp; omega
  have hs : (batch ++ [r]).isEmpty = false := by simp
  simp only [push, flush_batch, ho, hs, Bool.false_eq_true, if_false]

theorem record_loop_eq (rounds first : Nat) (buffer : List UInt8) (batch : List R) :
    codec.record_loop input config rounds ⟨buffer, first + batch.length, batch⟩ =
      after codec input config first batch (codec.scan rounds buffer) := by
  induction rounds generalizing first buffer batch with
  | zero => simp [record_loop, scan, after, items]
  | succ rounds ih =>
    unfold record_loop scan
    cases hf : codec.front buffer with
    | more => simp [after, items]
    | blank rest => simpa using ih first rest batch
    | bad err =>
      simp only [after, fail, fill, nil_append]
      rw [flush_batch_items]
    | record r rest =>
      simp only [push_eq]
      by_cases hfu : config.batch_size ≤ (batch ++ [r]).length
      · rw [if_pos hfu, after_full _ _ hfu]
        have hr := ih (first + (batch ++ [r]).length) rest []
        simp only [length_nil, Nat.add_zero] at hr
        simp only [hr, singleton_append]
      · rw [if_neg hfu, after_open _ _ hfu]
        simp only [ih first rest (batch ++ [r]), nil_append]

theorem offset_after_fill (n first : Nat) (batch rs : List R) :
    first + batch.length + rs.length =
      first + (fill n batch rs).1.flatten.length + (fill n batch rs).2.length := by
  have hl := congrArg List.length (Batches.fill_flatten n batch rs)
  simp only [length_append] at hl
  omega

theorem after_append (batch rs rs' : List R) (res : Except CamelError (List UInt8)) :
    after codec input config first batch (rs ++ rs', res) =
      let (full, left) := fill config.batch_size batch rs
      let next := after codec input config (first + full.flatten.length) left (rs', res)
      (codec.items input config first full ++ next.1, next.2) := by
  have ho : first + batch.length + (rs ++ rs').length =
      first + (fill config.batch_size batch rs).1.flatten.length +
        (fill config.batch_size batch rs).2.length + rs'.length := by
    rw [← offset_after_fill config.batch_size first batch rs, length_append]
    omega
  unfold after
  rw [fill_append, ho]
  cases res with
  | error err => simp only [append_assoc, items_append]
  | ok buffer => simp only [items_append]

theorem split_loop_received (chunks : List (List UInt8))
    (stream : List (Except CamelError (List UInt8))) (first : Nat) (buffer : List UInt8)
    (batch : List R) :
    codec.split_loop input config ⟨buffer, first + batch.length, batch⟩
        (chunks.map .ok ++ stream) =
      let r := after codec input config first batch (codec.received buffer chunks)
      r.1 ++ r.2.elim [] (fun st => codec.split_loop input config st stream) := by
  induction chunks generalizing first buffer batch with
  | nil => simp [received, after, items]
  | cons chunk chunks ih =>
    simp only [map_cons, cons_append, split_loop, process_chunk]
    rw [record_loop_eq, received]
    generalize codec.scan ((buffer ++ chunk).length + 1) (buffer ++ chunk) = r
    obtain ⟨rs, res⟩ := r
    cases res with
    | error err => simp [after]
    | ok rest =>
      simp only [after_append]
      have ho := offset_after_fill config.batch_size first batch rs
      simp only [after, ho, ih, append_assoc]

/-- What the codec takes of the bytes that are left at the end, behind the records. -/
def finish (codec : RecordCodec R) (r : List R × Except CamelError (List UInt8)) :
    List R × Option CamelError :=
  match r.2 with
  | .error err => (r.1, some err)
  | .ok rest =>
    if rest.isEmpty then (r.1, none)
    else
      match codec.last rest with
      | .error err => (r.1, some err)
      | .ok record => (r.1 ++ record.toList, none)

theorem finish_ok (codec : RecordCodec R) (rs : List R) (rest : List UInt8) :
    codec.finish (rs, .ok rest) =
      (rs ++ (codec.finish ([], .ok rest)).1, (codec.finish ([], .ok rest)).2) := by
  simp only [finish]
  by_cases he : rest.isEmpty = true
  · simp [he]
  · simp only [he, Bool.false_eq_true, if_false]
    cases codec.last rest <;> simp

theorem end_of_stream_eq (rest : List UInt8) (batch : List R) :
    codec.end_of_stream input config ⟨rest, first + batch.length, batch⟩ =
      let r := codec.finish ([], .ok rest)
      let (full, left) := fill config.batch_size batch r.1
      codec.items input config first (full ++ leftover left) ++ r.2.toList.map .error := by
  unfold end_of_stream finish
  by_cases he : rest.isEmpty = true
  · simp [he, flush_batch_items]
  · simp only [he, Bool.false_eq_true, if_false]
    cases hlast : codec.last rest with
    | error err => simp [fail, flush_batch_items]
    | ok found =>
      cases found with
      | none => simp [flush_batch_items]
      | some r =>
        simp only [push_eq, toList_some, nil_append]
        by_cases hf : config.batch_size ≤ (batch ++ [r]).length
        · simp only [if_pos hf, fill_full hf, Batches.fill_nil]
          simp [flush_batch, items, leftover]
        · simp only [if_neg hf, fill_open hf, Batches.fill_nil, flush_batch_items]
          simp

/-- A stream that ends well is read to its end and sent on in batches. -/
theorem split_reads (parent : Exchange) (metadata : StreamMetadata)
    (chunks : List (List UInt8)) :
    codec.split ⟨parent, chunks.map .ok, metadata⟩ config =
      let r := codec.finish (codec.received [] chunks)
      codec.items ⟨parent, chunks.map .ok, metadata⟩ config 0 (inBatches config.batch_size r.1) ++
        r.2.toList.map .error := by
  have hr := @split_loop_received R codec ⟨parent, chunks.map .ok, metadata⟩ config chunks
    [] 0 [] []
  unfold split
  simp only [length_nil, Nat.add_zero, append_nil] at hr
  simp only [hr]
  obtain ⟨rs, res⟩ := codec.received [] chunks
  cases res with
  | error err => simp [after, finish, inBatches]
  | ok rest =>
    have ho := offset_after_fill config.batch_size 0 [] rs
    simp only [after, ho, elim_some, split_loop, end_of_stream_eq]
    rw [finish_ok codec rs rest]
    simp only [inBatches, fill_append, append_assoc, items_append]

/-! ## The stream fails -/

/-- The codec sends on all that was received, the last batch with what is left, and then
its own error if it met one, else the error of the stream. -/
def KeepsReceived (codec : RecordCodec R) (input : StreamSplitInput) (config : StreamSplitConfig)
    (chunks : List (List UInt8)) (err : CamelError) (output : List Item) : Prop :=
  output = codec.items input config 0
      (inBatches config.batch_size (codec.received [] chunks).1) ++
    [match (codec.received [] chunks).2 with
      | .error own => .error own
      | .ok _ => .error err]

theorem split_of_failed_stream (parent : Exchange) (metadata : StreamMetadata)
    (chunks : List (List UInt8)) (err : CamelError)
    (more : List (Except CamelError (List UInt8))) :
    codec.split ⟨parent, chunks.map .ok ++ .error err :: more, metadata⟩ config =
      let input := ⟨parent, chunks.map .ok ++ .error err :: more, metadata⟩
      match codec.received [] chunks with
      | (rs, .error own) =>
        codec.items input config 0 (inBatches config.batch_size rs) ++ [.error own]
      | (rs, .ok _) =>
        codec.items input config 0 (fill config.batch_size [] rs).1 ++ [.error err] := by
  have hr := @split_loop_received R codec
    ⟨parent, chunks.map .ok ++ .error err :: more, metadata⟩ config chunks
    (.error err :: more) 0 [] []
  unfold split
  simp only [length_nil, Nat.add_zero] at hr
  simp only [hr]
  obtain ⟨rs, res⟩ := codec.received [] chunks
  cases res with
  | error own => simp [after, inBatches]
  | ok rest => simp [after, split_loop]

theorem keepsReceived_iff (hp : 0 < config.batch_size) (parent : Exchange)
    (metadata : StreamMetadata) (chunks : List (List UInt8)) (err : CamelError)
    (more : List (Except CamelError (List UInt8))) :
    KeepsReceived codec ⟨parent, chunks.map .ok ++ .error err :: more, metadata⟩ config chunks err
        (codec.split ⟨parent, chunks.map .ok ++ .error err :: more, metadata⟩ config) ↔
      (∃ own, (codec.received [] chunks).2 = .error own) ∨
        (codec.received [] chunks).1.length % config.batch_size = 0 := by
  rw [split_of_failed_stream]
  unfold KeepsReceived
  rw [← Batches.leftover_eq_nil_iff hp]
  obtain ⟨rs, res⟩ := codec.received [] chunks
  cases res with
  | error own => simp
  | ok rest =>
    simp only [reduceCtorEq, exists_false, false_or, inBatches, items_append,
      append_cancel_right_eq, self_eq_append_right]
    cases leftover (fill config.batch_size [] rs).2 with
    | nil | cons batch batches => simp [items]

end

end RecordCodec

/-! ## The line codec reads as the others do -/

namespace lines

variable (input : StreamSplitInput) (config : StreamSplitConfig) (st : LinesState)

def toCodec : CodecState String := ⟨st.buffer, st.offset, st.batch⟩

theorem batch_exchange_eq (offset : Nat) (records : List String) :
    stream_codec.batch_exchange input config offset records =
      (LinesCodec config).batch_exchange input config offset records := by
  rcases records with _ | ⟨line, _ | ⟨line', records⟩⟩ <;> rfl

theorem flush_batch_eq :
    (LinesCodec config).flush_batch input config (toCodec st) =
      ((stream_codec.flush_batch input config st).1,
        toCodec (stream_codec.flush_batch input config st).2) := by
  unfold stream_codec.flush_batch RecordCodec.flush_batch
  rw [batch_exchange_eq]
  unfold toCodec
  split <;> rfl

theorem push_eq (r : String) :
    ∃ items st', stream_codec.push input config st r = (items, some st') ∧
      (LinesCodec config).push input config (toCodec st) r = (items, toCodec st') := by
  have hf := flush_batch_eq input config ⟨st.buffer, st.offset + 1, st.batch ++ [r]⟩
  unfold stream_codec.push RecordCodec.push
  simp only [toCodec] at hf ⊢
  by_cases hfu : config.batch_size ≤ (st.batch ++ [r]).length
  · simp only [hfu, if_true, hf]
    exact ⟨_, _, rfl, rfl⟩
  · simp only [hfu, if_false]
    exact ⟨_, _, rfl, rfl⟩

theorem fail_eq (buffer : List UInt8) (err : CamelError) :
    (LinesCodec config).fail input config ⟨buffer, st.offset, st.batch⟩ err =
      ((stream_codec.fail input config st err).1, none) := by
  have hf := flush_batch_eq input config { st with buffer }
  unfold toCodec at hf
  simp only [stream_codec.fail, RecordCodec.fail, hf]
  rw [flush_batch_buffer, ← flush_batch_buffer input config st.buffer st]

theorem lines_loop_eq (rounds : Nat) (st : LinesState) :
    (LinesCodec config).record_loop input config rounds (toCodec st) =
      ((lines_loop input config rounds st).1,
        (lines_loop input config rounds st).2.map toCodec) := by
  induction rounds generalizing st with
  | zero => rfl
  | succ rounds ih =>
    have hf : (LinesCodec config).front (toCodec st).buffer =
        line_front config.max_record_bytes (recordOf config) st.buffer := rfl
    unfold lines_loop RecordCodec.record_loop
    rw [hf]
    unfold line_front
    by_cases hl : config.max_record_bytes < st.buffer.length ∧ ¬LF ∈ st.buffer
    · rw [if_pos hl, if_pos hl]
      exact fail_eq input config st _ _
    · rw [if_neg hl, if_neg hl]
      cases hs : split_to_newline st.buffer with
      | none => rfl
      | some cut =>
        obtain ⟨line, rest⟩ := cut
        simp only
        by_cases hfi : config.max_record_bytes < line.length
        · rw [if_pos hfi, recordOf_long hfi]
          exact fail_eq input config { st with buffer := rest } _ _
        · rw [if_neg hfi]
          cases hu : from_utf8 line with
          | none =>
            rw [recordOf_invalid hfi hu]
            exact fail_eq input config { st with buffer := rest } _ _
          | some s =>
            simp only
            cases hb : (trim s).isEmpty with
            | true =>
              rw [if_pos rfl, recordOf_blank hfi hu hb]
              exact ih { st with buffer := rest }
            | false =>
              rw [if_neg Bool.false_ne_true, recordOf_text hfi hu hb]
              obtain ⟨items, st', hp, hc⟩ :=
                push_eq input config { st with buffer := rest } (trim s)
              simp only [toCodec] at hc
              simp only [hp, toCodec, hc]
              exact congrArg (fun r => (items ++ r.1, r.2)) (ih st')

theorem end_of_stream_eq :
    (LinesCodec config).end_of_stream input config (toCodec st) =
      stream_codec.end_of_stream input config st := by
  have hf := fun st => congrArg Prod.fst (flush_batch_eq input config st)
  have hlast : (LinesCodec config).last st.buffer = last config st.buffer := rfl
  simp only [toCodec] at hf
  unfold stream_codec.end_of_stream RecordCodec.end_of_stream
  simp only [toCodec]
  by_cases he : st.buffer.isEmpty = true
  · simpa [he] using hf st
  · simp only [he, Bool.false_eq_true, if_false, hlast, last]
    cases hu : from_utf8 st.buffer with
    | none =>
      simp only [fail_eq input config { st with buffer := [] }]
      rfl
    | some s =>
      cases hb : (trim s).isEmpty with
      | true => simpa [hb] using hf { st with buffer := [] }
      | false =>
        simp only [hb, Bool.false_eq_true, if_false]
        by_cases hfi : config.max_record_bytes < st.buffer.length
        · simp only [hfi, if_true, fail_eq input config { st with buffer := [] }]
          rfl
        · obtain ⟨items, st', hp, hc⟩ := push_eq input config { st with buffer := [] } (trim s)
          simp only [toCodec] at hc
          simp only [hfi, if_false, hp, hc, hf]

theorem split_eq : (LinesCodec config).split input config = stream_codec.split input config := by
  have hl : ∀ (stream : List (Except CamelError (List UInt8))) (st : LinesState),
      (LinesCodec config).split_loop input config (toCodec st) stream =
        stream_codec.split_loop input config st stream := by
    intro stream
    induction stream with
    | nil => exact end_of_stream_eq input config
    | cons chunk stream ih =>
      intro st
      cases chunk with
      | error err => rfl
      | ok chunk =>
        have hc : (LinesCodec config).process_chunk input config (toCodec st) chunk =
            ((process_chunk input config st chunk).1,
              (process_chunk input config st chunk).2.map toCodec) :=
          lines_loop_eq input config _ { st with buffer := st.buffer ++ chunk }
        simp only [RecordCodec.split_loop, stream_codec.split_loop, hc]
        obtain ⟨items, next⟩ := process_chunk input config st chunk
        cases next with
        | none => rfl
        | some st' => exact congrArg (items ++ ·) (ih st')
  exact hl input.stream .new

end lines

/-! ## What the lines say -/

section

variable {R : Type} {limit : Nat} {check : List UInt8 → Except CamelError (Option R)}
  {codec : RecordCodec R}

/-- What a codec may read off lines, the last of which has not ended: a line that is too
long stops it, either for that or for what its check says. -/
inductive Reads (limit : Nat) (check : List UInt8 → Except CamelError (Option R)) :
    List (List UInt8) → List R × Except CamelError (List UInt8) → Prop
  | tail {rest} : rest.length ≤ limit → Reads limit check [rest] ([], .ok rest)
  | long {line lines} : limit < line.length →
      Reads limit check (line :: lines) ([], .error (.StreamLimitExceeded limit))
  | bad {line lines err} : lines ≠ [] → check line = .error err →
      Reads limit check (line :: lines) ([], .error err)
  | blank {line lines r} : check line = .ok none → Reads limit check lines r →
      Reads limit check (line :: lines) r
  | record {line lines record rs res} : check line = .ok (some record) →
      Reads limit check lines (rs, res) →
      Reads limit check (line :: lines) (record :: rs, res)

theorem Reads.ne_nil {lines : List (List UInt8)} {r : List R × Except CamelError (List UInt8)}
    (h : Reads limit check lines r) : lines ≠ [] := by
  cases h <;> simp

/-- What was scanned is what the lines say first, whatever comes behind the buffer. -/
def ScanReads (limit : Nat) (check : List UInt8 → Except CamelError (Option R))
    (buffer : List UInt8) (r : List R × Except CamelError (List UInt8)) : Prop :=
  match r.2 with
  | .error err => ∀ more, Reads limit check ((buffer ++ more).splitOn LF) (r.1, .error err)
  | .ok rest => LF ∉ rest ∧ rest.length ≤ limit ∧ ∀ more rs res,
      Reads limit check ((rest ++ more).splitOn LF) (rs, res) →
        Reads limit check ((buffer ++ more).splitOn LF) (r.1 ++ rs, res)

theorem ScanReads.blank {buffer line rest : List UInt8}
    {r : List R × Except CamelError (List UInt8)}
    (hs : split_to_newline buffer = some (line, rest)) (hc : check line = .ok none)
    (h : ScanReads limit check rest r) : ScanReads limit check buffer r := by
  obtain ⟨rs, res⟩ := r
  cases res with
  | error err =>
    intro more
    rw [splitOn_cut hs]
    exact .blank hc (h more)
  | ok last =>
    refine ⟨h.1, h.2.1, fun more rs' res hr => ?_⟩
    rw [splitOn_cut hs]
    exact .blank hc (h.2.2 more rs' res hr)

theorem ScanReads.record {buffer line rest : List UInt8} {record : R}
    {r : List R × Except CamelError (List UInt8)}
    (hs : split_to_newline buffer = some (line, rest))
    (hc : check line = .ok (some record)) (h : ScanReads limit check rest r) :
    ScanReads limit check buffer (record :: r.1, r.2) := by
  obtain ⟨rs, res⟩ := r
  cases res with
  | error err =>
    intro more
    rw [splitOn_cut hs]
    exact .record hc (h more)
  | ok last =>
    refine ⟨h.1, h.2.1, fun more rs' res hr => ?_⟩
    rw [splitOn_cut hs]
    exact .record hc (h.2.2 more rs' res hr)

variable (hfront : codec.front = line_front limit check)

include hfront

theorem scan_reads (rounds : Nat) (buffer : List UInt8) (h : buffer.length < rounds) :
    ScanReads limit check buffer (codec.scan rounds buffer) := by
  induction rounds generalizing buffer with
  | zero => omega
  | succ rounds ih =>
    unfold RecordCodec.scan
    rw [hfront]
    unfold line_front
    by_cases hlo : limit < buffer.length ∧ ¬LF ∈ buffer
    · rw [if_pos hlo]
      intro more
      obtain ⟨start, lines, hs⟩ := splitOn_start more hlo.2
      rw [hs]
      exact .long (by rw [length_append]; omega)
    · rw [if_neg hlo]
      cases hs : split_to_newline buffer with
      | none =>
        have hn := split_to_newline_eq_none hs
        refine ⟨hn, ?_, fun more rs res hr => hr⟩
        simp only [hn, not_false_eq_true, and_true] at hlo
        omega
      | some cut =>
        obtain ⟨line, rest⟩ := cut
        have hl := splitOn_cut hs
        have hle : rest.length < rounds := by
          have := congrArg List.length (split_to_newline_eq_some hs).1
          simp only [length_append, length_cons] at this
          omega
        have hre := ih rest hle
        simp only
        cases hc : check line with
        | error err =>
          intro more
          rw [hl]
          exact .bad (splitOn_ne_nil _ _) hc
        | ok found =>
          cases found with
          | none => exact hre.blank hs hc
          | some record => exact hre.record hs hc

theorem received_reads (arrived : List (List UInt8)) (buffer : List UInt8) (hn : LF ∉ buffer)
    (hs : buffer.length ≤ limit) :
    Reads limit check ((buffer ++ arrived.flatten).splitOn LF) (codec.received buffer arrived) := by
  induction arrived generalizing buffer with
  | nil =>
    simp only [flatten_nil, append_nil, splitOn_of_not_mem hn]
    exact .tail hs
  | cons chunk arrived ih =>
    have hsc := scan_reads hfront ((buffer ++ chunk).length + 1) (buffer ++ chunk) (by omega)
    rw [RecordCodec.received, flatten_cons, ← append_assoc]
    generalize codec.scan ((buffer ++ chunk).length + 1) (buffer ++ chunk) = r at hsc
    obtain ⟨rs, res⟩ := r
    cases res with
    | error err => exact hsc arrived.flatten
    | ok rest => exact hsc.2.2 arrived.flatten _ _ (ih rest hsc.1 hsc.2.1)

end

/-! ## What the pieces of a fixed size say -/

namespace chunks

variable {config : StreamSplitConfig}

theorem chunk_size_pos (h : config.validate = .ok ()) : 0 < chunk_size config := by
  unfold chunk_size
  cases hs : config.chunk_size with
  | none => decide
  | some n =>
    rw [getD_some]
    exact StreamSplitConfig.chunk_size_pos h hs

/-- Pieces of the whole size were cut off the bytes, and what is left is no such piece. -/
def Cuts (config : StreamSplitConfig) (bytes : List UInt8)
    (r : List (List UInt8) × Except CamelError (List UInt8)) : Prop :=
  ∃ rest, r.2 = .ok rest ∧ bytes = r.1.flatten ++ rest ∧
    (∀ piece ∈ r.1, piece.length = chunk_size config) ∧ rest.length < chunk_size config

theorem scan_cuts (hpo : 0 < chunk_size config) (rounds : Nat) (buffer : List UInt8)
    (h : buffer.length < rounds) :
    Cuts config buffer ((ChunksCodec config).scan rounds buffer) := by
  induction rounds generalizing buffer with
  | zero => omega
  | succ rounds ih =>
    have hfront : (ChunksCodec config).front buffer = front config buffer := rfl
    unfold RecordCodec.scan
    rw [hfront]
    unfold front
    by_cases hf : chunk_size config ≤ buffer.length
    · rw [if_pos hf]
      have hl : (buffer.drop (chunk_size config)).length < rounds := by
        rw [length_drop]
        omega
      obtain ⟨rest, ho, hb, hp, hr⟩ := ih _ hl
      refine ⟨rest, ho, ?_, ?_, hr⟩
      · rw [flatten_cons, append_assoc, ← hb, take_append_drop]
      · intro piece hpi
        rcases mem_cons.mp hpi with rfl | hpi
        · rw [length_take]
          omega
        · exact hp piece hpi
    · rw [if_neg hf]
      exact ⟨buffer, rfl, by simp, by simp, by omega⟩

theorem received_cuts (h : config.validate = .ok ()) (arrived : List (List UInt8))
    (buffer : List UInt8) (hs : buffer.length < chunk_size config) :
    Cuts config (buffer ++ arrived.flatten) ((ChunksCodec config).received buffer arrived) := by
  induction arrived generalizing buffer with
  | nil => exact ⟨buffer, rfl, by simp [RecordCodec.received], by simp [RecordCodec.received], hs⟩
  | cons chunk arrived ih =>
    obtain ⟨rest, ho, hb, hp, hr⟩ :=
      scan_cuts (chunk_size_pos h) ((buffer ++ chunk).length + 1) (buffer ++ chunk) (by omega)
    rw [RecordCodec.received]
    generalize (ChunksCodec config).scan ((buffer ++ chunk).length + 1) (buffer ++ chunk) = r at *
    obtain ⟨rs, res⟩ := r
    cases ho
    obtain ⟨last, ho', hb', hp', hlast⟩ := ih rest hr
    refine ⟨last, ho', ?_, ?_, hlast⟩
    · rw [flatten_cons, ← append_assoc, hb, append_assoc, hb', flatten_append, append_assoc]
    · intro piece hpi
      rcases mem_append.mp hpi with hpi | hpi
      · exact hp piece hpi
      · exact hp' piece hpi

end chunks

/-! ## A stream that fails -/

namespace IncrementalCodec

variable (from_str : String → Except String Value) (config : StreamSplitConfig)
  (arrived : List (List UInt8))

/-- What was completely received reaches the output, and then the error that ended it. -/
def KeepsReceived (err : CamelError) (input : StreamSplitInput) (output : List Item) :
    IncrementalCodec → Prop
  | .Ndjson => (ndjson.NdjsonCodec from_str config).KeepsReceived input config arrived err output
  | .Lines => (lines.LinesCodec config).KeepsReceived input config arrived err output
  | .Chunks => (chunks.ChunksCodec config).KeepsReceived input config arrived err output

/-- How many records were completely received. -/
def receivedCount : IncrementalCodec → Nat
  | .Ndjson => ((ndjson.NdjsonCodec from_str config).received [] arrived).1.length
  | .Lines => ((lines.LinesCodec config).received [] arrived).1.length
  | .Chunks => ((chunks.ChunksCodec config).received [] arrived).1.length

/-- The error of its own that the codec met in what had arrived. -/
def ownError : IncrementalCodec → Option CamelError
  | .Ndjson => errorOf ((ndjson.NdjsonCodec from_str config).received [] arrived).2
  | .Lines => errorOf ((lines.LinesCodec config).received [] arrived).2
  | .Chunks => errorOf ((chunks.ChunksCodec config).received [] arrived).2
where
  errorOf : Except CamelError (List UInt8) → Option CamelError
    | .error err => some err
    | .ok _ => none

theorem ownError_ne_none (res : Except CamelError (List UInt8)) :
    ownError.errorOf res ≠ none ↔ ∃ own, res = .error own := by
  cases res <;> simp [ownError.errorOf]

theorem keepsReceived_iff (hp : 0 < config.batch_size) (codec : IncrementalCodec)
    (parent : Exchange) (metadata : StreamMetadata) (err : CamelError)
    (more : List (Except CamelError (List UInt8))) :
    let input := ⟨parent, arrived.map .ok ++ .error err :: more, metadata⟩
    codec.KeepsReceived from_str config arrived err input (codec.split from_str input config) ↔
      codec.ownError from_str config arrived ≠ none ∨
        codec.receivedCount from_str config arrived % config.batch_size = 0 := by
  intro input
  cases codec with
  | Ndjson | Chunks =>
    simp only [KeepsReceived, split, ownError, receivedCount, ownError_ne_none]
    exact RecordCodec.keepsReceived_iff hp parent metadata arrived err more
  | Lines =>
    simp only [KeepsReceived, split, ownError, receivedCount, ownError_ne_none]
    rw [← lines.split_eq]
    exact RecordCodec.keepsReceived_iff hp parent metadata arrived err more

/-- When the stream fails, a batch that is open is lost. So what was received is kept if
the codec had stopped by itself, or if no batch was open. -/
theorem failed_stream_keeps_received_iff (from_str : String → Except String Value)
    (config : StreamSplitConfig) (hvalid : config.validate = .ok ()) (codec : IncrementalCodec)
    (parent : Exchange) (metadata : StreamMetadata) (arrived : List (List UInt8))
    (err : CamelError) (more : List (Except CamelError (List UInt8))) :
    let input := ⟨parent, arrived.map .ok ++ .error err :: more, metadata⟩
    codec.KeepsReceived from_str config arrived err input (codec.split from_str input config) ↔
      codec.ownError from_str config arrived ≠ none ∨
        codec.receivedCount from_str config arrived % config.batch_size = 0 :=
  keepsReceived_iff from_str config arrived (StreamSplitConfig.batch_size_pos hvalid) codec
    parent metadata err more

/-- Batches of two records, in pieces of one byte where pieces are cut. -/
def batchesOfTwo : StreamSplitConfig :=
  { StreamSplitConfig.default with batch_size := 2, chunk_size := some 1 }

/-- A parser that knows one number. -/
def parseOne (s : String) : Except String Value :=
  if s = "1" then .ok (.Number (.PosInt 1)) else .error "expected value at line 1 column 1"

/-- One record was received, `1` and its line feed, or in pieces of one byte. -/
def oneRecord : IncrementalCodec → List (List UInt8)
  | .Ndjson => [[49, 10]]
  | .Lines => [[49, 10]]
  | .Chunks => [[49]]

/-- The input of a stream that fails behind its first record. -/
def failsAfterOne (codec : IncrementalCodec) : StreamSplitInput :=
  ⟨.new .default, (oneRecord codec).map .ok ++ [.error (.Io "connection reset")], ⟨none, none⟩⟩

theorem failed_stream_loses_record :
    batchesOfTwo.validate = .ok () ∧ ∀ codec : IncrementalCodec,
      ¬codec.KeepsReceived parseOne batchesOfTwo (oneRecord codec) (.Io "connection reset")
        (failsAfterOne codec) (codec.split parseOne (failsAfterOne codec) batchesOfTwo) := by
  have hc : ∀ codec : IncrementalCodec,
      codec.receivedCount parseOne batchesOfTwo (oneRecord codec) = 1 := by
    rintro (_ | _ | _) <;> decide +kernel
  have ho : ∀ codec : IncrementalCodec,
      (codec.ownError parseOne batchesOfTwo (oneRecord codec)).isNone := by
    rintro (_ | _ | _) <;> decide +kernel
  refine ⟨rfl, fun codec hk => ?_⟩
  have hi := keepsReceived_iff parseOne batchesOfTwo (oneRecord codec) (by decide) codec
    (.new .default) ⟨none, none⟩ (.Io "connection reset") []
  rcases hi.mp hk with he | hf
  · exact he (isNone_iff_eq_none.mp (ho codec))
  · rw [hc codec] at hf
    exact absurd hf (by decide)

/-- One record a batch: nothing is open when the stream fails. -/
theorem failed_stream_of_single_records :
    { batchesOfTwo with batch_size := 1 }.validate = .ok () ∧
      KeepsReceived parseOne { batchesOfTwo with batch_size := 1 } (oneRecord .Lines)
        (.Io "connection reset") (failsAfterOne .Lines)
        (split parseOne (failsAfterOne .Lines) { batchesOfTwo with batch_size := 1 } .Lines)
        .Lines :=
  ⟨rfl, (failed_stream_keeps_received_iff parseOne { batchesOfTwo with batch_size := 1 } rfl .Lines
    (.new .default) ⟨none, none⟩ (oneRecord .Lines) (.Io "connection reset") []).mpr
    (.inr (Nat.mod_one _))⟩

end IncrementalCodec

end camel_processor.stream_codec
