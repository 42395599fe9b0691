-- The chunk codec of `stream_codec/chunks.rs` loses no byte: what it sends on, put together
-- again, is what it was given, and only the bytes decide what it sends.
import RustCamel.Processor.RecordCodecs

open List

namespace camel_processor.stream_codec

open camel_api (Body Exchange StreamSplitConfig)
open Batches (inBatches leftover)

/-! ## The exchanges of batches -/

namespace RecordCodec

variable {R : Type} (codec : RecordCodec R) (config : StreamSplitConfig)

theorem batch_exchange_body (input : StreamSplitInput) (offset : Nat) (records : List R) :
    (codec.batch_exchange input config offset records).input.body = codec.body records := by
  unfold batch_exchange
  simp only
  split
  all_goals
    split
    · split
      all_goals split <;> rfl
    · split <;> rfl

theorem items_stream (parent : Exchange) (metadata : StreamMetadata)
    (stream stream' : List (Except camel_api.error.CamelError (List UInt8))) (first : Nat)
    (batches : List (List R)) :
    codec.items ⟨parent, stream, metadata⟩ config first batches =
      codec.items ⟨parent, stream', metadata⟩ config first batches := by
  induction batches generalizing first with
  | nil => rfl
  | cons batch batches ih =>
    unfold items
    rw [ih]
    rfl

end RecordCodec

namespace chunks

variable {config : StreamSplitConfig}

def bytesOf : Item → Option (List UInt8)
  | .ok ex =>
    match ex.input.body with
    | .Bytes bytes => some bytes
    | _ => none
  | .error _ => none

theorem body_eq (batch : List (List UInt8)) : body batch = .Bytes batch.flatten := by
  unfold body
  split
  · simp
  · rfl

theorem bytesOf_items (input : StreamSplitInput) (first : Nat)
    (batches : List (List (List UInt8))) :
    ((ChunksCodec config).items input config first batches).map bytesOf =
      batches.map fun batch => some batch.flatten := by
  induction batches generalizing first with
  | nil => rfl
  | cons batch batches ih =>
    have hbo := (ChunksCodec config).batch_exchange_body config input (first + batch.length) batch
    have hb : (ChunksCodec config).body batch = .Bytes batch.flatten := body_eq batch
    rw [hb] at hbo
    simp only [RecordCodec.items, map_cons, ih, bytesOf, hbo]

/-! ## The records -/

section

variable (hvalid : config.validate = .ok ()) (hfits : chunk_size config ≤ config.max_record_bytes)

include hvalid hfits

theorem finish_received (arrived : List (List UInt8)) :
    (ChunksCodec config).finish ((ChunksCodec config).received [] arrived) =
      (inBatches (chunk_size config) arrived.flatten, none) := by
  have hpo := chunk_size_pos hvalid
  obtain ⟨rest, ho, hb, hp, hr⟩ := received_cuts hvalid arrived [] hpo
  rw [nil_append] at hb
  rw [hb, Batches.inBatches_of_pieces hpo hp hr]
  unfold RecordCodec.finish leftover
  rw [ho]
  cases he : rest.isEmpty with
  | true => simp [he]
  | false =>
    have hlast : (ChunksCodec config).last rest = .ok (some rest) := by
      show last config rest = _
      unfold last
      rw [if_neg (by omega)]
    simp [he, hlast]

theorem split_in_pieces (parent : Exchange) (metadata : StreamMetadata)
    (arrived : List (List UInt8)) :
    split config ⟨parent, arrived.map .ok, metadata⟩ =
      (ChunksCodec config).items ⟨parent, [], metadata⟩ config 0
        (inBatches config.batch_size (inBatches (chunk_size config) arrived.flatten)) := by
  unfold split
  rw [RecordCodec.split_reads]
  simp only [finish_received hvalid hfits, Option.toList_none, map_nil, append_nil]
  exact RecordCodec.items_stream ..

end

/-- Put together again, the bodies are the bytes that arrived. The records in them have the
chunk size but for the last, which is not empty, and other chunks with the same bytes give the
same exchanges. -/
theorem chunks_reassemble (config : StreamSplitConfig) (hvalid : config.validate = .ok ())
    (hfits : chunk_size config ≤ config.max_record_bytes) (parent : Exchange)
    (metadata : StreamMetadata) (arrived : List (List UInt8)) :
    (∃ records : List (List UInt8),
      (split config ⟨parent, arrived.map .ok, metadata⟩).map bytesOf =
          (inBatches config.batch_size records).map (fun batch => some batch.flatten) ∧
        records.flatten = arrived.flatten ∧
        (∀ record ∈ records.dropLast, record.length = chunk_size config) ∧
        ∀ record, records.getLast? = some record → record ≠ []) ∧
      ((split config ⟨parent, arrived.map .ok, metadata⟩).filterMap bytesOf).flatten =
        arrived.flatten ∧
      ∀ arrived' : List (List UInt8), arrived'.flatten = arrived.flatten →
        split config ⟨parent, arrived'.map .ok, metadata⟩ =
          split config ⟨parent, arrived.map .ok, metadata⟩ := by
  have hp := chunk_size_pos hvalid
  have hb : (split config ⟨parent, arrived.map .ok, metadata⟩).map bytesOf =
      (inBatches config.batch_size (inBatches (chunk_size config) arrived.flatten)).map
        fun batch => some batch.flatten := by
    rw [split_in_pieces hvalid hfits, bytesOf_items]
  refine ⟨⟨inBatches (chunk_size config) arrived.flatten, hb, ?_, ?_, ?_⟩, ?_, ?_⟩
  · exact Batches.flatten_inBatches _ _
  · exact Batches.length_of_mem_dropLast_inBatches hp _
  · intro record hlast
    exact Batches.ne_nil_of_mem_inBatches hp _ record (mem_of_getLast? hlast)
  · have hf : (split config ⟨parent, arrived.map .ok, metadata⟩).filterMap bytesOf =
        ((split config ⟨parent, arrived.map .ok, metadata⟩).map bytesOf).filterMap id := by
      rw [filterMap_map]
      rfl
    rw [hf, hb, filterMap_map]
    have hs : (id ∘ fun batch : List (List UInt8) => some batch.flatten) =
        some ∘ List.flatten := rfl
    rw [hs, filterMap_eq_map, ← flatten_flatten, Batches.flatten_inBatches,
      Batches.flatten_inBatches]
  · intro arrived' hsa
    rw [split_in_pieces hvalid hfits, split_in_pieces hvalid hfits, hsa]

/-- Pieces of two bytes. -/
def pairsOfBytes : StreamSplitConfig :=
  { StreamSplitConfig.default with format := .Chunks, chunk_size := some 2 }

/-- Five bytes in three chunks come out in pieces of two. -/
theorem five_bytes_reassemble :
    pairsOfBytes.validate = .ok () ∧ chunk_size pairsOfBytes ≤ pairsOfBytes.max_record_bytes ∧
      ((split pairsOfBytes ⟨.new .default, [[1], [2, 3, 4], [5]].map .ok, ⟨none, none⟩⟩).filterMap
        bytesOf).flatten = [1, 2, 3, 4, 5] :=
  ⟨rfl, by decide, (chunks_reassemble pairsOfBytes rfl (by decide) (.new .default) ⟨none, none⟩
    [[1], [2, 3, 4], [5]]).2.1⟩

end chunks

end camel_processor.stream_codec
