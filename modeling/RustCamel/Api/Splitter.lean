-- The settings of a stream split in `camel-api/src/splitter.rs` with their check, the
-- exchange of a fragment and how the fragments come together again.
import RustCamel.Api.Exchange

namespace camel_api

open error (CamelError)

/-! ## The settings -/

inductive StreamSplitFormat where
  | Auto
  | Ndjson
  | Lines
  | Chunks
  | Zip
  | Tar
  | TarGz
  | Mime
  deriving DecidableEq

/-- A format as `{:?}` writes it. -/
def StreamSplitFormat.debug : StreamSplitFormat → String
  | .Auto => "Auto"
  | .Ndjson => "Ndjson"
  | .Lines => "Lines"
  | .Chunks => "Chunks"
  | .Zip => "Zip"
  | .Tar => "Tar"
  | .TarGz => "TarGz"
  | .Mime => "Mime"

structure StreamSplitConfig where
  format : StreamSplitFormat
  max_record_bytes : Nat
  batch_size : Nat
  chunk_size : Option Nat
  max_parts : Option Nat
  max_part_size : Option Nat
  content_types : Option (List String)
  include_origin : Bool

def StreamSplitConfig.default : StreamSplitConfig where
  format := .Auto
  max_record_bytes := 1024 * 1024
  batch_size := 1
  chunk_size := none
  max_parts := none
  max_part_size := none
  content_types := none
  include_origin := true

def StreamSplitConfig.validate (config : StreamSplitConfig) : Except CamelError Unit := do
  if config.batch_size = 0 then
    throw (.Config "stream split batch_size must be > 0")
  if config.max_record_bytes = 0 then
    throw (.Config "stream split max_record_bytes must be > 0")
  if config.format = .Chunks ∧ config.chunk_size.isNone then
    throw (.Config "stream split format=Chunks requires chunk_size")
  if config.format = .Zip ∧ config.chunk_size.isSome then
    throw (.Config "stream split format=Zip does not support chunk_size")
  if (config.format = .Tar ∨ config.format = .TarGz) ∧ config.chunk_size.isSome then
    throw (.Config (s!"stream split format={config.format.debug} is a materialized archive " ++
      "format and does not support chunk_size"))
  if config.chunk_size = some 0 then
    throw (.Config "stream split chunk_size must be > 0")
  if config.format = .Chunks ∧ config.max_record_bytes < config.chunk_size.getD 0 then
    throw (.Config "stream split chunk_size must be <= max_record_bytes")
  if config.format = .Mime then
    if config.chunk_size.isSome then
      throw (.Config "stream split format=Mime does not support chunk_size")
    if config.batch_size ≠ 1 then
      throw (.Config "stream split format=Mime requires batch_size=1")
    if config.max_parts = some 0 then
      throw (.Config "stream split max_parts must be > 0")
    if config.max_part_size = some 0 then
      throw (.Config "stream split max_part_size must be > 0")
  else
    if config.max_parts.isSome then
      throw (.Config "stream split max_parts is only supported for format=Mime")
    if config.max_part_size.isSome then
      throw (.Config "stream split max_part_size is only supported for format=Mime")
    if config.content_types.isSome then
      throw (.Config "stream split content_types is only supported for format=Mime")

variable {config : StreamSplitConfig}

/-- A setting that passes the check has room for a record in its batches. -/
theorem StreamSplitConfig.batch_size_pos (h : config.validate = .ok ()) :
    0 < config.batch_size := by
  rcases Nat.eq_zero_or_pos config.batch_size with hzero | hp
  · simp [validate, hzero, throw, throwThe, MonadExceptOf.throw, bind, Except.bind] at h
  · exact hp

theorem StreamSplitConfig.chunk_size_pos {n : Nat} (h : config.validate = .ok ())
    (hs : config.chunk_size = some n) : 0 < n := by
  rcases Nat.eq_zero_or_pos n with hzero | hp
  · -- A chunk size of zero is refused, if nothing was refused before.
    subst hzero
    simp only [validate, hs, throw, throwThe, MonadExceptOf.throw, bind, Except.bind, pure,
      Except.pure, Option.isNone_some, Option.isSome_some, Bool.false_eq_true, and_false,
      if_false, and_true, if_true] at h
    repeat' split at h
    all_goals cases h
  · exact hp

/-! ## Fragments -/

/-- How the outputs of the fragments become one exchange. -/
inductive AggregationStrategy where
  | LastWins
  | CollectAll
  | Original
  | Custom (fold_fn : Exchange → Exchange → Exchange)

def fragment_exchange (parent : Exchange) (body : Body) : Exchange :=
  { Exchange.new ⟨parent.input.headers, body⟩ with properties := parent.properties }

end camel_api
