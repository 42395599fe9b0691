-- The data format `application/x-www-form-urlencoded` of
-- `camel-processor/src/data_format/form.rs`: its codec for one component, the split into pairs,
-- the row of a repeated key, and the way of an object to the text and back.
import RustCamel.Api.Exchange
import RustCamel.Endpoint.EndpointUri

open List

namespace camel_processor.data_format.form

open camel_api (Body Number Value)
open camel_api.endpoint_uri (ascii_byte bytes_ofList from_utf8_bytes)
open camel_endpoint.uri (bytes from_utf8)

/-- The entries of an object in the order in which they came. -/
abbrev Map := List (String × Value)

abbrev Pair := String × String

structure FormConfig where
  max_fields : Option Nat := some 1000
  max_bytes : Option Nat := some 1048576

/-- Why a body is refused. Each one stands for a `TypeConversionFailed` with its own text. -/
inductive FormError where
  | maxBytes (len max_bytes : Nat)
  | maxFields (max_fields : Nat)
  | malformedEscape (escape : List UInt8) (offset : Nat)
  | invalidUtf8 (decoded : List UInt8) (base_offset : Nat)
  | nested (key : String)
  | notAnObject (shape : String)
  | stream
  | unsupported

/-! ## Reading -/

def add_value (value : String) : Value → Value
  | .Array values => .Array (values ++ [.String value])
  | first => .Array [first, .String value]

/-- One turn of `pairs_to_body`. A key that comes again gathers its values in an array. -/
def push_pair : Map → Pair → Map
  | [], (key, value) => [(key, .String value)]
  | (k, existing) :: map, (key, value) =>
    if k = key then (k, add_value value existing) :: map
    else (k, existing) :: push_pair map (key, value)

def pairs_to_body (pairs : List Pair) : Body := .Json (.Object (pairs.foldl push_pair []))

def hex_nibble (byte : UInt8) : Option UInt8 :=
  if 48 ≤ byte ∧ byte ≤ 57 then some (byte - 48)
  else if 97 ≤ byte ∧ byte ≤ 102 then some (byte - 97 + 10)
  else if 65 ≤ byte ∧ byte ≤ 70 then some (byte - 65 + 10)
  else none

/-- The loop of `decode_component`, at `offset` bytes from the start of the text. -/
def decode_loop : Nat → List UInt8 → Except FormError (List UInt8)
  | _, [] => .ok []
  | offset, byte :: rest =>
    if byte = 43 then (32 :: ·) <$> decode_loop (offset + 1) rest
    else if byte = 37 then
      match rest with
      | hi :: lo :: rest =>
        match hex_nibble hi, hex_nibble lo with
        | some high, some low => ((high * 16 + low) :: ·) <$> decode_loop (offset + 3) rest
        | _, _ => .error (.malformedEscape [byte, hi, lo] offset)
      | rest => .error (.malformedEscape (byte :: rest) offset)
    else (byte :: ·) <$> decode_loop (offset + 1) rest

def decode_component (raw : List UInt8) (base_offset : Nat) : Except FormError String := do
  let decoded ← decode_loop base_offset raw
  match from_utf8 decoded with
  | some text => .ok text
  | none => .error (.invalidUtf8 decoded base_offset)

/-- The loop of `parse_form_pairs` over the segments between the separators. -/
def parse_segments (cfg : FormConfig) :
    Nat → List Pair → List (List UInt8) → Except FormError (List Pair)
  | _, pairs, [] => .ok pairs
  | offset, pairs, segment :: segments => do
    let next := offset + segment.length + 1
    if segment.isEmpty then parse_segments cfg next pairs segments
    else
      if let some max_fields := cfg.max_fields then
        if max_fields ≤ pairs.length then throw (.maxFields max_fields)
      let (raw_key, raw_value, value_offset) := match segment.idxOf? 61 with
        | some eq => (segment.take eq, segment.drop (eq + 1), offset + eq + 1)
        | none => (segment, [], offset + segment.length)
      let key ← decode_component raw_key offset
      let value ← decode_component raw_value value_offset
      parse_segments cfg next (pairs ++ [(key, value)]) segments

def parse_form_pairs (input : List UInt8) (cfg : FormConfig) : Except FormError (List Pair) := do
  if let some max_bytes := cfg.max_bytes then
    if max_bytes < input.length then throw (.maxBytes input.length max_bytes)
  parse_segments cfg 0 [] (input.splitOn 38)

def unmarshal (cfg : FormConfig) : Body → Except FormError Body
  | .Text text => pairs_to_body <$> parse_form_pairs (bytes text) cfg
  | .Bytes input => pairs_to_body <$> parse_form_pairs input cfg
  | .Empty => .ok .Empty
  | .Stream _ => .error .stream
  | _ => .error .unsupported

/-! ## Writing -/

def HEX : List Char := "0123456789ABCDEF".toList

def hex (nibble : UInt8) : Char := HEX.getD nibble.toNat '0'

/-- What `encode_form_component` pushes for a byte. -/
def encode_byte (byte : UInt8) : List Char :=
  if (65 ≤ byte ∧ byte ≤ 90) ∨ (97 ≤ byte ∧ byte ≤ 122) ∨ (48 ≤ byte ∧ byte ≤ 57) ∨
      byte = 42 ∨ byte = 45 ∨ byte = 46 ∨ byte = 95 then [Char.ofNat byte.toNat]
  else if byte = 32 then ['+']
  else ['%', hex (byte >>> 4), hex (byte &&& 15)]

def encode_form_component (s : String) : List Char := (bytes s).flatMap encode_byte

/-- The text of a pair, without a separator before it. -/
def segment (pair : Pair) : List Char :=
  encode_form_component pair.1 ++ '=' :: encode_form_component pair.2

def push_form_pair (out : List Char) (pair : Pair) : List Char :=
  (if out.isEmpty then out else out ++ ['&']) ++ segment pair

variable (to_string : Number → String)

def scalar_to_form_string : Value → Option String
  | .String s => some s
  | .Number n => some (to_string n)
  | .Bool b => some (if b then "true" else "false")
  | .Null => some "null"
  | .Array _ | .Object _ => none

def json_shape : Value → String
  | .Null => "null"
  | .Bool _ => "boolean"
  | .Number _ => "number"
  | .String _ => "string"
  | .Array _ => "array"
  | .Object _ => "object"

def push_scalar (key : String) (out : List Char) (value : Value) : Except FormError (List Char) :=
  match scalar_to_form_string to_string value with
  | some text => .ok (push_form_pair out (key, text))
  | none => .error (.nested key)

def push_entry (out : List Char) : String × Value → Except FormError (List Char)
  | (key, .Array items) => items.foldlM (push_scalar to_string key) out
  | (key, value) => push_scalar to_string key out value

def marshal : Body → Except FormError Body
  | .Empty => .ok .Empty
  | .Stream _ => .error .stream
  | .Json (.Object map) => do
    let encoded ← map.foldlM (push_entry to_string) []
    .ok (.Text (.ofList encoded))
  | .Json other => .error (.notAnObject (json_shape other))
  | _ => .error .unsupported

/-! ## One component -/

variable {cfg : FormConfig} {map : Map} {key : String} {value : Value} {pair : Pair} {c : Char}

theorem forall_byte {P : UInt8 → Prop} (h : ∀ n : Fin 256, P (.ofNat n)) (b : UInt8) : P b := by
  simpa using h ⟨b.toNat, b.toNat_lt⟩

/-- How the reader finds a byte again: as itself, as a plus sign, or in two digits. -/
def Spells (b : UInt8) : List UInt8 → Bool
  | [x] => (x = 43 ∧ b = 32) ∨ (x = b ∧ b ≠ 43 ∧ b ≠ 37)
  | [x, hi, lo] => x = 37 ∧ hex_nibble hi = some (b >>> 4) ∧ hex_nibble lo = some (b &&& 15) ∧
      (b >>> 4) * 16 + (b &&& 15) = b
  | _ => false

theorem spells_encode_byte : ∀ b, Spells b ((encode_byte b).map ascii_byte) :=
  forall_byte (by decide +kernel)

theorem encode_byte_plain : ∀ b, ∀ c ∈ encode_byte b,
    c.toNat < 128 ∧ ascii_byte c ≠ 38 ∧ ascii_byte c ≠ 61 :=
  forall_byte (@of_decide_eq_true _ (@Nat.decidableForallFin _ _ fun _ => decidableBAll _ _)
    (by decide +kernel))

theorem decode_loop_spells {b : UInt8} {code rest out : List UInt8} (h : Spells b code)
    (hr : ∀ offset, decode_loop offset rest = .ok out) (offset : Nat) :
    decode_loop offset (code ++ rest) = .ok (b :: out) := by
  match code with
  | [x] =>
    simp only [Spells, decide_eq_true_eq] at h
    rcases h with ⟨rfl, rfl⟩ | ⟨rfl, hpl, hp⟩
    · rw [singleton_append, decode_loop.eq_def]
      simp only [↓reduceIte, hr]
      rfl
    · rw [singleton_append, decode_loop.eq_def]
      simp only [hpl, hp, ↓reduceIte, hr]
      rfl
  | [x, hi, lo] =>
    simp only [Spells, decide_eq_true_eq] at h
    obtain ⟨rfl, hh, hl, hb⟩ := h
    simp only [cons_append, nil_append, decode_loop, hh, hl, hr, hb]
    rfl

/-- The bytes that are written for a text. -/
def coded (s : String) : List UInt8 := (encode_form_component s).map ascii_byte

theorem decode_component_coded (s : String) (offset : Nat) :
    decode_component (coded s) offset = .ok s := by
  have hl : ∀ (bs : List UInt8) (offset : Nat),
      decode_loop offset ((bs.flatMap encode_byte).map ascii_byte) = .ok bs := by
    intro bs
    induction bs with
    | nil => exact fun _ => rfl
    | cons b bs ih =>
      intro offset
      rw [flatMap_cons, map_append]
      exact decode_loop_spells (spells_encode_byte b) ih offset
  unfold decode_component coded encode_form_component
  rw [hl]
  change (match from_utf8 (bytes s) with | some text => _ | none => _) = _
  rw [from_utf8_bytes]

theorem component_plain {s : String} (h : c ∈ encode_form_component s) :
    c.toNat < 128 ∧ ascii_byte c ≠ 38 ∧ ascii_byte c ≠ 61 := by
  obtain ⟨b, -, hc⟩ := mem_flatMap.mp h
  exact encode_byte_plain b c hc

theorem segment_plain (h : c ∈ segment pair) : c.toNat < 128 ∧ ascii_byte c ≠ 38 := by
  rcases mem_append.mp h with hk | hv
  · exact ⟨(component_plain hk).1, (component_plain hk).2.1⟩
  · rcases mem_cons.mp hv with rfl | hv
    · decide
    · exact ⟨(component_plain hv).1, (component_plain hv).2.1⟩

/-! ## The row of pairs -/

def segment_bytes (pair : Pair) : List UInt8 := (segment pair).map ascii_byte

theorem idxOf_segment (pair : Pair) :
    (segment_bytes pair).idxOf? 61 = some (coded pair.1).length := by
  have hk : (coded pair.1).idxOf? 61 = none := by
    rw [idxOf?_eq_none_iff]
    intro hm
    obtain ⟨c, hc, heq⟩ := mem_map.mp hm
    exact (component_plain hc).2.2 heq
  have hn : (coded pair.1).findIdx? (· == 61) = none := hk
  unfold segment_bytes segment
  rw [map_append, idxOf?, findIdx?_append, ← coded, hn, map_cons, findIdx?_cons]
  simp [show ascii_byte '=' = 61 from rfl]

theorem parse_segments_eq (pairs done : List Pair) (offset : Nat)
    (hr : ∀ max, cfg.max_fields = some max → done.length + pairs.length ≤ max) :
    parse_segments cfg offset done (pairs.map segment_bytes) = .ok (done ++ pairs) := by
  induction pairs generalizing done offset with
  | nil => simp [parse_segments]
  | cons pair pairs ih =>
    have hs : segment_bytes pair = coded pair.1 ++ 61 :: coded pair.2 := by
      simp [segment_bytes, segment, coded]
      rfl
    have hso : (segment_bytes pair).isEmpty = false := by simp [hs]
    have ht : (segment_bytes pair).take (coded pair.1).length = coded pair.1 := by
      simp [hs]
    have hd : (segment_bytes pair).drop ((coded pair.1).length + 1) = coded pair.2 := by
      simp [hs, drop_append]
    rw [map_cons, parse_segments, hso, idxOf_segment]
    simp only [Bool.false_eq_true, ↓reduceIte, ht, hd, decode_component_coded]
    have hn := ih (done ++ [pair]) (offset + (segment_bytes pair).length + 1)
      (by simpa [Nat.add_assoc, Nat.add_comm 1] using hr)
    rw [append_assoc, singleton_append] at hn
    cases hf : cfg.max_fields with
    | none => exact hn
    | some max =>
      have hl := hr max hf
      rw [length_cons] at hl
      simp only [if_neg (show ¬max ≤ done.length by omega)]
      exact hn

theorem joined_pairs (pairs : List Pair) {out : List Char} (h : out ≠ []) :
    pairs.foldl push_form_pair out = out ++ pairs.flatMap ('&' :: segment ·) := by
  induction pairs generalizing out with
  | nil => simp
  | cons pair pairs ih =>
    rw [foldl_cons, ih (by simp [push_form_pair, segment])]
    simp [push_form_pair, h]

theorem splitOn_segments (pair : Pair) (pairs : List Pair) :
    ((segment pair ++ pairs.flatMap ('&' :: segment ·)).map ascii_byte).splitOn 38 =
      (pair :: pairs).map segment_bytes := by
  have hp : ∀ pair, 38 ∉ segment_bytes pair := by
    intro pair hm
    obtain ⟨c, hc, heq⟩ := mem_map.mp hm
    exact (segment_plain hc).2 heq
  induction pairs generalizing pair with
  | nil =>
    rw [flatMap_nil, append_nil]
    exact splitOn_eq_singleton (hp pair)
  | cons next pairs ih =>
    rw [flatMap_cons, map_append, cons_append, map_cons]
    rw [show ascii_byte '&' = 38 from rfl]
    rw [← segment_bytes, splitOn_append_cons_self_of_not_mem (hp pair), ih]
    rfl

def form_text (pairs : List Pair) : String := .ofList (pairs.foldl push_form_pair [])

theorem parse_form_pairs_eq (pairs : List Pair)
    (hfi : ∀ max, cfg.max_fields = some max → pairs.length ≤ max)
    (hb : ∀ max, cfg.max_bytes = some max → (bytes (form_text pairs)).length ≤ max) :
    parse_form_pairs (bytes (form_text pairs)) cfg = .ok pairs := by
  have hp : parse_segments cfg 0 [] ((bytes (form_text pairs)).splitOn 38) = .ok pairs := by
    cases pairs with
    | nil => rfl
    | cons pair pairs =>
      have hf : push_form_pair [] pair = segment pair := rfl
      have ht := joined_pairs pairs (show segment pair ≠ [] by simp [segment])
      rw [form_text, foldl_cons, hf, ht, bytes_ofList, splitOn_segments]
      · exact parse_segments_eq (pair :: pairs) [] 0 (by simpa using hfi)
      · intro c hc
        rcases mem_append.mp hc with hc | hc
        · exact (segment_plain hc).1
        · obtain ⟨next, -, hc⟩ := mem_flatMap.mp hc
          rcases mem_cons.mp hc with rfl | hc
          · decide
          · exact (segment_plain hc).1
  unfold parse_form_pairs
  cases hm : cfg.max_bytes with
  | none => exact hp
  | some max =>
    simp only [if_neg (Nat.not_lt.mpr (hb max hm))]
    exact hp

/-! ## Objects -/

/-- A value that the format can hold: a text, or a row of two texts or more. -/
inductive FormValue : Value → Prop
  | text (s : String) : FormValue (.String s)
  | row {texts : List String} (h : 2 ≤ texts.length) : FormValue (.Array (texts.map .String))

def entry_texts : Value → List String
  | .String s => [s]
  | .Array items => items.filterMap fun item => if let .String s := item then some s else none
  | _ => []

/-- The pairs of an object, one for each text. -/
def pairs (map : Map) : List Pair := map.flatMap fun entry => (entry_texts entry.2).map (entry.1, ·)

theorem entry_texts_row (texts : List String) :
    entry_texts (.Array (texts.map .String)) = texts := by
  induction texts with
  | nil => rfl
  | cons text texts ih => simp_all [entry_texts]

theorem push_pair_new (value : String) (h : key ∉ map.map Prod.fst) :
    push_pair map (key, value) = map ++ [(key, .String value)] := by
  induction map with
  | nil => rfl
  | cons entry map ih =>
    rw [map_cons, mem_cons, not_or] at h
    rw [push_pair, if_neg (Ne.symm h.1), ih h.2, cons_append]

theorem push_pair_last (existing : Value) (value : String) (h : key ∉ map.map Prod.fst) :
    push_pair (map ++ [(key, existing)]) (key, value) =
      map ++ [(key, add_value value existing)] := by
  induction map with
  | nil => simp [push_pair]
  | cons entry map ih =>
    rw [map_cons, mem_cons, not_or] at h
    rw [cons_append, push_pair, if_neg (Ne.symm h.1), ih h.2, cons_append]

theorem push_row (values : List Value) (texts : List String) (h : key ∉ map.map Prod.fst) :
    (texts.map (key, ·)).foldl push_pair (map ++ [(key, .Array values)]) =
      map ++ [(key, .Array (values ++ texts.map .String))] := by
  induction texts generalizing values with
  | nil => simp
  | cons text texts ih =>
    rw [map_cons, foldl_cons, push_pair_last _ _ h, add_value, ih]
    simp

theorem push_entry_pairs (hv : FormValue value) (h : key ∉ map.map Prod.fst) :
    ((entry_texts value).map (key, ·)).foldl push_pair map = map ++ [(key, value)] := by
  cases hv with
  | text s => exact push_pair_new s h
  | @row texts hlen =>
    rw [entry_texts_row]
    match texts, hlen with
    | first :: second :: texts, _ =>
      rw [map_cons, foldl_cons, push_pair_new _ h, map_cons, foldl_cons, push_pair_last _ _ h]
      exact push_row [.String first, .String second] texts h

theorem pairs_to_body_pairs (map done : Map) (hk : ((done ++ map).map Prod.fst).Nodup)
    (hv : ∀ entry ∈ map, FormValue entry.2) :
    (pairs map).foldl push_pair done = done ++ map := by
  induction map generalizing done with
  | nil => simp [pairs]
  | cons entry map ih =>
    have hne : entry.1 ∉ done.map Prod.fst := by
      intro hm
      rw [map_append, nodup_append] at hk
      exact hk.2.2 _ hm _ (by simp) rfl
    have hn := ih (done ++ [entry]) (by simpa using hk) fun e he => hv e (.tail _ he)
    rw [pairs, flatMap_cons, foldl_append, push_entry_pairs (hv entry mem_cons_self) hne]
    simpa [pairs] using hn

variable {to_string}

theorem push_entry_eq (hv : FormValue value) (out : List Char) :
    push_entry to_string out (key, value) =
      .ok (((entry_texts value).map (key, ·)).foldl push_form_pair out) := by
  cases hv with
  | text s => rfl
  | @row texts hlen =>
    rw [entry_texts_row, push_entry]
    clear hlen
    induction texts generalizing out with
    | nil => rfl
    | cons text texts ih => exact ih _

theorem marshal_eq (hv : ∀ entry ∈ map, FormValue entry.2) :
    marshal to_string (.Json (.Object map)) = .ok (.Text (form_text (pairs map))) := by
  have hf : ∀ out, map.foldlM (push_entry to_string) out =
      .ok ((pairs map).foldl push_form_pair out) := by
    induction map with
    | nil => exact fun _ => rfl
    | cons entry map ih =>
      intro out
      rw [foldlM_cons, push_entry_eq (hv entry mem_cons_self), pairs, flatMap_cons, foldl_append]
      exact ih (fun e he => hv e (.tail _ he)) _
  rw [marshal, hf]
  rfl

/-- An object of texts and rows of texts comes back as it was, in its own order. -/
theorem form_comes_back (cfg : FormConfig) (to_string : Number → String) (map : Map)
    (hkeys : (map.map Prod.fst).Nodup) (hvalues : ∀ entry ∈ map, FormValue entry.2)
    (hfields : ∀ max, cfg.max_fields = some max → (pairs map).length ≤ max)
    (hbytes : ∀ max text, cfg.max_bytes = some max →
      marshal to_string (.Json (.Object map)) = .ok (.Text text) → (bytes text).length ≤ max) :
    (marshal to_string (.Json (.Object map)) >>= unmarshal cfg) = .ok (.Json (.Object map)) := by
  have hp := parse_form_pairs_eq (pairs map) hfields fun max hm =>
    hbytes max _ hm (marshal_eq hvalues)
  have hb := pairs_to_body_pairs map [] hkeys hvalues
  rw [marshal_eq hvalues]
  change pairs_to_body <$> parse_form_pairs _ cfg = _
  rw [hp]
  change Except.ok (pairs_to_body (pairs map)) = _
  rw [pairs_to_body, hb, nil_append]

/-- A blank, a separator, an empty text, and a letter of two bytes. -/
def basket : Map := [("é", .String "x&y"), ("tags", .Array [.String "", .String "a b"])]

theorem basket_comes_back :
    (marshal (fun _ => "0") (.Json (.Object basket)) >>= unmarshal {}) =
      .ok (.Json (.Object basket)) := by
  have hv : ∀ entry ∈ basket, FormValue entry.2 := by
    intro entry he
    rcases mem_pair.mp he with rfl | rfl
    · exact .text _
    · exact @FormValue.row ["", "a b"] (by decide)
  apply form_comes_back {} _ basket (by decide) hv
  · rintro max ⟨rfl⟩
    decide
  · rintro max text ⟨rfl⟩ ht
    rw [marshal_eq hv] at ht
    cases ht
    decide +kernel

end camel_processor.data_format.form
