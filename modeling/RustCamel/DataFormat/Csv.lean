-- The data format `csv` of `camel-processor/src/data_format/csv.rs`. Writer and reader are built
-- from one configuration by two functions, and the reader never gets the quote character. The
-- `csv` crate stands as a parameter, and so does what `serde_json` prints.
import Mathlib.Data.List.Sigma
import RustCamel.Endpoint.EndpointUri
import RustCamel.Xml.RoundTrip

open List hiding keys

namespace camel_processor.data_format.csv

open camel_api (Body Number Value)
open camel_api.error (CamelError)
open camel_api.endpoint_uri (from_utf8_bytes)
open camel_api.xml_convert (Map insert keys keys_insert_nodup lookup_of_mem mem_insert_value)
open camel_endpoint.uri (bytes from_utf8)

/-! ## The crate -/

inductive QuoteStyle where
  | Always
  | Necessary
  | NonNumeric
  | Never

inductive Terminator where
  | CRLF
  | Any (byte : UInt8)

inductive Trim where
  | All
  | Fields
  | None

structure WriterBuilder where
  delimiter : UInt8
  quote : UInt8
  double_quote : Bool
  escape : UInt8
  quote_style : QuoteStyle
  terminator : Terminator

/-- What is not set keeps the default of the crate, the quote character among it. -/
structure ReaderBuilder where
  delimiter : UInt8
  has_headers : Bool
  trim : Trim
  comment : Option UInt8
  quote : UInt8 := 34
  double_quote : Bool := true
  escape : Option UInt8 := none
  flexible : Bool := true

abbrev Record := List String

/-- `write_error` is what `write_record` answers behind the records that are written. `output` are
the bytes of all records, and `records` what a reader finds, the header among it. -/
structure Crate where
  write_error : WriterBuilder → List Record → Record → Option String
  output : WriterBuilder → List Record → List UInt8
  records : ReaderBuilder → List UInt8 → List (Except String Record)

/-! ## The configuration -/

inductive RecordSeparator where
  | Crlf
  | Lf

inductive QuoteMode where
  | All
  | Minimal
  | NonNumeric
  | None

inductive WidthMismatchPolicy where
  | Lenient
  | Warn
  | Error

structure CsvConfig where
  delimiter : Char := ','
  quote : Char := '"'
  quote_mode : QuoteMode := .Minimal
  double_quote : Bool := true
  escape : Option Char := none
  record_separator : RecordSeparator := .Crlf
  comment_marker : Option Char := none
  null_string : Option String := none
  headers : Option (List String) := none
  has_headers : Bool := true
  skip_header_record : Bool := false
  ignore_surrounding_spaces : Bool := true
  trim : Bool := false
  use_maps : Bool := true
  max_records : Option Nat := some 100000
  max_field_size : Option Nat := some 1048576
  width_mismatch : WidthMismatchPolicy := .Warn

/-- `char as u8`. -/
def as_u8 (c : Char) : UInt8 := .ofNat c.toNat

/-- What `serde_json` prints, the debug form of a value, and why bytes are not UTF-8. -/
structure Texts where
  number_to_string : Number → String
  value_to_string : Value → String
  debug : Value → String
  utf8_error : List UInt8 → String

def failed {α : Type} (text : String) : Except CamelError α := .error (.TypeConversionFailed text)

variable (csv : Crate) (t : Texts) (config : CsvConfig)

/-! ## Writing -/

def field_to_string : Value → String
  | .String s => s
  | .Number n => t.number_to_string n
  | .Bool b => toString b
  | .Null => ""
  | .Array items => ",".intercalate (items.map t.value_to_string)
  | .Object entries => t.value_to_string (.Object entries)

def is_formula (s : String) : Bool :=
  s.toList.head?.any fun c => ['=', '+', '-', '@', '\t', '\r'].contains c

def neutralize_formula_injection (s : String) : String := if is_formula s then "'" ++ s else s

def writer : WriterBuilder where
  delimiter := as_u8 config.delimiter
  quote := as_u8 config.quote
  double_quote := config.double_quote
  escape := (config.escape.map as_u8).getD 92
  quote_style := match config.quote_mode with
    | .All => .Always
    | .Minimal => .Necessary
    | .NonNumeric => .NonNumeric
    | .None => .Never
  terminator := match config.record_separator with
    | .Crlf => .CRLF
    | .Lf => .Any 10

def write_record (out : List Record) (record : Record) : Except CamelError (List Record) :=
  match csv.write_error (writer config) out record with
  | some e => failed ("CSV write error: " ++ e)
  | none => .ok (out ++ [record])

def write_header (header_keys : List String) : Except CamelError (List Record) :=
  if config.has_headers then
    write_record csv config [] (header_keys.map neutralize_formula_injection)
  else .ok []

/-- The record of an object. A key that it does not have gives an empty field. -/
def object_record (header_keys : List String) (obj : Map) : Record :=
  header_keys.map fun k =>
    neutralize_formula_injection (field_to_string t ((obj.lookup k).getD .Null))

def write_object (header_keys : List String) (out : List Record) :
    Value → Except CamelError (List Record)
  | .Object obj => write_record csv config out (object_record t header_keys obj)
  | row => failed ("CsvDataFormat::marshal expected all array elements to be objects, got " ++
      t.debug row)

def write_array (out : List Record) : Value → Except CamelError (List Record)
  | .Array items => write_record csv config out
      (items.map fun v => neutralize_formula_injection (field_to_string t v))
  | row => failed ("CsvDataFormat::marshal expected all array elements to be arrays, got " ++
      t.debug row)

def marshal_records : Value → Except CamelError (List Record)
  | .Array [] =>
    match config.has_headers, config.headers with
    | true, some h => write_record csv config [] (h.map neutralize_formula_injection)
    | _, _ => .ok []
  | .Array (.Object first :: rest) => do
    let header_keys := config.headers.getD (keys first)
    let out ← write_header csv config header_keys
    (.Object first :: rest).foldlM (write_object csv t config header_keys) out
  | .Array arr => arr.foldlM (write_array csv t config) []
  | .Object obj => do
    let header_keys := config.headers.getD (keys obj)
    let out ← write_header csv config header_keys
    write_record csv config out (object_record t header_keys obj)
  | json => failed ("CsvDataFormat::marshal only supports Json Array or Object, got " ++
      t.debug json)

def marshal : Body → Except CamelError Body
  | .Json json => do
    let out ← marshal_records csv t config json
    let output := csv.output (writer config) out
    match from_utf8 output with
    | some text => .ok (.Text text)
    | none => failed ("CSV output not UTF-8: " ++ t.utf8_error output)
  | .Text _ | .Bytes _ =>
    failed "CsvDataFormat::marshal expects Body::Json; use convert_body_to first"
  | .Stream _ => failed "cannot marshal Body::Stream — add 'stream_cache' before this step"
  | .Empty => failed "CsvDataFormat::marshal expects Body::Json"
  | .Xml _ =>
    failed "CsvDataFormat::marshal does not accept Body::Xml — use unmarshal(\"xml\") first"

/-! ## Reading -/

def reader : ReaderBuilder where
  delimiter := as_u8 config.delimiter
  has_headers := config.headers.isNone && config.has_headers
  trim := if config.trim then .All else if config.ignore_surrounding_spaces then .Fields else .None
  comment := config.comment_marker.map as_u8

def check_record_caps (record : Record) (count : Nat) : Except CamelError Unit := do
  if let some max := config.max_records then
    if max < count then failed s!"CSV unmarshal exceeded max_records {max}"
  if let some max_field := config.max_field_size then
    if let some s := record.find? fun s => max_field < s.utf8ByteSize then
      failed s!"CSV unmarshal field length {s.utf8ByteSize} exceeds max_field_size {max_field}"

def parse_field (val : String) : Value :=
  if config.null_string = some val then .Null else .String val

def read_object (header_keys : List String) (record : Record) : Map :=
  header_keys.zipIdx.foldl
    (fun obj key => insert obj key.1 (parse_field config (record[key.2]?.getD ""))) []

/-- The loop over the records that are left, `count` of which have been read. -/
def read_records (row : Record → Value) (width : Option Nat) :
    Nat → List (Except String Record) → Except CamelError (List Value)
  | _, [] => .ok []
  | _, .error e :: _ => failed ("CSV parse: " ++ e)
  | count, .ok record :: results => do
    check_record_caps config record (count + 1)
    if let some width := width then
      if record.length ≠ width ∧ config.width_mismatch matches .Error then
        failed (s!"CSV record {count + 1} width {record.length} differs from header width " ++
          s!"{width}")
    let rows ← read_records row width (count + 1) results
    .ok (row record :: rows)

/-- The keys, and the records behind those that `headers` takes. -/
def read_header (results : List (Except String Record)) :
    Except CamelError (Option (List String) × List (Except String Record)) :=
  match config.headers, config.has_headers, results with
  | some h, _, _ => .ok (some h, results)
  | none, true, [] => .ok (some [], [])
  | none, true, .error e :: _ => failed ("CSV header read: " ++ e)
  | none, true, .ok record :: results => .ok (some record, results)
  | none, false, _ => .ok (none, results)

def unmarshal_text (input : List UInt8) : Except CamelError Body := do
  let (header_keys, results) ← read_header config (csv.records (reader config) input)
  if config.use_maps then
    match header_keys with
    | none => failed ("CsvDataFormat::unmarshal with use_maps=true requires has_headers=true " ++
        "or configured headers")
    | some keys =>
      let results := if config.skip_header_record && config.headers.isSome then results.drop 1
        else results
      let rows ← read_records config (fun r => .Object (read_object config keys r))
        (some keys.length) 0 results
      .ok (.Json (.Array rows))
  else
    let rows ← read_records config (fun r => .Array (r.map .String)) none 0 results
    .ok (.Json (.Array rows))

def unmarshal : Body → Except CamelError Body
  | .Text text => unmarshal_text csv config (bytes text)
  | .Bytes b =>
    match from_utf8 b with
    | some text => unmarshal_text csv config (bytes text)
    | none => failed ("CSV bytes not UTF-8: " ++ t.utf8_error b)
  | .Json v => .ok (.Json v)
  | .Stream _ =>
    failed "cannot unmarshal Body::Stream directly — add 'stream_cache' before this step"
  | .Empty => failed "CsvDataFormat::unmarshal expects Body::Text or Body::Bytes"
  | .Xml _ => failed "CsvDataFormat::unmarshal does not accept Body::Xml"

/-! ## The round trip -/

/-- The configurations that are meant to bring a table back. -/
structure Admissible : Prop where
  ascii : config.delimiter.toNat < 128 ∧ config.quote.toNat < 128
  distinct : config.delimiter ≠ config.quote
  double_quote : config.double_quote = true
  escape : config.escape = none
  comment : config.comment_marker = none
  null : config.null_string = none
  trim : config.trim = false ∧ config.ignore_surrounding_spaces = false
  caps : config.max_records = none ∧ config.max_field_size = none
  maps : config.has_headers = true ∧ config.use_maps = true
  quoting : config.quote_mode ≠ .None

/-- Objects over one set of keys, in any order, with texts as their values. -/
structure Table (first : Map) (rest : List Map) : Prop where
  nodup : ∀ row ∈ first :: rest, (keys row).Nodup
  common : ∀ row ∈ first :: rest, (keys row).Perm (keys first)
  texts : ∀ row ∈ first :: rest, ∀ entry ∈ row, ∃ s, entry.2 = .String s ∧ is_formula s = false
  plain_keys : ∀ key ∈ keys first, is_formula key = false

/-- The reader is built for what the writer writes. -/
def Agree (w : WriterBuilder) (r : ReaderBuilder) : Prop :=
  r.delimiter = w.delimiter ∧ r.quote = w.quote ∧ r.double_quote = w.double_quote ∧
    r.escape = none ∧ r.comment = none ∧ r.trim matches .None

/-- The crate writes records of one width without an error, as UTF-8, and reads them back. -/
def Correct (w : WriterBuilder) (r : ReaderBuilder) : Prop :=
  (∀ (out : List Record) (record : Record), (∀ other ∈ out, other.length = record.length) →
    csv.write_error w out record = none) ∧
  ∀ (out : List Record) (width : Nat), 0 < width → (∀ record ∈ out, record.length = width) →
    ∃ text, csv.output w out = bytes text ∧ csv.records r (bytes text) = out.map .ok

/-- The reader's quote character is the writer's, there is a column, and a configured header has
the names of the table, each at least once, and is skipped. -/
structure Meets (first : Map) : Prop where
  quote : config.quote = '"'
  column : keys first ≠ []
  headers : ∀ h, config.headers = some h →
    config.skip_header_record = true ∧ ∀ key, key ∈ h ↔ key ∈ keys first

variable {csv t config} {first row : Map} {rest : List Map} {header_keys : List String}

theorem agree_of_admissible (h : Admissible config) (hq : config.quote = '"') :
    Agree (writer config) (reader config) := by
  refine ⟨rfl, by rw [writer, hq]; rfl, by rw [writer, h.double_quote]; rfl, rfl, ?_, ?_⟩
  · rw [reader, h.comment]
    rfl
  · rw [reader, h.trim.1, h.trim.2]
    rfl

theorem neutralize_plain {s : String} (h : is_formula s = false) :
    neutralize_formula_injection s = s := by
  rw [neutralize_formula_injection, h]
  rfl

theorem write_rows (h : Correct csv (writer config) (reader config)) (rows : List Map)
    (out : List Record) (hou : ∀ record ∈ out, record.length = header_keys.length) :
    (rows.map .Object).foldlM (write_object csv t config header_keys) out =
      .ok (out ++ rows.map (object_record t header_keys)) := by
  induction rows generalizing out with
  | nil =>
    rw [map_nil, map_nil, append_nil]
    rfl
  | cons row rows ih =>
    have hlen : (object_record t header_keys row).length = header_keys.length := by
      simp [object_record]
    rw [map_cons, foldlM_cons, write_object, write_record,
      h.1 out _ fun other ho => (hou other ho).trans hlen.symm]
    have hn := ih (out ++ [object_record t header_keys row])
      (by simpa [or_imp, forall_and, hlen] using hou)
    rw [append_assoc, singleton_append] at hn
    exact hn

theorem read_records_eq (h : Admissible config) (make : Record → Value) (width count : Nat)
    {records : List Record} (hw : ∀ record ∈ records, record.length = width) :
    read_records config make (some width) count (records.map .ok) = .ok (records.map make) := by
  induction records generalizing count with
  | nil => rfl
  | cons record records ih =>
    have hc : check_record_caps config record (count + 1) = .ok () := by
      simp only [check_record_caps, h.caps.1, h.caps.2]
      rfl
    rw [map_cons, read_records, hc]
    simp only [hw record mem_cons_self, ne_eq, not_true_eq_false, false_and, if_false]
    have hn := ih (count + 1) fun r hr => hw r (.tail _ hr)
    exact congrArg (· >>= fun rows => .ok (make record :: rows)) hn

theorem insert_all {α : Type} (value : String → Value) (make : String × α → Value)
    (entries : List (String × α)) (obj : Map) (hm : ∀ e ∈ entries, make e = value e.1)
    (ho : ∀ entry ∈ obj, entry.2 = value entry.1) (hn : (keys obj).Nodup) :
    (keys (entries.foldl (fun obj e => insert obj e.1 (make e)) obj)).Nodup ∧
      ∀ e, e ∈ entries.foldl (fun obj e => insert obj e.1 (make e)) obj ↔
        e ∈ obj ∨ ∃ key ∈ entries.map Prod.fst, e = (key, value key) := by
  induction entries generalizing obj with
  | nil => simpa using hn
  | cons first entries ih =>
    have hmem (e : String × Value) : e ∈ insert obj first.1 (value first.1) ↔
        e ∈ obj ∨ e = (first.1, value first.1) := mem_insert_value value ho
    rw [foldl_cons, hm first mem_cons_self]
    obtain ⟨hd, he⟩ := ih (insert obj first.1 (value first.1)) (fun e h => hm e (.tail _ h))
      (fun entry h => ((hmem entry).mp h).elim (ho entry) (· ▸ rfl)) (keys_insert_nodup hn)
    refine ⟨hd, fun e => ?_⟩
    rw [he, hmem]
    simp only [map_cons, mem_cons, exists_eq_or_imp, or_assoc]

/-- The value of a key, as the writer looks for it. -/
def cell (row : Map) (key : String) : Value := (row.lookup key).getD .Null

theorem read_object_eq (h : Admissible config) (ht : Table first rest)
    (hro : row ∈ first :: rest) (hk : ∀ key, key ∈ header_keys ↔ key ∈ keys first) :
    (read_object config header_keys (object_record t header_keys row)).Perm row := by
  have hke (key : String) : key ∈ header_keys ↔ key ∈ keys row :=
    (hk key).trans (ht.common row hro).mem_iff.symm
  have hc : ∀ entry ∈ row, cell row entry.1 = entry.2 := by
    intro entry he
    rw [cell, lookup_of_mem (ht.nodup row hro) he]
    rfl
  have hv : ∀ e ∈ header_keys.zipIdx, parse_field config
      ((object_record t header_keys row)[e.2]?.getD "") = cell row e.1 := by
    intro e he
    have hg : header_keys[e.2]? = some e.1 := by simpa using mem_zipIdx_iff_getElem?.mp he
    obtain ⟨entry, hen, hkey⟩ := mem_map.mp ((hke e.1).mp (mem_of_getElem? hg))
    obtain ⟨s, hs, hf⟩ := ht.texts row hro entry hen
    have hv : cell row e.1 = .String s := by rw [← hkey, hc entry hen, hs]
    simp only [object_record, getElem?_map, hg, Option.map_some, Option.getD_some]
    rw [← cell, hv, field_to_string, neutralize_plain hf, parse_field, h.null]
    rfl
  obtain ⟨hn, hm⟩ := insert_all (cell row)
    (fun e => parse_field config ((object_record t header_keys row)[e.2]?.getD ""))
    header_keys.zipIdx [] hv (by simp) (by simp [keys])
  refine (perm_ext_iff_of_nodup (.of_map _ hn) (.of_map _ (ht.nodup row hro))).mpr fun e => ?_
  rw [hm, zipIdx_map_fst]
  constructor
  · rintro (he | ⟨key, hkey, rfl⟩)
    · cases he
    · obtain ⟨entry, hen, rfl⟩ := mem_map.mp ((hke key).mp hkey)
      rw [hc entry hen]
      exact hen
  · intro he
    exact .inr ⟨e.1, (hke e.1).mpr (mem_map_of_mem he), Prod.ext rfl (hc e he).symm⟩

theorem unmarshal_records {header : List String} {records : List Record} {input : List UInt8}
    (h : Admissible config)
    (hh : ∀ given, config.headers = some given →
      config.skip_header_record = true ∧ given = header)
    (hr : csv.records (reader config) input = (header :: records).map .ok)
    (hl : ∀ record ∈ records, record.length = header.length) :
    unmarshal_text csv config input =
      .ok (.Json (.Array (records.map fun r => .Object (read_object config header r)))) := by
  have hro := read_records_eq h (fun r => .Object (read_object config header r))
    header.length 0 hl
  have hb := congrArg (fun rows => rows >>= fun rows => Except.ok (Body.Json (.Array rows))) hro
  unfold unmarshal_text
  rw [hr]
  cases hg : config.headers with
  | none =>
    simp only [read_header, hg, h.maps.1, h.maps.2, map_cons, Option.isSome_none,
      Bool.and_false, Bool.false_eq_true, if_false, if_true]
    exact hb
  | some given =>
    obtain ⟨hs, rfl⟩ := hh given hg
    simp only [read_header, hg, hs, h.maps.2, map_cons, Option.isSome_some,
      Bool.and_true, if_true]
    exact hb

/-- A table comes back, each object with its entries in the order of the header. -/
theorem csv_comes_back (csv : Crate) (t : Texts) (config : CsvConfig) (first : Map)
    (rest : List Map) (hconfig : Admissible config) (htable : Table first rest)
    (hmeets : Meets config first)
    (hcsv : Agree (writer config) (reader config) → Correct csv (writer config) (reader config)) :
    ∃ rows, (marshal csv t config (.Json (.Array ((first :: rest).map .Object))) >>=
        unmarshal csv t config) = .ok (.Json (.Array (rows.map .Object))) ∧
      Forall₂ Perm rows (first :: rest) := by
  have hc := hcsv (agree_of_admissible hconfig hmeets.quote)
  obtain ⟨header, hhe⟩ : ∃ header, config.headers.getD (keys first) = header := ⟨_, rfl⟩
  have hk : ∀ key, key ∈ header ↔ key ∈ keys first := by
    rw [← hhe]
    cases hh : config.headers with
    | none => exact fun _ => .rfl
    | some h => exact (hmeets.headers h hh).2
  have hp : header.map neutralize_formula_injection = header := by
    refine .trans (map_congr_left fun key hm => ?_) (map_id header)
    exact neutralize_plain (htable.plain_keys key ((hk key).mp hm))
  have hw : 0 < header.length := by
    obtain ⟨key, hm⟩ := exists_mem_of_ne_nil _ hmeets.column
    exact length_pos_of_mem ((hk key).mpr hm)
  set records := (first :: rest).map (object_record t header) with hr
  have hl : ∀ record ∈ records, record.length = header.length := by
    intro record hm
    obtain ⟨row, -, rfl⟩ := mem_map.mp hm
    simp [object_record]
  obtain ⟨text, ho, hre⟩ := hc.2 (header :: records) header.length hw
    (by simpa using hl)
  have hma : marshal csv t config (.Json (.Array ((first :: rest).map .Object))) =
      .ok (.Text text) := by
    have hwr : marshal_records csv t config (.Array ((first :: rest).map .Object)) =
        .ok (header :: records) := by
      rw [map_cons, marshal_records, hhe, write_header, hconfig.maps.1, if_pos rfl, hp,
        write_record, hc.1 [] header (by simp)]
      exact write_rows hc (first :: rest) [header] (by simp)
    rw [marshal, hwr]
    change (match from_utf8 (csv.output (writer config) (header :: records)) with
      | some text => _ | none => _) = _
    rw [ho, from_utf8_bytes]
  refine ⟨(first :: rest).map fun row => read_object config header (object_record t header row),
    ?_, ?_⟩
  · rw [hma]
    change unmarshal_text csv config (bytes text) = _
    have hres : records.map (fun r => Value.Object (read_object config header r)) =
        ((first :: rest).map fun row =>
          read_object config header (object_record t header row)).map .Object := by
      rw [hr, map_map, map_map]
      rfl
    rw [← hres]
    refine unmarshal_records hconfig (fun given hg => ?_) hre hl
    rw [hg] at hhe
    exact ⟨(hmeets.headers given hg).1, hhe⟩
  · rw [forall₂_map_left_iff, forall₂_same]
    exact fun row hro => read_object_eq hconfig htable hro hk

/-! ## A crate that quotes every field -/

/-- The rest of a field behind its opening quote. -/
def closing (quote : Char) (field : String) : List Char :=
  (field.toList.flatMap fun c => if c = quote then [quote, quote] else [c]) ++ [quote]

/-- A record behind its first opening quote. -/
def line (quote : Char) : Record → List Char
  | [] => []
  | field :: record =>
    closing quote field ++ record.flatMap (fun f => ',' :: quote :: closing quote f) ++ ['\r', '\n']

/-- A reader with a comma and `"`, inside a quoted field. -/
def inside : List Char → Record → List Char → List Record
  | field, record, '"' :: '"' :: rest => inside (field ++ ['"']) record rest
  | field, record, '"' :: ',' :: '"' :: rest => inside [] (record ++ [.ofList field]) rest
  | field, record, '"' :: '\r' :: '\n' :: '"' :: rest =>
    (record ++ [.ofList field]) :: inside [] [] rest
  | field, record, '"' :: _ => [record ++ [.ofList field]]
  | field, record, c :: rest => inside (field ++ [c]) record rest
  | _, _, [] => []

/-- Where a text has no quote at its start, its lines are cut at the commas. -/
def read_text : List Char → List Record
  | '"' :: rest => inside [] [] rest
  | text => (text.splitOn '\n').dropLast.map fun l => (l.dropLast.splitOn ',').map .ofList

def quoting : Crate where
  write_error _ _ _ := none
  output w out := bytes (.ofList (out.flatMap fun record =>
    Char.ofNat w.quote.toNat :: line (Char.ofNat w.quote.toNat) record))
  records _ input := match from_utf8 input with
    | some text => (read_text text.toList).map .ok
    | none => [.error "invalid UTF-8"]

theorem inside_closing (field : String) (before : List Char) (record : Record) (rest : List Char) :
    inside before record (closing '"' field ++ rest) =
      inside (before ++ field.toList) record ('"' :: rest) := by
  unfold closing
  generalize field.toList = cs
  induction cs generalizing before with
  | nil => simp
  | cons c cs ih =>
    by_cases hc : c = '"'
    · have hn := ih (before ++ ['"'])
      simp only [append_assoc, singleton_append] at hn ⊢
      simp only [hc, flatMap_cons, if_true, cons_append, nil_append, inside]
      exact hn
    · have hn := ih (before ++ [c])
      simp only [append_assoc, singleton_append] at hn ⊢
      rw [flatMap_cons, if_neg hc, singleton_append, cons_append, inside.eq_def]
      simp [hc, hn]

theorem inside_line (field : String) (fields record : Record) {tail : List Char}
    (h : tail = [] ∨ ∃ rest, tail = '"' :: rest) :
    inside [] record (line '"' (field :: fields) ++ tail) =
      (record ++ field :: fields) :: read_text tail := by
  induction fields generalizing field record with
  | nil =>
    rw [line, flatMap_nil, append_nil, append_assoc, inside_closing, nil_append]
    rcases h with rfl | ⟨rest, rfl⟩
    all_goals simp [inside, read_text]
  | cons next fields ih =>
    have hn := ih next (record ++ [field])
    simp only [line, append_assoc, cons_append, nil_append] at hn ⊢
    rw [flatMap_cons, inside_closing, cons_append, cons_append, nil_append]
    simp only [cons_append, inside, String.ofList_toList, append_assoc, hn]

theorem read_lines (out : List Record) (h : ∀ record ∈ out, record ≠ []) :
    read_text (out.flatMap fun r => '"' :: line '"' r) = out := by
  induction out with
  | nil => rfl
  | cons record out ih =>
    obtain ⟨field, fields, rfl⟩ := exists_cons_of_ne_nil (h record mem_cons_self)
    rw [flatMap_cons, cons_append, read_text, inside_line, ih fun r hr => h r (.tail _ hr)]
    · rfl
    · cases out with
      | nil => exact .inl rfl
      | cons next out => exact .inr ⟨_, rfl⟩

/-- Every field quoted, nothing trimmed and no cap. -/
def strict (quote : Char) : CsvConfig :=
  { quote, quote_mode := .All, ignore_surrounding_spaces := false, max_records := none,
    max_field_size := none }

theorem strict_admissible (quote : Char) (h : quote.toNat < 128) (hn : ',' ≠ quote) :
    Admissible (strict quote) :=
  ⟨⟨(by decide : ','.toNat < 128), h⟩, hn, rfl, rfl, rfl, rfl, ⟨rfl, rfl⟩, ⟨rfl, rfl⟩, ⟨rfl, rfl⟩,
    by simp [strict]⟩

theorem quoting_correct : Correct quoting (writer (strict '"')) (reader (strict '"')) := by
  refine ⟨fun _ _ _ => rfl, fun out width hw ho => ⟨_, rfl, ?_⟩⟩
  have hl := read_lines out fun record hm hnil => by
    rw [← ho record hm, hnil] at hw
    cases hw
  simp only [quoting, from_utf8_bytes, String.toList_ofList]
  exact congrArg (map Except.ok) hl

def texts : Texts := ⟨fun _ => "0", fun _ => "0", fun _ => "0", fun _ => "0"⟩

def order (key value : String) : Map := [(key, .String value)]

theorem order_table (key value : String) (hk : is_formula key = false)
    (hv : is_formula value = false) : Table (order key value) [] := by
  refine ⟨?_, ?_, ?_, ?_⟩
  all_goals simp [order, keys, hk, hv]

theorem order_comes_back :
    ∃ rows, (marshal quoting texts (strict '"') (.Json (.Array [.Object (order "dish" "a, \"b\"")]))
      >>= unmarshal quoting texts (strict '"')) = .ok (.Json (.Array (rows.map .Object))) ∧
      Forall₂ Perm rows [order "dish" "a, \"b\""] :=
  csv_comes_back quoting texts (strict '"') _ [] (strict_admissible '"' (by decide) (by decide))
    (order_table _ _ (by decide) (by decide)) ⟨rfl, by simp [order, keys], nofun⟩
    fun _ => quoting_correct

theorem other_quote_stays :
    Admissible (strict '\'') ∧ Table (order "dish" "tea") [] ∧
      ∃ rows, (marshal quoting texts (strict '\'') (.Json (.Array [.Object (order "dish" "tea")]))
        >>= unmarshal quoting texts (strict '\'')) = .ok (.Json (.Array (rows.map .Object))) ∧
        ¬Forall₂ Perm rows [order "dish" "tea"] := by
  refine ⟨strict_admissible _ (by decide) (by decide), order_table _ _ (by decide) (by decide),
    [order "'dish'" "'tea'"], rfl, ?_⟩
  rw [forall₂_cons]
  rintro ⟨hp, -⟩
  have hk := congrArg keys (perm_singleton.mp hp)
  exact absurd hk (by decide)

end camel_processor.data_format.csv
