-- The parser of endpoint URIs in `camel-endpoint/src/uri.rs`. It works on the UTF-8 bytes of
-- the text, and a query with a character of more than one byte makes it panic.
import RustCamel.Lifecycle.RouteRuntime

open List

namespace camel_endpoint.uri

open camel_core.lifecycle (Fault Outcome)

/-! ## The parts of a URI -/

structure UriComponents where
  scheme : String
  path : String
  params : List (String × String)
  raw_query : Option String

/-- Why a URI is refused. Each one stands for an `InvalidUri` with its own text. -/
inductive UriError where
  | missingSeparator (uri : String)
  | emptyScheme (uri : String)
  | invalidScheme (scheme : String)
  | incompleteEncoding (position : Nat) (text : String)
  | invalidEncoding (hi lo : UInt8) (text : String)
  | invalidUtf8 (bytes : List UInt8)
  | noValue (pair : String)
  | duplicateParameter (key : String)

def bytes (s : String) : List UInt8 := s.toUTF8.data.toList

def from_utf8 (b : List UInt8) : Option String := String.fromUTF8? ⟨b.toArray⟩

/-- `str::split_once` at an ASCII character. -/
def split_once (sep : Char) : List Char → Option (List Char × List Char)
  | [] => none
  | c :: rest =>
    if c = sep then some ([], rest)
    else (split_once sep rest).map fun (before, after) => (c :: before, after)

def SENSITIVE_KEYS : List String :=
  ["password", "secret", "token", "credential", "apikey", "accesskey", "privatekey"]

/-- `str::to_lowercase` on the letters it can meet in a key that is compared with ASCII
words, where it agrees with the ASCII rule but for the Kelvin sign. -/
def to_lowercase (s : String) : String := s.map fun c => if c = '\u212a' then 'k' else c.toLower

def is_sensitive_key (key : String) : Bool := SENSITIVE_KEYS.contains (to_lowercase key)

def is_raw_value (value : List Char) : Bool :=
  "RAW(".toList.isPrefixOf value && [')'].isSuffixOf value

def unwrap_raw (value : List Char) : List Char :=
  if is_raw_value value then (value.drop 4).dropLast else value

/-! ## Percent signs -/

def hex_digit (b : UInt8) : Option UInt8 :=
  if 48 ≤ b ∧ b ≤ 57 then some (b - 48)
  else if 97 ≤ b ∧ b ≤ 102 then some (b - 87)
  else if 65 ≤ b ∧ b ≤ 70 then some (b - 55)
  else none

/-- `u8::from_str_radix` on two characters. A leading plus sign is allowed there. -/
def from_str_radix (hi lo : UInt8) : Option UInt8 :=
  if hi = 43 then hex_digit lo
  else
    match hex_digit hi, hex_digit lo with
    | some h, some l => some (16 * h + l)
    | _, _ => none

/-- The loop of `percent_decode`, at byte `i` of the text. -/
def decodeLoop (text : String) : Nat → List UInt8 → Except UriError (List UInt8)
  | _, [] => .ok []
  | i, b :: rest =>
    if b = 37 then
      match rest with
      | hi :: lo :: rest =>
        match from_str_radix hi lo with
        | some byte => (byte :: ·) <$> decodeLoop text (i + 3) rest
        | none => .error (.invalidEncoding hi lo text)
      | _ => .error (.incompleteEncoding i text)
    else (b :: ·) <$> decodeLoop text (i + 1) rest

def percent_decode (s : String) : Except UriError String := do
  let result ← decodeLoop s 0 (bytes s)
  match from_utf8 result with
  | some text => .ok text
  | none => .error (.invalidUtf8 result)

/-! ## The query -/

/-- The loop of `split_query_pairs`: the pairs before, the pair so far, and how many `RAW(`
are open. After a character of more than one byte the next slice panics. -/
def splitLoop (pair : List Char) (raw_depth : Nat) : List Char → Option (List (List Char))
  | [] => some [pair]
  | 'R' :: 'A' :: 'W' :: '(' :: rest =>
    splitLoop (pair ++ ['R', 'A', 'W', '(']) (raw_depth + 1) rest
  | c :: rest =>
    if 128 ≤ c.toNat then none
    else if c = ')' ∧ 0 < raw_depth then splitLoop (pair ++ [c]) (raw_depth - 1) rest
    else if c = '&' ∧ raw_depth = 0 then (pair :: ·) <$> splitLoop [] raw_depth rest
    else splitLoop (pair ++ [c]) raw_depth rest

def split_query_pairs (query : List Char) : Option (List (List Char)) := splitLoop [] 0 query

/-- The value of a parameter. Only the value of a common key is decoded. -/
def parsed_value (decoded_key : String) (value : List Char) : Except UriError String :=
  if is_raw_value value then
    .ok (.ofList (if is_sensitive_key decoded_key then unwrap_raw value else value))
  else if is_sensitive_key decoded_key then .ok (.ofList value)
  else percent_decode (.ofList value)

def parsePairs (params : List (String × String)) :
    List (List Char) → Except UriError (List (String × String))
  | [] => .ok params
  | pair :: pairs => do
    match split_once '=' pair with
    | none => .error (.noValue (.ofList pair))
    | some (key, value) =>
      let decoded_key ← percent_decode (.ofList key)
      if (params.lookup decoded_key).isSome then .error (.duplicateParameter decoded_key)
      else
        let value ← parsed_value decoded_key value
        parsePairs (params ++ [(decoded_key, value)]) pairs

def orErr {α : Type} : Except UriError α → Outcome UriError α
  | .ok a => .ok a
  | .error e => .error (.err e)

def parse_query (query : List Char) : Outcome UriError (List (String × String)) :=
  match split_query_pairs query with
  | none => .error .panic
  | some pairs => orErr (parsePairs [] (pairs.filter (fun pair => !pair.isEmpty)))

def is_scheme_char (c : Char) : Bool := c.isAlphanum || c = '-'

/-- The path, the query and its parameters. Only the first question mark separates. -/
def parse_rest (rest : List Char) :
    Outcome UriError (List Char × Option String × List (String × String)) :=
  match split_once '?' rest with
  | none => .ok (rest, none, [])
  | some (path, query) =>
    match parse_query query with
    | .error e => .error e
    | .ok params => .ok (path, some (String.ofList query), params)

def parse_uri (uri : String) : Outcome UriError UriComponents :=
  match split_once ':' uri.toList with
  | none => .error (.err (.missingSeparator uri))
  | some (scheme, rest) =>
    if scheme.isEmpty then .error (.err (.emptyScheme uri))
    else if !scheme.all is_scheme_char then .error (.err (.invalidScheme (.ofList scheme)))
    else
      match parse_rest rest with
      | .error e => .error e
      | .ok (path, raw_query, params) =>
        match percent_decode (.ofList path) with
        | .error e => .error (.err e)
        | .ok path => .ok { scheme := .ofList scheme, path, params, raw_query }

def UriComponents.get (parts : UriComponents) (key : String) : Option String :=
  parts.params.lookup key

def parse_bool_param (s : String) : Except String Bool :=
  let lower := to_lowercase s
  if lower ∈ ["true", "1", "yes"] then .ok true
  else if lower ∈ ["false", "0", "no"] then .ok false
  else .error s!"invalid boolean value: '{s}'"

/-! ## Splitting -/

theorem split_once_none {sep : Char} {s : List Char} (h : sep ∉ s) : split_once sep s = none := by
  induction s with
  | nil => rfl
  | cons c s ih =>
    simp only [mem_cons, not_or] at h
    rw [split_once, if_neg (Ne.symm h.1), ih h.2]
    rfl

theorem split_once_append {sep : Char} {a : List Char} (b : List Char) (h : sep ∉ a) :
    split_once sep (a ++ sep :: b) = some (a, b) := by
  induction a with
  | nil => simp [split_once]
  | cons c a ih =>
    simp only [mem_cons, not_or] at h
    rw [cons_append, split_once, if_neg (Ne.symm h.1), ih h.2]
    rfl

/-! ## When the parser panics -/

theorem splitLoop_eq_none_iff (pair : List Char) (raw_depth : Nat) (query : List Char) :
    splitLoop pair raw_depth query = none ↔ ∃ c ∈ query, 128 ≤ c.toNat := by
  fun_induction splitLoop pair raw_depth query with
  | case1 => simp
  | case2 pair raw_depth rest ih =>
    rw [ih]
    simp [mem_cons]
  | case3 pair raw_depth c rest hr hb => simp [hb]
  | case4 pair raw_depth c rest hr hs hc ih | case6 pair raw_depth c rest hr hs hc ha ih =>
    rw [ih]
    simp [hs]
  | case5 pair raw_depth c rest hr hs hc ha ih =>
    rw [Option.map_eq_map, Option.map_eq_none_iff, ih]
    simp [hs]

theorem parse_query_eq_panic_iff (query : List Char) :
    parse_query query = .error .panic ↔ ∃ c ∈ query, 128 ≤ c.toNat := by
  rw [← splitLoop_eq_none_iff [] 0 query]
  unfold parse_query split_query_pairs
  cases splitLoop [] 0 query with
  | none => simp
  | some pairs =>
    simp only
    cases parsePairs [] (pairs.filter fun pair => !pair.isEmpty) <;> simp [orErr]

/-- The rest of a URI has a query, and there a character of more than one byte. -/
def NonAsciiQuery (rest : List Char) : Prop :=
  ∃ path query, split_once '?' rest = some (path, query) ∧ ∃ c ∈ query, 128 ≤ c.toNat

theorem parse_rest_eq_panic_iff (rest : List Char) :
    parse_rest rest = .error .panic ↔ NonAsciiQuery rest := by
  unfold parse_rest NonAsciiQuery
  cases split_once '?' rest with
  | none => simp
  | some p =>
    obtain ⟨path, query⟩ := p
    simp only [Option.some.injEq, Prod.mk.injEq]
    have hq : (∃ path' query', (path = path' ∧ query = query') ∧ ∃ c ∈ query', 128 ≤ c.toNat) ↔
        parse_query query = .error .panic := by
      rw [parse_query_eq_panic_iff]
      simp
    rw [hq]
    cases parse_query query <;> simp

/-- The parser panics on a URI whose scheme it takes and whose query is not ASCII. -/
def Panics (uri : String) : Prop :=
  ∃ scheme rest, split_once ':' uri.toList = some (scheme, rest) ∧ scheme ≠ [] ∧
    scheme.all is_scheme_char = true ∧ NonAsciiQuery rest

theorem parse_uri_eq_panic_iff (uri : String) : parse_uri uri = .error .panic ↔ Panics uri := by
  unfold parse_uri Panics
  cases split_once ':' uri.toList with
  | none => simp
  | some p =>
    obtain ⟨scheme, rest⟩ := p
    have hp : (∃ scheme' rest', some (scheme, rest) = some (scheme', rest') ∧ scheme' ≠ [] ∧
        scheme'.all is_scheme_char = true ∧ NonAsciiQuery rest') ↔
        scheme ≠ [] ∧ scheme.all is_scheme_char = true ∧ parse_rest rest = .error .panic := by
      rw [parse_rest_eq_panic_iff]
      simp
    rw [hp]
    by_cases hn : scheme = []
    · simp [hn]
    · cases ha : scheme.all is_scheme_char with
      | false => simp [hn, ha]
      | true =>
        simp only [hn, ha, List.isEmpty_iff, if_false, Bool.not_true, Bool.false_eq_true, ne_eq,
          not_false_eq_true, true_and]
        cases parse_rest rest with
        | error f => simp
        | ok parts => cases hpa : percent_decode (.ofList parts.1) <;> simp [hpa]

theorem scheme_ne_empty {uri : String} {parts : UriComponents} (h : parse_uri uri = .ok parts) :
    parts.scheme ≠ "" := by
  unfold parse_uri at h
  split at h
  · simp at h
  · rename_i scheme rest hs
    split at h
    · simp at h
    · rename_i hn
      split at h
      · simp at h
      · split at h
        · simp at h
        · split at h
          · simp at h
          · obtain rfl := Except.ok.inj h
            simpa using hn

end camel_endpoint.uri
