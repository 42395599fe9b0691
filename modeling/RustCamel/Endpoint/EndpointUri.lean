-- The merge of a base URI with a parameters map in `camel-api/src/endpoint_uri.rs`, and when
-- the parser of `camel-endpoint` reads the same parameters back from the rendered text.
import Mathlib.Data.String.Basic
import RustCamel.Endpoint.Uri
import RustCamel.Lib.OrdMap

namespace camel_api.endpoint_uri

open camel_core.lifecycle (Outcome)
open camel_endpoint.uri List

/-! ## Construction -/

inductive EndpointUriError where
  | DuplicateKey (key : String)
  | MissingScheme
  | EmptyQueryKey
  | InvalidParamKey (key : String)

structure EndpointUri where
  scheme : String
  path : String
  params : OrdMap String String
  raw_query : Option String

def is_reserved (c : Char) : Bool :=
  c = '&' || c = '=' || c = '%' || c = '#' || c = '?' || c = '+' || c = ' '

def is_invalid_key (key : String) : Bool := key.isEmpty || key.toList.any is_reserved

def pair_key (pair : List Char) : List Char :=
  match split_once '=' pair with
  | some (key, _) => key
  | none => pair

def query_keys (query : List Char) : Except EndpointUriError (List String) :=
  let keys := (query.splitOn '&').map pair_key
  if keys.any List.isEmpty then .error .EmptyQueryKey else .ok (keys.map String.ofList)

def try_from_uri_and_params (base : String) (params : OrdMap String String) :
    Except EndpointUriError EndpointUri :=
  match split_once ':' base.toList with
  | none => .error .MissingScheme
  | some (scheme, rest) =>
    if scheme.isEmpty then .error .MissingScheme
    else do
      let (path, raw_query) := match split_once '?' rest with
        | some (path, query) => (path, some query)
        | none => (rest, none)
      let query_keys ← match raw_query with
        | some query => query_keys query
        | none => .ok []
      match params.rows.find? (fun row => is_invalid_key row.1) with
      | some row => .error (.InvalidParamKey row.1)
      | none =>
        match params.rows.find? (fun row => query_keys.contains row.1) with
        | some row => .error (.DuplicateKey row.1)
        | none =>
          .ok { scheme := .ofList scheme, path := .ofList path, params,
                raw_query := raw_query.map String.ofList }

/-! ## Rendering -/

def percent_encoded_char : Char → List Char
  | '&' => "%26".toList
  | '=' => "%3D".toList
  | '%' => "%25".toList
  | '#' => "%23".toList
  | '?' => "%3F".toList
  | '+' => "%2B".toList
  | ' ' => "%20".toList
  | ch => [ch]

/-- What `push_percent_encoded` appends. -/
def percent_encoded (value : List Char) : List Char := value.flatMap percent_encoded_char

structure RenderPair where
  key : List Char
  value : Option (List Char)
  from_raw_query : Bool

namespace EndpointUri

def pairs (uri : EndpointUri) : List RenderPair :=
  let raw := match uri.raw_query with
    | none => []
    | some query => (query.toList.splitOn '&').map fun pair =>
      match split_once '=' pair with
      | some (key, value) => ⟨key, some value, true⟩
      | none => ⟨pair, none, true⟩
  raw ++ uri.params.rows.map fun (key, value) => ⟨key.toList, some value.toList, false⟩

end EndpointUri

/-- What `push_pair` appends for the canonical rendering. -/
def RenderPair.text (pair : RenderPair) : List Char :=
  match pair.value with
  | none => pair.key
  | some value =>
    pair.key ++ '=' :: (if pair.from_raw_query then value else percent_encoded value)

def EndpointUri.to_canonical_string (uri : EndpointUri) : String :=
  let query := match uri.pairs.map RenderPair.text with
    | [] => []
    | text :: texts => '?' :: (text ++ texts.flatMap ('&' :: ·))
  .ofList (uri.scheme.toList ++ ':' :: (uri.path.toList ++ query))

/-! ## Percent signs -/

variable {c : Char} {value : List Char}

theorem percent_encoded_char_eq (h : is_reserved c = false) : percent_encoded_char c = [c] := by
  simp only [is_reserved, Bool.or_eq_false_iff, decide_eq_false_iff_not] at h
  unfold percent_encoded_char
  split <;> simp_all

def ascii_byte (c : Char) : UInt8 := UInt8.ofNat c.toNat

def escape_digits : List Char := ['0', '2', '3', '5', '6', 'B', 'D', 'F']

theorem percent_encoded_char_cases (c : Char) :
    (is_reserved c = false ∧ percent_encoded_char c = [c]) ∨
      (is_reserved c = true ∧ ∃ hi ∈ escape_digits, ∃ lo ∈ escape_digits,
        percent_encoded_char c = ['%', hi, lo] ∧
          from_str_radix (ascii_byte hi) (ascii_byte lo) = some (ascii_byte c)) := by
  by_cases h : is_reserved c = true
  · refine .inr ⟨h, ?_⟩
    simp only [is_reserved, Bool.or_eq_true, decide_eq_true_eq] at h
    rcases h with (((((rfl | rfl) | rfl) | rfl) | rfl) | rfl) | rfl
    · exact ⟨'2', by decide, '6', by decide, rfl, by decide⟩
    · exact ⟨'3', by decide, 'D', by decide, rfl, by decide⟩
    · exact ⟨'2', by decide, '5', by decide, rfl, by decide⟩
    · exact ⟨'2', by decide, '3', by decide, rfl, by decide⟩
    · exact ⟨'3', by decide, 'F', by decide, rfl, by decide⟩
    · exact ⟨'2', by decide, 'B', by decide, rfl, by decide⟩
    · exact ⟨'2', by decide, '0', by decide, rfl, by decide⟩
  · rw [Bool.not_eq_true] at h
    exact .inl ⟨h, percent_encoded_char_eq h⟩

theorem percent_encoded_cons (c : Char) (cs : List Char) :
    percent_encoded (c :: cs) = percent_encoded_char c ++ percent_encoded cs := rfl

/-- Escapes make a value longer by an even number, and any escape makes it longer. -/
theorem length_percent_encoded (value : List Char) :
    ∃ k, (percent_encoded value).length = value.length + 2 * k ∧
      (k = 0 → ∀ c ∈ value, is_reserved c = false) := by
  induction value with
  | nil => exact ⟨0, rfl, fun _ c hc => by cases hc⟩
  | cons c cs ih =>
    obtain ⟨k, hk, hp⟩ := ih
    rw [percent_encoded_cons, length_append, hk, length_cons]
    rcases percent_encoded_char_cases c with ⟨hc, hch⟩ | ⟨-, hi, -, lo, -, hch, -⟩
    · refine ⟨k, by rw [hch, length_singleton]; omega, ?_⟩
      intro hzero d hd
      rcases mem_cons.mp hd with rfl | hd
      · exact hc
      · exact hp hzero d hd
    · refine ⟨k + 1, ?_, fun hzero => by omega⟩
      rw [hch]
      simp only [length_cons, length_nil]
      omega

theorem percent_encoded_eq_iff (value : List Char) :
    percent_encoded value = value ↔ ∀ c ∈ value, is_reserved c = false := by
  constructor
  · intro heq
    obtain ⟨k, hk, hp⟩ := length_percent_encoded value
    rw [heq] at hk
    exact hp (by omega)
  · intro hp
    induction value with
    | nil => rfl
    | cons c cs ih =>
      rw [percent_encoded_cons, percent_encoded_char_eq (hp c mem_cons_self),
        ih fun d hd => hp d (.tail _ hd)]
      rfl

theorem mem_percent_encoded (h : c ∈ percent_encoded value) :
    (c ∈ value ∧ is_reserved c = false) ∨ c = '%' ∨ c ∈ escape_digits := by
  obtain ⟨d, hd, hm⟩ := mem_flatMap.mp h
  rcases percent_encoded_char_cases d with ⟨hp, hc⟩ | ⟨-, hi, hh, lo, hl, hc, -⟩
  · rw [hc, mem_singleton] at hm
    subst hm
    exact .inl ⟨hd, hp⟩
  · rw [hc] at hm
    simp only [mem_cons, not_mem_nil, or_false] at hm
    rcases hm with rfl | rfl | rfl
    · exact .inr (.inl rfl)
    · exact .inr (.inr hh)
    · exact .inr (.inr hl)

theorem mem_percent_encoded_of_mem (h : c ∈ value) (hp : is_reserved c = false) :
    c ∈ percent_encoded value := by
  apply mem_flatMap.mpr
  refine ⟨c, h, ?_⟩
  rw [percent_encoded_char_eq hp]
  exact mem_singleton_self c

/-! ## Decoding -/

theorem utf8EncodeChar_ascii (h : c.toNat < 128) : String.utf8EncodeChar c = [ascii_byte c] := by
  have hle : c.val.toNat ≤ 0x7f := Nat.le_of_lt_succ h
  rw [String.utf8EncodeChar]
  simp only [hle, if_true]
  rfl

theorem bytes_ofList {cs : List Char} (h : ∀ c ∈ cs, c.toNat < 128) :
    bytes (.ofList cs) = cs.map ascii_byte := by
  have hf : bytes (.ofList cs) = cs.flatMap String.utf8EncodeChar := by
    unfold bytes
    rw [String.toUTF8_eq_toByteArray, String.toByteArray_ofList]
    simp [List.utf8Encode, data_toByteArray]
  rw [hf]
  clear hf
  induction cs with
  | nil => rfl
  | cons c cs ih =>
    rw [flatMap_cons, utf8EncodeChar_ascii (h c mem_cons_self), ih fun d hd => h d (.tail _ hd)]
    rfl

theorem from_utf8_bytes (s : String) : from_utf8 (bytes s) = some s := by
  unfold from_utf8 bytes
  rw [String.toUTF8_eq_toByteArray, Array.toArray_toList]
  simp only [String.fromUTF8?]
  rw [dif_pos s.isValidUTF8]
  congr 1

theorem ascii_byte_ne_percent (ha : c.toNat < 128) (hc : c ≠ '%') : ascii_byte c ≠ 37 := by
  intro heq
  apply hc
  have hn : c.toNat = 37 := by
    have := congrArg UInt8.toNat heq
    simp only [ascii_byte, UInt8.toNat_ofNat'] at this
    rw [Nat.mod_eq_of_lt (by omega)] at this
    exact this
  rw [← Char.ofNat_toNat c, hn]

theorem decodeLoop_percent_encoded (text : String) (h : ∀ c ∈ value, c.toNat < 128) (i : Nat) :
    decodeLoop text i ((percent_encoded value).map ascii_byte) = .ok (value.map ascii_byte) := by
  induction value generalizing i with
  | nil => rfl
  | cons c cs ih =>
    have hre := ih fun d hd => h d (.tail _ hd)
    rw [percent_encoded_cons, map_append]
    rcases percent_encoded_char_cases c with ⟨hp, hc⟩ | ⟨-, hi, -, lo, -, hc, hr⟩
    · have hb : ascii_byte c ≠ 37 := by
        apply ascii_byte_ne_percent (h c mem_cons_self)
        rintro rfl
        cases hp
      rw [hc, map_singleton, singleton_append, decodeLoop.eq_def]
      simp only [if_neg hb, hre]
      rfl
    · rw [hc]
      simp only [map_cons, map_nil, cons_append, nil_append]
      rw [decodeLoop.eq_def]
      simp only [show ascii_byte '%' = 37 from rfl, if_true, hr, hre]
      rfl

theorem percent_decode_percent_encoded (h : ∀ c ∈ value, c.toNat < 128) :
    percent_decode (.ofList (percent_encoded value)) = .ok (.ofList value) := by
  have he : ∀ c ∈ percent_encoded value, c.toNat < 128 := by
    intro c hc
    rcases mem_percent_encoded hc with ⟨hc, -⟩ | rfl | hc
    · exact h c hc
    · decide
    · exact @of_decide_eq_true (∀ d ∈ escape_digits, d.toNat < 128) (decidableBAll _ _) rfl c hc
  unfold percent_decode
  rw [bytes_ofList he, decodeLoop_percent_encoded _ h]
  have hu := from_utf8_bytes (.ofList value)
  rw [bytes_ofList h] at hu
  simp only [bind, Except.bind, hu]

theorem percent_decode_plain {key : List Char} (h : ∀ c ∈ key, c.toNat < 128)
    (hp : ∀ c ∈ key, is_reserved c = false) :
    percent_decode (.ofList key) = .ok (.ofList key) := by
  have := percent_decode_percent_encoded h
  rwa [(percent_encoded_eq_iff key).mpr hp] at this

end camel_api.endpoint_uri
