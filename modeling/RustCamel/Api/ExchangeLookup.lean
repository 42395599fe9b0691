-- The lookup paths of `camel-api/src/exchange_lookup.rs`, which the Simple language and the
-- SQL placeholders share.
import RustCamel.Api.Exchange
import RustCamel.Endpoint.Uri

namespace camel_api.exchange_lookup

open camel_endpoint.uri (split_once)

/-! ## Paths -/

inductive PathSegment where
  | Key (key : String)
  | Index (index : Nat)

inductive ExchangeLookupPath where
  | Body (segments : List PathSegment)
  | Header (key : String)
  | Property (key : String)
  | Unscoped (token : String)

inductive LookupPathError where
  | Empty
  | EmptySegment (input : String)
  | TrailingDot (input : String)
  | EmptyScopedKey (scope input : String)

/-- One character as the `Debug` of a `str` shows it. What is not printable beyond ASCII
stays as it is here. -/
def debug_char (c : Char) : List Char :=
  if c = '"' ∨ c = '\\' then ['\\', c]
  else if c = '\n' then ['\\', 'n']
  else if c = '\r' then ['\\', 'r']
  else if c = '\t' then ['\\', 't']
  else if c = '\x00' then ['\\', '0']
  else if c.toNat < 32 ∨ c.toNat = 127 then
    ['\\', 'u', '{'] ++ Nat.toDigits 16 c.toNat ++ ['}']
  else [c]

def debug_str (s : String) : String := .ofList ('"' :: s.toList.flatMap debug_char ++ ['"'])

def LookupPathError.to_string : LookupPathError → String
  | .Empty => "empty lookup path"
  | .EmptySegment input => "empty path segment in " ++ debug_str input
  | .TrailingDot input => "trailing dot in " ++ debug_str input
  | .EmptyScopedKey scope _ =>
    "scope prefix " ++ debug_str scope ++ " requires a non-empty key"

/-- `str::parse::<usize>`. A leading plus sign is allowed. -/
def parse_usize (s : List Char) : Option Nat :=
  let digits := if s.head? = some '+' then s.tail else s
  if digits.isEmpty || !digits.all Char.isDigit then none
  else
    let n := Nat.ofDigitChars 10 digits 0
    if n < 2 ^ 64 then some n else none

/-- One segment of a body path. A number with a leading zero is a key. -/
def body_segment (seg : List Char) : PathSegment :=
  match parse_usize seg with
  | some i => if seg = ['0'] ∨ seg.head? ≠ some '0' then .Index i else .Key (.ofList seg)
  | none => .Key (.ofList seg)

def parse_body_segments (path : List Char) (full_input : String) :
    Except LookupPathError (List PathSegment) :=
  if (path.splitOn '.').any List.isEmpty then .error (.EmptySegment full_input)
  else .ok ((path.splitOn '.').map body_segment)

namespace ExchangeLookupPath

/-- A flat key under a scope. It may hold dots, but it is not empty. -/
def scoped_key (scope input : String) (path : String → ExchangeLookupPath) :
    Option (List Char) → Except LookupPathError ExchangeLookupPath
  | none => .error (.EmptyScopedKey scope input)
  | some [] => .error (.EmptyScopedKey scope input)
  | some rest => .ok (path (.ofList rest))

def parse (s : String) : Except LookupPathError ExchangeLookupPath :=
  if s.isEmpty then .error .Empty
  else
    let (head, rest_opt) := match split_once '.' s.toList with
      | some (h, r) => (String.ofList h, some r)
      | none => (s, none)
    if head = "body" then
      match rest_opt with
      | none => .ok (.Body [])
      | some [] => .error (.TrailingDot s)
      | some rest => .Body <$> parse_body_segments rest s
    else if head = "header" then scoped_key "header" s .Header rest_opt
    else if head = "property" ∨ head = "exchangeProperty" then scoped_key head s .Property rest_opt
    else .ok (.Unscoped s)

end ExchangeLookupPath

/-! ## Lookup -/

/-- A value one step down. A key opens an object and an index opens an array. -/
def descend (value : Value) : PathSegment → Option Value
  | .Key k => match value with
    | .Object entries => entries.lookup k
    | _ => none
  | .Index i => match value with
    | .Array items => items[i]?
    | _ => none

def lookup_body (exchange : Exchange) (segments : List PathSegment) : Option Value :=
  match exchange.input.body with
  | .Json value => segments.foldlM descend value
  | _ => none

def body_json_object (exchange : Exchange) : Option (List (String × Value)) :=
  match exchange.input.body with
  | .Json (.Object entries) => some entries
  | _ => none

def ExchangeLookupPath.lookup (path : ExchangeLookupPath) (exchange : Exchange) : Option Value :=
  match path with
  | .Body segments => lookup_body exchange segments
  | .Header key => exchange.input.headers key
  | .Property key => exchange.property key
  | .Unscoped token =>
    ((body_json_object exchange).bind (·.lookup token)).or
      ((exchange.input.headers token).or (exchange.property token))

end camel_api.exchange_lookup
