-- The query templates of `camel-sql/src/query.rs`: the scan of a template by indices, and the
-- numbering of its parameters against an exchange.
import RustCamel.Api.ExchangeLookup

namespace camel_component_sql.query

open camel_api (Exchange Value is_whitespace)
open camel_api.error (CamelError)
open camel_api.exchange_lookup (ExchangeLookupPath debug_str)
open camel_core.lifecycle (Fault Outcome)

/-! ## Templates -/

inductive ParamSlot where
  | Positional (index : Nat)
  | Named (name : String)
  | InClause (name : String)
  | Expression (expr : String)

/-- The texts between the slots are one more than the slots. -/
structure QueryTemplate where
  fragments : List String
  params : List ParamSlot

structure PreparedQuery where
  sql : String
  bindings : List Value

def is_name_terminator (c : Char) : Bool := is_whitespace c || "?(),;=<>!'\"`/:".toList.contains c

/-- `chars[first..last]`, which panics where the bounds are wrong. -/
def slice (chars : List Char) (first last : Nat) : Outcome CamelError String :=
  if first ≤ last ∧ last ≤ chars.length then .ok (.ofList ((chars.take last).drop first))
  else .error .panic

def check_in_prefix (chars : List Char) (start : Nat) : Bool :=
  (chars.drop start).take 3 = "in:".toList

/-- The name at a place, and where it ends. -/
def extract_param_name (chars : List Char) (start : Nat) : String × Nat :=
  let name := (chars.drop start).takeWhile fun c => !is_name_terminator c
  (.ofList name, start + name.length)

def find_matching_brace (chars : List Char) (start : Nat) : Option Nat :=
  ((chars.drop start).findIdx? (· = '}')).map (start + ·)

/-- The variables of the scan. -/
structure Scan where
  fragments : List String
  params : List ParamSlot
  positional_index : Nat
  i : Nat
  last_param_end : Nat
  in_literal : Bool

/-- A slot with the text before it. The scan goes on behind the slot. -/
def Scan.push (s : Scan) (fragment : String) (param : ParamSlot) (param_end : Nat) : Scan :=
  { s with fragments := s.fragments ++ [fragment], params := s.params ++ [param],
           i := param_end, last_param_end := param_end }

def refuse {α : Type} (msg : String) : Outcome CamelError α := .error (.err (.ProcessorError msg))

/-- A placeholder with a colon before it. -/
def scan_named (chars : List Char) (s : Scan) : Outcome CamelError Scan :=
  if check_in_prefix chars (s.i + 1) then
    let (name, name_end) := extract_param_name chars (s.i + 4)
    if name.isEmpty then refuse s!"Empty IN clause parameter name at position {s.i}"
    else do
      let fragment ← slice chars s.last_param_end (s.i - 1)
      .ok (s.push fragment (.InClause name) name_end)
  else if chars[s.i + 1]? = some '$' ∧ chars[s.i + 2]? = some '{' then
    match find_matching_brace chars (s.i + 2) with
    | none => refuse s!"Unclosed expression at position {s.i}"
    | some brace_end => do
      let expr_content ← slice chars (s.i + 3) brace_end
      if expr_content.isEmpty then refuse s!"Empty expression at position {s.i}"
      else
        let fragment ← slice chars s.last_param_end (s.i - 1)
        .ok (s.push fragment (.Expression expr_content) (brace_end + 1))
  else
    let (name, name_end) := extract_param_name chars (s.i + 1)
    if name.isEmpty then refuse s!"Empty named parameter name at position {s.i}"
    else do
      let fragment ← slice chars s.last_param_end (s.i - 1)
      .ok (s.push fragment (.Named name) name_end)

/-- One round of the scan, at a character. -/
def scan_char (chars : List Char) (placeholder : Char) (s : Scan) (c : Char) :
    Outcome CamelError Scan :=
  if c = '\'' then
    if s.in_literal ∧ chars[s.i + 1]? = some '\'' then .ok { s with i := s.i + 2 }
    else .ok { s with in_literal := !s.in_literal, i := s.i + 1 }
  else if !s.in_literal ∧ c = placeholder then
    if 0 < s.i ∧ chars[s.i - 1]? = some ':' then scan_named chars s
    else do
      let fragment ← slice chars s.last_param_end s.i
      .ok { s.push fragment (.Positional s.positional_index) (s.i + 1) with
            positional_index := s.positional_index + 1 }
  else .ok { s with i := s.i + 1 }

/-- The loop of `parse_query_template`. A round takes a character at least. -/
def scanLoop (chars : List Char) (placeholder : Char) : Nat → Scan → Outcome CamelError Scan
  | 0, s => .ok s
  | rounds + 1, s =>
    match chars[s.i]? with
    | none => .ok s
    | some c =>
      match scan_char chars placeholder s c with
      | .error e => .error e
      | .ok s => scanLoop chars placeholder rounds s

def parse_query_template (template : String) (placeholder : Char) :
    Outcome CamelError QueryTemplate := do
  let chars := template.toList
  let s ← scanLoop chars placeholder chars.length ⟨[], [], 0, 0, 0, false⟩
  let last ← slice chars s.last_param_end chars.length
  .ok ⟨s.fragments ++ [last], s.params⟩

/-! ## Parameters -/

def resolve_named_param (name : String) (exchange : Exchange) : Except CamelError Value :=
  match ExchangeLookupPath.parse name with
  | .error e =>
    .error (.ProcessorError s!"Invalid placeholder name {debug_str name}: {e.to_string}")
  | .ok (.Body []) =>
    .error (.ProcessorError (s!"SQL placeholder ':#{name}' requires a path (e.g. " ++
      s!"':#{name}.field') — bare scope not supported"))
  | .ok path =>
    match path.lookup exchange with
    | some value => .ok value
    | none =>
      .error (.ProcessorError
        s!"Named parameter '{name}' not found in body, headers, or properties")

def resolve_expression_param (expr : String) (exchange : Exchange) : Except CamelError Value :=
  match ExchangeLookupPath.parse expr with
  | .error e => .error (.ProcessorError s!"Invalid expression {debug_str expr}: {e.to_string}")
  | .ok (.Body []) =>
    .error (.ProcessorError ("SQL expression ':#$\x7b" ++ expr ++ "\x7d' requires a path (e.g. " ++
      "':#$\x7b" ++ expr ++ ".field\x7d') — bare scope not supported"))
  | .ok path =>
    match path.lookup exchange with
    | some value => .ok value
    | none =>
      .error (.ProcessorError s!"Expression '{expr}' not found in body, headers, or properties")

def type_name : Value → String
  | .Null => "null"
  | .Bool _ => "bool"
  | .Number _ => "number"
  | .String _ => "string"
  | .Array _ => "array"
  | .Object _ => "object"

def body_array (exchange : Exchange) : Option (List Value) :=
  match exchange.input.body with
  | .Json (.Array items) => some items
  | _ => none

/-- The parts of the statement so far, its bindings, and the next number. -/
structure Numbering where
  sql_parts : List String
  bindings : List Value
  placeholder_num : Nat

def Numbering.part (n : Numbering) (text : String) : Numbering :=
  { n with sql_parts := n.sql_parts ++ [text] }

def Numbering.bind_value (n : Numbering) (value : Value) : Numbering :=
  ⟨n.sql_parts ++ [s!"${n.placeholder_num}"], n.bindings ++ [value], n.placeholder_num + 1⟩

def Numbering.bind_list (n : Numbering) (in_separator : String) (values : List Value) : Numbering :=
  let placeholders := (List.range' n.placeholder_num values.length).map fun k => s!"${k}"
  ⟨n.sql_parts ++ [in_separator.intercalate placeholders], n.bindings ++ values,
    n.placeholder_num + values.length⟩

def resolve_param (exchange : Exchange) (in_separator : String) (n : Numbering) :
    ParamSlot → Except CamelError Numbering
  | .Positional idx =>
    match body_array exchange with
    | none => .error (.ProcessorError "Positional parameter requires body to be a JSON array")
    | some arr =>
      match arr[idx]? with
      | none =>
        .error (.ProcessorError (s!"Positional parameter index {idx} out of bounds " ++
          s!"(array length {arr.length})"))
      | some value => .ok (n.bind_value value)
  | .Named name => n.bind_value <$> resolve_named_param name exchange
  | .InClause name => do
    match ← resolve_named_param name exchange with
    | .Array [] => .ok (n.part "NULL")
    | .Array arr => .ok (n.bind_list in_separator arr)
    | value =>
      .error (.ProcessorError (s!"IN clause parameter '{name}' must be an array, got type " ++
        type_name value))
  | .Expression expr => n.bind_value <$> resolve_expression_param expr exchange

/-- The loop of `resolve_params`. A slot without a text before it panics. -/
def resolveLoop (fragments : List String) (exchange : Exchange) (in_separator : String) :
    Nat → Numbering → List ParamSlot → Outcome CamelError Numbering
  | _, n, [] => .ok n
  | i, n, param :: params =>
    match fragments[i]? with
    | none => .error .panic
    | some fragment =>
      match resolve_param exchange in_separator (n.part fragment) param with
      | .error e => .error (.err e)
      | .ok n => resolveLoop fragments exchange in_separator (i + 1) n params

def resolve_params (tpl : QueryTemplate) (exchange : Exchange) (in_separator : String) :
    Outcome CamelError PreparedQuery := do
  let n ← resolveLoop tpl.fragments exchange in_separator 0 ⟨[], [], 1⟩ tpl.params
  let sql_parts := n.sql_parts ++ [tpl.fragments.getLast?.getD ""]
  .ok ⟨String.join sql_parts, n.bindings⟩

end camel_component_sql.query
