-- The lowering of REST blocks into routes in `camel-dsl/src/rest.rs`, with the media types of
-- `media.rs` that it checks.
import RustCamel.Api.Exchange
import RustCamel.Endpoint.Uri

namespace camel_dsl

open camel_api (Value eq_ignore_ascii_case trim)
open camel_api.error (CamelError)
open camel_endpoint.uri (split_once)

/-! ## Media types -/

namespace media

def valid_header_token (name : List Char) : Bool :=
  !name.isEmpty && name.all fun c => c.isAlphanum || "!#$%&'*+-.^_`|~".toList.contains c

variable (media : String)

/-- The trimmed media type without its parameters. -/
def split_media_base : List Char := (trim media.toList).takeWhile (· ≠ ';')

def is_valid_media_declaration : Bool :=
  match split_once '/' (split_media_base media) with
  | some (ty, sub) => valid_header_token ty && valid_header_token sub
  | none => false

/-- At most one parameter, and only the charset. -/
def utf8_only : Bool :=
  let params := (media.toList.splitOn ';').drop 1
  params.length ≤ 1 &&
    params.all fun param => eq_ignore_ascii_case (.ofList (trim param)) "charset=utf-8"

def is_form_media_type : Bool :=
  eq_ignore_ascii_case (.ofList (split_media_base media)) "application/x-www-form-urlencoded" &&
    utf8_only media

/-- The subtype of a valid media type, in lower case. -/
def subtype : Option (List Char) :=
  match split_once '/' (split_media_base media) with
  | some (ty, sub) =>
    if valid_header_token ty && valid_header_token sub then some (sub.map Char.toLower) else none
  | none => none

def is_xml_media_type : Bool :=
  match subtype media with
  | none => false
  | some sub =>
    (sub = "xml".toList || ("+xml".toList.isSuffixOf sub && 4 < sub.length)) && utf8_only media

def is_json_media_type : Bool :=
  match subtype media with
  | none => false
  | some sub => sub = "json".toList || "+json".toList.isSuffixOf sub

end media

/-! ## Documents -/

inductive RouteDslRestBinding where
  | Json
  | Form
  | Xml
  | Raw
  deriving DecidableEq

/-- The steps that lowering writes, and those of a document, which it only copies. -/
inductive RouteDslStep (σ : Type) where
  | ContentNegotiation (consumes produces : String) (check_content_type : Bool)
  | Unmarshal (unmarshal : String) (schema : Option Value) (request_borne : Bool)
  | To (uri : String)
  | ResponseMarshal (marshal : String)
  | SetHeader (key : String) (value : Value)
  | SetHeaderIfAbsent (key : String) (value : Value)
  | Declared (step : σ)

structure RouteDslRestResponse where
  schema : Option Value

structure RouteDslRestOperation (σ : Type) where
  method : String
  path : String
  operation_id : Option String
  «to» : Option String
  steps : List σ
  consumes : String
  produces : String
  binding : Option RouteDslRestBinding
  success_status : Option UInt16
  request_schema : Option Value
  response : Option RouteDslRestResponse

/-- A block of operations on one listener. `π` is the type of its security policy. -/
structure RouteDslRest (σ π : Type) where
  host : String
  port : UInt16
  path : String
  security_policy : Option π
  operations : List (RouteDslRestOperation σ)

structure RouteDslRoute (σ π : Type) where
  id : String
  «from» : String
  steps : List (RouteDslStep σ)
  auto_startup : Bool
  startup_order : Int
  sequential : Bool
  security_policy : Option π

namespace rest

open media

/-! ## Path templates -/

inductive PathSegment where
  | Literal (text : String)
  | Param (name : String)
  deriving DecidableEq

/-- `str::trim_start_matches` at a character. -/
def trim_start_matches (c : Char) (s : List Char) : List Char := s.dropWhile (· = c)

/-- `str::trim_end_matches` at a character. -/
def trim_end_matches (c : Char) (s : List Char) : List Char := (s.reverse.dropWhile (· = c)).reverse

def build_full_path (base suffix : String) : String :=
  let base := trim_end_matches '/' base.toList
  let suffix := trim_start_matches '/' suffix.toList
  .ofList (if suffix.isEmpty then base else base ++ '/' :: suffix)

def path_parts (path : String) : List (List Char) :=
  ((trim_start_matches '/' path.toList).splitOn '/').filter fun s => !s.isEmpty

def parse_segment (seg : List Char) : PathSegment :=
  if seg.head? = some '{' ∧ seg.getLast? = some '}' then
    .Param (.ofList ((seg.take (seg.length - 1)).drop 1))
  else .Literal (.ofList seg)

def parse_path_template (path : String) : List PathSegment := (path_parts path).map parse_segment

def is_literal : PathSegment → Bool
  | .Literal _ => true
  | .Param _ => false

def template_specificity (segments : List PathSegment) : Nat := segments.countP is_literal

def extract_param_names (segments : List PathSegment) : List String :=
  segments.filterMap fun
    | .Param name => some name
    | .Literal _ => none

/-- The two segments are not different literals. -/
def compatible : PathSegment → PathSegment → Bool
  | .Literal x, .Literal y => x = y
  | _, _ => true

/-- Both templates could match one request, and neither would win. -/
def templates_ambiguous (a b : List PathSegment) : Bool :=
  a.length = b.length && template_specificity a = template_specificity b &&
    (a.zip b).all fun (sa, sb) => compatible sa sb

def default_status_for_verb (verb : String) : UInt16 :=
  if verb = "post" then 201 else if verb = "delete" then 204 else 200

def verb_has_body (verb : String) : Bool := verb = "post" || verb = "put" || verb = "patch"

/-! ## Checks -/

def refuse {α : Type} (msg : String) : Except CamelError α := .error (.RouteError msg)

variable {σ π : Type}

def validate_rest_block (rest : RouteDslRest σ π) : Except CamelError Unit :=
  if (trim rest.path.toList).isEmpty then
    refuse (s!"rest block on listener {rest.host}:{rest.port}: 'path' is required and must be " ++
      "non-empty (spec §6.3) — an empty base path is not allowed")
  else if rest.operations.isEmpty then
    refuse (s!"rest block {rest.host}:{rest.port}{rest.path}: 'operations' must declare at least " ++
      "one verb (spec §6.3) — a REST block with no operations produces no routes")
  else .ok ()

/-- The first name that stands in the list before. -/
def repeated_name : List String → List String → Option String
  | _, [] => none
  | seen, name :: names => if name ∈ seen then some name else repeated_name (name :: seen) names

def validate_path_template (full_path op_label : String) : Except CamelError Unit :=
  let segs := parse_path_template full_path
  if segs.contains (.Param "") then
    refuse (s!"rest operation '{op_label}': path '{full_path}' contains an empty parameter " ++
      "'\x7b\x7d' — parameter names are required")
  else
    match repeated_name [] (extract_param_names segs) with
    | some name =>
      refuse (s!"rest operation '{op_label}': path '{full_path}' declares parameter '{name}' " ++
        "more than once — path parameter names must be unique")
    | none => .ok ()

def KNOWN_VERBS : List String := ["get", "post", "put", "delete", "patch", "head", "options"]

/-- A media type of the operation that does not fit its binding. -/
def media_check (ok : String → Bool) (media op_label before after : String) :
    Except CamelError Unit :=
  if ok media then .ok ()
  else refuse (s!"rest operation '{op_label}': {before} (got '" ++ .ofList (trim media.toList) ++
    s!"'){after}")

/-- The media types and the schemas against the binding. -/
def validate_binding (binding : RouteDslRestBinding) (op : RouteDslRestOperation σ)
    (op_label : String) : Except CamelError Unit :=
  match binding with
  | .Json => do
    media_check is_json_media_type op.consumes op_label
      "binding 'json' requires a JSON media type for 'consumes'"
      " — declare 'binding: raw' to use non-JSON media"
    media_check is_json_media_type op.produces op_label
      "binding 'json' requires a JSON media type for 'produces'"
      " — declare 'binding: raw' to use non-JSON media"
  | .Form => do
    media_check is_form_media_type op.consumes op_label
      "binding 'form' requires 'application/x-www-form-urlencoded' for 'consumes'" ""
    media_check is_form_media_type op.produces op_label
      "binding 'form' requires 'application/x-www-form-urlencoded' for 'produces'" ""
  | .Xml => do
    media_check is_xml_media_type op.consumes op_label
      ("binding 'xml' requires an XML media type (application/xml, text/xml, or */*+xml) for " ++
        "'consumes'") ""
    media_check is_xml_media_type op.produces op_label
      ("binding 'xml' requires an XML media type (application/xml, text/xml, or */*+xml) for " ++
        "'produces'") ""
  | .Raw =>
    if op.request_schema.isSome then
      refuse (s!"rest operation '{op_label}': 'binding: raw' does not support 'request_schema' " ++
        "— schema validation requires binding 'json'")
    else if (op.response.bind (·.schema)).isSome then
      refuse (s!"rest operation '{op_label}': 'binding: raw' does not support 'response.schema' " ++
        "— schema validation requires binding 'json'")
    else do
      media_check is_valid_media_declaration op.consumes op_label
        "binding 'raw' requires a valid media declaration for 'consumes'"
        " — expected 'type/subtype' built from RFC 9110 tchar characters"
      media_check is_valid_media_declaration op.produces op_label
        "binding 'raw' requires a valid media declaration for 'produces'"
        " — expected 'type/subtype' built from RFC 9110 tchar characters"

/-! ## Lowering -/

section

-- The case maps of `str`. Nothing here depends on what they do beyond ASCII.
variable (to_lowercase to_uppercase : String → String)

def data_format : RouteDslRestBinding → String
  | .Form => "form"
  | .Xml => "xml"
  | .Json | .Raw => "json"

def lowered_steps (binding : RouteDslRestBinding) (verb_lc : String)
    (op : RouteDslRestOperation σ) : List (RouteDslStep σ) :=
  let default_status := op.success_status.getD (default_status_for_verb verb_lc)
  let consumes := String.ofList (trim op.consumes.toList)
  let produces := String.ofList (trim op.produces.toList)
  [RouteDslStep.ContentNegotiation consumes produces (verb_has_body verb_lc)] ++
  (if binding ≠ .Raw && verb_has_body verb_lc then
    [.Unmarshal (data_format binding) op.request_schema true] else []) ++
  (match op.to with
    | some to_uri => [.To to_uri]
    | none => op.steps.map .Declared) ++
  (if binding ≠ .Raw then [.ResponseMarshal (data_format binding)] else []) ++
  [.SetHeader "Content-Type" (.String produces),
    .SetHeaderIfAbsent "CamelHttpResponseCode" (.Number (.PosInt default_status.toUInt64))]

/-- The id of an operation without one: slashes become hyphens, and braces are dropped. -/
def default_route_id (rest : RouteDslRest σ π) (verb : String) (op : RouteDslRestOperation σ) :
    String :=
  let text := verb.toList ++ '_' :: trim_start_matches '/' rest.path.toList ++ op.path.toList
  .ofList ((text.map fun c => if c = '/' then '-' else c).filter fun c => c ≠ '{' && c ≠ '}')

def lower_operation (rest : RouteDslRest σ π) (verb : String) (op : RouteDslRestOperation σ) :
    Except CamelError (RouteDslRoute σ π) := do
  let verb_lc := to_lowercase verb
  let op_label := op.operation_id.getD verb
  if verb_lc ∉ KNOWN_VERBS then
    refuse (s!"rest operation '{op_label}': unknown HTTP verb '{verb}' (expected one of: " ++
      ", ".intercalate KNOWN_VERBS ++ ")")
  else if op.to.isSome && !op.steps.isEmpty then
    refuse s!"rest operation '{op_label}' cannot have both 'to' and 'steps'"
  else if op.to.isNone && op.steps.isEmpty then
    refuse s!"rest operation '{op_label}' must have 'to' or 'steps'"
  else
    let binding := op.binding.getD .Json
    validate_binding binding op op_label
    let full_path := build_full_path rest.path op.path
    validate_path_template full_path op_label
    .ok {
      id := op.operation_id.getD (default_route_id rest verb op)
      «from» := s!"http://{rest.host}:{rest.port}{full_path}?httpMethod={to_uppercase verb}"
      steps := lowered_steps binding verb_lc op
      auto_startup := true
      startup_order := 0
      sequential := false
      security_policy := rest.security_policy }

/-- A template that a listener has for a method. -/
structure Registered where
  host : String
  port : UInt16
  method : String
  segments : List PathSegment

/-- An operation against those before it. -/
def check_registered (registered : List Registered) (entry : Registered)
    (op_label full_path : String) : Except CamelError Unit :=
  let same (r : Registered) : Bool :=
    r.host = entry.host && r.port = entry.port && r.method = entry.method
  if registered.any fun r => same r && r.segments = entry.segments then
    refuse (s!"rest operation '{op_label}': duplicate (method, path) tuple {entry.method} " ++
      s!"{full_path} on listener {entry.host}:{entry.port} — two operations cannot claim the " ++
      "same listener, verb, and full path (spec §6.3)")
  else if registered.any fun r => same r && templates_ambiguous r.segments entry.segments then
    refuse (s!"rest operation '{op_label}': path '{full_path}' is ambiguous with an existing " ++
      s!"template of equal specificity for method {entry.method} on listener " ++
      s!"{entry.host}:{entry.port} (spec §7.2) — disambiguate by making one path more specific")
  else .ok ()

def registered_entry (rest : RouteDslRest σ π) (op : RouteDslRestOperation σ) : Registered :=
  ⟨rest.host, rest.port, to_uppercase op.method,
    parse_path_template (build_full_path rest.path op.path)⟩

/-- The routes so far, and what is registered for them. -/
structure Lowered (σ π : Type) where
  routes : List (RouteDslRoute σ π)
  registered : List Registered

def lowerOperations (rest : RouteDslRest σ π) :
    Lowered σ π → List (RouteDslRestOperation σ) → Except CamelError (Lowered σ π)
  | lowered, [] => .ok lowered
  | lowered, op :: ops => do
    let route ← lower_operation to_lowercase to_uppercase rest op.method op
    let entry := registered_entry to_uppercase rest op
    check_registered lowered.registered entry
      (op.operation_id.getD (to_lowercase op.method)) (build_full_path rest.path op.path)
    lowerOperations rest ⟨lowered.routes ++ [route], lowered.registered ++ [entry]⟩ ops

def lowerBlocks : Lowered σ π → List (RouteDslRest σ π) → Except CamelError (Lowered σ π)
  | lowered, [] => .ok lowered
  | lowered, rest :: blocks => do
    validate_rest_block rest
    lowerBlocks (← lowerOperations to_lowercase to_uppercase rest lowered rest.operations) blocks

def lower_all_rest_to_routes (rest_blocks : List (RouteDslRest σ π)) :
    Except CamelError (List (RouteDslRoute σ π)) := do
  return (← lowerBlocks to_lowercase to_uppercase ⟨[], []⟩ rest_blocks).routes

end

end rest

end camel_dsl
