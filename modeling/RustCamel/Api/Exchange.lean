-- The exchange that flows through a route, with the errors it can carry.
-- `branch_clone` copies everything that is modelled, so it does not stand here.
import RustCamel.Api.Value

namespace camel_api

/-! ## Errors -/

namespace error

inductive ExpressionErrorClass where
  | Runtime
  | Arithmetic
  | TypeMismatch
  | FunctionNotFound
  | Limit
  | Timeout
  | Conversion
  | Parse
  deriving DecidableEq

def ExpressionErrorClass.as_str : ExpressionErrorClass → String
  | .Runtime => "runtime"
  | .Arithmetic => "arithmetic"
  | .TypeMismatch => "type-mismatch"
  | .FunctionNotFound => "function-not-found"
  | .Limit => "limit"
  | .Timeout => "timeout"
  | .Conversion => "conversion"
  | .Parse => "parse"

structure ErrorPosition where
  line : UInt32
  column : UInt32
  deriving DecidableEq

structure ConversionDetail where
  source_type : String
  target : String

/-- Every error of the framework. A source error that is only kept for its chain is left
out, and an error of another enum stands as its text. -/
inductive CamelError where
  | ComponentNotFound (msg : String)
  | EndpointCreationFailed (msg : String)
  | EndpointCreationFailedWithSource (msg : String)
  | ProcessorError (msg : String)
  | ProcessorErrorWithSource (msg : String)
  | TypeConversionFailed (msg : String)
  | InvalidUri (msg : String)
  | ChannelClosed
  | RouteError (msg : String)
  | Io (msg : String)
  | DeadLetterChannelFailed (msg : String)
  | CircuitOpen (msg : String)
  | HttpOperationFailed (method url : String) (status_code : UInt16) (status_text : String)
      (response_body : Option String)
  | ConsumerStopping
  | Config (msg : String)
  | ConfigValidation (e : String)
  | AlreadyConsumed
  | StreamLimitExceeded (limit : Nat)
  | Unauthenticated (msg : String)
  | Unauthorized (msg : String)
  | AuthProviderUnavailable (msg : String)
  | ValidationError (msg : String)
  | TemplateReload (msg : String)
  | EndpointUri (e : String)
  | UnsupportedMediaType (consumed declared : String)
  | NotAcceptable (accept produced : String)
  | ExpressionFailed (language route_id step_id verb : String) (cls : ExpressionErrorClass)
      (position : Option ErrorPosition) (conversion : Option ConversionDetail)
      (cause : Option CamelError)

def expression_position_suffix : Option ErrorPosition → String
  | some pos => s!" at {pos.line.toNat}:{pos.column.toNat}"
  | none => ""

def expression_conversion_suffix : Option ConversionDetail → String
  | some detail => s!" while converting {detail.source_type} to {detail.target}"
  | none => ""

def CamelError.to_string : CamelError → String
  | .ComponentNotFound msg => s!"Component not found: {msg}"
  | .EndpointCreationFailed msg => s!"Endpoint creation failed: {msg}"
  | .EndpointCreationFailedWithSource msg => s!"Endpoint creation failed: {msg}"
  | .ProcessorError msg => s!"Processor error: {msg}"
  | .ProcessorErrorWithSource msg => s!"Processor error: {msg}"
  | .TypeConversionFailed msg => s!"Type conversion failed: {msg}"
  | .InvalidUri msg => s!"Invalid URI: {msg}"
  | .ChannelClosed => "Channel closed"
  | .RouteError msg => s!"Route error: {msg}"
  | .Io msg => s!"IO error: {msg}"
  | .DeadLetterChannelFailed msg => s!"Dead letter channel failed: {msg}"
  | .CircuitOpen msg => s!"Circuit breaker open: {msg}"
  | .HttpOperationFailed method url status_code status_text _ =>
    s!"HTTP {method} {url} failed: {status_code.toNat} {status_text}"
  | .ConsumerStopping => "Consumer stopping: semaphore closed during call"
  | .Config msg => s!"Configuration error: {msg}"
  | .ConfigValidation e => s!"Configuration validation error: {e}"
  | .AlreadyConsumed => "Body stream has already been consumed"
  | .StreamLimitExceeded limit => s!"Stream size exceeded limit: {limit}"
  | .Unauthenticated msg => s!"Unauthenticated: {msg}"
  | .Unauthorized msg => s!"Unauthorized: {msg}"
  | .AuthProviderUnavailable msg => s!"Auth provider unavailable: {msg}"
  | .ValidationError msg => s!"Validation failed: {msg}"
  | .TemplateReload msg => s!"Template reload failed: {msg}"
  | .EndpointUri e => s!"Endpoint URI error: {e}"
  | .UnsupportedMediaType consumed declared =>
    s!"Unsupported media type: consumed {consumed}, declared {declared}"
  | .NotAcceptable accept produced => s!"Not acceptable: accept {accept}, produced {produced}"
  | .ExpressionFailed language route_id step_id verb cls position conversion _ =>
    s!"expression failed: {cls.as_str} in {language} `{verb}` step `{step_id}` (route `{route_id}`)" ++
      expression_position_suffix position ++ expression_conversion_suffix conversion

def CamelError.classify : CamelError → String
  | .ComponentNotFound _ => "component"
  | .EndpointCreationFailed _ | .EndpointCreationFailedWithSource _ | .InvalidUri _
  | .EndpointUri _ => "endpoint"
  | .ProcessorError _ | .ProcessorErrorWithSource _ | .AuthProviderUnavailable _ => "processor"
  | .TypeConversionFailed _ | .AlreadyConsumed => "type_conversion"
  | .Io _ => "io"
  | .RouteError _ => "route"
  | .CircuitOpen _ => "circuit_open"
  | .HttpOperationFailed .. => "http"
  | .Config _ | .ConfigValidation _ => "config"
  | .DeadLetterChannelFailed _ => "dead_letter"
  | .ConsumerStopping => "consumer_stop"
  | .StreamLimitExceeded _ => "stream"
  | .ChannelClosed => "channel"
  | .Unauthenticated _ => "unauthenticated"
  | .Unauthorized _ => "unauthorized"
  | .ValidationError _ => "validation"
  | .TemplateReload _ => "template"
  | .UnsupportedMediaType .. => "unsupported_media_type"
  | .NotAcceptable .. => "not_acceptable"
  | .ExpressionFailed .. => "unknown"

def CamelError.variant_name : CamelError → String
  | .ComponentNotFound _ => "ComponentNotFound"
  | .EndpointCreationFailed _ | .EndpointCreationFailedWithSource _ => "EndpointCreationFailed"
  | .ProcessorError _ | .ProcessorErrorWithSource _ | .AuthProviderUnavailable _ =>
    "ProcessorError"
  | .TypeConversionFailed _ => "TypeConversionFailed"
  | .InvalidUri _ => "InvalidUri"
  | .ChannelClosed => "ChannelClosed"
  | .RouteError _ => "RouteError"
  | .Io _ => "Io"
  | .DeadLetterChannelFailed _ => "DeadLetterChannelFailed"
  | .CircuitOpen _ => "CircuitOpen"
  | .HttpOperationFailed .. => "HttpOperationFailed"
  | .ConsumerStopping => "ConsumerStopping"
  | .Config _ => "Config"
  | .ConfigValidation _ => "ConfigValidation"
  | .AlreadyConsumed => "AlreadyConsumed"
  | .StreamLimitExceeded _ => "StreamLimitExceeded"
  | .Unauthenticated _ => "Unauthenticated"
  | .Unauthorized _ => "Unauthorized"
  | .ValidationError _ => "ValidationError"
  | .TemplateReload _ => "TemplateReload"
  | .EndpointUri _ => "EndpointUri"
  | .UnsupportedMediaType .. => "UnsupportedMediaType"
  | .NotAcceptable .. => "NotAcceptable"
  | .ExpressionFailed .. => "ExpressionFailed"

end error

/-! ## Messages -/

/-- The payload of a message. A stream stands as the number it was given. -/
inductive Body where
  | Empty
  | Bytes (bytes : List UInt8)
  | Text (text : String)
  | Json (value : Value)
  | Xml (text : String)
  | Stream (stream : Nat)

structure Message where
  headers : String → Option Value
  body : Body

/-- `char::is_whitespace`: the Unicode property `White_Space`. -/
def is_whitespace (c : Char) : Bool :=
  let n := c.toNat
  (9 ≤ n && n ≤ 13) || n = 0x20 || n = 0x85 || n = 0xA0 || n = 0x1680 ||
    (0x2000 ≤ n && n ≤ 0x200A) || n = 0x2028 || n = 0x2029 || n = 0x202F || n = 0x205F ||
    n = 0x3000

/-- `str::trim_start`. -/
def trim_start (s : List Char) : List Char := s.dropWhile is_whitespace

/-- `str::trim`. -/
def trim (s : List Char) : List Char := (trim_start (trim_start s).reverse).reverse

def eq_ignore_ascii_case (a b : String) : Bool :=
  a.toList.map Char.toLower == b.toList.map Char.toLower

namespace Message

def default : Message := ⟨fun _ => none, .Empty⟩

def set_header (message : Message) (key : String) (value : Value) : Message :=
  { message with headers := fun k =>
      if k = key then some value
      else if eq_ignore_ascii_case k key then none
      else message.headers k }

end Message

/-! ## Exchanges -/

def PROPERTY_HTTP_CONTENT_TYPE_INHERITED : String := "CamelHttpContentTypeInherited"
def CAMEL_STOP : String := "CamelStop"
def PROPERTY_EXCEPTION_MESSAGE : String := "CamelExceptionMessage"
def PROPERTY_EXCEPTION_KIND : String := "CamelExceptionKind"
def PROPERTY_EXCEPTION_CAUGHT : String := "CamelExceptionCaught"
def PROPERTY_EXCEPTION_HANDLED : String := "CamelExceptionHandled"

/-- The parts of an exchange that the pipeline and the error handler look at. The last two
are the extensions that `use_original_message` stores. -/
structure Exchange where
  input : Message
  properties : String → Option Value
  error : Option error.CamelError
  original_message : Option Message
  original_content_type_inherited : Option Bool

namespace Exchange

def new (input : Message) : Exchange := ⟨input, fun _ => none, none, none, none⟩

variable (exchange : Exchange)

def property (key : String) : Option Value := exchange.properties key

def set_property (key : String) (value : Value) : Exchange :=
  { exchange with properties := fun k => if k = key then some value else exchange.properties k }

def remove_property (key : String) : Exchange :=
  { exchange with properties := fun k => if k = key then none else exchange.properties k }

def set_header (exchange : Exchange) (key : String) (value : Value) : Exchange :=
  { exchange with input := exchange.input.set_header key value }

def set_error (error : error.CamelError) : Exchange :=
  let exchange := match error with
    | .HttpOperationFailed _ _ status_code status_text _ =>
      (exchange.set_header "CamelHttpResponseCode"
        (.Number (.PosInt (.ofNat status_code.toNat)))).set_header "CamelHttpResponseText"
        (.String status_text)
    | _ => exchange
  let exchange := exchange.set_property PROPERTY_EXCEPTION_MESSAGE (.String error.to_string)
  let exchange := exchange.set_property PROPERTY_EXCEPTION_KIND (.String error.classify)
  let exchange := exchange.set_property PROPERTY_EXCEPTION_CAUGHT (.String error.to_string)
  { exchange with error := some error }

def clear_error : Exchange :=
  ((({ exchange with error := none }.remove_property PROPERTY_EXCEPTION_MESSAGE).remove_property
    PROPERTY_EXCEPTION_KIND).remove_property PROPERTY_EXCEPTION_CAUGHT)

def handle_error : Exchange :=
  (exchange.set_property PROPERTY_EXCEPTION_HANDLED (.Bool true)).clear_error

end Exchange

def is_camel_stop (exchange : Exchange) : Bool :=
  match exchange.property CAMEL_STOP with
  | some (.Bool b) => b
  | _ => false

end camel_api
