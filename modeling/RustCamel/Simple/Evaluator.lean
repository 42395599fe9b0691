-- The evaluators of the Simple language in `camel-language-simple/src/evaluator.rs`: one for
-- the trees without a delegate and one for the others, with the budgets both of them charge.
import RustCamel.Simple.Ast

namespace camel_language_simple.evaluator

open camel_api (Body Exchange Number Value)
open camel_api.exchange_lookup (PathSegment descend)
open camel_language_api (LanguageError)
open date (DateOutput DateSource Instant format_epoch_ms)
open parser (CallKind Expr InterpolatedPart LogicalOp Op)

/-! ## Values -/

/-- `f64 == f64` on the bits. A JSON number is never NaN. -/
def f64_eq (a b : UInt64) : Bool := a = b || (a.toNat % 2 ^ 63 = 0 && b.toNat % 2 ^ 63 = 0)

def number_eq : Number → Number → Bool
  | .PosInt a, .PosInt b => a = b
  | .NegInt a, .NegInt b => a = b
  | .Float a, .Float b => f64_eq a b
  | _, _ => false

mutual

/-- The equality of `serde_json` values. The order of an object's keys does not count. -/
def value_eq : Value → Value → Bool
  | .Null, .Null => true
  | .Bool a, .Bool b => a = b
  | .Number a, .Number b => number_eq a b
  | .String a, .String b => a = b
  | .Array a, .Array b => items_eq a b
  | .Object a, .Object b => a.length = b.length && entries_eq a b
  | _, _ => false

def items_eq : List Value → List Value → Bool
  | [], [] => true
  | a :: as, b :: bs => value_eq a b && items_eq as bs
  | _, _ => false

/-- Every entry of the first object stands in the second. -/
def entries_eq : List (String × Value) → List (String × Value) → Bool
  | [], _ => true
  | (key, a) :: entries, other =>
    (match other.lookup key with
    | some b => value_eq a b
    | none => false) && entries_eq entries other

end

def value_type_name : Value → String
  | .String _ => "string"
  | .Number _ => "number"
  | .Bool _ => "bool"
  | .Null => "null"
  | .Array _ => "array"
  | .Object _ => "object"

/-- `Number::from` for an `i64`. -/
def number_from (value : Int64) : Number :=
  if 0 ≤ value.toInt then .PosInt (.ofNat value.toInt.toNat) else .NegInt value

/-! ## Errors -/

def limit_error (detail : String) : LanguageError := .EvalFailure .Limit none (some detail)

def arithmetic_error (detail : String) : LanguageError :=
  .EvalFailure .Arithmetic none (some detail)

def type_error (expected actual : String) : LanguageError := .TypeMismatch expected actual none

def delegate_failure (language : String) : LanguageError :=
  .EvalFailure .Runtime none (some s!"delegate language `{language}` failed")

def conversion_error (source_type target : String) : LanguageError :=
  .ConversionError source_type target

def stream_body_error : LanguageError := .ConversionError "Body::Stream" "body"

/-! ## Integers -/

/-- An integer as `i64`, if it is in its range. -/
def checked_i64 (n : Int) : Option Int64 :=
  if -2 ^ 63 ≤ n ∧ n < 2 ^ 63 then some (.ofInt n) else none

/-- `Number::as_i64`. -/
def as_i64 : Number → Option Int64
  | .PosInt n => checked_i64 n.toNat
  | .NegInt n => some n
  | .Float _ => none

/-- The integer that a finite float is, if it is one. -/
def f64_integer (bits : UInt64) : Option Int :=
  let exponent := bits.toNat / 2 ^ 52 % 2 ^ 11
  let fraction := bits.toNat % 2 ^ 52
  let sign : Int := if 2 ^ 63 ≤ bits.toNat then -1 else 1
  -- The value is `mantissa * 2 ^ (scale - 1075)`.
  let mantissa := if exponent = 0 then fraction else fraction + 2 ^ 52
  let scale := max exponent 1
  if exponent = 2047 then none
  else if 1075 ≤ scale then some (sign * (mantissa * 2 ^ (scale - 1075) : Nat))
  else if mantissa % 2 ^ (1075 - scale) = 0 then some (sign * (mantissa / 2 ^ (1075 - scale) : Nat))
  else none

def number_to_i128 : Number → Option Int
  | .PosInt n => some n.toNat
  | .NegInt n => some n.toInt
  | .Float bits =>
    match f64_integer bits with
    -- The greatest float that is let through is one above `i128::MAX`; the cast saturates.
    | some n => if -2 ^ 127 ≤ n ∧ n ≤ 2 ^ 127 then some (min n (2 ^ 127 - 1)) else none
    | none => none

def number_to_i64 (n : Number) : Option Int64 :=
  match as_i64 n with
  | some value => some value
  | none =>
    match n.as_u64 with
    | some value => if value ≤ 2 ^ 63 - 1 then some (.ofNat value) else none
    | none => none

/-- The magnitude of a text of digits, as `u128`. -/
def parse_u128 (digits : List Char) : Option Nat :=
  if digits.isEmpty || !digits.all Char.isDigit then none
  else
    let magnitude := Nat.ofDigitChars 10 digits 0
    if magnitude < 2 ^ 128 then some magnitude else none

/-- The sign of a number's text, and the text after it. -/
def split_sign : List Char → Bool × List Char
  | '+' :: digits => (false, digits)
  | '-' :: digits => (true, digits)
  | digits => (false, digits)

/-- `[+-]?[0-9]+` that fits `i64`. -/
def parse_strict_i64 (s : String) : Option Int64 :=
  let (negative, digits) := split_sign s.toList
  match parse_u128 digits with
  | none => none
  | some magnitude =>
    if negative then
      if magnitude = 2 ^ 63 then some (.ofInt (-2 ^ 63))
      else if magnitude ≤ 2 ^ 63 - 1 then some (.ofInt (-magnitude))
      else none
    else if magnitude ≤ 2 ^ 63 - 1 then some (.ofNat magnitude)
    else none

/-- `str::parse::<i64>`. -/
def parse_i64 (s : String) : Option Int64 :=
  let (negative, digits) := split_sign s.toList
  if digits.isEmpty || !digits.all Char.isDigit then none
  else
    let magnitude : Int := Nat.ofDigitChars 10 digits 0
    checked_i64 (if negative then -magnitude else magnitude)

def to_i64_conversion : Value → Except LanguageError Int64
  | .Number n =>
    match number_to_i64 n with
    | some value => .ok value
    | none => .error (conversion_error "number" "i64")
  | .String s =>
    match parse_strict_i64 s with
    | some value => .ok value
    | none => .error (conversion_error "string" "i64")
  | other => .error (conversion_error (value_type_name other) "i64")

def integer_of (actual : String) : Option Int64 → Except LanguageError Int64
  | some value => .ok value
  | none => .error (type_error "integer" actual)

def to_i64 : Value → Except LanguageError Int64
  | .Number n => integer_of "number" (number_to_i64 n)
  | .String s => integer_of "string" (parse_strict_i64 s)
  | other => .error (type_error "integer" (value_type_name other))

/-! ## Operators -/

def is_truthy : Value → Bool
  | .Null => false
  | .Bool b => b
  | .String s => !s.isEmpty
  | _ => true

def is_missing : Value → Bool
  | .Null => true
  | .String s => s.isEmpty || s == "null"
  | _ => false

def values_equal_with_coercion (left right : Value) : Bool :=
  value_eq left right ||
    match left, right with
    | .String s, .Number n | .Number n, .String s =>
      match parse_strict_i64 s, number_to_i64 n with
      | some a, some b => a = b
      | _, _ => false
    | .Number a, .Number b =>
      match number_to_i128 a, number_to_i128 b with
      | some x, some y => x = y
      | _, _ => false
    | _, _ => false

/-- How two values that are both present stand to each other. -/
def value_ordering (left right : Value) : Except LanguageError Ordering :=
  match left, right with
  | .String a, .String b =>
    match parse_strict_i64 a, parse_strict_i64 b with
    | some x, some y => .ok (compare x.toInt y.toInt)
    | _, _ => .ok (compare a b)
  | .String a, .Number n => do
    let x ← integer_of "string" (parse_strict_i64 a)
    let y ← integer_of "number" (number_to_i64 n)
    .ok (compare x.toInt y.toInt)
  | .Number n, .String b => do
    let x ← integer_of "number" (number_to_i64 n)
    let y ← integer_of "string" (parse_strict_i64 b)
    .ok (compare x.toInt y.toInt)
  | .Number a, .Number b => do
    let x ← integer_of "number" (number_to_i64 a)
    let y ← integer_of "number" (number_to_i64 b)
    .ok (compare x.toInt y.toInt)
  | a, b =>
    .error (type_error "integer" (match a with
      | .Bool _ | .Array _ | .Object _ => value_type_name a
      | _ => value_type_name b))

def ordering_compare (left : Value) (op : Op) (right : Value) : Except LanguageError Bool :=
  match left, right with
  | .Null, _ | _, .Null => .ok false
  | left, right => do
    let ordering ← value_ordering left right
    .ok (match op with
      | .Gt => ordering == .gt
      | .Lt => ordering == .lt
      | .Gte => ordering != .lt
      | .Lte => ordering != .gt
      | _ => false)

/-- `contains` on strings. A null operand contains nothing. -/
def contains_value (left right : Value) : Except LanguageError Bool :=
  match left, right with
  | .Null, _ | _, .Null => .ok false
  | .String ls, .String rs => .ok (decide (rs.toList <:+: ls.toList))
  | .String _, _ => .error (.EvalError "contains requires string right")
  | _, _ => .error (.EvalError "contains requires string left")

def arithmetic (left : Value) (f : Int → Int → Int) (right : Value) :
    Except LanguageError Value := do
  let a ← to_i64 left
  let b ← to_i64 right
  match checked_i64 (f a.toInt b.toInt) with
  | some result => .ok (.Number (number_from result))
  | none => .error (arithmetic_error "i64 overflow")

def apply_binop (left : Value) (op : Op) (right : Value) : Except LanguageError Value :=
  match op with
  | .Eq => .ok (.Bool (values_equal_with_coercion left right))
  | .Ne => .ok (.Bool (!values_equal_with_coercion left right))
  | .Contains => Value.Bool <$> contains_value left right
  | .Gt | .Lt | .Gte | .Lte => Value.Bool <$> ordering_compare left op right
  | .Add => arithmetic left (· + ·) right
  | .Sub => arithmetic left (· - ·) right
  | .Mul => arithmetic left (· * ·) right

def negate (value : Value) : Except LanguageError Value := do
  let operand ← to_i64 value
  match checked_i64 (-operand.toInt) with
  | some negated => .ok (.Number (number_from negated))
  | none => .error (arithmetic_error "i64 overflow")

def select (kind : CallKind) (a b : Value) : Except LanguageError Value := do
  let x ← to_i64 a
  let y ← to_i64 b
  let selected := if kind = .Min then (if x.toInt ≤ y.toInt then x else y)
    else (if x.toInt ≤ y.toInt then y else x)
  .ok (.Number (number_from selected))

/-! ## The exchange -/

/-- An expression of another language, and a language that makes them. -/
abbrev Delegate := Exchange → Except LanguageError Value
abbrev Language := String → Except LanguageError Delegate
abbrev ResolverFn := String → Option Language

/-- What the evaluators ask of the outside: the readings of the clock one after the other,
the calendar of `chrono` and the text of a JSON value. -/
structure World where
  now_epoch_ms : Nat → Int64
  from_timestamp_millis : Int → Option Instant
  to_string : Value → String

/-- The budgets of one evaluation, with the number of clock readings so far. -/
structure EvalCtx where
  exchange : Exchange
  resolver : Option ResolverFn
  work : Nat
  output : Nat
  readings : Nat

/-- A step of an evaluation. What it charged stays charged when it fails. -/
abbrev EvalM := ExceptT LanguageError (StateM EvalCtx)

def MAX_WORK_STEPS : Nat := 4096
def MAX_OUTPUT_BYTES : Nat := 1048576

def work_limit_error : LanguageError := limit_error "work step limit exceeded"

def charge_work : EvalM Unit := do
  modify fun ctx => { ctx with work := ctx.work + 1 }
  if MAX_WORK_STEPS < (← get).work then throw work_limit_error

/-- The output is counted in `u32` and saturates. -/
def charge_output (bytes : Nat) : EvalM Unit := do
  modify fun ctx =>
    { ctx with output := min (ctx.output + min bytes (2 ^ 32 - 1)) (2 ^ 32 - 1) }
  if MAX_OUTPUT_BYTES < (← get).output then throw (limit_error "output size limit exceeded")

def presence_of (kind : CallKind) (value : Value) (exchange : Exchange) :
    Except LanguageError Bool :=
  match value with
  | .String key =>
    match kind with
    | .HasHeader => .ok (exchange.input.headers key).isSome
    | .HasProperty => .ok (exchange.properties key).isSome
    | _ => .error (.EvalError "invalid presence-check kind")
  | value => .error (type_error "string" (value_type_name value))

def date_header_millis : Value → Except LanguageError Int64
  | .Number n =>
    match as_i64 n with
    | some millis => .ok millis
    | none => .error (conversion_error "number" "epoch millis")
  | .String s =>
    match parse_i64 s with
    | some millis => .ok millis
    | none => .error (conversion_error "string" "epoch millis")
  | other => .error (conversion_error (value_type_name other) "epoch millis")

/-- A whole body as a value. A stream can be read once only, so it is refused. -/
def body_value (exchange : Exchange) : Except LanguageError Value :=
  match exchange.input.body with
  | .Text s | .Xml s => .ok (.String s)
  | .Json v => .ok v
  | .Bytes b => .ok (.Array (b.map fun byte => .Number (.PosInt byte.toUInt64)))
  | .Empty => .ok .Null
  | .Stream _ => .error stream_body_error

def body_field_value (exchange : Exchange) (segments : List PathSegment) :
    Except LanguageError Value :=
  match exchange.input.body with
  | .Stream _ => .error stream_body_error
  | .Json root => .ok ((segments.foldlM descend root).getD .Null)
  | _ => .ok .Null

/-- The leaves that need nothing but the exchange, and none for the other nodes. -/
def eval_leaf (exchange : Exchange) : Expr → Option Value
  | .Header key => some ((exchange.input.headers key).getD .Null)
  | .ExchangeProperty key => some ((exchange.property key).getD .Null)
  | .ExceptionMessage =>
    some (match exchange.error with
      | some err => .String err.to_string
      | none => .Null)
  | .Exception =>
    some (match exchange.error with
      | some err => .String s!"{err.variant_name}: {err.to_string}"
      | none => .Null)
  | .StringLit s => some (.String s)
  | .EscapedString s => some (.String s)
  | .IntLit value => some (.Number (number_from value))
  | .Null => some .Null
  | .Bool b => some (.Bool b)
  | _ => none

mutual

/-- The tree delegates to another language somewhere. -/
def contains_delegate : Expr → Bool
  | .LanguageDelegate .. => true
  | .Date .. => false
  | .BinOp left _ right | .LogicalOp left _ right =>
    contains_delegate left || contains_delegate right
  | .Neg inner => contains_delegate inner
  | .Call _ args => args_delegate args
  | .Interpolated parts => parts_delegate parts
  | _ => false

def args_delegate : List Expr → Bool
  | [] => false
  | arg :: args => contains_delegate arg || args_delegate args

def parts_delegate : List InterpolatedPart → Bool
  | [] => false
  | .Literal _ :: parts => parts_delegate parts
  | .Expr sub :: parts => contains_delegate sub || parts_delegate parts

end

/-! ## Evaluation -/

/-- A step that charges nothing and may fail. -/
def attempt {α : Type} (result : Except LanguageError α) : EvalM α := ExceptT.mk (pure result)

def invalid_arity : LanguageError := .EvalError "invalid call arity"

section

variable (world : World)

def string_value : Value → Except LanguageError String
  | .String s => .ok s
  | .Number n => .ok (world.to_string (.Number n))
  | .Bool b => .ok (if b then "true" else "false")
  | .Null => .ok ""
  | other => .error (conversion_error (value_type_name other) "string")

def date_value (output : DateOutput) (millis : Int64) : Except LanguageError Value :=
  match output with
  | .EpochMillis => .ok (.Number (number_from millis))
  | .Formatted pattern =>
    Value.String <$> format_epoch_ms world.from_timestamp_millis millis.toInt pattern

def now_epoch_ms : EvalM Int64 := do
  let ctx ← get
  set { ctx with readings := ctx.readings + 1 }
  pure (world.now_epoch_ms ctx.readings)

def eval_date (source : DateSource) (output : DateOutput) : EvalM Value := do
  match source with
  | .Now => attempt (date_value world output (← now_epoch_ms world))
  | .Header name =>
    match (← get).exchange.input.headers name with
    | none => pure .Null
    | some value => attempt (date_header_millis value >>= date_value world output)

def render_interpolated : Value → String
  | .Null => ""
  | .String s => s
  | other => world.to_string other

/-- A body as text. Bytes have to be UTF-8, since neither a byte list nor a lossy text may
stand in a template. -/
def interpolate_body_text (exchange : Exchange) : Except LanguageError String :=
  match exchange.input.body with
  | .Bytes b =>
    match camel_endpoint.uri.from_utf8 b with
    | some text => .ok text
    | none => .error (conversion_error "Body::Bytes" "text")
  | _ => render_interpolated world <$> body_value exchange

mutual

/-- The evaluator for trees without a delegate. -/
def eval_sync_expr (expr : Expr) : EvalM Value := do
  charge_work
  match eval_leaf (← get).exchange expr with
  | some value => pure value
  | none =>
    match expr with
    | .LanguageDelegate .. =>
      throw (.EvalError "language delegation requires the async evaluator")
    | .BinOp left op right => do
      let lv ← eval_sync_expr left
      let rv ← eval_sync_expr right
      attempt (apply_binop lv op rv)
    | .Interpolated parts => Value.String <$> sync_parts parts ""
    | .LogicalOp left op right => do
      let lv ← eval_sync_expr left
      match op with
      | .And =>
        if !is_truthy lv then pure (.Bool false)
        else pure (.Bool (is_truthy (← eval_sync_expr right)))
      | .Or =>
        if is_truthy lv then pure (.Bool true)
        else pure (.Bool (is_truthy (← eval_sync_expr right)))
    | .Neg inner => do attempt (negate (← eval_sync_expr inner))
    | .Call kind args =>
      match kind with
      | .Int => do
        let value ← sync_arg args 0
        attempt (Value.Number <$> number_from <$> to_i64_conversion value)
      | .String => do attempt (Value.String <$> string_value world (← sync_arg args 0))
      | .Default => do
        let first ← sync_arg args 0
        if is_missing first then sync_arg args 1 else pure first
      | .Min | .Max => do
        let a ← sync_arg args 0
        let b ← sync_arg args 1
        attempt (select kind a b)
      | .HasHeader | .HasProperty => do
        let value ← sync_arg args 0
        attempt (Value.Bool <$> presence_of kind value (← get).exchange)
    | .Date source output => eval_date world source output
    | .Body => do attempt (body_value (← get).exchange)
    | .BodyField segments => do attempt (body_field_value (← get).exchange segments)
    | _ => pure .Null

/-- The argument of a call at an index, evaluated. -/
def sync_arg : List Expr → Nat → EvalM Value
  | [], _ => throw invalid_arity
  | arg :: _, 0 => eval_sync_expr arg
  | _ :: args, index + 1 => sync_arg args index

/-- The loop over the parts of an interpolation, with the text so far. -/
def sync_parts : List InterpolatedPart → String → EvalM String
  | [], result => pure result
  | .Literal text :: parts, result => do
    charge_output text.utf8ByteSize
    sync_parts parts (result ++ text)
  | .Expr sub_expr :: parts, result => do
    charge_work
    let rendered ← match sub_expr with
      | .Body => do
        charge_work
        attempt (interpolate_body_text world (← get).exchange)
      | sub_expr => render_interpolated world <$> eval_sync_expr sub_expr
    charge_output rendered.utf8ByteSize
    sync_parts parts (result ++ rendered)

end

def no_resolver : LanguageError :=
  .EvalError ("No language resolver configured. Register languages via CamelContext to use " ++
    "$\x7blang:expr\x7d syntax.")

def language_not_found (language : String) : LanguageError :=
  .EvalError (s!"Language '{language}' not found in registry. Available languages must be " ++
    "registered via CamelContext.")

/-- An error of a delegate may hold data of the exchange, so a fixed one stands for it. -/
def eval_delegate (language expression : String) : EvalM Value := do
  charge_work
  let ctx ← get
  match ctx.resolver with
  | none => throw no_resolver
  | some resolver =>
    match resolver language with
    | none => throw (language_not_found language)
    | some lang =>
      match lang expression with
      | .error _ => throw (delegate_failure language)
      | .ok expr =>
        match expr ctx.exchange with
        | .error _ => throw (delegate_failure language)
        | .ok value => pure value

mutual

/-- The evaluator for every tree. -/
def eval_async_expr (expr : Expr) : EvalM Value := do
  charge_work
  match expr with
  | .Header key => do pure (((← get).exchange.input.headers key).getD .Null)
  | .Body => do attempt (body_value (← get).exchange)
  | .BodyField segments => do attempt (body_field_value (← get).exchange segments)
  | .ExchangeProperty key => do pure (((← get).exchange.property key).getD .Null)
  | .ExceptionMessage => do
    match (← get).exchange.error with
    | some err => pure (.String err.to_string)
    | none => pure .Null
  | .Exception => do
    match (← get).exchange.error with
    | some err => pure (.String s!"{err.variant_name}: {err.to_string}")
    | none => pure .Null
  | .LanguageDelegate language expression => eval_delegate language expression
  | .StringLit s => pure (.String s)
  | .EscapedString s => pure (.String s)
  | .IntLit value => pure (.Number (number_from value))
  | .Null => pure .Null
  | .BinOp left op right => do
    let lv ← eval_async_expr left
    let rv ← eval_async_expr right
    attempt (apply_binop lv op rv)
  | .Interpolated parts => Value.String <$> async_parts parts ""
  | .LogicalOp left op right => do
    let lv ← eval_async_expr left
    match op with
    | .And =>
      if !is_truthy lv then pure (.Bool false)
      else pure (.Bool (is_truthy (← eval_async_expr right)))
    | .Or =>
      if is_truthy lv then pure (.Bool true)
      else pure (.Bool (is_truthy (← eval_async_expr right)))
  | .Bool b => pure (.Bool b)
  | .Neg inner => do attempt (negate (← eval_async_expr inner))
  | .Date source output => eval_date world source output
  | .Call kind args =>
    match kind with
    | .Int => do
      let value ← async_arg args 0
      attempt (Value.Number <$> number_from <$> to_i64_conversion value)
    | .String => do attempt (Value.String <$> string_value world (← async_arg args 0))
    | .Default => do
      let first ← async_arg args 0
      if is_missing first then async_arg args 1 else pure first
    | .Min | .Max => do
      let a ← async_arg args 0
      let b ← async_arg args 1
      attempt (select kind a b)
    | .HasHeader | .HasProperty => do
      let value ← async_arg args 0
      attempt (Value.Bool <$> presence_of kind value (← get).exchange)

def async_arg : List Expr → Nat → EvalM Value
  | [], _ => throw invalid_arity
  | arg :: _, 0 => eval_async_expr arg
  | _ :: args, index + 1 => async_arg args index

def async_parts : List InterpolatedPart → String → EvalM String
  | [], result => pure result
  | .Literal text :: parts, result => do
    charge_output text.utf8ByteSize
    async_parts parts (result ++ text)
  | .Expr sub_expr :: parts, result => do
    charge_work
    let rendered ← match sub_expr with
      | .Body => do
        charge_work
        attempt (interpolate_body_text world (← get).exchange)
      | sub_expr => render_interpolated world <$> eval_async_expr sub_expr
    charge_output rendered.utf8ByteSize
    async_parts parts (result ++ rendered)

end

variable (expr : Expr)

/-- A string result is charged here once, unless it was charged part by part. -/
def charge_native_output (value : Value) : EvalM Unit :=
  match expr, value with
  | .Interpolated _, _ => pure ()
  | _, .String rendered => charge_output rendered.utf8ByteSize
  | _, _ => pure ()

def evaluate_without_delegation : EvalM Value := do
  let value ← match eval_leaf (← get).exchange expr with
    | some value => do
      charge_work
      pure value
    | none => eval_sync_expr world expr
  charge_native_output expr value
  pure value

def evaluate_with_delegation : EvalM Value := do
  let value ← eval_async_expr world expr
  charge_native_output expr value
  pure value

/-- The evaluation of a source, with the budgets it has used up in the end. -/
def evaluate (exchange : Exchange) (resolver : Option ResolverFn) :
    Except LanguageError Value × EvalCtx :=
  let ctx : EvalCtx := { exchange, resolver, work := 0, output := 0, readings := 0 }
  if contains_delegate expr then (evaluate_with_delegation world expr).run.run ctx
  else (evaluate_without_delegation world expr).run.run ctx

end

end camel_language_simple.evaluator
