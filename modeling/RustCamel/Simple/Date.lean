-- The errors of the languages, and the `date:` sub-language of
-- `camel-language-simple/src/date.rs`: its patterns are compiled when the source is parsed.
import RustCamel.Api.ExchangeLookup

namespace camel_language_api

open camel_api.error (ErrorPosition ExpressionErrorClass)

inductive LanguageError where
  | ParseError (expr reason : String)
  | EvalError (msg : String)
  | UnknownVariable (name : String)
  | NotFound (name : String)
  | NotSupported (feature language : String)
  | EvalFailure (cls : ExpressionErrorClass) (position : Option ErrorPosition)
      (detail : Option String)
  | TypeMismatch (expected actual : String) (position : Option ErrorPosition)
  | ConversionError (source_type target : String)
  deriving DecidableEq

end camel_language_api

namespace camel_language_simple.date

open camel_language_api (LanguageError)

/-! ## Patterns -/

def DEFAULT_PATTERN : String := "yyyy-MM-dd'T'HH:mm:ss.SSSX"

inductive DateSegment where
  | Year (count : Nat)
  | Month
  | Day
  | Hour
  | Minute
  | Second
  | Millis (count : Nat)
  | Offset
  | Literal (text : String)

structure DatePattern where
  segments : List DateSegment

inductive DateSource where
  | Now
  | Header (name : String)

inductive DateOutput where
  | Formatted (pattern : DatePattern)
  | EpochMillis

def parse_error (expr : String) (reason : String) : LanguageError := .ParseError expr reason

/-- One `'...'` literal after its opening quote: the text and what follows it. -/
def quoted_literal (pattern : String) : List Char → Except LanguageError (List Char × List Char)
  | [] => .error (parse_error pattern "unterminated quote in date pattern")
  | '\'' :: '\'' :: rest => do
    let (literal, rest) ← quoted_literal pattern rest
    .ok ('\'' :: literal, rest)
  | '\'' :: rest => .ok ([], rest)
  | c :: rest => do
    let (literal, rest) ← quoted_literal pattern rest
    .ok (c :: literal, rest)

def fixed_double_letter (pattern letters : String) (count : Nat) (segment : DateSegment) :
    Except LanguageError DateSegment :=
  if count = 2 then .ok segment
  else .error (parse_error pattern s!"date pattern field `{letters}` requires exactly 2 letters")

def letter_segment (pattern : String) (letter : Char) (count : Nat) :
    Except LanguageError DateSegment :=
  let letters := String.ofList (List.replicate count letter)
  match letter with
  | 'y' =>
    if 4 < count then
      .error (parse_error pattern s!"year pattern `{letters}` supports at most 4 letters")
    else .ok (.Year count)
  | 'M' => fixed_double_letter pattern letters count .Month
  | 'd' => fixed_double_letter pattern letters count .Day
  | 'H' => fixed_double_letter pattern letters count .Hour
  | 'm' => fixed_double_letter pattern letters count .Minute
  | 's' => fixed_double_letter pattern letters count .Second
  | 'S' =>
    if 3 < count then
      .error (parse_error pattern s!"millisecond pattern `{letters}` supports at most 3 letters")
    else .ok (.Millis count)
  | 'X' =>
    if 3 < count then
      .error (parse_error pattern s!"offset pattern `{letters}` supports at most 3 letters")
    else .ok .Offset
  | other =>
    .error (parse_error pattern ("unsupported date pattern letter `" ++ .singleton other ++
      "` (supported: y M d H m s S X and 'literal')"))

/-- The loop of `compile`. Every round takes a character at least, so the rounds are no more
than the characters. -/
def compileLoop (pattern : String) : Nat → List Char → Except LanguageError (List DateSegment)
  | 0, _ => .ok []
  | _ + 1, [] => .ok []
  | rounds + 1, c :: rest =>
    if c = '\'' then
      match rest with
      | '\'' :: rest => (.Literal "'" :: ·) <$> compileLoop pattern rounds rest
      | rest => do
        let (literal, rest) ← quoted_literal pattern rest
        (.Literal (.ofList literal) :: ·) <$> compileLoop pattern rounds rest
    else if c.isAlpha then do
      let segment ← letter_segment pattern c (1 + (rest.takeWhile (· = c)).length)
      (segment :: ·) <$> compileLoop pattern rounds (rest.dropWhile (· = c))
    else
      let plain (d : Char) : Bool := !d.isAlpha && d ≠ '\''
      (.Literal (.ofList (c :: rest.takeWhile plain)) :: ·) <$>
        compileLoop pattern rounds (rest.dropWhile plain)

def DatePattern.compile (pattern : String) : Except LanguageError DatePattern :=
  if pattern.isEmpty then .error (parse_error pattern "empty date pattern")
  else DatePattern.mk <$> compileLoop pattern pattern.length pattern.toList

/-! ## Formatting -/

/-- A point in time as `chrono` breaks it down. -/
structure Instant where
  year : Int
  month : Nat
  day : Nat
  hour : Nat
  minute : Nat
  second : Nat
  timestamp_subsec_millis : Nat

/-- `{:0width$}`: a number with leading zeros. The sign counts for the width. -/
def zeroPadded (width : Nat) (n : Int) : String :=
  let digits := toString n.natAbs
  let sign := if n < 0 then "-" else ""
  sign ++ .ofList (List.replicate (width - sign.length - digits.length) '0') ++ digits

def format_segment (instant : Instant) : DateSegment → String
  | .Year count =>
    if count = 2 then zeroPadded 2 (instant.year % 100) else zeroPadded count instant.year
  | .Month => zeroPadded 2 instant.month
  | .Day => zeroPadded 2 instant.day
  | .Hour => zeroPadded 2 instant.hour
  | .Minute => zeroPadded 2 instant.minute
  | .Second => zeroPadded 2 instant.second
  | .Millis count => zeroPadded count instant.timestamp_subsec_millis
  | .Offset => "Z"
  | .Literal text => text

/-- `chrono` decides which timestamps have an instant. -/
def format_epoch_ms (from_timestamp_millis : Int → Option Instant) (ms : Int)
    (pattern : DatePattern) : Except LanguageError String :=
  match from_timestamp_millis ms with
  | none => .error (.EvalError "timestamp out of range")
  | some instant => .ok (String.join (pattern.segments.map (format_segment instant)))

end camel_language_simple.date
