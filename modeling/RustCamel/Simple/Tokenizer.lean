-- The tokenizer of the Simple language in `camel-language-simple/src/parser.rs`. A source is
-- scanned from left to right; what is no token of its own gathers in runs of text.
import RustCamel.Simple.Ast

namespace camel_language_simple.parser

open camel_api (trim)
open camel_endpoint.uri (split_once)
open camel_language_api (LanguageError)

/-! ## Tokens -/

inductive Token where
  | Expr (source : String)
  | Text (s : String)
  | Word (s : String)
  | StringLit (s : String)
  | EscapedString (s : String)
  | IntLit (value : Int64)
  | WideIntLit (magnitude : Nat)
  | BoolLit (b : Bool)
  | Null
  | Op (op : parser.Op)
  | And
  | Or
  | Plus
  | Minus
  | Star
  | Slash
  | Percent
  | Pow
  | Question
  | Coalesce
  | In
  | LParen
  | RParen
  | Comma
  deriving DecidableEq

def is_grammar_token : Token → Bool
  | .Op _ | .And | .Or | .Plus | .Minus | .Star | .Slash | .Percent | .Pow | .Question | .Coalesce
  | .In | .LParen | .RParen | .Comma => true
  | _ => false

/-! ## Scanning -/

/-- The text contains `${`. -/
def contains_slot : List Char → Bool
  | '$' :: '{' :: _ => true
  | _ :: rest => contains_slot rest
  | [] => false

/-- A letter or an underscore: what a hyphen has to be followed by to stand in a key. -/
def is_key_start (c : Char) : Bool := c.isAlpha || c = '_'

def hyphen_precedes_key_char (after : List Char) : Bool := after.head?.any is_key_start

/-- The longest run of a word at the front, and what follows it. -/
def scan_word : List Char → List Char × List Char
  | [] => ([], [])
  | c :: rest =>
    if c.isAlphanum || c = '_' || c = '.' || (c = '-' && hyphen_precedes_key_char rest) then
      let (word, rest) := scan_word rest
      (c :: word, rest)
    else ([], c :: rest)

/-- What stands before the closing double quote, and what follows it. A backslash escapes
the character behind it. -/
def find_closing_double_quote : List Char → Option (List Char × List Char)
  | [] => none
  | '"' :: rest => some ([], rest)
  | '\\' :: c :: rest =>
    (find_closing_double_quote rest).map fun (content, rest) => ('\\' :: c :: content, rest)
  | c :: rest =>
    (find_closing_double_quote rest).map fun (content, rest) => (c :: content, rest)

/-- Keywords are words without a hyphen. -/
def classify_word (word : String) : Token :=
  if '-' ∈ word.toList then .Word word
  else if word = "contains" then .Op .Contains
  else if word = "true" then .BoolLit true
  else if word = "false" then .BoolLit false
  else if word = "null" then .Null
  else if word = "in" then .In
  else .Word word

/-- The operators and the punctuation. Those of two characters go first. -/
def scan_symbol : List Char → Option (Token × List Char)
  | '?' :: '?' :: rest => some (.Coalesce, rest)
  | '*' :: '*' :: rest => some (.Pow, rest)
  | '&' :: '&' :: rest => some (.And, rest)
  | '|' :: '|' :: rest => some (.Or, rest)
  | '>' :: '=' :: rest => some (.Op .Gte, rest)
  | '<' :: '=' :: rest => some (.Op .Lte, rest)
  | '!' :: '=' :: rest => some (.Op .Ne, rest)
  | '=' :: '=' :: rest => some (.Op .Eq, rest)
  | '>' :: rest => some (.Op .Gt, rest)
  | '<' :: rest => some (.Op .Lt, rest)
  | '+' :: rest => some (.Plus, rest)
  | '-' :: rest => some (.Minus, rest)
  | '*' :: rest => some (.Star, rest)
  | '/' :: rest => some (.Slash, rest)
  | '%' :: rest => some (.Percent, rest)
  | '?' :: rest => some (.Question, rest)
  | '(' :: rest => some (.LParen, rest)
  | ')' :: rest => some (.RParen, rest)
  | ',' :: rest => some (.Comma, rest)
  | _ => none

/-- An integer literal. One above `i64` is kept for the unary minus in front of it. -/
def scan_integer (input : String) (rest : List Char) : Except LanguageError (Token × List Char) :=
  let digits := rest.takeWhile Char.isDigit
  let after := rest.dropWhile Char.isDigit
  if after.head? = some '.' ∨ after.head? = some 'e' ∨ after.head? = some 'E' then
    .error (parse_error input "floats are deferred")
  else
    let magnitude := Nat.ofDigitChars 10 digits 0
    if 2 ^ 64 - 1 < magnitude then .error (parse_error input "integer literal out of range")
    else if magnitude ≤ 2 ^ 63 - 1 then .ok (.IntLit (.ofNat magnitude), after)
    else .ok (.WideIntLit magnitude, after)

/-- A `${` that is never closed. Its place is given in bytes of the trimmed source. -/
def unclosed_interpolation (src : String) (rest : List Char) : LanguageError :=
  let at_byte := src.utf8ByteSize - (String.ofList rest).utf8ByteSize
  .ParseError src (s!"unclosed interpolation: '$\x7b' at byte offset {at_byte} " ++
    "(trimmed source) has no closing '\x7d'")

/-- The token at the front, or none if the first character is text. A word and a number
start a token only if nothing but blanks is gathered before them. -/
def next_token (input : String) (blank : Bool) (rest : List Char) :
    Except LanguageError (Option (Token × List Char)) :=
  match rest with
  | [] => .ok none
  | '$' :: '{' :: after =>
    match split_once '}' after with
    | none => .error (unclosed_interpolation input rest)
    | some (source, rest) => .ok (some (.Expr (.ofList source), rest))
  | '\'' :: after =>
    match split_once '\'' after with
    | none => .error (parse_error input "unclosed single-quoted string")
    | some (content, rest) => .ok (some (.StringLit (.ofList content), rest))
  | '"' :: after =>
    match find_closing_double_quote after with
    | none => .error (parse_error input "unclosed double-quoted string")
    | some (content, rest) => .ok (some (.EscapedString (.ofList content), rest))
  | first :: _ =>
    if is_key_start first && blank then
      let (word, rest) := scan_word rest
      .ok (some (classify_word (.ofList word), rest))
    else if first.isDigit && blank then some <$> scan_integer input rest
    else .ok (scan_symbol rest)

def flush_text (text_buf : List Char) (tokens : List Token) : List Token :=
  if text_buf.isEmpty then tokens else .Text (.ofList text_buf) :: tokens

/-- The loop of `tokenize`. Every round takes a character at least. -/
def tokenizeLoop (input : String) : Nat → List Char → List Char → Except LanguageError (List Token)
  | _, text_buf, [] => .ok (flush_text text_buf [])
  | 0, text_buf, _ => .ok (flush_text text_buf [])
  | rounds + 1, text_buf, first :: rest => do
    match ← next_token input (trim text_buf).isEmpty (first :: rest) with
    | some (token, rest) =>
      let tokens ← tokenizeLoop input rounds [] rest
      .ok (flush_text text_buf (token :: tokens))
    | none => tokenizeLoop input rounds (text_buf ++ [first]) rest

def tokenize (input : List Char) : Except LanguageError (List Token) :=
  tokenizeLoop (.ofList input) input.length [] input

/-- The loop of `has_unquoted_container_syntax`. -/
def containerLoop : Nat → List Char → Bool
  | 0, _ => false
  | _ + 1, [] => false
  | rounds + 1, '$' :: '{' :: after =>
    match split_once '}' after with
    | some (_, rest) => containerLoop rounds rest
    | none => false
  | rounds + 1, '\'' :: after =>
    match split_once '\'' after with
    | some (_, rest) => containerLoop rounds rest
    | none => false
  | rounds + 1, '"' :: after =>
    match find_closing_double_quote after with
    | some (_, rest) => containerLoop rounds rest
    | none => false
  | rounds + 1, c :: rest =>
    if c = '{' ∨ c = '}' ∨ c = '[' ∨ c = ']' then true else containerLoop rounds rest

/-- A brace or a bracket stands outside quotes and slots. -/
def has_unquoted_container_syntax (input : List Char) : Bool := containerLoop input.length input

end camel_language_simple.parser
