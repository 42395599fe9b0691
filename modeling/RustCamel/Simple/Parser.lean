-- The parser of the Simple language in `camel-language-simple/src/parser.rs`: the levels of
-- the grammar, the slots of a source, and the two modes in which a source is read.
import RustCamel.Simple.Tokenizer

namespace camel_language_simple.parser

open camel_api (trim trim_start)
open camel_api.exchange_lookup (ExchangeLookupPath)
open camel_endpoint.uri (split_once)
open camel_language_api (LanguageError)
open date (DEFAULT_PATTERN DateOutput DatePattern DateSource)

/-! ## Lookups -/

section

variable (s : String)

def starts_with (start : String) : Bool := start.toList.isPrefixOf s.toList

/-- `str::strip_prefix`. -/
def strip (start : String) (s : List Char) : Option (List Char) :=
  if start.toList.isPrefixOf s then some (s.drop start.length) else none

def is_scoped_lookup_source : Bool :=
  starts_with s "body." || starts_with s "header." || starts_with s "property." ||
    starts_with s "exchangeProperty."

def is_lookup_word (word : String) : Bool :=
  word = "body" || word = "exception" || word = "exception.message" ||
    is_scoped_lookup_source word

def lookup_key_start (word : String) : Option String :=
  ["body.", "header.", "property.", "exchangeProperty."].find? (starts_with word)

/-- A text in the delimiters of a slot, as an error shows it. -/
def slot_text : String := "$\x7b" ++ s ++ "\x7d"

def lookup_path_to_expr : Except LanguageError Expr :=
  match ExchangeLookupPath.parse s with
  | .error e => .error (.ParseError (slot_text s) e.to_string)
  | .ok (.Body segments) => .ok (.BodyField segments)
  | .ok (.Header key) => .ok (.Header key)
  | .ok (.Property key) => .ok (.ExchangeProperty key)
  | .ok (.Unscoped _) => .error (.ParseError (slot_text s) "unrecognized token")

/-- A `<language>:<payload>` text. The payload is opaque. -/
def parse_delegate_slot (content : List Char) : Option Expr :=
  match split_once ':' content with
  | none => none
  | some (language, expression) =>
    if language.isEmpty || expression.isEmpty ||
        !language.all (fun c => c.isLower || c.isDigit || c = '-') then none
    else some (.LanguageDelegate (.ofList language) (.ofList expression))

def empty_interpolation : LanguageError :=
  .ParseError (slot_text s) "empty interpolation: no expression between '$\x7b' and '\x7d'"

def nested_slot : LanguageError := .ParseError (slot_text s) "nested slots are not allowed"

def parse_expr_atom : Except LanguageError Expr :=
  if (trim s.toList).isEmpty then .error (empty_interpolation s)
  else if contains_slot s.toList then .error (nested_slot s)
  else if s = "body" then .ok .Body
  else if s = "exception" then .ok .Exception
  else if s = "exception.message" then .ok .ExceptionMessage
  else
    match parse_delegate_slot s.toList with
    | some delegate => .ok delegate
    | none =>
      if is_scoped_lookup_source s then lookup_path_to_expr s
      else .error (.ParseError s "unrecognized token")

end

def parse_identifier (word input : String) : Except LanguageError Expr :=
  if is_lookup_word word then parse_expr_atom word
  else .error (parse_error input "unknown identifier")

def unescape_double_quoted : List Char → List Char
  | [] => []
  | '\\' :: 'n' :: rest => '\n' :: unescape_double_quoted rest
  | '\\' :: 'r' :: rest => '\r' :: unescape_double_quoted rest
  | '\\' :: 't' :: rest => '\t' :: unescape_double_quoted rest
  | '\\' :: 'b' :: rest => '\x08' :: unescape_double_quoted rest
  | '\\' :: 'f' :: rest => '\x0c' :: unescape_double_quoted rest
  | '\\' :: '/' :: rest => '/' :: unescape_double_quoted rest
  | '\\' :: '\\' :: rest => '\\' :: unescape_double_quoted rest
  | '\\' :: '"' :: rest => '"' :: unescape_double_quoted rest
  | c :: rest => c :: unescape_double_quoted rest

/-! ## The state of the parser -/

/-- The grouping parentheses that are open, the most that were, and what the slots add. How
deep the parser itself has gone stands in the recursion of `parse_unary`. -/
structure ParseDepth where
  grouping : Nat
  max_grouping : Nat
  slot_parens : Nat

def ParseDepth.default : ParseDepth := ⟨0, 0, 0⟩

def ParseDepth.paren_depth (depth : ParseDepth) : Nat := max depth.max_grouping depth.slot_parens

structure ParseState where
  rest : List Token
  depth : ParseDepth

abbrev ParseM := StateT ParseState (Except LanguageError)

def peek : ParseM (Option Token) := do return (← get).rest.head?

def advance : ParseM Unit := modify fun st => { st with rest := st.rest.tail }

/-- What reads a slot, at the depth the parser is at and with the parentheses around. -/
abbrev SlotParser := String → Nat → ParseDepth → Except LanguageError (Expr × ParseDepth)

def read_slot (slot : SlotParser) (source : String) : ParseM Expr := do
  let st ← get
  let (expr, depth) ← slot source st.depth.grouping st.depth
  set { st with depth := depth }
  return expr

/-! ## The levels of the grammar -/

/-- The rounds of a left-associative level: while an operator stands at the front it takes one
more operand. A round takes a token, so the rounds are no more than the tokens. -/
def chainLoop {β : Type} (operator : Token → Option β) (operand : ParseM Expr)
    (combine : β → Expr → Expr → Except LanguageError Expr) : Nat → Expr → ParseM Expr
  | 0, left => return left
  | rounds + 1, left => do
    match (← peek).bind operator with
    | none => return left
    | some op =>
      advance
      let right ← operand
      chainLoop operator operand combine rounds (← combine op left right)

def chain {β : Type} (operator : Token → Option β) (operand : ParseM Expr)
    (combine : β → Expr → Expr → Except LanguageError Expr) : ParseM Expr := do
  let left ← operand
  chainLoop operator operand combine (← get).rest.length left

def is_comparison_op : Op → Bool
  | .Eq | .Ne | .Gt | .Lt | .Gte | .Lte | .Contains => true
  | _ => false

def comparison_operator : Token → Option Op
  | .Op op => if is_comparison_op op then some op else none
  | _ => none

def is_string_literal_expr : Expr → Bool
  | .StringLit _ | .EscapedString _ => true
  | _ => false

def product_operator : Token → Option Unit
  | .Star => some ()
  | _ => none

def sum_operator : Token → Option Op
  | .Plus => some .Add
  | .Minus => some .Sub
  | _ => none

def and_operator : Token → Option Unit
  | .And => some ()
  | _ => none

def or_operator : Token → Option Unit
  | .Or => some ()
  | _ => none

section

variable (input : String) (unary : ParseM Expr)

def parse_product : ParseM Expr :=
  chain product_operator unary fun _ left right => .ok (.BinOp left .Mul right)

def parse_sum : ParseM Expr :=
  chain sum_operator (parse_product unary) fun op left right =>
    if op = .Add ∧ is_string_literal_expr left ∧ is_string_literal_expr right then
      .error (parse_error input "string concatenation is deferred")
    else .ok (.BinOp left op right)

def parse_cmp : ParseM Expr := do
  let left ← parse_sum input unary
  match (← peek).bind comparison_operator with
  | none => return left
  | some op =>
    advance
    let right ← parse_sum input unary
    match (← peek).bind comparison_operator with
    | some _ => throw (parse_error input "comparisons do not chain")
    | none => return .BinOp left op right

def parse_and : ParseM Expr :=
  chain and_operator (parse_cmp input unary) fun _ left right => .ok (.LogicalOp left .And right)

def parse_or : ParseM Expr :=
  chain or_operator (parse_and input unary) fun _ left right => .ok (.LogicalOp left .Or right)

end

/-! ## Atoms -/

def call_kind (name : String) : Option CallKind :=
  if name = "int" then some .Int
  else if name = "string" then some .String
  else if name = "default" then some .Default
  else if name = "min" then some .Min
  else if name = "max" then some .Max
  else if name = "has_header" then some .HasHeader
  else if name = "has_property" then some .HasProperty
  else none

def arity : CallKind → Nat
  | .Int | .String | .HasHeader | .HasProperty => 1
  | .Default | .Min | .Max => 2

/-- The arguments of a call after its parenthesis. A round but the last takes a comma. -/
def argsLoop (input : String) (arg : ParseM Expr) : Nat → List Expr → ParseM (List Expr)
  | 0, _ => throw (parse_error input "expected ',' or ')'")
  | rounds + 1, args => do
    let value ← arg
    match ← peek with
    | some .Comma =>
      advance
      argsLoop input arg rounds (args ++ [value])
    | some .RParen =>
      advance
      return args ++ [value]
    | _ => throw (parse_error input "expected ',' or ')'")

section

variable (input : String) (slot : SlotParser) (deeper : Option (ParseM Expr))

/-- `ParseDepth::enter`: the parser one level deeper, if the limit leaves one. -/
def enter : ParseM (ParseM Expr) :=
  match deeper with
  | none => throw (depth_error input)
  | some unary => return unary

def parse_call (name : String) : ParseM Expr := do
  match call_kind name with
  | none => throw (parse_error input "unknown function")
  | some kind =>
    advance
    advance
    let unary ← enter input deeper
    let args ← match ← peek with
      | some .RParen => do
        advance
        pure []
      | _ => do argsLoop input (parse_or input unary) ((← get).rest.length + 1) []
    if args.length ≠ arity kind then throw (parse_error input "call arity")
    else return .Call kind args

/-- What stands in parentheses. The parentheses are counted while it is read. -/
def parse_group : ParseM Expr := do
  let saved := (← get).depth.grouping
  let unary ← enter input deeper
  modify fun st => { st with depth := { st.depth with
    grouping := saved + 1, max_grouping := max st.depth.max_grouping (saved + 1) } }
  advance
  let inner ← parse_or input unary
  modify fun st => { st with depth := { st.depth with grouping := saved } }
  match ← peek with
  | some .RParen =>
    advance
    return inner
  | _ => throw (parse_error input "expected ')'")

def parse_atom : ParseM Expr := do
  match ← peek with
  | none => throw (parse_error input "expected atom but found end of input")
  | some .LParen => parse_group input deeper
  | some (.Word word) =>
    if (← get).rest[1]? = some .LParen then parse_call input deeper word
    else do
      advance
      parse_identifier word input
  | some (.IntLit value) =>
    advance
    return .IntLit value
  | some (.WideIntLit _) => throw (parse_error input "integer literal out of range")
  | some (.StringLit s) =>
    advance
    return .StringLit s
  | some (.EscapedString s) =>
    advance
    return .EscapedString (.ofList (unescape_double_quoted s.toList))
  | some (.BoolLit value) =>
    advance
    return .Bool value
  | some .Null =>
    advance
    return .Null
  | some (.Expr source) =>
    advance
    read_slot slot source
  | some _ => throw (parse_error input "operator cannot appear where an atom is expected")

/-- One level of the unary minus. A minus before the magnitude of `i64::MIN` is folded. -/
def unary_step : ParseM Expr := do
  match ← peek with
  | some .Minus =>
    advance
    match ← peek with
    | some (.WideIntLit magnitude) =>
      advance
      if magnitude = 2 ^ 63 then return .IntLit (.ofInt (-2 ^ 63))
      else throw (parse_error input "integer literal out of range")
    | _ =>
      let unary ← enter input deeper
      return .Neg (← unary)
  | _ => parse_atom input slot deeper

end

/-- The unary level, with `room` levels left until the depth limit. A minus, a parenthesis and
a call go one level deeper, and the rest of the grammar stays on its level. -/
def parse_unary (input : String) (slot : Nat → SlotParser) : Nat → ParseM Expr
  | 0 => unary_step input (slot 0) none
  | room + 1 => unary_step input (slot (room + 1)) (some (parse_unary input slot room))

/-! ## Whole token lists -/

def deferred_reason : Token → Option String
  | .Question => some "ternary is deferred"
  | .Coalesce => some "null-coalescing is deferred"
  | .Pow => some "exponentiation is deferred"
  | .Slash => some "division is deferred"
  | .Percent => some "modulo is deferred"
  | .In => some "in is deferred"
  | _ => none

def reject_deferred (input : String) (tokens : List Token) : Except LanguageError Unit :=
  match tokens.findSome? deferred_reason with
  | some reason => .error (parse_error input reason)
  | none => .ok ()

/-- The error for `header.some - key`, which names the key without the blanks. -/
def retarget_spaced_hyphen_error (err : LanguageError) (tokens : List Token) : LanguageError :=
  match err, tokens with
  | .ParseError expr "unknown identifier", [.Word left, .Minus, .Word right] =>
    match lookup_key_start left with
    | none => err
    | some start =>
      if is_lookup_word right then err
      else
        let key := String.ofList (left.toList.drop start.length)
        .ParseError expr (s!"spaced hyphen: '{left} - {right}' parses as subtraction, and " ++
          s!"'{right}' is not a lookup; write a hyphenated key without spaces: " ++
          s!"'{start}{key}-{right}'")
  | err, _ => err

def is_blank_text : Token → Bool
  | .Text s => (trim s.toList).isEmpty
  | _ => false

/-- Parse a list of tokens whole. Blank text means nothing in the grammar. -/
def parse_slot_expression (slot : Nat → SlotParser) (room : Nat) (tokens : List Token)
    (input : String) (depth : ParseDepth) : Except LanguageError (Expr × ParseDepth) :=
  let tokens := tokens.filter fun t => !is_blank_text t
  do
    reject_deferred input tokens
    match (parse_or input (parse_unary input slot room)).run ⟨tokens, depth⟩ with
    | .error err => .error (retarget_spaced_hyphen_error err tokens)
    | .ok (expr, st) =>
      if st.rest.isEmpty then .ok (expr, st.depth)
      else .error (parse_error input
        s!"unexpected token after position {tokens.length - st.rest.length}")

/-- The state of `max_grouping_paren_nesting`: for every open parenthesis whether it groups,
how many group, the most that did, and whether a word stands before. -/
structure Nesting where
  stack : List Bool
  current : Nat
  max : Nat
  previous_was_word : Bool

def Nesting.read (n : Nesting) : Token → Nesting
  | .LParen =>
    if n.previous_was_word then { n with stack := false :: n.stack, previous_was_word := false }
    else ⟨true :: n.stack, n.current + 1, Max.max n.max (n.current + 1), false⟩
  | .RParen =>
    let current := if n.stack.head? = some true then n.current - 1 else n.current
    { n with stack := n.stack.tail, current, previous_was_word := false }
  | .Word _ => { n with previous_was_word := true }
  | _ => { n with previous_was_word := false }

/-- The parentheses of a call do not count. -/
def max_grouping_paren_nesting (tokens : List Token) : Nat :=
  (tokens.foldl Nesting.read ⟨[], 0, 0, false⟩).max

/-! ## Slots -/

def parse_date_slot (payload : List Char) : Except LanguageError Expr := do
  let text := String.ofList payload
  let (command, pattern_text) := match split_once ':' payload with
    | some (command, pattern) => (command, some (String.ofList pattern))
    | none => (payload, none)
  let source ←
    if command = "now".toList then .ok DateSource.Now
    else
      match strip "header." command with
      | some [] => .error (parse_error text "empty header name in date slot")
      | some name => .ok (DateSource.Header (.ofList name))
      | none => .error (parse_error text ("unknown date command `" ++ .ofList command ++
          "` (accepted: now, header.<name>)"))
  let output ← match pattern_text with
    | none => DateOutput.Formatted <$> DatePattern.compile DEFAULT_PATTERN
    | some pattern =>
      if pattern = "millis" then .ok DateOutput.EpochMillis
      else DateOutput.Formatted <$> DatePattern.compile pattern
  return .Date source output

def token_to_atom (token : Token) (input : String) (slot : SlotParser) (depth : ParseDepth) :
    Except LanguageError (Expr × ParseDepth) :=
  match token with
  | .Expr s => slot s depth.grouping depth
  | .StringLit s => .ok (.StringLit s, depth)
  | .EscapedString s => .ok (.EscapedString (.ofList (unescape_double_quoted s.toList)), depth)
  | .IntLit value => .ok (.IntLit value, depth)
  | .WideIntLit _ => .error (parse_error input "integer literal out of range")
  | .BoolLit value => .ok (.Bool value, depth)
  | .Null => .ok (.Null, depth)
  | .Text s | .Word s => .ok (.StringLit s, depth)
  | _ => .error (parse_error input "operator cannot appear where an atom is expected")

/-- Every hyphen of the text is followed by a letter or an underscore. -/
def hyphens_in_keys : List Char → Bool
  | [] => true
  | c :: rest => (c ≠ '-' || hyphen_precedes_key_char rest) && hyphens_in_keys rest

/-- A lookup whose only operators are the hyphens of its key. -/
def hyphenated_lookup (content : List Char) (tokens : List Token) : Bool :=
  !content.any camel_api.is_whitespace && is_scoped_lookup_source (.ofList content) &&
    content.contains '-' && hyphens_in_keys content && tokens.contains .Minus &&
    tokens.all fun t => !is_grammar_token t || t = .Minus

/-- The text of a slot has no slot in it, so this is never asked. -/
def no_slot : Nat → SlotParser := fun _ s _ _ => .error (nested_slot s)

/-- The expression of a slot that is neither a date nor a delegate, and the parentheses in
it. -/
def parse_slot_tokens (room : Nat) (content : List Char) (depth : ParseDepth) :
    Except LanguageError (Expr × Nat × ParseDepth) := do
  let input := String.ofList content
  let tokens ← tokenize content
  let expression : Except LanguageError (Expr × Nat × ParseDepth) := do
    let (expr, depth) ← parse_slot_expression no_slot room tokens input depth
    return (expr, max_grouping_paren_nesting tokens, depth)
  if (!tokens.any is_grammar_token || hyphenated_lookup content tokens) && !tokens.isEmpty then
    match tokens with
    | [.Word word] =>
      if is_lookup_word word then return (← parse_expr_atom word, 0, depth)
      else .error (parse_error input "unrecognized token")
    | [.Text _] => .error (parse_error input "unrecognized token")
    | [token] =>
      let (expr, depth) ← token_to_atom token input (no_slot room) depth
      return (expr, 0, depth)
    | _ =>
      match parse_expr_atom input with
      | .ok atom => return (atom, 0, depth)
      | .error _ => expression
  else expression

def parse_slot_content (room : Nat) : SlotParser := fun s enclosing_grouping depth => do
  let content := trim s.toList
  if content.isEmpty then throw (empty_interpolation s)
  else if contains_slot s.toList then throw (nested_slot s)
  else
    let (expr, parens, depth) ←
      match strip "date:" content with
      | some payload => do pure (← parse_date_slot payload, 0, depth)
      | none =>
        match parse_delegate_slot (trim_start s.toList) with
        | some delegate => pure (delegate, 0, depth)
        | none => parse_slot_tokens room content depth
    validate_expr expr s (enclosing_grouping + parens)
    return (expr, { depth with slot_parens := depth.slot_parens + (enclosing_grouping + parens) })

/-! ## Sources -/

/-- The parts of a source without grammar, with the literal text so far. -/
def build_parts (slot : SlotParser) (input : String) (literal : String) (depth : ParseDepth) :
    List Token → Except LanguageError (List InterpolatedPart × ParseDepth)
  | [] => .ok (if literal.isEmpty then [] else [.Literal literal], depth)
  | .Text s :: tokens | .Word s :: tokens => build_parts slot input (literal ++ s) depth tokens
  | other :: tokens => do
    let (expr, depth) ← token_to_atom other input slot depth
    let (parts, depth) ← build_parts slot input "" depth tokens
    return ((if literal.isEmpty then [] else [.Literal literal]) ++ .Expr expr :: parts, depth)

def build_interpolated (slot : SlotParser) (tokens : List Token) (input : String)
    (depth : ParseDepth) : Except LanguageError (Expr × ParseDepth) := do
  let (parts, depth) ← build_parts slot input "" depth tokens
  return (.Interpolated parts, depth)

def token_text : Token → String
  | .Text s | .Word s => s
  | _ => ""

def is_slot : Token → Bool
  | .Expr _ => true
  | _ => false

def is_text_or_word : Token → Bool
  | .Text _ | .Word _ => true
  | _ => false

/-- A tree within the bounds, with what was read to get it. -/
def validated (input : String) (read : Expr × ParseDepth) : Except LanguageError Expr := do
  validate_expr read.1 input read.2.paren_depth
  return read.1

/-- Parse a source in predicate mode. -/
def parse (input : String) : Except LanguageError Expr := do
  check_source_len input
  let chars := trim input.toList
  let input := String.ofList chars
  if chars.isEmpty then throw (.ParseError input "empty expression")
  else if has_unquoted_container_syntax chars then
    throw (parse_error input "json/map construction is deferred")
  else
    let tokens ← tokenize chars
    if tokens.any is_grammar_token then
      let read ← parse_slot_expression parse_slot_content MAX_DEPTH tokens input .default
      validated input read
    else
      match tokens with
      | [.Word word] => do
        let expr ← parse_identifier word input
        validated input (expr, .default)
      | [token] => do
        let read ← token_to_atom token input (parse_slot_content MAX_DEPTH) .default
        validated input read
      | tokens =>
        if !tokens.any is_slot && tokens.all is_text_or_word then
          return .StringLit (String.join (tokens.map token_text))
        else
          let read ← build_interpolated (parse_slot_content MAX_DEPTH) tokens input .default
          validated input read

/-- The inside of a text that is one slot. -/
def whole_slot_source (src : List Char) : Option (List Char) :=
  match strip "$\x7b" src with
  | none => none
  | some rest =>
    match split_once '}' rest with
    | some (slot, []) => some slot
    | _ => none

/-- The loop of `parse_template`: the parts of the text, and whether there is a slot. -/
def templateLoop (src : String) : Nat → String → ParseDepth → List Char →
    Except LanguageError (List InterpolatedPart × Bool × ParseDepth)
  | 0, literal, depth, _ => .ok (if literal.isEmpty then [] else [.Literal literal], false, depth)
  | _ + 1, literal, depth, [] =>
    .ok (if literal.isEmpty then [] else [.Literal literal], false, depth)
  | rounds + 1, literal, depth, '$' :: '{' :: after =>
    match split_once '}' after with
    | none => .error (unclosed_interpolation src ('$' :: '{' :: after))
    | some (slot, rest) => do
      let (sub, depth) ← parse_slot_content MAX_DEPTH (.ofList slot) 0 depth
      let (parts, _, depth) ← templateLoop src rounds "" depth rest
      return ((if literal.isEmpty then [] else [.Literal literal]) ++ .Expr sub :: parts, true,
        depth)
  | rounds + 1, literal, depth, ch :: rest => templateLoop src rounds (literal.push ch) depth rest

/-- Parse a source in template mode: literal text and slots. -/
def parse_template (input : String) : Except LanguageError Expr := do
  check_source_len input
  let chars := trim input.toList
  let src := String.ofList chars
  if chars.isEmpty then throw (.ParseError "" "empty expression")
  else
    match whole_slot_source chars with
    | some slot =>
      let read ← parse_slot_content MAX_DEPTH (.ofList slot) 0 .default
      validated src read
    | none =>
      let (parts, completed_slot, depth) ←
        templateLoop src (chars.length + 1) "" .default chars
      let expr := if completed_slot then .Interpolated parts else .StringLit src
      validated src (expr, depth)

end camel_language_simple.parser
