-- The texts of the expressions of the Simple language: fully parenthesised, and with the
-- parentheses only that the precedence of the operators asks for. Both parse back.
import RustCamel.Simple.Grammar

open List

namespace camel_language_simple.parser

open camel_api (trim trim_start)
open camel_api.exchange_lookup (ExchangeLookupPath PathSegment body_segment parse_body_segments
  parse_usize)
open camel_endpoint.uri (split_once split_once_append split_once_none)
open camel_language_api (LanguageError)

/-! ## The texts -/

def Level.prec : Level → Nat
  | .or => 1
  | .and => 2
  | .cmp => 3
  | .sum => 4
  | .product => 5
  | .unary => 6
  | .atom => 7

/-- What a text is made of: a token, or the blank between two of them. -/
inductive Piece where
  | token (t : Token)
  | blank

def Piece.token? : Piece → Option Token
  | .token t => some t
  | .blank => none

/-- How an operator is written. -/
def spell_op : Op → List Char
  | .Eq => "==".toList
  | .Ne => "!=".toList
  | .Gt => ">".toList
  | .Lt => "<".toList
  | .Gte => ">=".toList
  | .Lte => "<=".toList
  | .Contains => "contains".toList
  | .Add => "+".toList
  | .Sub => "-".toList
  | .Mul => "*".toList

/-- How a token is written. -/
def spell : Token → List Char
  | .Expr source => "$\x7b".toList ++ source.toList ++ "\x7d".toList
  | .Text s | .Word s => s.toList
  | .StringLit s => '\'' :: s.toList ++ ['\'']
  | .EscapedString s => '"' :: s.toList ++ ['"']
  | .IntLit value => Nat.toDigits 10 value.toInt.toNat
  | .WideIntLit magnitude => Nat.toDigits 10 magnitude
  | .BoolLit true => "true".toList
  | .BoolLit false => "false".toList
  | .Null => "null".toList
  | .Op op => spell_op op
  | .And => "&&".toList
  | .Or => "||".toList
  | .Plus => ['+']
  | .Minus => ['-']
  | .Star => ['*']
  | .Slash => ['/']
  | .Percent => ['%']
  | .Pow => "**".toList
  | .Question => ['?']
  | .Coalesce => "??".toList
  | .In => "in".toList
  | .LParen => ['(']
  | .RParen => [')']
  | .Comma => [',']

def Piece.chars : Piece → List Char
  | .token t => spell t
  | .blank => [' ']

def text_of (ps : List Piece) : List Char := ps.flatMap Piece.chars

def tokens_of (ps : List Piece) : List Token := ps.filterMap Piece.token?

/-- The level of an operator, and those of its operands. -/
def op_levels : Op → Level × Level × Level
  | .Mul => (.product, .product, .unary)
  | .Add | .Sub => (.sum, .sum, .product)
  | _ => (.cmp, .sum, .sum)

def op_token : Op → Token
  | .Mul => .Star
  | .Add => .Plus
  | .Sub => .Minus
  | op => .Op op

def call_name : CallKind → String
  | .Int => "int"
  | .String => "string"
  | .Default => "default"
  | .Min => "min"
  | .Max => "max"
  | .HasHeader => "has_header"
  | .HasProperty => "has_property"

def segment_key : PathSegment → List Char
  | .Key key => key.toList
  | .Index index => Nat.toDigits 10 index

def lookup_word : Expr → String
  | .Header key => "header." ++ key
  | .ExchangeProperty key => "property." ++ key
  | .BodyField segments => "body." ++ .ofList (['.'].intercalate (segments.map segment_key))
  | _ => "body"

def parens (b : Bool) (ps : List Piece) : List Piece :=
  if b then .token .LParen :: (ps ++ [.token .RParen]) else ps

/-- An operator between its operands. -/
def between (left : List Piece) (t : Token) (right : List Piece) : List Piece :=
  left ++ .blank :: .token t :: .blank :: right

mutual

/-- The pieces of an expression where a level is asked for. If `full` is set every operator is
put in parentheses, and else those that stand on a looser level. -/
def pieces (full : Bool) (level : Level) : Expr → List Piece
  | .BinOp left op right =>
    parens (full || decide ((op_levels op).1.prec < level.prec))
      (between (pieces full (op_levels op).2.1 left) (op_token op)
        (pieces full (op_levels op).2.2 right))
  | .LogicalOp left .And right =>
    parens (full || decide (Level.and.prec < level.prec))
      (between (pieces full .and left) .And (pieces full .cmp right))
  | .LogicalOp left .Or right =>
    parens (full || decide (Level.or.prec < level.prec))
      (between (pieces full .or left) .Or (pieces full .and right))
  | .Neg inner =>
    parens (full || decide (Level.unary.prec < level.prec))
      (.token .Minus :: pieces full .unary inner)
  | .Call kind args =>
    .token (.Word (call_name kind)) :: .token .LParen :: (args_pieces full args ++ [.token .RParen])
  | .IntLit value =>
    if value.toInt < 0 then [.token .Minus, .token (.WideIntLit value.toInt.natAbs)]
    else [.token (.IntLit value)]
  | .StringLit s => [.token (.StringLit s)]
  | .Bool b => [.token (.BoolLit b)]
  | .Null => [.token .Null]
  | expr => [.token (.Word (lookup_word expr))]

def args_pieces (full : Bool) : List Expr → List Piece
  | [] => []
  | [arg] => pieces full .or arg
  | arg :: args => pieces full .or arg ++ .token .Comma :: .blank :: args_pieces full args

end

/-- One level deeper, if something is opened. -/
def opened (b : Bool) (n : Nat) : Nat := if b then n + 1 else n

mutual

/-- How much is open at once in the pieces of an expression: parentheses, and if `all` is set
calls and minuses too, into which the parser goes as deep. -/
def nesting (all full : Bool) (level : Level) : Expr → Nat
  | .BinOp left op right =>
    opened (full || decide ((op_levels op).1.prec < level.prec))
      (max (nesting all full (op_levels op).2.1 left) (nesting all full (op_levels op).2.2 right))
  | .LogicalOp left .And right =>
    opened (full || decide (Level.and.prec < level.prec))
      (max (nesting all full .and left) (nesting all full .cmp right))
  | .LogicalOp left .Or right =>
    opened (full || decide (Level.or.prec < level.prec))
      (max (nesting all full .or left) (nesting all full .and right))
  | .Neg inner =>
    opened (full || decide (Level.unary.prec < level.prec))
      (opened all (nesting all full .unary inner))
  | .Call _ args => opened all (args_nesting all full args)
  | _ => 0

def args_nesting (all full : Bool) : List Expr → Nat
  | [] => 0
  | arg :: args => max (nesting all full .or arg) (args_nesting all full args)

end

/-- The fully parenthesised text. -/
def full_text (expr : Expr) : String := .ofList (text_of (pieces true .or expr))

/-- The text with the parentheses only that precedence and left associativity require. -/
def minimal_text (expr : Expr) : String := .ofList (text_of (pieces false .or expr))

/-! ## The trees that can be written -/

def is_identifier (key : String) : Bool :=
  key.toList.head?.any is_key_start && key.toList.all fun c => c.isAlphanum || c = '_'

/-- The trees of literals, lookups with identifiers as keys, calls and operators. A negative
integer but the least is the unary minus of a positive one. -/
def Writable : Expr → Prop
  | .IntLit value => 0 ≤ value.toInt ∨ value.toInt = -2 ^ 63
  | .StringLit s => '\'' ∉ s.toList
  | .Bool _ | .Null | .Body => True
  | .Header key | .ExchangeProperty key => is_identifier key = true
  | .BodyField segments =>
    segments ≠ [] ∧ ∀ seg ∈ segments, ∃ key, seg = .Key key ∧ is_identifier key = true
  | .BinOp left op right =>
    Writable left ∧ Writable right ∧
      ¬(op = .Add ∧ is_string_literal_expr left ∧ is_string_literal_expr right)
  | .LogicalOp left _ right => Writable left ∧ Writable right
  | .Neg inner => Writable inner
  | .Call kind [a] => arity kind = 1 ∧ Writable a
  | .Call kind [a, b] => arity kind = 2 ∧ Writable a ∧ Writable b
  | _ => False

/-! ## The tokens of the texts -/

@[simp] theorem tokens_of_nil : tokens_of [] = [] := rfl

@[simp] theorem tokens_of_token (t : Token) (ps : List Piece) :
    tokens_of (.token t :: ps) = t :: tokens_of ps := rfl

@[simp] theorem tokens_of_blank (ps : List Piece) : tokens_of (.blank :: ps) = tokens_of ps := rfl

@[simp] theorem tokens_of_append (ps qs : List Piece) :
    tokens_of (ps ++ qs) = tokens_of ps ++ tokens_of qs := filterMap_append

theorem tokens_of_between (left : List Piece) (t : Token) (right : List Piece) :
    tokens_of (between left t right) = tokens_of left ++ t :: tokens_of right := by
  simp [between]

theorem prec_le_atom (level : Level) : level.prec ≤ Level.atom.prec := by cases level <;> decide

variable {expr : Expr} {c : Char} {s : List Char} {segments : List PathSegment} {level : Level}
  {ts : List Token} {w : List Char} {word : String} {t : Token}

theorem Derives.loosen {tight loose : Level} {c g : Nat} (h : Derives tight expr ts c g)
    (hle : loose.prec ≤ tight.prec) : Derives loose expr ts c g := by
  have here (level : Level) (hp : level.prec = tight.prec) : Derives level expr ts c g := by
    have hl : level = tight := by
      cases level <;> cases tight <;> first
        | rfl
        | exact absurd hp (by decide)
    exact hl ▸ h
  have atom (hp : 7 ≤ tight.prec) : Derives .atom expr ts c g :=
    here .atom (by cases tight <;> simp [Level.prec] at hp ⊢)
  have unary (hp : 6 ≤ tight.prec) : Derives .unary expr ts c g :=
    (Nat.lt_or_eq_of_le hp).elim (fun hlt => .atom_unary (atom hlt)) (here .unary)
  have product (hp : 5 ≤ tight.prec) : Derives .product expr ts c g :=
    (Nat.lt_or_eq_of_le hp).elim (fun hlt => .unary_product (unary hlt)) (here .product)
  have sum (hp : 4 ≤ tight.prec) : Derives .sum expr ts c g :=
    (Nat.lt_or_eq_of_le hp).elim (fun hlt => .product_sum (product hlt)) (here .sum)
  have cmp (hp : 3 ≤ tight.prec) : Derives .cmp expr ts c g :=
    (Nat.lt_or_eq_of_le hp).elim (fun hlt => .sum_cmp (sum hlt)) (here .cmp)
  have and (hp : 2 ≤ tight.prec) : Derives .and expr ts c g :=
    (Nat.lt_or_eq_of_le hp).elim (fun hlt => .cmp_and (cmp hlt)) (here .and)
  have or (hp : 1 ≤ tight.prec) : Derives .or expr ts c g :=
    (Nat.lt_or_eq_of_le hp).elim (fun hlt => .and_or (and hlt)) (here .or)
  cases loose with
  | or => exact or hle
  | and => exact and hle
  | cmp => exact cmp hle
  | sum => exact sum hle
  | product => exact product hle
  | unary => exact unary hle
  | atom => exact atom hle

/-- Parentheses around a text. They may be missing only where the level allows it. -/
theorem derives_parens {own : Level} {ps : List Piece} {c g : Nat} (b : Bool)
    (h : Derives own expr (tokens_of ps) c g) :
    Derives level expr (tokens_of (parens (b || decide (own.prec < level.prec)) ps))
      (opened (b || decide (own.prec < level.prec)) c)
      (opened (b || decide (own.prec < level.prec)) g) := by
  cases hb : b || decide (own.prec < level.prec) with
  | false =>
    simp only [Bool.or_eq_false_iff, decide_eq_false_iff_not, Nat.not_lt] at hb
    exact h.loosen hb.2
  | true =>
    have hor : Level.or.prec ≤ own.prec := by cases own <;> decide
    have hp : tokens_of (parens true ps) = .LParen :: (tokens_of ps ++ [.RParen]) := by
      simp [parens]
    rw [hp]
    exact (Derives.group (h.loosen hor)).loosen (prec_le_atom level)

theorem opened_le {m n : Nat} (h : m ≤ n) (b : Bool) :
    opened (false || b) m ≤ opened (true || b) n := by
  cases b <;>
    simp only [opened, Bool.false_or, Bool.true_or, if_true, Bool.false_eq_true, if_false] <;>
    omega

mutual

/-- Without the parentheses that are not needed no more is open at once. -/
theorem nesting_le (all : Bool) (level : Level) : ∀ expr : Expr,
    nesting all false level expr ≤ nesting all true level expr
  | .BinOp left op right | .LogicalOp left .And right | .LogicalOp left .Or right => by
    rw [nesting, nesting]
    exact opened_le (max_le_max (nesting_le all _ left) (nesting_le all _ right)) _
  | .Neg inner => by
    rw [nesting, nesting]
    have hi := nesting_le all .unary inner
    refine opened_le ?_ _
    unfold opened
    split <;> omega
  | .Call kind args => by
    rw [nesting, nesting]
    have ha := args_nesting_le all args
    unfold opened
    split <;> omega
  | .IntLit s | .StringLit s | .Bool s | .BodyField s | .Header s | .ExchangeProperty s
  | .EscapedString s | .Interpolated s => Nat.le_refl _
  | .Null | .Body | .ExceptionMessage | .Exception | .LanguageDelegate .. | .Date .. =>
    Nat.le_refl _

theorem args_nesting_le (all : Bool) : ∀ args : List Expr,
    args_nesting all false args ≤ args_nesting all true args
  | [] => Nat.le_refl _
  | arg :: args => by
    rw [args_nesting, args_nesting]
    exact max_le_max (nesting_le all .or arg) (args_nesting_le all args)

end

/-! ## Words -/

/-- The characters of a word without a hyphen. -/
def is_word_char (c : Char) : Bool := c.isAlphanum || c = '_' || c = '.'

theorem is_word_char_of_identifier {key : String} (h : is_identifier key = true) :
    ∀ c ∈ key.toList, is_word_char c = true ∧ c ≠ '.' := by
  intro c hc
  simp only [is_identifier, Bool.and_eq_true, all_eq_true] at h
  have hw := h.2 c hc
  refine ⟨by simp [is_word_char, hw], ?_⟩
  rintro rfl
  exact absurd hw (by decide)

theorem identifier_ne_nil {key : String} (h : is_identifier key = true) : key.toList ≠ [] := by
  intro hnil
  simp [is_identifier, hnil] at h

theorem not_mem_word (hw : ∀ d ∈ w, is_word_char d = true) (hc : is_word_char c = false) :
    c ∉ w := by
  intro hm
  rw [hw c hm] at hc
  cases hc

theorem is_whitespace_word_char (h : is_word_char c = true) :
    camel_api.is_whitespace c = false := by
  simp only [is_word_char, Char.isAlphanum] at h
  delta Char.isAlpha Char.isUpper Char.isLower at h
  simp only [Char.isDigit, Bool.or_eq_true, Bool.and_eq_true, decide_eq_true_eq,
    UInt32.le_iff_toNat_le] at h
  have hc : 46 ≤ c.toNat ∧ c.toNat ≤ 122 := by
    rcases h with (((h | h) | h) | rfl) | rfl
    · exact ⟨Nat.le_trans (by decide) h.1, Nat.le_trans h.2 (by decide)⟩
    · exact ⟨Nat.le_trans (by decide) h.1, Nat.le_trans h.2 (by decide)⟩
    · exact ⟨Nat.le_trans (by decide) h.1, Nat.le_trans h.2 (by decide)⟩
    · decide
    · decide
  simp only [camel_api.is_whitespace, Bool.or_eq_false_iff, Bool.and_eq_false_iff,
    decide_eq_false_iff_not]
  omega

theorem contains_slot_of_not_mem (h : '$' ∉ s) : contains_slot s = false := by
  induction s with
  | nil => rfl
  | cons c s ih =>
    simp only [mem_cons, not_or] at h
    unfold contains_slot
    split
    · rename_i heq
      simp only [List.cons.injEq] at heq
      exact absurd heq.1.symm h.1
    · rename_i heq
      simp only [List.cons.injEq] at heq
      exact heq.2 ▸ ih h.2
    · rfl

theorem trim_start_of_head (h : camel_api.is_whitespace c = false) :
    trim_start (c :: s) = c :: s := by
  simp [trim_start, h]

/-- A text that neither starts nor ends with a blank is trimmed already. -/
theorem trim_eq {d : Char} (hh : s.head? = some c) (hc : camel_api.is_whitespace c = false)
    (hlast : s.getLast? = some d) (hd : camel_api.is_whitespace d = false) : trim s = s := by
  obtain ⟨s', rfl⟩ : ∃ s', s = c :: s' := by
    cases s with
    | nil => cases hh
    | cons c' s' => exact ⟨s', by simpa using hh⟩
  obtain ⟨r, hr⟩ : ∃ r, (c :: s').reverse = d :: r := by
    rw [← head?_reverse] at hlast
    cases hre : (c :: s').reverse with
    | nil => simp at hre
    | cons d' r =>
      rw [hre] at hlast
      exact ⟨r, by simpa using hlast⟩
  rw [trim, trim_start_of_head hc, hr, trim_start_of_head hd, ← hr, reverse_reverse]

theorem trim_word (hw : ∀ c ∈ w, is_word_char c = true) : trim w = w := by
  cases w with
  | nil => rfl
  | cons c w =>
    have hlast := getLast?_eq_some_getLast (cons_ne_nil c w)
    exact trim_eq rfl (is_whitespace_word_char (hw c mem_cons_self)) hlast
      (is_whitespace_word_char (hw _ (getLast_mem _)))

theorem parse_identifier_lookup (hw : ∀ c ∈ word.toList, is_word_char c = true)
    (hs : is_scoped_lookup_source word = true) (hp : lookup_path_to_expr word = .ok expr) :
    parse_identifier word "" = .ok expr := by
  have hn : word.toList ≠ [] := by
    intro hnil
    simp [is_scoped_lookup_source, starts_with, hnil] at hs
  have hb : word ≠ "body" := by
    rintro rfl
    exact absurd hs (by decide)
  have he : word ≠ "exception" := by
    rintro rfl
    exact absurd hs (by decide)
  have hm : word ≠ "exception.message" := by
    rintro rfl
    exact absurd hs (by decide)
  have hsl := contains_slot_of_not_mem (not_mem_word hw (by decide : is_word_char '$' = false))
  have hd : parse_delegate_slot word.toList = none := by
    have hc := not_mem_word hw (by decide : is_word_char ':' = false)
    rw [parse_delegate_slot, split_once_none hc]
  simp [parse_identifier, is_lookup_word, parse_expr_atom, trim_word hw, hn, hsl, hb,
    he, hm, hd, hs, hp]

theorem scoped_word_chars {scope key : String} (hs : scope.toList.all is_word_char = true)
    (hk : ∀ c ∈ key.toList, is_word_char c = true) :
    ∀ c ∈ (scope ++ key).toList, is_word_char c = true := by
  intro c hc
  rw [String.toList_append, mem_append] at hc
  exact hc.elim (all_eq_true.mp hs c) (hk c)

theorem lookup_parse_eq {s scope : String} {rest : List Char}
    (hc : s.toList = scope.toList ++ '.' :: rest) (hsc : '.' ∉ scope.toList) :
    ExchangeLookupPath.parse s =
      if scope = "body" then
        if rest = [] then .error (.TrailingDot s) else .Body <$> parse_body_segments rest s
      else if scope = "header" then ExchangeLookupPath.scoped_key "header" s .Header (some rest)
      else if scope = "property" ∨ scope = "exchangeProperty" then
        ExchangeLookupPath.scoped_key scope s .Property (some rest)
      else .ok (.Unscoped s) := by
  have he : s.isEmpty = false := by
    rw [← Bool.not_eq_true, String.isEmpty_iff]
    rintro rfl
    simp at hc
  have hs : split_once '.' s.toList = some (scope.toList, rest) := by
    rw [hc]
    exact split_once_append _ hsc
  unfold ExchangeLookupPath.parse
  rw [he, hs]
  simp only [Bool.false_eq_true, if_false, String.ofList_toList]
  cases rest <;> rfl

theorem scoped_key_eq {scope input key : String} {path : String → ExchangeLookupPath}
    (hk : key.toList ≠ []) :
    ExchangeLookupPath.scoped_key scope input path (some key.toList) = .ok (path key) := by
  unfold ExchangeLookupPath.scoped_key
  split
  · rename_i h
    cases h
  · rename_i h
    simp [hk] at h
  · rename_i rest _ h
    obtain rfl : key.toList = rest := by simpa using h
    rw [String.ofList_toList]

theorem lookup_path_header {key : String} (hk : key.toList ≠ []) :
    lookup_path_to_expr ("header." ++ key) = .ok (.Header key) := by
  have hc : ("header." ++ key).toList = "header".toList ++ '.' :: key.toList := String.toList_append
  rw [lookup_path_to_expr, lookup_parse_eq hc (by decide), if_neg (by decide), if_pos rfl,
    scoped_key_eq hk]

theorem lookup_path_property {key : String} (hk : key.toList ≠ []) :
    lookup_path_to_expr ("property." ++ key) = .ok (.ExchangeProperty key) := by
  have hc : ("property." ++ key).toList = "property".toList ++ '.' :: key.toList :=
    String.toList_append
  rw [lookup_path_to_expr, lookup_parse_eq hc (by decide), if_neg (by decide),
    if_neg (by decide), if_pos (.inl rfl), scoped_key_eq hk]

theorem isDigit_of_is_key_start (h : is_key_start c = true) : c.isDigit = false := by
  simp only [is_key_start] at h
  delta Char.isAlpha Char.isUpper Char.isLower at h
  simp only [Bool.or_eq_true, Bool.and_eq_true, decide_eq_true_eq, UInt32.le_iff_toNat_le] at h
  have hc : 58 ≤ c.val.toNat := by
    rcases h with (h | h) | rfl
    · exact Nat.le_trans (by decide) h.1
    · exact Nat.le_trans (by decide) h.1
    · decide
  simp only [Char.isDigit, Bool.and_eq_false_iff, decide_eq_false_iff_not, UInt32.le_iff_toNat_le]
  exact .inr (Nat.not_le_of_lt hc)

theorem body_segment_identifier {key : String} (h : is_identifier key = true) :
    body_segment key.toList = .Key key := by
  obtain ⟨c, rest, hc⟩ := exists_cons_of_ne_nil (identifier_ne_nil h)
  have hs : is_key_start c = true := by
    simp only [is_identifier, hc, head?_cons, Option.any_some, Bool.and_eq_true] at h
    exact h.1
  have hpl : c ≠ '+' := by
    rintro rfl
    exact absurd hs (by decide)
  have hd := isDigit_of_is_key_start hs
  have hp : parse_usize key.toList = none := by
    simp [parse_usize, hc, hpl, hd]
  rw [body_segment, hp, String.ofList_toList]

theorem lookup_path_body (hne : segments ≠ [])
    (hke : ∀ seg ∈ segments, ∃ key, seg = .Key key ∧ is_identifier key = true) :
    lookup_path_to_expr (lookup_word (.BodyField segments)) = .ok (.BodyField segments) := by
  let keys := segments.map segment_key
  have hc : (lookup_word (.BodyField segments)).toList =
      "body".toList ++ '.' :: ['.'].intercalate keys := by
    simp only [lookup_word, String.toList_append, String.toList_ofList]
    rfl
  have hd : ∀ k ∈ keys, '.' ∉ k := by
    intro k hk hdo
    obtain ⟨seg, hse, rfl⟩ := mem_map.mp hk
    obtain ⟨key, rfl, hkey⟩ := hke seg hse
    exact (is_word_char_of_identifier hkey '.' hdo).2 rfl
  have hs : (['.'].intercalate keys).splitOn '.' = keys :=
    splitOn_intercalate '.' hd (by simpa [keys] using hne)
  have hf : keys.any List.isEmpty = false := by
    simp only [keys, any_map, any_eq_false, Function.comp_apply, List.isEmpty_iff]
    intro seg hse
    obtain ⟨key, rfl, hkey⟩ := hke seg hse
    exact identifier_ne_nil hkey
  have hb : keys.map body_segment = segments := by
    simp only [keys, map_map]
    refine (map_congr_left fun seg hse => ?_).trans (map_id segments)
    obtain ⟨key, rfl, hkey⟩ := hke seg hse
    exact body_segment_identifier hkey
  have hn : ['.'].intercalate keys ≠ [] := by
    intro hnil
    rw [hnil] at hs
    rw [← hs] at hf
    simp at hf
  rw [lookup_path_to_expr, lookup_parse_eq hc (by decide), if_pos rfl, if_neg hn,
    parse_body_segments, hs, hf, hb]
  rfl

theorem intercalate_word_chars
    (hk : ∀ seg ∈ segments, ∃ key, seg = .Key key ∧ is_identifier key = true) :
    ∀ c ∈ ['.'].intercalate (segments.map segment_key), is_word_char c = true := by
  induction segments with
  | nil => simp
  | cons seg segments ih =>
    obtain ⟨key, rfl, hke⟩ := hk seg mem_cons_self
    have hf : ∀ c ∈ key.toList, is_word_char c = true :=
      fun c hc => (is_word_char_of_identifier hke c hc).1
    have hr := ih fun seg hs => hk seg (.tail _ hs)
    cases segments with
    | nil => simpa [segment_key] using hf
    | cons seg' segments =>
      intro c hc
      simp only [map_cons, intercalate_cons_cons, mem_append, mem_singleton] at hc
      rcases hc with (hc | rfl) | hc
      · exact hf c hc
      · rfl
      · exact hr c hc

theorem lookup_word_spec (hw : Writable expr)
    (hl : (∃ key, expr = .Header key) ∨ (∃ key, expr = .ExchangeProperty key) ∨
      (∃ segments, expr = .BodyField segments) ∨ expr = .Body) :
    (∀ c ∈ (lookup_word expr).toList, is_word_char c = true) ∧
      parse_identifier (lookup_word expr) "" = .ok expr := by
  rcases hl with ⟨key, rfl⟩ | ⟨key, rfl⟩ | ⟨segments, rfl⟩ | rfl
  · have hs : "header.".toList.all is_word_char = true := by decide
    have hch := scoped_word_chars hs fun c hc => (is_word_char_of_identifier hw c hc).1
    have hsc : is_scoped_lookup_source ("header." ++ key) = true := by
      simp [is_scoped_lookup_source, starts_with]
    exact ⟨hch, parse_identifier_lookup hch hsc
      (lookup_path_header (identifier_ne_nil hw))⟩
  · have hs : "property.".toList.all is_word_char = true := by decide
    have hch := scoped_word_chars hs fun c hc => (is_word_char_of_identifier hw c hc).1
    have hsc : is_scoped_lookup_source ("property." ++ key) = true := by
      simp [is_scoped_lookup_source, starts_with]
    exact ⟨hch, parse_identifier_lookup hch hsc
      (lookup_path_property (identifier_ne_nil hw))⟩
  · have hs : "body.".toList.all is_word_char = true := by decide
    have hk : ∀ c ∈ (String.ofList (['.'].intercalate (segments.map segment_key))).toList,
        is_word_char c = true := by
      rw [String.toList_ofList]
      exact intercalate_word_chars hw.2
    have hch := scoped_word_chars hs hk
    have hsc : is_scoped_lookup_source (lookup_word (.BodyField segments)) = true := by
      simp [is_scoped_lookup_source, starts_with, lookup_word]
    exact ⟨hch, parse_identifier_lookup hch hsc (lookup_path_body hw.1 hw.2)⟩
  · exact ⟨all_eq_true.mp (by decide), by rfl⟩

/-! ## The texts derive their trees -/

theorem atom_of_lookup (h : parse_identifier word "" = .ok expr) :
    atom_of (.Word word) = some expr := by
  unfold atom_of
  dsimp only
  rw [h]

theorem call_kind_call_name (kind : CallKind) : call_kind (call_name kind) = some kind := by
  cases kind <;> rfl

theorem derives_atom (h : atom_of t = some expr) : Derives level expr [t] 0 0 :=
  (Derives.leaf h).loosen (prec_le_atom level)

theorem derives_pieces (full : Bool) (level : Level) (hle : level.prec ≤ Level.unary.prec) :
    ∀ expr : Expr, Writable expr → Derives level expr (tokens_of (pieces full level expr))
      (nesting true full level expr) (nesting false full level expr)
  | .IntLit value, hw => by
    by_cases hne : value.toInt < 0
    · -- Of the negative integers only the least is a literal.
      have hmi : value.toInt = -2 ^ 63 := by
        rcases hw with hw | hw
        · omega
        · exact hw
      have hv : value = .ofInt (-2 ^ 63) := Int64.toInt.inj (hmi.trans (by decide))
      have hp : tokens_of (pieces full level (.IntLit value)) = [.Minus, .WideIntLit (2 ^ 63)] := by
        rw [pieces, if_pos hne, hmi]
        rfl
      rw [hp, hv]
      exact Derives.minimum.loosen hle
    · simp only [pieces, hne, if_false]
      exact derives_atom rfl
  | .StringLit s, _ | .Bool b, _ | .Null, _ => derives_atom rfl
  | .Body, hw => derives_atom (atom_of_lookup (lookup_word_spec hw (.inr (.inr (.inr rfl)))).2)
  | .Header key, hw => derives_atom (atom_of_lookup (lookup_word_spec hw (.inl ⟨key, rfl⟩)).2)
  | .ExchangeProperty key, hw =>
    derives_atom (atom_of_lookup (lookup_word_spec hw (.inr (.inl ⟨key, rfl⟩))).2)
  | .BodyField segments, hw =>
    derives_atom (atom_of_lookup (lookup_word_spec hw (.inr (.inr (.inl ⟨segments, rfl⟩)))).2)
  | .BinOp left op right, hw => by
    have hl (l : Level) (hle : l.prec ≤ Level.unary.prec) := derives_pieces full l hle left hw.1
    have hr (l : Level) (hle : l.prec ≤ Level.unary.prec) := derives_pieces full l hle right hw.2.1
    simp only [pieces, nesting]
    refine derives_parens full ?_
    rw [tokens_of_between]
    cases op with
    | Mul => exact .mul (hl .product (by decide)) (hr .unary (by decide))
    | Add | Sub => exact .sum rfl hw.2.2 (hl .sum (by decide)) (hr .product (by decide))
    | Eq | Ne | Gt | Lt | Gte | Lte | Contains =>
      exact .compare rfl (hl .sum (by decide)) (hr .sum (by decide))
  | .LogicalOp left .And right, hw => by
    simp only [pieces, nesting]
    refine derives_parens full ?_
    rw [tokens_of_between]
    exact .both (derives_pieces full .and (by decide) left hw.1)
      (derives_pieces full .cmp (by decide) right hw.2)
  | .LogicalOp left .Or right, hw => by
    simp only [pieces, nesting]
    refine derives_parens full ?_
    rw [tokens_of_between]
    exact .either (derives_pieces full .or (by decide) left hw.1)
      (derives_pieces full .and (by decide) right hw.2)
  | .Neg inner, hw => by
    simp only [pieces, nesting]
    exact derives_parens full (.neg (derives_pieces full .unary (by decide) inner hw))
  | .Call kind [a], hw => by
    have ha := derives_pieces full .or (by decide) a hw.2
    simp only [pieces, args_pieces, nesting, args_nesting, Nat.max_zero, tokens_of_token,
      tokens_of_append, tokens_of_nil]
    exact (Derives.call₁ (call_kind_call_name kind) hw.1 ha).loosen (prec_le_atom level)
  | .Call kind [a, b], hw => by
    have ha := derives_pieces full .or (by decide) a hw.2.1
    have hb := derives_pieces full .or (by decide) b hw.2.2
    simp only [pieces, args_pieces, nesting, args_nesting, Nat.max_zero, tokens_of_token,
      tokens_of_append, tokens_of_nil, tokens_of_blank, append_assoc, cons_append]
    exact (Derives.call₂ (call_kind_call_name kind) hw.1 ha hb).loosen (prec_le_atom level)
  | .Call kind [], hw => by cases hw
  | .Call kind (_ :: _ :: _ :: _), hw => by cases hw
  | .ExceptionMessage, hw | .Exception, hw | .LanguageDelegate .., hw | .Date .., hw
  | .Interpolated _, hw | .EscapedString _, hw => by cases hw

end camel_language_simple.parser
