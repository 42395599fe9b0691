-- The expressions of the Simple language in `camel-language-simple/src/parser.rs`, with the
-- bounds that every parsed source is checked against.
import RustCamel.Simple.Date

namespace camel_language_simple.parser

open camel_api.exchange_lookup (PathSegment)
open camel_language_api (LanguageError)
open date (DateOutput DateSource)

/-! ## Expressions -/

inductive CallKind where
  | Int
  | String
  | Default
  | Min
  | Max
  | HasHeader
  | HasProperty
  deriving DecidableEq

inductive LogicalOp where
  | And
  | Or

inductive Op where
  | Eq
  | Ne
  | Gt
  | Lt
  | Gte
  | Lte
  | Contains
  | Add
  | Sub
  | Mul
  deriving DecidableEq

mutual

inductive Expr where
  | Header (key : String)
  | Body
  | BodyField (segments : List PathSegment)
  | ExchangeProperty (key : String)
  | ExceptionMessage
  | Exception
  | LanguageDelegate (language expression : String)
  | Date (source : DateSource) (output : DateOutput)
  | StringLit (s : String)
  | IntLit (value : Int64)
  | Null
  | BinOp (left : Expr) (op : Op) (right : Expr)
  | Interpolated (parts : List InterpolatedPart)
  | EscapedString (s : String)
  | LogicalOp (left : Expr) (op : parser.LogicalOp) (right : Expr)
  | Bool (b : Bool)
  | Neg (inner : Expr)
  | Call (kind : CallKind) (args : List Expr)

inductive InterpolatedPart where
  | Literal (text : String)
  | Expr (sub : Expr)

end

/-! ## Limits -/

/-- The greatest accepted source size, in bytes. -/
def MAX_SOURCE_BYTES : Nat := 16 * 1024

/-- The greatest number of nodes for one source parse. -/
def MAX_AST_NODES : Nat := 512

/-- The greatest nesting depth for one source parse. -/
def MAX_DEPTH : Nat := 64

mutual

def count_nodes : Expr → Nat
  | .BinOp left _ right | .LogicalOp left _ right => 1 + count_nodes left + count_nodes right
  | .Neg inner => 1 + count_nodes inner
  | .Call _ args => 1 + count_args args
  | .Interpolated parts => 1 + count_parts parts
  | _ => 1

/-- The nodes of the arguments of a call. -/
def count_args : List Expr → Nat
  | [] => 0
  | arg :: args => count_nodes arg + count_args args

/-- The nodes of an interpolation. A slot counts one besides its expression. -/
def count_parts : List InterpolatedPart → Nat
  | [] => 0
  | .Literal _ :: parts => 1 + count_parts parts
  | .Expr sub :: parts => 1 + count_nodes sub + count_parts parts

end

mutual

/-- The depth of the tree. Parentheses leave no trace in it. -/
def expr_depth : Expr → Nat
  | .BinOp left _ right | .LogicalOp left _ right => 1 + max (expr_depth left) (expr_depth right)
  | .Neg inner => 1 + expr_depth inner
  | .Call _ args => 1 + args_depth args
  | .Interpolated parts => 1 + parts_depth parts
  | _ => 0

def args_depth : List Expr → Nat
  | [] => 0
  | arg :: args => max (expr_depth arg) (args_depth args)

def parts_depth : List InterpolatedPart → Nat
  | [] => 0
  | .Literal _ :: parts => parts_depth parts
  | .Expr sub :: parts => max (1 + expr_depth sub) (parts_depth parts)

end

def parse_error (expr reason : String) : LanguageError := .ParseError expr reason

def depth_error (input : String) : LanguageError :=
  parse_error input "expression exceeds 64 depth limit"

def check_source_len (input : String) : Except LanguageError Unit :=
  if MAX_SOURCE_BYTES < input.utf8ByteSize then
    .error (parse_error input "source exceeds 16 KiB limit")
  else .ok ()

/-- The bounds on a parsed tree. Parentheses and the tree share one bound. -/
def validate_expr (expr : Expr) (input : String) (paren_depth : Nat) : Except LanguageError Unit :=
  if MAX_AST_NODES < count_nodes expr then .error (parse_error input "AST exceeds 512 node limit")
  else if MAX_DEPTH < paren_depth + expr_depth expr then .error (depth_error input)
  else .ok ()

/-- `validate_expr` passes only a tree within the bound on its nodes. -/
theorem count_nodes_le_of_validate_expr {expr : Expr} {input : String} {paren_depth : Nat}
    (h : validate_expr expr input paren_depth = .ok ()) : count_nodes expr ≤ MAX_AST_NODES := by
  unfold validate_expr at h
  split at h
  · simp at h
  · rename_i hle
    omega

end camel_language_simple.parser
