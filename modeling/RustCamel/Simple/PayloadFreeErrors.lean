-- The errors of a Simple expression are a finite list that its tree alone gives: whatever the
-- exchange, the clock and the other languages do, an evaluation fails with one of them.
import RustCamel.Lib.Fallible
import RustCamel.Simple.EvaluatorAgreement

open List

namespace camel_language_simple.evaluator

open camel_api (Exchange Value)
open camel_language_api (LanguageError)
open date (DateOutput DateSource)
open parser (CallKind Expr InterpolatedPart Op)

/-! ## The errors of a tree -/

def type_names : List String := ["string", "number", "bool", "null", "array", "object"]

def output_limit_error : LanguageError := limit_error "output size limit exceeded"

def overflow_error : LanguageError := arithmetic_error "i64 overflow"

def integer_errors : List LanguageError := type_names.map (type_error "integer")

/-- The errors of a value that has to be converted. -/
def conversion_errors (target : String) : List LanguageError :=
  type_names.map (conversion_error · target)

def binop_errors : Op → List LanguageError
  | .Eq | .Ne => []
  | .Contains =>
    [.EvalError "contains requires string left", .EvalError "contains requires string right"]
  | .Gt | .Lt | .Gte | .Lte => integer_errors
  | .Add | .Sub | .Mul => overflow_error :: integer_errors

def call_errors : CallKind → List LanguageError
  | .Int => invalid_arity :: conversion_errors "i64"
  | .String => invalid_arity :: conversion_errors "string"
  | .Default => [invalid_arity]
  | .Min | .Max => invalid_arity :: integer_errors
  | .HasHeader | .HasProperty => invalid_arity :: type_names.map (type_error "string")

def date_errors : List LanguageError :=
  .EvalError "timestamp out of range" :: conversion_errors "epoch millis"

/-- The errors of a delegate name its language and nothing else. -/
def delegate_errors (language : String) : List LanguageError :=
  [no_resolver, language_not_found language, delegate_failure language]

mutual

def node_errors : Expr → List LanguageError
  | .Body | .BodyField _ => [work_limit_error, stream_body_error]
  | .LanguageDelegate language _ => work_limit_error :: delegate_errors language
  | .Date _ _ => work_limit_error :: date_errors
  | .BinOp left op right =>
    work_limit_error :: (node_errors left ++ node_errors right ++ binop_errors op)
  | .LogicalOp left _ right => work_limit_error :: (node_errors left ++ node_errors right)
  | .Neg inner => work_limit_error :: overflow_error :: (node_errors inner ++ integer_errors)
  | .Call kind args => work_limit_error :: (args_errors args ++ call_errors kind)
  | .Interpolated parts => work_limit_error :: parts_errors parts
  | _ => [work_limit_error]

def args_errors : List Expr → List LanguageError
  | [] => []
  | arg :: args => node_errors arg ++ args_errors args

def parts_errors : List InterpolatedPart → List LanguageError
  | [] => []
  | .Literal _ :: parts => output_limit_error :: parts_errors parts
  | .Expr sub :: parts =>
    work_limit_error :: output_limit_error :: conversion_error "Body::Bytes" "text" ::
      stream_body_error :: (node_errors sub ++ parts_errors parts)

end

/-- The errors that the evaluation of a source can end with. -/
def errors (expr : Expr) : List LanguageError := output_limit_error :: node_errors expr

/-! ## Values and operators -/

theorem type_name_mem (v : Value) : value_type_name v ∈ type_names := by
  cases v <;> simp [value_type_name, type_names]

theorem integer_error_mem {name : String} (h : name ∈ type_names) :
    type_error "integer" name ∈ integer_errors := mem_map_of_mem h

theorem conversion_error_mem {name : String} (target : String) (h : name ∈ type_names) :
    conversion_error name target ∈ conversion_errors target := by
  unfold conversion_errors
  exact mem_map.mpr ⟨name, h, rfl⟩

section

open Fallible (FailsIn fails_in_error fails_in_ok)

theorem integer_of_fails {actual : String} (h : actual ∈ type_names) (n : Option Int64) :
    FailsIn (· ∈ integer_errors) (integer_of actual n) := by
  cases n with
  | none => exact fails_in_error (integer_error_mem h)
  | some n => exact fails_in_ok n

variable (v : Value)

theorem to_i64_fails : FailsIn (· ∈ integer_errors) (to_i64 v) := by
  unfold to_i64
  split
  · exact integer_of_fails (by decide) _
  · exact integer_of_fails (by decide) _
  · exact fails_in_error (integer_error_mem (type_name_mem _))

theorem to_i64_conversion_fails : FailsIn (· ∈ conversion_errors "i64") (to_i64_conversion v) := by
  unfold to_i64_conversion
  split
  · split
    · exact fails_in_ok _
    · exact fails_in_error (conversion_error_mem _ (by decide))
  · split
    · exact fails_in_ok _
    · exact fails_in_error (conversion_error_mem _ (by decide))
  · exact fails_in_error (conversion_error_mem _ (type_name_mem _))

theorem checked_fails (n : Int) :
    FailsIn (· ∈ overflow_error :: integer_errors) (match checked_i64 n with
      | some result => .ok (Value.Number (number_from result))
      | none => .error (arithmetic_error "i64 overflow") : Except LanguageError Value) := by
  split
  · exact fails_in_ok _
  · exact fails_in_error mem_cons_self

theorem to_i64_fails_or_overflow : FailsIn (· ∈ overflow_error :: integer_errors) (to_i64 v) :=
  (to_i64_fails v).mono fun _ he => .tail _ he

variable (l : Value)

theorem arithmetic_fails (f : Int → Int → Int) (r : Value) :
    FailsIn (· ∈ overflow_error :: integer_errors) (arithmetic l f r) :=
  (to_i64_fails_or_overflow l).bind fun _ => (to_i64_fails_or_overflow r).bind fun _ =>
    checked_fails _

theorem negate_fails : FailsIn (· ∈ overflow_error :: integer_errors) (negate v) :=
  (to_i64_fails_or_overflow v).bind fun _ => checked_fails _

theorem select_fails (kind : CallKind) (a b : Value) :
    FailsIn (· ∈ integer_errors) (select kind a b) :=
  (to_i64_fails a).bind fun _ => (to_i64_fails b).bind fun _ => fails_in_ok _

theorem value_ordering_fails (r : Value) : FailsIn (· ∈ integer_errors) (value_ordering l r) := by
  have hbo : ∀ (a b : String) (x y : Option Int64), a ∈ type_names → b ∈ type_names →
      FailsIn (· ∈ integer_errors) (do
        let x ← integer_of a x
        let y ← integer_of b y
        .ok (compare x.toInt y.toInt)) := fun a b x y ha hb =>
    (integer_of_fails ha x).bind fun _ => (integer_of_fails hb y).bind fun _ => fails_in_ok _
  unfold value_ordering
  split
  · split <;> exact fails_in_ok _
  · exact hbo _ _ _ _ (by decide) (by decide)
  · exact hbo _ _ _ _ (by decide) (by decide)
  · exact hbo _ _ _ _ (by decide) (by decide)
  · apply fails_in_error
    apply integer_error_mem
    split <;> exact type_name_mem _

theorem apply_binop_fails (op : Op) (r : Value) :
    FailsIn (· ∈ binop_errors op) (apply_binop l op r) := by
  have hc : FailsIn (· ∈ integer_errors) (ordering_compare l op r) := by
    unfold ordering_compare
    split
    · exact fails_in_ok _
    · exact fails_in_ok _
    · exact (value_ordering_fails _ _).bind fun _ => fails_in_ok _
  have hco : FailsIn (· ∈ binop_errors .Contains) (contains_value l r) := by
    unfold contains_value
    split <;> first
      | exact fails_in_ok _
      | exact fails_in_error (by simp [binop_errors])
  cases op with
  | Eq | Ne => exact fails_in_ok _
  | Contains => exact hco.map _
  | Gt | Lt | Gte | Lte => exact hc.map _
  | Add | Sub | Mul => exact arithmetic_fails _ _ _

variable (world : World)

theorem string_value_fails (v : Value) :
    FailsIn (· ∈ conversion_errors "string") (string_value world v) := by
  unfold string_value
  split <;> first
    | exact fails_in_ok _
    | exact fails_in_error (conversion_error_mem _ (type_name_mem _))

theorem presence_of_fails {kind : CallKind} (hk : kind = .HasHeader ∨ kind = .HasProperty)
    (v : Value) (exchange : Exchange) :
    FailsIn (· ∈ type_names.map (type_error "string")) (presence_of kind v exchange) := by
  unfold presence_of
  split
  · rcases hk with rfl | rfl <;> exact fails_in_ok _
  · exact fails_in_error (mem_map_of_mem (type_name_mem _))

theorem date_header_millis_fails : FailsIn (· ∈ date_errors) (date_header_millis v) := by
  have hm : ∀ name ∈ type_names, conversion_error name "epoch millis" ∈ date_errors :=
    fun name h => .tail _ (conversion_error_mem _ h)
  unfold date_header_millis
  split
  · split
    · exact fails_in_ok _
    · exact fails_in_error (hm _ (by decide))
  · split
    · exact fails_in_ok _
    · exact fails_in_error (hm _ (by decide))
  · exact fails_in_error (hm _ (type_name_mem _))

theorem date_value_fails (output : DateOutput) (millis : Int64) :
    FailsIn (· ∈ date_errors) (date_value world output millis) := by
  unfold date_value
  split
  · exact fails_in_ok _
  · apply FailsIn.map
    unfold date.format_epoch_ms
    split
    · exact fails_in_error mem_cons_self
    · exact fails_in_ok _

variable (exchange : Exchange)

theorem body_value_fails : FailsIn (· = stream_body_error) (body_value exchange) := by
  unfold body_value
  split <;> first
    | exact fails_in_ok _
    | exact fails_in_error rfl

theorem body_field_value_fails (segments : List camel_api.exchange_lookup.PathSegment) :
    FailsIn (· = stream_body_error) (body_field_value exchange segments) := by
  unfold body_field_value
  split <;> first
    | exact fails_in_ok _
    | exact fails_in_error rfl

theorem interpolate_body_text_fails :
    FailsIn (· ∈ [conversion_error "Body::Bytes" "text", stream_body_error])
      (interpolate_body_text world exchange) := by
  unfold interpolate_body_text
  split
  · split
    · exact fails_in_ok _
    · exact fails_in_error mem_cons_self
  · apply FailsIn.map
    exact (body_value_fails exchange).mono fun e he => by simp [he]

end

/-! ## Evaluation -/

section

open Metered (FailsIn exec fails_in_get fails_in_mk_pure fails_in_modify fails_in_pure fails_in_set
  fails_in_throw)

variable (world : World) {allowed : LanguageError → Prop}

theorem charge_work_fails (h : allowed work_limit_error) : FailsIn allowed charge_work :=
  (fails_in_modify _).bind fun _ => fails_in_get.bind fun _ =>
    (fails_in_throw h).ite (fails_in_pure _)

theorem charge_output_fails (h : allowed output_limit_error) (bytes : Nat) :
    FailsIn allowed (charge_output bytes) :=
  (fails_in_modify _).bind fun _ => fails_in_get.bind fun _ =>
    (fails_in_throw h).ite (fails_in_pure _)

theorem attempt_fails {α : Type} {r : Except LanguageError α} (h : Fallible.FailsIn allowed r) :
    FailsIn allowed (attempt r) := fails_in_mk_pure h

theorem eval_date_fails (source : DateSource) (output : DateOutput) :
    FailsIn (· ∈ date_errors) (eval_date world source output) := by
  unfold eval_date
  cases source with
  | Now =>
    apply FailsIn.bind
    · exact fails_in_get.bind fun ctx => (fails_in_set _).bind fun _ => fails_in_pure _
    · exact fun millis => attempt_fails (date_value_fails world output millis)
  | Header name =>
    refine FailsIn.bind fails_in_get fun ctx => ?_
    split
    · exact fails_in_pure _
    · exact attempt_fails ((date_header_millis_fails _).bind fun _ =>
        date_value_fails world output _)

theorem eval_delegate_fails (language expression : String) :
    FailsIn (· ∈ work_limit_error :: delegate_errors language)
      (eval_delegate language expression) := by
  unfold eval_delegate
  refine FailsIn.bind (charge_work_fails mem_cons_self) fun _ => ?_
  refine FailsIn.bind fails_in_get fun ctx => ?_
  repeat' split
  all_goals first
    | exact fails_in_pure _
    | exact fails_in_throw (by simp [delegate_errors])

theorem charged_fails {expr : Expr} {m : EvalM Value} (h : FailsIn (· ∈ node_errors expr) m) :
    FailsIn (· ∈ node_errors expr) (do charge_work; m) :=
  FailsIn.bind (charge_work_fails (by cases expr <;> simp [node_errors])) fun _ => h

theorem part_fails {part : InterpolatedPart} {parts : List InterpolatedPart} {result : String}
    (h : FailsIn (· ∈ parts_errors parts) (async_parts world parts result)) (bytes : Nat) :
    FailsIn (· ∈ parts_errors (part :: parts)) (do
      charge_output bytes
      async_parts world parts result) := by
  refine FailsIn.bind (charge_output_fails (by cases part <;> simp [parts_errors]) _) fun _ => ?_
  exact h.mono fun e he => by cases part <;> simp [parts_errors, he]

mutual

theorem eval_async_expr_fails : ∀ expr : Expr,
    FailsIn (· ∈ node_errors expr) (eval_async_expr world expr)
  | .Header key | .ExchangeProperty key | .StringLit key | .EscapedString key => by
    rw [eval_async_expr.eq_def]
    refine charged_fails ?_
    first
      | exact fails_in_pure _
      | exact fails_in_get.bind fun _ => fails_in_pure _
  | .ExceptionMessage | .Exception => by
    rw [eval_async_expr.eq_def]
    refine charged_fails ?_
    refine FailsIn.bind fails_in_get fun ctx => ?_
    split <;> exact fails_in_pure _
  | .IntLit _ | .Null | .Bool _ => by
    rw [eval_async_expr.eq_def]
    exact charged_fails (fails_in_pure _)
  | .Body => by
    rw [eval_async_expr.eq_def]
    refine charged_fails ?_
    refine FailsIn.bind fails_in_get fun ctx =>
      attempt_fails ((body_value_fails _).mono fun e he => by simp [node_errors, he])
  | .BodyField segments => by
    rw [eval_async_expr.eq_def]
    refine charged_fails ?_
    refine FailsIn.bind fails_in_get fun ctx =>
      attempt_fails ((body_field_value_fails _ _).mono fun e he => by simp [node_errors, he])
  | .LanguageDelegate language expression => by
    rw [eval_async_expr.eq_def]
    refine charged_fails ?_
    exact (eval_delegate_fails language expression).mono fun e he => by rwa [node_errors]
  | .Date source output => by
    rw [eval_async_expr.eq_def]
    refine charged_fails ?_
    refine (eval_date_fails world source output).mono fun e he => ?_
    rw [node_errors]
    exact .tail _ he
  | .BinOp left op right => by
    have hl := eval_async_expr_fails left
    have hr := eval_async_expr_fails right
    rw [eval_async_expr.eq_def]
    refine charged_fails ?_
    refine FailsIn.bind (hl.mono fun e he => by simp [node_errors, he]) fun lv => ?_
    refine FailsIn.bind (hr.mono fun e he => by simp [node_errors, he]) fun rv =>
      attempt_fails ((apply_binop_fails lv op rv).mono fun e he => by simp [node_errors, he])
  | .LogicalOp left op right => by
    have hr : FailsIn (· ∈ node_errors (.LogicalOp left op right)) (eval_async_expr world right) :=
      (eval_async_expr_fails right).mono fun e he => by simp [node_errors, he]
    have ht : FailsIn (· ∈ node_errors (.LogicalOp left op right)) (do
        pure (Value.Bool (is_truthy (← eval_async_expr world right)))) :=
      hr.bind fun _ => fails_in_pure _
    rw [eval_async_expr.eq_def]
    refine charged_fails ?_
    refine FailsIn.bind ((eval_async_expr_fails left).mono fun e he => by simp [node_errors, he])
      fun lv => ?_
    cases op with
    | And | Or => exact (fails_in_pure _).ite ht
  | .Neg inner => by
    rw [eval_async_expr.eq_def]
    refine charged_fails ?_
    refine FailsIn.bind ((eval_async_expr_fails inner).mono fun e he => by simp [node_errors, he])
      fun v => attempt_fails ((negate_fails v).mono fun e he => by
      simp only [mem_cons] at he
      simp only [node_errors, mem_cons, mem_append]
      tauto)
  | .Interpolated parts => by
    rw [eval_async_expr.eq_def]
    refine charged_fails ?_
    exact ((async_parts_fails parts "").mono fun e he => by simp [node_errors, he]).map _
  | .Call kind args => by
    have ha : ∀ index,
        FailsIn (· ∈ node_errors (.Call kind args)) (async_arg world args index) := by
      intro index
      refine (async_arg_fails args index).mono fun e he => ?_
      have hk : invalid_arity ∈ call_errors kind := by
        cases kind <;> simp [call_errors]
      rw [node_errors]
      rcases mem_cons.mp he with rfl | he
      · simp [hk]
      · simp [he]
    have hc : ∀ {α : Type} {r : Except LanguageError α},
        Fallible.FailsIn (· ∈ call_errors kind) r →
        FailsIn (· ∈ node_errors (.Call kind args)) (attempt r) := fun h =>
      attempt_fails (h.mono fun e he => by simp [node_errors, he])
    rw [eval_async_expr.eq_def]
    refine charged_fails ?_
    cases kind with
    | Int =>
      refine FailsIn.bind (ha 0) fun v => hc ((((to_i64_conversion_fails v).mono fun e he =>
        .tail _ he).map _).map _)
    | String =>
      refine FailsIn.bind (ha 0) fun v => hc (((string_value_fails world v).mono fun e he =>
        .tail _ he).map _)
    | Default =>
      refine FailsIn.bind (ha 0) fun v => (ha 1).ite (fails_in_pure _)
    | Min | Max =>
      refine FailsIn.bind (ha 0) fun a => ?_
      refine FailsIn.bind (ha 1) fun b => hc ((select_fails _ a b).mono fun e he => .tail _ he)
    | HasHeader | HasProperty =>
      refine FailsIn.bind (ha 0) fun v => ?_
      refine FailsIn.bind fails_in_get fun ctx =>
        hc (((presence_of_fails (by simp) v _).mono fun e he =>
        .tail _ he).map _)

theorem async_arg_fails : ∀ (args : List Expr) (index : Nat),
    FailsIn (· ∈ invalid_arity :: args_errors args) (async_arg world args index)
  | [], _ => by
    rw [async_arg]
    exact fails_in_throw mem_cons_self
  | arg :: args, 0 => by
    rw [async_arg]
    exact (eval_async_expr_fails arg).mono fun e he => by simp [args_errors, he]
  | arg :: args, index + 1 => by
    rw [async_arg]
    refine (async_arg_fails args index).mono fun e he => ?_
    rcases mem_cons.mp he with rfl | he
    · exact mem_cons_self
    · simp [args_errors, he]

theorem async_parts_fails : ∀ (parts : List InterpolatedPart) (result : String),
    FailsIn (· ∈ parts_errors parts) (async_parts world parts result)
  | [], _ => by
    rw [async_parts]
    exact fails_in_pure _
  | .Literal text :: parts, result => by
    rw [async_parts]
    exact part_fails world (async_parts_fails parts _) _
  | .Expr sub_expr :: parts, result => by
    have hs := eval_async_expr_fails sub_expr
    have hw : FailsIn (· ∈ parts_errors (.Expr sub_expr :: parts)) charge_work :=
      charge_work_fails (by simp [parts_errors])
    have hb : ∀ exchange, FailsIn (· ∈ parts_errors (.Expr sub_expr :: parts))
        (attempt (interpolate_body_text world exchange)) := by
      intro exchange
      refine attempt_fails ((interpolate_body_text_fails world exchange).mono fun e he => ?_)
      simp only [mem_cons, not_mem_nil, or_false] at he
      rcases he with rfl | rfl <;> simp [parts_errors]
    have ho : FailsIn (· ∈ parts_errors (.Expr sub_expr :: parts))
        (render_interpolated world <$> eval_async_expr world sub_expr) :=
      (hs.mono fun e he => by simp [parts_errors, he]).map _
    rw [async_parts]
    refine FailsIn.bind hw fun _ => ?_
    cases sub_expr with
    | Body =>
      exact FailsIn.bind hw fun _ => FailsIn.bind fails_in_get fun ctx =>
        (hb ctx.exchange).bind fun _ => part_fails world (async_parts_fails parts _) _
    | _ => exact ho.bind fun _ => part_fails world (async_parts_fails parts _) _

end

/-- An evaluation that fails ends with an error of the tree's finite list, whatever the exchange
holds, whatever the clock says and however the other languages fail. -/
theorem failures_are_errors_of_the_tree (expr : Expr) (exchange : Exchange)
    (resolver : Option ResolverFn) (e : LanguageError)
    (h : (evaluate world expr exchange resolver).1 = .error e) : e ∈ errors expr := by
  have ho : ∀ value, FailsIn (· ∈ errors expr) (charge_native_output expr value) := by
    intro value
    unfold charge_native_output
    split
    · exact fails_in_pure _
    · exact charge_output_fails mem_cons_self _
    · exact fails_in_pure _
  have hw : FailsIn (· ∈ errors expr) (evaluate_with_delegation world expr) := by
    refine FailsIn.bind
      ((eval_async_expr_fails world expr).mono fun e he => .tail _ he)
      fun value => (ho value).bind fun _ => fails_in_pure _
  unfold evaluate at h
  split at h
  · exact hw _ e h
  · rename_i hd
    rw [Bool.not_eq_true] at hd
    have ha := exec_evaluate_without_delegation world expr
      { exchange, resolver, work := 0, output := 0, readings := 0 }
    rw [← eval_async_expr_eq world expr hd] at ha
    have her : (exec (evaluate_without_delegation world expr)
        { exchange, resolver, work := 0, output := 0, readings := 0 }).1 = .error e := h
    rw [ha] at her
    exact hw _ e her

end

/-- A secret header in the place of a number. -/
def secretExchange : Exchange :=
  let exchange : Exchange := .new .default
  { exchange with input := exchange.input.set_header "pin" (.String "s3cret") }

theorem secret_does_not_show :
    let expr : Expr := .BinOp (.Header "pin") .Add (.IntLit 1)
    (evaluate stillWorld expr secretExchange none).1 = .error (type_error "integer" "string") ∧
      type_error "integer" "string" ∈ errors expr :=
  ⟨by rfl, failures_are_errors_of_the_tree stillWorld _ secretExchange none _ (by rfl)⟩

end camel_language_simple.evaluator
