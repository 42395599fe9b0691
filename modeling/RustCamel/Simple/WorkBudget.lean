-- Every accepted source of the Simple language evaluates within the work budget: its nodes
-- are bounded when it is parsed, and the evaluators charge no more than the nodes.
import RustCamel.Simple.Parser
import RustCamel.Simple.PayloadFreeErrors

open Metered

namespace camel_language_simple.evaluator

open camel_api (Exchange Value)
open camel_language_api (LanguageError)
open Fallible (bind_eq_ok)
open Metered (Costs costs_get costs_mk_pure costs_pure costs_throw exec exec_bind)
open parser (Expr InterpolatedPart MAX_AST_NODES count_args count_nodes count_parts)

/-! ## What the evaluators charge -/

/-- A step fails for the work limit only if it charges more than `cost`. -/
abbrev Charges {α : Type} (m : EvalM α) (cost : Nat) : Prop :=
  Costs EvalCtx.work MAX_WORK_STEPS work_limit_error m cost

theorem charges_attempt {α : Type} {r : Except LanguageError α} {allowed : LanguageError → Prop}
    (h : Fallible.FailsIn allowed r) (ho : ¬allowed work_limit_error) :
    Charges (attempt r) 0 :=
  costs_mk_pure fun he => ho (h _ he)

theorem charges_charge_work : Charges charge_work 1 := by
  intro ctx hr
  have hle : ¬MAX_WORK_STEPS < ctx.work + 1 := by omega
  rw [exec_charge_work]
  simp [hle]

theorem charges_charge_output (bytes : Nat) : Charges (charge_output bytes) 0 := by
  intro ctx _
  unfold charge_output
  simp only [exec_bind, exec_modify, exec_get]
  split
  · simp [work_limit_error, limit_error]
  · simp

mutual

def count_delegates : Expr → Nat
  | .LanguageDelegate .. => 1
  | .BinOp left _ right | .LogicalOp left _ right => count_delegates left + count_delegates right
  | .Neg inner => count_delegates inner
  | .Call _ args => args_delegates args
  | .Interpolated parts => parts_delegates parts
  | _ => 0

def args_delegates : List Expr → Nat
  | [] => 0
  | arg :: args => count_delegates arg + args_delegates args

def parts_delegates : List InterpolatedPart → Nat
  | [] => 0
  | .Literal _ :: parts => parts_delegates parts
  | .Expr sub :: parts => count_delegates sub + parts_delegates parts

end

mutual

theorem count_delegates_le : ∀ expr : Expr, count_delegates expr ≤ count_nodes expr
  | .BinOp left _ right | .LogicalOp left _ right => by
    have hl := count_delegates_le left
    have hr := count_delegates_le right
    simp only [count_delegates, count_nodes]
    omega
  | .Neg inner => by
    have hi := count_delegates_le inner
    simp only [count_delegates, count_nodes]
    omega
  | .Call _ args => by
    have ha := args_delegates_le args
    simp only [count_delegates, count_nodes]
    omega
  | .Interpolated parts => by
    have hp := parts_delegates_le parts
    simp only [count_delegates, count_nodes]
    omega
  | .LanguageDelegate .. | .Header _ | .Body | .BodyField _ | .ExchangeProperty _
  | .ExceptionMessage | .Exception | .Date .. | .StringLit _ | .IntLit _ | .Null
  | .EscapedString _ | .Bool _ => by simp [count_delegates, count_nodes]

theorem args_delegates_le : ∀ args : List Expr, args_delegates args ≤ count_args args
  | [] => by simp [args_delegates]
  | arg :: args => by
    have har := count_delegates_le arg
    have ha := args_delegates_le args
    simp only [args_delegates, count_args]
    omega

theorem parts_delegates_le : ∀ parts : List InterpolatedPart,
    parts_delegates parts ≤ count_parts parts
  | [] => by simp [parts_delegates]
  | .Literal _ :: parts => by
    have hp := parts_delegates_le parts
    simp only [parts_delegates, count_parts]
    omega
  | .Expr sub :: parts => by
    have hs := count_delegates_le sub
    have hp := parts_delegates_le parts
    simp only [parts_delegates, count_parts]
    omega

end

/-- What a tree may charge: a unit for every node and one more for every delegate. -/
def cost (expr : Expr) : Nat := count_nodes expr + count_delegates expr

/-- What the argument of a call at an index may charge. -/
def arg_cost : List Expr → Nat → Nat
  | [], _ => 0
  | arg :: _, 0 => cost arg
  | _ :: args, index + 1 => arg_cost args index

theorem arg_cost_le (args : List Expr) :
    arg_cost args 0 + arg_cost args 1 ≤ count_args args + args_delegates args := by
  rcases args with _ | ⟨a, _ | ⟨b, args⟩⟩
  · simp [arg_cost]
  all_goals
    simp only [arg_cost, cost, count_args, args_delegates]
    omega

variable {expr : Expr} {source : String}

section

variable (world : World)

theorem charges_now_epoch_ms : Charges (now_epoch_ms world) 0 := by
  intro ctx _
  simp only [now_epoch_ms, exec_bind, exec_get, exec_set, exec_pure]
  simp

theorem charges_eval_date (source : date.DateSource) (output : date.DateOutput) :
    Charges (eval_date world source output) 0 := by
  unfold eval_date
  split
  · exact (charges_now_epoch_ms world).bind fun millis =>
      charges_attempt (date_value_fails world output millis) (by decide)
  · rename_i name
    change Charges _ (0 + 0)
    refine costs_get.bind fun ctx => ?_
    split
    · exact costs_pure _
    · exact charges_attempt ((date_header_millis_fails _).bind (date_value_fails world _))
        (by decide)

theorem charges_eval_delegate (language expression : String) :
    Charges (eval_delegate language expression) 1 := by
  change Charges _ (1 + (0 + 0))
  refine charges_charge_work.bind fun _ => costs_get.bind fun ctx => ?_
  repeat' split
  all_goals first
    | exact costs_pure _
    | exact costs_throw (by simp [work_limit_error, limit_error, no_resolver, language_not_found,
        delegate_failure])

theorem Charges.node {α : Type} {m : EvalM α} {c c' : Nat} (h : Charges m c) (hle : 1 + c ≤ c') :
    Charges (do charge_work; m) c' :=
  (charges_charge_work.bind fun _ => h).mono hle

theorem charges_leaf {m : EvalM Value} (h : Charges m 0) :
    Charges (do charge_work; m) (cost expr) := by
  refine Charges.node h ?_
  cases expr <;> simp [cost, count_nodes] <;> omega

mutual

theorem charges_eval_async_expr : ∀ expr : Expr, Charges (eval_async_expr world expr) (cost expr)
  | .Header _ | .ExchangeProperty _ => by
    rw [eval_async_expr]
    exact charges_leaf (costs_get.bind fun _ => costs_pure _)
  | .StringLit _ | .EscapedString _ | .IntLit _ | .Null | .Bool _ => by
    rw [eval_async_expr]
    exact charges_leaf (costs_pure _)
  | .ExceptionMessage | .Exception => by
    rw [eval_async_expr]
    exact charges_leaf (costs_get.bind fun ctx =>
      (by split <;> exact costs_pure _ : Charges _ 0))
  | .Body => by
    rw [eval_async_expr]
    exact charges_leaf (costs_get.bind fun ctx => charges_attempt (body_value_fails _) (by decide))
  | .BodyField _ => by
    rw [eval_async_expr]
    exact charges_leaf (costs_get.bind fun ctx => charges_attempt (body_field_value_fails _ _)
      (by decide))
  | .Date source output => by
    rw [eval_async_expr]
    exact charges_leaf (charges_eval_date world source output)
  | .LanguageDelegate language expression => by
    rw [eval_async_expr]
    exact Charges.node (charges_eval_delegate language expression) (by simp [cost, count_nodes,
      count_delegates])
  | .BinOp left op right => by
    rw [eval_async_expr]
    refine Charges.node ((charges_eval_async_expr left).bind fun lv =>
      (charges_eval_async_expr right).bind fun rv =>
        charges_attempt (apply_binop_fails lv op rv) (by cases op <;> decide)) ?_
    simp only [cost, count_nodes, count_delegates]
    omega
  | .LogicalOp left op right => by
    have hr : Charges (do pure (Value.Bool (is_truthy (← eval_async_expr world right))))
        (cost right) := (charges_eval_async_expr right).bind fun _ => costs_pure _
    have hs (b : Bool) : Charges (pure (Value.Bool b)) (cost right) :=
      (costs_pure _).mono (Nat.zero_le _)
    rw [eval_async_expr]
    refine Charges.node ((charges_eval_async_expr left).bind fun lv =>
      (?_ : Charges _ (cost right))) ?_
    · cases op with
      | And => exact (hs false).ite hr
      | Or => exact (hs true).ite hr
    · simp only [cost, count_nodes, count_delegates]
      omega
  | .Neg inner => by
    rw [eval_async_expr]
    refine Charges.node ((charges_eval_async_expr inner).bind fun v =>
      charges_attempt (negate_fails v) (by decide)) ?_
    simp only [cost, count_nodes, count_delegates]
    omega
  | .Interpolated parts => by
    rw [eval_async_expr]
    refine Charges.node ((charges_async_parts parts "").map _) ?_
    simp only [cost, count_nodes, count_delegates]
    omega
  | .Call kind args => by
    have hle : 1 + (arg_cost args 0 + arg_cost args 1) ≤ cost (.Call kind args) := by
      have ha := arg_cost_le args
      simp only [cost, count_nodes, count_delegates]
      omega
    have hf := charges_async_arg args 0
    have hse := charges_async_arg args 1
    rw [eval_async_expr.eq_def]
    refine Charges.node (c := arg_cost args 0 + arg_cost args 1) ?_ hle
    cases kind with
    | Int =>
      exact (hf.bind fun v =>
        charges_attempt (((to_i64_conversion_fails v).map _).map _) (by decide)).mono (by omega)
    | String =>
      exact (hf.bind fun v =>
        charges_attempt ((string_value_fails world v).map _) (by decide)).mono (by omega)
    | Default =>
      exact hf.bind fun v => hse.ite ((costs_pure _).mono (Nat.zero_le _))
    | Min | Max =>
      exact (hf.bind fun a => hse.bind fun b =>
        charges_attempt (select_fails _ a b) (by decide)).mono (by omega)
    | HasHeader | HasProperty =>
      exact (hf.bind fun v => costs_get.bind fun ctx =>
        charges_attempt ((presence_of_fails (by simp) v _).map _) (by decide)).mono (by omega)

theorem charges_async_arg : ∀ (args : List Expr) (index : Nat),
    Charges (async_arg world args index) (arg_cost args index)
  | [], _ => by
    rw [async_arg]
    exact costs_throw (by simp [invalid_arity, work_limit_error, limit_error])
  | arg :: _, 0 => by
    rw [async_arg]
    exact charges_eval_async_expr arg
  | _ :: args, index + 1 => by
    rw [async_arg]
    exact charges_async_arg args index

theorem charges_async_parts : ∀ (parts : List InterpolatedPart) (result : String),
    Charges (async_parts world parts result) (count_parts parts + parts_delegates parts)
  | [], _ => by
    rw [async_parts]
    exact costs_pure _
  | .Literal text :: parts, result => by
    rw [async_parts]
    refine ((charges_charge_output _).bind fun _ => charges_async_parts parts _).mono ?_
    simp only [count_parts, parts_delegates]
    omega
  | .Expr sub_expr :: parts, result => by
    have hs := charges_eval_async_expr sub_expr
    have hr (rendered : String) : Charges (do
        charge_output rendered.utf8ByteSize
        async_parts world parts (result ++ rendered))
        (count_parts parts + parts_delegates parts) :=
      ((charges_charge_output _).bind fun _ => charges_async_parts parts _).mono (by omega)
    have hle : 1 + (cost sub_expr + (count_parts parts + parts_delegates parts)) ≤
        count_parts (.Expr sub_expr :: parts) + parts_delegates (.Expr sub_expr :: parts) := by
      simp only [cost, count_parts, parts_delegates]
      omega
    rw [async_parts]
    refine Charges.node ?_ hle
    split
    · -- A bare body charges for itself what the evaluator would.
      exact charges_charge_work.bind fun _ => (costs_get.bind fun ctx =>
        (charges_attempt (interpolate_body_text_fails world _) (by decide)).bind hr).mono
          (by omega)
    · exact (hs.map _).bind hr

end

end

/-! ## Accepted sources -/

theorem count_nodes_le_of_validated {input : String} {read : Expr × parser.ParseDepth}
    (h : parser.validated input read = .ok expr) : count_nodes expr ≤ MAX_AST_NODES := by
  obtain ⟨_, hvalid, ho⟩ := bind_eq_ok h
  cases ho
  exact parser.count_nodes_le_of_validate_expr hvalid

theorem count_nodes_le_of_parse (h : parser.parse source = .ok expr) :
    count_nodes expr ≤ MAX_AST_NODES := by
  obtain ⟨_, _, h⟩ := bind_eq_ok h
  dsimp only at h
  split at h
  · cases h
  · split at h
    · cases h
    · obtain ⟨tokens, _, h⟩ := bind_eq_ok h
      split at h
      · obtain ⟨read, _, h⟩ := bind_eq_ok h
        exact count_nodes_le_of_validated h
      · split at h
        · obtain ⟨word, _, h⟩ := bind_eq_ok h
          exact count_nodes_le_of_validated h
        · obtain ⟨read, _, h⟩ := bind_eq_ok h
          exact count_nodes_le_of_validated h
        · split at h
          · -- A run of text is not validated, and it is one node.
            cases h
            simp [count_nodes, MAX_AST_NODES]
          · obtain ⟨read, _, h⟩ := bind_eq_ok h
            exact count_nodes_le_of_validated h

theorem count_nodes_le_of_parse_template (h : parser.parse_template source = .ok expr) :
    count_nodes expr ≤ MAX_AST_NODES := by
  obtain ⟨_, _, h⟩ := bind_eq_ok h
  dsimp only at h
  split at h
  · cases h
  · split at h
    all_goals
      obtain ⟨read, _, h⟩ := bind_eq_ok h
      exact count_nodes_le_of_validated h

theorem charges_charge_native_output (expr : Expr) (value : Value) :
    Charges (charge_native_output expr value) 0 := by
  unfold charge_native_output
  split
  · exact costs_pure _
  · exact charges_charge_output _
  · exact costs_pure _

/-- A source evaluates as the evaluator for every tree does, delegates or not. -/
theorem evaluate_eq (world : World) (expr : Expr) (exchange : Exchange)
    (resolver : Option ResolverFn) :
    evaluate world expr exchange resolver =
      exec (evaluate_with_delegation world expr) ⟨exchange, resolver, 0, 0, 0⟩ := by
  unfold evaluate
  split
  · rfl
  · rename_i h
    have hf : contains_delegate expr = false := by simpa using h
    rw [evaluate_with_delegation, eval_async_expr_eq world expr hf]
    exact exec_evaluate_without_delegation world expr _

/-- A source that one of the parsers accepts never fails for the work limit. It charges a
unit for every node at most, of which there are 512 at most, and one for every delegate. -/
theorem accepted_source_stays_within_the_work_budget (world : World) (source : String)
    (expr : Expr) (h : parser.parse source = .ok expr ∨ parser.parse_template source = .ok expr)
    (exchange : Exchange) (resolver : Option ResolverFn) :
    (evaluate world expr exchange resolver).1 ≠ .error work_limit_error ∧
      (evaluate world expr exchange resolver).2.work ≤ count_nodes expr + count_delegates expr ∧
      count_nodes expr ≤ MAX_AST_NODES := by
  have hn : count_nodes expr ≤ MAX_AST_NODES := by
    cases h with
    | inl h => exact count_nodes_le_of_parse h
    | inr h => exact count_nodes_le_of_parse_template h
  have hc : Charges (evaluate_with_delegation world expr) (cost expr) :=
    ((charges_eval_async_expr world expr).bind fun value =>
      (charges_charge_native_output expr value).bind fun _ => costs_pure value).mono (by omega)
  have hr : cost expr ≤ MAX_WORK_STEPS := by
    have hd := count_delegates_le expr
    unfold cost MAX_WORK_STEPS
    unfold MAX_AST_NODES at hn
    omega
  obtain ⟨ho, hw⟩ := hc ⟨exchange, resolver, 0, 0, 0⟩ (by simpa using hr)
  rw [evaluate_eq]
  refine ⟨ho, ?_, hn⟩
  simpa [cost] using hw

theorem template_with_a_test_stays_within_the_work_budget :
    ∃ expr, parser.parse_template "n $\x7bheader.n > 2\x7d" = .ok expr ∧ count_nodes expr = 6 ∧
      (evaluate stillWorld expr (.new .default) none).1 ≠ .error work_limit_error := by
  have hc : (parser.parse_template "n $\x7bheader.n > 2\x7d").toOption.map count_nodes =
      some 6 := by decide +kernel
  generalize hp : parser.parse_template "n $\x7bheader.n > 2\x7d" = parsed at hc ⊢
  cases parsed with
  | error e => cases hc
  | ok expr =>
    exact ⟨expr, rfl, Option.some.inj hc, (accepted_source_stays_within_the_work_budget stillWorld
      _ expr (.inr hp) (.new .default) none).1⟩

end camel_language_simple.evaluator
