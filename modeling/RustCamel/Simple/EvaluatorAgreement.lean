-- The two evaluators of the Simple language give the same on a tree without a delegate: the
-- same value or error, and the same work and output charged.
import RustCamel.Lib.Metered
import RustCamel.Simple.Evaluator

open Bool

namespace camel_language_simple.evaluator

open Metered (exec exec_bind exec_get)
open parser (Expr InterpolatedPart)

variable {α : Type} (world : World)

theorem get_bind_const (m : EvalM α) : (get >>= fun _ => m) = m := rfl

/-! ## The agreement -/

mutual

theorem eval_async_expr_eq : ∀ expr : Expr, contains_delegate expr = false →
    eval_async_expr world expr = eval_sync_expr world expr
  | .Header key, _ | .ExchangeProperty key, _ | .StringLit key, _ | .EscapedString key, _
  | .Body, _ | .Null, _
  | .BodyField segments, _ | .IntLit value, _ | .Bool b, _ | .Date source output, _ => by
    rw [eval_async_expr.eq_def, eval_sync_expr.eq_def]
    rfl
  | .ExceptionMessage, _ | .Exception, _ => by
    rw [eval_async_expr.eq_def, eval_sync_expr.eq_def]
    refine bind_congr fun _ => bind_congr fun ctx => ?_
    cases he : ctx.exchange.error <;> simp only [eval_leaf, he]
  | .LanguageDelegate language expression, h => by simp [contains_delegate] at h
  | .BinOp left op right, h | .LogicalOp left op right, h => by
    simp only [contains_delegate, or_eq_false_iff] at h
    rw [eval_async_expr.eq_def, eval_sync_expr.eq_def]
    simp only [eval_leaf, get_bind_const, eval_async_expr_eq left h.1, eval_async_expr_eq right h.2]
  | .Neg inner, h => by
    simp only [contains_delegate] at h
    rw [eval_async_expr.eq_def, eval_sync_expr.eq_def]
    simp only [eval_leaf, get_bind_const, eval_async_expr_eq inner h]
  | .Interpolated parts, h => by
    simp only [contains_delegate] at h
    rw [eval_async_expr.eq_def, eval_sync_expr.eq_def]
    simp only [eval_leaf, get_bind_const, async_parts_eq parts _ h]
  | .Call kind args, h => by
    simp only [contains_delegate] at h
    rw [eval_async_expr.eq_def, eval_sync_expr.eq_def]
    simp only [eval_leaf, get_bind_const, async_arg_eq args _ h]

theorem async_arg_eq : ∀ (args : List Expr) (index : Nat), args_delegate args = false →
    async_arg world args index = sync_arg world args index
  | [], _, _ => by rw [async_arg, sync_arg]
  | arg :: _, 0, h => by
    simp only [args_delegate, or_eq_false_iff] at h
    rw [async_arg, sync_arg, eval_async_expr_eq arg h.1]
  | _ :: args, index + 1, h => by
    simp only [args_delegate, or_eq_false_iff] at h
    rw [async_arg, sync_arg, async_arg_eq args index h.2]

theorem async_parts_eq : ∀ (parts : List InterpolatedPart) (result : String),
    parts_delegate parts = false → async_parts world parts result = sync_parts world parts result
  | [], _, _ => by rw [async_parts, sync_parts]
  | .Literal text :: parts, result, h => by
    simp only [parts_delegate] at h
    rw [async_parts, sync_parts]
    simp only [async_parts_eq parts _ h]
  | .Expr sub_expr :: parts, result, h => by
    simp only [parts_delegate, or_eq_false_iff] at h
    rw [async_parts, sync_parts]
    have hs := eval_async_expr_eq sub_expr h.1
    -- A bare body is rendered as text and does not go through the evaluators.
    cases sub_expr <;> simp only [hs, async_parts_eq parts _ h.2]

end

/-! ## Whole sources -/

theorem exec_charge_work (ctx : EvalCtx) :
    exec charge_work ctx =
      (if MAX_WORK_STEPS < ctx.work + 1 then .error work_limit_error else .ok (),
        { ctx with work := ctx.work + 1 }) := by
  unfold charge_work
  by_cases h : MAX_WORK_STEPS < ctx.work + 1 <;> simp [exec_bind, h]

/-- The short way of a source that is one leaf is the way of the evaluator. -/
theorem exec_evaluate_without_delegation (expr : Expr) (ctx : EvalCtx) :
    exec (evaluate_without_delegation world expr) ctx =
      exec (do
        let value ← eval_sync_expr world expr
        charge_native_output expr value
        pure value) ctx := by
  unfold evaluate_without_delegation
  cases hl : eval_leaf ctx.exchange expr with
  | none => simp only [exec_bind, exec_get, hl]
  | some value =>
    rw [eval_sync_expr.eq_def]
    by_cases h : MAX_WORK_STEPS < ctx.work + 1 <;>
      simp [exec_bind, exec_charge_work, hl, h]

/-- On a tree without a delegate both evaluators give the same result in every context, and
they leave the same budgets, and so do the two ways to evaluate a whole source. -/
theorem evaluators_agree_without_a_delegate (expr : Expr) (h : contains_delegate expr = false)
    (ctx : EvalCtx) :
    (eval_async_expr world expr).run.run ctx = (eval_sync_expr world expr).run.run ctx ∧
      (evaluate_with_delegation world expr).run.run ctx =
        (evaluate_without_delegation world expr).run.run ctx := by
  refine ⟨by rw [eval_async_expr_eq world expr h], ?_⟩
  change exec _ ctx = exec _ ctx
  rw [exec_evaluate_without_delegation, evaluate_with_delegation, eval_async_expr_eq world expr h]

/-- A world in which the clock stands still, for the runs below. -/
def stillWorld : World where
  now_epoch_ms _ := 0
  from_timestamp_millis _ := none
  to_string _ := ""

theorem evaluators_agree_on_a_sum :
    let expr : Expr := .BinOp (.IntLit 1) .Add (.Header "n")
    let ctx : EvalCtx := ⟨.new .default, none, 0, 0, 0⟩
    contains_delegate expr = false ∧
      (eval_async_expr stillWorld expr).run.run ctx =
        (eval_sync_expr stillWorld expr).run.run ctx :=
  ⟨by decide, (evaluators_agree_without_a_delegate stillWorld _ (by decide) _).1⟩

end camel_language_simple.evaluator
