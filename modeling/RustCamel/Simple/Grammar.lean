-- The documented grammar of the Simple language as derivations, with what the parser does on
-- the tokens of one: it gives the derived tree, or the depth limit stops it.
import RustCamel.Simple.Parser

open List Option

namespace camel_language_simple.parser

open camel_language_api (LanguageError)

/-! ## The grammar -/

/-- The levels of the grammar, from the loosest to the tightest. -/
inductive Level where
  | or
  | and
  | cmp
  | sum
  | product
  | unary
  | atom

/-- The trees that one token stands for. -/
def atom_of : Token → Option Expr
  | .IntLit value => some (.IntLit value)
  | .StringLit s => some (.StringLit s)
  | .BoolLit b => some (.Bool b)
  | .Null => some .Null
  | .Word word =>
    match parse_identifier word "" with
    | .ok expr => some expr
    | .error _ => none
  | _ => none

/-- `Derives level expr tokens room parens`: on this level the tokens stand for the tree. The
parser goes `room` deep into them, and `parens` grouping parentheses are open at once at most. -/
inductive Derives : Level → Expr → List Token → Nat → Nat → Prop
  | leaf {token : Token} {expr : Expr} : atom_of token = some expr → Derives .atom expr [token] 0 0
  | group {expr : Expr} {ts : List Token} {c g : Nat} : Derives .or expr ts c g →
      Derives .atom expr (.LParen :: (ts ++ [.RParen])) (c + 1) (g + 1)
  | call₁ {name : String} {kind : CallKind} {a : Expr} {ts : List Token} {c g : Nat} :
      call_kind name = some kind → arity kind = 1 → Derives .or a ts c g →
      Derives .atom (.Call kind [a]) (.Word name :: .LParen :: (ts ++ [.RParen])) (c + 1) g
  | call₂ {name : String} {kind : CallKind} {a b : Expr} {ts us : List Token} {c d g h : Nat} :
      call_kind name = some kind → arity kind = 2 → Derives .or a ts c g → Derives .or b us d h →
      Derives .atom (.Call kind [a, b])
        (.Word name :: .LParen :: (ts ++ .Comma :: (us ++ [.RParen]))) (max c d + 1) (max g h)
  | minimum : Derives .unary (.IntLit (.ofInt (-2 ^ 63))) [.Minus, .WideIntLit (2 ^ 63)] 0 0
  | neg {expr : Expr} {ts : List Token} {c g : Nat} : Derives .unary expr ts c g →
      Derives .unary (.Neg expr) (.Minus :: ts) (c + 1) g
  | mul {l r : Expr} {ts us : List Token} {c d g h : Nat} :
      Derives .product l ts c g → Derives .unary r us d h →
      Derives .product (.BinOp l .Mul r) (ts ++ .Star :: us) (max c d) (max g h)
  | sum {l r : Expr} {token : Token} {op : Op} {ts us : List Token} {c d g h : Nat} :
      sum_operator token = some op →
      ¬(op = .Add ∧ is_string_literal_expr l ∧ is_string_literal_expr r) →
      Derives .sum l ts c g → Derives .product r us d h →
      Derives .sum (.BinOp l op r) (ts ++ token :: us) (max c d) (max g h)
  | compare {l r : Expr} {op : Op} {ts us : List Token} {c d g h : Nat} :
      is_comparison_op op = true → Derives .sum l ts c g → Derives .sum r us d h →
      Derives .cmp (.BinOp l op r) (ts ++ .Op op :: us) (max c d) (max g h)
  | both {l r : Expr} {ts us : List Token} {c d g h : Nat} :
      Derives .and l ts c g → Derives .cmp r us d h →
      Derives .and (.LogicalOp l .And r) (ts ++ .And :: us) (max c d) (max g h)
  | either {l r : Expr} {ts us : List Token} {c d g h : Nat} :
      Derives .or l ts c g → Derives .and r us d h →
      Derives .or (.LogicalOp l .Or r) (ts ++ .Or :: us) (max c d) (max g h)
  | atom_unary {expr : Expr} {ts : List Token} {c g : Nat} :
      Derives .atom expr ts c g → Derives .unary expr ts c g
  | unary_product {expr : Expr} {ts : List Token} {c g : Nat} :
      Derives .unary expr ts c g → Derives .product expr ts c g
  | product_sum {expr : Expr} {ts : List Token} {c g : Nat} :
      Derives .product expr ts c g → Derives .sum expr ts c g
  | sum_cmp {expr : Expr} {ts : List Token} {c g : Nat} :
      Derives .sum expr ts c g → Derives .cmp expr ts c g
  | cmp_and {expr : Expr} {ts : List Token} {c g : Nat} :
      Derives .cmp expr ts c g → Derives .and expr ts c g
  | and_or {expr : Expr} {ts : List Token} {c g : Nat} :
      Derives .and expr ts c g → Derives .or expr ts c g

/-- The tokens that an expression can start with. -/
def is_start : Token → Bool
  | .IntLit _ | .StringLit _ | .BoolLit _ | .Null | .Word _ | .LParen | .Minus => true
  | _ => false

variable {token : Token} {st st' : ParseState} {e : LanguageError} {n : Nat} {depth : ParseDepth}
  {t : Token} {us : List Token} {d h : Nat} {arg : ParseM Expr} {args : List Expr} {kind : CallKind}
  {name : String} {value : Expr} {ts : List Token} {expr : Expr} {level : Level}

theorem is_start_of_atom_of (h : atom_of token = some expr) : is_start token = true := by
  cases token <;> first
    | rfl
    | cases h

theorem Derives.starts {c g : Nat} (h : Derives level expr ts c g) :
    ∃ t us, ts = t :: us ∧ is_start t = true := by
  induction h with
  | leaf ha => exact ⟨_, _, rfl, is_start_of_atom_of ha⟩
  | group _ _ | call₁ _ _ _ _ | call₂ _ _ _ _ _ _ | minimum | neg _ _ => exact ⟨_, _, rfl, rfl⟩
  | mul _ _ ih _ | sum _ _ _ _ ih _ | compare _ _ _ ih _ | both _ _ ih _ | either _ _ ih _ =>
    obtain ⟨t, us, rfl, hs⟩ := ih
    exact ⟨t, _, rfl, hs⟩
  | atom_unary _ ih | unary_product _ ih | product_sum _ ih | sum_cmp _ ih | cmp_and _ ih
  | and_or _ ih => exact ih

theorem Derives.not_deferred {c g : Nat} (h : Derives level expr ts c g) :
    ∀ t ∈ ts, deferred_reason t = none := by
  induction h with
  | @leaf token _ ha =>
    intro t ht
    obtain rfl := mem_singleton.mp ht
    cases t <;> first
      | rfl
      | cases ha
  | @sum _ _ token _ _ _ _ _ _ _ ho _ _ _ ihl ihr =>
    have hto : deferred_reason token = none := by
      cases token <;> first
        | rfl
        | simp [sum_operator] at ho
    simp only [mem_append, mem_cons]
    rintro t (ht | rfl | ht)
    · exact ihl t ht
    · exact hto
    · exact ihr t ht
  | _ => simp_all [deferred_reason, or_imp]

/-! ## One turn of the parser -/

section

variable {α : Type} {m : ParseM α} {β : Type} {f : α → ParseM β}

@[simp] theorem peek_bind_run (f : Option Token → ParseM α) (st : ParseState) :
    (peek >>= f).run st = (f st.rest.head?).run st := rfl

@[simp] theorem advance_bind_run (f : Unit → ParseM α) (st : ParseState) :
    (advance >>= f).run st = (f ()).run { st with rest := st.rest.tail } := rfl

@[simp] theorem get_bind_run (f : ParseState → ParseM α) (st : ParseState) :
    (get >>= f).run st = (f st).run st := rfl

theorem bind_run_ok {a : α} (h : m.run st = .ok (a, st')) : (m >>= f).run st = (f a).run st' := by
  rw [StateT.run_bind, h]
  rfl

theorem bind_run_error (h : m.run st = .error e) : (m >>= f).run st = .error e := by
  rw [StateT.run_bind, h]
  rfl

end

section

variable {β : Type} {operator : Token → Option β} {operand : ParseM Expr}
  {combine : β → Expr → Expr → Except LanguageError Expr} {left : Expr} {ts : List Token} {op : β}

theorem chain_run_ok (h : operand.run st = .ok (left, st')) :
    (chain operator operand combine).run st =
      (chainLoop operator operand combine st'.rest.length left).run st' := by
  unfold chain
  rw [bind_run_ok h]
  rfl

theorem chain_run_error (h : operand.run st = .error e) :
    (chain operator operand combine).run st = .error e := by
  unfold chain
  rw [bind_run_error h]

theorem chainLoop_stop (h : st.rest.head?.bind operator = none) :
    (chainLoop operator operand combine n left).run st = .ok (left, st) := by
  cases n with
  | zero => rfl
  | succ n =>
    rw [chainLoop, peek_bind_run, h]
    rfl

theorem chainLoop_round {right : Expr} (ho : operator token = some op)
    (hr : operand.run ⟨ts, depth⟩ = .ok (right, st'))
    (he : combine op left right = .ok expr) :
    (chainLoop operator operand combine (n + 1) left).run ⟨token :: ts, depth⟩ =
      (chainLoop operator operand combine n expr).run st' := by
  rw [chainLoop, peek_bind_run]
  simp only [head?_cons, bind_some, ho, advance_bind_run, tail_cons]
  rw [bind_run_ok hr, he]
  rfl

theorem chainLoop_round_error (ho : operator token = some op)
    (hr : operand.run ⟨ts, depth⟩ = .error e) :
    (chainLoop operator operand combine (n + 1) left).run ⟨token :: ts, depth⟩ = .error e := by
  rw [chainLoop, peek_bind_run]
  simp only [head?_cons, bind_some, ho, advance_bind_run, tail_cons]
  rw [bind_run_error hr]

end

/-! ## The parser on the tokens of a derivation -/

/-- How tightly a token binds what stands before it. What cannot follow an expression binds
the tightest. -/
def binds : Token → Nat
  | .RParen | .Comma => 0
  | .Or => 1
  | .And => 2
  | .Op op => if is_comparison_op op then 3 else 6
  | .Plus | .Minus => 4
  | .Star => 5
  | _ => 6

/-- The next token, if there is one, binds no tighter than this. -/
def Before (rest : List Token) (n : Nat) : Prop := ∀ t, rest.head? = some t → binds t ≤ n

/-- The tightest token that may stand behind an expression of a level. On a left-associative
level this is the operator of the level, which goes on with it. -/
def bound : Level → Nat
  | .or => 1
  | .and | .cmp => 2
  | .sum => 4
  | .product | .unary | .atom => 5

/-- The depth after an expression that has opened `parens` parentheses. -/
def ParseDepth.after (depth : ParseDepth) (parens : Nat) : ParseDepth :=
  { depth with max_grouping := max depth.max_grouping (depth.grouping + parens) }

section

variable (input : String) (slot : Nat → SlotParser) (room : Nat)

/-- The unary level one level deeper, if the limit leaves one. -/
def deeper : Option (ParseM Expr) :=
  match room with
  | 0 => none
  | room + 1 => some (parse_unary input slot room)

def parser_at : Level → ParseM Expr
  | .or => parse_or input (parse_unary input slot room)
  | .and => parse_and input (parse_unary input slot room)
  | .cmp => parse_cmp input (parse_unary input slot room)
  | .sum => parse_sum input (parse_unary input slot room)
  | .product => parse_product (parse_unary input slot room)
  | .unary => parse_unary input slot room
  | .atom => parse_atom input (slot room) (deeper input slot room)

theorem parse_unary_eq :
    parse_unary input slot room = unary_step input (slot room) (deeper input slot room) := by
  cases room <;> rfl

/-- How a level goes on when it has read an expression. -/
def continue_at (n : Nat) (expr : Expr) : Level → ParseM Expr
  | .or => chainLoop or_operator (parser_at input slot room .and)
      (fun _ left right => .ok (.LogicalOp left .Or right)) n expr
  | .and => chainLoop and_operator (parser_at input slot room .cmp)
      (fun _ left right => .ok (.LogicalOp left .And right)) n expr
  | .sum => chainLoop sum_operator (parser_at input slot room .product)
      (fun op left right =>
        if op = .Add ∧ is_string_literal_expr left ∧ is_string_literal_expr right then
          .error (parse_error input "string concatenation is deferred")
        else .ok (.BinOp left op right)) n expr
  | .product => chainLoop product_operator (parser_at input slot room .unary)
      (fun _ left right => .ok (.BinOp left .Mul right)) n expr
  | _ => pure expr

end

/-- On a level the parser reads the tokens as the expression and then goes on, or it is
stopped by the depth limit. -/
def Reads (input : String) (slot : Nat → SlotParser) (level : Level) (expr : Expr)
    (ts : List Token) (c g : Nat) : Prop :=
  ∀ (room : Nat) (rest : List Token) (depth : ParseDepth), depth.grouping ≤ depth.max_grouping →
    Before rest (bound level) → ∃ n, rest.length ≤ n ∧
      (parser_at input slot room level).run ⟨ts ++ rest, depth⟩ =
        if c ≤ room then (continue_at input slot room n expr level).run ⟨rest, depth.after g⟩
        else .error (depth_error input)

/-- The tightest token at which a level is done. -/
def closed : Level → Nat
  | .or => 0
  | .and => 1
  | .cmp => 2
  | .sum => 3
  | .product => 4
  | .unary | .atom => 5

theorem Before.mono {rest : List Token} {m : Nat} (h : Before rest m) (hle : m ≤ n) :
    Before rest n :=
  fun t ht => (h t ht).trans hle

theorem before_cons (h : binds t ≤ n) : Before (t :: ts) n := by
  intro u hu
  obtain rfl : t = u := by simpa using hu
  exact h

theorem before_nil (n : Nat) : Before [] n := by
  intro t ht
  cases ht

theorem operator_none {β : Type} {operator : Token → Option β} {rest : List Token}
    (ho : ∀ t, binds t ≤ n → operator t = none) (h : Before rest n) :
    rest.head?.bind operator = none := by
  cases hh : rest.head? with
  | none => rfl
  | some t => exact ho t (h t hh)

namespace ParseDepth

theorem after_grouping_le (h : depth.grouping ≤ depth.max_grouping) (parens : Nat) :
    (depth.after parens).grouping ≤ (depth.after parens).max_grouping := by
  simp only [after]
  omega

theorem after_after (depth : ParseDepth) (g h : Nat) :
    (depth.after g).after h = depth.after (max g h) := by
  simp only [after, ParseDepth.mk.injEq, true_and, and_true]
  omega

theorem after_zero (h : depth.grouping ≤ depth.max_grouping) : depth.after 0 = depth := by
  simp only [after, Nat.add_zero, Nat.max_eq_left h]

end ParseDepth

section

variable {input : String} {slot : Nat → SlotParser} {level : Level} {expr : Expr}
  {ts : List Token} {c g : Nat}

theorem Reads.complete (h : Reads input slot level expr ts c g) (room : Nat) {rest : List Token}
    (hd : depth.grouping ≤ depth.max_grouping) (hr : Before rest (closed level)) :
    (parser_at input slot room level).run ⟨ts ++ rest, depth⟩ =
      if c ≤ room then .ok (expr, ⟨rest, depth.after g⟩) else .error (depth_error input) := by
  have hle : closed level ≤ bound level := by cases level <;> decide
  obtain ⟨n, _, hru⟩ := h room rest depth hd (hr.mono hle)
  rw [hru]
  congr 1
  cases level with
  | or | and | sum | product =>
    refine chainLoop_stop (operator_none ?_ hr)
    intro t ht
    cases t <;> simp [closed, binds, or_operator, and_operator, sum_operator,
      product_operator] at ht ⊢
  | cmp | unary | atom => rfl

/-! ### Left-associative levels -/

section

variable {tighter : Level} {β : Type} {operator : Token → Option β}
  {combine : β → Expr → Expr → Except LanguageError Expr}
  (hparser : ∀ room, parser_at input slot room level =
    chain operator (parser_at input slot room tighter) combine)
  (hcontinue : ∀ room n expr, continue_at input slot room n expr level =
    chainLoop operator (parser_at input slot room tighter) combine n expr)
  (hbound : bound level ≤ closed tighter)
include hparser hcontinue hbound

theorem reads_lift (h : Reads input slot tighter expr ts c g) :
    Reads input slot level expr ts c g := by
  intro room rest depth hd hr
  have ho := h.complete room hd (hr.mono hbound)
  refine ⟨rest.length, Nat.le_refl _, ?_⟩
  rw [hparser, hcontinue]
  by_cases hc : c ≤ room
  · rw [if_pos hc] at ho ⊢
    exact chain_run_ok ho
  · rw [if_neg hc] at ho ⊢
    exact chain_run_error ho

omit hparser in
theorem reads_operator {l r : Expr} {op : β} (hl : Reads input slot level l ts c g)
    (hr : Reads input slot tighter r us d h) (ho : operator token = some op)
    (ht : binds token ≤ bound level) (he : combine op l r = .ok expr) :
    Reads input slot level expr (ts ++ token :: us) (max c d) (max g h) := by
  intro room rest depth hde hre
  obtain ⟨n, hn, hru⟩ := hl room (token :: (us ++ rest)) depth hde (before_cons ht)
  have hri := hr.complete room (ParseDepth.after_grouping_le hde g) (hre.mono hbound)
  obtain ⟨n, rfl⟩ : ∃ m, n = m + 1 := ⟨n - 1, by simp only [length_cons] at hn; omega⟩
  refine ⟨n, by simp only [length_cons, length_append] at hn; omega, ?_⟩
  rw [append_assoc, cons_append, hru]
  by_cases hc : c ≤ room
  · rw [if_pos hc, hcontinue]
    by_cases hd : d ≤ room
    · rw [if_pos hd] at hri
      rw [if_pos (by omega), hcontinue, ← ParseDepth.after_after]
      exact chainLoop_round ho hri he
    · rw [if_neg hd] at hri
      rw [if_neg (by omega)]
      exact chainLoop_round_error ho hri
  · rw [if_neg hc, if_neg (by omega)]

end

theorem continue_product (room n : Nat) (expr : Expr) :
    continue_at input slot room n expr .product =
      chainLoop product_operator (parser_at input slot room .unary)
        (fun _ left right => .ok (.BinOp left .Mul right)) n expr := rfl

theorem continue_and (room n : Nat) (expr : Expr) :
    continue_at input slot room n expr .and =
      chainLoop and_operator (parser_at input slot room .cmp)
        (fun _ left right => .ok (.LogicalOp left .And right)) n expr := rfl

theorem continue_or (room n : Nat) (expr : Expr) :
    continue_at input slot room n expr .or =
      chainLoop or_operator (parser_at input slot room .and)
        (fun _ left right => .ok (.LogicalOp left .Or right)) n expr := rfl

/-! ### Comparisons -/

theorem comparison_none {rest : List Token} (h : Before rest 2) :
    rest.head?.bind comparison_operator = none := by
  refine operator_none ?_ h
  intro t ht
  cases t with
  | Op op => cases op <;> simp [binds, is_comparison_op] at ht ⊢
  | _ => rfl

theorem reads_cmp_lift (h : Reads input slot .sum expr ts c g) :
    Reads input slot .cmp expr ts c g := by
  intro room rest depth hd hr
  have hsum : (parse_sum input (parse_unary input slot room)).run ⟨ts ++ rest, depth⟩ = _ :=
    h.complete room hd (hr.mono (by decide : bound .cmp ≤ closed .sum))
  refine ⟨rest.length, Nat.le_refl _, ?_⟩
  change (parse_cmp input (parse_unary input slot room)).run _ = _
  unfold parse_cmp
  by_cases hc : c ≤ room
  · rw [if_pos hc] at hsum ⊢
    rw [bind_run_ok hsum, peek_bind_run, comparison_none hr]
    rfl
  · rw [if_neg hc] at hsum ⊢
    rw [bind_run_error hsum]

theorem reads_compare {l r : Expr} {op : Op} (ho : is_comparison_op op = true)
    (hl : Reads input slot .sum l ts c g) (hr : Reads input slot .sum r us d h) :
    Reads input slot .cmp (.BinOp l op r) (ts ++ .Op op :: us) (max c d) (max g h) := by
  intro room rest depth hde hre
  have hb : binds (.Op op) ≤ closed .sum := by simp [binds, ho, closed]
  have hle : (parse_sum input (parse_unary input slot room)).run
      ⟨ts ++ .Op op :: (us ++ rest), depth⟩ = _ := hl.complete room hde (before_cons hb)
  have hri : (parse_sum input (parse_unary input slot room)).run
      ⟨us ++ rest, depth.after g⟩ = _ :=
    hr.complete room (ParseDepth.after_grouping_le hde g)
      (hre.mono (by decide : bound .cmp ≤ closed .sum))
  refine ⟨rest.length, Nat.le_refl _, ?_⟩
  change (parse_cmp input (parse_unary input slot room)).run _ = _
  rw [append_assoc, cons_append]
  unfold parse_cmp
  by_cases hc : c ≤ room
  · rw [if_pos hc] at hle
    rw [bind_run_ok hle, peek_bind_run]
    simp only [head?_cons, bind_some, comparison_operator, ho, if_true,
      advance_bind_run, tail_cons]
    by_cases hd : d ≤ room
    · rw [if_pos hd] at hri
      rw [if_pos (by omega), bind_run_ok hri, peek_bind_run, comparison_none hre,
        ParseDepth.after_after]
      rfl
    · rw [if_neg hd] at hri
      rw [if_neg (by omega), bind_run_error hri]
  · rw [if_neg hc] at hle
    rw [if_neg (by omega), bind_run_error hle]

/-! ### The unary level -/

theorem reads_unary_atom (ha : Reads input slot .atom expr ts c g)
    (hs : ts.head? ≠ some .Minus) (hne : ts ≠ []) : Reads input slot .unary expr ts c g := by
  intro room rest depth hd hr
  obtain ⟨n, hn, hru⟩ := ha room rest depth hd hr
  refine ⟨n, hn, ?_⟩
  obtain ⟨t, us, rfl⟩ := exists_cons_of_ne_nil hne
  have hm : t ≠ .Minus := by simpa using hs
  change (parse_unary input slot room).run _ = _
  rw [parse_unary_eq, unary_step, peek_bind_run]
  simp only [cons_append, head?_cons]
  split
  · rename_i heq
    exact absurd (by simpa using heq) hm
  · exact hru

theorem reads_minimum : Reads input slot .unary (.IntLit (.ofInt (-2 ^ 63)))
    [.Minus, .WideIntLit (2 ^ 63)] 0 0 := by
  intro room rest depth hd _
  refine ⟨rest.length, Nat.le_refl _, ?_⟩
  change (parse_unary input slot room).run _ = _
  rw [parse_unary_eq, if_pos (Nat.zero_le _), ParseDepth.after_zero hd]
  rfl

theorem reads_neg (h : Reads input slot .unary expr ts c g)
    (hs : ∀ m, ts.head? ≠ some (.WideIntLit m)) (hn : ts ≠ []) :
    Reads input slot .unary (.Neg expr) (.Minus :: ts) (c + 1) g := by
  intro room rest depth hd hr
  refine ⟨rest.length, Nat.le_refl _, ?_⟩
  obtain ⟨t, us, rfl⟩ := exists_cons_of_ne_nil hn
  change (parse_unary input slot room).run _ = _
  rw [parse_unary_eq, unary_step, peek_bind_run]
  simp only [cons_append, head?_cons, advance_bind_run, tail_cons, peek_bind_run]
  split
  · rename_i m heq
    exact absurd heq (by simpa using hs m)
  · cases room with
    | zero => rfl
    | succ room =>
      have hi := h.complete room hd hr
      change (parse_unary input slot room >>= fun e => pure (Expr.Neg e)).run _ = _
      by_cases hc : c ≤ room
      · rw [if_pos hc] at hi
        rw [if_pos (by omega)]
        exact bind_run_ok hi
      · rw [if_neg hc] at hi
        rw [if_neg (by omega)]
        exact bind_run_error hi

/-! ### Atoms -/

theorem parse_identifier_eq {word : String} (h : parse_identifier word "" = .ok expr) :
    parse_identifier word input = .ok expr := by
  unfold parse_identifier at h ⊢
  split at h
  · rename_i hl
    rwa [if_pos hl]
  · cases h

theorem reads_leaf (h : atom_of token = some expr) : Reads input slot .atom expr [token] 0 0 := by
  intro room rest depth hd hr
  refine ⟨rest.length, Nat.le_refl _, ?_⟩
  rw [if_pos (Nat.zero_le _), ParseDepth.after_zero hd]
  change (parse_atom input (slot room) (deeper input slot room)).run _ = _
  unfold parse_atom
  rw [peek_bind_run]
  cases token with
  | Word word =>
    have hc : ([Token.Word word] ++ rest)[1]? ≠ some .LParen := by
      intro hp
      have hh : rest.head? = some .LParen := by
        rw [head?_eq_getElem?]
        simpa using hp
      have := hr _ hh
      simp [binds, bound] at this
    have hw : parse_identifier word input = .ok expr := by
      unfold atom_of at h
      dsimp only at h
      split at h
      · rename_i ho
        obtain rfl : _ = expr := by simpa using h
        exact parse_identifier_eq ho
      · cases h
    change (get >>= fun st => if st.rest[1]? = some .LParen then
      parse_call input (deeper input slot room) word else advance >>= fun _ =>
        (liftM (parse_identifier word input) : ParseM Expr)).run _ = _
    rw [get_bind_run, if_neg hc, advance_bind_run, hw]
    rfl
  | IntLit value | StringLit value | BoolLit value | Null =>
    cases h
    rfl
  | _ => cases h

theorem parse_group_run (input : String) (slot : Nat → SlotParser) (room : Nat)
    (ts rest : List Token) (depth : ParseDepth) :
    (parse_atom input (slot (room + 1)) (deeper input slot (room + 1))).run
      ⟨.LParen :: (ts ++ [.RParen]) ++ rest, depth⟩ =
    (parse_or input (parse_unary input slot room) >>= fun inner => do
      modify fun st => { st with depth := { st.depth with grouping := depth.grouping } }
      match ← peek with
      | some .RParen =>
        advance
        return inner
      | _ => throw (parse_error input "expected ')'")).run
    ⟨ts ++ .RParen :: rest, { depth with
      grouping := depth.grouping + 1
      max_grouping := max depth.max_grouping (depth.grouping + 1) }⟩ := by
  have ht : .LParen :: (ts ++ [.RParen]) ++ rest = .LParen :: (ts ++ .RParen :: rest) := by
    simp
  rw [ht]
  rfl

theorem reads_group (h : Reads input slot .or expr ts c g) :
    Reads input slot .atom expr (.LParen :: (ts ++ [.RParen])) (c + 1) (g + 1) := by
  intro room rest depth hd _
  refine ⟨rest.length, Nat.le_refl _, ?_⟩
  cases room with
  | zero => rfl
  | succ room =>
    -- Inside, one more parenthesis is open than outside.
    let inside : ParseDepth := { depth with
      grouping := depth.grouping + 1
      max_grouping := max depth.max_grouping (depth.grouping + 1) }
    have hi : inside.grouping ≤ inside.max_grouping := Nat.le_max_right _ _
    have ho : (parse_or input (parse_unary input slot room)).run
        ⟨ts ++ .RParen :: rest, inside⟩ = _ :=
      h.complete room hi (before_cons (Nat.le_refl 0))
    have hs : _ = (_ : ParseM Expr).run ⟨ts ++ .RParen :: rest, inside⟩ :=
      parse_group_run input slot room ts rest depth
    change (parse_atom input (slot (room + 1)) (deeper input slot (room + 1))).run _ = _
    rw [hs]
    by_cases hc : c ≤ room
    · rw [if_pos hc] at ho
      rw [bind_run_ok ho, if_pos (by omega)]
      have ha : ({ inside.after g with grouping := depth.grouping } : ParseDepth) =
          depth.after (g + 1) := by
        simp only [inside, ParseDepth.after, ParseDepth.mk.injEq, true_and, and_true]
        omega
      rw [← ha]
      rfl
    · rw [if_neg hc] at ho
      rw [bind_run_error ho, if_neg (by omega)]

/-! ### Calls -/

theorem parse_atom_call (hn : call_kind name = some kind) (room : Nat) (hs : t ≠ .RParen)
    (depth : ParseDepth) :
    (parse_atom input (slot (room + 1)) (deeper input slot (room + 1))).run
        ⟨.Word name :: .LParen :: t :: us, depth⟩ =
      (argsLoop input (parse_or input (parse_unary input slot room)) (us.length + 2) [] >>=
        fun args => if args.length ≠ arity kind then throw (parse_error input "call arity")
          else return Expr.Call kind args).run ⟨t :: us, depth⟩ := by
  change (parse_call input (deeper input slot (room + 1)) name).run _ = _
  unfold parse_call
  rw [hn]
  dsimp only
  rw [advance_bind_run, advance_bind_run]
  have he : (enter input (deeper input slot (room + 1))).run ⟨t :: us, depth⟩ =
      .ok (parse_unary input slot room, ⟨t :: us, depth⟩) := rfl
  simp only [tail_cons]
  rw [bind_run_ok he, peek_bind_run]
  simp only [head?_cons]
  split
  · rename_i heq
    exact absurd (by simpa using heq) hs
  · rfl

theorem argsLoop_last {rest : List Token} (h : arg.run st = .ok (value, ⟨.RParen :: rest, depth⟩)) :
    (argsLoop input arg (n + 1) args).run st = .ok (args ++ [value], ⟨rest, depth⟩) := by
  rw [argsLoop, bind_run_ok h]
  rfl

theorem argsLoop_more {rest : List Token} (h : arg.run st = .ok (value, ⟨.Comma :: rest, depth⟩)) :
    (argsLoop input arg (n + 1) args).run st =
      (argsLoop input arg n (args ++ [value])).run ⟨rest, depth⟩ := by
  rw [argsLoop, bind_run_ok h]
  rfl

theorem argsLoop_error (h : arg.run st = .error e) :
    (argsLoop input arg (n + 1) args).run st = .error e := by
  rw [argsLoop, bind_run_error h]

theorem not_closing (h : is_start t = true) : t ≠ .RParen := by
  rintro rfl
  cases h

theorem reads_call₁ {a : Expr} (hn : call_kind name = some kind) (ha : arity kind = 1)
    (hs : is_start t = true) (h : Reads input slot .or a (t :: us) c g) :
    Reads input slot .atom (.Call kind [a])
      (.Word name :: .LParen :: (t :: us ++ [.RParen])) (c + 1) g := by
  intro room rest depth hd _
  refine ⟨rest.length, Nat.le_refl _, ?_⟩
  change (parse_atom input (slot room) (deeper input slot room)).run _ = _
  cases room with
  | zero =>
    change (parse_call input (deeper input slot 0) name).run _ = _
    unfold parse_call
    rw [hn]
    rfl
  | succ room =>
    have ho : (parse_or input (parse_unary input slot room)).run
        ⟨t :: (us ++ .RParen :: rest), depth⟩ = _ :=
      h.complete room hd (before_cons (Nat.le_refl 0) : Before (.RParen :: rest) 0)
    simp only [cons_append, append_assoc, nil_append]
    rw [parse_atom_call hn room (not_closing hs)]
    by_cases hc : c ≤ room
    · rw [if_pos hc] at ho
      rw [if_pos (by omega), bind_run_ok (argsLoop_last ho)]
      simp only [nil_append, length_singleton, ha, ne_eq, not_true, if_false]
      rfl
    · rw [if_neg hc] at ho
      rw [if_neg (by omega), bind_run_error (argsLoop_error ho)]

theorem reads_call₂ {a b : Expr} {vs : List Token} (hn : call_kind name = some kind)
    (har : arity kind = 2) (hst : is_start t = true)
    (ha : Reads input slot .or a (t :: us) c g) (hb : Reads input slot .or b vs d h) :
    Reads input slot .atom (.Call kind [a, b])
      (.Word name :: .LParen :: (t :: us ++ .Comma :: (vs ++ [.RParen]))) (max c d + 1)
      (max g h) := by
  intro room rest depth hde _
  refine ⟨rest.length, Nat.le_refl _, ?_⟩
  change (parse_atom input (slot room) (deeper input slot room)).run _ = _
  cases room with
  | zero =>
    change (parse_call input (deeper input slot 0) name).run _ = _
    unfold parse_call
    rw [hn]
    rfl
  | succ room =>
    have hf : (parse_or input (parse_unary input slot room)).run
        ⟨t :: (us ++ .Comma :: (vs ++ .RParen :: rest)), depth⟩ = _ :=
      ha.complete room hde
        (before_cons (Nat.le_refl 0) : Before (.Comma :: (vs ++ .RParen :: rest)) 0)
    have hs : (parse_or input (parse_unary input slot room)).run
        ⟨vs ++ .RParen :: rest, depth.after g⟩ = _ :=
      hb.complete room (ParseDepth.after_grouping_le hde g)
        (before_cons (Nat.le_refl 0) : Before (.RParen :: rest) 0)
    simp only [cons_append, append_assoc, nil_append]
    rw [parse_atom_call hn room (not_closing hst)]
    by_cases hc : c ≤ room
    · rw [if_pos hc] at hf
      by_cases hd : d ≤ room
      · rw [if_pos hd] at hs
        rw [if_pos (by omega), bind_run_ok ((argsLoop_more hf).trans (argsLoop_last hs)),
          ParseDepth.after_after]
        simp only [nil_append, cons_append, length_cons, length_nil, har, ne_eq, not_true, if_false]
        rfl
      · rw [if_neg hd] at hs
        rw [if_neg (by omega), bind_run_error ((argsLoop_more hf).trans (argsLoop_error hs))]
    · rw [if_neg hc] at hf
      rw [if_neg (by omega), bind_run_error (argsLoop_error hf)]

end

/-! ### All derivations -/

theorem Derives.atom_start {c g : Nat} (h : Derives .atom expr ts c g) :
    ts.head? ≠ some .Minus := by
  cases h with
  | @leaf token _ ha =>
    intro hm
    obtain rfl : token = .Minus := by simpa using hm
    cases ha
  | group _ | call₁ _ _ _ | call₂ _ _ _ _ => simp

theorem Derives.ne_nil {c g : Nat} (h : Derives level expr ts c g) : ts ≠ [] := by
  obtain ⟨t, us, rfl, _⟩ := h.starts
  simp

theorem Derives.not_wide {c g : Nat} (h : Derives level expr ts c g) (m : Nat) :
    ts.head? ≠ some (.WideIntLit m) := by
  obtain ⟨t, us, rfl, hs⟩ := h.starts
  intro hw
  obtain rfl : t = .WideIntLit m := by simpa using hw
  cases hs

theorem Derives.reads {c g : Nat} (input : String) (slot : Nat → SlotParser)
    (h : Derives level expr ts c g) : Reads input slot level expr ts c g := by
  induction h with
  | leaf hat => exact reads_leaf hat
  | group _ ih => exact reads_group ih
  | call₁ hn ha hd ih =>
    obtain ⟨t, us, rfl, hs⟩ := hd.starts
    exact reads_call₁ hn ha hs ih
  | call₂ hn ha hd _ iha ihb =>
    obtain ⟨t, us, rfl, hs⟩ := hd.starts
    exact reads_call₂ hn ha hs iha ihb
  | minimum => exact reads_minimum
  | neg hd ih => exact reads_neg ih hd.not_wide hd.ne_nil
  | mul _ _ ihl ihr =>
    exact reads_operator continue_product (by decide) ihl ihr rfl (by decide) rfl
  | @sum l r token op _ _ _ _ _ _ ho hst _ _ ihl ihr =>
    have hb : binds token ≤ bound .sum := by
      cases token <;> first
        | exact Nat.le_refl 4
        | simp [sum_operator] at ho
    exact reads_operator (fun _ _ _ => rfl) (by decide) ihl ihr ho hb (if_neg hst)
  | compare ho _ _ ihl ihr => exact reads_compare ho ihl ihr
  | both _ _ ihl ihr => exact reads_operator continue_and (by decide) ihl ihr rfl (by decide) rfl
  | either _ _ ihl ihr => exact reads_operator continue_or (by decide) ihl ihr rfl (by decide) rfl
  | atom_unary hd ih => exact reads_unary_atom ih hd.atom_start hd.ne_nil
  | unary_product _ ih
  | product_sum _ ih
  | cmp_and _ ih
  | and_or _ ih => exact reads_lift (fun _ => rfl) (fun _ _ _ => rfl) (by decide) ih
  | sum_cmp _ ih => exact reads_cmp_lift ih

/-- The parser on tokens that derive a tree, with blank text between them: it gives the tree
and the parentheses it has seen, unless it would have to go too deep. -/
theorem parse_slot_expression_of_derives {tokens : List Token} {c g : Nat}
    (hder : Derives .or expr ts c g)
    (ht : tokens.filter (fun t => !is_blank_text t) = ts) (input : String)
    (slot : Nat → SlotParser) (room : Nat) :
    parse_slot_expression slot room tokens input .default =
      if c ≤ room then .ok (expr, { ParseDepth.default with max_grouping := g })
      else .error (depth_error input) := by
  have hd : reject_deferred input ts = .ok () := by
    have hn : ts.findSome? deferred_reason = none := findSome?_eq_none_iff.mpr hder.not_deferred
    rw [reject_deferred, hn]
  have hde : ParseDepth.default.grouping ≤ ParseDepth.default.max_grouping := Nat.le_refl 0
  have hr : (parse_or input (parse_unary input slot room)).run ⟨ts ++ [], .default⟩ = _ :=
    (hder.reads input slot).complete room hde (before_nil 0)
  rw [append_nil] at hr
  unfold parse_slot_expression
  rw [ht]
  simp only [hd, bind, Except.bind, hr]
  by_cases hc : c ≤ room
  · have ha : ParseDepth.default.after g = { ParseDepth.default with max_grouping := g } := by
      simp [ParseDepth.after, ParseDepth.default]
    simp only [if_pos hc, ha, isEmpty_nil, if_true]
  · simp only [if_neg hc]
    rfl

end camel_language_simple.parser
