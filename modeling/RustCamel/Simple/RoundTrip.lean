-- The parser gives a tree back from either of its texts: the tokenizer finds the tokens that
-- the text was made of, and the parser the tree that they derive.
import Mathlib.Data.List.Flatten
import Mathlib.Data.List.TakeWhile
import RustCamel.Simple.Rendering

open List

namespace camel_language_simple.parser

open camel_api (trim trim_start)
open camel_endpoint.uri (split_once split_once_append)
open camel_language_api (LanguageError)

/-! ## One token of a text -/

/-- A character that opens no quote and no slot, and is no brace or bracket. -/
def is_plain (c : Char) : Bool :=
  c ≠ '$' && c ≠ '\'' && c ≠ '"' && c ≠ '{' && c ≠ '}' && c ≠ '[' && c ≠ ']'

variable {c : Char} {t : Token} {expr : Expr} {ps : List Piece} {buf : List Char} {input : String}

theorem containerLoop_plain (h : is_plain c = true) (n : Nat) (rest : List Char) :
    containerLoop (n + 1) (c :: rest) = containerLoop n rest := by
  simp only [is_plain, Bool.and_eq_true, decide_eq_true_eq, ne_eq] at h
  obtain ⟨⟨⟨⟨⟨⟨hsl, hs⟩, hd⟩, ho⟩, hc⟩, hl⟩, hr⟩ := h
  conv_lhs => unfold containerLoop
  split
  case h_6 heq =>
    obtain ⟨rfl, rfl⟩ : c = _ ∧ rest = _ := by simpa using heq
    cases ‹n + 1 = Nat.succ _›
    simp [ho, hc, hl, hr]
  all_goals simp_all

theorem containerLoop_run {cs : List Char} (h : ∀ c ∈ cs, is_plain c = true) (rest : List Char)
    (n : Nat) (hn : (cs ++ rest).length ≤ n) :
    ∃ m, rest.length ≤ m ∧ containerLoop n (cs ++ rest) = containerLoop m rest := by
  induction cs generalizing n with
  | nil => exact ⟨n, hn, rfl⟩
  | cons c cs ih =>
    simp only [cons_append, length_cons] at hn
    obtain ⟨n, rfl⟩ : ∃ m, n = m + 1 := ⟨n - 1, by omega⟩
    have hlen : (cs ++ rest).length ≤ n := by omega
    obtain ⟨m, hm, hr⟩ := ih (fun d hd => h d (.tail _ hd)) n hlen
    refine ⟨m, hm, ?_⟩
    rw [cons_append, containerLoop_plain (h c mem_cons_self), hr]

/-- The token is written so that, with this text behind it, the tokenizer reads it back. -/
structure Spelled (t : Token) (rest : List Char) : Prop where
  visible : is_blank_text t = false
  first : ∃ c, (spell t).head? = some c ∧ camel_api.is_whitespace c = false
  last : ∃ c, (spell t).getLast? = some c ∧ camel_api.is_whitespace c = false
  scan : ∀ input, next_token input true (spell t ++ rest) = .ok (some (t, rest))
  quiet : ∀ n, (spell t ++ rest).length ≤ n →
    ∃ m, rest.length ≤ m ∧ containerLoop n (spell t ++ rest) = containerLoop m rest

theorem next_token_eq {s : List Char} (h : is_plain c = true) :
    next_token input true (c :: s) =
      if is_key_start c then
        .ok (some (classify_word (.ofList (scan_word (c :: s)).1), (scan_word (c :: s)).2))
      else if c.isDigit then some <$> scan_integer input (c :: s)
      else .ok (scan_symbol (c :: s)) := by
  simp only [is_plain, Bool.and_eq_true, decide_eq_true_eq, ne_eq] at h
  unfold next_token
  split <;> simp_all

/-- What may stand behind a word or a number. -/
def Boundary (rest : List Char) : Prop :=
  ∀ c, rest.head? = some c → c = ' ' ∨ c = ')' ∨ c = ',' ∨ c = '('

theorem scan_word_append {w rest : List Char} (hw : ∀ c ∈ w, is_word_char c = true)
    (hr : Boundary rest) : scan_word (w ++ rest) = (w, rest) := by
  induction w with
  | nil =>
    cases rest with
    | nil => rfl
    | cons c rest =>
      have hc := hr c rfl
      rcases hc with rfl | rfl | rfl | rfl <;> rfl
  | cons c w ih =>
    have hc : (c.isAlphanum || decide (c = '_') || decide (c = '.')) = true := hw c mem_cons_self
    rw [cons_append, scan_word, ih fun d hd => hw d (.tail _ hd)]
    simp [hc]

theorem is_plain_word_char (h : is_word_char c = true) : is_plain c = true := by
  simp only [is_plain, Bool.and_eq_true, decide_eq_true_eq, ne_eq]
  refine ⟨⟨⟨⟨⟨⟨?_, ?_⟩, ?_⟩, ?_⟩, ?_⟩, ?_⟩, ?_⟩ <;>
  · rintro rfl
    exact absurd h (by decide)

theorem spelled_word {w rest : List Char} (hs : spell t = w)
    (hv : is_blank_text t = false) (hst : w.head?.any is_key_start = true)
    (hw : ∀ c ∈ w, is_word_char c = true) (hc : classify_word (.ofList w) = t)
    (hr : Boundary rest) : Spelled t rest := by
  obtain ⟨c, w', rfl⟩ : ∃ c w', w = c :: w' := by
    cases w with
    | nil => simp at hst
    | cons c w' => exact ⟨c, w', rfl⟩
  have hlast := getLast?_eq_some_getLast (cons_ne_nil c w')
  have hp := fun d hd => is_plain_word_char (hw d hd)
  refine ⟨hv, ⟨c, ?_, is_whitespace_word_char (hw c mem_cons_self)⟩, ⟨_, ?_,
    is_whitespace_word_char (hw _ (getLast_mem (cons_ne_nil c w')))⟩, ?_, ?_⟩
  · rw [hs]
    rfl
  · rw [hs]
    exact hlast
  · intro input
    have hk : is_key_start c = true := by simpa using hst
    rw [hs, cons_append, next_token_eq (hp c mem_cons_self), if_pos hk,
      ← cons_append, scan_word_append hw hr, hc]
  · rw [hs]
    exact containerLoop_run hp rest

theorem spelled_symbol {rest : List Char} (hv : is_blank_text t = false) (hn : spell t ≠ [])
    (hp : (spell t).all is_plain = true)
    (hw : (spell t).all (fun c => !is_key_start c && !c.isDigit) = true)
    (hs : (spell t).all (fun c => !camel_api.is_whitespace c) = true)
    (hsc : scan_symbol (spell t ++ rest) = some (t, rest)) : Spelled t rest := by
  rw [all_eq_true] at hp hw hs
  simp only [Bool.and_eq_true, Bool.not_eq_true'] at hw hs
  obtain ⟨c, cs, hco⟩ := exists_cons_of_ne_nil hn
  have hc : c ∈ spell t := by rw [hco]; exact mem_cons_self
  refine ⟨hv, ⟨c, by rw [hco]; rfl, hs c hc⟩,
    ⟨_, getLast?_eq_some_getLast hn, hs _ (getLast_mem hn)⟩, ?_,
    containerLoop_run hp rest⟩
  intro input
  rw [hco, cons_append, next_token_eq (hp c hc), if_neg (by simp [(hw c hc).1]),
    if_neg (by simp [(hw c hc).2]), ← cons_append, ← hco, hsc]

theorem spelled_digits {value : Nat} {rest : List Char} (hs : spell t = Nat.toDigits 10 value)
    (hv : is_blank_text t = false) (hva : value ≤ 2 ^ 64 - 1)
    (ht : t = if value ≤ 2 ^ 63 - 1 then .IntLit (.ofNat value) else .WideIntLit value)
    (hr : Boundary rest) : Spelled t rest := by
  have hd : ∀ c ∈ Nat.toDigits 10 value, c.isDigit = true :=
    fun c hc => Nat.isDigit_of_mem_toDigits (by decide) (by decide) hc
  have hw : ∀ c ∈ Nat.toDigits 10 value, is_word_char c = true := by
    intro c hc
    simp [is_word_char, Char.isAlphanum, hd c hc]
  obtain ⟨c, cs, hco⟩ := exists_cons_of_ne_nil (Nat.toDigits_ne_nil (n := value) (b := 10))
  have hc : c ∈ Nat.toDigits 10 value := by rw [hco]; exact mem_cons_self
  have hk : is_key_start c = false := by
    rw [← Bool.not_eq_true]
    intro hk
    have := isDigit_of_is_key_start hk
    simp [hd c hc] at this
  have ha : rest.takeWhile Char.isDigit = [] ∧ rest.dropWhile Char.isDigit = rest ∧
      ¬(rest.head? = some '.' ∨ rest.head? = some 'e' ∨ rest.head? = some 'E') := by
    cases rest with
    | nil => simp
    | cons d rest => rcases hr d rfl with rfl | rfl | rfl | rfl <;> exact ⟨rfl, rfl, by simp⟩
  refine ⟨hv, ⟨c, by rw [hs, hco]; rfl, is_whitespace_word_char (hw c hc)⟩,
    ⟨_, by rw [hs]; exact getLast?_eq_some_getLast Nat.toDigits_ne_nil,
      is_whitespace_word_char (hw _ (getLast_mem _))⟩, ?_, ?_⟩
  · intro input
    rw [hs, hco, cons_append, next_token_eq (is_plain_word_char (hw c hc)),
      if_neg (by simp [hk]), if_pos (hd c hc), ← cons_append, ← hco]
    unfold scan_integer
    rw [takeWhile_append_of_pos hd, dropWhile_append_of_pos hd, ha.1,
      ha.2.1, if_neg ha.2.2, append_nil, Nat.ofDigitChars_ten_toDigits,
      if_neg (Nat.not_lt.mpr hva), ht]
    split <;> rfl
  · rw [hs]
    exact containerLoop_run (fun c hc => is_plain_word_char (hw c hc)) rest

theorem next_token_quote (input : String) (after : List Char) :
    next_token input true ('\'' :: after) =
      match split_once '\'' after with
      | none => .error (parse_error input "unclosed single-quoted string")
      | some (content, rest) => .ok (some (.StringLit (.ofList content), rest)) := rfl

theorem containerLoop_quote (n : Nat) (after : List Char) :
    containerLoop (n + 1) ('\'' :: after) =
      match split_once '\'' after with
      | some (_, rest) => containerLoop n rest
      | none => false := rfl

theorem spelled_string {s : String} (h : '\'' ∉ s.toList) (rest : List Char) :
    Spelled (.StringLit s) rest := by
  have hs : split_once '\'' (s.toList ++ '\'' :: rest) = some (s.toList, rest) :=
    split_once_append rest h
  have ht : spell (.StringLit s) ++ rest = '\'' :: (s.toList ++ '\'' :: rest) := by
    change '\'' :: s.toList ++ ['\''] ++ rest = _
    rw [append_assoc]
    rfl
  refine ⟨rfl, ⟨'\'', rfl, rfl⟩, ⟨'\'', getLast?_concat, rfl⟩, ?_, ?_⟩
  · intro input
    rw [ht, next_token_quote, hs]
    simp only [String.ofList_toList]
  · intro n hn
    rw [ht] at hn ⊢
    simp only [length_cons, length_append] at hn
    obtain ⟨n, rfl⟩ : ∃ m, n = m + 1 := ⟨n - 1, by omega⟩
    refine ⟨n, by omega, ?_⟩
    rw [containerLoop_quote, hs]

theorem boundary_nil : Boundary [] := by
  intro c hc
  cases hc

theorem boundary_cons {c : Char} {rest : List Char}
    (h : c = ' ' ∨ c = ')' ∨ c = ',' ∨ c = '(') : Boundary (c :: rest) := by
  intro d hd
  obtain rfl : c = d := by simpa using hd
  exact h

theorem spelled_op_token (op : Op) (rest : List Char) : Spelled (op_token op) (' ' :: rest) := by
  cases op with
  | Contains =>
    exact spelled_word rfl rfl (by decide) (all_eq_true.mp (by decide)) (by decide)
      (boundary_cons (.inl rfl))
  | _ =>
    exact spelled_symbol rfl (by decide) (by decide) (by decide) (by decide) rfl

theorem spelled_lookup {rest : List Char} (hw : Writable expr)
    (hl : (∃ key, expr = .Header key) ∨ (∃ key, expr = .ExchangeProperty key) ∨
      (∃ segments, expr = .BodyField segments) ∨ expr = .Body) (hr : Boundary rest) :
    Spelled (.Word (lookup_word expr)) rest := by
  have hc := (lookup_word_spec hw hl).1
  have hh : '-' ∉ (lookup_word expr).toList :=
    not_mem_word hc (by decide : is_word_char '-' = false)
  have hs : ∃ tail, (lookup_word expr).toList = 'h' :: 'e' :: tail ∨
      (lookup_word expr).toList = 'p' :: tail ∨ (lookup_word expr).toList = 'b' :: tail := by
    rcases hl with ⟨key, rfl⟩ | ⟨key, rfl⟩ | ⟨segments, rfl⟩ | rfl
    · exact ⟨_, .inl String.toList_append⟩
    · exact ⟨_, .inr (.inl String.toList_append)⟩
    · exact ⟨_, .inr (.inr String.toList_append)⟩
    · exact ⟨_, .inr (.inr rfl)⟩
  obtain ⟨tail, hs⟩ := hs
  have hke (keyword : String) (hk : keyword ∈ ["contains", "true", "false", "null", "in"]) :
      lookup_word expr ≠ keyword := by
    intro heq
    rw [heq] at hs
    simp only [mem_cons, not_mem_nil, or_false] at hk
    rcases hk with rfl | rfl | rfl | rfl | rfl <;> simp at hs
  refine spelled_word (w := (lookup_word expr).toList) rfl rfl ?_ hc ?_ hr
  · rcases hs with h | h | h <;> rw [h] <;> rfl
  · simp [classify_word, hh, hke]

theorem spelled_call_name (kind : CallKind) (rest : List Char) :
    Spelled (.Word (call_name kind)) ('(' :: rest) := by
  cases kind <;>
  exact spelled_word rfl rfl (by decide) (all_eq_true.mp (by decide)) (by decide)
    (boundary_cons (.inr (.inr (.inr rfl))))

theorem spelled_lparen (rest : List Char) : Spelled .LParen rest :=
  spelled_symbol rfl (by decide) (by decide) (by decide) (by decide) rfl

theorem spelled_rparen (rest : List Char) : Spelled .RParen rest :=
  spelled_symbol rfl (by decide) (by decide) (by decide) (by decide) rfl

theorem spelled_comma (rest : List Char) : Spelled .Comma rest :=
  spelled_symbol rfl (by decide) (by decide) (by decide) (by decide) rfl

theorem spelled_minus (rest : List Char) : Spelled .Minus rest :=
  spelled_symbol rfl (by decide) (by decide) (by decide) (by decide) rfl

theorem spelled_and (rest : List Char) : Spelled .And rest :=
  spelled_symbol rfl (by decide) (by decide) (by decide) (by decide) rfl

theorem spelled_or (rest : List Char) : Spelled .Or rest :=
  spelled_symbol rfl (by decide) (by decide) (by decide) (by decide) rfl

/-! ## The layout of a text -/

@[simp] theorem text_of_nil : text_of [] = [] := rfl

@[simp] theorem text_of_token (t : Token) (ps : List Piece) :
    text_of (.token t :: ps) = spell t ++ text_of ps := rfl

@[simp] theorem text_of_blank (ps : List Piece) : text_of (.blank :: ps) = ' ' :: text_of ps := rfl

/-- Every token is read back from where it stands. -/
def Loose : List Piece → Prop
  | [] => True
  | .blank :: ps => Loose ps
  | .token t :: ps => Spelled t (text_of ps) ∧ Loose ps

/-- The pieces can stand before whatever a word can stand before. -/
def Fits (ps : List Piece) : Prop :=
  ∀ rest, Loose rest → Boundary (text_of rest) → Loose (ps ++ rest)

theorem fits_token (h : ∀ {rest : List Char}, Boundary rest → Spelled t rest) : Fits [.token t] :=
  fun _ hl hr => ⟨h hr, hl⟩

theorem boundary_rparen (rest : List Piece) : Boundary (text_of (.token .RParen :: rest)) :=
  boundary_cons (.inr (.inl rfl))

theorem fits_parens (b : Bool) (h : Fits ps) : Fits (parens b ps) := by
  cases b with
  | false => exact h
  | true =>
    intro rest hl _
    have hi : Loose (ps ++ .token .RParen :: rest) :=
      h _ ⟨spelled_rparen _, hl⟩ (boundary_rparen rest)
    have hp : parens true ps ++ rest = .token .LParen :: (ps ++ .token .RParen :: rest) := by
      simp [parens]
    rw [hp]
    exact ⟨spelled_lparen _, hi⟩

theorem fits_between {left right : List Piece} (hle : Fits left)
    (ht : ∀ rest, Spelled t (' ' :: rest)) (hr : Fits right) : Fits (between left t right) := by
  intro rest hl hre
  have hp : between left t right ++ rest =
      left ++ .blank :: .token t :: .blank :: (right ++ rest) := by
    simp [between]
  rw [hp]
  exact hle _ ⟨ht _, hr rest hl hre⟩ (boundary_cons (.inl rfl))

theorem fits_call {kind : CallKind} {args : List Piece} (h : Fits args) :
    Fits (Piece.token (.Word (call_name kind)) :: Piece.token .LParen ::
      (args ++ [Piece.token .RParen])) := by
  intro rest hl _
  have hi : Loose (args ++ .token .RParen :: rest) :=
    h _ ⟨spelled_rparen _, hl⟩ (boundary_rparen rest)
  rw [cons_append, cons_append, append_assoc]
  exact ⟨spelled_call_name kind _, spelled_lparen _, hi⟩

theorem fits_minus (h : Fits ps) : Fits (.token .Minus :: ps) :=
  fun rest hl hr => ⟨spelled_minus _, h rest hl hr⟩

theorem args_pieces_more (full : Bool) (arg arg' : Expr) (args : List Expr) :
    args_pieces full (arg :: arg' :: args) =
      pieces full .or arg ++ .token .Comma :: .blank :: args_pieces full (arg' :: args) := by
  rw [args_pieces]
  simp

/-- The pieces of a tree that can be written are found again by the tokenizer. -/
theorem fits_pieces (full : Bool) (level : Level) : ∀ expr : Expr, Writable expr →
    Fits (pieces full level expr)
  | .IntLit value, hw => by
    have hr := value.toInt_lt
    by_cases hn : value.toInt < 0
    · have hm : value.toInt.natAbs = 2 ^ 63 := by
        rcases hw with hw | hw <;> omega
      rw [pieces, if_pos hn, hm]
      exact fits_minus (fits_token (spelled_digits rfl rfl (by decide) (by decide)))
    · have hv : (.ofNat value.toInt.toNat : Int64) = value := by
        rw [← Int64.ofInt_eq_ofNat, Int.toNat_of_nonneg (by omega), Int64.ofInt_toInt]
      rw [pieces, if_neg hn]
      refine fits_token (spelled_digits rfl rfl (by omega) ?_)
      rw [if_pos (by omega), hv]
  | .StringLit s, hw => fits_token fun _ => spelled_string hw _
  | .Bool true, _ | .Bool false, _ | .Null, _ =>
    fits_token (spelled_word rfl rfl (by decide) (all_eq_true.mp (by decide)) (by decide))
  | .Body, hw => fits_token (spelled_lookup hw (.inr (.inr (.inr rfl))))
  | .Header key, hw => fits_token (spelled_lookup hw (.inl ⟨key, rfl⟩))
  | .ExchangeProperty key, hw => fits_token (spelled_lookup hw (.inr (.inl ⟨key, rfl⟩)))
  | .BodyField segments, hw => fits_token (spelled_lookup hw (.inr (.inr (.inl ⟨segments, rfl⟩))))
  | .BinOp left op right, hw => by
    rw [pieces]
    exact fits_parens _ (fits_between (fits_pieces full _ left hw.1) (spelled_op_token op)
      (fits_pieces full _ right hw.2.1))
  | .LogicalOp left .And right, hw => by
    rw [pieces]
    exact fits_parens _ (fits_between (fits_pieces full _ left hw.1) (fun _ => spelled_and _)
      (fits_pieces full _ right hw.2))
  | .LogicalOp left .Or right, hw => by
    rw [pieces]
    exact fits_parens _ (fits_between (fits_pieces full _ left hw.1) (fun _ => spelled_or _)
      (fits_pieces full _ right hw.2))
  | .Neg inner, hw => by
    rw [pieces]
    exact fits_parens _ (fits_minus (fits_pieces full _ inner hw))
  | .Call kind [a], hw => by
    rw [pieces, args_pieces]
    exact fits_call (fits_pieces full .or a hw.2)
  | .Call kind [a, b], hw => by
    have ha := fits_pieces full .or a hw.2.1
    have hb := fits_pieces full .or b hw.2.2
    rw [pieces, args_pieces_more, args_pieces]
    refine fits_call fun rest hl hre => ?_
    rw [append_assoc]
    exact ha _ ⟨spelled_comma _, hb rest hl hre⟩ (boundary_cons (.inr (.inr (.inl rfl))))
  | .Call kind [], hw => by cases hw
  | .Call kind (_ :: _ :: _ :: _), hw => by cases hw
  | .ExceptionMessage, hw | .Exception, hw | .LanguageDelegate .., hw | .Date .., hw
  | .Interpolated _, hw | .EscapedString _, hw => by cases hw

def Capped (ps : List Piece) : Prop :=
  (∃ t, ps.head? = some (.token t)) ∧ ∃ t, ps.getLast? = some (.token t)

theorem capped_token (t : Token) : Capped [.token t] := ⟨⟨t, rfl⟩, ⟨t, rfl⟩⟩

theorem capped_cons (h : ∃ t, ps.getLast? = some (.token t)) : Capped (.token t :: ps) := by
  obtain ⟨t', h⟩ := h
  exact ⟨⟨t, rfl⟩, ⟨t', by simp [getLast?_cons, h]⟩⟩

theorem capped_concat (t u : Token) (ps : List Piece) :
    Capped (Piece.token t :: (ps ++ [Piece.token u])) :=
  capped_cons ⟨u, getLast?_concat⟩

theorem capped_parens {b : Bool} (h : Capped ps) : Capped (parens b ps) := by
  cases b with
  | false => exact h
  | true => exact capped_concat .LParen .RParen ps

theorem capped_between {left right : List Piece} (hl : Capped left) (hr : Capped right) :
    Capped (between left t right) := by
  obtain ⟨⟨a, ha⟩, -⟩ := hl
  obtain ⟨-, ⟨b, hb⟩⟩ := hr
  refine ⟨⟨a, by simp [between, head?_append, ha]⟩, ⟨b, ?_⟩⟩
  simp [between, getLast?_append, getLast?_cons, hb]

theorem capped_pieces (full : Bool) (level : Level) : ∀ expr : Expr, Capped (pieces full level expr)
  | .IntLit value => by
    rw [pieces]
    split
    · exact capped_cons ⟨_, rfl⟩
    · exact capped_token _
  | .BinOp left op right | .LogicalOp left .And right | .LogicalOp left .Or right => by
    rw [pieces]
    exact capped_parens (capped_between (capped_pieces full _ left) (capped_pieces full _ right))
  | .Neg inner => by
    rw [pieces]
    exact capped_parens (capped_cons (capped_pieces full _ inner).2)
  | .Call kind args => by
    rw [pieces]
    exact capped_cons (capped_concat _ _ _).2
  | .StringLit s | .Bool s | .BodyField s | .Header s | .ExchangeProperty s | .EscapedString s
  | .Interpolated s => capped_token _
  | .Null | .Body | .ExceptionMessage | .Exception | .LanguageDelegate .. | .Date .. =>
    capped_token _

/-- Without the parentheses that are not needed a text gets no longer. -/
theorem parens_sublist {qs : List Piece} (h : ps.Sublist qs) (b : Bool) :
    (parens (false || b) ps).Sublist (parens (true || b) qs) := by
  have hi : (ps ++ [Piece.token .RParen]).Sublist (qs ++ [Piece.token .RParen]) :=
    h.append (List.Sublist.refl _)
  cases b with
  | true => exact hi.cons_cons _
  | false => exact (h.trans (sublist_append_left _ _)).cons _

mutual

theorem pieces_sublist (level : Level) : ∀ expr : Expr,
    (pieces false level expr).Sublist (pieces true level expr)
  | .BinOp left op right | .LogicalOp left .And right | .LogicalOp left .Or right => by
    rw [pieces, pieces]
    exact parens_sublist ((pieces_sublist _ left).append
      ((((pieces_sublist _ right).cons_cons _).cons_cons _).cons_cons _)) _
  | .Neg inner => by
    rw [pieces, pieces]
    exact parens_sublist ((pieces_sublist _ inner).cons_cons _) _
  | .Call kind args => by
    rw [pieces, pieces]
    exact (((args_pieces_sublist args).append (List.Sublist.refl _)).cons_cons _).cons_cons _
  | .IntLit s | .StringLit s | .Bool s | .BodyField s | .Header s | .ExchangeProperty s
  | .EscapedString s | .Interpolated s => List.Sublist.refl _
  | .Null | .Body | .ExceptionMessage | .Exception | .LanguageDelegate .. | .Date .. =>
    List.Sublist.refl _

theorem args_pieces_sublist : ∀ args : List Expr,
    (args_pieces false args).Sublist (args_pieces true args)
  | [] => List.Sublist.refl _
  | [arg] => by
    rw [args_pieces, args_pieces]
    exact pieces_sublist .or arg
  | arg :: arg' :: args => by
    rw [args_pieces_more, args_pieces_more]
    exact (pieces_sublist .or arg).append
      (((args_pieces_sublist (arg' :: args)).cons_cons _).cons_cons _)

end

theorem bytes_le_of_sublist {cs ds : List Char} (h : cs.Sublist ds) :
    (String.ofList cs).utf8ByteSize ≤ (String.ofList ds).utf8ByteSize := by
  induction h with
  | slnil => exact le_rfl
  | cons c _ ih =>
    rw [String.ofList_cons, String.utf8ByteSize_append]
    omega
  | cons_cons c _ ih =>
    rw [String.ofList_cons, String.ofList_cons, String.utf8ByteSize_append,
      String.utf8ByteSize_append]
    omega

theorem minimal_text_bytes_le (expr : Expr) :
    (minimal_text expr).utf8ByteSize ≤ (full_text expr).utf8ByteSize :=
  bytes_le_of_sublist ((pieces_sublist .or expr).flatMap _)

/-! ## The tokenizer on a text -/

theorem trim_eq_nil (h : buf.all camel_api.is_whitespace = true) : trim buf = [] := by
  have hnil : trim_start buf = [] := dropWhile_eq_nil_iff.mpr (all_eq_true.mp h)
  rw [trim, hnil]
  rfl

theorem filter_flush_text (h : buf.all camel_api.is_whitespace = true) (tokens : List Token) :
    (flush_text buf tokens).filter (fun t => !is_blank_text t) =
      tokens.filter fun t => !is_blank_text t := by
  unfold flush_text
  split
  · rfl
  · have hb : is_blank_text (.Text (.ofList buf)) = true := by
      simp [is_blank_text, String.toList_ofList, trim_eq_nil h]
    simp [hb]

theorem tokenizeLoop_nil (input : String) (n : Nat) (buf : List Char) :
    tokenizeLoop input n buf [] = .ok (flush_text buf []) := by
  cases n <;> rfl

theorem tokenizeLoop_token {rest : List Char} (h : Spelled t rest)
    (hb : buf.all camel_api.is_whitespace = true) (n : Nat) :
    tokenizeLoop input (n + 1) buf (spell t ++ rest) =
      (do let tokens ← tokenizeLoop input n [] rest
          .ok (flush_text buf (t :: tokens))) := by
  obtain ⟨c, hc, -⟩ := h.first
  obtain ⟨cs, hco⟩ : ∃ cs, spell t ++ rest = c :: cs := by
    cases hs : spell t with
    | nil => simp [hs] at hc
    | cons d ds =>
      obtain rfl : d = c := by simpa [hs] using hc
      exact ⟨ds ++ rest, rfl⟩
  have hsc := h.scan input
  rw [hco] at hsc ⊢
  rw [tokenizeLoop, trim_eq_nil hb]
  simp only [isEmpty_nil, hsc]
  rfl

theorem tokenizeLoop_loose (input : String) : ∀ (ps : List Piece), Loose ps →
    ∀ (n : Nat) (buf : List Char), (text_of ps).length ≤ n →
      buf.all camel_api.is_whitespace = true →
      ∃ tokens, tokenizeLoop input n buf (text_of ps) = .ok tokens ∧
        tokens.filter (fun t => !is_blank_text t) = tokens_of ps
  | [], _, n, buf, _, hb => by
    exact ⟨_, tokenizeLoop_nil input n buf, filter_flush_text hb []⟩
  | .blank :: ps, hl, n, buf, hn, hb => by
    simp only [text_of_blank, length_cons] at hn
    obtain ⟨n, rfl⟩ : ∃ m, n = m + 1 := ⟨n - 1, by omega⟩
    have hb' : (buf ++ [' ']).all camel_api.is_whitespace = true := by
      rw [all_append, hb]
      rfl
    obtain ⟨tokens, hr, ht⟩ := tokenizeLoop_loose input ps hl n (buf ++ [' ']) (by omega) hb'
    refine ⟨tokens, ?_, ht⟩
    rw [text_of_blank, tokenizeLoop]
    exact hr
  | .token t :: ps, ⟨hs, hl⟩, n, buf, hn, hb => by
    obtain ⟨c, hc, -⟩ := hs.first
    have hp : 0 < (spell t).length := by
      cases hsp : spell t with
      | nil => simp [hsp] at hc
      | cons d ds => exact Nat.succ_pos _
    simp only [text_of_token, length_append] at hn
    obtain ⟨n, rfl⟩ : ∃ m, n = m + 1 := ⟨n - 1, by omega⟩
    obtain ⟨tokens, hr, ht⟩ := tokenizeLoop_loose input ps hl n [] (by omega) rfl
    refine ⟨flush_text buf (t :: tokens), ?_, ?_⟩
    · rw [text_of_token, tokenizeLoop_token hs hb, hr]
      rfl
    · rw [filter_flush_text hb, filter_cons, hs.visible, ht]
      rfl

theorem containerLoop_loose : ∀ (ps : List Piece), Loose ps → ∀ n, (text_of ps).length ≤ n →
    containerLoop n (text_of ps) = false
  | [], _, n, _ => by cases n <;> rfl
  | .blank :: ps, hl, n, hn => by
    simp only [text_of_blank, length_cons] at hn
    obtain ⟨n, rfl⟩ : ∃ m, n = m + 1 := ⟨n - 1, by omega⟩
    rw [text_of_blank, containerLoop_plain rfl]
    exact containerLoop_loose ps hl n (by omega)
  | .token t :: ps, ⟨hs, hl⟩, n, hn => by
    obtain ⟨m, hm, hq⟩ := hs.quiet n hn
    rw [text_of_token, hq]
    exact containerLoop_loose ps hl m hm

theorem trim_text_of (hl : Loose ps) (hca : Capped ps) : trim (text_of ps) = text_of ps := by
  have hlast : ∀ qs : List Piece, Loose qs → (∃ t, qs.getLast? = some (.token t)) →
      ∃ d, (text_of qs).getLast? = some d ∧ camel_api.is_whitespace d = false := by
    intro qs hq hcap
    induction qs with
    | nil => obtain ⟨t, ht⟩ := hcap; cases ht
    | cons q qs ih =>
      cases qs with
      | nil =>
        obtain ⟨t, ht⟩ := hcap
        obtain rfl : q = .token t := by simpa using ht
        obtain ⟨d, hd, hs⟩ := hq.1.last
        exact ⟨d, by simp [hd], hs⟩
      | cons q' qs =>
        have hq' : Loose (q' :: qs) := by
          cases q with
          | blank => exact hq
          | token t => exact hq.2
        obtain ⟨d, hd, hs⟩ := ih hq' (by simpa [getLast?_cons] using hcap)
        refine ⟨d, ?_, hs⟩
        cases q with
        | blank => rw [text_of_blank, getLast?_cons, hd]; rfl
        | token t => rw [text_of_token, getLast?_append, hd]; rfl
  obtain ⟨d, hd, hs⟩ := hlast ps hl hca.2
  obtain ⟨t, ht⟩ := hca.1
  cases ps with
  | nil => cases ht
  | cons p ps =>
    obtain rfl : p = .token t := by simpa using ht
    obtain ⟨c, hc, hf⟩ := hl.1.first
    exact trim_eq (by simp [hc]) hf hd hs

/-! ## The parser on a text -/

theorem Derives.single_or_grammar {level : Level} {ts : List Token} {c g : Nat}
    (h : Derives level expr ts c g) :
    (∃ t, ts = [t] ∧ atom_of t = some expr ∧ c = 0 ∧ g = 0) ∨ ts.any is_grammar_token = true := by
  induction h with
  | @leaf t expr ha => exact .inl ⟨t, rfl, ha, rfl, rfl⟩
  | @sum _ _ token _ _ _ _ _ _ _ ho _ _ _ _ _ =>
    have ht : is_grammar_token token = true := by
      cases token <;> first
        | rfl
        | simp [sum_operator] at ho
    exact .inr (by simp [ht])
  | atom_unary _ ih | unary_product _ ih | product_sum _ ih | sum_cmp _ ih | cmp_and _ ih
  | and_or _ ih => exact ih
  | _ => exact .inr (by simp [is_grammar_token])

/-- What the parser gives for a text of a tree: the tree, or the error of a limit. `room` is how
deep it has to go, and `parens` how many parentheses are open at once. -/
def parsed (text : String) (expr : Expr) (room parens : Nat) : Except LanguageError Expr := do
  check_source_len text
  if room ≤ MAX_DEPTH then validated text (expr, { ParseDepth.default with max_grouping := parens })
  else .error (depth_error text)

theorem any_grammar_token {tokens ts : List Token}
    (h : tokens.filter (fun t => !is_blank_text t) = ts) :
    tokens.any is_grammar_token = ts.any is_grammar_token := by
  have hgr (t : Token) : is_grammar_token t = true → is_blank_text t = false := by
    cases t <;> simp [is_grammar_token, is_blank_text]
  rw [Bool.eq_iff_iff, ← h]
  simp only [any_eq_true, mem_filter, Bool.not_eq_true']
  exact ⟨fun ⟨t, ht, hg⟩ => ⟨t, ⟨ht, hgr t hg⟩, hg⟩, fun ⟨t, ⟨ht, _⟩, hg⟩ => ⟨t, ht, hg⟩⟩

theorem eq_singleton_of_capped (hc : Capped ps) (ht : tokens_of ps = [t]) : ps = [.token t] := by
  obtain ⟨⟨a, ha⟩, ⟨b, hb⟩⟩ := hc
  cases ps with
  | nil => cases ha
  | cons p ps =>
    obtain rfl : p = .token a := by simpa using ha
    obtain ⟨rfl, hnil⟩ : a = t ∧ tokens_of ps = [] := by simpa using ht
    cases ps with
    | nil => rfl
    | cons q qs =>
      have hm : Piece.token b ∈ q :: qs := by
        rw [getLast?_cons_cons] at hb
        exact mem_of_getLast? hb
      have : b ∈ tokens_of (q :: qs) := mem_filterMap.mpr ⟨_, hm, rfl⟩
      simp [hnil] at this

theorem tokenize_single (h : Spelled t []) : tokenize (spell t) = .ok [t] := by
  obtain ⟨c, hc, -⟩ := h.first
  obtain ⟨n, hn⟩ : ∃ n, (spell t).length = n + 1 := by
    cases hs : spell t with
    | nil => simp [hs] at hc
    | cons d ds => exact ⟨ds.length, rfl⟩
  have ht : tokenizeLoop (.ofList (spell t)) (n + 1) [] (spell t ++ []) = _ :=
    tokenizeLoop_token h rfl n
  rw [append_nil, tokenizeLoop_nil] at ht
  rw [tokenize, hn, ht]
  rfl

theorem parse_text_of {c g : Nat} (hl : Loose ps) (hca : Capped ps)
    (hd : Derives .or expr (tokens_of ps) c g) :
    parse (.ofList (text_of ps)) = parsed (.ofList (text_of ps)) expr c g := by
  have hn : (text_of ps).isEmpty = false := by
    obtain ⟨t, ht⟩ := hca.1
    cases ps with
    | nil => cases ht
    | cons p ps =>
      obtain rfl : p = .token t := by simpa using ht
      obtain ⟨c, hc, -⟩ := hl.1.first
      cases hs : spell t with
      | nil => simp [hs] at hc
      | cons d ds => simp [hs]
  have hco : has_unquoted_container_syntax (text_of ps) = false :=
    containerLoop_loose ps hl _ le_rfl
  unfold parse parsed
  cases check_source_len (.ofList (text_of ps)) with
  | error e => rfl
  | ok _ =>
    simp only [String.toList_ofList, trim_text_of hl hca, hn, hco, if_false, Bool.false_eq_true]
    rcases hd.single_or_grammar with ⟨t, hts, ha, rfl, rfl⟩ | hg
    · -- One token is read without the grammar.
      obtain rfl := eq_singleton_of_capped hca hts
      have hte : text_of [.token t] = spell t := by simp
      rw [hte, tokenize_single hl.1]
      cases t with
      | Word word =>
        have hw : parse_identifier word (.ofList (spell (.Word word))) = .ok expr := by
          unfold atom_of at ha
          dsimp only at ha
          split at ha
          · rename_i ho
            obtain rfl : _ = expr := by simpa using ha
            exact parse_identifier_eq ho
          · cases ha
        change (do
          let read ← parse_identifier word (.ofList (spell (.Word word)))
          validated _ (read, .default)) = _
        rw [hw]
        rfl
      | IntLit value | StringLit value | BoolLit value | Null =>
        cases ha
        rfl
      | _ => cases ha
    · obtain ⟨tokens, hr, hto⟩ := tokenizeLoop_loose (.ofList (text_of ps)) ps hl _ [] le_rfl rfl
      have hsl := parse_slot_expression_of_derives hd hto (.ofList (text_of ps))
        parse_slot_content MAX_DEPTH
      have han : tokens.any is_grammar_token = true := (any_grammar_token hto).trans hg
      have htok : tokenize (text_of ps) = .ok tokens := hr
      rw [htok]
      change (if tokens.any is_grammar_token then _ else _) = _
      rw [if_pos han, hsl]
      by_cases hc : c ≤ MAX_DEPTH
      · simp only [if_pos hc]
        rfl
      · simp only [if_neg hc]
        rfl

/-! ## The round trip -/

/-- The limits on sources that the text of a tree exceeds, with the errors that say so. The depth
is exceeded by what is open at once in the text, or by the tree and the parentheses around it. -/
inductive Exceeds (full : Bool) (expr : Expr) (text : String) : LanguageError → Prop
  | bytes : MAX_SOURCE_BYTES < text.utf8ByteSize →
      Exceeds full expr text (parse_error text "source exceeds 16 KiB limit")
  | nodes : MAX_AST_NODES < count_nodes expr →
      Exceeds full expr text (parse_error text "AST exceeds 512 node limit")
  | nesting : MAX_DEPTH < nesting true full .or expr →
      Exceeds full expr text (parse_error text "expression exceeds 64 depth limit")
  | depth : MAX_DEPTH < nesting false full .or expr + expr_depth expr →
      Exceeds full expr text (parse_error text "expression exceeds 64 depth limit")

/-- The parser gives the tree back from its text where no limit is exceeded, and the error of a
limit that is exceeded where one is. -/
structure ParsesTo (full : Bool) (expr : Expr) (text : String) : Prop where
  within : (∀ e, ¬Exceeds full expr text e) → parse text = .ok expr
  beyond : ∀ e, Exceeds full expr text e → ∃ e', parse text = .error e' ∧ Exceeds full expr text e'

/-- When `parsed` gives the tree. -/
theorem parsed_eq (text : String) (expr : Expr) (room parens : Nat) :
    parsed text expr room parens =
      if MAX_SOURCE_BYTES < text.utf8ByteSize then
        .error (parse_error text "source exceeds 16 KiB limit")
      else if MAX_DEPTH < room then .error (depth_error text)
      else if MAX_AST_NODES < count_nodes expr then
        .error (parse_error text "AST exceeds 512 node limit")
      else if MAX_DEPTH < parens + expr_depth expr then .error (depth_error text)
      else .ok expr := by
  have hp : ({ ParseDepth.default with max_grouping := parens } : ParseDepth).paren_depth =
      parens := by
    simp [ParseDepth.paren_depth, ParseDepth.default]
  unfold parsed check_source_len validated validate_expr
  rw [hp]
  by_cases hs : MAX_SOURCE_BYTES < text.utf8ByteSize
  · rw [if_pos hs, if_pos hs]
    rfl
  rw [if_neg hs, if_neg hs]
  by_cases hr : room ≤ MAX_DEPTH
  · have hnot : ¬MAX_DEPTH < room := by omega
    simp only [if_pos hr, if_neg hnot]
    by_cases hn : MAX_AST_NODES < count_nodes expr
    · simp only [if_pos hn]
      rfl
    · by_cases hd : MAX_DEPTH < parens + expr_depth expr
      · simp only [if_neg hn, if_pos hd]
        rfl
      · simp only [if_neg hn, if_neg hd]
        rfl
  · simp only [if_neg hr, if_pos (Nat.lt_of_not_le hr)]
    rfl

theorem parses_to_of_parsed {full : Bool} {text : String}
    (h : parse text = parsed text expr (nesting true full .or expr) (nesting false full .or expr)) :
    ParsesTo full expr text := by
  have hc : (parse text = .ok expr ∧ ∀ e, ¬Exceeds full expr text e) ∨
      ∃ e, parse text = .error e ∧ Exceeds full expr text e := by
    rw [h, parsed_eq]
    by_cases hs : MAX_SOURCE_BYTES < text.utf8ByteSize
    · rw [if_pos hs]
      exact .inr ⟨_, rfl, .bytes hs⟩
    by_cases hr : MAX_DEPTH < nesting true full .or expr
    · rw [if_neg hs, if_pos hr]
      exact .inr ⟨_, rfl, .nesting hr⟩
    by_cases hn : MAX_AST_NODES < count_nodes expr
    · rw [if_neg hs, if_neg hr, if_pos hn]
      exact .inr ⟨_, rfl, .nodes hn⟩
    by_cases hd : MAX_DEPTH < nesting false full .or expr + expr_depth expr
    · rw [if_neg hs, if_neg hr, if_neg hn, if_pos hd]
      exact .inr ⟨_, rfl, .depth hd⟩
    · rw [if_neg hs, if_neg hr, if_neg hn, if_neg hd]
      refine .inl ⟨rfl, ?_⟩
      rintro e (h | h | h | h)
      exacts [hs h, hn h, hr h, hd h]
  rcases hc with ⟨hp, hno⟩ | ⟨e, hp, he⟩
  · exact ⟨fun _ => hp, fun e he => absurd he (hno e)⟩
  · exact ⟨fun hno => absurd he (hno e), fun _ _ => ⟨e, hp, he⟩⟩

/-- What fits the bounds with more bytes and more depth fits them with less. -/
theorem parsed_mono {text text' : String} {room room' parens parens' : Nat}
    (h : parsed text expr room parens = .ok expr) (hb : text'.utf8ByteSize ≤ text.utf8ByteSize)
    (hr : room' ≤ room) (hp : parens' ≤ parens) :
    parsed text' expr room' parens' = .ok expr := by
  rw [parsed_eq] at h ⊢
  split at h
  · cases h
  split at h
  · cases h
  split at h
  · cases h
  split at h
  · cases h
  rename_i hs hde hn hd
  rw [if_neg (by omega), if_neg (by omega), if_neg hn, if_neg (by omega)]

/-- Every tree that can be written comes back from its fully parenthesised text and from the
text with the required parentheses only, unless a limit on sources is exceeded; and where the
first text is within the limits, so is the second. -/
theorem parser_inverts_rendering (expr : Expr) (hw : Writable expr) :
    ParsesTo true expr (full_text expr) ∧ ParsesTo false expr (minimal_text expr) ∧
      (parse (full_text expr) = .ok expr → parse (minimal_text expr) = .ok expr) := by
  have hp (full : Bool) : parse (.ofList (text_of (pieces full .or expr))) =
      parsed (.ofList (text_of (pieces full .or expr))) expr (nesting true full .or expr)
        (nesting false full .or expr) := by
    have hl : Loose (pieces full .or expr) := by
      have := fits_pieces full .or expr hw [] trivial boundary_nil
      rwa [append_nil] at this
    exact parse_text_of hl (capped_pieces full .or expr)
      (derives_pieces full .or (by decide) expr hw)
  refine ⟨parses_to_of_parsed (hp true), parses_to_of_parsed (hp false), ?_⟩
  intro ho
  rw [full_text, hp true] at ho
  rw [minimal_text, hp false]
  exact parsed_mono ho (minimal_text_bytes_le expr) (nesting_le true .or expr)
    (nesting_le false .or expr)

/-- `header.qty * (2 - -body.n) > -9223372036854775808 && has_header('x')`. -/
def order_check : Expr :=
  .LogicalOp
    (.BinOp (.BinOp (.Header "qty") .Mul
      (.BinOp (.IntLit 2) .Sub (.Neg (.BodyField [.Key "n"])))) .Gt (.IntLit (-2 ^ 63)))
    .And (.Call .HasHeader [.StringLit "x"])

theorem order_check_within (full : Bool) (e : LanguageError) :
    ¬Exceeds full order_check (.ofList (text_of (pieces full .or order_check))) e := by
  rintro (h | h | h | h) <;> revert h <;> cases full <;> decide +kernel

theorem order_check_parses_back :
    minimal_text order_check =
        "header.qty * (2 - -body.n) > -9223372036854775808 && has_header('x')" ∧
      parse (full_text order_check) = .ok order_check ∧
      parse (minimal_text order_check) = .ok order_check := by
  have hk : ∀ seg ∈ [camel_api.exchange_lookup.PathSegment.Key "n"],
      ∃ key, seg = .Key key ∧ is_identifier key = true := by
    intro seg hs
    exact ⟨"n", mem_singleton.mp hs, by decide⟩
  have hd : Writable (.BinOp (.IntLit 2) .Sub (.Neg (.BodyField [.Key "n"]))) :=
    ⟨.inl (by decide), ⟨by simp, hk⟩, by decide⟩
  have hp : Writable (.BinOp (.Header "qty") .Mul
      (.BinOp (.IntLit 2) .Sub (.Neg (.BodyField [.Key "n"])))) :=
    ⟨(by decide : is_identifier "qty" = true), hd, by decide⟩
  obtain ⟨hf, hm, -⟩ := parser_inverts_rendering order_check
    ⟨⟨hp, .inr (by decide +kernel), by decide⟩, rfl, (by decide : '\'' ∉ "x".toList)⟩
  exact ⟨by decide +kernel, hf.within (order_check_within true),
    hm.within (order_check_within false)⟩

end camel_language_simple.parser
