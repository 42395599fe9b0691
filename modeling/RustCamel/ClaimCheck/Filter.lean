-- The filter of `claim_check.rs`: the text is read token by token, and a token about all headers
-- takes the place of the header tokens before it. What a filter restores is compared with what
-- its tokens select when none of them is forgotten.
import Mathlib.Data.List.DropRight
import RustCamel.Api.Exchange
import RustCamel.Endpoint.Uri

open List

namespace camel_processor.claim_check

open camel_api (Exchange Message Value trim eq_ignore_ascii_case
  PROPERTY_HTTP_CONTENT_TYPE_INHERITED)
open camel_endpoint.uri (split_once)

/-! ## Patterns -/

def has_regex_metachars (s : List Char) : Bool :=
  s.any fun c => ['^', '$', '(', ')', '[', ']', '{', '}', '|', '+', '.', '\\'].contains c

/-- A compiled expression stands as the test that it is. -/
inductive HeaderPattern where
  | All
  | Prefix (text : List Char)
  | Exact (text : List Char)
  | Regex (is_match : String → Bool)

inductive FilterParseError where
  | InvalidToken (tok : List Char)
  | InvalidPattern (pat : List Char)
  | MixedIncludeExclude

def FilterParseError.to_string : FilterParseError → String
  | .InvalidToken tok => s!"invalid filter segment '{String.ofList tok}'"
  | .InvalidPattern pat => s!"invalid header pattern '{String.ofList pat}'"
  | .MixedIncludeExclude => "cannot mix include (+) and exclude (-) header patterns"

/-- `regex_new` is `Regex::new`. -/
def HeaderPattern.compile (regex_new : List Char → Option (String → Bool)) (pattern : List Char) :
    Except FilterParseError HeaderPattern :=
  if pattern = ['*'] then .ok .All
  else if pattern.getLast? = some '*' then .ok (.Prefix pattern.dropLast)
  else if has_regex_metachars pattern then
    match regex_new pattern with
    | some re => .ok (.Regex re)
    | none => .error (.InvalidPattern pattern)
  else .ok (.Exact pattern)

def HeaderPattern.matches (pattern : HeaderPattern) (header_key : String) : Bool :=
  match pattern with
  | .All => true
  | .Prefix text => text.isPrefixOf header_key.toList
  | .Exact text => header_key.toList == text
  | .Regex is_match => is_match header_key

/-! ## Tokens -/

inductive FilterAction where
  | Include
  | Exclude
  | Remove
  deriving DecidableEq

/-- What a token is about. -/
inductive Rule where
  | Body
  | Headers
  | Attachments
  | Pattern (text : List Char)
  | Other (text : List Char)
  deriving DecidableEq

def rule_of (rule : List Char) : Rule :=
  if rule = "body".toList then .Body
  else if rule = "headers".toList ∨ rule = "header".toList then .Headers
  else if rule = "attachments".toList ∨ rule = "attachment".toList then .Attachments
  else if "header:".toList.isPrefixOf rule || "headers:".toList.isPrefixOf rule then
    match split_once ':' rule with
    | some (_, pattern_str) => .Pattern pattern_str
    | none => .Other rule
  else .Other rule

structure Token where
  action : FilterAction
  rule : Rule
  deriving DecidableEq

def token_of : List Char → Token
  | '-' :: '-' :: rest => ⟨.Remove, rule_of rest⟩
  | '-' :: rest => ⟨.Exclude, rule_of rest⟩
  | '+' :: rest => ⟨.Include, rule_of rest⟩
  | token => ⟨.Include, rule_of token⟩

def tokens (input : String) : List Token :=
  (((input.toList.splitOn ',').map trim).filter fun token => !token.isEmpty).map token_of

/-! ## Reading a filter -/

inductive HeadersAction where
  | All (action : FilterAction)
  | ByPattern (includes excludes removes : List HeaderPattern)

structure ClaimCheckFilter where
  body : FilterAction
  headers_action : HeadersAction

structure ParseState where
  body_action : Option FilterAction
  headers_action : Option HeadersAction
  has_positive_include : Bool

section

variable (regex_new : List Char → Option (String → Bool))

/-- One turn of the loop of `parse`. -/
def ParseState.next (s : ParseState) (token : Token) : Except FilterParseError ParseState :=
  let has_positive_include := s.has_positive_include || token.action = .Include
  match token.rule with
  | .Body => .ok { s with body_action := some token.action, has_positive_include }
  | .Headers => .ok { s with headers_action := some (.All token.action), has_positive_include }
  | .Attachments => .ok s
  | .Pattern text =>
    match HeaderPattern.compile regex_new text with
    | .error e => .error e
    | .ok pattern =>
      let (includes, excludes, removes) := match s.headers_action with
        | some (.ByPattern includes excludes removes) => (includes, excludes, removes)
        | _ => ([], [], [])
      let by_pattern includes excludes removes : ParseState :=
        { s with headers_action := some (.ByPattern includes excludes removes),
                 has_positive_include }
      match token.action with
      | .Include =>
        if !excludes.isEmpty then .error .MixedIncludeExclude
        else .ok (by_pattern (includes ++ [pattern]) excludes removes)
      | .Exclude =>
        if !includes.isEmpty then .error .MixedIncludeExclude
        else .ok (by_pattern includes (excludes ++ [pattern]) removes)
      | .Remove => .ok (by_pattern includes excludes (removes ++ [pattern]))
  | .Other text => .error (.InvalidToken text)

def ParseState.finish (s : ParseState) : ClaimCheckFilter :=
  let default_if_omitted := if s.has_positive_include then .Exclude else .Include
  { body := s.body_action.getD default_if_omitted
    headers_action := s.headers_action.getD (.All default_if_omitted) }

def ClaimCheckFilter.parse (input : String) : Except FilterParseError ClaimCheckFilter :=
  ((tokens input).foldlM (ParseState.next regex_new) ⟨none, none, false⟩).map ParseState.finish

end

/-! ## Merging -/

/-- Every way to write a word in small and large letters. -/
def spellings : List Char → List (List Char)
  | [] => [[]]
  | c :: rest => (spellings rest).flatMap fun word => [c :: word, c.toUpper :: word]

/-- `keys().any(|k| is_content_type_key(k) && p(k))`: only the spellings of one key can count. -/
def any_content_type (headers : String → Option Value) (p : String → Bool) : Bool :=
  (spellings "content-type".toList).any fun word =>
    (headers (.ofList word)).isSome && p (.ofList word)

def action_touches_content_type (includes excludes removes : List HeaderPattern)
    (stashed_headers current_headers : String → Option Value) : Bool :=
  (!includes.isEmpty && any_content_type stashed_headers fun k => includes.any (·.matches k)) ||
  (!excludes.isEmpty && any_content_type stashed_headers fun k => !excludes.any (·.matches k)) ||
  (!removes.isEmpty && any_content_type current_headers fun k => removes.any (·.matches k))

/-- The stashed headers that pass a test are inserted. -/
def insert_if (p : String → Bool) (stashed current : String → Option Value) :
    String → Option Value :=
  fun k => if (stashed k).isSome && p k then stashed k else current k

def merge_headers (action : HeadersAction) (stashed current : String → Option Value) :
    (String → Option Value) × Bool :=
  match action with
  | .All .Include =>
    (insert_if (fun _ => true) stashed current, any_content_type stashed fun _ => true)
  | .All .Exclude => (current, false)
  | .All .Remove => (fun _ => none, true)
  | .ByPattern includes excludes removes =>
    let clears_marker := action_touches_content_type includes excludes removes stashed current
    let current := if !includes.isEmpty then
        insert_if (fun k => includes.any (·.matches k)) stashed current
      else current
    let current := if !excludes.isEmpty then
        insert_if (fun k => !excludes.any (·.matches k)) stashed current
      else current
    let current := if !removes.isEmpty then
        fun k => if removes.any (·.matches k) then none else current k
      else current
    (current, clears_marker)

def merge_stashed (exchange : Exchange) (stashed : Message) (filter : ClaimCheckFilter) :
    Exchange :=
  let body := match filter.body with
    | .Include => stashed.body
    | .Exclude => exchange.input.body
    | .Remove => .Empty
  let (headers, clears_marker) :=
    merge_headers filter.headers_action stashed.headers exchange.input.headers
  let exchange := { exchange with input := ⟨headers, body⟩ }
  if clears_marker then exchange.remove_property PROPERTY_HTTP_CONTENT_TYPE_INHERITED else exchange

/-! ## What the tokens select -/

/-- What becomes of a header of the current message. -/
inductive Fate where
  | restored
  | kept
  | removed

def Fate.headers (stashed current : Option Value) : Fate → Option Value
  | .restored => stashed.or current
  | .kept => current
  | .removed => none

namespace Token

/-- A token about some of the headers. -/
def isPattern (token : Token) : Bool :=
  match token.rule with
  | .Pattern _ => true
  | _ => false

def isHeader (token : Token) : Bool := token.isPattern || token.rule = .Headers

variable (regex_new : List Char → Option (String → Bool))

def pattern? (token : Token) : Option HeaderPattern :=
  match token.rule with
  | .Headers => some .All
  | .Pattern text => (HeaderPattern.compile regex_new text).toOption
  | _ => none

/-- The token is about the header `name`. -/
def covers (token : Token) (name : String) : Bool := (token.pattern? regex_new).any (·.matches name)

/-- The token can be read. -/
def Legal (token : Token) : Prop :=
  match token.rule with
  | .Pattern text => (HeaderPattern.compile regex_new text).isOk
  | .Other _ => False
  | _ => True

end Token

section

variable (regex_new : List Char → Option (String → Bool))

/-- What header tokens `hs` do with a header: those that remove go before those that restore, and
their order says nothing. With no header token it is as `omitted` says. -/
def fate (omitted : Fate) (hs : List Token) (name : String) : Fate :=
  let covered action := hs.any fun t => t.action = action && t.covers regex_new name
  if hs.isEmpty then omitted
  else if covered .Remove then .removed
  else if covered .Include || (hs.any (·.action = .Exclude) && !covered .Exclude) then .restored
  else .kept

/-- The headers are restored when no token speaks of them, unless another part is included. -/
def omittedFate (ts : List Token) : Fate :=
  if ts.any fun t => t.action = .Include && t.rule ≠ .Attachments then .kept else .restored

def headerTokens (ts : List Token) : List Token := ts.filter (·.isHeader)

/-- What all the tokens together do with a header. -/
def selected (ts : List Token) (name : String) : Fate :=
  fate regex_new (omittedFate ts) (headerTokens ts) name

theorem selected_perm {ts ts' : List Token} (h : ts.Perm ts') (name : String) :
    selected regex_new ts name = selected regex_new ts' name := by
  have han : ∀ p : Token → Bool, ts.any p = ts'.any p := fun p => h.any_eq
  have hh := h.filter (·.isHeader)
  have ha : ∀ p : Token → Bool, (headerTokens ts).any p = (headerTokens ts').any p :=
    fun p => hh.any_eq
  have he : (headerTokens ts).isEmpty = (headerTokens ts').isEmpty := by
    rw [Bool.eq_iff_iff, isEmpty_iff_length_eq_zero, isEmpty_iff_length_eq_zero]
    exact iff_of_eq (congrArg (· = 0) hh.length_eq)
  unfold selected fate omittedFate
  simp only [han, ha, he]

/-- An include pattern and an exclude pattern stand in the text. -/
def Mixed (ts : List Token) : Prop :=
  (∃ t ∈ ts, t.isPattern ∧ t.action = .Include) ∧ ∃ t ∈ ts, t.isPattern ∧ t.action = .Exclude

/-- What a filter text promises: include and exclude patterns are not mixed, and a merge does with
each header what the tokens, in any order, select. -/
structure Honoured (input : String) : Prop where
  unmixed : Mixed (tokens input) → ∃ e, ClaimCheckFilter.parse regex_new input = .error e
  merged : ∀ f, ClaimCheckFilter.parse regex_new input = .ok f →
    ∀ ts, ts.Perm (tokens input) → ∀ exchange stashed name,
      (merge_stashed exchange stashed f).input.headers name =
        (selected regex_new ts name).headers (stashed.headers name) (exchange.input.headers name)

end

/-! ## The tokens in force -/

/-- The patterns after the last token about all headers. -/
def recent (hs : List Token) : List Token := hs.rtakeWhile (·.isPattern)

/-- The header tokens that are not forgotten: the patterns after the last token about all headers,
or, if there are none, that token. -/
def inForce (hs : List Token) : List Token :=
  if (recent hs).isEmpty then hs.getLast?.toList else recent hs

/-- Patterns that include and patterns that exclude with no token about all headers between
them. -/
def Clash (hs : List Token) : Prop := ∃ run, run <:+: hs ∧ (∀ t ∈ run, t.isPattern) ∧ Mixed run

section

variable {hs : List Token} {t : Token}

theorem recent_concat (h : t.isPattern) : recent (hs ++ [t]) = recent hs ++ [t] := by
  unfold recent
  rw [rtakeWhile_concat_pos _ _ _ h]

theorem recent_concat_of_not (h : ¬t.isPattern) : recent (hs ++ [t]) = [] := by
  unfold recent
  rw [rtakeWhile_concat_neg _ _ _ h]

theorem isPattern_of_mem_recent (h : t ∈ recent hs) : t.isPattern := by
  unfold recent at h
  induction hs using List.reverseRecOn with
  | nil => simp at h
  | append_singleton hs last ih =>
    rw [rtakeWhile_concat] at h
    split at h
    · rename_i hlast
      rcases mem_append.mp h with hm | hm
      · exact ih hm
      · rw [mem_singleton.mp hm]
        exact hlast
    · simp at h

theorem suffix_recent {run : List Token} (hsu : run <:+ hs) (hru : ∀ t ∈ run, t.isPattern) :
    run <:+ recent hs := by
  induction hs using List.reverseRecOn generalizing run with
  | nil =>
    rw [suffix_nil.mp hsu]
    exact List.nil_suffix
  | append_singleton hs last ih =>
    rcases suffix_concat_iff.mp hsu with rfl | ⟨run, rfl, hr⟩
    · exact List.nil_suffix
    · rw [recent_concat (hru last (by simp))]
      have hl := ih hr fun t ht => hru t (by simp [ht])
      exact suffix_concat_iff.mpr (.inr ⟨run, rfl, hl⟩)

theorem Mixed.mono {ts ts' : List Token} (h : Mixed ts) (hsu : ts ⊆ ts') : Mixed ts' := by
  obtain ⟨⟨a, ha, hi⟩, b, hb, he⟩ := h
  exact ⟨⟨a, hsu ha, hi⟩, b, hsu hb, he⟩

theorem not_mixed_recent (h : ¬Clash hs) : ¬Mixed (recent hs) := by
  intro hm
  have hsu : recent hs <:+ hs := List.rtakeWhile_suffix _ _
  exact h ⟨recent hs, hsu.isInfix, fun t ht => isPattern_of_mem_recent ht, hm⟩

theorem Clash.concat (h : Clash hs) : Clash (hs ++ [t]) := by
  obtain ⟨run, hi, hr⟩ := h
  exact ⟨run, hi.trans (prefix_append _ _).isInfix, hr⟩

theorem clash_concat_of_not (h : ¬t.isPattern) : Clash (hs ++ [t]) ↔ Clash hs := by
  constructor
  · rintro ⟨run, hi, hr, hm⟩
    rcases infix_concat_iff.mp hi with hsu | hi
    · have hl := suffix_recent hsu hr
      rw [recent_concat_of_not h, suffix_nil] at hl
      subst hl
      simp [Mixed] at hm
    · exact ⟨run, hi, hr, hm⟩
  · exact Clash.concat

theorem clash_concat (h : t.isPattern) :
    Clash (hs ++ [t]) ↔ Clash hs ∨ Mixed (recent hs ++ [t]) := by
  constructor
  · rintro ⟨run, hi, hr, hm⟩
    rcases infix_concat_iff.mp hi with hsu | hi
    · have hl := suffix_recent hsu hr
      rw [recent_concat h] at hl
      exact .inr (hm.mono hl.subset)
    · exact .inl ⟨run, hi, hr, hm⟩
  · rintro (hc | hm)
    · exact hc.concat
    · by_contra hn
      apply not_mixed_recent hn
      rwa [recent_concat h]

end

/-! ## What `parse` has read -/

section

variable (regex_new : List Char → Option (String → Bool))

def patternsOf (action : FilterAction) (hs : List Token) : List HeaderPattern :=
  hs.filterMap fun t => if t.action = action then t.pattern? regex_new else none

/-- The headers action that the tokens in force make up. -/
def standing (hs : List Token) : Option HeadersAction :=
  if (recent hs).isEmpty then hs.getLast?.map fun t => .All t.action
  else some (.ByPattern (patternsOf regex_new .Include (recent hs))
    (patternsOf regex_new .Exclude (recent hs)) (patternsOf regex_new .Remove (recent hs)))

variable {regex_new}

theorem patternsOf_append (action : FilterAction) (hs hs' : List Token) :
    patternsOf regex_new action (hs ++ hs') =
      patternsOf regex_new action hs ++ patternsOf regex_new action hs' :=
  filterMap_append

theorem Token.Legal.pattern {t : Token} (h : t.Legal regex_new) (hp : t.isPattern) :
    ∃ text pattern, t.rule = .Pattern text ∧
      HeaderPattern.compile regex_new text = .ok pattern ∧ t.pattern? regex_new = some pattern := by
  obtain ⟨action, rule⟩ := t
  cases rule with
  | Pattern text =>
    cases hc : HeaderPattern.compile regex_new text with
    | ok pattern =>
      refine ⟨text, pattern, rfl, hc, ?_⟩
      simp [Token.pattern?, hc, Except.toOption]
    | error e => simp [Token.Legal, hc, Except.isOk, Except.toBool] at h
  | Body | Headers | Attachments | Other text => cases hp

theorem patternsOf_eq_nil {action : FilterAction} {hs : List Token}
    (hl : ∀ t ∈ hs, t.Legal regex_new) (hpa : ∀ t ∈ hs, t.isPattern) :
    patternsOf regex_new action hs = [] ↔ ∀ t ∈ hs, t.action ≠ action := by
  unfold patternsOf
  rw [filterMap_eq_nil_iff]
  refine forall₂_congr fun t ht => ?_
  obtain ⟨text, pattern, -, -, hp⟩ := (hl t ht).pattern (hpa t ht)
  simp [hp]

/-- `s` is what `parse` knows after it has read `ts`. -/
structure Read (regex_new : List Char → Option (String → Bool)) (ts : List Token)
    (s : ParseState) : Prop where
  legal : ∀ t ∈ ts, t.Legal regex_new
  apart : ¬Clash (headerTokens ts)
  positive : s.has_positive_include = ts.any fun t => t.action = .Include && t.rule ≠ .Attachments
  standing : s.headers_action = standing regex_new (headerTokens ts)

section

variable {ts : List Token} {s : ParseState} {t : Token}

theorem headerTokens_concat (h : t.isHeader) :
    headerTokens (ts ++ [t]) = headerTokens ts ++ [t] := by
  simp [headerTokens, filter_append, h]

theorem headerTokens_concat_of_not (h : t.isHeader = false) :
    headerTokens (ts ++ [t]) = headerTokens ts := by
  simp [headerTokens, filter_append, h]

theorem Read.legal_concat (h : Read regex_new ts s) (hl : t.Legal regex_new) :
    ∀ t' ∈ ts ++ [t], t'.Legal regex_new := by
  intro t' ht'
  rcases mem_append.mp ht' with hm | hm
  · exact h.legal t' hm
  · rw [mem_singleton.mp hm]
    exact hl

theorem Read.legal_recent (h : Read regex_new ts s) :
    ∀ t ∈ recent (headerTokens ts), t.Legal regex_new := by
  intro t ht
  have hm : t ∈ headerTokens ts := (List.rtakeWhile_suffix _ _).subset ht
  exact h.legal t (mem_of_mem_filter hm)

theorem Read.other {s' : ParseState} (h : Read regex_new ts s) (hl : t.Legal regex_new)
    (ho : t.isHeader = false) (hh : s'.headers_action = s.headers_action)
    (hp : s'.has_positive_include =
      (s.has_positive_include || (t.action = .Include && t.rule ≠ .Attachments))) :
    Read regex_new (ts ++ [t]) s' := by
  refine ⟨h.legal_concat hl, ?_, ?_, ?_⟩
  · rw [headerTokens_concat_of_not ho]
    exact h.apart
  · rw [hp, h.positive, any_append]
    simp
  · rw [headerTokens_concat_of_not ho, hh, h.standing]

/-- A token about all headers takes the place of the header tokens before it. -/
theorem Read.whole (h : Read regex_new ts s) (hr : t.rule = .Headers) :
    Read regex_new (ts ++ [t]) { s with
      headers_action := some (.All t.action),
      has_positive_include := s.has_positive_include || t.action = .Include } := by
  have hp : ¬t.isPattern := by simp [Token.isPattern, hr]
  have hh : t.isHeader := by simp [Token.isHeader, hr]
  refine ⟨h.legal_concat (by simp [Token.Legal, hr]), ?_, ?_, ?_⟩
  · rw [headerTokens_concat hh, clash_concat_of_not hp]
    exact h.apart
  · simp only [h.positive, any_append]
    simp [hr]
  · rw [headerTokens_concat hh]
    simp [claim_check.standing, recent_concat_of_not hp]

/-- The patterns that `parse` goes on from are the recent ones. -/
theorem Read.patterns (h : Read regex_new ts s) :
    (match s.headers_action with
      | some (.ByPattern includes excludes removes) => (includes, excludes, removes)
      | _ => ([], [], [])) =
    (patternsOf regex_new .Include (recent (headerTokens ts)),
      patternsOf regex_new .Exclude (recent (headerTokens ts)),
      patternsOf regex_new .Remove (recent (headerTokens ts))) := by
  rw [h.standing]
  unfold claim_check.standing
  by_cases he : (recent (headerTokens ts)).isEmpty
  · rw [if_pos he, List.isEmpty_iff.mp he]
    cases (headerTokens ts).getLast? <;> rfl
  · rw [if_neg he]

theorem mixed_concat (run : List Token) (hp : t.isPattern) :
    Mixed (run ++ [t]) ↔ Mixed run ∨
      (t.action = .Include ∧ ∃ t' ∈ run, t'.isPattern ∧ t'.action = .Exclude) ∨
      (t.action = .Exclude ∧ ∃ t' ∈ run, t'.isPattern ∧ t'.action = .Include) := by
  cases ha : t.action <;> simp [Mixed, or_and_right, exists_or, hp, ha]
  all_goals tauto

theorem Read.patternsOf_ne_nil (h : Read regex_new ts s) (action : FilterAction) :
    patternsOf regex_new action (recent (headerTokens ts)) ≠ [] ↔
      ∃ t ∈ recent (headerTokens ts), t.isPattern ∧ t.action = action := by
  rw [Ne, patternsOf_eq_nil h.legal_recent fun t ht => isPattern_of_mem_recent ht]
  push Not
  constructor
  · rintro ⟨t, ht, ha⟩
    exact ⟨t, ht, isPattern_of_mem_recent ht, ha⟩
  · rintro ⟨t, ht, -, ha⟩
    exact ⟨t, ht, ha⟩

theorem Read.pattern (h : Read regex_new ts s) (hl : t.Legal regex_new)
    (hp : t.isPattern) (ha : ¬Mixed (recent (headerTokens ts) ++ [t])) :
    Read regex_new (ts ++ [t]) { s with
      headers_action := some (.ByPattern
        (patternsOf regex_new .Include (recent (headerTokens ts) ++ [t]))
        (patternsOf regex_new .Exclude (recent (headerTokens ts) ++ [t]))
        (patternsOf regex_new .Remove (recent (headerTokens ts) ++ [t]))),
      has_positive_include := s.has_positive_include || t.action = .Include } := by
  have hh : t.isHeader := by simp [Token.isHeader, hp]
  obtain ⟨text, pattern, hr, -, -⟩ := hl.pattern hp
  refine ⟨h.legal_concat hl, ?_, ?_, ?_⟩
  · rw [headerTokens_concat hh, clash_concat hp]
    rintro (hc | hm)
    · exact h.apart hc
    · exact ha hm
  · simp only [h.positive, any_append]
    simp [hr]
  · rw [headerTokens_concat hh]
    simp [claim_check.standing, recent_concat hp]

theorem Read.next_pattern (h : Read regex_new ts s) (hl : t.Legal regex_new)
    (hpa : t.isPattern) :
    match s.next regex_new t with
    | .ok s' => Read regex_new (ts ++ [t]) s'
    | .error _ => Mixed (recent (headerTokens ts) ++ [t]) := by
  obtain ⟨text, pattern, hru, hc, hp⟩ := hl.pattern hpa
  have hr := not_mixed_recent h.apart
  have hmi := mixed_concat (recent (headerTokens ts)) hpa
  rw [← h.patternsOf_ne_nil .Exclude, ← h.patternsOf_ne_nil .Include] at hmi
  have hj := h.pattern hl hpa
  simp only [patternsOf_append] at hj
  have ho : ∀ action, patternsOf regex_new action [t] =
      if t.action = action then [pattern] else [] := by
    intro action
    by_cases ha : t.action = action <;> simp [patternsOf, ha, hp]
  simp only [ho] at hj
  simp only [ParseState.next, hru, hc, h.patterns]
  cases ha : t.action with
  | Include =>
    simp only [ha, true_and, reduceCtorEq, false_and, or_false, hr, false_or] at hmi
    by_cases he : patternsOf regex_new .Exclude (recent (headerTokens ts)) = []
    · have hn := hj fun hm => hmi.mp hm he
      simpa [he, ha] using hn
    · simpa [he] using hmi.mpr he
  | Exclude =>
    simp only [ha, true_and, reduceCtorEq, false_and, false_or, hr] at hmi
    by_cases hi : patternsOf regex_new .Include (recent (headerTokens ts)) = []
    · have hn := hj fun hm => hmi.mp hm hi
      simpa [hi, ha] using hn
    · simpa [hi] using hmi.mpr hi
  | Remove =>
    simp only [ha, reduceCtorEq, false_and, or_false, hr, iff_false] at hmi
    simpa [ha] using hj hmi

theorem Read.next (h : Read regex_new ts s) (t : Token) :
    match s.next regex_new t with
    | .ok s' => Read regex_new (ts ++ [t]) s'
    | .error _ => ¬t.Legal regex_new ∨ Clash (headerTokens (ts ++ [t])) := by
  obtain ⟨action, rule⟩ := t
  cases rule with
  | Body | Attachments => exact h.other trivial rfl rfl (by simp)
  | Headers => exact h.whole rfl
  | Other text => exact .inl id
  | Pattern text =>
    by_cases hl : Token.Legal regex_new ⟨action, .Pattern text⟩
    · have hn := h.next_pattern hl rfl
      split
      · rename_i ho
        rw [ho] at hn
        exact hn
      · rename_i he
        rw [he] at hn
        rw [headerTokens_concat rfl, clash_concat rfl]
        exact .inr (.inr hn)
    · have hc : ∃ e, HeaderPattern.compile regex_new text = .error e := by
        cases hc : HeaderPattern.compile regex_new text with
        | ok pattern => exact absurd (by simp [Token.Legal, hc]; rfl) hl
        | error e => exact ⟨e, rfl⟩
      obtain ⟨e, hc⟩ := hc
      simp only [ParseState.next, hc]
      exact .inl hl

theorem read_spec (regex_new : List Char → Option (String → Bool)) (ts : List Token) :
    match ts.foldlM (ParseState.next regex_new) ⟨none, none, false⟩ with
    | .ok s => Read regex_new ts s
    | .error _ => (∃ t ∈ ts, ¬t.Legal regex_new) ∨ Clash (headerTokens ts) := by
  induction ts using List.reverseRecOn with
  | nil => exact ⟨by simp, by simp [Clash, headerTokens, Mixed], rfl, rfl⟩
  | append_singleton ts t ih =>
    rw [foldlM_append]
    cases hr : ts.foldlM (ParseState.next regex_new) ⟨none, none, false⟩ with
    | error e =>
      rw [hr] at ih
      rcases ih with ⟨t', ht', hi⟩ | hc
      · exact .inl ⟨t', mem_append_left _ ht', hi⟩
      · refine .inr ?_
        cases hh : t.isHeader with
        | true =>
          rw [headerTokens_concat hh]
          exact hc.concat
        | false => rwa [headerTokens_concat_of_not hh]
    | ok s =>
      rw [hr] at ih
      have hn := ih.next t
      simp only [foldlM_cons, foldlM_nil, Except.bind, bind]
      cases hst : s.next regex_new t with
      | ok s' =>
        rw [hst] at hn
        exact hn
      | error e =>
        rw [hst] at hn
        rcases hn with hi | hc
        · exact .inl ⟨t, by simp, hi⟩
        · exact .inr hc

end

/-! ## What a merge does -/

def HeadersAction.fate (name : String) : HeadersAction → Fate
  | .All .Include => .restored
  | .All .Exclude => .kept
  | .All .Remove => .removed
  | .ByPattern includes excludes removes =>
    if removes.any (·.matches name) then .removed
    else if includes.any (·.matches name) ||
      (!excludes.isEmpty && !excludes.any (·.matches name)) then .restored
    else .kept

theorem insert_if_spec (p : String → Bool) (stashed current : String → Option Value)
    (name : String) :
    insert_if p stashed current name =
      if p name then (stashed name).or (current name) else current name := by
  unfold insert_if
  cases hst : stashed name <;> cases hp : p name <;> simp

theorem merge_headers_spec (action : HeadersAction) (stashed current : String → Option Value)
    (name : String) :
    (merge_headers action stashed current).1 name =
      (action.fate name).headers (stashed name) (current name) := by
  cases action with
  | All action =>
    cases action with
    | Include => simp [merge_headers, HeadersAction.fate, Fate.headers, insert_if_spec]
    | Exclude | Remove => rfl
  | ByPattern includes excludes removes =>
    have hi : (if !includes.isEmpty then
          insert_if (fun k => includes.any (·.matches k)) stashed current
        else current) = insert_if (fun k => includes.any (·.matches k)) stashed current := by
      cases includes with
      | nil =>
        funext k
        simp [insert_if_spec]
      | cons pattern rest => rfl
    have hr : ∀ headers : String → Option Value, (if !removes.isEmpty then
          fun k => if removes.any (·.matches k) then none else headers k
        else headers) = fun k => if removes.any (·.matches k) then none else headers k := by
      intro headers
      cases removes with
      | nil => simp
      | cons pattern rest => rfl
    simp only [merge_headers, hi, hr, HeadersAction.fate]
    cases hre : removes.any (·.matches name) with
    | true => simp [Fate.headers]
    | false =>
      cases he : excludes.isEmpty <;> cases hin : includes.any (·.matches name) <;>
        cases hex : excludes.any (·.matches name) <;>
          simp [Fate.headers, insert_if_spec, hin, hex, ← Option.or_assoc]

@[simp] theorem merge_stashed_headers (exchange : Exchange) (stashed : Message)
    (filter : ClaimCheckFilter) :
    (merge_stashed exchange stashed filter).input.headers =
      (merge_headers filter.headers_action stashed.headers exchange.input.headers).1 := by
  unfold merge_stashed
  dsimp only
  split <;> rfl

theorem patternsOf_any (action : FilterAction) (hs : List Token) (name : String) :
    (patternsOf regex_new action hs).any (·.matches name) =
      hs.any fun t => t.action = action && t.covers regex_new name := by
  induction hs with
  | nil => rfl
  | cons t hs ih =>
    have hc : patternsOf regex_new action (t :: hs) =
        patternsOf regex_new action [t] ++ patternsOf regex_new action hs :=
      patternsOf_append action [t] hs
    rw [hc, any_append, ih, any_cons]
    congr 1
    by_cases ha : t.action = action
    · cases hp : t.pattern? regex_new <;> simp [patternsOf, Token.covers, ha, hp]
    · simp [patternsOf, ha]

theorem Read.fate {ts : List Token} {s : ParseState} (h : Read regex_new ts s) (name : String) :
    s.finish.headers_action.fate name =
      claim_check.fate regex_new (omittedFate ts) (inForce (headerTokens ts)) name := by
  unfold ParseState.finish inForce
  simp only [h.standing, claim_check.standing]
  by_cases he : (recent (headerTokens ts)).isEmpty
  · rw [if_pos he, if_pos he]
    cases hlast : (headerTokens ts).getLast? with
    | none =>
      simp only [Option.map_none, Option.getD_none, Option.toList_none, claim_check.fate,
        isEmpty_nil, if_true, omittedFate, h.positive]
      split <;> rfl
    | some t =>
      -- the last header token is about all headers
      have hm := mem_of_getLast? hlast
      have hh : t.isHeader := of_mem_filter hm
      have hp : ¬t.isPattern := by
        obtain ⟨rest, hr⟩ := getLast?_eq_some_iff.mp hlast
        intro hp
        rw [hr, recent_concat hp] at he
        simp at he
      have hru : t.rule = .Headers := by
        simpa [Token.isHeader, hp] using hh
      have hc : t.covers regex_new name = true := by
        simp [Token.covers, Token.pattern?, hru, HeaderPattern.matches]
      cases ha : t.action <;>
        simp [claim_check.fate, HeadersAction.fate, ha, hc]
  · have hex : (patternsOf regex_new .Exclude (recent (headerTokens ts))).isEmpty =
        !(recent (headerTokens ts)).any (·.action = .Exclude) := by
      rw [Bool.eq_iff_iff, List.isEmpty_iff,
        patternsOf_eq_nil h.legal_recent fun t ht => isPattern_of_mem_recent ht]
      simp
    rw [if_neg he, if_neg he]
    simp only [Option.getD_some, HeadersAction.fate, patternsOf_any, hex, Bool.not_not,
      claim_check.fate, he]
    simp

theorem Fate.eq_of_headers {f g : Fate}
    (h : ∀ stashed current, f.headers stashed current = g.headers stashed current) : f = g := by
  have hr := h (some .Null) none
  have hk := h none (some .Null)
  cases f <;> cases g <;> simp [Fate.headers] at hr hk ⊢

end

/-! ## Which filters keep their promise -/

section

variable (regex_new : List Char → Option (String → Bool)) (input : String)

theorem parse_fails_iff :
    (∃ e, ClaimCheckFilter.parse regex_new input = .error e) ↔
      (∃ t ∈ tokens input, ¬t.Legal regex_new) ∨ Clash (headerTokens (tokens input)) := by
  have hsp := read_spec regex_new (tokens input)
  unfold ClaimCheckFilter.parse
  cases hr : (tokens input).foldlM (ParseState.next regex_new) ⟨none, none, false⟩ with
  | ok s =>
    rw [hr] at hsp
    constructor
    · rintro ⟨e, he⟩
      cases he
    · rintro (⟨t, ht, hi⟩ | hc)
      · exact absurd (hsp.legal t ht) hi
      · exact absurd hc hsp.apart
  | error e =>
    rw [hr] at hsp
    exact ⟨fun _ => hsp, fun _ => ⟨e, rfl⟩⟩

theorem merge_of_parse {f : ClaimCheckFilter} (h : ClaimCheckFilter.parse regex_new input = .ok f)
    (exchange : Exchange) (stashed : Message) (name : String) :
    (merge_stashed exchange stashed f).input.headers name =
      (fate regex_new (omittedFate (tokens input)) (inForce (headerTokens (tokens input)))
        name).headers (stashed.headers name) (exchange.input.headers name) := by
  have hsp := read_spec regex_new (tokens input)
  unfold ClaimCheckFilter.parse at h
  cases hr : (tokens input).foldlM (ParseState.next regex_new) ⟨none, none, false⟩ with
  | ok s =>
    rw [hr] at hsp h
    cases h
    rw [merge_stashed_headers, merge_headers_spec, hsp.fate]
  | error e =>
    rw [hr] at h
    cases h

/-- A filter text keeps its promise exactly when it is refused, or when it mixes no patterns and
the header tokens that a token about all headers, or a pattern after one, makes `parse` forget
change nothing. -/
theorem filter_is_honoured_iff :
    Honoured regex_new input ↔
      (∃ t ∈ tokens input, ¬t.Legal regex_new) ∨ Clash (headerTokens (tokens input)) ∨
      (¬Mixed (tokens input) ∧ ∀ name,
        fate regex_new (omittedFate (tokens input)) (headerTokens (tokens input)) name =
          fate regex_new (omittedFate (tokens input)) (inForce (headerTokens (tokens input)))
            name) := by
  rw [← or_assoc, ← parse_fails_iff]
  cases hp : ClaimCheckFilter.parse regex_new input with
  | error e =>
    refine iff_of_true ⟨fun _ => ⟨e, hp⟩, ?_⟩ (.inl ⟨e, rfl⟩)
    intro f hf
    rw [hp] at hf
    cases hf
  | ok f =>
    have hm := merge_of_parse regex_new input hp
    constructor
    · rintro ⟨hu, hme⟩
      refine .inr ⟨fun hmi => ?_, fun name => ?_⟩
      · obtain ⟨e, he⟩ := hu hmi
        rw [hp] at he
        cases he
      · apply Fate.eq_of_headers
        intro stashed current
        have hse := hme f hp (tokens input) (.refl _)
          (.new ⟨fun _ => current, .Empty⟩) ⟨fun _ => stashed, .Empty⟩ name
        rw [hm] at hse
        exact hse.symm
    · rintro (⟨e, he⟩ | ⟨hmi, hsa⟩)
      · cases he
      · refine ⟨fun h => absurd h hmi, ?_⟩
        intro f' hf' ts ht exchange stashed name
        rw [hp] at hf'
        cases hf'
        rw [hm, selected_perm regex_new ht, selected, hsa]

/-- The token about all headers between the two patterns makes `parse` forget the first. -/
theorem a_forgotten_pattern_lets_both_in : ¬∀ regex_new input, Honoured regex_new input := by
  intro h
  have hm : Mixed (tokens "header:a,headers,-header:b") :=
    ⟨⟨⟨.Include, .Pattern ['a']⟩, by decide +kernel, rfl, rfl⟩,
      ⟨.Exclude, .Pattern ['b']⟩, by decide +kernel, rfl, rfl⟩
  obtain ⟨e, he⟩ := (h (fun _ => none) "header:a,headers,-header:b").unmixed hm
  have ho : (ClaimCheckFilter.parse (fun _ => none) "header:a,headers,-header:b").isOk = true := by
    decide +kernel
  rw [he] at ho
  cases ho

end

end camel_processor.claim_check
