-- The matcher of REST requests in `camel-http/src/rest_match.rs`. The most specific template
-- wins, and two that are equally specific are reported.
import Mathlib.Data.String.Basic
import RustCamel.Lib.OrdMap

open List OrdMap

namespace camel_component_http.rest_match

/-! ## Templates -/

inductive PathSegment where
  | Literal (text : String)
  | Param (name : String)

def path_parts (path : String) : List (List Char) :=
  ((path.toList.dropWhile (· = '/')).splitOn '/').filter fun s => !s.isEmpty

/-- What stands between a leading and a trailing brace. -/
def braced : List Char → Option (List Char)
  | '{' :: s => if s.getLast? = some '}' then some s.dropLast else none
  | _ => none

def parse_segment (seg : List Char) : PathSegment :=
  match braced seg with
  | some inner => .Param (.ofList inner)
  | none => .Literal (.ofList seg)

def parse_path_template (template : String) : List PathSegment :=
  (path_parts template).map parse_segment

/-! ## Endpoints -/

structure RestEndpoint (α : Type) where
  method : String
  segments : List PathSegment
  payload : α

structure MatchResult (α : Type) where
  payload : α
  path_params : OrdMap String String

inductive MatchOutcome (α : Type) where
  | Found (result : MatchResult α)
  | NotFound
  | Ambiguous

/-- The loop of `try_match` over the segments side by side. -/
def matchLoop (params : OrdMap String String) :
    List (String × PathSegment) → Option (OrdMap String String)
  | [] => some params
  | (req, .Literal lit) :: rest => if req = lit then matchLoop params rest else none
  | (req, .Param name) :: rest =>
    if name.isEmpty then none else matchLoop (params.insert name req) rest

def try_match (request : List String) (template : List PathSegment) :
    Option (OrdMap String String) :=
  if request.length = template.length then matchLoop .empty (request.zip template) else none

def is_literal : PathSegment → Bool
  | .Literal _ => true
  | .Param _ => false

def specificity (segments : List PathSegment) : Nat := segments.countP is_literal

/-- The best endpoint so far: how specific it is, where it stands and what it captured, and
whether another one is as specific. -/
structure Best where
  best : Option (Nat × Nat × OrdMap String String)
  ambiguous : Bool

/-- One round of `match_endpoint`. -/
def Best.consider {α : Type} (b : Best) (method : String) (request : List String) (idx : Nat)
    (ep : RestEndpoint α) : Best :=
  if ep.method ≠ method then b
  else
    match try_match request ep.segments with
    | none => b
    | some params =>
      match b.best with
      | none => ⟨some (specificity ep.segments, idx, params), false⟩
      | some (prev, best_index, _) =>
        if prev < specificity ep.segments then
          ⟨some (specificity ep.segments, idx, params), false⟩
        else if specificity ep.segments = prev then
          if best_index = idx then b else { b with ambiguous := true }
        else b

def bestLoop {α : Type} (method : String) (request : List String) :
    Nat → Best → List (RestEndpoint α) → Best
  | _, b, [] => b
  | idx, b, ep :: eps => bestLoop method request (idx + 1) (b.consider method request idx ep) eps

def request_segments (path : String) : List String := (path_parts path).map String.ofList

def match_endpoint {α : Type} (method path : String) (endpoints : List (RestEndpoint α)) :
    MatchOutcome α :=
  let request := request_segments path
  let b := bestLoop method request 0 ⟨none, false⟩ endpoints
  if b.ambiguous then .Ambiguous
  else
    match b.best with
    | none => .NotFound
    | some (_, idx, params) =>
      match endpoints[idx]? with
      | some ep => .Found ⟨ep.payload, params⟩
      | none => .NotFound

/-! ## One template -/

/-- A template matches segment by segment: a literal its own text, a parameter anything. -/
inductive Matches : List String → List PathSegment → Prop
  | nil : Matches [] []
  | literal {text : String} {request : List String} {template : List PathSegment} :
      Matches request template → Matches (text :: request) (.Literal text :: template)
  | param {req name : String} {request : List String} {template : List PathSegment} :
      Matches request template → Matches (req :: request) (.Param name :: template)

variable {template : List PathSegment} {params : OrdMap String String} {ambiguous : Bool} {j : Nat}

theorem Matches.length_eq {request : List String} (h : Matches request template) :
    request.length = template.length := by
  induction h with
  | nil => rfl
  | literal _ ih | param _ ih => simp only [length_cons, ih]

/-- The parameters are bound to the segments of the request, and to nothing else. -/
def Binds (params : OrdMap String String) (request : List String) (template : List PathSegment) :
    Prop :=
  (∀ (i : Nat) (name : String), template[i]? = some (.Param name) → params.get name = request[i]?) ∧
    ∀ name, .Param name ∉ template → params.get name = none

def param_name? : PathSegment → Option String
  | .Literal _ => none
  | .Param name => some name

/-- The names of the parameters are given, and each stands once. -/
structure WellNamed (template : List PathSegment) : Prop where
  given : .Param "" ∉ template
  distinct : (template.filterMap param_name?).Nodup

theorem WellNamed.tail {seg : PathSegment} (h : WellNamed (seg :: template)) :
    WellNamed template := by
  refine ⟨fun hm => h.given (.tail _ hm), ?_⟩
  have hd := h.distinct
  cases seg with
  | Literal text => exact hd
  | Param name => exact (nodup_cons.mp hd).2

theorem mem_param_names {name : String} :
    name ∈ template.filterMap param_name? ↔ .Param name ∈ template := by
  rw [mem_filterMap]
  constructor
  · rintro ⟨seg, hs, hn⟩
    cases seg with
    | Literal text => cases hn
    | Param name' =>
      obtain rfl : name' = name := by simpa [param_name?] using hn
      exact hs
  · intro h
    exact ⟨_, h, rfl⟩

section

variable (hnames : WellNamed template) {request : List String}

include hnames

theorem matchLoop_isSome (hlen : request.length = template.length) (params : OrdMap String String) :
    (matchLoop params (request.zip template)).isSome = true ↔ Matches request template := by
  induction template generalizing request params with
  | nil =>
    obtain rfl : request = [] := eq_nil_of_length_eq_zero hlen
    exact ⟨fun _ => .nil, fun _ => rfl⟩
  | cons seg template ih =>
    cases request with
    | nil => cases hlen
    | cons req request =>
      have hl' : request.length = template.length := by simpa using hlen
      cases seg with
      | Literal text =>
        simp only [zip_cons_cons, matchLoop]
        by_cases hr : req = text
        · subst hr
          rw [if_pos rfl, ih hnames.tail hl']
          exact ⟨.literal, fun h => by cases h; assumption⟩
        · rw [if_neg hr]
          constructor
          · intro h
            cases h
          · intro h
            cases h
            exact absurd rfl hr
      | Param name =>
        have hn : name.isEmpty = false := by
          rw [← Bool.not_eq_true, String.isEmpty_iff]
          rintro rfl
          exact hnames.given mem_cons_self
        simp only [zip_cons_cons, matchLoop, hn, Bool.false_eq_true, if_false]
        rw [ih hnames.tail hl']
        exact ⟨.param, fun h => by cases h; assumption⟩

theorem matchLoop_get {bound : OrdMap String String} (hlen : request.length = template.length)
    (h : matchLoop params (request.zip template) = some bound) :
    (∀ (i : Nat) (name : String), template[i]? = some (.Param name) →
        bound.get name = request[i]?) ∧
      ∀ name, .Param name ∉ template → bound.get name = params.get name := by
  induction template generalizing request params with
  | nil =>
    obtain rfl : request = [] := eq_nil_of_length_eq_zero hlen
    obtain rfl : params = bound := by simpa [matchLoop] using h
    exact ⟨fun i name hi => by simp at hi, fun _ _ => rfl⟩
  | cons seg template ih =>
    cases request with
    | nil => cases hlen
    | cons req request =>
      have hl' : request.length = template.length := by simpa using hlen
      cases seg with
      | Literal text =>
        simp only [zip_cons_cons, matchLoop] at h
        split at h
        · obtain ⟨hbound, ho⟩ := ih hnames.tail hl' h
          refine ⟨?_, fun name hn => ho name fun hm =>
            hn (.tail _ hm)⟩
          intro i name hi
          cases i with
          | zero => simp at hi
          | succ i => exact hbound i name hi
        · cases h
      | Param first =>
        simp only [zip_cons_cons, matchLoop] at h
        split at h
        · cases h
        · obtain ⟨hbound, ho⟩ := ih hnames.tail hl' h
          have hf : .Param first ∉ template := by
            rw [← mem_param_names]
            exact (nodup_cons.mp hnames.distinct).1
          refine ⟨?_, ?_⟩
          · intro i name hi
            cases i with
            | zero =>
              obtain rfl : first = name := by simpa using hi
              rw [ho first hf, get_insert_self]
              rfl
            | succ i => exact hbound i name hi
          · intro name hn
            have hne : name ≠ first := by
              rintro rfl
              exact hn mem_cons_self
            rw [ho name fun hm => hn (.tail _ hm), get_insert_of_ne _ _ hne]

theorem try_match_isSome :
    (try_match request template).isSome = true ↔ Matches request template := by
  unfold try_match
  by_cases hlen : request.length = template.length
  · rw [if_pos hlen]
    exact matchLoop_isSome hnames hlen .empty
  · rw [if_neg hlen]
    constructor
    · intro h
      cases h
    · intro h
      exact absurd h.length_eq hlen

theorem try_match_binds (h : try_match request template = some params) :
    Binds params request template := by
  unfold try_match at h
  split at h
  · rename_i hlen
    obtain ⟨hbound, ho⟩ := matchLoop_get hnames hlen h
    exact ⟨hbound, fun name hn => by rw [ho name hn, get_empty]⟩
  · cases h

end

/-! ## The best endpoint -/

section

variable {α : Type} {method : String} {request : List String} {done : List (RestEndpoint α)}
  {ep : RestEndpoint α} {ep' : RestEndpoint α}

/-- The endpoint has the method, and its template captures the request. -/
def Candidate (method : String) (request : List String) (ep : RestEndpoint α) : Prop :=
  ep.method = method ∧ (try_match request ep.segments).isSome = true

structure Winner (method : String) (request : List String) (done : List (RestEndpoint α))
    (ambiguous : Bool) (best idx : Nat) (params : OrdMap String String) : Prop where
  at_idx : ∃ ep, done[idx]? = some ep ∧ ep.method = method ∧
    try_match request ep.segments = some params ∧ best = specificity ep.segments
  others : ∀ (j : Nat) (ep : RestEndpoint α), done[j]? = some ep → Candidate method request ep →
    specificity ep.segments ≤ best ∧ (ambiguous = false → j ≠ idx → specificity ep.segments < best)
  tie : ambiguous = true → ∃ (j : Nat) (ep : RestEndpoint α), j ≠ idx ∧ done[j]? = some ep ∧
    Candidate method request ep ∧ specificity ep.segments = best

/-- What the state of the loop says of the endpoints that were considered. -/
def Summary (method : String) (request : List String) (done : List (RestEndpoint α)) (b : Best) :
    Prop :=
  match b.best with
  | none => b.ambiguous = false ∧ ∀ ep ∈ done, ¬Candidate method request ep
  | some (best, idx, params) => Winner method request done b.ambiguous best idx params

theorem getElem?_concat_cases (h : (done ++ [ep])[j]? = some ep') :
    done[j]? = some ep' ∨ (j = done.length ∧ ep' = ep) := by
  rcases Nat.lt_trichotomy j done.length with hl | rfl | hg
  · rw [getElem?_append_left hl] at h
    exact .inl h
  · exact .inr ⟨rfl, by simpa using h.symm⟩
  · rw [getElem?_eq_none (by simp; omega)] at h
    cases h

theorem getElem?_concat_of (h : done[j]? = some ep') : (done ++ [ep])[j]? = some ep' := by
  rw [getElem?_append_left (List.getElem?_eq_some_iff.mp h).1, h]

/-- A winner stays one beside an endpoint that is less specific, or no candidate. -/
theorem Winner.keep {best idx : Nat} (h : Winner method request done ambiguous best idx params)
    (he : Candidate method request ep → specificity ep.segments < best) :
    Winner method request (done ++ [ep]) ambiguous best idx params := by
  obtain ⟨⟨winner, hi, hr⟩, ho, ht⟩ := h
  refine ⟨⟨winner, getElem?_concat_of hi, hr⟩, ?_, ?_⟩
  · intro j ep' hj hc
    rcases getElem?_concat_cases hj with hj | ⟨-, rfl⟩
    · exact ho j ep' hj hc
    · exact ⟨Nat.le_of_lt (he hc), fun _ _ => he hc⟩
  · intro ha
    obtain ⟨j, ep', hn, hj, hc, heq⟩ := ht ha
    exact ⟨j, ep', hn, getElem?_concat_of hj, hc, heq⟩

theorem Winner.tied {best idx : Nat} (h : Winner method request done ambiguous best idx params)
    (he : Candidate method request ep) (heq : specificity ep.segments = best) :
    idx ≠ done.length ∧ Winner method request (done ++ [ep]) true best idx params := by
  obtain ⟨⟨winner, hi, hr⟩, ho, -⟩ := h
  have hn : idx ≠ done.length := Nat.ne_of_lt (List.getElem?_eq_some_iff.mp hi).1
  refine ⟨hn, ⟨winner, getElem?_concat_of hi, hr⟩, ?_, ?_⟩
  · intro j ep' hj hc
    rcases getElem?_concat_cases hj with hj | ⟨-, rfl⟩
    · exact ⟨(ho j ep' hj hc).1, by simp⟩
    · exact ⟨Nat.le_of_eq heq, by simp⟩
  · intro _
    exact ⟨done.length, ep, hn.symm, by simp, he, heq⟩

theorem winner_new (hm : ep.method = method)
    (hma : try_match request ep.segments = some params)
    (hd : ∀ ep' ∈ done, Candidate method request ep' →
      specificity ep'.segments < specificity ep.segments) :
    Winner method request (done ++ [ep]) false (specificity ep.segments) done.length params := by
  refine ⟨⟨ep, by simp, hm, hma, rfl⟩, ?_, by simp⟩
  intro j ep' hj hc
  rcases getElem?_concat_cases hj with hj | ⟨rfl, rfl⟩
  · have hl := hd ep' (mem_of_getElem? hj) hc
    exact ⟨Nat.le_of_lt hl, fun _ _ => hl⟩
  · exact ⟨Nat.le_refl _, fun _ hn => absurd rfl hn⟩

theorem Summary.consider {done : List (RestEndpoint α)} {b : Best}
    (h : Summary method request done b) (ep : RestEndpoint α) :
    Summary method request (done ++ [ep]) (b.consider method request done.length ep) := by
  have hs (hnot : ¬Candidate method request ep) : Summary method request (done ++ [ep]) b := by
    unfold Summary at h ⊢
    split at h
    · refine ⟨h.1, ?_⟩
      intro ep' he'
      rcases mem_append.mp he' with he' | he'
      · exact h.2 ep' he'
      · rwa [mem_singleton.mp he']
    · exact h.keep fun hc => absurd hc hnot
  unfold Best.consider
  by_cases hm : ep.method = method
  · rw [if_neg (not_not_intro hm)]
    cases hma : try_match request ep.segments with
    | none => exact hs fun hc => by simp [Candidate, hma] at hc
    | some params =>
      have hc : Candidate method request ep := ⟨hm, by simp [hma]⟩
      cases hb : b.best with
      | none =>
        simp only [Summary, hb] at h
        exact winner_new hm hma fun ep' he' hc' =>
          absurd hc' (h.2 ep' he')
      | some found =>
        obtain ⟨prev, idx, captured⟩ := found
        simp only [Summary, hb] at h
        dsimp only
        by_cases hmo : prev < specificity ep.segments
        · rw [if_pos hmo]
          refine winner_new hm hma fun ep' he' hc' => ?_
          obtain ⟨j, hj⟩ := mem_iff_getElem?.mp he'
          exact Nat.lt_of_le_of_lt (h.others j ep' hj hc').1 hmo
        rw [if_neg hmo]
        by_cases hsa : specificity ep.segments = prev
        · obtain ⟨hn, ht⟩ := h.tied hc hsa
          rw [if_pos hsa, if_neg hn]
          simpa only [Summary, hb] using ht
        · rw [if_neg hsa]
          simp only [Summary, hb]
          exact h.keep fun _ => by omega
  · rw [if_pos hm]
    exact hs fun hc => hm hc.1

theorem Summary.run {eps : List (RestEndpoint α)} {b : Best} (h : Summary method request done b) :
    Summary method request (done ++ eps) (bestLoop method request done.length b eps) := by
  induction eps generalizing done b with
  | nil => simpa [bestLoop] using h
  | cons ep eps ih =>
    have hn := ih (h.consider ep)
    rw [append_assoc] at hn
    simpa [bestLoop] using hn

/-- No two endpoints that match the request are equally specific. -/
def Clear (method : String) (request : List String) (endpoints : List (RestEndpoint α)) : Prop :=
  ∀ (i j : Nat) (a b : RestEndpoint α), endpoints[i]? = some a → endpoints[j]? = some b → i ≠ j →
    Candidate method request a → Candidate method request b →
    specificity a.segments ≠ specificity b.segments

/-- Where no two are equally specific, the matcher finds the most specific one. -/
theorem match_endpoint_cases {endpoints : List (RestEndpoint α)} {path : String}
    (hr : request_segments path = request)
    (hcl : Clear method request endpoints) :
    (match_endpoint method path endpoints = .NotFound ∧
        ∀ ep ∈ endpoints, ¬Candidate method request ep) ∨
      ∃ idx ep params, match_endpoint method path endpoints = .Found ⟨ep.payload, params⟩ ∧
        endpoints[idx]? = some ep ∧ ep.method = method ∧
        try_match request ep.segments = some params ∧
        ∀ (j : Nat) (ep' : RestEndpoint α), endpoints[j]? = some ep' →
          Candidate method request ep' → j ≠ idx →
          specificity ep'.segments < specificity ep.segments := by
  have hs : Summary method request ([] : List (RestEndpoint α)) ⟨none, false⟩ :=
    ⟨rfl, fun _ he => by cases he⟩
  have hsu : Summary method request endpoints
      (bestLoop method request 0 ⟨none, false⟩ endpoints) := hs.run
  unfold match_endpoint
  simp only [hr]
  unfold Summary at hsu
  cases hb : (bestLoop method request 0 ⟨none, false⟩ endpoints).best with
  | none =>
    simp only [hb] at hsu
    simp only [hsu.1]
    exact .inl ⟨rfl, hsu.2⟩
  | some found =>
    obtain ⟨best, idx, params⟩ := found
    simp only [hb] at hsu
    obtain ⟨⟨ep, hi, hm, hma, rfl⟩, ho, hti⟩ := hsu
    have hf : (bestLoop method request 0 ⟨none, false⟩ endpoints).ambiguous = false := by
      rw [← Bool.not_eq_true]
      intro ht
      obtain ⟨j, ep', hn, hj, hc, heq⟩ := hti ht
      exact hcl j idx ep' ep hj hi hn hc ⟨hm, by simp [hma]⟩ heq
    simp only [hf, hi]
    exact .inr ⟨idx, ep, params, rfl, hi, hm, hma,
      fun j ep' hj hc hn => (ho j ep' hj hc).2 hf hn⟩

end

end camel_component_http.rest_match
