-- A document that the lowering accepts has no request that two of its templates answer equally
-- well, so the matcher finds the one endpoint with the most literal segments.
import Mathlib.Data.List.Forall2
import RustCamel.Lib.Fallible
import RustCamel.Rest.Lowering
import RustCamel.Rest.Matching

open List

namespace camel_dsl.rest

open camel_api.error (CamelError)
open camel_component_http.rest_match (Binds Candidate Clear MatchResult Matches RestEndpoint
  WellNamed match_endpoint match_endpoint_cases mem_param_names request_segments try_match_binds
  try_match_isSome)
open Fallible (bind_eq_ok)

/-! ## The two template parsers -/

def to_matcher : PathSegment → camel_component_http.rest_match.PathSegment
  | .Literal text => .Literal text
  | .Param name => .Param name

theorem parse_segment_eq (seg : List Char) :
    camel_component_http.rest_match.parse_segment seg = to_matcher (parse_segment seg) := by
  unfold camel_component_http.rest_match.parse_segment parse_segment
  cases seg with
  | nil => rfl
  | cons c inner =>
    by_cases hc : c = '{'
    · subst hc
      have hlast : ('{' :: inner).getLast? = some '}' ↔ inner.getLast? = some '}' := by
        cases inner with
        | nil => simp
        | cons d inner => rw [getLast?_cons_cons]
      have hd : (('{' :: inner).take (('{' :: inner).length - 1)).drop 1 = inner.dropLast := by
        rw [dropLast_eq_take]
        cases inner with
        | nil | cons d inner => rfl
      simp only [camel_component_http.rest_match.braced, head?_cons, true_and, hlast, hd]
      by_cases hb : inner.getLast? = some '}'
      · simp only [if_pos hb]
        rfl
      · simp only [if_neg hb]
        rfl
    · have hbr : camel_component_http.rest_match.braced (c :: inner) = none := by
        unfold camel_component_http.rest_match.braced
        split
        · rename_i heq
          exact absurd (List.cons.inj heq).1 hc
        · rfl
      rw [hbr, if_neg (by simp [hc])]
      rfl

theorem parse_path_template_eq (path : String) :
    camel_component_http.rest_match.parse_path_template path =
      (parse_path_template path).map to_matcher := by
  unfold camel_component_http.rest_match.parse_path_template parse_path_template
  rw [map_map]
  exact map_congr_left fun seg _ => parse_segment_eq seg

theorem specificity_eq (segments : List PathSegment) :
    camel_component_http.rest_match.specificity (segments.map to_matcher) =
      template_specificity segments := by
  unfold camel_component_http.rest_match.specificity template_specificity
  rw [countP_map]
  refine countP_congr fun seg _ => ?_
  cases seg <;> rfl

/-! ## Ambiguous templates -/

theorem compatible_of_matches {request : List String} {a b : List PathSegment}
    (ha : Matches request (a.map to_matcher)) (hb : Matches request (b.map to_matcher)) :
    (a.zip b).all (fun (sa, sb) => compatible sa sb) = true := by
  induction request generalizing a b with
  | nil =>
    cases a with
    | nil => rfl
    | cons sa a => have := ha.length_eq; simp at this
  | cons req request ih =>
    cases a with
    | nil => rfl
    | cons sa a =>
      cases b with
      | nil => rfl
      | cons sb b =>
        simp only [zip_cons_cons, all_cons, Bool.and_eq_true]
        cases sa with
        | Literal x =>
          cases sb with
          | Literal y =>
            cases ha with
            | literal ha =>
              cases hb with
              | literal hb => exact ⟨by simp [compatible], ih ha hb⟩
          | Param y =>
            cases ha with
            | literal ha =>
              cases hb with
              | param hb => exact ⟨rfl, ih ha hb⟩
        | Param x =>
          cases ha with
          | param ha =>
            cases sb with
            | Literal y =>
              cases hb with
              | literal hb => exact ⟨rfl, ih ha hb⟩
            | Param y =>
              cases hb with
              | param hb => exact ⟨rfl, ih ha hb⟩

theorem templates_ambiguous_of_matches {request : List String} {a b : List PathSegment}
    (ha : Matches request (a.map to_matcher)) (hb : Matches request (b.map to_matcher))
    (hs : template_specificity a = template_specificity b) :
    templates_ambiguous a b = true := by
  have hlen : a.length = b.length := by
    have := ha.length_eq.symm.trans hb.length_eq
    simpa using this
  simp only [templates_ambiguous, Bool.and_eq_true, decide_eq_true_eq]
  exact ⟨⟨hlen, hs⟩, compatible_of_matches ha hb⟩

/-! ## The names of the parameters -/

theorem nodup_of_repeated_name {names seen : List String} (h : repeated_name seen names = none) :
    names.Nodup ∧ ∀ name ∈ names, name ∉ seen := by
  induction names generalizing seen with
  | nil => exact ⟨nodup_nil, fun _ hna => by cases hna⟩
  | cons name names ih =>
    rw [repeated_name] at h
    split at h
    · cases h
    · rename_i hf
      obtain ⟨hn, hd⟩ := ih h
      refine ⟨nodup_cons.mpr ⟨fun hm => hd name hm mem_cons_self, hn⟩, ?_⟩
      intro other ho
      rcases mem_cons.mp ho with rfl | ho
      · exact hf
      · exact fun hm => hd other ho (.tail _ hm)

theorem param_names_eq (segments : List PathSegment) :
    (segments.map to_matcher).filterMap camel_component_http.rest_match.param_name? =
      extract_param_names segments := by
  rw [filterMap_map]
  refine filterMap_congr fun seg _ => ?_
  cases seg <;> rfl

variable {full_path op_label : String}

theorem well_named_of_validate (h : validate_path_template full_path op_label = .ok ()) :
    WellNamed (camel_component_http.rest_match.parse_path_template full_path) := by
  rw [parse_path_template_eq]
  unfold validate_path_template at h
  dsimp only at h
  split at h
  · cases h
  · rename_i hg
    split at h
    · cases h
    · rename_i hn
      refine ⟨?_, ?_⟩
      · intro hm
        obtain ⟨seg, hs, he⟩ := mem_map.mp hm
        cases seg with
        | Literal text => cases he
        | Param name =>
          obtain rfl : name = "" := by simpa [to_matcher] using he
          exact hg (contains_iff_mem.mpr hs)
      · rw [param_names_eq]
        exact (nodup_of_repeated_name hn).1

/-! ## What the lowering has checked -/

section

variable {σ π : Type} {to_lowercase to_uppercase : String → String}

def Separate (a b : Registered) : Prop :=
  a.host = b.host → a.port = b.port → a.method = b.method →
    templates_ambiguous a.segments b.segments = false

/-- What holds of the routes so far and of what is registered for them. -/
structure Checked (to_lowercase to_uppercase : String → String)
    (ops : List (RouteDslRest σ π × RouteDslRestOperation σ)) (lowered : Lowered σ π) : Prop where
  registered_eq : lowered.registered = ops.map fun p => registered_entry to_uppercase p.1 p.2
  lowers : List.Forall₂ (fun p route =>
    lower_operation to_lowercase to_uppercase p.1 p.2.method p.2 = .ok route) ops lowered.routes
  separate : lowered.registered.Pairwise Separate

theorem separate_of_check {registered : List Registered} {entry : Registered}
    (h : check_registered registered entry op_label full_path = .ok ()) :
    ∀ r ∈ registered, Separate r entry := by
  unfold check_registered at h
  dsimp only at h
  split at h
  · cases h
  · split at h
    · cases h
    · rename_i hn
      intro r hr hh hp hm
      rw [← Bool.not_eq_true]
      intro ha
      refine hn (any_eq_true.mpr ⟨r, hr, ?_⟩)
      simp [hh, hp, hm, ha]

theorem Checked.snoc {ops : List (RouteDslRest σ π × RouteDslRestOperation σ)}
    {lowered : Lowered σ π} (h : Checked to_lowercase to_uppercase ops lowered)
    {rest : RouteDslRest σ π} {op : RouteDslRestOperation σ} {route : RouteDslRoute σ π}
    (hro : lower_operation to_lowercase to_uppercase rest op.method op = .ok route)
    (hc : check_registered lowered.registered (registered_entry to_uppercase rest op) op_label
      full_path = .ok ()) :
    Checked to_lowercase to_uppercase (ops ++ [(rest, op)])
      ⟨lowered.routes ++ [route],
        lowered.registered ++ [registered_entry to_uppercase rest op]⟩ := by
  refine ⟨?_, ?_, ?_⟩
  · simp only [h.registered_eq, map_append, map_cons, map_nil]
  · exact rel_append h.lowers (.cons hro .nil)
  · rw [pairwise_append]
    refine ⟨h.separate, pairwise_singleton _ _, ?_⟩
    intro r hr entry he
    rw [mem_singleton.mp he]
    exact separate_of_check hc r hr

theorem Checked.operations {rest : RouteDslRest σ π} {lowered' : Lowered σ π} :
    ∀ {rest_ops : List (RouteDslRestOperation σ)} {lowered : Lowered σ π}
      {ops : List (RouteDslRest σ π × RouteDslRestOperation σ)},
    Checked to_lowercase to_uppercase ops lowered →
    lowerOperations to_lowercase to_uppercase rest lowered rest_ops = .ok lowered' →
    Checked to_lowercase to_uppercase (ops ++ rest_ops.map (rest, ·)) lowered'
  | [], lowered, ops, hc, h => by
    obtain rfl : lowered = lowered' := by simpa [lowerOperations] using h
    simpa using hc
  | op :: rest_ops, lowered, ops, hc, h => by
    rw [lowerOperations] at h
    obtain ⟨route, hr, h⟩ := bind_eq_ok h
    obtain ⟨_, hch, h⟩ := bind_eq_ok h
    have hre := Checked.operations (hc.snoc hr hch) h
    rw [append_assoc] at hre
    exact hre

def operations_of (blocks : List (RouteDslRest σ π)) :
    List (RouteDslRest σ π × RouteDslRestOperation σ) :=
  blocks.flatMap fun rest => rest.operations.map (rest, ·)

theorem Checked.blocks {lowered' : Lowered σ π} : ∀ {blocks : List (RouteDslRest σ π)}
    {lowered : Lowered σ π} {ops : List (RouteDslRest σ π × RouteDslRestOperation σ)},
    Checked to_lowercase to_uppercase ops lowered →
    lowerBlocks to_lowercase to_uppercase lowered blocks = .ok lowered' →
    Checked to_lowercase to_uppercase (ops ++ operations_of blocks) lowered'
  | [], lowered, ops, hc, h => by
    obtain rfl : lowered = lowered' := by simpa [lowerBlocks] using h
    simpa [operations_of] using hc
  | rest :: blocks, lowered, ops, hc, h => by
    rw [lowerBlocks] at h
    obtain ⟨_, -, h⟩ := bind_eq_ok h
    obtain ⟨lowered₁, ho, h⟩ := bind_eq_ok h
    have hr := Checked.blocks (hc.operations ho) h
    rw [append_assoc] at hr
    exact hr

/-- An accepted document: every operation has its route, and no two templates of one listener
and one method are ambiguous. -/
theorem checked_of_lower_all {blocks : List (RouteDslRest σ π)}
    {routes : List (RouteDslRoute σ π)}
    (h : lower_all_rest_to_routes to_lowercase to_uppercase blocks = .ok routes) :
    ∃ registered,
      Checked to_lowercase to_uppercase (operations_of blocks) ⟨routes, registered⟩ := by
  unfold lower_all_rest_to_routes at h
  obtain ⟨lowered, hb, h⟩ := bind_eq_ok h
  obtain rfl : lowered.routes = routes := Except.ok.inj h
  have hs : Checked to_lowercase to_uppercase
      ([] : List (RouteDslRest σ π × RouteDslRestOperation σ)) ⟨[], []⟩ :=
    ⟨rfl, .nil, List.Pairwise.nil⟩
  exact ⟨lowered.registered, hs.blocks hb⟩

theorem well_named_of_lower_operation {rest : RouteDslRest σ π} {verb : String}
    {op : RouteDslRestOperation σ} {route : RouteDslRoute σ π}
    (h : lower_operation to_lowercase to_uppercase rest verb op = .ok route) :
    WellNamed (camel_component_http.rest_match.parse_path_template
      (build_full_path rest.path op.path)) := by
  unfold lower_operation at h
  dsimp only at h
  split at h
  · cases h
  split at h
  · cases h
  split at h
  · cases h
  obtain ⟨_, -, h⟩ := bind_eq_ok h
  obtain ⟨_, hp, -⟩ := bind_eq_ok h
  exact well_named_of_validate hp

/-! ## Dispatch -/

/-- The endpoint of a lowered operation, with its method in upper case and its parsed
template. -/
def endpoint_of (to_uppercase : String → String) (rest : RouteDslRest σ π)
    (op : RouteDslRestOperation σ) (route : RouteDslRoute σ π) :
    RestEndpoint (RouteDslRoute σ π) :=
  ⟨to_uppercase op.method,
    camel_component_http.rest_match.parse_path_template (build_full_path rest.path op.path), route⟩

def listener_endpoints (to_uppercase : String → String) (blocks : List (RouteDslRest σ π))
    (routes : List (RouteDslRoute σ π)) (host : String) (port : UInt16) :
    List (RestEndpoint (RouteDslRoute σ π)) :=
  (((operations_of blocks).zip routes).filter fun p => p.1.1.host = host ∧ p.1.1.port = port).map
    fun p => endpoint_of to_uppercase p.1.1 p.1.2 p.2

/-- No request of their method finds the two equally specific. -/
def Apart {α : Type} (a b : RestEndpoint α) : Prop :=
  a.method = b.method → ∀ request, Matches request a.segments → Matches request b.segments →
    camel_component_http.rest_match.specificity a.segments ≠
      camel_component_http.rest_match.specificity b.segments

theorem Apart.symm {α : Type} {a b : RestEndpoint α} (h : Apart a b) : Apart b a := by
  intro hm request hb ha
  exact (h hm.symm request ha hb).symm

theorem apart_of_separate {host : String} {port : UInt16}
    {a b : RouteDslRest σ π × RouteDslRestOperation σ} {ra rb : RouteDslRoute σ π}
    (h : Separate (registered_entry to_uppercase a.1 a.2) (registered_entry to_uppercase b.1 b.2))
    (ha : a.1.host = host ∧ a.1.port = port) (hb : b.1.host = host ∧ b.1.port = port) :
    Apart (endpoint_of to_uppercase a.1 a.2 ra) (endpoint_of to_uppercase b.1 b.2 rb) := by
  intro hm request hma hmb hs
  simp only [endpoint_of, parse_path_template_eq, specificity_eq] at hm hma hmb hs
  simp only [Separate, registered_entry] at h
  have hf := h (ha.1.trans hb.1.symm) (ha.2.trans hb.2.symm) hm
  rw [templates_ambiguous_of_matches hma hmb hs] at hf
  cases hf

theorem listener_endpoints_spec {blocks : List (RouteDslRest σ π)}
    {routes : List (RouteDslRoute σ π)} {registered : List Registered}
    (h : Checked to_lowercase to_uppercase (operations_of blocks) ⟨routes, registered⟩)
    (host : String) (port : UInt16) :
    (listener_endpoints to_uppercase blocks routes host port).Pairwise Apart ∧
      ∀ ep ∈ listener_endpoints to_uppercase blocks routes host port, WellNamed ep.segments := by
  have hl := forall₂_iff_zip.mp h.lowers
  have hf : ((operations_of blocks).zip routes).map Prod.fst = operations_of blocks :=
    map_fst_zip (Nat.le_of_eq hl.1)
  unfold listener_endpoints
  refine ⟨?_, ?_⟩
  · have hse := h.separate
    rw [h.registered_eq, pairwise_map, ← hf, pairwise_map] at hse
    rw [pairwise_map, pairwise_filter]
    refine hse.imp fun hs ha hb => ?_
    exact apart_of_separate hs (of_decide_eq_true ha) (of_decide_eq_true hb)
  · intro ep he
    obtain ⟨p, hm, rfl⟩ := mem_map.mp he
    have hr := hl.2 (mem_filter.mp hm).1
    have hn := well_named_of_lower_operation hr
    simp only [endpoint_of]
    exact hn

/-- Dispatch for an accepted document, in whatever order the endpoints of a listener are
registered: it is never ambiguous, it finds an endpoint exactly where a template of the method
matches, and then the one with the most literal segments. -/
theorem rest_dispatch_is_unambiguous (blocks : List (RouteDslRest σ π))
    (routes : List (RouteDslRoute σ π))
    (haccepted : lower_all_rest_to_routes to_lowercase to_uppercase blocks = .ok routes)
    (host : String) (port : UInt16) (endpoints : List (RestEndpoint (RouteDslRoute σ π)))
    (hregistered : endpoints.Perm (listener_endpoints to_uppercase blocks routes host port))
    (method path : String) :
    match_endpoint method path endpoints ≠ .Ambiguous ∧
      ((∃ result, match_endpoint method path endpoints = .Found result) ↔
        ∃ ep ∈ endpoints, ep.method = method ∧ Matches (request_segments path) ep.segments) ∧
      ∀ result, match_endpoint method path endpoints = .Found result →
        ∃ ep ∈ endpoints, result.payload = ep.payload ∧ ep.method = method ∧
          Matches (request_segments path) ep.segments ∧
          (∀ ep' ∈ endpoints, ep'.method = method → Matches (request_segments path) ep'.segments →
            ep' ≠ ep →
            camel_component_http.rest_match.specificity ep'.segments <
              camel_component_http.rest_match.specificity ep.segments) ∧
          Binds result.path_params (request_segments path) ep.segments := by
  obtain ⟨registered, hc⟩ := checked_of_lower_all haccepted
  generalize hr : request_segments path = request
  obtain ⟨hp, hn⟩ := listener_endpoints_spec hc host port
  have hap : endpoints.Pairwise Apart := (hregistered.pairwise_iff fun h => h.symm).mpr hp
  have hna (ep : RestEndpoint (RouteDslRoute σ π)) (he : ep ∈ endpoints) : WellNamed ep.segments :=
    hn ep (hregistered.mem_iff.mp he)
  have hca (ep : RestEndpoint (RouteDslRoute σ π)) (he : ep ∈ endpoints) :
      Candidate method request ep ↔ ep.method = method ∧ Matches request ep.segments := by
    rw [Candidate, try_match_isSome (hna ep he)]
  have hcl : Clear method request endpoints := by
    intro i j a b hi hj hne ha hb
    have ha' := (hca a (mem_of_getElem? hi)).mp ha
    have hb' := (hca b (mem_of_getElem? hj)).mp hb
    have hab : Apart a b := by
      obtain ⟨hi', rfl⟩ := List.getElem?_eq_some_iff.mp hi
      obtain ⟨hj', rfl⟩ := List.getElem?_eq_some_iff.mp hj
      rcases Nat.lt_or_gt_of_ne hne with hl | hl
      · exact pairwise_iff_getElem.mp hap i j hi' hj' hl
      · exact (pairwise_iff_getElem.mp hap j i hj' hi' hl).symm
    exact hab (ha'.1.trans hb'.1.symm) request ha'.2 hb'.2
  rcases match_endpoint_cases hr hcl with
    ⟨hno, hnot⟩ | ⟨idx, ep, params, hf, hid, hm, hma, ho⟩
  · rw [hno]
    refine ⟨?_, ⟨?_, ?_⟩, ?_⟩
    · intro h
      cases h
    · rintro ⟨_, h⟩
      cases h
    · rintro ⟨ep, he, hmat⟩
      exact absurd ((hca ep he).mpr hmat) (hnot ep he)
    · intro _ h
      cases h
  · have he := mem_of_getElem? hid
    have hmat : Matches request ep.segments := by
      rw [← try_match_isSome (hna ep he), hma]
      rfl
    rw [hf]
    refine ⟨(fun h => by cases h), ⟨fun _ => ⟨ep, he, hm, hmat⟩, fun _ => ⟨_, rfl⟩⟩, ?_⟩
    intro result hre
    obtain rfl : (⟨ep.payload, params⟩ : MatchResult (RouteDslRoute σ π)) = result := by
      simpa using hre
    refine ⟨ep, he, rfl, hm, hmat, ?_, try_match_binds (hna ep he) hma⟩
    intro ep' he' hm' hmat' hne
    obtain ⟨j, hj⟩ := mem_iff_getElem?.mp he'
    refine ho j ep' hj ((hca ep' he').mpr ⟨hm', hmat'⟩) ?_
    rintro rfl
    exact hne (Option.some.inj (hj.symm.trans hid))

end

def ascii_lowercase (s : String) : String := .ofList (s.toList.map Char.toLower)

def ascii_uppercase (s : String) : String := .ofList (s.toList.map Char.toUpper)

/-- A `get` operation with this id. -/
def user_operation (id path : String) : RouteDslRestOperation Unit where
  method := "get"
  path := path
  operation_id := some id
  «to» := some "bean:users"
  steps := []
  consumes := "application/json"
  produces := "application/json"
  binding := none
  success_status := none
  request_schema := none
  response := none

def user_blocks : List (RouteDslRest Unit Unit) :=
  [⟨"0.0.0.0", 8080, "/users", none, [user_operation "getUser" "/\x7bid\x7d"]⟩,
    ⟨"0.0.0.0", 8080, "/users/", none, [user_operation "getMe" "me"]⟩]

def user_routes : List (RouteDslRoute Unit Unit) :=
  match lower_all_rest_to_routes ascii_lowercase ascii_uppercase user_blocks with
  | .ok routes => routes
  | .error _ => []

def user_endpoints : List (RestEndpoint (RouteDslRoute Unit Unit)) :=
  (listener_endpoints ascii_uppercase user_blocks user_routes "0.0.0.0" 8080).reverse

theorem users_me_is_dispatched :
    lower_all_rest_to_routes ascii_lowercase ascii_uppercase user_blocks = .ok user_routes ∧
      match_endpoint "GET" "/users/me" user_endpoints ≠ .Ambiguous ∧
      ∃ result, match_endpoint "GET" "/users/me" user_endpoints = .Found result ∧
        result.payload.id = "getMe" := by
  have ha : lower_all_rest_to_routes ascii_lowercase ascii_uppercase user_blocks =
      .ok user_routes := by rfl
  have hd := rest_dispatch_is_unambiguous user_blocks user_routes ha "0.0.0.0" 8080
    user_endpoints (reverse_perm _) "GET" "/users/me"
  exact ⟨ha, hd.1, _, rfl, rfl⟩

end camel_dsl.rest
