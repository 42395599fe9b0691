-- The startup checks of `startup_validation.rs`, and the scan of the route definitions for
-- the URIs they declare. The scan does not look under a `DoTry` or a `Cache` step.
import RustCamel.Lib.Walk
import RustCamel.Endpoint.Uri
import RustCamel.Lifecycle.CanonicalRoute

open List Option

namespace camel_core.startup_validation

open camel_core.lifecycle (BuilderStep RouteDefinition Outcome Fault WhenStep DeclarativeWhenStep
  DoTryCatchClauseBuilder DoTryCatchClause)
open camel_api.error (CamelError)
open camel_endpoint.uri

/-! ## The checks -/

/-- A check, with the verdict that `run` gives. -/
structure ConfigCheck where
  name : String
  description : String
  run : Except CamelError Unit

structure StartupValidationReport where
  failures : List String

def StartupValidationReport.is_ok (report : StartupValidationReport) : Bool :=
  report.failures.isEmpty

/-- What a failed check adds to the report. -/
def ConfigCheck.failure (check : ConfigCheck) : Option String :=
  match check.run with
  | .ok () => none
  | .error e => some s!"{check.name}: {e.to_string}"

def run_startup_validation (checks : List ConfigCheck) :
    Except CamelError StartupValidationReport :=
  let report : StartupValidationReport := ⟨checks.filterMap ConfigCheck.failure⟩
  if !report.is_ok then .error (.Config ("; ".intercalate report.failures))
  else .ok report

structure SqlDynamicQueryCheck where
  use_message_body_for_sql : Bool
  allow_dynamic_query : Bool

def SqlDynamicQueryCheck.run (check : SqlDynamicQueryCheck) : Except CamelError Unit :=
  if check.use_message_body_for_sql && !check.allow_dynamic_query then
    .error (.ConfigValidation
      "SQL use_message_body_for_sql requires allow_dynamic_query=true")
  else .ok ()

/-! ## The scan -/

mutual

/-- The URIs that the walk of one step calls `f` with, in order. -/
def for_each_step_uri : BuilderStep → List String
  | .To uri | .LayeredTo uri => [uri]
  | .WireTap uri | .Enrich uri _ _ => [uri]
  | .PollEnrich uri _ _ => [uri]
  | .Filter steps | .DeclarativeFilter _ steps | .Split _ steps
  | .DeclarativeSplit _ _ _ _ _ _ steps | .DeclarativeStreamSplit _ _ _ steps
  | .StreamSplit _ _ steps | .Multicast steps | .Throttle steps | .LoadBalance steps
  | .Loop steps | .DeclarativeLoop _ _ steps _ | .IdempotentConsumer _ _ steps _ _
  | .Layered steps => step_uris steps
  | .Choice whens otherwise => when_uris whens ++ optional_uris otherwise
  | .DeclarativeChoice whens otherwise => declarative_when_uris whens ++ optional_uris otherwise
  | .DeclarativeDoTry try_steps clauses finally_steps =>
    step_uris try_steps ++ clause_uris clauses ++ optional_uris finally_steps
  | _ => []

def step_uris : List BuilderStep → List String
  | [] => []
  | s :: steps => for_each_step_uri s ++ step_uris steps

def optional_uris : Option (List BuilderStep) → List String
  | none => []
  | some steps => step_uris steps

def when_uris : List WhenStep → List String
  | [] => []
  | .mk steps :: whens => step_uris steps ++ when_uris whens

def declarative_when_uris : List DeclarativeWhenStep → List String
  | [] => []
  | .mk _ steps :: whens => step_uris steps ++ declarative_when_uris whens

def clause_uris : List DoTryCatchClauseBuilder → List String
  | [] => []
  | .mk _ steps :: clauses => step_uris steps ++ clause_uris clauses

end

/-- A parameter as the scan reads it: a value that is no boolean counts as absent. -/
def flag (parts : UriComponents) (key : String) : Bool :=
  match parts.get key with
  | none => false
  | some v =>
    match parse_bool_param v with
    | .ok b => b
    | .error _ => false

/-- An error of the parser is ignored, and a panic goes on. -/
def parsed (uri : String) : Outcome Empty (Option UriComponents) :=
  match parse_uri uri with
  | .ok parts => .ok (some parts)
  | .error (.err _) => .ok none
  | .error .panic => .error .panic

def collect_sql_checks_for_uri (uri : String) : Outcome Empty (List SqlDynamicQueryCheck) := do
  match ← parsed uri with
  | none => pure []
  | some parts =>
    if parts.scheme ≠ "sql" then pure []
    else
      let use_body := flag parts "useMessageBodyForSql"
      let allow_dynamic := flag parts "allowDynamicQuery"
      if use_body || allow_dynamic then pure [⟨use_body, allow_dynamic⟩] else pure []

section

variable (route : RouteDefinition) {c : BuilderStep}

/-- The URIs of a route in the order of the scan. -/
def scanned : List String := route.from_uri :: step_uris route.steps

def collectAll : List String → Outcome Empty (List SqlDynamicQueryCheck)
  | [] => pure []
  | uri :: uris => do
    let checks ← collect_sql_checks_for_uri uri
    let later ← collectAll uris
    pure (checks ++ later)

def scan_route_definitions_for_sql_checks (routes : List RouteDefinition) :
    Outcome Empty (List SqlDynamicQueryCheck) :=
  collectAll (routes.flatMap scanned)

/-- The closure of the scheme scan, called until it has found the scheme. -/
def referencesAny (scheme : String) : List String → Outcome Empty Bool
  | [] => pure false
  | uri :: uris => do
    match ← parsed uri with
    | some parts => if parts.scheme = scheme then pure true else referencesAny scheme uris
    | none => referencesAny scheme uris

def route_definitions_reference_scheme (routes : List RouteDefinition) (scheme : String) :
    Outcome Empty Bool :=
  referencesAny scheme (routes.flatMap scanned)

/-! ## The tree of a route

Which URIs a tree declares, without regard to how it is scanned. -/

def ownUri : BuilderStep → List String
  | .To uri | .LayeredTo uri | .WireTap uri | .Enrich uri _ _ | .PollEnrich uri _ _ => [uri]
  | _ => []

def whenSteps : WhenStep → List BuilderStep
  | .mk steps => steps

def declarativeWhenSteps : DeclarativeWhenStep → List BuilderStep
  | .mk _ steps => steps

def clauseBuilderSteps : DoTryCatchClauseBuilder → List BuilderStep
  | .mk _ steps => steps

def clauseSteps : DoTryCatchClause → List BuilderStep
  | .mk steps => steps

/-- The sub-pipelines of a step. Each constructor stands here, so that none is forgotten. -/
def subPipelines : BuilderStep → List (List BuilderStep)
  | .Filter steps | .DeclarativeFilter _ steps | .Split _ steps
  | .DeclarativeSplit _ _ _ _ _ _ steps | .DeclarativeStreamSplit _ _ _ steps
  | .StreamSplit _ _ steps | .Multicast steps | .Throttle steps | .LoadBalance steps
  | .Loop steps | .DeclarativeLoop _ _ steps _ | .IdempotentConsumer _ _ steps _ _
  | .Layered steps | .Cache _ _ _ _ _ steps => [steps]
  | .Choice whens otherwise => whens.map whenSteps ++ otherwise.toList
  | .DeclarativeChoice whens otherwise => whens.map declarativeWhenSteps ++ otherwise.toList
  | .DeclarativeDoTry try_steps clauses finally_steps =>
    try_steps :: clauses.map clauseBuilderSteps ++ finally_steps.toList
  | .DoTry try_steps catches finally_steps =>
    try_steps :: catches.map clauseSteps ++ finally_steps.toList
  | .Processor | .To _ | .Stop | .Log _ _ | .DeclarativeSetHeader _
  | .DeclarativeSetHeaderIfAbsent _ | .DeclarativeRemoveHeader _ | .DeclarativeSetProperty _
  | .DeclarativeSetBody | .DeclarativeScript _ | .DeclarativeFunction
  | .DeclarativeDynamicRouter _ | .DeclarativeRoutingSlip _ | .Aggregate _ | .WireTap _
  | .DeclarativeLog _ | .Bean _ _ | .Script _ _ | .DynamicRouter | .RoutingSlip | .RecipientList
  | .DeclarativeRecipientList _ | .Delay _ | .Enrich _ _ _ | .PollEnrich _ _ _ | .Validate _
  | .ClaimCheck _ _ _ _ | .Sampling _ | .Sort _ _ | .CacheInvalidate _ _ _ | .CacheClear _
  | .CacheStats _ | .CachePeekStale _ _ _ | .Resequence | .LayeredTo _ => []

def nested (s : BuilderStep) : List BuilderStep := (subPipelines s).flatten

theorem sizeOf_of_blocks {B : Type} [SizeOf B] {steps : B → List BuilderStep} {blocks : List B}
    {block : B} (hsm : ∀ b, sizeOf (steps b) < sizeOf b) (hbl : block ∈ blocks)
    (hc : c ∈ steps block) : sizeOf c < sizeOf blocks := by
  have hs : sizeOf c < sizeOf (steps block) := sizeOf_lt_of_mem hc
  have hb := sizeOf_lt_of_mem hbl
  have ho := hsm block
  omega

theorem whenSteps_smaller (w : WhenStep) : sizeOf (whenSteps w) < sizeOf w := by
  obtain ⟨steps⟩ := w
  rw [WhenStep.mk.sizeOf_spec, whenSteps]
  omega

theorem declarativeWhenSteps_smaller (w : DeclarativeWhenStep) :
    sizeOf (declarativeWhenSteps w) < sizeOf w := by
  obtain ⟨predicate, steps⟩ := w
  rw [DeclarativeWhenStep.mk.sizeOf_spec, declarativeWhenSteps]
  omega

theorem clauseBuilderSteps_smaller (clause : DoTryCatchClauseBuilder) :
    sizeOf (clauseBuilderSteps clause) < sizeOf clause := by
  obtain ⟨exception, steps⟩ := clause
  rw [DoTryCatchClauseBuilder.mk.sizeOf_spec, clauseBuilderSteps]
  omega

theorem clauseSteps_smaller (clause : DoTryCatchClause) :
    sizeOf (clauseSteps clause) < sizeOf clause := by
  obtain ⟨steps⟩ := clause
  rw [DoTryCatchClause.mk.sizeOf_spec, clauseSteps]
  omega

theorem sizeOf_of_optional {otherwise : Option (List BuilderStep)} {steps : List BuilderStep}
    (hs : otherwise = some steps) (hc : c ∈ steps) : sizeOf c < sizeOf otherwise := by
  have hst := sizeOf_lt_of_mem hc
  rw [hs, Option.some.sizeOf_spec]
  omega

theorem nested_smaller (s : BuilderStep) : ∀ c ∈ nested s, sizeOf c < sizeOf s := by
  intro c hn
  obtain ⟨steps, hs, hc⟩ := mem_flatten.mp hn
  clear hn
  have hm : sizeOf c < sizeOf steps := sizeOf_lt_of_mem hc
  cases s with
  | Choice whens otherwise =>
    simp only [subPipelines, mem_append, List.mem_map, mem_toList] at hs
    rw [BuilderStep.Choice.sizeOf_spec]
    rcases hs with ⟨w, hw, rfl⟩ | ho
    · have := sizeOf_of_blocks whenSteps_smaller hw hc
      omega
    · have := sizeOf_of_optional ho hc
      omega
  | DeclarativeChoice whens otherwise =>
    simp only [subPipelines, mem_append, List.mem_map, mem_toList] at hs
    rw [BuilderStep.DeclarativeChoice.sizeOf_spec]
    rcases hs with ⟨w, hw, rfl⟩ | ho
    · have := sizeOf_of_blocks declarativeWhenSteps_smaller hw hc
      omega
    · have := sizeOf_of_optional ho hc
      omega
  | DeclarativeDoTry try_steps clauses finally_steps =>
    simp only [subPipelines, cons_append, mem_cons, mem_append, List.mem_map, mem_toList] at hs
    rw [BuilderStep.DeclarativeDoTry.sizeOf_spec]
    rcases hs with rfl | ⟨w, hw, rfl⟩ | ho
    · omega
    · have := sizeOf_of_blocks clauseBuilderSteps_smaller hw hc
      omega
    · have := sizeOf_of_optional ho hc
      omega
  | DoTry try_steps catches finally_steps =>
    simp only [subPipelines, cons_append, mem_cons, mem_append, List.mem_map, mem_toList] at hs
    rw [BuilderStep.DoTry.sizeOf_spec]
    rcases hs with rfl | ⟨w, hw, rfl⟩ | ho
    · omega
    · have := sizeOf_of_blocks clauseSteps_smaller hw hc
      omega
    · have := sizeOf_of_optional ho hc
      omega
  | _ =>
    simp only [subPipelines, mem_singleton, not_mem_nil] at hs
    try
      subst hs
      simp
      omega

noncomputable def stepTree : LabelledTree BuilderStep String where
  label := ownUri
  children := nested
  size := sizeOf
  smaller := nested_smaller

/-- The steps that the scan does not look under. -/
def skipped : BuilderStep → Bool
  | .DoTry _ _ _ => true
  | .Cache _ _ _ _ _ _ => true
  | _ => false

theorem step_uris_eq (steps : List BuilderStep) :
    step_uris steps = steps.flatMap for_each_step_uri := by
  induction steps with
  | nil => rw [step_uris, flatMap_nil]
  | cons s steps ih => rw [step_uris, ih, flatMap_cons]

theorem optional_uris_eq (steps : Option (List BuilderStep)) :
    optional_uris steps = steps.toList.flatten.flatMap for_each_step_uri := by
  cases steps with
  | none => simp [optional_uris]
  | some steps => simp [optional_uris, step_uris_eq]

theorem when_uris_eq (whens : List WhenStep) :
    when_uris whens = (whens.map whenSteps).flatten.flatMap for_each_step_uri := by
  induction whens with
  | nil => simp [when_uris]
  | cons w whens ih =>
    obtain ⟨steps⟩ := w
    simp [when_uris, ih, step_uris_eq, whenSteps, flatMap_append]

theorem declarative_when_uris_eq (whens : List DeclarativeWhenStep) :
    declarative_when_uris whens =
      (whens.map declarativeWhenSteps).flatten.flatMap for_each_step_uri := by
  induction whens with
  | nil => simp [declarative_when_uris]
  | cons w whens ih =>
    obtain ⟨predicate, steps⟩ := w
    simp [declarative_when_uris, ih, step_uris_eq, declarativeWhenSteps, flatMap_append]

theorem clause_uris_eq (clauses : List DoTryCatchClauseBuilder) :
    clause_uris clauses = (clauses.map clauseBuilderSteps).flatten.flatMap for_each_step_uri := by
  induction clauses with
  | nil => simp [clause_uris]
  | cons clause clauses ih =>
    obtain ⟨exception, steps⟩ := clause
    simp [clause_uris, ih, step_uris_eq, clauseBuilderSteps, flatMap_append]

theorem for_each_step_uri_eq (s : BuilderStep) :
    for_each_step_uri s =
      ownUri s ++ if skipped s then [] else (nested s).flatMap for_each_step_uri := by
  cases s <;>
    simp [for_each_step_uri, ownUri, skipped, nested, subPipelines, step_uris_eq,
      optional_uris_eq, when_uris_eq, declarative_when_uris_eq, clause_uris_eq,
      flatMap_append]

/-- The scan of a step is the walk of its tree that prunes `DoTry` and `Cache`. -/
theorem for_each_step_uri_eq_walk (s : BuilderStep) :
    for_each_step_uri s = stepTree.walk skipped s :=
  stepTree.eq_walk for_each_step_uri_eq s

/-! ## What is declared and what is found -/

/-- The URIs that the steps of a route declare, those of its fallback included. -/
noncomputable def declaredIn : List String :=
  (route.steps ++ route.circuit_breaker_fallback).flatMap stepTree.full

noncomputable def declared : List String := route.from_uri :: declaredIn route

/-- Every `DoTry` and `Cache` of the route has no URI under it, and so has the fallback. -/
def NothingHidden : Prop :=
  (∀ s ∈ route.steps, ∀ u, stepTree.Within u s → skipped u = true →
    (nested u).flatMap stepTree.full = []) ∧
  route.circuit_breaker_fallback.flatMap stepTree.full = []

theorem step_uris_eq_declaredIn_iff :
    step_uris route.steps = declaredIn route ↔ NothingHidden route := by
  have hs : ∀ s ∈ route.steps, (for_each_step_uri s).Sublist (stepTree.full s) := by
    intro s _
    rw [for_each_step_uri_eq_walk]
    exact stepTree.walk_sublist skipped s
  have hp : route.steps.flatMap for_each_step_uri = route.steps.flatMap stepTree.full ↔
      ∀ s ∈ route.steps, ∀ u, stepTree.Within u s → skipped u = true →
        (nested u).flatMap stepTree.full = [] := by
    rw [LabelledTree.eq_iff_of_parts hs]
    apply forall₂_congr
    intro s _
    rw [for_each_step_uri_eq_walk]
    exact stepTree.walk_eq_full_iff skipped s
  unfold NothingHidden declaredIn
  rw [step_uris_eq, flatMap_append, ← hp]
  constructor
  · intro heq
    have hlen := congrArg List.length heq
    rw [length_append] at hlen
    have hle := (LabelledTree.sublist_of_parts hs).length_le
    have hf : (route.circuit_breaker_fallback.flatMap stepTree.full).length = 0 := by omega
    have hnil := length_eq_zero_iff.mp hf
    rw [hnil, append_nil] at heq
    exact ⟨heq, hnil⟩
  · rintro ⟨heq, hnil⟩
    rw [heq, hnil, append_nil]

end

/-- A URI as the scan sees it when the parser does not panic. -/
def partsOf (uri : String) : Option UriComponents := (parse_uri uri).toOption

variable {uri : String} {uris : List String}

theorem partsOf_eq_some {parts : UriComponents} (h : partsOf uri = some parts) :
    parse_uri uri = .ok parts := by
  unfold partsOf at h
  cases hp : parse_uri uri with
  | error f => simp [hp, Except.toOption] at h
  | ok parts' => simpa [hp, Except.toOption] using h

def checksOf (uri : String) : List SqlDynamicQueryCheck :=
  match partsOf uri with
  | none => []
  | some parts =>
    if parts.scheme ≠ "sql" then []
    else
      let use_body := flag parts "useMessageBodyForSql"
      let allow_dynamic := flag parts "allowDynamicQuery"
      if use_body || allow_dynamic then [⟨use_body, allow_dynamic⟩] else []

def HasScheme (scheme uri : String) : Prop :=
  ∃ parts, parse_uri uri = .ok parts ∧ parts.scheme = scheme

theorem parsed_eq (h : ¬ Panics uri) : parsed uri = .ok (partsOf uri) := by
  rw [← parse_uri_eq_panic_iff] at h
  unfold parsed partsOf
  cases hp : parse_uri uri with
  | ok parts => rfl
  | error f =>
    cases f with
    | err e => rfl
    | panic => exact absurd hp h

theorem parsed_panics (h : Panics uri) : parsed uri = .error .panic := by
  unfold parsed
  rw [(parse_uri_eq_panic_iff uri).mpr h]

theorem collect_sql_checks_for_uri_eq (h : ¬ Panics uri) :
    collect_sql_checks_for_uri uri = .ok (checksOf uri) := by
  unfold collect_sql_checks_for_uri checksOf
  rw [parsed_eq h]
  cases hp : partsOf uri with
  | none => rfl
  | some parts =>
    by_cases hs : parts.scheme = "sql"
    · simp only [bind, Except.bind, hs, ne_eq, not_true_eq_false, if_false]
      split <;> rfl
    · simp only [bind, Except.bind, hs, ne_eq, not_false_eq_true, if_true]
      rfl

theorem collectAll_eq (h : ∀ uri ∈ uris, ¬ Panics uri) :
    collectAll uris = .ok (uris.flatMap checksOf) := by
  induction uris with
  | nil => rfl
  | cons uri uris ih =>
    rw [collectAll, collect_sql_checks_for_uri_eq (h uri mem_cons_self),
      ih fun u hu => h u (mem_cons_of_mem uri hu)]
    rfl

theorem referencesAny_iff {scheme : String} (h : ∀ uri ∈ uris, ¬ Panics uri) :
    ∃ b, referencesAny scheme uris = .ok b ∧ (b = true ↔ ∃ uri ∈ uris, HasScheme scheme uri) := by
  induction uris with
  | nil => exact ⟨false, rfl, by simp⟩
  | cons uri uris ih =>
    obtain ⟨b, hb, hi⟩ := ih fun u hu => h u (mem_cons_of_mem uri hu)
    rw [referencesAny, parsed_eq (h uri mem_cons_self)]
    cases hp : parse_uri uri with
    | error f =>
      have hn : ¬ HasScheme scheme uri := by simp [HasScheme, hp]
      refine ⟨b, ?_, ?_⟩
      · simpa [partsOf, hp, bind, Except.bind, Except.toOption] using hb
      · simp [hi, hn]
    | ok parts =>
      by_cases hs : parts.scheme = scheme
      · have ht : HasScheme scheme uri := ⟨parts, hp, hs⟩
        refine ⟨true, ?_, ?_⟩
        · simp [partsOf, hp, bind, Except.bind, Except.toOption, hs, pure, Except.pure]
        · simp [ht]
      · have hn : ¬ HasScheme scheme uri := by simp [HasScheme, hp, hs]
        refine ⟨b, ?_, ?_⟩
        · simpa [partsOf, hp, bind, Except.bind, Except.toOption, hs] using hb
        · simp [hi, hn]

theorem referencesAny_empty_panics (hm : uri ∈ uris) (hpa : Panics uri) :
    referencesAny "" uris = .error .panic := by
  induction uris with
  | nil => simp at hm
  | cons u uris ih =>
    rw [referencesAny]
    by_cases hu : Panics u
    · rw [parsed_panics hu]
      rfl
    · have ht : uri ∈ uris := by
        rcases mem_cons.mp hm with rfl | ht
        · exact absurd hpa hu
        · exact ht
      rw [parsed_eq hu]
      cases hp : partsOf u with
      | none => exact ih ht
      | some parts =>
        have hs : parts.scheme ≠ "" := scheme_ne_empty (partsOf_eq_some hp)
        simpa [bind, Except.bind, hs] using ih ht

/-- The matrix that the check refuses, declared in a URI. -/
def DynamicSql (uri : String) : Prop :=
  ∃ parts, parse_uri uri = .ok parts ∧ parts.scheme = "sql" ∧
    flag parts "useMessageBodyForSql" = true ∧ flag parts "allowDynamicQuery" = false

theorem checksOf_dynamic_sql (h : DynamicSql uri) :
    ∃ check ∈ checksOf uri, ∃ e, check.run = .error e := by
  obtain ⟨parts, hp, hs, hb, ha⟩ := h
  refine ⟨⟨true, false⟩, ?_, _, rfl⟩
  simp [checksOf, partsOf, hp, Except.toOption, hs, hb, ha]

/-- The scan of the routes misses no URI that they declare. -/
structure MissesNothing (routes : List RouteDefinition) : Prop where
  visits : ∀ route ∈ routes, step_uris route.steps = declaredIn route
  finds_sql : ∀ route ∈ routes, ∀ uri ∈ declared route, DynamicSql uri →
    ∃ checks, scan_route_definitions_for_sql_checks routes = .ok checks ∧
      ∃ check ∈ checks, ∃ e, check.run = .error e
  finds_scheme : ∀ scheme, ∃ b, route_definitions_reference_scheme routes scheme = .ok b ∧
    (b = true ↔ ∃ route ∈ routes, ∃ uri ∈ declared route, HasScheme scheme uri)

theorem misses_nothing_of_visits {routes : List RouteDefinition}
    (hv : ∀ route ∈ routes, step_uris route.steps = declaredIn route)
    (hp : ∀ route ∈ routes, ∀ uri ∈ declared route, ¬ Panics uri) : MissesNothing routes := by
  have hsc : ∀ route ∈ routes, scanned route = declared route := by
    intro route hr
    rw [scanned, declared, hv route hr]
  have hn : ∀ uri ∈ routes.flatMap scanned, ¬ Panics uri := by
    intro uri hu
    obtain ⟨route, hr, hu⟩ := mem_flatMap.mp hu
    rw [hsc route hr] at hu
    exact hp route hr uri hu
  refine ⟨hv, ?_, ?_⟩
  · intro route hr uri hu hsq
    obtain ⟨check, hc, hf⟩ := checksOf_dynamic_sql hsq
    rw [← hsc route hr] at hu
    refine ⟨_, collectAll_eq hn, check, ?_, hf⟩
    exact mem_flatMap.mpr ⟨uri, mem_flatMap.mpr ⟨route, hr, hu⟩, hc⟩
  · intro scheme
    obtain ⟨b, hb, hi⟩ := @referencesAny_iff _ scheme hn
    refine ⟨b, hb, hi.trans ?_⟩
    constructor
    · rintro ⟨uri, hu, hs⟩
      obtain ⟨route, hr, hu⟩ := mem_flatMap.mp hu
      exact ⟨route, hr, uri, by rw [← hsc route hr]; exact hu, hs⟩
    · rintro ⟨route, hr, uri, hu, hs⟩
      exact ⟨uri, mem_flatMap.mpr ⟨route, hr, by rw [hsc route hr]; exact hu⟩, hs⟩

theorem the_scan_misses_nothing_iff (routes : List RouteDefinition) :
    MissesNothing routes ↔
      ∀ route ∈ routes, NothingHidden route ∧ ∀ uri ∈ declared route, ¬ Panics uri := by
  constructor
  · intro h route hr
    refine ⟨(step_uris_eq_declaredIn_iff route).mp (h.visits route hr), ?_⟩
    intro uri hu hp
    obtain ⟨b, hb, -⟩ := h.finds_scheme ""
    have hm : uri ∈ routes.flatMap scanned := by
      refine mem_flatMap.mpr ⟨route, hr, ?_⟩
      rw [scanned, h.visits route hr]
      exact hu
    have hs := referencesAny_empty_panics hm hp
    unfold route_definitions_reference_scheme at hb
    rw [hs] at hb
    exact absurd hb (by simp)
  · intro h
    apply misses_nothing_of_visits
    · intro route hr
      exact (step_uris_eq_declaredIn_iff route).mpr (h route hr).1
    · intro route hr
      exact (h route hr).2

/-- A route that asks the database only when the cache has no entry. -/
def cachedQuery : RouteDefinition where
  from_uri := "timer:tick"
  steps := [.Cache none ⟨"simple", "$\x7bbody\x7d"⟩ none none false
    [.To "sql:query?useMessageBodyForSql=true"]]
  route_id := "cached-query"

theorem a_cache_step_hides_its_query :
    "sql:query?useMessageBodyForSql=true" ∈ declared cachedQuery ∧
    DynamicSql "sql:query?useMessageBodyForSql=true" ∧
    scan_route_definitions_for_sql_checks [cachedQuery] = .ok [] ∧
    ¬ MissesNothing [cachedQuery] := by
  have hd : "sql:query?useMessageBodyForSql=true" ∈ declared cachedQuery := by
    simp [declared, declaredIn, cachedQuery, LabelledTree.full_eq, stepTree, ownUri, nested,
      subPipelines]
  have hsq : DynamicSql "sql:query?useMessageBodyForSql=true" := by
    have hf : (partsOf "sql:query?useMessageBodyForSql=true").any (fun parts =>
        parts.scheme = "sql" && flag parts "useMessageBodyForSql" &&
          !flag parts "allowDynamicQuery") = true := by
      decide +kernel
    obtain ⟨parts, hp, hf⟩ := Option.any_eq_true _ _ |>.mp hf
    simp only [Bool.and_eq_true, decide_eq_true_eq, Bool.not_eq_true'] at hf
    exact ⟨parts, partsOf_eq_some hp, hf.1.1, hf.1.2, hf.2⟩
  have hs : scan_route_definitions_for_sql_checks [cachedQuery] = .ok [] := by
    have hpa : ¬ Panics "timer:tick" := by
      rw [← parse_uri_eq_panic_iff]
      have ho : (parse_uri "timer:tick").isOk = true := by decide +kernel
      intro h
      simp [h, Except.isOk, Except.toBool] at ho
    have hn : checksOf "timer:tick" = [] := by
      have he : (checksOf "timer:tick").isEmpty = true := by decide +kernel
      exact List.isEmpty_iff.mp he
    have hu : [cachedQuery].flatMap scanned = ["timer:tick"] := by
      simp [scanned, cachedQuery, step_uris, for_each_step_uri]
    unfold scan_route_definitions_for_sql_checks
    rw [hu, collectAll_eq (by simpa using hpa)]
    simp [hn]
  refine ⟨hd, hsq, hs, ?_⟩
  intro h
  obtain ⟨checks, hc, check, hm, -⟩ := h.finds_sql cachedQuery mem_cons_self _ hd hsq
  rw [hs] at hc
  obtain rfl := Except.ok.inj hc
  simp at hm

end camel_core.startup_validation
