-- The canonical routes of `camel-api/src/runtime.rs`: the contract that a
-- register command checks, and the conversion to a route definition in
-- `application/commands.rs`. The contract does not see everything that the
-- conversion rejects.
import RustCamel.Api.Splitter
import RustCamel.Lifecycle.RouteRuntime

namespace camel_api

open camel_core.lifecycle

/-! ## Errors -/

inductive ConfigValidationError where
  | AggregatorMissingCompletionBound

def ConfigValidationError.to_string : ConfigValidationError → String
  | .AggregatorMissingCompletionBound =>
    "aggregator config requires at least one completion bound (size, timeout, predicate, or interval)"

/-- The errors of `CamelError` that the handlers build. -/
inductive CamelError where
  | RouteError (msg : String)
  | Config (msg : String)
  | ConfigValidation (error : ConfigValidationError)

def CamelError.to_string : CamelError → String
  | .RouteError msg => s!"Route error: {msg}"
  | .Config msg => s!"Configuration error: {msg}"
  | .ConfigValidation error => s!"Configuration validation error: {error.to_string}"

/-- `impl From<DomainError> for CamelError`. -/
def CamelError.of_domain (e : DomainError) : CamelError := .RouteError e.to_string

/-! ## The spec of a route -/

structure LanguageExpressionDef where
  language : String
  source : String

inductive CanonicalSplitExpressionSpec where
  | BodyLines
  | BodyJsonArray
  | Language (expression : LanguageExpressionDef)
  | Stream (config : StreamSplitConfig)

inductive CanonicalSplitAggregationSpec where
  | LastWins
  | CollectAll
  | Original

inductive CanonicalAggregateStrategySpec where
  | CollectAll

structure CanonicalAggregateSpec where
  header : String
  completion_size : Option Nat
  completion_timeout_ms : Option Nat
  correlation_key : Option String
  force_completion_on_stop : Option Bool
  discard_on_timeout : Option Bool
  strategy : CanonicalAggregateStrategySpec
  max_buckets : Option Nat
  max_bucket_size : Option Nat
  bucket_ttl_ms : Option Nat
  completion_predicate : Option LanguageExpressionDef

mutual

inductive CanonicalStepSpec where
  | To (uri : String)
  | Log (message : String)
  | WireTap (uri : String)
  | Script (expression : LanguageExpressionDef)
  | Filter (predicate : LanguageExpressionDef) (steps : List CanonicalStepSpec)
  | Choice (whens : List CanonicalWhenSpec) (otherwise : Option (List CanonicalStepSpec))
  | Split (expression : CanonicalSplitExpressionSpec) (aggregation : CanonicalSplitAggregationSpec)
      (parallel : Bool) (parallel_limit trace_item_threshold : Option Nat)
      (stop_on_exception : Bool) (steps : List CanonicalStepSpec)
  | Aggregate (config : CanonicalAggregateSpec)
  | Stop
  | Delay (delay_ms : Nat) (dynamic_header : Option String)
  | Cache (repository : Option String) (key : String) (ttl : Option String)
      (max_entry_bytes : Option Nat) (coalesce_misses : Option Bool)
      (on_miss : List CanonicalStepSpec)
  | CacheInvalidate (repository key key_prefix : Option String)
  | CacheClear (repository : Option String)
  | CacheStats (repository : Option String)
  | CachePeekStale (repository : Option String) (key : String) (on_miss : Option String)

inductive CanonicalWhenSpec where
  | mk (predicate : LanguageExpressionDef) (steps : List CanonicalStepSpec)

end

structure CanonicalCircuitBreakerSpec where
  failure_threshold : Nat
  open_duration_ms : Nat
  fallback : List CanonicalStepSpec

inductive CanonicalConcurrencySpec where
  | Sequential
  | Concurrent (max : Nat)
  deriving DecidableEq

def CANONICAL_CONTRACT_VERSION : Nat := 2

structure CanonicalRouteSpec where
  route_id : String
  origin : String
  steps : List CanonicalStepSpec := []
  circuit_breaker : Option CanonicalCircuitBreakerSpec := none
  auto_startup : Option Bool := none
  startup_order : Option Int := none
  concurrency : Option CanonicalConcurrencySpec := none
  version : Nat := CANONICAL_CONTRACT_VERSION

/-! ## The contract -/

/-- `s.trim().is_empty()`. -/
def blank (s : String) : Bool := s.toList.all is_whitespace

/-- The errors of `validate_contract` start with the same words. -/
def violation (detail : String) : Except CamelError Unit :=
  .error (.RouteError s!"canonical contract violation: {detail}")

/-- The check of an `aggregate` step. -/
def validate_aggregate (config : CanonicalAggregateSpec) : Except CamelError Unit :=
  let header_present := !blank config.header
  let key_present := config.correlation_key.any fun k => !blank k
  if !key_present && config.correlation_key.isSome then
    violation "aggregate.correlation_key cannot be empty"
  else if !header_present && !key_present then
    violation "aggregate requires a correlation source: header or correlation_key"
  else if config.completion_size = some 0 then
    violation "aggregate.completion_size must be > 0"
  else .ok ()

mutual

/-- One turn of the loop of `validate_steps`. -/
def validate_step : CanonicalStepSpec → Except CamelError Unit
  | .To uri | .WireTap uri =>
    if blank uri then violation "endpoint uri cannot be empty" else .ok ()
  | .Filter _ steps => validate_steps steps
  | .Choice whens otherwise => do
    validate_whens whens
    match otherwise with
    | some steps => validate_steps steps
    | none => return ()
  | .Split _ _ _ parallel_limit _ _ steps =>
    if parallel_limit = some 0 then violation "split.parallel_limit must be > 0"
    else validate_steps steps
  | .Aggregate config => validate_aggregate config
  | .Cache _ _ _ _ _ on_miss => validate_steps on_miss
  | .Log _ | .Script _ | .Stop | .Delay _ _ | .CacheInvalidate _ _ _ | .CacheClear _
  | .CacheStats _ | .CachePeekStale _ _ _ => .ok ()

def validate_steps : List CanonicalStepSpec → Except CamelError Unit
  | [] => .ok ()
  | step :: rest => do
    validate_step step
    validate_steps rest

/-- The loop over the branches of a `choice`. -/
def validate_whens : List CanonicalWhenSpec → Except CamelError Unit
  | [] => .ok ()
  | .mk _ steps :: rest => do
    validate_steps steps
    validate_whens rest

end

def validate_circuit_breaker : Option CanonicalCircuitBreakerSpec → Except CamelError Unit
  | none => .ok ()
  | some cb =>
    if cb.failure_threshold = 0 then violation "circuit_breaker.failure_threshold must be > 0"
    else if cb.open_duration_ms = 0 then violation "circuit_breaker.open_duration_ms must be > 0"
    else validate_steps cb.fallback

def CanonicalRouteSpec.validate_contract (self : CanonicalRouteSpec) : Except CamelError Unit := do
  if blank self.route_id then violation "route_id cannot be empty"
  if blank self.origin then violation "from cannot be empty"
  if self.version = 0 ∨ self.version > CANONICAL_CONTRACT_VERSION then
    violation s!"expected version {CANONICAL_CONTRACT_VERSION}, got {self.version}"
  validate_steps self.steps
  validate_circuit_breaker self.circuit_breaker
  if self.concurrency = some (.Concurrent 0) then violation "concurrency max must be > 0"

end camel_api

variable {spec : CanonicalRouteSpec}

namespace camel_core.lifecycle

open camel_api

/-! ## Route definitions -/

inductive LogLevel where
  | Trace
  | Debug
  | Info
  | Warn
  | Error

/-- The strategies of a splitter that a canonical route can ask for. -/
inductive SplitAggregation where
  | LastWins
  | CollectAll
  | Original

/-- The split functions that a canonical route can ask for. -/
inductive SplitSource where
  | split_body_lines
  | split_body_json_array

def DEFAULT_TRACE_ITEM_THRESHOLD : Nat := 100

def DEFAULT_MAX_FRAGMENTS : Nat := 100000

structure SplitterConfig where
  expression : SplitSource
  aggregation : SplitAggregation := .LastWins
  parallel : Bool := false
  parallel_limit : Option Nat := none
  stop_on_exception : Bool := true
  max_fragments : Nat := DEFAULT_MAX_FRAGMENTS
  trace_item_threshold : Nat := DEFAULT_TRACE_ITEM_THRESHOLD

/-- A duration counts in milliseconds. -/
inductive CompletionCondition where
  | Size (n : Nat)
  | Timeout (duration : Nat)

inductive CompletionMode where
  | Single (condition : CompletionCondition)
  | Any (conditions : List CompletionCondition)

inductive CorrelationStrategy where
  | HeaderName (header : String)
  | Expression (expr language : String)

inductive AggregationStrategy where
  | CollectAll

structure AggregatorConfig where
  header_name : String
  completion : CompletionMode
  correlation : CorrelationStrategy
  strategy : AggregationStrategy
  max_buckets : Option Nat
  max_bucket_size : Option Nat
  bucket_ttl : Option Nat
  force_completion_on_stop : Bool
  discard_on_timeout : Bool
  max_timeout_tasks : Nat

structure AggregatorConfigBuilder where
  header_name : String
  completion : Option CompletionMode := none
  correlation : CorrelationStrategy
  strategy : AggregationStrategy := .CollectAll
  max_buckets : Option Nat := some 10000
  max_bucket_size : Option Nat := some 10000
  bucket_ttl : Option Nat := some 300000
  force_completion_on_stop : Bool := false
  discard_on_timeout : Bool := false
  max_timeout_tasks : Nat := 1024

def AggregatorConfig.correlate_by (header : String) : AggregatorConfigBuilder :=
  { header_name := header, correlation := .HeaderName header }

def AggregatorConfigBuilder.build (self : AggregatorConfigBuilder) :
    Except CamelError AggregatorConfig :=
  match self.completion with
  | none => .error (.ConfigValidation .AggregatorMissingCompletionBound)
  | some completion =>
    .ok ⟨self.header_name, completion, self.correlation, self.strategy, self.max_buckets,
      self.max_bucket_size, self.bucket_ttl, self.force_completion_on_stop,
      self.discard_on_timeout, self.max_timeout_tasks⟩

def DEFAULT_MAX_DELAY_MS : Nat := 3600000

structure DelayConfig where
  delay_ms : Nat
  dynamic_header : Option String
  max_delay_ms : Nat

inductive PeekStaleMissPolicy where
  | Stop
  | Continue

def PeekStaleMissPolicy.parse_on_miss (raw : Option String) :
    Except CamelError PeekStaleMissPolicy :=
  match raw with
  | none => .ok .Stop
  | some other =>
    if other = "stop" then .ok .Stop
    else if other = "continue" then .ok .Continue
    else .error (.Config
      s!"cache_peek_stale: invalid on_miss '{other}'; must be \"stop\" or \"continue\"")

structure CircuitBreakerConfig where
  failure_threshold : Nat := 5
  success_threshold : Nat := 1
  open_duration : Nat := 30000

mutual

/-- Every step of a route. A step that no canonical route converts to has only the parts
that a scan of the tree looks at, and no closures. -/
inductive BuilderStep where
  | Processor
  | To (uri : String)
  | Stop
  | Log (level : LogLevel) (message : String)
  | DeclarativeSetHeader (key : String)
  | DeclarativeSetHeaderIfAbsent (key : String)
  | DeclarativeRemoveHeader (key : String)
  | DeclarativeSetProperty (key : String)
  | DeclarativeSetBody
  | DeclarativeFilter (predicate : LanguageExpressionDef) (steps : List BuilderStep)
  | DeclarativeChoice (whens : List DeclarativeWhenStep) (otherwise : Option (List BuilderStep))
  | DeclarativeScript (expression : LanguageExpressionDef)
  | DeclarativeFunction
  | DeclarativeSplit (expression : LanguageExpressionDef) (aggregation : SplitAggregation)
      (parallel : Bool) (parallel_limit trace_item_threshold : Option Nat)
      (stop_on_exception : Bool) (steps : List BuilderStep)
  | DeclarativeStreamSplit (stream_config : StreamSplitConfig) (aggregation : SplitAggregation)
      (stop_on_exception : Bool) (steps : List BuilderStep)
  | StreamSplit (aggregation : SplitAggregation) (stop_on_exception : Bool)
      (steps : List BuilderStep)
  | DeclarativeDynamicRouter (expression : LanguageExpressionDef)
  | DeclarativeRoutingSlip (expression : LanguageExpressionDef)
  | Split (config : SplitterConfig) (steps : List BuilderStep)
  | Aggregate (config : AggregatorConfig)
  | Filter (steps : List BuilderStep)
  | Choice (whens : List WhenStep) (otherwise : Option (List BuilderStep))
  | WireTap (uri : String)
  | Multicast (steps : List BuilderStep)
  | DeclarativeLog (level : LogLevel)
  | Bean (name method : String)
  | Script (language script : String)
  | Throttle (steps : List BuilderStep)
  | LoadBalance (steps : List BuilderStep)
  | DynamicRouter
  | RoutingSlip
  | RecipientList
  | DeclarativeRecipientList (expression : LanguageExpressionDef)
  | Delay (config : DelayConfig)
  | Loop (steps : List BuilderStep)
  | DeclarativeLoop (count : Option Nat) (while_predicate : Option LanguageExpressionDef)
      (steps : List BuilderStep) (max_iterations : Option Nat)
  | Enrich (uri : String) (strategy : Option String) (timeout_ms : Option Nat)
  | PollEnrich (uri : String) (strategy : Option String) (timeout_ms : Option Nat)
  | Validate (predicate : LanguageExpressionDef)
  | ClaimCheck (repository operation : String) (key : LanguageExpressionDef)
      (filter : Option String)
  | Sampling (period : Nat)
  | Sort (expression : LanguageExpressionDef) (reverse : Bool)
  | IdempotentConsumer (repository : String) (expression : LanguageExpressionDef)
      (steps : List BuilderStep) (eager remove_on_failure : Bool)
  | Cache (repository : Option String) (key : LanguageExpressionDef) (ttl : Option String)
      (max_entry_bytes : Option Nat) (coalesce_misses : Bool) (on_miss : List BuilderStep)
  | CacheInvalidate (repository : Option String) (key key_prefix : Option LanguageExpressionDef)
  | CacheClear (repository : Option String)
  | CacheStats (repository : Option String)
  | CachePeekStale (repository : Option String) (key : LanguageExpressionDef)
      (on_miss : PeekStaleMissPolicy)
  | DeclarativeDoTry (try_steps : List BuilderStep) (clauses : List DoTryCatchClauseBuilder)
      (finally_steps : Option (List BuilderStep))
  | DoTry (try_steps : List BuilderStep) (catches : List DoTryCatchClause)
      (finally_steps : Option (List BuilderStep))
  | Resequence
  | LayeredTo (uri : String)
  | Layered (steps : List BuilderStep)

inductive DeclarativeWhenStep where
  | mk (predicate : LanguageExpressionDef) (steps : List BuilderStep)

inductive WhenStep where
  | mk (steps : List BuilderStep)

inductive DoTryCatchClauseBuilder where
  | mk (exception : Option (List String)) (steps : List BuilderStep)

inductive DoTryCatchClause where
  | mk (steps : List BuilderStep)

end

/-- The fields of a route definition that the conversion sets, and the defaults
that it leaves. -/
structure RouteDefinition where
  from_uri : String
  steps : List BuilderStep
  circuit_breaker : Option CircuitBreakerConfig := none
  circuit_breaker_fallback : List BuilderStep := []
  route_id : String
  auto_startup : Bool := true
  startup_order : Int := 1000

/-! ## The conversion -/

def split_aggregation : CanonicalSplitAggregationSpec → SplitAggregation
  | .LastWins => .LastWins
  | .CollectAll => .CollectAll
  | .Original => .Original

def simple (source : String) : LanguageExpressionDef := ⟨"simple", source⟩

/-- The end of the arm of a `split`, with the steps converted. -/
def split_to_builder_step (expression : CanonicalSplitExpressionSpec)
    (aggregation : SplitAggregation) (parallel : Bool)
    (parallel_limit trace_item_threshold : Option Nat) (stop_on_exception : Bool)
    (steps : List BuilderStep) : BuilderStep :=
  let splitter (source : SplitSource) : BuilderStep :=
    .Split { expression := source, aggregation, parallel, parallel_limit, stop_on_exception,
             trace_item_threshold := trace_item_threshold.getD DEFAULT_TRACE_ITEM_THRESHOLD } steps
  match expression with
  | .BodyLines => splitter .split_body_lines
  | .BodyJsonArray => splitter .split_body_json_array
  | .Language expression =>
    .DeclarativeSplit expression aggregation parallel parallel_limit trace_item_threshold
      stop_on_exception steps
  | .Stream stream_config =>
    .DeclarativeStreamSplit stream_config aggregation stop_on_exception steps

/-- The completion of an `aggregate` step: a timeout of 0 counts as none, and a
size of 1 next to a timeout is dropped. -/
def aggregate_completion (completion_timeout_ms : Option Nat) (completion_size : Nat) :
    CompletionMode :=
  match completion_timeout_ms with
  | some timeout_ms =>
    if timeout_ms > 0 ∧ completion_size > 1 then .Any [.Size completion_size, .Timeout timeout_ms]
    else if timeout_ms > 0 then .Single (.Timeout timeout_ms)
    else .Single (.Size completion_size)
  | none => .Single (.Size completion_size)

/-- The arm of an `aggregate`. The fields `max_bucket_size` and
`completion_predicate` are not read. -/
def aggregate_to_config (config : CanonicalAggregateSpec) : Except CamelError AggregatorConfig := do
  let completion_size := config.completion_size.getD 1
  let builder := AggregatorConfig.correlate_by config.header
  let builder := { builder with
    completion := some (aggregate_completion config.completion_timeout_ms completion_size)
    strategy := match config.strategy with
      | .CollectAll => AggregationStrategy.CollectAll
    max_buckets := config.max_buckets.or builder.max_buckets
    bucket_ttl := config.bucket_ttl_ms.or builder.bucket_ttl
    force_completion_on_stop :=
      config.force_completion_on_stop.getD builder.force_completion_on_stop
    discard_on_timeout := config.discard_on_timeout.getD builder.discard_on_timeout }
  let agg_config ← builder.build
  return match config.correlation_key with
    | some expr => { agg_config with correlation := .Expression expr "simple" }
    | none => agg_config

mutual

def canonical_step_to_builder_step : CanonicalStepSpec → Except CamelError BuilderStep
  | .To uri => .ok (.To uri)
  | .Log message => .ok (.Log .Info message)
  | .WireTap uri => .ok (.WireTap uri)
  | .Script expression => .ok (.DeclarativeScript expression)
  | .Filter predicate steps =>
    (canonical_steps_to_builder_steps steps).map (.DeclarativeFilter predicate)
  | .Choice whens otherwise => do
    let converted_whens ← canonical_whens_to_builder_whens whens
    match otherwise with
    | some steps =>
      let steps ← canonical_steps_to_builder_steps steps
      return .DeclarativeChoice converted_whens (some steps)
    | none => return .DeclarativeChoice converted_whens none
  | .Split expression aggregation parallel parallel_limit trace_item_threshold stop_on_exception
      steps =>
    (canonical_steps_to_builder_steps steps).map
      (split_to_builder_step expression (split_aggregation aggregation) parallel parallel_limit
        trace_item_threshold stop_on_exception)
  | .Aggregate config => (aggregate_to_config config).map .Aggregate
  | .Stop => .ok .Stop
  | .Delay delay_ms dynamic_header => .ok (.Delay ⟨delay_ms, dynamic_header, DEFAULT_MAX_DELAY_MS⟩)
  | .Cache repository key ttl max_entry_bytes coalesce_misses on_miss =>
    (canonical_steps_to_builder_steps on_miss).map
      (.Cache repository (simple key) ttl max_entry_bytes (coalesce_misses.getD false))
  | .CacheInvalidate repository key key_prefix =>
    .ok (.CacheInvalidate repository (key.map simple) ( key_prefix.map simple))
  | .CacheClear repository => .ok (.CacheClear repository)
  | .CacheStats repository => .ok (.CacheStats repository)
  | .CachePeekStale repository key on_miss =>
    (PeekStaleMissPolicy.parse_on_miss on_miss).map (.CachePeekStale repository (simple key))

def canonical_steps_to_builder_steps : List CanonicalStepSpec → Except CamelError (List BuilderStep)
  | [] => .ok []
  | step :: rest => do
    let converted ← canonical_step_to_builder_step step
    let converted_rest ← canonical_steps_to_builder_steps rest
    return converted :: converted_rest

/-- The loop over the branches of a `choice`. -/
def canonical_whens_to_builder_whens :
    List CanonicalWhenSpec → Except CamelError (List DeclarativeWhenStep)
  | [] => .ok []
  | .mk predicate steps :: rest => do
    let steps ← canonical_steps_to_builder_steps steps
    let converted_rest ← canonical_whens_to_builder_whens rest
    return .mk predicate steps :: converted_rest

end

/-- The fallback of a circuit breaker. An error names where it comes from. -/
def fallback_to_builder_steps (fallback : List CanonicalStepSpec) :
    Except CamelError (List BuilderStep) :=
  (canonical_steps_to_builder_steps fallback).mapError fun e =>
    .Config s!"circuit_breaker fallback: {e.to_string}"

def canonical_to_route_definition (spec : CanonicalRouteSpec) :
    Except CamelError RouteDefinition := do
  let steps ← canonical_steps_to_builder_steps spec.steps
  let definition : RouteDefinition := { from_uri := spec.origin, steps, route_id := spec.route_id }
  match spec.circuit_breaker with
  | none => return definition
  | some cb =>
    let definition := { definition with
      circuit_breaker := some { failure_threshold := cb.failure_threshold
                                open_duration := cb.open_duration_ms } }
    if cb.fallback.isEmpty then return definition
    let fallback ← fallback_to_builder_steps cb.fallback
    return { definition with circuit_breaker_fallback := fallback }

/-! ## What the conversion rejects -/

/-- The texts that `on_miss` may hold. -/
def knownMissPolicy (on_miss : Option String) : Bool :=
  on_miss = none || on_miss = some "stop" || on_miss = some "continue"

mutual

/-- Every `cache_peek_stale` in the step, at any depth, has a known policy. -/
def stepConverts : CanonicalStepSpec → Bool
  | .Filter _ steps | .Split _ _ _ _ _ _ steps | .Cache _ _ _ _ _ steps => stepsConvert steps
  | .Choice whens otherwise =>
    whensConvert whens && match otherwise with
      | some steps => stepsConvert steps
      | none => true
  | .CachePeekStale _ _ on_miss => knownMissPolicy on_miss
  | .To _ | .Log _ | .WireTap _ | .Script _ | .Aggregate _ | .Stop | .Delay _ _
  | .CacheInvalidate _ _ _ | .CacheClear _ | .CacheStats _ => true

def stepsConvert : List CanonicalStepSpec → Bool
  | [] => true
  | step :: rest => stepConverts step && stepsConvert rest

def whensConvert : List CanonicalWhenSpec → Bool
  | [] => true
  | .mk _ steps :: rest => stepsConvert steps && whensConvert rest

end

/-- Every `cache_peek_stale` of the route has a known policy, in its steps and
in the fallback of its circuit breaker. -/
def routeConverts (spec : CanonicalRouteSpec) : Bool :=
  stepsConvert spec.steps && spec.circuit_breaker.all fun cb => stepsConvert cb.fallback

theorem isOk_map {ε α β : Type} (f : α → β) (x : Except ε α) : (x.map f).isOk = x.isOk := by
  cases x <;> rfl

theorem isOk_mapError {ε ε' α : Type} (f : ε → ε') (x : Except ε α) :
    (x.mapError f).isOk = x.isOk := by
  cases x <;> rfl

theorem isOk_parse_on_miss (on_miss : Option String) :
    (PeekStaleMissPolicy.parse_on_miss on_miss).isOk = knownMissPolicy on_miss := by
  unfold PeekStaleMissPolicy.parse_on_miss knownMissPolicy
  cases on_miss with
  | none => rfl
  | some text =>
    by_cases hs : text = "stop"
    · simp [hs, Except.isOk, Except.toBool]
    · by_cases hc : text = "continue"
      · simp [hc, Except.isOk, Except.toBool]
      · simp [hs, hc, Except.isOk, Except.toBool]

/-- An `aggregate` always has a completion when it is built. -/
theorem isOk_aggregate_to_config (config : CanonicalAggregateSpec) :
    (aggregate_to_config config).isOk = true := rfl

mutual

theorem isOk_step (step : CanonicalStepSpec) :
    (canonical_step_to_builder_step step).isOk = stepConverts step := by
  match step with
  | .To _ | .Log _ | .WireTap _ | .Script _ | .Stop | .Delay _ _ | .CacheInvalidate _ _ _
  | .CacheClear _ | .CacheStats _ => rfl
  | .Aggregate config =>
    rw [canonical_step_to_builder_step, isOk_map, isOk_aggregate_to_config]
    rfl
  | .CachePeekStale _ _ on_miss =>
    rw [canonical_step_to_builder_step, isOk_map, isOk_parse_on_miss]
    rfl
  | .Filter _ steps | .Split _ _ _ _ _ _ steps | .Cache _ _ _ _ _ steps =>
    rw [canonical_step_to_builder_step, isOk_map, isOk_steps steps]
    rfl
  | .Choice whens none =>
    rw [canonical_step_to_builder_step, stepConverts, ← isOk_whens whens]
    cases canonical_whens_to_builder_whens whens <;> rfl
  | .Choice whens (some steps) =>
    rw [canonical_step_to_builder_step, stepConverts, ← isOk_whens whens, ← isOk_steps steps]
    cases canonical_whens_to_builder_whens whens with
    | error e => rfl
    | ok converted =>
      dsimp only
      cases canonical_steps_to_builder_steps steps <;> rfl

theorem isOk_steps (steps : List CanonicalStepSpec) :
    (canonical_steps_to_builder_steps steps).isOk = stepsConvert steps := by
  match steps with
  | [] => rfl
  | step :: rest =>
    have hs := isOk_step step
    rw [canonical_steps_to_builder_steps, stepsConvert, ← hs, ← isOk_steps rest]
    cases canonical_step_to_builder_step step with
    | error e => rfl
    | ok converted => cases canonical_steps_to_builder_steps rest <;> rfl

theorem isOk_whens (whens : List CanonicalWhenSpec) :
    (canonical_whens_to_builder_whens whens).isOk = whensConvert whens := by
  match whens with
  | [] => rfl
  | .mk predicate steps :: rest =>
    have hs := isOk_steps steps
    rw [canonical_whens_to_builder_whens, whensConvert, ← hs, ← isOk_whens rest]
    cases canonical_steps_to_builder_steps steps with
    | error e => rfl
    | ok converted => cases canonical_whens_to_builder_whens rest <;> rfl

end

/-- The conversion fails for one reason only: some `cache_peek_stale` has an
unknown policy. -/
theorem isOk_canonical_to_route_definition (spec : CanonicalRouteSpec) :
    (canonical_to_route_definition spec).isOk = routeConverts spec := by
  unfold canonical_to_route_definition routeConverts
  rw [← isOk_steps]
  cases canonical_steps_to_builder_steps spec.steps with
  | error e => rfl
  | ok steps =>
    cases spec.circuit_breaker with
    | none => rfl
    | some cb =>
      have hf : (fallback_to_builder_steps cb.fallback).isOk = stepsConvert cb.fallback := by
        unfold fallback_to_builder_steps
        rw [isOk_mapError, isOk_steps]
      simp only [Option.all_some, ← hf]
      cases he : cb.fallback with
      | nil => rfl
      | cons step rest =>
        cases fallback_to_builder_steps (step :: rest) <;> rfl

theorem routeConverts_of_ok {definition : RouteDefinition}
    (h : canonical_to_route_definition spec = .ok definition) : routeConverts spec = true := by
  rw [← isOk_canonical_to_route_definition, h]
  rfl

theorem route_id_canonical_to_route_definition {def' : RouteDefinition}
    (h : canonical_to_route_definition spec = .ok def') : def'.route_id = spec.route_id := by
  unfold canonical_to_route_definition at h
  cases hs : canonical_steps_to_builder_steps spec.steps with
  | error e =>
    rw [hs] at h
    cases h
  | ok steps =>
    rw [hs] at h
    cases hc : spec.circuit_breaker with
    | none =>
      rw [hc] at h
      cases h
      rfl
    | some cb =>
      rw [hc] at h
      simp only [Except.bind, bind] at h
      split at h
      · cases h
        rfl
      · cases hf : fallback_to_builder_steps cb.fallback with
        | error e =>
          rw [hf] at h
          cases h
        | ok fallback =>
          rw [hf] at h
          cases h
          rfl

/-! ## Two small specs -/

def timerSpec : CanonicalRouteSpec := { route_id := "r", origin := "timer:t", steps := [.Stop] }

def timerDefinition : RouteDefinition :=
  { from_uri := "timer:t", steps := [.Stop], route_id := "r" }

theorem timerSpec_accepted : timerSpec.validate_contract = .ok () := rfl

/-- A route with a policy that the contract accepts and the conversion rejects. -/
def explodingSpec : CanonicalRouteSpec :=
  { route_id := "r", origin := "timer:t", steps := [.CachePeekStale none "k" (some "explode")] }

example : explodingSpec.validate_contract.isOk = true ∧ routeConverts explodingSpec = false := by
  decide

end camel_core.lifecycle
