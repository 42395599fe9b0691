-- The cache of authorization decisions of `camel-auth/src/permission_cache.rs`: the key it
-- hashes of a request, and the decisions it serves for that key. The key has not all fields of
-- the request, so one request can be served the decision that was made for another.
import Mathlib.Data.Set.Function
import Mathlib.Data.String.Basic
import RustCamel.Api.Value
import RustCamel.Lib.LazyEviction

open List Option OrdMap

/-! ## Requests and decisions -/

namespace camel_api.security_policy

structure Principal where
  subject : String
  issuer : String
  audience : List String
  scopes : List String
  roles : List String
  claims : camel_api.Value

end camel_api.security_policy

namespace camel_auth.permission

open camel_api (Value)
open camel_api.security_policy (Principal)

inductive AuthError where
  | Unauthenticated (text : String)
  | Unauthorized (text : String)
  | TokenExpired
  | TokenInvalid (text : String)
  | ConfigError (text : String)
  | AuthenticationFailed (text : String)
  | AuthorizationDenied (text : String)
  | Config (text : String)
  | ProviderUnavailable (text : String)
  deriving DecidableEq

structure PermissionRequest where
  principal : Principal
  resource : String
  action : String
  requested_scopes : List String
  context : Value

inductive PermissionDecision where
  | Granted
  | Denied (reason : String)
  deriving DecidableEq

end camel_auth.permission

namespace camel_auth.permission_cache

open camel_api (Value)
open camel_api.security_policy (Principal)
open camel_auth.permission (AuthError PermissionDecision PermissionRequest)

/-! ## The key -/

/-- `BTreeMap::from_iter`: the keys in their order, the last value of each. -/
def sorted (entries : List (String × Value)) : List (String × Value) :=
  (entries.foldl (fun map entry => map.insert entry.1 entry.2) OrdMap.empty).rows

mutual

def canonicalize_json : Value → Value
  | .Object entries => .Object (sorted (canonicalize_entries entries))
  | .Array items => .Array (canonicalize_items items)
  | .Null => .Null
  | .Bool b => .Bool b
  | .Number n => .Number n
  | .String s => .String s

def canonicalize_items : List Value → List Value
  | [] => []
  | item :: items => canonicalize_json item :: canonicalize_items items

def canonicalize_entries : List (String × Value) → List (String × Value)
  | [] => []
  | entry :: entries => canonicalize_entry entry :: canonicalize_entries entries

def canonicalize_entry : String × Value → String × Value
  | (key, value) => (key, canonicalize_json value)

end

/-- The byte that ends a field. -/
def NUL : Char := Char.ofNat 0

/-- The fields of the key, in the order in which they are hashed. -/
def keyFields (request : PermissionRequest) : List String :=
  [request.principal.subject, request.principal.issuer, request.resource, request.action] ++
    request.requested_scopes

section

variable (sha256_hex : String → String) (to_string : Value → String)

def hashedText (request : PermissionRequest) : String :=
  String.ofList ((keyFields request).flatMap (fun field => field.toList ++ [NUL]) ++
    (to_string (canonicalize_json request.context)).toList)

def cache_key (request : PermissionRequest) : String := sha256_hex (hashedText to_string request)

/-! ## The cache -/

/-- Durations and times stand in nanoseconds. -/
structure PermissionCacheOptions where
  positive_ttl : Nat
  negative_ttl : Nat
  max_entries : Nat

structure CachedPermissionEntry where
  decision : PermissionDecision
  inserted_at : Nat

abbrev Cache := OrdMap String CachedPermissionEntry

variable (options : PermissionCacheOptions)

def ttl_for : PermissionDecision → Nat
  | .Granted => options.positive_ttl
  | .Denied _ => options.negative_ttl

def fresh (now : Nat) (entry : CachedPermissionEntry) : Bool :=
  now - entry.inserted_at < ttl_for options entry.decision

def lookup (cache : Cache) (now : Nat) (key : String) : Option PermissionDecision :=
  ((cache.get key).filter (fresh options now)).map (·.decision)

def evict_if_needed (cache : Cache) (now : Nat) : Cache :=
  cache.make_room (fun entry => !fresh options now entry) (·.inserted_at) options.max_entries

/-! ## Calls one after the other -/

structure World where
  now : Nat
  cache : Cache

/-- A call: the time since the last one, and how long the inner evaluation and the eviction
take. -/
structure Call where
  request : PermissionRequest
  waited : Nat
  evaluating : Nat
  evicting : Nat

variable (inner : PermissionRequest → Except AuthError PermissionDecision)

/-- `evaluate`, with nobody else in flight. -/
def evaluate (w : World) (call : Call) : World × Except AuthError PermissionDecision :=
  let key := cache_key sha256_hex to_string call.request
  let now := w.now + call.waited
  match lookup options w.cache now key with
  | some decision => (⟨now, w.cache⟩, .ok decision)
  | none =>
    match lookup options w.cache now key with
    | some decision => (⟨now, w.cache⟩, .ok decision)
    | none =>
      let evaluated := now + call.evaluating
      match inner call.request with
      | .error err => (⟨evaluated, w.cache⟩, .error err)
      | .ok decision =>
        let inserted_at := evaluated + call.evicting
        (⟨inserted_at, (evict_if_needed options w.cache evaluated).insert key
          ⟨decision, inserted_at⟩⟩, .ok decision)

def answers (w : World) : List Call → List (Except AuthError PermissionDecision)
  | [] => []
  | call :: calls =>
    let (w, answer) := evaluate sha256_hex to_string options inner w call
    answer :: answers w calls

end

/-! ## What the key tells -/

section

variable {sha256_hex : String → String} {to_string : Value → String}

/-- The fields of the key, cut at each `NUL` in them. -/
def pieces (request : PermissionRequest) : List (List Char) :=
  (keyFields request).flatMap (fun field => field.toList.splitOn NUL)

theorem splitOn_fields (fields : List (List Char)) {last : List Char} (hlast : NUL ∉ last) :
    (fields.flatMap (fun field => field ++ [NUL]) ++ last).splitOn NUL =
      fields.flatMap (List.splitOn NUL) ++ [last] := by
  induction fields with
  | nil => simpa using splitOn_eq_singleton hlast
  | cons field fields ih =>
    rw [flatMap_cons, flatMap_cons, append_assoc, append_assoc,
      singleton_append, splitOn_append_cons_self, ih, append_assoc]

theorem hashedText_eq_iff (hco : ∀ value, NUL ∉ (to_string value).toList)
    {request request' : PermissionRequest} :
    hashedText to_string request = hashedText to_string request' ↔
      pieces request = pieces request' ∧
        to_string (canonicalize_json request.context) =
          to_string (canonicalize_json request'.context) := by
  have hs : ∀ request : PermissionRequest,
      (hashedText to_string request).toList.splitOn NUL =
        pieces request ++ [(to_string (canonicalize_json request.context)).toList] := by
    intro request
    have hf := splitOn_fields ((keyFields request).map String.toList)
      (hco (canonicalize_json request.context))
    simpa [hashedText, pieces, flatMap_map] using hf
  constructor
  · intro heq
    have hl := hs request
    rw [heq, hs request'] at hl
    obtain ⟨hp, hc⟩ := append_inj' hl rfl
    exact ⟨hp.symm, String.toList_inj.mp (by simpa using hc.symm)⟩
  · rintro ⟨hp, hc⟩
    have hsa : (hashedText to_string request).toList.splitOn NUL =
        (hashedText to_string request').toList.splitOn NUL := by
      rw [hs, hs, hp, hc]
    have hj := congrArg (List.intercalate [NUL]) hsa
    rw [intercalate_splitOn, intercalate_splitOn] at hj
    exact String.toList_inj.mp hj

/-- The requests are the same in every field, up to the order of the keys in the context. -/
structure Agree (request request' : PermissionRequest) : Prop where
  principal : request.principal = request'.principal
  resource : request.resource = request'.resource
  action : request.action = request'.action
  requested_scopes : request.requested_scopes = request'.requested_scopes
  context : canonicalize_json request.context = canonicalize_json request'.context

namespace Agree

variable {a b c : PermissionRequest}

theorem refl (a : PermissionRequest) : Agree a a := ⟨rfl, rfl, rfl, rfl, rfl⟩

theorem symm (h : Agree a b) : Agree b a :=
  ⟨h.principal.symm, h.resource.symm, h.action.symm, h.requested_scopes.symm, h.context.symm⟩

theorem trans (h : Agree a b) (h' : Agree b c) : Agree a c :=
  ⟨h.principal.trans h'.principal, h.resource.trans h'.resource, h.action.trans h'.action,
    h.requested_scopes.trans h'.requested_scopes, h.context.trans h'.context⟩

end Agree

def PiecesTell (requests : Set PermissionRequest) : Prop :=
  ∀ a ∈ requests, ∀ b ∈ requests, pieces a = pieces b →
    canonicalize_json a.context = canonicalize_json b.context → Agree a b

/-- What is known of the hash and of the printer of `serde_json`: on the requests at hand
different texts have different hashes and different values different texts, and control
characters are escaped. -/
structure Faithful (sha256_hex : String → String) (to_string : Value → String)
    (requests : Set PermissionRequest) : Prop where
  hashes : Set.InjOn sha256_hex (hashedText to_string '' requests)
  texts : Set.InjOn to_string ((fun r => canonicalize_json r.context) '' requests)
  control : ∀ value, NUL ∉ (to_string value).toList

theorem cache_key_eq_iff {requests : Set PermissionRequest}
    (h : Faithful sha256_hex to_string requests) {a b : PermissionRequest} (ha : a ∈ requests)
    (hb : b ∈ requests) :
    cache_key sha256_hex to_string a = cache_key sha256_hex to_string b ↔
      pieces a = pieces b ∧ canonicalize_json a.context = canonicalize_json b.context := by
  unfold cache_key
  rw [h.hashes.eq_iff ⟨a, ha, rfl⟩ ⟨b, hb, rfl⟩, hashedText_eq_iff h.control,
    h.texts.eq_iff ⟨a, ha, rfl⟩ ⟨b, hb, rfl⟩]

end

/-! ## What is served -/

section

variable {sha256_hex : String → String} {to_string : Value → String}
  {options : PermissionCacheOptions} {requests : Set PermissionRequest}
  {inner : PermissionRequest → Except AuthError PermissionDecision} {decision : PermissionDecision}
  {w : World}

/-- Every decision in the cache was made for a request with its key. -/
def Made (sha256_hex : String → String) (to_string : Value → String)
    (requests : Set PermissionRequest)
    (inner : PermissionRequest → Except AuthError PermissionDecision) (cache : Cache) : Prop :=
  ∀ row ∈ cache.rows, ∃ request ∈ requests,
    cache_key sha256_hex to_string request = row.1 ∧ inner request = .ok row.2.decision

section

variable (hmade : Made sha256_hex to_string requests inner w.cache)

include hmade

theorem evaluate_eq {call : Call} (hc : call.request ∈ requests)
    (hs : ∀ decision, lookup options w.cache (w.now + call.waited)
      (cache_key sha256_hex to_string call.request) = some decision →
        inner call.request = .ok decision) :
    (evaluate sha256_hex to_string options inner w call).2 = inner call.request ∧
      Made sha256_hex to_string requests inner
        (evaluate sha256_hex to_string options inner w call).1.cache := by
  cases hl : lookup options w.cache (w.now + call.waited)
      (cache_key sha256_hex to_string call.request) with
  | some decision =>
    simp only [evaluate, hl]
    exact ⟨(hs decision hl).symm, hmade⟩
  | none =>
    cases hi : inner call.request with
    | error err =>
      simp only [evaluate, hl, hi]
      exact ⟨trivial, hmade⟩
    | ok decision =>
      simp only [evaluate, hl, hi, true_and]
      intro row hr
      rcases (mem_insert _ _ _ _).mp hr with rfl | ⟨hold, -⟩
      · exact ⟨call.request, hc, rfl, hi⟩
      · exact hmade row (mem_of_make_room hold)

theorem answers_eq {calls : List Call} (hca : ∀ call ∈ calls, call.request ∈ requests)
    (hs : ∀ cache, Made sha256_hex to_string requests inner cache → ∀ call ∈ calls,
      ∀ now decision, lookup options cache now (cache_key sha256_hex to_string call.request) =
        some decision → inner call.request = .ok decision) :
    answers sha256_hex to_string options inner w calls =
      calls.map fun call => inner call.request := by
  induction calls generalizing w with
  | nil => rfl
  | cons call calls ih =>
    obtain ⟨ha, hma'⟩ := evaluate_eq hmade (hca call mem_cons_self)
      (hs w.cache hmade call mem_cons_self _)
    rw [map_cons]
    simp only [answers, ha]
    congr 1
    exact ih hma' (fun c hc => hca c (.tail _ hc))
      fun cache hc c hm => hs cache hc c (.tail _ hm)

end

theorem of_lookup {cache : Cache} {now : Nat} {key : String}
    (h : lookup options cache now key = some decision) :
    ∃ entry, (key, entry) ∈ cache.rows ∧ entry.decision = decision ∧
      0 < ttl_for options decision := by
  obtain ⟨entry, he, rfl⟩ := map_eq_some_iff.mp h
  obtain ⟨hg, hf⟩ := filter_eq_some_iff.mp he
  refine ⟨entry, get_eq_some.mp hg, rfl, ?_⟩
  simp only [fresh, decide_eq_true_eq] at hf
  omega

/-- Every sequence of calls is answered as the inner evaluator answers, whatever it is. -/
def ServesOwn (sha256_hex : String → String) (to_string : Value → String)
    (options : PermissionCacheOptions) (requests : Set PermissionRequest) : Prop :=
  ∀ inner : PermissionRequest → Except AuthError PermissionDecision,
    (∀ a b, Agree a b → inner a = inner b) → ∀ (now : Nat) (calls : List Call),
      (∀ call ∈ calls, call.request ∈ requests) →
        answers sha256_hex to_string options inner ⟨now, .empty⟩ calls =
          calls.map fun call => inner call.request

/-- A request is served what was decided a moment ago for another one with its key. -/
theorem second_answer {a b : PermissionRequest} (ha : inner a = .ok decision)
    (ht : 0 < ttl_for options decision)
    (hk : cache_key sha256_hex to_string a = cache_key sha256_hex to_string b) :
    answers sha256_hex to_string options inner ⟨0, .empty⟩ [⟨a, 0, 0, 0⟩, ⟨b, 0, 0, 0⟩] =
      [.ok decision, .ok decision] := by
  have hf : evaluate sha256_hex to_string options inner ⟨0, .empty⟩ ⟨a, 0, 0, 0⟩ =
      (⟨0, (evict_if_needed options .empty 0).insert (cache_key sha256_hex to_string b)
        ⟨decision, 0⟩⟩, .ok decision) := by
    simp only [evaluate, lookup, get_empty, filter_none, map_none, ha, hk, Nat.add_zero]
  have hl : lookup options ((evict_if_needed options .empty 0).insert
      (cache_key sha256_hex to_string b) ⟨decision, 0⟩) 0 (cache_key sha256_hex to_string b) =
        some decision := by
    simp [lookup, fresh, Option.filter, ht]
  have hs : (evaluate sha256_hex to_string options inner
      ⟨0, (evict_if_needed options .empty 0).insert (cache_key sha256_hex to_string b)
        ⟨decision, 0⟩⟩ ⟨b, 0, 0, 0⟩).2 = .ok decision := by
    simp only [evaluate, Nat.add_zero, hl]
  simp only [answers, hf, hs]

/-- A decision that another one shows not to be its own, and that the cache keeps. -/
theorem exists_kept_decision (h : ¬(options.positive_ttl = 0 ∧ options.negative_ttl = 0)) :
    ∃ kept other : PermissionDecision, kept ≠ other ∧ 0 < ttl_for options kept := by
  by_cases hp : options.positive_ttl = 0
  · refine ⟨.Denied "", .Granted, by decide, ?_⟩
    exact Nat.pos_of_ne_zero fun hn => h ⟨hp, hn⟩
  · exact ⟨.Granted, .Denied "", by decide, Nat.pos_of_ne_zero hp⟩

/-- The cache serves each request its own decision if and only if it keeps nothing, or no two
of the requests have the same pieces and the same context and differ in any field. -/
theorem served_its_own_decision_iff (options : PermissionCacheOptions)
    (hfaithful : Faithful sha256_hex to_string requests) :
    (ServesOwn sha256_hex to_string options requests ↔
        (options.positive_ttl = 0 ∧ options.negative_ttl = 0) ∨ PiecesTell requests) ∧
      ((∀ a ∈ requests, ∀ b ∈ requests,
          cache_key sha256_hex to_string a = cache_key sha256_hex to_string b → Agree a b) ↔
        PiecesTell requests) := by
  have hk : (∀ a ∈ requests, ∀ b ∈ requests,
      cache_key sha256_hex to_string a = cache_key sha256_hex to_string b → Agree a b) ↔
        PiecesTell requests := by
    constructor
    · intro h a ha b hb hp hc
      exact h a ha b hb ((cache_key_eq_iff hfaithful ha hb).mpr ⟨hp, hc⟩)
    · intro h a ha b hb hke
      obtain ⟨hp, hc⟩ := (cache_key_eq_iff hfaithful ha hb).mp hke
      exact h a ha b hb hp hc
  refine ⟨⟨?_, ?_⟩, hk⟩
  · intro hs
    by_cases hno : options.positive_ttl = 0 ∧ options.negative_ttl = 0
    · exact .inl hno
    · right
      rw [← hk]
      intro a ha b hb hke
      by_contra hd
      obtain ⟨kept, other, hne, htt⟩ := exists_kept_decision hno
      -- an evaluator that tells the two requests apart
      classical
      let inner : PermissionRequest → Except AuthError PermissionDecision :=
        fun r => .ok (if Agree r a then kept else other)
      have hi : ∀ r r', Agree r r' → inner r = inner r' := by
        intro r r' hr
        have hif : Agree r a ↔ Agree r' a := ⟨hr.symm.trans, hr.trans⟩
        simp only [inner, hif]
      have han := hs inner hi 0 [⟨a, 0, 0, 0⟩, ⟨b, 0, 0, 0⟩] (by simp [ha, hb])
      rw [second_answer (by simp only [inner, if_pos (Agree.refl a)]) htt hke] at han
      have hb' : ¬Agree b a := fun h => hd h.symm
      simp only [map_cons, inner, if_neg hb', List.cons.injEq, Except.ok.injEq] at han
      exact hne han.2.1
  · intro hco inner hi now calls hca
    have hmade : Made sha256_hex to_string requests inner (World.mk now .empty).cache := by
      intro row hro
      cases hro
    apply answers_eq hmade hca
    intro cache hmade call hcal now decision hl
    obtain ⟨entry, he, rfl, htt⟩ := of_lookup hl
    rcases hco with ⟨hpo, hn⟩ | ht
    · cases hde : entry.decision <;> simp [hde, ttl_for, hpo, hn] at htt
    · obtain ⟨request, hre, hke, hm⟩ := hmade _ he
      have hag := hk.mpr ht request hre call.request (hca call hcal) hke
      rw [← hi request call.request hag]
      exact hm

end

/-- `alice` with some roles asks to read something. -/
def aliceReads (roles : List String) (resource : String) : PermissionRequest :=
  ⟨⟨"alice", "test", [], ["read"], roles, .Object []⟩, resource, "read", ["read"], .Object []⟩

def twoHashes (text : String) : String :=
  if text = "alice\x00test\x00/orders\x00read\x00read\x00\x7b\x7d" then
    "3d199904d167bdefc25dfbc57df48ba74cf5cbe2686747dd22862cfef7d6ea10"
  else if text = "alice\x00test\x00/invoices\x00read\x00read\x00\x7b\x7d" then
    "4d253018285b42902e9c9a937d77925fce8e2db72a750de1de996413b160ca76"
  else ""

/-- The text of the one context. -/
def emptyObject (_ : Value) : String := "\x7b\x7d"

def oneSecond : PermissionCacheOptions := ⟨10 ^ 9, 10 ^ 9, 10000⟩

/-- Only orders can be read. -/
def ordersOnly (request : PermissionRequest) : Except AuthError PermissionDecision :=
  if request.resource = "/orders" then .ok .Granted else .ok (.Denied "orders only")

/-- Only an admin can read. -/
def adminsOnly (request : PermissionRequest) : Except AuthError PermissionDecision :=
  if "admin" ∈ request.principal.roles then .ok .Granted else .ok (.Denied "admins only")

theorem twoHashes_faithful : Faithful twoHashes emptyObject
    {aliceReads [] "/orders", aliceReads [] "/invoices"} where
  hashes := by
    rintro _ ⟨a, rfl | rfl, rfl⟩ _ ⟨b, rfl | rfl, rfl⟩ h
    · rfl
    · exact absurd h (by decide +kernel)
    · exact absurd h (by decide +kernel)
    · rfl
  texts := by
    rintro _ ⟨a, rfl | rfl, rfl⟩ _ ⟨b, rfl | rfl, rfl⟩ _ <;> rfl
  control := by
    intro value
    unfold emptyObject
    decide

theorem different_resources_are_told_apart :
    answers twoHashes emptyObject oneSecond ordersOnly ⟨0, .empty⟩
        [⟨aliceReads [] "/orders", 0, 0, 0⟩, ⟨aliceReads [] "/invoices", 0, 0, 0⟩] =
      [.ok .Granted, .ok (.Denied "orders only")] := by
  have ht : PiecesTell {aliceReads [] "/orders", aliceReads [] "/invoices"} := by
    rintro a (rfl | rfl) b (rfl | rfl) hp _
    · exact .refl _
    · exact absurd hp (by decide +kernel)
    · exact absurd hp (by decide +kernel)
    · exact .refl _
  have hs := (served_its_own_decision_iff oneSecond twoHashes_faithful).1.mpr
    (.inr ht)
  have hi : ∀ a b, Agree a b → ordersOnly a = ordersOnly b := by
    intro a b h
    simp only [ordersOnly, h.resource]
  exact hs ordersOnly hi 0 _ (by simp)

/-- A request without the role is served what was decided for one with it. -/
theorem roles_are_not_told_apart :
    hashedText emptyObject (aliceReads ["admin"] "/orders") =
        hashedText emptyObject (aliceReads [] "/orders") ∧
      answers twoHashes emptyObject oneSecond adminsOnly ⟨0, .empty⟩
          [⟨aliceReads ["admin"] "/orders", 0, 0, 0⟩, ⟨aliceReads [] "/orders", 0, 0, 0⟩] =
        [.ok .Granted, .ok .Granted] ∧
      adminsOnly (aliceReads [] "/orders") = .ok (.Denied "admins only") := by
  decide +kernel

end camel_auth.permission_cache
