-- The cache of authentication results of `camel-auth/src/authn_cache.rs`. An entry lives for
-- the configured time, or until its token expires if that is sooner. Before an entry is stored
-- the cache makes room for it, in a critical section of its own, so calls of `insert` that run
-- at the same time can come in between.
import Mathlib.Data.List.Lex
import Mathlib.Data.Prod.Lex
import RustCamel.Auth.PermissionCache
import RustCamel.Lib.Interleaving

/-! ## Keys and entries -/

namespace camel_api.security_policy

inductive TransportId where
  | Http
  | Ws
  | Grpc
  | Mcp
  | Wasm

def TransportId.place : TransportId → Nat
  | .Http => 0
  | .Ws => 1
  | .Grpc => 2
  | .Mcp => 3
  | .Wasm => 4

theorem TransportId.place_injective : Function.Injective TransportId.place := by
  intro a b h
  cases a <;> cases b <;> first | rfl | cases h

end camel_api.security_policy

namespace camel_auth.kernel

structure AuthenticatedPrincipal where
  principal : camel_api.security_policy.Principal
  provider_id : String

end camel_auth.kernel

namespace camel_auth.authn_cache

open camel_api (value_get)
open camel_api.security_policy (TransportId)
open camel_auth.kernel (AuthenticatedPrincipal)

structure AuthnCacheKey where
  provider : String
  audiences : List String
  issuers : List String
  transport : TransportId
  token_hash : String

namespace AuthnCacheKey

/-- The key of a request. Of the token it has the hash only. -/
def new (sha256_hex : String → String) (provider : String) (audiences issuers : List String)
    (transport : TransportId) (token : String) : AuthnCacheKey :=
  ⟨provider, audiences, issuers, transport, sha256_hex token⟩

def fields (key : AuthnCacheKey) : String ×ₗ List String ×ₗ List String ×ₗ Nat ×ₗ String :=
  toLex (key.provider, toLex (key.audiences, toLex (key.issuers,
    toLex (key.transport.place, key.token_hash))))

theorem fields_injective : Function.Injective fields := by
  rintro ⟨provider, audiences, issuers, transport, token_hash⟩
    ⟨provider', audiences', issuers', transport', token_hash'⟩ h
  simp only [fields, EmbeddingLike.apply_eq_iff_eq, Prod.mk.injEq] at h
  obtain ⟨rfl, rfl, rfl, ht, rfl⟩ := h
  rw [TransportId.place_injective ht]

/-- The map of the model has its rows in an order. -/
instance : LinearOrder AuthnCacheKey := LinearOrder.lift' fields fields_injective

end AuthnCacheKey

/-- Durations and instants stand in nanoseconds. -/
structure AuthnCacheOptions where
  ttl : Nat
  max_entries : Nat

structure CacheEntry where
  principal : AuthenticatedPrincipal
  expires_at : Nat

abbrev Cache := OrdMap AuthnCacheKey CacheEntry

/-! ## Calls one after the other -/

/-- How long the token still lives by its `exp` claim, in seconds of the wall clock. The wall
clock stands in nanoseconds since the epoch. -/
def token_remaining (principal : AuthenticatedPrincipal) (wall : Int) : Option Nat :=
  ((value_get principal.principal.claims "exp").bind (·.as_u64)).map fun exp =>
    (exp - wall.toNat / 10 ^ 9) * 10 ^ 9

section

variable (options : AuthnCacheOptions) (instant_max : Nat)

/-- How long an entry lives. An expired token is not stored. -/
def lifetime (principal : AuthenticatedPrincipal) (wall : Int) : Option Nat :=
  match token_remaining principal wall with
  | some remaining => if remaining = 0 then none else some (min remaining options.ttl)
  | none => some options.ttl

def get (cache : Cache) (now : Nat) (key : AuthnCacheKey) : Option AuthenticatedPrincipal :=
  (cache.get key).bind fun entry => if now < entry.expires_at then some entry.principal else none

def evict_if_needed (cache : Cache) (now : Nat) : Cache :=
  cache.make_room (fun entry => !(now < entry.expires_at)) (·.expires_at) options.max_entries

/-- `insert`, with nobody else in between. `now` and `wall` are what its clocks show at first,
and `evicted_at` is when it makes room. An instant later than the last one panics, and then
there is no answer. -/
def insert (cache : Cache) (key : AuthnCacheKey) (principal : AuthenticatedPrincipal) (now : Nat)
    (wall : Int) (evicted_at : Nat) : Cache × Option Bool :=
  match lifetime options principal wall with
  | none => (cache, some false)
  | some lifetime =>
    let cache := evict_if_needed options cache evicted_at
    if now + lifetime ≤ instant_max then
      (cache.insert key ⟨principal, now + lifetime⟩, some true)
    else (cache, none)

/-! ## Calls at the same time -/

inductive Call where
  | insert (key : AuthnCacheKey) (principal : AuthenticatedPrincipal)
  | get (key : AuthnCacheKey)
  | len

/-- Where a call stands. -/
inductive Task where
  | Inserting (key : AuthnCacheKey) (principal : AuthenticatedPrincipal)
  | Evicting (key : AuthnCacheKey) (principal : AuthenticatedPrincipal) (expires_at : Nat)
  | Storing (key : AuthnCacheKey) (principal : AuthenticatedPrincipal) (expires_at : Nat)
  | Inserted (stored : Bool)
  | Panicked
  | Getting (key : AuthnCacheKey)
  | Got (found : Option AuthenticatedPrincipal)
  | Counting
  | Counted (len : Nat)

structure Shared where
  now : Nat
  cache : Cache

/-- What the clocks show at a step: the time since the last one, and the wall clock. -/
structure Tick where
  passed : Nat
  wall : Int

/-- One step of a call: a reading of the clocks, or one critical section. -/
def advance (s : Shared) (t : Task) (tick : Tick) : Option (Shared × Task) :=
  let s := { s with now := s.now + tick.passed }
  match t with
  | .Inserting key principal =>
    match lifetime options principal tick.wall with
    | none => some (s, .Inserted false)
    | some lifetime => some (s, .Evicting key principal (s.now + lifetime))
  | .Evicting key principal expires_at =>
    some ({ s with cache := evict_if_needed options s.cache s.now },
      .Storing key principal expires_at)
  | .Storing key principal expires_at =>
    if expires_at ≤ instant_max then
      some ({ s with cache := s.cache.insert key ⟨principal, expires_at⟩ }, .Inserted true)
    else some (s, .Panicked)
  | .Getting key => some (s, .Got (get s.cache s.now key))
  | .Counting => some (s, .Counted s.cache.rows.length)
  | .Inserted _ | .Panicked | .Got _ | .Counted _ => none

/-- Any number of calls over one cache. -/
def calls : Interleaving Shared Call Task Tick where
  start
    | .insert key principal => .Inserting key principal
    | .get key => .Getting key
    | .len => .Counting
  advance := advance options instant_max

end

end camel_auth.authn_cache
