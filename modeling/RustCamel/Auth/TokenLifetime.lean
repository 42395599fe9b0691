-- How long the cache of `camel-auth/src/authn_cache.rs` serves a principal, against the expiry of
-- its token. The wall clock is read in whole seconds and the deadline stands on the other clock, so
-- an entry outlives its token by the part of a second that was cut off. An expiry that is not a
-- `u64` is not seen at all.
import Mathlib.Tactic.NormNum
import RustCamel.Auth.AuthnCache
import RustCamel.Processor.ValueOrder

namespace camel_auth.authn_cache

open camel_api (Number Value value_get)
open camel_auth.kernel (AuthenticatedPrincipal)
open camel_processor.sort (F64)

/-- The seconds that a numeric claim stands for. -/
def seconds : Number → Option ℚ
  | .PosInt n => some n.toNat
  | .NegInt n => some n.toInt
  | .Float bits =>
    match F64.of_bits bits with
    | .finite q => some q
    | _ => none

variable {options : AuthnCacheOptions} {instant_max : Nat} {cache cache' : Cache}
  {key : AuthnCacheKey} {principal : AuthenticatedPrincipal} {now evicted_at lifetime : Nat}
  {wall offset : Int} {exp : ℚ}

theorem insert_stores_iff :
    insert options instant_max cache key principal now wall evicted_at = (cache', some true) ↔
      ∃ lifetime, authn_cache.lifetime options principal wall = some lifetime ∧
        now + lifetime ≤ instant_max ∧
        (evict_if_needed options cache evicted_at).insert key ⟨principal, now + lifetime⟩ =
          cache' := by
  unfold insert
  cases authn_cache.lifetime options principal wall with
  | none => simp
  | some lifetime =>
    by_cases hm : now + lifetime ≤ instant_max
    · simp [hm]
    · simp [hm]

/-- An entry that is dead by the time it is stored, or that cannot be stored. -/
def idle (instant_max now evicted_at lifetime : Nat) : Prop :=
  now + lifetime ≤ evicted_at ∨ instant_max < now + lifetime

/-- The lookups that find the entry come one after the other up to its deadline, so the last of
them decides. -/
theorem lookups_before_iff :
    (∀ t, evicted_at ≤ t → t < now + lifetime → ((offset + t : ℤ) : ℚ) < exp * 10 ^ 9) ↔
      ((offset + now + lifetime : ℤ) : ℚ) - 1 < exp * 10 ^ 9 ∨ now + lifetime ≤ evicted_at := by
  constructor
  · intro h
    by_cases hd : now + lifetime ≤ evicted_at
    · exact .inr hd
    · have hlast := h (now + lifetime - 1) (by omega) (by omega)
      have hcast : (offset + (now + lifetime - 1 : ℕ) : ℤ) = offset + now + lifetime - 1 := by omega
      rw [hcast] at hlast
      push_cast at hlast ⊢
      exact .inl hlast
  · intro h t hs ha
    rcases h with h | hd
    · have hle : (offset + t : ℤ) ≤ offset + now + lifetime - 1 := by omega
      have hl' : ((offset + t : ℤ) : ℚ) ≤ ((offset + now + lifetime - 1 : ℤ) : ℚ) :=
        Int.cast_le.mpr hle
      push_cast at hl' h ⊢
      exact lt_of_le_of_lt hl' h
    · omega

theorem served_in_time_iff :
    (∀ cache', insert options instant_max cache key principal now wall evicted_at =
        (cache', some true) → ∀ t, evicted_at ≤ t → get cache' t key ≠ none →
          ((offset + t : ℤ) : ℚ) < exp * 10 ^ 9) ↔
      ∀ lifetime, authn_cache.lifetime options principal wall = some lifetime →
        ((offset + now + lifetime : ℤ) : ℚ) - 1 < exp * 10 ^ 9 ∨
          idle instant_max now evicted_at lifetime := by
  constructor
  · intro h lifetime hl
    by_cases hm : now + lifetime ≤ instant_max
    · rw [idle, ← or_assoc, ← lookups_before_iff]
      left
      intro t hs ha
      refine h _ (insert_stores_iff.mpr ⟨lifetime, hl, hm, rfl⟩) t hs ?_
      simp [get, ha]
    · exact .inr (.inr (by omega))
  · intro h cache' hi t hs hse
    obtain ⟨lifetime, hl, hm, rfl⟩ := insert_stores_iff.mp hi
    have ha : t < now + lifetime := by
      by_contra hd
      simp [get, hd] at hse
    rcases h lifetime hl with h | hd | hla
    · exact lookups_before_iff.mpr (.inl h) t hs ha
    · omega
    · omega

/-- When the deadline of the entry is no later than the expiry. An expiry that is a `u64` is cut
down to the lifetime by the whole seconds of the wall clock, so the entry is in time when the
clock stood on a whole second as the call began, or when its configured lifetime ends first. Any
other expiry counts only against the configured lifetime. -/
def in_time (options : AuthnCacheOptions) (instant_max : Nat) (offset : Int)
    (now read_at evicted_at : Nat) (n : Number) (exp : ℚ) : Prop :=
  match n.as_u64 with
  | some exp =>
    let whole : Nat := (offset + read_at).toNat / 10 ^ 9
    exp ≤ whole ∨ offset + now ≤ whole * 10 ^ 9 ∨ offset + now + options.ttl ≤ exp * 10 ^ 9 ∨
      idle instant_max now evicted_at (min ((exp - whole) * 10 ^ 9) options.ttl)
  | none =>
    ((offset + now + options.ttl : ℤ) : ℚ) - 1 < exp * 10 ^ 9 ∨
      idle instant_max now evicted_at options.ttl

theorem before_seconds_iff (deadline : Int) (exp : Nat) :
    ((deadline : ℤ) : ℚ) - 1 < exp * 10 ^ 9 ↔ deadline ≤ exp * 10 ^ 9 := by
  have hcast : ((deadline : ℤ) : ℚ) - 1 < exp * 10 ^ 9 ↔
      ((deadline - 1 : ℤ) : ℚ) < ((exp * 10 ^ 9 : ℤ) : ℚ) := by
    push_cast
    rfl
  rw [hcast, Int.cast_lt]
  omega

/-- With the wall clock at `offset + t` when the other clock shows `t`, a principal that `insert`
stored is served only before its token expires, exactly when its deadline is in time. -/
theorem served_before_expiry_iff (options : AuthnCacheOptions) (instant_max : Nat) (cache : Cache)
    (key : AuthnCacheKey) (principal : AuthenticatedPrincipal) (offset : Int)
    (now read_at evicted_at : Nat) (n : Number) (exp : ℚ)
    (hclaim : value_get principal.principal.claims "exp" = some (.Number n))
    (hexp : seconds n = some exp) :
    (∀ cache', insert options instant_max cache key principal now (offset + read_at) evicted_at =
        (cache', some true) → ∀ t, evicted_at ≤ t → get cache' t key ≠ none →
          ((offset + t : ℤ) : ℚ) < exp * 10 ^ 9) ↔
      in_time options instant_max offset now read_at evicted_at n exp := by
  rw [served_in_time_iff]
  unfold in_time lifetime token_remaining
  simp only [hclaim, Option.bind_some, Value.as_u64]
  cases hn : n.as_u64 with
  | none => simp
  | some whole_exp =>
    have hs : exp = whole_exp := by
      cases n with
      | PosInt m =>
        simp only [Number.as_u64, Option.some.injEq] at hn
        simp only [seconds, Option.some.injEq] at hexp
        rw [← hexp, ← hn]
      | NegInt m | Float bits => simp [Number.as_u64] at hn
    subst hs
    simp only [Option.map_some]
    generalize (offset + read_at).toNat / 10 ^ 9 = whole
    by_cases ho : whole_exp ≤ whole
    · simp [ho, Nat.sub_eq_zero_of_le ho]
    · have hl : (whole_exp - whole) * 10 ^ 9 ≠ 0 := by omega
      simp only [hl, if_false, Option.some.injEq, forall_eq', before_seconds_iff, ho, false_or]
      rw [← or_assoc, or_congr_left]
      omega

/-- A principal whose token expires at the given second. -/
def bearer (exp : UInt64) : AuthenticatedPrincipal where
  principal := ⟨"carol", "local", [], [], [], .Object [("exp", .Number (.PosInt exp))]⟩
  provider_id := "local"

def bearerKey : AuthnCacheKey := ⟨"local", [], [], .Http, "c0ffee"⟩

/-- On the whole second 100, a token that expires at 101 is served for that second only. -/
theorem whole_second_is_in_time :
    (insert ⟨30 * 10 ^ 9, 8⟩ (2 ^ 63 * 10 ^ 9) .empty bearerKey (bearer 101) 0 (100 * 10 ^ 9) 0).2 =
        some true ∧
      ∀ cache', insert ⟨30 * 10 ^ 9, 8⟩ (2 ^ 63 * 10 ^ 9) .empty bearerKey (bearer 101) 0
        (100 * 10 ^ 9 + (0 : ℕ)) 0 = (cache', some true) → ∀ t, 0 ≤ t →
          get cache' t bearerKey ≠ none → ((100 * 10 ^ 9 + t : ℤ) : ℚ) < 101 * 10 ^ 9 := by
  refine ⟨by decide +kernel, ?_⟩
  exact (served_before_expiry_iff ⟨30 * 10 ^ 9, 8⟩ (2 ^ 63 * 10 ^ 9) .empty bearerKey (bearer 101)
    (100 * 10 ^ 9) 0 0 0 (.PosInt 101) 101 rfl rfl).mpr
      (.inr (.inl (by decide)))

/-- Half a second later the same token is served 200 ms after it has expired. -/
theorem half_second_is_late :
    ∃ cache', insert ⟨30 * 10 ^ 9, 8⟩ (2 ^ 63 * 10 ^ 9) .empty bearerKey (bearer 101) 0
        (1005 * 10 ^ 8) 0 = (cache', some true) ∧
      get cache' (7 * 10 ^ 8) bearerKey = some (bearer 101) ∧
      ¬ (((1005 * 10 ^ 8 + 7 * 10 ^ 8 : ℤ) : ℚ) < 101 * 10 ^ 9) := by
  refine ⟨_, insert_stores_iff.mpr ⟨10 ^ 9, by decide +kernel, by decide, rfl⟩, ?_, by norm_num⟩
  simp [get]

end camel_auth.authn_cache
