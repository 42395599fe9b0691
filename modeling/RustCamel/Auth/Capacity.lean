-- The bounds of the two caches of `camel-auth`, when calls run at the same time. A call makes
-- room in one critical section and stores in another, so calls that make room before any of
-- them stores all count on the same free place.
import RustCamel.Auth.AuthnCache
import RustCamel.Auth.SingleFlight
import RustCamel.Lib.BoundedWriters

open Option OrdMap

/-! ## The cache of decisions -/

namespace camel_auth.permission_cache

/-- The key that a call has made room for and has not stored yet. -/
def Evaluation.stores (t : Evaluation) : Option String :=
  match t.stage with
  | .Inserting _ _ => some t.key
  | _ => none

/-- A call that makes room does so while no other is between its two sections, or leaves room
for all of them. -/
def leavesRoom (options : PermissionCacheOptions) (s : Interleaving.State Shared Evaluation) :
    Interleaving.Event camel_auth.permission.PermissionRequest Answer → Bool
  | .step i (.go passed) =>
    match s.tasks[i]? with
    | some ⟨_, key, .Evicting _ _⟩ =>
      decide (OrdMap.Fits options.max_entries
        (evict_if_needed options s.shared.cache (s.shared.now + passed))
        (OrdMap.waiting Evaluation.stores s.tasks) key)
    | _ => true
  | _ => true

section

variable {options : PermissionCacheOptions} {s : Interleaving.State Shared Evaluation} {i : Nat}
  {answer : Answer} {t t' : Evaluation} {shared : Shared}

theorem advance_writes (hr : leavesRoom options s (.step i answer) = true)
    (ht : s.tasks[i]? = some t) (h : advance options s.shared t answer = some (shared, t')) :
    OrdMap.Writes options.max_entries s.shared.cache (OrdMap.waiting Evaluation.stores s.tasks)
      t.stores shared.cache t'.stores := by
  obtain ⟨request, key, stage⟩ := t
  cases answer with
  | go passed =>
    cases stage with
    | Reading now | Checking now mutex =>
      simp only [advance] at h
      split at h <;> (cases h; exact .keep subset_rfl (.inl rfl))
    | Locking now mutex =>
      simp only [advance] at h
      split at h
      · cases h
      · cases h
        exact .keep subset_rfl (.inl rfl)
    | Evicting mutex decision =>
      cases h
      simp only [leavesRoom, ht, decide_eq_true_eq] at hr
      exact .make_room hr
    | Inserting mutex decision =>
      cases h
      exact .store
    | _ => cases h <;> exact .keep subset_rfl (.inl rfl)
  | inner result =>
    cases stage <;> cases result <;> simp only [advance, reduceCtorEq] at h
    all_goals
      cases h
      exact .keep subset_rfl (.inl rfl)
  | dropped =>
    cases stage <;> simp only [advance, reduceCtorEq] at h
    all_goals
      cases h
      exact .keep subset_rfl (.inr rfl)

theorem exists_advance_of_stores {key : String} (h : t.stores = some key) :
    ∃ answer shared' t', advance options shared t answer = some (shared', t') ∧
      shared'.cache.keys = {key} ∪ shared.cache.keys ∧ t'.stores = none := by
  obtain ⟨request, key', stage⟩ := t
  cases stage <;> simp only [Evaluation.stores, reduceCtorEq, Option.some.injEq] at h
  case Inserting mutex decision =>
    subst h
    exact ⟨.go 0, _, _, rfl, OrdMap.keys_insert _ _ _, rfl⟩

theorem evicting_of_no_room {e : Interleaving.Event camel_auth.permission.PermissionRequest Answer}
    (h : leavesRoom options s e = false) :
    ∃ i passed request key mutex decision, e = .step i (.go passed) ∧
      s.tasks[i]? = some ⟨request, key, .Evicting mutex decision⟩ ∧
      ¬OrdMap.Fits options.max_entries
        (evict_if_needed options s.shared.cache (s.shared.now + passed))
        (OrdMap.waiting Evaluation.stores s.tasks) key := by
  unfold leavesRoom at h
  split at h
  · rename_i i passed
    split at h
    · rename_i request key mutex decision ht
      exact ⟨i, passed, request, key, mutex, decision, rfl, ht, of_decide_eq_false h⟩
    · cases h
  · cases h

end

end camel_auth.permission_cache

/-! ## The cache of authentications -/

namespace camel_auth.authn_cache

/-- The key that a call has made room for and is going to store. -/
def Task.stores (instant_max : Nat) : Task → Option AuthnCacheKey
  | .Storing key _ expires_at => if expires_at ≤ instant_max then some key else none
  | _ => none

/-- As for the decisions, for calls that are going to store. -/
def leavesRoom (options : AuthnCacheOptions) (instant_max : Nat)
    (s : Interleaving.State Shared Task) : Interleaving.Event Call Tick → Bool
  | .spawn _ => true
  | .step i tick =>
    match s.tasks[i]? with
    | some (.Evicting key _ expires_at) =>
      if expires_at ≤ instant_max then
        decide (OrdMap.Fits options.max_entries
          (evict_if_needed options s.shared.cache (s.shared.now + tick.passed))
          (OrdMap.waiting (Task.stores instant_max) s.tasks) key)
      else true
    | _ => true

section

variable {options : AuthnCacheOptions} {instant_max : Nat}
  {s : Interleaving.State Shared Task} {i : Nat} {tick : Tick} {t t' : Task} {shared : Shared}

theorem advance_writes (hr : leavesRoom options instant_max s (.step i tick) = true)
    (ht : s.tasks[i]? = some t)
    (h : advance options instant_max s.shared t tick = some (shared, t')) :
    OrdMap.Writes options.max_entries s.shared.cache
      (OrdMap.waiting (Task.stores instant_max) s.tasks) (t.stores instant_max) shared.cache
      (t'.stores instant_max) := by
  cases t with
  | Inserting key principal =>
    simp only [advance] at h
    split at h <;> (cases h; exact .keep subset_rfl (.inl rfl))
  | Evicting key principal expires_at =>
    cases h
    simp only [leavesRoom, ht] at hr
    by_cases hm : expires_at ≤ instant_max
    · rw [if_pos hm, decide_eq_true_eq] at hr
      simp only [Task.stores, if_pos hm]
      exact .make_room hr
    · -- a call that is going to panic makes room for nothing
      simp only [Task.stores, if_neg hm]
      refine .keep ?_ (.inl rfl)
      intro key hk
      obtain ⟨value, hv⟩ := mem_keys.mp hk
      exact mem_keys.mpr ⟨value, mem_of_make_room hv⟩
  | Storing key principal expires_at =>
    simp only [advance] at h
    split at h
    · rename_i hm
      cases h
      simp only [Task.stores, if_pos hm]
      exact .store
    · cases h
      exact .keep subset_rfl (.inr rfl)
  | Getting key | Counting =>
    cases h
    exact .keep subset_rfl (.inl rfl)
  | _ => cases h

theorem exists_advance_of_stores {key : AuthnCacheKey} (h : t.stores instant_max = some key) :
    ∃ tick shared' t', advance options instant_max shared t tick = some (shared', t') ∧
      shared'.cache.keys = {key} ∪ shared.cache.keys ∧ t'.stores instant_max = none := by
  cases t <;> simp only [Task.stores, reduceCtorEq, ite_none_right_eq_some, Option.some.injEq] at h
  case Storing key' principal expires_at =>
    obtain ⟨hm, rfl⟩ := h
    refine ⟨⟨0, 0⟩, ⟨shared.now, shared.cache.insert key' ⟨principal, expires_at⟩⟩, .Inserted true,
      ?_, OrdMap.keys_insert _ _ _, rfl⟩
    simp only [advance, if_pos hm, Nat.add_zero]

theorem evicting_of_no_room {e : Interleaving.Event Call Tick}
    (h : leavesRoom options instant_max s e = false) :
    ∃ i tick key principal expires_at, e = .step i tick ∧
      s.tasks[i]? = some (.Evicting key principal expires_at) ∧ expires_at ≤ instant_max ∧
      ¬OrdMap.Fits options.max_entries
        (evict_if_needed options s.shared.cache (s.shared.now + tick.passed))
        (OrdMap.waiting (Task.stores instant_max) s.tasks) key := by
  unfold leavesRoom at h
  split at h
  · cases h
  · rename_i i tick
    split at h
    · rename_i key principal expires_at ht
      split at h
      · rename_i hm
        exact ⟨i, tick, key, principal, expires_at, rfl, ht, hm, of_decide_eq_false h⟩
      · cases h
    · cases h

end

end camel_auth.authn_cache

/-! ## Both caches -/

namespace camel_auth

open camel_api (Value)
open camel_auth.authn_cache (AuthnCacheOptions)
open camel_auth.permission_cache (PermissionCacheOptions)

/-- A cache keeps its bound in every run in which calls leave room for each other. Where one
does not, the cache can come to have more entries than its bound. -/
theorem caches_keep_bound_where_room_is_left (sha256_hex : String → String)
    (to_string : Value → String) (permissions : PermissionCacheOptions) (authn : AuthnCacheOptions)
    (instant_max now : Nat) (hpermissions : 1 ≤ permissions.max_entries)
    (hauthn : 1 ≤ authn.max_entries) :
    let evaluations := permission_cache.evaluations sha256_hex to_string permissions
    let calls := authn_cache.calls authn instant_max
    ((∀ s, evaluations.Reach (fun s e => permission_cache.leavesRoom permissions s e = true)
          ⟨⟨now, .empty, .new⟩, []⟩ s → s.shared.cache.rows.length ≤ permissions.max_entries) ∧
        ∀ s s' e, evaluations.step s e = some s' →
          permission_cache.leavesRoom permissions s e = false →
          ∃ s'', evaluations.Reach Interleaving.Free s' s'' ∧
            permissions.max_entries < s''.shared.cache.rows.length) ∧
      (∀ s, calls.Reach (fun s e => authn_cache.leavesRoom authn instant_max s e = true)
          ⟨⟨now, .empty⟩, []⟩ s → s.shared.cache.rows.length ≤ authn.max_entries) ∧
        ∀ s s' e, calls.step s e = some s' →
          authn_cache.leavesRoom authn instant_max s e = false →
          ∃ s'', calls.Reach Interleaving.Free s' s'' ∧
            authn.max_entries < s''.shared.cache.rows.length := by
  intro evaluations calls
  refine ⟨⟨?_, ?_⟩, ?_, ?_⟩
  · intro s hr
    refine bounded_of_reach permission_cache.Shared.cache
      permission_cache.Evaluation.stores hr hpermissions rfl rfl (fun _ => rfl) ?_
    intro s i t answer shared t' hro ht ha
    exact permission_cache.advance_writes hro ht ha
  · intro s s' e hs hro
    obtain ⟨i, passed, request, key, mutex, decision, rfl, ht, hf⟩ :=
      permission_cache.evicting_of_no_room hro
    simp only [Interleaving.step, ht] at hs
    cases hs
    exact overfull_of_not_fits permission_cache.Shared.cache
      permission_cache.Evaluation.stores
      (fun _ _ _ => permission_cache.exists_advance_of_stores) ht rfl rfl hf
  · intro s hr
    refine bounded_of_reach authn_cache.Shared.cache
      (authn_cache.Task.stores instant_max) hr hauthn rfl rfl ?_ ?_
    · intro call
      cases call <;> rfl
    · intro s i t tick shared t' hro ht ha
      exact authn_cache.advance_writes hro ht ha
  · intro s s' e hs hro
    obtain ⟨i, tick, key, principal, expires_at, rfl, ht, hm, hf⟩ :=
      authn_cache.evicting_of_no_room hro
    simp only [Interleaving.step, ht] at hs
    cases hs
    exact overfull_of_not_fits authn_cache.Shared.cache
      (authn_cache.Task.stores instant_max)
      (fun _ _ _ => authn_cache.exists_advance_of_stores) ht rfl (if_pos hm) hf

/-- Two requests that make room before either stores its decision. -/
def twoEvaluations :
    List (Interleaving.Event permission.PermissionRequest permission_cache.Answer) :=
  [.spawn (permission_cache.aliceReads [] "/orders"),
    .spawn (permission_cache.aliceReads [] "/invoices"),
    .step 0 (.go 0), .step 0 (.go 0), .step 0 (.go 0), .step 0 (.go 0), .step 0 (.go 0),
    .step 0 (.inner (.ok .Granted)),
    .step 1 (.go 0), .step 1 (.go 0), .step 1 (.go 0), .step 1 (.go 0), .step 1 (.go 0),
    .step 1 (.inner (.ok .Granted)),
    .step 0 (.go 0), .step 1 (.go 0), .step 0 (.go 0), .step 1 (.go 0)]

/-- `alice`, whose token has no `exp` claim. -/
def alice : kernel.AuthenticatedPrincipal := ⟨⟨"alice", "test", [], [], [], .Object []⟩, "local"⟩

def tokenHashes (token : String) : String :=
  if token = "a" then "ca978112ca1bbdcafac231b39a23dc4da786eff8147c4e72b9807785afee48bb"
  else "3e23e8160039594a33894f6564e1b1348bbd7a0088d42c4acb73eeaed59c009d"

/-- Two authentications that make room before either is stored. -/
def twoInserts : List (Interleaving.Event authn_cache.Call authn_cache.Tick) :=
  [.spawn (.insert (.new tokenHashes "local" [] [] .Http "a") alice),
    .spawn (.insert (.new tokenHashes "local" [] [] .Http "b") alice),
    .step 0 ⟨0, 0⟩, .step 1 ⟨0, 0⟩, .step 0 ⟨0, 0⟩, .step 1 ⟨0, 0⟩, .step 0 ⟨0, 0⟩, .step 1 ⟨0, 0⟩]

theorem room_for_two_is_enough_for_two :
    (∃ s, (permission_cache.evaluations permission_cache.twoHashes permission_cache.emptyObject
          ⟨10 ^ 9, 10 ^ 9, 2⟩).run (permission_cache.leavesRoom ⟨10 ^ 9, 10 ^ 9, 2⟩)
            ⟨⟨0, .empty, .new⟩, []⟩ twoEvaluations = some s ∧ s.shared.cache.rows.length ≤ 2) ∧
      ∃ s, (authn_cache.calls ⟨10 ^ 9, 2⟩ (2 ^ 63 * 10 ^ 9 - 1)).run
          (authn_cache.leavesRoom ⟨10 ^ 9, 2⟩ (2 ^ 63 * 10 ^ 9 - 1)) ⟨⟨0, .empty⟩, []⟩ twoInserts =
            some s ∧ s.shared.cache.rows.length ≤ 2 := by
  have hb := caches_keep_bound_where_room_is_left permission_cache.twoHashes
    permission_cache.emptyObject ⟨10 ^ 9, 10 ^ 9, 2⟩ ⟨10 ^ 9, 2⟩ (2 ^ 63 * 10 ^ 9 - 1) 0
    (by decide) (by decide)
  obtain ⟨s, hs⟩ := isSome_iff_exists.mp (by decide +kernel :
    ((permission_cache.evaluations permission_cache.twoHashes permission_cache.emptyObject
      ⟨10 ^ 9, 10 ^ 9, 2⟩).run (permission_cache.leavesRoom ⟨10 ^ 9, 10 ^ 9, 2⟩)
        ⟨⟨0, .empty, .new⟩, []⟩ twoEvaluations).isSome = true)
  obtain ⟨s', hs'⟩ := isSome_iff_exists.mp (by decide +kernel :
    ((authn_cache.calls ⟨10 ^ 9, 2⟩ (2 ^ 63 * 10 ^ 9 - 1)).run
      (authn_cache.leavesRoom ⟨10 ^ 9, 2⟩ (2 ^ 63 * 10 ^ 9 - 1)) ⟨⟨0, .empty⟩, []⟩
        twoInserts).isSome = true)
  exact ⟨⟨s, hs, hb.1.1 s (Interleaving.reach_of_run hs)⟩,
    s', hs', hb.2.1 s' (Interleaving.reach_of_run hs')⟩

/-- With a bound of one entry each cache comes to have two. -/
theorem two_writers_overfill_one_entry :
    ((permission_cache.evaluations permission_cache.twoHashes permission_cache.emptyObject
        ⟨10 ^ 9, 10 ^ 9, 1⟩).run (fun _ _ => true) ⟨⟨0, .empty, .new⟩, []⟩ twoEvaluations).map
          (·.shared.cache.rows.length) = some 2 ∧
      ((authn_cache.calls ⟨10 ^ 9, 1⟩ (2 ^ 63 * 10 ^ 9 - 1)).run (fun _ _ => true)
        ⟨⟨0, .empty⟩, []⟩ twoInserts).map (·.shared.cache.rows.length) = some 2 := by
  decide +kernel

end camel_auth
