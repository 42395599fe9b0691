-- The keys of the repositories over Redis: `keyspace.rs`, the sweeps of `cache_repo.rs` and
-- `idempotent_repo.rs` over the scan of `executor.rs`, and the keys of `payload_store.rs`. A colon
-- may stand in a token, so two different pairs of prefix and name may give one namespace, or one
-- inside the other.
import Mathlib.Data.Set.Basic
import Mathlib.Data.String.Basic
import RustCamel.Api.Exchange
import RustCamel.Lib.Batches
import RustCamel.Lib.Glob

open List

namespace camel_redis_repo

open camel_api.error (CamelError)

/-! ## Keys -/

def namespaced (prefix' repo key : String) : String := prefix' ++ ":" ++ repo ++ ":" ++ key

/-- A character of a namespace token. -/
def token_char (c : Char) : Bool := c.isAlphanum || c == ':' || c == '_' || c == '-'

def validate_namespace_token (kind value : String) : Except CamelError Unit :=
  let valid := !value.isEmpty && value.toList.all token_char
  if valid then .ok ()
  else
    .error (.Config (s!"{kind} '{value}': must be non-empty and use only [A-Za-z0-9:_-] " ++
      "(glob metacharacters are forbidden)"))

inductive Kind where
  | Cache
  | Idempotent
  | PayloadStore

/-- A repository over Redis. Its constructors validate both tokens. -/
structure Repository where
  kind : Kind
  key_prefix : String
  name : String
  prefix_valid : validate_namespace_token "key_prefix" key_prefix = .ok ()
  name_valid : validate_namespace_token "repository name" name = .ok ()

def RESERVED_PAYLOAD_SEGMENT : String := "payload:"

def Repository.redis_key (r : Repository) (key : String) : String :=
  match r.kind with
  | .Cache | .Idempotent => namespaced r.key_prefix r.name key
  | .PayloadStore => namespaced r.key_prefix r.name (RESERVED_PAYLOAD_SEGMENT ++ key)

/-! ## The server -/

inductive Cmd where
  | Scan (cursor : Nat) (pattern : String) (count : Nat)
  | Unlink (keys : List String)

inductive Value where
  | Page (next : Nat) (keys : List String)
  | Int (n : Nat)

/-- A Redis server as a repository reaches it. A command may fail, with or without effect. A scan
answers with keys that the pattern matches, and an unlink removes no key that it does not name. -/
structure Server where
  State : Type
  keys : State → Set String
  execute : State → Cmd → State × Except CamelError Value
  refresh : State → State × Except CamelError Unit
  is_transient_redis_error : CamelError → Bool
  scan_matches : ∀ s cursor pattern count next page,
    (execute s (.Scan cursor pattern count)).2 = .ok (.Page next page) →
      ∀ key ∈ page, Glob.is_match pattern.toList key.toList = true
  scan_keeps : ∀ s cursor pattern count, keys s ⊆ keys (execute s (.Scan cursor pattern count)).1
  unlink_keeps : ∀ s names key, key ∈ keys s → key ∉ names →
    key ∈ keys (execute s (.Unlink names)).1
  refresh_keeps : ∀ s, keys s ⊆ keys (refresh s).1

/-- A server that holds its keys in a list and answers a scan with one page. -/
def in_memory : Server where
  State := List String
  keys s := { key | key ∈ s }
  execute s
    | .Scan _ pattern _ =>
      (s, .ok (.Page 0 (s.filter fun key => Glob.is_match pattern.toList key.toList)))
    | .Unlink names => (s.filter (· ∉ names), .ok (.Int (s.countP (· ∈ names))))
  refresh s := (s, .ok ())
  is_transient_redis_error _ := true
  scan_matches := by
    intro s cursor pattern count next page hpage key hkey
    cases hpage
    exact (mem_filter.mp hkey).2
  scan_keeps _ _ _ _ _ hkey := hkey
  unlink_keeps := by
    intro s names key hkey hother
    exact mem_filter.mpr ⟨hkey, by simpa using hother⟩
  refresh_keeps _ _ hkey := hkey

/-! ## The sweeps -/

section

variable (server : Server)

/-- A command, and once more after a refresh when it failed in transport. -/
def execute_retry_safe (s : server.State) (cmd : Cmd) : server.State × Except CamelError Value :=
  match server.execute s cmd with
  | (s, .ok value) => (s, .ok value)
  | (s, .error err) =>
    if server.is_transient_redis_error err then
      match server.refresh s with
      | (s, .error e) => (s, .error e)
      | (s, .ok _) => server.execute s cmd
    else (s, .error err)

def PAGE : Nat := 100

def unlink_batches (s : server.State) (removed : Nat) :
    List (List String) → server.State × Except CamelError Nat
  | [] => (s, .ok removed)
  | batch :: batches =>
    match execute_retry_safe server s (.Unlink batch) with
    | (s, .error e) => (s, .error e)
    | (s, .ok (.Int n)) => unlink_batches s (removed + n) batches
    | (s, .ok (.Page _ _)) => (s, .error (.Io "UNLINK reply parse"))

/-- The first pages of a scan, at most `fuel` of them. No result means that the scan goes on. -/
def scan_unlink_pattern_where (pattern : String) (skip : String → Bool) :
    (fuel : Nat) → server.State → (cursor removed : Nat) →
      server.State × Option (Except CamelError Nat)
  | 0, s, _, _ => (s, none)
  | fuel + 1, s, cursor, removed =>
    match execute_retry_safe server s (.Scan cursor pattern PAGE) with
    | (s, .error e) => (s, some (.error e))
    | (s, .ok (.Int _)) => (s, some (.error (.Io "SCAN reply parse")))
    | (s, .ok (.Page next keys)) =>
      let live := keys.filter fun key => !skip key
      match unlink_batches server s removed (Batches.inBatches PAGE live) with
      | (s, .error e) => (s, some (.error e))
      | (s, .ok removed) =>
        if next = 0 then (s, some (.ok removed))
        else scan_unlink_pattern_where pattern skip fuel s next removed

/-- `clear` of a cache and of an idempotent repository. A payload store has none. -/
def Repository.clear (r : Repository) (fuel : Nat) (s : server.State) :
    server.State × Option (Except CamelError Nat) :=
  match r.kind with
  | .Cache | .Idempotent =>
    scan_unlink_pattern_where server (namespaced r.key_prefix r.name "*") (fun _ => false) fuel
      s 0 0
  | .PayloadStore => (s, none)

/-- `invalidate_prefix` of a cache. The others have none. -/
def Repository.invalidate_prefix (r : Repository) (start : String) (fuel : Nat)
    (s : server.State) : server.State × Option (Except CamelError Nat) :=
  match r.kind with
  | .Cache =>
    match validate_namespace_token "invalidate_prefix" start with
    | .error e => (s, some (.error e))
    | .ok _ =>
      let payload_guard := namespaced r.key_prefix r.name RESERVED_PAYLOAD_SEGMENT
      scan_unlink_pattern_where server (namespaced r.key_prefix r.name (start ++ "*"))
        (fun key => payload_guard.toList.isPrefixOf key.toList) fuel s 0 0
  | .Idempotent | .PayloadStore => (s, none)

end

/-! ## What a sweep leaves -/

section

variable {server : Server} {s : server.State} {key : String}

theorem scan_page (s : server.State) (cursor : Nat) (pattern : String) (count : Nat) :
    server.keys s ⊆ server.keys (execute_retry_safe server s (.Scan cursor pattern count)).1 ∧
      ∀ next page,
        (execute_retry_safe server s (.Scan cursor pattern count)).2 = .ok (.Page next page) →
        ∀ key ∈ page, Glob.is_match pattern.toList key.toList = true := by
  have hk := server.scan_keeps s cursor pattern count
  have hm := server.scan_matches s cursor pattern count
  unfold execute_retry_safe
  rcases he : server.execute s (.Scan cursor pattern count) with ⟨s₁, err | value⟩
  · rw [he] at hk hm
    dsimp only
    split
    · have hr := server.refresh_keeps s₁
      rcases hre : server.refresh s₁ with ⟨s₂, e | u⟩
      · rw [hre] at hr
        exact ⟨Set.Subset.trans hk hr, nofun⟩
      · rw [hre] at hr
        have hb := Set.Subset.trans hk hr
        exact ⟨Set.Subset.trans hb (server.scan_keeps s₂ cursor pattern count),
          server.scan_matches s₂ cursor pattern count⟩
    · exact ⟨hk, nofun⟩
  · rw [he] at hk hm
    exact ⟨hk, hm⟩

theorem unlink_spares {names : List String} (hke : key ∈ server.keys s) (ho : key ∉ names) :
    key ∈ server.keys (execute_retry_safe server s (.Unlink names)).1 := by
  have hk := server.unlink_keeps s names key hke ho
  unfold execute_retry_safe
  rcases he : server.execute s (.Unlink names) with ⟨s₁, err | value⟩
  · rw [he] at hk
    dsimp only
    split
    · have hr := server.refresh_keeps s₁ hk
      rcases hre : server.refresh s₁ with ⟨s₂, e | u⟩
      · rw [hre] at hr
        exact hr
      · rw [hre] at hr
        exact server.unlink_keeps s₂ names key hr ho
    · exact hk
  · rw [he] at hk
    exact hk

theorem batches_spare {batches : List (List String)} (removed : Nat)
    (hk : key ∈ server.keys s) (ho : key ∉ batches.flatten) :
    key ∈ server.keys (unlink_batches server s removed batches).1 := by
  induction batches generalizing s removed with
  | nil => exact hk
  | cons batch batches ih =>
    rw [flatten_cons, mem_append, not_or] at ho
    have hs := unlink_spares hk ho.1
    unfold unlink_batches
    rcases he : execute_retry_safe server s (.Unlink batch) with ⟨s₁, e | ⟨_ | n⟩⟩
    · rw [he] at hs
      exact hs
    · rw [he] at hs
      exact hs
    · rw [he] at hs
      exact ih _ hs ho.2

theorem scan_spares {pattern : String} {skip : String → Bool}
    (ho : Glob.is_match pattern.toList key.toList = true → skip key = true) (fuel : Nat)
    {cursor removed : Nat} (hke : key ∈ server.keys s) :
    key ∈ server.keys (scan_unlink_pattern_where server pattern skip fuel s cursor removed).1 := by
  induction fuel generalizing s cursor removed with
  | zero => exact hke
  | succ fuel ih =>
    obtain ⟨hk, hm⟩ := scan_page s cursor pattern PAGE
    have hs := hk hke
    unfold scan_unlink_pattern_where
    rcases he : execute_retry_safe server s (.Scan cursor pattern PAGE) with
      ⟨s₁, e | ⟨next, page⟩ | n⟩
    · rw [he] at hs
      exact hs
    · rw [he] at hs hm
      have hl : key ∉ (Batches.inBatches PAGE (page.filter fun key => !skip key)).flatten := by
        rw [Batches.flatten_inBatches, mem_filter]
        rintro ⟨hp, hsk⟩
        rw [ho (hm next page rfl key hp)] at hsk
        cases hsk
      have hsw := batches_spare removed hs hl
      dsimp only
      rcases hb : unlink_batches server s₁ removed
        (Batches.inBatches PAGE (page.filter fun key => !skip key)) with ⟨s₂, e | removed'⟩
      · rw [hb] at hsw
        exact hsw
      · rw [hb] at hsw
        dsimp only
        split
        · exact hsw
        · exact ih hsw
    · rw [he] at hs
      exact hs

end

/-! ## Namespaces -/

namespace Repository

def home (r : Repository) : List Char := (namespaced r.key_prefix r.name "").toList

/-- What every key that the repository uses begins with. -/
def root (r : Repository) : List Char :=
  match r.kind with
  | .Cache | .Idempotent => r.home
  | .PayloadStore => r.home ++ RESERVED_PAYLOAD_SEGMENT.toList

end Repository

theorem namespaced_toList (prefix' repo key : String) :
    (namespaced prefix' repo key).toList =
      (namespaced prefix' repo "").toList ++ key.toList := by
  simp [namespaced, String.toList_append]

variable (r : Repository)

theorem redis_key_toList (key : String) : (r.redis_key key).toList = r.root ++ key.toList := by
  unfold Repository.redis_key Repository.root Repository.home
  cases r.kind with
  | Cache | Idempotent => exact namespaced_toList _ _ _
  | PayloadStore => rw [namespaced_toList, String.toList_append, append_assoc]

theorem token_chars {kind value : String} (h : validate_namespace_token kind value = .ok ()) :
    ∀ c ∈ value.toList, token_char c = true := by
  unfold validate_namespace_token at h
  dsimp only at h
  split at h
  · rename_i hvalid
    rw [Bool.and_eq_true, List.all_eq_true] at hvalid
    exact hvalid.2
  · cases h

theorem plain_of_token_char {c : Char} (h : token_char c = true) : Glob.plain c = true := by
  have hn : ∀ d ∈ ['*', '?', '[', '\\'], token_char d = false :=
    @of_decide_eq_true _ (decidableBAll _ _) rfl
  unfold Glob.plain
  simp only [Bool.and_eq_true, bne_iff_ne]
  refine ⟨⟨⟨?_, ?_⟩, ?_⟩, ?_⟩ <;>
    · rintro rfl
      rw [hn _ (by simp)] at h
      cases h

theorem plain_home : ∀ c ∈ r.home, Glob.plain c = true := by
  intro c hc
  simp only [Repository.home, namespaced, String.toList_append, mem_append] at hc
  have hco : ∀ c ∈ ":".toList, Glob.plain c = true := @of_decide_eq_true _ (decidableBAll _ _) rfl
  rcases hc with (((hc | hc) | hc) | hc) | hc
  · exact plain_of_token_char (token_chars r.prefix_valid c hc)
  · exact hco c hc
  · exact plain_of_token_char (token_chars r.name_valid c hc)
  · exact hco c hc
  · cases hc

/-- What a sweep may delete begins as the keys of the repository do. -/
theorem clear_spares {server : Server} (fuel : Nat) {s : server.State} {key : String}
    (hke : key ∈ server.keys s) (ho : ¬r.root <+: key.toList) :
    key ∈ server.keys (r.clear server fuel s).1 := by
  have hs : r.root = r.home → key ∈ server.keys (scan_unlink_pattern_where server
      (namespaced r.key_prefix r.name "*") (fun _ => false) fuel s 0 0).1 := by
    intro hr
    apply scan_spares _ fuel hke
    intro hm
    rw [namespaced_toList] at hm
    rw [hr] at ho
    exact absurd ((Glob.is_match_plain_star (plain_home r) _).mp hm) ho
  unfold Repository.clear
  unfold Repository.root at hs
  cases hk : r.kind with
  | Cache | Idempotent => exact hs (by rw [hk])
  | PayloadStore => exact hke

theorem invalidate_prefix_spares {server : Server} (start : String) (fuel : Nat)
    {s : server.State} {key : String} (hke : key ∈ server.keys s)
    (ho : ¬r.root <+: key.toList) :
    key ∈ server.keys ( r.invalidate_prefix server start fuel s).1 := by
  unfold Repository.invalidate_prefix
  cases hk : r.kind with
  | Idempotent | PayloadStore => exact hke
  | Cache =>
    have hr : r.root = r.home := by
      unfold Repository.root
      rw [hk]
    rw [hr] at ho
    cases hs : validate_namespace_token "invalidate_prefix" start with
    | error e => exact hke
    | ok u =>
      apply scan_spares _ fuel hke
      intro hm
      rw [namespaced_toList, String.toList_append, ← append_assoc] at hm
      have hp : ∀ c ∈ r.home ++ start.toList, Glob.plain c = true := by
        intro c hc
        rcases mem_append.mp hc with hc | hc
        · exact plain_home r c hc
        · exact plain_of_token_char (token_chars hs c hc)
      have hb := (Glob.is_match_plain_star hp _).mp hm
      exact absurd ((prefix_append _ _).trans hb) ho

/-! ## Isolation -/

/-- No key of one is a key of the other, and the sweeps of the first delete no key of the second. -/
def isolated_from (a b : Repository) : Prop :=
  (∀ key key', a.redis_key key ≠ b.redis_key key') ∧
  ∀ (server : Server) (s : server.State) (fuel : Nat) (key : String),
    b.redis_key key ∈ server.keys s →
      b.redis_key key ∈ server.keys (a.clear server fuel s).1 ∧
      ∀ start, b.redis_key key ∈ server.keys ( a.invalidate_prefix server start fuel s).1

theorem isolated_of_apart {a b : Repository} (hab : ¬a.root <+: b.root)
    (hb : ¬b.root <+: a.root) : isolated_from a b := by
  have ho : ∀ key, ¬a.root <+: (b.redis_key key).toList := by
    intro key hp
    rw [redis_key_toList] at hp
    rcases List.prefix_or_prefix_of_prefix hp (prefix_append _ _) with h | h
    · exact hab h
    · exact hb h
  constructor
  · intro key key' heq
    apply ho key'
    rw [← heq, redis_key_toList]
    exact prefix_append _ _
  · intro server s fuel key hk
    refine ⟨clear_spares a fuel hk (ho key), ?_⟩
    intro start
    exact invalidate_prefix_spares a start fuel hk (ho key)

theorem shared_key_of_prefix {a b : Repository} (h : a.root <+: b.root) :
    ∃ key, a.redis_key key = b.redis_key "" := by
  obtain ⟨rest, hr⟩ := h
  refine ⟨String.ofList rest, ?_⟩
  apply String.toList_injective
  rw [redis_key_toList, redis_key_toList, ← hr]
  simp

/-- Two repositories are isolated from each other exactly when the keys of neither begin as the
keys of the other do. -/
theorem isolated_iff_roots_apart (a b : Repository) :
    isolated_from a b ∧ isolated_from b a ↔ ¬a.root <+: b.root ∧ ¬b.root <+: a.root := by
  constructor
  · rintro ⟨⟨hk, -⟩, -⟩
    constructor
    · intro hp
      obtain ⟨key, hke⟩ := shared_key_of_prefix hp
      exact hk key "" hke
    · intro hp
      obtain ⟨key, hke⟩ := shared_key_of_prefix hp
      exact hk "" key hke.symm
  · rintro ⟨hab, hb⟩
    exact ⟨isolated_of_apart hab hb, isolated_of_apart hb hab⟩

def outer : Repository := ⟨.Cache, "camel", "cache", rfl, rfl⟩

def inner : Repository := ⟨.Cache, "camel:cache", "default", rfl, rfl⟩

/-- `camel:cache:default:k` is the key `k` of one cache and the key `default:k` of another. -/
theorem colon_joins_two_namespaces : ¬∀ a b : Repository,
    ( a.key_prefix, a.name) ≠ ( b.key_prefix, b.name) → isolated_from a b := by
  intro ha
  have hk := (ha outer inner (by decide)).1 "default:k" "k"
  exact hk (by decide)

example : (show List String from
    (outer.clear in_memory 1 [inner.redis_key "k", "camel:orders:k"]).1) = ["camel:orders:k"] := by
  decide +kernel

end camel_redis_repo
