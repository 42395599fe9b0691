-- The redacted rendering and the `Debug` of `camel-api/src/endpoint_uri.rs`. Values are hidden
-- unless the catalog knows their option as one that is not secret. The userinfo is hidden up to its
-- first `@`, where `redact.rs` looks for the last one, so what stands behind an `@` in a password
-- is shown.
import Mathlib.Data.List.Forall2
import Mathlib.Data.List.TakeWhile
import RustCamel.Endpoint.EndpointUri

namespace camel_api.endpoint_uri

open camel_endpoint.uri List

/-! ## Rendering -/

/-- How the keys of an option with a pattern begin. -/
structure UriOptionMatch where
  separator : String

structure UriOption where
  name : String
  aliases : List String
  secret : Bool
  pattern : Option UriOptionMatch

structure ComponentMetadata where
  uri_options : List UriOption

/-- The option of a key by its exact name, and else by an alias. -/
def resolve_uri_option (key : List Char) (uri_options : List UriOption) : Option UriOption :=
  (uri_options.find? fun uo => uo.pattern.isNone && uo.name.toList = key).or
    (uri_options.find? fun uo =>
      uo.pattern.isNone && uo.aliases.any fun other => other.toList = key)

/-- The catalog knows the key as an option that is not secret. -/
def non_secret (key : List Char) (metadata : Option ComponentMetadata) : Bool :=
  (metadata.bind fun metadata => resolve_uri_option key metadata.uri_options).any fun opt =>
    !opt.secret

def redact_value (key value : List Char) (metadata : Option ComponentMetadata) : List Char :=
  if non_secret key metadata then value else "***".toList

def mask_userinfo (path : List Char) : List Char :=
  match path with
  | '/' :: '/' :: rest =>
    match split_once '@' (rest.takeWhile (· ≠ '/')) with
    | none => path
    | some (_, after) => "//***@".toList ++ after ++ rest.dropWhile (· ≠ '/')
  | _ => path

def push_pair (pair : RenderPair) (transform : List Char → List Char) : List Char :=
  RenderPair.text { pair with value := pair.value.map transform }

def EndpointUri.to_redacted_string (uri : EndpointUri)
    (get_metadata : String → Option ComponentMetadata) : String :=
  let texts := uri.pairs.map fun pair =>
    push_pair pair fun value => redact_value pair.key value (get_metadata uri.scheme)
  let query := match texts with
    | [] => []
    | text :: texts => '?' :: (text ++ texts.flatMap ('&' :: ·))
  .ofList (uri.scheme.toList ++ ':' :: (mask_userinfo uri.path.toList ++ query))

variable (debug_struct : String → String → List (String × String) → String)

/-- The `Debug` of a URI. `debug_struct` is the formatter, which gets the scheme, the path and the
entries of the parameters. -/
def EndpointUri.fmt (uri : EndpointUri) : String :=
  debug_struct uri.scheme (.ofList (mask_userinfo uri.path.toList))
    (uri.params.rows.map fun row => (row.1, "***"))

/-! ## Two URIs with other secrets -/

/-- The two pairs have the same key, and the same value unless it is to be hidden. -/
structure SamePair (metadata : Option ComponentMetadata) (p q : RenderPair) : Prop where
  key : p.key = q.key
  from_raw_query : p.from_raw_query = q.from_raw_query
  flag : p.value.isSome = q.value.isSome
  value : non_secret p.key metadata = true → p.value = q.value

/-- The two URIs differ only in their paths and in values that are to be hidden. -/
structure SameButValues (get_metadata : String → Option ComponentMetadata) (u v : EndpointUri) :
    Prop where
  scheme : u.scheme = v.scheme
  keys : u.params.rows.map Prod.fst = v.params.rows.map Prod.fst
  pairs : List.Forall₂ (SamePair (get_metadata u.scheme)) u.pairs v.pairs

/-- The path has this userinfo: the text between the leading `//` and the last `@` before the next
`/`. Behind the `@` comes `rest`. -/
structure HasUserinfo (path : String) (userinfo rest : List Char) : Prop where
  path : path.toList = '/' :: '/' :: (userinfo ++ '@' :: rest)
  in_authority : '/' ∉ userinfo
  last : '@' ∉ rest.takeWhile (· ≠ '/')

/-- The text from the first `@` on. -/
def from_at (text : List Char) : List Char := text.dropWhile (· ≠ '@')

variable {get_metadata : String → Option ComponentMetadata} {u v : EndpointUri}
  {user user' rest : List Char}

theorem push_pair_eq {metadata : Option ComponentMetadata} {p q : RenderPair}
    (h : SamePair metadata p q) :
    push_pair p (fun value => redact_value p.key value metadata) =
      push_pair q fun value => redact_value q.key value metadata := by
  obtain ⟨key, value, raw⟩ := p
  obtain ⟨key', value', raw'⟩ := q
  obtain ⟨rfl, rfl, hf, hv⟩ := h
  unfold push_pair redact_value
  by_cases hs : non_secret key metadata = true
  · rw [show value = value' from hv hs]
  · cases value <;> cases value' <;> simp_all

theorem split_first_at (user more : List Char) :
    ∃ before after, split_once '@' (user ++ '@' :: more) = some (before, after) ∧
      '@' :: after = from_at user ++ '@' :: more := by
  unfold from_at
  induction user with
  | nil => exact ⟨[], more, by simp [split_once], by simp⟩
  | cons c user ih =>
    by_cases hc : c = '@'
    · exact ⟨[], user ++ '@' :: more, by simp [split_once, hc], by simp [hc]⟩
    · obtain ⟨before, after, heq, ha⟩ := ih
      exact ⟨c :: before, after, by simp [split_once, hc, heq], by simpa [hc] using ha⟩

/-- The userinfo is masked up to the first `@` of the authority. -/
theorem mask_userinfo_eq {path : String} (h : HasUserinfo path user rest) :
    mask_userinfo path.toList = "//***".toList ++ (from_at user ++ '@' :: rest) := by
  have hp : ∀ c ∈ user, (decide (c ≠ '/')) = true := by
    rintro c hc
    have := h.in_authority
    grind
  obtain ⟨before, after, heq, ha⟩ := split_first_at user (rest.takeWhile (· ≠ '/'))
  rw [h.path, mask_userinfo, takeWhile_append_of_pos hp,
    dropWhile_append_of_pos hp, takeWhile_cons_of_pos (by decide),
    dropWhile_cons_of_pos (by decide), heq]
  calc "//***@".toList ++ after ++ rest.dropWhile (· ≠ '/')
    _ = "//***".toList ++ ('@' :: after ++ rest.dropWhile (· ≠ '/')) := by simp
    _ = "//***".toList ++ (from_at user ++ '@' ::
          (rest.takeWhile (· ≠ '/') ++ rest.dropWhile (· ≠ '/'))) := by rw [ha]; simp
    _ = "//***".toList ++ (from_at user ++ '@' :: rest) := by rw [takeWhile_append_dropWhile]

/-! ## The law -/

/-- The two renderings of a URI. -/
def renderings (get_metadata : String → Option ComponentMetadata)
    (debug_struct : String → String → List (String × String) → String) (uri : EndpointUri) :
    String × String :=
  (uri.to_redacted_string get_metadata, uri.fmt debug_struct)

theorem renderings_eq_iff (h : SameButValues get_metadata u v) :
    renderings get_metadata debug_struct u = renderings get_metadata debug_struct v ↔
      mask_userinfo u.path.toList = mask_userinfo v.path.toList := by
  have ht : (u.pairs.map fun pair =>
      push_pair pair fun value => redact_value pair.key value (get_metadata u.scheme)) =
        v.pairs.map fun pair =>
          push_pair pair fun value => redact_value pair.key value (get_metadata v.scheme) := by
    rw [← h.scheme, ← forall₂_eq_eq_eq, forall₂_map_left_iff, forall₂_map_right_iff]
    exact h.pairs.imp fun _ _ hp => push_pair_eq hp
  have hk : (u.params.rows.map fun row => (row.1, "***")) =
      v.params.rows.map fun row => (row.1, "***") := by
    simpa [Function.comp_def] using congrArg (List.map fun key => (key, "***")) h.keys
  unfold renderings EndpointUri.to_redacted_string EndpointUri.fmt
  rw [ht, hk, h.scheme, Prod.mk.injEq, String.ofList_inj]
  constructor
  · rintro ⟨hr, -⟩
    simpa using hr
  · intro hm
    rw [hm]
    exact ⟨rfl, rfl⟩

/-- Two URIs with the same keys and the same path are rendered alike. If they have different
userinfos, they are rendered alike exactly when these are the same from their first `@` on. -/
theorem redacted_alike_iff (get_metadata : String → Option ComponentMetadata)
    (debug_struct : String → String → List (String × String) → String) (u v : EndpointUri)
    (h : SameButValues get_metadata u v) :
    (u.path = v.path →
        renderings get_metadata debug_struct u = renderings get_metadata debug_struct v) ∧
      ∀ user user' rest, HasUserinfo u.path user rest → HasUserinfo v.path user' rest →
        (renderings get_metadata debug_struct u = renderings get_metadata debug_struct v ↔
          from_at user = from_at user') := by
  constructor
  · intro hp
    rw [renderings_eq_iff debug_struct h, hp]
  · intro user user' rest hu hu'
    rw [renderings_eq_iff debug_struct h, mask_userinfo_eq hu, mask_userinfo_eq hu',
      append_cancel_left_eq, append_cancel_right_eq]

/-- A database URI with a password in the path and one among the parameters. -/
def database (userinfo password : String) : EndpointUri :=
  ⟨"jdbc", "//" ++ userinfo ++ "@db/orders", OrdMap.empty.insert "password" password, none⟩

def noCatalog : String → Option ComponentMetadata := fun _ => none

theorem database_same (user user' password password' : String) :
    SameButValues noCatalog (database user password) (database user' password') := by
  refine ⟨rfl, rfl, .cons ⟨rfl, rfl, rfl, ?_⟩ .nil⟩
  simp [non_secret, noCatalog]

theorem passwords_are_hidden :
    renderings noCatalog (fun a b _ => a ++ b) (database "carol:sesame" "a") =
      renderings noCatalog (fun a b _ => a ++ b) (database "carol:mellon" "b") := by
  refine ((redacted_alike_iff noCatalog (fun a b _ => a ++ b) _ _ (database_same _ _ _ _)).2
    "carol:sesame".toList "carol:mellon".toList "db/orders".toList ?_ ?_).mpr (by decide)
  all_goals exact ⟨by decide, by decide, by decide⟩

/-- Two passwords with an `@` in them are told apart by what comes after it. -/
theorem password_behind_at_is_shown :
    SameButValues noCatalog (database "carol:p@sesame" "a") (database "carol:p@mellon" "a") ∧
      HasUserinfo (database "carol:p@sesame" "a").path "carol:p@sesame".toList "db/orders".toList ∧
      HasUserinfo (database "carol:p@mellon" "a").path "carol:p@mellon".toList "db/orders".toList ∧
      (database "carol:p@sesame" "a").to_redacted_string noCatalog =
        "jdbc://***@sesame@db/orders?password=***" ∧
      (database "carol:p@mellon" "a").to_redacted_string noCatalog =
        "jdbc://***@mellon@db/orders?password=***" := by
  refine ⟨database_same _ _ _ _, ⟨by decide, by decide, by decide⟩, ?_, by decide, by decide⟩
  exact ⟨by decide, by decide, by decide⟩

end camel_api.endpoint_uri
