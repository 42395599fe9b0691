-- The selection of profile sections in `config_semantics.rs` of camel-dsl, next to its section
-- walk. The selection overlays a profile at each of its mentions, the walk has it at the first.
import Mathlib.Data.List.Basic

open List

namespace camel_dsl.config_semantics

variable {α : Type}

/-- `toml::Value`: a table is the map from its keys, whatever else there is stands for itself. -/
inductive Value (α : Type) where
  | Other (value : α)
  | Table (entries : String → Option (Value α))

mutual

def merge_toml_values (base : Value α) : Value α → Value α
  | .Table overlay =>
    match base with
    | .Table base => .Table fun key => merge_entry (base key) (overlay key)
    | .Other _ => .Table overlay
  | .Other value => .Other value

/-- The turn of the loop over the overlay's keys at one of them. -/
def merge_entry (base : Option (Value α)) : Option (Value α) → Option (Value α)
  | none => base
  | some value =>
    match base with
    | some base_value => some (merge_toml_values base_value value)
    | none => some value

end

def section_walk (profiles : List String) : List String :=
  profiles.foldl (fun sections profile =>
    if profile ∈ sections then sections else sections ++ [profile]) ["default"]

def overlay_sections (table : String → Option (Value α)) (base : Value α) (profiles : List String) :
    Value α :=
  profiles.foldl (fun base profile => match table profile with
    | some sect => merge_toml_values base sect
    | none => base) base

def select_profile_sections (value : Value α) (profiles : List String) : Value α :=
  match value with
  | .Other _ => value
  | .Table table =>
    match table "default" with
    | some default => overlay_sections table default profiles
    | none =>
      match (profiles.find? fun p => (table p).isSome).bind table with
      | some sect => overlay_sections table sect profiles
      | none => value

/-- The deep merge, from left to right, of the sections that are there. -/
def deep_merge (table : String → Option (Value α)) (names : List String) : Value α :=
  match names.filterMap table with
  | [] => .Table table
  | base :: rest => rest.foldl merge_toml_values base

/-! ## What a value says about a path of keys -/

inductive Shape (α : Type) where
  | Absent
  | Leaf (value : α)
  | Node
  deriving DecidableEq

/-- A value that is not a table says that there is nothing below it. A table says nothing about the
keys it does not have. -/
def tells : Option (Value α) → List String → Option (Shape α)
  | none, _ => none
  | some (.Other value), [] => some (.Leaf value)
  | some (.Other _), _ :: _ => some .Absent
  | some (.Table _), [] => some .Node
  | some (.Table entries), key :: path => tells (entries key) path

/-- What the last of the sections to say something about the path says. -/
def settled (table : String → Option (Value α)) (names : List String) (path : List String) :
    Shape α :=
  names.foldl (fun shape name => (tells (table name) path).getD shape) .Absent

def shape (value : Option (Value α)) (path : List String) : Shape α :=
  (tells value path).getD .Absent

theorem shape_merge_entry (path : List String) (base value : Option (Value α)) :
    shape (merge_entry base value) path = (tells value path).getD (shape base path) := by
  induction path generalizing base value with
  | nil =>
    rcases value with _ | (_ | _) <;> rcases base with _ | (_ | _) <;>
      simp [merge_entry, merge_toml_values, shape, tells]
  | cons key path ih =>
    rcases value with _ | (_ | entries) <;> rcases base with _ | (_ | below) <;>
      simp [merge_entry, merge_toml_values, shape, tells]
    exact ih (below key) (entries key)

mutual

theorem value_ext : ∀ (u : Value α) (v : Option (Value α)),
    (∀ path, shape (some u) path = shape v path) → some u = v
  | .Other a, v, h => by
    have hn := h []
    rcases v with _ | (_ | _) <;> simp_all [shape, tells]
  | .Table f, v, h => by
    have hn := h []
    rcases v with _ | (_ | g)
    · simp [shape, tells] at hn
    · simp [shape, tells] at hn
    · have hk : f = g := funext fun key => entry_ext (f key) (g key) fun path => h (key :: path)
      rw [hk]

theorem entry_ext : ∀ u v : Option (Value α), (∀ path, shape u path = shape v path) → u = v
  | none, v, h => by
    have hn := h []
    rcases v with _ | (_ | _) <;> simp_all [shape, tells]
  | some u, v, h => value_ext u v h

end

/-! ## The selection, and the walk -/

variable {table : String → Option (Value α)} {names profiles : List String}

theorem merge_self (value : Value α) : merge_toml_values value value = value := by
  have h : merge_entry (some value) (some value) = some value :=
    entry_ext _ _ fun path => by
      rw [shape_merge_entry, shape]
      cases tells (some value) path <;> rfl
  exact Option.some.inj h

theorem overlay_eq (base : Value α) (profiles : List String) :
    overlay_sections table base profiles =
      (profiles.filterMap table).foldl merge_toml_values base := by
  induction profiles generalizing base with
  | nil => rfl
  | cons name profiles ih =>
    rw [overlay_sections, foldl_cons, ← overlay_sections, ih, filterMap_cons]
    cases table name <;> rfl

theorem shape_merged (base : Value α) (names path : List String) :
    shape (some ((names.filterMap table).foldl merge_toml_values base)) path =
      names.foldl (fun shape name => (tells (table name) path).getD shape)
        (shape (some base) path) := by
  induction names generalizing base with
  | nil => rfl
  | cons name names ih =>
    rw [filterMap_cons, foldl_cons]
    cases hn : table name with
    | none => simpa only [tells, Option.getD_none] using ih base
    | some sect =>
      rw [← shape_merge_entry]
      exact ih (merge_toml_values base sect)

theorem shape_deep_merge (h : ∃ name ∈ names, (table name).isSome = true) (path : List String) :
    shape (some (deep_merge table names)) path = settled table names path := by
  induction names with
  | nil => simp at h
  | cons name names ih =>
    unfold deep_merge settled at *
    rw [filterMap_cons, foldl_cons]
    cases hn : table name with
    | none =>
      simp only [hn, mem_cons, exists_eq_or_imp, Option.isSome_none, Bool.false_eq_true,
        false_or] at h
      simpa only [tells, Option.getD_none] using ih h
    | some sect => exact shape_merged sect names path

theorem mem_section_walk {name : String} :
    name ∈ section_walk profiles ↔ name ∈ "default" :: profiles := by
  have ha : ∀ sections, name ∈ profiles.foldl (fun sections profile =>
      if profile ∈ sections then sections else sections ++ [profile]) sections ↔
        name ∈ sections ++ profiles := by
    induction profiles with
    | nil => simp
    | cons profile profiles ih =>
      intro sections
      rw [foldl_cons, ih]
      split <;> simp_all
      grind
  exact ha ["default"]

theorem section_walk_of_nodup (h : ("default" :: profiles).Nodup) :
    section_walk profiles = "default" :: profiles := by
  have ha : ∀ sections, (sections ++ profiles).Nodup → profiles.foldl (fun sections profile =>
      if profile ∈ sections then sections else sections ++ [profile]) sections =
        sections ++ profiles := by
    clear h
    induction profiles with
    | nil => simp
    | cons profile profiles ih =>
      intro sections hd
      rw [foldl_cons, if_neg fun hm =>
        (nodup_append.mp hd).2.2 profile hm profile mem_cons_self rfl,
        ih] <;> simp_all
  exact ha ["default"] h

theorem select_eq :
    select_profile_sections (.Table table) profiles = deep_merge table ("default" :: profiles) := by
  rw [deep_merge, filterMap_cons]
  cases hd : table "default" with
  | some default => simp only [select_profile_sections, hd, overlay_eq]
  | none =>
    have hf : (profiles.find? fun p => (table p).isSome).bind table =
        (profiles.filterMap table).head? := by
      induction profiles with
      | nil => rfl
      | cons name profiles ih =>
        rw [find?_cons, filterMap_cons]
        cases hn : table name <;> simp [hn, ih]
    simp only [select_profile_sections, hd, hf]
    cases hs : profiles.filterMap table with
    | nil => rfl
    | cons base rest =>
      simp only [head?_cons, overlay_eq, hs, foldl_cons, merge_self]

/-- The selection merges the sections at each of their mentions. That is what the walk says exactly
where no path of keys is settled in another way by it, and so for names without repetition. -/
theorem selection_merges_every_mention (table : String → Option (Value α)) (profiles : List String)
    (h : ∃ name ∈ "default" :: profiles, (table name).isSome = true) :
    select_profile_sections (.Table table) profiles = deep_merge table ("default" :: profiles) ∧
      (select_profile_sections (.Table table) profiles = deep_merge table (section_walk profiles) ↔
        ∀ path, settled table ("default" :: profiles) path =
          settled table (section_walk profiles) path) ∧
      (("default" :: profiles).Nodup →
        select_profile_sections (.Table table) profiles =
          deep_merge table (section_walk profiles)) := by
  have hw : ∃ name ∈ section_walk profiles, (table name).isSome = true := by
    simpa only [mem_section_walk] using h
  rw [select_eq]
  refine ⟨rfl, ⟨fun he path => ?_, fun hp => ?_⟩, fun hd => by rw [section_walk_of_nodup hd]⟩
  · rw [← shape_deep_merge h, he, shape_deep_merge hw]
  · refine Option.some.inj (entry_ext _ _ fun path => ?_)
    rw [shape_deep_merge h, hp path, shape_deep_merge hw]

def leaf (text : String) (key : String) : Option (Value String) :=
  if key = "level" then some (.Other text) else none

/-- A document with the sections `default`, `dev` and `qa`. -/
def levels (name : String) : Option (Value String) :=
  if name ∈ ["default", "dev", "qa"] then some (.Table (leaf name)) else none

theorem qa_overlays_dev :
    select_profile_sections (.Table levels) ["dev", "qa"] =
      deep_merge levels (section_walk ["dev", "qa"]) :=
  (selection_merges_every_mention levels ["dev", "qa"] ⟨"default", by decide⟩).2.2 (by decide)

/-- The second mention of `dev` is above `qa`, where the walk has `qa` on top. -/
theorem second_mention_counts :
    select_profile_sections (.Table levels) ["dev", "qa", "dev"] ≠
      deep_merge levels (section_walk ["dev", "qa", "dev"]) := by
  intro h
  have hp := congrArg (fun v => shape (some v) ["level"]) h
  exact absurd hp (by decide)

end camel_dsl.config_semantics
