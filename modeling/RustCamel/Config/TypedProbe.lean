-- The typed probe of `env_int_probe.rs` in camel-dsl. A document that does not parse is tried again
-- with some of its interpolated leaves as numbers or booleans, the fewest of them first.
import Mathlib.Algebra.Order.Ring.Nat
import Mathlib.Data.List.Basic
import RustCamel.Api.Exchange

open List

namespace camel_dsl.env_int_probe

open camel_api.error (CamelError)

/-! ## The coerced copies -/

inductive ProvenanceSeg where
  | Key (key : String)
  | Index (index : Nat)

abbrev ProvenancePath := List ProvenanceSeg

/-- `serde_yml::Value`. -/
inductive Value where
  | Bool (b : Bool)
  | Number (n : Int)
  | String (s : String)
  | Sequence (items : List Value)
  | Mapping (entries : List (String × Value))
  -- null, floats and tagged values
  | Other (text : String)

/-- The parts of `serde_yml` that read and write a document. -/
structure Yaml where
  from_str : String → Except String Value
  to_string : Value → Except String String

def MAX_PROBE_CANDIDATES : Nat := 8

def clean_integer (s : String) : Option Value :=
  let negative := s.toList.head? = some '-'
  let digits := if negative then s.toList.drop 1 else s.toList
  let lexically_clean := match digits with
    | ['0'] => true
    | first :: rest => first.isDigit && first ≠ '0' && rest.all Char.isDigit
    | [] => false
  let n : Nat := digits.foldl (fun n c => 10 * n + (c.toNat - 48)) 0
  if !lexically_clean then none
  else if negative then if n ≤ 2 ^ 63 then some (.Number (-n)) else none
  else if n < 2 ^ 64 then some (.Number n) else none

def clean_boolean : String → Option Value
  | "true" => some (.Bool true)
  | "false" => some (.Bool false)
  | _ => none

def child : Value → ProvenanceSeg → Option Value
  | .Mapping map, .Key key => map.lookup key
  | .Sequence seq, .Index index => seq[index]?
  | _, _ => none

def resolve_path (root : Value) (path : ProvenancePath) : Option Value := path.foldlM child root

def set_child (node : Value) (seg : ProvenanceSeg) (value : Value) : Value :=
  match node, seg with
  | .Mapping map, .Key key => .Mapping (map.map fun e => if e.1 = key then (key, value) else e)
  | .Sequence seq, .Index index => .Sequence (seq.set index value)
  | node, _ => node

/-- The leaf that `resolve_path_mut` finds gets the value. -/
def coerce_leaf (value : Value) : Value → ProvenancePath → Except CamelError Value
  | .String _, [] => .ok value
  | _, [] => .error (.RouteError "probe: candidate leaf is no longer a string")
  | node, seg :: path =>
    match child node seg with
    | none => .error (.RouteError "probe: candidate path no longer resolves")
    | some next => (coerce_leaf value next path).map (set_child node seg)

def coerced (tree : Value) (path : ProvenancePath) : Option Value :=
  match resolve_path tree path with
  | some (.String s) => (clean_integer s).or (clean_boolean s)
  | _ => none

def candidates (tree : Value) (provenance : List ProvenancePath) : List ProvenancePath :=
  provenance.filter fun path =>
    path.head? matches some (.Key "routes") && (coerced tree path).isSome

def candidate_paths (yaml : Yaml) (doc_text : String) (provenance : Option (List ProvenancePath)) :
    List (ProvenancePath × Value) :=
  match provenance, yaml.from_str doc_text with
  | some provenance, .ok base_tree => (candidates base_tree provenance).filterMap fun path =>
      (coerced base_tree path).map (path, ·)
  | _, _ => []

def try_coerced_subset {ρ : Type} (yaml : Yaml) (doc_text : String)
    (candidates : List (ProvenancePath × Value)) (parse : String → Except CamelError ρ)
    (indices : List Nat) : Except CamelError ρ :=
  match yaml.from_str doc_text with
  | .error _ => .error (.RouteError "probe: interpolated document lost tree shape")
  | .ok tree => do
    let coerce := fun (tree : Value) (c : ProvenancePath × Value) => coerce_leaf c.2 tree c.1
    -- the indices are below the number of candidates
    let tree ← (indices.filterMap (candidates[·]?)).foldlM coerce tree
    match yaml.to_string tree with
    | .error _ => .error (.RouteError "probe: coerced document failed to serialize")
    | .ok text => parse text

/-! ## The search -/

/-- The loop looks from the last index to the first for one that has room, which is what the
recursion does on its way back. -/
def next_combination (universe' : Nat) : List Nat → Option (List Nat)
  | [] => none
  | i :: rest =>
    match next_combination universe' rest with
    | some rest => some (i :: rest)
    | none =>
      if i < universe' - (rest.length + 1) then some (range' (i + 1) (rest.length + 1)) else none

/-- How far the indices are from the end of their order. -/
def weight (n : Nat) : List Nat → Nat
  | [] => 0
  | i :: rest => (n - i) * (n + 1) ^ rest.length + weight n rest

variable {n : Nat} {s s' t : List Nat}

theorem weight_lt (n : Nat) (s : List Nat) : weight n s < (n + 1) ^ s.length := by
  induction s with
  | nil => simp [weight]
  | cons i rest ih =>
    have hi := Nat.mul_le_mul_right ((n + 1) ^ rest.length) (Nat.sub_le n i)
    rw [weight, length_cons, pow_succ, mul_add, mul_one, mul_comm _ n]
    omega

/-- The next combination is as long, nearer to the end, and above what the indices are above. -/
theorem next_combination_keeps (h : next_combination n s = some s') :
    s'.length = s.length ∧ weight n s' < weight n s ∧
      ∀ k, (∀ i ∈ s, k < i) → ∀ i ∈ s', k < i := by
  induction s generalizing s' with
  | nil => cases h
  | cons i rest ih =>
    rw [next_combination] at h
    split at h
    · rename_i next hn
      cases h
      obtain ⟨hl, hw, hk⟩ := ih hn
      simp only [weight, length_cons, hl, Nat.add_lt_add_iff_left, true_and, hw, forall_mem_cons]
      exact fun k hi => ⟨hi.1, hk k hi.2⟩
    · split at h
      · cases h
        have hw := weight_lt n (range' (i + 1 + 1) rest.length)
        have hm := Nat.mul_le_mul_right ((n + 1) ^ rest.length)
          (show n - (i + 1) + 1 ≤ n - i by omega)
        rw [length_range'] at hw
        rw [add_mul, one_mul] at hm
        refine ⟨length_range', ?_, fun k hi j hj => ?_⟩
        · simp only [range'_succ, weight, length_range']
          omega
        · exact (hi i mem_cons_self).trans (mem_range'_1.mp hj).1
      · cases h

/-- The indices of a coerced copy, in their order. -/
def Subset (n : Nat) (s : List Nat) : Prop := s.Pairwise (· < ·) ∧ ∀ i ∈ s, i < n

/-- The lexicographic order. -/
def Before : List Nat → List Nat → Prop := Lex (· < ·)

theorem subset_cons {i : Nat} : Subset n (i :: s) ↔ (∀ j ∈ s, i < j) ∧ i < n ∧ Subset n s := by
  simp only [Subset, pairwise_cons, mem_cons, forall_eq_or_imp, and_assoc, and_left_comm]

theorem Subset.room {i : Nat} (h : Subset n (i :: s)) : i + s.length < n := by
  induction s generalizing i with
  | nil => simpa using (subset_cons.mp h).2.1
  | cons j s ih =>
    obtain ⟨hj, -, hs⟩ := subset_cons.mp h
    have := hj j mem_cons_self
    have := ih hs
    simp only [length_cons]
    omega

theorem subset_range' {i k : Nat} (h : i + k ≤ n) : Subset n (range' i k) :=
  ⟨pairwise_lt_range', fun j hj => by have := mem_range'_1.mp hj; omega⟩

theorem range'_first {i : Nat} (h : Subset n s) (hi : ∀ j ∈ s, i ≤ j) :
    s = range' i s.length ∨ Before (range' i s.length) s := by
  induction s generalizing i with
  | nil => exact .inl rfl
  | cons j s ih =>
    obtain ⟨hj, -, hs⟩ := subset_cons.mp h
    rw [length_cons, range'_succ, Before, cons_lex_cons_iff]
    rcases (hi j mem_cons_self).lt_or_eq with hl | rfl
    · exact .inr (.inl hl)
    · rcases ih hs hj with he | hb
      · exact .inl (congrArg _ he)
      · exact .inr (.inr ⟨rfl, hb⟩)

/-- The next combination is the first one behind, and there is none behind the last. -/
theorem next_combination_spec (h : Subset n s) :
    (∀ s', next_combination n s = some s' → Subset n s' ∧ Before s s') ∧
      ∀ t, Subset n t → t.length = s.length → Before s t →
        ∃ s', next_combination n s = some s' ∧ (t = s' ∨ Before s' t) := by
  induction s with
  | nil =>
    refine ⟨nofun, fun t _ hl hb => ?_⟩
    rw [length_eq_zero_iff.mp hl] at hb
    cases hb
  | cons i rest ih =>
    obtain ⟨hi, hin, hr⟩ := subset_cons.mp h
    obtain ⟨hn, ha⟩ := ih hr
    rw [next_combination]
    constructor
    · intro s' hs
      split at hs
      · rename_i next he
        cases hs
        obtain ⟨hs, hb⟩ := hn next he
        exact ⟨subset_cons.mpr ⟨(next_combination_keeps he).2.2 i hi, hin, hs⟩, .cons hb⟩
      · split at hs
        · cases hs
          refine ⟨subset_range' (by omega), ?_⟩
          rw [range'_succ]
          exact .rel (Nat.lt_succ_self i)
        · cases hs
    · intro t ht hl hb
      obtain ⟨j, t, rfl⟩ := exists_cons_of_length_eq_add_one hl
      obtain ⟨hj, -, ht'⟩ := subset_cons.mp ht
      rw [Before, cons_lex_cons_iff] at hb
      have hr := ht.room
      rw [length_cons, length_cons, Nat.add_right_cancel_iff] at hl
      cases he : next_combination n rest with
      | some next =>
        refine ⟨_, rfl, ?_⟩
        rcases hb with hlt | ⟨rfl, hb⟩
        · exact .inr (.rel hlt)
        · obtain ⟨next', hs, hf⟩ := ha t ht' hl hb
          cases he.symm.trans hs
          exact hf.imp (congrArg _) .cons
      | none =>
        rcases hb with hlt | ⟨rfl, hb⟩
        · have hf := range'_first ht (i := i + 1) fun k hk => by
            rcases mem_cons.mp hk with rfl | hk
            · exact hlt
            · exact hlt.trans (hj k hk)
          rw [length_cons, hl] at hf
          exact ⟨_, if_pos (by omega), hf⟩
        · obtain ⟨next', hs, -⟩ := ha t ht' hl hb
          cases he.symm.trans hs

/-- The loop over the subsets of one size, from `indices` on, with what it tried. -/
def try_size {ρ : Type} (attempt : List Nat → Option ρ) (universe' : Nat) (indices : List Nat) :
    List (List Nat) × Option ρ :=
  match attempt indices with
  | some routes => ([indices], some routes)
  | none =>
    match _h : next_combination universe' indices with
    | none => ([indices], none)
    | some next => (try_size attempt universe' next).map (indices :: ·) id
termination_by weight universe' indices
decreasing_by exact (next_combination_keeps _h).2.1

/-- The loop over the sizes. -/
def try_sizes {ρ : Type} (attempt : List Nat → Option ρ) (universe' : Nat) :
    List Nat → List (List Nat) × Option ρ
  | [] => ([], none)
  | k :: sizes =>
    match try_size attempt universe' (range k) with
    | (tried, some routes) => (tried, some routes)
    | (tried, none) => (try_sizes attempt universe' sizes).map (tried ++ ·) id

variable {ρ : Type} {attempt : List Nat → Option ρ}

/-- The answer, and the subsets that were tried for it. -/
def parse_with_probe (yaml : Yaml) (doc_text : String) (provenance : Option (List ProvenancePath))
    (parse : String → Except CamelError ρ) : List (List Nat) × Except CamelError ρ :=
  match parse doc_text with
  | .ok routes => ([], .ok routes)
  | .error first_error =>
    let candidates := candidate_paths yaml doc_text provenance
    if candidates.isEmpty ∨ MAX_PROBE_CANDIDATES < candidates.length then ([], .error first_error)
    else
      (try_sizes (fun indices =>
        (try_coerced_subset yaml doc_text candidates parse indices).toOption)
        candidates.length (range' 1 candidates.length)).map id fun found =>
          found.elim (.error first_error) .ok

/-! ## The first subset that parses -/

/-- Nothing was found and nothing of `P` parses, or the first of `P` that parses was found. -/
def Answers (attempt : List Nat → Option ρ) (P : List Nat → Prop)
    (ahead : List Nat → List Nat → Prop) : Option ρ → Prop
  | none => ∀ t, P t → attempt t = none
  | some routes => ∃ u, P u ∧ attempt u = some routes ∧
      ∀ t, P t → attempt t = none ∨ t = u ∨ ahead u t

theorem Answers.widen {P Q : List Nat → Prop} {ahead : List Nat → List Nat → Prop}
    {found : Option ρ} (h : Answers attempt P ahead found)
    (hq : ∀ t, Q t → attempt t = none ∨ P t) (hp : ∀ t, P t → Q t) :
    Answers attempt Q ahead found := by
  cases found with
  | none => exact fun t ht => (hq t ht).elim id (h t)
  | some routes =>
    obtain ⟨u, hu, ha, hf⟩ := h
    exact ⟨u, hp u hu, ha, fun t ht => (hq t ht).elim .inl (hf t)⟩

/-- The subsets of one size from `s` on. -/
def From (n : Nat) (s t : List Nat) : Prop :=
  Subset n t ∧ t.length = s.length ∧ (t = s ∨ Before s t)

/-- They are tried in their order up to the first that parses. -/
theorem try_size_spec (attempt : List Nat → Option ρ) (h : Subset n s) :
    (try_size attempt n s).1.Pairwise Before ∧ (∀ t ∈ (try_size attempt n s).1, From n s t) ∧
      Answers attempt (From n s) Before (try_size attempt n s).2 := by
  induction s using try_size.induct attempt n with
  | case1 s routes he =>
    rw [try_size, he]
    exact ⟨pairwise_singleton _ _, by simp [From, h], s, ⟨h, rfl, .inl rfl⟩, he,
      fun t ht => .inr ht.2.2⟩
  | case2 s he hl =>
    rw [try_size, he, hl]
    refine ⟨pairwise_singleton _ _, by simp [From, h], ?_⟩
    rintro t ⟨ht, hlen, rfl | hb⟩
    · exact he
    · obtain ⟨s', hs, -⟩ := (next_combination_spec h).2 t ht hlen hb
      cases hl.symm.trans hs
  | case3 s he next hs ih =>
    obtain ⟨hn, hb⟩ := (next_combination_spec h).1 next hs
    have hl := (next_combination_keeps hs).1
    obtain ⟨hp, hm, hf⟩ := ih hn
    have hla : ∀ t, From n next t → Before s t := by
      rintro t ⟨-, -, rfl | ht⟩
      · exact hb
      · exact lex_trans Nat.lt_trans hb ht
    have hfr : ∀ t, From n next t → From n s t := fun t ht =>
      ⟨ht.1, ht.2.1.trans hl, .inr (hla t ht)⟩
    rw [try_size, he, hs]
    refine ⟨pairwise_cons.mpr ⟨fun t ht => hla t (hm t ht), hp⟩, ?_, hf.widen ?_ hfr⟩
    · rintro t (_ | ⟨_, ht⟩)
      · exact ⟨h, rfl, .inl rfl⟩
      · exact hfr t (hm t ht)
    · rintro t ⟨ht, hlen, rfl | hst⟩
      · exact .inl he
      · obtain ⟨s', hs', hf⟩ := (next_combination_spec h).2 t ht hlen hst
        cases hs.symm.trans hs'
        exact .inr ⟨ht, hlen.trans hl.symm, hf⟩

/-- Fewer indices come first, and then the lexicographic order. -/
def Ahead (u t : List Nat) : Prop := u.length < t.length ∨ u.length = t.length ∧ Before u t

theorem try_sizes_spec (attempt : List Nat → Option ρ) {sizes : List Nat}
    (h : sizes.Pairwise (· < ·)) (hn : ∀ k ∈ sizes, k ≤ n) :
    (try_sizes attempt n sizes).1.Nodup ∧
      (∀ t ∈ (try_sizes attempt n sizes).1, t.length ∈ sizes) ∧
      Answers attempt (fun t => Subset n t ∧ t.length ∈ sizes) Ahead
        (try_sizes attempt n sizes).2 := by
  induction sizes with
  | nil => exact ⟨nodup_nil, nofun, nofun⟩
  | cons k sizes ih =>
    obtain ⟨hk, hs⟩ := pairwise_cons.mp h
    obtain ⟨hd, hm, hf⟩ := ih hs fun j hj => hn j (.tail _ hj)
    have hr : Subset n (range k) := by
      rw [range_eq_range']
      exact subset_range' (by simpa using hn k mem_cons_self)
    have hal : ∀ t, Subset n t → t.length = k → From n (range k) t := by
      rintro t ht rfl
      refine ⟨ht, length_range.symm, ?_⟩
      rw [range_eq_range']
      exact range'_first ht fun _ _ => Nat.zero_le _
    obtain ⟨hp, hl, ha⟩ := try_size_spec attempt hr
    have hd' := hp.imp (S := (· ≠ ·)) fun hb he => by
      subst he
      exact lex_irrefl Nat.lt_irrefl _ hb
    have hlen : ∀ t ∈ (try_size attempt n (range k)).1, t.length = k := fun t ht =>
      (hl t ht).2.1.trans length_range
    rw [try_sizes]
    split
    · rename_i tried routes he
      rw [he] at hd' hlen ha
      obtain ⟨u, hu, hau, hfi⟩ := ha
      have hku : u.length = k := hu.2.1.trans length_range
      refine ⟨hd', fun t ht => by simp [hlen t ht], u, ⟨hu.1, by simp [hku]⟩, hau, ?_⟩
      rintro t ⟨ht, hts⟩
      rcases mem_cons.mp hts with hkt | hts
      · exact (hfi t (hal t ht hkt)).imp_right (.imp_right fun hb => .inr ⟨hku.trans hkt.symm, hb⟩)
      · exact .inr (.inr (.inl (hku ▸ hk _ hts)))
    · rename_i tried he
      rw [he] at hd' hlen ha
      refine ⟨nodup_append.mpr ⟨hd', hd, ?_⟩, ?_, hf.widen ?_ ?_⟩
      · rintro t ht _ hts rfl
        exact absurd (hk _ (hm t hts)) (by simp [hlen t ht])
      · intro t ht
        rcases mem_append.mp ht with ht | ht
        · simp [hlen t ht]
        · exact .tail _ (hm t ht)
      · rintro t ⟨ht, hts⟩
        exact (mem_cons.mp hts).imp (fun hkt => ha t (hal t ht hkt)) fun hts => ⟨ht, hts⟩
      · exact fun t ht => ⟨ht.1, .tail _ ht.2⟩

/-- With at most eight candidates, a document that does not parse is answered by the first of their
subsets that does, and by its own error where there is none. No subset is tried twice. -/
theorem fewest_leaves_are_coerced (yaml : Yaml) (doc_text : String)
    (provenance : Option (List ProvenancePath)) (parse : String → Except CamelError ρ)
    (h : (candidate_paths yaml doc_text provenance).length ≤ MAX_PROBE_CANDIDATES) :
    (∀ routes, parse doc_text = .ok routes →
      parse_with_probe yaml doc_text provenance parse = ([], .ok routes)) ∧
    ∀ first_error, parse doc_text = .error first_error →
      (parse_with_probe yaml doc_text provenance parse).1.Nodup ∧
      ∃ found : Option ρ, (parse_with_probe yaml doc_text provenance parse).2 =
          found.elim (.error first_error) .ok ∧
        Answers (fun indices => (try_coerced_subset yaml doc_text
            (candidate_paths yaml doc_text provenance) parse indices).toOption)
          (fun t => Subset (candidate_paths yaml doc_text provenance).length t ∧ t ≠ []) Ahead
          found := by
  refine ⟨fun routes hr => by rw [parse_with_probe, hr], fun first_error he => ?_⟩
  rw [parse_with_probe, he]
  set paths := candidate_paths yaml doc_text provenance
  dsimp only
  by_cases hn : paths.length = 0
  · rw [if_pos (.inl (by simpa using hn))]
    refine ⟨nodup_nil, none, rfl, ?_⟩
    rintro (_ | ⟨i, t⟩) ⟨ht, hne⟩
    · exact absurd rfl hne
    · exact absurd ht.room (by omega)
  · rw [if_neg (by simp only [List.isEmpty_iff, ← length_eq_zero_iff]; omega)]
    obtain ⟨hd, -, ha⟩ := try_sizes_spec (n := paths.length)
      (fun s => (try_coerced_subset yaml doc_text paths parse s).toOption)
      (pairwise_lt_range' (s := 1) (n := paths.length))
      fun k hk => by have := mem_range'_1.mp hk; omega
    refine ⟨hd, _, rfl, ha.widen (fun t ht => .inr ⟨ht.1, ?_⟩) fun t ht => ⟨ht.1, ?_⟩⟩
    · obtain ⟨i, t, rfl⟩ := exists_cons_of_ne_nil ht.2
      have := ht.1.room
      simp only [mem_range'_1, length_cons]
      omega
    · rintro rfl
      simpa using ht.2

/-- A document with a quoted name and a quoted limit. -/
def limits : Yaml where
  from_str _ := .ok (.Mapping [("routes", .Sequence
    [.Mapping [("name", .String "7"), ("limit", .String "5")]])])
  to_string
    | .Mapping [(_, .Sequence [.Mapping [(_, .String name), (_, .Number n)]])] =>
      .ok s!"routes:\n- name: '{name}'\n  limit: {n}\n"
    | _ => .ok "name: 7\n"

def parse_limit (text : String) : Except CamelError String :=
  if text = "routes:\n- name: '7'\n  limit: 5\n" then .ok text
  else .error (.RouteError "limit: not a number")

def quoted_paths : List ProvenancePath :=
  ["name", "limit"].map fun leaf => [.Key "routes", .Index 0, .Key leaf]

theorem only_the_limit_is_coerced :
    (parse_with_probe limits "" (some quoted_paths) parse_limit).2 =
      .ok "routes:\n- name: '7'\n  limit: 5\n" := by
  obtain ⟨-, found, hp, ha⟩ :=
    (fewest_leaves_are_coerced limits "" (some quoted_paths) parse_limit (by decide)).2 _ rfl
  rw [hp]
  have hs : Subset 2 [1] := ⟨pairwise_singleton _ _, by decide⟩
  have hname : (try_coerced_subset limits "" (candidate_paths limits "" (some quoted_paths))
      parse_limit [0]).toOption = none := by decide
  have hlimit : (try_coerced_subset limits "" (candidate_paths limits "" (some quoted_paths))
      parse_limit [1]).toOption = some "routes:\n- name: '7'\n  limit: 5\n" := by decide
  cases found with
  | none => cases hlimit.symm.trans (ha [1] ⟨hs, by simp⟩)
  | some routes =>
    obtain ⟨u, ⟨hu, hne⟩, hr, hf⟩ := ha
    have hl : u = [0] ∨ u = [1] := by
      rcases hf [1] ⟨hs, by simp⟩ with hn | rfl | hlt | ⟨hlen, hb⟩
      · cases hlimit.symm.trans hn
      · exact .inr rfl
      · exact absurd (length_eq_zero_iff.mp (Nat.lt_one_iff.mp hlt)) hne
      · obtain ⟨i, rfl⟩ := length_eq_one_iff.mp hlen
        have hi : i < 2 := hu.2 i mem_cons_self
        obtain rfl | rfl : i = 0 ∨ i = 1 := by omega
        · exact .inl rfl
        · exact .inr rfl
    rcases hl with rfl | rfl
    · cases hname.symm.trans hr
    · cases hlimit.symm.trans hr
      rfl

end camel_dsl.env_int_probe
