-- The row matcher that the test tiers share. Row patterns are matched against the rows of
-- a query in any order: each pattern takes a row, and the patterns that hold the rows it
-- wants look for other ones. `regex` and the printer of `serde_json` stand as parameters.
import Mathlib.Data.Fintype.EquivFin
import Mathlib.Data.List.GetD
import Mathlib.Data.List.Perm.Basic
import Mathlib.Data.List.ReduceOption
import RustCamel.Simple.Evaluator

open camel_api camel_language_simple.evaluator List Option

namespace camel_matchers

/-! ## Expectations -/

inductive Expectation where
  | Equals (expected : Value)
  | Regex (pattern : String)
  | Contains (needle : String)
  | StartsWith (start : String)
  | EndsWith (stop : String)
  | Exists
  | JsonSubset (pattern : Value)
  | Any
  | Absent

/-- `Regex::new` with `is_match`, and what `serde_json` prints. -/
structure Texts where
  regex_new : String → Option (String → Bool)
  to_string : Value → String

variable (texts : Texts) {row : Nat} {p : Nat} {held : Option Nat} {r : Nat}
  {compat : List (List Bool)} {m : List (Option Nat)}

def stringify : Value → String
  | .String text => text
  | other => texts.to_string other

mutual

def json_subset : Value → Value → Bool
  | .Object pattern, .Object actual => entries_subset pattern actual
  | pattern, actual => value_eq pattern actual

def entries_subset : List (String × Value) → List (String × Value) → Bool
  | [], _ => true
  | (key, pattern) :: entries, actual =>
    (match actual.lookup key with
    | some value => json_subset pattern value
    | none => false) && entries_subset entries actual

end

def expectation_matches (expectation : Expectation) (value : Value) : Bool :=
  match expectation with
  | .Equals expected => value_eq value expected
  | .Regex pattern =>
    match texts.regex_new pattern with
    | some is_match => is_match (stringify texts value)
    | none => false
  | .Contains needle => decide (needle.toList <:+: (stringify texts value).toList)
  | .StartsWith start => start.toList.isPrefixOf (stringify texts value).toList
  | .EndsWith stop => stop.toList.isSuffixOf (stringify texts value).toList
  | .Exists => !value_eq value .Null
  | .JsonSubset pattern => json_subset pattern value
  | .Any => true
  | .Absent => false

def row_pattern_matches (pattern : List Expectation) (row : List Value) : Bool :=
  pattern.length = row.length &&
    (pattern.zip row).all fun cell => expectation_matches texts cell.1 cell.2

/-! ## Augmenting paths -/

structure Search where
  match_of_row : List (Option Nat)
  visited : List Bool

namespace Search

variable (s : Search)

def visit (row : Nat) : Search := { s with visited := s.visited.set row true }

def assign (row pattern : Nat) : Search :=
  { s with match_of_row := s.match_of_row.set row (some pattern) }

end Search

/-- The loop of `try_augment` over the rows that are left, with the recursive call `augment`. -/
def probe_rows (augment : Nat → Search → Option (Bool × Search)) (pattern : Nat) :
    List (Bool × Nat) → Search → Option (Bool × Search)
  | [], s => some (false, s)
  | (compatible, row) :: rest, s =>
    if !compatible || s.visited.getD row false then probe_rows augment pattern rest s
    else
      match s.match_of_row.getD row none with
      | none => some (true, (s.visit row).assign row pattern)
      | some holder =>
        match augment holder (s.visit row) with
        | some (true, s) => some (true, s.assign row pattern)
        | some (false, s) => probe_rows augment pattern rest s
        | none => none

/-- The source recurses without a bound. `none` is a call that is nested deeper than the fuel. -/
def try_augment (compat : List (List Bool)) : Nat → Nat → Search → Option (Bool × Search)
  | 0, _, _ => none
  | fuel + 1, pattern, s =>
    probe_rows (try_augment compat fuel) pattern (compat.getD pattern []).zipIdx s

def augment_all (compat : List (List Bool)) (rows : Nat) :
    List Nat → List (Option Nat) → Option Bool
  | [], _ => some true
  | pattern :: rest, match_of_row =>
    match try_augment compat (rows + 1) pattern ⟨match_of_row, .replicate rows false⟩ with
    | some (true, s) => augment_all compat rows rest s.match_of_row
    | some (false, _) => some false
    | none => none

def compatibility (expected : List (List Expectation)) (actual : List (List Value)) :
    List (List Bool) :=
  expected.map fun pattern => actual.map (row_pattern_matches texts pattern)

def rows_match (expected : List (List Expectation)) (actual : List (List Value))
    (unordered : Bool) : Option Bool :=
  if expected.length ≠ actual.length then some false
  else if !unordered then
    some ((expected.zip actual).all fun pair => row_pattern_matches texts pair.1 pair.2)
  else
    augment_all (compatibility texts expected actual) actual.length (.range expected.length)
      (.replicate actual.length none)

/-! ## What one search does -/

/-- Pattern `p` matches row `r`. -/
def Compatible (compat : List (List Bool)) (p r : Nat) : Prop := (compat.getD p [])[r]? = some true

/-- Every row is held by a pattern that matches it. -/
def Valid (compat : List (List Bool)) (m : List (Option Nat)) : Prop :=
  ∀ (r p : Nat), m[r]? = some (some p) → Compatible compat p r

/-- The pattern got a row, every pattern that had one has one, and the rows that were visited
before are held as before. -/
structure Placed (compat : List (List Bool)) (p : Nat) (s t : Search) : Prop where
  length : t.match_of_row.length = s.match_of_row.length
  valid : Valid compat t.match_of_row
  held : t.match_of_row.reduceOption.Perm (p :: s.match_of_row.reduceOption)
  kept : ∀ (r : Nat), s.visited[r]? = some true → t.match_of_row[r]? = s.match_of_row[r]?

/-- No row was given away. The rows `E` are visited, and so is each row that matches the holder
of a row visited on the way. -/
structure Stuck (compat : List (List Bool)) (E : Nat → Prop) (s t : Search) : Prop where
  same : t.match_of_row = s.match_of_row
  length : t.visited.length = s.visited.length
  fewer : t.visited.count false ≤ s.visited.count false
  grows : ∀ (r : Nat), s.visited[r]? = some true → t.visited[r]? = some true
  visited : ∀ r, E r → t.visited[r]? = some true
  closed : ∀ (r : Nat), t.visited[r]? = some true → s.visited[r]? = some true ∨
    ∃ h, s.match_of_row[r]? = some (some h) ∧
      ∀ r', Compatible compat h r' → t.visited[r']? = some true

def Outcome (compat : List (List Bool)) (p : Nat) (E : Nat → Prop) (s : Search) :
    Option (Bool × Search) → Prop
  | some (true, t) => Placed compat p s t
  | some (false, t) => Stuck compat E s t
  | none => False

theorem reduceOption_set (p : Nat) (h : m[row]? = some held) :
    (held.toList ++ (m.set row (some p)).reduceOption).Perm (p :: m.reduceOption) := by
  obtain ⟨hr, rfl⟩ := List.getElem?_eq_some_iff.mp h
  have hs : (m.set row (some p)).reduceOption.Perm (p :: (m.eraseIdx row).reduceOption) := by
    simpa [List.reduceOption] using (set_perm_cons_eraseIdx hr (some p)).filterMap id
  have hw : (m[row].toList ++ (m.eraseIdx row).reduceOption).Perm m.reduceOption := by
    have hp := (getElem_cons_eraseIdx_perm hr).filterMap id
    cases hh : m[row] <;> simpa [hh, List.reduceOption] using hp
  exact ((hs.append_left _).trans perm_middle).trans (hw.cons p)

variable {s : Search} {t : Search}

theorem placed_assign (hl : t.match_of_row.length = s.match_of_row.length)
    (hvalid : Valid compat t.match_of_row) (hro : Compatible compat p row)
    (hh : t.match_of_row[row]? = some held)
    (ha : t.match_of_row.reduceOption.Perm (held.toList ++ s.match_of_row.reduceOption))
    (hf : s.visited[row]? = some false)
    (hk : ∀ (r : Nat), s.visited[r]? = some true → t.match_of_row[r]? = s.match_of_row[r]?) :
    Placed compat p s (t.assign row p) := by
  constructor
  · simp [Search.assign, hl]
  · intro r q hr
    simp only [Search.assign, getElem?_set] at hr
    split at hr
    · rename_i heq
      split at hr
      · cases hr
        exact heq ▸ hro
      · cases hr
    · exact hvalid r q hr
  · have hs := (reduceOption_set p hh).trans ((ha.cons p).trans perm_middle.symm)
    exact (perm_append_left_iff _).mp hs
  · intro r hr
    have hn : row ≠ r := by
      rintro rfl
      rw [hf] at hr
      cases hr
    simp only [Search.assign, getElem?_set_ne hn]
    exact hk r hr

theorem visited_visit (hr : s.visited[row]? = some false) :
    (s.visit row).visited[r]? = some true ↔ r = row ∨ s.visited[r]? = some true := by
  have hl := (List.getElem?_eq_some_iff.mp hr).1
  simp only [Search.visit, getElem?_set, hl, if_true]
  by_cases h : row = r
  · simp [h]
  · simp [h, Ne.symm h]

theorem count_visit (hr : s.visited[row]? = some false) :
    (s.visit row).visited.count false + 1 = s.visited.count false := by
  obtain ⟨hl, hf⟩ := List.getElem?_eq_some_iff.mp hr
  have hp : 0 < s.visited.count false := count_pos_iff.mpr (hf ▸ getElem_mem hl)
  simp only [Search.visit, count_set hl, hf, beq_self_eq_true, if_true]
  simp only [Bool.true_beq, Bool.false_eq_true, if_false]
  omega

theorem Stuck.trans {compat : List (List Bool)} {E F : Nat → Prop} {s t u : Search}
    (h : Stuck compat E s t) (h' : Stuck compat F t u) :
    Stuck compat (fun r => E r ∨ F r) s u := by
  refine ⟨h'.same.trans h.same, h'.length.trans h.length, h'.fewer.trans h.fewer,
    fun r hr => h'.grows r (h.grows r hr), ?_, ?_⟩
  · rintro r (hr | hr)
    · exact h'.grows r (h.visited r hr)
    · exact h'.visited r hr
  · intro r hr
    rcases h'.closed r hr with hr | ⟨holder, hh, hc⟩
    · rcases h.closed r hr with hr | ⟨holder, hh, hc⟩
      · exact .inl hr
      · exact .inr ⟨holder, hh, fun r' hr' => h'.grows r' (hc r' hr')⟩
    · exact .inr ⟨holder, h.same ▸ hh, hc⟩

theorem stuck_visit {holder : Nat} (hro : s.visited[row]? = some false)
    (hh : s.match_of_row[row]? = some (some holder))
    (h : Stuck compat (Compatible compat holder) (s.visit row) t) :
    Stuck compat (fun r => r = row) s t := by
  have hc := count_visit hro
  refine ⟨h.same, by simpa [Search.visit] using h.length, by have := h.fewer; omega, ?_, ?_, ?_⟩
  · exact fun r hr => h.grows r ((visited_visit hro).mpr (.inr hr))
  · exact fun r hr => h.grows r ((visited_visit hro).mpr (.inl hr))
  · intro r hr
    rcases h.closed r hr with hr | hhe
    · rcases (visited_visit hro).mp hr with rfl | hr
      · exact .inr ⟨holder, hh, h.visited⟩
      · exact .inl hr
    · exact .inr hhe

theorem Outcome.after {E F G : Nat → Prop} {result : Option (Bool × Search)}
    (h : Stuck compat E s t) (hG : ∀ r, G r → E r ∨ F r) (hre : Outcome compat p F t result) :
    Outcome compat p G s result := by
  match result with
  | none => exact hre
  | some (true, u) =>
    refine ⟨h.same ▸ hre.length, hre.valid, h.same ▸ hre.held, ?_⟩
    intro r hr
    rw [hre.kept r (h.grows r hr), h.same]
  | some (false, u) =>
    have ht := h.trans hre
    exact { ht with visited := fun r hr => ht.visited r (hG r hr) }

section

variable {compat : List (List Bool)} {n : Nat}
  (hcompat : ∀ p r, Compatible compat p r → r < n)

include hcompat

theorem probe_rows_spec {augment : Nat → Search → Option (Bool × Search)} {fuel pattern : Nat}
    (ha : ∀ holder s, s.match_of_row.length = n → s.visited.length = n →
      Valid compat s.match_of_row → s.visited.count false < fuel →
      Outcome compat holder (Compatible compat holder) s (augment holder s))
    (rest : List (Bool × Nat)) (hre : ∀ row, (true, row) ∈ rest → Compatible compat pattern row)
    (s : Search) (hm : s.match_of_row.length = n) (hv : s.visited.length = n)
    (hvalid : Valid compat s.match_of_row) (hfu : s.visited.count false ≤ fuel) :
    Outcome compat pattern (fun row => (true, row) ∈ rest) s
      (probe_rows augment pattern rest s) := by
  induction rest generalizing s with
  | nil => exact ⟨rfl, rfl, le_rfl, fun _ => id, by simp, fun _ => .inl⟩
  | cons entry rest ih =>
    obtain ⟨compatible, row⟩ := entry
    have ih := ih fun row hro => hre row (.tail _ hro)
    unfold probe_rows
    split
    · rename_i hsk
      -- A row that is passed over is not compatible, or it was visited before.
      have hs : Stuck compat (fun r => s.visited[r]? = some true) s s :=
        ⟨rfl, rfl, le_rfl, fun _ => id, fun _ => id, fun _ => .inl⟩
      refine Outcome.after hs ?_ (ih s hm hv hvalid hfu)
      intro r hr
      rcases mem_cons.mp hr with heq | hr
      · cases heq
        refine .inl ?_
        cases hr : s.visited[row]? <;> simp_all
      · exact .inr hr
    · rename_i hf
      simp only [Bool.or_eq_true, not_or, Bool.not_eq_true', Bool.not_eq_false] at hf
      obtain ⟨rfl, hf⟩ := hf
      have hro := hre row (.head _)
      have hl := hcompat _ _ hro
      rw [getD_eq_getElem _ _ (hv.symm ▸ hl)] at hf
      rw [getD_eq_getElem _ _ (hm.symm ▸ hl)]
      have hf : s.visited[row]? = some false := by simp [hv, hl, hf]
      have hc := count_visit hf
      cases hh : s.match_of_row[row] with
      | none =>
        have hh : s.match_of_row[row]? = some none := by simp [hm, hl, hh]
        exact placed_assign rfl hvalid hro hh (.refl _) hf fun _ _ => rfl
      | some holder =>
        have hh : s.match_of_row[row]? = some (some holder) := by simp [hm, hl, hh]
        have hca := ha holder (s.visit row) hm (by simpa [Search.visit] using hv)
          hvalid (by omega)
        dsimp only
        match augment holder (s.visit row), hca with
        | some (true, t), hca =>
          have hk := fun r hr => hca.kept r ((visited_visit hf).mpr hr)
          exact placed_assign hca.length hca.valid hro ((hk row (.inl rfl)).trans hh)
            hca.held hf fun r hr => hk r (.inr hr)
        | some (false, t), hca =>
          have hs := stuck_visit hf hh hca
          refine Outcome.after hs ?_ (ih t (hs.same ▸ hm) (hs.length ▸ hv)
            (hs.same ▸ hvalid) (hs.fewer.trans hfu))
          intro r hr
          rcases mem_cons.mp hr with heq | hr
          · cases heq
            exact .inl rfl
          · exact .inr hr

theorem try_augment_spec (fuel pattern : Nat) (s : Search) (hm : s.match_of_row.length = n)
    (hv : s.visited.length = n) (hvalid : Valid compat s.match_of_row)
    (hf : s.visited.count false < fuel) :
    Outcome compat pattern (Compatible compat pattern) s (try_augment compat fuel pattern s) := by
  induction fuel generalizing pattern s with
  | zero => omega
  | succ fuel ih =>
    have hr : ∀ row, (true, row) ∈ (compat.getD pattern []).zipIdx ↔
        Compatible compat pattern row := fun row => mk_mem_zipIdx_iff_getElem?
    have hs := probe_rows_spec hcompat ih _ (fun row hro => (hr row).mp hro) s hm
      hv hvalid (by omega)
    simp only [hr] at hs
    exact hs

end

/-! ## All patterns -/

/-- Every pattern can be placed on a row of its own. -/
def Matchable (compat : List (List Bool)) (patterns : List Nat) : Prop :=
  ∃ f : Nat → Nat, (∀ p ∈ patterns, Compatible compat p (f p)) ∧ Set.InjOn f {p | p ∈ patterns}

section

variable {compat : List (List Bool)} {n : Nat} {m : List (Option Nat)}

theorem Matchable.subset {patterns patterns' : List Nat} (h : Matchable compat patterns)
    (hs : patterns' ⊆ patterns) : Matchable compat patterns' := by
  obtain ⟨f, hc, hinj⟩ := h
  exact ⟨f, fun p hp => hc p (hs hp), hinj.mono fun p hp => hs hp⟩

theorem row_of_holder {r' : Nat} (hn : m.reduceOption.Nodup) (hr : m[r]? = some (some p))
    (hr' : m[r']? = some (some p)) : r = r' := by
  obtain ⟨hl, hr⟩ := List.getElem?_eq_some_iff.mp hr
  obtain ⟨hl', hr'⟩ := List.getElem?_eq_some_iff.mp hr'
  have hne := pairwise_iff_getElem.mp (pairwise_filterMap.mp hn)
  rcases Nat.lt_trichotomy r r' with h | h | h
  · exact absurd rfl (hne r r' hl hl' h p hr p hr')
  · exact h
  · exact absurd rfl (hne r' r hl' hl h p hr' p hr)

/-- The holders of the rows a stuck search visited match only these rows. Placed each on a row of
its own they take all of them, and none is left for the pattern. -/
theorem Stuck.not_matchable (h : Stuck compat (Compatible compat p) ⟨m, .replicate n false⟩ t)
    (hn : (p :: m.reduceOption).Nodup) : ¬Matchable compat (p :: m.reduceOption) := by
  rintro ⟨f, hf, hinj⟩
  obtain ⟨hnot, hn⟩ := nodup_cons.mp hn
  let rows := (Finset.range n).filter fun r => t.visited[r]? = some true
  have hro : ∀ r, r ∈ rows ↔ t.visited[r]? = some true := by
    intro r
    simp only [rows, Finset.mem_filter, Finset.mem_range, and_iff_right_iff_imp]
    intro hr
    have hl := (List.getElem?_eq_some_iff.mp hr).1
    simpa [h.length] using hl
  let holder := fun r : Nat => (m[r]?.join).getD 0
  have hh : ∀ r ∈ rows, m[r]? = some (some (holder r)) ∧
      ∀ r', Compatible compat (holder r) r' → r' ∈ rows := by
    intro r hr
    rcases h.closed r ((hro r).mp hr) with hw | ⟨q, hq, hc⟩
    · simp [getElem?_replicate] at hw
    · have hq' : m[r]? = some (some q) := hq
      simp only [holder, hq', join_some, getD_some, true_and]
      exact fun r' hr' => (hro r').mpr (hc r' hr')
  have hme : ∀ r ∈ rows, holder r ∈ m.reduceOption := fun r hr =>
    reduceOption_mem_iff.mpr (mem_of_getElem? (hh r hr).1)
  have hm : Set.MapsTo (f ∘ holder) rows rows := fun r hr =>
    (hh r hr).2 _ (hf _ (.tail _ (hme r hr)))
  have hi' : Set.InjOn (f ∘ holder) rows := by
    intro r hr r' hr' heq
    have hs := hinj (.tail _ (hme r hr)) (.tail _ (hme r' hr')) heq
    exact row_of_holder hn (hh r hr).1 (hs ▸ (hh r' hr').1)
  have hp : f p ∈ rows := (hro _).mpr (h.visited _ (hf p (.head _)))
  obtain ⟨r, hr, heq⟩ := Finset.surjOn_of_injOn_of_card_le _ hm hi' le_rfl hp
  exact hnot (hinj (.tail _ (hme r hr)) (.head _) heq ▸ hme r hr)

theorem augment_all_spec (hcompat : ∀ p r, Compatible compat p r → r < n) (rest : List Nat)
    (hl : m.length = n) (hvalid : Valid compat m) (hn : (rest ++ m.reduceOption).Nodup) :
    match augment_all compat n rest m with
    | some true => ∃ m', m'.length = n ∧ Valid compat m' ∧
        m'.reduceOption.Perm (rest ++ m.reduceOption)
    | some false => ¬Matchable compat (rest ++ m.reduceOption)
    | none => False := by
  induction rest generalizing m with
  | nil => exact ⟨m, hl, hvalid, .refl _⟩
  | cons p rest ih =>
    unfold augment_all
    have hsp := try_augment_spec hcompat (n + 1) p ⟨m, .replicate n false⟩ hl (by simp)
      hvalid (by simp)
    match try_augment compat (n + 1) p ⟨m, .replicate n false⟩, hsp with
    | some (true, t), hp =>
      have hpe : (rest ++ t.match_of_row.reduceOption).Perm (p :: rest ++ m.reduceOption) :=
        (hp.held.append_left rest).trans perm_middle
      have hr := ih (hp.length.trans hl) hp.valid (hpe.nodup_iff.mpr hn)
      dsimp only
      split <;> rename_i ha <;> rw [ha] at hr
      · obtain ⟨m', hl', hv', hh⟩ := hr
        exact ⟨m', hl', hv', hh.trans hpe⟩
      · exact fun h => hr (h.subset hpe.subset)
      · exact hr
    | some (false, t), hs =>
      have hsu : (p :: m.reduceOption).Sublist (p :: rest ++ m.reduceOption) :=
        (sublist_append_right rest _).cons_cons p
      exact fun h => hs.not_matchable (hn.sublist hsu) (h.subset hsu.subset)

end

/-! ## Rows in any order -/

theorem row_pattern_matches_iff {pattern : List Expectation} {row : List Value} :
    row_pattern_matches texts pattern row = true ↔
      List.Forall₂ (fun expectation value => expectation_matches texts expectation value = true)
        pattern row := by
  simp [row_pattern_matches, forall₂_iff_zip]

section

variable {expected : List (List Expectation)} {actual : List (List Value)}

theorem compatible_iff :
    Compatible (compatibility texts expected actual) p r ↔
      ∃ (hp : p < expected.length) (hr : r < actual.length),
        row_pattern_matches texts expected[p] actual[r] = true := by
  unfold Compatible compatibility
  by_cases hp : p < expected.length
  · by_cases hr : r < actual.length <;> simp [hp, hr]
  · simp [hp]

theorem bijection_of_placed (heq : expected.length = actual.length)
    (hl : m.length = actual.length) (hvalid : Valid (compatibility texts expected actual) m)
    (hpe : m.reduceOption.Perm (.range expected.length)) :
    ∃ rows : Fin expected.length ≃ Fin actual.length, ∀ p,
      row_pattern_matches texts (expected.get p) (actual.get (rows p)) = true := by
  have hs := reduceOption_length_eq_iff.mp
    (hpe.length_eq.trans (by rw [length_range, heq, hl]))
  have hh : ∀ r : Fin actual.length, ∃ p : Fin expected.length, m[r.val]? = some (some p.val) ∧
      row_pattern_matches texts (expected.get p) (actual.get r) = true := by
    intro r
    have hr : r.val < m.length := hl.symm ▸ r.isLt
    obtain ⟨p, hp⟩ := isSome_iff_exists.mp (hs _ (getElem_mem hr))
    have hhe : m[r.val]? = some (some p) := by rw [getElem?_eq_getElem hr, hp]
    obtain ⟨hlt, _, hm⟩ := (compatible_iff texts).mp (hvalid _ _ hhe)
    exact ⟨⟨p, hlt⟩, hhe, hm⟩
  choose pattern_of hhe hm using hh
  have hinj : Function.Injective pattern_of := by
    intro r r' hsa
    exact Fin.ext (row_of_holder (hpe.nodup_iff.mpr nodup_range) (hhe r) (hsa ▸ hhe r'))
  have hb := (Fintype.bijective_iff_injective_and_card pattern_of).mpr ⟨hinj, by simp [heq]⟩
  refine ⟨(Equiv.ofBijective pattern_of hb).symm, fun p => ?_⟩
  have hp := hm ((Equiv.ofBijective pattern_of hb).symm p)
  rwa [show pattern_of ((Equiv.ofBijective pattern_of hb).symm p) = p from
    (Equiv.ofBijective pattern_of hb).apply_symm_apply p] at hp

theorem matchable_of_bijection (rows : Fin expected.length ≃ Fin actual.length)
    (h : ∀ p, row_pattern_matches texts (expected.get p) (actual.get (rows p)) = true) :
    Matchable (compatibility texts expected actual) (.range expected.length) := by
  refine ⟨fun p => if hp : p < expected.length then rows ⟨p, hp⟩ else 0, ?_, ?_⟩
  · intro p hp
    have hp := List.mem_range.mp hp
    simp only [dif_pos hp]
    exact (compatible_iff texts).mpr ⟨hp, (rows ⟨p, hp⟩).isLt, h ⟨p, hp⟩⟩
  · intro p hp q hq heq
    have hp := List.mem_range.mp hp
    have hq := List.mem_range.mp hq
    simp only [dif_pos hp, dif_pos hq] at heq
    exact Fin.mk.inj_iff.mp (rows.injective (Fin.ext heq))

/-- The search always ends. It says yes exactly when the patterns and the rows can be paired off,
each pattern with a row that it matches cell by cell. -/
theorem unordered_rows_are_paired (expected : List (List Expectation))
    (actual : List (List Value)) :
    ∃ found, rows_match texts expected actual true = some found ∧
      (found = true ↔ ∃ rows : Fin expected.length ≃ Fin actual.length, ∀ p,
        List.Forall₂ (fun expectation value => expectation_matches texts expectation value = true)
          (expected.get p) (actual.get (rows p))) := by
  simp only [← row_pattern_matches_iff]
  unfold rows_match
  by_cases heq : expected.length = actual.length
  · rw [if_neg (not_not.mpr heq), if_neg (by simp)]
    have hcompat : ∀ p r, Compatible (compatibility texts expected actual) p r →
        r < actual.length := fun p r h => ((compatible_iff texts).mp h).2.choose
    have he : Valid (compatibility texts expected actual) (.replicate actual.length none) := by
      simp [Valid, getElem?_replicate]
    have hs := augment_all_spec hcompat (.range expected.length) length_replicate he
      (by simp [nodup_range])
    simp only [reduceOption_replicate_none, append_nil] at hs
    match augment_all (compatibility texts expected actual) actual.length (.range expected.length)
      (.replicate actual.length none), hs with
    | some true, ⟨m, hl, hvalid, hp⟩ =>
      exact ⟨true, rfl, by simpa using bijection_of_placed texts heq hl hvalid hp⟩
    | some false, hnot =>
      refine ⟨false, rfl, by simp, ?_⟩
      rintro ⟨rows, hr⟩
      exact absurd (matchable_of_bijection texts rows hr) hnot
  · refine ⟨false, if_pos heq, by simp, ?_⟩
    rintro ⟨rows, -⟩
    exact absurd (by simpa using Fintype.card_congr rows) heq

end

end camel_matchers
