-- Reloads that are undone. What a reload has registered is unregistered again, and counts, keys and
-- timeouts come back. The runners come back only where each runner of an addition stood in the pool
-- exactly when a function used it, and where no runner was spawned for an addition that the
-- provider then refused.
import RustCamel.Function.LiveRunners
import RustCamel.Function.Reload

open Finmap

namespace camel_function

open Interleaving List Option

/-! ## Well-formed registries

A function id is a hash of what the function is, so an id stands for one runtime and one timeout.
-/

section

variable (content : FunctionId → RunnerPoolKey × Nat)

/-- The id of the definition stands for its runtime and its timeout. -/
def Addressed (definition : FunctionDefinition) : Prop :=
  content definition.id = (definition.key, definition.timeout_ms)

structure WellFormed (r : Registry) : Prop where
  counted : ∀ ref, (r.ref_counts.lookup ref).isSome = (r.function_to_key.lookup ref).isSome
  positive : ∀ ref c, r.ref_counts.lookup ref = some c → 0 < c
  timed : ∀ id, (r.function_timeouts.lookup id).isSome = r.used_by_route id
  keyed : ∀ ref key, r.function_to_key.lookup ref = some key → key = (content ref.1).1
  limited : ∀ id timeout, r.function_timeouts.lookup id = some timeout → timeout = (content id).2

variable {content} {r r' : Registry} {id : FunctionId} {key : RunnerPoolKey} {ref : Ref} {c : Nat}

theorem WellFormed.key_of_counted (h : WellFormed content r) :
    r.function_to_key.lookup ref =
      if (r.ref_counts.lookup ref).isSome then some (content ref.1).1 else none := by
  rw [h.counted ref]
  cases hk : r.function_to_key.lookup ref with
  | none => rfl
  | some key => rw [h.keyed ref key hk]; rfl

theorem WellFormed.still_used (h : WellFormed content r) :
    r.still_used key = true ↔
      ∃ ref, (r.ref_counts.lookup ref).isSome = true ∧ (content ref.1).1 = key := by
  rw [Registry.still_used_iff]
  constructor
  · rintro ⟨ref, hr⟩
    refine ⟨ref, ?_, (h.keyed ref key hr).symm⟩
    rw [h.counted, hr]
    rfl
  · rintro ⟨ref, hr, rfl⟩
    refine ⟨ref, ?_⟩
    rw [h.key_of_counted, if_pos hr]

theorem WellFormed.used_by_route (h : WellFormed content r) :
    r.used_by_route id = true ↔ ∃ route_id, (r.ref_counts.lookup (id, route_id)).isSome = true := by
  rw [Registry.used_by_route_iff]
  constructor
  · rintro ⟨route_id, key, hr⟩
    refine ⟨route_id, ?_⟩
    rw [h.counted, hr]
    rfl
  · rintro ⟨route_id, hr⟩
    refine ⟨route_id, (content id).1, ?_⟩
    rw [h.key_of_counted, if_pos hr]

theorem WellFormed.ext (h : WellFormed content r) (h' : WellFormed content r')
    (hc : r.ref_counts = r'.ref_counts) (hh : r.handles = r'.handles) : r = r' := by
  apply Registry.ext hh hc
  · apply ext_lookup
    intro ref
    rw [h.key_of_counted, h'.key_of_counted, hc]
  · apply ext_lookup
    intro id
    have hu : r.used_by_route id = r'.used_by_route id := by
      rw [Bool.eq_iff_iff, h.used_by_route, h'.used_by_route, hc]
    have hs : (r.function_timeouts.lookup id).isSome = (r'.function_timeouts.lookup id).isSome := by
      rw [h.timed, h'.timed, hu]
    cases ht : r.function_timeouts.lookup id with
    | none =>
      rw [ht] at hs
      exact (isSome_eq_false_iff.mp hs.symm |> isNone_iff_eq_none.mp).symm
    | some timeout =>
      rw [ht] at hs
      obtain ⟨timeout', ht'⟩ := isSome_iff_exists.mp hs.symm
      rw [ht', h.limited id timeout ht, h'.limited id timeout' ht']

theorem WellFormed.with_handles (h : WellFormed content r)
    (handles : Finmap fun _ : RunnerPoolKey => RunnerHandle) :
    WellFormed content { r with handles } :=
  ⟨h.counted, h.positive, h.timed, h.keyed, h.limited⟩

theorem adopt_well_formed (h : WellFormed content r) (spawned : RunnerHandle) :
    WellFormed content (r.adopt key spawned).1 := by
  unfold Registry.adopt
  split
  · exact h
  · exact h.with_handles _

theorem still_used_with_handles (handles : Finmap fun _ : RunnerPoolKey => RunnerHandle) :
    Registry.still_used { r with handles } key = r.still_used key := rfl

theorem retire_eq (r : Registry) (key : RunnerPoolKey) : (r.retire key).1 =
    { r with handles := if r.still_used key then r.handles else r.handles.erase key } := by
  unfold Registry.retire
  split
  · rfl
  · split
    · rename_i hn
      refine Registry.ext ?_ rfl rfl rfl
      apply ext_lookup
      intro other
      dsimp only
      by_cases ho : other = key
      · rw [ho, lookup_erase, hn]
      · rw [lookup_erase_ne ho]
    · rfl

theorem record_well_formed (h : WellFormed content r) {definition : FunctionDefinition}
    (hco : Addressed content definition) (route_id : Option String) :
    WellFormed content (r.record definition route_id) := by
  unfold Addressed at hco
  unfold Registry.record
  refine ⟨?_, ?_, ?_, ?_, ?_⟩
  · intro ref
    dsimp only
    by_cases hr : ref = (definition.id, route_id)
    · rw [hr, lookup_insert, lookup_insert]
      rfl
    · rw [lookup_insert_of_ne _ hr, lookup_insert_of_ne _ hr]
      exact h.counted ref
  · intro ref c hc
    dsimp only at hc
    by_cases hr : ref = (definition.id, route_id)
    · rw [hr, lookup_insert] at hc
      split at hc
      all_goals
        cases hc
        omega
    · rw [lookup_insert_of_ne _ hr] at hc
      exact h.positive ref c hc
  · intro id
    dsimp only
    rw [Bool.eq_iff_iff, Registry.used_by_route_iff]
    dsimp only
    by_cases hi : id = definition.id
    · rw [hi, lookup_insert]
      refine ⟨?_, fun _ => rfl⟩
      intro _
      exact ⟨route_id, definition.key, lookup_insert _⟩
    · rw [lookup_insert_of_ne _ hi, h.timed, Registry.used_by_route_iff]
      have ho : ∀ route, (id, route) ≠ (definition.id, route_id) := by
        intro route heq
        exact hi (congrArg Prod.fst heq)
      constructor
      · rintro ⟨route, key, hk⟩
        refine ⟨route, key, ?_⟩
        rw [lookup_insert_of_ne _ (ho route)]
        exact hk
      · rintro ⟨route, key, hk⟩
        rw [lookup_insert_of_ne _ (ho route)] at hk
        exact ⟨route, key, hk⟩
  · intro ref key hk
    dsimp only at hk
    by_cases hr : ref = (definition.id, route_id)
    · rw [hr, lookup_insert] at hk
      cases hk
      rw [hr, hco]
    · rw [lookup_insert_of_ne _ hr] at hk
      exact h.keyed ref key hk
  · intro id timeout ht
    dsimp only at ht
    by_cases hi : id = definition.id
    · rw [hi, lookup_insert] at ht
      cases ht
      rw [hi, hco]
    · rw [lookup_insert_of_ne _ hi] at ht
      exact h.limited id timeout ht

/-- One use less. -/
def lower : Option Nat → Option Nat
  | some (c + 2) => some (c + 1)
  | _ => none

/-- The registry without one use of a function. -/
def forgotten (r : Registry) (ref : Ref) : Registry :=
  { r with
    ref_counts := r.ref_counts.erase ref
    function_to_key := r.function_to_key.erase ref }

theorem used_by_route_forgotten {other : FunctionId} (ho : other ≠ ref.1) :
    (forgotten r ref).used_by_route other = r.used_by_route other := by
  have hs : ∀ route_id, (forgotten r ref).function_to_key.lookup (other, route_id) =
      r.function_to_key.lookup (other, route_id) := by
    intro route_id
    apply lookup_erase_ne
    rintro rfl
    exact ho rfl
  rw [Bool.eq_iff_iff, Registry.used_by_route_iff, Registry.used_by_route_iff]
  simp only [hs]

theorem forgotten_well_formed (h : WellFormed content r)
    {timeouts : Finmap fun _ : FunctionId => Nat}
    (ht : ∀ id, (timeouts.lookup id).isSome = (forgotten r ref).used_by_route id)
    (hl : ∀ id timeout, timeouts.lookup id = some timeout → timeout = (content id).2) :
    WellFormed content { forgotten r ref with function_timeouts := timeouts } := by
  refine ⟨?_, ?_, ht, ?_, hl⟩
  · intro other
    dsimp only [forgotten]
    by_cases hr : other = ref
    · rw [hr, lookup_erase, lookup_erase]
      rfl
    · rw [lookup_erase_ne hr, lookup_erase_ne hr]
      exact h.counted other
  · intro other c hc
    dsimp only [forgotten] at hc
    by_cases hr : other = ref
    · rw [hr, lookup_erase] at hc
      cases hc
    · rw [lookup_erase_ne hr] at hc
      exact h.positive other c hc
  · intro other key hk
    dsimp only [forgotten] at hk
    by_cases hr : other = ref
    · rw [hr, lookup_erase] at hk
      cases hk
    · rw [lookup_erase_ne hr] at hk
      exact h.keyed other key hk

theorem lowered_well_formed (h : WellFormed content r)
    (hc : r.ref_counts.lookup ref = some (c + 2)) :
    WellFormed content { r with ref_counts := r.ref_counts.insert ref (c + 1) } := by
  refine ⟨?_, ?_, h.timed, h.keyed, h.limited⟩
  · intro other
    dsimp only
    by_cases hr : other = ref
    · rw [← h.counted, hr, lookup_insert, hc]
      rfl
    · rw [lookup_insert_of_ne _ hr]
      exact h.counted other
  · intro other d hd
    dsimp only at hd
    by_cases hr : other = ref
    · rw [hr, lookup_insert] at hd
      cases hd
      omega
    · rw [lookup_insert_of_ne _ hr] at hd
      exact h.positive other d hd

/-- What a use that is let go leaves: a registry with one use less, and the runner in use where no
key is left over. -/
structure LetGo (content : FunctionId → RunnerPoolKey × Nat) (r : Registry) (ref : Ref)
    (r' : Registry) (left : Option RunnerPoolKey) : Prop where
  well_formed : WellFormed content r'
  handles : r'.handles = r.handles
  counts : ∀ other, r'.ref_counts.lookup other =
    if other = ref then lower (r.ref_counts.lookup other) else r.ref_counts.lookup other
  own : ∀ key, left = some key → key = (content ref.1).1
  used : left = none → (r.ref_counts.lookup ref).isSome = true →
    r'.still_used (content ref.1).1 = true

theorem counts_forgotten (hc : r.ref_counts.lookup ref = some c) (hf : ¬c > 1) (other : Ref) :
    (r.ref_counts.erase ref).lookup other =
      if other = ref then lower (r.ref_counts.lookup other) else r.ref_counts.lookup other := by
  by_cases hr : other = ref
  · rw [if_pos hr, hr, lookup_erase, hc]
    obtain rfl | rfl : c = 0 ∨ c = 1 := by omega
    · rfl
    · rfl
  · rw [if_neg hr, lookup_erase_ne hr]

theorem let_go_spec (h : WellFormed content r) {left : Option RunnerPoolKey}
    (hg : r.let_go ref.1 ref.2 = (r', left)) : LetGo content r ref r' left := by
  unfold Registry.let_go at hg
  dsimp only at hg
  split at hg
  · rename_i hn
    cases hg
    refine ⟨h, rfl, ?_, nofun, ?_⟩
    · intro other
      split
      · rename_i hre
        rw [hre, hn]
        rfl
      · rfl
    · intro _ hs
      rw [hn] at hs
      cases hs
  · rename_i c hc
    have hw : r.used_by_route ref.1 = true := by
      rw [h.used_by_route]
      exact ⟨ref.2, by rw [hc]; rfl⟩
    split at hg
    · rename_i hm
      cases hg
      obtain ⟨c, rfl⟩ : ∃ d, c = d + 2 := ⟨c - 2, by omega⟩
      have hwf := lowered_well_formed h hc
      refine ⟨hwf, rfl, ?_, nofun, ?_⟩
      · intro other
        dsimp only
        by_cases hre : other = ref
        · rw [if_pos hre, hre, lookup_insert, hc]
          rfl
        · rw [if_neg hre, lookup_insert_of_ne _ hre]
      · intro _ _
        apply hwf.still_used.mpr
        exact ⟨ref, by rw [lookup_insert]; rfl, rfl⟩
    · rename_i hf
      split at hg
      · rename_i hn
        have hco := h.counted ref
        rw [hc, hn] at hco
        cases hco
      · rename_i pool_key hk
        split at hg
        · rename_i ho
          cases hg
          have hwf : WellFormed content (forgotten r ref) := by
            apply forgotten_well_formed h
            · intro id
              by_cases hi : id = ref.1
              · rw [hi, h.timed, hw]
                exact ho.symm
              · rw [used_by_route_forgotten hi]
                exact h.timed id
            · exact h.limited
          refine ⟨hwf, rfl, counts_forgotten hc hf, nofun, ?_⟩
          intro _ _
          obtain ⟨route_id, hr⟩ := hwf.used_by_route.mp ho
          exact hwf.still_used.mpr ⟨_, hr, rfl⟩
        · rename_i ho
          cases hg
          refine ⟨?_, rfl, counts_forgotten hc hf, ?_, nofun⟩
          · apply forgotten_well_formed h
            · intro id
              by_cases hi : id = ref.1
              · rw [hi, lookup_erase]
                exact (Bool.eq_false_of_not_eq_true ho).symm
              · rw [used_by_route_forgotten hi, lookup_erase_ne hi]
                exact h.timed id
            · intro id timeout ht
              by_cases hi : id = ref.1
              · rw [hi, lookup_erase] at ht
                cases ht
              · rw [lookup_erase_ne hi] at ht
                exact h.limited id timeout ht
          · intro key hl
            cases hl
            exact h.keyed ref pool_key hk

/-- A runner that no function uses is gone after an unregistration of its last one. -/
theorem unregister_spec (h : WellFormed content r) (hw : (r.ref_counts.lookup ref).isSome = true) :
    WellFormed content (r.unregister ref.1 ref.2) ∧
      (∀ other, (r.unregister ref.1 ref.2).ref_counts.lookup other =
        if other = ref then lower (r.ref_counts.lookup other) else r.ref_counts.lookup other) ∧
      ∀ key, (r.unregister ref.1 ref.2).handles.lookup key =
        if key = (content ref.1).1 ∧ (r.unregister ref.1 ref.2).still_used key = false then none
        else r.handles.lookup key := by
  unfold Registry.unregister
  rcases hg : r.let_go ref.1 ref.2 with ⟨r', _ | pool_key⟩
  · obtain ⟨hwf, hh, hc, -, hus⟩ := let_go_spec h hg
    refine ⟨hwf, hc, ?_⟩
    intro key
    dsimp only
    rw [hh, if_neg]
    rintro ⟨rfl, hu⟩
    rw [hus rfl hw] at hu
    cases hu
  · obtain ⟨hwf, hh, hc, how, -⟩ := let_go_spec h hg
    have hp := how pool_key rfl
    subst hp
    simp only [retire_eq, still_used_with_handles]
    refine ⟨hwf.with_handles _, hc, ?_⟩
    intro key
    rw [← hh]
    by_cases hk : key = (content ref.1).1
    · rw [hk]
      cases r'.still_used (content ref.1).1 with
      | true => simp
      | false => simp [lookup_erase]
    · have ho : ¬(key = (content ref.1).1 ∧ r'.still_used key = false) :=
        fun hb => hk hb.1
      rw [if_neg ho]
      split
      · rfl
      · exact lookup_erase_ne hk

end

/-! ## What was registered is unregistered again -/

/-- So many uses more. -/
def raise (uses : Option Nat) (n : Nat) : Option Nat :=
  if n = 0 then uses else some (uses.getD 0 + n)

theorem raise_raise (uses : Option Nat) (n : Nat) :
    raise (raise uses n) 1 = raise uses (n + 1) := by
  unfold raise
  by_cases hn : n = 0
  · simp [hn]
  · simp [hn]
    omega

theorem lower_raise {uses : Option Nat} (hp : ∀ c, uses = some c → 0 < c) (n : Nat) :
    lower (raise uses (n + 1)) = raise uses n := by
  unfold raise
  rw [if_neg (Nat.succ_ne_zero n)]
  cases uses with
  | none =>
    cases n with
    | zero => rfl
    | succ n => simp [lower]
  | some c =>
    obtain ⟨c, rfl⟩ : ∃ d, c = d + 1 := ⟨c - 1, by have := hp c rfl; omega⟩
    rw [getD_some, show c + 1 + (n + 1) = c + n + 2 by omega]
    by_cases hn : n = 0
    · simp [lower, hn]
    · simp [lower, hn]
      omega

theorem raise_isSome (uses : Option Nat) (n : Nat) :
    (raise uses n).isSome = true ↔ uses.isSome = true ∨ 0 < n := by
  unfold raise
  split
  · rename_i hn
    simp [hn]
  · rename_i hn
    simp only [isSome_some, true_iff]
    exact .inr (Nat.pos_of_ne_zero hn)

/-- How often a reload adds the function to the route. -/
def uses (added : List Addition) (ref : Ref) : Nat := added.countP fun a => a.ref = ref

theorem uses_pos {added : List Addition} {ref : Ref} :
    0 < uses added ref ↔ ∃ a ∈ added, a.ref = ref := by
  unfold uses
  simp [countP_pos_iff]

variable {a : Addition}

section

variable {content : FunctionId → RunnerPoolKey × Nat} {base r : Registry}
  {added : List Addition}

/-- A registry with the uses of the additions on top of the ones it had. -/
structure Over (content : FunctionId → RunnerPoolKey × Nat) (base : Registry)
    (added : List Addition) (r : Registry) : Prop where
  well_formed : WellFormed content r
  counts : ∀ ref, r.ref_counts.lookup ref = raise (base.ref_counts.lookup ref) (uses added ref)

theorem Over.still_used (h : Over content base added r) (hb : WellFormed content base)
    (had : ∀ a ∈ added, Addressed content a.1) (key : RunnerPoolKey) :
    r.still_used key = true ↔ base.still_used key = true ∨ ∃ a ∈ added, a.key = key := by
  rw [h.well_formed.still_used, hb.still_used]
  simp only [h.counts, raise_isSome, uses_pos]
  have hk : ∀ a ∈ added, (content a.ref.1).1 = a.key := by
    intro a ha
    have hc : content a.1.id = (a.1.key, a.1.timeout_ms) := had a ha
    rw [Addition.ref, hc]
    rfl
  constructor
  · rintro ⟨ref, hs | ⟨a, ha, rfl⟩, rfl⟩
    · exact .inl ⟨ref, hs, rfl⟩
    · exact .inr ⟨a, ha, (hk a ha).symm⟩
  · rintro (⟨ref, hs, rfl⟩ | ⟨a, ha, rfl⟩)
    · exact ⟨ref, .inl hs, rfl⟩
    · exact ⟨a.ref, .inr ⟨a, ha, rfl⟩, hk a ha⟩

theorem unregister_over (h : Over content base (a :: added) r) (hb : WellFormed content base)
    (ha : Addressed content a.1) :
    Over content base added (r.unregister a.1.id a.2) ∧
      ∀ key, (r.unregister a.1.id a.2).handles.lookup key =
        if key = a.key ∧ (r.unregister a.1.id a.2).still_used key = false then none
        else r.handles.lookup key := by
  have hc : content a.1.id = (a.1.key, a.1.timeout_ms) := ha
  have hw : (r.ref_counts.lookup a.ref).isSome = true := by
    rw [h.counts, raise_isSome]
    exact .inr (uses_pos.mpr ⟨a, mem_cons_self, rfl⟩)
  obtain ⟨hwf, hco, hh⟩ := unregister_spec h.well_formed hw
  refine ⟨⟨hwf, ?_⟩, ?_⟩
  · intro ref
    rw [show (r.unregister a.1.id a.2) = r.unregister a.ref.1 a.ref.2 from rfl, hco, h.counts]
    unfold uses
    rw [countP_cons]
    by_cases hr : ref = a.ref
    · rw [if_pos hr, if_pos (by simp [hr])]
      exact lower_raise (hb.positive ref) _
    · rw [if_neg hr, if_neg (by simpa using Ne.symm hr), Nat.add_zero]
  · intro key
    have hk := hh key
    rw [show (content a.ref.1).1 = a.key by rw [Addition.ref, hc]; rfl] at hk
    exact hk

theorem unregister_all_over (h : Over content base added r) (hba : WellFormed content base)
    (had : ∀ a ∈ added, Addressed content a.1) :
    Over content base [] (r.unregister_all added) ∧
      ∀ key, (r.unregister_all added).handles.lookup key =
        if (∃ a ∈ added, a.key = key) ∧ base.still_used key = false then none
        else r.handles.lookup key := by
  induction added generalizing r with
  | nil => simpa [Registry.unregister_all] using h
  | cons a added ih =>
    have hr : ∀ b ∈ added, Addressed content b.1 :=
      fun b hb => had b (mem_cons_of_mem a hb)
    obtain ⟨ho, hh⟩ := unregister_over h hba (had a mem_cons_self)
    obtain ⟨he, hal⟩ := ih ho hr
    refine ⟨he, ?_⟩
    intro key
    have hus := ho.still_used hba hr key
    rw [show r.unregister_all (a :: added) =
      (r.unregister a.1.id a.2).unregister_all added from rfl,
      hal key, hh key]
    cases hbe : base.still_used key with
    | true =>
      -- what was used before is used all along
      rw [hus.mpr (.inl hbe)]
      simp
    | false =>
      by_cases hl : ∃ b ∈ added, b.key = key
      · obtain ⟨b, hb, hk⟩ := hl
        rw [if_pos ⟨⟨b, hb, hk⟩, rfl⟩, if_pos ⟨⟨b, mem_cons_of_mem a hb, hk⟩, rfl⟩]
      · have hu : (r.unregister a.1.id a.2).still_used key = false := by
          rw [← Bool.not_eq_true, hus, hbe]
          rintro (hn | ha)
          · cases hn
          · exact hl ha
        rw [if_neg fun hbo => hl hbo.1, hu]
        by_cases hk : key = a.key
        · rw [if_pos ⟨hk, rfl⟩, if_pos ⟨⟨a, mem_cons_self, hk.symm⟩, rfl⟩]
        · rw [if_neg fun hbo => hk hbo.1, if_neg]
          rintro ⟨⟨b, hb, heq⟩, -⟩
          rcases mem_cons.mp hb with rfl | hb
          · exact hk heq.symm
          · exact hl ⟨b, hb, heq⟩

end

/-! ## The reload -/

/-- The runner of the addition is in the pool exactly when a function uses it. -/
def restorable (base : Registry) (a : Addition) : Bool :=
  (base.handles.lookup a.key).isSome == base.still_used a.key

/-- Is the runner in the pool, before the reload or for an addition before this one? -/
def pooled (base : Registry) (registered : List Addition) (key : RunnerPoolKey) : Bool :=
  (base.handles.lookup key).isSome || registered.any fun a => a.key = key

/-- A runner that is spawned becomes healthy. -/
def Answers.come_up (answers : Answers) : Bool :=
  match answers.spawn, answers.healthy with
  | .ok _, .ok _ => true
  | _, _ => false

/-- The provider registers the function. -/
def Answers.accepted (answers : Answers) : Bool :=
  match answers.register with
  | .ok _ => true
  | .error _ => false

/-- The condition: every addition that is registered is restorable, and one that the provider
refuses had its runner before. -/
def undoable (base : Registry) (registered : List Addition) : List Addition → (Nat → Answers) → Bool
  | [], _ => true
  | a :: added, answers =>
    if pooled base registered a.key || (answers 0).come_up then
      if (answers 0).accepted then
        restorable base a && undoable base (registered ++ [a]) added fun i => answers (i + 1)
      else pooled base registered a.key
    else true

section

variable {content : FunctionId → RunnerPoolKey × Nat} {base r : Registry}
  {registered : List Addition}

/-- The registry after some additions, all of which were registered. -/
structure Registered (content : FunctionId → RunnerPoolKey × Nat) (base : Registry)
    (registered : List Addition) (r : Registry) : Prop where
  beyond : Over content base registered r
  kept : ∀ key handle, base.handles.lookup key = some handle → r.handles.lookup key = some handle
  pooled : ∀ key, (r.handles.lookup key).isSome = pooled base registered key

theorem find_runner_cases (r : Registry) (key : RunnerPoolKey) (answers : Answers) :
    (∃ handle, r.handles.lookup key = some handle ∧ r.find_runner key answers = (r, .ok handle)) ∨
      r.handles.lookup key = none ∧
        ((∃ spawned, answers.come_up = true ∧ r.find_runner key answers =
            ({ r with handles := r.handles.insert key spawned }, .ok spawned)) ∨
          ∃ e, answers.come_up = false ∧ r.find_runner key answers = (r, .error e)) := by
  unfold Registry.find_runner Answers.come_up
  cases hh : r.handles.lookup key with
  | some handle => exact .inl ⟨handle, rfl, rfl⟩
  | none =>
    refine .inr ⟨rfl, ?_⟩
    cases answers.spawn with
    | error e => exact .inr ⟨_, rfl, rfl⟩
    | ok spawned =>
      cases answers.healthy with
      | error e => exact .inr ⟨_, rfl, rfl⟩
      | ok u =>
        refine .inl ⟨spawned, rfl, ?_⟩
        simp only [Registry.adopt, hh]

theorem register_with_cases (r : Registry) (a : Addition) (answers : Answers) :
    (answers.accepted = true ∧
        r.register_with a.1 a.2 answers.register = (r.record a.1 a.2, .ok ())) ∨
      ∃ e, answers.accepted = false ∧ r.register_with a.1 a.2 answers.register = (r, .error e) := by
  unfold Answers.accepted
  cases answers.register with
  | ok u => exact .inl ⟨rfl, rfl⟩
  | error e => exact .inr ⟨_, rfl, rfl⟩

theorem record_over {added : List Addition} (h : Over content base added r)
    (ha : Addressed content a.1) : Over content base (added ++ [a]) (r.record a.1 a.2) := by
  refine ⟨record_well_formed h.well_formed ha a.2, ?_⟩
  intro ref
  have hc := h.counts ref
  unfold uses at hc ⊢
  rw [countP_append, countP_singleton]
  dsimp only [Registry.record]
  by_cases hr : ref = (a.1.id, a.2)
  · rw [hr, lookup_insert]
    rw [hr] at hc
    rw [if_pos (by simp [Addition.ref]), ← raise_raise, ← hc]
    cases r.ref_counts.lookup (a.1.id, a.2) with
    | none | some c => rfl
  · rw [lookup_insert_of_ne _ hr, hc,
      if_neg (by rw [decide_eq_true_eq]; exact Ne.symm hr), Nat.add_zero]

theorem unregister_all_eq_iff (h : Registered content base registered r)
    (hba : WellFormed content base) (had : ∀ a ∈ registered, Addressed content a.1) :
    r.unregister_all registered = base ↔ ∀ a ∈ registered, restorable base a = true := by
  obtain ⟨ho, hh⟩ := unregister_all_over h.beyond hba had
  have hc : (r.unregister_all registered).ref_counts = base.ref_counts := by
    apply ext_lookup
    intro ref
    rw [ho.counts]
    rfl
  unfold restorable
  simp only [beq_iff_eq]
  constructor
  · intro heq a ha
    have hk := hh a.key
    rw [heq] at hk
    cases hus : base.still_used a.key with
    | false =>
      rw [if_pos ⟨⟨a, ha, rfl⟩, hus⟩] at hk
      rw [hk]
      rfl
    | true =>
      rw [if_neg (by simp [hus])] at hk
      rw [hk, h.pooled, pooled, Bool.or_eq_true, List.any_eq_true]
      exact .inr ⟨a, ha, by simp⟩
  · intro hal
    apply ho.well_formed.ext hba hc
    apply ext_lookup
    intro key
    rw [hh key]
    cases hb : base.handles.lookup key with
    | some handle =>
      rw [if_neg, h.kept key handle hb]
      rintro ⟨⟨a, ha, rfl⟩, hu⟩
      have hs := hal a ha
      rw [hb, hu] at hs
      cases hs
    | none =>
      split
      · rfl
      · rename_i hnot
        have hn : (r.handles.lookup key).isSome = false := by
          rw [h.pooled, pooled, hb, isSome_none, Bool.false_or, List.any_eq_false]
          intro a ha hk
          have hk := of_decide_eq_true hk
          have hs := hal a ha
          rw [hk, hb] at hs
          exact hnot ⟨⟨a, ha, hk⟩, hs.symm⟩
        exact isNone_iff_eq_none.mp (by simpa using hn)

theorem unregister_all_leaks (h : Over content base registered r)
    (hb : WellFormed content base) (hadd : ∀ a ∈ registered, Addressed content a.1)
    {key : RunnerPoolKey} (hp : pooled base registered key = false)
    (hs : (r.handles.lookup key).isSome = true) : r.unregister_all registered ≠ base := by
  intro heq
  obtain ⟨-, hh⟩ := unregister_all_over h hb hadd
  rw [pooled, Bool.or_eq_false_iff, List.any_eq_false] at hp
  obtain ⟨hn, had⟩ := hp
  have hk := hh key
  rw [heq, if_neg] at hk
  · rw [hk, hs] at hn
    cases hn
  · rintro ⟨⟨a, ha, heq⟩, -⟩
    exact had a ha (by simpa using heq)

/-- What the loop has done is undone: by itself when a registration fails, else by a rollback. -/
def undone (base : Registry) : Registry × Except FunctionInvocationError PrepareToken → Prop
  | (r, .error _) => r = base
  | (r, .ok token) => r.unregister_all token.registered = base

theorem pooled_concat (base : Registry) (registered : List Addition) (a : Addition)
    (key : RunnerPoolKey) : pooled base (registered ++ [a]) key =
      (pooled base registered key || decide (a.key = key)) := by
  simp [pooled, Bool.or_assoc]

theorem registered_found (h : Registered content base registered r)
    (hi : pooled base registered a.key = true) (ha : Addressed content a.1) :
    Registered content base (registered ++ [a]) (r.record a.1 a.2) := by
  refine ⟨record_over h.beyond ha, h.kept, ?_⟩
  intro key
  rw [pooled_concat]
  by_cases hk : a.key = key
  · rw [← hk, hi, Bool.true_or, ← hi]
    exact h.pooled a.key
  · rw [decide_eq_false hk, Bool.or_false]
    exact h.pooled key

theorem registered_spawned (h : Registered content base registered r) (spawned : RunnerHandle)
    (hn : r.handles.lookup a.key = none) (ha : Addressed content a.1) :
    Registered content base (registered ++ [a])
      (Registry.record { r with handles := r.handles.insert a.key spawned } a.1 a.2) := by
  have hov : Over content base registered
      { r with handles := r.handles.insert a.key spawned } :=
    ⟨h.beyond.well_formed.with_handles _, h.beyond.counts⟩
  refine ⟨record_over hov ha, ?_, ?_⟩
  · intro key handle hh
    have ho : key ≠ a.key := by
      rintro rfl
      rw [h.kept a.key handle hh] at hn
      cases hn
    dsimp only [Registry.record]
    rw [lookup_insert_of_ne _ ho]
    exact h.kept key handle hh
  · intro key
    dsimp only [Registry.record]
    rw [pooled_concat]
    by_cases hk : a.key = key
    · rw [← hk, lookup_insert, decide_eq_true rfl, Bool.or_true]
      rfl
    · rw [decide_eq_false hk, Bool.or_false, lookup_insert_of_ne _ (Ne.symm hk)]
      exact h.pooled key

/-- The loop of `prepare_reload`, after some additions were registered. -/
theorem register_added_undone_iff (hb : WellFormed content base) (added : List Addition)
    (hadd : ∀ a ∈ added, Addressed content a.1)
    (hf : ∀ a ∈ registered, Addressed content a.1)
    (h : Registered content base registered r) (answers : Nat → Answers) :
    undone base (r.register_added registered added answers) ↔
      (∀ a ∈ registered, restorable base a = true) ∧
        undoable base registered added answers = true := by
  induction added generalizing registered r answers with
  | nil =>
    simp only [Registry.register_added, undone, undoable, and_true]
    exact unregister_all_eq_iff h hb hf
  | cons a added ih =>
    obtain ⟨ha, had⟩ := forall_mem_cons.mp hadd
    have hp := h.pooled a.key
    have hnow := unregister_all_eq_iff h hb hf
    -- once recorded, the rest of the loop decides
    have hl : ∀ {r' : Registry}, Registered content base (registered ++ [a]) r' →
        (undone base (r'.register_added (registered ++ [a]) added fun i => answers (i + 1)) ↔
          (∀ b ∈ registered, restorable base b = true) ∧ restorable base a = true ∧
            undoable base (registered ++ [a]) added (fun i => answers (i + 1)) = true) := by
      intro r' hr'
      rw [ih had (forall_mem_concat hf ha) hr', forall_mem_append, forall_mem_singleton, and_assoc]
    rcases find_runner_cases r a.1.key (answers 0) with ⟨handle, hh, hfi⟩ |
      ⟨hn, ⟨spawned, hu, hfi⟩ | ⟨e, hu, hfi⟩⟩
    · have hi : pooled base registered a.key = true := by
        rw [← hp, Addition.key, hh]
        rfl
      simp only [Registry.register_added, undoable, Registry.register, hfi, hi, Bool.true_or,
        if_true]
      rcases register_with_cases r a (answers 0) with ⟨hok, hw⟩ | ⟨e, hno, hw⟩
      · simp only [hw, hok, if_true, Bool.and_eq_true]
        exact hl (registered_found h hi ha)
      · simp only [hw, hno, Bool.false_eq_true, if_false, undone, and_true]
        exact hnow
    · have ho : pooled base registered a.key = false := by
        rw [← hp, Addition.key, hn]
        rfl
      simp only [Registry.register_added, undoable, Registry.register, hfi, ho, hu,
        Bool.false_or, if_true]
      rcases register_with_cases { r with handles := r.handles.insert a.1.key spawned } a
        (answers 0)
        with ⟨hok, hw⟩ | ⟨e, hno, hw⟩
      · simp only [hw, hok, if_true, Bool.and_eq_true]
        exact hl (registered_spawned h spawned hn ha)
      · simp only [hw, hno, Bool.false_eq_true, if_false, undone, and_false, iff_false]
        refine unregister_all_leaks ⟨h.beyond.well_formed.with_handles _, h.beyond.counts⟩ hb hf
          ho ?_
        rw [Addition.key, lookup_insert]
        rfl
    · have ho : pooled base registered a.key = false := by
        rw [← hp, Addition.key, hn]
        rfl
      simp only [Registry.register_added, undoable, Registry.register, hfi, ho, hu,
        Bool.false_or, Bool.false_eq_true, if_false, undone, and_true]
      exact hnow

end

/-! ## The registries of all runs are well formed -/

section

variable (content : FunctionId → RunnerPoolKey × Nat)

/-- Only functions whose id stands for them are registered. -/
def addressed_calls (_ : State Pool Task) : Event Call (Except String Unit) → Prop
  | .spawn (.Register definition _) => Addressed content definition
  | _ => True

variable {content}

theorem well_formed_empty : WellFormed content .empty := by
  have hn : ∀ {α β : Type} [DecidableEq α] (a : α) {b : β},
      (∅ : Finmap fun _ : α => β).lookup a ≠ some b := by
    intro α β _ a b
    rw [lookup_empty]
    nofun
  refine ⟨fun _ => rfl, ?_, fun _ => rfl, ?_, ?_⟩
  · intro ref c hc
    exact absurd hc (hn ref)
  · intro ref key hk
    exact absurd hk (hn ref)
  · intro id timeout ht
    exact absurd ht (hn id)

theorem step_well_formed {p p' : Pool} {t t' : Task} {answer : Except String Unit}
    (hs : Step p t answer p' t') (h : WellFormed content p.registry)
    (ht : ∀ definition route_id, t.call = .Register definition route_id →
      Addressed content definition) :
    WellFormed content p'.registry ∧ t'.call = t.call := by
  cases hs with
  | found | missing | spawned | failed | released => exact ⟨h, rfl⟩
  | adopted definition route_id handle => exact ⟨adopt_well_formed h handle, rfl⟩
  | recorded definition route_id handle =>
    exact ⟨record_well_formed h (ht definition route_id rfl) route_id, rfl⟩
  | let_go id route_id answer registry left guards stage hg =>
    have hg' : p.registry.let_go (id, route_id).1 (id, route_id).2 = (registry, left) := hg
    exact ⟨(let_go_spec h hg').well_formed, rfl⟩
  | retired => exact ⟨h.with_handles _, rfl⟩

/-- The registries from which a reload starts are `WellFormed`: those that register and unregister
calls reach from the empty one, where an id is the hash of what it names. -/
theorem well_formed_of_reach {s : State Pool Task}
    (hr : calls.Reach (addressed_calls content) ⟨.empty, []⟩ s) :
    WellFormed content s.shared.registry := by
  have hk : WellFormed content s.shared.registry ∧ ∀ t ∈ s.tasks, ∀ definition route_id,
      t.call = .Register definition route_id → Addressed content definition := by
    apply hr.invariant
    · refine ⟨well_formed_empty, ?_⟩
      intro t ht
      cases ht
    · intro s call h ho
      refine ⟨h.1, forall_mem_concat h.2 ?_⟩
      intro definition route_id hc
      cases hc
      exact ho
    · intro s i t answer p' t' h _ ht ha
      obtain ⟨hw, hc⟩ := step_well_formed (step_of_advance ha) h.1
        (h.2 t (mem_of_getElem? ht))
      refine ⟨hw, ?_⟩
      intro u hu definition route_id hu'
      rcases mem_set_cases ht hu with rfl | ⟨j, -, hj⟩
      · exact h.2 t (mem_of_getElem? ht) definition route_id (by rw [← hc]; exact hu')
      · exact h.2 u (mem_of_getElem? hj) definition route_id hu'
  exact hk.1

end

/-! ## All or nothing -/

/-- After a reload that failed, or was rolled back, the registry is what it was. -/
def reload_undone (v : Invoker) (diff : FunctionDiff) (generation : Nat)
    (answers : Nat → Answers) : Prop :=
  match v.prepare_reload diff generation answers with
  | (after, .error _) => after.registry = v.registry
  | (after, .ok token) => (after.rollback_reload token generation).registry = v.registry

/-- A reload that fails, or is rolled back, leaves the registry as it was exactly when it is for
another generation, and so refused at once, or each of its additions can be undone. -/
theorem reload_undone_iff_undoable (content : FunctionId → RunnerPoolKey × Nat) (v : Invoker)
    (hwf : WellFormed content v.registry) (diff : FunctionDiff)
    (haddressed : ∀ a ∈ diff.added, Addressed content a.1) (generation : Nat)
    (answers : Nat → Answers) :
    reload_undone v diff generation answers ↔
      (generation = v.current_generation → undoable v.registry [] diff.added answers = true) := by
  unfold reload_undone Invoker.prepare_reload
  dsimp only
  by_cases hc : generation = v.current_generation
  · have hs : Registered content v.registry [] v.registry := by
      refine ⟨⟨hwf, fun _ => rfl⟩, fun _ _ hh => hh, ?_⟩
      intro key
      simp [pooled]
    have hn : ∀ a ∈ ([] : List Addition), Addressed content a.1 := nofun
    have hl := register_added_undone_iff hwf diff.added haddressed hn hs answers
    rw [if_neg (not_not_intro hc)]
    simp only [hc, forall_const]
    have hal : (∀ a ∈ ([] : List Addition), restorable v.registry a = true) := nofun
    rw [← and_iff_right hal (b := undoable v.registry [] diff.added answers = true), ← hl]
    rcases ha : v.registry.register_added [] diff.added answers with ⟨r, e | token⟩
    all_goals
      simp only [Invoker.purge_staging, ha]
      rfl
  · rw [if_pos hc]
    simp only [hc, false_implies, iff_true]
    rfl

/-- `greet` runs; `tally` is to join it on its runner, and the provider refuses it. -/
theorem refused_addition_is_undone :
    let content : FunctionId → RunnerPoolKey × Nat := fun _ => (⟨"deno"⟩, 5000)
    let running := (Registry.adopt .empty ⟨"deno"⟩ ⟨0⟩).1.record greet none
    let answers : Nat → Answers := fun _ => ⟨.error "none", .ok (), .error "refused"⟩
    WellFormed content running ∧
      reload_undone ⟨running, 1, []⟩ ⟨[(tally, some "counting")]⟩ 1 answers := by
  intro content running answers
  have hg : Addressed content greet := rfl
  have hw : WellFormed content running :=
    record_well_formed (adopt_well_formed well_formed_empty ⟨0⟩) hg none
  refine ⟨hw, (reload_undone_iff_undoable content ⟨running, 1, []⟩ hw _ ?_ 1 answers).mpr ?_⟩
  · intro a ha
    rw [mem_singleton.mp ha]
    rfl
  · intro _
    decide +kernel

/-- The first function of its runtime: its runner comes up, and the provider refuses it. -/
theorem spawned_runner_stays : ¬∀ (content : FunctionId → RunnerPoolKey × Nat) (v : Invoker)
    (diff : FunctionDiff) (generation : Nat) (answers : Nat → Answers),
    WellFormed content v.registry → (∀ a ∈ diff.added, Addressed content a.1) →
      reload_undone v diff generation answers := by
  intro hal
  have hu := hal (fun _ => (⟨"deno"⟩, 5000)) ⟨.empty, 1, []⟩ ⟨[(greet, some "greeting")]⟩ 1
    (fun _ => ⟨.ok ⟨0⟩, .ok (), .error "refused"⟩) well_formed_empty (by
      intro a ha
      rw [mem_singleton.mp ha]
      rfl)
  have hh := congrArg (fun r : Registry => r.handles.lookup ⟨"deno"⟩) hu
  revert hh
  decide +kernel

end camel_function
