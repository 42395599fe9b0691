-- The runners of registered functions. A registration that has looked its runner up waits for the
-- provider while the last unregistration of another function takes that runner out of the pool:
-- the lock of the registrations does not cover it. Without this overlap every registered function
-- has a live runner.
import RustCamel.Function.Registry

namespace camel_function

variable {definition : FunctionDefinition}

open Interleaving List

/-! ## The functions between the awaits -/

namespace Registry

variable {r r' : Registry} {key pool_key : RunnerPoolKey} {id : FunctionId}
  {route_id : Option String}

theorem still_used_iff :
    r.still_used key = true ↔ ∃ ref, r.function_to_key.lookup ref = some key := by
  unfold still_used
  rw [decide_eq_true_iff]
  constructor
  · rintro ⟨ref, -, hk⟩
    exact ⟨ref, hk⟩
  · rintro ⟨ref, hk⟩
    exact ⟨ref, Finmap.mem_keys.mpr (Finmap.mem_of_lookup_eq_some hk), hk⟩

theorem used_by_route_iff : r.used_by_route id = true ↔
    ∃ route_id key, r.function_to_key.lookup (id, route_id) = some key := by
  unfold used_by_route
  rw [decide_eq_true_iff]
  constructor
  · rintro ⟨⟨id', route_id⟩, hm, rfl⟩
    obtain ⟨key, hk⟩ := Finmap.mem_iff.mp (Finmap.mem_keys.mp hm)
    exact ⟨route_id, key, hk⟩
  · rintro ⟨route_id, key, hk⟩
    exact ⟨_, Finmap.mem_keys.mpr (Finmap.mem_of_lookup_eq_some hk), rfl⟩

theorem let_go_cases {left : Option RunnerPoolKey} (h : r.let_go id route_id = (r', left)) :
    r'.handles = r.handles ∧
      (r' = r ∧ r.ref_counts.lookup (id, route_id) = none ∨
        (∃ c, r.ref_counts.lookup (id, route_id) = some (c + 2) ∧
          r' = { r with ref_counts := r.ref_counts.insert (id, route_id) (c + 1) }) ∨
        (∃ c ≤ 1, r.ref_counts.lookup (id, route_id) = some c) ∧
          r'.ref_counts = r.ref_counts.erase (id, route_id) ∧
          r'.function_to_key = r.function_to_key.erase (id, route_id)) := by
  unfold let_go at h
  dsimp only at h
  split at h
  · rename_i hn
    cases h
    exact ⟨rfl, .inl ⟨rfl, hn⟩⟩
  · rename_i c hc
    split at h
    · rename_i hm
      cases h
      obtain ⟨c, rfl⟩ : ∃ d, c = d + 2 := ⟨c - 2, by omega⟩
      exact ⟨rfl, .inr (.inl ⟨c, hc, rfl⟩)⟩
    · rename_i hf
      have hlast : ∃ c ≤ 1, r.ref_counts.lookup (id, route_id) = some c := ⟨c, by omega, hc⟩
      split at h
      · rename_i hn
        cases h
        refine ⟨rfl, .inr (.inr ⟨hlast, rfl, ?_⟩)⟩
        apply Finmap.ext_lookup
        intro ref
        by_cases hr : ref = (id, route_id)
        · rw [hr, Finmap.lookup_erase]
          exact hn
        · rw [Finmap.lookup_erase_ne hr]
      · split at h
        all_goals
          cases h
          exact ⟨rfl, .inr (.inr ⟨hlast, rfl, rfl⟩)⟩

theorem retire_cases (r : Registry) (pool_key : RunnerPoolKey) :
    r.retire pool_key = (r, none) ∨
      ∃ handle, r.still_used pool_key = false ∧ r.handles.lookup pool_key = some handle ∧
        r.retire pool_key = ({ r with handles := r.handles.erase pool_key }, some handle) := by
  unfold retire
  split
  · exact .inl rfl
  · rename_i hu
    split
    · exact .inl rfl
    · rename_i handle hh
      exact .inr ⟨handle, by simpa using hu, hh, rfl⟩

theorem retire_missing (hn : r.handles.lookup pool_key = none) : r.retire pool_key = (r, none) := by
  rcases r.retire_cases pool_key with hs | ⟨handle, -, hh, -⟩
  · exact hs
  · rw [hn] at hh
    cases hh

end Registry

/-! ## The steps of a call -/

namespace Task

/-- Is the call inside the lock of the registrations? -/
def holds_lock (t : Task) : Bool :=
  match t.call, t.stage with
  | .Register _ _, .Spawning | .Register _ _, .Booting _ | .Register _ _, .Registering _ => true
  | _, _ => false

/-- The runner that the call has spawned and not put into the pool yet. -/
def boots (t : Task) : Option RunnerHandle :=
  match t.call, t.stage with
  | .Register _ _, .Booting handle => some handle
  | _, _ => none

/-- The runner that the call has found and waits for the provider with. -/
def awaits (t : Task) : Option RunnerPoolKey :=
  match t.call, t.stage with
  | .Register definition _, .Registering _ => some definition.key
  | _, _ => none

end Task

def takes (p : Pool) (t : Task) : Except String Unit → Option RunnerPoolKey
  | .ok _ =>
    match t.stage with
    | .Unregistering pool_key => if p.registry.still_used pool_key then none else some pool_key
    | _ => none
  | .error _ => none

/-- What a step of a call does. -/
inductive Step (p : Pool) : Task → Except String Unit → Pool → Task → Prop
  | found (definition : FunctionDefinition) (route_id : Option String) (handle : RunnerHandle)
    (answer : Except String Unit) (hlock : p.register_lock = false)
    (hhandle : p.registry.handles.lookup definition.key = some handle) :
    Step p ⟨.Register definition route_id, .Queued⟩ answer { p with register_lock := true }
      ⟨.Register definition route_id, .Registering handle⟩
  | missing (definition : FunctionDefinition) (route_id : Option String)
    (answer : Except String Unit) (hlock : p.register_lock = false) :
    Step p ⟨.Register definition route_id, .Queued⟩ answer { p with register_lock := true }
      ⟨.Register definition route_id, .Spawning⟩
  | spawned (definition : FunctionDefinition) (route_id : Option String) :
    Step p ⟨.Register definition route_id, .Spawning⟩ (.ok ()) { p with next_id := p.next_id + 1 }
      ⟨.Register definition route_id, .Booting ⟨p.next_id⟩⟩
  | adopted (definition : FunctionDefinition) (route_id : Option String) (handle : RunnerHandle) :
    Step p ⟨.Register definition route_id, .Booting handle⟩ (.ok ())
      { p with registry := (p.registry.adopt definition.key handle).1 }
      ⟨.Register definition route_id, .Registering (p.registry.adopt definition.key handle).2⟩
  | recorded (definition : FunctionDefinition) (route_id : Option String) (handle : RunnerHandle) :
    Step p ⟨.Register definition route_id, .Registering handle⟩ (.ok ())
      { p with registry := p.registry.record definition route_id, register_lock := false }
      ⟨.Register definition route_id, .Done (.ok ())⟩
  | failed (t : Task) (e : String) (err : FunctionInvocationError) (hlock : t.holds_lock = true) :
    Step p t (.error e) { p with register_lock := false } { t with stage := .Done (.error err) }
  | let_go (id : FunctionId) (route_id : Option String) (answer : Except String Unit)
    (registry : Registry) (left : Option RunnerPoolKey) (guards : List RunnerPoolKey)
    (stage : Stage) (hgo : p.registry.let_go id route_id = (registry, left)) :
    Step p ⟨.Unregister id route_id, .Queued⟩ answer { p with registry, guards }
      ⟨.Unregister id route_id, stage⟩
  | released (id : FunctionId) (route_id : Option String) (stage stage' : Stage)
    (answer : Except String Unit) (guards : List RunnerPoolKey) :
    Step p ⟨.Unregister id route_id, stage⟩ answer { p with guards }
      ⟨.Unregister id route_id, stage'⟩
  | retired (id : FunctionId) (route_id : Option String) (pool_key : RunnerPoolKey)
    (handle : RunnerHandle) (guards : List RunnerPoolKey)
    (hunused : p.registry.still_used pool_key = false)
    (hhandle : p.registry.handles.lookup pool_key = some handle) :
    Step p ⟨.Unregister id route_id, .Unregistering pool_key⟩ (.ok ())
      { p with
        registry := { p.registry with handles := p.registry.handles.erase pool_key }
        guards := guards
        ended := handle :: p.ended }
      ⟨.Unregister id route_id, .ShuttingDown handle⟩

theorem register_step {p p' : Pool} {route_id : Option String} {stage stage' : Stage}
    {answer : Except String Unit}
    (h : p.register definition route_id stage answer = some (p', stage')) :
    Step p ⟨.Register definition route_id, stage⟩ answer p'
      ⟨.Register definition route_id, stage'⟩ := by
  unfold Pool.register at h
  split at h
  · split at h
    · cases h
    · rename_i hl
      split at h
      · rename_i handle hh
        cases h
        exact .found definition route_id handle _ (by simpa using hl) hh
      · cases h
        exact .missing definition route_id _ (by simpa using hl)
  · cases h
    exact .spawned definition route_id
  · cases h
    exact .adopted definition route_id _
  · cases h
    exact .failed ⟨.Register definition route_id, .Spawning⟩ _ _ rfl
  · cases h
    exact .failed ⟨.Register definition route_id, .Booting _⟩ _ _ rfl
  · cases h
    exact .recorded definition route_id _
  · cases h
    exact .failed ⟨.Register definition route_id, .Registering _⟩ _ _ rfl
  · cases h

theorem unregister_step {p p' : Pool} {id : FunctionId} {route_id : Option String}
    {stage stage' : Stage} {answer : Except String Unit}
    (h : p.unregister id route_id stage answer = some (p', stage')) :
    Step p ⟨.Unregister id route_id, stage⟩ answer p' ⟨.Unregister id route_id, stage'⟩ := by
  unfold Pool.unregister at h
  split at h
  · split at h
    · rename_i registry hg
      cases h
      exact .let_go id route_id _ registry none p.guards _ hg
    · rename_i registry pool_key hg
      split at h
      · cases h
        exact .let_go id route_id _ registry (some pool_key) _ _ hg
      · rename_i hn
        -- without a runner there is nothing to wait for, and nothing to take out
        simp only [Pool.retire, Registry.retire_missing hn] at h
        cases h
        exact .let_go id route_id _ registry (some pool_key) p.guards _ hg
  · rename_i pool_key _
    unfold Pool.retire at h
    dsimp only at h
    rcases p.registry.retire_cases pool_key with hs | ⟨handle, hu, hh, hr⟩
    · rw [hs] at h
      cases h
      exact .released id route_id _ _ _ _
    · rw [hr] at h
      dsimp only at h
      split at h
      · cases h
      · cases h
        exact .retired id route_id pool_key handle _ hu hh
  · cases h
    exact .released id route_id _ _ _ _
  · cases h
    exact .released id route_id _ _ _ p.guards
  · cases h
    exact .released id route_id _ _ _ p.guards
  · cases h

theorem step_of_advance {p p' : Pool} {t t' : Task} {answer : Except String Unit}
    (h : p.advance t answer = some (p', t')) : Step p t answer p' t' := by
  obtain ⟨call, stage⟩ := t
  unfold Pool.advance at h
  obtain ⟨⟨q, stage'⟩, hn, heq⟩ := Option.map_eq_some_iff.mp h
  cases heq
  cases call with
  | Register definition route_id => exact register_step hn
  | Unregister id route_id => exact unregister_step hn

/-! ## The invariant -/

/-- The maps of the pool agree, and its runners are live. -/
structure Sound (p : Pool) : Prop where
  counted : ∀ ref, (p.registry.ref_counts.lookup ref).isSome =
    (p.registry.function_to_key.lookup ref).isSome
  recorded : ∀ ref key, p.registry.function_to_key.lookup ref = some key →
    ∃ handle, p.registry.handles.lookup key = some handle
  alive : ∀ key handle, p.registry.handles.lookup key = some handle →
    handle ∉ p.ended ∧ handle.id < p.next_id
  own : ∀ key key' handle, p.registry.handles.lookup key = some handle →
    p.registry.handles.lookup key' = some handle → key = key'
  fresh : ∀ handle ∈ p.ended, handle.id < p.next_id

/-- What a call that stands at an await relies on. -/
structure Relies (p : Pool) (t : Task) : Prop where
  boots : ∀ handle, t.boots = some handle → handle ∉ p.ended ∧ handle.id < p.next_id ∧
    ∀ key, p.registry.handles.lookup key ≠ some handle
  awaits : ∀ key, t.awaits = some key → ∃ handle, p.registry.handles.lookup key = some handle

section

variable {p p' : Pool} {t t' u : Task} {answer : Except String Unit}

theorem relies_of_idle (hl : t.holds_lock = false) : Relies p t := by
  obtain ⟨call, stage⟩ := t
  cases call with
  | Unregister id route_id => exact ⟨nofun, nofun⟩
  | Register definition route_id =>
    cases stage with
    | Spawning | Booting | Registering => cases hl
    | Queued | Unregistering | ShuttingDown | Done => exact ⟨nofun, nofun⟩

theorem Relies.same (h : Relies p t) (hr : p'.registry = p.registry)
    (he : p'.ended = p.ended) (hn : p.next_id ≤ p'.next_id) : Relies p' t := by
  constructor
  · intro handle hb
    obtain ⟨hl, hi, hno⟩ := h.boots handle hb
    rw [he, hr]
    exact ⟨hl, by omega, hno⟩
  · rw [hr]
    exact h.awaits

theorem Sound.same (h : Sound p) (hr : p'.registry = p.registry)
    (he : p'.ended = p.ended) (hn : p.next_id ≤ p'.next_id) : Sound p' := by
  refine ⟨?_, ?_, ?_, ?_, ?_⟩
  · rw [hr]
    exact h.counted
  · rw [hr]
    exact h.recorded
  · intro key handle hh
    rw [hr] at hh
    obtain ⟨hl, hi⟩ := h.alive key handle hh
    rw [he]
    exact ⟨hl, by omega⟩
  · rw [hr]
    exact h.own
  · intro handle hh
    rw [he] at hh
    have hi := h.fresh handle hh
    omega

theorem adopt_sound (h : Sound p) {key : RunnerPoolKey} {spawned : RunnerHandle}
    (hs : spawned ∉ p.ended ∧ spawned.id < p.next_id ∧
      ∀ key, p.registry.handles.lookup key ≠ some spawned) :
    Sound { p with registry := (p.registry.adopt key spawned).1 } := by
  unfold Registry.adopt
  split
  · exact h
  · rename_i hn
    have hl : ∀ key' handle, (p.registry.handles.insert key spawned).lookup key' =
        some handle → key' = key ∧ handle = spawned ∨
          p.registry.handles.lookup key' = some handle := by
      intro key' handle hh
      by_cases hk : key' = key
      · rw [hk, Finmap.lookup_insert] at hh
        exact .inl ⟨hk, (Option.some.inj hh).symm⟩
      · rw [Finmap.lookup_insert_of_ne _ hk] at hh
        exact .inr hh
    refine ⟨h.counted, ?_, ?_, ?_, h.fresh⟩
    · intro ref key' hr
      obtain ⟨handle, hh⟩ := h.recorded ref key' hr
      have hk : key' ≠ key := by
        rintro rfl
        rw [hn] at hh
        cases hh
      refine ⟨handle, ?_⟩
      dsimp only
      rw [Finmap.lookup_insert_of_ne _ hk]
      exact hh
    · intro key' handle hh
      rcases hl key' handle hh with ⟨-, rfl⟩ | hold
      · exact ⟨hs.1, hs.2.1⟩
      · exact h.alive key' handle hold
    · intro key₁ key₂ handle h₁ h₂
      rcases hl key₁ handle h₁ with ⟨rfl, rfl⟩ | ho₁
      · rcases hl key₂ handle h₂ with ⟨rfl, -⟩ | ho₂
        · rfl
        · exact absurd ho₂ (hs.2.2 key₂)
      · rcases hl key₂ handle h₂ with ⟨rfl, rfl⟩ | ho₂
        · exact absurd ho₁ (hs.2.2 key₁)
        · exact h.own key₁ key₂ handle ho₁ ho₂

theorem record_sound (h : Sound p) {route_id : Option String}
    (hr : ∃ handle, p.registry.handles.lookup definition.key = some handle) (lock : Bool) :
    Sound { p with
      registry := p.registry.record definition route_id
      register_lock := lock } := by
  refine ⟨?_, ?_, h.alive, h.own, h.fresh⟩
  · intro ref
    dsimp only [Registry.record]
    by_cases hre : ref = (definition.id, route_id)
    · rw [hre, Finmap.lookup_insert, Finmap.lookup_insert]
      rfl
    · rw [Finmap.lookup_insert_of_ne _ hre, Finmap.lookup_insert_of_ne _ hre]
      exact h.counted ref
  · intro ref key hk
    dsimp only [Registry.record] at hk ⊢
    by_cases hre : ref = (definition.id, route_id)
    · rw [hre, Finmap.lookup_insert] at hk
      cases hk
      exact hr
    · rw [Finmap.lookup_insert_of_ne _ hre] at hk
      exact h.recorded ref key hk

theorem let_go_sound (h : Sound p) {id : FunctionId} {route_id : Option String}
    {registry : Registry} {left : Option RunnerPoolKey} (guards : List RunnerPoolKey)
    (hg : p.registry.let_go id route_id = (registry, left)) :
    Sound { p with registry, guards } := by
  obtain ⟨hh, hca⟩ := Registry.let_go_cases hg
  have hr : (∀ ref, (registry.ref_counts.lookup ref).isSome =
      (registry.function_to_key.lookup ref).isSome) ∧
      ∀ ref key, registry.function_to_key.lookup ref = some key →
        p.registry.function_to_key.lookup ref = some key := by
    rcases hca with ⟨rfl, -⟩ | ⟨c, hc, rfl⟩ | ⟨-, hco, hk⟩
    · exact ⟨h.counted, fun _ _ hke => hke⟩
    · refine ⟨?_, fun _ _ hke => hke⟩
      intro ref
      dsimp only
      by_cases hre : ref = (id, route_id)
      · rw [← h.counted ref, hre, Finmap.lookup_insert, hc]
        rfl
      · rw [Finmap.lookup_insert_of_ne _ hre]
        exact h.counted ref
    · rw [hco, hk]
      constructor
      · intro ref
        by_cases hre : ref = (id, route_id)
        · rw [hre, Finmap.lookup_erase, Finmap.lookup_erase]
          rfl
        · rw [Finmap.lookup_erase_ne hre, Finmap.lookup_erase_ne hre]
          exact h.counted ref
      · intro ref key hke
        by_cases hre : ref = (id, route_id)
        · rw [hre, Finmap.lookup_erase] at hke
          cases hke
        · rw [Finmap.lookup_erase_ne hre] at hke
          exact hke
  refine ⟨hr.1, ?_, ?_, ?_, h.fresh⟩
  · intro ref key hke
    dsimp only at hke ⊢
    rw [hh]
    exact h.recorded ref key (hr.2 ref key hke)
  · intro key handle hha
    dsimp only at hha
    rw [hh] at hha
    exact h.alive key handle hha
  · intro key key' handle hha hha'
    dsimp only at hha hha'
    rw [hh] at hha hha'
    exact h.own key key' handle hha hha'

theorem lookup_of_erase {pool_key key : RunnerPoolKey} {handle : RunnerHandle}
    (h : (p.registry.handles.erase pool_key).lookup key = some handle) :
    key ≠ pool_key ∧ p.registry.handles.lookup key = some handle := by
  by_cases hk : key = pool_key
  · rw [hk, Finmap.lookup_erase] at h
    cases h
  · rw [Finmap.lookup_erase_ne hk] at h
    exact ⟨hk, h⟩

theorem retire_sound (h : Sound p) {pool_key : RunnerPoolKey} {handle : RunnerHandle}
    (guards : List RunnerPoolKey) (hu : p.registry.still_used pool_key = false)
    (hh : p.registry.handles.lookup pool_key = some handle) :
    Sound { p with
      registry := { p.registry with handles := p.registry.handles.erase pool_key }
      guards := guards
      ended := handle :: p.ended } := by
  refine ⟨h.counted, ?_, ?_, ?_, ?_⟩
  · intro ref key (hr : p.registry.function_to_key.lookup ref = some key)
    have hk : key ≠ pool_key := by
      rintro rfl
      rw [Registry.still_used_iff.mpr ⟨ref, hr⟩] at hu
      cases hu
    dsimp only
    rw [Finmap.lookup_erase_ne hk]
    exact h.recorded ref key hr
  · intro key other ho
    obtain ⟨hk, hold⟩ := lookup_of_erase ho
    obtain ⟨hl, hi⟩ := h.alive key other hold
    refine ⟨?_, hi⟩
    rw [mem_cons, not_or]
    refine ⟨?_, hl⟩
    rintro rfl
    exact hk (h.own key pool_key other hold hh)
  · intro key key' other ho ho'
    exact h.own key key' other (lookup_of_erase ho).2 (lookup_of_erase ho').2
  · intro other hm
    rcases mem_cons.mp hm with rfl | hm
    · exact (h.alive pool_key other hh).2
    · exact h.fresh other hm

variable (hstep : Step p t answer p' t')

include hstep

theorem step_sound (h : Sound p) (ht : Relies p t) : Sound p' := by
  cases hstep with
  | found | missing | failed | released => exact h.same rfl rfl (Nat.le_refl _)
  | spawned => exact h.same rfl rfl (Nat.le_succ _)
  | adopted definition route_id handle => exact adopt_sound h (ht.boots handle rfl)
  | recorded definition route_id handle => exact record_sound h (ht.awaits _ rfl) false
  | let_go id route_id answer registry left guards stage hg => exact let_go_sound h guards hg
  | retired id route_id pool_key handle guards hu hh =>
    exact retire_sound h guards hu hh

theorem step_relies (h : Sound p) : Relies p' t' := by
  cases hstep with
  | found definition route_id handle answer hl hh =>
    refine ⟨nofun, ?_⟩
    intro key hk
    cases hk
    exact ⟨handle, hh⟩
  | missing | let_go | released | retired => exact ⟨nofun, nofun⟩
  | recorded => exact relies_of_idle rfl
  | failed t e err hl =>
    obtain ⟨call, stage⟩ := t
    cases call <;> exact ⟨nofun, nofun⟩
  | spawned definition route_id =>
    refine ⟨?_, nofun⟩
    intro handle hb
    cases hb
    refine ⟨?_, Nat.lt_succ_self _, ?_⟩
    · intro he
      exact absurd (h.fresh _ he) (Nat.lt_irrefl _)
    · intro key hk
      exact absurd (h.alive key _ hk).2 (Nat.lt_irrefl _)
  | adopted definition route_id handle =>
    refine ⟨nofun, ?_⟩
    intro key hk
    cases hk
    dsimp only
    unfold Registry.adopt
    split
    · rename_i other ho
      exact ⟨other, ho⟩
    · exact ⟨handle, Finmap.lookup_insert _⟩

/-- And it leaves another call with what that one relies on, unless it takes its runner. -/
theorem step_relies_other (hu : Relies p u) (ha : t.holds_lock = true → u.holds_lock = false)
    (ht : ∀ key, takes p t answer = some key → u.awaits ≠ some key) : Relies p' u := by
  cases hstep with
  | found | missing | released => exact hu.same rfl rfl (Nat.le_refl _)
  | spawned | adopted | recorded => exact relies_of_idle (ha rfl)
  | failed t e err hl => exact relies_of_idle (ha hl)
  | let_go id route_id answer registry left guards stage hg =>
    obtain ⟨hh, -⟩ := Registry.let_go_cases hg
    constructor
    · intro handle hb
      dsimp only
      rw [hh]
      exact hu.boots handle hb
    · intro key hk
      dsimp only
      rw [hh]
      exact hu.awaits key hk
  | retired id route_id pool_key handle guards hun hha =>
    constructor
    · intro other hb
      obtain ⟨hli, hi, hn⟩ := hu.boots other hb
      refine ⟨?_, hi, ?_⟩
      · rw [mem_cons, not_or]
        refine ⟨?_, hli⟩
        rintro rfl
        exact hn pool_key hha
      · intro key hk
        exact hn key (lookup_of_erase hk).2
    · intro key hk
      have ho : key ≠ pool_key := by
        rintro rfl
        refine ht key ?_ hk
        simp [takes, hun]
      dsimp only
      rw [Finmap.lookup_erase_ne ho]
      exact hu.awaits key hk

/-- A call gets inside the lock only while it is free, and only it gives the lock back. -/
theorem step_lock (hl : t.holds_lock = true → p.register_lock = true) :
    t'.holds_lock = true ∧ p'.register_lock = true ∧
        (t.holds_lock = true ∨ p.register_lock = false) ∨
      t'.holds_lock = false ∧ (t.holds_lock = true ∨ p'.register_lock = p.register_lock) := by
  cases hstep with
  | found definition route_id handle answer hlo
  | missing definition route_id answer hlo => exact .inl ⟨rfl, rfl, .inr hlo⟩
  | spawned | adopted => exact .inl ⟨rfl, hl rfl, .inl rfl⟩
  | recorded => exact .inr ⟨rfl, .inl rfl⟩
  | failed t e err hlo =>
    obtain ⟨call, stage⟩ := t
    refine .inr ⟨?_, .inl hlo⟩
    cases call <;> rfl
  | let_go | released | retired => exact .inr ⟨rfl, .inr rfl⟩

end

/-! ## Runs -/

/-- The pool with the calls that are under way. -/
structure Kept (s : State Pool Task) : Prop where
  sound : Sound s.shared
  relies : ∀ t ∈ s.tasks, Relies s.shared t
  locked : ∀ t ∈ s.tasks, t.holds_lock = true → s.shared.register_lock = true
  alone : s.tasks.OneClaim fun t (_ : Unit) => t.holds_lock = true

/-- No runner is taken out of the pool that a registration has found and waits with. -/
def undisturbed (s : State Pool Task) : Event Call (Except String Unit) → Bool
  | .spawn _ => true
  | .step i answer =>
    match s.tasks[i]? with
    | none => true
    | some t =>
      match takes s.shared t answer with
      | none => true
      | some key => s.tasks.all fun u => u.awaits ≠ some key

theorem holds_lock_start (call : Call) : (calls.start call).holds_lock = false := by
  cases call <;> rfl

variable {s : State Pool Task}

theorem kept_spawn (h : Kept s) (call : Call) :
    Kept { s with tasks := s.tasks ++ [calls.start call] } := by
  have hi := holds_lock_start call
  refine ⟨h.sound, ?_, ?_, ?_⟩
  · exact List.forall_mem_concat h.relies (relies_of_idle hi)
  · apply List.forall_mem_concat h.locked
    intro hl
    rw [hi] at hl
    cases hl
  · apply h.alone.append
    intro _ hl
    rw [hi] at hl
    cases hl

theorem kept_step {i : Nat} {t t' : Task} {answer : Except String Unit} {p' : Pool} (h : Kept s)
    (hok : undisturbed s (.step i answer) = true) (ht : s.tasks[i]? = some t)
    (ha : calls.advance s.shared t answer = some (p', t')) : Kept ⟨p', s.tasks.set i t'⟩ := by
  have hstep : Step s.shared t answer p' t' := step_of_advance ha
  have htm : t ∈ s.tasks := mem_of_getElem? ht
  have hm := step_lock hstep (h.locked t htm)
  have hta : ∀ u ∈ s.tasks, ∀ key, takes s.shared t answer = some key → u.awaits ≠ some key := by
    intro u hu key hk
    simp only [undisturbed, ht, hk, List.all_eq_true] at hok
    exact of_decide_eq_true (hok u hu)
  refine ⟨step_sound hstep h.sound (h.relies t htm), ?_, ?_, ?_⟩
  · intro u hu
    rcases List.mem_set_cases ht hu with rfl | ⟨j, hn, hj⟩
    · exact step_relies hstep h.sound
    · have hum : u ∈ s.tasks := mem_of_getElem? hj
      refine step_relies_other hstep (h.relies u hum) ?_ (hta u hum)
      -- two calls are never inside the lock
      intro hlo
      by_contra ho
      exact hn (h.alone i j t u () ht hj hlo (by simpa using ho)).symm
  · intro u hu hlo
    rcases List.mem_set_cases ht hu with rfl | ⟨j, hn, hj⟩
    · rcases hm with ⟨-, hl, -⟩ | ⟨hou, -⟩
      · exact hl
      · rw [hlo] at hou
        cases hou
    · have hum : u ∈ s.tasks := mem_of_getElem? hj
      rcases hm with ⟨-, hl, -⟩ | ⟨-, how | hs⟩
      · exact hl
      · exact absurd (h.alone i j t u () ht hj how hlo).symm hn
      · rw [hs]
        exact h.locked u hum hlo
  · apply h.alone.set ht
    intro _ hlo
    rcases hm with ⟨-, -, how | hf⟩ | ⟨hou, -⟩
    · exact .inl how
    · right
      intro u hu ho
      rw [h.locked u hu ho] at hf
      cases hf
    · rw [hlo] at hou
      cases hou

theorem sound_empty : Sound Pool.empty := by
  refine ⟨?_, ?_, ?_, ?_, nofun⟩
  · intro ref
    rfl
  · intro ref key hr
    rw [show Pool.empty.registry.function_to_key = ∅ from rfl, Finmap.lookup_empty] at hr
    cases hr
  · intro key handle hh
    rw [show Pool.empty.registry.handles = ∅ from rfl, Finmap.lookup_empty] at hh
    cases hh
  · intro key key' handle hh
    rw [show Pool.empty.registry.handles = ∅ from rfl, Finmap.lookup_empty] at hh
    cases hh

theorem kept_of_reach (hr : calls.Reach (fun s e => undisturbed s e = true) ⟨.empty, []⟩ s) :
    Kept s := by
  apply hr.invariant
  · refine ⟨sound_empty, ?_, ?_, ?_⟩
    · intro t ht
      cases ht
    · intro t ht
      cases ht
    · intro i j t u _ ht
      cases ht
  · intro s call h _
    exact kept_spawn h call
  · intro s i t answer p' t' h ho ht ha
    exact kept_step h ho ht ha

def Task.returned (t : Task) : Bool :=
  match t.stage with
  | .Done _ => true
  | _ => false

def quiescent (s : State Pool Task) : Prop := ∀ t ∈ s.tasks, t.returned = true

/-- Each recorded function has a runner that was not ended, and is counted. -/
def runners_live (p : Pool) : Prop :=
  (∀ ref key, p.registry.function_to_key.lookup ref = some key →
    ∃ handle, p.registry.handles.lookup key = some handle ∧ handle ∉ p.ended) ∧
  ∀ ref, (p.registry.ref_counts.lookup ref).isSome = (p.registry.function_to_key.lookup ref).isSome

/-- In every run in which no call takes a runner from under a registration, each recorded function
has a live runner, and the counts cover the recorded functions. -/
theorem undisturbed_runners_live (s : State Pool Task)
    (hreach : calls.Reach (fun s e => undisturbed s e = true) ⟨.empty, []⟩ s) :
    runners_live s.shared := by
  have hk := kept_of_reach hreach
  refine ⟨?_, hk.sound.counted⟩
  intro ref key hr
  obtain ⟨handle, hh⟩ := hk.sound.recorded ref key hr
  exact ⟨handle, hh, (hk.sound.alive key handle hh).1⟩

def greet : FunctionDefinition := ⟨"greet", "deno", "return 'hello'", 5000⟩

def tally : FunctionDefinition := ⟨"tally", "deno", "return 1", 5000⟩

/-- `greet` is registered first: its runner is spawned. -/
def greet_registered : List (Event Call (Except String Unit)) :=
  [.spawn (.Register greet none), .step 0 (.ok ()), .step 0 (.ok ()), .step 0 (.ok ()),
    .step 0 (.ok ())]

/-- Then `tally` comes onto the same runner, and `greet` goes. -/
def one_by_one : List (Event Call (Except String Unit)) :=
  greet_registered ++
    [.spawn (.Register tally none), .step 1 (.ok ()), .step 1 (.ok ()),
      .spawn (.Unregister "greet" none), .step 2 (.ok ()), .step 2 (.ok ())]

theorem second_function_keeps_runner : ∃ s, calls.run undisturbed ⟨.empty, []⟩ one_by_one = some s ∧
    s.shared.registry.function_to_key.lookup ("tally", none) = some ⟨"deno"⟩ ∧
    runners_live s.shared := by
  have hr : (calls.run undisturbed ⟨.empty, []⟩ one_by_one).map
      (fun s => s.shared.registry.function_to_key.lookup ("tally", none)) =
        some (some ⟨"deno"⟩) := by
    decide +kernel
  obtain ⟨s, hs, hk⟩ := Option.map_eq_some_iff.mp hr
  exact ⟨s, hs, hk, undisturbed_runners_live s (reach_of_run hs)⟩

/-- While `tally` waits for the provider, the unregistration of `greet` runs through. -/
def overlapping : List (Event Call (Except String Unit)) :=
  greet_registered ++
    [.spawn (.Register tally none), .step 1 (.ok ()),
      .spawn (.Unregister "greet" none), .step 2 (.ok ()), .step 2 (.ok ()), .step 2 (.ok ()),
      .step 1 (.ok ())]

theorem found_runner_is_shut_down : ¬∀ s : State Pool Task,
    calls.Reach Free ⟨.empty, []⟩ s → quiescent s → runners_live s.shared := by
  intro ha
  have hru : (calls.run (fun _ _ => true) ⟨.empty, []⟩ overlapping).map (fun s =>
      (s.tasks.all Task.returned, s.shared.registry.function_to_key.lookup ("tally", none),
        s.shared.registry.handles.lookup ⟨"deno"⟩)) = some (true, some ⟨"deno"⟩, none) := by
    decide +kernel
  obtain ⟨s, hs, he⟩ := Option.map_eq_some_iff.mp hru
  simp only [Prod.mk.injEq, List.all_eq_true] at he
  obtain ⟨hd, hk, hn⟩ := he
  have hr : calls.Reach Free ⟨.empty, []⟩ s := (reach_of_run hs).mono fun _ _ _ => trivial
  obtain ⟨handle, hh, -⟩ := (ha s hr hd).1 _ _ hk
  rw [hn] at hh
  cases hh

end camel_function
