-- The law of the optimistic lock. A handler checks its transition on the
-- aggregate that it loaded, and other handlers run before it stores. A version
-- protects an upsert within one registration of a route. Nothing protects a
-- removal, a registration, or a version that was loaded before the route was
-- registered anew.
import RustCamel.Lifecycle.Protocol
import RustCamel.Lifecycle.StoreLaws

namespace camel_core.lifecycle

open camel_api Prog RouteRuntimeAggregate

/-! ## Concurrent handlers -/

/-- What a task of the control plane runs. -/
inductive RouteTask where
  | command (cmd : RuntimeCommand)
  | register_internal (definition : RouteDefinition)

def RouteTask.handler (deps : CommandDeps) : RouteTask → Handler RuntimeCommandResult
  | .command cmd => execute_command deps cmd
  | .register_internal definition => handle_register_internal deps definition

theorem RouteTask.follows {deps : CommandDeps} (hu : deps.uow = true) (task : RouteTask)
    (g : Belief) : wp (rule ⟨fun _ => True, false⟩) (task.handler deps).run Reports g := by
  cases task with
  | command cmd => exact execute_command_follows hu cmd fun _ _ _ _ => trivial
  | register_internal definition => exact handle_register_internal_follows hu definition

variable {id : String} {store : InMemoryRuntimeStore} {a' : RouteRuntimeAggregate}
  {current : RouteRuntimeAggregate} {n : Nat}

section

variable {ι ρ : Type}

abbrev TaskStep (ι ρ : Type) := CallEvent ι PortCall Answer (World ρ)

def refreshes : TaskStep ι ρ → Bool
  | ⟨_, .load _, _, _, _⟩ => true
  | ⟨_, .persist_upsert _ _ _ _, .ok _, _, _⟩ => true
  | _ => false

def storesRegistration (id : String) : TaskStep ι ρ → Prop
  | ⟨_, .persist_upsert a none _ _, .ok _, _, _⟩ => a.route_id = id
  | _ => False

/-- The route was registered anew since the task last saw what is stored. -/
def superseded (i : ι) (id : String) : List (TaskStep ι ρ) → Prop
  | [] => False
  | e :: h => ¬ (e.task = i ∧ refreshes e = true) ∧ (storesRegistration id e ∨ superseded i id h)

variable {h : List (TaskStep ι ρ)} {i : ι}

theorem not_superseded_tail {e : TaskStep ι ρ} (hs : ¬ superseded i id (e :: h))
    (hr : ¬ (e.task = i ∧ refreshes e = true)) : ¬ storesRegistration id e ∧ ¬ superseded i id h :=
  ⟨fun h1 => hs ⟨hr, .inl h1⟩, fun h1 => hs ⟨hr, .inr h1⟩⟩

variable [DecidableEq ι]

def beliefOf (h : List (TaskStep ι ρ)) (i : ι) : Belief :=
  Interleaves.ghost learn (fun _ => .unknown) h i

/-! ## Legal changes, and steps that the lock covers -/

/-- A legal change of what is stored for a route, by a task that knows `g`: a
registration, the adoption of a recovered route, an edge of the aggregate, or a
removal from a state that allows it. -/
inductive Legal (g : Belief) :
    Option RouteRuntimeAggregate → Option RouteRuntimeAggregate → Prop
  | register (id : String) : Legal g none (some (new id))
  | adopt (id : String) (a : RouteRuntimeAggregate) :
      g = .adopted id a → Legal g (some a) (some (new id))
  | edge {a a' : RouteRuntimeAggregate} {events : List RuntimeEvent} :
      Edge a events a' → Legal g (some a) (some a')
  | remove {a : RouteRuntimeAggregate} : Removable a → Legal g (some a) none

variable (e : TaskStep ι ρ)

/-- The step leaves each route as it is, or changes it legally. -/
def LegalStep (h : List (TaskStep ι ρ)) : Prop :=
  ∀ id, e.after.store.load id = e.before.store.load id ∨
    Legal (beliefOf h e.task) (e.before.store.load id) (e.after.store.load id)

/-- What the code does not check. A registration stores over nothing, or over
the very aggregate that it adopted. An upsert does not meet its version in a
later registration of the route. A removal finds the version that it loaded,
and the route was not registered anew. -/
def Covered (h : List (TaskStep ι ρ)) : Prop :=
  match e.call with
  | .persist_upsert a none _ _ =>
    e.before.store.load a.route_id = none ∨
      ∃ b, beliefOf h e.task = .adopted a.route_id b ∧ e.before.store.load a.route_id = some b
  | .persist_upsert a (some version) _ _ =>
    superseded e.task a.route_id h →
      ∀ current, e.before.store.load a.route_id = some current → current.version ≠ version
  | .persist_delete id _ =>
    ∀ current, e.before.store.load id = some current → ¬ superseded e.task id h ∧
      ∃ b, beliefOf h e.task = .loaded id b ∧ current.version = b.version
  | _ => True

/-! ## The invariant -/

/-- What may be stored when a handler loaded `a` earlier: a later version, the
same aggregate, or the same start with its second phase done. -/
def Since (a current : RouteRuntimeAggregate) : Prop :=
  a.version < current.version ∨ current = a ∨
    (a.state = .Starting ∧ current = { a with state := .Started })

/-- What may be stored when a handler stored `a` earlier. -/
def SinceOwn (a current : RouteRuntimeAggregate) : Prop := a.version < current.version ∨ current = a

/-- The store files each aggregate under its own id. -/
def Keyed (store : InMemoryRuntimeStore) : Prop := ∀ id a, store.load id = some a → a.route_id = id

/-- The lock, between what the tasks know and the store. -/
structure Locked (h : List (TaskStep ι ρ)) (store : InMemoryRuntimeStore) : Prop where
  keyed : Keyed store
  loaded_id : ∀ i id a, beliefOf h i = .loaded id a → a.route_id = id
  loaded : ∀ i id a, ¬ superseded i id h → beliefOf h i = .loaded id a →
    ∀ current, store.load id = some current → Since a current
  wrote : ∀ i a, ¬ superseded i a.route_id h → beliefOf h i = .wrote a →
    ∀ current, store.load a.route_id = some current → SinceOwn a current
  unique : ∀ i j a b, i ≠ j → a.route_id = b.route_id → ¬ superseded i a.route_id h →
    ¬ superseded j b.route_id h → beliefOf h i = .wrote a → beliefOf h j = .wrote b →
    a.version ≠ b.version

/-! ## Steps that leave the routes as they are -/

theorem beliefOf_same (h : List (TaskStep ι ρ)) :
    beliefOf (e :: h) e.task = learn (beliefOf h e.task) e.call e.answer :=
  Interleaves.ghost_same _ _ _ _ _ _ _ _

theorem beliefOf_other {e : TaskStep ι ρ} (h : List (TaskStep ι ρ)) (hi : e.task ≠ i) :
    beliefOf (e :: h) i = beliefOf h i :=
  Interleaves.ghost_other _ _ _ _ _ _ _ hi

/-- A step that leaves the routes, and after which its task knows what it knew,
or what is stored now, or nothing that a store depends on. -/
theorem locked_quiet {e : TaskStep ι ρ} {store' : InMemoryRuntimeStore} (hl : Locked h store)
    (hsa : ∀ id, store'.load id = store.load id)
    (hbe : (refreshes e = false ∧ beliefOf (e :: h) e.task = beliefOf h e.task) ∨
      (∃ id a, beliefOf (e :: h) e.task = .loaded id a ∧ store.load id = some a) ∨
      (∀ id a, beliefOf (e :: h) e.task ≠ .loaded id a ∧ beliefOf (e :: h) e.task ≠ .wrote a)) :
    Locked (e :: h) store' := by
  -- A task whose belief counts either has just loaded, or has its belief from before.
  have hold : ∀ i, (∀ id, ¬ superseded i id (e :: h) → ¬ superseded i id h) ∧
      beliefOf (e :: h) i = beliefOf h i ∨
      (∃ id a, beliefOf (e :: h) i = .loaded id a ∧ store.load id = some a) ∨
      (∀ id a, beliefOf (e :: h) i ≠ .loaded id a ∧ beliefOf (e :: h) i ≠ .wrote a) := by
    intro i
    by_cases hi : e.task = i
    · subst hi
      rcases hbe with ⟨hr, hb⟩ | hb | hb
      · refine .inl ⟨?_, hb⟩
        intro id hs
        exact (not_superseded_tail hs (by simp [hr])).2
      · exact .inr (.inl hb)
      · exact .inr (.inr hb)
    · refine .inl ⟨?_, beliefOf_other h hi⟩
      intro id hs
      exact (not_superseded_tail hs fun ht => hi ht.1).2
  refine ⟨?_, ?_, ?_, ?_, ?_⟩
  · intro id a ha
    exact hl.keyed id a (hsa id ▸ ha)
  · intro i id a ha
    rcases hold i with ⟨_, hb⟩ | ⟨id', a', hb, hlo⟩ | hb
    · exact hl.loaded_id i id a (hb ▸ ha)
    · rw [hb] at ha
      cases ha
      exact hl.keyed _ _ hlo
    · exact absurd ha (hb id a).1
  · intro i id a hs ha current hc
    rw [hsa] at hc
    rcases hold i with ⟨hta, hb⟩ | ⟨id', a', hb, hlo⟩ | hb
    · exact hl.loaded i id a (hta id hs) (hb ▸ ha) current hc
    · rw [hb] at ha
      cases ha
      rw [hlo] at hc
      cases hc
      exact .inr (.inl rfl)
    · exact absurd ha (hb id a).1
  · intro i a hs ha current hc
    rw [hsa] at hc
    rcases hold i with ⟨hta, hb⟩ | ⟨id', a', hb, hlo⟩ | hb
    · exact hl.wrote i a (hta _ hs) (hb ▸ ha) current hc
    · rw [hb] at ha
      cases ha
    · exact absurd ha (hb "" a).2
  · intro i j a b hij hid hsi hsj hai haj
    rcases hold i with ⟨hta, hb⟩ | ⟨id', a', hb, _⟩ | hb
    · rcases hold j with ⟨hta', hb'⟩ | ⟨id', a', hb', _⟩ | hb'
      · exact hl.unique i j a b hij hid (hta _ hsi) (hta' _ hsj) (hb ▸ hai) (hb' ▸ haj)
      · rw [hb'] at haj
        cases haj
      · exact absurd haj ( hb' "" b).2
    · rw [hb] at hai
      cases hai
    · exact absurd hai (hb "" a).2

/-! ## Steps that store -/

abbrev upsertStep (i : ι) (a : RouteRuntimeAggregate) (version : Option Nat)
    (events : List RuntimeEvent) (w w' : World ρ) : TaskStep ι ρ :=
  ⟨i, .persist_upsert a version (project_from_aggregate a) events, .ok (), w, w'⟩

/-- The aggregate that an upsert with a version replaces: the new one follows
from it by an edge, and the second phase of a start follows what the same task
stored. -/
theorem upsert_source {events : List RuntimeEvent} (hl : Locked h store)
    (hu : Upsert ⟨fun _ => True, false⟩ (beliefOf h i) a' (some n) events)
    (hs : ¬ superseded i a'.route_id h) (hc : store.load a'.route_id = some current)
    (hve : current.version = n) :
    Edge current events a' ∧ (a'.version = current.version + 1 ∨
      (current.state = .Starting ∧ a' = { current with state := .Started } ∧
        beliefOf h i = .wrote current)) := by
  generalize hg : beliefOf h i = g at hu
  generalize hv : some n = v at hu
  cases hu with
  | register_absent | register_adopted => cases hv
  | reconcile id _ hb => cases hb
  | @change id a _ _ he hbu =>
    cases hv
    have hi : a'.route_id = id := he.version_cases.1.trans (hl.loaded_id i id a hg)
    rw [hi] at hs hc
    rcases hl.loaded i id a hs hg current hc with hlt | rfl | ⟨hst, rfl⟩
    · omega
    · exact ⟨he, .inl hbu⟩
    · exact ⟨he.of_confirmed hst hbu, .inl hbu⟩
  | @follow_up a _ _ he =>
    cases hv
    have hi : a'.route_id = a.route_id := he.version_cases.1
    rw [hi] at hs hc
    rcases hl.wrote i a hs hg current hc with hlt | rfl
    · omega
    · refine ⟨he, ?_⟩
      obtain ⟨_, hbu | ⟨h1, h2, h3⟩⟩ := he.version_cases
      · exact .inl hbu
      · refine .inr ⟨h1, ?_, rfl⟩
        obtain ⟨id', state', version'⟩ := a'
        simp only at hi h2 h3
        rw [hi, h2, h3]

theorem locked_change {events : List RuntimeEvent} {w w' : World ρ} (hl : Locked h w.store)
    (hlo : ∀ id, w'.store.load id = if a'.route_id = id then some a' else w.store.load id)
    (hc : w.store.load a'.route_id = some current) (hs : ¬ superseded i a'.route_id h)
    (hn : a'.version = current.version + 1 ∨
      (current.state = .Starting ∧ a' = { current with state := .Started } ∧
        beliefOf h i = .wrote current)) :
    Locked (upsertStep i a' (some n) events w w' :: h) w'.store := by
  set e := upsertStep i a' (some n) events w w' with he
  have hi : beliefOf (e :: h) i = .wrote a' := beliefOf_same e h
  have ho : ∀ j, j ≠ i → beliefOf (e :: h) j = beliefOf h j ∧
      ∀ id, ¬ superseded j id (e :: h) → ¬ superseded j id h := by
    intro j hj
    refine ⟨beliefOf_other h (Ne.symm hj), ?_⟩
    intro id hns
    exact (not_superseded_tail hns fun ht => hj ht.1.symm).2
  refine ⟨?_, ?_, ?_, ?_, ?_⟩
  · intro id a ha
    rw [hlo] at ha
    split at ha
    · cases ha
      assumption
    · exact hl.keyed id a ha
  · intro j id a ha
    by_cases hj : j = i
    · rw [hj, hi] at ha
      cases ha
    · exact hl.loaded_id j id a ((ho j hj).1 ▸ ha)
  · intro j id a hns ha cur hcu
    by_cases hj : j = i
    · rw [hj, hi] at ha
      cases ha
    · obtain ⟨hb, hta⟩ := ho j hj
      have hold := hl.loaded j id a (hta id hns) (hb ▸ ha)
      rw [hlo] at hcu
      split at hcu
      · rename_i hid
        cases hcu
        rw [hid] at hc
        rcases hold current hc with hlt | rfl | ⟨hst, rfl⟩
        · rcases hn with hbu | ⟨_, rfl, _⟩
          · exact .inl (by omega)
          · exact .inl hlt
        · rcases hn with hbu | ⟨hst, rfl, _⟩
          · exact .inl (by omega)
          · exact .inr (.inr ⟨hst, rfl⟩)
        · rcases hn with hbu | ⟨hsta, _⟩
          · exact .inl (by simp only at hbu; omega)
          · cases hsta
      · exact hold cur hcu
  · intro j a hns ha cur hcu
    by_cases hj : j = i
    · rw [hj, hi] at ha
      cases ha
      rw [hlo, if_pos rfl] at hcu
      cases hcu
      exact .inr rfl
    · obtain ⟨hb, hta⟩ := ho j hj
      have hold := hl.wrote j a (hta _ hns) (hb ▸ ha)
      rw [hlo] at hcu
      split at hcu
      · rename_i hid
        cases hcu
        rw [hid] at hc
        rcases hold current hc with hlt | rfl
        · rcases hn with hbu | ⟨_, rfl, _⟩
          · exact .inl (by omega)
          · exact .inl hlt
        · rcases hn with hbu | ⟨_, _, how⟩
          · exact .inl (by omega)
          · -- Two tasks would have stored the same version.
            rw [hid] at hs
            exact absurd rfl
              (hl.unique j i _ _ hj rfl (hta _ hns) hs (hb ▸ ha) how)
      · exact hold cur hcu
  · -- A version that was just stored is above those that other tasks stored.
    have hf : ∀ j b, j ≠ i → a'.route_id = b.route_id → ¬ superseded j b.route_id (e :: h) →
        beliefOf (e :: h) j = .wrote b → a'.version ≠ b.version := by
      intro j b hj hid hns hb
      obtain ⟨hbj, hta⟩ := ho j hj
      rw [hbj] at hb
      rw [hid] at hc hs
      rcases hn with hbu | ⟨_, rfl, how⟩
      · rcases hl.wrote j b (hta _ hns) hb current hc with hlt | rfl
        · omega
        · omega
      · have hidc : current.route_id = b.route_id := hid
        exact hl.unique i j current b (Ne.symm hj) hidc (hidc ▸ hs) (hta _ hns) how hb
    intro j k a b hjk hid hnj hnk ha hb
    by_cases hj : j = i
    · rw [hj, hi] at ha
      cases ha
      exact hf k b (fun hk => hjk (hj.trans hk.symm)) hid hnk hb
    · by_cases hk : k = i
      · rw [hk, hi] at hb
        cases hb
        exact (hf j a hj hid.symm hnj ha).symm
      · obtain ⟨hbj, htj⟩ := ho j hj
        obtain ⟨hbk, htk⟩ := ho k hk
        exact hl.unique j k a b hjk hid (htj _ hnj) (htk _ hnk) (hbj ▸ ha) (hbk ▸ hb)

/-- A registration starts the versions anew. Every other task that knows the
route is superseded, until it looks again. -/
theorem locked_register {events : List RuntimeEvent} {w w' : World ρ} (hl : Locked h w.store)
    (hlo : ∀ id, w'.store.load id = if a'.route_id = id then some a' else w.store.load id) :
    Locked (upsertStep i a' none events w w' :: h) w'.store := by
  set e := upsertStep i a' none events w w' with he
  have hi : beliefOf (e :: h) i = .wrote a' := beliefOf_same e h
  have ho : ∀ j id, j ≠ i → ¬ superseded j id (e :: h) →
      a'.route_id ≠ id ∧ ¬ superseded j id h := by
    intro j id hj hn
    exact not_superseded_tail hn fun ht => hj ht.1.symm
  have hs : ∀ j, j ≠ i → beliefOf (e :: h) j = beliefOf h j :=
    fun j hj => beliefOf_other h (Ne.symm hj)
  refine ⟨?_, ?_, ?_, ?_, ?_⟩
  · intro id a ha
    rw [hlo] at ha
    split at ha
    · cases ha
      assumption
    · exact hl.keyed id a ha
  · intro j id a ha
    by_cases hj : j = i
    · rw [hj, hi] at ha
      cases ha
    · exact hl.loaded_id j id a (hs j hj ▸ ha)
  · intro j id a hn ha cur hc
    by_cases hj : j = i
    · rw [hj, hi] at ha
      cases ha
    · obtain ⟨hne, hta⟩ := ho j id hj hn
      rw [hlo, if_neg hne] at hc
      exact hl.loaded j id a hta (hs j hj ▸ ha) cur hc
  · intro j a hn ha cur hc
    by_cases hj : j = i
    · rw [hj, hi] at ha
      cases ha
      rw [hlo, if_pos rfl] at hc
      cases hc
      exact .inr rfl
    · obtain ⟨hne, hta⟩ := ho j _ hj hn
      rw [hlo, if_neg hne] at hc
      exact hl.wrote j a hta (hs j hj ▸ ha) cur hc
  · intro j k a b hjk hid hnj hnk ha hb
    by_cases hj : j = i
    · rw [hj, hi] at ha
      cases ha
      exact absurd hid (ho k _ (fun hk => hjk (hj.trans hk.symm)) hnk).1
    · by_cases hk : k = i
      · rw [hk, hi] at hb
        cases hb
        exact absurd hid.symm (ho j _ hj hnj).1
      · exact hl.unique j k a b hjk hid (ho j _ hj hnj).2 (ho k _ hk hnk).2
          (hs j hj ▸ ha) (hs k hk ▸ hb)

/-- A deletion leaves nothing that a version could be compared with. -/
theorem locked_delete {events : List RuntimeEvent} {w w' : World ρ} (hl : Locked h w.store)
    (hlo : ∀ id', w'.store.load id' = if id = id' then none else w.store.load id') :
    Locked (⟨i, .persist_delete id events, .ok (), w, w'⟩ :: h) w'.store := by
  set e : TaskStep ι ρ := ⟨i, .persist_delete id events, .ok (), w, w'⟩ with he
  have hi : beliefOf (e :: h) i = .deleted id := beliefOf_same e h
  have ho : ∀ j, j ≠ i → beliefOf (e :: h) j = beliefOf h j ∧
      ∀ id', ¬ superseded j id' (e :: h) → ¬ superseded j id' h := by
    intro j hj
    refine ⟨beliefOf_other h (Ne.symm hj), ?_⟩
    intro id' hn
    exact (not_superseded_tail hn fun ht => hj ht.1.symm).2
  have hcu : ∀ {id' cur}, w'.store.load id' = some cur → w.store.load id' = some cur := by
    intro id' cur hcu
    rw [hlo] at hcu
    split at hcu
    · cases hcu
    · exact hcu
  have hne : ∀ {j g}, beliefOf (e :: h) j = g → g ≠ .deleted id → j ≠ i := by
    rintro j g hb hg rfl
    exact hg (hb.symm.trans hi)
  refine ⟨fun id' a ha => hl.keyed id' a (hcu ha), ?_, ?_, ?_, ?_⟩
  · intro j id' a ha
    obtain ⟨hb, _⟩ := ho j (hne ha nofun)
    exact hl.loaded_id j id' a (hb ▸ ha)
  · intro j id' a hn ha cur hc
    obtain ⟨hb, hta⟩ := ho j (hne ha nofun)
    exact hl.loaded j id' a (hta _ hn) (hb ▸ ha) cur (hcu hc)
  · intro j a hn ha cur hc
    obtain ⟨hb, hta⟩ := ho j (hne ha nofun)
    exact hl.wrote j a (hta _ hn) (hb ▸ ha) cur (hcu hc)
  · intro j k a b hjk hid hnj hnk ha hb
    obtain ⟨hbj, htj⟩ := ho j (hne ha nofun)
    obtain ⟨hbk, htk⟩ := ho k (hne hb nofun)
    exact hl.unique j k a b hjk hid (htj _ hnj) (htk _ hnk) (hbj ▸ ha) (hbk ▸ hb)

/-! ## One step -/

theorem legal_of_same {e : TaskStep ι ρ}
    (hs : ∀ id, e.after.store.load id = e.before.store.load id) : LegalStep e h :=
  fun id => .inl (hs id)

theorem upsert_is_legal {version : Option Nat} {events : List RuntimeEvent} {w w' : World ρ}
    (hl : Locked h w.store) (hu : Upsert ⟨fun _ => True, false⟩ (beliefOf h i) a' version events)
    (hv : ∀ n, version = some n →
      ∃ current, w.store.load a'.route_id = some current ∧ current.version = n)
    (hlo : ∀ id, w'.store.load id = if a'.route_id = id then some a' else w.store.load id)
    (hco : Covered (upsertStep i a' version events w w') h) :
    LegalStep (upsertStep i a' version events w w') h ∧
      Locked (upsertStep i a' version events w w' :: h) w'.store := by
  -- It is enough to look at the route that is stored.
  have ho : Legal (beliefOf h i) (w.store.load a'.route_id) (some a') →
      LegalStep (upsertStep i a' version events w w') h := by
    intro hle id
    dsimp only
    rw [hlo]
    split
    · rename_i hi
      rw [← hi]
      exact .inr hle
    · exact .inl rfl
  cases version with
  | none =>
    refine ⟨ho ?_, locked_register hl hlo⟩
    have hnew : a' = new a'.route_id := by
      generalize beliefOf h i = g at hu
      cases hu with
      | register_absent id | register_adopted id a => rfl
      | reconcile id _ hb => cases hb
    rcases hco with hno | ⟨b, hb, hso⟩
    · dsimp only at hno
      rw [hno, hnew]
      exact Legal.register _
    · dsimp only at hso hb
      rw [hso, hnew]
      exact Legal.adopt _ b hb
  | some n =>
    obtain ⟨current, hc, hn⟩ := hv n rfl
    have hs : ¬ superseded i a'.route_id h := fun hs => hco hs current hc hn
    obtain ⟨he, hne⟩ := upsert_source hl hu hs hc hn
    refine ⟨ho ?_, locked_change hl hlo hc hs hne⟩
    rw [hc]
    exact Legal.edge he

theorem delete_is_legal {a : RouteRuntimeAggregate} {events : List RuntimeEvent} {w w' : World ρ}
    (hl : Locked h w.store) (hg : beliefOf h i = .loaded id a) (hr : Removable a)
    (hlo : ∀ id', w'.store.load id' = if id = id' then none else w.store.load id')
    (hco : Covered (⟨i, .persist_delete id events, .ok (), w, w'⟩ : TaskStep ι ρ) h) :
    LegalStep (⟨i, .persist_delete id events, .ok (), w, w'⟩ : TaskStep ι ρ) h := by
  intro id'
  dsimp only
  rw [hlo]
  split
  · rename_i hi
    subst hi
    cases hc : w.store.load id with
    | none => exact .inl rfl
    | some current =>
      obtain ⟨hs, b, hb, hv⟩ := hco current hc
      rw [hg] at hb
      cases hb
      rcases hl.loaded i id a hs hg current hc with hlt | rfl | ⟨hst, _⟩
      · omega
      · exact .inr (Legal.remove hr)
      · rcases hr with hr | hr
        all_goals
          rw [hst] at hr
          cases hr
  · exact .inl rfl

theorem covered_step {exec : RuntimeSem ρ} (c : PortCall) (r : Answer c) {w w' : World ρ}
    (hl : Locked h w.store) (ho : Permitted ⟨fun _ => True, false⟩ (beliefOf h i) c)
    (hs : portSem exec c w r w') (hc : Covered (⟨i, c, r, w, w'⟩ : TaskStep ι ρ) h) :
    LegalStep (⟨i, c, r, w, w'⟩ : TaskStep ι ρ) h ∧
      Locked ((⟨i, c, r, w, w'⟩ : TaskStep ι ρ) :: h) w'.store := by
  have hb : ∀ {c : PortCall} {r : Answer c},
      beliefOf ((⟨i, c, r, w, w'⟩ : TaskStep ι ρ) :: h) i = learn (beliefOf h i) c r :=
    fun {c r} => beliefOf_same ⟨i, c, r, w, w'⟩ h
  -- A call that leaves the routes and tells nothing.
  have hq : ∀ {c : PortCall} {r : Answer c}, (∀ id, w'.store.load id = w.store.load id) →
      refreshes (⟨i, c, r, w, w'⟩ : TaskStep ι ρ) = false → learn (beliefOf h i) c r = beliefOf h i →
      LegalStep (⟨i, c, r, w, w'⟩ : TaskStep ι ρ) h ∧
        Locked ((⟨i, c, r, w, w'⟩ : TaskStep ι ρ) :: h) w'.store := by
    intro c r hsa hr hle
    exact ⟨legal_of_same hsa, locked_quiet hl hsa (.inl ⟨hr, hb.trans hle⟩)⟩
  cases c with
  | load id =>
    obtain ⟨rfl, rfl⟩ := hs
    refine ⟨legal_of_same fun _ => rfl, locked_quiet hl (fun _ => rfl) (.inr ?_)⟩
    dsimp only
    rw [hb]
    cases hlo : w'.store.load id with
    | none => exact .inr fun _ _ => ⟨nofun, nofun⟩
    | some a => exact .inl ⟨id, a, rfl, hlo⟩
  | take_recovered id =>
    obtain ⟨a, hg⟩ := ho
    cases hs
    refine ⟨legal_of_same fun _ => rfl, locked_quiet hl (fun _ => rfl) ?_⟩
    dsimp only
    rw [hb, hg]
    cases (w.store.take_recovered id).1
    · exact .inl ⟨rfl, rfl⟩
    · exact .inr (.inr fun _ _ => ⟨nofun, nofun⟩)
  | list_statuses =>
    obtain ⟨statuses, rfl, _, rfl⟩ := hs
    exact hq (fun _ => rfl) rfl rfl
  | force_unhealthy_for_route =>
    obtain ⟨rfl, rfl⟩ := hs
    exact hq (fun _ => rfl) rfl rfl
  | execution op =>
    obtain ⟨_, hst⟩ := hs
    refine hq (fun id => by rw [hst]) rfl ?_
    cases r <;> rfl
  | persist_upsert a' version projection events =>
    obtain ⟨rfl, hu⟩ := ho
    obtain ⟨env, hs⟩ := hs
    obtain ⟨hr, hw⟩ := Prod.mk.inj hs
    rcases hsp : w.store.persist_upsert env a' version (project_from_aggregate a') events
      with ⟨result, store'⟩
    rw [hsp] at hr hw
    subst hr hw
    rcases InMemoryRuntimeStore.persist_upsert_spec hsp with
      ⟨rfl, hv, hi, _⟩ | ⟨⟨error, rfl⟩, rfl⟩
    · refine upsert_is_legal hl hu hv ?_ hc
      intro id
      rw [InMemoryRuntimeStore.load, hi, InMemoryRuntimeStore.lookup_upserted]
      rfl
    · exact hq (fun _ => rfl) rfl rfl
  | persist_delete id events =>
    obtain ⟨_, a, hg, hre, _⟩ := ho
    obtain ⟨env, hs⟩ := hs
    obtain ⟨hr, hw⟩ := Prod.mk.inj hs
    rcases hsp : w.store.persist_delete env id events with ⟨result, store'⟩
    rw [hsp] at hr hw
    subst hr hw
    rcases InMemoryRuntimeStore.persist_delete_spec hsp with ⟨rfl, hi, _⟩ | ⟨⟨error, rfl⟩, rfl⟩
    · have hlo : ∀ id', store'.load id' = if id = id' then none else w.store.load id' := by
        intro id'
        rw [InMemoryRuntimeStore.load, hi, InMemoryRuntimeStore.lookup_deleted]
        rfl
      exact ⟨delete_is_legal hl hg hre hlo hc, locked_delete hl hlo⟩
    · exact hq (fun _ => rfl) rfl rfl
  | save | save_if_version | delete | upsert_status | remove_status | publish => exact ho.elim

/-! ## Whole runs -/

/-- The step is serial: its changes are legal where they are made. In
particular it deletes only a route that can be removed, and stores the intent of
a start only over one. -/
def Serial (h : List (TaskStep ι ρ)) : Prop :=
  LegalStep e h ∧
    (∀ id a, e.before.store.load id = some a → e.after.store.load id = none → Removable a) ∧
    ∀ id a, e.after.store.load id = some a → a.state = .Starting →
      e.after.store.load id ≠ e.before.store.load id →
      ∃ b, e.before.store.load id = some b ∧ Removable b

theorem serial_of_legal {e : TaskStep ι ρ} (hl : LegalStep e h) : Serial e h := by
  refine ⟨hl, ?_, ?_⟩
  · intro id a ha hn
    rcases hl id with hsa | hle
    · rw [hn, ha] at hsa
      cases hsa
    · rw [ha, hn] at hle
      cases hle with
      | remove hr => exact hr
  · intro id a ha hs hne
    rcases hl id with hsa | hle
    · exact absurd hsa hne
    · rw [ha] at hle
      generalize hb : e.before.store.load id = before at hle
      cases hle with
      | register | adopt => cases hs
      | edge he => exact ⟨_, rfl, he.removable_of_starting hs⟩

theorem locked_start (hk : Keyed store) : Locked ([] : List (TaskStep ι ρ)) store :=
  ⟨hk, nofun, fun _ _ _ _ => nofun, fun _ _ _ => nofun, fun _ _ _ _ _ _ _ _ => nofun⟩

/-- Optimistic locking serialises the lifecycle, in every interleaving of any
number of handlers whose steps the lock covers: every change that is stored is a
legal edge from what was stored right before it. -/
theorem covered_interleavings_are_serial (exec : RuntimeSem ρ) (execution health_registry : Bool)
    (tasks : ι → RouteTask) {w₀ w : World ρ} (hk : Keyed w₀.store) {h : List (TaskStep ι ρ)}
    {P : ι → Prog PortCall Answer (Outcome CamelError RuntimeCommandResult)}
    (hrun : Interleaves (portSem exec)
      (fun i => ((tasks i).handler ⟨true, execution, health_registry⟩).run) w₀ h P w)
    (hcov : Interleaves.EachStep Covered h) : Interleaves.EachStep Serial h := by
  suffices hb : Interleaves.EachStep Serial h ∧ Locked h w.store from hb.1
  induction hrun with
  | start => exact ⟨trivial, locked_start hk⟩
  | @step h P w w' i c k r hrun hP hs ih =>
    obtain ⟨hse, hl⟩ := ih hcov.2
    have hu : (⟨true, execution, health_registry⟩ : CommandDeps).uow = true := rfl
    have hf := Interleaves.follows (fun i => (tasks i).follows hu .unknown) hrun i
    rw [hP] at hf
    obtain ⟨hle, hl'⟩ := covered_step c r hl hf.1 hs hcov.1
    exact ⟨⟨serial_of_legal hle, hse⟩, hl'⟩

end

/-! ## A removal and a start -/

def registeredStore : InMemoryRuntimeStore :=
  ((InMemoryRuntimeStore.with_journal (.new 10000)).persist_upsert {} (new "r") none
    (project_from_aggregate (new "r")) [.RouteRegistered "r"]).2

theorem keyed_registeredStore : Keyed registeredStore := by
  intro id a ha
  rw [show registeredStore.load id = if (new "r").route_id = id then some (new "r") else none from
    lookup_upsert _ _ _ _] at ha
  split at ha
  · cases ha
    assumption
  · cases ha

def removeAndStart (i : Bool) : RouteTask :=
  if i then .command (.StartRoute "r" "2" none) else .command (.RemoveRoute "r" "1" none)

/-- The two tasks take their steps in this order, and nothing fails. -/
def removeAndStartRun (order : List Bool) : Interleaves.RunState Bool PortCall Answer
    (Outcome CamelError RuntimeCommandResult) (World Unit) :=
  order.foldl (Interleaves.advance (portFn {}))
    ([], fun i => ((removeAndStart i).handler {}).run, ⟨registeredStore, ()⟩)

theorem interleaves_removeAndStart (order : List Bool) :
    Interleaves (portSem fun _ _ _ _ => True) (fun i => ((removeAndStart i).handler {}).run)
      ⟨registeredStore, ()⟩ (removeAndStartRun order).1 (removeAndStartRun order).2.1
      (removeAndStartRun order).2.2 :=
  Interleaves.schedule (portSem_portFn fun _ _ => trivial) _ _ order

/-- The removal loads the route, the start runs from its first call to its last,
and the removal deletes a route that is started. -/
theorem a_removal_can_delete_a_started_route :
    ¬ ∀ (tasks : Bool → RouteTask) (w₀ w : World Unit) (h : List (TaskStep Bool Unit))
        (P : Bool → Prog PortCall Answer (Outcome CamelError RuntimeCommandResult)),
      Keyed w₀.store →
      Interleaves (portSem fun _ _ _ _ => True) (fun i => ((tasks i).handler {}).run) w₀ h P w →
      Interleaves.EachStep Serial h := by
  intro ha
  have hs := ha _ _ _ _ _ keyed_registeredStore
    (interleaves_removeAndStart [false, true, true, true, true, false, false])
  have hr : Removable ⟨"r", .Started, 1⟩ := hs.1.2.1 "r" _ (by decide) (by decide)
  rcases hr with ⟨⟨⟩⟩ | ⟨⟨⟩⟩

/-- Up to the removal's own store the lock covers every step. -/
theorem a_start_after_the_load_of_a_removal_is_serial :
    Interleaves.EachStep Covered (removeAndStartRun [false, true, true, true, true]).1 ∧
      Interleaves.EachStep Serial (removeAndStartRun [false, true, true, true, true]).1 := by
  have hc : Interleaves.EachStep Covered (removeAndStartRun [false, true, true, true, true]).1 := by
    refine ⟨?_, trivial, ?_, trivial, trivial, trivial⟩
    · rintro ⟨_, hr | ⟨hf, _⟩⟩
      · exact hr.elim
      · exact absurd ⟨rfl, rfl⟩ hf
    · rintro ⟨hf, _⟩
      exact absurd ⟨rfl, rfl⟩ hf
  exact ⟨hc, covered_interleavings_are_serial _ true false _ keyed_registeredStore
    (interleaves_removeAndStart _) hc⟩

end camel_core.lifecycle
