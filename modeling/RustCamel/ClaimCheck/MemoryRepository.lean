-- The claim check repository in memory of `memory_repository.rs`: single messages under their
-- keys, and stacks of messages. A stack that was emptied keeps its place, so it can cost a
-- stack that still holds messages.
import Mathlib.Data.List.MinMax
import Mathlib.Data.List.Perm.Subperm
import Mathlib.Data.String.Basic
import RustCamel.Api.Exchange
import RustCamel.Lib.OrdMap

open List OrdMap

variable {ops : List Operation} {k : Nat}

namespace camel_core.claim_check

open camel_api (Message)
open camel_api.error (CamelError)

/-! ## The repository -/

def DEFAULT_MAX_STACK_DEPTH : Nat := 10000

structure SingleEntry where
  payload : Message
  seq : Nat

/-- The last payload is the top. -/
structure StackEntry where
  payloads : List Message
  seq : Nat

structure MemoryClaimCheckRepository where
  keys : OrdMap String SingleEntry
  stacks' : OrdMap String StackEntry
  max_entries : Nat
  next_seq : Nat

namespace MemoryClaimCheckRepository

def new_with_max_entries (max_entries : Nat) : MemoryClaimCheckRepository :=
  ⟨.empty, .empty, max_entries, 0⟩

variable (repo : MemoryClaimCheckRepository) (key : String)

/-- The entries after the oldest one made room, if a new key does not fit. -/
def with_room {V : Type} (entries : OrdMap String V) (seq : V → Nat) : OrdMap String V :=
  if !entries.contains_key key && decide (repo.max_entries ≤ entries.rows.length) then
    match entries.rows.argmin fun row => seq row.2 with
    | some oldest => entries.remove oldest.1
    | none => entries
  else entries

def set (payload : Message) : MemoryClaimCheckRepository :=
  { repo with
    keys := (repo.with_room key repo.keys (·.seq)).insert key ⟨payload, repo.next_seq⟩
    next_seq := repo.next_seq + 1 }

def not_found : CamelError := .RouteError s!"Claim check key not found: {key}"

def get : Except CamelError Message :=
  match repo.keys.get key with
  | some entry => .ok entry.payload
  | none => .error (not_found key)

def get_and_remove : Except CamelError Message × MemoryClaimCheckRepository :=
  match repo.keys.get key with
  | some entry => (.ok entry.payload, { repo with keys := repo.keys.remove key })
  | none => (.error (not_found key), repo)

def remove : MemoryClaimCheckRepository := { repo with keys := repo.keys.remove key }

def too_deep : CamelError :=
  .RouteError s!"Claim check stack for key '{key}' reached maximum depth {DEFAULT_MAX_STACK_DEPTH}"

def stack_empty : CamelError := .RouteError s!"Claim check stack empty for key: {key}"

def push (payload : Message) : Except CamelError Unit × MemoryClaimCheckRepository :=
  let stacks' := repo.with_room key repo.stacks' (·.seq)
  let (entry, next_seq) := match stacks'.get key with
    | some entry => (entry, repo.next_seq)
    | none => (⟨[], repo.next_seq⟩, repo.next_seq + 1)
  if DEFAULT_MAX_STACK_DEPTH ≤ entry.payloads.length then
    (.error (too_deep key), { repo with stacks' := stacks'.insert key entry, next_seq })
  else
    let entry := { entry with payloads := entry.payloads ++ [payload] }
    (.ok (), { repo with stacks' := stacks'.insert key entry, next_seq })

def pop : Except CamelError Message × MemoryClaimCheckRepository :=
  match repo.stacks'.get key with
  | some entry =>
    match entry.payloads.getLast? with
    | some payload =>
      let entry := { entry with payloads := entry.payloads.dropLast }
      (.ok payload, { repo with stacks' := repo.stacks'.insert key entry })
    | none => (.error (stack_empty key), repo)
  | none => (.error (stack_empty key), repo)

end MemoryClaimCheckRepository

/-! ## Runs -/

inductive Operation where
  | set (key : String) (payload : Message)
  | get (key : String)
  | get_and_remove (key : String)
  | remove (key : String)
  | push (key : String) (payload : Message)
  | pop (key : String)

def MemoryClaimCheckRepository.after (repo : MemoryClaimCheckRepository) :
    Operation → MemoryClaimCheckRepository
  | .set key payload => repo.set key payload
  | .get _ => repo
  | .get_and_remove key => (repo.get_and_remove key).2
  | .remove key => repo.remove key
  | .push key payload => (repo.push key payload).2
  | .pop key => (repo.pop key).2

/-- The repository after the first `k` operations. -/
def repoAt (max_entries : Nat) (ops : List Operation) (k : Nat) : MemoryClaimCheckRepository :=
  (ops.take k).foldl .after (.new_with_max_entries max_entries)

/-! ## Stacks without a bound on their number -/

/-- A stack for every key, the top first. -/
abbrev Stacks := String → List Message

namespace Stacks

def after (held : Stacks) : Operation → Stacks
  | .push key payload =>
    if DEFAULT_MAX_STACK_DEPTH ≤ (held key).length then held
    else Function.update held key (payload :: held key)
  | .pop key => Function.update held key (held key).tail
  | .set _ _ | .get _ | .get_and_remove _ | .remove _ => held

/-- What a pop gives: the payload pushed last and not popped yet. -/
def pop (held : Stacks) (key : String) : Except CamelError Message :=
  match held key with
  | payload :: _ => .ok payload
  | [] => .error (MemoryClaimCheckRepository.stack_empty key)

end Stacks

def stacksAt (ops : List Operation) (k : Nat) : Stacks :=
  (ops.take k).foldl Stacks.after fun _ => []

/-- At no time do more keys hold a payload than there may be entries. -/
def WithinLimit (max_entries : Nat) (ops : List Operation) : Prop :=
  ∀ k (live : List String), live.Nodup → (∀ key ∈ live, stacksAt ops k key ≠ []) →
    live.length ≤ max_entries

/-- A push that makes an entry go finds the oldest one emptied. -/
def Spares (repo : MemoryClaimCheckRepository) : Operation → Prop
  | .push key _ => repo.stacks'.get key = none → repo.max_entries ≤ repo.stacks'.rows.length →
      ∀ oldest, repo.stacks'.rows.argmin (fun row => row.2.seq) = some oldest →
        oldest.2.payloads = []
  | .set _ _ | .get _ | .get_and_remove _ | .remove _ | .pop _ => True

/-! ## One operation -/

section

variable {repo : MemoryClaimCheckRepository} {held : Stacks}

variable (entries : OrdMap String StackEntry)

/-- The stacks of the entries. An emptied entry is as good as none. -/
def stacksOf : Stacks :=
  fun key => ((entries.get key).map fun entry => entry.payloads.reverse).getD []

@[simp] theorem stacksOf_insert (key : String) (entry : StackEntry) :
    stacksOf (entries.insert key entry) =
      Function.update (stacksOf entries) key entry.payloads.reverse := by
  funext other
  by_cases ho : other = key
  · subst ho
    simp [stacksOf]
  · rw [Function.update_of_ne ho]
    simp [stacksOf, get_insert_of_ne _ _ ho]

@[simp] theorem stacksOf_remove (key : String) :
    stacksOf (entries.remove key) = Function.update (stacksOf entries) key [] := by
  funext other
  by_cases ho : other = key
  · subst ho
    simp [stacksOf]
  · rw [Function.update_of_ne ho]
    simp [stacksOf, get_remove_of_ne _ ho]

theorem stacksOf_some {entries : OrdMap String StackEntry} {key : String} {entry : StackEntry}
    (h : entries.get key = some entry) : stacksOf entries key = entry.payloads.reverse := by
  simp [stacksOf, h]

theorem stacksOf_none {entries : OrdMap String StackEntry} {key : String}
    (h : entries.get key = none) : stacksOf entries key = [] := by
  simp [stacksOf, h]

section

variable (repo : MemoryClaimCheckRepository)

theorem pop_spec (key : String) :
    (repo.pop key).1 = (stacksOf repo.stacks').pop key ∧
      stacksOf (repo.pop key).2.stacks' = (stacksOf repo.stacks').after (.pop key) := by
  unfold MemoryClaimCheckRepository.pop Stacks.pop Stacks.after
  cases hg : repo.stacks'.get key with
  | none =>
    have he := stacksOf_none hg
    simp only [he, tail_nil]
    exact ⟨trivial, by rw [← he, Function.update_eq_self]⟩
  | some entry =>
    have ht := stacksOf_some hg
    obtain ⟨payloads, seq⟩ := entry
    simp only at ht
    rcases eq_nil_or_concat payloads with rfl | ⟨payloads, payload, rfl⟩
    · rw [reverse_nil] at ht
      simp only [ht, getLast?_nil, tail_nil]
      exact ⟨trivial, by rw [← ht, Function.update_eq_self]⟩
    · rw [concat_eq_append, reverse_concat] at ht
      simp [ht]

theorem push_spec (key : String) (payload : Message) :
    stacksOf (repo.push key payload).2.stacks' =
      (stacksOf (repo.with_room key repo.stacks' (·.seq))).after (.push key payload) := by
  unfold MemoryClaimCheckRepository.push Stacks.after
  simp only
  generalize repo.with_room key repo.stacks' (·.seq) = entries
  cases hg : entries.get key with
  | none =>
    have he := stacksOf_none hg
    have hr : ¬DEFAULT_MAX_STACK_DEPTH ≤ 0 := by decide
    simp [he, hr]
  | some entry =>
    have ht := stacksOf_some hg
    simp only [ht, length_reverse]
    by_cases hd : DEFAULT_MAX_STACK_DEPTH ≤ entry.payloads.length
    · simp only [hd, if_true, stacksOf_insert]
      rw [← ht, Function.update_eq_self]
    · simp only [hd, if_false, stacksOf_insert, reverse_append, reverse_singleton, singleton_append]

theorem with_room_cases (key : String) :
    (repo.with_room key repo.stacks' (·.seq) = repo.stacks' ∧
      ∀ oldest, repo.stacks'.get key = none → repo.max_entries ≤ repo.stacks'.rows.length →
        repo.stacks'.rows.argmin (fun row => row.2.seq) ≠ some oldest) ∨
    ∃ oldest, repo.stacks'.get key = none ∧ repo.max_entries ≤ repo.stacks'.rows.length ∧
      repo.stacks'.rows.argmin (fun row => row.2.seq) = some oldest ∧
      repo.with_room key repo.stacks' (·.seq) = repo.stacks'.remove oldest.1 := by
  have hn : repo.stacks'.contains_key key = false ↔ repo.stacks'.get key = none := by
    rw [get_eq_none]
    simp [OrdMap.contains_key]
  unfold MemoryClaimCheckRepository.with_room
  by_cases hf : repo.stacks'.get key = none ∧ repo.max_entries ≤ repo.stacks'.rows.length
  · have he : (!repo.stacks'.contains_key key &&
        decide (repo.max_entries ≤ repo.stacks'.rows.length)) = true := by
      simp [hn.mpr hf.1, hf.2]
    rw [if_pos he]
    cases ho : repo.stacks'.rows.argmin fun row => row.2.seq with
    | none => exact .inl ⟨rfl, by simp⟩
    | some oldest => exact .inr ⟨oldest, hf.1, hf.2, rfl, rfl⟩
  · have hk : ¬(!repo.stacks'.contains_key key &&
        decide (repo.max_entries ≤ repo.stacks'.rows.length)) = true := by
      simp only [Bool.and_eq_true, Bool.not_eq_true', decide_eq_true_eq, hn]
      exact hf
    rw [if_neg hk]
    exact .inl ⟨rfl, fun oldest hg hl _ => hf ⟨hg, hl⟩⟩

end

theorem after_of_spares (op : Operation) (hs : Spares repo op) :
    stacksOf (repo.after op).stacks' = (stacksOf repo.stacks').after op := by
  cases op with
  | set key payload | get key | remove key => rfl
  | get_and_remove key =>
    simp only [MemoryClaimCheckRepository.after, MemoryClaimCheckRepository.get_and_remove]
    split <;> rfl
  | pop key => exact (pop_spec repo key).2
  | push key payload =>
    simp only [MemoryClaimCheckRepository.after, push_spec]
    obtain ⟨hsa, -⟩ | ⟨oldest, hg, hl, ho, hr⟩ := with_room_cases repo key
    · rw [hsa]
    · -- the entry that goes is as good as none
      have he := hs hg hl oldest ho
      have hen := (get_eq_some (m := repo.stacks')).mpr (argmin_mem ho)
      have hn : stacksOf repo.stacks' oldest.1 = [] := by
        rw [stacksOf_some hen, he, reverse_nil]
      rw [hr, stacksOf_remove, ← hn, Function.update_eq_self]

theorem lost_of_not_spares (op : Operation) (hs : ¬Spares repo op) :
    ∃ key, stacksOf (repo.after op).stacks' key = [] ∧
      (stacksOf repo.stacks').after op key ≠ [] := by
  cases op with
  | push key payload =>
    simp only [Spares, not_forall] at hs
    obtain ⟨hg, hl, oldest, ho, hli⟩ := hs
    have he := (get_eq_some (m := repo.stacks')).mpr (argmin_mem ho)
    have hn : oldest.1 ≠ key := by
      intro heq
      rw [heq, hg] at he
      cases he
    refine ⟨oldest.1, ?_, ?_⟩
    · simp only [MemoryClaimCheckRepository.after, push_spec]
      obtain ⟨-, hnot⟩ | ⟨oldest', -, -, ho', hr⟩ := with_room_cases repo key
      · exact absurd ho (hnot oldest hg hl)
      · obtain rfl : oldest = oldest' := Option.some.inj (ho.symm.trans ho')
        rw [hr, stacksOf_remove]
        simp only [Stacks.after]
        split
        · rw [Function.update_self]
        · rw [Function.update_of_ne hn, Function.update_self]
    · have hh : stacksOf repo.stacks' oldest.1 ≠ [] := by
        rw [stacksOf_some he]
        simpa using hli
      simp only [Stacks.after]
      split
      · exact hh
      · rwa [Function.update_of_ne hn]
  | set key payload | get key | get_and_remove key | remove key | pop key => exact absurd trivial hs

end

/-! ## Whole runs -/

theorem repoAt_succ (max_entries : Nat) {op : Operation} (ho : ops[k]? = some op) :
    repoAt max_entries ops (k + 1) = (repoAt max_entries ops k).after op := by
  unfold repoAt
  rw [take_add_one, ho, foldl_append]
  rfl

theorem stacksAt_succ {op : Operation} (ho : ops[k]? = some op) :
    stacksAt ops (k + 1) = (stacksAt ops k).after op := by
  unfold stacksAt
  rw [take_add_one, ho, foldl_append]
  rfl

theorem stacksOf_repoAt (max_entries : Nat) (ops : List Operation) (k : Nat)
    (h : ∀ j < k, ∀ op, ops[j]? = some op → Spares (repoAt max_entries ops j) op) :
    stacksOf (repoAt max_entries ops k).stacks' = stacksAt ops k := by
  induction k with
  | zero => rfl
  | succ k ih =>
    have hk := ih fun j hj => h j (by omega)
    cases ho : ops[k]? with
    | none =>
      have hl : ops.length ≤ k := List.getElem?_eq_none_iff.mp ho
      have hs : ops.take (k + 1) = ops.take k := by
        rw [take_of_length_le hl, take_of_length_le (by omega)]
      unfold repoAt stacksAt at hk ⊢
      rw [hs]
      exact hk
    | some op =>
      rw [repoAt_succ max_entries ho, stacksAt_succ ho,
        after_of_spares op (h k (by omega) op ho), hk]

/-- In a run a pop gives, at any time and under any key, what was pushed last and not popped yet,
exactly when each push that makes an entry go finds the oldest one emptied. -/
theorem pops_are_lifo_iff (max_entries : Nat) (ops : List Operation) :
    (∀ k key, ((repoAt max_entries ops k).pop key).1 = (stacksAt ops k).pop key) ↔
      ∀ k op, ops[k]? = some op → Spares (repoAt max_entries ops k) op := by
  constructor
  · intro h k
    -- up to the first push that costs a stack the stacks are as they should be
    induction k using Nat.strong_induction_on with
    | _ k ih =>
      intro op ho
      by_contra hs
      have hh := stacksOf_repoAt max_entries ops k ih
      obtain ⟨key, hl, hli⟩ := lost_of_not_spares op hs
      have hp := h (k + 1) key
      rw [(pop_spec _ key).1, stacksAt_succ ho, ← hh, repoAt_succ max_entries ho] at hp
      unfold Stacks.pop at hp
      rw [hl] at hp
      cases hst : (stacksOf (repoAt max_entries ops k).stacks').after op key with
      | nil => exact hli hst
      | cons payload rest =>
        rw [hst] at hp
        cases hp
  · intro h k key
    rw [(pop_spec _ key).1, stacksOf_repoAt max_entries ops k fun j _ => h j]

/-- Two entries, one of them emptied. -/
def claimRun (payload : Message) : List Operation :=
  [.push "a" payload, .push "b" payload, .pop "b", .push "c" payload]

/-- At no time of `claimRun` do more than two keys hold a payload. -/
theorem claimRun_withinLimit (payload : Message) : WithinLimit 2 (claimRun payload) := by
  intro k live hn hl
  -- the keys that can hold a payload after `k` operations
  have ha : ∃ among : List String, among.length ≤ 2 ∧
      ∀ key, stacksAt (claimRun payload) k key ≠ [] → key ∈ among := by
    match k with
    | 0 => exact ⟨[], by decide, fun key h => absurd rfl h⟩
    | 1 => exact ⟨["a"], by decide, fun key h => by
        by_contra hk
        simp_all [stacksAt, claimRun, Stacks.after, DEFAULT_MAX_STACK_DEPTH]⟩
    | 2 => exact ⟨["a", "b"], by decide, fun key h => by
        by_contra hk
        simp_all [stacksAt, claimRun, Stacks.after, DEFAULT_MAX_STACK_DEPTH]⟩
    | 3 => exact ⟨["a"], by decide, fun key h => by
        by_contra hk
        simp_all [stacksAt, claimRun, Stacks.after, DEFAULT_MAX_STACK_DEPTH, Function.update_apply]⟩
    | k + 4 => exact ⟨["a", "c"], by decide, fun key h => by
        by_contra hk
        simp_all [stacksAt, claimRun, Stacks.after, DEFAULT_MAX_STACK_DEPTH, Function.update_apply]⟩
  obtain ⟨among, hs, hm⟩ := ha
  have hsu : live ⊆ among := fun key hk => hm key (hl key hk)
  exact (subperm_of_subset hn hsu).length_le.trans hs

/-- The push of `c` takes the stack of `a`, which still holds its payload, and leaves the emptied
stack of `b`. -/
theorem an_emptied_stack_costs_a_live_one :
    ¬∀ max_entries ops, WithinLimit max_entries ops →
      ∀ k key, ((repoAt max_entries ops k).pop key).1 = (stacksAt ops k).pop key := by
  intro h
  let payload : Message := ⟨fun _ => none, .Empty⟩
  have hp := h 2 (claimRun payload) (claimRun_withinLimit _) 4 "a"
  have hl : ((repoAt 2 (claimRun payload) 4).pop "a").1.isOk = false := by decide +kernel
  have hh : ((stacksAt (claimRun payload) 4).pop "a").isOk = true := by decide +kernel
  rw [hp, hh] at hl
  cases hl

end camel_core.claim_check
