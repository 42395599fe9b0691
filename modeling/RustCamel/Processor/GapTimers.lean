-- Whether the gap in front of the held exchanges is timed. A timer is armed when an early
-- number comes, and never when a drain or a timer stops at a second gap.
import RustCamel.Processor.StreamResequencer

open Bool OrdMap

namespace camel_processor.resequencer

open camel_api List
open camel_core.lifecycle (u64_max)

variable {ε : Type} {p : StreamPolicy ε} {s : State ε}

/-- What is held is early, and a timer waits for the expected number. -/
def GapTimed (s : State ε) : Prop :=
  s.queue.rows ≠ [] → (∀ r ∈ s.queue.rows, s.next_expected < r.1) ∧
    ∃ (i : Nat) (t : GapTimer), s.gap_tokens.get s.next_expected = some i ∧
      s.timers[i]? = some t ∧ t.missing_seq = s.next_expected ∧ t.live = true

/-- The held numbers are `n`, `n + 1` and so on, without a gap. -/
def HeldFrom (s : State ε) (n : Nat) : Prop :=
  s.queue.rows.map (·.1) = List.range' n s.queue.rows.length

/-- A call that leaves no gap without a timer: the expected number finds a queue without a
gap, a late number is ignored, and so is the queue of a timer that emits without a gap. -/
def Settles (p : StreamPolicy ε) (s : State ε) : Call ε → Prop
  | .accept input => ∀ seq, p.eval_seq input = .ok seq →
    (seq = s.next_expected → HeldFrom s (seq + 1)) ∧ (seq < s.next_expected → p.dedup = true)
  | .fire i _ => p.on_gap = .EmitPartial → ∀ t, s.timers[i]? = some t → t.live = true →
    HeldFrom s (t.missing_seq + 1)
  | .set_timeout_tx => True

/-! ## The invariant -/

/-- The one timer that waits is there exactly when something is held. -/
structure Watched (s : State ε) : Prop where
  bound : s.next_expected ≤ u64_max
  held : ∀ r ∈ s.queue.rows, s.next_expected < r.1 ∧ r.1 ≤ u64_max
  tokens : ∀ k i, s.gap_tokens.get k = some i →
    k = s.next_expected ∧ ∃ t, s.timers[i]? = some t ∧ t.live = true
  clocked : Clocked s
  armed : s.queue.rows ≠ [] ↔ ∃ i, s.gap_tokens.get s.next_expected = some i
  running : s.shutdown_started = false

theorem watched_new_cyclic : Watched (State.new_cyclic : State ε) where
  bound := by simp [State.new_cyclic, u64_max]
  held := by simp [State.new_cyclic]
  tokens := by simp [State.new_cyclic]
  clocked := by simp [State.new_cyclic, Clocked]
  armed := by simp [State.new_cyclic]
  running := rfl

theorem Watched.gapTimed (h : Watched s) : GapTimed s := by
  intro hro
  refine ⟨fun r hr => (h.held r hr).1, ?_⟩
  obtain ⟨i, hi⟩ := h.armed.mp hro
  obtain ⟨-, t, ht, hl⟩ := h.tokens _ _ hi
  exact ⟨i, t, hi, ht, (h.clocked i t ht hl).1, hl⟩

variable {k i : Nat} {t : GapTimer} {calls : List (Call ε)}

theorem Watched.tokens_none (h : Watched s) (hk : k ≠ s.next_expected) :
    s.gap_tokens.get k = none := by
  rw [Option.eq_none_iff_forall_ne_some]
  intro i hi
  exact hk (h.tokens k i hi).1

/-- With nothing held, no token and no timer, nothing has to be timed. -/
theorem Watched.of_empty (hbound : s.next_expected ≤ u64_max) (hr : s.queue.rows = [])
    (ht : ∀ k, s.gap_tokens.get k = none) (hq : Quiet s)
    (hru : s.shutdown_started = false) : Watched s where
  bound := hbound
  held := by simp [hr]
  tokens := by simp [ht]
  clocked := hq.clocked
  armed := by simp [hr, ht]
  running := hru

theorem not_gapTimed (hr : s.queue.rows ≠ []) (ht : s.gap_tokens.get s.next_expected = none) :
    ¬ GapTimed s := by
  intro h
  obtain ⟨-, i, t, hi, -⟩ := h hr
  simp [ht] at hi

/-! ## The steps -/

/-- The expected number comes. The drain takes its token along, so what it leaves behind
has no timer. -/
theorem accept_expected_watched (h : Watched s) {input : ε}
    (hse : p.eval_seq input = .ok s.next_expected) :
    (HeldFrom s (s.next_expected + 1) → Watched (p.accept s input).2) ∧
      (GapTimed (p.accept s input).2 → HeldFrom s (s.next_expected + 1)) := by
  have ha : (p.accept s input).2 = s.passed.drain_contiguous.2 := by
    simp only [StreamPolicy.accept, hse, if_true]
    rfl
  have ht : ∀ k, s.passed.gap_tokens.get k = none := by
    intro k
    rw [State.passed_tokens]
    split
    · rfl
    · rename_i hk
      exact h.tokens_none hk
  have hp : s.passed.next_expected = wrapping_succ s.next_expected := rfl
  have hs : ∀ r ∈ s.queue.rows, wrapping_succ s.next_expected = s.next_expected + 1 := by
    intro r hr
    have := h.held r hr
    exact wrapping_succ_of_lt (by omega)
  have hd := State.drain_contiguous_eq s.passed (wrapping_succ_le _)
    (fun r hr => by
      have hr' : r ∈ s.queue.rows := by simpa using hr
      have := h.held r hr'
      rw [hp, hs r hr']
      omega)
    (fun k _ => ht k)
  -- An empty queue is a run from any number.
  have hru : (splitRun (wrapping_succ s.next_expected) s.queue.rows).2 = [] ↔
      HeldFrom s (s.next_expected + 1) := by
    cases hro : s.queue.rows with
    | nil => simp [splitRun, HeldFrom, hro]
    | cons r rows =>
      rw [hs r (by simp [hro]), HeldFrom, hro]
      exact rest_eq_nil_iff _ _
  rw [ha, hd]
  simp only [hp, State.passed_queue]
  constructor
  · intro hh
    apply Watched.of_empty
    · exact Nat.le_of_lt_succ (Nat.mod_lt _ (by simp))
    · simpa [dropRun] using hru.mpr hh
    · exact ht
    · exact h.clocked.quiet_of_cancel
    · simpa [State.passed, State.set_next_expected] using h.running
  · intro hti
    rw [← hru]
    by_contra hre
    refine absurd hti (not_gapTimed ?_ ?_)
    · exact hre
    · exact ht _

/-- An early number is held with a timer for the expected one, or dropped. -/
theorem hold_watched (h : Watched s) (input : ε) {seq : Nat} (hg : s.next_expected < seq)
    (hle : seq ≤ u64_max) : Watched (p.hold s s.next_expected seq input) := by
  have hn : ∀ r ∈ s.queue.rows, s.gap_tokens.get r.1 = none := by
    intro r hr
    have := (h.held r hr).1
    exact h.tokens_none (by omega)
  obtain hs | ⟨queue, hsu, hh⟩ := p.hold_cases s s.next_expected seq input hn
  · rw [hs]
    exact h
  · have hq : ∀ r ∈ (queue.insert seq input).rows, s.next_expected < r.1 ∧ r.1 ≤ u64_max := by
      intro r hr
      rcases (mem_insert _ _ _ _).mp hr with rfl | ⟨hr, -⟩
      · exact ⟨hg, hle⟩
      · exact h.held r (hsu r hr)
    have hc : Clocked { s with queue := queue.insert seq input } := h.clocked
    have ha := arm_clocked hc
    rw [hh]
    unfold State.arm at ha ⊢
    split
    · rename_i hy
      refine ⟨h.bound, hq, h.tokens, hc, ?_, h.running⟩
      obtain ⟨i, hi⟩ := (contains_key_eq_true _ _).mp hy
      have ht : s.gap_tokens.get s.next_expected = some i := get_eq_some.mpr hi
      simp [ht, insert_ne_nil]
    · rename_i hno
      simp only [hno, false_eq_true, if_false] at ha
      refine ⟨h.bound, hq, ?_, ha, ?_, h.running⟩
      · intro k i hi
        simp only [State.spawn_gap_timer] at hi ⊢
        by_cases hk : k = s.next_expected
        · subst hk
          rw [get_insert_self] at hi
          cases hi
          exact ⟨rfl, ⟨s.next_expected, s.driver_tx, false, false⟩, by simp, rfl⟩
        · rw [get_insert_of_ne _ _ hk, h.tokens_none hk] at hi
          simp at hi
      · simp [State.spawn_gap_timer, insert_ne_nil]

/-- Nothing held has a timer of its own, so `drain_all_with_max` only empties the queue. -/
theorem drain_all_with_max_eq (s : State ε)
    (hn : ∀ r ∈ s.queue.rows, s.gap_tokens.get r.1 = none) :
    s.drain_all_with_max = (s.queue.rows.map (·.2), (s.queue.rows.map (·.1)).foldl max 0,
      { s with queue := .empty }) := by
  have hc : ∀ (keys : List Nat) (s' : State ε), (∀ k ∈ keys, s'.gap_tokens.get k = none) →
      keys.foldl (fun s k => s.cancel_gap_timer k) s' = s' := by
    intro keys
    induction keys with
    | nil => simp
    | cons k keys ih =>
      intro s' hke
      rw [foldl_cons, State.cancel_gap_timer_of_none _ _ (hke k (by simp))]
      exact ih s' (fun k hk => hke k (by simp [hk]))
  simp only [State.drain_all_with_max]
  rw [hc]
  intro k hk
  obtain ⟨r, hr, rfl⟩ := List.mem_map.mp hk
  exact hn r hr

theorem Watched.removed_tokens (h : Watched s) (ht : s.timers[i]? = some t) (hl : t.live = true)
    (k : Nat) : (s.gap_tokens.remove t.missing_seq).get k = none := by
  rw [(h.clocked i t ht hl).1]
  by_cases hk : k = s.next_expected
  · rw [hk, get_remove_self]
  · rw [get_remove_of_ne _ hk, h.tokens_none hk]

theorem drop_watched (hg : p.on_gap = .DropAndLog) (h : Watched s) (ht : s.timers[i]? = some t)
    (hl : t.live = true) (sends : Nat) : Watched (p.gapElapsed (s.markDone i) t sends).2 := by
  have hro : s.queue.rows ≠ [] := h.armed.mpr ⟨i, (h.clocked i t ht hl).2⟩
  have hn : ∀ r ∈ (s.markDone i).queue.rows, (s.markDone i).gap_tokens.get r.1 = none := by
    intro r hr
    have := (h.held r hr).1
    exact h.tokens_none (by omega)
  have hh : ((s.markDone i).queue.rows.map (·.2)).isEmpty = false := by
    simpa [State.markDone] using hro
  simp only [StreamPolicy.gapElapsed, hg, drain_all_with_max_eq _ hn, hh, false_eq_true, if_false]
  apply Watched.of_empty
  · exact wrapping_succ_le _
  · rfl
  · exact h.removed_tokens ht hl
  · exact h.clocked.quiet_of_fire ht hl
  · exact h.running

theorem emit_watched (hg : p.on_gap = .EmitPartial) (h : Watched s) (ht : s.timers[i]? = some t)
    (hl : t.live = true) (sends : Nat) :
    (HeldFrom s (t.missing_seq + 1) → Watched (p.gapElapsed (s.markDone i) t sends).2) ∧
      (GapTimed (p.gapElapsed (s.markDone i) t sends).2 → HeldFrom s (t.missing_seq + 1)) := by
  have hm := (h.clocked i t ht hl).1
  have hro : s.queue.rows ≠ [] := h.armed.mpr ⟨i, (h.clocked i t ht hl).2⟩
  obtain ⟨first, hf⟩ := exists_mem_of_ne_nil _ hro
  have hlt : t.missing_seq < u64_max := by
    have := h.held first hf
    omega
  have hd := State.drain_contiguous_eq
    ((s.markDone i).set_next_expected (t.missing_seq + 1))
    (by simp only [State.set_next_expected]; omega)
    (fun r hr => by have := h.held r hr; simp only [State.set_next_expected]; omega)
    (fun k hk => h.tokens_none (by simp only [State.set_next_expected] at hk; omega))
  simp only [StreamPolicy.gapElapsed, hg, wrapping_succ_of_lt hlt, hd]
  simp only [State.set_next_expected, State.markDone]
  have hi : (splitRun (t.missing_seq + 1) s.queue.rows).2 = [] ↔
      HeldFrom s (t.missing_seq + 1) := rest_eq_nil_iff _ _
  have ha := splitRun_append (t.missing_seq + 1) s.queue.rows
  have hre := lt_of_mem_rest s.queue.sorted
    (fun r hr => by have := h.held r hr; omega : ∀ r ∈ s.queue.rows, t.missing_seq + 1 ≤ r.1)
  constructor
  · intro hh
    have hnil := hi.mpr hh
    have hru : ((splitRun (t.missing_seq + 1) s.queue.rows).1.map (·.2)).isEmpty = false := by
      rw [hnil, append_nil] at ha
      simpa [ha] using hro
    simp only [hru, false_eq_true, if_false]
    apply Watched.of_empty
    · exact Nat.le_of_lt_succ (Nat.mod_lt _ (by simp))
    · exact hnil
    · exact h.removed_tokens ht hl
    · exact h.clocked.quiet_of_fire ht hl
    · exact h.running
  · intro hti
    rw [← hi]
    by_contra hne
    obtain ⟨r, hr⟩ := exists_mem_of_ne_nil _ hne
    -- The held number above the gap is a `u64`, so the expected one did not wrap.
    have hlo := hre r hr
    have hme : r ∈ s.queue.rows := by rw [← ha]; simp [hr]
    have hhi := (h.held r hme).2
    have hn : (t.missing_seq + 1 + (splitRun (t.missing_seq + 1) s.queue.rows).1.length) %
        (u64_max + 1) = t.missing_seq + 1 + (splitRun (t.missing_seq + 1) s.queue.rows).1.length :=
      Nat.mod_eq_of_lt (by omega)
    rw [hn] at hti
    by_cases he : ((splitRun (t.missing_seq + 1) s.queue.rows).1.map (·.2)).isEmpty = true
    · simp only [he, if_true] at hti
      refine absurd hti (not_gapTimed ?_ ?_)
      · exact hne
      · exact h.tokens_none (by simp only; omega)
    · simp only [he, false_eq_true, if_false] at hti
      refine absurd hti (not_gapTimed ?_ ?_)
      · exact hne
      · exact h.removed_tokens ht hl _

theorem fire_watched (h : Watched s) (i sends : Nat) (hc : Settles p s (.fire i sends)) :
    Watched (p.fire s i sends).2 := by
  obtain hs | ⟨t, ht, hst, hm⟩ | ⟨t, ht, hl, he⟩ := p.fire_cases s i sends
  · rw [hs]
    exact h
  · have hd : t.live = false := by
      rcases hst with hd | hsh
      · exact hd
      · simp [h.running] at hsh
    rw [hm]
    refine ⟨h.bound, h.held, ?_, h.clocked.of_markDone i, h.armed, h.running⟩
    intro k j hj
    obtain ⟨hk, u, hu, hl⟩ := h.tokens k j hj
    have hij : i ≠ j := by
      intro hij
      rw [← hij, ht] at hu
      cases hu
      simp [hd] at hl
    exact ⟨hk, u, by simpa [State.markDone, getElem?_modify, hij] using hu, hl⟩
  · rw [he]
    cases hg : p.on_gap with
    | EmitPartial => exact (emit_watched hg h ht hl sends).1 (hc hg t ht hl)
    | DropAndLog => exact drop_watched hg h ht hl sends

theorem accept_watched (h : Watched s) (input : ε) (hc : Settles p s (.accept input)) :
    Watched (p.accept s input).2 := by
  cases hs : p.eval_seq input with
  | error e =>
    simp only [StreamPolicy.accept, hs]
    exact h
  | ok seq =>
    obtain ⟨he, hl⟩ := hc seq hs
    by_cases heq : seq = s.next_expected
    · subst heq
      exact (accept_expected_watched h hs).1 (he rfl)
    · by_cases hlt : seq < s.next_expected
      · simp only [StreamPolicy.accept, hs, heq, hlt, hl hlt, if_true, if_false]
        exact h
      · simp only [StreamPolicy.accept, hs, heq, hlt, if_false]
        exact hold_watched h input (by omega) (eval_seq_le hs)

theorem call_watched (h : Watched s) (c : Call ε) (hc : Settles p s c) :
    Watched (p.call s c).2 := by
  cases c with
  | accept input => exact accept_watched h input hc
  | fire i sends => exact fire_watched h i sends hc
  | set_timeout_tx => exact ⟨h.bound, h.held, h.tokens, h.clocked, h.armed, h.running⟩

theorem settles_of_gapTimed (h : Watched s) (c : Call ε) (ht : GapTimed (p.call s c).2) :
    Settles p s c := by
  cases c with
  | accept input =>
    intro seq hs
    constructor
    · intro heq
      subst heq
      exact (accept_expected_watched h hs).2 ht
    · intro hlt
      by_contra hd
      have heq : seq ≠ s.next_expected := by omega
      simp only [StreamPolicy.call, StreamPolicy.accept, hs, heq, hlt, hd, if_true,
        if_false] at ht
      have hlo := (ht (insert_ne_nil _ _ _)).1 (seq, input) (by simp)
      simp only at hlo
      omega
  | fire i sends =>
    intro hg t hti hl
    simp only [StreamPolicy.call, p.fire_of_live hti hl h.running] at ht
    exact (emit_watched hg h hti hl sends).2 ht
  | set_timeout_tx => trivial

/-! ## Whole runs -/

section

variable (p : StreamPolicy ε)

/-- The state after the first `k` calls. -/
def StreamPolicy.stateAt (calls : List (Call ε)) (k : Nat) : State ε :=
  (p.run .new_cyclic (calls.take k)).2

theorem run_snoc (s : State ε) (calls : List (Call ε)) (c : Call ε) :
    (p.run s (calls ++ [c])).2 = (p.call (p.run s calls).2 c).2 := by
  induction calls generalizing s with
  | nil => simp [StreamPolicy.run]
  | cons c' calls ih => simp [StreamPolicy.run, ih]

theorem stateAt_succ {c : Call ε} (hc : calls[k]? = some c) :
    p.stateAt calls (k + 1) = (p.call (p.stateAt calls k) c).2 := by
  unfold StreamPolicy.stateAt
  rw [take_add_one, hc]
  exact run_snoc p _ _ c

theorem stateAt_succ_of_none (hc : calls[k]? = none) :
    p.stateAt calls (k + 1) = p.stateAt calls k := by
  have hlen : calls.length ≤ k := List.getElem?_eq_none_iff.mp hc
  unfold StreamPolicy.stateAt
  rw [take_of_length_le hlen, take_of_length_le (by omega)]

end

theorem watched_of_settles (calls : List (Call ε)) (k : Nat)
    (h : ∀ j < k, ∀ c, calls[j]? = some c → Settles p (p.stateAt calls j) c) :
    Watched (p.stateAt calls k) := by
  induction k with
  | zero => exact watched_new_cyclic
  | succ k ih =>
    have hk := ih (fun j hj c hc => h j (by omega) c hc)
    cases hc : calls[k]? with
    | none =>
      rw [stateAt_succ_of_none p hc]
      exact hk
    | some c =>
      rw [stateAt_succ p hc]
      exact call_watched hk c (h k (by omega) c hc)

/-- In a run every gap in front of held exchanges is timed, in every state, exactly when
each call settles. -/
theorem gaps_are_timed (p : StreamPolicy ε) (calls : List (Call ε)) :
    (∀ k, GapTimed (p.stateAt calls k)) ↔
      ∀ k c, calls[k]? = some c → Settles p (p.stateAt calls k) c := by
  constructor
  · intro h k
    induction k using Nat.strong_induction_on with
    | _ k ih =>
      intro c hc
      have hw := watched_of_settles calls k ih
      apply settles_of_gapTimed hw
      rw [← stateAt_succ p hc]
      exact h (k + 1)
  · intro h k
    exact (watched_of_settles calls k (fun j _ => h j)).gapTimed

/-- 2 and 5 are held for 1. It comes, and then 5 is held for 3 without a timer. -/
theorem a_second_gap_is_not_timed :
    ¬ ∀ k, GapTimed ((numbered .EmitPartial true).stateAt [.accept 2, .accept 5, .accept 1] k) := by
  intro h
  obtain ⟨-, i, t, hi, -⟩ := h 3 (by decide)
  exact absurd hi (by revert i; decide)

end camel_processor.resequencer
