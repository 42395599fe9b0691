-- What becomes of the exchanges that the stream resequencer takes in: it emits
-- them, holds them, or says that it drops them. Without dedup an equal number
-- takes the place of a held exchange, and a late one is held past the capacity.
import Mathlib.Algebra.Order.Group.Multiset
import Mathlib.Tactic.Abel
import RustCamel.Processor.StreamResequencer

open List Bool OrdMap

namespace camel_processor.resequencer

/-! ## The books -/

section Books

variable {ε : Type}

/-- What can happen to the policy, the shutdown included. -/
inductive Event (ε : Type) where
  | accept (input : ε)
  | fire (i sends : Nat)
  | set_timeout_tx
  | flush

namespace StreamPolicy

variable (p : StreamPolicy ε) (s : State ε)

def event : Event ε → List ε × State ε
  | .accept input => p.accept s input
  | .fire i sends => p.fire s i sends
  | .set_timeout_tx => p.call s .set_timeout_tx
  | .flush => s.flush

/-- An exchange that has a number is taken in. -/
def taken : Event ε → List ε
  | .accept input =>
    match p.eval_seq input with
    | .ok _ => [input]
    | .error _ => []
  | _ => []

/-- What `accept` drops with a line in the log. -/
def acceptDrops (input : ε) : List ε :=
  match p.eval_seq input with
  | .error _ => []
  | .ok seq =>
    if seq = s.next_expected then []
    else if seq < s.next_expected then
      if p.dedup then [input] else []
    else if p.dedup && s.queue.contains_key seq then [input]
    else if p.capacity ≤ s.queue.rows.length then
      match p.on_capacity_exceeded with
      | .DropOldest => s.queue.rows.head?.toList.map (·.2)
      | .LogAndDrop => [input]
    else []

/-- What a timer drops with a line in the log. -/
def fireDrops (i : Nat) : List ε :=
  match s.timers[i]?, p.on_gap with
  | some t, .DropAndLog =>
    if t.live && !s.shutdown_started then s.queue.rows.map (·.2) else []
  | _, _ => []

def drops : Event ε → List ε
  | .accept input => p.acceptDrops s input
  | .fire i _ => p.fireDrops s i
  | .set_timeout_tx => []
  | .flush => []

end StreamPolicy

/-- What was taken in, emitted and dropped so far, and the state. -/
structure Books (ε : Type) where
  taken : List ε
  emitted : List ε
  dropped : List ε
  state : State ε

namespace Books

def opened : Books ε := ⟨[], [], [], .new_cyclic⟩

variable (p : StreamPolicy ε) (b : Books ε)

def enter (e : Event ε) : Books ε where
  taken := b.taken ++ p.taken e
  emitted := b.emitted ++ (p.event b.state e).1
  dropped := b.dropped ++ p.drops b.state e
  state := (p.event b.state e).2

def after (events : List (Event ε)) : Books ε := events.foldl (enter p) b

def queued : List ε := b.state.queue.rows.map (·.2)

/-- Each exchange that was taken in stands in one place, as often as it was taken in. -/
def Balanced : Prop := b.taken.Perm (b.emitted ++ b.queued ++ b.dropped)

def Bounded : Prop := b.state.queue.rows.length ≤ p.capacity

end Books

/-- Nothing is overwritten, a late exchange finds room, and a timer finds its channel open.
With dedup, an accept needs none of this. -/
def StreamPolicy.Spares (p : StreamPolicy ε) (s : State ε) : Event ε → Prop
  | .accept input => p.dedup = false → ∀ seq ∈ (p.eval_seq input).toOption,
      (seq < s.next_expected →
        s.queue.contains_key seq = false ∧ s.queue.rows.length < p.capacity) ∧
      (s.next_expected < seq → s.queue.contains_key seq = true →
        p.capacity ≤ s.queue.rows.length ∧
          (p.on_capacity_exceeded = .DropOldest → s.queue.firstKey = some seq))
  | .fire i sends => p.on_gap = .EmitPartial → ∀ t ∈ s.timers[i]?,
      t.live = true → s.shutdown_started = false → t.driver_tx = true ∧ s.queue.rows.length ≤ sends
  | .set_timeout_tx => True
  | .flush => True

instance (p : StreamPolicy ε) (s : State ε) (e : Event ε) : Decidable (p.Spares s e) := by
  cases e <;> unfold StreamPolicy.Spares
  case accept => exact instDecidableForall
  all_goals infer_instance

/-- Every event of the run spares what is held when it comes. -/
def StreamPolicy.SparesAll (p : StreamPolicy ε) : Books ε → List (Event ε) → Prop
  | _, [] => True
  | b, e :: events => p.Spares b.state e ∧ SparesAll p (b.enter p e) events

instance decidableSparesAll (p : StreamPolicy ε) :
    (b : Books ε) → (events : List (Event ε)) → Decidable (p.SparesAll b events)
  | _, [] => isTrue trivial
  | b, e :: events =>
    have := decidableSparesAll p (b.enter p e) events
    inferInstanceAs (Decidable (_ ∧ _))

end Books

/-! ## What each step moves -/

section

variable {ε : Type} {p : StreamPolicy ε} {s : State ε} {input : ε} {seq : Nat} {expected : Nat}

/-- What was held and what came in is emitted, held or dropped. -/
def Moves (s : State ε) (came : List ε) (r : List ε × State ε) (dropped : List ε) : Prop :=
  (came ++ s.queue.rows.map (·.2)).Perm (r.1 ++ r.2.queue.rows.map (·.2) ++ dropped)

/-- A step that leaves the queue and emits nothing drops what came. -/
theorem moves_of_same {s' : State ε} (came : List ε) (h : s'.queue = s.queue) :
    Moves s came ([], s') came := by
  unfold Moves
  rw [h]
  exact perm_append_comm

theorem drainLoop_perm (rounds : Nat) (s : State ε) (e : Nat) :
    (s.queue.rows.map (·.2)).Perm ((State.drainLoop rounds s e).1 ++
      (State.drainLoop rounds s e).2.2.queue.rows.map (·.2)) := by
  induction rounds generalizing s e with
  | zero => exact List.Perm.refl _
  | succ rounds ih =>
    cases hg : s.queue.get e with
    | none => simp [State.drainLoop, hg]
    | some ex =>
      have hr := ih ({ s with queue := s.queue.remove e }.cancel_gap_timer e) (wrapping_succ e)
      rw [State.cancel_gap_timer_queue] at hr
      simp only [State.drainLoop, hg, cons_append]
      have ho := (perm_remove hg).map (·.2)
      exact ho.trans (hr.cons ex)

theorem drain_contiguous_perm (s : State ε) :
    (s.queue.rows.map (·.2)).Perm (s.drain_contiguous.1 ++
      s.drain_contiguous.2.queue.rows.map (·.2)) :=
  drainLoop_perm _ s _

theorem drain_contiguous_length (s : State ε) :
    s.drain_contiguous.1.length + s.drain_contiguous.2.queue.rows.length = s.queue.rows.length := by
  have h := (drain_contiguous_perm s).length_eq
  simpa using h.symm

theorem insert_moves (queue : OrdMap Nat ε) (input : ε) (h : queue.contains_key seq = false) :
    (input :: queue.rows.map (·.2)).Perm ((queue.insert seq input).rows.map (·.2)) := by
  have hn : queue.get seq = none := by
    rw [get_eq_none]
    intro r hr hk
    have hi := (contains_key_eq_true queue seq).mpr ⟨r.2, by rw [← hk]; exact hr⟩
    simp [hi] at h
  have hp := (queue.perm_insert seq input).map (·.2)
  rw [remove_of_none hn] at hp
  exact hp.symm

@[simp] theorem arm_queue (s : State ε) (expected : Nat) : (s.arm expected).queue = s.queue := by
  unfold State.arm
  split <;> rfl

theorem rows_of_firstKey {queue : OrdMap Nat ε} {oldest : Nat}
    (h : queue.firstKey = some oldest) :
    ∃ ex rest, queue.rows = (oldest, ex) :: rest ∧ (queue.remove oldest).rows = rest := by
  obtain ⟨row, hrow, rfl⟩ := Option.map_eq_some_iff.mp h
  obtain ⟨rest, hro⟩ := head?_eq_some_iff.mp hrow
  refine ⟨row.2, rest, hro, ?_⟩
  have hs := queue.sorted
  rw [hro, pairwise_cons] at hs
  simp only [OrdMap.remove, hro]
  rw [filter_cons_of_neg (by simp), filter_eq_self.mpr]
  intro r hr
  have hl := hs.1 r hr
  simp only [decide_eq_true_eq]
  omega

theorem hold_with_room (hn : s.queue.contains_key seq = false)
    (hr : s.queue.rows.length < p.capacity) :
    Moves s [input] ([], p.hold s expected seq input) [] ∧
      (p.hold s expected seq input).queue.rows.length ≤ p.capacity := by
  have hh : (p.hold s expected seq input).queue = s.queue.insert seq input := by
    have hnot : ¬ p.capacity ≤ s.queue.rows.length := by omega
    simp [StreamPolicy.hold, hn, hnot]
  have hp := insert_moves s.queue input hn
  have hl := hp.length_eq
  simp only [length_cons, length_map] at hl
  unfold Moves
  rw [hh]
  constructor
  · simpa using hp
  · omega

section

variable (hcap : 1 ≤ p.capacity) (hbound : s.queue.rows.length ≤ p.capacity)

include hcap hbound

theorem hold_when_full (hf : p.capacity ≤ s.queue.rows.length)
    (hd : (p.dedup && s.queue.contains_key seq) = false)
    (hfi : p.on_capacity_exceeded = .DropOldest → s.queue.contains_key seq = true →
      s.queue.firstKey = some seq) :
    Moves s [input] ([], p.hold s expected seq input)
        (match p.on_capacity_exceeded with
          | .DropOldest => s.queue.rows.head?.toList.map (·.2)
          | .LogAndDrop => [input]) ∧
      (p.hold s expected seq input).queue.rows.length ≤ p.capacity := by
  simp only [StreamPolicy.hold, hd, hf, if_true, false_eq_true, if_false]
  cases hp : p.on_capacity_exceeded with
  | LogAndDrop => exact ⟨moves_of_same [input] rfl, hbound⟩
  | DropOldest =>
    cases hk : s.queue.firstKey with
    | none =>
      have he : s.queue.rows = [] := by simpa [OrdMap.firstKey] using hk
      simp only [he, length_nil] at hf
      omega
    | some oldest =>
      obtain ⟨ex, rest, hro, hr⟩ := rows_of_firstKey hk
      -- An equal number can only be the one that was dropped.
      have hn : (s.queue.remove oldest).contains_key seq = false := by
        by_contra hi
        rw [not_eq_false, contains_key_eq_true] at hi
        obtain ⟨v, hv⟩ := hi
        obtain ⟨hv, hne⟩ := (mem_remove _ _ _).mp hv
        have hs := hfi hp ((contains_key_eq_true _ _).mpr ⟨v, hv⟩)
        rw [hk] at hs
        exact hne (Option.some.inj hs).symm
      have hpe := insert_moves (s.queue.remove oldest) input hn
      have hl := hpe.length_eq
      have hq : ({ s with queue := s.queue.remove oldest }.cancel_gap_timer oldest).queue =
          s.queue.remove oldest := State.cancel_gap_timer_queue _ _
      simp only [length_cons, length_map, hr] at hl
      simp only [Moves, arm_queue, hq, hro, head?_cons, Option.toList_some,
        map_cons, map_nil, nil_append]
      rw [hro] at hbound
      constructor
      · rw [hr] at hpe
        have hsw := List.Perm.swap ex input (rest.map (·.2))
        exact (hsw.trans (hpe.cons ex)).trans (perm_append_singleton ex _).symm
      · simp only [length_cons] at hbound
        omega

theorem accept_moves (hs : p.Spares s (.accept input)) :
    Moves s (p.taken (.accept input)) (p.accept s input) (p.acceptDrops s input) ∧
      (p.accept s input).2.queue.rows.length ≤ p.capacity := by
  cases hse : p.eval_seq input with
  | error e =>
    simp only [StreamPolicy.taken, StreamPolicy.accept, StreamPolicy.acceptDrops, hse]
    exact ⟨moves_of_same [] rfl, hbound⟩
  | ok seq =>
    have hm : seq ∈ (p.eval_seq input).toOption := by simp [hse, Except.toOption]
    simp only [StreamPolicy.taken, StreamPolicy.accept, StreamPolicy.acceptDrops, hse]
    by_cases heq : seq = s.next_expected
    · -- The exchange goes on, and the run behind it.
      subst heq
      have hpe := drain_contiguous_perm s.passed
      have hl := drain_contiguous_length s.passed
      rw [State.passed_queue] at hpe hl
      simp only [if_true, Moves]
      constructor
      · simpa [State.passed] using hpe
      · change s.passed.drain_contiguous.2.queue.rows.length ≤ p.capacity
        omega
    · by_cases hla : seq < s.next_expected
      · simp only [heq, hla, if_true, if_false]
        cases hd : p.dedup with
        | true => exact ⟨moves_of_same [input] rfl, hbound⟩
        | false =>
          obtain ⟨hn, hr⟩ := (hs hd seq hm).1 hla
          have hpe := insert_moves s.queue input hn
          have hl := hpe.length_eq
          simp only [length_cons, length_map] at hl
          simp only [false_eq_true, if_false, Moves]
          constructor
          · simpa using hpe
          · omega
      · simp only [heq, hla, if_false]
        have he : s.next_expected < seq := by omega
        cases hh : (p.dedup && s.queue.contains_key seq) with
        | true =>
          simp only [if_true, StreamPolicy.hold, hh]
          exact ⟨moves_of_same [input] rfl, hbound⟩
        | false =>
          have hsa : s.queue.contains_key seq = true → p.dedup = false := by
            intro hi
            simpa [hi] using hh
          simp only [false_eq_true, if_false]
          by_cases hf : p.capacity ≤ s.queue.rows.length
          · simp only [hf, if_true]
            refine hold_when_full hcap hbound hf hh ?_
            intro hp hi
            exact ((hs (hsa hi) seq hm).2 he hi).2 hp
          · simp only [hf, if_false]
            refine hold_with_room ?_ (by omega)
            by_contra hi
            rw [not_eq_false] at hi
            exact hf ((hs (hsa hi) seq hm).2 he hi).1

end

theorem drain_all_with_max_queue (s : State ε) : s.drain_all_with_max.2.2.queue.rows = [] := by
  unfold State.drain_all_with_max
  generalize s.queue.rows.map (·.1) = keys
  generalize hs : { s with queue := .empty } = s'
  have he : s'.queue.rows = [] := by rw [← hs]; rfl
  clear hs
  induction keys generalizing s' with
  | nil => exact he
  | cons k keys ih => exact ih (s'.cancel_gap_timer k) (by simpa using he)

theorem gapElapsed_moves {t : GapTimer} {sends : Nat}
    (ho : p.on_gap = .EmitPartial → t.driver_tx = true ∧ s.queue.rows.length ≤ sends) :
    Moves s [] (p.gapElapsed s t sends)
        (match p.on_gap with
          | .EmitPartial => []
          | .DropAndLog => s.queue.rows.map (·.2)) ∧
      (p.gapElapsed s t sends).2.queue.rows.length ≤ s.queue.rows.length := by
  cases hg : p.on_gap with
  | EmitPartial =>
    obtain ⟨htx, hs⟩ := ho hg
    have hp := drain_contiguous_perm (s.set_next_expected (wrapping_succ t.missing_seq))
    have hl := drain_contiguous_length (s.set_next_expected (wrapping_succ t.missing_seq))
    simp only [StreamPolicy.gapElapsed, hg]
    generalize (s.set_next_expected (wrapping_succ t.missing_seq)).drain_contiguous = r at *
    simp only [State.set_next_expected] at hp hl
    by_cases hn : r.1.isEmpty = true
    · have hnil : r.1 = [] := by simpa using hn
      rw [hnil] at hp
      simp only [hn, if_true, Moves]
      constructor
      · simpa using hp
      · omega
    · have ht : r.1.take sends = r.1 := take_of_length_le (by omega)
      simp only [hn, htx, ht, if_true, false_eq_true, if_false, Moves, State.removeToken]
      constructor
      · simpa using hp
      · omega
  | DropAndLog =>
    have hq := drain_all_with_max_queue s
    simp only [StreamPolicy.gapElapsed, hg]
    have hh : s.drain_all_with_max.1 = s.queue.rows.map (·.2) := rfl
    split
    · simp [Moves, hq]
    · simp [Moves, hq, State.removeToken, State.set_next_expected]

theorem fire_moves {i sends : Nat} (hsp : p.Spares s (.fire i sends)) :
    Moves s [] (p.fire s i sends) (p.fireDrops s i) ∧
      (p.fire s i sends).2.queue.rows.length ≤ s.queue.rows.length := by
  have hn : p.fireDrops s i = [] →
      Moves s [] ([], s) (p.fireDrops s i) ∧ Moves s [] ([], s.markDone i) (p.fireDrops s i) := by
    intro hd
    rw [hd]
    exact ⟨moves_of_same [] rfl, moves_of_same [] rfl⟩
  cases ht : s.timers[i]? with
  | none =>
    simp only [StreamPolicy.fire, ht]
    exact ⟨(hn (by simp [StreamPolicy.fireDrops, ht])).1, Nat.le_refl _⟩
  | some t =>
    by_cases hdo : t.done = true
    · simp only [StreamPolicy.fire, ht, hdo, if_true]
      refine ⟨(hn ?_).1, Nat.le_refl _⟩
      cases hg : p.on_gap <;> simp [StreamPolicy.fireDrops, ht, hg, GapTimer.live, hdo]
    · by_cases hst : (t.cancelled || s.shutdown_started) = true
      · have hst' : (t.cancelled || (s.markDone i).shutdown_started) = true := hst
        simp only [StreamPolicy.fire, ht, hdo, hst', if_true, false_eq_true, if_false]
        refine ⟨(hn ?_).2, Nat.le_refl _⟩
        rcases or_eq_true_iff.mp hst with hc | hs
        · cases hg : p.on_gap <;> simp [StreamPolicy.fireDrops, ht, hg, GapTimer.live, hc]
        · cases hg : p.on_gap <;> simp [StreamPolicy.fireDrops, ht, hg, hs]
      · have hst' : ¬(t.cancelled || (s.markDone i).shutdown_started) = true := hst
        simp only [StreamPolicy.fire, ht, hdo, hst']
        simp only [not_eq_true, or_eq_false_iff] at hst hdo
        have hl : t.live = true := by simp [GapTimer.live, hdo, hst.1]
        have he := gapElapsed_moves (s := s.markDone i) (fun hg => hsp hg t ht hl hst.2)
        have hd : p.fireDrops s i = match p.on_gap with
            | .EmitPartial => []
            | .DropAndLog => (s.markDone i).queue.rows.map (·.2) := by
          cases hg : p.on_gap <;>
            simp [StreamPolicy.fireDrops, ht, hg, GapTimer.live, hdo, hst, State.markDone]
        rw [hd]
        exact he

theorem flush_moves :
    Moves s [] s.flush [] ∧ s.flush.2.queue.rows.length ≤ s.queue.rows.length := by
  have hq : { s with shutdown_started := true }.cancel_all_gap_timers.queue = s.queue :=
    cancel_all_gap_timers_queue _
  constructor
  · simp [Moves, State.flush, hq]
  · simp [State.flush]

theorem event_moves (e : Event ε) (hcap : 1 ≤ p.capacity)
    (hbound : s.queue.rows.length ≤ p.capacity) (hs : p.Spares s e) :
    Moves s (p.taken e) (p.event s e) (p.drops s e) ∧
      (p.event s e).2.queue.rows.length ≤ p.capacity := by
  cases e with
  | accept input => exact accept_moves hcap hbound hs
  | fire i sends =>
    obtain ⟨hm, hl⟩ := fire_moves hs
    exact ⟨hm, Nat.le_trans hl hbound⟩
  | set_timeout_tx => exact ⟨moves_of_same [] rfl, hbound⟩
  | flush =>
    obtain ⟨hm, hl⟩ := flush_moves (s := s)
    exact ⟨hm, Nat.le_trans hl hbound⟩

theorem Books.Balanced.enter {b : Books ε} (h : b.Balanced) {e : Event ε}
    (hm : Moves b.state (p.taken e) (p.event b.state e) (p.drops b.state e)) :
    (b.enter p e).Balanced := by
  unfold Books.Balanced Books.queued Books.enter at *
  unfold Moves at hm
  rw [← Multiset.coe_eq_coe] at *
  simp only [← Multiset.coe_add] at *
  rw [h]
  generalize (p.taken e : Multiset ε) = came at *
  generalize (b.state.queue.rows.map (·.2) : Multiset ε) = held at *
  calc _ = ↑b.emitted + ↑b.dropped + (came + held) := by abel
    _ = _ := by rw [hm]; abel

end

/-! ## Whole runs -/

section

variable {ε : Type} {p : StreamPolicy ε}

theorem after_balanced (hcap : 1 ≤ p.capacity) {b : Books ε} (hbound : b.Bounded p)
    (hb : b.Balanced) (events : List (Event ε)) (hs : p.SparesAll b events) :
    (b.after p events).Bounded p ∧ (b.after p events).Balanced := by
  induction events generalizing b with
  | nil => exact ⟨hbound, hb⟩
  | cons e events ih =>
    obtain ⟨hf, hr⟩ := hs
    obtain ⟨hm, hl⟩ := event_moves e hcap hbound hf
    exact ih hl (hb.enter hm) hr

/-- In a run that spares what is held, every exchange that was taken in is emitted, held or
dropped with a line in the log, and the queue stays within the capacity. -/
theorem nothing_is_lost_silently (p : StreamPolicy ε) (hcap : 1 ≤ p.capacity)
    (events : List (Event ε)) (hspares : p.SparesAll .opened events) :
    (Books.opened.after p events).Bounded p ∧ (Books.opened.after p events).Balanced :=
  after_balanced hcap (Nat.zero_le _) (by exact List.Perm.refl []) events hspares

/-- A run without dedup: 3 and 2 are held, the timer of 1 lets them go, and 1 comes late. -/
theorem late_number_finds_room :
    (numbered .EmitPartial false).SparesAll .opened
        [.set_timeout_tx, .accept 3, .accept 2, .fire 0 9, .accept 1, .flush] ∧
      (Books.opened.after (numbered .EmitPartial false)
        [.set_timeout_tx, .accept 3, .accept 2, .fire 0 9, .accept 1, .flush]).Balanced := by
  have hs : (numbered .EmitPartial false).SparesAll .opened
      [.set_timeout_tx, .accept 3, .accept 2, .fire 0 9, .accept 1, .flush] := by decide
  exact ⟨hs, (nothing_is_lost_silently _ (by decide) _ hs).2⟩

/-- The policy of the tests with room for one exchange. -/
def narrow (on_gap : GapPolicy) (dedup : Bool) : StreamPolicy UInt64 :=
  { numbered on_gap dedup with capacity := 1 }

/-- Without dedup, the second 2 takes the place of the first one. After 1 and 2 went on, a
late 1 and a late 2 are held where there is room for one. -/
theorem equal_and_late_numbers_break_the_books :
    ¬(Books.opened.after (numbered .EmitPartial false) [.accept 2, .accept 2]).Balanced ∧
      ¬(Books.opened.after (narrow .EmitPartial false)
        [.accept 1, .accept 2, .accept 1, .accept 2]).Bounded (narrow .EmitPartial false) := by
  unfold Books.Balanced Books.Bounded
  decide

end

end camel_processor.resequencer
