-- The stream resequencer of `resequencer/stream.rs`. It holds what comes early, lets a
-- run of numbers go on at once, and times the gap in front of what it holds.
-- A `u64` wraps here, as it does in the release profile.
import RustCamel.Api.Value
import RustCamel.Lib.OrdMap
import RustCamel.Lifecycle.RouteRuntime

namespace camel_processor.resequencer

open camel_api List
open camel_core.lifecycle (u64_max)

/-! ## The policy -/

inductive GapPolicy where
  | EmitPartial
  | DropAndLog
  deriving DecidableEq

inductive CapacityPolicy where
  | LogAndDrop
  | DropOldest
  deriving DecidableEq

/-- The settings of the policy. `ε` are the exchanges, and the sequence expression is
the only one that looks into them. -/
structure StreamPolicy (ε : Type) where
  sequence_expr : ε → Except String Value
  capacity : Nat
  on_gap : GapPolicy
  on_capacity_exceeded : CapacityPolicy
  dedup : Bool

/-- A spawned gap timer. `driver_tx` is what it took of the channel at its start. -/
structure GapTimer where
  missing_seq : Nat
  driver_tx : Bool
  cancelled : Bool
  done : Bool

/-- The fields that change. A token is the index of its timer. -/
structure State (ε : Type) where
  queue : OrdMap Nat ε
  next_expected : Nat
  gap_tokens : OrdMap Nat Nat
  timers : List GapTimer
  driver_tx : Bool
  shutdown_started : Bool

def State.new_cyclic {ε : Type} : State ε where
  queue := .empty
  next_expected := 1
  gap_tokens := .empty
  timers := []
  driver_tx := false
  shutdown_started := false

/-- `n + 1` on a `u64` where overflow is not checked. -/
def wrapping_succ (n : Nat) : Nat := (n + 1) % (u64_max + 1)

/-- Why `eval_seq` gives no number. -/
inductive SeqError where
  | evaluation (e : String)
  | negative (n : Number)
  | notNumber (v : Value)

section

variable {ε : Type}

def StreamPolicy.eval_seq (p : StreamPolicy ε) (exchange : ε) : Except SeqError Nat :=
  match p.sequence_expr exchange with
  | .error e => .error (.evaluation e)
  | .ok (.Number n) =>
    match n.as_u64 with
    | some seq => .ok seq
    | none => .error (.negative n)
  | .ok val => .error (.notNumber val)

namespace State

section

variable (s : State ε)

def set_next_expected (v : Nat) : State ε := { s with next_expected := v }

def has_gap_timer (seq : Nat) : Bool := s.gap_tokens.contains_key seq

/-- `token.cancel()` on the token of timer `i`. -/
def cancel (i : Nat) : State ε :=
  { s with timers := s.timers.modify i fun t => { t with cancelled := true } }

def cancel_gap_timer (seq : Nat) : State ε :=
  match s.gap_tokens.get seq with
  | some i => { s.cancel i with gap_tokens := s.gap_tokens.remove seq }
  | none => s

def cancel_all_gap_timers : State ε :=
  s.gap_tokens.rows.foldl (fun s row => s.cancel row.2) { s with gap_tokens := .empty }

def spawn_gap_timer (missing_seq : Nat) : State ε :=
  { s with
    gap_tokens := s.gap_tokens.insert missing_seq s.timers.length
    timers := s.timers ++
      [{ missing_seq, driver_tx := s.driver_tx, cancelled := false, done := false }] }

/-- A timer for the expected number is started if none is there. -/
def arm (expected : Nat) : State ε :=
  if s.has_gap_timer expected then s else s.spawn_gap_timer expected

end

/-- The loop of `drain_contiguous`. Each round takes an exchange out of the queue, so
there are at most as many rounds as the queue has exchanges. -/
def drainLoop : Nat → State ε → Nat → List ε × Nat × State ε
  | 0, s, expected => ([], expected, s)
  | rounds + 1, s, expected =>
    match s.queue.get expected with
    | none => ([], expected, s)
    | some ex =>
      let s := { s with queue := s.queue.remove expected }
      let (emitted, expected, s) :=
        drainLoop rounds (s.cancel_gap_timer expected) (wrapping_succ expected)
      (ex :: emitted, expected, s)

variable (s : State ε)

def drain_contiguous : List ε × State ε :=
  let (emitted, expected, s) := drainLoop s.queue.rows.length s s.next_expected
  (emitted, s.set_next_expected expected)

def drain_all_with_max : List ε × Nat × State ε :=
  let keys := s.queue.rows.map (·.1)
  let s' := keys.foldl (fun s k => s.cancel_gap_timer k) { s with queue := .empty }
  (s.queue.rows.map (·.2), keys.foldl max 0, s')

/-- The end of the timer task, which removes its token. -/
def removeToken (missing_seq : Nat) : State ε :=
  { s with gap_tokens := s.gap_tokens.remove missing_seq }

/-- The task of timer `i` runs to its end. -/
def markDone (i : Nat) : State ε :=
  { s with timers := s.timers.modify i fun t => { t with done := true } }

def flush : List ε × State ε :=
  let s := { s with shutdown_started := true }.cancel_all_gap_timers
  (s.queue.rows.map (·.2), { s with queue := .empty })

end State

namespace StreamPolicy

variable (p : StreamPolicy ε) (s : State ε)

/-- The arm of `accept` for a number above the expected one. -/
def hold (expected seq : Nat) (input : ε) : State ε :=
  if p.dedup && s.queue.contains_key seq then s
  else
    let inserted (s : State ε) : State ε :=
      { s with queue := s.queue.insert seq input }.arm expected
    if p.capacity ≤ s.queue.rows.length then
      match p.on_capacity_exceeded with
      | .DropOldest =>
        match s.queue.firstKey with
        | some oldest =>
          inserted ({ s with queue := s.queue.remove oldest }.cancel_gap_timer oldest)
        | none => inserted s
      | .LogAndDrop => s
    else inserted s

def accept (input : ε) : List ε × State ε :=
  match p.eval_seq input with
  | .error _ => ([], s)
  | .ok seq =>
    let expected := s.next_expected
    if seq = expected then
      let s := (s.cancel_gap_timer expected).set_next_expected (wrapping_succ seq)
      let (emitted, s) := s.drain_contiguous
      (input :: emitted, s)
    else if seq < expected then
      if p.dedup then ([], s)
      else ([], { s with queue := s.queue.insert seq input })
    else ([], p.hold s expected seq input)

/-- What timer `t` does once it is past its sleep, and `sends` is how many sends the
channel takes before it is closed. -/
def gapElapsed (t : GapTimer) (sends : Nat) : List ε × State ε :=
  match p.on_gap with
  | .EmitPartial =>
    let (emitted, s) := (s.set_next_expected (wrapping_succ t.missing_seq)).drain_contiguous
    if emitted.isEmpty then ([], s)
    else
      let sent := if t.driver_tx then emitted.take sends else []
      (sent, s.removeToken t.missing_seq)
  | .DropAndLog =>
    let (held, max_seq, s) := s.drain_all_with_max
    if held.isEmpty then ([], s)
    else ([], (s.set_next_expected (wrapping_succ max_seq)).removeToken t.missing_seq)

/-- Timer `i` comes to the end of its sleep, as one step. A timer runs once, and a
cancelled one does nothing. -/
def fire (i sends : Nat) : List ε × State ε :=
  match s.timers[i]? with
  | none => ([], s)
  | some t =>
    if t.done then ([], s)
    else
      let s := s.markDone i
      if t.cancelled || s.shutdown_started then ([], s)
      else p.gapElapsed s t sends

end StreamPolicy

/-! ## Runs -/

/-- What can happen before shutdown. -/
inductive Call (ε : Type) where
  | accept (input : ε)
  | fire (i sends : Nat)
  | set_timeout_tx

def StreamPolicy.call (p : StreamPolicy ε) (s : State ε) : Call ε → List ε × State ε
  | .accept input => p.accept s input
  | .fire i sends => p.fire s i sends
  | .set_timeout_tx => ([], { s with driver_tx := true })

/-- What the calls emit, in order, and the state after them. -/
def StreamPolicy.run (p : StreamPolicy ε) (s : State ε) : List (Call ε) → List ε × State ε
  | [] => ([], s)
  | c :: calls =>
    let (emitted, s) := p.call s c
    let (later, s) := StreamPolicy.run p s calls
    (emitted ++ later, s)

end

/-! ## Runs of numbers in the queue -/

variable {e i : Nat} {t : GapTimer} {seq : Nat}

section

variable {ε : Type}

/-- The rows from `e` on without a gap, and the rest. -/
def splitRun : Nat → List (Nat × ε) → List (Nat × ε) × List (Nat × ε)
  | _, [] => ([], [])
  | e, r :: rows =>
    if r.1 = e then (r :: (splitRun (e + 1) rows).1, (splitRun (e + 1) rows).2)
    else ([], r :: rows)

theorem splitRun_append (e : Nat) (rows : List (Nat × ε)) :
    (splitRun e rows).1 ++ (splitRun e rows).2 = rows := by
  induction rows generalizing e with
  | nil => simp [splitRun]
  | cons r rows ih =>
    by_cases hr : r.1 = e
    · simp [splitRun, hr, ih]
    · simp [splitRun, hr]

theorem splitRun_keys (e : Nat) (rows : List (Nat × ε)) :
    (splitRun e rows).1.map (·.1) = List.range' e (splitRun e rows).1.length := by
  induction rows generalizing e with
  | nil => simp [splitRun]
  | cons r rows ih =>
    by_cases hr : r.1 = e
    · simp [splitRun, hr, ih, range'_succ]
    · simp [splitRun, hr]

theorem lt_of_mem_rest {rows : List (Nat × ε)} (hs : rows.Pairwise (fun a b => a.1 < b.1))
    (hl : ∀ r ∈ rows, e ≤ r.1) :
    ∀ r ∈ (splitRun e rows).2, e + (splitRun e rows).1.length < r.1 := by
  induction rows generalizing e with
  | nil => simp [splitRun]
  | cons first rows ih =>
    obtain ⟨ha, hs⟩ := pairwise_cons.mp hs
    have hfi := hl first (by simp)
    intro r hr
    by_cases hf : first.1 = e
    · simp only [splitRun, hf, if_true] at hr ⊢
      have := ih hs (fun r hr => by have := ha r hr; omega) r hr
      simp only [length_cons]
      omega
    · simp only [splitRun, hf, if_false, length_nil] at hr ⊢
      rcases mem_cons.mp hr with rfl | hr
      · omega
      · have := ha r hr
        omega

theorem rest_eq_nil_iff (e : Nat) (rows : List (Nat × ε)) :
    (splitRun e rows).2 = [] ↔ rows.map (·.1) = List.range' e rows.length := by
  induction rows generalizing e with
  | nil => simp [splitRun]
  | cons r rows ih =>
    by_cases hr : r.1 = e
    · simp [splitRun, hr, ih, range'_succ]
    · simp [splitRun, hr, range'_succ]

theorem rows_of_least {queue : OrdMap Nat ε} {ex : ε} (hm : (e, ex) ∈ queue.rows)
    (hl : ∀ r ∈ queue.rows, e ≤ r.1) :
    ∃ rest, queue.rows = (e, ex) :: rest ∧ ∀ r ∈ rest, e < r.1 := by
  cases hr : queue.rows with
  | nil =>
    rw [hr] at hm
    simp at hm
  | cons first rest =>
    have hs := queue.sorted
    rw [hr] at hm hl hs
    obtain ⟨ha, hs⟩ := pairwise_cons.mp hs
    rcases mem_cons.mp hm with rfl | hm
    · exact ⟨rest, rfl, ha⟩
    · have hlt := ha _ hm
      have hle := hl first (by simp)
      simp only at hlt
      omega

/-- The queue without the run that starts at `e`. -/
def dropRun (queue : OrdMap Nat ε) (e : Nat) : OrdMap Nat ε where
  rows := (splitRun e queue.rows).2
  sorted := by
    have h := queue.sorted
    rw [← splitRun_append e queue.rows] at h
    exact (pairwise_append.mp h).2.1

theorem wrapping_succ_of_lt {n : Nat} (h : n < u64_max) : wrapping_succ n = n + 1 :=
  Nat.mod_eq_of_lt (by omega)

theorem wrapping_succ_le (n : Nat) : wrapping_succ n ≤ u64_max :=
  Nat.le_of_lt_succ (Nat.mod_lt _ (by simp))

theorem eval_seq_le {p : StreamPolicy ε} {exchange : ε} (h : p.eval_seq exchange = .ok seq) :
    seq ≤ u64_max := by
  unfold StreamPolicy.eval_seq at h
  split at h
  · simp at h
  · split at h
    · rename_i n m hm
      obtain rfl := Except.ok.inj h
      have := Number.as_u64_lt hm
      unfold u64_max
      omega
    · simp at h
  · simp at h

end

/-! ## What the helpers change -/

namespace State

variable {ε : Type}

section

variable (s : State ε) (k : Nat)

@[simp] theorem cancel_gap_timer_queue : (s.cancel_gap_timer k).queue = s.queue := by
  unfold cancel_gap_timer
  split <;> simp [cancel]

@[simp] theorem cancel_gap_timer_next_expected :
    (s.cancel_gap_timer k).next_expected = s.next_expected := by
  unfold cancel_gap_timer
  split <;> simp [cancel]

@[simp] theorem cancel_gap_timer_shutdown_started :
    (s.cancel_gap_timer k).shutdown_started = s.shutdown_started := by
  unfold cancel_gap_timer
  split <;> simp [cancel]

theorem cancel_gap_timer_of_none (h : s.gap_tokens.get k = none) : s.cancel_gap_timer k = s := by
  simp [cancel_gap_timer, h]

theorem cancel_gap_timer_tokens (k' : Nat) : (s.cancel_gap_timer k).gap_tokens.get k' =
    if k' = k then none else s.gap_tokens.get k' := by
  unfold cancel_gap_timer
  by_cases hk : k' = k
  · subst hk
    split <;> simp [*]
  · split <;> simp [hk, OrdMap.get_remove_of_ne]

theorem live_of_cancel_gap_timer (h : (s.cancel_gap_timer k).timers[i]? = some t)
    (hc : t.cancelled = false) : s.timers[i]? = some t ∧ s.gap_tokens.get k ≠ some i := by
  unfold cancel_gap_timer at h
  cases ht : s.gap_tokens.get k with
  | none =>
    rw [ht] at h
    exact ⟨h, by simp⟩
  | some j =>
    rw [ht] at h
    simp only [cancel, getElem?_modify] at h
    obtain ⟨t', ht', heq⟩ := Option.map_eq_some_iff.mp h
    by_cases hij : j = i
    · simp only [hij, if_true] at heq
      rw [← heq] at hc
      simp at hc
    · simp only [hij, if_false] at heq
      subst heq
      exact ⟨ht', by simpa using hij⟩

end

variable (s : State ε)

/-- The state in which `accept` starts its drain, after the expected number came. -/
def passed : State ε :=
  (s.cancel_gap_timer s.next_expected).set_next_expected (wrapping_succ s.next_expected)

@[simp] theorem passed_queue : s.passed.queue = s.queue := cancel_gap_timer_queue s s.next_expected

theorem passed_tokens (k : Nat) : s.passed.gap_tokens.get k =
    if k = s.next_expected then none else s.gap_tokens.get k :=
  cancel_gap_timer_tokens s s.next_expected k

theorem drainLoop_of_empty (rounds : Nat) (s : State ε) (e : Nat) (h : s.queue.rows = []) :
    drainLoop rounds s e = ([], e, s) := by
  cases rounds with
  | zero => rfl
  | succ rounds =>
    have hg : s.queue.get e = none := by simp [OrdMap.get_eq_none, h]
    simp [drainLoop, hg]

theorem dropRun_of_gap {queue : OrdMap Nat ε} (h : (splitRun e queue.rows).1 = []) :
    dropRun queue e = queue := by
  apply OrdMap.ext
  have ha := splitRun_append e queue.rows
  rw [h] at ha
  simpa [dropRun] using ha

/-- The loop takes the run out of the queue and moves past it. No timer runs for a number
from `e` on, so none is cancelled. -/
theorem drainLoop_eq (rounds : Nat) (s : State ε) (e : Nat) (hro : s.queue.rows.length ≤ rounds)
    (he : e ≤ u64_max) (hh : ∀ r ∈ s.queue.rows, e ≤ r.1 ∧ r.1 ≤ u64_max)
    (ht : ∀ k, e ≤ k → s.gap_tokens.get k = none) :
    drainLoop rounds s e = ((splitRun e s.queue.rows).1.map (·.2),
      (e + (splitRun e s.queue.rows).1.length) % (u64_max + 1),
      { s with queue := dropRun s.queue e }) := by
  induction rounds generalizing s e with
  | zero =>
    have hrow : s.queue.rows = [] := by simpa using hro
    have hru : (splitRun e s.queue.rows).1 = [] := by simp [hrow, splitRun]
    rw [dropRun_of_gap hru, hru, drainLoop_of_empty 0 s e hrow]
    simp [Nat.mod_eq_of_lt (by omega : e < u64_max + 1)]
  | succ rounds ih =>
    cases hg : s.queue.get e with
    | none =>
      have hru : (splitRun e s.queue.rows).1 = [] := by
        cases hrow : s.queue.rows with
        | nil => simp [splitRun]
        | cons first rest =>
          have hn := OrdMap.get_eq_none.mp hg first (by simp [hrow])
          simp [splitRun, hn]
      rw [dropRun_of_gap hru, hru]
      simp [drainLoop, hg, Nat.mod_eq_of_lt (by omega : e < u64_max + 1)]
    | some ex =>
      -- The row of `e` is the first one, since no held number is smaller.
      have hm := OrdMap.get_eq_some.mp hg
      obtain ⟨rest, hrow, hres⟩ := rows_of_least hm (fun r hr => (hh r hr).1)
      have hre : (s.queue.remove e).rows = rest := by
        simp only [OrdMap.remove, hrow]
        rw [filter_cons_of_neg (by simp), filter_eq_self.mpr]
        intro r hr
        have := hres r hr
        simp
        omega
      have hc : { s with queue := s.queue.remove e }.cancel_gap_timer e =
          { s with queue := s.queue.remove e } :=
        cancel_gap_timer_of_none _ _ (ht e (Nat.le_refl e))
      simp only [drainLoop, hg, hc]
      have hd : (dropRun s.queue e).rows = (splitRun (e + 1) rest).2 := by
        simp [dropRun, hrow, splitRun]
      by_cases hlast : e = u64_max
      · -- Nothing is held above `u64::MAX`, and the number wraps.
        have hnil : rest = [] := by
          rw [eq_nil_iff_forall_not_mem]
          intro r hr
          have hl := hres r hr
          have hle := (hh r (by simp [hrow, hr])).2
          omega
        have hq : dropRun s.queue e = s.queue.remove e := by
          apply OrdMap.ext
          rw [hd, hre, hnil]
          rfl
        rw [drainLoop_of_empty _ _ _ (by simp [hre, hnil]), hq]
        simp [hrow, hnil, splitRun, wrapping_succ]
      · have hl : e < u64_max := by omega
        rw [wrapping_succ_of_lt hl, ih { s with queue := s.queue.remove e } (e + 1)]
        · have hq : dropRun (s.queue.remove e) (e + 1) = dropRun s.queue e := by
            apply OrdMap.ext
            rw [hd]
            simp [dropRun, hre]
          simp only [hq, hre, hrow, splitRun, if_true, map_cons, length_cons]
          congr 3
          omega
        · have hlen : s.queue.rows.length = rest.length + 1 := by simp [hrow]
          simp only [hre]
          omega
        · omega
        · intro r hr
          simp only [hre] at hr
          have hl := hres r hr
          have hle := (hh r (by simp [hrow, hr])).2
          omega
        · intro k hk
          exact ht k (by omega)

theorem drain_contiguous_eq (hn : s.next_expected ≤ u64_max)
    (hh : ∀ r ∈ s.queue.rows, s.next_expected ≤ r.1 ∧ r.1 ≤ u64_max)
    (ht : ∀ k, s.next_expected ≤ k → s.gap_tokens.get k = none) :
    s.drain_contiguous = ((splitRun s.next_expected s.queue.rows).1.map (·.2),
      { s with
        queue := dropRun s.queue s.next_expected
        next_expected := (s.next_expected + (splitRun s.next_expected s.queue.rows).1.length) %
          (u64_max + 1) }) := by
  simp only [drain_contiguous, drainLoop_eq _ s _ (Nat.le_refl _) hn hh ht]
  rfl

end State

/-! ## The timers -/

/-- The timer still waits. -/
def GapTimer.live (t : GapTimer) : Bool := !t.cancelled && !t.done

section

variable {ε : Type} {s : State ε}

/-- No timer waits. -/
def Quiet (s : State ε) : Prop := ∀ (i : Nat) (t : GapTimer), s.timers[i]? = some t → t.live = false

/-- A timer that waits is for the expected number, and its token is in the map. -/
def Clocked (s : State ε) : Prop :=
  ∀ (i : Nat) (t : GapTimer), s.timers[i]? = some t → t.live = true →
    t.missing_seq = s.next_expected ∧ s.gap_tokens.get s.next_expected = some i

theorem Quiet.clocked (h : Quiet s) : Clocked s := by
  intro i t ht hl
  simp [h i t ht] at hl

theorem Clocked.quiet_of_cancel (h : Clocked s) : Quiet (s.cancel_gap_timer s.next_expected) := by
  intro i t ht
  by_contra hl
  simp only [Bool.not_eq_false] at hl
  have hc : t.cancelled = false := by
    simp only [GapTimer.live, Bool.and_eq_true, Bool.not_eq_true'] at hl
    exact hl.1
  obtain ⟨hb, hn⟩ := State.live_of_cancel_gap_timer s _ ht hc
  exact hn (h i t hb hl).2

theorem live_of_markDone {j : Nat} (h : (s.markDone i).timers[j]? = some t) (hl : t.live = true) :
    i ≠ j ∧ s.timers[j]? = some t := by
  simp only [State.markDone, getElem?_modify] at h
  obtain ⟨t', ht', heq⟩ := Option.map_eq_some_iff.mp h
  by_cases hij : i = j
  · simp only [hij, if_true] at heq
    rw [← heq] at hl
    simp [GapTimer.live] at hl
  · simp only [hij, if_false] at heq
    subst heq
    exact ⟨hij, ht'⟩

theorem Clocked.of_markDone (h : Clocked s) (i : Nat) : Clocked (s.markDone i) := by
  intro j t ht hl
  exact h j t (live_of_markDone ht hl).2 hl

theorem Clocked.quiet_of_fire (h : Clocked s) (ht : s.timers[i]? = some t) (hl : t.live = true) :
    Quiet (s.markDone i) := by
  intro j u hu
  by_contra hu'
  simp only [Bool.not_eq_false] at hu'
  obtain ⟨hij, hb⟩ := live_of_markDone hu hu'
  have hi := (h i t ht hl).2
  have hj := (h j u hb hu').2
  rw [hi] at hj
  exact hij (by simpa using hj)

variable (p : StreamPolicy ε)

theorem StreamPolicy.fire_cases (s : State ε) (i sends : Nat) :
    p.fire s i sends = ([], s) ∨
      (∃ t, s.timers[i]? = some t ∧ (t.live = false ∨ s.shutdown_started = true) ∧
        p.fire s i sends = ([], s.markDone i)) ∨
      ∃ t, s.timers[i]? = some t ∧ t.live = true ∧
        p.fire s i sends = p.gapElapsed (s.markDone i) t sends := by
  unfold fire
  cases ht : s.timers[i]? with
  | none => exact .inl rfl
  | some t =>
    simp only
    split
    · exact .inl rfl
    · rename_i hd
      split
      · rename_i hst
        refine .inr (.inl ⟨t, rfl, ?_, rfl⟩)
        rcases Bool.or_eq_true_iff.mp hst with hc | hs
        · exact .inl (by simp [GapTimer.live, hc])
        · exact .inr hs
      · rename_i hr
        simp only [Bool.or_eq_true, not_or, Bool.not_eq_true] at hr hd
        exact .inr (.inr ⟨t, rfl, by simp [GapTimer.live, hr.1, hd], rfl⟩)

theorem StreamPolicy.fire_of_live (ht : s.timers[i]? = some t) (hl : t.live = true)
    (hr : s.shutdown_started = false) (sends : Nat) :
    p.fire s i sends = p.gapElapsed (s.markDone i) t sends := by
  simp only [GapTimer.live, Bool.and_eq_true, Bool.not_eq_true'] at hl
  simp [fire, ht, hl.1, hl.2, State.markDone, hr]

/-- The arm of `accept` for an early number. No timer waits for a held number, so the
oldest one goes out without a cancel. -/
theorem StreamPolicy.hold_cases (s : State ε) (expected seq : Nat) (input : ε)
    (ht : ∀ r ∈ s.queue.rows, s.gap_tokens.get r.1 = none) :
    p.hold s expected seq input = s ∨
      ∃ queue : OrdMap Nat ε, (∀ r ∈ queue.rows, r ∈ s.queue.rows) ∧
        p.hold s expected seq input = { s with queue := queue.insert seq input }.arm expected := by
  unfold hold
  split
  · exact .inl rfl
  · simp only
    split
    · split
      · cases hf : s.queue.firstKey with
        | none => exact .inr ⟨s.queue, fun _ hr => hr, rfl⟩
        | some oldest =>
          obtain ⟨r, hr, rfl⟩ := Option.map_eq_some_iff.mp hf
          have hn : { s with queue := s.queue.remove r.1 }.gap_tokens.get r.1 = none :=
            ht r (mem_of_mem_head? hr)
          simp only
          rw [State.cancel_gap_timer_of_none _ _ hn]
          refine .inr ⟨s.queue.remove r.1, ?_, rfl⟩
          intro r' hr'
          exact ((OrdMap.mem_remove _ _ _).mp hr').1
      · exact .inl rfl
    · exact .inr ⟨s.queue, fun _ hr => hr, rfl⟩

theorem arm_clocked (h : Clocked s) : Clocked (s.arm s.next_expected) := by
  unfold State.arm
  split
  · exact h
  · rename_i hn
    intro i t ht hl
    simp only [State.spawn_gap_timer, getElem?_append] at ht
    simp only [State.spawn_gap_timer]
    split at ht
    · have hto := (h i t ht hl).2
      exact absurd ((OrdMap.contains_key_eq_true _ _).mpr ⟨i, OrdMap.get_eq_some.mp hto⟩) hn
    · rename_i hi
      rw [getElem?_singleton] at ht
      split at ht
      · cases ht
        have hlast : i = s.timers.length := by omega
        simp [hlast]
      · simp at ht

end

/-! ## The order of what is emitted -/

section

variable {ε : Type} {p : StreamPolicy ε} {s : State ε} {input : ε}

/-- The numbers of the exchanges, as the sequence expression gives them. -/
def Carries (p : StreamPolicy ε) (emitted : List ε) (seqs : List Nat) : Prop :=
  emitted.map p.eval_seq = seqs.map .ok

/-- Everything held is above the expected number, and no timer waits for another number. -/
structure Ordered (p : StreamPolicy ε) (s : State ε) : Prop where
  bound : s.next_expected ≤ u64_max
  held : ∀ r ∈ s.queue.rows, s.next_expected < r.1 ∧ r.1 < u64_max
  carried : ∀ r ∈ s.queue.rows, p.eval_seq r.2 = .ok r.1
  tokens : ∀ k, s.next_expected < k → s.gap_tokens.get k = none
  clocked : Clocked s
  below : ∀ (i : Nat) (t : GapTimer), s.timers[i]? = some t → t.live = true →
    t.missing_seq < u64_max

/-- A step from `s` emits numbers between the expected one before it and the one after it. -/
structure Emits (p : StreamPolicy ε) (s : State ε) (r : List ε × State ε) : Prop where
  ordered : Ordered p r.2
  grows : s.next_expected ≤ r.2.next_expected
  emitted : ∃ seqs, Carries p r.1 seqs ∧ seqs.Pairwise (· < ·) ∧
    ∀ n ∈ seqs, s.next_expected ≤ n ∧ n < r.2.next_expected

theorem ordered_new_cyclic : Ordered p (State.new_cyclic : State ε) where
  bound := by simp [State.new_cyclic, u64_max]
  held := by simp [State.new_cyclic]
  carried := by simp [State.new_cyclic]
  tokens := by simp [State.new_cyclic]
  clocked := by simp [State.new_cyclic, Clocked]
  below := by simp [State.new_cyclic]

theorem Emits.of_nothing {s' : State ε} (h : Ordered p s')
    (hn : s'.next_expected = s.next_expected) : Emits p s ([], s') where
  ordered := h
  grows := by simp [hn]
  emitted := ⟨[], rfl, List.Pairwise.nil, by simp⟩

theorem drain_ordered (hq : Quiet s) (hn : s.next_expected ≤ u64_max)
    (hh : ∀ r ∈ s.queue.rows, s.next_expected ≤ r.1 ∧ r.1 < u64_max)
    (hc : ∀ r ∈ s.queue.rows, p.eval_seq r.2 = .ok r.1)
    (hto : ∀ k, s.next_expected ≤ k → s.gap_tokens.get k = none) :
    ∃ n, Carries p s.drain_contiguous.1 (List.range' s.next_expected n) ∧
      s.drain_contiguous.2.next_expected = s.next_expected + n ∧
      Ordered p s.drain_contiguous.2 := by
  have ha := splitRun_append s.next_expected s.queue.rows
  have hke := splitRun_keys s.next_expected s.queue.rows
  have hre := lt_of_mem_rest s.queue.sorted (fun r hr => (hh r hr).1)
  rw [State.drain_contiguous_eq s hn (fun r hr => by have := hh r hr; omega) hto]
  generalize hru : (splitRun s.next_expected s.queue.rows).1 = drained at *
  generalize hl : (splitRun s.next_expected s.queue.rows).2 = rest at *
  -- The last number of the run is below `u64::MAX`, so nothing wraps.
  have hf : s.next_expected + drained.length ≤ u64_max := by
    by_cases hnil : drained.length = 0
    · omega
    · have hm : s.next_expected + drained.length - 1 ∈ drained.map (·.1) := by
        rw [hke, mem_range'_1]
        omega
      obtain ⟨r, hr, hrk⟩ := List.mem_map.mp hm
      have := hh r (by rw [← ha]; simp [hr])
      omega
  rw [Nat.mod_eq_of_lt (by omega)]
  refine ⟨drained.length, ?_, rfl, ?_⟩
  · unfold Carries
    rw [← hke, List.map_map, List.map_map]
    apply map_congr_left
    intro r hr
    exact hc r (by rw [← ha]; simp [hr])
  · constructor
    · simpa using hf
    · intro r hr
      simp only [dropRun, hl] at hr
      have hlt := hre r hr
      have hle := hh r (by rw [← ha]; simp [hr])
      exact ⟨hlt, hle.2⟩
    · intro r hr
      simp only [dropRun, hl] at hr
      exact hc r (by rw [← ha]; simp [hr])
    · intro k hk
      simp only at hk
      exact hto k (by omega)
    · exact Quiet.clocked hq
    · intro i t ht hli
      simp [hq i t ht] at hli

/-- The expected number is there: it goes out, and the run after it. -/
theorem accept_expected_emits (h : Ordered p s) (hs : p.eval_seq input = .ok s.next_expected)
    (hl : s.next_expected < u64_max) : Emits p s (p.accept s input) := by
  have ha : p.accept s input = (input :: s.passed.drain_contiguous.1,
      s.passed.drain_contiguous.2) := by
    simp only [StreamPolicy.accept, hs, if_true]
    rfl
  have hp : s.passed.next_expected = s.next_expected + 1 := wrapping_succ_of_lt hl
  obtain ⟨n, hc, hn, ho⟩ := drain_ordered (p := p) (s := s.passed)
    h.clocked.quiet_of_cancel (by omega)
    (fun r hr => by have := h.held r (by simpa using hr); omega)
    (fun r hr => h.carried r (by simpa using hr))
    (fun k hk => by
      rw [State.passed_tokens]
      split
      · rfl
      · exact h.tokens k (by omega))
  rw [hp] at hc hn
  rw [ha]
  refine ⟨ho, by simp only [hn]; omega, ?_⟩
  refine ⟨s.next_expected :: List.range' (s.next_expected + 1) n, ?_, ?_, ?_⟩
  · unfold Carries at hc ⊢
    simp only [map_cons, hs, hc]
  · rw [← range'_succ]
    exact pairwise_lt_range'
  · intro m hm
    rw [← range'_succ, mem_range'_1] at hm
    simp only [hn]
    omega

theorem hold_ordered (h : Ordered p s) (hse : p.eval_seq input = .ok seq) (hlt : seq < u64_max)
    (hg : s.next_expected < seq) :
    Ordered p (p.hold s s.next_expected seq input) ∧
      (p.hold s s.next_expected seq input).next_expected = s.next_expected := by
  have hn : ∀ r ∈ s.queue.rows, s.gap_tokens.get r.1 = none := by
    intro r hr
    exact h.tokens r.1 (h.held r hr).1
  obtain hs | ⟨queue, hsu, hh⟩ := p.hold_cases s s.next_expected seq input hn
  · rw [hs]
    exact ⟨h, rfl⟩
  · have hc : Clocked { s with queue := queue.insert seq input } := h.clocked
    have ha := arm_clocked hc
    rw [hh]
    have hq : ∀ r ∈ (queue.insert seq input).rows, (s.next_expected < r.1 ∧ r.1 < u64_max) ∧
        p.eval_seq r.2 = .ok r.1 := by
      intro r hr
      rcases (OrdMap.mem_insert _ _ _ _).mp hr with rfl | ⟨hr, -⟩
      · exact ⟨⟨hg, hlt⟩, hse⟩
      · exact ⟨h.held r (hsu r hr), h.carried r (hsu r hr)⟩
    unfold State.arm at ha ⊢
    split
    · exact ⟨⟨h.bound, fun r hr => (hq r hr).1, fun r hr => (hq r hr).2, h.tokens,
        hc, h.below⟩, rfl⟩
    · rename_i hno
      simp only [hno, Bool.false_eq_true, if_false] at ha
      refine ⟨⟨h.bound, fun r hr => (hq r hr).1, fun r hr => (hq r hr).2, ?_, ha, ?_⟩, rfl⟩
      · intro k hk
        simp only [State.spawn_gap_timer] at hk ⊢
        rw [OrdMap.get_insert_of_ne _ _ (by omega)]
        exact h.tokens k hk
      · intro i t ht hl
        have hm := (ha i t ht hl).1
        simp only [State.spawn_gap_timer] at hm
        omega

theorem accept_emits (hd : p.dedup = true) (h : Ordered p s)
    (hlt : ∀ seq, p.eval_seq input = .ok seq → seq < u64_max) : Emits p s (p.accept s input) := by
  cases hse : p.eval_seq input with
  | error e =>
    simp only [StreamPolicy.accept, hse]
    exact Emits.of_nothing h rfl
  | ok seq =>
    have hs := hlt seq hse
    by_cases heq : seq = s.next_expected
    · subst heq
      exact accept_expected_emits h hse hs
    · by_cases hl : seq < s.next_expected
      · simp only [StreamPolicy.accept, hse, heq, hl, hd, if_true, if_false]
        exact Emits.of_nothing h rfl
      · obtain ⟨ho, hn⟩ := hold_ordered h hse hs (by omega)
        simp only [StreamPolicy.accept, hse, heq, hl, if_false]
        exact Emits.of_nothing ho hn

theorem Ordered.removeToken (h : Ordered p s) {k : Nat} (hk : k < s.next_expected) :
    Ordered p (s.removeToken k) := by
  have hg : ∀ k', s.next_expected ≤ k' →
      (s.removeToken k).gap_tokens.get k' = s.gap_tokens.get k' := by
    intro k' hk'
    exact OrdMap.get_remove_of_ne _ (by omega)
  refine ⟨h.bound, h.held, h.carried, ?_, ?_, h.below⟩
  · intro k' hk'
    have hlt : s.next_expected < k' := hk'
    rw [hg k' (by omega)]
    exact h.tokens k' hlt
  · intro i t ht hl
    obtain ⟨hm, hto⟩ := h.clocked i t ht hl
    refine ⟨hm, ?_⟩
    rw [← hto]
    exact hg s.next_expected (Nat.le_refl _)

theorem gapElapsed_emits (hg : p.on_gap = .EmitPartial) (h : Ordered p s)
    (ht : s.timers[i]? = some t) (hl : t.live = true) (sends : Nat) :
    Emits p s (p.gapElapsed (s.markDone i) t sends) := by
  have hmi := (h.clocked i t ht hl).1
  have hlt := h.below i t ht hl
  have hs : wrapping_succ t.missing_seq = s.next_expected + 1 := by
    rw [wrapping_succ_of_lt hlt, hmi]
  simp only [StreamPolicy.gapElapsed, hg, hs]
  obtain ⟨n, hc, hn, ho⟩ := drain_ordered (p := p)
    (s := (s.markDone i).set_next_expected (s.next_expected + 1))
    (h.clocked.quiet_of_fire ht hl) (by simp only [State.set_next_expected]; omega)
    (fun r hr => by have := h.held r hr; simp only [State.set_next_expected]; omega)
    (fun r hr => h.carried r hr)
    (fun k hk => h.tokens k hk)
  generalize ((s.markDone i).set_next_expected
    (s.next_expected + 1)).drain_contiguous = r at *
  simp only [State.set_next_expected] at hn hc
  split
  · exact ⟨ho, by simp only [hn]; omega, [], rfl, List.Pairwise.nil, by simp⟩
  · refine ⟨ho.removeToken (by omega), ?_, ?_⟩
    · simp only [State.removeToken, hn]
      omega
    · -- A prefix of the run reaches the channel.
      have hse : (if t.driver_tx = true then r.1.take sends else []) =
          r.1.take (if t.driver_tx = true then sends else 0) := by
        split <;> simp
      rw [hse]
      generalize (if t.driver_tx = true then sends else 0) = count
      refine ⟨(List.range' (s.next_expected + 1) n).take count, ?_, ?_, ?_⟩
      · unfold Carries at hc ⊢
        rw [map_take, hc, map_take]
      · exact List.Pairwise.sublist (take_sublist _ _) pairwise_lt_range'
      · intro m hm
        have hm' := mem_range'_1.mp (mem_of_mem_take hm)
        simp only [State.removeToken, hn]
        omega

theorem fire_emits (hg : p.on_gap = .EmitPartial) (h : Ordered p s) (i sends : Nat) :
    Emits p s (p.fire s i sends) := by
  obtain hs | ⟨t, -, -, hm⟩ | ⟨t, ht, hl, he⟩ := p.fire_cases s i sends
  · rw [hs]
    exact Emits.of_nothing h rfl
  · rw [hm]
    refine Emits.of_nothing ⟨h.bound, h.held, h.carried, h.tokens, h.clocked.of_markDone i, ?_⟩ rfl
    intro j u hu hl
    exact h.below j u (live_of_markDone hu hl).2 hl
  · rw [he]
    exact gapElapsed_emits hg h ht hl sends

/-- An accept whose number, if it has one, is below `u64::MAX`. -/
def Call.Below (p : StreamPolicy ε) : Call ε → Prop
  | .accept input => ∀ seq, p.eval_seq input = .ok seq → seq < u64_max
  | .fire _ _ => True
  | .set_timeout_tx => True

theorem call_emits (hd : p.dedup = true) (hg : p.on_gap = .EmitPartial) (h : Ordered p s)
    (c : Call ε) (hc : c.Below p) : Emits p s (p.call s c) := by
  cases c with
  | accept input => exact accept_emits hd h hc
  | fire i sends => exact fire_emits hg h i sends
  | set_timeout_tx =>
    exact Emits.of_nothing ⟨h.bound, h.held, h.carried, h.tokens, h.clocked, h.below⟩ rfl

theorem Carries.append {xs ys : List ε} {ms ns : List Nat} (hx : Carries p xs ms)
    (hy : Carries p ys ns) : Carries p (xs ++ ys) (ms ++ ns) := by
  unfold Carries at *
  rw [map_append, map_append, hx, hy]

/-- What each step emits lies above what the steps before it emitted. -/
theorem run_emits (hd : p.dedup = true) (hga : p.on_gap = .EmitPartial) (h : Ordered p s)
    (calls : List (Call ε)) (hca : ∀ c ∈ calls, c.Below p) : Emits p s (p.run s calls) := by
  induction calls generalizing s with
  | nil => exact Emits.of_nothing h rfl
  | cons c calls ih =>
    obtain ⟨ho, hg, ms, hms, hmso, hmr⟩ := call_emits hd hga h c (hca c (by simp))
    obtain ⟨ho', hg', ns, hns, hnso, hnr⟩ := ih ho (fun c hc => hca c (by simp [hc]))
    refine ⟨ho', Nat.le_trans hg hg', ms ++ ns, hms.append hns, ?_, ?_⟩
    · rw [pairwise_append]
      refine ⟨hmso, hnso, ?_⟩
      intro m hm n hn
      have := hmr m hm
      have := hnr n hn
      omega
    · intro n hn
      simp only [StreamPolicy.run]
      rcases mem_append.mp hn with hn | hn
      · have := hmr n hn
        omega
      · have := hnr n hn
        omega

@[simp] theorem cancel_queue (s : State ε) (i : Nat) : (s.cancel i).queue = s.queue := rfl

theorem cancel_all_gap_timers_queue (s : State ε) : s.cancel_all_gap_timers.queue = s.queue := by
  unfold State.cancel_all_gap_timers
  generalize hs : { s with gap_tokens := .empty } = s'
  have hq : s'.queue = s.queue := by rw [← hs]
  rw [← hq]
  clear hs hq
  induction s.gap_tokens.rows generalizing s' with
  | nil => rfl
  | cons row rows ih => rw [foldl_cons, ih, cancel_queue]

/-- What a run and the last flush emit carries strictly increasing numbers. -/
theorem emissions_are_in_order (p : StreamPolicy ε) (hdedup : p.dedup = true)
    (hgap : p.on_gap = .EmitPartial) (calls : List (Call ε)) (hcalls : ∀ c ∈ calls, c.Below p) :
    ∃ seqs, Carries p ((p.run .new_cyclic calls).1 ++ (p.run .new_cyclic calls).2.flush.1) seqs ∧
      seqs.Pairwise (· < ·) := by
  obtain ⟨ho, -, ms, hms, hs, hr⟩ := run_emits hdedup hgap ordered_new_cyclic calls hcalls
  generalize p.run .new_cyclic calls = r at *
  have hf : r.2.flush.1 = r.2.queue.rows.map (·.2) := by
    simp only [State.flush, cancel_all_gap_timers_queue]
  rw [hf]
  refine ⟨ms ++ r.2.queue.rows.map (·.1), hms.append ?_, ?_⟩
  · unfold Carries
    rw [List.map_map, List.map_map]
    apply map_congr_left
    intro row hro
    exact ho.carried row hro
  · rw [pairwise_append]
    refine ⟨hs, pairwise_map.mpr r.2.queue.sorted, ?_⟩
    intro m hm n hn
    obtain ⟨row, hro, rfl⟩ := List.mem_map.mp hn
    have := hr m hm
    have := ho.held row hro
    omega

/-- A policy over bare numbers, as a test builds it. -/
def numbered (on_gap : GapPolicy) (dedup : Bool) : StreamPolicy UInt64 where
  sequence_expr seq := .ok (.Number (.PosInt seq))
  capacity := 100
  on_gap
  on_capacity_exceeded := .LogAndDrop
  dedup

/-- 5 and 3 are held, the timer of 1 gives up, 2 comes, and the flush gives the last one. -/
theorem emissions_of_two_gaps :
    (((numbered .EmitPartial true).run .new_cyclic
      [.set_timeout_tx, .accept 5, .accept 3, .fire 0 9, .accept 2, .accept 3]).1 = [2, 3]) ∧
    ∃ seqs, Carries (numbered .EmitPartial true)
      (((numbered .EmitPartial true).run .new_cyclic
        [.set_timeout_tx, .accept 5, .accept 3, .fire 0 9, .accept 2, .accept 3]).1 ++
      ((numbered .EmitPartial true).run .new_cyclic
        [.set_timeout_tx, .accept 5, .accept 3, .fire 0 9, .accept 2, .accept 3]).2.flush.1) seqs ∧
      seqs.Pairwise (· < ·) := by
  refine ⟨by decide, emissions_are_in_order (numbered .EmitPartial true) rfl rfl _ ?_⟩
  intro c hc
  simp only [mem_cons, not_mem_nil, or_false] at hc
  rcases hc with rfl | rfl | rfl | rfl | rfl | rfl <;>
    simp [Call.Below, StreamPolicy.eval_seq, numbered, Number.as_u64, u64_max]

end

end camel_processor.resequencer
