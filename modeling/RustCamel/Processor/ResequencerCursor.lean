-- The cursor of the stream resequencer. It moves up only, and passes every number that goes
-- out, unless the number is the last one a `u64` has.
import RustCamel.Processor.GapTimers
import RustCamel.Processor.StreamConservation

open List Option OrdMap

namespace camel_processor.resequencer

open camel_core.lifecycle (u64_max)

variable {e seq : Nat} {t : GapTimer} {i : Nat}

section

variable {ε : Type} {p : StreamPolicy ε} {s s' : State ε} {input : ε}

/-! ## What is said of the cursor -/

def State.holds (s : State ε) (n : Nat) : Prop := s.queue.get n ≠ none

section

variable (p : StreamPolicy ε)

/-- The number that comes with a call. -/
def Call.brings : Call ε → Nat → Prop
  | .accept input, n => p.eval_seq input = .ok n
  | .fire _ _, _ => False
  | .set_timeout_tx, _ => False

section

variable (s : State ε)

/-- A number was held, or comes, and is not held afterwards: it was emitted or dropped. -/
def Leaves (c : Call ε) (n : Nat) : Prop := (s.holds n ∨ c.brings p n) ∧ ¬(p.call s c).2.holds n

/-- A number comes that is above the expected one. What leaves then leaves for want of room. -/
def Early (c : Call ε) : Prop := ∃ seq, c.brings p seq ∧ s.next_expected < seq

/-- Not every number from `e` to `u64::MAX` is held. -/
def State.broken (e : Nat) : Prop := ∃ n, e ≤ n ∧ n ≤ u64_max ∧ s.queue.get n = none

/-- The call does not let `u64::MAX` go: the run behind the expected number ends before it, and
the timer that drops what is held finds it not held. -/
def Fits : Call ε → Prop
  | .accept input => p.eval_seq input = .ok s.next_expected →
      s.next_expected < u64_max ∧ s.broken (s.next_expected + 1)
  | .fire i _ => ∀ t, s.timers[i]? = some t → t.live = true →
      match p.on_gap with
      | .EmitPartial => t.missing_seq < u64_max ∧ s.broken (t.missing_seq + 1)
      | .DropAndLog => s.queue.get u64_max = none
  | .set_timeout_tx => True

/-- An early number finds room, or only what is behind the cursor makes room for it. -/
def Roomy (c : Call ε) : Prop :=
  ∀ seq, c.brings p seq → s.next_expected < seq →
    s.queue.rows.length < p.capacity ∨ (p.dedup = true ∧ s.holds seq) ∨
      match p.on_capacity_exceeded with
      | .LogAndDrop => s.holds seq
      | .DropOldest => ∀ k, s.queue.firstKey = some k → k < s.next_expected ∨ k = seq

/-! ## What the steps leave -/

/-- Timers end and exchanges go out, and nothing comes. -/
structure Fades (s s' : State ε) : Prop where
  rows : ∀ r ∈ s'.queue.rows, r ∈ s.queue.rows
  timers : ∀ (i : Nat) (t : GapTimer), s'.timers[i]? = some t → t.live = true →
    s.timers[i]? = some t
  running : s'.shutdown_started = s.shutdown_started

theorem Fades.refl : Fades s s := ⟨fun _ hr => hr, fun _ _ ht _ => ht, rfl⟩

end

theorem Fades.trans {s'' : State ε} (h : Fades s s') (h' : Fades s' s'') : Fades s s'' :=
  ⟨fun r hr => h.rows r (h'.rows r hr),
    fun i t ht hl => h.timers i t (h'.timers i t ht hl) hl,
    h'.running.trans h.running⟩

theorem Fades.cancel_gap_timer (s : State ε) (k : Nat) : Fades s (s.cancel_gap_timer k) where
  rows := by simp
  timers := by
    intro i t ht hl
    simp only [GapTimer.live, Bool.and_eq_true, Bool.not_eq_true'] at hl
    exact (State.live_of_cancel_gap_timer s k ht hl.1).1
  running := by simp

theorem Fades.remove (s : State ε) (k : Nat) : Fades s { s with queue := s.queue.remove k } :=
  ⟨fun _ hr => ((mem_remove _ _ _).mp hr).1, fun _ _ ht _ => ht, rfl⟩

theorem Fades.quiet (h : Fades s s') (hq : Quiet s) : Quiet s' := by
  intro i t ht
  by_contra hl
  have hl' : t.live = true := by simpa using hl
  exact absurd (hq i t (h.timers i t ht hl')) hl

theorem Fades.get_none (h : Fades s s') {k : Nat} (hn : s.queue.get k = none) :
    s'.queue.get k = none := by
  rw [get_eq_none] at hn ⊢
  intro r hr
  exact hn r (h.rows r hr)

theorem Clocked.cancel_gap_timer (h : Clocked s) (k : Nat) : Clocked (s.cancel_gap_timer k) := by
  intro i t ht hl
  have hl' := hl
  simp only [GapTimer.live, Bool.and_eq_true, Bool.not_eq_true'] at hl'
  obtain ⟨hb, hn⟩ := State.live_of_cancel_gap_timer s k ht hl'.1
  obtain ⟨hm, hto⟩ := h i t hb hl
  rw [State.cancel_gap_timer_next_expected, State.cancel_gap_timer_tokens]
  refine ⟨hm, ?_⟩
  split
  · rename_i hk
    rw [hk] at hto
    exact absurd hto hn
  · exact hto

/-! ## The drain -/

variable (rounds : Nat)

theorem drainLoop_round {ex : ε} (hg : s.queue.get e = some ex) :
    (State.drainLoop (rounds + 1) s e).2 =
      (State.drainLoop rounds ({ s with queue := s.queue.remove e }.cancel_gap_timer e)
        (wrapping_succ e)).2 := by
  simp only [State.drainLoop, hg]

theorem drainLoop_stops (hg : s.queue.get e = none) :
    State.drainLoop rounds s e = ([], e, s) := by
  cases rounds with
  | zero => rfl
  | succ rounds => simp only [State.drainLoop, hg]

section

variable (s : State ε)

theorem drainLoop_fades (e : Nat) : Fades s (State.drainLoop rounds s e).2.2 := by
  induction rounds generalizing s e with
  | zero => exact .refl s
  | succ rounds ih =>
    cases hg : s.queue.get e with
    | none =>
      rw [drainLoop_stops _ hg]
      exact .refl s
    | some ex =>
      rw [drainLoop_round rounds hg]
      exact ((Fades.remove s e).trans (.cancel_gap_timer _ e)).trans (ih _ _)

theorem drainLoop_le (he : e ≤ u64_max) : (State.drainLoop rounds s e).2.1 ≤ u64_max := by
  induction rounds generalizing s e with
  | zero => exact he
  | succ rounds ih =>
    cases hg : s.queue.get e with
    | none =>
      rw [drainLoop_stops _ hg]
      exact he
    | some ex =>
      rw [drainLoop_round rounds hg]
      exact ih _ (wrapping_succ_le e)

theorem get_next_round (e k : Nat) :
    ({ s with queue := s.queue.remove e }.cancel_gap_timer e).queue.get k =
      if k = e then none else s.queue.get k := by
  rw [State.cancel_gap_timer_queue]
  by_cases hk : k = e
  · simp [hk]
  · rw [if_neg hk]
    exact get_remove_of_ne _ hk

/-- A run that ends takes the cursor past what it lets go, and no further than its end. -/
theorem drainLoop_passes (e n : Nat) (he : e ≤ n) (hn : n ≤ u64_max)
    (hno : s.queue.get n = none) :
    e ≤ (State.drainLoop rounds s e).2.1 ∧ (State.drainLoop rounds s e).2.1 ≤ n ∧
      ∀ k, (State.drainLoop rounds s e).2.2.queue.get k = none →
        s.queue.get k = none ∨ k < (State.drainLoop rounds s e).2.1 := by
  induction rounds generalizing s e with
  | zero => exact ⟨Nat.le_refl e, he, fun _ hk => .inl hk⟩
  | succ rounds ih =>
    cases hg : s.queue.get e with
    | none =>
      rw [drainLoop_stops _ hg]
      exact ⟨Nat.le_refl e, he, fun _ hk => .inl hk⟩
    | some ex =>
      have hne : n ≠ e := by
        rintro rfl
        rw [hno] at hg
        cases hg
      rw [drainLoop_round rounds hg, wrapping_succ_of_lt (by omega)]
      obtain ⟨hle, hlast, hl⟩ := ih ({ s with queue := s.queue.remove e }.cancel_gap_timer e)
        (e + 1) (by omega) (by rw [get_next_round, if_neg hne]; exact hno)
      refine ⟨by omega, hlast, ?_⟩
      intro k hk
      rcases hl k hk with hold | hlt
      · rw [get_next_round] at hold
        split at hold
        · right
          omega
        · exact .inl hold
      · exact .inr hlt

theorem drainLoop_absent (e : Nat) (hr : s.queue.rows.length ≤ rounds) :
    (State.drainLoop rounds s e).2.2.queue.get (State.drainLoop rounds s e).2.1 = none := by
  induction rounds generalizing s e with
  | zero =>
    have hro : s.queue.rows = [] := by simpa using hr
    simp [State.drainLoop, get_eq_none, hro]
  | succ rounds ih =>
    cases hg : s.queue.get e with
    | none =>
      rw [drainLoop_stops _ hg]
      exact hg
    | some ex =>
      rw [drainLoop_round rounds hg]
      apply ih
      have := (perm_remove hg).length_eq
      rw [State.cancel_gap_timer_queue]
      simp only [length_cons] at this ⊢
      omega

theorem drain_contiguous_fades : Fades s s.drain_contiguous.2 :=
  have h := drainLoop_fades s.queue.rows.length s s.next_expected
  ⟨h.rows, h.timers, h.running⟩

theorem drain_contiguous_passes (hb : s.broken s.next_expected) :
    s.next_expected ≤ s.drain_contiguous.2.next_expected ∧
      ∀ k, s.drain_contiguous.2.queue.get k = none →
        s.queue.get k = none ∨ k < s.drain_contiguous.2.next_expected := by
  obtain ⟨n, he, hn, hno⟩ := hb
  obtain ⟨hle, -, hl⟩ := drainLoop_passes s.queue.rows.length s s.next_expected n he hn hno
  exact ⟨hle, hl⟩

end

/-! ## One step -/

/-- What holds as long as the cursor has not wrapped. A timer that waits is for the expected
number, with a higher one held behind it. -/
structure Steady (s : State ε) : Prop where
  bound : s.next_expected ≤ u64_max
  keys : ∀ r ∈ s.queue.rows, r.1 ≤ u64_max
  absent : s.queue.get s.next_expected = none
  clocked : Clocked s
  awaited : ∀ (i : Nat) (t : GapTimer), s.timers[i]? = some t → t.live = true →
    ∃ r ∈ s.queue.rows, s.next_expected < r.1
  running : s.shutdown_started = false

theorem steady_new_cyclic : Steady (State.new_cyclic : State ε) where
  bound := by simp [State.new_cyclic, u64_max]
  keys := by simp [State.new_cyclic]
  absent := by simp [State.new_cyclic]
  clocked := by simp [State.new_cyclic, Clocked]
  awaited := by simp [State.new_cyclic]
  running := rfl

theorem Steady.of_quiet (h : Steady s) (hf : Fades s s') (hq : Quiet s')
    (hbound : s'.next_expected ≤ u64_max) (ha : s'.queue.get s'.next_expected = none) :
    Steady s' where
  bound := hbound
  keys := fun r hr => h.keys r (hf.rows r hr)
  absent := ha
  clocked := hq.clocked
  awaited := by
    intro i t ht hl
    simp [hq i t ht] at hl
  running := hf.running.trans h.running

theorem Steady.drained (h : Steady s) {s₁ : State ε} (hf : Fades s s₁) (hq : Quiet s₁)
    (hn : s₁.next_expected ≤ u64_max) : Steady s₁.drain_contiguous.2 := by
  have hd := drain_contiguous_fades s₁
  refine h.of_quiet (hf.trans hd) (hd.quiet hq) ?_ ?_
  · exact drainLoop_le _ _ hn
  · exact drainLoop_absent _ _ _ le_rfl

/-- What a step that keeps the cursor in its range does. -/
structure Steps (p : StreamPolicy ε) (s : State ε) (c : Call ε) : Prop where
  steady : Steady (p.call s c).2
  grows : s.next_expected ≤ (p.call s c).2.next_expected
  below : ∀ n, Leaves p s c n → ¬Early p s c → n < (p.call s c).2.next_expected

theorem accept_expected (hs : p.eval_seq input = .ok s.next_expected) :
    (p.accept s input).2 = s.passed.drain_contiguous.2 := by
  simp only [StreamPolicy.accept, hs, if_true]
  rfl

end

theorem passed_fades (s : State ε) : Fades s s.passed :=
  have h := Fades.cancel_gap_timer s s.next_expected
  ⟨h.rows, h.timers, h.running⟩

theorem accept_expected_steps (h : Steady s) (hse : p.eval_seq input = .ok s.next_expected)
    (hf : Fits p s (.accept input)) : Steps p s (.accept input) := by
  obtain ⟨hlt, hb⟩ := hf hse
  have hn : s.passed.next_expected = s.next_expected + 1 := wrapping_succ_of_lt hlt
  have hc : (p.call s (.accept input)).2 = s.passed.drain_contiguous.2 := accept_expected p hse
  have hm : s.passed.broken s.passed.next_expected := by
    unfold State.broken at hb ⊢
    rwa [State.passed_queue, hn]
  obtain ⟨hle, hl⟩ := drain_contiguous_passes s.passed hm
  refine ⟨?_, ?_, ?_⟩
  · rw [hc]
    exact h.drained (passed_fades s) h.clocked.quiet_of_cancel (by omega)
  · rw [hc]
    omega
  · rintro n ⟨hca, hg⟩ -
    unfold State.holds at hg
    rw [hc] at hg ⊢
    rcases hca with hh | hbr
    · rcases hl n (by simpa using hg) with hno | hlt
      · rw [State.passed_queue] at hno
        exact absurd hno hh
      · exact hlt
    · have hs : Except.ok s.next_expected = Except.ok n := hse.symm.trans hbr
      injection hs with hs
      omega

theorem markDone_fades (s : State ε) (i : Nat) : Fades s (s.markDone i) :=
  ⟨fun _ hr => hr, fun _ _ ht hl => (live_of_markDone ht hl).2, rfl⟩

theorem removeToken_fades (s : State ε) (k : Nat) : Fades s (s.removeToken k) :=
  ⟨fun _ hr => hr, fun _ _ ht _ => ht, rfl⟩

theorem emit_elapsed (hg : p.on_gap = .EmitPartial) (s : State ε) (t : GapTimer) (sends : Nat) :
    let drained := (s.set_next_expected (wrapping_succ t.missing_seq)).drain_contiguous.2
    Fades drained (p.gapElapsed s t sends).2 ∧ (p.gapElapsed s t sends).2.queue = drained.queue ∧
      (p.gapElapsed s t sends).2.next_expected = drained.next_expected := by
  simp only [StreamPolicy.gapElapsed, hg]
  split
  · exact ⟨.refl _, rfl, rfl⟩
  · exact ⟨removeToken_fades _ _, rfl, rfl⟩

/-- The cursor at the place behind the number of the timer. -/
def State.skipped (s : State ε) (i : Nat) (t : GapTimer) : State ε :=
  (s.markDone i).set_next_expected (wrapping_succ t.missing_seq)

theorem skipped_fades (s : State ε) (i : Nat) (t : GapTimer) : Fades s (s.skipped i t) :=
  have h := markDone_fades s i
  ⟨h.rows, h.timers, h.running⟩

theorem emit_steps (h : Steady s) (hga : p.on_gap = .EmitPartial) (ht : s.timers[i]? = some t)
    (hl : t.live = true) (sends : Nat) (hfi : Fits p s (.fire i sends)) :
    Steps p s (.fire i sends) := by
  have hm := (h.clocked i t ht hl).1
  have hst := hfi t ht hl
  rw [hga] at hst
  obtain ⟨hlt, hb⟩ := hst
  have hc : p.call s (.fire i sends) = p.gapElapsed (s.markDone i) t sends :=
    p.fire_of_live ht hl h.running sends
  have hsu : (s.skipped i t).next_expected = s.next_expected + 1 := by
    rw [← hm]
    exact wrapping_succ_of_lt hlt
  have hq : Quiet (s.skipped i t) := h.clocked.quiet_of_fire ht hl
  have hmi : (s.skipped i t).broken (s.skipped i t).next_expected := by
    rw [hsu, ← hm]
    exact hb
  obtain ⟨hle, hlef⟩ := drain_contiguous_passes _ hmi
  have hs := h.drained (skipped_fades s i t) hq (by omega)
  obtain ⟨hf, hqu, hn⟩ := emit_elapsed hga (s.markDone i) t sends
  rw [← hc] at hf hqu hn
  have hd : Quiet (s.skipped i t).drain_contiguous.2 := (drain_contiguous_fades _).quiet hq
  refine ⟨?_, ?_, ?_⟩
  · refine hs.of_quiet hf (hf.quiet hd) ?_ ?_
    · rw [hn]
      exact hs.bound
    · rw [hqu, hn]
      exact hs.absent
  · rw [hn]
    exact Nat.le_trans (by omega) hle
  · rintro n ⟨hca, hg⟩ -
    unfold State.holds at hg
    rw [hqu] at hg
    rw [hn]
    rcases hlef n (not_not.mp hg) with hno | hlt
    · exact absurd hno (hca.resolve_right id)
    · exact hlt

/-! ## The timer that drops -/

theorem foldl_max_spec (keys : List Nat) (a : Nat) :
    a ≤ keys.foldl max a ∧ (∀ k ∈ keys, k ≤ keys.foldl max a) ∧
      (keys.foldl max a = a ∨ keys.foldl max a ∈ keys) := by
  induction keys generalizing a with
  | nil => simp
  | cons key keys ih =>
    obtain ⟨hle, ha, hf⟩ := ih (max a key)
    simp only [foldl_cons, mem_cons, forall_eq_or_imp]
    refine ⟨by omega, ⟨by omega, ha⟩, ?_⟩
    rcases hf with heq | hm
    · rw [heq]
      omega
    · exact .inr (.inr hm)

theorem cancel_all_fades (keys : List Nat) (s : State ε) :
    Fades s (keys.foldl (fun s k => s.cancel_gap_timer k) s) ∧
      (keys.foldl (fun s k => s.cancel_gap_timer k) s).next_expected = s.next_expected := by
  induction keys generalizing s with
  | nil => exact ⟨.refl s, rfl⟩
  | cons key keys ih =>
    obtain ⟨hf, hn⟩ := ih (s.cancel_gap_timer key)
    exact ⟨(Fades.cancel_gap_timer s key).trans hf, by
      rw [foldl_cons, hn, State.cancel_gap_timer_next_expected]⟩

/-- What a timer that drops leaves: nothing is held, and the cursor is behind the highest number
that was. -/
theorem drop_elapsed (hg : p.on_gap = .DropAndLog) (s : State ε) (t : GapTimer) (sends : Nat)
    (hro : s.queue.rows ≠ []) :
    Fades s (p.gapElapsed s t sends).2 ∧ (p.gapElapsed s t sends).2.queue.rows = [] ∧
      (p.gapElapsed s t sends).2.next_expected =
        wrapping_succ ((s.queue.rows.map (·.1)).foldl max 0) := by
  have hh : s.drain_all_with_max.1.isEmpty = false := by
    simp [State.drain_all_with_max, hro]
  have hd : Fades s s.drain_all_with_max.2.2 := by
    have he : Fades s { s with queue := .empty } :=
      ⟨fun _ hr => absurd hr not_mem_nil, fun _ _ ht _ => ht, rfl⟩
    exact he.trans (cancel_all_fades _ _).1
  simp only [StreamPolicy.gapElapsed, hg, hh, Bool.false_eq_true, if_false]
  exact ⟨⟨hd.rows, hd.timers, hd.running⟩, drain_all_with_max_queue s, rfl⟩

theorem drop_steps (h : Steady s) (hg : p.on_gap = .DropAndLog) (ht : s.timers[i]? = some t)
    (hl : t.live = true) (sends : Nat) (hfi : Fits p s (.fire i sends)) :
    Steps p s (.fire i sends) := by
  have hs := hfi t ht hl
  rw [hg] at hs
  have hc : p.call s (.fire i sends) = p.gapElapsed (s.markDone i) t sends :=
    p.fire_of_live ht hl h.running sends
  obtain ⟨r, hr, hlt⟩ := h.awaited i t ht hl
  obtain ⟨hf, hro, hn⟩ := drop_elapsed hg (s.markDone i) t sends
    (ne_nil_of_mem hr)
  rw [← hc] at hf hro hn
  obtain ⟨-, ha, hfr⟩ := foldl_max_spec (s.queue.rows.map (·.1)) 0
  have hr' := ha r.1 (mem_map_of_mem hr)
  -- the highest number is held, so it is not `u64::MAX`
  have hm : (s.queue.rows.map (·.1)).foldl max 0 < u64_max := by
    rcases hfr with hzero | hme
    · have := h.keys r hr
      omega
    · obtain ⟨row, hrow, heq⟩ := mem_map.mp hme
      have hle := h.keys row hrow
      have hne := get_eq_none.mp hs row hrow
      omega
  have hn : (p.call s (.fire i sends)).2.next_expected =
      (s.queue.rows.map (·.1)).foldl max 0 + 1 := hn.trans (wrapping_succ_of_lt hm)
  have hq := hf.quiet (h.clocked.quiet_of_fire ht hl)
  refine ⟨?_, by omega, ?_⟩
  · refine h.of_quiet ((markDone_fades s i).trans hf) hq (by omega) ?_
    simp [get_eq_none, hro]
  · rintro n ⟨hca, -⟩ -
    obtain ⟨ex, hge⟩ := ne_none_iff_exists'.mp (hca.resolve_right id)
    have := ha n (mem_map_of_mem (f := Prod.fst) (get_eq_some.mp hge))
    omega

theorem fire_steps (h : Steady s) (i sends : Nat) (hf : Fits p s (.fire i sends)) :
    Steps p s (.fire i sends) := by
  obtain hs | ⟨t, ht, hst, hm⟩ | ⟨t, ht, hl, -⟩ := p.fire_cases s i sends
  · have hc : p.call s (.fire i sends) = ([], s) := hs
    refine ⟨by rw [hc]; exact h, by rw [hc], ?_⟩
    rintro n ⟨hca, hg⟩ -
    rw [hc] at hg
    exact absurd (hca.resolve_right id) hg
  · have hc : p.call s (.fire i sends) = ([], s.markDone i) := hm
    refine ⟨?_, by rw [hc]; exact Nat.le_refl _, ?_⟩
    · rw [hc]
      refine ⟨h.bound, h.keys, h.absent, h.clocked.of_markDone i, ?_, h.running⟩
      intro j u hu hl
      exact h.awaited j u (live_of_markDone hu hl).2 hl
    · rintro n ⟨hca, hg⟩ -
      rw [hc] at hg
      exact absurd (hca.resolve_right id) hg
  · cases hga : p.on_gap with
    | EmitPartial => exact emit_steps h hga ht hl sends hf
    | DropAndLog => exact drop_steps h hga ht hl sends hf

/-! ## A number that comes early -/

/-- A number above the cursor is held, and the timer of the cursor is armed. -/
theorem Steady.insert (h : Steady s) {s₁ : State ε} (hf : Fades s s₁)
    (hn : s₁.next_expected = s.next_expected) (hc : Clocked s₁) (input : ε)
    (hlt : s.next_expected < seq) (hle : seq ≤ u64_max) :
    Steady ({ s₁ with queue := s₁.queue.insert seq input }.arm s.next_expected) := by
  have ha : Clocked ({ s₁ with queue := s₁.queue.insert seq input }.arm s.next_expected) := by
    rw [← hn]
    exact arm_clocked hc
  have hru : s₁.shutdown_started = false := hf.running.trans h.running
  have hs : ({ s₁ with queue := s₁.queue.insert seq input }.arm s.next_expected).next_expected =
      s.next_expected ∧
      ({ s₁ with queue := s₁.queue.insert seq input }.arm s.next_expected).shutdown_started =
        false := by
    unfold State.arm
    split
    all_goals exact ⟨hn, hru⟩
  refine ⟨?_, ?_, ?_, ha, ?_, hs.2⟩
  · rw [hs.1]
    exact h.bound
  · intro r hr
    rw [arm_queue] at hr
    rcases (mem_insert _ _ _ _).mp hr with rfl | ⟨hold, -⟩
    · exact hle
    · exact h.keys r (hf.rows r hold)
  · rw [hs.1, arm_queue, get_insert_of_ne _ _ (by omega)]
    exact hf.get_none h.absent
  · intro i t ht hl
    refine ⟨(seq, input), ?_, ?_⟩
    · rw [arm_queue]
      exact (mem_insert _ _ _ _).mpr (.inl rfl)
    · rw [hs.1]
      exact hlt

theorem hold_eq (p : StreamPolicy ε) (s : State ε) (seq : Nat) (input : ε) :
    p.hold s s.next_expected seq input =
      if p.dedup && s.queue.contains_key seq then s
      else if p.capacity ≤ s.queue.rows.length then
        match p.on_capacity_exceeded with
        | .LogAndDrop => s
        | .DropOldest =>
          match s.queue.firstKey with
          | some oldest =>
            let s₁ := { s with queue := s.queue.remove oldest }.cancel_gap_timer oldest
            { s₁ with queue := s₁.queue.insert seq input }.arm s.next_expected
          | none => { s with queue := s.queue.insert seq input }.arm s.next_expected
      else { s with queue := s.queue.insert seq input }.arm s.next_expected := by
  unfold StreamPolicy.hold
  split
  · rfl
  · split
    · cases p.on_capacity_exceeded <;> rfl
    · rfl

theorem removed_fades (s : State ε) (k : Nat) :
    Fades s ({ s with queue := s.queue.remove k }.cancel_gap_timer k) :=
  (Fades.remove s k).trans (.cancel_gap_timer _ k)

theorem hold_steady (h : Steady s) (input : ε) (hl : s.next_expected < seq) (hle : seq ≤ u64_max) :
    Steady (p.hold s s.next_expected seq input) := by
  rw [hold_eq]
  split
  · exact h
  · split
    · split
      · exact h
      · split
        · rename_i oldest _
          have hc : Clocked { s with queue := s.queue.remove oldest } := h.clocked
          exact h.insert (removed_fades s oldest) (by simp) (hc.cancel_gap_timer oldest)
            input hl hle
        · exact h.insert (.refl s) rfl h.clocked input hl hle
    · exact h.insert (.refl s) rfl h.clocked input hl hle

theorem hold_next (p : StreamPolicy ε) (s : State ε) (seq : Nat) (input : ε) :
    (p.hold s s.next_expected seq input).next_expected = s.next_expected := by
  have ha : ∀ (s : State ε) (e : Nat), (s.arm e).next_expected = s.next_expected := by
    intro s e
    unfold State.arm
    split <;> rfl
  rw [hold_eq]
  split
  · rfl
  · split
    · split
      · rfl
      · split
        · rw [ha]
          simp
        · rw [ha]
    · rw [ha]

theorem holds_insert {queue : OrdMap Nat ε} {n : Nat} (hc : queue.get n ≠ none ∨ n = seq) :
    (queue.insert seq input).get n ≠ none := by
  by_cases hn : n = seq
  · simp [hn]
  · rw [get_insert_of_ne _ _ hn]
    exact hc.resolve_right hn

/-- What leaves when an early number comes is behind the cursor exactly where there is room. -/
theorem hold_leaves (p : StreamPolicy ε) (s : State ε) (hse : p.eval_seq input = .ok seq)
    (hlt : s.next_expected < seq) :
    (∀ n, (s.holds n ∨ n = seq) → ¬(p.hold s s.next_expected seq input).holds n →
      n < s.next_expected) ↔ Roomy p s (.accept input) := by
  have hr : Roomy p s (.accept input) ↔
      s.queue.rows.length < p.capacity ∨ (p.dedup = true ∧ s.holds seq) ∨
        match p.on_capacity_exceeded with
        | .LogAndDrop => s.holds seq
        | .DropOldest => ∀ k, s.queue.firstKey = some k → k < s.next_expected ∨ k = seq := by
    constructor
    · intro h
      exact h seq hse hlt
    · rintro h seq' hb -
      have hs : Except.ok seq = Except.ok seq' := hse.symm.trans hb
      injection hs with hs
      rwa [← hs]
  have hc : s.queue.contains_key seq = true ↔ s.holds seq := by
    rw [contains_key_eq_true, State.holds, ne_none_iff_exists']
    exact exists_congr fun _ => get_eq_some.symm
  rw [hr, hold_eq]
  split
  · rename_i hd
    simp only [Bool.and_eq_true, hc] at hd
    refine ⟨fun _ => .inr (.inl hd), ?_⟩
    rintro - n (hh | rfl) hg
    · exact absurd hh hg
    · exact absurd hd.2 hg
  · rename_i hd
    simp only [Bool.and_eq_true, hc] at hd
    split
    · rename_i hfu
      simp only [hd, Nat.not_lt.mpr hfu, false_or]
      split
      · refine ⟨fun hbe => ?_, ?_⟩
        · by_contra hnot
          have := hbe seq (.inr rfl) hnot
          omega
        · rintro hh n (hn | rfl) hg
          · exact absurd hn hg
          · exact absurd hh hg
      · split
        · rename_i oldest hf
          unfold State.holds
          simp only [arm_queue, State.cancel_gap_timer_queue]
          obtain ⟨row, hrow, hke⟩ := map_eq_some_iff.mp hf
          have hh : s.queue.get oldest ≠ none := by
            intro hno
            exact get_eq_none.mp hno row (mem_of_mem_head? hrow) hke
          constructor
          · intro hbe k hk
            rw [hf, Option.some.injEq] at hk
            subst hk
            by_cases hs : oldest = seq
            · exact .inr hs
            · refine .inl (hbe oldest (.inl hh) ?_)
              rw [get_insert_of_ne _ _ hs]
              simp
          · intro hro n hca hg
            by_cases hold : n = oldest
            · subst hold
              rcases hro n hf with hl | rfl
              · exact hl
              · simp at hg
            · refine absurd (holds_insert ?_) hg
              rcases hca with hn | hn
              · exact .inl (by rwa [get_remove_of_ne _ hold])
              · exact .inr hn
        · rename_i hf
          refine ⟨fun _ k hk => ?_, ?_⟩
          · rw [hf] at hk
            cases hk
          · intro _ n hca hg
            unfold State.holds at hg
            rw [arm_queue] at hg
            exact absurd (holds_insert hca) hg
    · rename_i hro
      refine ⟨fun _ => .inl (by omega), ?_⟩
      intro _ n hca hg
      unfold State.holds at hg
      rw [arm_queue] at hg
      exact absurd (holds_insert hca) hg

theorem early_of_lt (hs : p.eval_seq input = .ok seq) (hl : s.next_expected < seq) :
    Early p s (.accept input) := ⟨seq, hs, hl⟩

/-! ## Every step -/

/-- A call that leaves the queue and the cursor as they are lets nothing go but what it brings. -/
theorem Steps.of_same {c : Call ε} (h : Steady s) (hc : (p.call s c).2 = s)
    (hb : ∀ n, c.brings p n → n < s.next_expected) : Steps p s c := by
  refine ⟨by rw [hc]; exact h, by rw [hc], ?_⟩
  rintro n ⟨hca, hg⟩ -
  rw [hc] at hg ⊢
  rcases hca with hh | hn
  · exact absurd hh hg
  · exact hb n hn

/-- A late number that is put into the queue stays behind the cursor. -/
theorem late_steps (h : Steady s) (hse : p.eval_seq input = .ok seq)
    (hlt : seq < s.next_expected)
    (hc : (p.call s (.accept input)).2 = { s with queue := s.queue.insert seq input }) :
    Steps p s (.accept input) := by
  have hbound := h.bound
  refine ⟨?_, by rw [hc], ?_⟩
  · rw [hc]
    refine ⟨hbound, ?_, ?_, h.clocked, ?_, h.running⟩
    · intro r hr
      rcases (mem_insert _ _ _ _).mp hr with rfl | ⟨hold, -⟩
      · show seq ≤ u64_max
        omega
      · exact h.keys r hold
    · show (s.queue.insert seq input).get s.next_expected = none
      rw [get_insert_of_ne _ _ (by omega)]
      exact h.absent
    · intro i t ht hl
      obtain ⟨r, hr, hr'⟩ := h.awaited i t ht hl
      refine ⟨r, (mem_insert _ _ _ _).mpr (.inr ⟨hr, ?_⟩), hr'⟩
      omega
  · rintro n ⟨hca, hg⟩ -
    rw [hc] at hg
    refine absurd (holds_insert ?_) hg
    rcases hca with hh | hb
    · exact .inl hh
    · have hs : Except.ok seq = Except.ok n := hse.symm.trans hb
      injection hs with hs
      exact .inr hs.symm

theorem accept_early (p : StreamPolicy ε) (hs : p.eval_seq input = .ok seq)
    (hl : s.next_expected < seq) :
    (p.call s (.accept input)).2 = p.hold s s.next_expected seq input := by
  simp only [StreamPolicy.call, StreamPolicy.accept, hs, Nat.ne_of_gt hl, if_false,
    Nat.not_lt.mpr (Nat.le_of_lt hl)]

theorem accept_steps (h : Steady s) (input : ε) (hf : Fits p s (.accept input)) :
    Steps p s (.accept input) := by
  cases hse : p.eval_seq input with
  | error e =>
    refine .of_same h (by simp only [StreamPolicy.call, StreamPolicy.accept, hse]) ?_
    intro n hb
    simp [Call.brings, hse] at hb
  | ok seq =>
    rcases Nat.lt_trichotomy seq s.next_expected with hl | heq | hg
    · cases hd : p.dedup with
      | true =>
        refine .of_same h ?_ ?_
        · simp only [StreamPolicy.call, StreamPolicy.accept, hse, Nat.ne_of_lt hl, hl, hd,
            if_true, if_false]
        · intro n hb
          have hs : Except.ok seq = Except.ok n := hse.symm.trans hb
          injection hs with hs
          omega
      | false =>
        apply late_steps h hse hl
        simp only [StreamPolicy.call, StreamPolicy.accept, hse, Nat.ne_of_lt hl, hl, hd,
          if_true, if_false, Bool.false_eq_true]
    · subst heq
      exact accept_expected_steps h hse hf
    · have hc := accept_early p hse hg
      refine ⟨?_, ?_, ?_⟩
      · rw [hc]
        exact hold_steady h input hg (eval_seq_le hse)
      · rw [hc, hold_next]
      · intro n _ he
        exact absurd (early_of_lt hse hg) he

/-- A call that fits keeps the cursor in its range, and above what leaves. -/
theorem call_steps (h : Steady s) (c : Call ε) (hf : Fits p s c) : Steps p s c := by
  cases c with
  | accept input => exact accept_steps h input hf
  | fire i sends => exact fire_steps h i sends hf
  | set_timeout_tx =>
    refine ⟨⟨h.bound, h.keys, h.absent, h.clocked, h.awaited, h.running⟩, Nat.le_refl _, ?_⟩
    rintro n ⟨hc, hg⟩ -
    exact absurd (hc.resolve_right id) hg

/-! ## Whole runs -/

theorem steady_of_fits (calls : List (Call ε)) (k : Nat)
    (h : ∀ j < k, ∀ c, calls[j]? = some c → Fits p (p.stateAt calls j) c) :
    Steady (p.stateAt calls k) := by
  induction k with
  | zero => exact steady_new_cyclic
  | succ k ih =>
    have hk := ih (fun j hj c hc => h j (by omega) c hc)
    cases hc : calls[k]? with
    | none =>
      rw [stateAt_succ_of_none p hc]
      exact hk
    | some c =>
      rw [stateAt_succ p hc]
      exact (call_steps hk c (h k (by omega) c hc)).steady

theorem next_expected_mono (calls : List (Call ε))
    (h : ∀ k c, calls[k]? = some c → Fits p (p.stateAt calls k) c) {j k : Nat} (hj : j ≤ k) :
    (p.stateAt calls j).next_expected ≤ (p.stateAt calls k).next_expected := by
  induction k, hj using Nat.le_induction with
  | base => exact le_rfl
  | succ k hj ih =>
    apply Nat.le_trans ih
    cases hc : calls[k]? with
    | none => rw [stateAt_succ_of_none p hc]
    | some c =>
      rw [stateAt_succ p hc]
      exact (call_steps (steady_of_fits calls k fun i _ => h i) c (h k c hc)).grows

theorem roomy_iff (h : Steady s) (c : Call ε) (hf : Fits p s c) :
    (∀ n, Leaves p s c n → n < (p.call s c).2.next_expected) ↔ Roomy p s c := by
  by_cases he : Early p s c
  · obtain ⟨seq, hb, hlt⟩ := he
    cases c with
    | accept input =>
      rw [← hold_leaves p s hb hlt]
      unfold Leaves
      rw [accept_early p hb hlt, hold_next]
      have hn : ∀ n, Call.brings p (.accept input) n ↔ n = seq := by
        intro n
        simp only [Call.brings] at hb ⊢
        rw [hb, Except.ok.injEq]
        exact eq_comm
      simp only [hn, and_imp]
    | fire i sends | set_timeout_tx => exact absurd hb id
  · constructor
    · intro _ seq hb hlt
      exact absurd ⟨seq, hb, hlt⟩ he
    · intro _ n hl
      exact (call_steps h c hf).below n hl he

/-- As long as `u64::MAX` stays, the cursor moves up only, and a number that leaves is behind it
from then on, but for a number that leaves for want of room. -/
theorem cursor_is_monotone (p : StreamPolicy ε) (calls : List (Call ε))
    (hfits : ∀ k c, calls[k]? = some c → Fits p (p.stateAt calls k) c) :
    (∀ j k, j ≤ k → (p.stateAt calls j).next_expected ≤ (p.stateAt calls k).next_expected) ∧
      ∀ k c, calls[k]? = some c →
        ((∀ n, Leaves p (p.stateAt calls k) c n →
          ∀ j, k < j → n < (p.stateAt calls j).next_expected) ↔ Roomy p (p.stateAt calls k) c) := by
  refine ⟨fun j k hjk => next_expected_mono calls hfits hjk, ?_⟩
  intro k c hc
  have hs := steady_of_fits calls k fun j _ => hfits j
  have hst := roomy_iff hs c (hfits k c hc)
  rw [← stateAt_succ p hc] at hst
  rw [← hst]
  constructor
  · intro h n hl
    exact h n hl (k + 1) (by omega)
  · intro h n hl j hj
    exact Nat.lt_of_lt_of_le (h n hl) (next_expected_mono calls hfits hj)

end

/-- 2 is held for 1, and goes with it. -/
theorem cursor_passes_one_and_two :
    (∀ k c, [Call.accept (2 : UInt64), .accept 1][k]? = some c →
      Fits (numbered .EmitPartial true)
        ((numbered .EmitPartial true).stateAt [.accept 2, .accept 1] k) c) ∧
    ∀ n, Leaves (numbered .EmitPartial true)
      ((numbered .EmitPartial true).stateAt [.accept 2, .accept 1] 1) (.accept 1) n → n < 3 := by
  have hf : ∀ k c, [Call.accept (2 : UInt64), .accept 1][k]? = some c →
      Fits (numbered .EmitPartial true)
        ((numbered .EmitPartial true).stateAt [.accept 2, .accept 1] k) c := by
    intro k c hc
    match k with
    | 0 =>
      obtain rfl : Call.accept 2 = c := by simpa using hc
      intro hs
      exact absurd (Except.ok.inj hs) (by decide)
    | 1 =>
      obtain rfl : Call.accept 1 = c := by simpa using hc
      intro _
      exact ⟨by decide, 3, by decide, by decide, by decide⟩
    | k + 2 => simp at hc
  refine ⟨hf, ?_⟩
  intro n hl
  have hr : Roomy (numbered .EmitPartial true)
      ((numbered .EmitPartial true).stateAt [.accept 2, .accept 1] 1) (.accept 1) :=
    fun _ _ _ => .inl (by decide)
  exact ((cursor_is_monotone (numbered .EmitPartial true) [.accept 2, .accept 1] hf).2 1
    (.accept 1) rfl).mpr hr n hl 2 (by decide)

/-- With room for one, 3 is held and 5 is dropped above the cursor. -/
theorem a_number_is_dropped_above_the_cursor :
    ¬ ∀ (p : StreamPolicy UInt64) (calls : List (Call UInt64)),
      (∀ j k, j ≤ k → (p.stateAt calls j).next_expected ≤ (p.stateAt calls k).next_expected) ∧
        ∀ k c, calls[k]? = some c → ∀ n, Leaves p (p.stateAt calls k) c n →
          ∀ j, k < j → n < (p.stateAt calls j).next_expected := by
  intro h
  have hl : Leaves { numbered .EmitPartial true with capacity := 1 }
      (StreamPolicy.stateAt { numbered .EmitPartial true with capacity := 1 }
        [.accept 3, .accept 5] 1) (.accept 5) 5 :=
    ⟨.inr rfl, by unfold State.holds; decide⟩
  have hb := (h { numbered .EmitPartial true with capacity := 1 } [.accept 3, .accept 5]).2
    1 (.accept 5) rfl 5 hl 2 (by decide)
  exact absurd hb (by decide)

end camel_processor.resequencer
