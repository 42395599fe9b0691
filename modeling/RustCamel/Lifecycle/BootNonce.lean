-- The law of the boot nonce. It is above every nonce that a recorded id names,
-- and each id of the context names the nonce that it was made with. So no id of
-- a boot was recorded by an earlier one.
import RustCamel.Lifecycle.CommandDedup

namespace camel_core.lifecycle

open camel_api List

/-! ## The segments of an id -/

variable {n : Nat}

theorem parse_u64_digits (hn : n ≤ u64_max) : parse_u64 (.ofList (Nat.toDigits 10 n)) = some n := by
  have hd : ∀ c ∈ Nat.toDigits 10 n, c.isDigit :=
    fun c hc => Nat.isDigit_of_mem_toDigits (by decide) (by decide) hc
  have hp : (Nat.toDigits 10 n).head? ≠ some '+' := by
    intro hh
    exact absurd (hd '+' (mem_of_head? hh)) (by decide)
  unfold parse_u64
  simp only [String.toList_ofList]
  rw [if_neg hp, if_neg, Nat.ofDigitChars_ten_toDigits, if_pos hn]
  rintro (hnil | ha)
  · exact Nat.toDigits_ne_nil hnil
  · exact ha (List.all_eq_true.mpr hd)

/-- Two numbers at the end of an id are its last two segments, whatever stands
before them. -/
theorem nonce_segment_append (text : String) {k : Nat} (hn : n ≤ u64_max) (hk : k ≤ u64_max) :
    nonce_segment (text ++ ":" ++ toString n ++ ":" ++ toString k) = some n := by
  have hs : (text ++ ":" ++ toString n ++ ":" ++ toString k).toList.splitOn ':' =
      text.toList.splitOn ':' ++ [Nat.toDigits 10 n] ++ [Nat.toDigits 10 k] := by
    have hl : (text ++ ":" ++ toString n ++ ":" ++ toString k).toList =
        (text.toList ++ ':' :: Nat.toDigits 10 n) ++ ':' :: Nat.toDigits 10 k := by
      simp
    rw [hl, splitOn_append_cons_self, splitOn_append_cons_self,
      splitOn_eq_singleton (colon_notMem_digits n),
      splitOn_eq_singleton (colon_notMem_digits k)]
  unfold nonce_segment rsplit
  rw [hs]
  simp [parse_u64_digits hn, parse_u64_digits hk]

theorem toNat_le_u64_max (seq : UInt64) : seq.toNat ≤ u64_max := by
  have := seq.toNat_lt
  unfold u64_max
  omega

theorem nonce_segment_context (hn : n ≤ u64_max) (op route_id : String) (seq : UInt64) :
    nonce_segment (next_context_command_id n op route_id seq).1 = some n := by
  exact nonce_segment_append ("context:" ++ op ++ ":" ++ route_id) hn (toNat_le_u64_max seq)

/-! ## The greatest nonce -/

theorem parse_u64_le {s : String} (h : parse_u64 s = some n) : n ≤ u64_max := by
  unfold parse_u64 at h
  generalize (if s.toList.head? = some '+' then s.toList.tail else s.toList) = digits at h
  dsimp only at h
  split at h
  · cases h
  · split at h
    · cases h
      assumption
    · cases h

theorem nonce_segment_le {id : String} (h : nonce_segment id = some n) : n ≤ u64_max := by
  unfold nonce_segment at h
  split at h
  · split at h
    · cases h
      exact parse_u64_le (by assumption)
    · cases h
  · cases h

/-- What the loop has found: the nonce of one of the ids, and no smaller than
that of the others. -/
structure MaxNonce (ids : List String) (best : Option (Nat × String)) : Prop where
  above : ∀ id ∈ ids, ∀ m, nonce_segment id = some m → ∃ b ∈ best, m ≤ b.1
  found : ∀ b ∈ best, b.2 ∈ ids ∧ nonce_segment b.2 = some b.1

theorem maxNonce_step {ids : List String} {best : Option (Nat × String)} (h : MaxNonce ids best)
    (id : String) : MaxNonce (ids ++ [id]) (max_penultimate best id) := by
  have hf : ∀ b ∈ best, b.2 ∈ ids ++ [id] ∧ nonce_segment b.2 = some b.1 :=
    fun b hb => ⟨mem_append_left _ (h.found b hb).1, (h.found b hb).2⟩
  unfold max_penultimate
  cases hi : nonce_segment id with
  | none =>
    refine ⟨fun id' hi' m hm => ?_, hf⟩
    rcases mem_append.mp hi' with hold | hn
    · exact h.above id' hold m hm
    · rw [mem_singleton.mp hn, hi] at hm
      cases hm
  | some nonce_seg =>
    dsimp only
    split
    · -- The new id has the greatest nonce so far.
      rename_i hl
      refine ⟨fun id' hi' m hm => ⟨(nonce_seg, id), rfl, ?_⟩, ?_⟩
      · rcases mem_append.mp hi' with hold | hn
        · obtain ⟨b, rfl, hle⟩ := h.above id' hold m hm
          have hb : b.1 < nonce_seg := by simpa using hl
          exact hle.trans hb.le
        · rw [mem_singleton.mp hn, hi] at hm
          cases hm
          exact le_rfl
      · rintro b ⟨⟩
        exact ⟨by simp, hi⟩
    · rename_i hg
      refine ⟨fun id' hi' m hm => ?_, hf⟩
      rcases mem_append.mp hi' with hold | hn
      · exact h.above id' hold m hm
      · rw [mem_singleton.mp hn, hi] at hm
        cases hm
        cases best with
        | none => exact absurd rfl hg
        | some b => exact ⟨b, rfl, by simpa using hg⟩

theorem maxNonce_foldl (ids : List String) : MaxNonce ids (ids.foldl max_penultimate none) := by
  induction ids using List.reverseRecOn with
  | nil => exact ⟨nofun, nofun⟩
  | append_singleton ids id ih =>
    rw [foldl_append]
    exact maxNonce_step ih id

theorem derive_boot_nonce_spec {ids : List String} (h : derive_boot_nonce ids = .ok n) :
    n ≤ u64_max ∧ ∀ id ∈ ids, ∀ m, nonce_segment id = some m → m < n := by
  have hma := maxNonce_foldl ids
  unfold derive_boot_nonce at h
  generalize ids.foldl max_penultimate none = best at h hma
  cases best with
  | none =>
    cases h
    refine ⟨Nat.zero_le _, fun id hi m hm => ?_⟩
    obtain ⟨b, hb, _⟩ := hma.above id hi m hm
    cases hb
  | some b =>
    dsimp only at h
    split at h
    · cases h
    · rename_i hn
      cases h
      have hle := nonce_segment_le (hma.found b rfl).2
      refine ⟨by omega, fun id hi m hm => ?_⟩
      obtain ⟨b', hb', hl⟩ := hma.above id hi m hm
      cases hb'
      omega

theorem recovered_nonce_is_new {order : IterOrder} {seen : Finset String}
    (h : derive_boot_nonce (order.walk seen) = .ok n) (op route_id : String) (seq : UInt64) :
    (next_context_command_id n op route_id seq).1 ∉ seen := by
  obtain ⟨hn, ha⟩ := derive_boot_nonce_spec h
  intro hm
  have hl := ha _ ((order.mem_walk seen _).mpr hm) n (nonce_segment_context hn op route_id seq)
  exact absurd hl (lt_irrefl n)

/-! ## The nonce of a bus -/

section

variable {ρ ι : Type} [DecidableEq ι] {deps : CommandDeps} {exec : RuntimeSem ρ}

theorem nonce_step (hu : deps.uow = true) (c : BusCall) (r : BusAnswer c)
    {bus bus' : RuntimeBus ρ} (hs : busSem exec c bus r bus') :
    bus'.journal_recovered_once = bus.journal_recovered_once ∨
      (bus.journal_recovered_once = none ∧ ∃ (order : IterOrder) (n : Nat),
        bus'.journal_recovered_once = some n ∧
          derive_boot_nonce (order.walk (gateIds deps bus)) = .ok n) := by
  cases c with
  | reload_tls | reload_templates =>
    obtain rfl : bus' = bus := hs
    exact .inl rfl
  | ensure_journal_recovered =>
    cases r with
    | none => rcases hs with rfl | ⟨_, _, rfl⟩ <;> exact .inl rfl
    | some reply =>
      obtain ⟨env, order, hs⟩ := hs
      obtain ⟨_, hse, _⟩ := recover_from_journal_ids env bus.world.store
      unfold RuntimeBus.ensure_journal_recovered at hs
      cases ho : bus.journal_recovered_once with
      | some nonce =>
        rw [ho] at hs
        cases hs
        exact .inl ho
      | none =>
        rw [ho] at hs
        rcases hrec : bus.world.store.recover_from_journal env with ⟨error | _, store'⟩
        · rw [hrec] at hs
          cases hs
          exact .inl ho
        · rw [hrec] at hs hse
          cases hn : store'.recovered_boot_nonce order with
          | error error =>
            simp only [hn] at hs
            cases hs
            exact .inl ho
          | ok nonce =>
            simp only [hn] at hs
            cases hs
            refine .inr ⟨rfl, order, nonce, rfl, ?_⟩
            unfold gateIds
            rw [if_pos ⟨hu, ho⟩, ← hse rfl]
            exact hn
  | first_seen =>
    cases r with
    | none => rcases hs with rfl | rfl | ⟨_, rfl⟩ <;> exact .inl rfl
    | some reply =>
      obtain ⟨env, hs⟩ := hs
      cases hs
      exact .inl rfl
  | forget_seen =>
    cases r with
    | none => rcases hs with rfl | ⟨_, rfl⟩ <;> exact .inl rfl
    | some reply =>
      obtain ⟨env, hs⟩ := hs
      cases hs
      exact .inl rfl
  | port => cases r <;> exact .inl hs.2

theorem nonce_run (hu : deps.uow = true) {cmds : ι → RuntimeCommand} {bus₀ bus : RuntimeBus ρ}
    {h : List (BusStep ι ρ)} {P : ι → BusProg} (hne : bus₀.journal_recovered_once = none)
    (hr : Interleaves (busSem exec) (executing deps cmds) bus₀ h P bus)
    (hn : bus.journal_recovered_once = some n) :
    ∃ order : IterOrder, derive_boot_nonce (order.walk (gateIds deps bus₀)) = .ok n := by
  induction hr with
  | start =>
    rw [hne] at hn
    cases hn
  | @step h P bus bus' i c k r hr hP hs ih =>
    rcases nonce_step hu c r hs with ho | ⟨hno, order, m, hm, hd⟩
    · exact ih (ho ▸ hn)
    · -- Nobody has passed the gate before the recovery, so the ids are still those.
      obtain ⟨held, hinv⟩ := gate_run hr
      have hi : gateIds deps bus = gateIds deps bus₀ := by
        ext id
        rw [hinv.ids]
        refine ⟨?_, .inl⟩
        rintro (hb | ⟨j, hj, _⟩)
        · exact hb
        · exact absurd hno (hinv.opened j (.inr (hinv.holds j hj)) hu)
      rw [hm] at hn
      cases hn
      rw [hi] at hd
      exact ⟨order, hd⟩

/-- The ids of the context are new in each boot. None of them is in the set that
gave the nonce. In every interleaving of the calls on a new bus, a call with
such an id is a duplicate only of another call of this boot. -/
theorem context_ids_are_new (exec : RuntimeSem ρ) :
    (∀ (order : IterOrder) (store : InMemoryRuntimeStore) (n : Nat),
      store.recovered_boot_nonce order = .ok n → ∀ op route_id seq,
        (next_context_command_id n op route_id seq).1 ∉ store.inner.seen) ∧
    ∀ (deps : CommandDeps) (cmds : ι → RuntimeCommand) (bus₀ bus : RuntimeBus ρ)
      (h : List (BusStep ι ρ)) (P : ι → BusProg), deps.uow = true →
      bus₀.journal_recovered_once = none →
      Interleaves (busSem exec) (executing deps cmds) bus₀ h P bus →
      bus.journal_recovered_once ≠ none →
      Interleaves.EachStep (fun e h => Refuses e → ∀ op route_id seq,
        (cmds e.task).command_id = (next_context_command_id bus.boot_nonce op route_id seq).1 →
        ∃ j, j ≠ e.task ∧ (cmds j).command_id = (cmds e.task).command_id ∧
          Holds (gatePhase deps h j)) h := by
  refine ⟨fun order store n hn => recovered_nonce_is_new hn, ?_⟩
  intro deps cmds bus₀ bus h P hu hne hru hr
  obtain ⟨n, hn⟩ := Option.ne_none_iff_exists'.mp hr
  obtain ⟨order, hd⟩ := nonce_run hu hne hru hn
  have hno : bus.boot_nonce = n := by rw [RuntimeBus.boot_nonce, hn, Option.getD_some]
  rw [hno]
  refine Interleaves.EachStep.imp ?_ (refusal_is_true hru)
  intro e h hh hre op route_id seq hi
  rcases hh hre with hold | ho
  · rw [hi] at hold
    exact absurd hold (recovered_nonce_is_new hd op route_id seq)
  · exact ho

end

def secondBoot : RuntimeBus Unit :=
  ⟨⟨.with_journal { RedbRuntimeEventJournal.new 10000 with
    command_ids := {(next_context_command_id 0 "start" "r" 0).1} }, ()⟩, none⟩

/-- Both calls carry the first id of the second boot. -/
def secondStarts (_ : Bool) : RuntimeCommand :=
  .StartRoute "r" (next_context_command_id 1 "start" "r" 0).1 none

/-- The first call recovers and takes its id, then the second one is refused. -/
def secondBootRun : Interleaves.RunState Bool BusCall BusAnswer
    (Option (Outcome CamelError RuntimeCommandResult)) (RuntimeBus Unit) :=
  [false, false, true, true].foldl (Interleaves.advance (busFn {}))
    ([], executing {} secondStarts, secondBoot)

theorem a_second_boot_has_a_new_nonce :
    secondBootRun.2.2.boot_nonce = 1 ∧
      Interleaves.EachStep (fun e h => Refuses e → ∀ op route_id seq,
        (secondStarts e.task).command_id =
          (next_context_command_id secondBootRun.2.2.boot_nonce op route_id seq).1 →
        ∃ j, j ≠ e.task ∧ (secondStarts j).command_id = (secondStarts e.task).command_id ∧
          Holds (gatePhase {} h j)) secondBootRun.1 :=
  ⟨by decide +kernel, (context_ids_are_new fun _ _ _ _ => True).2 {} secondStarts _ _ _ _ rfl rfl
    (Interleaves.schedule (busSem_busFn fun _ _ => trivial) _ _ _) (by decide +kernel)⟩

end camel_core.lifecycle
