-- The law of the gate for duplicates. A call that passes the gate holds its id
-- until it gives it back, and only a failed call gives it back. A duplicate is
-- an id that was recorded before, or that another call holds.
import RustCamel.Lifecycle.Protocol
import RustCamel.Lifecycle.RuntimeBus
import RustCamel.Lifecycle.StoreLaws

namespace camel_core.lifecycle

open camel_api Prog

/-! ## The phases of a call -/

inductive GatePhase where
  /-- Before the recovery. -/
  | waiting
  /-- At the gate. -/
  | ready
  /-- Past the gate. -/
  | holding
  /-- Answered as a duplicate. -/
  | refused
  /-- The id was given back, and the journal has deleted it. -/
  | released
  /-- The id was given back, and the journal still has it. -/
  | unreleased
  /-- Dropped while it took its id or gave it back. -/
  | lost
  /-- Ended before it had its id. -/
  | ended

/-- The id that a call carries, and its phase. -/
abbrev Pass := String × GatePhase

def gateAfter (g : GatePhase) : (c : BusCall) → BusAnswer c → GatePhase
  | .ensure_journal_recovered, some (.ok ()) => .ready
  | .ensure_journal_recovered, _ => .ended
  | .first_seen _, some (.ok true) => .holding
  | .first_seen _, some (.ok false) => .refused
  | .first_seen _, some (.error _) => .ended
  | .first_seen _, none => .lost
  | .forget_seen _, some (.ok ()) => .released
  | .forget_seen _, some (.error _) => .unreleased
  | .forget_seen _, none => .lost
  | _, _ => g

/-- The call that each phase allows. -/
def GateOk (uow : Bool) (g : Pass) : BusCall → Prop
  | .reload_tls _ _ _ | .reload_templates _ => True
  | .ensure_journal_recovered => g.2 = .waiting ∧ uow = true
  | .first_seen command_id => g.2 = .ready ∧ command_id = g.1
  | .forget_seen command_id => g.2 = .holding ∧ command_id = g.1
  | .port _ => g.2 = .holding

/-- A command that goes through the gate. The two reloads do not. -/
def RuntimeCommand.Deduplicated : RuntimeCommand → Prop
  | .ReloadTlsCerts _ _ _ _ _ | .ReloadTemplates _ _ _ => False
  | _ => True

/-- The call keeps its id from others. -/
def Holds (g : GatePhase) : Prop := g = .holding ∨ g = .lost

/-- How a call ends. A success still holds its id, and an error does not. -/
def GateEnds (cmd : RuntimeCommand) (r : Option (Outcome CamelError RuntimeCommandResult))
    (g : Pass) : Prop :=
  cmd.Deduplicated →
    (∀ v, r = some (.ok v) → (v = .Duplicate cmd.command_id ∧ g.2 = .refused) ∨
      ((∀ id, v ≠ .Duplicate id) ∧ g.2 = .holding)) ∧
    ∀ e, r = some (.error (.err e)) → ¬ Holds g.2

abbrev gateRule (uow : Bool) : Rule BusCall BusAnswer Pass :=
  ofProtocol (GateOk uow) fun g c r => (g.1, gateAfter g.2 c r)

section

variable {uow : Bool} {cmd : RuntimeCommand} {g : Pass}

theorem gateEnds_dropped : GateEnds cmd none g := by
  intro _
  exact ⟨nofun, nofun⟩

theorem gateEnds_error {e : CamelError} (h : ¬ Holds g.2) :
    GateEnds cmd (some (.error (.err e))) g := by
  intro _
  exact ⟨nofun, fun _ _ => h⟩

theorem gateEnds_panic : GateEnds cmd (some (.error .panic)) g := by
  intro _
  exact ⟨nofun, nofun⟩

theorem within_follows {id : String}
    {p : Prog PortCall Answer (Outcome CamelError RuntimeCommandResult)}
    {k : Outcome CamelError RuntimeCommandResult → BusProg}
    {R : Outcome CamelError RuntimeCommandResult → Prop}
    {Q : Option (Outcome CamelError RuntimeCommandResult) → Pass → Prop}
    (hp : wp (ofProtocol (fun (_ : Unit) _ => True) fun _ _ _ => ()) p (fun r _ => R r) ())
    (hd : Q none (id, .holding))
    (hk : ∀ r, R r → wp (gateRule uow) (k r) Q (id, .holding)) :
    wp (gateRule uow) (within p k) Q (id, .holding) := by
  induction p with
  | done r => exact hk r hp
  | call c next ih =>
    refine ⟨rfl, ?_⟩
    rintro (_ | reply)
    · exact hd
    · exact ih reply (hp.2 reply)

theorem settle_follows {r : Outcome CamelError RuntimeCommandResult} (hr : NotDuplicate r) :
    wp (gateRule uow) (settle cmd.command_id r) (GateEnds cmd) (cmd.command_id, .holding) := by
  rcases r with (e | _) | v
  · refine ⟨⟨rfl, rfl⟩, ?_⟩
    rintro (_ | (e' | _))
    · exact gateEnds_dropped
    all_goals exact gateEnds_error (by simp [Holds, gateAfter])
  · exact gateEnds_panic
  · intro _
    refine ⟨?_, nofun⟩
    rintro _ ⟨⟩
    exact .inr ⟨fun id hv => hr id (by rw [hv]), rfl⟩

theorem dedup_gate_follows (deps : CommandDeps) (cmd : RuntimeCommand) :
    wp (gateRule uow) (dedup_gate deps cmd) (GateEnds cmd) (cmd.command_id, .ready) := by
  refine ⟨⟨rfl, rfl⟩, ?_⟩
  rintro (_ | (e | _ | _))
  · exact gateEnds_dropped
  · exact gateEnds_error (by simp [Holds, gateAfter])
  · intro _
    refine ⟨?_, nofun⟩
    rintro _ ⟨⟩
    exact .inl ⟨rfl, rfl⟩
  · exact within_follows (execute_command_returns deps cmd) gateEnds_dropped
      fun r hr => settle_follows hr

/-- Where a call of the bus begins. -/
def startPhase (deps : CommandDeps) : GatePhase := if deps.uow then .waiting else .ready

theorem execute_follows (deps : CommandDeps) (cmd : RuntimeCommand) :
    wp (gateRule deps.uow) (execute deps cmd) (GateEnds cmd) (cmd.command_id, startPhase deps) := by
  have hgate : ∀ next, (∀ e, next (.error e) = returning (.error (.err (.of_domain e)))) →
      next (.ok ()) = dedup_gate deps cmd → wp (gateRule deps.uow)
        (if deps.uow then awaiting .ensure_journal_recovered next else dedup_gate deps cmd)
        (GateEnds cmd) (cmd.command_id, startPhase deps) := by
    intro next he hk
    unfold startPhase
    split
    · rename_i hu
      refine ⟨⟨rfl, hu⟩, ?_⟩
      rintro (_ | (e | _))
      · exact gateEnds_dropped
      · dsimp only
        rw [he]
        exact gateEnds_error (by simp [Holds, gateAfter])
      · dsimp only
        rw [hk]
        exact dedup_gate_follows deps cmd
    · exact dedup_gate_follows deps cmd
  have hr : ∀ r g, ¬ cmd.Deduplicated → GateEnds cmd r g := fun _ _ h h' => absurd h' h
  cases cmd with
  | ReloadTlsCerts scheme host port =>
    refine ⟨trivial, ?_⟩
    rintro (_ | (_ | (e | _))) <;> exact hr _ _ id
  | ReloadTemplates route_id =>
    refine ⟨trivial, ?_⟩
    rintro (_ | (e | _)) <;> exact hr _ _ id
  | _ => exact hgate _ (fun _ => rfl) rfl

end

/-! ## The ids at the gate -/

section

variable {ρ : Type} {deps : CommandDeps}

/-- The recovery is done, or there is none to do. -/
def Open (deps : CommandDeps) (bus : RuntimeBus ρ) : Prop :=
  deps.uow = true → bus.journal_recovered_once ≠ none

/-- The ids that the gate refuses, once it is open. -/
def gateIds (deps : CommandDeps) (bus : RuntimeBus ρ) : Finset String :=
  if deps.uow = true ∧ bus.journal_recovered_once = none then
    (bus.world.store.journal.map (·.load_command_ids)).getD bus.world.store.inner.seen
  else bus.world.store.inner.seen

theorem gateIds_open {bus : RuntimeBus ρ} (h : Open deps bus) :
    gateIds deps bus = bus.world.store.inner.seen := by
  unfold gateIds
  rw [if_neg]
  rintro ⟨hu, hn⟩
  exact h hu hn

theorem gateIds_sameIds {bus bus' : RuntimeBus ρ} (h : SameIds bus.world.store bus'.world.store)
    (ho : bus'.journal_recovered_once = bus.journal_recovered_once) :
    gateIds deps bus' = gateIds deps bus := by
  unfold gateIds RedbRuntimeEventJournal.load_command_ids
  rw [ho, h.1, h.2]

variable (env : JournalEnv)

theorem sameIds_append (events : List RuntimeEvent) (store : InMemoryRuntimeStore) :
    SameIds store (store.journal_append env events).2 := by
  obtain ⟨inner, journal⟩ := store
  cases journal with
  | none => exact ⟨rfl, rfl⟩
  | some journal =>
    rcases hb : journal.append_batch env events with ⟨result, journal'⟩
    have hi : journal'.command_ids = journal.command_ids := by
      rcases append_batch_spec hb with ⟨_, hi, _⟩ | ⟨_, rfl⟩
      · exact hi
      · rfl
    refine ⟨rfl, ?_⟩
    simp only [InMemoryRuntimeStore.journal_append, hb, Option.map_some, hi]

theorem portSem_sameIds {exec : RuntimeSem ρ} {c : PortCall} {w w' : World ρ} {r : Answer c}
    (h : portSem exec c w r w') : SameIds w.store w'.store := by
  have hrefl : SameIds w.store w.store := ⟨rfl, rfl⟩
  cases c with
  | load | save | delete | upsert_status | remove_status | force_unhealthy_for_route =>
    obtain ⟨rfl, rfl⟩ := h
    exact ⟨rfl, rfl⟩
  | take_recovered =>
    cases h
    exact ⟨rfl, rfl⟩
  | list_statuses =>
    obtain ⟨_, _, _, rfl⟩ := h
    exact hrefl
  | execution op =>
    obtain ⟨_, hs⟩ := h
    rw [hs]
    exact hrefl
  | save_if_version a n =>
    obtain ⟨rfl, rfl⟩ := Prod.mk.inj h
    dsimp only [InMemoryRuntimeStore.save_if_version]
    split <;> exact ⟨rfl, rfl⟩
  | publish events =>
    obtain ⟨env, h⟩ := h
    obtain ⟨rfl, rfl⟩ := Prod.mk.inj h
    have ha := sameIds_append env events w.store
    dsimp only [InMemoryRuntimeStore.publish]
    split <;> rename_i hr <;> rw [hr] at ha <;> exact ha
  | persist_upsert a n projection events =>
    obtain ⟨env, h⟩ := h
    obtain ⟨rfl, rfl⟩ := Prod.mk.inj h
    have ha := sameIds_append env events w.store
    dsimp only [InMemoryRuntimeStore.persist_upsert]
    split
    · exact hrefl
    · split <;> rename_i hr <;> rw [hr] at ha <;> exact ha
  | persist_delete id events =>
    obtain ⟨env, h⟩ := h
    obtain ⟨rfl, rfl⟩ := Prod.mk.inj h
    have ha := sameIds_append env events w.store
    dsimp only [InMemoryRuntimeStore.persist_delete]
    split <;> rename_i hr <;> rw [hr] at ha <;> exact ha

theorem recover_from_journal_ids (store : InMemoryRuntimeStore) :
    (store.recover_from_journal env).2.journal = store.journal ∧
      ((store.recover_from_journal env).1 = .ok () →
        (store.recover_from_journal env).2.inner.seen =
          (store.journal.map (·.load_command_ids)).getD store.inner.seen) ∧
      (store.journal = none → (store.recover_from_journal env).2 = store) := by
  unfold InMemoryRuntimeStore.recover_from_journal
  cases hj : store.journal with
  | none => simp [hj]
  | some journal =>
    cases hf : env.failure with
    | some error => simp [hj]
    | none => simp

theorem gateIds_recovered {bus : RuntimeBus ρ} (hu : deps.uow = true)
    (ho : bus.journal_recovered_once = none) (env : JournalEnv) :
    gateIds deps (bus.withStore (bus.world.store.recover_from_journal env).2) =
      gateIds deps bus := by
  obtain ⟨hj, _, hn⟩ := recover_from_journal_ids env bus.world.store
  unfold gateIds RuntimeBus.withStore
  rw [if_pos ⟨hu, ho⟩, if_pos ⟨hu, ho⟩]
  dsimp only
  rw [hj]
  cases hc : bus.world.store.journal with
  | none => rw [hn hc]
  | some journal => rfl

theorem ensure_journal_recovered_spec (hu : deps.uow = true) (env : JournalEnv)
    (order : IterOrder) (bus : RuntimeBus ρ) :
    gateIds deps (bus.ensure_journal_recovered env order).2 = gateIds deps bus ∧
      (Open deps bus → Open deps (bus.ensure_journal_recovered env order).2) ∧
      ((bus.ensure_journal_recovered env order).1 = .ok () →
        Open deps (bus.ensure_journal_recovered env order).2) := by
  unfold RuntimeBus.ensure_journal_recovered
  cases ho : bus.journal_recovered_once with
  | some nonce =>
    refine ⟨rfl, fun hop => hop, fun _ _ => ?_⟩
    rw [ho]
    nofun
  | none =>
    have hc : ¬ Open deps bus := fun hop => hop hu ho
    have hi := gateIds_recovered hu ho env
    obtain ⟨hj, hs, _⟩ := recover_from_journal_ids env bus.world.store
    rcases hrec : bus.world.store.recover_from_journal env with ⟨error | _, store'⟩
    · rw [hrec] at hi
      exact ⟨hi, fun hop => absurd hop hc, nofun⟩
    · rw [hrec] at hi hs
      dsimp only at hi hs ⊢
      cases hn : store'.recovered_boot_nonce order with
      | error error => exact ⟨hi, fun hop => absurd hop hc, nofun⟩
      | ok nonce =>
        refine ⟨?_, fun _ _ => nofun, fun _ _ => nofun⟩
        unfold gateIds
        rw [if_neg (by simp), if_pos ⟨hu, ho⟩]
        exact hs rfl

/-- The gate refuses an id that it has, and takes one that it has not. -/
theorem first_seen_spec (id : String) (store : InMemoryRuntimeStore) :
    (id ∈ store.inner.seen ∧ store.first_seen env id = (.ok false, store)) ∨
      (id ∉ store.inner.seen ∧ (store.first_seen env id).1 = .ok true ∧
        (store.first_seen env id).2.inner.seen = insert id store.inner.seen) ∨
      (id ∉ store.inner.seen ∧ ∃ error, store.first_seen env id = (.error error, store)) := by
  unfold InMemoryRuntimeStore.first_seen
  by_cases hi : id ∈ store.inner.seen
  · exact .inl ⟨hi, if_pos hi⟩
  · rw [if_neg hi]
    cases store.journal with
    | none => exact .inr (.inl ⟨hi, rfl, rfl⟩)
    | some journal =>
      dsimp only
      rcases journal.append_command_id env id with ⟨error | _, journal'⟩
      · exact .inr (.inr ⟨hi, error, rfl⟩)
      · exact .inr (.inl ⟨hi, rfl, rfl⟩)

theorem seen_forget_seen (id : String) (store : InMemoryRuntimeStore) :
    (store.forget_seen env id).2.inner.seen = store.inner.seen.erase id := by
  unfold InMemoryRuntimeStore.forget_seen
  dsimp only
  split <;> rfl

/-! ## The invariant of the gate -/

variable {ι : Type} [DecidableEq ι] {i : ι}

abbrev BusStep (ι ρ : Type) := CallEvent ι BusCall BusAnswer (RuntimeBus ρ)

def gatePhase (deps : CommandDeps) (h : List (BusStep ι ρ)) (i : ι) : GatePhase :=
  Interleaves.ghost gateAfter (fun _ => startPhase deps) h i

/-- The calls `held` share the ids at the gate that were not there at first. -/
structure GateInv (deps : CommandDeps) (cmds : ι → RuntimeCommand) (base : Finset String)
    (held : ι → Prop) (h : List (BusStep ι ρ)) (bus : RuntimeBus ρ) : Prop where
  holding : ∀ i, gatePhase deps h i = .holding → held i
  holds : ∀ i, held i → Holds (gatePhase deps h i)
  ids : ∀ id, id ∈ gateIds deps bus ↔ id ∈ base ∨ ∃ i, held i ∧ (cmds i).command_id = id
  fresh : ∀ i, held i → (cmds i).command_id ∉ base
  unique : ∀ i j, held i → held j → (cmds i).command_id = (cmds j).command_id → i = j
  opened : ∀ i, gatePhase deps h i = .ready ∨ Holds (gatePhase deps h i) → Open deps bus

theorem gatePhase_same (deps : CommandDeps) (e : BusStep ι ρ) (h : List (BusStep ι ρ)) :
    gatePhase deps (e :: h) e.task = gateAfter (gatePhase deps h e.task) e.call e.answer :=
  Interleaves.ghost_same _ _ _ _ _ _ _ _

theorem gatePhase_other (deps : CommandDeps) {e : BusStep ι ρ} (h : List (BusStep ι ρ))
    (hi : i ≠ e.task) : gatePhase deps (e :: h) i = gatePhase deps h i :=
  Interleaves.ghost_other _ _ _ _ _ _ _ (Ne.symm hi)

variable {deps : CommandDeps} {cmds : ι → RuntimeCommand} {base : Finset String} {held : ι → Prop}
  {e : BusStep ι ρ} {h : List (BusStep ι ρ)}

section

variable (hinv : GateInv deps cmds base held h e.before)

include hinv

theorem gate_opened (ho : Open deps e.before → Open deps e.after)
    (hn : gatePhase deps (e :: h) e.task = .ready ∨ Holds (gatePhase deps (e :: h) e.task) →
      Open deps e.after) (i : ι) :
    gatePhase deps (e :: h) i = .ready ∨ Holds (gatePhase deps (e :: h) i) → Open deps e.after := by
  intro hp
  by_cases hi : i = e.task
  · exact hn (hi ▸ hp)
  · rw [gatePhase_other deps h hi] at hp
    exact ho (hinv.opened i hp)

theorem gate_quiet (hid : gateIds deps e.after = gateIds deps e.before)
    (hh : gatePhase deps (e :: h) e.task = .holding → held e.task)
    (hhe : held e.task → Holds (gatePhase deps (e :: h) e.task))
    (ho : Open deps e.before → Open deps e.after)
    (hn : gatePhase deps (e :: h) e.task = .ready ∨ Holds (gatePhase deps (e :: h) e.task) →
      Open deps e.after) : GateInv deps cmds base held (e :: h) e.after := by
  refine ⟨?_, ?_, ?_, hinv.fresh, hinv.unique, gate_opened hinv ho hn⟩
  · intro i hp
    by_cases hi : i = e.task
    · exact hi ▸ hh (hi ▸ hp)
    · rw [gatePhase_other deps h hi] at hp
      exact hinv.holding i hp
  · intro i hi
    by_cases hie : i = e.task
    · exact hie ▸ hhe (hie ▸ hi)
    · rw [gatePhase_other deps h hie]
      exact hinv.holds i hi
  · intro id
    rw [hid]
    exact hinv.ids id

theorem gate_take (hf : (cmds e.task).command_id ∉ gateIds deps e.before)
    (hids : gateIds deps e.after = insert (cmds e.task).command_id (gateIds deps e.before))
    (hh : Holds (gatePhase deps (e :: h) e.task)) (ho : Open deps e.after) :
    GateInv deps cmds base (fun i => i = e.task ∨ held i) (e :: h) e.after := by
  have hn : ∀ i, held i → (cmds i).command_id ≠ (cmds e.task).command_id := by
    intro i hi hid
    exact hf ((hinv.ids _).mpr (.inr ⟨i, hi, hid⟩))
  refine ⟨?_, ?_, ?_, ?_, ?_, gate_opened hinv (fun _ => ho) fun _ => ho⟩
  · intro i hp
    by_cases hi : i = e.task
    · exact .inl hi
    · rw [gatePhase_other deps h hi] at hp
      exact .inr (hinv.holding i hp)
  · intro i hi
    by_cases hie : i = e.task
    · exact hie ▸ hh
    · rw [gatePhase_other deps h hie]
      exact hinv.holds i (hi.resolve_left hie)
  · intro id
    rw [hids, Finset.mem_insert, hinv.ids]
    constructor
    · rintro (rfl | hb | ⟨i, hi, hid⟩)
      · exact .inr ⟨e.task, .inl rfl, rfl⟩
      · exact .inl hb
      · exact .inr ⟨i, .inr hi, hid⟩
    · rintro (hb | ⟨i, rfl | hi, hid⟩)
      · exact .inr (.inl hb)
      · exact .inl hid.symm
      · exact .inr (.inr ⟨i, hi, hid⟩)
  · rintro i (rfl | hi)
    · exact fun hb => hf ((hinv.ids _).mpr (.inl hb))
    · exact hinv.fresh i hi
  · rintro i j (rfl | hi) (rfl | hj) hid
    · rfl
    · exact absurd hid.symm (hn j hj)
    · exact absurd hid (hn i hi)
    · exact hinv.unique i j hi hj hid

theorem gate_give (hh : held e.task)
    (hids : gateIds deps e.after = (gateIds deps e.before).erase (cmds e.task).command_id)
    (hp : gatePhase deps (e :: h) e.task ≠ .holding) (ho : Open deps e.after) :
    GateInv deps cmds base (fun i => held i ∧ i ≠ e.task) (e :: h) e.after := by
  refine ⟨?_, ?_, ?_, fun i hi => hinv.fresh i hi.1, fun i j hi hj => hinv.unique i j hi.1 hj.1,
    gate_opened hinv (fun _ => ho) fun _ => ho⟩
  · intro i hi
    by_cases hie : i = e.task
    · exact absurd (hie ▸ hi) hp
    · rw [gatePhase_other deps h hie] at hi
      exact ⟨hinv.holding i hi, hie⟩
  · intro i hi
    rw [gatePhase_other deps h hi.2]
    exact hinv.holds i hi.1
  · intro id
    rw [hids, Finset.mem_erase, hinv.ids]
    constructor
    · rintro ⟨hn, hb | ⟨i, hi, hid⟩⟩
      · exact .inl hb
      · exact .inr ⟨i, ⟨hi, fun hie => hn (by rw [← hid, hie])⟩, hid⟩
    · rintro (hb | ⟨i, ⟨hi, hie⟩, hid⟩)
      · exact ⟨fun heq => hinv.fresh e.task hh (heq ▸ hb), .inl hb⟩
      · refine ⟨?_, .inr ⟨i, hi, hid⟩⟩
        rintro rfl
        exact hie (hinv.unique i e.task hi hh hid)

end

theorem not_held {bus : RuntimeBus ρ} (hinv : GateInv deps cmds base held h bus)
    (hp : gatePhase deps h i = .waiting ∨ gatePhase deps h i = .ready) : ¬ held i := by
  intro hi
  have hh := hinv.holds i hi
  rcases hp with hp | hp <;> rw [hp] at hh <;> rcases hh with ⟨⟨⟩⟩ | ⟨⟨⟩⟩

/-- Each call of a program that keeps to the phases keeps the invariant. -/
theorem gate_call {exec : RuntimeSem ρ} (c : BusCall) (r : BusAnswer c) {bus bus' : RuntimeBus ρ}
    (hinv : GateInv deps cmds base held h bus)
    (hok : GateOk deps.uow ((cmds i).command_id, gatePhase deps h i) c)
    (hs : busSem exec c bus r bus') :
    ∃ he', GateInv deps cmds base he' (⟨i, c, r, bus, bus'⟩ :: h) bus' := by
  have hp : gatePhase deps ((⟨i, c, r, bus, bus'⟩ : BusStep ι ρ) :: h) i =
      gateAfter (gatePhase deps h i) c r := gatePhase_same deps ⟨i, c, r, bus, bus'⟩ h
  -- A step of a call that stays in its phase.
  have hsa : gateAfter (gatePhase deps h i) c r = gatePhase deps h i →
      gateIds deps bus' = gateIds deps bus → (Open deps bus → Open deps bus') →
      ∃ he', GateInv deps cmds base he' (⟨i, c, r, bus, bus'⟩ :: h) bus' := by
    intro hst hid ho
    rw [hst] at hp
    refine ⟨held, gate_quiet hinv hid ?_ ?_ ho ?_⟩
    · exact fun hh => hinv.holding i (hp ▸ hh)
    · exact fun hhe => hp ▸ hinv.holds i hhe
    · exact fun hn => ho (hinv.opened i (hp ▸ hn))
  -- A step of a call that holds nothing, neither before nor after.
  have hi : ¬ held i → gateAfter (gatePhase deps h i) c r ≠ .holding →
      gateIds deps bus' = gateIds deps bus → (Open deps bus → Open deps bus') →
      (gateAfter (gatePhase deps h i) c r = .ready ∨
        Holds (gateAfter (gatePhase deps h i) c r) → Open deps bus') →
      ∃ he', GateInv deps cmds base he' (⟨i, c, r, bus, bus'⟩ :: h) bus' := by
    intro hnot hne hid ho hn
    refine ⟨held, gate_quiet hinv hid ?_ (fun hhe => absurd hhe hnot) ho (hp ▸ hn)⟩
    exact fun hh => absurd (hp ▸ hh) hne
  cases c with
  | reload_tls | reload_templates =>
    obtain rfl : bus' = bus := hs
    exact hsa rfl rfl id
  | ensure_journal_recovered =>
    obtain ⟨hw, hu⟩ := hok
    have hnot := not_held hinv (.inl hw)
    cases r with
    | none =>
      rcases hs with rfl | ⟨hon, env, rfl⟩
      · exact hi hnot nofun rfl id nofun
      · exact hi hnot nofun (gateIds_recovered hu hon env) (fun ho => absurd hon (ho hu)) nofun
    | some reply =>
      obtain ⟨env, order, hs⟩ := hs
      obtain ⟨hid, ho, hd⟩ := ensure_journal_recovered_spec hu env order bus
      rw [← hs] at hid ho hd
      rcases reply with error | _
      · exact hi hnot nofun hid ho nofun
      · exact hi hnot nofun hid ho fun _ => hd rfl
  | first_seen id =>
    obtain ⟨hr, rfl⟩ := hok
    have hnot := not_held hinv (.inr hr)
    have ho := hinv.opened i (.inl hr)
    have hb := gateIds_open ho
    -- The bus stays open, so the ids at the gate are those that the store has seen.
    have ht : ∀ store', bus' = bus.withStore store' → store'.inner.seen =
        insert (cmds i).command_id bus.world.store.inner.seen →
        (cmds i).command_id ∉ bus.world.store.inner.seen →
        Holds (gateAfter (gatePhase deps h i) (.first_seen (cmds i).command_id) r) →
        ∃ he', GateInv deps cmds base he'
          (⟨i, .first_seen (cmds i).command_id, r, bus, bus'⟩ :: h) bus' := by
      rintro store' rfl hse hf hho
      have ho' : Open deps (bus.withStore store') := ho
      refine ⟨_, gate_take hinv (by rwa [hb]) ?_ (by rwa [hp]) ho'⟩
      rw [gateIds_open ho', hb]
      exact hse
    have hst : bus' = bus → ¬ gateAfter (gatePhase deps h i) (.first_seen (cmds i).command_id) r
        = .holding → ∃ he', GateInv deps cmds base he'
          (⟨i, .first_seen (cmds i).command_id, r, bus, bus'⟩ :: h) bus' := by
      rintro rfl hne
      exact hi hnot hne rfl (fun ho => ho) fun _ => ho
    cases r with
    | some reply =>
      obtain ⟨env, hs⟩ := hs
      obtain ⟨rfl, rfl⟩ := Prod.mk.inj hs
      rcases first_seen_spec env (cmds i).command_id bus.world.store with
        ⟨_, heq⟩ | ⟨hf, hok, hse⟩ | ⟨_, error, heq⟩
      · rw [heq] at hst ⊢
        exact hst rfl nofun
      · rw [hok] at ht ⊢
        exact ht _ rfl hse hf (.inl rfl)
      · rw [heq] at hst ⊢
        exact hst rfl nofun
    | none =>
      rcases hs with rfl | rfl | ⟨env, rfl⟩
      · exact hst rfl nofun
      · by_cases hf : (cmds i).command_id ∈ bus.world.store.inner.seen
        · have ho' : Open deps (bus.withStore { bus.world.store with
            inner.seen := insert (cmds i).command_id bus.world.store.inner.seen }) := ho
          refine hi hnot nofun ?_ (fun ho => ho) fun _ => ho
          rw [gateIds_open ho', hb]
          exact Finset.insert_eq_of_mem hf
        · exact ht _ rfl rfl hf (.inr rfl)
      · rcases first_seen_spec env (cmds i).command_id bus.world.store with
          ⟨_, heq⟩ | ⟨hf, _, hse⟩ | ⟨_, error, heq⟩
        · rw [heq] at hst ⊢
          exact hst rfl nofun
        · exact ht _ rfl hse hf (.inr rfl)
        · rw [heq] at hst ⊢
          exact hst rfl nofun
  | forget_seen id =>
    obtain ⟨hh, rfl⟩ := hok
    have hhe := hinv.holding i hh
    have ho := hinv.opened i (.inr (.inl hh))
    have hg : ∀ env, bus' = bus.withStore
        (bus.world.store.forget_seen env (cmds i).command_id).2 →
        gateAfter (gatePhase deps h i) (.forget_seen (cmds i).command_id) r ≠ .holding →
        ∃ he', GateInv deps cmds base he'
          (⟨i, .forget_seen (cmds i).command_id, r, bus, bus'⟩ :: h) bus' := by
      rintro env rfl hne
      have ho' : Open deps (bus.withStore
        (bus.world.store.forget_seen env (cmds i).command_id).2) := ho
      refine ⟨_, gate_give hinv hhe ?_ (by rwa [hp]) ho'⟩
      rw [gateIds_open ho', gateIds_open ho]
      exact seen_forget_seen env _ _
    cases r with
    | some reply =>
      obtain ⟨env, hs⟩ := hs
      obtain ⟨-, rfl⟩ := Prod.mk.inj hs
      rcases reply with error | _ <;> exact hg env rfl nofun
    | none =>
      rcases hs with rfl | ⟨env, rfl⟩
      · refine ⟨held, gate_quiet hinv rfl ?_ (fun _ => ?_) (fun ho => ho) fun _ => ho⟩
        · exact fun _ => hhe
        · rw [hp]
          exact .inr rfl
      · exact hg env rfl nofun
  | port c =>
    cases r with
    | some reply => exact hsa rfl (gateIds_sameIds (portSem_sameIds hs.1) hs.2) (by
        intro ho hu
        rw [hs.2]
        exact ho hu)
    | none => exact hsa rfl (gateIds_sameIds hs.1 hs.2) (by
        intro ho hu
        rw [hs.2]
        exact ho hu)

/-! ## Whole runs -/

/-- The calls of `execute` for these commands. -/
abbrev executing (deps : CommandDeps) (cmds : ι → RuntimeCommand) : ι → BusProg :=
  fun i => execute deps (cmds i)

theorem gate_start (deps : CommandDeps) (cmds : ι → RuntimeCommand) (bus : RuntimeBus ρ) :
    GateInv deps cmds (gateIds deps bus) (fun _ => False) ([] : List (BusStep ι ρ)) bus := by
  have hp : ∀ i, gatePhase deps ([] : List (BusStep ι ρ)) i = startPhase deps := fun _ => rfl
  unfold startPhase at hp
  refine ⟨?_, nofun, by simp, nofun, nofun, ?_⟩
  · intro i
    rw [hp]
    split <;> nofun
  · intro i hr hu
    rw [hp, if_pos hu] at hr
    rcases hr with ⟨⟨⟩⟩ | ⟨⟨⟩⟩ | ⟨⟨⟩⟩

theorem ghost_pass (deps : CommandDeps) (cmds : ι → RuntimeCommand) (h : List (BusStep ι ρ))
    (i : ι) :
    Interleaves.ghost (fun (g : Pass) c r => (g.1, gateAfter g.2 c r))
      (fun i => ((cmds i).command_id, startPhase deps)) h i =
        ((cmds i).command_id, gatePhase deps h i) := by
  induction h with
  | nil => rfl
  | cons e h ih =>
    unfold gatePhase at ih ⊢
    simp only [Interleaves.ghost]
    rw [ih]
    split <;> rfl

variable {exec : RuntimeSem ρ} {bus₀ bus : RuntimeBus ρ} {P : ι → BusProg}

section

variable (hrun : Interleaves (busSem exec) (executing deps cmds) bus₀ h P bus)

include hrun

theorem executing_follows (i : ι) : wp (gateRule deps.uow) (P i) (GateEnds (cmds i))
      ((cmds i).command_id, gatePhase deps h i) := by
  rw [← ghost_pass]
  exact Interleaves.follows (fun i => execute_follows deps (cmds i)) hrun i

theorem gate_run : ∃ held, GateInv deps cmds (gateIds deps bus₀) held h bus := by
  induction hrun with
  | start => exact ⟨_, gate_start deps cmds bus₀⟩
  | @step h P bus bus' i c k r hrun hP hs ih =>
    obtain ⟨held, hinv⟩ := ih
    have hf := executing_follows hrun i
    rw [hP] at hf
    exact gate_call c r hinv hf.1 hs

end

/-! ## Duplicates -/

/-- The step answers its call as a duplicate. -/
def Refuses : BusStep ι ρ → Prop
  | ⟨_, .first_seen _, some (.ok false), _, _⟩ => True
  | _ => False

instance (e : BusStep ι ρ) : Decidable (Refuses e) :=
  match e with
  | ⟨_, .first_seen _, some (.ok false), _, _⟩ => isTrue trivial
  | ⟨_, .first_seen _, some (.ok true), _, _⟩ => isFalse id
  | ⟨_, .first_seen _, some (.error _), _, _⟩ => isFalse id
  | ⟨_, .first_seen _, none, _, _⟩ => isFalse id
  | ⟨_, .reload_tls _ _ _, _, _, _⟩ => isFalse id
  | ⟨_, .reload_templates _, _, _, _⟩ => isFalse id
  | ⟨_, .ensure_journal_recovered, _, _, _⟩ => isFalse id
  | ⟨_, .forget_seen _, _, _, _⟩ => isFalse id
  | ⟨_, .port _, _, _, _⟩ => isFalse id

/-- The call completed, and not as a duplicate. -/
def Succeeded (p : BusProg) : Prop := ∃ v, p = .done (some (.ok v)) ∧ ∀ id, v ≠ .Duplicate id

/-- The call returned an error. -/
def Failed (p : BusProg) : Prop := ∃ e, p = .done (some (.error (.err e)))

/-- What the gate promises, for the commands that go through it. -/
structure Truthful (deps : CommandDeps) (cmds : ι → RuntimeCommand) (recorded : Finset String)
    (h : List (BusStep ι ρ)) (P : ι → BusProg) (bus : RuntimeBus ρ) : Prop where
  at_most_one : ∀ i j, (cmds i).Deduplicated → (cmds j).Deduplicated →
    (cmds i).command_id = (cmds j).command_id → Succeeded (P i) → Succeeded (P j) → i = j
  answered : ∀ i, (cmds i).Deduplicated →
    P i = .done (some (.ok (.Duplicate (cmds i).command_id))) → ∃ e ∈ h, e.task = i ∧ Refuses e
  duplicate : Interleaves.EachStep (fun e h => Refuses e →
    (cmds e.task).command_id ∈ recorded ∨ ∃ j, j ≠ e.task ∧
      (cmds j).command_id = (cmds e.task).command_id ∧ Holds (gatePhase deps h j)) h
  given_back : ∀ i, (cmds i).Deduplicated → Failed (P i) → ¬ Holds (gatePhase deps h i)
  retryable : ∀ id, id ∉ recorded →
    (∀ j, (cmds j).command_id = id → ¬ Holds (gatePhase deps h j)) → id ∉ gateIds deps bus

theorem refused_step (hre : gatePhase deps h i = .refused) : ∃ e ∈ h, e.task = i ∧ Refuses e := by
  induction h with
  | nil =>
    have hs : gatePhase deps ([] : List (BusStep ι ρ)) i = startPhase deps := rfl
    rw [hs, startPhase] at hre
    split at hre <;> cases hre
  | cons e h ih =>
    by_cases hi : i = e.task
    · subst hi
      by_cases hr : Refuses e
      · exact ⟨e, List.mem_cons_self, rfl, hr⟩
      · -- No other step leads to a refusal, so it was refused before.
        have hb : gatePhase deps h e.task = .refused := by
          rw [gatePhase_same] at hre
          obtain ⟨i, c, r, before, after⟩ := e
          cases c with
          | reload_tls | reload_templates | port => exact hre
          | ensure_journal_recovered | forget_seen => rcases r with _ | _ | _ <;> cases hre
          | first_seen =>
            rcases r with _ | _ | _ | _
            · cases hre
            · cases hre
            · exact absurd trivial hr
            · cases hre
        obtain ⟨e', he', ht, hr'⟩ := ih hb
        exact ⟨e', List.mem_cons_of_mem e he', ht, hr'⟩
    · rw [gatePhase_other deps h hi] at hre
      obtain ⟨e', he', ht, hr⟩ := ih hre
      exact ⟨e', List.mem_cons_of_mem e he', ht, hr⟩

theorem refusal_is_true (hrun : Interleaves (busSem exec) (executing deps cmds) bus₀ h P bus) :
    Interleaves.EachStep (fun e h => Refuses e →
      (cmds e.task).command_id ∈ gateIds deps bus₀ ∨ ∃ j, j ≠ e.task ∧
        (cmds j).command_id = (cmds e.task).command_id ∧ Holds (gatePhase deps h j)) h := by
  induction hrun with
  | start => trivial
  | @step h P bus bus' i c k r hrun hP hs ih =>
    refine ⟨?_, ih⟩
    intro hr
    obtain ⟨held, hinv⟩ := gate_run hrun
    have hf := executing_follows hrun i
    rw [hP] at hf
    obtain ⟨ho, _⟩ := hf
    cases c with
    | first_seen id =>
      obtain ⟨hre, rfl⟩ := ho
      rcases r with _ | error | _ | _
      · exact hr.elim
      · exact hr.elim
      · obtain ⟨env, hs⟩ := hs
        obtain ⟨hrep, _⟩ := Prod.mk.inj hs
        have hse : (cmds i).command_id ∈ bus.world.store.inner.seen := by
          rcases first_seen_spec env (cmds i).command_id bus.world.store with
            ⟨hse, _⟩ | ⟨_, ho, _⟩ | ⟨_, error, heq⟩
          · exact hse
          · rw [ho] at hrep
            cases hrep
          · rw [heq] at hrep
            cases hrep
        rw [← gateIds_open (hinv.opened i (.inl hre)), hinv.ids] at hse
        rcases hse with hb | ⟨j, hj, hi⟩
        · exact .inl hb
        · refine .inr ⟨j, ?_, hi, hinv.holds j hj⟩
          rintro rfl
          exact not_held hinv (.inr hre) hj
      · exact hr.elim
    | _ => exact hr.elim

/-- Deduplication is truthful in every interleaving of any number of calls, each
of which may be dropped at any point. -/
theorem deduplication_is_truthful (exec : RuntimeSem ρ) (deps : CommandDeps)
    (cmds : ι → RuntimeCommand) {bus₀ bus : RuntimeBus ρ} {h : List (BusStep ι ρ)}
    {P : ι → BusProg} (hrun : Interleaves (busSem exec) (executing deps cmds) bus₀ h P bus) :
    Truthful deps cmds (gateIds deps bus₀) h P bus := by
  obtain ⟨held, hinv⟩ := gate_run hrun
  have he : ∀ i r, P i = .done r →
      GateEnds (cmds i) r ((cmds i).command_id, gatePhase deps h i) := by
    intro i r hP
    have hf := executing_follows hrun i
    rw [hP] at hf
    exact hf
  have hh : ∀ i, (cmds i).Deduplicated → Succeeded (P i) → held i := by
    rintro i hd ⟨v, hP, hv⟩
    rcases (he i _ hP hd).1 v rfl with ⟨rfl, _⟩ | ⟨_, hp⟩
    · exact absurd rfl (hv _)
    · exact hinv.holding i hp
  refine ⟨?_, ?_, refusal_is_true hrun, ?_, ?_⟩
  · intro i j hi hj hid hw hw'
    exact hinv.unique i j (hh i hi hw) (hh j hj hw') hid
  · intro i hd hP
    rcases (he i _ hP hd).1 _ rfl with ⟨_, hr⟩ | ⟨hnot, _⟩
    · exact refused_step hr
    · exact absurd rfl (hnot _)
  · rintro i hd ⟨e, hP⟩
    exact (he i _ hP hd).2 e rfl
  · intro id hre hn hm
    rcases (hinv.ids id).mp hm with hb | ⟨j, hj, hid⟩
    · exact hre hb
    · exact hn j hid (hinv.holds j hj)

end

/-! ## Two starts under one id -/

def emptyBus : RuntimeBus Unit := ⟨⟨.with_journal (.new 10000), ()⟩, some 0⟩

/-- Both calls start the route `r`, under the id `1`. -/
def twoStarts (_ : Bool) : RuntimeCommand := .StartRoute "r" "1" none

/-- The two calls take their steps in this order, and nothing is dropped. -/
def twoStartsRun (order : List Bool) : Interleaves.RunState Bool BusCall BusAnswer
    (Option (Outcome CamelError RuntimeCommandResult)) (RuntimeBus Unit) :=
  order.foldl (Interleaves.advance (busFn {})) ([], executing {} twoStarts, emptyBus)

theorem interleaves_twoStarts (order : List Bool) :
    Interleaves (busSem fun _ _ _ _ => True) (executing {} twoStarts) emptyBus
      (twoStartsRun order).1 (twoStartsRun order).2.1 (twoStartsRun order).2.2 :=
  Interleaves.schedule (busSem_busFn fun _ _ => trivial) _ _ order

/-- The first start has failed, and its id is free again. -/
theorem a_failed_start_gives_its_id_back :
    Failed ((twoStartsRun [false, false, false, false]).2.1 false) ∧
      Truthful {} twoStarts (gateIds {} emptyBus) (twoStartsRun [false, false, false, false]).1
        (twoStartsRun [false, false, false, false]).2.1
        (twoStartsRun [false, false, false, false]).2.2 :=
  ⟨⟨_, rfl⟩, deduplication_is_truthful _ {} twoStarts (interleaves_twoStarts _)⟩

/-- The second start comes while the first one runs, and is answered as a
duplicate. Then the first one fails, and none has started the route. -/
theorem a_duplicate_of_a_failed_start :
    ¬ ∀ (cmds : Bool → RuntimeCommand) (bus₀ bus : RuntimeBus Unit) (h : List (BusStep Bool Unit))
        (P : Bool → BusProg), (∀ i j, (cmds i).command_id = (cmds j).command_id) →
      (∀ i, (cmds i).command_id ∉ gateIds {} bus₀) →
      Interleaves (busSem fun _ _ _ _ => True) (executing {} cmds) bus₀ h P bus →
      (∀ i, ∃ r, P i = .done r) →
      ∀ i, P i = .done (some (.ok (.Duplicate (cmds i).command_id))) → ∃ j, Succeeded (P j) := by
  intro ha
  have hrun := interleaves_twoStarts [false, false, true, true, false, false]
  obtain ⟨j, v, hj, hv⟩ := ha twoStarts _ _ _ _ (fun _ _ => rfl) (by decide) hrun
    (by rintro (_ | _) <;> exact ⟨_, rfl⟩) true rfl
  cases j with
  | false => cases hj
  | true =>
    cases hj
    exact hv _ rfl

end camel_core.lifecycle
