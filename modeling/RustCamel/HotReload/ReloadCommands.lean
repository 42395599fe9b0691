-- The commands of a hot reload, over many boots of one journal. Their ids have no
-- nonce, and their counter starts again in each boot. So an action of a later
-- boot is swallowed when it repeats one of an earlier boot.
import RustCamel.Lifecycle.CommandDedup

namespace camel_core.hot_reload

open camel_api camel_core.lifecycle List

/-! ## The ids of a reload -/

/-- The id, and the counter after `fetch_add`. -/
def next_reload_command_id (op route_id : String) (seq : UInt64) : String × UInt64 :=
  (s!"reload:{op}:{route_id}:{seq.toNat}", seq + 1)

/-- The counter, after so many ids were taken. -/
def reloadSeq : Nat → UInt64
  | 0 => 0
  | k + 1 => reloadSeq k + 1

/-- The places of a reload that send a command. -/
inductive ReloadOp where
  | addStart
  | removeStop
  | remove
  | restartStop
  | restartStart
  | restartRemove

def ReloadOp.op : ReloadOp → String
  | .addStart => "add-start"
  | .removeStop => "remove-stop"
  | .remove => "remove"
  | .restartStop => "restart-stop"
  | .restartStart => "restart-start"
  | .restartRemove => "restart-remove"

structure ReloadAction where
  op : ReloadOp
  route_id : String

namespace ReloadAction

variable (action : ReloadAction)

def command (command_id : String) : RuntimeCommand :=
  match action.op with
  | .addStart | .restartStart => .StartRoute action.route_id command_id none
  | .removeStop | .restartStop => .StopRoute action.route_id command_id none none
  | .remove | .restartRemove => .RemoveRoute action.route_id command_id none

def command_id (seq : UInt64) : String :=
  (next_reload_command_id action.op.op action.route_id seq).1

@[simp] theorem command_id_command (id : String) : (action.command id).command_id = id := by
  obtain ⟨op, route_id⟩ := action
  cases op <;> rfl

theorem toList_command_id (seq : UInt64) :
    (action.command_id seq).toList = "reload".toList ++ ':' :: (action.op.op.toList ++ ':' ::
      (action.route_id.toList ++ ':' :: Nat.toDigits 10 seq.toNat)) := by
  have ht : action.command_id seq = "reload:" ++ action.op.op ++ ":" ++ action.route_id ++ ":" ++
      toString seq.toNat := rfl
  rw [ht]
  simp

/-- The segments of an id. Those of the route id stand in the middle. -/
theorem splitOn_command_id (seq : UInt64) :
    (action.command_id seq).toList.splitOn ':' = "reload".toList :: action.op.op.toList ::
      (action.route_id.toList.splitOn ':' ++ [Nat.toDigits 10 seq.toNat]) := by
  have ho : ':' ∉ action.op.op.toList := by
    cases action.op <;> decide
  rw [toList_command_id, splitOn_append_cons_self_of_not_mem (by decide),
    splitOn_append_cons_self_of_not_mem ho, splitOn_append_cons_self,
    splitOn_eq_singleton (colon_notMem_digits _)]

theorem op_injective : Function.Injective ReloadOp.op := by
  intro op op' h
  cases op <;> cases op' <;> first | rfl | exact absurd h (by decide)

/-- An id names its operation, its route and its count, even when the route id
has colons and digits. -/
theorem command_id_injective {action action' : ReloadAction} {seq seq' : UInt64}
    (h : action.command_id seq = action'.command_id seq') : action = action' ∧ seq = seq' := by
  have hs := congrArg (fun id => id.toList.splitOn ':') h
  rw [splitOn_command_id, splitOn_command_id] at hs
  obtain ⟨_, ht⟩ := List.cons.inj hs
  obtain ⟨ho, ht⟩ := List.cons.inj ht
  obtain ⟨hr, hd⟩ := append_inj' ht rfl
  have hr' : action.route_id = action'.route_id := by
    have hl := congrArg (List.intercalate [':']) hr
    rw [intercalate_splitOn, intercalate_splitOn] at hl
    exact String.toList_inj.mp hl
  have hse : seq = seq' := by
    have hn := congrArg (fun digits => Nat.ofDigitChars 10 digits 0) (List.cons.inj hd).1
    rw [Nat.ofDigitChars_ten_toDigits, Nat.ofDigitChars_ten_toDigits] at hn
    exact UInt64.toNat_inj.mp hn
  obtain ⟨op, route_id⟩ := action
  obtain ⟨op', route_id'⟩ := action'
  obtain rfl : op = op' := op_injective (String.toList_inj.mp ho)
  obtain rfl : route_id = route_id' := hr'
  exact ⟨rfl, hse⟩

end ReloadAction

/-! ## The ids in the journal -/

variable {id : String} {store : InMemoryRuntimeStore} {id' : String}

section

variable {ρ ι : Type} [DecidableEq ι]

/-- The ids that outlive the process. -/
def durableIds (store : InMemoryRuntimeStore) : Finset String :=
  (store.journal.map (·.load_command_ids)).getD ∅

/-- The call took its id, and the journal has not deleted it. -/
def Keeps (g : GatePhase) : Prop := g = .holding ∨ g = .unreleased ∨ g = .lost

theorem durable_sameIds {store' : InMemoryRuntimeStore} (h : SameIds store store') :
    durableIds store' = durableIds store := by
  unfold durableIds RedbRuntimeEventJournal.load_command_ids
  rw [h.2]

variable (env : JournalEnv)

theorem durable_first_seen (hm : id' ∈ durableIds (store.first_seen env id).2) :
    id' ∈ durableIds store ∨ (id' = id ∧ (store.first_seen env id).1 = .ok true) := by
  obtain ⟨inner, journal⟩ := store
  unfold InMemoryRuntimeStore.first_seen at hm ⊢
  split
  · rename_i hs
    rw [if_pos hs] at hm
    exact .inl hm
  · rename_i hs
    rw [if_neg hs] at hm
    cases journal with
    | none => exact .inl hm
    | some journal =>
      unfold RedbRuntimeEventJournal.append_command_id at hm ⊢
      cases hf : env.failure with
      | some error =>
        simp only [hf] at hm
        exact .inl hm
      | none =>
        simp only [hf] at hm ⊢
        rcases Finset.mem_insert.mp hm with heq | hold
        · exact .inr ⟨heq, trivial⟩
        · exact .inl hold

/-- A call that gives its id back has it deleted, unless the journal fails. -/
theorem durable_forget_seen (hs : id ∈ store.inner.seen)
    (hm : id' ∈ durableIds (store.forget_seen env id).2) :
    id' ∈ durableIds store ∧ ((store.forget_seen env id).1 = .ok () → id' ≠ id) := by
  obtain ⟨inner, journal⟩ := store
  unfold InMemoryRuntimeStore.forget_seen at hm ⊢
  simp only [hs, decide_true] at hm ⊢
  cases journal with
  | none => cases hm
  | some journal =>
    unfold RedbRuntimeEventJournal.remove_command_id at hm ⊢
    cases hf : env.failure with
    | some error =>
      simp only [hf] at hm ⊢
      exact ⟨hm, nofun⟩
    | none =>
      simp only [hf] at hm ⊢
      obtain ⟨hn, hold⟩ := Finset.mem_erase.mp hm
      exact ⟨hold, fun _ => hn⟩

variable {deps : CommandDeps} {cmds : ι → RuntimeCommand} {base : Finset String} {held : ι → Prop}
  {h : List (BusStep ι ρ)} {bus bus' : RuntimeBus ρ} {exec : RuntimeSem ρ}

theorem journal_ensure_journal_recovered (order : IterOrder) (bus : RuntimeBus ρ) :
    (bus.ensure_journal_recovered env order).2.world.store.journal = bus.world.store.journal := by
  obtain ⟨hj, _, _⟩ := recover_from_journal_ids env bus.world.store
  unfold RuntimeBus.ensure_journal_recovered
  split
  · rfl
  · split
    · rename_i hrec
      rw [hrec] at hj
      exact hj
    · rename_i hrec
      rw [hrec] at hj
      split <;> exact hj

theorem durable_call {i : ι} (c : BusCall) (r : BusAnswer c)
    (hinv : GateInv deps cmds base held h bus)
    (ho : GateOk deps.uow ((cmds i).command_id, gatePhase deps h i) c)
    (hs : busSem exec c bus r bus') (hid : id ∈ durableIds bus'.world.store) :
    (id ∈ durableIds bus.world.store ∧ (id = (cmds i).command_id → Keeps (gatePhase deps h i) →
      Keeps (gateAfter (gatePhase deps h i) c r))) ∨
    (id = (cmds i).command_id ∧ Keeps (gateAfter (gatePhase deps h i) c r)) := by
  cases c with
  | reload_tls | reload_templates =>
    obtain rfl : bus' = bus := hs
    exact .inl ⟨hid, fun _ hk => hk⟩
  | ensure_journal_recovered =>
    have hi : ¬ Keeps (gatePhase deps h i) := by
      rw [show gatePhase deps h i = .waiting from ho.1]
      simp [Keeps]
    refine .inl ⟨?_, fun _ hk => absurd hk hi⟩
    have hj : bus'.world.store.journal = bus.world.store.journal := by
      cases r with
      | none =>
        rcases hs with rfl | ⟨_, env, rfl⟩
        · rfl
        · exact (recover_from_journal_ids env bus.world.store).1
      | some reply =>
        obtain ⟨env, order, hs⟩ := hs
        rw [show bus' = (bus.ensure_journal_recovered env order).2 from (Prod.mk.inj hs).2]
        exact journal_ensure_journal_recovered env order bus
    unfold durableIds at hid ⊢
    rwa [hj] at hid
  | first_seen id' =>
    obtain ⟨hr, rfl⟩ := ho
    have hi : ¬ Keeps (gatePhase deps h i) := by
      rw [show gatePhase deps h i = .ready from hr]
      simp [Keeps]
    have hold : ∀ {g : GatePhase}, id ∈ durableIds bus.world.store →
        id ∈ durableIds bus.world.store ∧
          (id = (cmds i).command_id → Keeps (gatePhase deps h i) → Keeps g) :=
      fun hm => ⟨hm, fun _ hk => absurd hk hi⟩
    cases r with
    | none =>
      rcases hs with rfl | rfl | ⟨env, rfl⟩
      · exact .inl (hold hid)
      · exact .inl (hold hid)
      · rcases durable_first_seen env hid with hm | ⟨heq, _⟩
        · exact .inl (hold hm)
        · exact .inr ⟨heq, .inr (.inr rfl)⟩
    | some reply =>
      obtain ⟨env, hs⟩ := hs
      obtain ⟨rfl, rfl⟩ := Prod.mk.inj hs
      rcases durable_first_seen env hid with hm | ⟨heq, ht⟩
      · exact .inl (hold hm)
      · rw [ht]
        exact .inr ⟨heq, .inl rfl⟩
  | forget_seen id' =>
    obtain ⟨hh, rfl⟩ := ho
    have hse : (cmds i).command_id ∈ bus.world.store.inner.seen := by
      rw [← gateIds_open (hinv.opened i (.inr (.inl hh))), hinv.ids]
      exact .inr ⟨i, hinv.holding i hh, rfl⟩
    cases r with
    | none =>
      refine .inl ⟨?_, fun _ _ => .inr (.inr rfl)⟩
      rcases hs with rfl | ⟨env, rfl⟩
      · exact hid
      · exact (durable_forget_seen env hse hid).1
    | some reply =>
      obtain ⟨env, hs⟩ := hs
      obtain ⟨rfl, rfl⟩ := Prod.mk.inj hs
      obtain ⟨hm, hd⟩ := durable_forget_seen env hse hid
      refine .inl ⟨hm, fun heq _ => ?_⟩
      rcases hre : (bus.world.store.forget_seen env (cmds i).command_id).1 with error | _
      · exact .inr (.inl rfl)
      · exact absurd heq (hd hre)
  | port c =>
    have hsa : SameIds bus.world.store bus'.world.store := by
      cases r with
      | none => exact hs.1
      | some reply => exact portSem_sameIds hs.1
    rw [durable_sameIds hsa] at hid
    exact .inl ⟨hid, fun _ hk => hk⟩

theorem durable_run {bus₀ : RuntimeBus ρ} {P : ι → BusProg}
    (hr : Interleaves (busSem exec) (executing deps cmds) bus₀ h P bus)
    (hi : id ∈ durableIds bus.world.store) :
    id ∈ durableIds bus₀.world.store ∨
      ∃ i, (cmds i).command_id = id ∧ Keeps (gatePhase deps h i) := by
  induction hr with
  | start => exact .inl hi
  | @step h P bus bus' i c k r hr hP hs ih =>
    obtain ⟨held, hinv⟩ := gate_run hr
    have hf := executing_follows hr i
    rw [hP] at hf
    have hp := gatePhase_same deps (⟨i, c, r, bus, bus'⟩ : BusStep ι ρ) h
    rcases durable_call c r hinv hf.1 hs hi with ⟨hm, hke⟩ | ⟨heq, hk⟩
    · rcases ih hm with hb | ⟨j, hj, hk⟩
      · exact .inl hb
      · refine .inr ⟨j, hj, ?_⟩
        by_cases hji : j = i
        · subst hji
          rw [hp]
          exact hke hj.symm hk
        · rw [gatePhase_other deps h hji]
          exact hk
    · refine .inr ⟨i, heq.symm, ?_⟩
      rw [hp]
      exact hk

end

/-! ## Many boots -/

section

variable {κ ρ : Type} [DecidableEq κ]

/-- The start of one process: the journal that it finds, its reload actions in
the order in which they take their ids, and the other commands that it runs. -/
structure Boot (κ ρ : Type) where
  journal : RedbRuntimeEventJournal
  runtime : ρ
  reloads : List ReloadAction
  others : κ → RuntimeCommand

namespace Boot

abbrev Task (boot : Boot κ ρ) : Type := Fin boot.reloads.length ⊕ κ

def bus (boot : Boot κ ρ) : RuntimeBus ρ := ⟨⟨.with_journal boot.journal, boot.runtime⟩, none⟩

/-- Each action takes the next count, from the first one on. -/
def command (boot : Boot κ ρ) : boot.Task → RuntimeCommand
  | .inl k => (boot.reloads.get k).command ((boot.reloads.get k).command_id (reloadSeq k))
  | .inr j => boot.others j

end Boot

/-- The process, with the steps of all its calls until it ends or crashes. -/
structure BootRun (κ ρ : Type) extends Boot κ ρ where
  steps : List (BusStep toBoot.Task ρ)

/-- The call took its id in this boot, and left it in the journal. -/
def BootRun.Records (deps : CommandDeps) (boot : BootRun κ ρ) (i : boot.Task) : Prop :=
  Keeps (gatePhase deps boot.steps i)

/-- The boots of one journal, the newest first. The journal is the one that they
leave, and no command was recorded before them. -/
inductive Boots (exec : RuntimeSem ρ) (deps : CommandDeps) :
    List (BootRun κ ρ) → RedbRuntimeEventJournal → Prop
  | start {journal : RedbRuntimeEventJournal} : journal.command_ids = ∅ → Boots exec deps [] journal
  | boot {boots : List (BootRun κ ρ)} {boot : BootRun κ ρ} {P : boot.Task → BusProg}
      {bus : RuntimeBus ρ}
      {journal : RedbRuntimeEventJournal} : Boots exec deps boots boot.journal →
      Interleaves (busSem exec) (executing deps boot.command) boot.bus boot.steps P bus →
      bus.world.store.journal = some journal → Boots exec deps (boot :: boots) journal

/-- No action of the later boot has the operation, the route and the count of an
action that the earlier one has recorded. The other ids of the earlier one
do not start as those of a reload. -/
structure Apart (deps : CommandDeps) (later earlier : BootRun κ ρ) : Prop where
  reloads : ∀ (k : Fin later.reloads.length) (k' : Fin earlier.reloads.length),
    earlier.Records deps (.inl k') → reloadSeq k = reloadSeq k' →
    later.reloads.get k ≠ earlier.reloads.get k'
  others : ∀ j, earlier.Records deps (.inr j) →
    ¬ "reload:".toList <+: (earlier.others j).command_id.toList

/-- The reload actions of a boot have ids that the journal has not. One of them
is a duplicate only of another call of this boot. -/
structure Unswallowed (deps : CommandDeps) (boot : BootRun κ ρ) : Prop where
  new : ∀ k, (boot.command (.inl k)).command_id ∉ boot.journal.command_ids
  duplicate : Interleaves.EachStep (fun e h => Refuses e → ∀ k, e.task = .inl k →
    ∃ j, j ≠ e.task ∧ (boot.command j).command_id = (boot.command e.task).command_id ∧
      Holds (gatePhase deps h j)) boot.steps

variable {exec : RuntimeSem ρ} {deps : CommandDeps} {boots : List (BootRun κ ρ)}
  {journal : RedbRuntimeEventJournal}

theorem recorded_by_a_boot (hb : Boots exec deps boots journal) (hid : id ∈ journal.command_ids) :
    ∃ boot ∈ boots, ∃ i, boot.Records deps i ∧ (boot.command i).command_id = id := by
  induction hb with
  | start he =>
    rw [he] at hid
    cases hid
  | @boot boots boot P bus journal _ hru hj ih =>
    have hd : id ∈ durableIds bus.world.store := by
      rw [durableIds, hj]
      exact hid
    rcases durable_run hru hd with hold | ⟨i, hi, hk⟩
    · obtain ⟨boot', hbo', hr⟩ := ih hold
      exact ⟨boot', .tail _ hbo', hr⟩
    · exact ⟨boot, mem_cons_self, i, hk, hi⟩

omit [DecidableEq κ] in
theorem gateIds_bus (boot : BootRun κ ρ) (hi : id ∈ gateIds deps boot.bus) :
    id ∈ boot.journal.command_ids := by
  unfold gateIds at hi
  split at hi
  · exact hi
  · cases hi

theorem unswallowed_of_apart {boot : BootRun κ ρ} {P : boot.Task → BusProg} {bus : RuntimeBus ρ}
    (hb : Boots exec deps boots boot.journal)
    (hru : Interleaves (busSem exec) (executing deps boot.command) boot.bus boot.steps P bus)
    (hap : ∀ earlier ∈ boots, Apart deps boot earlier) : Unswallowed deps boot := by
  have hn : ∀ k, (boot.command (.inl k)).command_id ∉ boot.journal.command_ids := by
    intro k hm
    obtain ⟨earlier, he, i, hr, hi⟩ := recorded_by_a_boot hb hm
    rw [Boot.command, ReloadAction.command_id_command] at hi
    cases i with
    | inl k' =>
      rw [Boot.command, ReloadAction.command_id_command] at hi
      obtain ⟨ha, hs⟩ := ReloadAction.command_id_injective hi
      exact (hap earlier he).reloads k k' hr hs.symm ha.symm
    | inr j =>
      refine (hap earlier he).others j hr ?_
      rw [show (earlier.others j).command_id = _ from hi, ReloadAction.toList_command_id]
      exact prefix_append _ _
  refine ⟨hn, Interleaves.EachStep.imp ?_ (refusal_is_true hru)⟩
  intro e h hh hre k hk
  rcases hh hre with hold | ho
  · rw [hk] at hold
    exact absurd (gateIds_bus boot hold) (hn k)
  · exact ho

/-- In every sequence of boots that keep apart, no reload action is swallowed. -/
theorem reload_actions_are_not_swallowed (exec : RuntimeSem ρ) (deps : CommandDeps)
    (boots : List (BootRun κ ρ)) {journal : RedbRuntimeEventJournal}
    (hboots : Boots exec deps boots journal) (hapart : boots.Pairwise (Apart deps)) :
    ∀ boot ∈ boots, Unswallowed deps boot := by
  induction hboots with
  | start =>
    intro boot hb
    cases hb
  | @boot boots boot P bus journal hboots hr _ ih =>
    obtain ⟨hlast, hapart⟩ := pairwise_cons.mp hapart
    intro b hb
    rcases mem_cons.mp hb with rfl | hb
    · exact unswallowed_of_apart hboots hr hlast
    · exact ih hapart b hb

end

/-! ## Two boots that add a route -/

def twoRoutes : RedbRuntimeEventJournal :=
  ((RedbRuntimeEventJournal.new 10000).append_batch {}
    [.RouteRegistered "r", .RouteRegistered "s"]).2

def addStart (journal : RedbRuntimeEventJournal) (route_id : String) : Boot Empty Unit :=
  ⟨journal, (), [⟨.addStart, route_id⟩], nofun⟩

section

variable (journal : RedbRuntimeEventJournal)

/-- The start runs from its first call to its last, and nothing fails. -/
def addStartRun (route_id : String) :
    Interleaves.RunState (addStart journal route_id).Task BusCall BusAnswer
      (Option (Outcome CamelError RuntimeCommandResult)) (RuntimeBus Unit) :=
  (List.replicate 6 (.inl ⟨0, Nat.one_pos⟩)).foldl (Interleaves.advance (busFn {}))
    ([], executing {} (addStart journal route_id).command, (addStart journal route_id).bus)

def addStartBoot (route_id : String) : BootRun Empty Unit :=
  ⟨addStart journal route_id, (addStartRun journal route_id).1⟩

/-- The journal that the boot leaves. -/
def addStartJournal (route_id : String) : RedbRuntimeEventJournal :=
  (addStartRun journal route_id).2.2.world.store.journal.getD journal

end

theorem boots_addStart {boots : List (BootRun Empty Unit)} {journal : RedbRuntimeEventJournal}
    {route_id : String} (hb : Boots (fun _ _ _ _ => True) {} boots journal)
    (hs : (addStartRun journal route_id).2.2.world.store.journal.isSome) :
    Boots (fun _ _ _ _ => True) {} (addStartBoot journal route_id :: boots)
      (addStartJournal journal route_id) := by
  have hr : Interleaves (busSem fun _ _ _ _ => True)
      (executing {} (addStartBoot journal route_id).command) (addStartBoot journal route_id).bus
      (addStartBoot journal route_id).steps (addStartRun journal route_id).2.1
      (addStartRun journal route_id).2.2 :=
    Interleaves.schedule (busSem_busFn fun _ _ => trivial) _ _ _
  refine .boot hb hr ?_
  obtain ⟨left, hl⟩ := Option.isSome_iff_exists.mp hs
  rw [addStartJournal, hl, Option.getD_some]

def addTwice (route_id route_id' : String) : List (BootRun Empty Unit) :=
  [addStartBoot (addStartJournal twoRoutes route_id) route_id', addStartBoot twoRoutes route_id]

/-- The second boot starts the route with the id that the first one has
recorded, so the start is answered as a duplicate. -/
theorem a_second_boot_swallows_its_reload :
    ¬ ∀ (boots : List (BootRun Empty Unit)) (journal : RedbRuntimeEventJournal),
      Boots (fun _ _ _ _ => True) {} boots journal → ∀ boot ∈ boots, Unswallowed {} boot := by
  intro ha
  have hb : Boots (fun _ _ _ _ => True) {} (addTwice "r" "r") _ :=
    boots_addStart (boots_addStart (.start rfl) (by decide +kernel)) (by decide +kernel)
  have hd := (ha _ _ hb _ mem_cons_self).duplicate
  obtain ⟨e, he, hr⟩ : ∃ e ∈ (addStartRun (addStartJournal twoRoutes "r") "r").1, Refuses e := by
    decide +kernel
  obtain ⟨h, hs⟩ := hd.of_mem he
  have ho : ∀ i j : Fin 1 ⊕ Empty, i = j
    | .inl i, .inl j => congrArg Sum.inl (Subsingleton.elim i j)
  obtain ⟨k, hk⟩ : ∃ k, e.task = .inl k := ⟨⟨0, Nat.one_pos⟩, ho _ _⟩
  obtain ⟨j, hj, _⟩ := hs hr k hk
  exact hj (ho _ _)

theorem a_second_boot_starts_another_route :
    (addTwice "r" "s").Pairwise (Apart {}) ∧ ∀ boot ∈ addTwice "r" "s", Unswallowed {} boot := by
  have hb : Boots (fun _ _ _ _ => True) {} (addTwice "r" "s") _ :=
    boots_addStart (boots_addStart (.start rfl) (by decide +kernel)) (by decide +kernel)
  have ha : (addTwice "r" "s").Pairwise (Apart {}) := by
    refine pairwise_pair.mpr ⟨?_, nofun⟩
    intro k k' _ _ hac
    have hr := congrArg ReloadAction.route_id hac
    rw [Fin.fin_one_eq_zero k, Fin.fin_one_eq_zero k'] at hr
    exact absurd hr (by decide)
  exact ⟨ha, reload_actions_are_not_swallowed _ {} _ hb ha⟩

end camel_core.hot_reload
