-- The law of the compaction: a recovery cannot see it. The rows that
-- `compact` deletes are followed by a removal or a new registration of the
-- same route, and an append never goes below a row that is still there.
import RustCamel.Lifecycle.Replay

open OrdMap

variable {now_ms : Int}

namespace camel_core.lifecycle

open KeyedReplay RedbRuntimeEventJournal List

/-! ## The entries of the table as a log -/

def entryRoute (entry : JournalEntry) : String := entry.event.route_id

def entryStep (s : Option RouteRuntimeAggregate) (entry : JournalEntry) :
    Option RouteRuntimeAggregate := routeStep s entry.event

def removes (entry : JournalEntry) : Bool :=
  match entry.event with
  | .RouteRemoved _ => true
  | _ => false

def registers (entry : JournalEntry) : Bool :=
  match entry.event with
  | .RouteRegistered _ => true
  | _ => false

theorem routeAfter_entries (id : String) (entries : List JournalEntry) :
    routeAfter id (entries.map (·.event)) = replayAt entryRoute entryStep id entries := by
  unfold routeAfter replayAt
  rw [foldl_map]
  rfl

theorem entryStep_removes (entry : JournalEntry) (h : removes entry = true)
    (s : Option RouteRuntimeAggregate) : entryStep s entry = none := by
  rcases entry with ⟨_, _, event⟩
  cases event <;> simp_all [removes, entryStep, routeStep]

theorem entryStep_registers (entry : JournalEntry) (h : registers entry = true)
    (s : Option RouteRuntimeAggregate) : entryStep s entry = entryStep none entry := by
  rcases entry with ⟨_, _, event⟩
  cases event <;> simp_all [registers, entryStep, routeStep]

/-! ## The two passes of `compact` -/

/-- One turn of the loop of pass 1. -/
def lastSeqsStep (m : Finmap (fun _ : String => Nat) × Finmap (fun _ : String => Nat))
    (row : Nat × JournalEntry) :
    Finmap (fun _ : String => Nat) × Finmap (fun _ : String => Nat) :=
  match row.2.event with
  | .RouteRemoved route_id => (m.1.insert route_id row.1, m.2)
  | .RouteRegistered route_id => (m.1, m.2.insert route_id row.1)
  | _ => m

theorem lastSeqsStep_lookup (m : Finmap (fun _ : String => Nat) × Finmap (fun _ : String => Nat))
    (row : Nat × JournalEntry) (id : String) :
    (lastSeqsStep m row).1.lookup id =
        (if entryRoute row.2 = id ∧ removes row.2 then some row.1 else m.1.lookup id) ∧
      (lastSeqsStep m row).2.lookup id =
        (if entryRoute row.2 = id ∧ registers row.2 then some row.1 else m.2.lookup id) := by
  rcases row with ⟨seq, ⟨_, _, event⟩⟩
  cases event <;>
    simp [lastSeqsStep, entryRoute, RuntimeEvent.route_id, removes, registers, lookup_upsert]

section

variable (table : EventsTable)

theorem last_seqs_eq : last_seqs table = table.rows.foldl lastSeqsStep (∅, ∅) := rfl

theorem last_seqs_spec (id : String) :
    (last_seqs table).1.lookup id = lastAt entryRoute removes id table.rows ∧
      (last_seqs table).2.lookup id = lastAt entryRoute registers id table.rows := by
  rw [last_seqs_eq]
  generalize table.rows = rows
  induction rows using List.reverseRecOn with
  | nil => exact ⟨rfl, rfl⟩
  | append_singleton rows row ih =>
    rw [foldl_append, foldl_cons, foldl_nil, lastAt_snoc, lastAt_snoc,
      (lastSeqsStep_lookup _ row id).1, (lastSeqsStep_lookup _ row id).2, ih.1, ih.2]
    exact ⟨rfl, rfl⟩

theorem rows_compact_table :
    (compact_table table).rows =
      table.rows.filter fun row => !deletable (last_seqs table).1 (last_seqs table).2 row := by
  unfold compact_table
  simp only
  split
  · rename_i he
    rw [he.1, he.2, filter_eq_self.mpr]
    intro row _
    simp [deletable]
  · exact rows_removeAll_filter _ _

theorem not_deletable_eq_survives (row : Nat × JournalEntry) :
    (!deletable (last_seqs table).1 (last_seqs table).2 row) =
      survives (lastAt entryRoute removes (entryRoute row.2) table.rows)
        (lastAt entryRoute registers (entryRoute row.2) table.rows) row.1 := by
  unfold deletable survives
  have h := last_seqs_spec table (entryRoute row.2)
  simp only [entryRoute] at h ⊢
  rw [h.1, h.2, Bool.not_or]

end

theorem load_all_compact (journal : RedbRuntimeEventJournal) (id : String) :
    routeAfter id journal.compact.load_all = routeAfter id journal.load_all := by
  have hl : ∀ rows : List (Nat × JournalEntry),
      rows.map (fun row => row.2.event) = (rows.map (·.2)).map (·.event) := by
    intro rows
    rw [List.map_map]
    rfl
  unfold load_all compact
  rw [rows_compact_table, hl, hl, routeAfter_entries, routeAfter_entries]
  -- Only the rows of `id` count, and for those the two cutoffs are those of `id`.
  have hc : replayAt entryRoute entryStep id ((journal.events.rows.filter fun row =>
        !deletable (last_seqs journal.events).1 (last_seqs journal.events).2 row).map (·.2)) =
      replayAt entryRoute entryStep id ((journal.events.rows.filter fun row =>
        survives (lastAt entryRoute removes id journal.events.rows)
          (lastAt entryRoute registers id journal.events.rows) row.1).map (·.2)) := by
    apply replayAt_rows_congr
    intro row _ hi
    rw [not_deletable_eq_survives, hi]
  rw [hc]
  exact replayAt_survivors id entryStep_removes entryStep_registers journal.events.sorted

/-! ## Appends -/

theorem load_append_rows {events : List RuntimeEvent} {table table' : EventsTable} {seq : Nat}
    (hse : ∀ row ∈ table.rows, row.1 < seq)
    (h : append_rows now_ms table seq events = .ok table') :
    table'.rows.map (·.2.event) = table.rows.map (·.2.event) ++ events := by
  induction events generalizing table seq with
  | nil =>
    unfold append_rows at h
    split at h
    · cases h
    · cases h
      simp
  | cons event events ih =>
    unfold append_rows at h
    split at h
    · cases h
    · rename_i following hs
      obtain ⟨_, rfl⟩ := u64_succ_ok hs
      have hr := rows_insert_top ⟨seq, now_ms, event⟩ hse
      rw [ih _ h, hr]
      · simp
      · intro row hro
        rw [hr] at hro
        rcases mem_append.mp hro with hro | hro
        · have := hse row hro
          omega
        · rw [mem_singleton.mp hro]
          omega

/-- An append writes its events after every row that is there, also when a
compaction took the highest numbers and they are handed out again. -/
theorem load_append_tx {events : List RuntimeEvent} {table table' : EventsTable}
    (h : append_tx now_ms events table = .ok table') :
    table'.rows.map (·.2.event) = table.rows.map (·.2.event) ++ events := by
  unfold append_tx at h
  split at h
  · cases h
  · rename_i start_seq hn
    refine load_append_rows ?_ h
    unfold next_seq at hn
    split at hn
    · rename_i last hlast
      obtain ⟨_, rfl⟩ := u64_succ_ok hn
      intro row hr
      have := le_of_lastKey hlast row hr
      omega
    · rename_i hlast
      rw [rows_of_lastKey_none hlast]
      simp

/-- A call of `append_batch` that succeeds leaves each route as the rows before
it and then its events do, also when it compacts. One that fails leaves the
journal as it was. -/
theorem append_batch_spec {env : JournalEnv} {events : List RuntimeEvent}
    {journal journal' : RedbRuntimeEventJournal} {result : Except DomainError Unit}
    (h : journal.append_batch env events = (result, journal')) :
    (result = .ok () ∧ journal'.command_ids = journal.command_ids ∧
        ∀ id, routeAfter id journal'.load_all = routeAfter id (journal.load_all ++ events)) ∨
      ((∃ error, result = .error error) ∧ journal' = journal) := by
  unfold append_batch at h
  split at h
  · rename_i hnil
    cases h
    exact .inl ⟨rfl, rfl, fun id => by rw [hnil, append_nil]⟩
  · split at h
    · cases h
      exact .inr ⟨⟨_, rfl⟩, rfl⟩
    · split at h
      · cases h
        exact .inr ⟨⟨_, rfl⟩, rfl⟩
      · cases h
        exact .inr ⟨⟨_, rfl⟩, rfl⟩
      · rename_i table ht
        cases h
        refine .inl ⟨rfl, ?_, ?_⟩
        · unfold compact_if_due compact
          split <;> rfl
        · intro id
          have hl : load_all { journal with events := table } = journal.load_all ++ events :=
            load_append_tx ht
          unfold compact_if_due
          split
          · rw [load_all_compact, hl]
          · rw [hl]

/-! ## Runs of the journal -/

/-- One step on the table of events: a whole call of `append_batch`, its write
transaction alone (another step may come before its compaction), or a
compaction. -/
inductive JournalStep where
  | append_batch (env : JournalEnv) (events : List RuntimeEvent)
  | append_tx (now_ms : Int) (events : List RuntimeEvent)
  | compact

variable (s : RedbRuntimeEventJournal × List RuntimeEvent)

/-- A step on the journal. The second component collects the events of the
appends that committed. -/
def JournalStep.apply : JournalStep → RedbRuntimeEventJournal × List RuntimeEvent
  | .append_batch env events =>
    match s.1.append_batch env events with
    | (.ok (), journal) => (journal, s.2 ++ events)
    | (.error _, journal) => (journal, s.2)
  | .append_tx now_ms events =>
    match RedbRuntimeEventJournal.append_tx now_ms events s.1.events with
    | .ok table => ({ s.1 with events := table }, s.2 ++ events)
    | .error _ => s
  | .compact => (s.1.compact, s.2)

def journalRun (compaction_threshold_events : Nat) (steps : List JournalStep) :
    RedbRuntimeEventJournal × List RuntimeEvent :=
  steps.foldl JournalStep.apply (.new compaction_threshold_events, [])

/-- The journal leaves each route as the whole history does. -/
def Faithful : Prop := ∀ id, routeAfter id s.1.load_all = routeAfter id s.2

theorem faithful_step (step : JournalStep) (h : Faithful s) : Faithful (step.apply s) := by
  intro id
  cases step with
  | append_batch env events =>
    simp only [JournalStep.apply]
    split
    · rename_i journal hb
      rcases append_batch_spec hb with ⟨_, _, hl⟩ | ⟨⟨_, he⟩, _⟩
      · rw [hl]
        exact replayAt_append_congr _ _ (h id) events
      · cases he
    · rename_i journal hb
      rcases append_batch_spec hb with ⟨ho, _⟩ | ⟨_, rfl⟩
      · cases ho
      · exact h id
  | append_tx now_ms events =>
    simp only [JournalStep.apply]
    split
    · rename_i table ht
      unfold load_all
      rw [load_append_tx ht]
      exact replayAt_append_congr _ _ (h id) events
    · exact h id
  | compact =>
    simp only [JournalStep.apply]
    rw [load_all_compact]
    exact h id

theorem faithful_run (threshold : Nat) (steps : List JournalStep) :
    Faithful (journalRun threshold steps) := by
  unfold journalRun
  induction steps using List.reverseRecOn with
  | nil => exact fun _ => rfl
  | append_singleton steps step ih =>
    rw [foldl_append]
    exact faithful_step _ step ih

/-- The compaction is invisible to recovery. Whatever the order of the appends
and of the compactions, the replay of what the journal holds gives the same
aggregates and the same statuses as the replay of everything that was ever
appended. -/
theorem compaction_is_invisible_to_recovery (threshold : Nat) (steps : List JournalStep) :
    (replay (journalRun threshold steps).1.load_all).routes =
        (replay (journalRun threshold steps).2).routes ∧
      (replay (journalRun threshold steps).1.load_all).statuses =
        (replay (journalRun threshold steps).2).statuses :=
  replay_congr (faithful_run threshold steps)

/-- The removal of `r` takes the numbers 0 and 1 away, and 0 is handed out again. -/
example :
    ((journalRun 10000
      [.append_batch {} [.RouteRegistered "r"], .append_batch {} [.RouteRemoved "r"], .compact,
        .append_batch {} [.RouteRegistered "s"]]).1.events.rows.map (·.1)) = [0] := by decide

end camel_core.lifecycle
