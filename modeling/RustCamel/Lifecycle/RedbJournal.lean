-- The durable journal of `adapters/redb_journal.rs`: the table of events with
-- its sequence numbers, the compaction, and the table of command ids. A redb
-- transaction is one atomic step, and one that fails leaves no trace.
import Mathlib.Data.Finmap
import RustCamel.Lib.OrdMap
import RustCamel.Lifecycle.RouteRuntime

namespace camel_core.lifecycle

structure JournalEntry where
  seq : Nat
  timestamp_ms : Int
  event : RuntimeEvent

/-- The table `events`: sequence number to entry. -/
abbrev EventsTable := OrdMap Nat JournalEntry

/-- The two tables of the journal, and the option that `append_batch` reads.
The table `command_ids` holds keys only. -/
structure RedbRuntimeEventJournal where
  events : EventsTable
  command_ids : Finset String
  compaction_threshold_events : Nat

/-- What the machine around a call of the journal does: the clock, the redb
error of the transaction if there is one, the text of a join error, and
whether the compaction after an append fails. -/
structure JournalEnv where
  now_ms : Int := 0
  failure : Option DomainError := none
  join_error : String := ""
  compaction_fails : Bool := false

namespace RedbRuntimeEventJournal

/-- A new journal with this option. The default is 10000. -/
def new (compaction_threshold_events : Nat) : RedbRuntimeEventJournal :=
  ⟨.empty, ∅, compaction_threshold_events⟩

/-- The sequence number after the last key, and 0 for an empty table. -/
def next_seq (table : EventsTable) : Outcome DomainError Nat :=
  match table.lastKey with
  | some k => u64_succ k
  | none => .ok 0

/-- The loop of `append_batch`, `(start_seq..).zip(events)`. The range counts
on before the loop looks for an event, so it panics at `u64::MAX`. -/
def append_rows (now_ms : Int) :
    EventsTable → Nat → List RuntimeEvent → Outcome DomainError EventsTable
  | table, next_seq, [] =>
    match (u64_succ next_seq : Outcome DomainError Nat) with
    | .error fault => .error fault
    | .ok _ => .ok table
  | table, next_seq, event :: rest =>
    match (u64_succ next_seq : Outcome DomainError Nat) with
    | .error fault => .error fault
    | .ok following =>
      append_rows now_ms (table.insert next_seq ⟨next_seq, now_ms, event⟩) following rest

/-- The write transaction of `append_batch`. -/
def append_tx (now_ms : Int) (events : List RuntimeEvent) (table : EventsTable) :
    Outcome DomainError EventsTable :=
  match next_seq table with
  | .error fault => .error fault
  | .ok start_seq => append_rows now_ms table start_seq events

/-- Pass 1 of `compact`: the last `RouteRemoved` and the last `RouteRegistered`
of each route. -/
def last_seqs (table : EventsTable) :
    Finmap (fun _ : String => Nat) × Finmap (fun _ : String => Nat) :=
  table.rows.foldl (fun (removed, registered) row =>
    match row.2.event with
    | .RouteRemoved route_id => (removed.insert route_id row.1, registered)
    | .RouteRegistered route_id => (removed, registered.insert route_id row.1)
    | _ => (removed, registered)) (∅, ∅)

/-- Pass 2 of `compact`: a row is deleted under either rule. -/
def deletable (last_removed_seq last_registered_seq : Finmap (fun _ : String => Nat))
    (row : Nat × JournalEntry) : Bool :=
  let route_id := row.2.event.route_id
  let removed := (last_removed_seq.lookup route_id).any fun cutoff => row.1 ≤ cutoff
  let superseded := (last_registered_seq.lookup route_id).any fun checkpoint => row.1 < checkpoint
  removed || superseded

def compact_table (table : EventsTable) : EventsTable :=
  let (last_removed_seq, last_registered_seq) := last_seqs table
  if last_removed_seq = ∅ ∧ last_registered_seq = ∅ then table
  else
    let to_delete := (table.rows.filter (deletable last_removed_seq last_registered_seq)).map (·.1)
    to_delete.foldl OrdMap.remove table

variable (self : RedbRuntimeEventJournal)

def compact : RedbRuntimeEventJournal := { self with events := compact_table self.events }

def event_count : Nat := self.events.rows.length

variable (env : JournalEnv)

/-- The second task of `append_batch`: the compaction when the threshold is
reached. An error of it is only logged. -/
def compact_if_due (self : RedbRuntimeEventJournal) : RedbRuntimeEventJournal :=
  if self.compaction_threshold_events ≤ self.event_count ∧ ¬ env.compaction_fails then self.compact
  else self

def append_batch (events : List RuntimeEvent) (self : RedbRuntimeEventJournal) :
    Except DomainError Unit × RedbRuntimeEventJournal :=
  if events = [] then (.ok (), self)
  else
    match env.failure with
    | some error => (.error error, self)
    | none =>
      match append_tx env.now_ms events self.events with
      | .error (.err error) => (.error error, self)
      | .error .panic => (.error (.InvalidState s!"spawn_blocking join: {env.join_error}"), self)
      | .ok table => (.ok (), compact_if_due env { self with events := table })

def load_all : List RuntimeEvent := self.events.rows.map (·.2.event)

def append_command_id (command_id : String) (self : RedbRuntimeEventJournal) :
    Except DomainError Unit × RedbRuntimeEventJournal :=
  match env.failure with
  | some error => (.error error, self)
  | none => (.ok (), { self with command_ids := insert command_id self.command_ids })

def remove_command_id (command_id : String) (self : RedbRuntimeEventJournal) :
    Except DomainError Unit × RedbRuntimeEventJournal :=
  match env.failure with
  | some error => (.error error, self)
  | none => (.ok (), { self with command_ids := self.command_ids.erase command_id })

/-- The keys of the table `command_ids`. Their order does not matter to the
one reader, which puts them into a set. -/
def load_command_ids : Finset String := self.command_ids

end RedbRuntimeEventJournal

end camel_core.lifecycle
