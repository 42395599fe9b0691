-- The claim loop of a recovery pass in `streams.rs`: XAUTOCLAIM from the stored cursor on, until
-- the cursor is back at its start or the budget is used up. The `redis` crate stands as a
-- parameter.
import RustCamel.Lib.Fallible
import RustCamel.Redis.AckAfterSuccess

open Fallible (bind_eq_ok)

namespace camel_redis.streams.claim

/-! ## The replies -/

/-- `redis::Value`, by what a claim looks into. -/
inductive Value where
  | Nil
  | Array (items : List Value)
  | Other (text : String)

/-- What the crate makes of a value, and of a reply that has another shape. -/
structure Crate where
  value_to_string : Value → Except CamelError String
  reply_type_error : String → CamelError

structure ClaimReply where
  entries : List RecoveredEntry
  next_cursor : String

section

variable (crate : Crate)

def mismatch {α : Type} (what : String) : Except CamelError α :=
  .error (crate.reply_type_error what)

def flat_pairs : List Value → Except CamelError (List (String × String))
  | field :: value :: items => do
    let pair := (← crate.value_to_string field, ← crate.value_to_string value)
    .ok (pair :: (← flat_pairs items))
  | _ => .ok []

def parse_flat_fields : Value → Except CamelError (List (String × String))
  | .Array items =>
    if items.length % 2 ≠ 0 then
      mismatch crate "XAUTOCLAIM field values must pair every field with a value"
    else flat_pairs crate items
  | _ => mismatch crate "XAUTOCLAIM field values must be an array"

def parse_claimed_entry : Value → Except CamelError RecoveredEntry
  | .Array [id, fields] => do
    .ok ⟨⟨← crate.value_to_string id, ← parse_flat_fields crate fields, 1⟩, none⟩
  | .Array _ => mismatch crate "XAUTOCLAIM entry must carry an id and field values"
  | _ => mismatch crate "XAUTOCLAIM entry must be an array"

/-- A nil stands for an entry that was deleted while it was pending. -/
def parse_items : List Value → Except CamelError (List RecoveredEntry)
  | [] => .ok []
  | .Nil :: items => parse_items items
  | item :: items => do
    let entry ← parse_claimed_entry crate item
    .ok (entry :: (← parse_items items))

def parse_claimed_entries : Value → Except CamelError (List RecoveredEntry)
  | .Array items => parse_items crate items
  | _ => mismatch crate "XAUTOCLAIM entries must be an array"

def parse_claim_reply : Value → Except CamelError ClaimReply
  | .Array (cursor :: entries :: _) => do
    let next_cursor ← crate.value_to_string cursor
    .ok ⟨← parse_claimed_entries crate entries, next_cursor⟩
  | .Array _ => mismatch crate "XAUTOCLAIM reply must carry a cursor and entries"
  | _ => mismatch crate "XAUTOCLAIM reply must be an array"

end

/-! ## The driver -/

structure ClaimLoopResult where
  recovered : List RecoveredEntry
  next_cursor : String
  commands_issued : Nat

inductive ClaimStep where
  | Cmd (args : List String)
  | Done (result : Except CamelError ClaimLoopResult)

structure ClaimLoopState where
  cursor : String
  remaining : Nat
  commands_issued : Nat
  recovered : List RecoveredEntry

structure ClaimLoopDriver where
  key : String
  group : String
  consumer : String
  min_idle_ms : Nat
  budget : Nat
  state : ClaimLoopState

namespace ClaimLoopDriver

variable (crate : Crate) (d : ClaimLoopDriver)

def new (key group consumer : String) (min_idle_ms : Nat) (cursor : String) (budget : Nat) :
    ClaimLoopDriver :=
  ⟨key, group, consumer, min_idle_ms, budget, ⟨cursor, budget, 0, []⟩⟩

def finish_ok : ClaimStep × ClaimLoopDriver :=
  (.Done (.ok ⟨d.state.recovered, d.state.cursor, d.state.commands_issued⟩),
    { d with state := { d.state with recovered := [] } })

def frame (cursor : String) (remaining : Nat) : List String :=
  ["XAUTOCLAIM", d.key, d.group, d.consumer, toString d.min_idle_ms, cursor, "COUNT",
    toString remaining]

def issue_next : ClaimStep × ClaimLoopDriver :=
  if d.state.remaining = 0 ∨ d.budget ≤ d.state.commands_issued then d.finish_ok
  else (.Cmd (d.frame d.state.cursor d.state.remaining),
    { d with state := { d.state with commands_issued := d.state.commands_issued + 1 } })

def advance : Option Value → ClaimStep × ClaimLoopDriver
  | none =>
    if d.state.commands_issued = 0 then d.issue_next
    else (.Done (mismatch crate "claim loop advance requires the issued command's reply"), d)
  | some reply =>
    if d.state.commands_issued = 0 then
      (.Done (mismatch crate "claim loop received a reply before issuing a command"), d)
    else
      match parse_claim_reply crate reply with
      | .error err => (.Done (.error err), d)
      | .ok parsed =>
        let d := { d with state := { d.state with
          cursor := parsed.next_cursor
          remaining := d.state.remaining - parsed.entries.length
          recovered := d.state.recovered ++ parsed.entries } }
        if d.state.cursor = "0-0" ∨ d.state.remaining = 0 ∨ d.budget ≤ d.state.commands_issued then
          d.finish_ok
        else d.issue_next

def start : ClaimStep × ClaimLoopDriver := d.advance crate none

end ClaimLoopDriver

abbrev Answer := Except CamelError Value

/-- The loop of `recover` over the answers of the connection: the frames, and the result unless the
last of them is still out. -/
def drive (crate : Crate) : ClaimStep × ClaimLoopDriver → List Answer →
    List (List String) × Option (Except CamelError ClaimLoopResult)
  | (.Done result, _), _ => ([], some result)
  | (.Cmd args, _), [] => ([args], none)
  | (.Cmd args, _), .error e :: _ => ([args], some (.error e))
  | (.Cmd args, d), .ok reply :: answers =>
    (drive crate (d.advance crate (some reply)) answers).map (args :: ·) id

/-- No reply has more items than the COUNT of its frame asked for. -/
def Polite (crate : Crate) : ClaimStep × ClaimLoopDriver → List Answer → Prop
  | (.Cmd _, d), .ok reply :: answers =>
    (∀ cursor items rest, reply = .Array (cursor :: .Array items :: rest) →
      items.length ≤ d.state.remaining) ∧ Polite crate (d.advance crate (some reply)) answers
  | _, _ => True

/-! ## The budget -/

/-- A claim loop at a cursor with a number of entries and commands left, over the answers: its
frames, the entries they claimed, and the cursor in the end. -/
inductive Claims (crate : Crate) (frame : String → Nat → List String) : String → Nat → Nat →
    List Answer → List (List String) → Nat → Option (Except CamelError String) → Prop
  | waits {cursor : String} {remaining left : Nat} :
      Claims crate frame cursor remaining (left + 1) [] [frame cursor remaining] 0 none
  | fails {cursor : String} {remaining left : Nat} {e : CamelError} {answers : List Answer} :
      Claims crate frame cursor remaining (left + 1) (.error e :: answers)
        [frame cursor remaining] 0 (some (.error e))
  | garbled {cursor : String} {remaining left : Nat} {reply : Value} {e : CamelError}
      {answers : List Answer} (h : parse_claim_reply crate reply = .error e) :
      Claims crate frame cursor remaining (left + 1) (.ok reply :: answers)
        [frame cursor remaining] 0 (some (.error e))
  | ends {cursor : String} {remaining left : Nat} {reply : Value} {parsed : ClaimReply}
      {answers : List Answer} (h : parse_claim_reply crate reply = .ok parsed)
      (hle : parsed.entries.length ≤ remaining)
      (hend : parsed.next_cursor = "0-0" ∨ parsed.entries.length = remaining ∨ left = 0) :
      Claims crate frame cursor remaining (left + 1) (.ok reply :: answers)
        [frame cursor remaining] parsed.entries.length (some (.ok parsed.next_cursor))
  | goes_on {cursor : String} {remaining left total : Nat} {reply : Value} {parsed : ClaimReply}
      {answers : List Answer} {frames : List (List String)}
      {outcome : Option (Except CamelError String)}
      (h : parse_claim_reply crate reply = .ok parsed)
      (hne : parsed.next_cursor ≠ "0-0") (hlt : parsed.entries.length < remaining)
      (hnext : Claims crate frame parsed.next_cursor (remaining - parsed.entries.length) left
        answers frames total outcome) :
      Claims crate frame cursor remaining (left + 1) (.ok reply :: answers)
        (frame cursor remaining :: frames) (parsed.entries.length + total) outcome

section

variable {crate : Crate} {frame : String → Nat → List String} {cursor : String}
  {remaining left total : Nat} {answers : List Answer} {frames : List (List String)}
  {outcome : Option (Except CamelError String)}

theorem Claims.within (h : Claims crate frame cursor remaining left answers frames total outcome) :
    frames.length ≤ left ∧ total ≤ remaining ∧ (left ≤ answers.length → outcome.isSome) := by
  induction h with
  | waits => exact ⟨by simp, by simp, by simp⟩
  | fails | garbled _ => exact ⟨by simp, by simp, fun _ => rfl⟩
  | ends _ hle _ => exact ⟨by simp, hle, fun _ => rfl⟩
  | goes_on _ _ hlt _ ih =>
    obtain ⟨hf, ht, ho⟩ := ih
    refine ⟨by simpa using hf, by omega, fun hl => ho ?_⟩
    simpa using hl

theorem parse_items_length {items : List Value} {entries : List RecoveredEntry}
    (h : parse_items crate items = .ok entries) : entries.length ≤ items.length := by
  fun_induction parse_items crate items generalizing entries with
  | case1 =>
    cases h
    exact Nat.le_refl _
  | case2 items ih => exact Nat.le_succ_of_le (ih h)
  | case3 item items _ ih =>
    obtain ⟨entry, -, h⟩ := bind_eq_ok h
    obtain ⟨rest, hr, h⟩ := bind_eq_ok h
    cases h
    exact Nat.succ_le_succ (ih hr)

theorem parsed_length {reply : Value} {parsed : ClaimReply}
    (h : parse_claim_reply crate reply = .ok parsed)
    (hp : ∀ cursor items rest, reply = .Array (cursor :: .Array items :: rest) →
      items.length ≤ remaining) : parsed.entries.length ≤ remaining := by
  unfold parse_claim_reply at h
  split at h
  · obtain ⟨_, -, h⟩ := bind_eq_ok h
    obtain ⟨entries, he, h⟩ := bind_eq_ok h
    cases h
    unfold parse_claimed_entries at he
    split at he
    · exact Nat.le_trans (parse_items_length he) (hp _ _ _ rfl)
    · cases he
  · cases h
  · cases h

theorem issues {d : ClaimLoopDriver} (hr : 0 < d.state.remaining)
    (hb : d.state.commands_issued < d.budget) :
    d.issue_next = (.Cmd (d.frame d.state.cursor d.state.remaining),
      { d with state := { d.state with commands_issued := d.state.commands_issued + 1 } }) :=
  if_neg (by omega)

theorem drive_claims {d : ClaimLoopDriver} (hr : 0 < d.state.remaining)
    (hb : d.state.commands_issued < d.budget) (hp : Polite crate d.issue_next answers) :
    ∃ total, Claims crate d.frame d.state.cursor d.state.remaining
        (d.budget - d.state.commands_issued) answers (drive crate d.issue_next answers).1 total
        ((drive crate d.issue_next answers).2.map (·.map ClaimLoopResult.next_cursor)) ∧
      ∀ result, (drive crate d.issue_next answers).2 = some (.ok result) →
        result.recovered.length = d.state.recovered.length + total := by
  obtain ⟨left, hl⟩ : ∃ left, d.budget - d.state.commands_issued = left + 1 :=
    ⟨d.budget - d.state.commands_issued - 1, by omega⟩
  induction answers generalizing d left with
  | nil =>
    rw [issues hr hb, hl]
    exact ⟨0, .waits, fun _ h => by cases h⟩
  | cons answer answers ih =>
    rw [issues hr hb] at hp ⊢
    rw [hl]
    cases answer with
    | error e => exact ⟨0, .fails, fun _ h => by cases h⟩
    | ok reply =>
      obtain ⟨hle, hp⟩ := hp
      simp only [drive, ClaimLoopDriver.advance, Nat.add_one_ne_zero, if_false] at hp ⊢
      cases h : parse_claim_reply crate reply with
      | error e =>
        simp only [drive]
        exact ⟨0, .garbled h, fun _ h => by cases h⟩
      | ok parsed =>
        have hle : parsed.entries.length ≤ d.state.remaining := parsed_length h hle
        simp only [h] at hp ⊢
        split at hp
        · rename_i hend
          simp only [if_pos hend, ClaimLoopDriver.finish_ok, drive]
          refine ⟨parsed.entries.length, .ends h hle (hend.imp_right fun h => by omega), ?_⟩
          rintro result ⟨⟩
          exact List.length_append
        · rename_i hend
          rw [if_neg hend]
          simp only [not_or] at hend
          have hr : 0 < d.state.remaining - parsed.entries.length := by omega
          have hb : d.state.commands_issued + 1 < d.budget := by omega
          have hle : d.budget - (d.state.commands_issued + 1) = left := by omega
          obtain ⟨total, hc, ht⟩ := ih hr hb hp (left - 1) (by simp only; omega)
          simp only [hle] at hc
          refine ⟨parsed.entries.length + total, .goes_on h hend.1 (by omega) hc, fun result h => ?_⟩
          rw [ht result h, List.length_append, Nat.add_assoc]

end

/-! ## The cursor of the session -/

/-- The stored cursor after an event, where a pass that has come to its end replaces it. -/
def stored (cursor : String) : Event → String
  | .core (.recovered _ next_cursor) => next_cursor
  | _ => cursor

section

variable {params : StreamConsumerParams} {policy : NetworkRetryPolicy}

theorem retry_cursor (core : SessionCore) (err : CamelError) (stage : String) (again : CorePc) :
    (core.retry policy err stage again).recovery_cursor = core.recovery_cursor := by
  unfold SessionCore.retry
  split <;> rfl

theorem next_cursor {core core' : SessionCore} {label : CoreLabel}
    (h : core.next params policy label = some core') :
    core'.recovery_cursor = stored core.recovery_cursor (.core label) := by
  unfold SessionCore.next at h
  cases hp : core.pc <;> simp only [hp, SessionCore.drain, SessionCore.wait, SessionCore.recover,
    SessionCore.on_message, SessionCore.on_outcome, SessionCore.on_reply] at h
  all_goals
    repeat' split at h
    all_goals cases h
    all_goals first | rfl | exact retry_cursor ..

theorem step_cursor {s s' : State} {event : Event} (h : step params policy s event = some s') :
    s'.core.recovery_cursor = stored s.core.recovery_cursor event := by
  obtain ⟨rfl, -, rfl⟩ | ⟨label, task, t, rfl, -, ht, rfl⟩ | ⟨label, core, t, rfl, hc, -, rfl⟩ |
    ⟨_, rfl, -, rfl⟩ | ⟨rfl, -, rfl⟩ | ⟨rfl, -, rfl⟩ := step_cases h
  · rfl
  · rw [put_task_core, (task_effect_spec ht).1]
    rfl
  · exact next_cursor hc
  · rw [put_task_core]
    rfl
  · rw [put_task_core]
    rfl
  · rfl

theorem run_cursor {events : List Event} {s s' : State}
    (h : Runs.run (step params policy) (fun _ _ => true) s events = some s') :
    s'.core.recovery_cursor = events.foldl stored s.core.recovery_cursor := by
  induction events generalizing s with
  | nil =>
    cases h
    rfl
  | cons event events ih =>
    obtain ⟨t, ht, h⟩ := Option.bind_eq_some_iff.mp h
    rw [ih h, step_cursor ht, List.foldl_cons]

end

/-- The two cursors of the recovery. Within a pass each request starts where the last answer ended
and asks for what is left of the budget, so a pass makes at most `budget` requests and recovers at
most `budget` entries. Across passes the session keeps the cursor that the last pass to end well
came to, also over reconnects. -/
theorem a_pass_keeps_to_its_budget (crate : Crate) (key group consumer : String) (min_idle_ms : Nat)
    (cursor : String) (budget : Nat) (answers : List Answer) (hb : 1 ≤ budget)
    (hp : Polite crate
      ((ClaimLoopDriver.new key group consumer min_idle_ms cursor budget).start crate) answers)
    (params : StreamConsumerParams) (policy : NetworkRetryPolicy) (events : List Event) (s : State)
    (hr : Runs.run (step params policy) (fun _ _ => true) start events = some s) :
    let driver := ClaimLoopDriver.new key group consumer min_idle_ms cursor budget
    let pass := drive crate (driver.start crate) answers
    (∃ total, Claims crate driver.frame cursor budget budget answers pass.1 total
        (pass.2.map (·.map ClaimLoopResult.next_cursor)) ∧
      pass.1.length ≤ budget ∧ total ≤ budget ∧ (budget ≤ answers.length → pass.2.isSome) ∧
      ∀ result, pass.2 = some (.ok result) → result.recovered.length = total) ∧
    s.core.recovery_cursor = events.foldl stored "0-0" := by
  intro driver pass
  obtain ⟨total, hc, ht⟩ := drive_claims (d := driver) hb hb hp
  obtain ⟨hf, hle, ho⟩ := hc.within
  refine ⟨⟨total, hc, hf, hle, fun h => ?_, fun result h => ?_⟩, run_cursor hr⟩
  · exact Option.isSome_map.symm.trans (ho h)
  · exact (ht result h).trans (Nat.zero_add _)

def texts : Crate where
  value_to_string
    | .Other text => .ok text
    | _ => .error (.Transport "not a string")
  reply_type_error := .ProcessorError

def claimed_one : Value :=
  .Array [.Other "7-0", .Array [.Nil, .Array [.Other "6-0", .Array [.Other "k", .Other "v"]]]]

/-- A session whose first pass claims what `claimed_one` holds. -/
def first_pass : List Event :=
  [.core .idle, .core (.token false), .core (.clock 0), .task (.token false), .task (.dial .Connected),
    .task (.send .Connected), .core (.message (some .Connected)), .core (.clock 1),
    .core (.token false), .core (.token false), .core (.dial .Connected), .core (.token false),
    .core (.claimed [⟨"6-0", [("k", "v")], 1⟩]), .core (.token false),
    .core (.recovered [some 2] "7-0")]

theorem two_commands_claim_one_entry :
    let driver := ClaimLoopDriver.new "orders" "g" "c" 500 "5-0" 2
    let answers := [.ok claimed_one, .ok (.Array [.Other "0-0", .Array []])]
    let pass := drive texts (driver.start texts) answers
    pass.1 = [["XAUTOCLAIM", "orders", "g", "c", "500", "5-0", "COUNT", "2"],
      ["XAUTOCLAIM", "orders", "g", "c", "500", "7-0", "COUNT", "1"]] ∧
    pass.1.length ≤ 2 ∧ ∃ s, Runs.run (step ⟨true, 500⟩ ⟨true, 0, none⟩) (fun _ _ => true) start
      first_pass = some s ∧ s.core.recovery_cursor = "7-0" := by
  intro driver answers pass
  have hp : Polite texts (driver.start texts) answers := by
    refine ⟨?_, ?_, trivial⟩
    · rintro _ _ _ ⟨⟩
      decide
    · rintro _ _ _ ⟨⟩
      decide
  have hru : ∃ s, Runs.run (step ⟨true, 500⟩ ⟨true, 0, none⟩) (fun _ _ => true) start
      first_pass = some s := ⟨_, rfl⟩
  obtain ⟨s, hs⟩ := hru
  obtain ⟨⟨_, -, hf, -⟩, hc⟩ :=
    a_pass_keeps_to_its_budget texts "orders" "g" "c" 500 "5-0" 2 answers (by decide) hp ⟨true, 500⟩
      ⟨true, 0, none⟩ first_pass s hs
  exact ⟨by decide, hf, s, hs, hc⟩

end camel_redis.streams.claim
