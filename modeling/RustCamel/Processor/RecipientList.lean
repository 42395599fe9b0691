-- The dispatch of `recipient_list.rs` over a resolved list, one recipient after the other or with
-- tasks. A recipient that does not become ready ends the first of them by its `?`.
import RustCamel.Api.Exchange

open List

namespace camel_processor.recipient_list

open camel_api (Exchange)
open camel_api.error (CamelError)

def CAMEL_SLIP_ENDPOINT : String := "CamelSlipEndpoint"

/-- What an endpoint does: `ready()` fails, or its call fails, or the call gives an exchange. -/
inductive Behaviour where
  | NotReady (e : CamelError)
  | Fails (e : CamelError)
  | Succeeds (f : Exchange → Exchange)

structure Recipient where
  uri : String
  endpoint : Behaviour

/-- `aggregate_results` stands for what its strategy makes of the original and the results. -/
structure RecipientListConfig where
  parallel : Bool
  parallel_limit : Option Nat
  stop_on_exception : Bool
  aggregate_results : Exchange → List Exchange → Exchange

/-- Whose turn came, in order, and the answer of the call. -/
structure Report where
  attempted : List String
  answer : Except CamelError Exchange

structure Progress where
  results : List Exchange
  last_error : Option CamelError
  attempted : List String

variable (config : RecipientListConfig) (original : Exchange)

/-- An error is the answer where no result came and some recipient failed. -/
def Progress.close (s : Progress) : Report where
  attempted := s.attempted
  answer := match s.results, s.last_error with
    | [], some err => .error err
    | results, _ => .ok (config.aggregate_results original results)

def slip (exchange : Exchange) (r : Recipient) : Exchange :=
  exchange.set_property CAMEL_SLIP_ENDPOINT (.String r.uri)

def sequential (exchange : Exchange) (s : Progress) : List Recipient → Report
  | [] => s.close config original
  | r :: rest =>
    let s := { s with attempted := s.attempted ++ [r.uri] }
    match r.endpoint with
    | .NotReady e => ⟨s.attempted, .error e⟩
    | .Fails e =>
      if config.stop_on_exception then ⟨s.attempted, .error e⟩
      else sequential (slip exchange r) { s with last_error := some e } rest
    | .Succeeds f =>
      let ex := f (slip exchange r)
      sequential ex { s with results := s.results ++ [ex] } rest

/-- The tasks that run, and the recipients that wait for one. -/
structure Tasks extends Progress where
  running : List Recipient
  waiting : List Recipient

def Tasks.spawn (s : Tasks) : Tasks :=
  match s.waiting with
  | [] => s
  | r :: waiting =>
    { s with attempted := s.attempted ++ [r.uri], running := s.running ++ [r], waiting }

def Tasks.spawn_up_to (s : Tasks) : Nat → Tasks
  | 0 => s
  | n + 1 => s.spawn.spawn_up_to n

/-- The result of a task that has ended. -/
def Tasks.take (s : Tasks) (r : Recipient) : Tasks :=
  match r.endpoint with
  | .NotReady e | .Fails e => { s with last_error := some e }
  | .Succeeds f => { s with results := s.results ++ [f (slip original r)] }

/-- The loop over `join_next`, where any of the running tasks may be the next to end. -/
inductive Joins : Tasks → Report → Prop
  | done {s : Tasks} (h : s.running = []) : Joins s (s.close config original)
  | stopped {s : Tasks} {r : Recipient} {e : CamelError} (h : r ∈ s.running)
      (he : r.endpoint = .NotReady e ∨ r.endpoint = .Fails e)
      (hs : config.stop_on_exception = true) : Joins s ⟨s.attempted, .error e⟩
  | next {s : Tasks} {r : Recipient} {before after : List Recipient} {report : Report}
      (h : s.running = before ++ r :: after)
      (hs : config.stop_on_exception = true → ∃ f, r.endpoint = .Succeeds f)
      (hnext : Joins (({ s with running := before ++ after }.take original r).spawn) report) :
      Joins s report

def limit (recipients : List Recipient) : Nat :=
  min (max (config.parallel_limit.getD recipients.length) 1) (max recipients.length 1)

def start (recipients : List Recipient) : Tasks :=
  Tasks.spawn_up_to ⟨⟨[], none, []⟩, [], recipients⟩ (limit config recipients)

/-- The call of the service over a resolved list. An empty one gives the exchange back. -/
def Calls (recipients : List Recipient) (report : Report) : Prop :=
  if recipients = [] then report = ⟨[], .ok original⟩
  else if config.parallel then Joins config original (start config recipients) report
  else report = sequential config original original ⟨[], none, []⟩ recipients

/-! ## Everyone is tried -/

def Behaviour.succeeds : Behaviour → Bool
  | .Succeeds _ => true
  | _ => false

def Behaviour.is_ready : Behaviour → Bool
  | .NotReady _ => false
  | _ => true

/-- No success among the recipients. -/
def Barren (recipients : List Recipient) : Prop :=
  ∀ r ∈ recipients, r.endpoint.succeeds = false

def Report.failed (report : Report) : Prop := ∃ e, report.answer = .error e

/-- Everyone had a turn, in order, and the answer is an error where nobody succeeded. -/
def TriesEveryone (recipients : List Recipient) (report : Report) : Prop :=
  report.attempted = recipients.map (·.uri) ∧
    (report.failed ↔ recipients ≠ [] ∧ Barren recipients)

/-- Tasks, or recipients that become ready, or only the last one does not and nobody succeeded. -/
def Met (recipients : List Recipient) : Prop :=
  config.parallel = true ∨ (∀ r ∈ recipients, r.endpoint.is_ready = true) ∨
    ∃ front last, recipients = front ++ [last] ∧
      (∀ r ∈ front, r.endpoint.is_ready = true) ∧ Barren front

variable {config original} {recipients : List Recipient} {report : Report}

theorem Progress.close_failed (s : Progress) :
    (s.close config original).failed ↔ s.results = [] ∧ s.last_error.isSome = true := by
  unfold Progress.close Report.failed
  split
  · simp_all
  · rename_i hr
    cases he : s.last_error with
    | none => simp
    | some e => simpa using fun hn => hr e hn he

theorem barren_cons {r : Recipient} :
    Barren (r :: recipients) ↔ r.endpoint.succeeds = false ∧ Barren recipients := by
  simp [Barren]

section

variable (hstop : config.stop_on_exception = false)

include hstop

theorem sequential_front (exchange : Exchange) (s : Progress) {front : List Recipient}
    (rest : List Recipient) (h : ∀ r ∈ front, r.endpoint.is_ready = true) :
    ∃ exchange' s', sequential config original exchange s (front ++ rest) =
        sequential config original exchange' s' rest ∧
      s'.attempted = s.attempted ++ front.map (·.uri) ∧
      (s'.results = [] ↔ s.results = [] ∧ Barren front) ∧
      (Barren front → (s'.last_error.isSome = true ↔ s.last_error.isSome = true ∨ front ≠ [])) := by
  induction front generalizing exchange s with
  | nil => exact ⟨exchange, s, rfl, by simp, by simp [Barren], by simp⟩
  | cons r front ih =>
    have hre := fun exchange s => ih exchange s fun x hx => h x (.tail _ hx)
    have hr := h r mem_cons_self
    rw [cons_append, sequential, barren_cons]
    cases he : r.endpoint with
    | NotReady e => simp [he, Behaviour.is_ready] at hr
    | Fails e =>
      simp only [hstop, Bool.false_eq_true, if_false]
      obtain ⟨exchange', s', hru, ha, hres, hlast⟩ := hre (slip exchange r)
        ⟨s.results, some e, s.attempted ++ [r.uri]⟩
      refine ⟨exchange', s', hru, by simp [ha], by simpa [Behaviour.succeeds] using hres, ?_⟩
      exact fun hb => by simpa using hlast hb.2
    | Succeeds f =>
      obtain ⟨exchange', s', hru, ha, hres, hlast⟩ := hre (f (slip exchange r))
        ⟨s.results ++ [f (slip exchange r)], s.last_error, s.attempted ++ [r.uri]⟩
      refine ⟨exchange', s', hru, by simp [ha], ?_, ?_⟩
      · simpa [Behaviour.succeeds] using hres
      · exact fun hb => by simp [Behaviour.succeeds] at hb

/-- What stays when a recipient moves from those that wait to those that run. -/
structure Same (s s' : Tasks) : Prop where
  attempted : s'.attempted ++ s'.waiting.map (·.uri) = s.attempted ++ s.waiting.map (·.uri)
  left : s'.running ++ s'.waiting = s.running ++ s.waiting
  results : s'.results = s.results
  last_error : s'.last_error = s.last_error

end

theorem same_spawn (s : Tasks) :
    Same s s.spawn ∧ (s.spawn.running = [] → s.spawn.waiting = []) := by
  unfold Tasks.spawn
  split
  · rename_i hw
    exact ⟨⟨rfl, rfl, rfl, rfl⟩, fun _ => hw⟩
  · rename_i r waiting hw
    exact ⟨⟨by simp [hw], by simp [hw], rfl, rfl⟩, by simp⟩

theorem same_start :
    Same ⟨⟨[], none, []⟩, [], recipients⟩ (start config recipients) ∧
      ((start config recipients).running = [] → (start config recipients).waiting = []) := by
  have hal : ∀ n (s : Tasks), Same s (s.spawn_up_to n) ∧ ((s.running = [] → s.waiting = []) →
      (s.spawn_up_to n).running = [] → (s.spawn_up_to n).waiting = []) := by
    intro n
    induction n with
    | zero => exact fun s => ⟨⟨rfl, rfl, rfl, rfl⟩, id⟩
    | succ n ih =>
      intro s
      obtain ⟨⟨ha, hl, hr, he⟩, hi⟩ := same_spawn s
      obtain ⟨⟨ha', hl', hr', he'⟩, hi'⟩ := ih s.spawn
      exact ⟨⟨ha'.trans ha, hl'.trans hl, hr'.trans hr, he'.trans he⟩, fun _ => hi' hi⟩
  obtain ⟨m, hm⟩ : ∃ m, limit config recipients = m + 1 :=
    ⟨limit config recipients - 1, by unfold limit; omega⟩
  rw [start, hm]
  exact ⟨(hal (m + 1) _).1, (hal m _).2 (same_spawn _).2⟩

section

variable (hstop : config.stop_on_exception = false)

include hstop

theorem joins_report {s : Tasks} (h : Joins config original s report)
    (hi : s.running = [] → s.waiting = []) :
    report.attempted = s.attempted ++ s.waiting.map (·.uri) ∧
      (report.failed ↔ s.results = [] ∧ Barren (s.running ++ s.waiting) ∧
        (s.last_error.isSome = true ∨ s.running ≠ [])) := by
  induction h with
  | @done s hr =>
    rw [Progress.close_failed, hr, hi hr]
    simp [Progress.close, Barren]
  | stopped _ _ hs => simp [hstop] at hs
  | @next s r before after report hr _ _ ih =>
    obtain ⟨⟨ha, hl, hre, her⟩, hn⟩ :=
      same_spawn ({ s with running := before ++ after }.take original r)
    obtain ⟨hat, hf⟩ := ih hn
    rw [hat, hf, ha, hl, hre, her, hr]
    unfold Tasks.take
    cases he : r.endpoint <;> simp [Barren, he, Behaviour.succeeds, or_imp, forall_and]

theorem joins_end (s : Tasks) : ∃ report, Joins config original s report := by
  induction hn : (s.running ++ s.waiting).length using Nat.strongRecOn generalizing s with
  | ind n ih =>
    cases hr : s.running with
    | nil => exact ⟨_, .done hr⟩
    | cons r after =>
      obtain ⟨⟨-, hl, -, -⟩, -⟩ := same_spawn ({ s with running := after }.take original r)
      have hle : ({ s with running := after }.take original r).running ++
          ({ s with running := after }.take original r).waiting = after ++ s.waiting := by
        unfold Tasks.take
        split <;> rfl
      obtain ⟨report, hre⟩ := ih _ (by rw [← hn, hr]; simp) _ (congrArg length (hl.trans hle))
      exact ⟨report, .next (hr.trans (nil_append _).symm) (by simp [hstop]) hre⟩

end

theorem parallel_tries (hstop : config.stop_on_exception = false) (hnil : recipients ≠ [])
    (h : Joins config original (start config recipients) report) :
    TriesEveryone recipients report := by
  obtain ⟨⟨ha, hl, hr, he⟩, hi⟩ := @same_start config recipients
  obtain ⟨hat, hf⟩ := joins_report hstop h hi
  have hru : (start config recipients).running ≠ [] := by
    intro hn
    rw [hn, hi hn] at hl
    exact hnil hl.symm
  refine ⟨hat.trans ha, hf.trans ?_⟩
  rw [hl, hr]
  simp [hru, hnil]

theorem ready_tries (hstop : config.stop_on_exception = false)
    (h : ∀ r ∈ recipients, r.endpoint.is_ready = true) :
    TriesEveryone recipients (sequential config original original ⟨[], none, []⟩ recipients) := by
  obtain ⟨exchange, s, hru, ha, hr, he⟩ :=
    @sequential_front _ original hstop original ⟨[], none, []⟩ _ [] h
  rw [append_nil] at hru
  rw [hru, sequential]
  refine ⟨ha, (s.close_failed).trans ?_⟩
  rw [hr]
  constructor
  · rintro ⟨⟨-, hb⟩, hs⟩
    exact ⟨by simpa using (he hb).mp hs, hb⟩
  · rintro ⟨hn, hb⟩
    exact ⟨⟨rfl, hb⟩, (he hb).mpr (.inr hn)⟩

theorem not_ready_tries_iff (hstop : config.stop_on_exception = false) {front rest : List Recipient}
    {r : Recipient} (h : ∀ r ∈ front, r.endpoint.is_ready = true)
    (hr : r.endpoint.is_ready = false) :
    TriesEveryone (front ++ r :: rest)
      (sequential config original original ⟨[], none, []⟩ (front ++ r :: rest)) ↔
        rest = [] ∧ Barren front := by
  obtain ⟨exchange, s, hru, ha, -, -⟩ :=
    @sequential_front _ original hstop original ⟨[], none, []⟩ _ (r :: rest) h
  rw [hru, sequential]
  cases he : r.endpoint with
  | NotReady e =>
    have hf : Report.failed ⟨s.attempted ++ [r.uri], .error e⟩ := ⟨e, rfl⟩
    constructor
    · rintro ⟨hu, hfa⟩
      have hre := congrArg length hu
      simp only [ha, map_append, length_append, length_map, map_cons, length_cons,
        length_nil] at hre
      refine ⟨eq_nil_of_length_eq_zero (by omega), fun x hx => ?_⟩
      exact (hfa.mp hf).2 x (mem_append_left _ hx)
    · rintro ⟨rfl, hb⟩
      refine ⟨by simp [ha], iff_of_true hf ⟨by simp, fun x hx => ?_⟩⟩
      rcases mem_append.mp hx with hx | hx
      · exact hb x hx
      · rw [mem_singleton.mp hx, he]
        rfl
  | Fails e | Succeeds f => simp [he, Behaviour.is_ready] at hr

/-- Every call ends, and everyone is tried exactly where `Met` says so. -/
theorem everyone_is_tried_iff (config : RecipientListConfig) (original : Exchange)
    (recipients : List Recipient) (hstop : config.stop_on_exception = false) :
    (∃ report, Calls config original recipients report) ∧
      ∀ report, Calls config original recipients report →
        (TriesEveryone recipients report ↔ Met config recipients) := by
  unfold Calls
  by_cases hnil : recipients = []
  · simp only [hnil, if_true]
    refine ⟨⟨_, rfl⟩, ?_⟩
    rintro report rfl
    simp [TriesEveryone, Met, Report.failed]
  by_cases hp : config.parallel = true
  · simp only [if_neg hnil, if_pos hp]
    exact ⟨joins_end hstop _, fun report h => iff_of_true (parallel_tries hstop hnil h) (.inl hp)⟩
  simp only [if_neg hnil, if_neg hp]
  refine ⟨⟨_, rfl⟩, ?_⟩
  rintro report rfl
  cases hf : recipients.find? fun r => !r.endpoint.is_ready with
  | none =>
    have hre : ∀ r ∈ recipients, r.endpoint.is_ready = true := by simpa using hf
    exact iff_of_true (ready_tries hstop hre) (.inr (.inl hre))
  | some r =>
    obtain ⟨hr, front, rest, rfl, hfr⟩ := find?_eq_some_iff_append.mp hf
    have hre : ∀ x ∈ front, x.endpoint.is_ready = true := by simpa using hfr
    rw [Bool.not_eq_true'] at hr
    rw [not_ready_tries_iff hstop hre hr]
    constructor
    · rintro ⟨rfl, hb⟩
      exact .inr (.inr ⟨front, r, rfl, hre, hb⟩)
    · rintro (hy | ha | ⟨front', last, heq, ha, hb⟩)
      · exact absurd hy hp
      · exact absurd (ha r (by simp)) (by simp [hr])
      · rcases eq_nil_or_concat rest with rfl | ⟨rest, z, rfl⟩
        · exact ⟨rfl, (append_inj' heq rfl).1 ▸ hb⟩
        · rw [concat_eq_append, ← cons_append, ← append_assoc] at heq
          have hm : r ∈ front' := (append_inj' heq rfl).1 ▸ by simp
          exact absurd (ha r hm) (by simp [hr])

def in_order : RecipientListConfig := ⟨false, none, false, fun original _ => original⟩

def letter : Exchange := .new ⟨fun _ => none, .Text "hello"⟩

/-- Three recipients, where `b` behaves in this way and the others succeed. -/
def three (b : Behaviour) : List Recipient := [⟨"a", .Succeeds id⟩, ⟨"b", b⟩, ⟨"c", .Succeeds id⟩]

theorem failing_call_is_no_obstacle :
    TriesEveryone (three (.Fails .ChannelClosed)) (sequential in_order letter letter ⟨[], none, []⟩
      (three (.Fails .ChannelClosed))) := by
  have hc : Calls in_order letter (three (.Fails .ChannelClosed)) _ := rfl
  apply ((everyone_is_tried_iff in_order letter _ rfl).2 _ hc).mpr
  exact .inr (.inl (by simp [three, Behaviour.is_ready]))

theorem third_is_not_tried :
    Calls in_order letter (three (.NotReady .ChannelClosed)) ⟨["a", "b"], .error .ChannelClosed⟩ ∧
      ¬TriesEveryone (three (.NotReady .ChannelClosed)) ⟨["a", "b"], .error .ChannelClosed⟩ := by
  refine ⟨rfl, ?_⟩
  rintro ⟨ha, -⟩
  exact absurd ha (by decide)

end camel_processor.recipient_list
