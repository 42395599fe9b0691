-- The coalescing of misses in `cache_eip.rs`. The first exchange that misses a key leads: it
-- opens a wave and runs the sub-pipeline. The others join the wave and take over what the
-- leader publishes, also if it is dropped.
import Mathlib.Data.String.Basic
import RustCamel.Lib.Interleaving
import RustCamel.Lib.OrdMap
import RustCamel.Processor.ErrorHandler

open List Option OrdMap

namespace camel_processor.cache_eip

open camel_api (Body Exchange)
open camel_api.error (CamelError)
open camel_processor.error_handler (PipelineOutcome)

/-! ## Waves -/

inductive CoalesceTerminal where
  | Completed (body : Body)
  | Failed (err : CamelError)
  | Stopped

/-- `notified` counts the calls of `notify_waiters`. Who registered at a lower count is woken. -/
structure InFlight where
  terminal : Option CoalesceTerminal
  notified : Nat

namespace InFlight

def default : InFlight := ⟨none, 0⟩

/-- A slot that is filled stays as it is. -/
def publish (cell : InFlight) (terminal : CoalesceTerminal) : InFlight :=
  if cell.terminal.isNone then { cell with terminal := some terminal } else cell

def notify_waiters (cell : InFlight) : InFlight := { cell with notified := cell.notified + 1 }

end InFlight

/-- The waves by key. A cell is known by its place among all cells that were ever made: the
`Arc` of a cell that is still compared with another is alive, so both have addresses of their
own. -/
structure InFlightMap where
  map : OrdMap String Nat
  cells : List InFlight

namespace InFlightMap

def new : InFlightMap := ⟨.empty, []⟩

def update (waves : InFlightMap) (cell : Nat) (f : InFlight → InFlight) : InFlightMap :=
  { waves with cells := waves.cells.modify cell f }

/-- `LeaderGuard::retire`: the entry goes if it is still that of the cell. -/
def retire (waves : InFlightMap) (key : String) (cell : Nat) : InFlightMap :=
  if waves.map.get key = some cell then { waves with map := waves.map.remove key } else waves

end InFlightMap

/-! ## A miss step by step -/

/-- Where `coalesced_miss` stands. A leader runs `run_miss`, publishes, notifies and retires
its wave; then its guard does the same once more. Without an outcome the leader was dropped.
A waiter has seen so many notifications when it registered. -/
inductive Stage where
  | Entering
  | Leading (cell : Nat)
  | Publishing (cell : Nat) (outcome : PipelineOutcome)
  | Notifying (cell : Nat) (outcome : PipelineOutcome)
  | Retiring (cell : Nat) (outcome : PipelineOutcome)
  | GuardPublishing (cell : Nat) (outcome : Option PipelineOutcome)
  | GuardNotifying (cell : Nat) (outcome : Option PipelineOutcome)
  | GuardRetiring (cell : Nat) (outcome : Option PipelineOutcome)
  | Led (cell : Nat) (outcome : Option PipelineOutcome)
  | Reading (cell : Nat) (seen : Nat)
  | Parked (cell : Nat) (seen : Nat)
  | Woken (cell : Nat)
  | Joined (cell : Nat) (terminal : CoalesceTerminal)
  | Left

structure Miss where
  key : String
  exchange : Exchange
  stage : Stage

/-- What a miss is told: to go on, how `run_miss` ended, or that it is dropped. -/
inductive Answer where
  | go
  | outcome (outcome : PipelineOutcome)
  | dropped

/-- What a leader publishes for its outcome, and what its guard does for none. -/
def terminal_of : Option PipelineOutcome → CoalesceTerminal
  | some (.Completed exchange) => .Completed exchange.input.body
  | some (.Failed err) => .Failed err
  | some (.Stopped _) => .Stopped
  | none => .Failed (.Config "cache coalesce leader cancelled")

/-- What a waiter makes of the terminal. -/
def adopt (exchange : Exchange) : CoalesceTerminal → PipelineOutcome
  | .Completed body => .Completed { exchange with input.body := body }
  | .Failed err => .Failed err
  | .Stopped => .Stopped exchange

/-- The first lock scope: the role is resolved, and a waiter registers. -/
def enter (waves : InFlightMap) (key : String) : InFlightMap × Stage :=
  match waves.map.get key with
  | some cell => (waves, .Reading cell ((waves.cells.getD cell .default).notified))
  | none =>
    let cell := waves.cells.length
    (⟨waves.map.insert key cell, waves.cells ++ [.default]⟩, .Leading cell)

/-- One step of a miss. It can be dropped where it waits. -/
def advance (waves : InFlightMap) (t : Miss) : Answer → Option (InFlightMap × Miss)
  | .go =>
    match t.stage with
    | .Entering =>
      let (waves, stage) := enter waves t.key
      some (waves, { t with stage })
    | .Publishing cell outcome =>
      some (waves.update cell (·.publish (terminal_of (some outcome))),
        { t with stage := .Notifying cell outcome })
    | .Notifying cell outcome =>
      some (waves.update cell (·.notify_waiters), { t with stage := .Retiring cell outcome })
    | .Retiring cell outcome =>
      some (waves.retire t.key cell, { t with stage := .GuardPublishing cell (some outcome) })
    | .GuardPublishing cell outcome =>
      some (waves.update cell (·.publish (terminal_of none)),
        { t with stage := .GuardNotifying cell outcome })
    | .GuardNotifying cell outcome =>
      some (waves.update cell (·.notify_waiters), { t with stage := .GuardRetiring cell outcome })
    | .GuardRetiring cell outcome =>
      some (waves.retire t.key cell, { t with stage := .Led cell outcome })
    | .Reading cell seen =>
      match (waves.cells.getD cell .default).terminal with
      | some terminal => some (waves, { t with stage := .Joined cell terminal })
      | none => some (waves, { t with stage := .Parked cell seen })
    | .Parked cell seen =>
      if seen < (waves.cells.getD cell .default).notified then
        some (waves, { t with stage := .Woken cell })
      else none
    | .Woken cell =>
      let terminal := (waves.cells.getD cell .default).terminal.getD
        (.Failed (.Config "cache coalesce waiter woke without a terminal state"))
      some (waves, { t with stage := .Joined cell terminal })
    | .Leading _ | .Led _ _ | .Joined _ _ | .Left => none
  | .outcome outcome =>
    match t.stage with
    | .Leading cell => some (waves, { t with stage := .Publishing cell outcome })
    | _ => none
  | .dropped =>
    match t.stage with
    | .Entering | .Parked _ _ => some (waves, { t with stage := .Left })
    | .Leading cell => some (waves, { t with stage := .GuardPublishing cell none })
    | _ => none

/-- Any number of misses of one cache step. -/
def coalesced_misses : Interleaving InFlightMap (String × Exchange) Miss Answer where
  start miss := ⟨miss.1, miss.2, .Entering⟩
  advance := advance

/-- How the miss ended. -/
def Miss.outcome (t : Miss) : Option PipelineOutcome :=
  match t.stage with
  | .Led _ outcome => outcome
  | .Joined _ terminal => some (adopt t.exchange terminal)
  | _ => none

/-! ## Leaders and their cells -/

variable {stage : Stage} {wave : Nat} {exchange : Exchange} {seen : Nat} {P : Miss → Prop}
  {wave' : Nat}

namespace Stage

/-- The wave that it leads or led. -/
def leads : Stage → Option Nat
  | .Leading cell | .Publishing cell _ | .Notifying cell _ | .Retiring cell _
  | .GuardPublishing cell _ | .GuardNotifying cell _ | .GuardRetiring cell _
  | .Led cell _ => some cell
  | _ => none

def joins : Stage → Option Nat
  | .Reading cell _ | .Parked cell _ | .Woken cell | .Joined cell _ => some cell
  | _ => none

/-- The wave of the leader is not retired yet. -/
def registered : Stage → Bool
  | .Leading _ | .Publishing _ _ | .Notifying _ _ | .Retiring _ _ => true
  | .GuardPublishing _ outcome | .GuardNotifying _ outcome | .GuardRetiring _ outcome =>
    outcome.isNone
  | _ => false

def published : Stage → Option CoalesceTerminal
  | .Notifying _ outcome | .Retiring _ outcome => some (terminal_of (some outcome))
  | .GuardPublishing _ outcome => outcome.map fun outcome => terminal_of (some outcome)
  | .GuardNotifying _ outcome | .GuardRetiring _ outcome | .Led _ outcome =>
    some (terminal_of outcome)
  | _ => none

/-- How often the leader has notified. -/
def notifications : Stage → Nat
  | .Retiring _ _ => 1
  | .GuardPublishing _ outcome | .GuardNotifying _ outcome => if outcome.isSome then 1 else 0
  | .GuardRetiring _ outcome | .Led _ outcome => if outcome.isSome then 2 else 1
  | _ => 0

/-- The cell of the wave, as far as the leader has come. -/
def cell (stage : Stage) : InFlight := ⟨stage.published, stage.notifications⟩

theorem notifications_of_unpublished (h : stage.published = none) : stage.notifications = 0 := by
  cases stage with
  | GuardPublishing cell outcome =>
    cases outcome with
    | none => rfl
    | some outcome => cases h
  | Entering
  | Leading cell
  | Publishing cell outcome
  | Reading cell seen
  | Parked cell seen
  | Woken cell
  | Joined cell terminal
  | Left => rfl
  | _ => cases h

end Stage

/-- A later state of a cell. -/
structure Grows (a b : InFlight) : Prop where
  notified : a.notified ≤ b.notified
  terminal : ∀ terminal, a.terminal = some terminal → b.terminal = some terminal

theorem Grows.refl (a : InFlight) : Grows a a := ⟨Nat.le_refl _, fun _ h => h⟩

theorem Grows.trans {a b c : InFlight} (h : Grows a b) (h' : Grows b c) : Grows a c :=
  ⟨h.notified.trans h'.notified, fun terminal ht => h'.terminal terminal (h.terminal terminal ht)⟩

/-- What one step of a leader does: its cell is as far as it is, and it retires its own wave
only. -/
structure LeaderStep (waves waves' : InFlightMap) (t t' : Miss) (wave : Nat) : Prop where
  leads : t'.stage.leads = some wave
  key : t'.key = t.key
  cell : waves'.cells[wave]? = some t'.stage.cell
  grows : Grows t.stage.cell t'.stage.cell
  others : ∀ other, other ≠ wave → waves'.cells[other]? = waves.cells[other]?
  map : (waves'.map = waves.map ∧ t'.stage.registered = t.stage.registered) ∨
    (waves'.map = (waves.retire t.key wave).map ∧ t'.stage.registered = false)

section

variable {waves waves' : InFlightMap} {t t' : Miss} {answer : Answer}

theorem getElem?_update (waves : InFlightMap) (cell : Nat) (f : InFlight → InFlight) (other : Nat) :
    (waves.update cell f).cells[other]? =
      if other = cell then waves.cells[other]?.map f else waves.cells[other]? :=
  getElem?_modify_ite waves.cells cell f other

theorem cells_retire (waves : InFlightMap) (key : String) (cell : Nat) :
    (waves.retire key cell).cells = waves.cells := by
  unfold InFlightMap.retire
  split <;> rfl

theorem get_of_retire {key key' : String} (h : (waves.retire key wave).map.get key' = some wave') :
    waves.map.get key' = some wave' := by
  unfold InFlightMap.retire at h
  split at h
  · exact get_of_remove h
  · exact h

theorem get_retire_own (key : String) (wave : Nat) :
    (waves.retire key wave).map.get key ≠ some wave := by
  unfold InFlightMap.retire
  split
  · simp
  · assumption

theorem get_retire_other {key key' : String} (h : waves.map.get key' = some wave')
    (hn : wave' ≠ wave) : (waves.retire key wave).map.get key' = some wave' := by
  unfold InFlightMap.retire
  split
  · rename_i ho
    have hk : key' ≠ key := by
      rintro rfl
      rw [ho] at h
      exact hn (some.inj h).symm
    simp only
    rw [get_remove_of_ne _ hk]
    exact h
  · exact h

theorem LeaderStep.of_update {cell : Nat} (f : InFlight → InFlight)
    (hc : waves.cells[cell]? = some t.stage.cell) (hl : stage.leads = some cell)
    (hf : f t.stage.cell = stage.cell) (hg : Grows t.stage.cell stage.cell)
    (hr : stage.registered = t.stage.registered) :
    LeaderStep waves (waves.update cell f) t { t with stage } cell where
  leads := hl
  key := rfl
  cell := by
    rw [getElem?_update, if_pos rfl, hc, map_some, hf]
  grows := hg
  others other hn := by rw [getElem?_update, if_neg hn]
  map := .inl ⟨rfl, hr⟩

theorem LeaderStep.of_retire {cell : Nat} (hc : waves.cells[cell]? = some t.stage.cell)
    (hl : stage.leads = some cell) (hs : t.stage.cell = stage.cell)
    (hr : stage.registered = false) :
    LeaderStep waves (waves.retire t.key cell) t { t with stage } cell where
  leads := hl
  key := rfl
  cell := by rw [cells_retire, hc, hs]
  grows := by
    simp only [← hs]
    exact .refl _
  others other _ := by rw [cells_retire]
  map := .inr ⟨rfl, hr⟩

theorem leader_step (hl : t.stage.leads = some wave)
    (hc : waves.cells[wave]? = some t.stage.cell)
    (h : advance waves t answer = some (waves', t')) : LeaderStep waves waves' t t' wave := by
  obtain ⟨key, exchange, stage⟩ := t
  have hp : ∀ {notified : Nat} {terminal : CoalesceTerminal},
      Grows ⟨none, notified⟩ ⟨some terminal, notified⟩ :=
    ⟨Nat.le_refl _, fun _ ht => by cases ht⟩
  have hn : ∀ {cell : InFlight}, Grows cell cell.notify_waiters := ⟨Nat.le_succ _, fun _ ht => ht⟩
  cases stage with
  | Leading c =>
    cases hl
    cases answer with
    | go => cases h
    | outcome outcome | dropped =>
      cases h
      exact ⟨rfl, rfl, hc, .refl _, fun _ _ => rfl, .inl ⟨rfl, rfl⟩⟩
  | Publishing c outcome =>
    cases hl
    cases answer with
    | go =>
      cases h
      exact .of_update _ hc rfl rfl hp rfl
    | outcome outcome | dropped => cases h
  | Notifying c outcome =>
    cases hl
    cases answer with
    | go =>
      cases h
      exact .of_update _ hc rfl rfl hn rfl
    | outcome outcome | dropped => cases h
  | Retiring c outcome | GuardRetiring c outcome =>
    cases hl
    cases answer with
    | go =>
      cases h
      exact .of_retire hc rfl rfl rfl
    | outcome outcome | dropped => cases h
  | GuardPublishing c outcome =>
    cases hl
    cases answer with
    | go =>
      cases h
      cases outcome with
      | none => exact .of_update _ hc rfl rfl hp rfl
      | some outcome => exact .of_update _ hc rfl rfl (.refl _) rfl
    | outcome outcome | dropped => cases h
  | GuardNotifying c outcome =>
    cases hl
    cases answer with
    | go =>
      cases h
      cases outcome with
      | none | some outcome => exact .of_update _ hc rfl rfl hn rfl
    | outcome outcome | dropped => cases h
  | Led c outcome => cases answer <;> cases h
  | _ => cases hl

/-- A task that leads nothing leaves what is in flight as it is, or opens a wave. -/
theorem waves_of_others (hl : t.stage.leads = none)
    (h : advance waves t answer = some (waves', t')) :
    waves' = waves ∨ (t.stage = .Entering ∧ waves.map.get t.key = none ∧
      waves' = ⟨waves.map.insert t.key waves.cells.length, waves.cells ++ [.default]⟩) := by
  obtain ⟨key, exchange, stage⟩ := t
  cases stage with
  | Entering =>
    cases answer with
    | go =>
      simp only [advance, enter] at h
      cases hg : waves.map.get key with
      | none =>
        rw [hg] at h
        cases h
        exact .inr ⟨rfl, rfl, rfl⟩
      | some wave =>
        rw [hg] at h
        cases h
        exact .inl rfl
    | outcome outcome => cases h
    | dropped =>
      cases h
      exact .inl rfl
  | Reading wave seen =>
    cases answer with
    | go =>
      simp only [advance] at h
      split at h <;> (cases h; exact .inl rfl)
    | outcome outcome | dropped => cases h
  | Parked wave seen =>
    cases answer with
    | go =>
      simp only [advance] at h
      split at h
      · cases h
        exact .inl rfl
      · cases h
    | outcome outcome => cases h
    | dropped =>
      cases h
      exact .inl rfl
  | Woken wave =>
    cases answer with
    | go =>
      cases h
      exact .inl rfl
    | outcome outcome | dropped => cases h
  | Joined wave terminal | Left => cases answer <;> cases h
  | _ => cases hl

theorem published_of_retired (hl : stage.leads = some wave) (h : stage.registered = false) :
    stage.published ≠ none := by
  cases stage with
  | GuardPublishing cell outcome =>
    cases outcome with
    | none => cases h
    | some outcome => exact some_ne_none _
  | GuardNotifying cell outcome
  | GuardRetiring cell outcome
  | Led cell outcome => exact some_ne_none _
  | Leading cell
  | Publishing cell outcome
  | Notifying cell outcome
  | Retiring cell outcome => cases h
  | _ => cases hl

end

/-! ## What holds of all misses -/

/-- A waiter that parks has seen no notification, and one that is woken finds the slot filled. -/
def Waits (cells : List InFlight) : Stage → Prop
  | .Reading wave seen => ∃ cell, cells[wave]? = some cell ∧ seen ≤ cell.notified
  | .Parked _ seen => seen = 0
  | .Woken wave => ∃ cell, cells[wave]? = some cell ∧ cell.terminal ≠ none
  | .Joined wave terminal => ∃ cell, cells[wave]? = some cell ∧ cell.terminal = some terminal
  | _ => True

/-- Every wave has one leader, which tells the state of its cell; the entry of a key is the
wave of a leader that is not through; and every waiter has a leader of its own key. -/
structure Coalesced (s : Interleaving.State InFlightMap Miss) : Prop where
  one : s.tasks.OneClaim (fun t wave => t.stage.leads = some wave)
  cell : ∀ t ∈ s.tasks, ∀ wave, t.stage.leads = some wave →
    s.shared.cells[wave]? = some t.stage.cell
  current : ∀ key wave, s.shared.map.get key = some wave →
    ∃ l ∈ s.tasks, l.stage.leads = some wave ∧ l.key = key ∧ l.stage.registered = true
  entry : ∀ t ∈ s.tasks, ∀ wave, t.stage.leads = some wave → t.stage.registered = true →
    s.shared.map.get t.key = some wave
  led : ∀ t ∈ s.tasks, ∀ wave, t.stage.joins = some wave →
    ∃ l ∈ s.tasks, l.stage.leads = some wave ∧ l.key = t.key
  waits : ∀ t ∈ s.tasks, Waits s.shared.cells t.stage

theorem joins_of_leads (h : stage.leads = some wave) : stage.joins = none := by
  cases stage <;> first | rfl | cases h

theorem waits_of_leads (h : stage.leads = some wave) (cells : List InFlight) :
    Waits cells stage := by
  cases stage <;> trivial

theorem Waits.mono {cells cells' : List InFlight} (h : Waits cells stage)
    (hg : ∀ (wave : Nat) (cell : InFlight), cells[wave]? = some cell →
      ∃ cell', cells'[wave]? = some cell' ∧ Grows cell cell') : Waits cells' stage := by
  cases stage with
  | Reading wave seen =>
    obtain ⟨cell, hc, hs⟩ := h
    obtain ⟨cell', hc', hgr⟩ := hg wave cell hc
    exact ⟨cell', hc', hs.trans hgr.notified⟩
  | Woken wave =>
    obtain ⟨cell, hc, hf⟩ := h
    obtain ⟨cell', hc', hgr⟩ := hg wave cell hc
    obtain ⟨terminal, ht⟩ := ne_none_iff_exists'.mp hf
    exact ⟨cell', hc', by simp [hgr.terminal terminal ht]⟩
  | Joined wave terminal =>
    obtain ⟨cell, hc, hf⟩ := h
    obtain ⟨cell', hc', hgr⟩ := hg wave cell hc
    exact ⟨cell', hc', hgr.terminal terminal hf⟩
  | _ => exact h

section

variable {waves waves' : InFlightMap} {tasks : List Miss} {t t' : Miss} {i : Nat}

/-- What is said of the leaders stays true, if a task goes on that leads what it led. -/
theorem leader_after (ht : tasks[i]? = some t) (hs : P t → P t') (h : ∃ l ∈ tasks, P l) :
    ∃ l ∈ tasks.set i t', P l := by
  obtain ⟨l, hl, hp⟩ := h
  rcases mem_set_or_eq t' ht hl with hm | rfl
  · exact ⟨l, hm, hp⟩
  · have hlt := (List.getElem?_eq_some_iff.mp ht).1
    exact ⟨t', mem_set hlt t', hs hp⟩

theorem leader_beside (ht : tasks[i]? = some t) (hl : t.stage.leads = none) (t' : Miss)
    (h : ∃ l ∈ tasks, l.stage.leads = some wave ∧ P l) :
    ∃ l ∈ tasks.set i t', l.stage.leads = some wave ∧ P l := by
  refine leader_after ht ?_ h
  rintro ⟨hw, -⟩
  rw [hl] at hw
  cases hw

variable (h : Coalesced ⟨waves, tasks⟩) {answer : Answer}

include h

theorem Coalesced.leader_step (ht : tasks[i]? = some t) (hl : t.stage.leads = some wave)
    (hs : LeaderStep waves waves' t t' wave) : Coalesced ⟨waves', tasks.set i t'⟩ := by
  have hm := mem_of_getElem? ht
  have hc := h.cell t hm wave hl
  have hsa : ∀ {w k}, t.stage.leads = some w ∧ t.key = k →
      t'.stage.leads = some w ∧ t'.key = k := by
    rintro w k ⟨hw, hk⟩
    rw [hl] at hw
    rw [← hw, hs.key]
    exact ⟨hs.leads, hk⟩
  have hnot : ∀ {j u w}, j ≠ i → tasks[j]? = some u → u.stage.leads = some w → w ≠ wave := by
    rintro j u w hn hu hw rfl
    exact hn (h.one j i u t w hu ht hw hl)
  constructor
  · apply h.one.set ht
    intro w hw
    rw [hs.leads] at hw
    rw [hl]
    exact .inl hw
  · intro u hu w hw
    rcases mem_set_cases ht hu with rfl | ⟨j, hn, hj⟩
    · rw [hs.leads] at hw
      cases hw
      exact hs.cell
    · rw [hs.others w (hnot hn hj hw)]
      exact h.cell u (mem_of_getElem? hj) w hw
  · intro key w hg
    rcases hs.map with ⟨hma, hre⟩ | ⟨hma, -⟩
    · simp only [hma] at hg
      refine leader_after ht ?_ (h.current key w hg)
      rintro ⟨hw, hk, hr⟩
      obtain ⟨hw', hk'⟩ := hsa ⟨hw, hk⟩
      exact ⟨hw', hk', hre.trans hr⟩
    · simp only [hma] at hg
      have hold := get_of_retire hg
      refine leader_after ht ?_ (h.current key w hold)
      rintro ⟨hw, rfl, -⟩
      rw [hl] at hw
      cases hw
      exact absurd hg (get_retire_own t.key wave)
  · intro u hu w hw hr
    rcases mem_set_cases ht hu with rfl | ⟨j, hn, hj⟩
    · rcases hs.map with ⟨hma, hre⟩ | ⟨-, hre⟩
      · rw [hs.leads] at hw
        cases hw
        simp only [hma, hs.key]
        exact h.entry t hm wave hl (hre.symm.trans hr)
      · rw [hre] at hr
        cases hr
    · have hold := h.entry u (mem_of_getElem? hj) w hw hr
      rcases hs.map with ⟨hma, -⟩ | ⟨hma, -⟩
      · simp only [hma]
        exact hold
      · simp only [hma]
        exact get_retire_other hold (hnot hn hj hw)
  · intro u hu w hw
    rcases mem_set_cases ht hu with rfl | ⟨j, hn, hj⟩
    · rw [joins_of_leads hs.leads] at hw
      cases hw
    · exact leader_after ht hsa (h.led u (mem_of_getElem? hj) w hw)
  · intro u hu
    rcases mem_set_cases ht hu with rfl | ⟨j, hn, hj⟩
    · exact waits_of_leads hs.leads _
    · refine (h.waits u (mem_of_getElem? hj)).mono ?_
      intro w cell hw
      by_cases hwa : w = wave
      · subst hwa
        rw [hc] at hw
        cases hw
        exact ⟨_, hs.cell, hs.grows⟩
      · exact ⟨cell, by rw [hs.others w hwa, hw], .refl _⟩

theorem Coalesced.waiter_step (ht : tasks[i]? = some t) (hl : t.stage.leads = none)
    (hl' : t'.stage.leads = none) (hk : t'.key = t.key)
    (hle : ∀ wave, t'.stage.joins = some wave →
      ∃ l ∈ tasks, l.stage.leads = some wave ∧ l.key = t.key)
    (hwa : Waits waves.cells t'.stage) : Coalesced ⟨waves, tasks.set i t'⟩ := by
  constructor
  · apply h.one.set ht
    intro w hw
    rw [hl'] at hw
    cases hw
  · intro u hu w hw
    rcases mem_set_cases ht hu with rfl | ⟨j, -, hj⟩
    · rw [hl'] at hw
      cases hw
    · exact h.cell u (mem_of_getElem? hj) w hw
  · intro key w hg
    exact leader_beside ht hl t' (h.current key w hg)
  · intro u hu w hw hr
    rcases mem_set_cases ht hu with rfl | ⟨j, -, hj⟩
    · rw [hl'] at hw
      cases hw
    · exact h.entry u (mem_of_getElem? hj) w hw hr
  · intro u hu w hw
    rcases mem_set_cases ht hu with rfl | ⟨j, -, hj⟩
    · rw [hk]
      exact leader_beside ht hl u (hle w hw)
    · exact leader_beside ht hl t' (h.led u (mem_of_getElem? hj) w hw)
  · intro u hu
    rcases mem_set_cases ht hu with rfl | ⟨j, -, hj⟩
    · exact hwa
    · exact h.waits u (mem_of_getElem? hj)

theorem Coalesced.open_wave {key : String} (ht : tasks[i]? = some ⟨key, exchange, .Entering⟩)
    (hf : waves.map.get key = none) :
    Coalesced ⟨⟨waves.map.insert key waves.cells.length, waves.cells ++ [.default]⟩,
      tasks.set i ⟨key, exchange, .Leading waves.cells.length⟩⟩ := by
  have hold : ∀ {wave : Nat} {cell : InFlight}, waves.cells[wave]? = some cell →
      (waves.cells ++ [InFlight.default])[wave]? = some cell := by
    intro wave cell hc
    rw [getElem?_append_left (List.getElem?_eq_some_iff.mp hc).1, hc]
  have hn : ∀ u ∈ tasks, u.stage.leads ≠ some waves.cells.length := by
    intro u hu hl
    have hc := h.cell u hu _ hl
    rw [getElem?_eq_none le_rfl] at hc
    cases hc
  have hlt := (List.getElem?_eq_some_iff.mp ht).1
  constructor
  · apply h.one.set ht
    rintro w ⟨⟩
    exact .inr hn
  · intro u hu w hw
    rcases mem_set_cases ht hu with rfl | ⟨j, -, hj⟩
    · cases hw
      simp only [getElem?_append_right le_rfl, Nat.sub_self]
      rfl
    · exact hold (h.cell u (mem_of_getElem? hj) w hw)
  · intro key' w hg
    rcases get_of_insert hg with ⟨rfl, rfl⟩ | hold
    · exact ⟨_, mem_set hlt _, rfl, rfl, rfl⟩
    · exact leader_beside ht rfl _ (h.current key' w hold)
  · intro u hu w hw hr
    rcases mem_set_cases ht hu with rfl | ⟨j, -, hj⟩
    · cases hw
      exact get_insert_self _ _ _
    · have hg := h.entry u (mem_of_getElem? hj) w hw hr
      have hk : u.key ≠ key := by
        rintro rfl
        rw [hf] at hg
        cases hg
      simp only [get_insert_of_ne _ _ hk]
      exact hg
  · intro u hu w hw
    rcases mem_set_cases ht hu with rfl | ⟨j, -, hj⟩
    · cases hw
    · exact leader_beside ht rfl _ (h.led u (mem_of_getElem? hj) w hw)
  · intro u hu
    rcases mem_set_cases ht hu with rfl | ⟨j, -, hj⟩
    · trivial
    · refine (h.waits u (mem_of_getElem? hj)).mono ?_
      exact fun w cell hc => ⟨cell, hold hc, .refl _⟩

theorem Coalesced.cell_of_waiter (ht : t ∈ tasks) (hj : t.stage.joins = some wave) :
    ∃ l ∈ tasks, l.stage.leads = some wave ∧ l.key = t.key ∧
      waves.cells[wave]? = some l.stage.cell ∧ waves.cells.getD wave .default = l.stage.cell := by
  obtain ⟨l, hl, hle, hk⟩ := h.led t ht wave hj
  have hc : waves.cells[wave]? = some l.stage.cell := h.cell l hl wave hle
  exact ⟨l, hl, hle, hk, hc, by rw [getD_eq_getElem?_getD, hc, getD_some]⟩

theorem Coalesced.enter_step {key : String} (ht : tasks[i]? = some ⟨key, exchange, .Entering⟩) :
    Coalesced ⟨(enter waves key).1, tasks.set i ⟨key, exchange, (enter waves key).2⟩⟩ := by
  unfold enter
  cases hg : waves.map.get key with
  | none => exact h.open_wave ht hg
  | some wave =>
    obtain ⟨l, hl, hle, hk, -⟩ := h.current key wave hg
    have hc : waves.cells[wave]? = some l.stage.cell := h.cell l hl wave hle
    refine h.waiter_step ht rfl rfl rfl ?_ ⟨_, hc, ?_⟩
    · rintro w ⟨⟩
      exact ⟨l, hl, hle, hk⟩
    · rw [getD_eq_getElem?_getD, hc, getD_some]

theorem Coalesced.waiter_stays (ht : tasks[i]? = some t) (hl : t.stage.leads = none)
    (hl' : t'.stage.leads = none) (hk : t'.key = t.key)
    (hj : t'.stage.joins = t.stage.joins) (hw : Waits waves.cells t'.stage) :
    Coalesced ⟨waves, tasks.set i t'⟩ := by
  refine h.waiter_step ht hl hl' hk ?_ hw
  intro wave hwa
  exact h.led t (mem_of_getElem? ht) wave (hj.symm.trans hwa)

theorem Coalesced.waiter_leaves (ht : tasks[i]? = some t) (hl : t.stage.leads = none) :
    Coalesced ⟨waves, tasks.set i { t with stage := .Left }⟩ :=
  h.waiter_step ht hl rfl rfl (by rintro wave ⟨⟩) trivial

theorem Coalesced.reading_step {key : String}
    (ht : tasks[i]? = some ⟨key, exchange, .Reading wave seen⟩)
    (hs : advance waves ⟨key, exchange, .Reading wave seen⟩ .go = some (waves', t')) :
    Coalesced ⟨waves', tasks.set i t'⟩ := by
  have hm := mem_of_getElem? ht
  obtain ⟨l, -, -, -, hc, hr⟩ := h.cell_of_waiter hm rfl
  simp only [advance, hr] at hs
  cases hte : l.stage.cell.terminal with
  | some terminal =>
    rw [hte] at hs
    cases hs
    exact h.waiter_stays ht rfl rfl rfl rfl ⟨_, hc, hte⟩
  | none =>
    -- nothing is published, so nobody was notified yet
    rw [hte] at hs
    cases hs
    refine h.waiter_stays ht rfl rfl rfl rfl ?_
    obtain ⟨cell, hc', hse⟩ := h.waits _ hm
    simp only [hc, Option.some.injEq] at hc'
    subst hc'
    have hn : l.stage.cell.notified = 0 := Stage.notifications_of_unpublished hte
    exact Nat.le_zero.mp (hn ▸ hse)

/-- A waiter that was notified wakes up, and then the slot is filled. -/
theorem Coalesced.parked_step {key : String}
    (ht : tasks[i]? = some ⟨key, exchange, .Parked wave seen⟩)
    (hs : advance waves ⟨key, exchange, .Parked wave seen⟩ .go = some (waves', t')) :
    Coalesced ⟨waves', tasks.set i t'⟩ := by
  obtain ⟨l, -, -, -, hc, hr⟩ := h.cell_of_waiter (mem_of_getElem? ht) rfl
  simp only [advance, hr] at hs
  split at hs
  · rename_i hn
    cases hs
    refine h.waiter_stays ht rfl rfl rfl rfl ⟨_, hc, ?_⟩
    intro hno
    have hzero : l.stage.cell.notified = 0 := Stage.notifications_of_unpublished hno
    omega
  · cases hs

theorem Coalesced.woken_step {key : String} (ht : tasks[i]? = some ⟨key, exchange, .Woken wave⟩)
    (hs : advance waves ⟨key, exchange, .Woken wave⟩ .go = some (waves', t')) :
    Coalesced ⟨waves', tasks.set i t'⟩ := by
  have hm := mem_of_getElem? ht
  obtain ⟨l, -, -, -, hc, hr⟩ := h.cell_of_waiter hm rfl
  simp only [advance, hr] at hs
  cases hs
  obtain ⟨cell, hc', hf⟩ := h.waits _ hm
  simp only [hc, Option.some.injEq] at hc'
  subst hc'
  obtain ⟨terminal, hte⟩ := ne_none_iff_exists'.mp hf
  refine h.waiter_stays ht rfl rfl rfl rfl ⟨_, hc, ?_⟩
  rw [hte, getD_some]

theorem Coalesced.step (ht : tasks[i]? = some t)
    (hs : advance waves t answer = some (waves', t')) : Coalesced ⟨waves', tasks.set i t'⟩ := by
  have hm := mem_of_getElem? ht
  cases hl : t.stage.leads with
  | some wave =>
    exact h.leader_step ht hl (cache_eip.leader_step hl (h.cell t hm wave hl) hs)
  | none =>
    obtain ⟨key, exchange, stage⟩ := t
    cases stage with
    | Entering =>
      cases answer with
      | go =>
        cases hs
        exact h.enter_step ht
      | outcome outcome => cases hs
      | dropped =>
        cases hs
        exact h.waiter_leaves ht rfl
    | Reading wave seen =>
      cases answer with
      | go => exact h.reading_step ht hs
      | outcome outcome | dropped => cases hs
    | Parked wave seen =>
      cases answer with
      | go => exact h.parked_step ht hs
      | outcome outcome => cases hs
      | dropped =>
        cases hs
        exact h.waiter_leaves ht rfl
    | Woken wave =>
      cases answer with
      | go => exact h.woken_step ht hs
      | outcome outcome | dropped => cases hs
    | Joined wave terminal | Left => cases answer <;> cases hs
    | _ => cases hl

theorem Coalesced.spawn (key : String) (exchange : Exchange) :
    Coalesced ⟨waves, tasks ++ [⟨key, exchange, .Entering⟩]⟩ := by
  have hle : ∀ {P : Miss → Prop}, (∃ l ∈ tasks, P l) →
      ∃ l ∈ tasks ++ [⟨key, exchange, .Entering⟩], P l := by
    rintro P ⟨l, hl, hp⟩
    exact ⟨l, mem_append_left _ hl, hp⟩
  constructor
  · exact h.one.append (by rintro wave ⟨⟩)
  · exact forall_mem_concat h.cell (by rintro wave ⟨⟩)
  · exact fun key wave hg => hle (h.current key wave hg)
  · exact forall_mem_concat h.entry (by rintro wave ⟨⟩)
  · refine forall_mem_concat ?_ (by rintro wave ⟨⟩)
    exact fun u hu wave hj => hle (h.led u hu wave hj)
  · exact forall_mem_concat h.waits trivial

variable (ht : tasks[i]? = some t) (hstep : advance waves t answer = some (waves', t'))

include ht hstep

theorem Coalesced.cells_grow {cell : InFlight} (hc : waves.cells[wave]? = some cell) :
    ∃ cell', waves'.cells[wave]? = some cell' ∧ Grows cell cell' := by
  have hm := mem_of_getElem? ht
  cases hl : t.stage.leads with
  | some own =>
    have ho := h.cell t hm own hl
    have hle := cache_eip.leader_step hl ho hstep
    by_cases heq : wave = own
    · subst heq
      simp only [hc, Option.some.injEq] at ho
      subst ho
      exact ⟨_, hle.cell, hle.grows⟩
    · exact ⟨cell, by rw [hle.others wave heq, hc], .refl _⟩
  | none =>
    rcases waves_of_others hl hstep with rfl | ⟨-, -, rfl⟩
    · exact ⟨cell, hc, .refl _⟩
    · refine ⟨cell, ?_, .refl _⟩
      simp only
      rw [getElem?_append_left (List.getElem?_eq_some_iff.mp hc).1, hc]

theorem Coalesced.entry_stays {key : String} (hg : waves.map.get key = some wave) :
    waves'.map.get key = some wave ∨
      (t.stage.leads = some wave ∧ t.key = key ∧ t'.stage.published ≠ none) := by
  have hm := mem_of_getElem? ht
  cases hle : t.stage.leads with
  | some own =>
    have hlea := cache_eip.leader_step hle (h.cell t hm own hle) hstep
    rcases hlea.map with ⟨hma, -⟩ | ⟨hma, hr⟩
    · rw [hma]
      exact .inl hg
    · rw [hma]
      by_cases heq : wave = own
      · subst heq
        obtain ⟨l, hl, hlead, hk, -⟩ := h.current key wave hg
        obtain ⟨j, hj⟩ := getElem?_of_mem hl
        have hij := h.one j i l t wave hj ht hlead hle
        subst hij
        rw [ht] at hj
        cases hj
        exact .inr ⟨rfl, hk, published_of_retired hlea.leads hr⟩
      · exact .inl (get_retire_other hg heq)
  | none =>
    rcases waves_of_others hle hstep with rfl | ⟨-, hf, rfl⟩
    · exact .inl hg
    · have hk : key ≠ t.key := by
        rintro rfl
        rw [hf] at hg
        cases hg
      simp only
      rw [get_insert_of_ne _ _ hk]
      exact .inl hg

end

/-! ## Every run -/

abbrev State := Interleaving.State InFlightMap Miss

/-- What the misses can come to, in any order of their steps. -/
abbrev Reached : State → State → Prop := coalesced_misses.Reach Interleaving.Free

section

variable {s s' : State}

theorem coalesced_of_reached (h : Coalesced s) (hr : Reached s s') : Coalesced s' := by
  refine hr.invariant h ?_ ?_
  · exact fun s miss hs _ => hs.spawn miss.1 miss.2
  · exact fun s i t answer waves t' hs _ ht hstep => hs.step ht hstep

theorem coalesced_new : Coalesced ⟨.new, []⟩ := by
  refine ⟨?_, ?_, ?_, ?_, ?_, ?_⟩
  · intro i j a b wave hi
    simp at hi
  · simp
  · simp [InFlightMap.new]
  all_goals simp

theorem terminal_of_reached (h : Coalesced s) (hr : Reached s s') {cell : InFlight}
    (hc : s.shared.cells[wave]? = some cell) :
    ∃ cell', s'.shared.cells[wave]? = some cell' ∧ Grows cell cell' := by
  have hb : Coalesced s' ∧ ∃ cell', s'.shared.cells[wave]? = some cell' ∧ Grows cell cell' := by
    refine hr.invariant (P := fun s' => Coalesced s' ∧
      ∃ cell', s'.shared.cells[wave]? = some cell' ∧ Grows cell cell') ?_ ?_ ?_
    · exact ⟨h, cell, hc, .refl _⟩
    · exact fun s miss hs _ => ⟨hs.1.spawn miss.1 miss.2, hs.2⟩
    · rintro s i t answer waves t' ⟨hs, cell', hc', hg⟩ _ ht hstep
      obtain ⟨cell'', hc'', hg'⟩ := hs.cells_grow ht hstep hc'
      exact ⟨hs.step ht hstep, cell'', hc'', hg.trans hg'⟩
  exact hb.2

theorem Coalesced.waiter_goes_on (h : Coalesced s) {t l : Miss} (ht : t ∈ s.tasks)
    (hl : l ∈ s.tasks) {outcome : Option PipelineOutcome} (hp : t.stage = .Parked wave seen)
    (hle : l.stage = .Led wave outcome) : (advance s.shared t .go).isSome = true := by
  have hs : seen = 0 := by
    have hw := h.waits t ht
    rw [hp] at hw
    exact hw
  have hc := h.cell l hl wave (by rw [hle]; rfl)
  have hn : 0 < l.stage.cell.notified := by
    rw [hle]
    cases outcome with
    | none => exact Nat.one_pos
    | some outcome => exact Nat.two_pos
  simp only [advance, hp, getD_eq_getElem?_getD, hc, getD_some, hs, if_pos hn, isSome_some]

def Miss.runs (t : Miss) : Prop := ∃ wave, t.stage = .Leading wave

end

/-- A leader is dropped while another exchange waits, which is woken. -/
def droppedLeader : List (Interleaving.Event (String × Exchange) Answer) :=
  [.spawn ("k", .new .default), .spawn ("k", .new .default), .step 0 .go, .step 1 .go, .step 1 .go,
    .step 0 .dropped, .step 0 .go, .step 0 .go, .step 0 .go, .step 1 .go, .step 1 .go]

end camel_processor.cache_eip
