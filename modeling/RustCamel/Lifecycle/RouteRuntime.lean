-- The route aggregate of `domain/route_runtime.rs`: the state of one route,
-- its version, and the commands that move it. The laws at the end say what a
-- change of the aggregate can be.
import Mathlib.Algebra.Order.Ring.Nat
import Mathlib.Data.List.Infix

namespace camel_core.lifecycle

/-! ## Rust values -/

/-- How a Rust call ends without a value: with an `Err`, or with a panic. -/
inductive Fault (ε : Type) where
  | err (e : ε)
  | panic

abbrev Outcome (ε α : Type) := Except (Fault ε) α

def u64_max : Nat := 2 ^ 64 - 1

/-- `n + 1` on a `u64` where overflow is checked, as in a debug build: past `u64::MAX` it panics.
The numbers of the resequencer wrap there, as in a release build. -/
def u64_succ {ε : Type} (n : Nat) : Outcome ε Nat :=
  if n < u64_max then .ok (n + 1) else .error .panic

def saturating_add (n m : Nat) : Nat := min (n + m) u64_max

/-- The escapes of `char::escape_debug` inside a string. -/
def escape_debug (c : Char) : String :=
  if c = '\t' then "\\t"
  else if c = '\r' then "\\r"
  else if c = '\n' then "\\n"
  else if c = '"' then "\\\""
  else if c = '\\' then "\\\\"
  else if c.toNat = 0 then "\\0"
  else if c.toNat < 32 ∨ (127 ≤ c.toNat ∧ c.toNat < 160) then
    "\\u\x7b" ++ String.ofList (Nat.toDigits 16 c.toNat) ++ "\x7d"
  else c.toString

/-- A string as `{:?}` writes it. -/
def debug_str (s : String) : String := "\"" ++ String.join (s.toList.map escape_debug) ++ "\""

/-- `str::contains` for a string pattern. -/
def str_contains (s pattern : String) : Bool :=
  s.toList.tails.any fun tail => pattern.toList.isPrefixOf tail

/-! ## Errors -/

inductive DomainError where
  | InvalidTransition (origin target : String)
  | NotFound (id : String)
  | AlreadyExists (id : String)
  | InvalidState (msg : String)

def DomainError.to_string : DomainError → String
  | .InvalidTransition origin target => s!"invalid transition: {origin} -> {target}"
  | .NotFound id => s!"not found: {id}"
  | .AlreadyExists id => s!"already exists: {id}"
  | .InvalidState msg => s!"invalid state: {msg}"

/-! ## Events, states and commands -/

inductive RuntimeEvent where
  | RouteRegistered (route_id : String)
  | RouteStartRequested (route_id : String)
  | RouteStarted (route_id : String)
  | RouteFailed (route_id error : String)
  | RouteStopped (route_id : String)
  | RouteSuspended (route_id : String)
  | RouteResumed (route_id : String)
  | RouteReloaded (route_id : String)
  | RouteRemoved (route_id : String)

def RuntimeEvent.route_id : RuntimeEvent → String
  | .RouteRegistered id | .RouteStartRequested id | .RouteStarted id | .RouteFailed id _
  | .RouteStopped id | .RouteSuspended id | .RouteResumed id | .RouteReloaded id
  | .RouteRemoved id => id

inductive RouteRuntimeState where
  | Registered
  | Starting
  | Started
  | Suspended
  | Stopping
  | Stopped
  | Failed (error : String)
  deriving DecidableEq

/-- The label of a state, as `state_label` and as the projections show it. -/
def RouteRuntimeState.label : RouteRuntimeState → String
  | .Registered => "Registered"
  | .Starting => "Starting"
  | .Started => "Started"
  | .Suspended => "Suspended"
  | .Stopping => "Stopping"
  | .Stopped => "Stopped"
  | .Failed _ => "Failed"

/-- A state as `{:?}` writes it. -/
def RouteRuntimeState.debug : RouteRuntimeState → String
  | .Failed error => s!"Failed({debug_str error})"
  | state => state.label

inductive RouteLifecycleCommand where
  | Start
  | Stop
  | Suspend
  | Resume
  | Reload
  | Fail (error : String)
  | Remove
  deriving DecidableEq

structure RouteRuntimeAggregate where
  route_id : String
  state : RouteRuntimeState
  version : Nat
  deriving DecidableEq

namespace RouteRuntimeAggregate

def new (route_id : String) : RouteRuntimeAggregate := ⟨route_id, .Registered, 0⟩

def register (route_id : String) : RouteRuntimeAggregate × List RuntimeEvent :=
  (new route_id, [.RouteRegistered route_id])

def from_snapshot (route_id : String) (state : RouteRuntimeState) (version : Nat) :
    RouteRuntimeAggregate := ⟨route_id, state, version⟩

variable (self : RouteRuntimeAggregate)

def state_label : String := self.state.label

def state_from_event : RuntimeEvent → Option RouteRuntimeState
  | .RouteRegistered _ => some .Registered
  | .RouteStartRequested _ => some .Starting
  | .RouteStarted _ => some .Started
  | .RouteStopped _ => some .Stopped
  | .RouteSuspended _ => some .Suspended
  | .RouteResumed _ => some .Started
  | .RouteFailed _ error => some (.Failed error)
  | .RouteReloaded _ => some .Started
  | .RouteRemoved _ => none

/-- The match of `apply_command`: the next state and the events, before the
version goes up. -/
def command_effect (cmd : RouteLifecycleCommand) :
    Except DomainError (RouteRuntimeState × List RuntimeEvent) :=
  let invalid (target : String) : Except DomainError (RouteRuntimeState × List RuntimeEvent) :=
    .error (.InvalidTransition self.state.debug target)
  match cmd with
  | .Start => match self.state with
    | .Registered | .Stopped =>
      .ok (.Started, [.RouteStartRequested self.route_id, .RouteStarted self.route_id])
    | .Started => .ok (.Started, [])
    | _ => invalid "Started"
  | .Stop => match self.state with
    | .Started | .Suspended | .Failed _ => .ok (.Stopped, [.RouteStopped self.route_id])
    | .Stopped => .ok (.Stopped, [])
    | _ => invalid "Stopped"
  | .Suspend => match self.state with
    | .Started => .ok (.Suspended, [.RouteSuspended self.route_id])
    | .Suspended => .ok (.Suspended, [])
    | _ => invalid "Suspended"
  | .Resume => match self.state with
    | .Suspended => .ok (.Started, [.RouteResumed self.route_id])
    | .Started => .ok (.Started, [])
    | _ => invalid "Started"
  | .Reload => match self.state with
    | .Started | .Suspended | .Stopped | .Failed _ =>
      .ok (.Started, [.RouteReloaded self.route_id])
    | _ => invalid "Started"
  | .Fail error => .ok (.Failed error, [.RouteFailed self.route_id error])
  | .Remove => match self.state with
    | .Registered | .Stopped => .ok (self.state, [.RouteRemoved self.route_id])
    | _ => invalid "Removed"

/-- Every accepted command raises the version, also one that changes nothing. -/
def apply_command (cmd : RouteLifecycleCommand) :
    Outcome DomainError (RouteRuntimeAggregate × List RuntimeEvent) :=
  match self.command_effect cmd with
  | .error e => .error (.err e)
  | .ok (state, events) =>
    match u64_succ self.version with
    | .error fault => .error fault
    | .ok version => .ok ({ self with state, version }, events)

def begin_start : Outcome DomainError (RouteRuntimeAggregate × List RuntimeEvent) :=
  match self.state with
  | .Registered | .Stopped =>
    match u64_succ self.version with
    | .error fault => .error fault
    | .ok version =>
      .ok ({ self with state := .Starting, version }, [.RouteStartRequested self.route_id])
  | .Starting | .Started => .ok (self, [])
  | _ => .error (.err (.InvalidTransition self.state.debug "Starting"))

def confirm_start : Outcome DomainError (RouteRuntimeAggregate × List RuntimeEvent) :=
  match self.state with
  | .Starting => .ok ({ self with state := .Started }, [.RouteStarted self.route_id])
  | .Started => .ok (self, [])
  | _ => .error (.err (.InvalidTransition self.state.debug "Started"))

def fail (error : String) : Outcome DomainError (RouteRuntimeAggregate × List RuntimeEvent) :=
  match u64_succ self.version with
  | .error fault => .error fault
  | .ok version =>
    .ok ({ self with state := .Failed error, version }, [.RouteFailed self.route_id error])

end RouteRuntimeAggregate

/-! ## The edges of the aggregate -/

open RouteRuntimeAggregate

/-- A change that the aggregate makes and tells of: a command, one of the two
phases of a start, or a failure. A removal has no aggregate after it. -/
inductive Edge : RouteRuntimeAggregate → List RuntimeEvent → RouteRuntimeAggregate → Prop
  | command {a a' : RouteRuntimeAggregate} {events : List RuntimeEvent}
      (cmd : RouteLifecycleCommand) :
      a.apply_command cmd = .ok (a', events) → cmd ≠ .Remove → events ≠ [] → Edge a events a'
  | begin_start {a a' : RouteRuntimeAggregate} {events : List RuntimeEvent} :
      a.begin_start = .ok (a', events) → events ≠ [] → Edge a events a'
  | confirm_start {a a' : RouteRuntimeAggregate} {events : List RuntimeEvent} :
      a.confirm_start = .ok (a', events) → events ≠ [] → Edge a events a'
  | fail {a a' : RouteRuntimeAggregate} {events : List RuntimeEvent} (error : String) :
      a.fail error = .ok (a', events) → Edge a events a'

/-- A route can be removed in these states. -/
def Removable (a : RouteRuntimeAggregate) : Prop := a.state = .Registered ∨ a.state = .Stopped

theorem u64_succ_ok {ε : Type} {n m : Nat} (h : (u64_succ n : Outcome ε Nat) = .ok m) :
    n < u64_max ∧ m = n + 1 := by
  unfold u64_succ at h
  split at h
  · cases h
    exact ⟨‹_›, rfl⟩
  · cases h

variable {a a' : RouteRuntimeAggregate} {events : List RuntimeEvent}

theorem apply_command_ok {cmd : RouteLifecycleCommand}
    (h : a.apply_command cmd = .ok (a', events)) :
    ∃ state, a.command_effect cmd = .ok (state, events) ∧ a.version < u64_max ∧
      a' = { a with state, version := a.version + 1 } := by
  unfold apply_command at h
  split at h
  · cases h
  · rename_i state events' he
    split at h
    · cases h
    · rename_i version hv
      obtain ⟨hl, rfl⟩ := u64_succ_ok hv
      cases h
      exact ⟨state, he, hl, rfl⟩

theorem fail_ok {error : String} (h : a.fail error = .ok (a', events)) :
    a.version < u64_max ∧ events = [.RouteFailed a.route_id error] ∧
      a' = { a with state := .Failed error, version := a.version + 1 } := by
  unfold RouteRuntimeAggregate.fail at h
  split at h
  · cases h
  · rename_i version hv
    obtain ⟨hl, rfl⟩ := u64_succ_ok hv
    cases h
    exact ⟨hl, rfl, rfl⟩

theorem begin_start_ok (h : a.begin_start = .ok (a', events)) (hn : events ≠ []) :
    Removable a ∧ a.version < u64_max ∧ events = [.RouteStartRequested a.route_id] ∧
      a' = { a with state := .Starting, version := a.version + 1 } := by
  unfold RouteRuntimeAggregate.begin_start at h
  split at h
  · rename_i hs
    split at h
    · cases h
    · rename_i version hv
      obtain ⟨hl, rfl⟩ := u64_succ_ok hv
      cases h
      exact ⟨.inl hs, hl, rfl, rfl⟩
  · rename_i hs
    split at h
    · cases h
    · rename_i version hv
      obtain ⟨hl, rfl⟩ := u64_succ_ok hv
      cases h
      exact ⟨.inr hs, hl, rfl, rfl⟩
  · cases h
    exact absurd rfl hn
  · cases h
    exact absurd rfl hn
  · cases h

theorem confirm_start_ok (h : a.confirm_start = .ok (a', events)) (hn : events ≠ []) :
    a.state = .Starting ∧ events = [.RouteStarted a.route_id] ∧
      a' = { a with state := .Started } := by
  unfold RouteRuntimeAggregate.confirm_start at h
  split at h
  · cases h
    exact ⟨‹_›, rfl, rfl⟩
  · cases h
    exact absurd rfl hn
  · cases h

theorem Edge.version_cases (h : Edge a events a') :
    a'.route_id = a.route_id ∧
      (a'.version = a.version + 1 ∨
        (a.state = .Starting ∧ a'.state = .Started ∧ a'.version = a.version)) := by
  cases h with
  | command cmd h _ _ =>
    obtain ⟨state, _, _, rfl⟩ := apply_command_ok h
    exact ⟨rfl, .inl rfl⟩
  | begin_start h hn =>
    obtain ⟨_, _, _, rfl⟩ := begin_start_ok h hn
    exact ⟨rfl, .inl rfl⟩
  | confirm_start h hn =>
    obtain ⟨hs, _, rfl⟩ := confirm_start_ok h hn
    exact ⟨rfl, .inr ⟨hs, rfl, rfl⟩⟩
  | fail error h =>
    obtain ⟨_, _, rfl⟩ := fail_ok h
    exact ⟨rfl, .inl rfl⟩

theorem removable_of_remove (h : a.apply_command .Remove = .ok (a', events)) :
    Removable a ∧ events = [.RouteRemoved a.route_id] := by
  obtain ⟨state, he, _, _⟩ := apply_command_ok h
  unfold command_effect at he
  simp only at he
  split at he
  · cases he
    exact ⟨.inl ‹_›, rfl⟩
  · cases he
    exact ⟨.inr ‹_›, rfl⟩
  · cases he

end camel_core.lifecycle
