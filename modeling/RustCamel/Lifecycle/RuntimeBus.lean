-- The runtime bus of `application/runtime_bus.rs`: the ids of the commands, the
-- nonce of a boot, the recovery that runs once, and the gate that keeps
-- duplicates out. A call may be dropped at every `.await`.
import RustCamel.Lifecycle.Commands

namespace camel_core.lifecycle

open camel_api

/-! ## The ids of the commands -/

/-- `str::parse::<u64>`: an optional plus sign, then at least one digit. -/
def parse_u64 (s : String) : Option Nat :=
  let digits := if s.toList.head? = some '+' then s.toList.tail else s.toList
  if digits = [] ∨ ¬ digits.all Char.isDigit then none
  else if Nat.ofDigitChars 10 digits 0 ≤ u64_max then some (Nat.ofDigitChars 10 digits 0)
  else none

/-- `str::rsplit` for a character: the segments, the last one first. -/
def rsplit (sep : Char) (s : String) : List String :=
  ((s.toList.splitOn sep).map String.ofList).reverse

/-- The nonce that an id names: its penultimate segment, when the last two are
numbers. -/
def nonce_segment (id : String) : Option Nat :=
  match rsplit ':' id with
  | last :: penultimate :: _ =>
    match parse_u64 last, parse_u64 penultimate with
    | some _, some nonce_seg => some nonce_seg
    | _, _ => none
  | _ => none

/-- One turn of the loop of `derive_boot_nonce`. -/
def max_penultimate (best : Option (Nat × String)) (id : String) : Option (Nat × String) :=
  match nonce_segment id with
  | none => best
  | some nonce_seg => if best.all fun m => m.1 < nonce_seg then some (nonce_seg, id) else best

def derive_boot_nonce (ids : List String) : Except DomainError Nat :=
  match ids.foldl max_penultimate none with
  | none => .ok 0
  | some (m, offending) =>
    if m = u64_max then
      .error (.InvalidState s!"deterministic boot nonce space exhausted by recorded command ID '{offending}'; clean or rotate the journal")
    else .ok (m + 1)

/-- The order in which `HashSet::iter` goes through a set. -/
structure IterOrder where
  walk : Finset String → List String
  mem_walk : ∀ s id, id ∈ walk s ↔ id ∈ s

def InMemoryRuntimeStore.recovered_boot_nonce (order : IterOrder) (self : InMemoryRuntimeStore) :
    Except DomainError Nat := derive_boot_nonce (order.walk self.inner.seen)

/-- The id, and the counter after `fetch_add`. -/
def next_context_command_id (boot_nonce : Nat) (op route_id : String) (seq : UInt64) :
    String × UInt64 :=
  (s!"context:{op}:{route_id}:{boot_nonce}:{seq.toNat}", seq + 1)

theorem colon_notMem_digits (n : Nat) : ':' ∉ Nat.toDigits 10 n := by
  intro hm
  exact absurd (Nat.isDigit_of_mem_toDigits (by decide) (by decide) hm) (by decide)

/-! ## The bus -/

structure RuntimeBus (ρ : Type) where
  world : World ρ
  journal_recovered_once : Option Nat

namespace RuntimeBus

variable {ρ : Type}

def boot_nonce (self : RuntimeBus ρ) : Nat := self.journal_recovered_once.getD 0

def withStore (self : RuntimeBus ρ) (store : InMemoryRuntimeStore) : RuntimeBus ρ :=
  { self with world := { self.world with store } }

/-- The body of `ensure_journal_recovered`, when there is a unit of work. -/
def ensure_journal_recovered (env : JournalEnv) (order : IterOrder) (self : RuntimeBus ρ) :
    Except DomainError Unit × RuntimeBus ρ :=
  match self.journal_recovered_once with
  | some _ => (.ok (), self)
  | none =>
    match self.world.store.recover_from_journal env with
    | (.error error, store) => (.error error, self.withStore store)
    | (.ok (), store) =>
      match store.recovered_boot_nonce order with
      | .error error => (.error error, self.withStore store)
      | .ok nonce => (.ok (), { self.withStore store with journal_recovered_once := some nonce })

end RuntimeBus

/-! ## The calls of `execute` -/

inductive BusCall where
  | reload_tls (scheme host : String) (port : Nat)
  | reload_templates (route_id : String)
  | ensure_journal_recovered
  | first_seen (command_id : String)
  | forget_seen (command_id : String)
  | port (c : PortCall)

@[reducible] def BusReply : BusCall → Type
  | .reload_tls _ _ _ => Option (Except CamelError Unit)
  | .reload_templates _ => Except CamelError Unit
  | .ensure_journal_recovered => Except DomainError Unit
  | .first_seen _ => Except DomainError Bool
  | .forget_seen _ => Except DomainError Unit
  | .port c => Answer c

/-- A call that has no reply was dropped while it waited. -/
abbrev BusAnswer (c : BusCall) : Type := Option (BusReply c)

/-- A call of the bus as it runs. It has no result when it was dropped. -/
abbrev BusProg : Type := Prog BusCall BusAnswer (Option (Outcome CamelError RuntimeCommandResult))

/-- `.await`: a program that is dropped here goes no further. -/
def awaiting (c : BusCall) (k : BusReply c → BusProg) : BusProg :=
  .call c fun
    | none => .done none
    | some reply => k reply

def returning (r : Outcome CamelError RuntimeCommandResult) : BusProg := .done (some r)

/-- A handler inside the bus, and what follows it. -/
def within : Prog PortCall Answer (Outcome CamelError RuntimeCommandResult) →
    (Outcome CamelError RuntimeCommandResult → BusProg) → BusProg
  | .done r, k => k r
  | .call c next, k => awaiting (.port c) fun reply => within (next reply) k

/-- The end of `execute`: the id is given back when the handler fails. A panic
of the handler passes by. -/
def settle (command_id : String) : Outcome CamelError RuntimeCommandResult → BusProg
  | .ok result => returning (.ok result)
  | .error (.err error) =>
    awaiting (.forget_seen command_id) fun _ => returning (.error (.err error))
  | .error .panic => returning (.error .panic)

variable (deps : CommandDeps)

def dedup_gate (cmd : RuntimeCommand) : BusProg :=
  awaiting (.first_seen cmd.command_id) fun
    | .error error => returning (.error (.err (.of_domain error)))
    | .ok false => returning (.ok (.Duplicate cmd.command_id))
    | .ok true => within (execute_command deps cmd).run (settle cmd.command_id)

def execute (cmd : RuntimeCommand) : BusProg :=
  match cmd with
  | .ReloadTlsCerts scheme host port _ _ =>
    awaiting (.reload_tls scheme host port) fun
      | none =>
        returning (.error (.err (.Config s!"no TLS server found for {scheme}://{host}:{port}")))
      | some (.error error) => returning (.error (.err error))
      | some (.ok ()) => returning (.ok (.TlsCertsReloaded scheme host port))
  | .ReloadTemplates route_id _ _ =>
    awaiting (.reload_templates route_id) fun
      | .error error => returning (.error (.err error))
      | .ok () => returning (.ok (.TemplatesReloaded route_id))
  | cmd =>
    if deps.uow then
      awaiting .ensure_journal_recovered fun
        | .error error => returning (.error (.err (.of_domain error)))
        | .ok () => dedup_gate deps cmd
    else dedup_gate deps cmd

/-- What the bus does once its journal is read, or the error of the reading. -/
def after_recovery (failed : CamelError → CamelError) (k : BusProg) : BusProg :=
  if deps.uow then
    awaiting .ensure_journal_recovered fun
      | .error error => returning (.error (.err (failed (.of_domain error))))
      | .ok () => k
  else k

/-- The error of `RouteRegistrationPort::register_route`, which goes through a `DomainError`. -/
def registration_error : CamelError → CamelError
  | .RouteError msg => .of_domain (.InvalidState msg)
  | other => .of_domain (.InvalidState other.to_string)

/-- A registration passes by the gate, for it has no command id. -/
def RuntimeBus.register_route (definition : RouteDefinition) : BusProg :=
  after_recovery deps (fun error => .of_domain (.InvalidState error.to_string))
    (within (handle_register_internal deps definition).run fun
      | .ok result => returning (.ok result)
      | .error (.err error) => returning (.error (.err (registration_error error)))
      | .error .panic => returning (.error .panic))

def RuntimeBus.register_aggregate_only (deps : CommandDeps) (route_id : String) : BusProg :=
  after_recovery deps id
    (within (do
      lifecycle.register_aggregate_only deps route_id
      return .Accepted : Handler RuntimeCommandResult).run returning)

/-! ## What the calls do -/

/-- The store may change as it likes, but for the ids that it has seen. -/
def SameIds (store store' : InMemoryRuntimeStore) : Prop :=
  store'.inner.seen = store.inner.seen ∧
    store'.journal.map (·.command_ids) = store.journal.map (·.command_ids)

/-- A recovery that is dropped has replaced the state, or not. -/
def droppedRecovery {ρ : Type} (bus bus' : RuntimeBus ρ) : Prop :=
  bus' = bus ∨ (bus.journal_recovered_once = none ∧
    ∃ env, bus' = bus.withStore (bus.world.store.recover_from_journal env).2)

/-- A reservation that is dropped still waits for the lock, or the id is in the
set, and the journal has it or not. -/
def droppedReservation {ρ : Type} (command_id : String) (bus bus' : RuntimeBus ρ) : Prop :=
  bus' = bus ∨
    bus' = bus.withStore { bus.world.store with
      inner.seen := insert command_id bus.world.store.inner.seen } ∨
    ∃ env, bus' = bus.withStore (bus.world.store.first_seen env command_id).2

/-- A release that is dropped still waits for the lock, or the id is out of the
set, and the journal has it or not. -/
def droppedRelease {ρ : Type} (command_id : String) (bus bus' : RuntimeBus ρ) : Prop :=
  bus' = bus ∨ ∃ env, bus' = bus.withStore (bus.world.store.forget_seen env command_id).2

/-- What the calls of the bus do. The registries of the reloads answer as they
like. A call of a port that is dropped leaves the ids alone. -/
def busSem {ρ : Type} (exec : RuntimeSem ρ) : Sem BusCall BusAnswer (RuntimeBus ρ)
  | .reload_tls _ _ _, bus, _, bus' => bus' = bus
  | .reload_templates _, bus, _, bus' => bus' = bus
  | .ensure_journal_recovered, bus, some reply, bus' =>
    ∃ env order, (reply, bus') = bus.ensure_journal_recovered env order
  | .ensure_journal_recovered, bus, none, bus' => droppedRecovery bus bus'
  | .first_seen command_id, bus, some reply, bus' =>
    ∃ env, (reply, bus') = ((bus.world.store.first_seen env command_id).1,
      bus.withStore (bus.world.store.first_seen env command_id).2)
  | .first_seen command_id, bus, none, bus' => droppedReservation command_id bus bus'
  | .forget_seen command_id, bus, some reply, bus' =>
    ∃ env, (reply, bus') = ((bus.world.store.forget_seen env command_id).1,
      bus.withStore (bus.world.store.forget_seen env command_id).2)
  | .forget_seen command_id, bus, none, bus' => droppedRelease command_id bus bus'
  | .port c, bus, some reply, bus' =>
    portSem exec c bus.world reply bus'.world ∧
      bus'.journal_recovered_once = bus.journal_recovered_once
  | .port _, bus, none, bus' =>
    SameIds bus.world.store bus'.world.store ∧
      bus'.journal_recovered_once = bus.journal_recovered_once

/-! ## Runs with the faults given in advance -/

/-- One order of a set: that of its ids. -/
def sortedOrder : IterOrder where
  walk s :=
    @Finset.sort _ s (· ≤ ·) _ ⟨fun _ _ _ => le_trans⟩ ⟨fun _ _ => le_antisymm⟩ ⟨le_total⟩
  mem_walk s _ := s.mem_sort _

/-- The calls as a function, when no call is dropped and the journal keeps the
ids. The registries of the reloads are empty. -/
def busFn {ρ : Type} (faults : Faults) : (c : BusCall) → RuntimeBus ρ → BusAnswer c × RuntimeBus ρ
  | .reload_tls _ _ _, bus => (some none, bus)
  | .reload_templates _, bus => (some (.ok ()), bus)
  | .ensure_journal_recovered, bus =>
    (some (bus.ensure_journal_recovered {} sortedOrder).1,
      (bus.ensure_journal_recovered {} sortedOrder).2)
  | .first_seen command_id, bus =>
    (some (bus.world.store.first_seen {} command_id).1,
      bus.withStore (bus.world.store.first_seen {} command_id).2)
  | .forget_seen command_id, bus =>
    (some (bus.world.store.forget_seen {} command_id).1,
      bus.withStore (bus.world.store.forget_seen {} command_id).2)
  | .port c, bus =>
    (some (portFn faults c bus.world).1, { bus with world := (portFn faults c bus.world).2 })

theorem busSem_busFn {ρ : Type} {exec : RuntimeSem ρ} {faults : Faults}
    (he : ∀ op s, exec op s (faults.runtime op) s) (c : BusCall) (bus : RuntimeBus ρ) :
    busSem exec c bus (busFn faults c bus).1 (busFn faults c bus).2 := by
  cases c with
  | reload_tls | reload_templates => exact rfl
  | ensure_journal_recovered => exact ⟨_, _, rfl⟩
  | first_seen | forget_seen => exact ⟨_, rfl⟩
  | port c => exact ⟨portSem_portFn he c bus.world, rfl⟩

end camel_core.lifecycle
