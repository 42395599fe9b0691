-- When at most one pod leads at a time, with clocks that agree. The renewal budget is counted from
-- the answer to a write, and the Lease from the time before its request, so that an answer that
-- comes too late lets a pod lead past the end of its Lease. So does a release, which gives the
-- Lease away before the pod stops to lead.
import RustCamel.Platform.LeaseInvariant

open Option Bool

namespace camel_platform_kubernetes

open Runs (Reach)

/-! ## Time -/

/-- When the loop has to move on: a sleep ends, or the budget of an attempt. -/
def Stage.due : Stage → Option Nat
  | .Sleeping wake_at => some wake_at
  | .Attempting a _ _ => some (a.started + a.budget)
  | _ => none

/-- All clocks show the same time, a sleep is as long as it was asked for, and no attempt goes
on when its budget is spent. -/
def Timed (s : State) : Event → Prop
  | .tick duration => ∀ p, ∀ due ∈ (s.pods p).stage.due, s.now + duration ≤ due
  | .serve _ => True
  | .act p (.wake now timestamp _) =>
    now = s.now ∧ timestamp = s.now ∧
      ∀ wake_at, (s.pods p).stage = .Sleeping wake_at → wake_at ≤ now
  | .act _ (.answer now) => now = s.now
  | .act _ (.fail now) => now = s.now
  | .act _ .cancel => True
  | .act _ .leave => True

/-- The end of a Lease that an attempt wrote. -/
def expiry (config : KubernetesPlatformConfig) (now : Int) : Int :=
  micro_time now + written_seconds config * 1000000000

/-- A pod hears that its write was stored while the whole renewal budget from then on still
lies before the end of the Lease, and no pod shuts down while it leads. -/
def in_time (config : KubernetesPlatformConfig) (s : State) : Event → Bool
  | .act p (.answer now) =>
    match (s.pods p).stage with
    | .Attempting a _ i =>
      match s.reply i with
      | some (.Stored _ _) => (now + config.renew_deadline : Int) ≤ expiry config a.now
      | _ => true
    | _ => true
  | .act p .leave => !(s.pods p).state.currently_leader
  | _ => true

variable {p : String} {i : Nat} {a : Attempt} {phase : Phase} {version id : Nat} {r : Request}
  {success : Nat} {pod pod' : Pod} {input : Input} {e : Event} {spec : LeaseSpec} {now : Nat}
  {retry_sleep : Nat} {config : KubernetesPlatformConfig} {s : State}

theorem le_of_in_time {lease : Lease} (h : in_time config s (.act p (.answer now)) = true)
    (hs : (s.pods p).stage = .Attempting a phase i)
    (hr : s.reply i = some (.Stored lease version)) :
    (now + config.renew_deadline : Int) ≤ expiry config a.now := by
  rw [in_time, hs] at h
  simpa [hr] using h

theorem not_leading_of_in_time (h : in_time config s (.act p .leave) = true) :
    (s.pods p).state.currently_leader = false := by
  simpa [in_time] using h

theorem expiry_mono (config : KubernetesPlatformConfig) {a b : Int} (h : a ≤ b) :
    expiry config a ≤ expiry config b := by
  unfold expiry micro_time
  omega

theorem not_expired_of_le {a b : Int} (h : a ≤ b) (hb : lease_is_expired spec b = false) :
    lease_is_expired spec a = false := by
  unfold lease_is_expired at hb ⊢
  split at hb
  · cases hb
  · split at hb
    · cases hb
    · simp only [decide_eq_false_iff_not, not_lt] at hb ⊢
      omega

theorem expired_of_asks {call : Call} {lease : Lease}
    (h : Asks config p (.Attempting a phase i) call) (hl : call.lease = some lease) (x : Int) :
    lease_is_expired lease.spec_or_default x = true ↔ expiry config a.now < x := by
  have hs : lease.spec_or_default.lease_duration_seconds = some (written_seconds config) ∧
      lease.spec_or_default.renew_time = some (micro_time a.now) := by
    cases phase with
    | Get =>
      obtain rfl : call = .Get := h
      cases hl
    | Create =>
      obtain rfl : call = .Create _ := h
      cases hl
      exact ⟨rfl, rfl⟩
    | Renew | TakeOver =>
      obtain ⟨seen, version, rfl⟩ := h
      cases hl
      exact ⟨rfl, rfl⟩
  rw [lease_is_expired, hs.1, hs.2]
  simp only [some_or, decide_eq_true_eq, expiry]

/-! ## The invariant -/

/-- What a pod that leads rests on, from its last success on: the Lease is its own and does
not end before the renewal budget does. -/
structure Secured (config : KubernetesPlatformConfig) (s : State) (p : String) (success : Nat) :
    Prop where
  last : (s.pods p).state.last_success = some success
  past : success ≤ s.now
  within : s.now ≤ success + config.renew_deadline
  due : ∃ due ∈ (s.pods p).stage.due, due ≤ success + config.renew_deadline
  begun : ∀ {a phase i}, (s.pods p).stage = .Attempting a phase i → (success : Int) ≤ a.now
  room : (success + config.renew_deadline : Int) ≤ expiry config success
  lease : ∃ lease, s.server.lease = some lease ∧ lease.holder = some p ∧
    lease_is_expired lease.spec_or_default (success + config.renew_deadline) = false
  writes : ∀ {id r lease}, s.requests id = some r → r.sender = p → r.reply = none →
    r.call = .Replace lease s.server.version →
    lease_is_expired lease.spec_or_default (success + config.renew_deadline) = false

structure Safe (config : KubernetesPlatformConfig) (s : State) : Prop where
  sound : Sound config s
  flags : ∀ p, (s.pods p).is_leader = (s.pods p).state.currently_leader
  stays : ∀ {p writing i}, (s.pods p).stage ≠ .Releasing writing i
  attempts : ∀ {p a phase i}, (s.pods p).stage = .Attempting a phase i →
    a.now ≤ s.now ∧ a.retry_sleep ≤ config.renew_deadline
  -- a replacement that can still succeed is one of the holder, or it found the Lease expired
  overtakes : ∀ {id r lease}, s.requests id = some r → r.reply = none →
    r.call = .Replace lease s.server.version →
    s.holder = some r.sender ∨ ∃ seen, s.server.lease = some seen ∧
      lease_is_expired seen.spec_or_default s.now = true
  -- who lost the Lease before the answer came hears of it too late
  late : ∀ {p a phase i lease version}, (s.pods p).stage = .Attempting a phase i →
    s.reply i = some (.Stored lease version) → s.holder ≠ some p → expiry config a.now < s.now
  leader : ∀ {p}, (s.pods p).is_leader = true → ∃ success, Secured config s p success

section

variable {config : KubernetesPlatformConfig} {s t : State}

theorem safe_start (server : Server) (now : Nat) : Safe config (.start server now) where
  sound := sound_start config server now
  flags := fun _ => rfl
  stays := by simp [State.start, Pod.idle]
  attempts := by simp [State.start, Pod.idle]
  overtakes := by simp [State.start]
  late := by simp [State.start, Pod.idle]
  leader := by simp [State.start, Pod.idle]

theorem expired_of_le {a b : Int} (h : a ≤ b) (ha : lease_is_expired spec a = true) :
    lease_is_expired spec b = true := by
  by_contra hb
  rw [not_expired_of_le h (by simpa using hb)] at ha
  cases ha

/-! ### Time passes -/

theorem safe_tick (h : Safe config s) {duration : Nat} (ht : Timed s (.tick duration)) :
    Safe config { s with now := s.now + duration } where
  sound := ⟨h.sound.unsent, h.sound.found, h.sound.stored, h.sound.sent, h.sound.replace,
    h.sound.pending, h.sound.waiting⟩
  flags := h.flags
  stays := h.stays
  attempts := by
    intro p a phase i hs
    obtain ⟨hno, hsl⟩ := h.attempts hs
    refine ⟨?_, hsl⟩
    push_cast
    omega
  overtakes := by
    intro id r lease hr hn hc
    rcases h.overtakes hr hn hc with hh | ⟨seen, hsee, he⟩
    · exact .inl hh
    · refine .inr ⟨seen, hsee, expired_of_le ?_ he⟩
      push_cast
      omega
  late := by
    intro p a phase i lease version hs hre hh
    have hlt := h.late hs hre hh
    push_cast
    omega
  leader := by
    intro p hl
    obtain ⟨success, hse⟩ := h.leader hl
    obtain ⟨due, hd, hle⟩ := hse.due
    have hti := ht p due hd
    exact ⟨success, hse.last, Nat.le_add_right_of_le hse.past, by simp only; omega,
      hse.due, hse.begun, hse.room, hse.lease, hse.writes⟩

/-! ### The server takes a request -/

section

variable (h : Safe config s) (hr : s.requests id = some r) (hnone : r.reply = none)
  {server : Server} {reply : Reply}

include h hr hnone

/-- Where `p` leads, only `p` itself can write, and then the Lease lasts as long. -/
theorem secured_served (hha : Handles s.server r.call server reply)
    (hse : Secured config s p success) :
    Secured config (s.served id r server reply) p success := by
  obtain ⟨old, hold, hh, hl⟩ := hse.lease
  have hlea : ∃ lease, server.lease = some lease ∧ lease.holder = some p ∧
      lease_is_expired lease.spec_or_default (success + config.renew_deadline) = false := by
    rcases handles_cases hha with ⟨rfl, -⟩ | ⟨written, hc, rfl, -, hho⟩
    · exact hse.lease
    · have hre : r.call = .Replace written s.server.version := by
        rcases hho with he | hre
        · rw [hold] at he
          cases he
        · exact hre
      rcases h.overtakes hr hnone hre with ho | ⟨seen, hsee, hex⟩
      · have hs : r.sender = p := by
          rw [State.holder, hold, bind_some, hh] at ho
          exact (some.inj ho).symm
        refine ⟨written, rfl, ?_, hse.writes hr hs hnone hre⟩
        rw [← hs]
        exact h.sound.sent hr hc
      · -- the Lease of a leader has not expired yet
        rw [hold] at hsee
        cases hsee
        have hw : (s.now : Int) ≤ success + config.renew_deadline := by
          exact_mod_cast hse.within
        rw [not_expired_of_le hw hl] at hex
        cases hex
  refine ⟨hse.last, hse.past, hse.within, hse.due, hse.begun, hse.room, hlea, ?_⟩
  intro id' r' lease hr' hs hn' hc
  rcases requests_served hr' with ⟨-, rfl⟩ | ⟨-, hst⟩
  · cases hn'
  · rcases handles_cases hha with ⟨rfl, -⟩ | ⟨written, -, rfl, -, -⟩
    · exact hse.writes hst hs hn' hc
    · have hle := h.sound.replace hst hc
      simp only [State.served] at hle
      omega

theorem late_served (hh : Handles s.server r.call server reply) {lease : Lease}
    (hsta : (s.pods p).stage = .Attempting a phase i)
    (hrep : (s.served id r server reply).reply i = some (.Stored lease version))
    (hho : (s.served id r server reply).holder ≠ some p) : expiry config a.now < s.now := by
  have hp : (s.pods p).stage.pending = some i := by
    rw [hsta]
    rfl
  obtain ⟨r₁, hr₁, hs, ha⟩ := h.sound.pending hp
  rw [hsta] at ha
  obtain ⟨r', hr', hst⟩ := bind_eq_some_iff.mp hrep
  rcases requests_served hr' with ⟨rfl, rfl⟩ | ⟨-, hsti⟩
  · -- the write that has just been stored made `p` the holder
    rw [hr] at hr₁
    cases hr₁
    rcases handles_cases hh with ⟨-, hn⟩ | ⟨written, hc, rfl, -, -⟩
    · exact absurd (some.inj hst) (hn lease version)
    · exact absurd (hs ▸ h.sound.sent hr hc) hho
  · have hrep' : s.reply i = some (.Stored lease version) := by
      rw [State.reply, hsti]
      exact hst
    by_cases hb : s.holder = some p
    · rcases handles_cases hh with ⟨rfl, -⟩ | ⟨written, hc, rfl, -, hhow⟩
      · exact absurd hb hho
      · obtain ⟨hsa, hw, hso⟩ := h.sound.stored hsti hst
        have hv := (h.sound.waiting hp hrep').2 hb
        have hre : r.call = .Replace written s.server.version := by
          rcases hhow with he | hre
          · exact absurd he hso
          · exact hre
        rcases h.overtakes hr hnone hre with ho | ⟨seen, hse, hex⟩
        · rw [hb] at ho
          exact absurd (some.inj ho ▸ h.sound.sent hr hc) hho
        · rw [hsa.2 hv] at hse
          cases hse
          rw [hr₁] at hsti
          cases hsti
          exact (expired_of_asks ha hw _).mp hex
    · exact h.late hsta hrep' hb

theorem safe_served (hha : Handles s.server r.call server reply) :
    Safe config (s.served id r server reply) where
  sound := sound_served h.sound hr hnone hha
  flags := h.flags
  stays := h.stays
  attempts := h.attempts
  overtakes := by
    intro id' r' lease hr' hn' hc
    rcases requests_served hr' with ⟨-, rfl⟩ | ⟨-, hs⟩
    · cases hn'
    · rcases handles_cases hha with ⟨rfl, -⟩ | ⟨written, -, rfl, -, -⟩
      · exact h.overtakes hs hn' hc
      · have hle := h.sound.replace hs hc
        simp only [State.served] at hle
        omega
  late := by
    intro p a phase i lease version hst hre hh
    have hla := late_served h hr hnone hha hst hre hh
    exact hla
  leader := by
    intro p hl
    obtain ⟨success, hse⟩ := h.leader hl
    exact ⟨success, secured_served h hr hnone hha hse⟩

end

/-! ### A pod moves -/

theorem stored_of_succeeds {r : Reply} {first : Nat} {next : Option Nat}
    (h : Succeeds (reconcile_written phase r) first next) :
    ∃ lease version, r = .Stored lease version := by
  cases r with
  | Stored lease version => exact ⟨lease, version, rfl⟩
  | Found _ | Conflict | NotFound => cases h

theorem secured_frame {q : String} (h : Secured config s q success) (hse : t.server = s.server)
    (hn : t.now = s.now) (hlast : (t.pods q).state.last_success = (s.pods q).state.last_success)
    (hd : ∃ due ∈ (t.pods q).stage.due, due ≤ success + config.renew_deadline)
    (hb : ∀ {a phase i}, (t.pods q).stage = .Attempting a phase i → (success : Int) ≤ a.now)
    (hw : ∀ {id r lease}, t.requests id = some r → r.sender = q → r.reply = none →
      r.call = .Replace lease s.server.version → s.requests id = some r ∨
        lease_is_expired lease.spec_or_default (success + config.renew_deadline) = false) :
    Secured config t q success where
  last := hlast.trans h.last
  past := hn ▸ h.past
  within := hn ▸ h.within
  due := hd
  begun := hb
  room := h.room
  lease := hse ▸ h.lease
  writes := by
    intro id r lease hr hs hnone hc
    rw [hse] at hc
    rcases hw hr hs hnone hc with hold | hl
    · exact h.writes hold hs hnone hc
    · exact hl

theorem secured_confirmed (h : Safe config s) {lease : Lease}
    (hsta : (s.pods p).stage = .Attempting a phase i)
    (hre : s.reply i = some (.Stored lease version))
    (hi : (s.now + config.renew_deadline : Int) ≤ expiry config a.now)
    (hlast : pod.state.last_success = some s.now) {wake_at : Nat}
    (hsl : pod.stage = .Sleeping wake_at) (hd : wake_at ≤ s.now + config.renew_deadline) :
    Secured config (s.acted p pod none) p s.now := by
  have hp : (s.pods p).stage.pending = some i := by
    rw [hsta]
    rfl
  have hpo : (s.acted p pod none).pods p = pod := by rw [pods_acted, if_pos rfl]
  obtain ⟨r, hr, hs, ha⟩ := h.sound.pending hp
  obtain ⟨r', hr', hst⟩ := bind_eq_some_iff.mp hre
  rw [hr] at hr'
  cases hr'
  obtain ⟨hsaw, hw, -⟩ := h.sound.stored hr hst
  rw [hsta] at ha
  -- the pod still holds the Lease, or it would hear of it too late
  have hh : s.holder = some p := by
    by_contra hlo
    have hla := h.late hsta hre hlo
    omega
  obtain ⟨hl, hsa⟩ := h.sound.waiting hp hre
  have hv := hsa hh
  refine ⟨by rw [hpo]; exact hlast, le_refl _, Nat.le_add_right _ _, ?_, ?_, ?_, ?_, ?_⟩
  · refine ⟨wake_at, ?_, hd⟩
    rw [hpo, hsl]
    rfl
  · intro a' phase' i' hsta'
    rw [hpo, hsl] at hsta'
    cases hsta'
  · exact le_trans hi (expiry_mono config (h.attempts hsta).1)
  · refine ⟨lease, hsaw.2 hv, hs ▸ h.sound.sent hr hw, ?_⟩
    rw [← not_eq_true, expired_of_asks ha hw]
    omega
  · intro id r₂ lease' hr₂ hs₂ hn₂ hc₂
    have hlt := hl id r₂ lease' _ hr₂ hs₂ hn₂ hc₂
    simp only [State.acted] at hlt
    omega

theorem flags_of_finishes {outcome : CycleOutcome}
    (h : Finishes config pod retry_sleep now outcome pod')
    (hf : pod.is_leader = pod.state.currently_leader) :
    pod'.is_leader = pod'.state.currently_leader := by
  cases h with
  | begins _ _ | steps_down => rfl
  | renews _ hl => exact hf.trans hl
  | waits _ | goes_on _ _ => exact hf

theorem sleeping_of_finishes {outcome : CycleOutcome}
    (h : Finishes config pod retry_sleep now outcome pod') :
    ∃ wake_at, pod'.stage = .Sleeping wake_at := by
  cases h <;> exact ⟨_, rfl⟩

theorem flags_of_moves {reply : Nat → Option Reply} {call : Option Call}
    (h : Moves config p pod reply id input pod' call)
    (hst : ∀ {writing i}, pod.stage ≠ .Releasing writing i)
    (hf : pod.is_leader = pod.state.currently_leader) :
    pod'.is_leader = pod'.state.currently_leader := by
  cases h with
  | cancel | attempt _ _ _ | ask _ _ _ | release _ _ | ended _ _ => exact hf
  | fence _ _ => rfl
  | lost _ | written _ _ _ | fail _ => exact flags_of_finishes (finishes_finish config pod _ _ _) hf
  | write_release hs _ _ | released hs => exact absurd hs hst

theorem remaining_of_secured (h : Secured config s p success) :
    remaining_budget (s.pods p).state.last_success config s.now =
      some (config.renew_deadline - (s.now - success)) := by
  rw [h.last]
  rfl

theorem secured_of_finish (h : Safe config s) {outcome : CycleOutcome}
    (hst : (s.pods p).stage = .Attempting a phase i)
    (hsuc : ∀ first next, Succeeds outcome first next →
      (∃ lease version, s.reply i = some (.Stored lease version)) ∧
        (s.now + config.renew_deadline : Int) ≤ expiry config a.now)
    (hl : ((s.pods p).finish config outcome a.retry_sleep s.now).is_leader = true) :
    ∃ success, Secured config
      (s.acted p ((s.pods p).finish config outcome a.retry_sleep s.now) none) p success := by
  have hs := (h.attempts hst).2
  generalize hpo : (s.pods p).finish config outcome a.retry_sleep s.now = pod at hl ⊢
  have hf := finishes_finish config (s.pods p) outcome a.retry_sleep s.now
  rw [hpo] at hf
  cases hf with
  | begins hsu _ | renews hsu _ =>
    obtain ⟨⟨lease, version, hre⟩, hi⟩ := hsuc _ _ hsu
    exact ⟨s.now, secured_confirmed h hst hre hi rfl rfl (by omega)⟩
  | waits hfo =>
    rw [← h.flags, show (s.pods p).is_leader = true from hl] at hfo
    cases hfo
  | goes_on _ _ =>
    obtain ⟨success, hse⟩ := h.leader hl
    have hp := @pods_acted s p p
    refine ⟨success, secured_frame hse rfl rfl ?_ ?_ ?_ fun hr _ _ _ => .inl hr⟩
    · rw [hp, if_pos rfl]
    · rw [hp, if_pos rfl, remaining_of_secured hse]
      refine ⟨_, rfl, ?_⟩
      have hpa := hse.past
      have hw := hse.within
      simp only [getD_some]
      omega
    · intro a' phase' i' hst'
      rw [hp, if_pos rfl] at hst'
      cases hst'
  | steps_down => cases hl

theorem secured_of_moves (h : Safe config s) {call : Option Call}
    (hm : Moves config p (s.pods p) s.reply s.fresh input pod call)
    (ht : Timed s (.act p input)) (hi : in_time config s (.act p input) = true)
    (hlea : pod.is_leader = true) : ∃ success, Secured config (s.acted p pod call) p success := by
  have hp := @pods_acted s p p pod
  cases hm with
  | cancel =>
    obtain ⟨success, hs⟩ := h.leader hlea
    refine ⟨success, secured_frame hs rfl rfl ?_ ?_ ?_ fun hr _ _ _ => .inl hr⟩
    · rw [hp, if_pos rfl]
    · rw [hp, if_pos rfl]
      exact hs.due
    · intro a phase i hst
      rw [hp, if_pos rfl] at hst
      exact hs.begun hst
  | fence _ _ => cases hlea
  | attempt _ _ _ =>
    obtain ⟨success, hs⟩ := h.leader hlea
    obtain ⟨rfl, rfl, -⟩ := ht
    have hpa := hs.past
    have hw := hs.within
    refine ⟨success, secured_frame hs rfl rfl ?_ ?_ ?_ ?_⟩
    · rw [hp, if_pos rfl]
    · rw [hp, if_pos rfl, remaining_of_secured hs]
      refine ⟨_, rfl, ?_⟩
      simp only [getD_some]
      omega
    · intro a phase i hst
      rw [hp, if_pos rfl] at hst
      cases hst
      exact Int.ofNat_le.mpr hpa
    · intro id r lease hr _ _ hca
      rcases requests_acted hr with ⟨-, c, hc, rfl⟩ | hold
      · cases hc
        cases hca
      · exact .inl hold
  | @ask _ _ _ _ _ asked hst hre hf =>
    obtain ⟨success, hs⟩ := h.leader hlea
    have hb := hs.begun hst
    obtain ⟨due, hd, hle⟩ := hs.due
    rw [hst] at hd
    refine ⟨success, secured_frame hs rfl rfl ?_ ?_ ?_ ?_⟩
    · rw [hp, if_pos rfl]
    · rw [hp, if_pos rfl]
      exact ⟨due, hd, hle⟩
    · intro a' phase' i' hst'
      rw [hp, if_pos rfl] at hst'
      cases hst'
      exact hb
    · intro id r lease hr _ _ hca
      rcases requests_acted hr with ⟨-, c, hc, rfl⟩ | hold
      · -- the new write is one of an attempt that began after the last success
        right
        cases hc
        rcases pending_of_moves (.ask hst hre hf : Moves config p (s.pods p) s.reply
          s.fresh (.answer 0) _ _) with ⟨hnone, -⟩ | ⟨c', hc', -, ha⟩
        · cases hnone
        · cases hc'
          have hwr : asked.lease = some lease := by
            rw [show asked = .Replace lease s.server.version from hca]
            rfl
          rw [← not_eq_true, expired_of_asks ha hwr]
          have hro := hs.room
          have hmo := expiry_mono config hb
          omega
      · exact .inl hold
  | lost hst | fail hst =>
    obtain rfl : _ = s.now := ht
    exact secured_of_finish h hst (fun _ _ hsu => by cases hsu) hlea
  | written _ hst hre =>
    obtain rfl : _ = s.now := ht
    refine secured_of_finish h hst (fun first next hsu => ?_) hlea
    obtain ⟨lease, version, rfl⟩ := stored_of_succeeds hsu
    exact ⟨⟨lease, version, hre⟩, le_of_in_time hi hst hre⟩
  | release _ hl =>
    rw [not_leading_of_in_time hi] at hl
    cases hl
  | ended _ hfo =>
    rw [← h.flags, show (s.pods p).is_leader = true from hlea] at hfo
    cases hfo
  | write_release hst _ _ | released hst => exact absurd hst h.stays

variable (hvalid : config.validate = .ok ()) (h : Safe config s)

include hvalid h

theorem stage_of_moves {call : Option Call}
    (hm : Moves config p (s.pods p) s.reply s.fresh input pod call)
    (ht : Timed s (.act p input)) (hi : in_time config s (.act p input) = true) :
    (∀ {writing i}, pod.stage ≠ .Releasing writing i) ∧
      ∀ {a phase i}, pod.stage = .Attempting a phase i →
        a.now ≤ s.now ∧ a.retry_sleep ≤ config.renew_deadline := by
  have hf : ∀ {outcome retry_sleep now},
      (∀ {writing i}, ((s.pods p).finish config outcome retry_sleep now).stage ≠
        .Releasing writing i) ∧
      ∀ {a phase i}, ((s.pods p).finish config outcome retry_sleep now).stage =
        .Attempting a phase i → a.now ≤ s.now ∧ a.retry_sleep ≤ config.renew_deadline := by
    intro outcome retry_sleep now
    obtain ⟨wake_at, hs⟩ :=
      sleeping_of_finishes (finishes_finish config (s.pods p) outcome retry_sleep now)
    rw [hs]
    refine ⟨fun heq => ?_, fun heq => ?_⟩ <;> cases heq
  cases hm with
  | cancel => exact ⟨h.stays, h.attempts⟩
  | fence _ _ | ended _ _ => refine ⟨fun heq => ?_, fun heq => ?_⟩ <;> cases heq
  | attempt _ hra _ =>
    obtain ⟨-, rfl, -⟩ := ht
    refine ⟨fun heq => (by cases heq), fun heq => ?_⟩
    cases heq
    exact ⟨le_refl _, jittered_duration_le hvalid hra.le⟩
  | ask hst _ _ =>
    refine ⟨fun heq => (by cases heq), fun heq => ?_⟩
    cases heq
    exact h.attempts hst
  | lost _ | written _ _ _ | fail _ => exact hf
  | release _ hl =>
    rw [not_leading_of_in_time hi] at hl
    cases hl
  | write_release hst _ _ | released hst => exact absurd hst h.stays

theorem safe_acted {call : Option Call}
    (hm : Moves config p (s.pods p) s.reply s.fresh input pod call)
    (ht : Timed s (.act p input)) (hi : in_time config s (.act p input) = true) :
    Safe config (s.acted p pod call) := by
  have hn : (s.acted p pod call).now = s.now := by cases call <;> rfl
  have hh : (s.acted p pod call).holder = s.holder := by rw [State.holder, server_acted]; rfl
  have hs := stage_of_moves hvalid h hm ht hi
  have hpo := pods_acted (s := s) p
  refine ⟨sound_acted h.sound hm, ?_, ?_, ?_, ?_, ?_, ?_⟩
  · intro q
    rw [hpo]
    by_cases hq : q = p
    · rw [if_pos hq]
      exact flags_of_moves hm h.stays (h.flags p)
    · rw [if_neg hq]
      exact h.flags q
  · intro q writing i
    rw [hpo]
    by_cases hq : q = p
    · rw [if_pos hq]
      exact hs.1
    · rw [if_neg hq]
      exact h.stays
  · intro q a phase i ha
    rw [hpo] at ha
    rw [hn]
    by_cases hq : q = p
    · rw [if_pos hq] at ha
      exact hs.2 ha
    · rw [if_neg hq] at ha
      exact h.attempts ha
  · intro id r lease hr hnone hc
    rw [hh, server_acted, hn]
    rw [server_acted] at hc
    rcases requests_acted hr with ⟨-, c, rfl, rfl⟩ | hold
    · obtain rfl : c = .Replace lease s.server.version := hc
      obtain ⟨-, i, seen, hp, hre, hho⟩ := seen_of_moves hm
      have hsee : s.server.lease = some seen := (saw_of_reply h.sound hre).2 rfl
      rcases hho with ⟨ho, -, -⟩ | ⟨a, j, ha, ⟨ho, -⟩ | ⟨-, he, -⟩⟩
      · exact .inl (by rw [State.holder, hsee]; exact ho)
      · exact .inl (by rw [State.holder, hsee]; exact ho)
      · exact .inr ⟨seen, hsee, expired_of_le (h.attempts ha).1 he⟩
    · exact h.overtakes hold hnone hc
  · intro q a phase i lease version ha hre hlo
    rw [hh] at hlo
    rw [hn]
    have hp : ((s.acted p pod call).pods q).stage.pending = some i := by
      rw [ha]
      rfl
    rcases pending_acted h.sound hm hp with ⟨rfl, rfl, c, rfl, -⟩ | ⟨hne, -, hsa⟩
    · simp [State.reply, State.acted] at hre
    · rw [reply_acted hne] at hre
      exact h.late (hsa ▸ ha) hre hlo
  · intro q hl
    rw [hpo] at hl
    by_cases hq : q = p
    · subst hq
      rw [if_pos rfl] at hl
      exact secured_of_moves h hm ht hi hl
    · rw [if_neg hq] at hl
      obtain ⟨success, hse⟩ := h.leader hl
      refine ⟨success, secured_frame hse (server_acted _ _ _) hn ?_ ?_ ?_ ?_⟩
      · rw [hpo, if_neg hq]
      · rw [hpo, if_neg hq]
        exact hse.due
      · intro a phase i ha
        rw [hpo, if_neg hq] at ha
        exact hse.begun ha
      · intro id r lease hr hsen _ _
        rcases requests_acted hr with ⟨-, c, -, rfl⟩ | hold
        · exact absurd hsen.symm hq
        · exact .inl hold

theorem safe_step (ht : Timed s e) (hi : in_time config s e = true)
    (hs : s.step config e = some t) : Safe config t := by
  rcases step_cases hs with ⟨duration, rfl, rfl⟩ | ⟨id, r, server, reply, rfl, hr, hnone,
    hh, rfl⟩ | ⟨p, input, pod, call, rfl, hm, rfl⟩
  · exact safe_tick h ht
  · exact safe_served h hr hnone hh
  · exact safe_acted hvalid h hm ht hi

end

/-- With clocks that agree, and in every run in which each pod hears in time of what it wrote
and none shuts down while it leads, no two pods lead at the same time, and the Lease of a pod
that leads has not expired. -/
theorem at_most_one_leader {config : KubernetesPlatformConfig} (hvalid : config.validate = .ok ())
    {server : Server} {now : Nat} {s : State}
    (hs : Reach (State.step config) (fun s e => Timed s e ∧ in_time config s e = true)
      (.start server now) s) :
    (∀ p q, (s.pods p).is_leader = true → (s.pods q).is_leader = true → p = q) ∧
      ∀ p, (s.pods p).is_leader = true → ∃ lease, s.server.lease = some lease ∧
        lease.holder = some p ∧ lease_is_expired lease.spec_or_default s.now = false := by
  have hsa : Safe config s := hs.invariant (safe_start server now)
    fun h ho hste => safe_step hvalid h ho.1 ho.2 hste
  have hl : ∀ p, (s.pods p).is_leader = true → ∃ lease, s.server.lease = some lease ∧
      lease.holder = some p ∧ lease_is_expired lease.spec_or_default s.now = false := by
    intro p hle
    obtain ⟨success, hse⟩ := hsa.leader hle
    obtain ⟨lease, hst, hh, hla⟩ := hse.lease
    refine ⟨lease, hst, hh, not_expired_of_le ?_ hla⟩
    exact_mod_cast hse.within
  refine ⟨?_, hl⟩
  intro p q hp hq
  obtain ⟨lease, hst, hh, -⟩ := hl p hp
  obtain ⟨lease', hst', hh', -⟩ := hl q hq
  rw [hst] at hst'
  cases hst'
  rw [hh] at hh'
  exact some.inj hh'

/-! ### Runs of named pods -/

/-- What `Timed` asks for, where only the given pods move. -/
def timed (pods : List String) (s : State) : Event → Bool
  | .tick duration => pods.all fun p => (s.pods p).stage.due.all (fun due => s.now + duration ≤ due)
  | .serve _ => true
  | .act p (.wake now timestamp _) =>
    pods.contains p && (now = s.now && (timestamp = s.now &&
      match (s.pods p).stage with
      | .Sleeping wake_at => wake_at ≤ now
      | _ => true))
  | .act p (.answer now) => pods.contains p && now = s.now
  | .act p (.fail now) => pods.contains p && now = s.now
  | .act p _ => pods.contains p

section

variable {config : KubernetesPlatformConfig} {pods : List String} {s t : State}

variable (hidle : ∀ p, p ∉ pods → s.pods p = .idle)

include hidle

theorem timed_of_test (h : timed pods s e = true) : Timed s e := by
  cases e with
  | tick duration =>
    intro p due hd
    by_cases hp : p ∈ pods
    · have hal := List.all_eq_true.mp h p hp
      rw [mem_def.mp hd] at hal
      simpa using hal
    · rw [hidle p hp] at hd
      cases hd
  | serve id => trivial
  | act p input =>
    cases input with
    | wake now timestamp random =>
      simp only [timed, and_eq_true, decide_eq_true_eq] at h
      obtain ⟨-, hn, ht, ha⟩ := h
      refine ⟨hn, ht, fun wake_at hs => ?_⟩
      rw [hs] at ha
      simpa using ha
    | answer now | fail now =>
      simp only [timed, and_eq_true, decide_eq_true_eq] at h
      exact h.2
    | cancel | leave => trivial

theorem idle_of_step (h : timed pods s e = true) (hs : s.step config e = some t) :
    ∀ p, p ∉ pods → t.pods p = .idle := by
  rcases step_cases hs with ⟨duration, -, rfl⟩ | ⟨id, r, server, reply, -, hr, hnone, hh,
    rfl⟩ | ⟨q, input, pod, call, rfl, -, rfl⟩
  · exact hidle
  · exact hidle
  · have hq : q ∈ pods := by
      cases input <;> simp only [timed, and_eq_true, List.contains_iff_mem] at h
      · exact h.1
      · exact h.1
      · exact h.1
      · exact h
      · exact h
    intro p hp
    have hn : p ≠ q := by
      rintro rfl
      exact hp hq
    rw [pods_acted, if_neg hn]
    exact hidle p hp

theorem reach_of_timed_run {test : State → Event → Bool} {events : List Event}
    (h : Runs.run (State.step config) (fun s e => timed pods s e && test s e) s events = some t) :
    Reach (State.step config) (fun s e => Timed s e ∧ test s e = true) s t := by
  induction events generalizing s with
  | nil =>
    obtain rfl : s = t := some.inj h
    exact .refl
  | cons e events ih =>
    simp only [Runs.run] at h
    split at h
    · rename_i hok
      obtain ⟨ht, hte⟩ := and_eq_true_iff.mp hok
      obtain ⟨u, hs, hru⟩ := bind_eq_some_iff.mp h
      have ho : Reach (State.step config) (fun s e => Timed s e ∧ test s e = true) s u :=
        .tail .refl ⟨timed_of_test hidle ht, hte⟩ hs
      exact ho.trans (ih (idle_of_step hidle ht hs) hru)
    · cases h

end

def wake_at (p : String) (now : Nat) : Event := .act p (.wake now now (1 / 2))

/-- Pod `a` creates the Lease and hears of it at once. Pod `b` finds it held a second later. -/
def prompt_answer : List Event :=
  [wake_at "a" 0, .serve 0, .act "a" (.answer 0), .serve 1, .act "a" (.answer 0), .tick 1000000000,
    wake_at "b" 1000000000, .serve 2, .act "b" (.answer 1000000000)]

def prompt_run : Option State :=
  Runs.run (State.step .default) (fun s e => timed ["a", "b"] s e && in_time .default s e)
    (.start ⟨none, 0⟩ 0) prompt_answer

theorem prompt_answer_runs : prompt_run.isSome = true := by decide +kernel

theorem prompt_leader_is_alone :
    ∃ s, prompt_run = some s ∧ (s.pods "a").is_leader = true ∧
      ∀ q, (s.pods q).is_leader = true → "a" = q := by
  have hl : ((prompt_run.get prompt_answer_runs).pods "a").is_leader = true := by
    decide +kernel
  have hre := reach_of_timed_run (fun _ _ => rfl) (some_get prompt_answer_runs).symm
  have h := at_most_one_leader (by decide +kernel) hre
  exact ⟨_, (some_get prompt_answer_runs).symm, hl, fun q hq => h.1 "a" q hl hq⟩

/-- Pod `a` hears after ten seconds that it created the Lease, and leads from then on for ten
seconds. The Lease counts from before the request and ends after fifteen. -/
def slow_answer : List Event :=
  [wake_at "a" 0, .serve 0, .tick 9900000000, .act "a" (.answer 9900000000), .serve 1,
    .tick 100000000, .act "a" (.answer 10000000000), .tick 2000000000, wake_at "a" 12000000000,
    .tick 3100000000, wake_at "b" 15100000000, .serve 3, .act "b" (.answer 15100000000), .serve 4,
    .act "b" (.answer 15100000000)]

def slow_run : Option State :=
  Runs.run (State.step .default) (fun s e => timed ["a", "b"] s e && true) (.start ⟨none, 0⟩ 0)
    slow_answer

theorem slow_answer_runs : slow_run.isSome = true := by decide +kernel

/-- After the slow answer both pods lead at the same instant. -/
theorem two_leaders_after_a_slow_answer :
    KubernetesPlatformConfig.default.validate = .ok () ∧
      ∃ s, Reach (State.step .default) Timed (.start ⟨none, 0⟩ 0) s ∧
        (s.pods "a").is_leader = true ∧ (s.pods "b").is_leader = true := by
  refine ⟨by decide +kernel, slow_run.get slow_answer_runs, ?_, by decide +kernel,
    by decide +kernel⟩
  have hre := reach_of_timed_run (fun _ _ => rfl) (some_get slow_answer_runs).symm
  exact hre.mono fun _ _ h => h.1

end camel_platform_kubernetes
