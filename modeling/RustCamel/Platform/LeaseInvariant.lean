-- What holds of the Lease and of the requests on their way in every run of the leadership loops,
-- whatever the clocks say: what a pod has read is what stands there as long as the version is
-- the same, and a pod that waits for the answer to a write has no older write that can succeed.
import RustCamel.Platform.LeadershipLoop

open Option

namespace camel_platform_kubernetes

/-! ## The steps of the system -/

/-- What the server does with a call. -/
inductive Handles (server : Server) : Call → Server → Reply → Prop
  | found :
      Handles server .Get server (.Found (server.lease.map fun lease => (lease, server.version)))
  | created {lease : Lease} : server.lease = none →
      Handles server (.Create lease) ⟨some lease, server.version + 1⟩
        (.Stored lease (server.version + 1))
  | replaced {lease old : Lease} : server.lease = some old →
      Handles server (.Replace lease server.version) ⟨some lease, server.version + 1⟩
        (.Stored lease (server.version + 1))
  | refused {call : Call} {reply : Reply} : reply = .Conflict ∨ reply = .NotFound →
      Handles server call server reply

theorem handles_handle (server : Server) (call : Call) :
    Handles server call (server.handle call).1 (server.handle call).2 := by
  cases call with
  | Get => exact .found
  | Create lease =>
    simp only [Server.handle]
    split
    · exact .refused (.inl rfl)
    · rename_i hn
      exact .created hn
  | Replace lease version =>
    simp only [Server.handle]
    split
    · exact .refused (.inr rfl)
    · rename_i old hs
      split
      · rename_i hv
        rw [hv]
        exact .replaced hs
      · exact .refused (.inl rfl)

def State.served (s : State) (id : Nat) (r : Request) (server : Server) (reply : Reply) : State :=
  { s with server
           requests := Function.update s.requests id (some { r with reply := some reply }) }

theorem step_cases {config : KubernetesPlatformConfig} {s t : State} {e : Event}
    (h : s.step config e = some t) :
    (∃ duration, e = .tick duration ∧ t = { s with now := s.now + duration }) ∨
      (∃ id r server reply, e = .serve id ∧ s.requests id = some r ∧ r.reply = none ∧
        Handles s.server r.call server reply ∧ t = s.served id r server reply) ∨
      ∃ p input pod call, e = .act p input ∧
        Moves config p (s.pods p) s.reply s.fresh input pod call ∧ t = s.acted p pod call := by
  cases e with
  | tick duration => exact .inl ⟨duration, rfl, (some.inj h).symm⟩
  | serve id =>
    simp only [State.step] at h
    split at h
    · cases h
    · rename_i r hr
      split at h
      · cases h
      · rename_i hn
        refine .inr (.inl ⟨id, r, _, _, rfl, hr, by simpa using hn, handles_handle _ _, ?_⟩)
        exact (some.inj h).symm
  | act p input =>
    simp only [State.step] at h
    split at h
    · cases h
    · rename_i pod call ha
      exact .inr (.inr ⟨p, input, pod, call, rfl, moves_of_advance ha, (some.inj h).symm⟩)

/-! ## The invariant -/

def Call.lease : Call → Option Lease
  | .Get => none
  | .Create lease => some lease
  | .Replace lease _ => some lease

/-- What the loop of `p` asks for where it waits. -/
def Asks (config : KubernetesPlatformConfig) (p : String) : Stage → Call → Prop
  | .Attempting _ .Get _, call => call = .Get
  | .Attempting a .Create _, call => call = .Create (build_first_time_lease p config a.now)
  | .Attempting a .Renew _, call =>
    ∃ seen version, call = .Replace (renewed_lease seen p config a.now) version
  | .Attempting a .TakeOver _, call =>
    ∃ seen version, call = .Replace (taken_over_lease seen p config a.now) version
  | .Releasing false _, call => call = .Get
  | .Releasing true _, call => ∃ seen version, call = .Replace (released_lease seen p) version
  | _, _ => False

def State.holder (s : State) : Option String := s.server.lease.bind (·.holder)

def State.term (s : State) : Nat := (s.server.lease.map (·.term)).getD 0

/-- `lease` stood there at a version, and stands there as long as the version is the same. -/
def Server.Saw (server : Server) (lease : Lease) (version : Nat) : Prop :=
  version ≤ server.version ∧ (version = server.version → server.lease = some lease)

structure Sound (config : KubernetesPlatformConfig) (s : State) : Prop where
  unsent : ∀ id, s.fresh ≤ id → s.requests id = none
  found : ∀ {id r lease version}, s.requests id = some r →
    r.reply = some (.Found (some (lease, version))) → s.server.Saw lease version
  stored : ∀ {id r lease version}, s.requests id = some r → r.reply = some (.Stored lease version) →
    s.server.Saw lease version ∧ r.call.lease = some lease ∧ s.server.lease ≠ none
  sent : ∀ {id r lease}, s.requests id = some r → r.call.lease = some lease →
    lease.holder = some r.sender
  replace : ∀ {id r lease version}, s.requests id = some r → r.call = .Replace lease version →
    version ≤ s.server.version
  pending : ∀ {p i}, (s.pods p).stage.pending = some i →
    ∃ r, s.requests i = some r ∧ r.sender = p ∧ Asks config p (s.pods p).stage r.call
  waiting : ∀ {p i lease version}, (s.pods p).stage.pending = some i →
    s.reply i = some (.Stored lease version) →
    (∀ id r lease' version', s.requests id = some r → r.sender = p → r.reply = none →
      r.call = .Replace lease' version' → version' < version) ∧
      (s.holder = some p → version = s.server.version)

theorem sound_start (config : KubernetesPlatformConfig) (server : Server) (now : Nat) :
    Sound config (.start server now) where
  unsent := fun _ _ => rfl
  found := by simp [State.start]
  stored := by simp [State.start]
  sent := by simp [State.start]
  replace := by simp [State.start]
  pending := by simp [State.start, Pod.idle, Stage.pending]
  waiting := by simp [State.start, Pod.idle, Stage.pending]

variable {id : Nat} {r : Request} {version : Nat} {p : String} {pod : Pod} {input : Input} {i : Nat}
  {pod' : Pod} {server' : Server}

section

variable {config : KubernetesPlatformConfig} {s : State}

theorem requests_served {id' : Nat} {r' : Request} {server : Server} {reply : Reply}
    (h : (s.served id r server reply).requests id' = some r') :
    (id' = id ∧ r' = { r with reply := some reply }) ∨ (id' ≠ id ∧ s.requests id' = some r') := by
  simp only [State.served] at h
  by_cases hi : id' = id
  · rw [hi, Function.update_self] at h
    exact .inl ⟨hi, (some.inj h).symm⟩
  · rw [Function.update_of_ne hi] at h
    exact .inr ⟨hi, h⟩

theorem handles_cases {server : Server} {call : Call} {reply : Reply}
    (h : Handles server call server' reply) :
    (server' = server ∧ ∀ lease version, reply ≠ .Stored lease version) ∨
      ∃ lease, call.lease = some lease ∧ server' = ⟨some lease, server.version + 1⟩ ∧
        reply = .Stored lease (server.version + 1) ∧
        (server.lease = none ∨ call = .Replace lease server.version) := by
  cases h with
  | found => exact .inl ⟨rfl, by simp⟩
  | created hn => exact .inr ⟨_, rfl, rfl, rfl, .inl hn⟩
  | replaced _ => exact .inr ⟨_, rfl, rfl, rfl, .inr rfl⟩
  | refused hr =>
    refine .inl ⟨rfl, ?_⟩
    rintro lease version rfl
    rcases hr with hr | hr <;> cases hr

theorem saw_of_handles {server : Server} {call : Call} {reply : Reply} {lease : Lease}
    (h : Handles server call server' reply) (hs : server.Saw lease version) :
    server'.Saw lease version := by
  rcases handles_cases h with ⟨rfl, -⟩ | ⟨written, -, rfl, -, -⟩
  · exact hs
  · obtain ⟨hle, -⟩ := hs
    refine ⟨Nat.le_succ_of_le hle, fun heq => ?_⟩
    simp only at heq
    omega

/-- The answer to `get_opt` shows the Lease that stands there. -/
theorem saw_of_found {server : Server} {call : Call} {reply : Reply} {lease : Lease}
    (h : Handles server call server' reply) (hre : reply = .Found (some (lease, version))) :
    server'.Saw lease version := by
  cases h with
  | found =>
    simp only [Reply.Found.injEq] at hre
    obtain ⟨seen, hs, heq⟩ := map_eq_some_iff.mp hre
    simp only [Prod.mk.injEq] at heq
    obtain ⟨rfl, rfl⟩ := heq
    exact ⟨le_refl _, fun _ => hs⟩
  | created _ | replaced _ => cases hre
  | refused hr =>
    subst hre
    rcases hr with hr | hr <;> cases hr

theorem sound_served (h : Sound config s) {server : Server} {reply : Reply}
    (hr : s.requests id = some r) (hn : r.reply = none)
    (hha : Handles s.server r.call server reply) :
    Sound config (s.served id r server reply) where
  unsent := by
    intro id' hi'
    have hne : id' ≠ id := by
      rintro rfl
      rw [h.unsent id' hi'] at hr
      cases hr
    simp only [State.served, Function.update_of_ne hne]
    exact h.unsent id' hi'
  found := by
    intro id' r' lease version hr' hre
    rcases requests_served hr' with ⟨-, rfl⟩ | ⟨-, hr'⟩
    · exact saw_of_found hha (some.inj hre)
    · exact saw_of_handles hha (h.found hr' hre)
  stored := by
    intro id' r' lease version hr' hre
    rcases requests_served hr' with ⟨-, rfl⟩ | ⟨-, hr'⟩
    · obtain rfl : reply = _ := some.inj hre
      rcases handles_cases hha with ⟨-, hne⟩ | ⟨written, hc, rfl, hs, -⟩
      · exact absurd rfl (hne lease version)
      · cases hs
        exact ⟨⟨le_refl _, fun _ => rfl⟩, hc, by simp [State.served]⟩
    · obtain ⟨hsaw, hc, hso⟩ := h.stored hr' hre
      refine ⟨saw_of_handles hha hsaw, hc, ?_⟩
      rcases handles_cases hha with ⟨rfl, -⟩ | ⟨written, -, rfl, -, -⟩
      · exact hso
      · simp [State.served]
  sent := by
    intro id' r' lease hr' hl
    rcases requests_served hr' with ⟨-, rfl⟩ | ⟨-, hr'⟩
    · exact h.sent (r := r) hr hl
    · exact h.sent hr' hl
  replace := by
    intro id' r' lease version hr' hc
    have hle : version ≤ s.server.version := by
      rcases requests_served hr' with ⟨-, rfl⟩ | ⟨-, hr'⟩
      · exact h.replace (r := r) hr hc
      · exact h.replace hr' hc
    rcases handles_cases hha with ⟨rfl, -⟩ | ⟨written, -, rfl, -, -⟩
    · exact hle
    · exact Nat.le_succ_of_le hle
  pending := by
    intro p i hp
    obtain ⟨r', hr', hse, has⟩ := h.pending hp
    by_cases hi : i = id
    · subst hi
      rw [hr] at hr'
      cases hr'
      exact ⟨{ r with reply := some reply }, by simp [State.served], hse, has⟩
    · exact ⟨r', by simpa [State.served, Function.update_of_ne hi] using hr', hse, has⟩
  waiting := by
    intro p i lease version hp ha
    obtain ⟨r', hr', hre⟩ := bind_eq_some_iff.mp ha
    -- a write of `p` that is not served yet was not served before either
    have hu : ∀ {id' r₂}, (s.served id r server reply).requests id' = some r₂ →
        r₂.reply = none → s.requests id' = some r₂ := by
      intro id' r₂ hr₂ hn₂
      rcases requests_served hr₂ with ⟨-, rfl⟩ | ⟨-, hr₂⟩
      · cases hn₂
      · exact hr₂
    rcases requests_served hr' with ⟨rfl, rfl⟩ | ⟨-, hold⟩
    · obtain rfl : reply = _ := some.inj hre
      rcases handles_cases hha with ⟨-, hne⟩ | ⟨written, -, rfl, hs, -⟩
      · exact absurd rfl (hne lease version)
      · cases hs
        refine ⟨fun id' r₂ lease' version' hr₂ _ hn₂ hc => ?_, fun _ => rfl⟩
        exact Nat.lt_succ_of_le (h.replace (hu hr₂ hn₂) hc)
    · have hre' : s.reply i = some (.Stored lease version) := by
        rw [State.reply, hold]
        exact hre
      obtain ⟨hlo, hsa⟩ := h.waiting hp hre'
      refine ⟨fun id' r₂ lease' version' hr₂ hse hn₂ hc =>
        hlo id' r₂ lease' version' (hu hr₂ hn₂) hse hn₂ hc, ?_⟩
      intro hh
      rcases handles_cases hha with ⟨rfl, -⟩ | ⟨written, hc, rfl, -, hho⟩
      · exact hsa hh
      · -- a write that makes `p` the holder comes from `p`, and those are all too old
        have hse : r.sender = p := by
          have hw := h.sent hr hc
          rw [show written.holder = some p from hh] at hw
          exact (some.inj hw).symm
        obtain ⟨⟨hle, -⟩, -, hso⟩ := h.stored hold hre
        rcases hho with he | hrep
        · exact absurd he hso
        · have hlt := hlo id r written _ hr hse hn hrep
          omega

theorem requests_acted {call : Option Call} (h : (s.acted p pod call).requests id = some r) :
    (id = s.fresh ∧ ∃ c, call = some c ∧ r = ⟨p, c, none⟩) ∨ s.requests id = some r := by
  cases call with
  | none => exact .inr h
  | some c =>
    simp only [State.acted] at h
    by_cases hi : id = s.fresh
    · rw [hi, Function.update_self] at h
      exact .inl ⟨hi, c, rfl, (some.inj h).symm⟩
    · rw [Function.update_of_ne hi] at h
      exact .inr h

theorem pods_acted (p q : String) (pod : Pod) (call : Option Call) :
    (s.acted p pod call).pods q = if q = p then pod else s.pods q := by
  cases call <;> simp only [State.acted, Function.update_apply]

@[simp] theorem server_acted (p : String) (pod : Pod) (call : Option Call) :
    (s.acted p pod call).server = s.server := by
  cases call <;> rfl

/-- A pod waits for the request it has just sent, or for the one it waited for, or for none. -/
theorem pending_of_moves {reply : Nat → Option Reply} {call : Option Call}
    (h : Moves config p pod reply id input pod' call) :
    (call = none ∧ (pod'.stage.pending = none ∨ pod'.stage = pod.stage)) ∨
      ∃ c, call = some c ∧ pod'.stage.pending = some id ∧ Asks config p pod'.stage c := by
  cases h with
  | cancel => exact .inl ⟨rfl, .inr rfl⟩
  | fence _ _
  | lost _
  | written _ _ _
  | fail _
  | ended _ _
  | released _ => exact .inl ⟨rfl, .inl rfl⟩
  | attempt _ _ _ | release _ _ => exact .inr ⟨_, rfl, rfl, rfl⟩
  | ask _ _ hf =>
    refine .inr ⟨_, rfl, rfl, ?_⟩
    unfold reconcile_found at hf
    split at hf
    · cases hf
      rfl
    · split at hf
      · cases hf
        exact ⟨_, _, rfl⟩
      · split at hf
        · cases hf
          exact ⟨_, _, rfl⟩
        · cases hf
  | write_release _ _ _ => exact .inr ⟨_, rfl, rfl, _, _, rfl⟩

theorem seen_of_moves {reply : Nat → Option Reply} {lease : Lease}
    (h : Moves config p pod reply id input pod' (some (.Replace lease version))) :
    (∃ now, input = .answer now) ∧
      ∃ i seen, pod.stage.pending = some i ∧ reply i = some (.Found (some (seen, version))) ∧
      ((seen.holder = some p ∧ lease = released_lease seen p ∧
          ∃ i, pod.stage = .Releasing false i) ∨
        ∃ a i, pod.stage = .Attempting a .Get i ∧
        ((seen.holder = some p ∧ lease = renewed_lease seen p config a.now) ∨
          (seen.holder ≠ some p ∧ lease_is_expired seen.spec_or_default a.now = true ∧
            lease = taken_over_lease seen p config a.now))) := by
  generalize hc : some (Call.Replace lease version) = call at h
  cases h with
  | ask hs hr hf =>
    rename_i i a found phase c
    cases hc
    unfold reconcile_found at hf
    split at hf
    · cases hf
    · rename_i seen version'
      refine ⟨⟨_, rfl⟩, i, seen, by rw [hs]; rfl, ?_⟩
      split at hf
      · rename_i hh
        cases hf
        exact ⟨hr, .inr ⟨a, i, hs, .inl ⟨(holder_matches_iff _ _).mp hh, rfl⟩⟩⟩
      · rename_i hh
        split at hf
        · rename_i he
          cases hf
          rw [holder_matches_iff] at hh
          exact ⟨hr, .inr ⟨a, i, hs, .inr ⟨hh, he, rfl⟩⟩⟩
        · cases hf
  | write_release hs hr hh =>
    cases hc
    exact ⟨⟨_, rfl⟩, _, _, by rw [hs]; rfl, hr, .inl ⟨hh, rfl, _, hs⟩⟩
  | cancel
  | fence _ _
  | attempt _ _ _
  | lost _
  | written _ _ _
  | fail _
  | release _ _
  | ended _ _
  | released _ => cases hc

theorem holder_of_asks {stage : Stage} {call : Call} {lease : Lease} (h : Asks config p stage call)
    (hl : call.lease = some lease) : lease.holder = some p := by
  unfold Asks at h
  split at h
  · subst h
    cases hl
  · subst h
    cases hl
    rfl
  · obtain ⟨seen, version, rfl⟩ := h
    cases hl
    rfl
  · obtain ⟨seen, version, rfl⟩ := h
    cases hl
    rfl
  · subst h
    cases hl
  · obtain ⟨seen, version, rfl⟩ := h
    cases hl
    rfl
  · exact h.elim

theorem saw_of_reply (h : Sound config s) {lease : Lease}
    (hre : s.reply i = some (.Found (some (lease, version)))) : s.server.Saw lease version := by
  obtain ⟨r, hr, hre⟩ := bind_eq_some_iff.mp hre
  exact h.found hr hre

theorem reply_acted {call : Option Call} (hi : i ≠ s.fresh) :
    (s.acted p pod call).reply i = s.reply i := by
  cases call with
  | none => rfl
  | some c => simp only [State.reply, State.acted, Function.update_of_ne hi]

theorem requests_acted_of_ne {call : Option Call} (hi : i ≠ s.fresh) :
    (s.acted p pod call).requests i = s.requests i := by
  cases call with
  | none => rfl
  | some c => simp only [State.acted, Function.update_of_ne hi]

variable (h : Sound config s)

include h

theorem ne_fresh_of_pending (hp : (s.pods p).stage.pending = some i) : i ≠ s.fresh := by
  obtain ⟨r, hr, -⟩ := h.pending hp
  rintro rfl
  rw [h.unsent _ (le_refl _)] at hr
  cases hr

theorem pending_acted {call : Option Call}
    (hm : Moves config p (s.pods p) s.reply s.fresh input pod call) {q : String}
    (hp : ((s.acted p pod call).pods q).stage.pending = some i) :
    (q = p ∧ i = s.fresh ∧ ∃ c, call = some c ∧ Asks config p pod.stage c) ∨
      (i ≠ s.fresh ∧ (s.pods q).stage.pending = some i ∧
        ((s.acted p pod call).pods q).stage = (s.pods q).stage) := by
  rw [pods_acted] at hp ⊢
  by_cases hq : q = p
  · subst hq
    simp only [if_true] at hp ⊢
    rcases pending_of_moves hm with ⟨-, hs⟩ | ⟨c, hc, hn, ha⟩
    · rcases hs with hs | hs
      · rw [hs] at hp
        cases hp
      · rw [hs] at hp
        exact .inr ⟨ne_fresh_of_pending h hp, hp, hs⟩
    · rw [hn] at hp
      exact .inl ⟨trivial, (some.inj hp).symm, c, hc, ha⟩
  · simp only [if_neg hq] at hp ⊢
    exact .inr ⟨ne_fresh_of_pending h hp, hp, trivial⟩

theorem sound_acted {call : Option Call}
    (hm : Moves config p (s.pods p) s.reply s.fresh input pod call) :
    Sound config (s.acted p pod call) where
  unsent := by
    intro id hi
    cases call with
    | none => exact h.unsent id hi
    | some c =>
      simp only [State.acted] at hi ⊢
      rw [Function.update_of_ne (by omega)]
      exact h.unsent id (by omega)
  found := by
    intro id r lease version hr hre
    rw [server_acted]
    rcases requests_acted hr with ⟨-, c, -, rfl⟩ | hr
    · cases hre
    · exact h.found hr hre
  stored := by
    intro id r lease version hr hre
    rw [server_acted]
    rcases requests_acted hr with ⟨-, c, -, rfl⟩ | hr
    · cases hre
    · exact h.stored hr hre
  sent := by
    intro id r lease hr hl
    rcases requests_acted hr with ⟨-, c, rfl, rfl⟩ | hr
    · rcases pending_of_moves hm with ⟨hn, -⟩ | ⟨c', hc', -, ha⟩
      · cases hn
      · cases hc'
        exact holder_of_asks ha hl
    · exact h.sent hr hl
  replace := by
    intro id r lease version hr hc
    rw [server_acted]
    rcases requests_acted hr with ⟨-, c, rfl, rfl⟩ | hr
    · obtain rfl : c = .Replace lease version := hc
      obtain ⟨-, i, seen, -, hre, -⟩ := seen_of_moves hm
      exact (saw_of_reply h hre).1
    · exact h.replace hr hc
  pending := by
    intro q i hp
    rcases pending_acted h hm hp with ⟨rfl, rfl, c, rfl, ha⟩ | ⟨hne, hold, hs⟩
    · refine ⟨⟨q, c, none⟩, by simp [State.acted], rfl, ?_⟩
      rw [pods_acted, if_pos rfl]
      exact ha
    · obtain ⟨r, hr, hse, ha⟩ := h.pending hold
      refine ⟨r, by rw [requests_acted_of_ne hne]; exact hr, hse, ?_⟩
      rw [hs]
      exact ha
  waiting := by
    intro q i lease version hp hre
    rcases pending_acted h hm hp with ⟨rfl, rfl, c, rfl, -⟩ | ⟨hne, hold, hs⟩
    · simp [State.reply, State.acted] at hre
    · rw [reply_acted hne] at hre
      obtain ⟨hlo, hsa⟩ := h.waiting hold hre
      refine ⟨?_, ?_⟩
      · intro id r lease' version' hr hse hn hc
        rcases requests_acted hr with ⟨-, c, rfl, rfl⟩ | hr
        · -- a pod that waits sends nothing, so the new request is not one of `q`
          obtain rfl : p = q := hse
          rcases pending_of_moves hm with ⟨hn, -⟩ | ⟨c', -, hnew, -⟩
          · cases hn
          · rw [pods_acted, if_pos rfl, hnew] at hp
            exact absurd (some.inj hp).symm hne
        · exact hlo id r lease' version' hr hse hn hc
      · intro hh
        rw [State.holder, server_acted] at hh
        rw [server_acted]
        exact hsa hh

theorem sound_step {t : State} {e : Event} (hs : s.step config e = some t) : Sound config t := by
  rcases step_cases hs with ⟨duration, -, rfl⟩ | ⟨id, r, server, reply, -, hr, hn, hh,
    rfl⟩ | ⟨p, input, pod, call, -, hm, rfl⟩
  · exact ⟨h.unsent, h.found, h.stored, h.sent, h.replace, h.pending, h.waiting⟩
  · exact sound_served h hr hn hh
  · exact sound_acted h hm

end

end camel_platform_kubernetes
