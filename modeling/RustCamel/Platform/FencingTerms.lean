-- The leader term on the Lease as a fencing token: it never goes down, it goes up whenever the
-- Lease changes hands, and no two pods lead under the same one. An answer that comes late can
-- still make a pod leader under a term that another pod has passed.
import RustCamel.Platform.LeaseInvariant

open Option

namespace camel_platform_kubernetes

open Runs (Reach)

/-! ## The epoch of a pod -/

def Leads (s : State) (p : String) (epoch : Nat) : Prop :=
  (s.pods p).is_leader = true ∧ (s.pods p).leader_epoch = epoch

instance (s : State) (p : String) (epoch : Nat) : Decidable (Leads s p epoch) :=
  inferInstanceAs (Decidable (_ ∧ _))

variable {phase : Phase} {pod pod' : Pod} {p : String} {a : Attempt} {e : Event} {id : Nat}
  {input : Input} {q : String} {version : Nat} {r : Request}

theorem succeeds_written {r : Reply} {first : Nat} {next : Option Nat}
    (h : Succeeds (reconcile_written phase r) first next) :
    ∃ lease version, r = .Stored lease version ∧ first = (extract_leader_term lease).getD 1 ∧
      ∀ term ∈ next, term = first := by
  unfold reconcile_written at h
  split at h
  · rename_i lease version
    refine ⟨lease, version, rfl, ?_⟩
    split at h
    · cases h
      refine ⟨rfl, ?_⟩
      intro term ht
      rw [mem_def] at ht
      rw [ht]
      rfl
    · cases h
      exact ⟨rfl, fun term ht => (some.inj ht).symm⟩
  all_goals cases h

theorem apply_renewal_epoch_cases (current : Nat) (observed : Option Nat) :
    apply_renewal_epoch current observed = current ∨
      observed = some (apply_renewal_epoch current observed) := by
  unfold apply_renewal_epoch clamp_epoch
  cases observed with
  | none => exact .inl rfl
  | some term =>
    by_cases h : current < term
    · simp [h]
    · simp [h]

theorem epoch_of_finishes {config : KubernetesPlatformConfig} {outcome : CycleOutcome}
    {retry_sleep now : Nat} (h : Finishes config pod retry_sleep now outcome pod')
    (hl : pod'.is_leader = true) :
    (pod.is_leader = true ∧ pod'.leader_epoch = pod.leader_epoch) ∨
      ∃ first next, Succeeds outcome first next ∧
        (pod'.leader_epoch = first ∨ next = some pod'.leader_epoch) := by
  cases h with
  | begins hs _ => exact .inr ⟨_, _, hs, .inl rfl⟩
  | renews hs _ =>
    rcases apply_renewal_epoch_cases pod.leader_epoch _ with hk | hst
    · exact .inl ⟨hl, hk⟩
    · exact .inr ⟨_, _, hs, .inr hst⟩
  | waits _ | goes_on _ _ => exact .inl ⟨hl, rfl⟩
  | steps_down => cases hl

/-! ## The terms a pod has a right to -/

/-- The pod leads under the term, or the answer that will make it do so is on its way. -/
def Claims (s : State) (p : String) (term : Nat) : Prop :=
  Leads s p term ∨ ∃ a phase i lease version, (s.pods p).stage = .Attempting a phase i ∧
    s.reply i = some (.Stored lease version) ∧ term = (extract_leader_term lease).getD 1

/-- The term is not above the one on the Lease, below it if another pod holds the Lease, and
no other pod claims it. -/
structure Apart (s : State) (q : String) (term : Nat) : Prop where
  le : term ≤ s.term
  lt : s.holder ≠ some q → term < s.term
  unique : ∀ p term', p ≠ q → Claims s p term' → term' ≠ term

/-- The pod takes over a Lease whose term is the last one a `u64` can hold. -/
def Pod.overflows (pod : Pod) (p : String) (reply : Nat → Option Reply) : Input → Bool
  | .answer _ =>
    match pod.stage with
    | .Attempting a .Get i =>
      match reply i with
      | some (.Found (some (lease, _))) =>
        !(holder_matches lease.spec_or_default p) &&
          (lease_is_expired lease.spec_or_default a.now && 2 ^ 64 ≤ lease.term + 1)
      | _ => false
    | _ => false
  | _ => false

def overflows (s : State) : Event → Bool
  | .act p input => (s.pods p).overflows p s.reply input
  | _ => false

/-- No sum of a term and one is too large for a `u64`. -/
def NoOverflow (s : State) (e : Event) : Prop := overflows s e = false

theorem lt_of_no_overflow {reply : Nat → Option Reply} {now i : Nat} {lease : Lease}
    (ho : pod.overflows p reply (.answer now) = false)
    (hs : pod.stage = .Attempting a .Get i)
    (hr : reply i = some (.Found (some (lease, version)))) (hh : lease.holder ≠ some p)
    (he : lease_is_expired lease.spec_or_default a.now = true) : lease.term + 1 < 2 ^ 64 := by
  have hf : holder_matches lease.spec_or_default p = false := by
    rw [← Bool.not_eq_true, holder_matches_iff]
    exact hh
  rw [Pod.overflows, hs] at ho
  simp only [hr, hf, he, Bool.not_false, Bool.true_and, decide_eq_false_iff_not, not_le] at ho
  exact ho

/-- What the writes on their way do to the term. -/
structure Terms (config : KubernetesPlatformConfig) (s : State) : Prop where
  sound : Sound config s
  creates : ∀ {id r lease}, s.requests id = some r → r.call = .Create lease → lease.term = 1
  replaces : ∀ {id r lease}, s.requests id = some r → r.reply = none →
    r.call = .Replace lease s.server.version →
    s.term ≤ lease.term ∧ (s.holder ≠ some r.sender → s.term < lease.term)
  named : ∀ {p a phase i r lease}, (s.pods p).stage = .Attempting a phase i →
    s.requests i = some r → r.call.lease = some lease → extract_leader_term lease ≠ none
  apart : ∀ {q term}, Claims s q term → Apart s q term

section

variable {config : KubernetesPlatformConfig} {s t : State}

theorem not_claims_start (server : Server) (now : Nat) (p : String) (term : Nat) :
    ¬ Claims (.start server now) p term := by
  rintro (⟨hl, -⟩ | ⟨a, phase, i, lease, version, hs, -⟩)
  · cases hl
  · cases hs

theorem terms_start (server : Server) (now : Nat) : Terms config (.start server now) where
  sound := sound_start config server now
  creates := by simp [State.start]
  replaces := by simp [State.start]
  named := by simp [State.start]
  apart := fun h => absurd h (not_claims_start server now _ _)

/-! ## The order of the terms -/

/-- The term does not go down, and goes up when the holder changes. -/
def Ordered (s t : State) : Prop := s.term ≤ t.term ∧ (s.holder ≠ t.holder → s.term < t.term)

theorem Ordered.refl (s : State) : Ordered s s := ⟨le_refl _, fun h => absurd rfl h⟩

theorem Ordered.trans {u : State} (hs : Ordered s t) (ht : Ordered t u) : Ordered s u := by
  refine ⟨le_trans hs.1 ht.1, fun hn => ?_⟩
  by_cases hh : s.holder = t.holder
  · exact lt_of_le_of_lt hs.1 (ht.2 (hh ▸ hn))
  · exact lt_of_lt_of_le (hs.2 hh) ht.1

theorem ordered_step (h : Terms config s) (hst : s.step config e = some t) : Ordered s t := by
  rcases step_cases hst with ⟨duration, -, rfl⟩ | ⟨id, r, server, reply, -, hr, hn, hh,
    rfl⟩ | ⟨p, input, pod, call, -, hm, rfl⟩
  · exact Ordered.refl s
  · have hho : ∀ {lease}, r.call.lease = some lease → lease.holder = some r.sender :=
      fun hl => h.sound.sent hr hl
    generalize hc : r.call = call at hh
    cases hh with
    | found | refused _ => exact Ordered.refl s
    | @created lease he =>
      have hzero : s.term = 0 := by rw [State.term, he]; rfl
      have ho : lease.term = 1 := h.creates hr hc
      have ht : (s.served id r ⟨some lease, s.server.version + 1⟩
        (.Stored lease (s.server.version + 1))).term = 1 := ho
      exact ⟨by omega, fun _ => by omega⟩
    | @replaced lease old _ =>
      obtain ⟨hle, hlt⟩ := h.replaces hr hn hc
      refine ⟨hle, fun hne => hlt ?_⟩
      have hnew : lease.holder = some r.sender := hho (by rw [hc]; rfl)
      intro hsa
      apply hne
      rw [hsa, ← hnew]
      rfl
  · have hs := @server_acted s p pod call
    have ht : (s.acted p pod call).term = s.term := by rw [State.term, hs]; rfl
    have hho : (s.acted p pod call).holder = s.holder := by rw [State.holder, hs]; rfl
    exact ⟨le_of_eq ht.symm, fun hne => absurd hho.symm hne⟩

/-! ## New claims -/

theorem term_eq_of_named {lease : Lease} (h : extract_leader_term lease ≠ none) :
    (extract_leader_term lease).getD 1 = lease.term := by
  obtain ⟨term, ht⟩ := ne_none_iff_exists'.mp h
  rw [Lease.term, ht]
  rfl

theorem claims_served (h : Terms config s) {server : Server} {reply : Reply}
    (hr : s.requests id = some r) (hh : Handles s.server r.call server reply) {term : Nat}
    (hc : Claims (s.served id r server reply) p term) :
    Claims s p term ∨ ((s.served id r server reply).holder = some p ∧
      (s.served id r server reply).term = term) := by
  rcases hc with hl | ⟨a, phase, i, lease, version, hs, hre, ht⟩
  · exact .inl (.inl hl)
  · obtain ⟨r', hr', hst⟩ := bind_eq_some_iff.mp hre
    rcases requests_served hr' with ⟨rfl, rfl⟩ | ⟨-, hold⟩
    · obtain rfl : reply = _ := some.inj hst
      rcases handles_cases hh with ⟨-, hne⟩ | ⟨written, hca, rfl, hw, -⟩
      · exact absurd rfl (hne lease version)
      · cases hw
        have hn : extract_leader_term lease ≠ none := h.named hs hr hca
        obtain ⟨r', hr', hse, -⟩ := h.sound.pending (p := p) (i := i) (by
          rw [show (s.pods p).stage = .Attempting a phase i from hs]
          rfl)
        rw [hr] at hr'
        cases hr'
        refine .inr ⟨?_, ?_⟩
        · rw [← hse]
          exact h.sound.sent hr hca
        · rw [ht, term_eq_of_named hn]
          rfl
    · refine .inl (.inr ⟨a, phase, i, lease, version, hs, ?_, ht⟩)
      rw [State.reply, hold]
      exact hst

theorem claims_of_written {i now : Nat} {r : Reply} {term : Nat}
    (hst : (s.pods p).stage = .Attempting a phase i) (hr : s.reply i = some r)
    (hl : ((s.pods p).finish config (reconcile_written phase r) a.retry_sleep now).is_leader = true)
    (he : ((s.pods p).finish config (reconcile_written phase r) a.retry_sleep now).leader_epoch =
      term) : Claims s p term := by
  rcases epoch_of_finishes (finishes_finish config _ _ _ _) hl with ⟨hold, hsa⟩ |
    ⟨first, next, hs, hf⟩
  · exact .inl ⟨hold, by rw [← hsa]; exact he⟩
  · obtain ⟨lease, version, rfl, ht, hn⟩ := succeeds_written hs
    refine .inr ⟨a, phase, i, lease, version, hst, hr, ?_⟩
    rw [he] at hf
    rcases hf with rfl | hf
    · exact ht
    · rw [hn term hf, ht]

theorem leads_of_failed {retry_sleep now term : Nat} {outcome : CycleOutcome}
    (ho : ∀ first next, ¬ Succeeds outcome first next)
    (hl : ((s.pods p).finish config outcome retry_sleep now).is_leader = true)
    (he : ((s.pods p).finish config outcome retry_sleep now).leader_epoch = term) :
    Claims s p term := by
  rcases epoch_of_finishes (finishes_finish config _ _ _ _) hl with ⟨hold, hsa⟩ |
    ⟨first, next, hs, -⟩
  · exact .inl ⟨hold, by rw [← hsa]; exact he⟩
  · exact absurd hs (ho first next)

theorem claims_acted (h : Sound config s) {call : Option Call}
    (hm : Moves config p (s.pods p) s.reply s.fresh input pod call) {term : Nat}
    (hc : Claims (s.acted p pod call) q term) : Claims s q term := by
  rcases hc with ⟨hl, he⟩ | ⟨a, phase, i, lease, version, hs, hr, ht⟩
  · rw [pods_acted] at hl he
    by_cases hq : q = p
    · subst hq
      rw [if_pos rfl] at hl he
      cases hm with
      | cancel
      | attempt _ _ _
      | ask _ _ _
      | release _ _
      | ended _ _
      | write_release _ _ _ => exact .inl ⟨hl, he⟩
      | fence _ _ | released _ => cases hl
      | lost _ | fail _ => exact leads_of_failed (fun _ _ h => by cases h) hl he
      | written _ hs hr => exact claims_of_written hs hr hl he
    · rw [if_neg hq] at hl he
      exact .inl ⟨hl, he⟩
  · have hp : ((s.acted p pod call).pods q).stage.pending = some i := by
      rw [hs]
      rfl
    rcases pending_acted h hm hp with ⟨rfl, rfl, c, rfl, -⟩ | ⟨hn, -, hsa⟩
    · simp [State.reply, State.acted] at hr
    · rw [reply_acted hn] at hr
      exact .inr ⟨a, phase, i, lease, version, hsa ▸ hs, hr, ht⟩

section

variable (h : Terms config s) (hstep : s.step config e = some t) {term : Nat}

include h hstep

theorem claims_step (hc : Claims t p term) :
    Claims s p term ∨ (t.holder = some p ∧ t.term = term) := by
  rcases step_cases hstep with ⟨duration, -, rfl⟩ | ⟨id, r, server, reply, -, hr, hn, hh,
    rfl⟩ | ⟨q, input, pod, call, -, hm, rfl⟩
  · exact .inl hc
  · exact claims_served h hr hh hc
  · exact .inl (claims_acted h.sound hm hc)

theorem apart_step (ha : Apart s q term) : Apart t q term := by
  have ho := ordered_step h hstep
  have hl : t.holder ≠ some q → term < t.term := by
    intro hh
    by_cases hs : s.holder = some q
    · exact lt_of_le_of_lt ha.le (ho.2 (fun heq => hh (heq ▸ hs)))
    · exact lt_of_lt_of_le (ha.lt hs) ho.1
  refine ⟨le_trans ha.le ho.1, hl, ?_⟩
  intro p term' hn hc
  rcases claims_step h hstep hc with hold | ⟨hh, rfl⟩
  · exact ha.unique p term' hn hold
  · have hot : t.holder ≠ some q := by
      rw [hh]
      exact fun heq => hn (some.inj heq)
    exact (hl hot).ne'

theorem apart_new (hc : Claims t q term) : Apart t q term := by
  rcases claims_step h hstep hc with hold | ⟨hh, rfl⟩
  · exact apart_step h hstep (h.apart hold)
  · refine ⟨le_refl _, fun hn => absurd hh hn, ?_⟩
    intro p term' hn hc'
    have ho : t.holder ≠ some p := by
      rw [hh]
      exact fun heq => hn (some.inj heq).symm
    rcases claims_step h hstep hc' with hold | ⟨hh', -⟩
    · exact ((apart_step h hstep (h.apart hold)).lt ho).ne
    · exact absurd hh' ho

end

/-! ## The invariant is kept -/

theorem create_of_asks {stage : Stage} {lease : Lease} (h : Asks config p stage (.Create lease)) :
    ∃ now, lease = build_first_time_lease p config now := by
  unfold Asks at h
  split at h
  · cases h
  · cases h
    exact ⟨_, rfl⟩
  · obtain ⟨_, _, h⟩ := h
    cases h
  · obtain ⟨_, _, h⟩ := h
    cases h
  · cases h
  · obtain ⟨_, _, h⟩ := h
    cases h
  · exact h.elim

theorem term_of_replacement {reply : Nat → Option Reply} {lease : Lease}
    (h : Moves config p pod reply id input pod' (some (.Replace lease version)))
    (ho : pod.overflows p reply input = false) :
    ∃ i seen, pod.stage.pending = some i ∧ reply i = some (.Found (some (seen, version))) ∧
      seen.term ≤ lease.term ∧ (seen.holder ≠ some p → seen.term < lease.term) ∧
      ((∃ a i, pod.stage = .Attempting a .Get i) → extract_leader_term lease ≠ none) := by
  obtain ⟨⟨now, rfl⟩, i, seen, hp, hr, hho⟩ := seen_of_moves h
  refine ⟨i, seen, hp, hr, ?_⟩
  rcases hho with ⟨hh, rfl, j, hs⟩ | ⟨a, j, hs, hho⟩
  · refine ⟨le_refl _, fun hn => absurd hh hn, ?_⟩
    rintro ⟨a, k, ha⟩
    rw [hs] at ha
    cases ha
  · obtain rfl : j = i := by
      rw [hs] at hp
      exact some.inj hp
    rcases hho with ⟨hh, rfl⟩ | ⟨hh, he, rfl⟩
    · have hex := extract_renewed seen p config a.now
      refine ⟨?_, fun hn => absurd hh hn, fun _ => by rw [hex]; simp⟩
      rw [Lease.term, Lease.term, hex]
      cases extract_leader_term seen with
      | none => exact Nat.zero_le _
      | some term => exact le_refl _
    · have hex := extract_taken_over
        (lt_of_no_overflow ho hs hr hh he) p config a.now
      have ht : (taken_over_lease seen p config a.now).term = seen.term + 1 := by
        rw [Lease.term, hex]
        rfl
      exact ⟨by omega, fun _ => by omega, fun _ => by rw [hex]; simp⟩

theorem named_of_moves {reply : Nat → Option Reply} {c : Call}
    (h : Moves config p pod reply id input pod' (some c))
    (ho : pod.overflows p reply input = false) {i : Nat}
    (hs : pod'.stage = .Attempting a phase i) (ha : Asks config p pod'.stage c)
    {lease : Lease} (hl : c.lease = some lease) : extract_leader_term lease ≠ none := by
  cases c with
  | Get => cases hl
  | Create lease' =>
    cases hl
    obtain ⟨now, rfl⟩ := create_of_asks ha
    rw [extract_first_time]
    simp
  | Replace lease' version =>
    cases hl
    obtain ⟨j, seen, -, -, -, -, hn⟩ := term_of_replacement h ho
    apply hn
    generalize hc : some (Call.Replace lease version) = call at h
    cases h with
    | ask hold _ _ => exact ⟨_, _, hold⟩
    | write_release _ _ _ => cases hs
    | cancel
    | fence _ _
    | attempt _ _ _
    | lost _
    | written _ _ _
    | fail _
    | release _ _
    | ended _ _
    | released _ => cases hc

theorem terms_served (h : Terms config s) {server : Server} {reply : Reply}
    (hr : s.requests id = some r) (hn : r.reply = none)
    (hh : Handles s.server r.call server reply)
    (ha : ∀ {q term}, Claims (s.served id r server reply) q term →
      Apart (s.served id r server reply) q term) : Terms config (s.served id r server reply) where
  sound := sound_served h.sound hr hn hh
  creates := by
    intro id' r' lease hr' hc
    rcases requests_served hr' with ⟨-, rfl⟩ | ⟨-, hold⟩
    · exact h.creates (r := r) hr hc
    · exact h.creates hold hc
  replaces := by
    intro id' r' lease hr' hn' hc
    rcases requests_served hr' with ⟨-, rfl⟩ | ⟨-, hold⟩
    · cases hn'
    · rcases handles_cases hh with ⟨rfl, -⟩ | ⟨written, -, rfl, -, -⟩
      · exact h.replaces hold hn' hc
      · -- after a write every version that was read is too old
        have hle := h.sound.replace hold hc
        simp only [State.served] at hle
        omega
  named := by
    intro p a phase i r' lease hs hr' hl
    rcases requests_served hr' with ⟨rfl, rfl⟩ | ⟨-, hold⟩
    · exact h.named (r := r) hs hr hl
    · exact h.named hs hold hl
  apart := ha

theorem terms_acted (h : Terms config s) {call : Option Call}
    (hm : Moves config p (s.pods p) s.reply s.fresh input pod call)
    (ho : NoOverflow s (.act p input))
    (ha : ∀ {q term}, Claims (s.acted p pod call) q term → Apart (s.acted p pod call) q term) :
    Terms config (s.acted p pod call) where
  sound := sound_acted h.sound hm
  creates := by
    intro id r lease hr hc
    rcases requests_acted hr with ⟨-, c, rfl, rfl⟩ | hold
    · obtain rfl : c = .Create lease := hc
      rcases pending_of_moves hm with ⟨hn, -⟩ | ⟨c', hc', -, has⟩
      · cases hn
      · cases hc'
        obtain ⟨now, rfl⟩ := create_of_asks has
        rw [Lease.term, extract_first_time]
        rfl
    · exact h.creates hold hc
  replaces := by
    intro id r lease hr hn hc
    have ht : (s.acted p pod call).term = s.term := by rw [State.term, server_acted]; rfl
    have hh : (s.acted p pod call).holder = s.holder := by rw [State.holder, server_acted]; rfl
    rw [ht, hh]
    rw [server_acted] at hc
    rcases requests_acted hr with ⟨-, c, rfl, rfl⟩ | hold
    · obtain rfl : c = .Replace lease s.server.version := hc
      obtain ⟨i, seen, -, hre, hle, hlt, -⟩ := term_of_replacement hm ho
      have hsee : s.server.lease = some seen := (saw_of_reply h.sound hre).2 rfl
      have hs : s.term = seen.term := by rw [State.term, hsee]; rfl
      have hse : s.holder = seen.holder := by rw [State.holder, hsee]; rfl
      rw [hs, hse]
      exact ⟨hle, hlt⟩
    · exact h.replaces hold hn hc
  named := by
    intro q a phase i r lease hst hr hl
    have hp : ((s.acted p pod call).pods q).stage.pending = some i := by
      rw [hst]
      rfl
    rcases pending_acted h.sound hm hp with ⟨rfl, rfl, c, rfl, has⟩ | ⟨hne, -, hsa⟩
    · obtain rfl : r = ⟨q, c, none⟩ := by simpa [State.acted, eq_comm] using hr
      rw [pods_acted, if_pos rfl] at hst
      exact named_of_moves hm ho hst has hl
    · rw [requests_acted_of_ne hne] at hr
      exact h.named (hsa ▸ hst) hr hl
  apart := ha

theorem terms_step (h : Terms config s) (ho : NoOverflow s e) (hstep : s.step config e = some t) :
    Terms config t := by
  have ha : ∀ {q term}, Claims t q term → Apart t q term := apart_new h hstep
  rcases step_cases hstep with ⟨duration, rfl, rfl⟩ | ⟨id, r, server, reply, rfl, hr, hn,
    hh, rfl⟩ | ⟨p, input, pod, call, rfl, hm, rfl⟩
  · exact ⟨sound_step h.sound hstep, h.creates, h.replaces, h.named, ha⟩
  · exact terms_served h hr hn hh ha
  · exact terms_acted h hm ho ha

/-! ## The leaders -/

theorem answer_of_new_leader (hstep : s.step config e = some t)
    (hb : (s.pods p).is_leader = false) (ha : (t.pods p).is_leader = true) :
    t.server = s.server ∧ ∃ a phase i lease version,
      (s.pods p).stage = .Attempting a phase i ∧ s.reply i = some (.Stored lease version) ∧
        (t.pods p).leader_epoch = (extract_leader_term lease).getD 1 := by
  have hi : ∀ {pod : Pod}, pod.is_leader = (s.pods p).is_leader → pod.is_leader ≠ true := by
    intro pod hsa ht
    rw [hsa, hb] at ht
    cases ht
  have hf : ∀ {outcome retry_sleep now},
      ((s.pods p).finish config outcome retry_sleep now).is_leader = true →
      ∃ first next, Succeeds outcome first next ∧
        ((s.pods p).finish config outcome retry_sleep now).leader_epoch = first := by
    intro outcome retry_sleep now hl
    generalize hpo : (s.pods p).finish config outcome retry_sleep now = pod at hl
    have hfi := finishes_finish config (s.pods p) outcome retry_sleep now
    rw [hpo] at hfi
    cases hfi with
    | begins hs _ => exact ⟨_, _, hs, rfl⟩
    | renews _ _ | waits _ | goes_on _ _ => exact absurd hl (hi rfl)
    | steps_down => cases hl
  rcases step_cases hstep with ⟨duration, -, rfl⟩ | ⟨id, r, server, reply, -, hr, hn, hh,
    rfl⟩ | ⟨q, input, pod, call, -, hm, rfl⟩
  · exact absurd ha (hi rfl)
  · exact absurd ha (hi rfl)
  · refine ⟨server_acted q pod call, ?_⟩
    rw [pods_acted] at ha ⊢
    by_cases hp : p = q
    · subst hp
      rw [if_pos rfl] at ha ⊢
      cases hm with
      | cancel
      | attempt _ _ _
      | ask _ _ _
      | release _ _
      | ended _ _
      | write_release _ _ _ => exact absurd ha (hi rfl)
      | fence _ _ | released _ => cases ha
      | lost _ | fail _ =>
        obtain ⟨first, next, hs, -⟩ := hf ha
        cases hs
      | written _ hst hre =>
        obtain ⟨first, next, hs, he⟩ := hf ha
        obtain ⟨lease, version, rfl, hfir, -⟩ := succeeds_written hs
        exact ⟨_, _, _, lease, version, hst, hre, by rw [he, hfir]⟩
    · rw [if_neg hp] at ha
      exact absurd ha (hi rfl)

/-- A pod that begins to lead while it holds the Lease does so under the term on the Lease. -/
theorem epoch_of_new_leader (h : Terms config s) (hstep : s.step config e = some t)
    (hb : (s.pods p).is_leader = false) (ha : (t.pods p).is_leader = true)
    (hh : t.holder = some p) : (t.pods p).leader_epoch = t.term := by
  obtain ⟨hs, a, phase, i, lease, version, hst, hre, he⟩ := answer_of_new_leader hstep hb ha
  have hp : (s.pods p).stage.pending = some i := by
    rw [hst]
    rfl
  rw [State.holder, hs] at hh
  have hv := (h.sound.waiting hp hre).2 hh
  obtain ⟨r, hr, hsto⟩ := bind_eq_some_iff.mp hre
  obtain ⟨hsa, hc, -⟩ := h.sound.stored hr hsto
  rw [he, term_eq_of_named (h.named hst hr hc), State.term, hs, hsa.2 hv]
  rfl

end

/-- In every run the term on the Lease does not go down and goes up when the Lease changes
hands. A pod that leads under an epoch stays behind: whoever holds the Lease afterwards has a
higher term on it, no other pod leads under the same epoch, and a pod that begins to lead while
it holds the Lease does so under a higher one. -/
theorem lease_terms_order_the_leaders {config : KubernetesPlatformConfig} {server : Server}
    {now : Nat} {s t : State} (hs : Reach (State.step config) NoOverflow (.start server now) s)
    (ht : Reach (State.step config) NoOverflow s t) :
    s.term ≤ t.term ∧ (s.holder ≠ t.holder → s.term < t.term) ∧
      ∀ q epoch, Leads s q epoch → ∀ p, p ≠ q →
        (t.holder = some p → epoch < t.term) ∧
        (∀ epoch', Leads t p epoch' → epoch' ≠ epoch) ∧
        ∀ event u, NoOverflow t event → t.step config event = some u →
          (t.pods p).is_leader = false → (u.pods p).is_leader = true → u.holder = some p →
          epoch < (u.pods p).leader_epoch := by
  have hte : Terms config s := hs.invariant (terms_start server now)
    fun h hok hstep => terms_step h hok hstep
  have ho : Ordered s t := ht.relates hte Ordered.refl Ordered.trans
    fun h hok hstep => ⟨terms_step h hok hstep, ordered_step h hstep⟩
  refine ⟨ho.1, ho.2, ?_⟩
  intro q epoch hl p hn
  obtain ⟨hter, ha⟩ : Terms config t ∧ Apart t q epoch :=
    ht.invariant (P := fun t => Terms config t ∧ Apart t q epoch)
      ⟨hte, hte.apart (.inl hl)⟩
      fun h hok hstep => ⟨terms_step h.1 hok hstep, apart_step h.1 hstep h.2⟩
  refine ⟨?_, ?_, ?_⟩
  · intro hh
    apply ha.lt
    rw [hh]
    exact fun heq => hn (some.inj heq)
  · intro epoch' hl'
    exact ha.unique p epoch' hn (.inl hl')
  · intro event u hok hstep hb haf hh
    rw [epoch_of_new_leader hter hstep hb haf hh]
    apply (apart_step hter hstep ha).lt
    rw [hh]
    exact fun heq => hn (some.inj heq)

/-! ### A late answer -/

/-- Both pods read their clocks as they are given, and draw the middle of the jitter. -/
def wake (p : String) (timestamp : Int) : Event := .act p (.wake 0 timestamp (1 / 2))

/-- Pod `a` creates the Lease, and the answer stays on its way. The clock of `b` is twenty
seconds ahead, so that `b` takes the Lease over and leads. -/
def late_answer : List Event :=
  [wake "a" 0, .serve 0, .act "a" (.answer 0), .serve 1, wake "b" 20000000000, .serve 2,
    .act "b" (.answer 0), .serve 3, .act "b" (.answer 0)]

def late_run (events : List Event) : Option State :=
  Runs.run (State.step .default) (fun s e => !overflows s e) (.start ⟨none, 0⟩ 0) events

theorem reach_late_run {events : List Event} {s : State} (h : late_run events = some s) :
    Reach (State.step .default) NoOverflow (.start ⟨none, 0⟩ 0) s :=
  Runs.reach_of_run (fun _ _ ht => by simpa [NoOverflow] using ht) h

theorem late_answer_runs : (late_run late_answer).isSome = true := by decide +kernel

/-- The state in which `b` leads and the answer for `a` has not come. -/
def before_answer : State := (late_run late_answer).get late_answer_runs

theorem answer_arrives : (before_answer.step .default (.act "a" (.answer 0))).isSome = true := by
  decide +kernel

def after_answer : State := (before_answer.step .default (.act "a" (.answer 0))).get answer_arrives

/-- Pod `b` has led under the second term when the answer makes `a` leader under the first. -/
theorem late_leader_is_behind :
    KubernetesPlatformConfig.default.validate = .ok () ∧
      ∃ s t, Reach (State.step .default) NoOverflow (.start ⟨none, 0⟩ 0) s ∧ Leads s "b" 2 ∧
        s.step .default (.act "a" (.answer 0)) = some t ∧ (s.pods "a").is_leader = false ∧
        Leads t "a" 1 :=
  ⟨by decide +kernel, before_answer, after_answer,
    reach_late_run (some_get late_answer_runs).symm, by decide +kernel,
    (some_get answer_arrives).symm, by decide +kernel, by decide +kernel⟩

theorem late_leader_has_its_own_term :
    Leads before_answer "b" 2 ∧ Leads after_answer "a" 1 ∧
      before_answer.term ≤ after_answer.term ∧
      ∀ epoch, Leads after_answer "a" epoch → epoch ≠ 2 := by
  have hl : Leads before_answer "b" 2 := by decide +kernel
  have hlast : Reach (State.step .default) NoOverflow before_answer after_answer :=
    .tail .refl (show overflows _ _ = false by decide +kernel) (some_get answer_arrives).symm
  have h := lease_terms_order_the_leaders
    (reach_late_run (some_get late_answer_runs).symm) hlast
  exact ⟨hl, by decide +kernel, h.1, (h.2.2 "b" 2 hl "a" (by decide)).2.1⟩

end camel_platform_kubernetes
