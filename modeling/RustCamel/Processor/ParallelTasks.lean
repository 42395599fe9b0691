-- The tasks that a parallel split or multicast spawns. Each one passes two gates around
-- its permit and runs its body. A body that stops lowers the winning index and raises a
-- flag, and the gates turn away every task that comes after the flag.
import RustCamel.Lib.ListCount
import RustCamel.Processor.ErrorHandler

open List Option Bool

namespace camel_processor.parallel

open camel_processor.error_handler (PipelineOutcome)

/-! ## The tasks -/

/-- How the body of a task ends. -/
inductive BodyEnd where
  | Ended (outcome : PipelineOutcome)
  | Panicked

/-- Where a task stands. `Stopping`, `Loaded` and `Lowered` are the loop that lowers the
index: before its load, before its exchange with what it loaded, and after it. -/
inductive TaskStage where
  | Spawned
  | Waiting
  | Permitted
  | Running
  | Stopping
  | Loaded (cur : Option Nat)
  | Lowered
  | Done (result : Option PipelineOutcome)
  | Dead

/-- The task is over, and a join can take it. -/
def TaskStage.over : TaskStage → Bool
  | .Done _ | .Dead => true
  | _ => false

/-- The task holds a permit, where there are permits. -/
def TaskStage.holds : TaskStage → Bool
  | .Permitted | .Running | .Stopping | .Loaded _ | .Lowered => true
  | .Spawned | .Waiting | .Done _ | .Dead => false

/-- What the tasks share. `stopped_idx` is `none` for `usize::MAX`, which no index is. There
are no permits without a limit. -/
structure Tasks where
  stopped_seen : Bool
  stopped_idx : Option Nat
  permits : Option Nat
  stages : List TaskStage
  joined : List Nat

def reached (idx : Nat) : Option Nat → Bool
  | none => false
  | some cur => decide (cur ≤ idx)

inductive TaskEvent where
  | advance (i : Nat) (weak : Bool)
  | join (i : Nat)

namespace Tasks

def spawn (bodies : List BodyEnd) (parallel_limit : Option Nat) : Tasks where
  stopped_seen := false
  stopped_idx := none
  permits := parallel_limit.filter (0 < ·)
  stages := List.replicate bodies.length .Spawned
  joined := []

variable (t : Tasks)

def put (i : Nat) (stage : TaskStage) : Tasks := { t with stages := t.stages.set i stage }

/-- The task returns and gives its permit back. -/
def leave (i : Nat) (stage : TaskStage) : Tasks :=
  { t.put i stage with permits := t.permits.map (· + 1) }

/-- One step of task `i`. An exchange that is `weak` fails although the value is the same. -/
def advance (bodies : List BodyEnd) (t : Tasks) (i : Nat) (weak : Bool) : Option Tasks :=
  match t.stages[i]?, bodies[i]? with
  | some .Spawned, _ =>
    if t.stopped_seen then some (t.put i (.Done none))
    else match t.permits with
      | none => some (t.put i .Permitted)
      | some _ => some (t.put i .Waiting)
  | some .Waiting, _ =>
    match t.permits with
    | some (permits + 1) => some { t.put i .Permitted with permits := some permits }
    | _ => none
  | some .Permitted, _ =>
    if t.stopped_seen then some (t.leave i (.Done none)) else some (t.put i .Running)
  | some .Running, some .Panicked => some (t.leave i .Dead)
  | some .Running, some (.Ended (.Stopped _)) => some (t.put i .Stopping)
  | some .Running, some (.Ended outcome) => some (t.leave i (.Done (some outcome)))
  | some .Stopping, _ =>
    if reached i t.stopped_idx then some (t.put i .Lowered)
    else some (t.put i (.Loaded t.stopped_idx))
  | some (.Loaded cur), _ =>
    if t.stopped_idx = cur ∧ weak = false then
      some { t.put i .Lowered with stopped_idx := some i }
    else if reached i t.stopped_idx then some (t.put i .Lowered)
    else some (t.put i .Stopping)
  | some .Lowered, some (.Ended outcome) =>
    some { t.leave i (.Done (some outcome)) with stopped_seen := true }
  | _, _ => none

/-- `join_next` gives the tasks that are over, in any order. -/
def join (i : Nat) : Option Tasks :=
  match t.stages[i]? with
  | some stage =>
    if stage.over ∧ i ∉ t.joined then some { t with joined := t.joined ++ [i] } else none
  | none => none

def step (bodies : List BodyEnd) (t : Tasks) : TaskEvent → Option Tasks
  | .advance i weak => t.advance bodies i weak
  | .join i => t.join i

def run (bodies : List BodyEnd) (t : Tasks) : List TaskEvent → Option Tasks
  | [] => some t
  | e :: events => (t.step bodies e).bind fun t => run bodies t events

def Complete : Prop := ∀ i < t.stages.length, i ∈ t.joined

/-- The outcome that a task gave, if it gave one. A skipped task gives none, and the error
of a task that died is passed over. -/
def given (i : Nat) : Option (Nat × PipelineOutcome) :=
  match t.stages[i]? with
  | some (.Done (some outcome)) => some (i, outcome)
  | _ => none

def results : List (Nat × PipelineOutcome) := t.joined.filterMap t.given

end Tasks

/-! ## What every schedule keeps -/

variable {exchange : camel_api.Exchange} {t₁ : Tasks} {body : BodyEnd} {stage : TaskStage}
  {stage' : TaskStage} {i : Nat}

section

variable {bodies : List BodyEnd} {t t' : Tasks}

def Stops (bodies : List BodyEnd) (i : Nat) : Prop :=
  ∃ exchange, bodies[i]? = some (.Ended (.Stopped exchange))

/-- The task has lowered the index. -/
def TaskStage.Won : TaskStage → Prop
  | .Lowered => True
  | .Done (some (.Stopped _)) => True
  | _ => False

/-- What the stage of task `i` says about its body and about what is shared. -/
def Fits (bodies : List BodyEnd) (seen : Bool) (idx : Option Nat) (i : Nat) : TaskStage → Prop
  | .Stopping => Stops bodies i
  | .Loaded cur => Stops bodies i ∧ reached i cur = false
  | .Lowered => Stops bodies i ∧ reached i idx = true
  | .Done none => seen = true
  | .Done (some (.Stopped exchange)) =>
    bodies[i]? = some (.Ended (.Stopped exchange)) ∧ seen = true ∧ reached i idx = true
  | .Done (some outcome) => bodies[i]? = some (.Ended outcome)
  | .Dead => bodies[i]? = some .Panicked
  | .Spawned | .Waiting | .Permitted | .Running => True

/-- The permits that are free and those that are taken. -/
def Tasks.slots (t : Tasks) : Option Nat := t.permits.map (· + t.stages.countP TaskStage.holds)

/-- What holds after any steps of the tasks. -/
structure Sound (bodies : List BodyEnd) (t : Tasks) : Prop where
  length : t.stages.length = bodies.length
  fits : ∀ i stage, t.stages[i]? = some stage → Fits bodies t.stopped_seen t.stopped_idx i stage
  winner : ∀ w, t.stopped_idx = some w → ∃ stage, t.stages[w]? = some stage ∧ stage.Won
  counted : t.stopped_seen = true → t.stopped_idx.isSome = true
  joined_once : t.joined.Nodup
  joined_over : ∀ i ∈ t.joined, ∃ stage, t.stages[i]? = some stage ∧ stage.over = true
  slots_pos : ∀ n ∈ t.slots, 0 < n
  waits : ∀ i : Nat, t.stages[i]? = some .Waiting → t.permits.isSome = true

/-- A flag that is up and an index that was lowered keep the stages. -/
theorem Fits.mono {seen seen' : Bool} {idx idx' : Option Nat} (h : Fits bodies seen idx i stage)
    (hs : seen = true → seen' = true)
    (hi : ∀ j, reached j idx = true → reached j idx' = true) :
    Fits bodies seen' idx' i stage := by
  unfold Fits at *
  split at h
  · exact h
  · exact h
  · exact ⟨h.1, hi i h.2⟩
  · exact hs h
  · exact ⟨h.1, hs h.2.1, hi i h.2.2⟩
  · rename_i outcome _
    cases outcome <;> exact h
  · exact h
  all_goals trivial

theorem sound_spawn (bodies : List BodyEnd) (parallel_limit : Option Nat) :
    Sound bodies (Tasks.spawn bodies parallel_limit) where
  length := by simp [Tasks.spawn]
  fits := by
    intro i stage hs
    simp only [Tasks.spawn, getElem?_replicate] at hs
    split at hs
    · cases hs
      trivial
    · simp at hs
  winner := by simp [Tasks.spawn]
  counted := by simp [Tasks.spawn]
  joined_once := by simp [Tasks.spawn]
  joined_over := by simp [Tasks.spawn]
  slots_pos := by
    intro n hn
    simp only [Tasks.slots, Tasks.spawn, mem_def, map_eq_some_iff] at hn
    obtain ⟨permits, hp, rfl⟩ := hn
    have := (filter_eq_some_iff.mp hp).2
    simp only [decide_eq_true_eq] at this
    omega
  waits := by
    intro i hi
    simp only [Tasks.spawn, getElem?_replicate] at hi
    split at hi <;> simp at hi

theorem Sound.move (h : Sound bodies t) (hi : t.stages[i]? = some stage)
    (hov : stage.over = false) (hs : t'.stages = t.stages.set i stage')
    (hjoi : t'.joined = t.joined) (hse : t.stopped_seen = true → t'.stopped_seen = true)
    (hid : ∀ j, reached j t.stopped_idx = true → reached j t'.stopped_idx = true)
    (hf : Fits bodies t'.stopped_seen t'.stopped_idx i stage')
    (hwin : ∀ w, t'.stopped_idx = some w →
      (w = i ∧ stage'.Won) ∨ (t.stopped_idx = some w ∧ (stage.Won → stage'.Won)))
    (hc : t'.stopped_seen = true → t'.stopped_idx.isSome = true)
    (hsl : t'.slots = t.slots) (hso : t'.permits.isSome = t.permits.isSome)
    (hwa : stage' = .Waiting → t.permits.isSome = true) : Sound bodies t' := by
  have hl := (List.getElem?_eq_some_iff.mp hi).1
  have hset : t'.stages[i]? = some stage' := by
    rw [hs]
    simp [hl]
  have ho : ∀ j, j ≠ i → t'.stages[j]? = t.stages[j]? := by
    intro j hj
    rw [hs, getElem?_set_ne (Ne.symm hj)]
  refine ⟨by rw [hs, length_set, h.length], ?_, ?_, hc, ?_, ?_, ?_, ?_⟩
  · intro j st hst
    by_cases hj : j = i
    · rw [hj, hset] at hst
      cases hst
      rw [hj]
      exact hf
    · rw [ho j hj] at hst
      exact (h.fits j st hst).mono hse hid
  · intro w hw
    by_cases hwi : w = i
    · rw [hwi]
      refine ⟨stage', hset, ?_⟩
      rcases hwin w hw with ⟨-, hwo⟩ | ⟨hb, hk⟩
      · exact hwo
      · obtain ⟨st, hst, hwo⟩ := h.winner w hb
        rw [hwi, hi] at hst
        cases hst
        exact hk hwo
    · rcases hwin w hw with ⟨hw', -⟩ | ⟨hb, -⟩
      · exact absurd hw' hwi
      · obtain ⟨st, hst, hwo⟩ := h.winner w hb
        exact ⟨st, by rw [ho w hwi]; exact hst, hwo⟩
  · rw [hjoi]
    exact h.joined_once
  · intro j hj
    rw [hjoi] at hj
    obtain ⟨st, hst, hjo⟩ := h.joined_over j hj
    have hji : j ≠ i := by
      rintro rfl
      rw [hi] at hst
      cases hst
      simp [hov] at hjo
    exact ⟨st, by rw [ho j hji]; exact hst, hjo⟩
  · rw [hsl]
    exact h.slots_pos
  · intro j hj
    rw [hso]
    by_cases hji : j = i
    · rw [hji, hset] at hj
      exact hwa (some.inj hj)
    · rw [ho j hji] at hj
      exact h.waits j hj

theorem slots_put (hi : t.stages[i]? = some stage) (hs : stage'.holds = stage.holds) :
    (t.put i stage').slots = t.slots := by
  simp only [Tasks.slots, Tasks.put, countP_set_same hi hs]

theorem slots_leave (hi : t.stages[i]? = some stage) (hh : stage.holds = true)
    (hf : stage'.holds = false) : (t.leave i stage').slots = t.slots := by
  have hs := countP_set_add (a := stage') TaskStage.holds hi
  simp only [hh, hf, if_true, false_eq_true, if_false] at hs
  cases hp : t.permits with
  | none => simp [Tasks.slots, Tasks.leave, hp]
  | some permits =>
    simp only [Tasks.slots, Tasks.leave, Tasks.put, hp, map_some, Option.some.injEq]
    omega

theorem TaskStage.Won.cases (h : stage.Won) :
    stage = .Lowered ∨ ∃ exchange, stage = .Done (some (.Stopped exchange)) := by
  unfold TaskStage.Won at h
  split at h
  · exact .inl rfl
  · exact .inr ⟨_, rfl⟩
  · exact h.elim

theorem not_won (ho : stage.over = false) (hn : stage ≠ .Lowered) : ¬stage.Won := by
  intro hw
  rcases hw.cases with hl | ⟨exchange, rfl⟩
  · exact hn hl
  · simp [TaskStage.over] at ho

section

variable {i : Nat} {stage stage' : TaskStage}

/-- The flag, the index and the permits stay, and the task did not win before. -/
theorem Sound.put (h : Sound bodies t) (hi : t.stages[i]? = some stage) (ho : stage.over = false)
    (hn : stage ≠ .Lowered) (hf : Fits bodies t.stopped_seen t.stopped_idx i stage')
    (hh : stage'.holds = stage.holds) (hwa : stage' = .Waiting → t.permits.isSome = true) :
    Sound bodies (t.put i stage') :=
  h.move hi ho rfl rfl id (fun _ => id) hf
    (fun _ hw => .inr ⟨hw, fun hwo => absurd hwo (not_won ho hn)⟩) h.counted
    (slots_put hi hh) rfl hwa

theorem Sound.leave (h : Sound bodies t) (hi : t.stages[i]? = some stage)
    (ho : stage.over = false) (hn : stage ≠ .Lowered)
    (hf : Fits bodies t.stopped_seen t.stopped_idx i stage') (hh : stage.holds = true)
    (hfr : stage'.holds = false) (hwa : stage' ≠ .Waiting) : Sound bodies (t.leave i stage') :=
  h.move hi ho rfl rfl id (fun _ => id) hf
    (fun _ hw => .inr ⟨hw, fun hwo => absurd hwo (not_won ho hn)⟩) h.counted
    (slots_leave hi hh hfr) (by simp [Tasks.leave]) (fun heq => absurd heq hwa)

variable (h : Sound bodies t)

include h

theorem Sound.acquire (hi : t.stages[i]? = some .Waiting) {permits : Nat}
    (hp : t.permits = some (permits + 1)) :
    Sound bodies { t.put i .Permitted with permits := some permits } := by
  refine h.move hi rfl rfl rfl id (fun _ => id) trivial
    (fun w hw => .inr ⟨hw, by simp [TaskStage.Won]⟩) h.counted ?_ (by simp [hp]) (by simp)
  have hs := countP_set_add (a := TaskStage.Permitted) TaskStage.holds hi
  simp only [TaskStage.holds, if_true, false_eq_true, if_false] at hs
  simp only [Tasks.slots, Tasks.put, hp, map_some, Option.some.injEq]
  omega

theorem Sound.lower (hi : t.stages[i]? = some (.Loaded t.stopped_idx)) :
    Sound bodies { t.put i .Lowered with stopped_idx := some i } := by
  obtain ⟨hs, hnot⟩ := h.fits i _ hi
  have hl : ∀ j, reached j t.stopped_idx = true → reached j (some i) = true := by
    intro j hj
    cases hc : t.stopped_idx with
    | none => simp [reached, hc] at hj
    | some c =>
      simp only [reached, hc, decide_eq_true_eq, decide_eq_false_iff_not] at hj hnot ⊢
      omega
  refine h.move hi rfl rfl rfl id hl ⟨hs, by simp [reached]⟩ ?_ (by simp)
    (slots_put hi rfl) rfl (by simp)
  intro w hw
  exact .inl ⟨(some.inj hw).symm, trivial⟩

/-- The task that lowered the index raises the flag and leaves with its stop. -/
theorem Sound.stop (hi : t.stages[i]? = some .Lowered)
    (hb : bodies[i]? = some (.Ended (.Stopped exchange))) :
    Sound bodies { t.leave i (.Done (some (.Stopped exchange))) with stopped_seen := true } := by
  have hr := (h.fits i _ hi).2
  refine h.move hi rfl rfl rfl (fun _ => rfl) (fun _ => id) ⟨hb, rfl, hr⟩
    (fun w hw => .inr ⟨hw, fun _ => trivial⟩) ?_ (slots_leave hi rfl rfl)
    (by simp [Tasks.leave]) (by simp)
  intro _
  cases hid : t.stopped_idx with
  | none => simp [reached, hid] at hr
  | some c => simp [Tasks.leave, Tasks.put, hid]

end

theorem Sound.advance (h : Sound bodies t) {i : Nat} {weak : Bool}
    (hs : t.advance bodies i weak = some t') : Sound bodies t' := by
  unfold Tasks.advance at hs
  cases hi : t.stages[i]? with
  | none => simp [hi] at hs
  | some stage =>
    have hf := h.fits i stage hi
    cases stage with
    | Spawned =>
      simp only [hi] at hs
      split at hs
      · rename_i hse
        cases hs
        exact h.put hi rfl (by simp) hse rfl (by simp)
      · split at hs
        · -- Without a limit there is nothing to count.
          rename_i hn
          cases hs
          exact h.move hi rfl rfl rfl id (fun _ => id) trivial
            (fun w hw => .inr ⟨hw, by simp [TaskStage.Won]⟩) h.counted
            (by simp [Tasks.slots, Tasks.put, hn]) rfl (by simp)
        · rename_i hso
          cases hs
          exact h.put hi rfl (by simp) trivial rfl (fun _ => by simp [hso])
    | Waiting =>
      simp only [hi] at hs
      split at hs
      · rename_i permits hp
        cases hs
        exact h.acquire hi hp
      · simp at hs
    | Permitted =>
      simp only [hi] at hs
      split at hs
      · rename_i hse
        cases hs
        exact h.leave hi rfl (by simp) hse rfl rfl (by simp)
      · cases hs
        exact h.put hi rfl (by simp) trivial rfl (by simp)
    | Running =>
      cases hb : bodies[i]? with
      | none => simp [hi, hb] at hs
      | some body =>
        match body with
        | .Ended (.Stopped exchange) =>
          simp only [hi, hb, Option.some.injEq] at hs
          obtain rfl := hs
          exact h.put hi rfl (by simp) ⟨exchange, hb⟩ rfl (by simp)
        | .Panicked | .Ended (.Completed _) | .Ended (.Failed _) =>
          simp only [hi, hb, Option.some.injEq] at hs
          obtain rfl := hs
          exact h.leave hi rfl (by simp) hb rfl rfl (by simp)
    | Stopping =>
      simp only [hi] at hs
      split at hs
      · rename_i hr
        cases hs
        exact h.put hi rfl (by simp) ⟨hf, hr⟩ rfl (by simp)
      · rename_i hr
        cases hs
        exact h.put hi rfl (by simp) ⟨hf, by simpa using hr⟩ rfl (by simp)
    | Loaded cur =>
      simp only [hi] at hs
      split at hs
      · rename_i hsa
        cases hs
        exact h.lower (by rw [hi, hsa.1])
      · split at hs
        · rename_i hr
          cases hs
          exact h.put hi rfl (by simp) ⟨hf.1, hr⟩ rfl (by simp)
        · cases hs
          exact h.put hi rfl (by simp) hf.1 rfl (by simp)
    | Lowered =>
      obtain ⟨⟨exchange, hb⟩, -⟩ := hf
      simp only [hi, hb, Option.some.injEq] at hs
      obtain rfl := hs
      exact h.stop hi hb
    | Done result | Dead => simp [hi] at hs

theorem Sound.join (h : Sound bodies t) {i : Nat} (hs : t.join i = some t') : Sound bodies t' := by
  unfold Tasks.join at hs
  cases hi : t.stages[i]? with
  | none => simp [hi] at hs
  | some stage =>
    simp only [hi] at hs
    split at hs
    · rename_i hjo
      cases hs
      refine ⟨h.length, h.fits, h.winner, h.counted, ?_, ?_, h.slots_pos, h.waits⟩
      · rw [nodup_append]
        refine ⟨h.joined_once, by simp, ?_⟩
        intro j hj k hk
        simp only [mem_singleton] at hk
        rw [hk]
        rintro rfl
        exact hjo.2 hj
      · intro j hj
        rcases mem_append.mp hj with hj | hj
        · exact h.joined_over j hj
        · rw [mem_singleton.mp hj]
          exact ⟨stage, hi, hjo.1⟩
    · simp at hs

theorem Sound.run (h : Sound bodies t) (events : List TaskEvent)
    (hr : t.run bodies events = some t') : Sound bodies t' := by
  induction events generalizing t with
  | nil =>
    cases hr
    exact h
  | cons e events ih =>
    obtain ⟨middle, hs, hr⟩ := bind_eq_some_iff.mp hr
    refine ih ?_ hr
    cases e with
    | advance i weak => exact h.advance hs
    | join i => exact h.join hs

end

/-! ## When every task was joined -/

section

variable {bodies : List BodyEnd} {t : Tasks} {i : Nat}

theorem Sound.over_of_complete (h : Sound bodies t) (hc : t.Complete)
    (hi : t.stages[i]? = some stage) : stage.over = true := by
  have hl := (List.getElem?_eq_some_iff.mp hi).1
  obtain ⟨stage', hs', ho⟩ := h.joined_over i (hc i hl)
  rw [hi] at hs'
  cases hs'
  exact ho

theorem Sound.winner_of_complete (h : Sound bodies t) (hc : t.Complete)
    (hst : Stops bodies i) : t.stopped_seen = true ∧ ∃ w exchange, t.stopped_idx = some w ∧
      t.stages[w]? = some (.Done (some (.Stopped exchange))) ∧
      bodies[w]? = some (.Ended (.Stopped exchange)) := by
  obtain ⟨exchange, hb⟩ := hst
  have hl : i < t.stages.length := by
    rw [h.length]
    exact (List.getElem?_eq_some_iff.mp hb).1
  -- The task of `i` was skipped, or it stopped: the flag is up.
  have hse : t.stopped_seen = true := by
    obtain ⟨stage, hs⟩ : ∃ stage, t.stages[i]? = some stage := ⟨_, getElem?_eq_getElem hl⟩
    have ho := h.over_of_complete hc hs
    have hf := h.fits i stage hs
    match stage with
    | .Done none => exact hf
    | .Done (some (.Stopped _)) => exact hf.2.1
    | .Done (some (.Completed _)) | .Done (some (.Failed _)) | .Dead => simp [Fits, hb] at hf
  refine ⟨hse, ?_⟩
  obtain ⟨w, hw⟩ := isSome_iff_exists.mp (h.counted hse)
  obtain ⟨stage, hs, hwo⟩ := h.winner w hw
  have ho := h.over_of_complete hc hs
  rcases hwo.cases with rfl | ⟨exchange, rfl⟩
  · simp [TaskStage.over] at ho
  · exact ⟨w, exchange, hw, hs, (h.fits w _ hs).1⟩

theorem Sound.not_seen (h : Sound bodies t) (hn : ∀ i, ¬Stops bodies i) :
    t.stopped_seen = false := by
  cases hse : t.stopped_seen with
  | false => rfl
  | true =>
    obtain ⟨w, hw⟩ := isSome_iff_exists.mp (h.counted hse)
    obtain ⟨stage, hs, hwo⟩ := h.winner w hw
    have hf := h.fits w stage hs
    rcases hwo.cases with rfl | ⟨exchange, rfl⟩
    · exact absurd hf.1 (hn w)
    · exact absurd ⟨exchange, hf.1⟩ (hn w)

/-- What the task of a body gives when no body stops. -/
def BodyEnd.outcome : BodyEnd → Option PipelineOutcome
  | .Ended outcome => some outcome
  | .Panicked => none

theorem Sound.given_of_complete (h : Sound bodies t) (hc : t.Complete)
    (hn : ∀ i, ¬Stops bodies i) (i : Nat) :
    t.given i = (bodies[i]?.bind BodyEnd.outcome).map (i, ·) := by
  unfold Tasks.given
  cases hi : t.stages[i]? with
  | none =>
    have hl : bodies.length ≤ i := by
      rw [← h.length]
      exact List.getElem?_eq_none_iff.mp hi
    simp [getElem?_eq_none hl]
  | some stage =>
    have ho := h.over_of_complete hc hi
    have hf := h.fits i stage hi
    match stage with
    | .Done none =>
      rw [Fits, h.not_seen hn] at hf
      simp at hf
    | .Done (some (.Stopped _)) => simp [hf.1, BodyEnd.outcome]
    | .Done (some (.Completed _))
    | .Done (some (.Failed _))
    | .Dead => simp [show bodies[i]? = _ from hf, BodyEnd.outcome]

theorem Sound.joined_perm (h : Sound bodies t) (hc : t.Complete) :
    t.joined.Perm (List.range bodies.length) := by
  rw [perm_ext_iff_of_nodup h.joined_once nodup_range]
  intro i
  rw [List.mem_range, ← h.length]
  constructor
  · intro hi
    obtain ⟨stage, hs, -⟩ := h.joined_over i hi
    exact (List.getElem?_eq_some_iff.mp hs).1
  · exact hc i

end

/-! ## No schedule gets stuck -/

section

variable {bodies : List BodyEnd} {t t' : Tasks} {i : Nat}

theorem Tasks.run_append {events events' : List TaskEvent} (h : t.run bodies events = some t') :
    t.run bodies (events ++ events') = t'.run bodies events' := by
  induction events generalizing t with
  | nil =>
    cases h
    rfl
  | cons e events ih =>
    obtain ⟨middle, hs, hr⟩ := bind_eq_some_iff.mp h
    simp only [cons_append, Tasks.run, hs, bind_some]
    exact ih hr

/-- Task `i` can be brought to its end while the others stand still. -/
def Finishes (bodies : List BodyEnd) (t : Tasks) (i : Nat) : Prop :=
  ∃ events t' stage, t.run bodies events = some t' ∧ t'.stages = t.stages.set i stage ∧
    stage.over = true

theorem Finishes.of_step (stage : TaskStage) (hs : t.advance bodies i false = some t₁)
    (hst : t₁.stages = t.stages.set i stage) (h : Finishes bodies t₁ i) :
    Finishes bodies t i := by
  obtain ⟨events, t', last, hr, hse, ho⟩ := h
  refine ⟨.advance i false :: events, t', last, ?_, ?_, ho⟩
  · simp [Tasks.run, Tasks.step, hs, hr]
  · rw [hse, hst, set_set]

variable {stage : TaskStage}

theorem Finishes.at_once (hs : t.advance bodies i false = some t₁)
    (hst : t₁.stages = t.stages.set i stage) (ho : stage.over = true) :
    Finishes bodies t i :=
  ⟨[.advance i false], t₁, stage, by simp [Tasks.run, Tasks.step, hs], hst, ho⟩

theorem getElem?_moved {old : TaskStage} (hi : t.stages[i]? = some old)
    (hs : t₁.stages = t.stages.set i stage) : t₁.stages[i]? = some stage := by
  have hl := (List.getElem?_eq_some_iff.mp hi).1
  rw [hs]
  simp [hl]

theorem finishes_lowered (hi : t.stages[i]? = some .Lowered) (hs : Stops bodies i) :
    Finishes bodies t i := by
  obtain ⟨exchange, hb⟩ := hs
  exact Finishes.at_once (by simp [Tasks.advance, hi, hb]; rfl) rfl rfl

theorem finishes_loaded_now (hi : t.stages[i]? = some (.Loaded t.stopped_idx))
    (hs : Stops bodies i) : Finishes bodies t i :=
  Finishes.of_step .Lowered (by simp [Tasks.advance, hi]; rfl) rfl
    (finishes_lowered (getElem?_moved hi rfl) hs)

theorem finishes_stopping (hi : t.stages[i]? = some .Stopping) (hs : Stops bodies i) :
    Finishes bodies t i := by
  by_cases hr : reached i t.stopped_idx = true
  · exact Finishes.of_step .Lowered
      (by simp [Tasks.advance, hi, hr]; rfl) rfl
      (finishes_lowered (getElem?_moved hi rfl) hs)
  · exact Finishes.of_step (.Loaded t.stopped_idx)
      (by simp [Tasks.advance, hi, hr]; rfl) rfl
      (finishes_loaded_now (getElem?_moved hi rfl) hs)

theorem finishes_loaded {cur : Option Nat} (hi : t.stages[i]? = some (.Loaded cur))
    (hs : Stops bodies i) : Finishes bodies t i := by
  by_cases hsa : t.stopped_idx = cur
  · rw [← hsa] at hi
    exact finishes_loaded_now hi hs
  · by_cases hr : reached i t.stopped_idx = true
    · exact Finishes.of_step .Lowered
        (by simp [Tasks.advance, hi, hsa, hr]; rfl) rfl
        (finishes_lowered (getElem?_moved hi rfl) hs)
    · exact Finishes.of_step .Stopping
        (by simp [Tasks.advance, hi, hsa, hr]; rfl) rfl
        (finishes_stopping (getElem?_moved hi rfl) hs)

theorem finishes_running (hi : t.stages[i]? = some .Running) (hb : bodies[i]? = some body) :
    Finishes bodies t i := by
  match body with
  | .Panicked | .Ended (.Completed _) | .Ended (.Failed _) =>
    exact Finishes.at_once (by simp [Tasks.advance, hi, hb]; rfl) rfl rfl
  | .Ended (.Stopped exchange) =>
    exact Finishes.of_step .Stopping
      (by simp [Tasks.advance, hi, hb]; rfl) rfl
      (finishes_stopping (getElem?_moved hi rfl) ⟨exchange, hb⟩)

theorem finishes_permitted (hi : t.stages[i]? = some .Permitted) (hb : bodies[i]? = some body) :
    Finishes bodies t i := by
  by_cases hs : t.stopped_seen = true
  · exact Finishes.at_once (by simp [Tasks.advance, hi, hs]; rfl) rfl rfl
  · exact Finishes.of_step .Running
      (by simp [Tasks.advance, hi, hs]; rfl) rfl
      (finishes_running (getElem?_moved hi rfl) hb)

theorem Sound.finishes_holder (h : Sound bodies t) (hi : t.stages[i]? = some stage)
    (hh : stage.holds = true) : Finishes bodies t i := by
  have hl : i < bodies.length := by
    rw [← h.length]
    exact (List.getElem?_eq_some_iff.mp hi).1
  have hb : bodies[i]? = some bodies[i] := getElem?_eq_getElem hl
  have hf := h.fits i stage hi
  cases stage with
  | Permitted => exact finishes_permitted hi hb
  | Running => exact finishes_running hi hb
  | Stopping => exact finishes_stopping hi hf
  | Loaded cur => exact finishes_loaded hi hf.1
  | Lowered => exact finishes_lowered hi hf.1
  | _ => simp [TaskStage.holds] at hh

theorem Sound.finishes_waiting (h : Sound bodies t) (hi : t.stages[i]? = some .Waiting)
    (hn : t.stages.countP TaskStage.holds = 0) : Finishes bodies t i := by
  have hl : i < bodies.length := by
    rw [← h.length]
    exact (List.getElem?_eq_some_iff.mp hi).1
  obtain ⟨permits, hp⟩ := isSome_iff_exists.mp (h.waits i hi)
  have hpo := h.slots_pos permits (by simp [Tasks.slots, hp, hn])
  obtain ⟨rest, rfl⟩ : ∃ rest, permits = rest + 1 := ⟨permits - 1, by omega⟩
  exact Finishes.of_step .Permitted
    (by simp [Tasks.advance, hi, hp]; rfl) rfl
    (finishes_permitted (getElem?_moved hi rfl) (getElem?_eq_getElem hl))

theorem Sound.finishes_spawned (h : Sound bodies t) (hi : t.stages[i]? = some .Spawned)
    (hn : t.stages.countP TaskStage.holds = 0) : Finishes bodies t i := by
  have hl : i < bodies.length := by
    rw [← h.length]
    exact (List.getElem?_eq_some_iff.mp hi).1
  by_cases hs : t.stopped_seen = true
  · exact Finishes.at_once (by simp [Tasks.advance, hi, hs]; rfl) rfl rfl
  · cases hp : t.permits with
    | none =>
      exact Finishes.of_step .Permitted
        (by simp [Tasks.advance, hi, hs, hp]; rfl) rfl
        (finishes_permitted (getElem?_moved hi rfl) (getElem?_eq_getElem hl))
    | some permits =>
      have hst : t.advance bodies i false = some (t.put i .Waiting) := by
        simp [Tasks.advance, hi, hs, hp]
      refine Finishes.of_step _ hst rfl
        ((h.advance hst).finishes_waiting (getElem?_moved hi rfl) ?_)
      rw [← hn]
      exact countP_set_same hi rfl

def Tasks.open (t : Tasks) : Nat := t.stages.countP fun stage => !stage.over

theorem Sound.finishes_one (h : Sound bodies t) (ho : 0 < t.open) :
    ∃ i stage, t.stages[i]? = some stage ∧ stage.over = false ∧ Finishes bodies t i := by
  by_cases hh : 0 < t.stages.countP TaskStage.holds
  · obtain ⟨stage, hm, hho⟩ := countP_pos_iff.mp hh
    obtain ⟨i, hi⟩ := getElem?_of_mem hm
    refine ⟨i, stage, hi, ?_, h.finishes_holder hi hho⟩
    cases stage <;> simp [TaskStage.holds] at hho <;> rfl
  · have hn : t.stages.countP TaskStage.holds = 0 := by omega
    obtain ⟨stage, hm, hov⟩ := countP_pos_iff.mp ho
    obtain ⟨i, hi⟩ := getElem?_of_mem hm
    have hnot : ¬stage.holds = true := countP_eq_zero.mp hn stage hm
    simp only [not_eq_true'] at hov
    refine ⟨i, stage, hi, hov, ?_⟩
    cases stage with
    | Spawned => exact h.finishes_spawned hi hn
    | Waiting => exact h.finishes_waiting hi hn
    | Done _ | Dead => simp [TaskStage.over] at hov
    | _ => simp [TaskStage.holds] at hnot

theorem Sound.all_finish (h : Sound bodies t) :
    ∃ events t', t.run bodies events = some t' ∧ t'.open = 0 := by
  generalize hn : t.open = n
  induction n generalizing t with
  | zero => exact ⟨[], t, rfl, hn⟩
  | succ n ih =>
    obtain ⟨i, stage, hi, ho, events, t₁, stage', hr, hs, ho'⟩ := h.finishes_one (by omega)
    have hl : t₁.open = n := by
      have hc := countP_set_add (a := stage') (fun stage => !stage.over) hi
      simp only [ho, ho', Bool.not_true, Bool.not_false, if_true, false_eq_true, if_false] at hc
      simp only [Tasks.open, hs] at hn ⊢
      omega
    obtain ⟨events', t', hr', hno⟩ := ih (h.run events hr) hl
    exact ⟨events ++ events', t', by rw [Tasks.run_append hr]; exact hr', hno⟩

theorem joins_first (bodies : List BodyEnd) (hn : t.open = 0) (k : Nat) (hk : k ≤ t.stages.length) :
    ∃ events t', t.run bodies events = some t' ∧ t'.stages = t.stages ∧ ∀ i < k, i ∈ t'.joined := by
  induction k with
  | zero => exact ⟨[], t, rfl, rfl, by simp⟩
  | succ k ih =>
    obtain ⟨events, t₁, hr, hs, hj⟩ := ih (by omega)
    by_cases hm : k ∈ t₁.joined
    · refine ⟨events, t₁, hr, hs, ?_⟩
      intro i hi
      by_cases hik : i = k
      · rw [hik]
        exact hm
      · exact hj i (by omega)
    · have hg : t₁.stages[k]? = some t.stages[k] := by
        rw [hs]
        exact getElem?_eq_getElem _
      have ho : t.stages[k].over = true := by
        have := countP_eq_zero.mp hn _ (getElem_mem (by omega : k < t.stages.length))
        simpa using this
      refine ⟨events ++ [.join k], { t₁ with joined := t₁.joined ++ [k] }, ?_, hs, ?_⟩
      · rw [Tasks.run_append hr]
        simp [Tasks.run, Tasks.step, Tasks.join, hg, ho, hm]
      · intro i hi
        by_cases hik : i = k
        · simp [hik]
        · simp [hj i (by omega)]

/-- From every state that a schedule reaches, all tasks can still be joined. -/
theorem Sound.can_complete (h : Sound bodies t) :
    ∃ events t', t.run bodies events = some t' ∧ t'.Complete := by
  obtain ⟨events, t₁, hr, hn⟩ := h.all_finish
  obtain ⟨events', t', hr', hs, hj⟩ := joins_first bodies hn t₁.stages.length le_rfl
  refine ⟨events ++ events', t', by rw [Tasks.run_append hr]; exact hr', ?_⟩
  rw [Tasks.Complete, hs]
  exact hj

end

/-! ## A task that stops before the others begin -/

section

variable {bodies : List BodyEnd} {t t' : Tasks} {i : Nat}

/-- No body runs. -/
def TaskStage.calm : TaskStage → Bool
  | .Spawned | .Waiting | .Permitted | .Done _ | .Dead => true
  | .Running | .Stopping | .Loaded _ | .Lowered => false

/-- The flag is up and no body runs. -/
def Frozen (t : Tasks) : Prop := t.stopped_seen = true ∧ ∀ stage ∈ t.stages, stage.calm = true

theorem Frozen.put (h : Frozen t) (i : Nat) (stage : TaskStage) (hc : stage.calm = true) :
    Frozen (t.put i stage) := by
  refine ⟨h.1, ?_⟩
  intro st hs
  rcases mem_or_eq_of_mem_set hs with hs | rfl
  · exact h.2 st hs
  · exact hc

theorem Frozen.advance (h : Frozen t) {weak : Bool} (hs : t.advance bodies i weak = some t') :
    Frozen t' ∧ t'.stopped_idx = t.stopped_idx := by
  unfold Tasks.advance at hs
  cases hi : t.stages[i]? with
  | none => simp [hi] at hs
  | some stage =>
    have hc := h.2 stage (mem_of_getElem? hi)
    cases stage with
    | Spawned =>
      simp only [hi, h.1, if_true, Option.some.injEq] at hs
      rw [← hs]
      exact ⟨h.put i _ rfl, rfl⟩
    | Waiting =>
      simp only [hi] at hs
      split at hs
      · rename_i permits _
        rw [← some.inj hs]
        exact ⟨⟨h.1, (h.put i .Permitted rfl).2⟩, rfl⟩
      · simp at hs
    | Permitted =>
      simp only [hi, h.1, if_true, Option.some.injEq] at hs
      rw [← hs]
      exact ⟨⟨h.1, (h.put i (.Done none) rfl).2⟩, rfl⟩
    | Done _ | Dead => simp [hi] at hs
    | _ => simp [TaskStage.calm] at hc

theorem Frozen.join (h : Frozen t) (hs : t.join i = some t') :
    Frozen t' ∧ t'.stopped_idx = t.stopped_idx := by
  unfold Tasks.join at hs
  split at hs
  · split at hs
    · rw [← some.inj hs]
      exact ⟨h, rfl⟩
    · simp at hs
  · simp at hs

theorem Frozen.run (h : Frozen t) (events : List TaskEvent)
    (hr : t.run bodies events = some t') : t'.stopped_idx = t.stopped_idx := by
  induction events generalizing t with
  | nil =>
    cases hr
    rfl
  | cons e events ih =>
    obtain ⟨middle, hs, hr⟩ := bind_eq_some_iff.mp hr
    have hm : Frozen middle ∧ middle.stopped_idx = t.stopped_idx := by
      cases e with
      | advance i weak => exact h.advance hs
      | join i => exact h.join hs
    rw [ih hm.1 hr, hm.2]

/-- The tasks as they were spawned, but for task `i`. -/
def Tasks.only (bodies : List BodyEnd) (permits : Option Nat) (i : Nat) (stage : TaskStage) :
    Tasks where
  stopped_seen := false
  stopped_idx := none
  permits := permits
  stages := (List.replicate bodies.length .Spawned).set i stage
  joined := []

theorem permitted_stops_alone (permits : Option Nat)
    (hb : bodies[i]? = some (.Ended (.Stopped exchange))) :
    ∃ events t', (Tasks.only bodies permits i .Permitted).run bodies events = some t' ∧
      Frozen t' ∧ t'.stopped_idx = some i := by
  have hlt := (List.getElem?_eq_some_iff.mp hb).1
  have hg : ∀ stage, (Tasks.only bodies permits i stage).stages[i]? = some stage := by
    intro stage
    simp [Tasks.only, hlt]
  have hp : ∀ stage stage', (Tasks.only bodies permits i stage).put i stage' =
      Tasks.only bodies permits i stage' := by
    intro stage stage'
    simp [Tasks.only, Tasks.put]
  have hu : ∀ stage, (Tasks.only bodies permits i stage).stopped_seen = false := fun _ => rfl
  have hun : ∀ stage, (Tasks.only bodies permits i stage).stopped_idx = none := fun _ => rfl
  have hr : (Tasks.only bodies permits i .Permitted).advance bodies i false =
      some (Tasks.only bodies permits i .Running) := by
    simp [Tasks.advance, hg, hp, hu]
  have he : (Tasks.only bodies permits i .Running).advance bodies i false =
      some (Tasks.only bodies permits i .Stopping) := by
    simp [Tasks.advance, hg, hp, hb]
  have hloa : (Tasks.only bodies permits i .Stopping).advance bodies i false =
      some (Tasks.only bodies permits i (.Loaded none)) := by
    simp [Tasks.advance, hg, hp, hun, reached]
  have hl : (Tasks.only bodies permits i (.Loaded none)).advance bodies i false =
      some { Tasks.only bodies permits i .Lowered with stopped_idx := some i } := by
    simp [Tasks.advance, hg, hp, hun]
  have hlast : { Tasks.only bodies permits i .Lowered with stopped_idx := some i }.advance
      bodies i false = some { Tasks.only bodies (permits.map (· + 1)) i
        (.Done (some (.Stopped exchange))) with stopped_seen := true, stopped_idx := some i } := by
    have hlo : { Tasks.only bodies permits i .Lowered with stopped_idx := some i }.stages[i]? =
        some .Lowered := hg .Lowered
    rw [Tasks.advance, hlo, hb]
    simp [Tasks.only, Tasks.leave, Tasks.put]
  refine ⟨List.replicate 5 (.advance i false), { Tasks.only bodies (permits.map (· + 1)) i
    (.Done (some (.Stopped exchange))) with stopped_seen := true, stopped_idx := some i },
    ?_, ⟨rfl, ?_⟩, rfl⟩
  · simp only [List.replicate, Tasks.run, Tasks.step, hr, he, hloa, hl, bind_some]
    rw [hlast]
    rfl
  · intro stage hs
    rcases mem_or_eq_of_mem_set hs with hs | rfl
    · rw [(mem_replicate.mp hs).2]
      rfl
    · rfl

theorem stops_alone (parallel_limit : Option Nat)
    (hb : bodies[i]? = some (.Ended (.Stopped exchange))) :
    ∃ events t', (Tasks.spawn bodies parallel_limit).run bodies events = some t' ∧
      Frozen t' ∧ t'.stopped_idx = some i := by
  have hl := (List.getElem?_eq_some_iff.mp hb).1
  have hs : (Tasks.spawn bodies parallel_limit).stages[i]? = some .Spawned := by
    simp [Tasks.spawn, hl]
  cases hp : parallel_limit.filter (0 < ·) with
  | none =>
    obtain ⟨events, t', hr, he⟩ := permitted_stops_alone none hb
    refine ⟨.advance i false :: events, t', ?_, he⟩
    have hst : (Tasks.spawn bodies parallel_limit).advance bodies i false =
        some (Tasks.only bodies none i .Permitted) := by
      simp [Tasks.advance, hs]
      simp [Tasks.spawn, hp, Tasks.put, Tasks.only]
    simp only [Tasks.run, Tasks.step, hst, bind_some]
    exact hr
  | some permits =>
    have hpo : 0 < permits := by
      simpa using (filter_eq_some_iff.mp hp).2
    obtain ⟨rest, rfl⟩ : ∃ rest, permits = rest + 1 := ⟨permits - 1, by omega⟩
    obtain ⟨events, t', hr, he⟩ := permitted_stops_alone (some rest) hb
    refine ⟨.advance i false :: .advance i false :: events, t', ?_, he⟩
    have hst : (Tasks.spawn bodies parallel_limit).advance bodies i false =
        some (Tasks.only bodies (some (rest + 1)) i .Waiting) := by
      simp [Tasks.advance, hs]
      simp [Tasks.spawn, hp, Tasks.put, Tasks.only]
    have hpe : (Tasks.only bodies (some (rest + 1)) i .Waiting).advance bodies i false =
        some (Tasks.only bodies (some rest) i .Permitted) := by
      simp [Tasks.advance, Tasks.only, Tasks.put, hl]
    simp only [Tasks.run, Tasks.step, hst, hpe, bind_some]
    exact hr

end

end camel_processor.parallel
