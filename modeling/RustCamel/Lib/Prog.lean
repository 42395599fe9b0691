-- Programs that make atomic calls: their runs alone, the rules that prove
-- things about one program, and the interleavings of many programs over one
-- shared state.
import Mathlib.Data.Fintype.EquivFin
import Mathlib.Data.List.Induction
import Mathlib.Logic.Function.Basic

open List

/-- A program with calls `C`. It is done, or it makes a call and goes on with
the answer. One call is one atomic step. -/
inductive Prog (C : Type) (R : C → Type) (α : Type) where
  | done (a : α)
  | call (c : C) (k : R c → Prog C R α)

/-- What a call can do: the answers and the next states that a state allows. -/
abbrev Sem (C : Type) (R : C → Type) (S : Type) := (c : C) → S → R c → S → Prop

namespace Prog

variable {C : Type} {R : C → Type} {α β S : Type} {p : Prog C R α} {sem : Sem C R S} {s : S} {t : S}

/-! ## Programs one after the other -/

def bind : Prog C R α → (α → Prog C R β) → Prog C R β
  | done a, f => f a
  | call c k, f => call c fun r => (k r).bind f

instance : Monad (Prog C R) where
  pure := done
  bind := bind

/-- The program that makes one call and gives its answer. -/
def ask (c : C) : Prog C R (R c) := call c done

@[simp] theorem pure_eq (a : α) : (pure a : Prog C R α) = done a := rfl

@[simp] theorem done_bind (a : α) (f : α → Prog C R β) : (done a >>= f) = f a := rfl

@[simp] theorem call_bind (c : C) (k : R c → Prog C R α) (f : α → Prog C R β) :
    (call c k >>= f) = call c fun r => k r >>= f := rfl

@[simp] theorem ask_bind (c : C) (f : R c → Prog C R β) : (ask c >>= f) = call c f := rfl

/-! ## One program alone -/

/-- The program runs from one state to the other, and gives the value. -/
def Runs (sem : Sem C R S) : Prog C R α → S → α → S → Prop
  | done a, s, b, t => b = a ∧ t = s
  | call c k, s, b, t => ∃ r u, sem c s r u ∧ Runs sem (k r) u b t

/-- The run against calls that are functions of the state. -/
def eval (f : (c : C) → S → R c × S) : Prog C R α → S → α × S
  | done a, s => (a, s)
  | call c k, s => eval f (k (f c s).1) (f c s).2

@[simp] theorem runs_done {a b : α} : Runs sem (done a) s b t ↔ b = a ∧ t = s := Iff.rfl

@[simp] theorem runs_call {c : C} {k : R c → Prog C R α} {b : α} :
    Runs sem (call c k) s b t ↔ ∃ r u, sem c s r u ∧ Runs sem (k r) u b t := Iff.rfl

theorem runs_bind {f : α → Prog C R β} {b : β} :
    Runs sem (p >>= f) s b t ↔ ∃ a u, Runs sem p s a u ∧ Runs sem (f a) u b t := by
  induction p generalizing s with
  | done a =>
    constructor
    · intro h
      exact ⟨a, s, ⟨rfl, rfl⟩, h⟩
    · rintro ⟨_, _, ⟨rfl, rfl⟩, h⟩
      exact h
  | call c k ih =>
    constructor
    · rintro ⟨r, u, hs, h⟩
      obtain ⟨a, v, hp, hf⟩ := (ih r).mp h
      exact ⟨a, v, ⟨r, u, hs, hp⟩, hf⟩
    · rintro ⟨a, v, ⟨r, u, hs, hp⟩, hf⟩
      exact ⟨r, u, hs, (ih r).mpr ⟨a, v, hp, hf⟩⟩

variable (f : (c : C) → S → R c × S)

@[simp] theorem eval_done (a : α) (s : S) : eval f (done a) s = (a, s) := rfl

@[simp] theorem eval_call (c : C) (k : R c → Prog C R α) (s : S) :
    eval f (call c k) s = eval f (k (f c s).1) (f c s).2 := rfl

theorem eval_bind (p : Prog C R α) (k : α → Prog C R β) (s : S) :
    eval f (p >>= k) s = eval f (k (eval f p s).1) (eval f p s).2 := by
  induction p generalizing s with
  | done a => rfl
  | call c k' ih => exact ih _ _

/-- The semantics allows each call of the evaluation. -/
def Allows (sem : Sem C R S) (f : (c : C) → S → R c × S) : Prog C R α → S → Prop
  | done _, _ => True
  | call c k, s => sem c s (f c s).1 (f c s).2 ∧ Allows sem f (k (f c s).1) (f c s).2

theorem runs_eval_of_allows {f : (c : C) → S → R c × S} (h : Allows sem f p s) :
    Runs sem p s (eval f p s).1 (eval f p s).2 := by
  induction p generalizing s with
  | done a => exact ⟨rfl, rfl⟩
  | call c k ih => exact ⟨_, _, h.1, ih _ h.2⟩

/-- Another semantics allows the evaluation as well, when it allows each such call. -/
theorem Allows.mono {sem' : Sem C R S} {f : (c : C) → S → R c × S}
    (hs : ∀ c s, sem c s (f c s).1 (f c s).2 → sem' c s (f c s).1 (f c s).2)
    (h : Allows sem f p s) : Allows sem' f p s := by
  induction p generalizing s with
  | done a => trivial
  | call c k ih => exact ⟨hs c s h.1, ih _ h.2⟩

instance decidableAllows {sem : Sem C R S} {f : (c : C) → S → R c × S}
    [∀ c s, Decidable (sem c s (f c s).1 (f c s).2)] :
    (p : Prog C R α) → (s : S) → Decidable (Allows sem f p s)
  | done _, _ => inferInstanceAs (Decidable True)
  | call c k, s =>
    have : Decidable (Allows sem f (k (f c s).1) (f c s).2) := decidableAllows _ _
    inferInstanceAs (Decidable (_ ∧ _))

/-- Calls that are functions, and that the semantics allows, give a run. -/
theorem runs_eval {f : (c : C) → S → R c × S} (h : ∀ c s, sem c s (f c s).1 (f c s).2)
    (p : Prog C R α) (s : S) : Runs sem p s (eval f p s).1 (eval f p s).2 := by
  have ha : Allows sem f p s := by
    induction p generalizing s with
    | done a => trivial
    | call c k ih => exact ⟨h c s, ih _ _⟩
  exact runs_eval_of_allows ha

/-! ## The log of a run -/

/-- The calls of a program are such calls, whatever the answers are. -/
def Makes (ok : C → Prop) : Prog C R α → Prop
  | done _ => True
  | call c k => ok c ∧ ∀ r, Makes ok (k r)

theorem Makes.bind {ok : C → Prop} {f : α → Prog C R β} (hp : Makes ok p)
    (hf : ∀ a, Makes ok (f a)) : Makes ok (p >>= f) := by
  induction p with
  | done a => exact hf a
  | call c k ih => exact ⟨hp.1, fun r => ih r (hp.2 r)⟩

theorem Makes.mono {ok ok' : C → Prop} (ho : ∀ c, ok c → ok' c) (hp : Makes ok p) :
    Makes ok' p := by
  induction p with
  | done a => trivial
  | call c k ih => exact ⟨ho c hp.1, fun r => ih r (hp.2 r)⟩

/-- A call that was made, and its answer. -/
structure Entry (C : Type) (R : C → Type) where
  call : C
  answer : R call

/-- Free answers, each of which may look at all that happened before it. The state is the log. -/
def logged (answers : List (Entry C R) → (c : C) → R c) (c : C) (log : List (Entry C R)) :
    R c × List (Entry C R) :=
  (answers log c, log ++ [⟨c, answers log c⟩])

theorem mem_log {ok : C → Prop} (answers : List (Entry C R) → (c : C) → R c) (hp : Makes ok p)
    (log : List (Entry C R)) :
    ∀ entry ∈ (eval (logged answers) p log).2, entry ∈ log ∨ ok entry.call := by
  induction p generalizing log with
  | done a =>
    intro entry h
    exact .inl h
  | call c k ih =>
    intro entry h
    rcases ih _ (hp.2 _) _ entry h with hl | ho
    · rcases mem_append.mp hl with hl | hlast
      · exact .inl hl
      · rw [mem_singleton.mp hlast]
        exact .inr hp.1
    · exact .inr ho

theorem subset_log (answers : List (Entry C R) → (c : C) → R c) (p : Prog C R α)
    (log : List (Entry C R)) : log ⊆ (eval (logged answers) p log).2 := by
  induction p generalizing log with
  | done a => exact List.Subset.refl log
  | call c k ih =>
    intro entry h
    exact ih _ _ (mem_append_left _ h)

/-- The calls of a semantics, with the log of all that were made. -/
def recorded (sem : Sem C R S) : Sem C R (S × List (Entry C R)) :=
  fun c x r y => sem c x.1 r y.1 ∧ y.2 = x.2 ++ [⟨c, r⟩]

/-! ## The rules

A rule says, for each call, what must hold before it so that a property holds
after it. `ofSem` is the rule of a semantics. `ofProtocol` is the rule of a
protocol: the call is allowed, and the property holds after every answer. -/

/-- A rule for the calls, over a state or over a ghost state. -/
abbrev Rule (C : Type) (R : C → Type) (S : Type) := (c : C) → (R c → S → Prop) → S → Prop

def ofSem (sem : Sem C R S) : Rule C R S :=
  fun c Q s => ∀ r t, sem c s r t → Q r t

def ofProtocol (ok : S → C → Prop) (next : S → (c : C) → R c → S) : Rule C R S :=
  fun c Q g => ok g c ∧ ∀ r, Q r (next g c r)

/-- What must hold before a program, so that `Q` holds when it is done. -/
def wp (T : Rule C R S) : Prog C R α → (α → S → Prop) → S → Prop
  | done a, Q, s => Q a s
  | call c k, Q, s => T c (fun r t => wp T (k r) Q t) s

variable (T : Rule C R S)

@[simp] theorem wp_done (a : α) (Q : α → S → Prop) (s : S) : wp T (done a) Q s = Q a s := rfl

@[simp] theorem wp_call (c : C) (k : R c → Prog C R α) (Q : α → S → Prop) (s : S) :
    wp T (call c k) Q s = T c (fun r t => wp T (k r) Q t) s := rfl

theorem wp_bind (p : Prog C R α) (f : α → Prog C R β) (Q : β → S → Prop) (s : S) :
    wp T (p >>= f) Q s = wp T p (fun a t => wp T (f a) Q t) s := by
  induction p generalizing s with
  | done a => rfl
  | call c k ih =>
    rw [call_bind, wp_call, wp_call]
    congr 1
    funext r t
    exact ih r t

theorem wp_ofSem_iff {Q : α → S → Prop} :
    wp (ofSem sem) p Q s ↔ ∀ a t, Runs sem p s a t → Q a t := by
  induction p generalizing s with
  | done a =>
    constructor
    · rintro h b t ⟨rfl, rfl⟩
      exact h
    · intro h
      exact h a s ⟨rfl, rfl⟩
  | call c k ih =>
    constructor
    · rintro h b t ⟨r, u, hs, hr⟩
      exact (ih r).mp (h r u hs) b t hr
    · intro h r u hs
      exact (ih r).mpr fun b t hr => h b t ⟨r, u, hs, hr⟩

/-- A call may have any answer, and the state is the log. -/
def heard : Sem C R (List (Entry C R)) := fun c log r log' => log' = log ++ [⟨c, r⟩]

@[simp] theorem wp_heard_call (c : C) (k : R c → Prog C R α) (Q : α → List (Entry C R) → Prop)
    (log : List (Entry C R)) :
    wp (ofSem heard) (call c k) Q log ↔ ∀ r, wp (ofSem heard) (k r) Q (log ++ [⟨c, r⟩]) := by
  constructor
  · intro h r
    exact h r _ rfl
  · rintro h r t rfl
    exact h r

theorem eval_of_wp_heard {Q : α → List (Entry C R) → Prop} {log : List (Entry C R)}
    (h : wp (ofSem heard) p Q log) (answers : List (Entry C R) → (c : C) → R c) :
    Q (eval (logged answers) p log).1 (eval (logged answers) p log).2 :=
  wp_ofSem_iff.mp h _ _ (runs_eval (fun _ _ => rfl) p log)

/-- A weaker property after every call is enough. -/
def MonoRule : Prop := ∀ c (Q Q' : R c → S → Prop) s, (∀ r t, Q r t → Q' r t) → T c Q s → T c Q' s

theorem mono_ofSem (sem : Sem C R S) : MonoRule (ofSem sem) := by
  intro c Q Q' s hQ h r t hs
  exact hQ r t (h r t hs)

theorem mono_ofProtocol (ok : S → C → Prop) (next : S → (c : C) → R c → S) :
    MonoRule (ofProtocol ok next) := by
  intro c Q Q' s hQ h
  exact ⟨h.1, fun r => hQ _ _ (h.2 r)⟩

theorem wp_mono {T : Rule C R S} (hT : MonoRule T) {Q Q' : α → S → Prop}
    (hQ : ∀ a t, Q a t → Q' a t) (h : wp T p Q s) : wp T p Q' s := by
  induction p generalizing s with
  | done a => exact hQ a s h
  | call c k ih => exact hT c _ _ s (fun r t hr => ih r hr) h

variable {G : Type} {ok : G → C → Prop} {Q : α → G → Prop} {I : G → S → Prop} {g : G}
  {only : C → Prop}

/-- A program with such calls only keeps an invariant of the ghost state, when each of them is
allowed and keeps it. -/
theorem wp_of_makes {next : G → (c : C) → R c → G} {I : G → Prop}
    (ho : ∀ g c, I g → only c → ok g c) (hk : ∀ g c r, I g → only c → I (next g c r))
    (hp : Makes only p) (hg : I g) : wp (ofProtocol ok next) p (fun _ g => I g) g := by
  induction p generalizing g with
  | done a => exact hg
  | call c k ih => exact ⟨ho g c hg hp.1, fun r => ih r (hp.2 r) (hk g c r hg hp.1)⟩

/-- A program with such calls only keeps an invariant of the state, when each of them keeps it. -/
theorem wp_ofSem_of_makes {I : S → Prop} (hk : ∀ s c r t, I s → only c → sem c s r t → I t)
    (hp : Makes only p) (hs : I s) : wp (ofSem sem) p (fun _ t => I t) s := by
  induction p generalizing s with
  | done a => exact hs
  | call c k ih => exact fun r t hr => ih r (hp.2 r) (hk s c r t hs hp.1 hr)

/-- When every call is allowed, nothing is left to show but the result. -/
theorem wp_of_allowed {next : G → (c : C) → R c → G} (ho : ∀ g c, ok g c) (hQ : ∀ a g, Q a g)
    (p : Prog C R α) (g : G) : wp (ofProtocol ok next) p Q g := by
  induction p generalizing g with
  | done a => exact hQ a g
  | call c k ih => exact ⟨ho g c, fun r => ih r _⟩

/-- A program that keeps to a protocol keeps an invariant between the ghost
state and the real state, when each allowed call keeps it. -/
theorem runs_of_protocol {next : G → (c : C) → R c → G}
    (hst : ∀ g c s r t, I g s → ok g c → sem c s r t → I (next g c r) t) {a : α}
    (hp : wp (ofProtocol ok next) p Q g) (hI : I g s) (hr : Runs sem p s a t) :
    ∃ g', Q a g' ∧ I g' t := by
  induction p generalizing g s with
  | done b =>
    obtain ⟨rfl, rfl⟩ := hr
    exact ⟨g, hp, hI⟩
  | call c k ih =>
    obtain ⟨r, u, hs, hr⟩ := hr
    exact ih r (hp.2 r) (hst g c s r u hI hp.1 hs) hr

/-- A program that keeps to a protocol comes to its end, when each allowed call has an answer. -/
theorem exists_runs_of_protocol {next : G → (c : C) → R c → G}
    (hto : ∀ g c s, I g s → ok g c → ∃ r t, sem c s r t ∧ I (next g c r) t)
    (hp : wp (ofProtocol ok next) p Q g) (hI : I g s) :
    ∃ a t g', Runs sem p s a t ∧ Q a g' ∧ I g' t := by
  induction p generalizing g s with
  | done a => exact ⟨a, s, g, ⟨rfl, rfl⟩, hp, hI⟩
  | call c k ih =>
    obtain ⟨r, u, hu, hIu⟩ := hto g c s hI hp.1
    obtain ⟨a, t, g', hr, hQ, ht⟩ := ih r (hp.2 r) hIu
    exact ⟨a, t, g', ⟨r, u, hu, hr⟩, hQ, ht⟩

theorem exists_runs {J : S → Prop} (hto : ∀ c s, J s → ∃ r t, sem c s r t ∧ J t)
    (p : Prog C R α) (hs : J s) : ∃ a t, Runs sem p s a t ∧ J t := by
  have hp : wp (ofProtocol (fun (_ : Unit) (_ : C) => True) fun g _ _ => g) p
      (fun _ _ => True) () :=
    wp_of_allowed (fun _ _ => trivial) (fun _ _ => trivial) p ()
  obtain ⟨a, t, -, hr, -, ht⟩ := exists_runs_of_protocol (fun _ c u hu _ => hto c u hu) hp hs
  exact ⟨a, t, hr, ht⟩

/-- A part of a program that keeps to a protocol, for the rule of a semantics. -/
theorem wp_ofSem_of_protocol {next : G → (c : C) → R c → G}
    (hs : ∀ g c s r t, I g s → ok g c → sem c s r t → I (next g c r) t) {Q' : α → S → Prop}
    (hp : wp (ofProtocol ok next) p Q g) (hI : I g s) (hQ : ∀ a g' t, Q a g' → I g' t → Q' a t) :
    wp (ofSem sem) p Q' s := by
  rw [wp_ofSem_iff]
  intro a t hr
  obtain ⟨g', hQa, hIt⟩ := runs_of_protocol hs hp hI hr
  exact hQ a g' t hQa hIt

/-! ## Programs that can fail -/

variable {ε : Type} (x : ExceptT ε (Prog C R) α)

theorem wp_run_bind (f : α → ExceptT ε (Prog C R) β) (Q : Except ε β → S → Prop) (s : S) :
    wp T (x >>= f).run Q s = wp T x.run (fun r t => match r with
      | .ok a => wp T (f a).run Q t
      | .error e => Q (.error e) t) s := by
  rw [ExceptT.run_bind, wp_bind]
  congr 1
  funext r t
  cases r <;> rfl

@[simp] theorem wp_run_pure (a : α) (Q : Except ε α → S → Prop) (s : S) :
    wp T (pure a : ExceptT ε (Prog C R) α).run Q s = Q (.ok a) s := rfl

theorem wp_run_lift (p : Prog C R α) (Q : Except ε α → S → Prop) (s : S) :
    wp T (ExceptT.lift p : ExceptT ε (Prog C R) α).run Q s = wp T p (fun a t => Q (.ok a) t) s := by
  show wp T (p >>= fun a => done (Except.ok a)) Q s = _
  rw [wp_bind]
  rfl

theorem Makes.run_bind {ok : C → Prop} {x : ExceptT ε (Prog C R) α}
    {f : α → ExceptT ε (Prog C R) β} (hx : Makes ok x.run) (hf : ∀ a, Makes ok (f a).run) :
    Makes ok (x >>= f).run := by
  rw [ExceptT.run_bind]
  apply hx.bind
  intro r
  cases r with
  | ok a => exact hf a
  | error e => trivial

theorem eval_run_bind (g : α → ExceptT ε (Prog C R) β) (s : S) :
    eval f (x >>= g).run s = match eval f x.run s with
      | (.ok a, t) => eval f (g a).run t
      | (.error e, t) => (.error e, t) := by
  rw [ExceptT.run_bind, eval_bind]
  rcases eval f x.run s with ⟨e | a, t⟩ <;> rfl

end Prog

/-! ## Many programs over one state -/

/-- One step of an interleaving: who made the call, the answer, and the state
before and after it. -/
structure CallEvent (ι : Type) (C : Type) (R : C → Type) (S : Type) where
  task : ι
  call : C
  answer : R call
  before : S
  after : S

/-- The interleavings of the programs `P₀` from the state `s₀`. The list holds
the steps, the newest first. The programs and the state are those after them.
A program that is never chosen again stands for one that was dropped. -/
inductive Interleaves {ι C : Type} {R : C → Type} {α S : Type} [DecidableEq ι] (sem : Sem C R S)
    (P₀ : ι → Prog C R α) (s₀ : S) :
    List (CallEvent ι C R S) → (ι → Prog C R α) → S → Prop
  | start : Interleaves sem P₀ s₀ [] P₀ s₀
  | step {h P s t} (i : ι) (c : C) (k : R c → Prog C R α) (r : R c) :
      Interleaves sem P₀ s₀ h P s → P i = .call c k → sem c s r t →
      Interleaves sem P₀ s₀ (⟨i, c, r, s, t⟩ :: h) (Function.update P i (k r)) t

namespace Interleaves

variable {ι C : Type} {R : C → Type} {α S G : Type} [DecidableEq ι] {h : List (CallEvent ι C R S)}
  {sem : Sem C R S} {p : CallEvent ι C R S → List (CallEvent ι C R S) → Prop}
  {f : (c : C) → S → R c × S} {P₀ : ι → Prog C R α} {next : G → (c : C) → R c → G} {s₀ : S}
  {P : ι → Prog C R α} {g₀ : ι → G}

/-- The ghost state of a task after the steps: only its own calls move it. -/
def ghost (next : G → (c : C) → R c → G) (g₀ : ι → G) : List (CallEvent ι C R S) → ι → G
  | [], i => g₀ i
  | e :: h, i => if e.task = i then next (ghost next g₀ h i) e.call e.answer else ghost next g₀ h i

@[simp] theorem ghost_nil (next : G → (c : C) → R c → G) (g₀ : ι → G) (i : ι) :
    ghost next g₀ ([] : List (CallEvent ι C R S)) i = g₀ i := rfl

@[simp] theorem ghost_same (next : G → (c : C) → R c → G) (g₀ : ι → G) (i : ι) (c : C) (r : R c)
    (s t : S) (h : List (CallEvent ι C R S)) :
    ghost next g₀ (⟨i, c, r, s, t⟩ :: h) i = next (ghost next g₀ h i) c r := by
  simp [ghost]

theorem ghost_other (next : G → (c : C) → R c → G) (g₀ : ι → G) {i j : ι} (c : C) (r : R c)
    (s t : S) (h : List (CallEvent ι C R S)) (hij : j ≠ i) :
    ghost next g₀ (⟨j, c, r, s, t⟩ :: h) i = ghost next g₀ h i := by
  simp [ghost, hij]

theorem ghost_subset {A : Type} {collected : G → List A} {out : (c : C) → R c → Option A}
    (hs : ∀ i, collected (g₀ i) = [])
    (hn : ∀ g c r, collected (next g c r) = (out c r).toList ++ collected g)
    (h : List (CallEvent ι C R S)) (i : ι) :
    collected (ghost next g₀ h i) ⊆ h.filterMap fun e => out e.call e.answer := by
  induction h with
  | nil =>
    rw [ghost_nil, hs]
    exact nil_subset _
  | cons e h ih =>
    have hc : (e :: h).filterMap (fun e => out e.call e.answer) =
        (out e.call e.answer).toList ++ h.filterMap fun e => out e.call e.answer := by
      rw [filterMap_cons]
      cases out e.call e.answer <;> rfl
    rw [hc]
    unfold ghost
    split
    · rw [hn]
      intro a ha
      rcases mem_append.mp ha with ha | ha
      · exact mem_append_left _ ha
      · exact mem_append_right _ (ih ha)
    · intro a ha
      exact mem_append_right _ (ih ha)

/-- Programs that keep to a protocol alone keep to it in every interleaving. -/
theorem follows {s : S} {ok : G → C → Prop} {Q : ι → α → G → Prop}
    (hp : ∀ i, Prog.wp (Prog.ofProtocol ok next) (P₀ i) (Q i) (g₀ i))
    (hr : Interleaves sem P₀ s₀ h P s) (i : ι) :
    Prog.wp (Prog.ofProtocol ok next) (P i) (Q i) (ghost next g₀ h i) := by
  induction hr with
  | start => exact hp i
  | @step h P s t j c k r _ hP _ ih =>
    by_cases hj : j = i
    · subst hj
      rw [hP] at ih
      rw [Function.update_self, ghost_same]
      exact ih.2 r
    · rw [Function.update_of_ne (Ne.symm hj), ghost_other _ _ _ _ _ _ _ hj]
      exact ih

/-- Each step of a run, with the steps before it, has the property. -/
def EachStep (p : CallEvent ι C R S → List (CallEvent ι C R S) → Prop) :
    List (CallEvent ι C R S) → Prop
  | [] => True
  | e :: h => p e h ∧ EachStep p h

omit [DecidableEq ι] in
theorem EachStep.of_forall (hp : ∀ e ∈ h, ∀ h', p e h') : EachStep p h := by
  induction h with
  | nil => trivial
  | cons e h ih =>
    exact ⟨hp e mem_cons_self h, ih fun e' he' => hp e' (mem_cons_of_mem e he')⟩

omit [DecidableEq ι] in
theorem EachStep.imp {q : CallEvent ι C R S → List (CallEvent ι C R S) → Prop}
    (hpq : ∀ e h, p e h → q e h) (hp : EachStep p h) : EachStep q h := by
  induction h with
  | nil => trivial
  | cons e h ih => exact ⟨hpq e h hp.1, ih hp.2⟩

omit [DecidableEq ι] in
theorem EachStep.of_mem (hp : EachStep p h) {e : CallEvent ι C R S} (he : e ∈ h) :
    ∃ h', p e h' := by
  induction h with
  | nil => cases he
  | cons e' h ih =>
    rcases mem_cons.mp he with rfl | he
    · exact ⟨h, hp.1⟩
    · exact ih hp.2 he

/-! ## Runs on a schedule -/

/-- The steps so far, the programs and the state. -/
abbrev RunState (ι C : Type) (R : C → Type) (α S : Type) :=
  List (CallEvent ι C R S) × (ι → Prog C R α) × S

/-- The next call of one task, against calls that are functions. -/
def advance (f : (c : C) → S → R c × S) (x : RunState ι C R α S) (i : ι) : RunState ι C R α S :=
  match x.2.1 i with
  | .done _ => x
  | .call c k =>
    (⟨i, c, (f c x.2.2).1, x.2.2, (f c x.2.2).2⟩ :: x.1,
      Function.update x.2.1 i (k (f c x.2.2).1), (f c x.2.2).2)

/-- The semantics allows each call of the schedule. -/
def Allowed (sem : Sem C R S) (f : (c : C) → S → R c × S) : RunState ι C R α S → List ι → Prop
  | _, [] => True
  | x, i :: order =>
    (match x.2.1 i with
      | .done _ => True
      | .call c _ => sem c x.2.2 (f c x.2.2).1 (f c x.2.2).2) ∧
    Allowed sem f (advance f x i) order

variable {x : RunState ι C R α S}

theorem advance_allowed (hr : Interleaves sem P₀ s₀ x.1 x.2.1 x.2.2) (i : ι)
    (h : match x.2.1 i with
      | .done _ => True
      | .call c _ => sem c x.2.2 (f c x.2.2).1 (f c x.2.2).2) :
    Interleaves sem P₀ s₀ (advance f x i).1 (advance f x i).2.1 (advance f x i).2.2 := by
  unfold advance
  split
  · exact hr
  · rename_i c k hP
    rw [hP] at h
    exact .step i c k _ hr hP h

theorem schedule_of_allowed {order : List ι} (hr : Interleaves sem P₀ s₀ x.1 x.2.1 x.2.2)
    (h : Allowed sem f x order) :
    Interleaves sem P₀ s₀ (order.foldl (advance f) x).1 (order.foldl (advance f) x).2.1
      (order.foldl (advance f) x).2.2 := by
  induction order generalizing x with
  | nil => exact hr
  | cons i order ih => exact ih (advance_allowed hr i h.1) h.2

theorem schedule (hf : ∀ c s, sem c s (f c s).1 (f c s).2) (P₀ : ι → Prog C R α) (s₀ : S)
    (order : List ι) :
    Interleaves sem P₀ s₀ (order.foldl (advance f) ([], P₀, s₀)).1
      (order.foldl (advance f) ([], P₀, s₀)).2.1 (order.foldl (advance f) ([], P₀, s₀)).2.2 := by
  have ha : ∀ (order : List ι) (x : RunState ι C R α S), Allowed sem f x order := by
    intro order
    induction order with
    | nil => intro x; trivial
    | cons i order ih =>
      intro x
      refine ⟨?_, ih _⟩
      split
      · trivial
      · exact hf _ _
  exact schedule_of_allowed .start (ha order _)

/-! ## Runs to the end -/

theorem run_task {s t : S} {a : α} (hr : Interleaves sem P₀ s₀ h P s) (i : ι)
    (hru : Prog.Runs sem (P i) s a t) :
    ∃ h', Interleaves sem P₀ s₀ (h' ++ h) (Function.update P i (.done a)) t := by
  generalize hp : P i = p at hru
  induction p generalizing h P s with
  | done b =>
    obtain ⟨rfl, rfl⟩ := hru
    refine ⟨[], ?_⟩
    rw [← hp, Function.update_eq_self]
    exact hr
  | call c k ih =>
    obtain ⟨r, u, hs, hru⟩ := hru
    obtain ⟨h', hr'⟩ := ih r (.step i c k r hr hp hs) (Function.update_self ..) hru
    refine ⟨h' ++ [⟨i, c, r, s, u⟩], ?_⟩
    rw [append_assoc]
    rw [Function.update_idem] at hr'
    exact hr'

/-- Finitely many tasks have a run in which each of them comes to its end. -/
theorem exists_complete [Finite ι] {J : S → Prop} (hto : ∀ c s, J s → ∃ r t, sem c s r t ∧ J t)
    (P₀ : ι → Prog C R α) (hs : J s₀) :
    ∃ h P s, Interleaves sem P₀ s₀ h P s ∧ ∀ i, ∃ a, P i = .done a := by
  have : Fintype ι := Fintype.ofFinite ι
  have hp : ∀ T : Finset ι, ∃ h P s, Interleaves sem P₀ s₀ h P s ∧ J s ∧
      ∀ i ∈ T, ∃ a, P i = .done a := by
    intro T
    induction T using Finset.induction with
    | empty => exact ⟨[], P₀, s₀, .start, hs, by simp⟩
    | insert i T _ ih =>
      obtain ⟨h, P, s, hr, hJ, hd⟩ := ih
      obtain ⟨a, t, hru, ht⟩ := Prog.exists_runs hto (P i) hJ
      obtain ⟨h', hr'⟩ := hr.run_task i hru
      refine ⟨h' ++ h, _, t, hr', ht, ?_⟩
      intro j hj
      by_cases hji : j = i
      · rw [hji, Function.update_self]
        exact ⟨a, rfl⟩
      · rw [Function.update_of_ne hji]
        exact hd j ((Finset.mem_insert.mp hj).resolve_left hji)
  obtain ⟨h, P, s, hr, _, hd⟩ := hp Finset.univ
  exact ⟨h, P, s, hr, fun i => hd i (Finset.mem_univ i)⟩

end Interleaves
