-- The files that a poll takes up and does not emit. Each way out of `poll_one_file` gives the lock
-- back; the ways out behind the idempotency check keep the key that was just recorded.
import RustCamel.File.Confinement
import RustCamel.File.HeldFiles

open Bool

namespace camel_file

open FileTree UnixPath Prog List

variable {w w' : World} {folder : List (Seg Text)} {P q : Place} {n m : Text} {content : Content}
  {config : FileConfig} {filters : CompiledFilters} {file_path base_path : Path}
  {shared shared' : Shared} {lock : FileReadLock}

/-! ## The ways out -/

/-- The rename that gives a lock back comes through. -/
def given_back (file_path : Path) : (c : Call) → Answer c → Prop
  | .rename from_path to_path, answer =>
    from_path = lock_path file_path → to_path = file_path → answer = .ok ()
  | _, _ => True

/-- A system on which every call may fail but the rename that gives the lock of the file back. -/
def giving_back (file_path : Path) : Sem Call Answer World :=
  fun c w answer w' => os (fun _ => True) c w answer w' ∧ given_back file_path c answer

theorem os_of_giving_back {c : Call} {answer : Answer c}
    (h : giving_back file_path c w answer w') : os (fun _ => True) c w answer w' := h.1

theorem noop_of_moves (h : moves config = true) : config.noop = false := by
  unfold moves at h
  rw [and_eq_true, and_eq_true, not_eq_true'] at h
  exact h.1.1

theorem emit_none (h : Runs (giving_back file_path)
      (emit config file_path base_path lock content shared) w (none, shared') w') :
    moves config = true ∧ ∃ w₁, Added w w₁ ∧
      Runs (giving_back file_path) (release lock shared : Prog Call Answer (Option Exchange × Shared))
        w₁ (none, shared') w' := by
  unfold emit at h
  obtain ⟨prepared, w₁, hp, hr⟩ := runs_bind.mp h
  have ha := prepare_move_added (fun _ _ _ _ => os_of_giving_back) hp
  cases prepared with
  | true =>
    obtain ⟨done, w₂, -, hd⟩ := runs_bind.mp hr
    cases hd.1
  | false =>
    have hm := moves_of_not_prepared hp
    dsimp only at hr
    rw [noop_of_moves hm] at hr
    exact ⟨hm, w₁, ha, hr⟩

/-- The shared state once a new key is recorded. -/
def with_key (shared : Shared) (key : Text) : Shared :=
  { shared with idempotent_repo := key :: shared.idempotent_repo }

/-- The key of a file that is moved is recorded before its move is prepared. -/
def Recorded (config : FileConfig) (active_path : Path) (file_name : Text) (content : Content)
    (shared shared' : Shared) : Prop :=
  moves config = true ∧ ∃ key,
    build_idempotent_key config.idempotent_key active_path file_name content = some key ∧
      key ∉ shared.idempotent_repo ∧ shared' = with_key shared key

theorem read_locked_none (lock : FileReadLock) (hac : lock.active_path = entry folder m)
    (hh : Held w.fs folder P m content)
    (h : Runs (giving_back file_path) (read_locked config file_path base_path lock shared) w
      (none, shared') w') :
    ∃ w₁ shared₁, Held w₁.fs folder P m content ∧ Added w w₁ ∧
      Runs (giving_back file_path)
        (release lock shared₁ : Prog Call Answer (Option Exchange × Shared)) w₁ (none, shared') w' ∧
      (shared₁ = shared ∨ FileIn w.fs folder P m content ∧
        Recorded config (entry folder m) (file_path.file_name.getD []) content shared shared₁) := by
  unfold read_locked at h
  rw [hac] at h
  obtain ⟨opened, w₁, ⟨ho, -⟩, elapsed, w₂, ⟨he, -⟩, hres⟩ := h
  obtain rfl : w₂ = w₁ := by
    rcases he with rfl | ⟨-, hn⟩
    · rfl
    · cases hn
  obtain rfl : w₂ = w := by
    rcases ho with ⟨-, rfl⟩ | ⟨-, -, rfl⟩ <;> rfl
  cases elapsed with
  | true => exact ⟨w₂, shared, hh, .refl _, hres, .inl rfl⟩
  | false =>
    cases opened with
    | error fault => exact ⟨w₂, shared, hh, .refl _, hres, .inl rfl⟩
    | ok got =>
      have hrea : w₂.open_read (entry folder m) = .ok got := by
        rcases ho with ⟨hg, -⟩ | ⟨-, hr, -⟩
        · exact hg.symm
        · cases hr
      obtain ⟨rfl, hf⟩ := hh.open_read hrea
      dsimp only at hres
      split at hres
      · obtain ⟨-, w₃, ha, hre⟩ := emit_none hres
        exact ⟨w₃, shared, (hf.added ha).held, ha, hre, .inl rfl⟩
      · rename_i key hk
        split at hres
        · exact ⟨w₂, shared, hh, .refl _, hres, .inl rfl⟩
        · rename_i hne
          obtain ⟨hm, w₃, ha, hre⟩ := emit_none hres
          exact ⟨w₃, with_key shared key, (hf.added ha).held, ha, hre,
            .inr ⟨hf, hm, key, hk, hne, rfl⟩⟩

/-! ## Where a key stays behind -/

section

variable (config : FileConfig)

def active_path (file_path : Path) : Path :=
  match config.read_lock_strategy with
  | .Rename => lock_path file_path
  | .None | .InProcess => file_path

/-- Does the file pass the filters that `poll_one_file` checks? -/
def wanted (filters : CompiledFilters) (file_path base_path : Path) : Bool :=
  passes_name_filters config filters (file_path.file_name.getD []) &&
    outside_move_dir config file_path base_path

/-- The lock of the file can be taken, and the file can be read then. -/
structure Lockable (config : FileConfig) (file_path : Path) (shared : Shared) (w : World) :
    Prop where
  unlocked : config.read_lock_strategy = .InProcess → file_path ∉ shared.in_process_locks
  renamed : config.read_lock_strategy = .Rename → ∃ w', (.ok (), w') = w.rename file_path
    (lock_path file_path) ∧ ∃ content, w'.open_read (lock_path file_path) = .ok content

def key_of (file_path : Path) (content : Content) : Option Text :=
  build_idempotent_key config.idempotent_key (active_path config file_path)
    (file_path.file_name.getD []) content

/-- A new key is recorded for the file ahead of its move. -/
structure Exposed (config : FileConfig) (filters : CompiledFilters) (file_path base_path : Path)
    (shared : Shared) (content : Content) (w : World) : Prop where
  moved : moves config = true
  passed : wanted config filters file_path base_path = true
  lockable : Lockable config file_path shared w
  keyed : ∃ key, key_of config file_path content = some key ∧ key ∉ shared.idempotent_repo

theorem filter_cons_self {α : Type} [DecidableEq α] {a : α} {l : List α} (h : a ∉ l) :
    (a :: l).filter (· ≠ a) = l := by
  rw [filter_cons_of_neg (by simp), filter_eq_self]
  intro b hb
  rw [decide_eq_true_eq]
  rintro rfl
  exact h hb

theorem poll_one_file_cases (filters : CompiledFilters) (file_path base_path : Path)
    (shared : Shared) :
    poll_one_file config filters file_path base_path shared = .done (none, shared) ∨
      wanted config filters file_path base_path = true ∧
        poll_one_file config filters file_path base_path shared =
          lock_and_read config file_path base_path shared := by
  unfold poll_one_file
  split
  · exact .inl rfl
  · rename_i hn
    split
    · exact .inl rfl
    · rename_i ho
      split
      · exact .inl rfl
      · refine .inr ⟨?_, rfl⟩
        unfold wanted
        simpa using And.intro hn ho

end

theorem poll_one_file_eq (hp : wanted config filters file_path base_path = true)
    (hu : config.noop = true → file_path ∉ shared.seen) :
    poll_one_file config filters file_path base_path shared =
      lock_and_read config file_path base_path shared := by
  unfold wanted at hp
  rw [and_eq_true] at hp
  unfold poll_one_file
  rw [hp.1, hp.2, if_neg (by decide), if_neg (by decide), if_neg (by simpa using hu)]

theorem release_renamed (hn : Plain n) (hh : Held w.fs folder P (lock_name n) content)
    (hl : w.fs.tree.is_link (P ++ [n]) = false)
    (h : Runs (giving_back (entry folder n)) (release (.Rename (entry folder n)
      (entry folder (lock_name n))) shared : Prog Call Answer (Option Exchange × Shared)) w
      (none, shared') w') :
    FileIn w'.fs folder P n content ∧ shared' = shared := by
  obtain ⟨answer, w₁, ⟨hr, hg⟩, heq, rfl⟩ := h
  cases heq
  obtain rfl : answer = .ok () := hg (lock_path_entry hn).symm rfl
  rcases hr with hr | ⟨-, hre, -⟩
  · exact ⟨hh.moved_back lock_name_ne.symm hl hr, rfl⟩
  · cases hre

theorem lock_and_read_none (hn : Plain n) (hf : FileIn w.fs folder P n content)
    (h : Runs (giving_back (entry folder n))
      (lock_and_read config (entry folder n) base_path shared) w (none, shared') w') :
    FileIn w'.fs folder P n content ∧
      (shared' = shared ∨ moves config = true ∧ Lockable config (entry folder n) shared w ∧
        ∃ key, key_of config (entry folder n) content = some key ∧
          key ∉ shared.idempotent_repo) := by
  unfold lock_and_read at h
  cases hs : config.read_lock_strategy with
  | None =>
    rw [hs] at h
    obtain ⟨w₁, shared₁, -, ha, ⟨heq, rfl⟩, hsh⟩ := read_locked_none _ rfl hf.held h
    cases heq
    refine ⟨hf.added ha, ?_⟩
    rcases hsh with rfl | ⟨-, hm, key, hk, hne, -⟩
    · exact .inl rfl
    · refine .inr ⟨hm, ⟨?_, ?_⟩, key, ?_, hne⟩
      · rw [hs]
        nofun
      · rw [hs]
        nofun
      · unfold key_of active_path
        rw [hs]
        exact hk
  | InProcess =>
    rw [hs] at h
    dsimp only at h
    split at h
    · obtain ⟨heq, rfl⟩ := h
      cases heq
      exact ⟨hf, .inl rfl⟩
    · rename_i hfr
      obtain ⟨w₁, shared₁, -, ha, ⟨heq, rfl⟩, hsh⟩ := read_locked_none _ rfl hf.held h
      cases heq
      refine ⟨hf.added ha, ?_⟩
      rcases hsh with rfl | ⟨-, hm, key, hk, hne, -⟩
      · refine .inl ?_
        unfold unlock
        dsimp only
        rw [filter_cons_self hfr]
      · refine .inr ⟨hm, ⟨fun _ => hfr, ?_⟩, key, ?_, hne⟩
        · rw [hs]
          nofun
        · unfold key_of active_path
          rw [hs]
          exact hk
  | Rename =>
    rw [hs] at h
    obtain ⟨answer, w₁, ⟨hr, -⟩, hres⟩ := h
    cases answer with
    | error fault =>
      obtain ⟨heq, rfl⟩ := hres
      cases heq
      rcases hr with hr | ⟨-, -, rfl⟩
      · rcases rename_cases hr with ⟨fault, -, rfl⟩ | ⟨p, q, moved, ho, -⟩
        · exact ⟨hf, .inl rfl⟩
        · cases ho
      · exact ⟨hf, .inl rfl⟩
    | ok u =>
      rw [lock_path_entry hn] at hr hres
      have hl : (.ok (), w₁) = w.rename (entry folder n) (entry folder (lock_name n)) := by
        rcases hr with hr | ⟨-, hre, -⟩
        · exact hr
        · cases hre
      have hh := hf.held.moved lock_name_ne hl
      obtain ⟨w₂, shared₂, hh₂, ha, hrel, hsh⟩ :=
        read_locked_none (.Rename (entry folder n) (entry folder (lock_name n))) rfl hh hres
      have hli : w₂.fs.tree.is_link (P ++ [n]) = false := ha.not_link (hf.held.left lock_name_ne hl)
      obtain ⟨hb, rfl⟩ := release_renamed hn hh₂ hli hrel
      refine ⟨hb, ?_⟩
      rcases hsh with rfl | ⟨hrea, hm, key, hk, hne, -⟩
      · exact .inl rfl
      · refine .inr ⟨hm, ⟨?_, ?_⟩, key, ?_, hne⟩
        · rw [hs]
          nofun
        · intro _
          rw [lock_path_entry hn]
          exact ⟨w₁, hl, content, open_read_of_fileIn hrea⟩
        · unfold key_of active_path
          rw [hs]
          dsimp only
          rw [lock_path_entry hn]
          exact hk

theorem poll_one_file_none (hn : Plain n) (hf : FileIn w.fs folder P n content)
    (h : Runs (giving_back (entry folder n))
      (poll_one_file config filters (entry folder n) base_path shared) w (none, shared') w') :
    FileIn w'.fs folder P n content ∧
      (shared' = shared ∨ Exposed config filters (entry folder n) base_path shared content w) := by
  rcases poll_one_file_cases config filters (entry folder n) base_path shared with heq |
    ⟨hp, heq⟩
  · rw [heq] at h
    obtain ⟨hr, rfl⟩ := h
    cases hr
    exact ⟨hf, .inl rfl⟩
  · rw [heq] at h
    obtain ⟨hb, rfl | ⟨hm, hl, hk⟩⟩ := lock_and_read_none hn hf h
    · exact ⟨hb, .inl rfl⟩
    · exact ⟨hb, .inr ⟨hm, hp, hl, hk⟩⟩

/-! ## A run that loses the file -/

theorem prepare_move_can_fail (h : moves config = true) (file_path base_path : Path) (w : World) :
    Runs (giving_back file_path) (prepare_move config base_path) w false w := by
  unfold moves at h
  rw [and_eq_true, and_eq_true, not_eq_true', not_eq_true'] at h
  obtain ⟨⟨hn, hd⟩, hs⟩ := h
  obtain ⟨move_dir, hm⟩ := Option.isSome_iff_exists.mp hs
  unfold prepare_move
  rw [hn, hd, hm]
  by_cases ha : (parse move_dir).is_absolute = true
  · simp only [Bool.or_self, ha, if_true]
    exact ⟨rfl, rfl⟩
  · simp only [Bool.or_self, ha]
    exact ⟨.error .Refused, w, ⟨.inr ⟨trivial, rfl, rfl⟩, trivial⟩, rfl, rfl⟩

theorem emit_can_fail (hm : moves config = true) (content : Content)
    (hr : Runs (giving_back file_path)
      (release lock shared : Prog Call Answer (Option Exchange × Shared)) w (none, shared') w') :
    Runs (giving_back file_path) (emit config file_path base_path lock content shared) w
      (none, shared') w' := by
  unfold emit
  rw [runs_bind]
  refine ⟨false, w, prepare_move_can_fail hm file_path base_path w, ?_⟩
  dsimp only
  rw [noop_of_moves hm]
  exact hr

theorem read_locked_can_fail (lock : FileReadLock) (ha : lock.active_path = entry folder m)
    (hf : FileIn w.fs folder P m content) (hm : moves config = true) {key : Text}
    (hk : build_idempotent_key config.idempotent_key (entry folder m)
      (file_path.file_name.getD []) content = some key)
    (hn : key ∉ shared.idempotent_repo)
    (hr : Runs (giving_back file_path)
      (release lock (with_key shared key) : Prog Call Answer (Option Exchange × Shared)) w
      (none, shared') w') :
    Runs (giving_back file_path) (read_locked config file_path base_path lock shared) w
      (none, shared') w' := by
  unfold read_locked
  rw [ha]
  refine ⟨.ok content, w, ⟨.inl ⟨(open_read_of_fileIn hf).symm, rfl⟩, trivial⟩, ?_⟩
  refine ⟨false, w, ⟨.inl rfl, trivial⟩, ?_⟩
  dsimp only
  rw [hk]
  dsimp only
  rw [if_neg hn]
  exact emit_can_fail hm content hr

/-- Where a key is recorded ahead of the move, some run keeps it and emits nothing. -/
theorem exposed_can_fail (hn : Plain n) (hf : FileIn w.fs folder P n content)
    (h : Exposed config filters (entry folder n) base_path shared content w) :
    ∃ key shared' w', key ∉ shared.idempotent_repo ∧ key ∈ shared'.idempotent_repo ∧
      Runs (giving_back (entry folder n))
        (poll_one_file config filters (entry folder n) base_path shared) w (none, shared') w' := by
  obtain ⟨hm, hp, hl, key, hk, hne⟩ := h
  have hu : config.noop = true → entry folder n ∉ shared.seen := by
    rw [noop_of_moves hm]
    nofun
  rw [poll_one_file_eq hp hu]
  unfold lock_and_read
  unfold key_of active_path at hk
  cases hs : config.read_lock_strategy with
  | None =>
    rw [hs] at hk
    exact ⟨key, _, w, hne, mem_cons_self .., read_locked_can_fail (.None (entry folder n)) rfl
      hf hm hk hne ⟨rfl, rfl⟩⟩
  | InProcess =>
    rw [hs] at hk
    dsimp only
    rw [if_neg (hl.unlocked hs)]
    exact ⟨key, _, w, hne, mem_cons_self ..,
      read_locked_can_fail (.InProcess (entry folder n)) rfl hf hm hk hne ⟨rfl, rfl⟩⟩
  | Rename =>
    rw [hs] at hk
    obtain ⟨w₁, hr, got, ho⟩ := hl.renamed hs
    rw [lock_path_entry hn] at hr ho
    dsimp only at hk
    rw [lock_path_entry hn] at hk
    have hh := hf.held.moved lock_name_ne hr
    obtain ⟨-, hlo⟩ := hh.open_read ho
    have hle : w₁.fs.tree.is_dir (P ++ [n]) = false := by
      unfold Tree.is_dir
      rw [hf.held.left lock_name_ne hr]
      rfl
    obtain ⟨w₂, hb⟩ := rename_entry hlo hle
    refine ⟨key, with_key shared key, w₂, hne, mem_cons_self .., ?_⟩
    dsimp only
    rw [lock_path_entry hn]
    refine ⟨.ok (), w₁, ⟨.inl hr, ?_⟩, ?_⟩
    · intro _ _
      rfl
    · refine read_locked_can_fail (.Rename (entry folder n) (entry folder (lock_name n))) rfl
        hlo hm hk hne ?_
      exact ⟨.ok (), w₂, ⟨.inl hb, fun _ _ => rfl⟩, rfl, rfl⟩

/-! ## A later poll -/

/-- A system on which no step of a poll fails: the file is renamed and opened, in time, and the
move is prepared. -/
structure Works (config : FileConfig) (base_path : Path) (sem : Sem Call Answer World) : Prop where
  real : ∀ c w answer w', sem c w answer w' → os (fun _ => False) c w answer w'
  in_time : ∀ w elapsed w', sem .elapsed w elapsed w' → elapsed = false
  renames : ∀ p p' w answer w', sem (.rename p p') w answer w' → answer = .ok ()
  opens : ∀ p w answer w', sem (.open_read p) w answer w' → ∃ content, answer = .ok content
  prepares : ∀ w prepared w', Runs sem (prepare_move config base_path) w prepared w' →
    prepared = true

/-- Nothing that the polls share speaks against the file. -/
structure Eligible (config : FileConfig) (filters : CompiledFilters) (file_path base_path : Path)
    (shared : Shared) (content : Content) : Prop where
  passed : wanted config filters file_path base_path = true
  unseen : config.noop = true → file_path ∉ shared.seen
  unlocked : config.read_lock_strategy = .InProcess → file_path ∉ shared.in_process_locks
  new_key : ∀ key, key_of config file_path content = some key → key ∉ shared.idempotent_repo

variable {sem : Sem Call Answer World} {result : Option Exchange}

theorem Works.granted (h : Works config base_path sem) {c : Call} {answer : Answer c}
    (hs : sem c w answer w') : granted c w answer w' := by
  rcases h.real c w answer w' hs with hg | ⟨hf, -⟩
  · exact hg
  · cases hf

section

variable (hworks : Works config base_path sem)

include hworks

theorem works_emit
    (h : Runs sem (emit config file_path base_path lock content shared) w (result, shared') w') :
    ∃ exchange, result = some exchange ∧ exchange.body = content := by
  unfold emit at h
  obtain ⟨prepared, w₁, hp, hr⟩ := runs_bind.mp h
  obtain rfl := hworks.prepares w prepared w₁ hp
  obtain ⟨⟨exchange, shared₁⟩, w₂, hf, hd⟩ := runs_bind.mp hr
  cases hd.1
  refine ⟨exchange, rfl, ?_⟩
  unfold finish at hf
  obtain ⟨_, w₃, -, hf⟩ := runs_bind.mp hf
  obtain ⟨_, w₄, -, hf⟩ := runs_bind.mp hf
  cases hf.1
  rfl

theorem works_read_locked (lock : FileReadLock) (ha : lock.active_path = entry folder m)
    (hh : Held w.fs folder P m content)
    (hn : ∀ key, build_idempotent_key config.idempotent_key (entry folder m)
      (file_path.file_name.getD []) content = some key → key ∉ shared.idempotent_repo)
    (h : Runs sem (read_locked config file_path base_path lock shared) w (result, shared') w') :
    ∃ exchange, result = some exchange ∧ exchange.body = content := by
  unfold read_locked at h
  rw [ha] at h
  obtain ⟨opened, w₁, ho, elapsed, w₂, he, hr⟩ := h
  obtain rfl := hworks.in_time w₁ elapsed w₂ he
  obtain ⟨got, rfl⟩ := hworks.opens _ w opened w₁ ho
  obtain ⟨hg, rfl⟩ := hworks.granted ho
  obtain ⟨rfl, -⟩ := hh.open_read hg.symm
  dsimp only at hr
  split at hr
  · exact works_emit hworks hr
  · rename_i key hk
    rw [if_neg (hn key hk)] at hr
    exact works_emit hworks hr

/-- A poll on which no step fails emits every file that nothing speaks against. -/
theorem works_poll_one_file (hn : Plain n) (hf : FileIn w.fs folder P n content)
    (he : Eligible config filters (entry folder n) base_path shared content)
    (h : Runs sem (poll_one_file config filters (entry folder n) base_path shared) w
      (result, shared') w') : ∃ exchange, result = some exchange ∧ exchange.body = content := by
  obtain ⟨hp, hu, hun, hne⟩ := he
  rw [poll_one_file_eq hp hu] at h
  unfold lock_and_read at h
  unfold key_of active_path at hne
  cases hs : config.read_lock_strategy with
  | None =>
    rw [hs] at h hne
    exact works_read_locked hworks (.None (entry folder n)) rfl hf.held hne h
  | InProcess =>
    rw [hs] at h hne
    dsimp only at h
    rw [if_neg (hun hs)] at h
    refine works_read_locked hworks (.InProcess (entry folder n)) rfl hf.held ?_ h
    exact hne
  | Rename =>
    rw [hs] at h hne
    obtain ⟨answer, w₁, hr, hre⟩ := h
    obtain rfl := hworks.renames _ _ w answer w₁ hr
    dsimp only at hne
    rw [lock_path_entry hn] at hr hre hne
    have hh := hf.held.moved lock_name_ne (hworks.granted hr)
    exact works_read_locked hworks (.Rename (entry folder n) (entry folder (lock_name n))) rfl hh
      hne hre

end

/-! ## Files stay consumable -/

/-- A file that a poll does not emit is back under its name with what the polls share as it was,
and a later poll on which no step fails emits it, when nothing spoke against it. -/
def StaysConsumable (config : FileConfig) (filters : CompiledFilters) (file_path base_path : Path)
    (shared : Shared) (content : Content) (w : World) : Prop :=
  ∀ shared' w', Runs (giving_back file_path)
      (poll_one_file config filters file_path base_path shared) w (none, shared') w' →
    FileAt w'.fs file_path content ∧ shared' = shared ∧
      (Eligible config filters file_path base_path shared content →
        ∀ sem v result shared'' v', Works config base_path sem → FileAt v.fs file_path content →
          Runs sem (poll_one_file config filters file_path base_path shared') v
            (result, shared'') v' →
          ∃ exchange, result = some exchange ∧ exchange.body = content)

theorem not_staysConsumable (hf : FileAt w.fs file_path content)
    (he : Exposed config filters file_path base_path shared content w) :
    ¬StaysConsumable config filters file_path base_path shared content w := by
  obtain ⟨folder, n, P, hn, rfl, hf⟩ := hf
  intro hs
  obtain ⟨key, shared', w', hne, hk, hr⟩ := exposed_can_fail hn hf he
  obtain ⟨-, rfl, -⟩ := hs shared' w' hr
  exact hne hk

/-- A file stays consumable whatever step fails, unless its idempotent key is recorded ahead of its
move. -/
theorem stays_consumable_iff (config : FileConfig) (filters : CompiledFilters)
    (file_path base_path : Path) (shared : Shared) (content : Content) (w : World)
    (hfile : FileAt w.fs file_path content) :
    StaysConsumable config filters file_path base_path shared content w ↔
      ¬Exposed config filters file_path base_path shared content w := by
  constructor
  · intro hs he
    exact not_staysConsumable hfile he hs
  · intro hsa shared' w' hr
    obtain ⟨folder, n, P, hn, rfl, hfile⟩ := hfile
    obtain ⟨hb, rfl | he⟩ := poll_one_file_none hn hfile hr
    · refine ⟨⟨folder, n, P, hn, rfl, hb⟩, rfl, ?_⟩
      rintro hel sem v result shared'' v' hworks ⟨folder', n', P', hn', hp, hl⟩ hr'
      rw [hp] at hr' hel
      exact works_poll_one_file hworks hn' hl hel hr'
    · exact absurd he hsa

/-- A system in which `/data` holds one file. -/
def one_file : Fs := ⟨empty_data.tree.put (place ["data", "x.txt"]) (.file ⟨[1], none⟩), []⟩

theorem one_file_at : FileAt one_file (parse "/data/x.txt".toList) ⟨[1], none⟩ := by
  refine ⟨[.root, .name "data".toList], "x.txt".toList, place ["data"], ?_, ?_, ⟨⟨40, ?_⟩, ?_⟩, ?_⟩
  · exact ⟨by decide, by decide, by decide, by decide⟩
  · decide +kernel
  · decide +kernel
  · decide +kernel
  · exact Tree.put_self (p := place ["data"]) (by decide +kernel) (by decide +kernel)

def nothing_shared : Shared := ⟨[], [], []⟩

theorem unkeyed_file_stays_consumable :
    StaysConsumable (accepted "/data") {} (parse "/data/x.txt".toList) (parse "/data".toList)
      nothing_shared ⟨[1], none⟩ ⟨one_file, []⟩ := by
  refine (stays_consumable_iff _ _ _ _ _ _ _ one_file_at).mpr ?_
  rintro ⟨-, -, -, key, hk, -⟩
  cases hk

/-- With a key by name, a move that cannot be prepared leaves the name recorded, and the file is
never emitted. -/
theorem keyed_file_is_lost :
    ¬StaysConsumable { accepted "/data" with idempotent_key := .FileName } {}
      (parse "/data/x.txt".toList) (parse "/data".toList) nothing_shared ⟨[1], none⟩
      ⟨one_file, []⟩ := by
  refine not_staysConsumable one_file_at ⟨rfl, by decide +kernel, ⟨nofun, nofun⟩, ?_⟩
  exact ⟨"x.txt".toList, by decide +kernel, not_mem_nil⟩

end camel_file
