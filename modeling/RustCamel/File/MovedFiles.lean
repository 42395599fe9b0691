-- Polls that move their files. Every file goes to the same directory under its last name alone, so
-- two files of one poll survive side by side when their last names differ.
import RustCamel.File.Scanning
import RustCamel.File.UnemittedFiles

namespace camel_file

variable {q : Place} {B : Place}

open FileTree UnixPath Prog List Option

variable {w w' w'' : World} {p q : Place} {content : Content}

/-! ## What a step touches -/

/-- The step changes what stands at the places `S` at most, it puts new files at the places `F`
at most, and it makes no links. -/
structure Touches (S F : Place → Prop) (w w' : World) : Prop where
  cwd : w'.fs.cwd = w.fs.cwd
  kept : ∀ q, ¬S q → (w.fs.tree.node q).isSome → w'.fs.tree.node q = w.fs.tree.node q
  files : ∀ q, ¬F q → w'.fs.tree.is_file q → w'.fs.tree.node q = w.fs.tree.node q
  links : ∀ q, w'.fs.tree.is_link q → w.fs.tree.is_link q

variable {S F S' F' : Place → Prop}

theorem Touches.refl (S F : Place → Prop) (w : World) : Touches S F w w :=
  ⟨rfl, fun _ _ _ => rfl, fun _ _ _ => rfl, fun _ h => h⟩

theorem Touches.trans (h : Touches S F w w') (h' : Touches S F w' w'') : Touches S F w w'' := by
  refine ⟨h'.cwd.trans h.cwd, ?_, ?_, fun q hq => h.links q (h'.links q hq)⟩
  · intro q hS hs
    have hn := h.kept q hS hs
    rw [h'.kept q hS (by rw [hn]; exact hs), hn]
  · intro q hF hf
    have hn := h'.files q hF hf
    rw [hn, h.files q hF (by unfold Tree.is_file at hf ⊢; rw [← hn]; exact hf)]

theorem Touches.mono (h : Touches S F w w') (hS : ∀ q, S q → S' q) (hF : ∀ q, F q → F' q) :
    Touches S' F' w w' :=
  ⟨h.cwd, fun q hq => h.kept q fun hq' => hq (hS q hq'),
    fun q hq => h.files q fun hq' => hq (hF q hq'), h.links⟩

theorem Touches.followed (h : Touches S F w w') (h' : Touches S F' w' w'') :
    Touches S (fun q => F q ∨ F' q) w w'' :=
  (h.mono (fun _ hq => hq) fun _ hq => .inl hq).trans
    (h'.mono (fun _ hq => hq) fun _ hq => .inr hq)

theorem touches_erase (places : List Place) (hS : S q) :
    Touches S F w (w.with_tree (w.fs.tree.erase q) places) := by
  refine ⟨rfl, ?_, ?_, fun r hr => Tree.Keeps.link Tree.keeps_before_erase hr⟩
  · intro r hr _
    exact Tree.erase_other fun heq => hr (heq ▸ hS)
  · intro r _ hf
    by_cases hr : r = q
    · subst hr
      obtain ⟨content, hn⟩ := Tree.is_file_iff.mp hf
      have hs : (w.fs.tree.erase r).node r = some (.file content) := hn
      rw [Tree.erase_same] at hs
      split at hs
      · rw [is_dir_of_file hs] at *
        contradiction
      · cases hs
    · exact Tree.erase_other hr

theorem touches_put (places : List Place) (hS : S q) (hF : F q) :
    Touches S F w (w.with_tree (w.fs.tree.put q (.file content)) places) := by
  refine ⟨rfl, ?_, ?_, fun r hr => Tree.Keeps.link Tree.keeps_before_put hr⟩
  · intro r hr _
    exact Tree.put_other fun heq => hr (heq ▸ hS)
  · intro r hr _
    exact Tree.put_other fun heq => hr (heq ▸ hF)

theorem touches_move (places : List Place) (hp : S p) (hq : S q) (hF : F q) :
    Touches S F w (w.with_tree ((w.fs.tree.erase p).put q (.file content)) places) := by
  have he : Touches S F w (w.with_tree (w.fs.tree.erase p) []) := touches_erase [] hp
  have hpu : Touches S F (w.with_tree (w.fs.tree.erase p) [])
      ((w.with_tree (w.fs.tree.erase p) []).with_tree
        ((w.fs.tree.erase p).put q (.file content)) places) := touches_put places hq hF
  have hb := he.trans hpu
  exact ⟨rfl, hb.kept, hb.files, hb.links⟩

theorem touches_added (h : Added w w') : Touches S F w w' := by
  refine ⟨h.1, fun q _ hs => h.2.same q hs, ?_, fun q hq => h.2.is_link hq⟩
  intro q _ hf
  cases hn : w.fs.tree.node q with
  | some node =>
    rw [h.2.same q (by rw [hn]; rfl)]
    exact hn
  | none =>
    obtain ⟨content, hn'⟩ := Tree.is_file_iff.mp hf
    rcases h.2.fresh q hn with hfr | hd
    · rw [hfr] at hn'
      cases hn'
    · rw [hd] at hn'
      cases hn'

/-! ## What a poll cannot lose sight of -/

variable {base : List (Seg Text)} {B : Place} {start : Fs} {folder : List (Seg Text)}
  {as_dir : Bool} {config : FileConfig} {dirs : List Text} {n : Text} {fs : Fs} {base_path : Path}

/-- The endpoint path leads to `B` or nowhere, and every link was there at the start. -/
structure Steady (start : Fs) (base : List (Seg Text)) (B : Place) (w : World) : Prop where
  cwd : w.fs.cwd = start.cwd
  links : ∀ q, w.fs.tree.is_link q → start.tree.is_link q
  only : ∀ Q, Rooted w.fs base Q → Q = B

section

variable (h : Steady start base B w)

include h

theorem Steady.of_keeps (ht : Touches S F w w') (hk : Tree.Keeps w'.fs.tree w.fs.tree) :
    Steady start base B w' := by
  refine ⟨ht.cwd.trans h.cwd, fun q hq => h.links q (ht.links q hq), ?_⟩
  intro Q hQ
  exact h.only Q (hQ.keeps ht.cwd.symm hk)

theorem Steady.added (ha : Added w w') (hth : There w.fs base) : Steady start base B w' := by
  have ht : Touches (fun _ => False) (fun _ => False) w w' := touches_added ha
  refine ⟨ht.cwd.trans h.cwd, fun q hq => h.links q (ht.links q hq), ?_⟩
  intro Q hQ
  exact h.only Q (rooted_of_there hth hQ ha.1 ha.2)

theorem Steady.only_below
    (hd : ∀ i < dirs.length, start.tree.is_link (B ++ dirs.take (i + 1)) = false) {Q : Place}
    (hQ : Rooted w.fs (base ++ dirs.map .name) Q) : Q = B ++ dirs := by
  obtain ⟨⟨left, hw⟩, hdi⟩ := hQ
  obtain ⟨B', middle, hb, hn⟩ := Tree.walk_of_append hw
  have hB' : w.fs.tree.is_dir B' := by
    cases dirs with
    | nil =>
      rw [map_nil, Tree.walk_nil] at hn
      cases hn
      exact hdi
    | cons n dirs =>
      cases hc : w.fs.tree.is_dir B' with
      | true => rfl
      | false =>
        rw [map_cons, Tree.walk_not_dir hc] at hn
        cases hn
  obtain rfl := h.only B' ⟨⟨middle, hb⟩, hB'⟩
  refine (Tree.walk_names ?_ hn).1
  intro i hi
  cases hc : w.fs.tree.is_link (B' ++ dirs.take (i + 1)) with
  | false => rfl
  | true =>
    have hl := h.links _ hc
    rw [hd i hi] at hl
    cases hl

end

/-! ## Markers in the directory of a file -/

/-- A text without a slash that leads from a directory to something else than a directory is the
name of an entry. -/
theorem entry_of_spot {text : Text} (hsl : '/' ∉ text)
    (hsp : fs.spot (Path.join ⟨folder, as_dir⟩ (parse text)) = .ok q)
    (hd : fs.tree.is_dir q = false) : ∃ Q, Rooted fs folder Q ∧ q = Q ++ [text] := by
  by_cases hp : text = [] ∨ text = ['.'] ∨ text = ['.', '.']
  · -- such a path leads to a directory
    exfalso
    have hs : ∃ init seg, (Path.join ⟨folder, as_dir⟩ (parse text)).segs = init ++ [seg] ∧
        ∀ n, seg ≠ .name n := by
      by_cases hf : folder = []
      · subst hf
        rw [Path.join_of_empty rfl]
        rcases hp with rfl | rfl | rfl
        · exfalso
          rw [Path.join_of_empty rfl] at hsp
          cases hsp
        · exact ⟨[.here], .here, rfl, by simp⟩
        · exact ⟨[], .up, rfl, by simp⟩
      · rcases hp with rfl | rfl | rfl
        · have hn : parse [] = ⟨[], false⟩ := by decide
          rw [Path.join_eq hf rfl, hn]
          exact ⟨folder, .here, by simp [Path.segs, Path.below], by simp⟩
        · have hh : parse ['.'] = ⟨[.here], true⟩ := by decide
          rw [Path.join_eq hf rfl, hh]
          exact ⟨folder, .here, by simp [Path.segs, Path.below], by simp⟩
        · have hu : parse ['.', '.'] = ⟨[.up], false⟩ := by decide
          rw [Path.join_eq hf rfl, hu]
          exact ⟨folder, .up, by simp [Path.segs, Path.below], by simp⟩
    obtain ⟨init, seg, hse, hseg⟩ := hs
    obtain ⟨init', n, -, -, hpa, -⟩ := Tree.spot_not_dir hsp hd
    rw [hse] at hpa
    have hlast := congrArg List.getLast? hpa
    rw [getLast?_concat, getLast?_concat] at hlast
    exact hseg n (some.inj hlast)
  · rw [not_or, not_or] at hp
    have hna : Plain text := ⟨hsl, hp.1, hp.2.1, hp.2.2⟩
    rw [hna.join_eq] at hsp
    exact rooted_of_spot hsp

/-- What stands in the directory. -/
def Inside (P q : Place) : Prop := ∃ m, q = P ++ [m]

theorem remove_marker {P : Place} {text : Text} {answer : Except Fault Unit} (hs : '/' ∉ text)
    (hst : Steady start base B w) (ho : ∀ Q, Rooted w.fs folder Q → Q = P)
    (h : (answer, w') = w.remove_file (Path.join ⟨folder, as_dir⟩ (parse text))) :
    Touches (Inside P) F w w' ∧ Steady start base B w' := by
  rcases remove_file_cases h with ⟨fault, -, rfl⟩ | ⟨q, -, hsp, hd, rfl⟩
  · exact ⟨.refl _ _ _, hst⟩
  · obtain ⟨Q, hQ, rfl⟩ := entry_of_spot hs hsp hd
    obtain rfl := ho Q hQ
    have ht : Touches (Inside Q) F w
        (w.with_tree (w.fs.tree.erase (Q ++ [text])) [Q ++ [text]]) := touches_erase _ ⟨text, rfl⟩
    exact ⟨ht, hst.of_keeps ht Tree.keeps_before_erase⟩

/-! ## One file and its move -/

/-- An endpoint that moves its files into a directory below it and keeps its markers next to them. -/
structure Moving (config : FileConfig) (base_path : Path) (names : List Text) : Prop where
  noop : config.noop = false
  delete : config.delete = false
  target : ∃ move_dir, config.move_to = some move_dir ∧ (parse move_dir).is_absolute = false ∧
    (parse move_dir).below = names.map .name
  base : base_path.components ≠ []
  marker : ∀ pattern, config.done_file_name = some pattern → '/' ∉ pattern

theorem Moving.move_dir {config : FileConfig} {base_path : Path} {names : List Text}
    (h : Moving config base_path names) :
    ∃ move_dir, config.move_to = some move_dir ∧ (parse move_dir).is_absolute = false ∧
      (base_path.join (parse move_dir)).components = base_path.components ++ names.map .name := by
  obtain ⟨move_dir, hm, ha, hb⟩ := h.target
  refine ⟨move_dir, hm, ha, ?_⟩
  rw [components_join h.base ha, hb]

theorem outside_iff {names : List Text} (h : Moving config base_path names) (ns : List Text) :
    outside_move_dir config (path_below base_path.components ns) base_path = true ↔
      ¬names <+: ns := by
  obtain ⟨move_dir, hm, -, hc⟩ := h.move_dir
  have hp : (base_path.components ++ names.map Seg.name).isPrefixOf
      (base_path.components ++ ns.map Seg.name) = true ↔ names <+: ns := by
    rw [List.isPrefixOf_iff_prefix, prefix_append_right_inj]
    constructor
    · intro hma
      obtain ⟨k, hk⟩ : ∃ k, names.map Seg.name = (ns.map Seg.name).take k :=
        ⟨_, prefix_iff_eq_take.mp hma⟩
      rw [← map_take] at hk
      have hn : names = ns.take k := by
        refine map_injective_iff.mpr ?_ hk
        intro a b hab
        cases hab
        rfl
      rw [hn]
      exact List.take_prefix k ns
    · intro hn
      exact hn.map _
  unfold outside_move_dir
  rw [hm]
  simp only [all_some, Bool.not_eq_true', Path.starts_with, path_below]
  rw [hc, ← Bool.not_eq_true, hp]

/-- A file aside from the move directory, with no link on the way to either of them. -/
structure Aside (start : Fs) (B : Place) (names dirs : List Text) (n : Text) : Prop where
  plain : Plain n
  outside : ¬names <+: dirs ++ [n]
  dirs_clear : ∀ i < dirs.length, start.tree.is_link (B ++ dirs.take (i + 1)) = false
  names_clear : ∀ i < names.length, start.tree.is_link (B ++ names.take (i + 1)) = false

theorem Aside.ne {names : List Text} (h : Aside start B names dirs n) : dirs ≠ names := by
  rintro rfl
  exact h.outside (prefix_append _ _)

/-- No place in the directory of the file is a place in the move directory. -/
theorem Aside.not_inside {names : List Text} {k : Text} (h : Aside start B names dirs n) :
    ¬Inside (B ++ dirs) (B ++ names ++ [k]) := by
  rintro ⟨m, heq⟩
  rw [append_assoc, append_assoc, append_cancel_left_eq] at heq
  have hi := congrArg List.dropLast heq
  rw [dropLast_concat, dropLast_concat] at hi
  exact h.ne hi.symm

variable {exchange : Exchange} {path : Path} {e : Path × Exchange} {places : List Place}
  {paths : List Path} {dirs' : List Text} {n' : Text} {filters : CompiledFilters} {shared : Shared}
  {poll : Poll}

theorem Aside.apart {names : List Text} (h : Aside start B names dirs n) (m : Text) :
    B ++ dirs ++ [m] ≠ B ++ names ++ [n] := by
  intro heq
  exact h.not_inside ⟨m, heq.symm⟩

section

variable {config : FileConfig} {base_path : Path} {names dirs : List Text} {n m : Text}
  {sem : Sem Call Answer World} {shared shared' : Shared} {lock : FileReadLock}
  {result : Option Exchange} {key : Option Text}

/-- The places that the poll of one file touches. -/
def Around (B : Place) (names dirs : List Text) (n : Text) (q : Place) : Prop :=
  Inside (B ++ dirs) q ∨ q = B ++ names ++ [n]

/-- A file has gone from the name `m` in its directory to the name `n` in the move directory. -/
structure Moved (start : Fs) (base : List (Seg Text)) (B : Place) (names dirs : List Text)
    (n m : Text) (content : Content) (w w' : World) : Prop where
  touches : Touches (Around B names dirs n) (· = B ++ names ++ [n]) w w'
  steady : Steady start base B w'
  there : w'.fs.tree.node (B ++ names ++ [n]) = some (.file content)
  gone : w'.fs.tree.is_file (B ++ dirs ++ [m]) = false

theorem is_file_of_none (h : w.fs.tree.node q = none) : w.fs.tree.is_file q = false := by
  unfold Tree.is_file
  rw [h]
  rfl

theorem Steady.held (hs : Steady start base B w) (ha : Aside start B names dirs n)
    (hn : w.fs.tree.node (B ++ dirs ++ [m]) = some (.file content)) :
    Held w.fs (base ++ dirs.map .name) (B ++ dirs) m content :=
  ⟨fun _ hQ => hs.only_below ha.dirs_clear hQ, hn⟩

theorem Touches.sharpen (h : Touches S F w w')
    (hF : ∀ q, F q → F' q ∨ w'.fs.tree.is_file q = false) :
    Touches S F' w w' := by
  refine ⟨h.cwd, h.kept, ?_, h.links⟩
  intro q hq hf
  refine h.files q ?_ hf
  intro hFq
  rcases hF q hFq with hF' | hn
  · exact hq hF'
  · rw [hn] at hf
    cases hf

/-- The shared state with the key of a file, if it has one. -/
def recorded (key : Option Text) (shared : Shared) : Shared :=
  match key with
  | none => shared
  | some key => with_key shared key

/-- What the poll of one file has done: it has touched its own directory and its target, the locks
are what they were, and a file that is emitted is in the move directory. -/
structure Polled (config : FileConfig) (base_path : Path) (start : Fs) (B : Place)
    (names dirs : List Text) (n : Text) (shared shared' : Shared) (result : Option Exchange)
    (w w' : World) : Prop where
  touches : Touches
    (fun q => Inside (B ++ dirs) q ∨ result.isSome = true ∧ q = B ++ names ++ [n])
    (fun q => q = B ++ dirs ++ [n] ∨ q = B ++ names ++ [n]) w w'
  steady : Steady start base_path.components B w'
  locks : shared'.in_process_locks = shared.in_process_locks
  keys : shared.idempotent_repo ⊆ shared'.idempotent_repo
  moved : ∀ exchange, result = some exchange →
    w.fs.tree.node (B ++ dirs ++ [n]) = some (.file exchange.body) ∧
      w'.fs.tree.node (B ++ names ++ [n]) = some (.file exchange.body) ∧
      (config.read_lock_strategy = .InProcess →
        path_below base_path.components (dirs ++ [n]) ∉ shared.in_process_locks) ∧
      ∀ key, key_of config (path_below base_path.components (dirs ++ [n])) exchange.body = some key →
        key ∉ shared.idempotent_repo ∧ key ∈ shared'.idempotent_repo

theorem Polled.nothing (hs : Steady start base_path.components B w) :
    Polled config base_path start B names dirs n shared shared none w w :=
  ⟨.refl _ _ _, hs, rfl, fun _ h => h, nofun⟩

theorem recorded_locks (key : Option Text) (shared : Shared) :
    (recorded key shared).in_process_locks = shared.in_process_locks := by
  cases key <;> rfl

theorem recorded_keys (key : Option Text) (shared : Shared) :
    shared.idempotent_repo ⊆ (recorded key shared).idempotent_repo := by
  cases key with
  | none => exact fun _ h => h
  | some text => exact subset_cons_self text shared.idempotent_repo

theorem mem_recorded (key : Text) (shared : Shared) :
    key ∈ (recorded (some key) shared).idempotent_repo := mem_cons_self ..

theorem unlock_locked (h : path ∉ shared.in_process_locks) (key : Option Text) :
    unlock (.InProcess path) (recorded key
      { shared with in_process_locks := path :: shared.in_process_locks }) =
      recorded key shared := by
  cases key with
  | none =>
    show { shared with in_process_locks := (path :: shared.in_process_locks).filter (· ≠ path) } =
      shared
    rw [filter_cons_self h]
  | some text =>
    show with_key { shared with in_process_locks :=
      (path :: shared.in_process_locks).filter (· ≠ path) } text = with_key shared text
    rw [filter_cons_self h]

theorem polled_of_moved
    (ha : active_path config (path_below base_path.components (dirs ++ [n])) =
      entry (base_path.components ++ dirs.map .name) m)
    (hk : build_idempotent_key config.idempotent_key
      (entry (base_path.components ++ dirs.map .name) m) n exchange.body = key)
    (hne : ∀ text, key = some text → text ∉ shared.idempotent_repo)
    (hu : config.read_lock_strategy = .InProcess →
      path_below base_path.components (dirs ++ [n]) ∉ shared.in_process_locks)
    (hn : w.fs.tree.node (B ++ dirs ++ [n]) = some (.file exchange.body))
    (ht : Touches (Around B names dirs n)
      (fun q => q = B ++ dirs ++ [n] ∨ q = B ++ names ++ [n]) w w')
    (hs : Steady start base_path.components B w')
    (hth : w'.fs.tree.node (B ++ names ++ [n]) = some (.file exchange.body)) :
    Polled config base_path start B names dirs n shared (recorded key shared) (some exchange) w
      w' := by
  have hso : Touches
      (fun q => Inside (B ++ dirs) q ∨ (some exchange).isSome = true ∧ q = B ++ names ++ [n])
      (fun q => q = B ++ dirs ++ [n] ∨ q = B ++ names ++ [n]) w w' := by
    refine ht.mono ?_ fun _ hq => hq
    rintro q (hq | hq)
    · exact .inl hq
    · exact .inr ⟨rfl, hq⟩
  refine ⟨hso, hs, recorded_locks _ _, recorded_keys _ _, ?_⟩
  intro exchange' he
  cases he
  refine ⟨hn, hth, hu, ?_⟩
  intro text hte
  unfold key_of at hte
  rw [ha, path_below_snoc, file_name_entry, getD_some, hk] at hte
  subst hte
  exact ⟨hne text rfl, mem_recorded text shared⟩

/-! ## The poll of one file -/

section

variable (hworks : Works config base_path sem) (hmoving : Moving config base_path names)
  (haside : Aside start B names dirs n) (hsteady : Steady start base_path.components B w)

include haside hsteady

theorem rename_moves (hn : w.fs.tree.node (B ++ dirs ++ [m]) = some (.file content))
    (h : (.ok (), w') = w.rename (entry (base_path.components ++ dirs.map .name) m) (entry
      (base_path.components ++ names.map .name) n)) :
    Moved start base_path.components B names dirs n m content w w' := by
  rcases rename_cases h with ⟨fault, hf, -⟩ | ⟨p, q, moved, -, hp, hq, hm, -, hd, rfl⟩
  · cases hf
  · have hh := hsteady.held haside hn
    obtain ⟨-, rfl⟩ := hh.spot hp
    obtain ⟨M, hM, rfl⟩ := rooted_of_spot hq
    obtain rfl := hsteady.only_below haside.names_clear hM
    obtain rfl := some.inj (hm.symm.trans hn)
    have hne := haside.apart m
    rw [if_neg hne]
    have ht : Touches (Around B names dirs n) (· = B ++ names ++ [n]) w (w.with_tree
        ((w.fs.tree.erase (B ++ dirs ++ [m])).put (B ++ names ++ [n]) (.file content))
        [B ++ dirs ++ [m], B ++ names ++ [n]]) :=
      touches_move _ (.inl ⟨m, rfl⟩) (.inr rfl) rfl
    refine ⟨ht, hsteady.of_keeps ht ?_, ?_, ?_⟩
    · exact Tree.keeps_before_put.trans Tree.keeps_before_erase
    · have hpa : B ++ names ≠ B ++ dirs ++ [m] := by
        intro heq
        have hfi := is_dir_of_file hn
        rw [← heq, hM.2] at hfi
        cases hfi
      show ((w.fs.tree.erase (B ++ dirs ++ [m])).put (B ++ names ++ [n]) (.file content)).node
        (B ++ names ++ [n]) = some (.file content)
      apply Tree.put_self
      · unfold Tree.is_dir
        rw [Tree.erase_other hpa]
        exact hM.2
      · unfold Tree.is_dir
        rw [Tree.erase_other hne.symm]
        exact hd
    · apply is_file_of_none
      show ((w.fs.tree.erase (B ++ dirs ++ [m])).put (B ++ names ++ [n]) (.file content)).node
        (B ++ dirs ++ [m]) = none
      rw [Tree.put_other hne]
      exact Tree.erase_self (is_dir_of_file hn)

theorem lock_steady {a b : Text} (hne : a ≠ b)
    (hn : w.fs.tree.node (B ++ dirs ++ [a]) = some (.file content))
    (h : (.ok (), w') = w.rename (entry (base_path.components ++ dirs.map .name) a) (entry
      (base_path.components ++ dirs.map .name) b)) :
    Touches (Inside (B ++ dirs)) (· = B ++ dirs ++ [b]) w w' ∧
      Steady start base_path.components B w' ∧
      w'.fs.tree.node (B ++ dirs ++ [b]) = some (.file content) ∧
      w'.fs.tree.node (B ++ dirs ++ [a]) = none := by
  have hh := hsteady.held haside hn
  have hm := (hh.moved hne h).node
  have hl := hh.left hne h
  obtain ⟨-, -, rfl⟩ := move_entry hh hne h
  have ht : Touches (Inside (B ++ dirs)) (· = B ++ dirs ++ [b]) w (w.with_tree
      ((w.fs.tree.erase (B ++ dirs ++ [a])).put (B ++ dirs ++ [b]) (.file content))
      [B ++ dirs ++ [a], B ++ dirs ++ [b]]) :=
    touches_move _ ⟨a, rfl⟩ ⟨b, rfl⟩ rfl
  exact ⟨ht, hsteady.of_keeps ht
    (Tree.keeps_before_put.trans Tree.keeps_before_erase), hm, hl⟩

include hworks

theorem file_of_locked (hl : w.fs.tree.is_link (B ++ dirs ++ [n]) = false)
    (h : Runs sem (lock_and_read config (entry (base_path.components ++ dirs.map .name) n) base_path
      shared) w (result, shared') w') :
    (∃ content, w.fs.tree.node (B ++ dirs ++ [n]) = some (.file content)) ∨
      result = none ∧ shared' = shared ∧ w' = w := by
  have ho : ∀ answer w₁,
      sem (.open_read (entry (base_path.components ++ dirs.map .name) n)) w answer w₁ →
      ∃ content, w.fs.tree.node (B ++ dirs ++ [n]) = some (.file content) := by
    intro answer w₁ hop
    obtain ⟨got, rfl⟩ := hworks.opens _ w answer w₁ hop
    obtain ⟨hg, -⟩ := hworks.granted hop
    unfold World.open_read at hg
    split at hg
    · cases hg
    · rename_i q hq
      unfold Fs.canonicalize at hq
      rw [segs_entry] at hq
      obtain ⟨left, hw⟩ := Tree.walk_of_resolve hq
      obtain ⟨Q, middle, hf, hlast⟩ := Tree.walk_of_append hw
      have hd : w.fs.tree.is_dir Q := by
        cases hc : w.fs.tree.is_dir Q with
        | true => rfl
        | false =>
          rw [Tree.walk_not_dir hc] at hlast
          cases hlast
      obtain rfl := hsteady.only_below haside.dirs_clear ⟨⟨middle, hf⟩, hd⟩
      cases hn : w.fs.tree.node (B ++ dirs ++ [n]) with
      | none =>
        rw [Tree.walk_missing hd hn] at hlast
        cases hlast
      | some node =>
        rw [Tree.walk_step hd (by rw [hn]; rfl) hl, Tree.walk_nil] at hlast
        cases hlast
        rw [hn] at hg
        cases node with
        | file content => exact ⟨content, rfl⟩
        | dir | link target => cases hg
  unfold lock_and_read at h
  cases hs : config.read_lock_strategy with
  | None =>
    rw [hs] at h
    obtain ⟨answer, w₁, hop, -⟩ := h
    exact .inl (ho answer w₁ hop)
  | InProcess =>
    rw [hs] at h
    dsimp only at h
    split at h
    · obtain ⟨hr, rfl⟩ := h
      cases hr
      exact .inr ⟨rfl, rfl, rfl⟩
    · obtain ⟨answer, w₁, hop, -⟩ := h
      exact .inl (ho answer w₁ hop)
  | Rename =>
    rw [hs] at h
    obtain ⟨answer, w₁, hre, -⟩ := h
    obtain rfl := hworks.renames _ _ w answer w₁ hre
    rcases rename_cases (hworks.granted hre) with ⟨fault, hfa, -⟩ |
      ⟨p, q, moved, -, hp, -, hn, hd, -⟩
    · cases hfa
    · obtain ⟨Q, hQ, rfl⟩ := rooted_of_spot hp
      obtain rfl := hsteady.only_below haside.dirs_clear hQ
      unfold Tree.is_dir at hd
      unfold Tree.is_link at hl
      rw [hn] at hd hl
      cases moved with
      | file content => exact .inl ⟨content, hn⟩
      | dir => cases hd
      | link target => cases hl

include hmoving

theorem finalize_moves
    (ha : lock.active_path = entry (base_path.components ++ dirs.map .name) m)
    (hn : w.fs.tree.node (B ++ dirs ++ [m]) = some (.file content))
    (h : Runs sem (finalize_locked_file config lock base_path n) w () w') :
    Moved start base_path.components B names dirs n m content w w' := by
  obtain ⟨move_dir, hm, -, hc⟩ := hmoving.move_dir
  unfold finalize_locked_file at h
  dsimp only at h
  rw [hmoving.noop, hmoving.delete, hm, if_neg (by decide), if_neg (by decide)] at h
  obtain ⟨answer, w₁, hr, -, rfl⟩ := h
  obtain rfl := hworks.renames _ _ w answer w' hr
  have ht : (base_path.join (parse move_dir)).join (parse n) =
      entry (base_path.components ++ names.map .name) n := by
    rw [haside.plain.join_eq, hc]
    rfl
  have hg := hworks.granted hr
  rw [ha, ht] at hg
  exact rename_moves haside hsteady hn hg

theorem marker_next_to
    (h : Runs sem (remove_done_marker config (entry (base_path.components ++ dirs.map .name) n)) w
      () w') : Touches (Inside (B ++ dirs)) F w w' ∧ Steady start base_path.components B w' := by
  unfold remove_done_marker at h
  rw [hmoving.noop] at h
  cases hd : config.done_file_name with
  | none =>
    rw [hd] at h
    obtain ⟨-, rfl⟩ := h
    exact ⟨.refl _ _ _, hsteady⟩
  | some pattern =>
    rw [hd] at h
    dsimp only at h
    split at h
    · obtain ⟨answer, w₁, hr, -, rfl⟩ := h
      have hg := hworks.granted hr
      have hp : done_path (entry (base_path.components ++ dirs.map .name) n) pattern =
          Path.join ⟨base_path.components ++ dirs.map .name, false⟩
            (parse (resolve_done_file_name pattern n)) := by
        unfold done_path Path.with_file_name
        rw [file_name_entry, parent_entry]
        rfl
      rw [hp] at hg
      refine remove_marker ?_ hsteady (fun _ hQ => hsteady.only_below haside.dirs_clear hQ) hg
      intro hs
      rcases mem_resolve_done_file_name hs with hs | hs
      · exact haside.plain.no_slash hs
      · exact hmoving.marker pattern hd hs
    · obtain ⟨-, rfl⟩ := h
      exact ⟨.refl _ _ _, hsteady⟩

theorem finish_moves (ha : lock.active_path = entry (base_path.components ++ dirs.map .name) m)
    (hn : w.fs.tree.node (B ++ dirs ++ [m]) = some (.file content)) {got : Content}
    (h : Runs sem (finish config (entry (base_path.components ++ dirs.map .name) n) base_path lock
      got shared) w (exchange, shared') w') :
    Moved start base_path.components B names dirs n m content w w' ∧
      exchange.body = got ∧ shared' = unlock lock shared := by
  unfold finish at h
  obtain ⟨_, w₁, hf, h⟩ := runs_bind.mp h
  obtain ⟨_, w₂, hm, h⟩ := runs_bind.mp h
  obtain ⟨hr, rfl⟩ := h
  cases hr
  rw [file_name_entry] at hf
  have hmo := finalize_moves hworks hmoving haside hsteady ha hn hf
  obtain ⟨hma, hs₂⟩ := marker_next_to (F := (· = B ++ names ++ [n])) hworks hmoving haside
    hmo.steady hm
  refine ⟨⟨hmo.touches.trans (hma.mono (fun _ hq => .inl hq) fun _ hq => hq), hs₂, ?_,
    ?_⟩, rfl, rfl⟩
  · rw [hma.kept _ haside.not_inside (by rw [hmo.there]; rfl)]
    exact hmo.there
  · cases hc : w'.fs.tree.is_file (B ++ dirs ++ [m]) with
    | false => rfl
    | true =>
      have hn' := hma.files _ (haside.apart m) hc
      have hg := hmo.gone
      unfold Tree.is_file at hc hg
      rw [hn', hg] at hc
      cases hc

omit haside hsteady in
theorem there_of_prepared (h : Runs sem (prepare_move config base_path) w true w') :
    There w.fs base_path.components := by
  obtain ⟨move_dir, hm, ha, -⟩ := hmoving.target
  unfold prepare_move at h
  rw [hmoving.noop, hmoving.delete, hm] at h
  simp only [Bool.or_self, ha] at h
  obtain ⟨answer, w₁, hc, hr⟩ := h
  cases answer with
  | error fault => cases hr.1
  | ok q =>
    obtain ⟨hq, -⟩ := hworks.granted hc
    obtain ⟨left, hw⟩ := Tree.walk_of_resolve hq.symm
    obtain ⟨r, middle, hco, -⟩ := Tree.walk_of_append hw
    refine ⟨r, middle, hco, Tree.node_of_walk hco ?_⟩
    -- the walk makes a step, so it starts in a directory
    cases hca : w.fs.tree.is_dir w.fs.cwd with
    | true =>
      rw [Tree.is_dir_iff.mp hca]
      rfl
    | false =>
      obtain ⟨seg, rest, hs⟩ := exists_cons_of_ne_nil hmoving.base
      rw [hs, Tree.walk_not_dir hca] at hco
      cases hco

theorem emit_moves (hac : lock.active_path = entry (base_path.components ++ dirs.map .name) m)
    (hn : w.fs.tree.node (B ++ dirs ++ [m]) = some (.file content))
    (h : Runs sem (emit config (entry (base_path.components ++ dirs.map .name) n) base_path lock
      content shared) w (result, shared') w') :
    Moved start base_path.components B names dirs n m content w w' ∧
      (∃ exchange, result = some exchange ∧ exchange.body = content) ∧
      shared' = unlock lock shared := by
  unfold emit at h
  obtain ⟨prepared, w₁, hp, hre⟩ := runs_bind.mp h
  obtain rfl := hworks.prepares w prepared w₁ hp
  have hse : ∀ c w r w', sem c w r w' → os (fun _ => True) c w r w' := fun _ _ _ _ hst =>
    .inl (hworks.granted hst)
  have ha := prepare_move_added hse hp
  have hst₁ := hsteady.added ha (there_of_prepared hworks hmoving hp)
  have hn₁ : w₁.fs.tree.node (B ++ dirs ++ [m]) = some (.file content) := by
    rw [ha.2.same _ (by rw [hn]; rfl)]
    exact hn
  obtain ⟨⟨exchange, shared₁⟩, w₂, hf, hd⟩ := runs_bind.mp hre
  obtain ⟨hr, rfl⟩ := hd
  cases hr
  rw [hmoving.noop] at hf
  obtain ⟨hm, hb, hs⟩ := finish_moves hworks hmoving haside hst₁ hac hn₁ hf
  exact ⟨{ hm with touches := (touches_added ha).trans hm.touches }, ⟨exchange, rfl, hb⟩, hs⟩

theorem read_moves (lock : FileReadLock)
    (ha : lock.active_path = entry (base_path.components ++ dirs.map .name) m)
    (hn : w.fs.tree.node (B ++ dirs ++ [m]) = some (.file content))
    (hk : build_idempotent_key config.idempotent_key (entry (base_path.components ++ dirs.map
      .name) m) n content = key)
    (h : Runs sem (read_locked config (entry (base_path.components ++ dirs.map .name) n) base_path
      lock shared) w (result, shared') w') :
    result = none ∧ Runs sem
        (release lock shared : Prog Call Answer (Option Exchange × Shared)) w (none, shared') w' ∨
      (∀ text, key = some text → text ∉ shared.idempotent_repo) ∧
        Moved start base_path.components B names dirs n m content w w' ∧
        (∃ exchange, result = some exchange ∧ exchange.body = content) ∧
        shared' = unlock lock (recorded key shared) := by
  unfold read_locked at h
  rw [ha, file_name_entry] at h
  obtain ⟨opened, w₁, ho, elapsed, w₂, he, hr⟩ := h
  obtain rfl := hworks.in_time w₁ elapsed w₂ he
  obtain ⟨got, rfl⟩ := hworks.opens _ w opened w₁ ho
  obtain ⟨hg, rfl⟩ := hworks.granted ho
  obtain rfl : w₂ = w₁ := hworks.granted he
  obtain ⟨rfl, -⟩ := (hsteady.held haside hn).open_read hg.symm
  dsimp only [getD_some] at hr
  rw [hk] at hr
  cases key with
  | none => exact .inr ⟨nofun, emit_moves hworks hmoving haside hsteady ha hn hr⟩
  | some text =>
    dsimp only at hr
    split at hr
    · have hno : result = none := by
        unfold release at hr
        cases lock with
        | None path | InProcess path => exact congrArg Prod.fst hr.1
        | Rename original locked =>
          obtain ⟨_, _, _, hd, _⟩ := hr
          exact congrArg Prod.fst hd
      subst hno
      exact .inl ⟨rfl, hr⟩
    · rename_i hne
      refine .inr ⟨?_, emit_moves hworks hmoving haside hsteady ha hn hr⟩
      intro text' ht
      cases ht
      exact hne

omit hworks hmoving hsteady in
theorem active_path_aside : active_path config (path_below base_path.components (dirs ++ [n])) =
    match config.read_lock_strategy with
    | .Rename => entry (base_path.components ++ dirs.map .name) (lock_name n)
    | .None | .InProcess => entry (base_path.components ++ dirs.map .name) n := by
  unfold active_path
  cases config.read_lock_strategy with
  | Rename => simp only [path_below_snoc, lock_path_entry haside.plain]
  | None | InProcess => simp only [path_below_snoc]

theorem lock_and_read_moves (hn : w.fs.tree.node (B ++ dirs ++ [n]) = some (.file content))
    (h : Runs sem (lock_and_read config (entry (base_path.components ++ dirs.map .name) n) base_path
      shared) w (result, shared') w') :
    Polled config base_path start B names dirs n shared shared' result w w' := by
  have ha : active_path config (path_below base_path.components (dirs ++ [n])) = _ :=
    active_path_aside haside
  unfold lock_and_read at h
  cases hs : config.read_lock_strategy with
  | None =>
    rw [hs] at h ha
    rcases read_moves hworks hmoving haside hsteady _ rfl hn rfl h with
      ⟨rfl, hr, rfl⟩ | ⟨hne, hm, ⟨exchange, rfl, rfl⟩, rfl⟩
    · cases hr
      exact Polled.nothing hsteady
    · exact polled_of_moved ha rfl hne (by rw [hs]; nofun) hn
        (hm.touches.sharpen fun q hq => .inl (.inr hq)) hm.steady hm.there
  | InProcess =>
    rw [hs] at h ha
    dsimp only at h
    split at h
    · obtain ⟨hr, rfl⟩ := h
      cases hr
      exact Polled.nothing hsteady
    · rename_i hf
      rw [path_below_snoc] at ha
      rcases read_moves hworks hmoving haside hsteady _ rfl hn rfl h with
        ⟨rfl, hr, rfl⟩ | ⟨hne, hm, ⟨exchange, rfl, rfl⟩, rfl⟩
      · cases hr
        have hu : unlock (.InProcess (entry (base_path.components ++ dirs.map .name) n))
            { shared with in_process_locks := entry (base_path.components ++ dirs.map .name) n ::
              shared.in_process_locks } = shared := unlock_locked hf none
        rw [hu]
        exact Polled.nothing hsteady
      · rw [unlock_locked hf]
        refine polled_of_moved (path_below_snoc .. ▸ ha) rfl hne ?_ hn
          (hm.touches.sharpen fun q hq => .inl (.inr hq)) hm.steady hm.there
        intro _
        rw [path_below_snoc]
        exact hf
  | Rename =>
    rw [hs] at h ha
    obtain ⟨answer, w₁, hre, hres⟩ := h
    obtain rfl := hworks.renames _ _ w answer w₁ hre
    rw [lock_path_entry haside.plain] at hre hres
    obtain ⟨ht₁, hst₁, hn₁, hl⟩ := lock_steady haside hsteady lock_name_ne hn (hworks.granted hre)
    rcases read_moves hworks hmoving haside hst₁ _ rfl hn₁ rfl hres with
      ⟨rfl, hrel⟩ | ⟨hne, hm, ⟨exchange, rfl, rfl⟩, rfl⟩
    · obtain ⟨answer, w₂, hb, hr, rfl⟩ := hrel
      cases hr
      obtain rfl := hworks.renames _ _ w₁ answer w' hb
      obtain ⟨ht₂, hst₂, -, hg⟩ := lock_steady haside hst₁ lock_name_ne.symm hn₁ (hworks.granted hb)
      refine ⟨?_, hst₂, rfl, fun _ hk => hk, nofun⟩
      have hbo : Touches (Inside (B ++ dirs))
          (fun q => q = B ++ dirs ++ [n] ∨ q = B ++ names ++ [n]) w w' := by
        apply (ht₁.followed ht₂).sharpen
        rintro q (rfl | rfl)
        · exact .inr (is_file_of_none hg)
        · exact .inl (.inl rfl)
      exact hbo.mono (fun _ hq => .inl hq) fun _ hq => hq
    · refine polled_of_moved ha rfl hne (by rw [hs]; nofun) hn ?_ hm.steady
        hm.there
      have hi : Touches (Around B names dirs n) (· = B ++ dirs ++ [lock_name n]) w w₁ :=
        ht₁.mono (fun _ hq => .inl hq) fun _ hq => hq
      apply (hi.followed hm.touches).sharpen
      rintro q (rfl | rfl)
      · exact .inr hm.gone
      · exact .inl (.inr rfl)

theorem poll_one_file_moves (hf : start.tree.is_file (B ++ dirs ++ [n]))
    (h : Runs sem (poll_one_file config filters (path_below base_path.components (dirs ++ [n]))
      base_path shared) w (result, shared') w') :
    Polled config base_path start B names dirs n shared shared' result w w' := by
  rcases poll_one_file_cases config filters (path_below base_path.components (dirs ++ [n])) base_path
    shared with heq | ⟨-, heq⟩
  · rw [heq] at h
    obtain ⟨hr, rfl⟩ := h
    cases hr
    exact Polled.nothing hsteady
  · rw [heq, path_below_snoc] at h
    have hl : w.fs.tree.is_link (B ++ dirs ++ [n]) = false := by
      cases hc : w.fs.tree.is_link (B ++ dirs ++ [n]) with
      | false => rfl
      | true =>
        obtain ⟨content, hn⟩ := Tree.is_file_iff.mp hf
        have hs := hsteady.links _ hc
        rw [is_link_of_file hn] at hs
        cases hs
    rcases file_of_locked hworks haside hsteady hl h with ⟨content, hn⟩ | ⟨rfl, rfl, rfl⟩
    · exact lock_and_read_moves hworks hmoving haside hsteady hn h
    · exact Polled.nothing hsteady

end

end

/-! ## A whole poll -/

section

variable {config : FileConfig} {filters : CompiledFilters} {base_path : Path}
  {names : List Text} {sem : Sem Call Answer World} {shared : Shared}

/-- A file that the scan finds and that nothing shared with other polls speaks against. -/
structure Emittable (config : FileConfig) (filters : CompiledFilters) (base_path : Path)
    (start : Fs) (B : Place) (shared : Shared) (dirs : List Text) (n : Text) (content : Content) :
    Prop where
  found : Found config filters base_path start B dirs n content
  unlocked : config.read_lock_strategy = .InProcess →
    path_below base_path.components (dirs ++ [n]) ∉ shared.in_process_locks
  new_key : ∀ key, key_of config (path_below base_path.components (dirs ++ [n])) content = some key →
    key ∉ shared.idempotent_repo

/-- Of two files with the same last name, one poll emits one: they have the same key. -/
def Distinguished (config : FileConfig) (filters : CompiledFilters) (base_path : Path) (start : Fs)
    (B : Place) (shared : Shared) : Prop :=
  ∀ dirs dirs' n content content', dirs ≠ dirs' →
    Emittable config filters base_path start B shared dirs n content →
    Emittable config filters base_path start B shared dirs' n content' →
    ∃ key, key_of config (path_below base_path.components (dirs ++ [n])) content = some key ∧
      key_of config (path_below base_path.components (dirs' ++ [n])) content' = some key

/-- An emitted file lies in the move directory. -/
structure Kept (config : FileConfig) (filters : CompiledFilters) (base_path : Path) (start : Fs)
    (B : Place) (names : List Text) (shared : Shared) (w : World) (repo : List Text)
    (emitted : Path × Exchange) (dirs : List Text) (n : Text) : Prop where
  path : emitted.1 = path_below base_path.components (dirs ++ [n])
  emittable : Emittable config filters base_path start B shared dirs n emitted.2.body
  there : w.fs.tree.node (B ++ names ++ [n]) = some (.file emitted.2.body)
  key : ∀ key, key_of config emitted.1 emitted.2.body = some key → key ∈ repo

/-- What holds between two files of a poll, with these candidates still to come. -/
structure Between (config : FileConfig) (filters : CompiledFilters) (base_path : Path) (start : Fs)
    (B : Place) (names : List Text) (shared : Shared) (todo : List Candidate) (poll : Poll)
    (w : World) : Prop where
  steady : Steady start base_path.components B w
  locks : poll.shared.in_process_locks = shared.in_process_locks
  keys : shared.idempotent_repo ⊆ poll.shared.idempotent_repo
  -- a file that is still there is the one that the scan has seen
  same : ∀ c ∈ todo, ∀ ns content, c.path = path_below base_path.components ns →
    w.fs.tree.node (B ++ ns) = some (.file content) →
    start.tree.node (B ++ ns) = some (.file content)
  kept : ∀ e ∈ poll.emitted, (∀ c ∈ todo, c.path ≠ e.1) ∧ ∃ dirs n,
    Kept config filters base_path start B names shared w poll.shared.idempotent_repo e dirs n
  apart : poll.emitted.Pairwise fun a b => a.1.file_name ≠ b.1.file_name

theorem outside_of_passed (h : pass_all_filters fs path n base_path config filters = true) :
    outside_move_dir config path base_path = true := by
  unfold pass_all_filters at h
  rw [Bool.and_eq_true, Bool.and_eq_true] at h
  exact h.1.2

theorem aside_of_found (hmoving : Moving config base_path names)
    (hc : ∀ i < names.length, start.tree.is_link (B ++ names.take (i + 1)) = false)
    (h : Found config filters base_path start B dirs n content) : Aside start B names dirs n := by
  refine ⟨h.name, (outside_iff hmoving _).mp (outside_of_passed h.passed), ?_, hc⟩
  intro i hi
  have hs : (start.tree.node (B ++ dirs.take (i + 1) ++ (dirs.drop (i + 1) ++ [n]))).isSome := by
    rw [append_assoc, ← append_assoc (dirs.take (i + 1)), take_append_drop,
      ← append_assoc, h.file.node]
    rfl
  have hd := Tree.is_dir_of_append (by simp) hs
  unfold Tree.is_link
  rw [Tree.is_dir_iff.mp hd]
  rfl

/-- What lies in the move directory stays there while a file with another name is polled. -/
theorem Kept.polled {before after : Shared} {result : Option Exchange}
    (h : Kept config filters base_path start B names shared w before.idempotent_repo e dirs' n')
    (haside : Aside start B names dirs n)
    (hp : Polled config base_path start B names dirs n before after result w w')
    (hn : result.isSome = true → n' ≠ n) :
    Kept config filters base_path start B names shared w' after.idempotent_repo e dirs' n' := by
  refine ⟨h.path, h.emittable, ?_, fun key hk => hp.keys (h.key key hk)⟩
  rw [hp.touches.kept _ ?_ (by rw [h.there]; rfl)]
  · exact h.there
  · rintro (hi | ⟨hs, heq⟩)
    · exact haside.not_inside hi
    · rw [append_cancel_left_eq] at heq
      exact hn hs (singleton_inj.mp heq)

/-- The candidates that are left, each with what the scan has seen. -/
def AllFound (config : FileConfig) (filters : CompiledFilters) (base_path : Path) (start : Fs)
    (B : Place) (todo : List Candidate) : Prop :=
  ∀ c ∈ todo, ∃ dirs n content, c.path = path_below base_path.components (dirs ++ [n]) ∧
    Found config filters base_path start B dirs n content

section

variable {c : Candidate} {todo : List Candidate} {poll : Poll} {dirs : List Text} {n : Text}
  {after : Shared} {result : Option Exchange}

section

variable (hmoving : Moving config base_path names)
  (h : Between config filters base_path start B names shared (c :: todo) poll w)
  (hfound : AllFound config filters base_path start B (c :: todo))
  (honce : ((c :: todo).map Candidate.path).Nodup)
  (hpath : c.path = path_below base_path.components (dirs ++ [n]))

include hmoving h hfound honce hpath

/-- The files that are left are still the ones that the scan has seen. -/
theorem Between.same_later
    (hp : Polled config base_path start B names dirs n poll.shared after result w w') :
    ∀ c' ∈ todo, ∀ ns content, c'.path = path_below base_path.components ns →
      w'.fs.tree.node (B ++ ns) = some (.file content) →
      start.tree.node (B ++ ns) = some (.file content) := by
  intro c' hc' ns content' hpa' hn
  have hf : w'.fs.tree.is_file (B ++ ns) = true := Tree.is_file_iff.mpr ⟨_, hn⟩
  have hs : w'.fs.tree.node (B ++ ns) = w.fs.tree.node (B ++ ns) := by
    refine hp.touches.files _ ?_ hf
    rintro (heq | heq)
    · -- a candidate is listed once
      rw [append_assoc, append_cancel_left_eq] at heq
      rw [map_cons, nodup_cons] at honce
      refine honce.1 (List.mem_map.mpr ⟨c', hc', ?_⟩)
      rw [hpa', hpath, heq]
    · -- and none of them lies in the move directory
      rw [append_assoc, append_cancel_left_eq] at heq
      obtain ⟨dirs', n', content'', hpa'', hf'⟩ := hfound c' (.tail _ hc')
      have ho := (outside_iff hmoving _).mp (outside_of_passed hf'.passed)
      rw [hpa''] at hpa'
      rw [path_below_inj hpa', heq] at ho
      exact ho (prefix_append _ _)
  rw [hs] at hn
  exact h.same c' (.tail _ hc') ns content' hpa' hn

theorem Between.skip (haside : Aside start B names dirs n)
    (hp : Polled config base_path start B names dirs n poll.shared after none w w') :
    Between config filters base_path start B names shared todo
      { poll with shared := after } w' := by
  refine ⟨hp.steady, hp.locks.trans h.locks, List.Subset.trans h.keys hp.keys,
    h.same_later hmoving hfound honce hpath hp, ?_, h.apart⟩
  intro e he
  obtain ⟨hl, dirs', n', hk⟩ := h.kept e he
  exact ⟨fun c' hc' => hl c' (.tail _ hc'), dirs', n', hk.polled haside hp nofun⟩

end

theorem name_is_new (hd : Distinguished config filters base_path start B shared)
    (hpath : c.path = path_below base_path.components (dirs ++ [n]))
    (he : Emittable config filters base_path start B shared dirs n exchange.body)
    (hke : ∀ key, key_of config (path_below base_path.components (dirs ++ [n])) exchange.body =
      some key → key ∉ poll.shared.idempotent_repo) (hl : c.path ≠ e.1)
    (hk : Kept config filters base_path start B names shared w poll.shared.idempotent_repo e
      dirs' n') : n' ≠ n := by
  rintro rfl
  have hdi : dirs' ≠ dirs := by
    rintro rfl
    rw [hk.path] at hl
    exact hl hpath
  obtain ⟨key, hke', hke''⟩ := hd dirs' dirs n' _ _ hdi hk.emittable he
  refine hke key hke'' (hk.key key ?_)
  rw [hk.path]
  exact hke'

theorem Between.emit (hmoving : Moving config base_path names)
    (hd : Distinguished config filters base_path start B shared)
    (h : Between config filters base_path start B names shared (c :: todo) poll w)
    (hfound : AllFound config filters base_path start B (c :: todo))
    (honce : ((c :: todo).map Candidate.path).Nodup)
    (hpath : c.path = path_below base_path.components (dirs ++ [n]))
    (hc : Found config filters base_path start B dirs n content)
    (haside : Aside start B names dirs n)
    (hp : Polled config base_path start B names dirs n poll.shared after (some exchange) w w') :
    Between config filters base_path start B names shared todo
      ⟨poll.emitted ++ [(c.path, exchange)], after⟩ w' := by
  obtain ⟨hr, ht, hu, hke⟩ := hp.moved exchange rfl
  have hb : exchange.body = content := by
    have hs := h.same c (.head _) (dirs ++ [n]) exchange.body hpath
      (by rw [← append_assoc]; exact hr)
    rw [← append_assoc, hc.file.node] at hs
    cases hs
    rfl
  have hem : Emittable config filters base_path start B shared dirs n exchange.body := by
    refine ⟨hb ▸ hc, ?_, ?_⟩
    · rw [← h.locks]
      exact hu
    · intro key hke' hm
      exact (hke key hke').1 (h.keys hm)
  have hn : ∀ e ∈ poll.emitted, ∀ dirs' n', Kept config filters base_path start B names shared w
      poll.shared.idempotent_repo e dirs' n' → n' ≠ n := by
    intro e he dirs' n' hk
    exact name_is_new hd hpath hem (fun key hke' => (hke key hke').1)
      ((h.kept e he).1 c (.head _)) hk
  refine ⟨hp.steady, hp.locks.trans h.locks, List.Subset.trans h.keys hp.keys,
    h.same_later hmoving hfound honce hpath hp, ?_, ?_⟩
  · intro e he
    rcases mem_append.mp he with he | he
    · obtain ⟨hl, dirs', n', hk⟩ := h.kept e he
      exact ⟨fun c' hc' => hl c' (.tail _ hc'), dirs', n',
        hk.polled haside hp fun _ => hn e he dirs' n' hk⟩
    · rw [mem_singleton.mp he]
      refine ⟨?_, dirs, n, hpath, hem, ht, ?_⟩
      · intro c' hc' heq
        rw [map_cons, nodup_cons] at honce
        exact honce.1 (List.mem_map.mpr ⟨c', hc', heq⟩)
      · intro key hke'
        rw [hpath] at hke'
        exact (hke key hke').2
  · rw [pairwise_append]
    refine ⟨h.apart, pairwise_singleton _ _, ?_⟩
    intro e he e' he'
    obtain ⟨-, dirs', n', hk⟩ := h.kept e he
    rw [mem_singleton.mp he', hk.path, hpath, path_below_snoc, path_below_snoc,
      file_name_entry, file_name_entry]
    intro heq
    exact hn e he dirs' n' hk (some.inj heq)

end

variable (hworks : Works config base_path sem)

include hworks

theorem poll_candidates_moves (hmoving : Moving config base_path names)
    (hcl : ∀ i < names.length, start.tree.is_link (B ++ names.take (i + 1)) = false)
    (hd : Distinguished config filters base_path start B shared) (accepts : Nat → Bool)
    {todo : List Candidate} {poll' : Poll} {result : Except CamelError Unit}
    (hfound : AllFound config filters base_path start B todo)
    (honce : (todo.map Candidate.path).Nodup)
    (hb : Between config filters base_path start B names shared todo poll w)
    (h : Runs sem (poll_candidates config filters base_path accepts todo poll) w
      (result, poll') w') :
    ∃ left, Between config filters base_path start B names shared left poll' w' := by
  induction todo generalizing poll w with
  | nil =>
    obtain ⟨hr, rfl⟩ := h
    cases hr
    exact ⟨[], hb⟩
  | cons c todo ih =>
    unfold poll_candidates at h
    obtain ⟨⟨polled, after⟩, w₁, ho, hre⟩ := runs_bind.mp h
    obtain ⟨dirs, n, content, hpath, hc⟩ := hfound c (.head _)
    have haside := aside_of_found hmoving hcl hc
    have hf : start.tree.is_file (B ++ dirs ++ [n]) = true :=
      Tree.is_file_iff.mpr ⟨content, hc.file.node⟩
    rw [hpath] at ho
    have hp := poll_one_file_moves hworks hmoving haside hb.steady hf ho
    have hf' : AllFound config filters base_path start B todo := fun c' hc' =>
      hfound c' (.tail _ hc')
    have ho' : (todo.map Candidate.path).Nodup := by
      rw [map_cons, nodup_cons] at honce
      exact honce.2
    cases polled with
    | none =>
      exact ih hf' ho' (hb.skip hmoving hfound honce hpath haside hp) hre
    | some exchange =>
      have hn := hb.emit hmoving hd hfound honce hpath hc haside hp
      dsimp only at hre
      split at hre
      · exact ih hf' ho' hn hre
      · obtain ⟨hr, rfl⟩ := hre
        cases hr
        exact ⟨todo, hn⟩

theorem shared_markers {pattern : Text} (hs : '/' ∉ pattern)
    (hp : ∀ path ∈ paths, ∃ dirs n, path = path_below base_path.components (dirs ++ [n]) ∧
      Aside start B names dirs n) (hsteady : Steady start base_path.components B w)
    (h : Runs sem (remove_shared_markers base_path pattern paths) w () w') :
    ∀ n content, w.fs.tree.node (B ++ names ++ [n]) = some (.file content) →
      w'.fs.tree.node (B ++ names ++ [n]) = some (.file content) := by
  induction paths generalizing w with
  | nil =>
    obtain ⟨-, rfl⟩ := h
    exact fun _ _ hn => hn
  | cons path paths ih =>
    obtain ⟨answer, w₁, hr, hre⟩ := h
    obtain ⟨dirs, n, rfl, haside⟩ := hp path (.head _)
    have hg := hworks.granted hr
    rw [path_below_snoc, parent_entry] at hg
    obtain ⟨ht, hs₁⟩ := remove_marker (F := fun _ => False) hs hsteady
      (fun _ hQ => hsteady.only_below haside.dirs_clear hQ) hg
    intro k content hn
    refine ih (fun path' hpa' => hp path' (.tail _ hpa')) hs₁ hre k
      content ?_
    rw [ht.kept _ haside.not_inside (by rw [hn]; rfl)]
    exact hn

theorem clean_up_keeps (hmoving : Moving config base_path names) {was_limited : Bool}
    {count : Nat}
    (hp : ∀ path ∈ paths, ∃ dirs n, path = path_below base_path.components (dirs ++ [n]) ∧
      Aside start B names dirs n) (hsteady : Steady start base_path.components B w)
    (h : Runs sem (clean_up config base_path was_limited count paths) w () w') :
    ∀ n content, w.fs.tree.node (B ++ names ++ [n]) = some (.file content) →
      w'.fs.tree.node (B ++ names ++ [n]) = some (.file content) := by
  unfold clean_up at h
  rw [hmoving.noop] at h
  cases hd : config.done_file_name with
  | none =>
    rw [hd] at h
    obtain ⟨-, rfl⟩ := h
    exact fun _ _ hn => hn
  | some pattern =>
    rw [hd] at h
    dsimp only at h
    split at h
    · exact shared_markers hworks (hmoving.marker pattern hd) hp hsteady h
    · obtain ⟨-, rfl⟩ := h
      exact fun _ _ hn => hn

end

/-! ## No emitted file is lost -/

/-- The names on the way from the endpoint directory to the move directory. -/
def move_names (config : FileConfig) : List Text :=
  (parse (config.move_to.getD [])).below.filterMap fun
    | .name n => some n
    | _ => none

def move_target (config : FileConfig) (path : Path) : Path :=
  ((parse config.directory).join (parse (config.move_to.getD []))).join
    (parse (path.file_name.getD []))

/-- Every emitted file lies in the move directory with its content, and no two of them went to the
same path. -/
def Survive (config : FileConfig) (fs : Fs) (poll : Poll) (w : World) : Prop :=
  (∀ B, fs.canonicalize (parse config.directory) = .ok B → ∀ e ∈ poll.emitted,
      w.fs.tree.node (B ++ move_names config ++ [e.1.file_name.getD []]) = some (.file e.2.body)) ∧
    poll.emitted.Pairwise fun a b => move_target config a.1 ≠ move_target config b.1

/-- No two files that the poll can emit go to the same path, no link leads to the move directory,
and the markers lie next to the files. -/
structure Tidy (config : FileConfig) (filters : CompiledFilters) (fs : Fs) (shared : Shared) :
    Prop where
  distinguished : ∀ B, fs.canonicalize (parse config.directory) = .ok B →
    Distinguished config filters (parse config.directory) fs B shared
  clear : ∀ B, fs.canonicalize (parse config.directory) = .ok B →
    ∀ i < (move_names config).length, fs.tree.is_link (B ++ (move_names config).take (i + 1)) = false
  marker : ∀ pattern, config.done_file_name = some pattern → '/' ∉ pattern

theorem move_names_eq {move_dir : Text} {names : List Text}
    (hm : config.move_to = some move_dir) (h : (parse move_dir).below = names.map .name) :
    move_names config = names := by
  unfold move_names
  rw [hm, getD_some, h, filterMap_map]
  exact filterMap_some

theorem moving_of_accepted {startup : Fs} {given : FileConfig}
    (ha : given.validate startup = .ok config) (hno : config.noop = false)
    (hd : config.delete = false) (hti : Tidy config filters fs shared)
    (hb : config.directory ≠ []) :
    Moving config (parse config.directory) (move_names config) := by
  have ht : ∃ move_dir, config.move_to = some move_dir ∧
      (parse move_dir).is_absolute = false ∧ (parse move_dir).has_up = false := by
    unfold FileConfig.validate at ha
    obtain ⟨_, hc, h⟩ := Fallible.bind_eq_ok ha
    obtain ⟨_, -, h⟩ := Fallible.bind_eq_ok h
    obtain ⟨_, -, h⟩ := Fallible.bind_eq_ok h
    obtain ⟨_, -, h⟩ := Fallible.bind_eq_ok h
    obtain ⟨_, -, h⟩ := Fallible.bind_eq_ok h
    obtain ⟨_, -, h⟩ := Fallible.bind_eq_ok h
    cases h
    dsimp only at hno hd ⊢
    rw [hno, hd]
    refine ⟨given.move_to.getD DEFAULT_MOVE_TO, rfl, ?_⟩
    cases hm : given.move_to with
    | none => exact ⟨by decide, by decide⟩
    | some move_dir =>
      rw [hm] at hc
      simp only [check_move_to] at hc
      split at hc
      · cases hc
      · rename_i hu
        split at hc
        · cases hc
        · rename_i hab
          exact ⟨by simpa using hab, by simpa [path_contains_traversal] using hu⟩
  obtain ⟨move_dir, hm, hab, hu⟩ := ht
  obtain ⟨names, hn, -⟩ := exists_names hab hu
  refine ⟨hno, hd, ⟨move_dir, hm, hab, ?_⟩, components_ne_nil hb, hti.marker⟩
  rw [move_names_eq hm hn]
  exact hn

theorem nothing_emitted {touched : List Place} {fuel : Nat} {arrangement : Arrangement}
    {accepts : Nat → Bool} {sem : Sem Call Answer World} {fault : Fault}
    {result : Except CamelError Unit} (hworks : Works config (parse config.directory) sem)
    (hmissing : fs.canonicalize (parse config.directory) = .error fault)
    (h : Runs sem (poll_directory fuel config filters arrangement accepts shared) ⟨fs, touched⟩
      (result, poll) w') : poll.emitted = [] := by
  unfold poll_directory at h
  obtain ⟨⟨scanned, scan⟩, w₁, hs, hre⟩ := runs_bind.mp h
  have he : ∃ fault, scanned = .error fault := by
    unfold scan_candidates at hs
    cases fuel with
    | zero =>
      obtain ⟨hr, -⟩ := hs
      cases hr
      exact ⟨_, rfl⟩
    | succ fuel =>
      obtain ⟨answer, w₂, hc, hw⟩ := hs
      obtain ⟨ha, -⟩ := hworks.granted hc
      rw [hmissing] at ha
      subst ha
      obtain ⟨hr, -⟩ := hw
      cases hr
      exact ⟨_, rfl⟩
  obtain ⟨fault', rfl⟩ := he
  obtain ⟨hr, -⟩ := hre
  cases hr
  rfl

theorem arranged_found {candidates : List Candidate} (arrangement : Arrangement)
    (h : Listed config filters base_path start B [] candidates) :
    AllFound config filters base_path start B (apply_sort_and_limit config arrangement candidates) ∧
      ((apply_sort_and_limit config arrangement candidates).map Candidate.path).Nodup := by
  have hp := arrangement.perm candidates
  have honce : ((arrangement.order candidates).map Candidate.path).Nodup :=
    (hp.map Candidate.path).nodup_iff.mpr h.once
  have hs : (apply_sort_and_limit config arrangement candidates).Sublist
      (arrangement.order candidates) := by
    unfold apply_sort_and_limit
    split
    · exact take_sublist _ _
    · exact List.Sublist.refl _
  refine ⟨?_, honce.sublist (hs.map _)⟩
  intro c hc
  obtain ⟨below, n, content, hpath, hfound⟩ := h.found c (hp.mem_iff.mp (hs.subset hc))
  rw [nil_append] at hpath hfound
  exact ⟨below, n, content, hpath, hfound⟩

theorem between_start {names : List Text} (touched : List Place) (todo : List Candidate)
    (hb : base_path.components ≠ []) (hB : fs.canonicalize base_path = .ok B) :
    Between config filters base_path fs B names shared todo ⟨[], shared⟩ ⟨fs, touched⟩ := by
  refine ⟨⟨rfl, fun _ hq => hq, ?_⟩, rfl, fun _ hk => hk, ?_, nofun, .nil⟩
  · intro Q hQ
    have hc := canonicalize_of_rooted hb hQ
    rw [hB] at hc
    exact (Except.ok.inj hc).symm
  · exact fun _ _ _ _ _ hn => hn

theorem move_target_ne (hn : Plain n) (hn' : Plain n')
    (hne : (path_below base (dirs ++ [n])).file_name ≠
    (path_below base (dirs' ++ [n'])).file_name) :
    move_target config (path_below base (dirs ++ [n])) ≠
      move_target config (path_below base (dirs' ++ [n'])) := by
  intro heq
  apply hne
  unfold move_target at heq
  rw [path_below_snoc, path_below_snoc, file_name_entry, file_name_entry] at heq ⊢
  rw [getD_some, getD_some, hn.join_eq, hn'.join_eq] at heq
  have hlast := append_cancel_left (congrArg Path.components heq)
  cases hlast
  rfl

theorem Between.survive {left : List Candidate}
    (h : Between config filters (parse config.directory) fs B (move_names config) shared left
      poll w)
    (hB : fs.canonicalize (parse config.directory) = .ok B)
    (hk : ∀ n content, w.fs.tree.node (B ++ move_names config ++ [n]) = some (.file content) →
      w'.fs.tree.node (B ++ move_names config ++ [n]) = some (.file content)) :
    Survive config fs poll w' := by
  constructor
  · intro B' hB' e he
    obtain rfl : B = B' := Except.ok.inj (hB.symm.trans hB')
    obtain ⟨-, dirs, n, hke⟩ := h.kept e he
    rw [hke.path, path_below_snoc, file_name_entry]
    exact hk n _ hke.there
  · refine h.apart.imp_of_mem ?_
    intro a b ha hb hn
    obtain ⟨-, dirs, n, hke⟩ := h.kept a ha
    obtain ⟨-, dirs', n', hke'⟩ := h.kept b hb
    rw [hke.path, hke'.path] at hn ⊢
    exact move_target_ne hke.emittable.found.name hke'.emittable.found.name hn

/-- A poll on which no step fails destroys no file that it emits, when of any two files with the
same last name it emits one, no link leads to the move directory and the markers lie next to the
files. -/
theorem emitted_files_survive {startup fs : Fs} {given config : FileConfig}
    {filters : CompiledFilters} {shared : Shared} {touched : List Place} {fuel : Nat}
    {arrangement : Arrangement} {accepts : Nat → Bool} {sem : Sem Call Answer World}
    {result : Except CamelError Unit} {poll : Poll}
    (haccepted : given.validate startup = .ok config) (hnoop : config.noop = false)
    (hdelete : config.delete = false) (hnamed : WellNamed fs)
    (htidy : Tidy config filters fs shared)
    (hworks : Works config (parse config.directory) sem)
    (h : Runs sem (poll_directory fuel config filters arrangement accepts shared) ⟨fs, touched⟩
      (result, poll) w') : Survive config fs poll w' := by
  cases hB : fs.canonicalize (parse config.directory) with
  | error fault =>
    have hn := nothing_emitted hworks hB h
    unfold Survive
    rw [hn]
    exact ⟨fun _ _ => nofun, .nil⟩
  | ok B =>
    have hba : config.directory ≠ [] := by
      intro hem
      rw [hem] at hB
      cases hB
    have hmoving := moving_of_accepted haccepted hnoop hdelete htidy hba
    have hse : ∀ c w r w', sem c w r w' → os (fun _ => True) c w r w' := fun _ _ _ _ hs =>
      .inl (hworks.granted hs)
    unfold poll_directory at h
    obtain ⟨⟨scanned, scan⟩, w₁, hsc, hre⟩ := runs_bind.mp h
    obtain ⟨rfl, hl⟩ := wp_ofSem_iff.mp (scan_candidates_spec (w := ⟨fs, touched⟩) hse hnamed
      (fun q hq => Except.ok.inj (hq.symm.trans hB)) fuel) _ _ hsc
    cases scanned with
    | error fault =>
      obtain ⟨hr, rfl⟩ := hre
      cases hr
      exact ⟨fun _ _ => nofun, .nil⟩
    | ok hit_limit =>
      obtain ⟨⟨polled, poll₁⟩, w₂, hp, hre⟩ := runs_bind.mp hre
      obtain ⟨hfound, honce⟩ := arranged_found arrangement hl
      obtain ⟨left, hb⟩ := poll_candidates_moves hworks hmoving (htidy.clear B hB)
        (htidy.distinguished B hB) accepts hfound honce (between_start touched _ hmoving.base hB)
        hp
      cases polled with
      | error err =>
        obtain ⟨hr, rfl⟩ := hre
        cases hr
        exact hb.survive hB fun _ _ hno => hno
      | ok _ =>
        obtain ⟨_, w₃, hc, hr, rfl⟩ := runs_bind.mp hre
        cases hr
        refine hb.survive hB (clean_up_keeps hworks hmoving ?_ hb.steady hc)
        intro path hpath
        obtain ⟨e, he, rfl⟩ := List.mem_map.mp hpath
        obtain ⟨-, dirs, n, hk⟩ := hb.kept e he
        exact ⟨dirs, n, hk.path, aside_of_found hmoving (htidy.clear B hB) hk.emittable.found⟩

/-! ## A system on which no step fails -/

/-- A system that lists its directories. -/
def serve (listing : Path → List Text) : (c : Call) → World → Answer c × World
  | .read_dir p, w => (.ok (listing p), w)
  | c, w => grant c w

/-- Does the step come through? A directory is listed before anything changes. -/
def comes_through (known : List Path) : Call → World → Bool
  | .mkdir p, w =>
    match (w.mkdir p).1 with
    | .ok _ => true
    | .error fault => fault = .AlreadyExists && w.fs.is_dir p
  | .rename p p', w => (w.rename p p').1.toBool
  | .open_read p, w => (w.open_read p).toBool
  | .canonicalize p, w =>
    match w.fs.canonicalize p with
    | .ok q => p.components = .root :: q.map .name
    | .error _ => false
  | .read_dir p, w => p ∈ known && w.touched.isEmpty
  | .write _ _, _ | .open_write _ _ _, _ => false
  | .look, _ | .sync, _ | .remove_file _, _ | .elapsed, _ | .random, _ => true

/-- The system that answers like this as long as each step comes through. -/
def calm (fs : Fs) (listing : Path → List Text) (known : List Path) : Sem Call Answer World :=
  fun c w answer w' => (answer, w') = serve listing c w ∧ comes_through known c w = true ∧
    ∀ p, c = .read_dir p → w.fs = fs

section

variable {fs : Fs} {listing : Path → List Text} {known : List Path} {config : FileConfig}
  {names : List Text} {base_path : Path} {c : Call}

theorem calm_real (hl : ∀ p ∈ known, Lists fs p (listing p)) {answer : Answer c}
    (h : calm fs listing known c w answer w') : os (fun _ => False) c w answer w' := by
  obtain ⟨hs, hf, hst⟩ := h
  left
  cases c with
  | read_dir p =>
    cases hs
    refine ⟨rfl, ?_⟩
    have hp : p ∈ known ∧ w.touched.isEmpty = true := by simpa [comes_through] using hf
    rw [hst p rfl]
    exact hl p hp.1
  | open_write p exclusive truncate | write handle bytes => cases hf
  | random =>
    cases hs
    exact ⟨Nat.two_pow_pos 64, rfl⟩
  | elapsed =>
    cases hs
    rfl
  | mkdir p | rename from_path to_path | remove_file p => exact hs
  | look | sync | open_read p | canonicalize p =>
    cases hs
    exact ⟨rfl, rfl⟩

theorem calm_create_dir_all {segs : List (Seg Text)} {answer : Except Fault Unit}
    (hse : segs ≠ []) (h : Runs (calm fs listing known) (create_dir_all_rev segs) w answer w') :
    answer = .ok () := by
  obtain ⟨last, rest, rfl⟩ := exists_cons_of_ne_nil hse
  obtain ⟨made, w₁, ⟨hs, hf, -⟩, hr⟩ := h
  have hm : (made, w₁) = w.mkdir ⟨(last :: rest).reverse, false⟩ := hs
  simp only [comes_through] at hf
  rw [← hm] at hf
  cases made with
  | ok _ => exact hr.1
  | error fault =>
    obtain ⟨rfl, hd⟩ : fault = .AlreadyExists ∧
        w.fs.is_dir ⟨(last :: rest).reverse, false⟩ = true := by simpa using hf
    obtain rfl : w₁ = w := by
      rcases mkdir_cases hm with ⟨_, -, rfl⟩ | ⟨_, ha, -⟩
      · rfl
      · cases ha
    obtain ⟨seen, w₂, ⟨hl, -⟩, ha, -⟩ := hr
    cases hl
    rw [if_pos hd] at ha
    exact ha

theorem calm_canonicalize {p : Path} {answer : Except Fault Place}
    (h : calm fs listing known (.canonicalize p) w answer w') :
    ∃ q, answer = .ok q ∧ p.components = .root :: q.map .name := by
  obtain ⟨hs, hf, -⟩ := h
  cases hs
  cases hq : w.fs.canonicalize p with
  | ok q =>
    refine ⟨q, rfl, ?_⟩
    simp only [comes_through] at hf
    rw [hq] at hf
    simpa using hf
  | error fault =>
    simp only [comes_through] at hf
    rw [hq] at hf
    cases hf

theorem calm_prepares (hmoving : Moving config base_path names) {prepared : Bool}
    (h : Runs (calm fs listing known) (prepare_move config base_path) w prepared w') :
    prepared = true := by
  obtain ⟨move_dir, hm, ha, hc⟩ := hmoving.move_dir
  have hp : ∀ (resolved : Path) (canonical_base : Place) (w₁ : World),
      base_path.components = .root :: canonical_base.map .name →
      resolved.components = base_path.components ++ names.map .name →
      Runs (calm fs listing known)
        (if !resolved.starts_with (canonical_path canonical_base) then .done false
        else create_dir_all (base_path.join (parse move_dir)) >>= fun
          | .ok _ => .done true
          | .error _ => .done false) w₁ prepared w' → prepared = true := by
    intro resolved canonical_base w₁ hba hr hru
    have hs : resolved.starts_with (canonical_path canonical_base) = true := by
      unfold Path.starts_with canonical_path
      rw [hr, ← hba, List.isPrefixOf_iff_prefix]
      exact prefix_append _ _
    rw [hs] at hru
    obtain ⟨answer, w₂, hcr, hd⟩ := runs_bind.mp hru
    obtain rfl := calm_create_dir_all (by simp [hc, hmoving.base]) hcr
    exact hd.1
  unfold prepare_move at h
  rw [hmoving.noop, hmoving.delete, hm] at h
  simp only [Bool.or_self, ha] at h
  obtain ⟨answer, w₁, hca, hre⟩ := h
  obtain ⟨canonical_base, rfl, hba⟩ := calm_canonicalize hca
  obtain ⟨seen, w₂, -, hre⟩ := hre
  dsimp only at hre
  by_cases he : seen.exists_ (base_path.join (parse move_dir)) = true
  · rw [if_pos he] at hre
    obtain ⟨answer, w₃, hca', hre⟩ := hre
    obtain ⟨resolved, rfl, ht⟩ := calm_canonicalize hca'
    refine hp _ canonical_base w₃ hba ?_ hre
    rw [← hc, ht]
    rfl
  · rw [if_neg he] at hre
    refine hp _ canonical_base w₂ hba ?_ hre
    obtain ⟨move_dir', hm', -, hb⟩ := hmoving.target
    obtain rfl : move_dir = move_dir' := some.inj (hm.symm.trans hm')
    rw [components_join (by simp [canonical_path]) ha, hb, hba]
    rfl

theorem calm_works (hl : ∀ p ∈ known, Lists fs p (listing p))
    (hmoving : Moving config base_path names) : Works config base_path (calm fs listing known) := by
  refine ⟨fun _ _ _ _ h => calm_real hl h, ?_, ?_, ?_, fun _ _ _ h => calm_prepares hmoving h⟩
  · rintro w elapsed w' ⟨hs, -⟩
    cases hs
    rfl
  · rintro p p' w answer w' ⟨hs, hf, -⟩
    have hr : (answer, w') = w.rename p p' := hs
    simp only [comes_through] at hf
    rw [← hr] at hf
    cases answer with
    | ok _ => rfl
    | error fault => cases hf
  · rintro p w answer w' ⟨hs, hf, -⟩
    cases hs
    simp only [comes_through] at hf
    cases hre : w.open_read p with
    | ok content => exact ⟨content, rfl⟩
    | error fault =>
      rw [hre] at hf
      cases hf

theorem touched_with_tree {tree : Tree Text Content} :
    (w.with_tree tree (q :: places)).touched ≠ [] := by
  simp [World.with_tree]

theorem changed_is_touched (hf : comes_through known c w = true)
    (h : (serve listing c w).2.touched = []) : (serve listing c w).2 = w := by
  cases c with
  | open_write p exclusive truncate | write handle bytes => cases hf
  | mkdir p =>
    obtain ⟨answer, w', hs⟩ : ∃ answer w', (answer, w') = w.mkdir p := ⟨_, _, rfl⟩
    change (w.mkdir p).2.touched = [] at h
    change (w.mkdir p).2 = w
    rw [← hs] at h ⊢
    rcases mkdir_cases hs with ⟨-, -, rfl⟩ | ⟨q, -, -, -, rfl⟩
    · rfl
    · exact absurd h touched_with_tree
  | rename p p' =>
    obtain ⟨answer, w', hs⟩ : ∃ answer w', (answer, w') = w.rename p p' := ⟨_, _, rfl⟩
    change (w.rename p p').2.touched = [] at h
    change (w.rename p p').2 = w
    rw [← hs] at h ⊢
    rcases rename_cases hs with ⟨-, -, rfl⟩ | ⟨_, _, _, -, -, -, -, -, -, rfl⟩
    · rfl
    · exact absurd h touched_with_tree
  | remove_file p =>
    obtain ⟨answer, w', hs⟩ : ∃ answer w', (answer, w') = w.remove_file p := ⟨_, _, rfl⟩
    change (w.remove_file p).2.touched = [] at h
    change (w.remove_file p).2 = w
    rw [← hs] at h ⊢
    rcases remove_file_cases hs with ⟨-, -, rfl⟩ | ⟨q, -, -, -, rfl⟩
    · rfl
    · exact absurd h touched_with_tree
  | look | sync | open_read p | canonicalize p | read_dir p | elapsed | random => rfl

theorem calm_runs {α : Type} {code : Prog Call Answer α} (hw : w.touched = [] → w.fs = fs)
    (h : Allows (fun c w _ _ => comes_through known c w = true) (serve listing) code w) :
    Runs (calm fs listing known) code w (eval (serve listing) code w).1
      (eval (serve listing) code w).2 := by
  refine runs_eval_of_allows ?_
  induction code generalizing w with
  | done a => trivial
  | call c k ih =>
    obtain ⟨hf, hr⟩ := h
    refine ⟨⟨rfl, hf, ?_⟩, ih _ ?_ hr⟩
    · rintro p rfl
      have hp : p ∈ known ∧ w.touched.isEmpty = true := by simpa [comes_through] using hf
      exact hw (List.isEmpty_iff.mp hp.2)
    · intro ht
      have hs := changed_is_touched hf ht
      rw [hs] at ht ⊢
      exact hw ht

end

/-! ## Two files with one name -/

theorem lists_of_places (hp : ∀ q, (fs.tree.node q).isSome ↔ q ∈ places) {names : List Text}
    (hq : fs.canonicalize path = .ok q) (hd : fs.tree.is_dir q) (honce : names.Nodup)
    (hi : ∀ n ∈ names, q ++ [n] ∈ places)
    (ha : ∀ r ∈ places, r ≠ [] → r.dropLast = q → r.getLastD [] ∈ names) :
    Lists fs path names := by
  refine ⟨q, hq, hd, honce, ?_⟩
  intro n
  rw [hp]
  refine ⟨hi n, ?_⟩
  intro hm
  have hlast := ha _ hm (by simp) (dropLast_concat ..)
  rwa [getLastD_concat] at hlast

/-- `/data` holds two directories with a file `x.txt` in each. -/
def two_files : Fs :=
  ⟨(((empty_data.tree.put (place ["data", "a"]) .dir).put (place ["data", "b"]) .dir).put
    (place ["data", "a", "x.txt"]) (.file ⟨[1], none⟩)).put
    (place ["data", "b", "x.txt"]) (.file ⟨[2], none⟩), []⟩

def two_files_places : List Place :=
  [place ["data", "b", "x.txt"], place ["data", "a", "x.txt"], place ["data", "b"],
    place ["data", "a"], place ["data"], []]

theorem two_files_holds (q : Place) : (two_files.tree.node q).isSome ↔ q ∈ two_files_places := by
  unfold two_files empty_data two_files_places
  rw [Tree.isSome_put (by decide +kernel), Tree.isSome_put (by decide +kernel),
    Tree.isSome_put (by decide +kernel), Tree.isSome_put (by decide +kernel),
    Tree.isSome_put (by decide +kernel)]
  cases q <;> simp [Tree.bare]

theorem two_files_well_named : WellNamed two_files := by
  have hp : ∀ q ∈ two_files_places, q ≠ [] → '/' ∉ q.getLastD [] ∧ q.getLastD [] ≠ [] ∧
      q.getLastD [] ≠ ['.'] ∧ q.getLastD [] ≠ ['.', '.'] := by decide +kernel
  intro p n h
  have hlast := hp _ ((two_files_holds _).mp h) (by simp)
  rw [getLastD_concat] at hlast
  obtain ⟨hs, he, hdo, hd⟩ := hlast
  exact ⟨hs, he, hdo, hd⟩

/-- The directories of the system. -/
def two_files_dirs : List Path :=
  [parse "/data".toList, parse "/data/a".toList, parse "/data/b".toList]

def two_files_listing (p : Path) : List Text :=
  if p = parse "/data".toList then place ["a", "b"] else place ["x.txt"]

theorem two_files_lists : ∀ p ∈ two_files_dirs, Lists two_files p (two_files_listing p) := by
  have ha : ∀ p ∈ two_files_dirs, ∃ q ∈ two_files_places, two_files.canonicalize p = .ok q ∧
      two_files.tree.is_dir q = true ∧ (two_files_listing p).Nodup ∧
      (∀ n ∈ two_files_listing p, q ++ [n] ∈ two_files_places) ∧
      ∀ r ∈ two_files_places, r ≠ [] → r.dropLast = q →
        r.getLastD [] ∈ two_files_listing p := by decide +kernel
  intro p hp
  obtain ⟨q, -, hq, hd, honce, hi, ho⟩ := ha p hp
  exact lists_of_places two_files_holds hq hd honce hi ho

variable (idempotent_key : IdempotentKey)

/-- The endpoint `/data`, read with its directories. -/
def deep_endpoint : FileConfig := { endpoint "/data" with recursive := true, idempotent_key }

def deep_accepted : FileConfig :=
  { deep_endpoint idempotent_key with move_to := some DEFAULT_MOVE_TO }

def in_order : Arrangement := ⟨id, fun _ => .refl _⟩

def two_files_poll : Prog Call Answer (Except CamelError Unit × Poll) :=
  poll_directory 10 (deep_accepted idempotent_key) {} in_order (fun _ => true) nothing_shared

def two_files_polled : (Except CamelError Unit × Poll) × World :=
  eval (serve two_files_listing) (two_files_poll idempotent_key) ⟨two_files, []⟩

theorem two_files_run
    (h : Allows (fun c w _ _ => comes_through two_files_dirs c w = true) (serve two_files_listing)
      (two_files_poll idempotent_key) ⟨two_files, []⟩) :
    Runs (calm two_files two_files_listing two_files_dirs) (two_files_poll idempotent_key)
      ⟨two_files, []⟩ (two_files_polled idempotent_key).1 (two_files_polled idempotent_key).2 :=
  calm_runs (fun _ => rfl) h

theorem two_files_work :
    Works (deep_accepted idempotent_key) (parse (deep_accepted idempotent_key).directory)
      (calm two_files two_files_listing two_files_dirs) := by
  have hmoving : Moving (deep_accepted idempotent_key)
      (parse (deep_accepted idempotent_key).directory) [DEFAULT_MOVE_TO] :=
    ⟨rfl, rfl, ⟨DEFAULT_MOVE_TO, rfl, by decide +kernel, by decide +kernel⟩,
      components_ne_nil (by simp [deep_accepted, deep_endpoint, endpoint]), nofun⟩
  exact calm_works two_files_lists hmoving

/-- With a key by name, one of two files with the same name is emitted, and it survives. -/
theorem keyed_file_survives :
    (two_files_polled .FileName).1.2.emitted.length = 1 ∧
      Survive (deep_accepted .FileName) two_files (two_files_polled .FileName).1.2
        (two_files_polled .FileName).2 := by
  refine ⟨by decide +kernel, ?_⟩
  have ha : (deep_endpoint .FileName).validate two_files = .ok (deep_accepted .FileName) := rfl
  refine emitted_files_survive ha rfl rfl two_files_well_named ⟨?_, ?_, nofun⟩
    (two_files_work .FileName) (two_files_run .FileName (by decide +kernel))
  · intro B _ dirs dirs' n content content' _ _ _
    refine ⟨n, ?_, ?_⟩ <;>
      simp [key_of, deep_accepted, deep_endpoint, build_idempotent_key, path_below_snoc,
        file_name_entry]
  · intro B hB
    obtain rfl : B = place ["data"] := by
      have hd : two_files.canonicalize (parse (deep_accepted .FileName).directory) =
          .ok (place ["data"]) := by decide +kernel
      exact Except.ok.inj (hB.symm.trans hd)
    decide +kernel

/-- Without a key, the second of two files with the same name replaces the first one. -/
theorem second_file_replaces_first :
    (deep_endpoint .None).validate two_files = .ok (deep_accepted .None) ∧
      WellNamed two_files ∧
      Works (deep_accepted .None) (parse (deep_accepted .None).directory)
        (calm two_files two_files_listing two_files_dirs) ∧
      Runs (calm two_files two_files_listing two_files_dirs)
        (poll_directory 10 (deep_accepted .None) {} in_order (fun _ => true) nothing_shared)
        ⟨two_files, []⟩ (two_files_polled .None).1 (two_files_polled .None).2 ∧
      ¬Survive (deep_accepted .None) two_files (two_files_polled .None).1.2
        (two_files_polled .None).2 := by
  refine ⟨rfl, two_files_well_named, two_files_work .None,
    two_files_run .None (by decide +kernel), ?_⟩
  rintro ⟨-, hp⟩
  revert hp
  decide +kernel

end camel_file
