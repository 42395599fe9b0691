-- What the file producer writes once its target has passed the path guard: a path below the
-- endpoint directory in which no name is a link leads to the place it seems to lead to, and each
-- piece of the producer that opens, fills, renames or removes files keeps to such paths.
import RustCamel.File.Rules
import RustCamel.Lib.Fallible

namespace camel_file

open FileTree UnixPath Prog List

variable {refusable : Call → Prop}

/-! ## The endpoint directory -/

/-- The path of the endpoint leads to the directory `B`. -/
def Rooted (fs : Fs) (base : List (Seg Text)) (B : Place) : Prop :=
  (∃ left, fs.tree.walk Tree.max_links fs.cwd base = .ok (B, left)) ∧ fs.tree.is_dir B

/-- No name below the endpoint directory is a link. -/
def Clear (fs : Fs) (base : List (Seg Text)) (names : List Text) : Prop :=
  ∀ B, Rooted fs base B → ∀ i < names.length, fs.tree.is_link (B ++ names.take (i + 1)) = false

variable {fs : Fs} {B q : Place} {durable : Bool} {config : FileConfig} {target_path : Path}
  {body : List UInt8} {base_dir : Path} {prefix' : Option Text} {rest : List (Seg Text)}
  {file_name : Text} {dir_path : Path} {base : List (Seg Text)} {n : Text}

theorem Rooted.unique {B' : Place} (h : Rooted fs base B) (h' : Rooted fs base B') : B = B' := by
  obtain ⟨⟨left, hw⟩, -⟩ := h
  obtain ⟨⟨left', hw'⟩, -⟩ := h'
  rw [hw] at hw'
  cases hw'
  rfl

theorem Rooted.keeps {fs' : Fs} (h : Rooted fs base B) (hc : fs'.cwd = fs.cwd)
    (hk : Tree.Keeps fs.tree fs'.tree) : Rooted fs' base B := by
  obtain ⟨⟨left, hw⟩, hd⟩ := h
  refine ⟨⟨left, ?_⟩, hk.is_dir hd⟩
  rw [hc]
  exact hk.walk_dir hw hd

theorem Clear.take {base : List (Seg Text)} {names : List Text} (h : Clear fs base names)
    (k : Nat) :
    Clear fs base (names.take k) := by
  intro B hB i hi
  rw [length_take] at hi
  rw [take_take, show min (i + 1) k = i + 1 by omega]
  exact h B hB i (by omega)

theorem Clear.dropLast {names : List Text} (h : Clear fs base (names ++ [n])) :
    Clear fs base names := by
  have ht := h.take names.length
  rwa [take_left] at ht

theorem spot_below {names : List Text} (hc : Clear fs base names)
    (h : fs.tree.spot fs.cwd (base ++ names.map .name ++ [.name n]) = .ok q) :
    ∃ B, Rooted fs base B ∧ q = B ++ (names ++ [n]) := by
  obtain ⟨p, left, hw, hd, rfl⟩ := Tree.spot_name_ok h
  obtain ⟨B, middle, hb, hn⟩ := Tree.walk_of_append hw
  have hB : fs.tree.is_dir B := by
    cases names with
    | nil =>
      rw [map_nil, Tree.walk_nil] at hn
      cases hn
      exact hd
    | cons m names =>
      cases hca : fs.tree.is_dir B with
      | true => rfl
      | false =>
        rw [map_cons, Tree.walk_not_dir hca] at hn
        cases hn
  have hr : Rooted fs base B := ⟨⟨middle, hb⟩, hB⟩
  obtain ⟨rfl, -⟩ := Tree.walk_names (hc B hr) hn
  exact ⟨B, hr, append_assoc ..⟩

/-- The system takes nothing but a directory at a path that ends like one. -/
theorem is_dir_of_spot {p : Path} (hd : p.as_dir = true) (h : fs.spot p = .ok q) :
    fs.tree.is_dir q := by
  unfold Fs.spot Path.segs at h
  rw [hd, if_pos rfl] at h
  have hre : fs.tree.resolve fs.cwd (p.components ++ [.here]) = .ok q := by
    unfold Tree.spot at h
    simpa using h
  obtain ⟨left, hw⟩ := Tree.walk_of_resolve hre
  obtain ⟨r, middle, -, hh⟩ := Tree.walk_of_append hw
  rw [Tree.walk_here] at hh
  split at hh
  · rename_i hr
    rw [Tree.walk_nil] at hh
    cases hh
    exact hr
  · cases hh

theorem canonicalize_of_rooted (hn : base_dir.components ≠ [])
    (h : Rooted fs base_dir.components B) : fs.canonicalize base_dir = .ok B := by
  obtain ⟨⟨left, hw⟩, hd⟩ := h
  have hs : fs.tree.walk Tree.max_links fs.cwd base_dir.segs = .ok (B, left) := by
    unfold Path.segs
    rw [Tree.walk_append, hw]
    dsimp only
    split
    · rw [Tree.walk_here, if_pos hd, Tree.walk_nil]
    · rw [Tree.walk_nil]
  exact Tree.resolve_of_walk (by simp [Path.segs, hn]) hs

/-! ## What the validation says -/

theorem not_link_of_symlinked_component {cumulative : Path} {components : List (Seg Text)}
    (h : symlinked_component fs cumulative components = none) :
    ∀ i < components.length, isLink (fs.symlink_metadata
      ⟨cumulative.components ++ components.take (i + 1), false⟩) = false := by
  induction components generalizing cumulative with
  | nil =>
    intro i hi
    cases hi
  | cons component rest ih =>
    unfold symlinked_component at h
    dsimp only at h
    split at h
    · cases h
    · rename_i hf
      intro i hi
      cases i with
      | zero => simpa using hf
      | succ i =>
        have hr := ih h i (by simpa using hi)
        simpa [append_assoc] using hr

theorem strip_prefix_append (h : target_path.components = base_dir.components ++ rest) :
    target_path.strip_prefix base_dir = some ⟨rest, target_path.as_dir⟩ := by
  unfold Path.strip_prefix Path.starts_with
  rw [h]
  simp

theorem relative_eq_of_ok {rel : Path}
    (ht : target_path.components = base_dir.components ++ rest)
    (h : relative_to_base base_dir target_path = .ok rel) : rel = ⟨rest, target_path.as_dir⟩ := by
  unfold relative_to_base at h
  rw [strip_prefix_append ht] at h
  dsimp only at h
  split at h
  · cases h
  · exact (Except.ok.inj h).symm

theorem symlink_metadata_below {names : List Text} (hB : Rooted fs base B)
    (hs : (fs.tree.node (B ++ names ++ [n])).isSome) :
    fs.symlink_metadata ⟨base ++ (names ++ [n]).map .name, false⟩ =
      fs.tree.node (B ++ names ++ [n]) := by
  obtain ⟨⟨left, hw⟩, -⟩ := hB
  have hd : fs.tree.is_dir (B ++ names) := Tree.is_dir_parent hs
  have hsp : fs.spot ⟨base ++ (names ++ [n]).map .name, false⟩ = .ok (B ++ names ++ [n]) := by
    have hse : (Path.segs ⟨base ++ (names ++ [n]).map .name, false⟩ : List (Seg Text)) =
        base ++ names.map .name ++ [.name n] := by
      simp [Path.segs]
    unfold Fs.spot
    rw [hse, Tree.spot_name, Tree.walk_append, hw]
    dsimp only
    rw [Tree.walk_names_of_dir hd]
    dsimp only
    rw [if_pos hd]
  unfold Fs.symlink_metadata
  rw [hsp]

/-- A target that passed the validation has no link below an endpoint directory that is there. -/
theorem clear_of_validated {names : List Text} (hne : base_dir.components ≠ [])
    (ht : target_path.components = base_dir.components ++ names.map .name)
    (h : validate_path_is_within_base fs base_dir target_path = .ok ()) :
    Clear fs base_dir.components names := by
  intro B hB i hi
  have hc := canonicalize_of_rooted hne hB
  have he : fs.exists_ base_dir = true := by
    unfold Fs.exists_
    rw [hc]
    dsimp only
    rw [Tree.is_dir_iff.mp hB.2]
    rfl
  have hco : symlinked_component fs base_dir (names.map .name) = none := by
    unfold validate_path_is_within_base at h
    rw [if_pos he] at h
    obtain ⟨_, -, h⟩ := Fallible.bind_eq_ok h
    obtain ⟨rel, hr, h⟩ := Fallible.bind_eq_ok h
    obtain ⟨_, hs, -⟩ := Fallible.bind_eq_ok h
    obtain rfl := relative_eq_of_ok ht hr
    unfold reject_symlinks at hs
    split at hs
    · rename_i hno
      exact hno
    · cases hs
  have hl := not_link_of_symlinked_component hco i (by simpa using hi)
  rw [← map_take] at hl
  cases hca : fs.tree.is_link (B ++ names.take (i + 1)) with
  | false => rfl
  | true =>
    obtain ⟨n, hn⟩ : ∃ n, names.take (i + 1) = names.take i ++ [n] :=
      ⟨names[i], (take_append_getElem hi).symm⟩
    have hso : (fs.tree.node (B ++ names.take i ++ [n])).isSome := by
      rw [hn, ← append_assoc] at hca
      unfold Tree.is_link isLink at hca
      cases hnod : fs.tree.node (B ++ names.take i ++ [n]) with
      | none =>
        rw [hnod] at hca
        cases hca
      | some node => rfl
    rw [hn, symlink_metadata_below hB hso] at hl
    rw [hn, ← append_assoc, Tree.is_link, hl] at hca
    cases hca

/-! ## Writing below the endpoint directory -/

/-- A change of files only, at places inside the endpoint directory. -/
structure Writes (base : List (Seg Text)) (w w' : World) : Prop where
  cwd : w'.fs.cwd = w.fs.cwd
  shape : Tree.SameShape w.fs.tree w'.fs.tree
  inside : ∃ new, w'.touched = w.touched ++ new ∧ ∀ p ∈ new, ∃ B, Rooted w.fs base B ∧ B <+: p

theorem Writes.refl (base : List (Seg Text)) (w : World) : Writes base w w :=
  ⟨rfl, .refl _, [], (append_nil _).symm, by simp⟩

theorem Writes.rooted {w w' : World} (h : Writes base w w') (hB : Rooted w'.fs base B) :
    Rooted w.fs base B :=
  hB.keeps h.cwd.symm h.shape.kept

theorem Writes.trans {base : List (Seg Text)} {w w' w'' : World} (h : Writes base w w')
    (h' : Writes base w' w'') : Writes base w w'' := by
  obtain ⟨new, ht, hn⟩ := h.inside
  obtain ⟨new', ht', hn'⟩ := h'.inside
  refine ⟨h'.cwd.trans h.cwd, h.shape.trans h'.shape, new ++ new', ?_, ?_⟩
  · rw [ht', ht, append_assoc]
  · intro p hp
    rcases mem_append.mp hp with hp | hp
    · exact hn p hp
    · obtain ⟨B, hB, hpr⟩ := hn' p hp
      exact ⟨B, h.rooted hB, hpr⟩

theorem Clear.writes {w w' : World} {names : List Text} (hc : Clear w.fs base names)
    (h : Writes base w w') : Clear w'.fs base names := by
  intro B hB i hi
  rw [h.shape.is_link_eq]
  exact hc B (h.rooted hB) i hi

theorem writes_with_tree {w : World} {tree : Tree Text Content} {places : List Place}
    (hs : Tree.SameShape w.fs.tree tree)
    (hp : ∀ p ∈ places, ∃ B, Rooted w.fs base B ∧ B <+: p) :
    Writes base w (w.with_tree tree places) :=
  ⟨rfl, hs, places, rfl, hp⟩

abbrev writes (base : List (Seg Text)) : Frame := ⟨Writes base, Writes.refl base, Writes.trans⟩

section

variable {base : List (Seg Text)} {α : Type} {w : World}

/-! ### The calls that write -/

/-- The path goes down from the endpoint directory along names. -/
def Below (base : List (Seg Text)) (names : List Text) (p : Path) : Prop :=
  p.components = base ++ names.map .name

variable {names : List Text} {n : Text} {p : Path}

section

variable (hp : Below base (names ++ [n]) p) (hclear : Clear w.fs base names)
  (hspot : w.fs.spot p = .ok q) (hdir : w.fs.tree.is_dir q = false)

include hp hclear hspot hdir

theorem place_below : ∃ B, Rooted w.fs base B ∧ q = B ++ (names ++ [n]) := by
  have has_dir : p.as_dir = false := by
    cases hc : p.as_dir with
    | false => rfl
    | true =>
      rw [is_dir_of_spot hc hspot] at hdir
      cases hdir
  apply spot_below hclear
  have hs : p.segs = base ++ names.map .name ++ [.name n] := by
    unfold Path.segs
    rw [has_dir, hp]
    simp
  rw [← hs]
  exact hspot

theorem place_inside : ∃ B, Rooted w.fs base B ∧ B <+: q := by
  obtain ⟨B, hB, rfl⟩ := place_below hp hclear hspot hdir
  exact ⟨B, hB, prefix_append B _⟩

end

theorem clear_snoc (hclear : Clear w.fs base names) (hB : Rooted w.fs base B)
    (hq : q = B ++ (names ++ [n])) (hl : w.fs.tree.is_link q = false) :
    Clear w.fs base (names ++ [n]) := by
  intro B' hB' i hi
  obtain rfl := hB.unique hB'
  rw [length_append, length_singleton] at hi
  by_cases hlast : i = names.length
  · rw [take_of_length_le (by simp; omega), ← hq]
    exact hl
  · rw [take_append_of_le_length (by omega)]
    exact hclear B hB i (by omega)

/-- A file is opened inside the endpoint directory, and then it is no link. -/
theorem writes_open_write {exclusive truncate : Bool} (hp : Below base (names ++ [n]) p)
    (hclear : Clear w.fs base names) :
    Holds refusable (writes base) w (sys (.open_write p exclusive truncate))
      fun _ w' => Clear w'.fs base (names ++ [n]) := by
  rintro answer w' (⟨modified, h⟩ | ⟨-, rfl, rfl⟩)
  · rcases open_write_cases h with ⟨fault, rfl, rfl⟩ | ⟨q, tree, rfl, hspot, hdir, hl, rfl, ht⟩
    · exact ⟨Writes.refl base _, fun a ha => by cases ha⟩
    · have hs : Tree.SameShape w.fs.tree tree := by
        rcases ht with rfl | ⟨rfl, -⟩
        · exact Tree.shape_put hl
        · exact .refl _
      obtain ⟨B, hB, hq⟩ := place_below hp hclear hspot hdir
      have hw : Writes base w (w.with_tree tree [q]) := by
        refine writes_with_tree hs ?_
        intro p' hp'
        rw [mem_singleton.mp hp']
        exact place_inside hp hclear hspot hdir
      exact ⟨hw, fun _ _ => (clear_snoc hclear hB hq hl).writes hw⟩
  · exact ⟨Writes.refl base _, fun a ha => by cases ha⟩

theorem Clear.not_link (hclear : Clear w.fs base (names ++ [n]))
    (hq : ∃ B, Rooted w.fs base B ∧ q = B ++ (names ++ [n])) : w.fs.tree.is_link q = false := by
  obtain ⟨B, hB, rfl⟩ := hq
  have hlast := hclear B hB names.length (by simp)
  rwa [take_of_length_le (by simp)] at hlast

section

variable (hp : Below base (names ++ [n]) p) (hclear : Clear w.fs base (names ++ [n]))

include hp hclear

theorem writes_rename {names' : List Text} {n' : Text} {p' : Path}
    (hp' : Below base (names' ++ [n']) p') (hc' : Clear w.fs base (names' ++ [n'])) :
    Holds refusable (writes base) w (sys (.rename p p')) fun _ _ => True := by
  rintro answer w' (h | ⟨-, rfl, rfl⟩)
  · rcases rename_cases h with ⟨fault, rfl, rfl⟩ |
      ⟨q, q', moved, rfl, hspot, hs', hn, hdir, hd', rfl⟩
    · exact ⟨Writes.refl base _, fun _ _ => trivial⟩
    · have hl := hclear.not_link (place_below hp hclear.dropLast hspot hdir)
      have hl' := hc'.not_link (place_below hp' hc'.dropLast hs' hd')
      refine ⟨writes_with_tree (Tree.shape_move hn hdir hl hl') ?_, fun _ _ => trivial⟩
      intro r hr
      rcases mem_cons.mp hr with rfl | hr
      · exact place_inside hp hclear.dropLast hspot hdir
      · rw [mem_singleton.mp hr]
        exact place_inside hp' hc'.dropLast hs' hd'
  · exact ⟨Writes.refl base _, fun _ _ => trivial⟩

theorem writes_remove_file :
    Holds refusable (writes base) w (sys (.remove_file p)) fun _ _ => True := by
  rintro answer w' (h | ⟨-, rfl, rfl⟩)
  · rcases remove_file_cases h with ⟨fault, rfl, rfl⟩ | ⟨q, rfl, hspot, hdir, rfl⟩
    · exact ⟨Writes.refl base _, fun _ _ => trivial⟩
    · have hl := hclear.not_link (place_below hp hclear.dropLast hspot hdir)
      refine ⟨writes_with_tree (Tree.shape_erase hl) ?_, fun _ _ => trivial⟩
      intro r hr
      rw [mem_singleton.mp hr]
      exact place_inside hp hclear.dropLast hspot hdir
  · exact ⟨Writes.refl base _, fun _ _ => trivial⟩

end

theorem write_writes (base : List (Seg Text)) (w : World) (handle : Place) (bytes : List UInt8)
    (modified : Option Nat) : Writes base w (w.write handle bytes modified) := by
  obtain ⟨hs, hc, ht⟩ := write_shape w handle bytes modified
  exact ⟨hc, hs, [], by rw [ht, append_nil], by simp⟩

theorem writes_write {handle : Place} {bytes : List UInt8} :
    Holds refusable (writes base) w (sys (.write handle bytes)) fun _ _ => True := by
  rintro answer w' (⟨rfl, modified, rfl⟩ | ⟨-, rfl, n, modified, rfl⟩)
  · exact ⟨write_writes base w handle bytes modified, fun _ _ => trivial⟩
  · exact ⟨write_writes base w handle _ modified, fun _ _ => trivial⟩

theorem writes_sync : Holds refusable (writes base) w (sys .sync) fun _ _ => True := by
  rintro answer w' (⟨rfl, rfl⟩ | ⟨-, rfl, rfl⟩) <;> exact ⟨Writes.refl base _, fun _ _ => trivial⟩

/-! ## The temporary name -/

theorem hex_digit_ne_slash (n : Nat) : hex_digit n ≠ '/' := by
  unfold hex_digit
  intro h
  have hm : ∀ c ∈ '0' :: "0123456789abcdef".toList, c ≠ '/' :=
    @of_decide_eq_true _ (decidableBAll _ _) rfl
  rw [getD_eq_getElem?_getD] at h
  cases hg : ("0123456789abcdef".toList)[n]? with
  | none =>
    rw [hg] at h
    exact absurd h (by decide)
  | some c =>
    rw [hg] at h
    exact hm c (.tail _ (mem_of_getElem? hg)) h

theorem plain_temp_name {random : Nat}
    (hs : ∀ text, prefix' = some text → '/' ∉ text) (hn : '/' ∉ n) :
    Plain (temp_name prefix' random n) := by
  have hl : 17 ≤ (temp_name prefix' random n).length := by
    simp [temp_name, hex16]
    omega
  constructor
  · have hd : '/' ∉ prefix'.getD DEFAULT_TEMP_PREFIX := by
      cases prefix' with
      | none => decide
      | some text => exact hs text rfl
    have hh : '/' ∉ hex16 random := by
      unfold hex16
      rw [List.mem_map]
      rintro ⟨i, -, hi⟩
      exact hex_digit_ne_slash _ hi
    simp only [temp_name, mem_append, not_or]
    exact ⟨⟨⟨hd, hh⟩, by decide⟩, hn⟩
  all_goals
    intro h
    rw [h] at hl
    simp at hl

theorem below_temp_path {parent : Path} {name : Text} (hb : base ≠ [])
    (hpa : parent.components = base ++ names.map .name) (hn : Plain name) :
    Below base (names ++ [name]) (parent.join (parse name)) := by
  unfold Below Path.join
  rw [hn.parse_eq]
  have hc : (Path.is_absolute ⟨[.name name], false⟩ || parent.components.isEmpty) = false := by
    simp [Path.is_absolute, hpa, hb]
  rw [hc]
  simp [Path.below, hpa]

/-! ## Writing a file -/

theorem writes_guarded {code : FileProg α} {Q : α → World → Prop}
    (hp : Below base (names ++ [n]) p) (hclear : Clear w.fs base (names ++ [n]))
    (h : Holds refusable (writes base) w code.run Q) :
    Holds refusable (writes base) w (guarded p code).run Q := by
  refine Holds.guarded h ?_
  intro w' hw
  exact writes_remove_file hp (hclear.writes hw)

theorem writes_write_body {handle : Place} :
    Holds refusable (writes base) w (write_body handle body).run fun _ _ => True :=
  Holds.timeout writes_write

theorem writes_flush_temp :
    Holds refusable (writes base) w (flush_temp durable).run fun _ _ => True := by
  unfold flush_temp
  cases durable with
  | true => exact Holds.timeout writes_sync
  | false => exact Holds.ignored writes_sync

theorem writes_fsync_parent_dir :
    Holds refusable (writes base) w fsync_parent_dir.run fun _ _ => True := by
  unfold fsync_parent_dir
  refine Holds.bind (Holds.timeout writes_sync) ?_
  intro _ w' _ _
  exact Holds.timeout writes_sync

theorem writes_write_temp {temp_path : Path} {temp : Text} {handle : Place}
    (ht : Below base (names ++ [n]) target_path) (hclear : Clear w.fs base (names ++ [n]))
    (hte : Below base (names ++ [temp]) temp_path) (hc' : Clear w.fs base (names ++ [temp])) :
    Holds refusable (writes base) w (write_temp target_path temp_path handle body durable).run
      fun _ _ => True := by
  unfold write_temp
  refine Holds.bind writes_write_body ?_
  intro _ w₁ h₁ _
  refine Holds.bind writes_flush_temp ?_
  intro _ w₂ h₂ _
  have hw := h₁.trans h₂
  exact Holds.timeout (writes_rename hte (hc'.writes hw) ht (hclear.writes hw))

theorem parent_below (hp : Below base (names ++ [n]) p) :
    p.parent = some ⟨base ++ names.map .name, false⟩ := by
  unfold Path.parent
  rw [hp]
  simp

theorem file_name_below (hp : Below base (names ++ [n]) p) : p.file_name = some n := by
  unfold Path.file_name
  rw [hp]
  simp

section

variable (hbase : base ≠ []) (htarget : Below base (names ++ [n]) target_path)
  (hclear : Clear w.fs base (names ++ [n])) (hn : '/' ∉ n)

include hbase htarget hclear hn

theorem writes_atomic_write (hs : ∀ text, prefix' = some text → '/' ∉ text) :
    Holds refusable (writes base) w (atomic_write target_path body prefix' durable).run
      fun _ _ => True := by
  unfold atomic_write
  rw [parent_below htarget, file_name_below htarget]
  refine Holds.bind (Q := fun _ w' => w' = w) (Holds.query ?_) ?_
  · rintro w r w' (⟨-, rfl⟩ | ⟨-, h⟩)
    · rfl
    · cases h
  · rintro random _ - rfl
    have ht : Below base (names ++ [temp_name prefix' random n])
        (Path.join ⟨base ++ names.map .name, false⟩
          (parse (temp_name prefix' random n))) :=
      below_temp_path hbase rfl (plain_temp_name hs hn)
    refine Holds.bind (Holds.timeout (writes_open_write ht hclear.dropLast)) ?_
    intro handle w₁ h₁ hc₁
    refine Holds.bind (writes_guarded ht hc₁
      (writes_write_temp htarget (hclear.writes h₁) ht hc₁)) ?_
    intro _ w₂ _ _
    cases durable with
    | true => exact writes_fsync_parent_dir
    | false => exact Holds.pure trivial

theorem writes_write_target (hs : ∀ text, config.temp_prefix = some text → '/' ∉ text) :
    Holds refusable (writes base) w (write_target config target_path body).run fun _ _ => True := by
  have hw : ∀ (text : String) (exclusive : Bool), Holds refusable (writes base) w
      (do
        let handle ← timeout text (sys (.open_write target_path exclusive false))
        write_body handle body
        plain (sys .sync)
        return true : FileProg Bool).run fun _ _ => True := by
    intro text exclusive
    refine Holds.bind (Holds.timeout (writes_open_write htarget hclear.dropLast)) ?_
    intro handle w₁ _ _
    refine Holds.bind writes_write_body ?_
    intro _ w₂ _ _
    refine Holds.bind (Holds.plain writes_sync) ?_
    intro _ w₃ _ _
    exact Holds.pure trivial
  have ha : ∀ prefix' : Option Text, (∀ text, prefix' = some text → '/' ∉ text) →
      Holds refusable (writes base) w (do
        atomic_write target_path body prefix' config.durable
        return true : FileProg Bool).run fun _ _ => True := by
    intro prefix' ht
    refine Holds.bind (writes_atomic_write hbase htarget hclear hn ht) ?_
    intro _ w₁ _ _
    exact Holds.pure trivial
  unfold write_target
  cases config.file_exist with
  | Fail | Append => exact hw _ _
  | Override => exact ha _ hs
  | TryRename =>
    cases ht : config.temp_prefix with
    | none => exact Holds.throw
    | some text =>
      refine ha (some text) ?_
      intro text' hte
      exact hs text' (ht.trans hte)
  | Ignore =>
    refine Holds.bind Holds.look ?_
    rintro fs w' - ⟨rfl, rfl⟩
    split
    · exact Holds.pure trivial
    · exact ha _ hs

end

/-! ## The marker -/

theorem relative_of_validated {raw : Text} {label : String}
    (h : validate_relative_filename raw label = .ok ()) :
    raw ≠ [] ∧ (parse raw).is_absolute = false ∧ (parse raw).has_up = false := by
  unfold validate_relative_filename at h
  split at h
  · cases h
  · rename_i he
    split at h
    · cases h
    · split at h
      · cases h
      · rename_i ha
        split at h
        · cases h
        · rename_i hu
          refine ⟨?_, by simpa using ha, by simpa [path_contains_traversal] using hu⟩
          rintro rfl
          exact he rfl

theorem writes_open_write_as_dir {exclusive truncate : Bool} (hp : p.as_dir = true) :
    Holds refusable (writes base) w (sys (.open_write p exclusive truncate)) fun _ _ => True := by
  rintro answer w' (⟨modified, h⟩ | ⟨-, rfl, rfl⟩)
  · rcases open_write_cases h with ⟨fault, rfl, rfl⟩ | ⟨q, tree, rfl, hspot, hdir, -⟩
    · exact ⟨Writes.refl base _, fun _ _ => trivial⟩
    · rw [is_dir_of_spot hp hspot] at hdir
      cases hdir
  · exact ⟨Writes.refl base _, fun _ _ => trivial⟩

theorem writes_write_done (hbase : dir_path.components ≠ []) :
    Holds refusable (writes dir_path.components) w (write_done config dir_path file_name).run
      fun _ _ => True := by
  unfold write_done
  cases config.done_file_name with
  | none => exact Holds.pure trivial
  | some done_pattern =>
    refine Holds.bind Holds.checked ?_
    rintro ⟨⟩ _ - ⟨hr, rfl⟩
    obtain ⟨hne, ha, hu⟩ := relative_of_validated hr
    obtain ⟨names, hna, -⟩ := exists_names ha hu
    refine Holds.bind Holds.validated ?_
    rintro ⟨⟩ w₁ - ⟨hv, rfl⟩
    have hc := components_join hbase ha
    have ho : Holds refusable (writes dir_path.components) w₁ (sys (.open_write
        (dir_path.join (parse (replace FILE_NAME file_name done_pattern))) false true))
        fun _ _ => True := by
      rcases eq_nil_or_concat names with rfl | ⟨init, last, rfl⟩
      · apply writes_open_write_as_dir
        exact as_dir_join hbase ha (ends_as_dir_of_below_nil hne ha hna)
      · rw [hna, concat_eq_append] at hc
        have hclear := clear_of_validated hbase hc hv
        exact Holds.mono (writes_open_write hc hclear.dropLast) fun _ _ _ => trivial
    refine Holds.bind (Holds.timeout ho) ?_
    intro _ w' _ _
    exact Holds.pure trivial

theorem writes_write_validated (hbase : dir_path.components ≠ [])
    (htarget : Below dir_path.components (names ++ [n]) target_path) (hn : '/' ∉ n)
    (hs : ∀ text, config.temp_prefix = some text → '/' ∉ text) :
    Holds refusable (writes dir_path.components) w
      (write_validated config dir_path target_path file_name body).run fun _ _ => True := by
  unfold write_validated
  refine Holds.bind Holds.validated ?_
  rintro ⟨⟩ w₁ - ⟨hv, rfl⟩
  have hclear := clear_of_validated hbase htarget hv
  refine Holds.bind (writes_write_target hbase htarget hclear hn hs) ?_
  intro written w₂ _ _
  cases written with
  | false => exact Holds.pure trivial
  | true =>
    refine Holds.bind (writes_write_done hbase) ?_
    intro _ w₃ _ _
    exact Holds.pure trivial

end

end camel_file
