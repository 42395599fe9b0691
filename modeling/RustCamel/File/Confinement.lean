-- The file producer keeps to its directory. What it creates, opens, renames or removes lies inside
-- the canonical endpoint directory, apart from the directories that autoCreate makes on the way to
-- it. Two inputs get around the guard: a name that names nothing, and an endpoint path with `..`
-- behind a directory that is missing.
import RustCamel.File.GuardedWrites

namespace camel_file

open FileTree UnixPath Prog List

variable {refusable : Call → Prop} {base : List (Seg Text)} {names : List Text}

/-! ## Directories made on the way -/

/-- The place of a name on the endpoint's own path. -/
def OnTheWay (fs : Fs) (base : List (Seg Text)) (p : Place) : Prop :=
  ∃ init n q, init ++ [.name n] <+: base ∧ Rooted fs init q ∧ p = q ++ [n]

/-- New directories only, inside the endpoint directory or on the way to it. -/
structure Creates (base : List (Seg Text)) (w w' : World) : Prop where
  cwd : w'.fs.cwd = w.fs.cwd
  adds : Tree.Adds w.fs.tree w'.fs.tree
  made : ∃ new, w'.touched = w.touched ++ new ∧ ∀ p ∈ new,
    w.fs.tree.node p = none ∧ w'.fs.tree.is_dir p ∧
      ((∃ B, Rooted w'.fs base B ∧ B <+: p) ∨ OnTheWay w'.fs base p)

theorem Creates.refl (base : List (Seg Text)) (w : World) : Creates base w w :=
  ⟨rfl, .refl _, [], (append_nil _).symm, by simp⟩

variable {fs fs' : Fs} {p B : Place} {config : FileConfig} {base_dir : Path}
  {path : List (Seg Text)} {file_name : Text} {w : World} {w' : World}

theorem OnTheWay.keeps (h : OnTheWay fs base p) (hc : fs'.cwd = fs.cwd)
    (hk : Tree.Keeps fs.tree fs'.tree) : OnTheWay fs' base p := by
  obtain ⟨init, n, q, hp, hr, rfl⟩ := h
  exact ⟨init, n, q, hp, hr.keeps hc hk, rfl⟩

theorem Creates.trans {w w' w'' : World} (h : Creates base w w') (h' : Creates base w' w'') :
    Creates base w w'' := by
  obtain ⟨new, ht, hn⟩ := h.made
  obtain ⟨new', ht', hn'⟩ := h'.made
  have hk := h'.adds.keeps
  refine ⟨h'.cwd.trans h.cwd, h.adds.trans h'.adds, new ++ new', ?_, ?_⟩
  · rw [ht', ht, append_assoc]
  · intro p hp
    rcases mem_append.mp hp with hp | hp
    · obtain ⟨hf, hd, hw⟩ := hn p hp
      refine ⟨hf, hk.is_dir hd, ?_⟩
      rcases hw with ⟨B, hB, hpr⟩ | hwa
      · exact .inl ⟨B, hB.keeps h'.cwd hk, hpr⟩
      · exact .inr (hwa.keeps h'.cwd hk)
    · obtain ⟨hf, hd, hw⟩ := hn' p hp
      exact ⟨h.adds.node_eq_none hf, hd, hw⟩

/-- A path of names, maybe from the root or with `.` at the head. -/
def Straight (path : List (Seg Text)) : Prop :=
  ∃ (lead : List (Seg Text)) (names : List Text), path = lead ++ names.map .name ∧ lead.length ≤ 1

/-- Something stands where the path leads. -/
def There (fs : Fs) (path : List (Seg Text)) : Prop :=
  ∃ q left, fs.tree.walk Tree.max_links fs.cwd path = .ok (q, left) ∧ (fs.tree.node q).isSome

/-- No link below the endpoint directory, which is there or is named straight. -/
structure Ready (fs : Fs) (base : List (Seg Text)) (names : List Text) : Prop where
  clear : Clear fs base names
  reach : There fs base ∨ Straight base

theorem Straight.rest {init rest : List (Seg Text)} {n : Text}
    (h : Straight (init ++ [.name n] ++ rest)) : ∃ names : List Text, rest = names.map .name := by
  obtain ⟨lead, names, heq, hl⟩ := h
  refine ⟨names.drop (init.length + 1 - lead.length), ?_⟩
  have hd : (init ++ [Seg.name n] ++ rest).drop (init.length + 1) = rest := by
    rw [drop_append_of_le_length (by simp)]
    simp
  rw [← hd, heq, drop_append, drop_eq_nil_of_le (by omega), nil_append, map_drop]

/-! ## One directory -/

section

variable {w : World} {init : List (Seg Text)} {n : Text} {q : Place}

/-- The world with a new directory. -/
def with_dir (w : World) (p : Place) : World := w.with_tree (w.fs.tree.put p .dir) [p]

theorem is_dir_with_dir (hq : w.fs.tree.is_dir q) (hf : w.fs.tree.node (q ++ [n]) = none) :
    (with_dir w (q ++ [n])).fs.tree.is_dir (q ++ [n]) := by
  apply Tree.is_dir_iff.mpr
  refine Tree.put_self hq ?_
  unfold Tree.is_dir
  rw [hf]
  rfl

theorem node_below_with_dir (hf : w.fs.tree.node q = none) {m : List Text} (hm : m ≠ []) :
    (with_dir w q).fs.tree.node (q ++ m) = none := by
  have hn : q ++ m ≠ q := by simpa using hm
  show (w.fs.tree.put q .dir).node (q ++ m) = none
  rw [Tree.put_other hn]
  refine Tree.node_below ?_ hm
  unfold Tree.is_dir
  rw [hf]
  rfl

theorem rooted_with_dir (hi : Rooted w.fs init q) (hf : w.fs.tree.node (q ++ [n]) = none) :
    Rooted (with_dir w (q ++ [n])).fs (init ++ [.name n]) (q ++ [n]) := by
  have hne := is_dir_with_dir hi.2 hf
  have hb : Rooted (with_dir w (q ++ [n])).fs init q := hi.keeps rfl (Tree.adds_put hf).keeps
  obtain ⟨⟨left, hw⟩, hq⟩ := hb
  refine ⟨⟨left, ?_⟩, hne⟩
  have hn := Tree.is_dir_iff.mp hne
  rw [Tree.walk_append, hw]
  dsimp only
  rw [Tree.walk_step hq (by rw [hn]; rfl) (by rw [Tree.is_link, hn]; rfl), Tree.walk_nil]

/-- A new directory on a straight way to the endpoint leads there only if it is the endpoint
itself, and then it is empty. -/
theorem clear_with_dir_on_the_way (hp : init ++ [.name n] <+: base) (hs : Straight base)
    (hin : Rooted w.fs init q) (hf : w.fs.tree.node (q ++ [n]) = none) :
    Clear (with_dir w (q ++ [n])).fs base names := by
  intro B hB i hi
  obtain ⟨rest, rfl⟩ := hp
  obtain ⟨restNames, rfl⟩ := hs.rest
  obtain ⟨⟨left, hw⟩, hne⟩ := rooted_with_dir hin hf
  obtain ⟨⟨left', hB'⟩, -⟩ := hB
  rw [Tree.walk_append, hw] at hB'
  dsimp only at hB'
  have hn := Tree.is_dir_iff.mp hne
  cases restNames with
  | cons m restNames =>
    rw [map_cons, Tree.walk_missing hne (node_below_with_dir hf (by simp))] at hB'
    cases hB'
  | nil =>
    rw [map_nil, Tree.walk_nil] at hB'
    cases hB'
    have ht : names.take (i + 1) ≠ [] := by
      rw [Ne, take_eq_nil_iff]
      rintro (h | rfl)
      · omega
      · cases hi
    unfold Tree.is_link
    rw [node_below_with_dir hf ht]
    rfl

theorem prefix_cases (h : path <+: base ++ names.map .name) :
    path <+: base ∨ ∃ m : List Text, m <+: names ∧ m ≠ [] ∧ path = base ++ m.map .name := by
  rcases List.prefix_or_prefix_of_prefix h (prefix_append base _) with hb | ⟨rest, rfl⟩
  · exact .inl hb
  · have hr : rest <+: names.map .name := (prefix_append_right_inj base).mp h
    obtain ⟨k, rfl⟩ : ∃ k, rest = (names.map .name).take k :=
      ⟨rest.length, (prefix_iff_eq_take.mp hr)⟩
    by_cases hnil : names.take k = []
    · left
      rw [← map_take, hnil, map_nil, append_nil]
    · right
      exact ⟨names.take k, List.take_prefix k names, hnil, by rw [map_take]⟩

theorem There.adds (h : There fs base) (hc : fs'.cwd = fs.cwd)
    (ha : Tree.Adds fs.tree fs'.tree) : There fs' base := by
  obtain ⟨q, left, hw, hs⟩ := h
  have hn := ha.same q hs
  refine ⟨q, left, ?_, by rw [hn]; exact hs⟩
  rw [hc]
  exact ha.keeps.walk hw hn

/-- What leads to the endpoint after a directory was added, while something stood there before. -/
theorem rooted_of_there (h : There fs base) (hB : Rooted fs' base B) (hc : fs'.cwd = fs.cwd)
    (ha : Tree.Adds fs.tree fs'.tree) : Rooted fs base B := by
  obtain ⟨q, left, hw, hs⟩ := h
  obtain ⟨⟨left', hw'⟩, hd⟩ := hB
  have hn := ha.same q hs
  rw [hc, ha.keeps.walk hw hn] at hw'
  cases hw'
  refine ⟨⟨left, hw⟩, ?_⟩
  unfold Tree.is_dir
  rw [← hn]
  exact hd

theorem There.of_rooted (h : Rooted fs base B) : There fs base := by
  obtain ⟨⟨left, hw⟩, hd⟩ := h
  refine ⟨B, left, hw, ?_⟩
  rw [Tree.is_dir_iff.mp hd]
  rfl

/-- A directory that is made on the path to a file below the endpoint. -/
theorem creates_mkdir (hre : Ready w.fs base names) (hp : path <+: base ++ names.map .name)
    (hsp : w.fs.tree.spot w.fs.cwd path = .ok q) (hf : w.fs.tree.node q = none) :
    Creates base w (with_dir w q) ∧ Ready (with_dir w q).fs base names := by
  have hn : w.fs.tree.is_dir q = false := by
    unfold Tree.is_dir
    rw [hf]
    rfl
  obtain ⟨init, n, p, left, rfl, hwa, hd, rfl⟩ := Tree.spot_not_dir hsp hn
  have hin : Rooted w.fs init p := ⟨⟨left, hwa⟩, hd⟩
  have ha : Tree.Adds w.fs.tree (with_dir w (p ++ [n])).fs.tree := Tree.adds_put hf
  have hc : ((∃ B, Rooted (with_dir w (p ++ [n])).fs base B ∧ B <+: p ++ [n]) ∨
      OnTheWay (with_dir w (p ++ [n])).fs base (p ++ [n])) →
      Creates base w (with_dir w (p ++ [n])) := by
    intro hw
    refine ⟨rfl, ha, [p ++ [n]], rfl, ?_⟩
    intro p' hp'
    rw [mem_singleton.mp hp']
    exact ⟨hf, is_dir_with_dir hd hf, hw⟩
  have hr : There (with_dir w (p ++ [n])).fs base ∨ Straight base := by
    rcases hre.reach with ht | hs
    · exact .inl (ht.adds rfl ha)
    · exact .inr hs
  -- a link that is there now was there before
  have hcl : There w.fs base → Clear (with_dir w (p ++ [n])).fs base names := by
    intro ht B hB i hi
    have hb := hre.clear B (rooted_of_there ht hB rfl ha) i hi
    cases hca : (with_dir w (p ++ [n])).fs.tree.is_link (B ++ names.take (i + 1)) with
    | false => rfl
    | true =>
      rw [ha.is_link hca] at hb
      cases hb
  rcases prefix_cases hp with hpr | ⟨m, hm, hne, hp⟩
  · refine ⟨hc (.inr ⟨init, n, p, hpr, hin.keeps rfl ha.keeps, rfl⟩), ?_, hr⟩
    rcases hre.reach with ht | hs
    · exact hcl ht
    · exact clear_with_dir_on_the_way hpr hs hin hf
  · -- below the endpoint, so the endpoint is there
    obtain ⟨m, n', rfl⟩ : ∃ m' n', m = m' ++ [n'] := by
      rcases eq_nil_or_concat m with rfl | ⟨m', n', rfl⟩
      · exact absurd rfl hne
      · exact ⟨m', n', concat_eq_append ..⟩
    have hcl' : Clear w.fs base m := by
      obtain ⟨rest, rfl⟩ := hm
      have hta := hre.clear.take m.length
      rwa [append_assoc, take_left] at hta
    rw [hp, map_append, ← append_assoc] at hsp
    obtain ⟨B, hB, hq⟩ := spot_below hcl' hsp
    refine ⟨hc (.inl ⟨B, hB.keeps rfl ha.keeps, ?_⟩), hcl (.of_rooted hB), hr⟩
    rw [hq]
    exact prefix_append B _

end

/-! ## `create_dir_all` -/

/-- In every run the code only makes directories, inside the endpoint directory or on the way to
it. -/
def MakesDirs (refusable : Call → Prop) (base : List (Seg Text)) (names : List Text) {α : Type}
    (w : World) (code : Prog Call Answer α) : Prop :=
  wp (ofSem (os refusable)) code
    (fun _ w' => Creates base w w' ∧ Ready w'.fs base names) w

theorem MakesDirs.after {α : Type} {code : Prog Call Answer α} (h : Creates base w w')
    (hco : MakesDirs refusable base names w' code) :
    wp (ofSem (os refusable)) code
      (fun _ w'' => Creates base w w'' ∧ Ready w''.fs base names) w' := by
  refine wp_mono (mono_ofSem _) ?_ hco
  rintro r w'' ⟨hc, hr⟩
  exact ⟨h.trans hc, hr⟩

/-- What a call of `mkdir` leaves behind. -/
theorem mkdir_creates {path : Path} {answer : Except Fault Unit} (hr : Ready w.fs base names)
    (hp : path.components <+: base ++ names.map .name)
    (h : os refusable (.mkdir path) w answer w') : Creates base w w' ∧ Ready w'.fs base names := by
  rcases h with h | ⟨-, rfl, rfl⟩
  · rcases mkdir_cases h with ⟨fault, rfl, rfl⟩ | ⟨q, rfl, hs, hf, rfl⟩
    · exact ⟨.refl base w', hr⟩
    · exact creates_mkdir hr hp hs hf
  · exact ⟨.refl base w', hr⟩

theorem look_unchanged (h : os refusable .look w fs w') : w' = w := by
  rcases h with ⟨-, rfl⟩ | ⟨-, h⟩
  · rfl
  · cases h

theorem create_dir_all_creates {rev : List (Seg Text)} (hr : Ready w.fs base names)
    (hp : rev.reverse <+: base ++ names.map .name) :
    MakesDirs refusable base names w (create_dir_all_rev rev) := by
  induction rev generalizing w with
  | nil => exact ⟨.refl base w, hr⟩
  | cons last rest ih =>
    have hre : rest.reverse <+: base ++ names.map .name := by
      rw [reverse_cons] at hp
      exact (prefix_append _ _).trans hp
    intro answer w₁ hm
    obtain ⟨hc₁, hr₁⟩ := mkdir_creates hr hp hm
    cases answer with
    | ok u => exact ⟨hc₁, hr₁⟩
    | error fault =>
      have hu : ∀ w₂ : World, Creates base w w₂ → Ready w₂.fs base names → ∀ fault : Fault,
          wp (ofSem (os refusable)) (.call .look fun fs => .done
            (if fs.is_dir ⟨(last :: rest).reverse, false⟩ then .ok () else .error fault) :
              Prog Call Answer (Except Fault Unit))
            (fun _ w' => Creates base w w' ∧ Ready w'.fs base names) w₂ := by
        intro w₂ hc hr₂ fault fs w₃ hl
        obtain rfl := look_unchanged hl
        exact ⟨hc, hr₂⟩
      cases fault with
      | NotFound =>
        dsimp only
        split
        · exact ⟨hc₁, hr₁⟩
        · rw [wp_bind]
          refine wp_mono (mono_ofSem _) ?_ (MakesDirs.after hc₁ (ih hr₁ hre))
          rintro (fault | u) w₂ ⟨hc₂, hr₂⟩
          · exact ⟨hc₂, hr₂⟩
          · intro answer w₃ hm'
            obtain ⟨hc₃, hr₃⟩ := mkdir_creates hr₂ hp hm'
            have hc := hc₂.trans hc₃
            cases answer with
            | ok u => exact ⟨hc, hr₃⟩
            | error fault => exact hu w₃ hc hr₃ fault
      | NotADirectory | IsADirectory | AlreadyExists | Loop | Refused =>
        exact hu w₁ hc₁ hr₁ _

/-! ## Whole calls -/

theorem auto_create_dirs_creates {target_path parent : Path} (hr : Ready w.fs base names)
    (ht : target_path.parent = some parent)
    (hp : parent.components = base ++ names.map .name) :
    wp (ofSem (os refusable)) (auto_create_dirs config target_path).run
      (fun _ w' => Creates base w w' ∧ (config.auto_create = false → w' = w)) w := by
  unfold auto_create_dirs
  rw [ht]
  cases config.auto_create with
  | false => exact ⟨.refl base w, fun _ => rfl⟩
  | true =>
    show wp _ (timeout "Timeout creating directories" (create_dir_all parent)).run _ w
    unfold timeout
    rw [wp_run_bind, wp_run_lift]
    have hco : MakesDirs refusable base names w (create_dir_all parent) := by
      apply create_dir_all_creates hr
      rw [reverse_reverse, hp]
    refine wp_mono (mono_ofSem _) ?_ hco
    rintro r w' ⟨hc, -⟩ elapsed w'' he
    obtain rfl : w'' = w' := by
      rcases he with rfl | ⟨-, h⟩
      · rfl
      · cases h
    cases elapsed with
    | true | false => exact ⟨hc, fun h => by cases h⟩

/-- First directories, then files. -/
def Traced (base : List (Seg Text)) (auto_create : Bool) (w w' : World) : Prop :=
  ∃ middle, Creates base w middle ∧ (auto_create = false → middle = w) ∧ Writes base middle w'

theorem There.of_exists (h : fs.exists_ base_dir) : There fs base_dir.components := by
  unfold Fs.exists_ at h
  split at h
  · rename_i q hq
    obtain ⟨left, hw⟩ := Tree.walk_of_resolve hq
    unfold Path.segs at hw
    split at hw
    · obtain ⟨r, middle, hb, hh⟩ := Tree.walk_of_append hw
      rw [Tree.walk_here] at hh
      split at hh
      · rename_i hd
        refine ⟨r, middle, hb, ?_⟩
        rw [Tree.is_dir_iff.mp hd]
        rfl
      · cases hh
    · rw [append_nil] at hw
      exact ⟨q, left, hw, h⟩
  · cases h

theorem straight_of_no_up {text : Text} (h : (parse text).has_up = false) :
    Straight (parse text).components := by
  obtain ⟨names, hn, -⟩ := parts_eq_names h
  refine ⟨leading text, names, by rw [← hn]; rfl, ?_⟩
  rcases leading_cases text with hl | hl | hl <;> rw [hl] <;> simp

theorem produce_traced {dir_path target_path : Path} {last : Text} {body : List UInt8}
    (hb : dir_path.components ≠ [])
    (hre : There w.fs dir_path.components ∨ Straight dir_path.components)
    (hs : ∀ text, config.temp_prefix = some text → '/' ∉ text)
    (ht : Below dir_path.components (names ++ [last]) target_path) (hlast : '/' ∉ last) :
    wp (ofSem (os refusable)) (produce config dir_path target_path file_name body).run
      (fun _ w' => Traced dir_path.components config.auto_create w w') w := by
  unfold produce
  rw [wp_run_bind]
  refine wp_mono (mono_ofSem _) ?_
    (Holds.validated : Holds refusable (writes dir_path.components) w _ _)
  rintro (err | u) w₁ ⟨hw, hv⟩
  · exact ⟨w, .refl _ w, fun _ => rfl, hw⟩
  · obtain ⟨hv, rfl⟩ := hv u rfl
    have hr : Ready w₁.fs dir_path.components names := ⟨(clear_of_validated hb ht hv).dropLast, hre⟩
    rw [wp_run_bind]
    refine wp_mono (mono_ofSem _) ?_ (auto_create_dirs_creates hr (parent_below ht) rfl)
    rintro (err | u) w₂ ⟨hc, hsa⟩
    · exact ⟨w₂, hc, hsa, .refl _ w₂⟩
    · refine wp_mono (mono_ofSem _) ?_ (writes_write_validated hb ht hlast hs)
      rintro r w₃ ⟨hw', -⟩
      exact ⟨w₂, hc, hsa, hw'⟩

theorem call_traced {body : List UInt8} (hb : (parse config.directory).components ≠ [])
    (hre : There w.fs (parse config.directory).components ∨
      Straight (parse config.directory).components)
    (hs : ∀ text, config.temp_prefix = some text → '/' ∉ text)
    (hna : (parse file_name).below ≠ []) :
    wp (ofSem (os refusable)) (call config file_name body).run
      (fun _ w' => Traced (parse config.directory).components config.auto_create w w') w := by
  unfold call
  rw [wp_run_bind]
  cases hr : validate_relative_filename file_name "fileName" with
  | error err => exact ⟨w, .refl _ w, fun _ => rfl, .refl _ w⟩
  | ok u =>
    obtain ⟨-, ha, hu⟩ := relative_of_validated hr
    obtain ⟨names, hn, hp⟩ := exists_names ha hu
    obtain ⟨init, last, rfl⟩ : ∃ init last, names = init ++ [last] := by
      rcases eq_nil_or_concat names with rfl | ⟨init, last, rfl⟩
      · exact absurd hn hna
      · exact ⟨init, last, concat_eq_append ..⟩
    have ht := components_join hb ha
    rw [hn] at ht
    exact produce_traced hb hre hs ht (hp last (by simp)).no_slash

/-! ## Confinement -/

theorem temp_prefix_of_accepted {given : FileConfig} (h : given.validate fs = .ok config)
    (text : Text) (ht : config.temp_prefix = some text) : '/' ∉ text := by
  unfold FileConfig.validate at h
  obtain ⟨_, -, h⟩ := Fallible.bind_eq_ok h
  obtain ⟨_, hc, h⟩ := Fallible.bind_eq_ok h
  obtain ⟨_, -, h⟩ := Fallible.bind_eq_ok h
  obtain ⟨_, -, h⟩ := Fallible.bind_eq_ok h
  obtain ⟨_, -, h⟩ := Fallible.bind_eq_ok h
  obtain ⟨_, -, h⟩ := Fallible.bind_eq_ok h
  cases h
  rw [show given.temp_prefix = some text from ht] at hc
  unfold check_temp_prefix at hc
  dsimp only at hc
  split at hc
  · cases hc
  · split at hc
    · cases hc
    · rename_i hvalid
      simp only [Bool.and_eq_true, is_valid_temp_prefix, Bool.not_eq_false, Bool.not_eq_true',
        contains_eq_mem, decide_eq_false_iff_not] at hvalid
      exact hvalid.1.2

/-- The place is inside the canonical endpoint directory. -/
def Confined (fs : Fs) (base_dir : Path) (p : Place) : Prop :=
  ∃ B, fs.canonicalize base_dir = .ok B ∧ B <+: p

theorem confined_of_rooted (hn : base_dir.components ≠ []) (hB : Rooted fs base_dir.components B)
    (hp : B <+: p) : Confined fs base_dir p :=
  ⟨B, canonicalize_of_rooted hn hB, hp⟩

theorem Traced.places {auto_create : Bool} (hn : base_dir.components ≠ [])
    (h : Traced base_dir.components auto_create ⟨fs, []⟩ w) (hp : p ∈ w.touched) :
    Confined w.fs base_dir p ∨
      auto_create = true ∧ fs.tree.node p = none ∧ w.fs.tree.is_dir p ∧
        OnTheWay w.fs base_dir.components p := by
  obtain ⟨middle, hc, hs, hw⟩ := h
  obtain ⟨dirs, hd, hm⟩ := hc.made
  obtain ⟨files, hf, hi⟩ := hw.inside
  have hk := hw.shape.keeps
  rw [hf, hd, nil_append] at hp
  rcases mem_append.mp hp with hdi | hfi
  · obtain ⟨hfr, his, ⟨B, hB, hpr⟩ | hwa⟩ := hm p hdi
    · exact .inl (confined_of_rooted hn (hB.keeps hw.cwd hk) hpr)
    · have ha : auto_create = true := by
        cases hca : auto_create with
        | true => rfl
        | false =>
          rw [hs hca] at hd
          rw [nil_append] at hd
          rw [← hd] at hdi
          cases hdi
      exact .inr ⟨ha, hfr, hk.is_dir his, hwa.keeps hw.cwd hk⟩
  · obtain ⟨B, hB, hpr⟩ := hi p hfi
    exact .inl (confined_of_rooted hn (hB.keeps hw.cwd hk) hpr)

/-- The producer keeps to its directory. Every place that a call creates, opens for writing, renames
or removes is inside the canonical endpoint directory, or it is a missing directory on the
endpoint's own path that autoCreate makes. The name names something, and the endpoint is there, or
its path is not empty and free of `..`. -/
theorem producer_keeps_to_its_directory (refusable : Call → Prop) (startup fs : Fs)
    (given config : FileConfig) (haccepted : given.validate startup = .ok config)
    (file_name : Text) (body : List UInt8) (hname : (parse file_name).below ≠ [])
    (hendpoint : fs.exists_ (parse config.directory) ∨
      config.directory ≠ [] ∧ (parse config.directory).has_up = false)
    (result : Except CamelError (Option Path)) (w : World)
    (hrun : Runs (os refusable) (call config file_name body).run ⟨fs, []⟩ result w) :
    ∀ p ∈ w.touched, Confined w.fs (parse config.directory) p ∨
      config.auto_create = true ∧ fs.tree.node p = none ∧ w.fs.tree.is_dir p ∧
        OnTheWay w.fs (parse config.directory).components p := by
  intro p hp
  have hb : (parse config.directory).components ≠ [] := by
    apply components_ne_nil
    rcases hendpoint with ht | ⟨hn, -⟩
    · intro he
      rw [he] at ht
      cases ht
    · exact hn
  have hr : There fs (parse config.directory).components ∨
      Straight (parse config.directory).components := by
    rcases hendpoint with ht | ⟨-, hu⟩
    · exact .inl (.of_exists ht)
    · exact .inr (straight_of_no_up hu)
  have hs : wp (ofSem (os refusable)) (call config file_name body).run (fun _ w' =>
      Traced (parse config.directory).components config.auto_create ⟨fs, []⟩ w') ⟨fs, []⟩ :=
    call_traced hb hr (temp_prefix_of_accepted haccepted) hname
  have htr := wp_ofSem_iff.mp hs result w hrun
  exact htr.places hb hp

def endpoint (directory : String) : FileConfig := { directory := directory.toList }

/-- The same endpoint once it is accepted. -/
def accepted (directory : String) : FileConfig :=
  { endpoint directory with move_to := some DEFAULT_MOVE_TO }

theorem validate_endpoint (fs : Fs) (directory : String) :
    (endpoint directory).validate fs = .ok (accepted directory) := rfl

def place (names : List String) : Place := names.map String.toList

/-- A system in which `/data` holds nothing. -/
def empty_data : Fs := ⟨Tree.bare.put (place ["data"]) .dir, []⟩

/-- The world after a call on a system without surprises. -/
def produced (fs : Fs) (directory file_name : String) : World :=
  (Prog.eval grant (call (accepted directory) file_name.toList [1]).run ⟨fs, []⟩).2

theorem nested_file_is_written_inside :
    place ["data", "in", "x.txt"] ∈ (produced empty_data "/data" "in/x.txt").touched ∧
      ∀ p ∈ (produced empty_data "/data" "in/x.txt").touched,
        Confined (produced empty_data "/data" "in/x.txt").fs (parse "/data".toList) p ∨
          (accepted "/data").auto_create = true ∧ empty_data.tree.node p = none ∧
            (produced empty_data "/data" "in/x.txt").fs.tree.is_dir p ∧
            OnTheWay (produced empty_data "/data" "in/x.txt").fs (parse "/data".toList).components
              p := by
  refine ⟨by decide +kernel, ?_⟩
  exact producer_keeps_to_its_directory (fun _ => True) empty_data empty_data (endpoint "/data")
    (accepted "/data") (validate_endpoint _ _) "in/x.txt".toList [1] (by decide +kernel)
    (.inl (by decide +kernel)) _ _ (runs_grant _ _)

/-- All that a call touches is inside the canonical endpoint directory. -/
def KeepsInside (fs : Fs) (config : FileConfig) (file_name : Text) : Prop :=
  ∀ (refusable : Call → Prop) (body : List UInt8) (result : Except CamelError (Option Path))
    (w : World), Runs (os refusable) (call config file_name body).run ⟨fs, []⟩ result w →
    ∀ p ∈ w.touched, Confined w.fs (parse config.directory) p

/-- `/data` holds a link to `/other`. -/
def linked_data : Fs :=
  ⟨((Tree.bare.put (place ["data"]) .dir).put (place ["other"]) .dir).put (place ["data", "out"])
    (.link [.root, .name "other".toList]), []⟩

theorem not_keepsInside {directory file_name : String}
    (hp : p ∈ (produced fs directory file_name).touched)
    (hB : (produced fs directory file_name).fs.canonicalize (parse directory.toList) = .ok B)
    (ho : ¬B <+: p) : ¬KeepsInside fs (accepted directory) file_name.toList := by
  intro h
  obtain ⟨B', hB', hpr⟩ := h (fun _ => True) [1] _ _ (runs_grant _ _) p hp
  obtain rfl : B = B' := Except.ok.inj (hB.symm.trans hB')
  exact ho hpr

/-- Three ways out of the endpoint directory: the directories above an endpoint that is missing, the
temporary file of a name that names nothing, and a link below an endpoint that `..` hides. -/
theorem producer_leaves_its_directory :
    ((endpoint "/data/in/box").validate empty_data = .ok (accepted "/data/in/box") ∧
      ¬KeepsInside empty_data (accepted "/data/in/box") "x.txt".toList) ∧
    ((endpoint "/data").validate empty_data = .ok (accepted "/data") ∧
      ¬KeepsInside empty_data (accepted "/data") ".".toList) ∧
    ((endpoint "/gone/../data").validate linked_data = .ok (accepted "/gone/../data") ∧
      ¬KeepsInside linked_data (accepted "/gone/../data") "out/sub/x.txt".toList) := by
  refine ⟨⟨validate_endpoint _ _, ?_⟩, ⟨validate_endpoint _ _, ?_⟩, ⟨validate_endpoint _ _, ?_⟩⟩
  · exact not_keepsInside (p := place ["data", "in"]) (B := place ["data", "in", "box"])
      (by decide +kernel) (by decide +kernel) (by decide +kernel)
  · exact not_keepsInside (p := place [".tmp.0000000000000000.data"]) (B := place ["data"])
      (by decide +kernel) (by decide +kernel) (by decide +kernel)
  · exact not_keepsInside (p := place ["other", "sub"]) (B := place ["data"])
      (by decide +kernel) (by decide +kernel) (by decide +kernel)

end camel_file
