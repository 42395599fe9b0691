-- One file in the hands of a poll: where it lies, where it lies while it is locked, what the read
-- of it gives, and the directories that the preparation of its move adds.
import RustCamel.File.GuardedWrites
import RustCamel.File.Polling

namespace camel_file

open FileTree UnixPath Prog

/-! ## Where a file lies -/

def entry (folder : List (Seg Text)) (n : Text) : Path := ⟨folder ++ [.name n], false⟩

/-- A file with this content is an entry of the directory. -/
structure FileIn (fs : Fs) (folder : List (Seg Text)) (P : Place) (n : Text) (content : Content) :
    Prop where
  rooted : Rooted fs folder P
  node : fs.tree.node (P ++ [n]) = some (.file content)

/-- A file with this content lies under a path as a listing gives it. -/
def FileAt (fs : Fs) (file_path : Path) (content : Content) : Prop :=
  ∃ folder n P, Plain n ∧ file_path = entry folder n ∧ FileIn fs folder P n content

/-- The file lies in the directory `P`, and the path of the directory leads nowhere else. While a
file is locked, the path may lead nowhere at all: the name of the lock may have been a link on it. -/
structure Held (fs : Fs) (folder : List (Seg Text)) (P : Place) (n : Text) (content : Content) :
    Prop where
  only : ∀ Q, Rooted fs folder Q → Q = P
  node : fs.tree.node (P ++ [n]) = some (.file content)

variable {fs : Fs} {w w' : World} {folder : List (Seg Text)} {P q : Place} {n m : Text}
  {content : Content} {sem : Sem Call Answer World} {config : FileConfig} {base_path : Path}

theorem FileIn.held (h : FileIn fs folder P n content) : Held fs folder P n content :=
  ⟨fun _ hQ => hQ.unique h.rooted, h.node⟩

theorem segs_entry : (entry folder n).segs = folder ++ [.name n] := List.append_nil _

theorem spot_entry (h : Rooted fs folder P) : fs.spot (entry folder n) = .ok (P ++ [n]) := by
  obtain ⟨⟨left, hw⟩, hd⟩ := h
  unfold Fs.spot
  rw [segs_entry, Tree.spot_name, hw]
  exact if_pos hd

theorem rooted_of_spot (h : fs.spot (entry folder n) = .ok q) :
    ∃ Q, Rooted fs folder Q ∧ q = Q ++ [n] := by
  unfold Fs.spot at h
  rw [segs_entry] at h
  obtain ⟨Q, left, hw, hd, rfl⟩ := Tree.spot_name_ok h
  exact ⟨Q, ⟨⟨left, hw⟩, hd⟩, rfl⟩

theorem Held.spot (h : Held fs folder P n content) (hs : fs.spot (entry folder m) = .ok q) :
    Rooted fs folder P ∧ q = P ++ [m] := by
  obtain ⟨Q, hQ, rfl⟩ := rooted_of_spot hs
  obtain rfl := h.only Q hQ
  exact ⟨hQ, rfl⟩

theorem is_dir_of_file (h : fs.tree.node q = some (.file content)) : fs.tree.is_dir q = false := by
  unfold Tree.is_dir
  rw [h]
  rfl

theorem is_link_of_file (h : fs.tree.node q = some (.file content)) :
    fs.tree.is_link q = false := by
  unfold Tree.is_link
  rw [h]
  rfl

/-! ## Reading -/

theorem open_read_of_fileIn (h : FileIn w.fs folder P n content) :
    w.open_read (entry folder n) = .ok content := by
  obtain ⟨⟨⟨left, hw⟩, hd⟩, hn⟩ := h
  have hs : (w.fs.tree.node (P ++ [n])).isSome := by
    rw [hn]
    rfl
  have hw' : w.fs.tree.walk Tree.max_links w.fs.cwd (folder ++ [.name n]) =
      .ok (P ++ [n], left) := by
    rw [Tree.walk_append, hw]
    dsimp only
    rw [Tree.walk_step hd hs (is_link_of_file hn), Tree.walk_nil]
  unfold World.open_read Fs.canonicalize
  rw [segs_entry, Tree.resolve_of_walk (by simp) hw']
  dsimp only
  rw [hn]

theorem Held.open_read (h : Held w.fs folder P n content) {got : Content}
    (ho : w.open_read (entry folder n) = .ok got) :
    got = content ∧ FileIn w.fs folder P n content := by
  unfold World.open_read at ho
  split at ho
  · cases ho
  · rename_i q hq
    unfold Fs.canonicalize at hq
    rw [segs_entry] at hq
    obtain ⟨left, hw⟩ := Tree.walk_of_resolve hq
    obtain ⟨Q, middle, hf, hlast⟩ := Tree.walk_of_append hw
    have hd : w.fs.tree.is_dir Q := by
      cases hc : w.fs.tree.is_dir Q with
      | true => rfl
      | false =>
        rw [Tree.walk_not_dir hc] at hlast
        cases hlast
    have hr : Rooted w.fs folder Q := ⟨⟨middle, hf⟩, hd⟩
    obtain rfl := h.only Q hr
    have hfi : FileIn w.fs folder Q n content := ⟨hr, h.node⟩
    have hre := open_read_of_fileIn hfi
    unfold World.open_read Fs.canonicalize at hre
    rw [segs_entry, hq] at hre
    exact ⟨Except.ok.inj (ho.symm.trans hre), hfi⟩

/-! ## Another name in the same directory -/

theorem move_entry (h : Held w.fs folder P n content) (hne : n ≠ m)
    (hre : (.ok (), w') = w.rename (entry folder n) (entry folder m)) :
    Rooted w.fs folder P ∧ w.fs.tree.is_dir (P ++ [m]) = false ∧
      w' = w.with_tree ((w.fs.tree.erase (P ++ [n])).put (P ++ [m]) (.file content))
        [P ++ [n], P ++ [m]] := by
  rcases rename_cases hre with ⟨fault, hf, -⟩ |
    ⟨p, q, moved, -, hp, hq, hn, -, hd, rfl⟩
  · cases hf
  · obtain ⟨hr, rfl⟩ := h.spot hp
    obtain ⟨-, rfl⟩ := h.spot hq
    obtain rfl := Option.some.inj (hn.symm.trans h.node)
    refine ⟨hr, hd, ?_⟩
    rw [if_neg (by simpa using hne)]

theorem node_move {t : Tree Text Content} (hd : t.is_dir P) (hn : n ≠ m)
    (hfr : t.is_dir (P ++ [m]) = false) :
    ((t.erase (P ++ [n])).put (P ++ [m]) (.file content)).node (P ++ [m]) =
      some (.file content) := by
  have hp : P ++ [m] ≠ P ++ [n] := by simpa using hn.symm
  have hf : P ≠ P ++ [n] := by simp
  apply Tree.put_self
  · unfold Tree.is_dir
    rw [Tree.erase_other hf]
    exact hd
  · unfold Tree.is_dir
    rw [Tree.erase_other hp]
    exact hfr

theorem Held.moved (h : Held w.fs folder P n content) (hn : n ≠ m)
    (hre : (.ok (), w') = w.rename (entry folder n) (entry folder m)) :
    Held w'.fs folder P m content := by
  obtain ⟨hr, hd, rfl⟩ := move_entry h hn hre
  refine ⟨?_, node_move hr.2 hn hd⟩
  intro Q hQ
  have hp : Rooted { w.fs with tree := w.fs.tree.erase (P ++ [n]) } folder Q :=
    hQ.keeps rfl Tree.keeps_before_put
  exact h.only Q (hp.keeps rfl Tree.keeps_before_erase)

/-- A file takes any name in its directory under which no directory stands. -/
theorem rename_entry (h : FileIn w.fs folder P n content)
    (hd : w.fs.tree.is_dir (P ++ [m]) = false) :
    ∃ w', (.ok (), w') = w.rename (entry folder n) (entry folder m) := by
  have hs := spot_entry (n := n) h.rooted
  have hs' := spot_entry (n := m) h.rooted
  unfold World.rename
  rw [hs, hs']
  unfold Fs.spot at hs hs'
  unfold Tree.rename
  rw [hs, hs']
  dsimp only
  rw [h.node, hd]
  dsimp only
  rw [if_neg (by decide)]
  split
  all_goals exact ⟨_, rfl⟩

theorem Held.left (h : Held w.fs folder P n content) (hn : n ≠ m)
    (hr : (.ok (), w') = w.rename (entry folder n) (entry folder m)) :
    w'.fs.tree.node (P ++ [n]) = none := by
  obtain ⟨-, -, rfl⟩ := move_entry h hn hr
  have hp : P ++ [n] ≠ P ++ [m] := by simpa using hn
  show ((w.fs.tree.erase (P ++ [n])).put (P ++ [m]) (.file content)).node (P ++ [n]) = none
  rw [Tree.put_other hp]
  exact Tree.erase_self (is_dir_of_file h.node)

theorem Held.moved_back (h : Held w.fs folder P n content) (hn : n ≠ m)
    (hl : w.fs.tree.is_link (P ++ [m]) = false)
    (hre : (.ok (), w') = w.rename (entry folder n) (entry folder m)) :
    FileIn w'.fs folder P m content := by
  obtain ⟨hr, hd, rfl⟩ := move_entry h hn hre
  have hl' : (w.fs.tree.erase (P ++ [n])).is_link (P ++ [m]) = false := by
    unfold Tree.is_link
    rw [Tree.erase_other (by simpa using hn.symm)]
    exact hl
  have he : Rooted { w.fs with tree := w.fs.tree.erase (P ++ [n]) } folder P :=
    hr.keeps rfl (Tree.keeps_erase (is_link_of_file h.node))
  exact ⟨he.keeps rfl (Tree.keeps_put hl'), node_move hr.2 hn hd⟩

/-! ## The name of the lock -/

def lock_name (n : Text) : Text := n ++ ".camel-lock".toList

theorem plain_lock_name (h : Plain n) : Plain (lock_name n) := by
  have hl : 11 ≤ (lock_name n).length := by
    simp [lock_name]
  constructor
  · unfold lock_name
    rw [List.mem_append, not_or]
    exact ⟨h.no_slash, by decide⟩
  all_goals
    intro heq
    rw [heq] at hl
    simp at hl

theorem lock_name_ne : n ≠ lock_name n := by
  intro heq
  have hl := congrArg List.length heq
  simp [lock_name] at hl

theorem file_name_entry : (entry folder n).file_name = some n := by
  simp [Path.file_name, entry]

theorem parent_entry : (entry folder n).parent = some ⟨folder, false⟩ := by
  simp [Path.parent, entry]

theorem lock_path_entry (h : Plain n) :
    lock_path (entry folder n) = entry folder (lock_name n) := by
  unfold lock_path Path.with_file_name
  rw [file_name_entry, parent_entry]
  exact (plain_lock_name h).join_eq _

/-! ## The directories for a move -/

/-- The call adds directories at most. -/
def Added (w w' : World) : Prop := w'.fs.cwd = w.fs.cwd ∧ Tree.Adds w.fs.tree w'.fs.tree

theorem Added.refl (w : World) : Added w w := ⟨rfl, .refl _⟩

theorem Added.trans {w'' : World} (h : Added w w') (h' : Added w' w'') : Added w w'' :=
  ⟨h'.1.trans h.1, h.2.trans h'.2⟩

theorem FileIn.added (h : FileIn w.fs folder P n content) (ha : Added w w') :
    FileIn w'.fs folder P n content := by
  refine ⟨h.rooted.keeps ha.1 ha.2.keeps, ?_⟩
  rw [ha.2.same _ (by rw [h.node]; rfl)]
  exact h.node

theorem Added.not_link (h : Added w w') (hn : w.fs.tree.node q = none) :
    w'.fs.tree.is_link q = false := by
  cases hc : w'.fs.tree.is_link q with
  | false => rfl
  | true =>
    have hl := h.2.is_link hc
    unfold Tree.is_link at hl
    rw [hn] at hl
    cases hl

/-- The calls that prepare a move. -/
def Building : Call → Prop
  | .look | .mkdir _ | .canonicalize _ => True
  | _ => False

theorem added_of_building {c : Call} {answer : Answer c} (hc : Building c)
    (h : os (fun _ => True) c w answer w') : Added w w' := by
  cases c with
  | look =>
    rcases h with ⟨-, rfl⟩ | ⟨-, h⟩
    · exact .refl _
    · cases h
  | canonicalize p =>
    rcases h with ⟨-, rfl⟩ | ⟨-, -, rfl⟩ <;> exact .refl _
  | mkdir p =>
    rcases h with h | ⟨-, -, rfl⟩
    · rcases mkdir_cases h with ⟨fault, -, rfl⟩ | ⟨q, -, -, hn, rfl⟩
      · exact .refl _
      · exact ⟨rfl, Tree.adds_put hn⟩
    · exact .refl _
  | open_write p exclusive truncate | write handle bytes | sync | rename p p' | remove_file p
  | open_read p | read_dir p | elapsed | random => cases hc

theorem makes_create_dir_all_rev (rev : List (Seg Text)) :
    Makes Building (create_dir_all_rev rev) := by
  induction rev with
  | nil => trivial
  | cons last rest ih =>
    refine ⟨trivial, ?_⟩
    intro answer
    cases answer with
    | ok u => trivial
    | error fault =>
      cases fault with
      | NotFound =>
        dsimp only
        split
        · trivial
        · refine Makes.bind ih ?_
          intro result
          cases result with
          | error fault => trivial
          | ok u =>
            refine ⟨trivial, ?_⟩
            intro answer
            cases answer with
            | ok u => trivial
            | error fault => exact ⟨trivial, fun _ => trivial⟩
      | NotADirectory | IsADirectory | AlreadyExists | Loop | Refused =>
        exact ⟨trivial, fun _ => trivial⟩

theorem makes_prepare_move (config : FileConfig) (base_path : Path) :
    Makes Building (prepare_move config base_path) := by
  have hp : ∀ (target_dir : Path) (outside : Bool) (next : _ → Prog Call Answer Bool),
      (∀ result, Makes Building (next result)) → Makes Building
        (if outside then .done false else create_dir_all target_dir >>= next) := by
    intro target_dir outside next hn
    split
    · trivial
    · exact Makes.bind (makes_create_dir_all_rev _) hn
  unfold prepare_move
  split
  · split
    · trivial
    · refine ⟨trivial, ?_⟩
      intro answer
      cases answer with
      | error fault => trivial
      | ok canonical_base =>
        refine ⟨trivial, ?_⟩
        intro fs
        dsimp only
        split
        · refine ⟨trivial, ?_⟩
          intro answer
          cases answer with
          | error fault => trivial
          | ok resolved => exact hp _ _ _ fun result => by cases result <;> trivial
        · exact hp _ _ _ fun result => by cases result <;> trivial
  · trivial

theorem prepare_move_added {prepared : Bool}
    (hse : ∀ c w r w', sem c w r w' → os (fun _ => True) c w r w')
    (h : Runs sem (prepare_move config base_path) w prepared w') : Added w w' := by
  have hw : wp (ofSem sem) (prepare_move config base_path) (fun _ w' => Added w w') w := by
    refine wp_ofSem_of_makes ?_ (makes_prepare_move config base_path) (Added.refl w)
    intro w₁ c r w₂ ha hc hs
    exact ha.trans (added_of_building hc (hse c w₁ r w₂ hs))
  exact wp_ofSem_iff.mp hw prepared w' h

/-- Files are moved when they are neither left where they are nor deleted. -/
def moves (config : FileConfig) : Bool := !config.noop && !config.delete && config.move_to.isSome

theorem moves_of_not_prepared (h : Runs sem (prepare_move config base_path) w false w') :
    moves config = true := by
  unfold prepare_move at h
  split at h
  · rename_i move_dir hs hm
    rw [Bool.or_eq_false_iff] at hs
    unfold moves
    rw [hs.1, hs.2, hm]
    rfl
  · cases h.1

end camel_file
