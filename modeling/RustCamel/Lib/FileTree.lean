-- Trees of directories, files and symbolic links, as a Unix system keeps them: the walk of a path,
-- the place that a path names, and the operations on files. A place is the list of the names that
-- lead to it from the root.
import Mathlib.Algebra.Order.Ring.Nat
import Mathlib.Data.List.Basic
import Mathlib.Data.List.Induction
import Mathlib.Logic.Basic

open List

namespace FileTree

variable {N C : Type} {p : List N}

/-! ## The tree -/

/-- One segment of a path, as the system reads it. -/
inductive Seg (N : Type) where
  | root
  | here
  | up
  | name (n : N)
  deriving DecidableEq

inductive Node (N C : Type) where
  | dir
  | file (content : C)
  | link (target : List (Seg N))

/-- Why the system refuses. -/
inductive Fault where
  | NotFound
  | NotADirectory
  | IsADirectory
  | AlreadyExists
  | Loop
  -- for a reason outside the tree: rights, space, a device, a timeout
  | Refused
  deriving DecidableEq

def isDir : Option (Node N C) → Bool
  | some .dir => true
  | _ => false

def isLink : Option (Node N C) → Bool
  | some (.link _) => true
  | _ => false

def isFile : Option (Node N C) → Bool
  | some (.file _) => true
  | _ => false

/-- A tree. The root is a directory, and what stands anywhere stands in a directory. -/
structure Tree (N C : Type) where
  node : List N → Option (Node N C)
  rooted : isDir (node [])
  closed : ∀ p n, (node (p ++ [n])).isSome → isDir (node p)

variable {path : List (Seg N)} {links : Nat} {q : List N} {cwd : List N} {new : Node N C} {n : N}
  {t'' : Tree N C} {names : List N} {seg : Seg N} {content : C}

namespace Tree

variable (t t' : Tree N C)

def is_dir (p : List N) : Bool := isDir (t.node p)

def is_link (p : List N) : Bool := isLink (t.node p)

def is_file (p : List N) : Bool := isFile (t.node p)

variable {t t'}

/-- The tree with nothing but its root. -/
def bare : Tree N C where
  node
    | [] => some .dir
    | _ :: _ => none
  rooted := rfl
  closed := by
    intro p n h
    cases p <;> cases h

theorem is_dir_iff : t.is_dir p ↔ t.node p = some .dir := by
  unfold is_dir isDir
  split <;> simp_all

theorem is_file_iff : t.is_file p ↔ ∃ content, t.node p = some (.file content) := by
  unfold is_file isFile
  split <;> simp_all

theorem is_dir_parent (h : (t.node (p ++ [n])).isSome) : t.is_dir p := t.closed p n h

theorem is_dir_dropLast (h : t.is_dir p) : t.is_dir p.dropLast := by
  rcases eq_nil_or_concat p with rfl | ⟨p, n, rfl⟩
  · exact h
  · rw [concat_eq_append, dropLast_concat]
    rw [concat_eq_append] at h
    refine is_dir_parent (n := n) ?_
    rw [is_dir_iff.mp h]
    rfl

theorem is_dir_of_append (hq : q ≠ []) (h : (t.node (p ++ q)).isSome) : t.is_dir p := by
  induction q using List.reverseRecOn with
  | nil => exact absurd rfl hq
  | append_singleton q n ih =>
    rw [← append_assoc] at h
    have hd := is_dir_parent h
    cases q with
    | nil => rwa [append_nil] at hd
    | cons m q =>
      apply ih (cons_ne_nil m q)
      rw [is_dir_iff.mp hd]
      rfl

theorem node_below (h : t.is_dir p = false) (hq : q ≠ []) : t.node (p ++ q) = none := by
  by_contra hn
  have hd := is_dir_of_append hq (Option.isSome_iff_ne_none.mpr hn)
  rw [h] at hd
  cases hd

/-! ## The walk of a path -/

/-- How many links a walk follows before it is given up. -/
def max_links : Nat := 40

/-- The walk along a path that follows a link with `follow`. It gives the place it comes to and
the links it may still follow. -/
def walkWith (t : Tree N C) (links : Nat)
    (follow : List N → List (Seg N) → Except Fault (List N × Nat)) :
    List N → List (Seg N) → Except Fault (List N × Nat)
  | p, [] => .ok (p, links)
  | p, seg :: rest =>
    if t.is_dir p then
      match seg with
      | .root => walkWith t links follow [] rest
      | .here => walkWith t links follow p rest
      | .up => walkWith t links follow p.dropLast rest
      | .name n =>
        match t.node (p ++ [n]) with
        | none => .error .NotFound
        | some (.link target) => follow p (target ++ rest)
        | some _ => walkWith t links follow (p ++ [n]) rest
    else .error .NotADirectory

/-- The walk along a path with so many links to follow. -/
def walk (t : Tree N C) : Nat → List N → List (Seg N) → Except Fault (List N × Nat)
  | 0 => t.walkWith 0 fun _ _ => .error .Loop
  | links + 1 => t.walkWith (links + 1) (t.walk links)

def follow (t : Tree N C) : Nat → List N → List (Seg N) → Except Fault (List N × Nat)
  | 0 => fun _ _ => .error .Loop
  | links + 1 => t.walk links

theorem walk_eq (links : Nat) : t.walk links = t.walkWith links (t.follow links) := by
  cases links <;> rfl

@[simp] theorem walk_nil (links : Nat) (p : List N) : t.walk links p [] = .ok (p, links) := by
  rw [walk_eq]
  rfl

theorem walk_name {rest : List (Seg N)} :
    t.walk links p (.name n :: rest) =
      if t.is_dir p then
        match t.node (p ++ [n]) with
        | none => .error .NotFound
        | some (.link target) => t.follow links p (target ++ rest)
        | some _ => t.walk links (p ++ [n]) rest
      else .error .NotADirectory := by
  rw [walk_eq]
  rfl

theorem walk_root {rest : List (Seg N)} :
    t.walk links p (.root :: rest) =
      if t.is_dir p then t.walk links [] rest else .error .NotADirectory := by
  rw [walk_eq]
  rfl

theorem walk_here {rest : List (Seg N)} :
    t.walk links p (.here :: rest) =
      if t.is_dir p then t.walk links p rest else .error .NotADirectory := by
  rw [walk_eq]
  rfl

theorem walk_up {rest : List (Seg N)} :
    t.walk links p (.up :: rest) =
      if t.is_dir p then t.walk links p.dropLast rest else .error .NotADirectory := by
  rw [walk_eq]
  rfl

theorem walk_not_dir {rest : List (Seg N)} (h : t.is_dir p = false) :
    t.walk links p (seg :: rest) = .error .NotADirectory := by
  rw [walk_eq]
  simp [walkWith, h]

theorem walk_induction {P : Nat → List N → List (Seg N) → Prop}
    (hnil : ∀ links p, P links p [])
    (hstuck : ∀ links p seg rest, t.is_dir p = false → P links p (seg :: rest))
    (hroot : ∀ links p rest, t.is_dir p → P links [] rest → P links p (.root :: rest))
    (hhere : ∀ links p rest, t.is_dir p → P links p rest → P links p (.here :: rest))
    (hu : ∀ links p rest, t.is_dir p → P links p.dropLast rest → P links p (.up :: rest))
    (hmissing : ∀ links p n rest, t.is_dir p → t.node (p ++ [n]) = none →
      P links p (.name n :: rest))
    (hlink : ∀ links p n target rest, t.is_dir p → t.node (p ++ [n]) = some (.link target) →
      (∀ fewer, links = fewer + 1 → P fewer p (target ++ rest)) → P links p (.name n :: rest))
    (hname : ∀ links p n rest, t.is_dir p → (t.node (p ++ [n])).isSome →
      t.is_link (p ++ [n]) = false → P links (p ++ [n]) rest → P links p (.name n :: rest))
    (links : Nat) (p : List N) (path : List (Seg N)) : P links p path := by
  induction links using Nat.strongRecOn generalizing p path with
  | ind links ihlinks =>
    induction path generalizing p with
    | nil => exact hnil links p
    | cons seg rest ih =>
      cases hd : t.is_dir p with
      | false => exact hstuck links p seg rest hd
      | true =>
        cases seg with
        | root => exact hroot links p rest hd (ih _)
        | here => exact hhere links p rest hd (ih _)
        | up => exact hu links p rest hd (ih _)
        | name n =>
          cases hn : t.node (p ++ [n]) with
          | none => exact hmissing links p n rest hd hn
          | some node =>
            cases node with
            | link target =>
              refine hlink links p n target rest hd hn ?_
              intro fewer hf
              exact ihlinks fewer (by omega) p _
            | dir | file content =>
              refine hname links p n rest hd ?_ ?_ (ih _)
              · rw [hn]
                rfl
              · rw [is_link, hn]
                rfl

theorem walk_link {target rest : List (Seg N)} (hd : t.is_dir p)
    (hn : t.node (p ++ [n]) = some (.link target)) :
    t.walk links p (.name n :: rest) = t.follow links p (target ++ rest) := by
  rw [walk_name, if_pos hd, hn]

theorem walk_missing {rest : List (Seg N)} (hd : t.is_dir p) (hn : t.node (p ++ [n]) = none) :
    t.walk links p (.name n :: rest) = .error .NotFound := by
  rw [walk_name, if_pos hd, hn]

theorem walk_step {rest : List (Seg N)} (hd : t.is_dir p) (hs : (t.node (p ++ [n])).isSome)
    (hlink : t.is_link (p ++ [n]) = false) :
    t.walk links p (.name n :: rest) = t.walk links (p ++ [n]) rest := by
  rw [walk_name, if_pos hd]
  unfold is_link at hlink
  split
  · rename_i hn
    rw [hn] at hs
    cases hs
  · rename_i target hn
    rw [hn] at hlink
    cases hlink
  · rfl

theorem walk_append (links : Nat) (p : List N) (path rest : List (Seg N)) :
    t.walk links p (path ++ rest) =
      match t.walk links p path with
      | .error fault => .error fault
      | .ok (q, left) => t.walk left q rest := by
  induction links, p, path using walk_induction (t := t) with
  | hnil links p =>
    rw [walk_nil]
    rfl
  | hstuck links p seg path hd =>
    rw [cons_append, walk_not_dir hd, walk_not_dir hd]
  | hroot links p path hd ih =>
    rw [cons_append, walk_root, walk_root, if_pos hd, if_pos hd, ih]
  | hhere links p path hd ih =>
    rw [cons_append, walk_here, walk_here, if_pos hd, if_pos hd, ih]
  | hu links p path hd ih =>
    rw [cons_append, walk_up, walk_up, if_pos hd, if_pos hd, ih]
  | hmissing links p n path hd hn =>
    rw [cons_append, walk_missing hd hn, walk_missing hd hn]
  | hlink links p n target path hd hn ih =>
    rw [cons_append, walk_link hd hn, walk_link hd hn, ← append_assoc]
    cases links with
    | zero => rfl
    | succ fewer => exact ih fewer rfl
  | hname links p n path hd hs hlink ih =>
    rw [cons_append, walk_step hd hs hlink, walk_step hd hs hlink, ih]

/-- Where the second of two paths leads, the first leads somewhere. -/
theorem walk_of_append {left : Nat} {rest : List (Seg N)}
    (h : t.walk links p (path ++ rest) = .ok (q, left)) :
    ∃ r middle, t.walk links p path = .ok (r, middle) ∧ t.walk middle r rest = .ok (q, left) := by
  rw [walk_append] at h
  cases hp : t.walk links p path with
  | error fault =>
    rw [hp] at h
    cases h
  | ok r =>
    rw [hp] at h
    exact ⟨r.1, r.2, rfl, h⟩

theorem node_of_walk {left : Nat} (h : t.walk links p path = .ok (q, left))
    (hp : (t.node p).isSome) : (t.node q).isSome := by
  revert h hp
  induction links, p, path using t.walk_induction with
  | hnil links p =>
    intro h hp
    rw [walk_nil] at h
    cases h
    exact hp
  | hstuck links p seg path hd =>
    intro h
    rw [walk_not_dir hd] at h
    cases h
  | hroot links p path hd ih =>
    intro h _
    rw [walk_root, if_pos hd] at h
    exact ih h (by rw [is_dir_iff.mp t.rooted]; rfl)
  | hhere links p path hd ih =>
    intro h hp
    rw [walk_here, if_pos hd] at h
    exact ih h hp
  | hu links p path hd ih =>
    intro h _
    rw [walk_up, if_pos hd] at h
    refine ih h ?_
    rw [is_dir_iff.mp (is_dir_dropLast hd)]
    rfl
  | hmissing links p n path hd hn =>
    intro h
    rw [walk_missing hd hn] at h
    cases h
  | hlink links p n target path hd hn ih =>
    intro h hp
    rw [walk_link hd hn] at h
    cases links with
    | zero => cases h
    | succ fewer => exact ih fewer rfl h hp
  | hname links p n path hd hs hlink ih =>
    intro h _
    rw [walk_step hd hs hlink] at h
    exact ih h hs

/-! ## What a change keeps -/

/-- The directories and the links of the one tree are those of the other, which may have more. -/
def Keeps (t t' : Tree N C) : Prop := ∀ p, t.is_dir p ∨ t.is_link p → t'.node p = t.node p

theorem Keeps.refl (t : Tree N C) : Keeps t t := fun _ _ => rfl

theorem Keeps.is_dir (h : Keeps t t') {p : List N} (hp : t.is_dir p) : t'.is_dir p := by
  unfold Tree.is_dir
  rw [h p (.inl hp)]
  exact hp

theorem Keeps.link (h : Keeps t t') (hp : t.is_link p) : t'.is_link p := by
  unfold Tree.is_link at hp ⊢
  rw [h p (.inr hp)]
  exact hp

theorem Keeps.trans (h : Keeps t t') (h' : Keeps t' t'') : Keeps t t'' := by
  intro p hp
  have hn := h p hp
  rw [← hn]
  apply h'
  unfold Tree.is_dir is_link
  rw [hn]
  exact hp

/-- A walk comes to the same place, when what stands there is the same. -/
theorem Keeps.walk (h : Keeps t t') {links left : Nat} {p q : List N} {path : List (Seg N)}
    (hw : t.walk links p path = .ok (q, left)) (hq : t'.node q = t.node q) :
    t'.walk links p path = .ok (q, left) := by
  induction links, p, path using walk_induction (t := t) with
  | hnil links p =>
    rw [walk_nil] at hw ⊢
    exact hw
  | hstuck links p seg path hd =>
    rw [walk_not_dir hd] at hw
    cases hw
  | hroot links p path hd ih =>
    rw [walk_root, if_pos hd] at hw
    rw [walk_root, if_pos (h.is_dir hd)]
    exact ih hw
  | hhere links p path hd ih =>
    rw [walk_here, if_pos hd] at hw
    rw [walk_here, if_pos (h.is_dir hd)]
    exact ih hw
  | hu links p path hd ih =>
    rw [walk_up, if_pos hd] at hw
    rw [walk_up, if_pos (h.is_dir hd)]
    exact ih hw
  | hmissing links p n path hd hn =>
    rw [walk_missing hd hn] at hw
    cases hw
  | hlink links p n target path hd hn ih =>
    rw [walk_link hd hn] at hw
    have hn' : t'.node (p ++ [n]) = some (.link target) := by
      rw [h _ (.inr (by rw [is_link, hn]; rfl)), hn]
    rw [walk_link (h.is_dir hd) hn']
    cases links with
    | zero => cases hw
    | succ fewer => exact ih fewer rfl hw
  | hname links p n path hd hs hlink ih =>
    rw [walk_step hd hs hlink] at hw
    -- what the walk comes through is a directory, and the last place is the same
    have hn' : t'.node (p ++ [n]) = t.node (p ++ [n]) := by
      cases path with
      | nil =>
        rw [walk_nil] at hw
        cases hw
        exact hq
      | cons seg path =>
        cases ht : t.is_dir (p ++ [n]) with
        | true => exact h _ (.inl ht)
        | false =>
          rw [walk_not_dir ht] at hw
          cases hw
    rw [walk_step (h.is_dir hd) (by rw [hn']; exact hs) (by rw [is_link, hn']; exact hlink)]
    exact ih hw

theorem Keeps.walk_dir (h : Keeps t t') {left : Nat} (hw : t.walk links p path = .ok (q, left))
    (hq : t.is_dir q) : t'.walk links p path = .ok (q, left) :=
  h.walk hw (h q (.inl hq))

/-- The one tree stands in the other, where only directories are new. -/
structure Adds (t t' : Tree N C) : Prop where
  same : ∀ p, (t.node p).isSome → t'.node p = t.node p
  fresh : ∀ p, t.node p = none → t'.node p = none ∨ t'.node p = some .dir

theorem Adds.refl (t : Tree N C) : Adds t t := ⟨fun _ _ => rfl, fun _ h => .inl h⟩

theorem Adds.trans (h : Adds t t') (h' : Adds t' t'') : Adds t t'' := by
  constructor
  · intro p hp
    have hs := h.same p hp
    rw [h'.same p (by rw [hs]; exact hp), hs]
  · intro p hp
    rcases h.fresh p hp with hn | hd
    · exact h'.fresh p hn
    · right
      rw [h'.same p (by rw [hd]; rfl), hd]

theorem Adds.keeps (h : Adds t t') : Keeps t t' := by
  intro p hp
  apply h.same
  unfold Tree.is_dir is_link isDir isLink at hp
  cases hn : t.node p with
  | none =>
    rw [hn] at hp
    simp at hp
  | some node => rfl

theorem Adds.node_eq_none (h : Adds t t') (hp : t'.node p = none) : t.node p = none := by
  cases hn : t.node p with
  | none => rfl
  | some node =>
    rw [h.same p (by rw [hn]; rfl), hn] at hp
    cases hp

theorem Adds.is_link (h : Adds t t') {p : List N} (hp : t'.is_link p) : t.is_link p := by
  unfold Tree.is_link at hp ⊢
  cases hn : t.node p with
  | none =>
    rcases h.fresh p hn with hno | hd
    · rw [hno] at hp
      exact hp
    · rw [hd] at hp
      cases hp
  | some node =>
    rw [h.same p (by rw [hn]; rfl), hn] at hp
    exact hp

/-! ## Paths of names -/

theorem walk_names {left : Nat}
    (hl : ∀ i < names.length, t.is_link (p ++ names.take (i + 1)) = false)
    (h : t.walk links p (names.map .name) = .ok (q, left)) : q = p ++ names ∧ left = links := by
  induction names generalizing p with
  | nil =>
    rw [map_nil, walk_nil] at h
    cases h
    exact ⟨by simp, rfl⟩
  | cons n names ih =>
    rw [map_cons] at h
    have hf : t.is_link (p ++ [n]) = false := hl 0 (by simp)
    have hw : t.walk links (p ++ [n]) (names.map .name) = .ok (q, left) := by
      cases hd : t.is_dir p with
      | false =>
        rw [walk_not_dir hd] at h
        cases h
      | true =>
        cases hn : t.node (p ++ [n]) with
        | none =>
          rw [walk_missing hd hn] at h
          cases h
        | some node =>
          rwa [walk_step hd (by rw [hn]; rfl) hf] at h
    obtain ⟨rfl, rfl⟩ := ih (fun i hi => by
      have := hl (i + 1) (by simpa using hi)
      simpa [append_assoc] using this) hw
    exact ⟨by simp, rfl⟩

/-- Every place above a directory is one, so the walk down to it goes straight. -/
theorem walk_names_of_dir (h : t.is_dir (p ++ names)) :
    t.walk links p (names.map .name) = .ok (p ++ names, links) := by
  induction names generalizing p with
  | nil => simp
  | cons n names ih =>
    have hb : t.is_dir (p ++ [n] ++ names) := by simpa using h
    have hf : t.is_dir (p ++ [n]) := by
      cases names with
      | nil => simpa using hb
      | cons m names =>
        refine is_dir_of_append (cons_ne_nil m names) ?_
        rw [is_dir_iff.mp hb]
        rfl
    have hn := is_dir_iff.mp hf
    have hs : (t.node (p ++ [n])).isSome := by rw [hn]; rfl
    rw [map_cons, walk_step (is_dir_parent hs) hs (by rw [is_link, hn]; rfl), ih hb, append_assoc]
    rfl

/-! ## The place that a path names -/

/-- The place that a path leads to, with every link followed. -/
def resolve (t : Tree N C) (cwd : List N) : List (Seg N) → Except Fault (List N)
  | [] => .error .NotFound
  | path => (t.walk max_links cwd path).map Prod.fst

/-- The place of the last name of a path, which is not followed. -/
def spot (t : Tree N C) (cwd : List N) (path : List (Seg N)) : Except Fault (List N) :=
  match path.getLast? with
  | some (.name n) =>
    match t.walk max_links cwd path.dropLast with
    | .error fault => .error fault
    | .ok (p, _) => if t.is_dir p then .ok (p ++ [n]) else .error .NotADirectory
  | _ => t.resolve cwd path

theorem walk_of_resolve (h : t.resolve cwd path = .ok q) :
    ∃ left, t.walk max_links cwd path = .ok (q, left) := by
  cases path with
  | nil => cases h
  | cons seg path =>
    simp only [resolve] at h
    cases hw : t.walk max_links cwd (seg :: path) with
    | error fault =>
      rw [hw] at h
      cases h
    | ok r =>
      rw [hw] at h
      cases h
      exact ⟨r.2, rfl⟩

theorem resolve_of_walk {left : Nat} (hp : path ≠ [])
    (h : t.walk max_links cwd path = .ok (q, left)) : t.resolve cwd path = .ok q := by
  cases path with
  | nil => exact absurd rfl hp
  | cons seg path =>
    simp only [resolve]
    rw [h]
    rfl

theorem spot_name :
    t.spot cwd (path ++ [.name n]) =
      match t.walk max_links cwd path with
      | .error fault => .error fault
      | .ok (p, _) => if t.is_dir p then .ok (p ++ [n]) else .error .NotADirectory := by
  simp [spot]

theorem spot_name_ok (h : t.spot cwd (path ++ [.name n]) = .ok q) :
    ∃ p left, t.walk max_links cwd path = .ok (p, left) ∧ t.is_dir p ∧ q = p ++ [n] := by
  rw [spot_name] at h
  split at h
  · cases h
  · rename_i p left hw
    split at h
    · rename_i hd
      cases h
      exact ⟨p, left, hw, hd, rfl⟩
    · cases h

theorem is_dir_of_resolve (hs : ∀ n, seg ≠ .name n) (h : t.resolve cwd (path ++ [seg]) = .ok q) :
    t.is_dir q := by
  obtain ⟨left, hw⟩ := walk_of_resolve h
  obtain ⟨r, middle, -, hlast⟩ := walk_of_append hw
  cases hd : t.is_dir r with
  | false =>
    rw [walk_not_dir hd] at hlast
    cases hlast
  | true =>
    cases seg with
    | name n => exact absurd rfl (hs n)
    | root =>
      rw [walk_root, if_pos hd, walk_nil] at hlast
      cases hlast
      exact t.rooted
    | here =>
      rw [walk_here, if_pos hd, walk_nil] at hlast
      cases hlast
      exact hd
    | up =>
      rw [walk_up, if_pos hd, walk_nil] at hlast
      cases hlast
      exact is_dir_dropLast hd

/-- A place without a directory is named by a path that ends with a name. -/
theorem spot_not_dir (h : t.spot cwd path = .ok q) (hq : t.is_dir q = false) :
    ∃ init n p left, path = init ++ [.name n] ∧ t.walk max_links cwd init = .ok (p, left) ∧
      t.is_dir p ∧ q = p ++ [n] := by
  have hs : ∀ init seg, path = init ++ [seg] → (∀ n, seg ≠ .name n) → False := by
    rintro init seg rfl hse
    have hr : t.resolve cwd (init ++ [seg]) = .ok q := by
      unfold spot at h
      rw [getLast?_concat] at h
      cases seg with
      | name n => exact absurd rfl (hse n)
      | root | here | up => exact h
    rw [is_dir_of_resolve hse hr] at hq
    cases hq
  rcases eq_nil_or_concat path with rfl | ⟨init, seg, rfl⟩
  · cases h
  · rw [concat_eq_append] at h hs ⊢
    cases seg with
    | name n =>
      obtain ⟨p, left, hw, hd, rfl⟩ := spot_name_ok h
      exact ⟨init, n, p, left, rfl, hw, hd, rfl⟩
    | root | here | up => exact absurd (hs init _ rfl (by simp)) id

/-- A path that names a file or a free place leads to what stands there later. -/
theorem resolve_of_spot {t' : Tree N C} (hs : t.spot cwd path = .ok q)
    (hd : t.is_dir q = false) (hk : Keeps t t') (hso : (t'.node q).isSome)
    (hlink : t'.is_link q = false) : t'.resolve cwd path = .ok q := by
  obtain ⟨init, n, p, left, rfl, hw, hp, rfl⟩ := spot_not_dir hs hd
  have hw' : t'.walk max_links cwd (init ++ [.name n]) = .ok (p ++ [n], left) := by
    rw [walk_append, hk.walk_dir hw hp]
    dsimp only
    rw [walk_step (hk.is_dir hp) hso hlink, walk_nil]
  exact resolve_of_walk (by simp) hw'

/-! ## Changes of one place -/

section

variable [DecidableEq N]

/-- A place where something may be put: in a directory, and no directory itself. -/
def free (t : Tree N C) (p : List N) : Bool := p ≠ [] && t.is_dir p.dropLast && !t.is_dir p

/-- Something new at a free place. -/
def put (t : Tree N C) (p : List N) (new : Node N C) : Tree N C where
  node q := if q = p then (if t.free p then some new else t.node p) else t.node q
  rooted := by
    split
    · rename_i heq
      subst heq
      exact t.rooted
    · exact t.rooted
  closed := by
    intro q n hsome
    have hq : t.is_dir q := by
      split at hsome
      · rename_i heq
        split at hsome
        · rename_i hfree
          simp only [free, ← heq, Bool.and_eq_true, dropLast_concat] at hfree
          exact hfree.1.2
        · rw [← heq] at hsome
          exact t.closed q n hsome
      · exact t.closed q n hsome
    split
    · rename_i heq
      subst heq
      rw [if_neg (by simp [free, hq])]
      exact hq
    · exact hq

/-- Nothing any more at a place that holds no directory. -/
def erase (t : Tree N C) (p : List N) : Tree N C where
  node q := if q = p then (if t.is_dir p then t.node p else none) else t.node q
  rooted := by
    split
    · rename_i heq
      subst heq
      rw [if_pos (show t.is_dir [] = true from t.rooted)]
      exact t.rooted
    · exact t.rooted
  closed := by
    intro q n hsome
    have hq : t.is_dir q := by
      split at hsome
      · rename_i heq
        split at hsome
        · rw [← heq] at hsome
          exact t.closed q n hsome
        · cases hsome
      · exact t.closed q n hsome
    split
    · rename_i heq
      subst heq
      rw [if_pos hq]
      exact hq
    · exact hq

theorem put_other (h : q ≠ p) : (t.put p new).node q = t.node q := if_neg h

theorem put_same : (t.put p new).node p = if t.free p then some new else t.node p := if_pos rfl

theorem put_self (hd : t.is_dir p) (hf : t.is_dir (p ++ [n]) = false) :
    (t.put (p ++ [n]) new).node (p ++ [n]) = some new := by
  rw [put_same, if_pos (by simp [free, hd, hf])]

theorem isSome_put (hf : t.free p) : ((t.put p new).node q).isSome ↔ q = p ∨ (t.node q).isSome := by
  by_cases hq : q = p
  · rw [hq, put_same, if_pos hf]
    simp
  · rw [put_other hq]
    simp [hq]

theorem node_put_of_spot (hs : t.spot cwd path = .ok q) (hd : t.is_dir q = false) :
    (t.put q new).node q = some new := by
  obtain ⟨init, n, p, left, -, -, hp, rfl⟩ := spot_not_dir hs hd
  exact put_self hp hd

theorem erase_other (h : q ≠ p) : (t.erase p).node q = t.node q := if_neg h

theorem erase_same : (t.erase p).node p = if t.is_dir p then t.node p else none := if_pos rfl

theorem erase_self (h : t.is_dir p = false) : (t.erase p).node p = none := by
  rw [erase_same, h]
  rfl

theorem keeps_put (hlink : t.is_link p = false) : Keeps t (t.put p new) := by
  intro q hq
  by_cases hn : q = p
  · subst hn
    rw [hlink] at hq
    rw [put_same, if_neg (by simp_all [free])]
  · exact put_other hn

theorem keeps_before_put : Keeps (t.put p (.file content)) t := by
  intro q hq
  by_cases hn : q = p
  · subst hn
    unfold is_dir is_link at hq
    rw [put_same] at hq ⊢
    split at hq
    · rcases hq with hq | hq <;> cases hq
    · rename_i hf
      rw [if_neg hf]
  · exact (put_other hn).symm

theorem keeps_before_erase : Keeps (t.erase p) t := by
  intro q hq
  by_cases hn : q = p
  · subst hn
    unfold is_dir is_link at hq
    rw [erase_same] at hq ⊢
    split at hq
    · rename_i hd
      rw [if_pos hd]
    · rcases hq with hq | hq <;> cases hq
  · exact (erase_other hn).symm

theorem adds_put (hn : t.node p = none) : Adds t (t.put p .dir) := by
  have ho : ∀ q, (t.node q).isSome → q ≠ p := by
    rintro q hq rfl
    rw [hn] at hq
    cases hq
  constructor
  · intro q hq
    exact put_other (ho q hq)
  · intro q hq
    by_cases hne : q = p
    · subst hne
      rw [put_same]
      split
      · exact .inr rfl
      · exact .inl hq
    · left
      rw [put_other hne, hq]

theorem keeps_erase (hlink : t.is_link p = false) : Keeps t (t.erase p) := by
  intro q hq
  by_cases hn : q = p
  · subst hn
    rw [hlink] at hq
    rw [erase_same, if_pos (by simpa using hq)]
  · exact erase_other hn

/-- The two trees have the same directories and the same links. -/
structure SameShape (t t' : Tree N C) : Prop where
  keeps : Keeps t t'
  kept : Keeps t' t

omit [DecidableEq N] in
theorem SameShape.refl (t : Tree N C) : SameShape t t := ⟨.refl t, .refl t⟩

omit [DecidableEq N] in
theorem SameShape.trans {t'' : Tree N C} (h : SameShape t t') (h' : SameShape t' t'') :
    SameShape t t'' :=
  ⟨h.keeps.trans h'.keeps, h'.kept.trans h.kept⟩

omit [DecidableEq N] in
theorem SameShape.is_link_eq (h : SameShape t t') (p : List N) : t'.is_link p = t.is_link p := by
  have hi : t'.is_link p ↔ t.is_link p := by
    constructor
    · intro hp
      unfold is_link
      rw [h.kept p (.inr hp)]
      exact hp
    · intro hp
      unfold is_link
      rw [h.keeps p (.inr hp)]
      exact hp
  exact Bool.eq_iff_iff.mpr hi

theorem shape_put (hlink : t.is_link p = false) : SameShape t (t.put p (.file content)) := by
  refine ⟨keeps_put hlink, ?_⟩
  intro q hq
  by_cases hn : q = p
  · subst hn
    unfold is_dir Tree.is_link at hq
    rw [put_same] at hq ⊢
    split at hq
    · simp [isDir, isLink] at hq
    · rename_i hf
      rw [if_neg hf]
  · exact (put_other hn).symm

theorem shape_erase (hlink : t.is_link p = false) : SameShape t (t.erase p) := by
  refine ⟨keeps_erase hlink, ?_⟩
  intro q hq
  by_cases hn : q = p
  · subst hn
    unfold is_dir Tree.is_link at hq
    rw [erase_same] at hq ⊢
    split at hq
    · rename_i hd
      rw [if_pos hd]
    · simp [isDir, isLink] at hq
  · exact (erase_other hn).symm

/-! ## The operations -/

def mkdir (t : Tree N C) (cwd : List N) (path : List (Seg N)) : Except Fault (Tree N C) :=
  match t.spot cwd path with
  | .error fault => .error fault
  | .ok p => if (t.node p).isSome then .error .AlreadyExists else .ok (t.put p .dir)

/-- Opens a file for writing. A link in the last place is not followed. -/
def create (t : Tree N C) (cwd : List N) (path : List (Seg N)) (exclusive truncate : Bool)
    (empty : C) : Except Fault (Tree N C) :=
  match t.spot cwd path with
  | .error fault => .error fault
  | .ok p =>
    match t.node p with
    | none => .ok (t.put p (.file empty))
    | some node =>
      if exclusive then .error .AlreadyExists
      else
        match node with
        | .dir => .error .IsADirectory
        | .link _ => .error .Loop
        | .file _ => .ok (if truncate then t.put p (.file empty) else t)

/-- Gives a file another name. What stood under that name is replaced, unless it is a directory. -/
def rename (t : Tree N C) (cwd : List N) (from_path to_path : List (Seg N)) :
    Except Fault (Tree N C) :=
  match t.spot cwd from_path, t.spot cwd to_path with
  | .error fault, _ => .error fault
  | .ok _, .error fault => .error fault
  | .ok p, .ok q =>
    match t.node p with
    | none => .error .NotFound
    | some .dir => .error .IsADirectory
    | some moved =>
      if t.is_dir q then .error .IsADirectory
      else if p = q then .ok t
      else .ok ((t.erase p).put q moved)

def remove_file (t : Tree N C) (cwd : List N) (path : List (Seg N)) : Except Fault (Tree N C) :=
  match t.spot cwd path with
  | .error fault => .error fault
  | .ok p =>
    match t.node p with
    | none => .error .NotFound
    | some .dir => .error .IsADirectory
    | some _ => .ok (t.erase p)

/-! ## What the operations do -/

theorem mkdir_ok (h : t.mkdir cwd path = .ok t') :
    ∃ q, t.spot cwd path = .ok q ∧ t.node q = none ∧ t' = t.put q .dir := by
  unfold mkdir at h
  split at h
  · cases h
  · rename_i q hq
    split at h
    · cases h
    · rename_i hn
      cases h
      exact ⟨q, hq, by simpa using hn, rfl⟩

theorem create_ok {exclusive truncate : Bool} {empty : C}
    (h : t.create cwd path exclusive truncate empty = .ok t') :
    ∃ q, t.spot cwd path = .ok q ∧ t.is_dir q = false ∧ t.is_link q = false ∧
      (t' = t.put q (.file empty) ∨ t' = t ∧ t.is_file q) := by
  unfold create at h
  split at h
  · cases h
  · rename_i q hq
    refine ⟨q, hq, ?_⟩
    unfold is_dir is_link is_file
    split at h
    · rename_i hn
      cases h
      rw [hn]
      exact ⟨rfl, rfl, .inl rfl⟩
    · rename_i node hn
      split at h
      · cases h
      · split at h
        · cases h
        · cases h
        · rw [hn]
          refine ⟨rfl, rfl, ?_⟩
          split at h
          · cases h
            exact .inl rfl
          · cases h
            exact .inr ⟨rfl, rfl⟩

theorem rename_ok {from_path to_path : List (Seg N)} (h : t.rename cwd from_path to_path = .ok t') :
    ∃ p q moved, t.spot cwd from_path = .ok p ∧ t.spot cwd to_path = .ok q ∧
      t.node p = some moved ∧ t.is_dir p = false ∧ t.is_dir q = false ∧
      t' = if p = q then t else (t.erase p).put q moved := by
  unfold rename at h
  split at h
  · cases h
  · cases h
  · rename_i p q hp hq
    split at h
    · cases h
    · cases h
    · rename_i moved hm hn
      have hd : t.is_dir p = false := by
        unfold is_dir
        rw [hn]
        cases moved with
        | dir => exact absurd rfl hm
        | file content | link target => rfl
      split at h
      · cases h
      · rename_i hq'
        refine ⟨p, q, moved, hp, hq, hn, hd, by simpa using hq', ?_⟩
        split at h
        · rename_i heq
          cases h
          rw [if_pos heq]
        · rename_i heq
          cases h
          rw [if_neg heq]

theorem remove_file_ok (h : t.remove_file cwd path = .ok t') :
    ∃ q, t.spot cwd path = .ok q ∧ t.is_dir q = false ∧ t' = t.erase q := by
  unfold remove_file at h
  split at h
  · cases h
  · rename_i q hq
    split at h
    · cases h
    · cases h
    · rename_i node hm hn
      cases h
      refine ⟨q, hq, ?_, rfl⟩
      unfold is_dir
      rw [hn]
      cases node with
      | dir => exact absurd rfl hm
      | file content | link target => rfl

theorem shape_move {moved : Node N C} (hn : t.node p = some moved) (hd : t.is_dir p = false)
    (hp : t.is_link p = false) (hq : t.is_link q = false) :
    SameShape t (if p = q then t else (t.erase p).put q moved) := by
  split
  · exact .refl t
  · cases moved with
    | dir =>
      unfold is_dir at hd
      rw [hn] at hd
      cases hd
    | link target =>
      unfold is_link at hp
      rw [hn] at hp
      cases hp
    | file content =>
      have he := shape_erase hp
      exact he.trans (shape_put ((he.is_link_eq q).trans hq))

end

end Tree

end FileTree
