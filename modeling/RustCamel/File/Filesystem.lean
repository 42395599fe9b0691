-- The file system as the file component calls it. A call looks at the tree or changes it, and the
-- system may refuse it. The world keeps the list of the places that the calls have touched.
import RustCamel.Lib.Prog
import RustCamel.Lib.UnixPath

namespace camel_file

open FileTree UnixPath

abbrev Place := List Text

/-- What a file holds, with the time of its last change in nanoseconds. -/
structure Content where
  bytes : List UInt8
  modified : Option Nat

/-! ## Looking -/

structure Fs where
  tree : Tree Text Content
  cwd : Place

namespace Fs

variable (fs : Fs) (p : Path)

def canonicalize : Except Fault Place := fs.tree.resolve fs.cwd p.segs

/-- The place of the path, with a link in the last place not followed. -/
def spot : Except Fault Place := fs.tree.spot fs.cwd p.segs

def exists_ : Bool :=
  match fs.canonicalize p with
  | .ok q => (fs.tree.node q).isSome
  | .error _ => false

def is_dir : Bool :=
  match fs.canonicalize p with
  | .ok q => fs.tree.is_dir q
  | .error _ => false

/-- `symlink_metadata`: what stands at the path itself. -/
def symlink_metadata : Option (Node Text Content) :=
  match fs.spot p with
  | .ok q => fs.tree.node q
  | .error _ => none

end Fs

/-! ## Changing -/

structure World where
  fs : Fs
  -- created, opened for writing, renamed or removed, oldest first
  touched : List Place

namespace World

variable (w : World)

def with_tree (tree : Tree Text Content) (places : List Place) : World :=
  { w with fs := { w.fs with tree }, touched := w.touched ++ places }

/-- The answer of a change of the tree at these places, and the world after it. -/
def change {α : Type} (answer : α) (places : List Place) :
    Except Fault (Tree Text Content) → Except Fault α × World
  | .ok tree => (.ok answer, w.with_tree tree places)
  | .error fault => (.error fault, w)

/-- A slash at the end of the path says nothing new to `mkdir`. -/
def mkdir (p : Path) : Except Fault Unit × World :=
  match w.fs.tree.spot w.fs.cwd p.components with
  | .error fault => (.error fault, w)
  | .ok q => w.change () [q] (w.fs.tree.mkdir w.fs.cwd p.components)

/-- The answer is the place of the file, for the writes that follow. -/
def open_write (p : Path) (exclusive truncate : Bool) (modified : Option Nat) :
    Except Fault Place × World :=
  match w.fs.spot p with
  | .error fault => (.error fault, w)
  | .ok q =>
    w.change q [q] (w.fs.tree.create w.fs.cwd p.segs exclusive truncate ⟨[], modified⟩)

/-- Bytes at the end of an open file. -/
def write (handle : Place) (bytes : List UInt8) (modified : Option Nat) : World :=
  match w.fs.tree.node handle with
  | some (.file content) =>
    w.with_tree (w.fs.tree.put handle (.file ⟨content.bytes ++ bytes, modified⟩)) []
  | _ => w

def rename (from_path to_path : Path) : Except Fault Unit × World :=
  match w.fs.spot from_path, w.fs.spot to_path with
  | .ok p, .ok q => w.change () [p, q] (w.fs.tree.rename w.fs.cwd from_path.segs to_path.segs)
  | .error fault, _ => (.error fault, w)
  | .ok _, .error fault => (.error fault, w)

def remove_file (p : Path) : Except Fault Unit × World :=
  match w.fs.spot p with
  | .error fault => (.error fault, w)
  | .ok q => w.change () [q] (w.fs.tree.remove_file w.fs.cwd p.segs)

/-- `File::open` and the metadata of the open file. -/
def open_read (p : Path) : Except Fault Content :=
  match w.fs.canonicalize p with
  | .error fault => .error fault
  | .ok q =>
    match w.fs.tree.node q with
    | some (.file content) => .ok content
    | some _ => .error .IsADirectory
    | none => .error .NotFound

end World

/-! ## Calls -/

inductive Call where
  -- the system as it is: `exists`, `is_dir`, `symlink_metadata` and the rest read it
  | look
  | mkdir (p : Path)
  | open_write (p : Path) (exclusive truncate : Bool)
  | write (handle : Place) (bytes : List UInt8)
  -- `sync_all` and `flush`
  | sync
  | rename (from_path to_path : Path)
  | remove_file (p : Path)
  | open_read (p : Path)
  | canonicalize (p : Path)
  | read_dir (p : Path)
  -- did the timeout run out while the call before it was made?
  | elapsed
  -- `rand::random` for a `u64`
  | random

abbrev Answer : Call → Type
  | .look => Fs
  | .mkdir _ | .write _ _ | .sync | .rename _ _ | .remove_file _ => Except Fault Unit
  | .open_write _ _ _ => Except Fault Place
  | .open_read _ => Except Fault Content
  | .canonicalize _ => Except Fault Place
  | .read_dir _ => Except Fault (List Text)
  | .elapsed => Bool
  | .random => Nat

/-- The names in a directory, each of them once, in the order of the system. -/
def Lists (fs : Fs) (p : Path) (names : List Text) : Prop :=
  ∃ q, fs.canonicalize p = .ok q ∧ fs.tree.is_dir q ∧ names.Nodup ∧
    ∀ n, n ∈ names ↔ (fs.tree.node (q ++ [n])).isSome

/-- What a call answers and does when the system lets it through. -/
def granted : (c : Call) → World → Answer c → World → Prop
  | .look, w, answer, w' => answer = w.fs ∧ w' = w
  | .mkdir p, w, answer, w' => (answer, w') = w.mkdir p
  | .open_write p exclusive truncate, w, answer, w' =>
    ∃ modified, (answer, w') = w.open_write p exclusive truncate modified
  | .write handle bytes, w, answer, w' =>
    answer = .ok () ∧ ∃ modified, w' = w.write handle bytes modified
  | .sync, w, answer, w' => answer = .ok () ∧ w' = w
  | .rename from_path to_path, w, answer, w' => (answer, w') = w.rename from_path to_path
  | .remove_file p, w, answer, w' => (answer, w') = w.remove_file p
  | .open_read p, w, answer, w' => answer = w.open_read p ∧ w' = w
  | .canonicalize p, w, answer, w' => answer = w.fs.canonicalize p ∧ w' = w
  | .read_dir p, w, answer, w' =>
    w' = w ∧ match answer with
      | .ok names => Lists w.fs p names
      | .error fault => w.fs.is_dir p = false ∧ fault ≠ .Refused
  | .elapsed, w, _, w' => w' = w
  | .random, w, answer, w' => answer < 2 ^ 64 ∧ w' = w

/-- What it does when the system refuses it. A write may leave a part behind. -/
def refused : (c : Call) → World → Answer c → World → Prop
  | .mkdir _, w, answer, w' | .sync, w, answer, w' | .rename _ _, w, answer, w'
  | .remove_file _, w, answer, w' => answer = .error .Refused ∧ w' = w
  | .open_write _ _ _, w, answer, w' => answer = .error .Refused ∧ w' = w
  | .write handle bytes, w, answer, w' =>
    answer = .error .Refused ∧ ∃ n modified, w' = w.write handle (bytes.take n) modified
  | .open_read _, w, answer, w' => answer = .error .Refused ∧ w' = w
  | .canonicalize _, w, answer, w' => answer = .error .Refused ∧ w' = w
  | .read_dir _, w, answer, w' => answer = .error .Refused ∧ w' = w
  | .look, _, _, _ | .elapsed, _, _, _ | .random, _, _, _ => False

/-- The system, which may refuse these calls. -/
def os (refusable : Call → Prop) : Sem Call Answer World :=
  fun c w answer w' => granted c w answer w' ∨ refusable c ∧ refused c w answer w'

/-- A system without surprises: it refuses no call but the listing of a directory. -/
def grant : (c : Call) → World → Answer c × World
  | .look, w => (w.fs, w)
  | .mkdir p, w => w.mkdir p
  | .open_write p exclusive truncate, w => w.open_write p exclusive truncate none
  | .write handle bytes, w => (.ok (), w.write handle bytes none)
  | .sync, w => (.ok (), w)
  | .rename from_path to_path, w => w.rename from_path to_path
  | .remove_file p, w => w.remove_file p
  | .open_read p, w => (w.open_read p, w)
  | .canonicalize p, w => (w.fs.canonicalize p, w)
  | .read_dir _, w => (.error .Refused, w)
  | .elapsed, w => (false, w)
  | .random, w => (0, w)

theorem os_grant (c : Call) (w : World) : os (fun _ => True) c w (grant c w).1 (grant c w).2 := by
  cases c with
  | read_dir p => exact .inr ⟨trivial, rfl, rfl⟩
  | open_write p exclusive truncate => exact .inl ⟨none, rfl⟩
  | write handle bytes => exact .inl ⟨rfl, none, rfl⟩
  | random => exact .inl ⟨Nat.two_pow_pos 64, rfl⟩
  | elapsed | mkdir p | rename from_path to_path | remove_file p => exact .inl rfl
  | look | sync | open_read p | canonicalize p => exact .inl ⟨rfl, rfl⟩

theorem runs_grant {α : Type} (code : Prog Call Answer α) (w : World) :
    Prog.Runs (os fun _ => True) code w (Prog.eval grant code w).1 (Prog.eval grant code w).2 :=
  Prog.runs_eval os_grant code w

/-! ## What the changes do -/

variable {p : Path} {answer : Except Fault Unit}

theorem mkdir_cases {w w' : World} (h : (answer, w') = w.mkdir p) :
    (∃ fault, answer = .error fault ∧ w' = w) ∨
      ∃ q, answer = .ok () ∧ w.fs.tree.spot w.fs.cwd p.components = .ok q ∧
        w.fs.tree.node q = none ∧ w' = w.with_tree (w.fs.tree.put q .dir) [q] := by
  unfold World.mkdir at h
  split at h
  · rename_i fault _
    cases h
    exact .inl ⟨fault, rfl, rfl⟩
  · rename_i q hq
    cases hm : w.fs.tree.mkdir w.fs.cwd p.components with
    | error fault =>
      rw [hm] at h
      cases h
      exact .inl ⟨fault, rfl, rfl⟩
    | ok tree =>
      rw [hm] at h
      cases h
      obtain ⟨q', hq', hn, rfl⟩ := Tree.mkdir_ok hm
      obtain rfl : q = q' := Except.ok.inj (hq.symm.trans hq')
      exact .inr ⟨q, rfl, hq, hn, rfl⟩

theorem open_write_cases {w w' : World} {exclusive truncate : Bool} {modified : Option Nat}
    {answer : Except Fault Place} (h : (answer, w') = w.open_write p exclusive truncate modified) :
    (∃ fault, answer = .error fault ∧ w' = w) ∨
      ∃ q tree, answer = .ok q ∧ w.fs.spot p = .ok q ∧ w.fs.tree.is_dir q = false ∧
        w.fs.tree.is_link q = false ∧ w' = w.with_tree tree [q] ∧
        (tree = w.fs.tree.put q (.file ⟨[], modified⟩) ∨
          tree = w.fs.tree ∧ w.fs.tree.is_file q) := by
  unfold World.open_write at h
  split at h
  · rename_i fault _
    cases h
    exact .inl ⟨fault, rfl, rfl⟩
  · rename_i q hq
    cases hc : w.fs.tree.create w.fs.cwd p.segs exclusive truncate ⟨[], modified⟩ with
    | error fault =>
      rw [hc] at h
      cases h
      exact .inl ⟨fault, rfl, rfl⟩
    | ok tree =>
      rw [hc] at h
      cases h
      obtain ⟨q', hq', hd, hl, ht⟩ := Tree.create_ok hc
      obtain rfl : q = q' := Except.ok.inj (hq.symm.trans hq')
      exact .inr ⟨q, tree, rfl, hq, hd, hl, rfl, ht⟩

theorem rename_cases {w w' : World} {from_path to_path : Path}
    (h : (answer, w') = w.rename from_path to_path) :
    (∃ fault, answer = .error fault ∧ w' = w) ∨
      ∃ p q moved, answer = .ok () ∧ w.fs.spot from_path = .ok p ∧ w.fs.spot to_path = .ok q ∧
        w.fs.tree.node p = some moved ∧ w.fs.tree.is_dir p = false ∧ w.fs.tree.is_dir q = false ∧
        w' = w.with_tree (if p = q then w.fs.tree else (w.fs.tree.erase p).put q moved) [p, q] := by
  unfold World.rename at h
  split at h
  · rename_i p q hp hq
    cases hr : w.fs.tree.rename w.fs.cwd from_path.segs to_path.segs with
    | error fault =>
      rw [hr] at h
      cases h
      exact .inl ⟨fault, rfl, rfl⟩
    | ok tree =>
      rw [hr] at h
      cases h
      obtain ⟨p', q', moved, hp', hq', hn, hd, hd', rfl⟩ := Tree.rename_ok hr
      obtain rfl : p = p' := Except.ok.inj (hp.symm.trans hp')
      obtain rfl : q = q' := Except.ok.inj (hq.symm.trans hq')
      exact .inr ⟨p, q, moved, rfl, hp, hq, hn, hd, hd', rfl⟩
  · rename_i fault _
    cases h
    exact .inl ⟨fault, rfl, rfl⟩
  · rename_i fault _ _
    cases h
    exact .inl ⟨fault, rfl, rfl⟩

theorem remove_file_cases {w w' : World} (h : (answer, w') = w.remove_file p) :
    (∃ fault, answer = .error fault ∧ w' = w) ∨
      ∃ q, answer = .ok () ∧ w.fs.spot p = .ok q ∧ w.fs.tree.is_dir q = false ∧
        w' = w.with_tree (w.fs.tree.erase q) [q] := by
  unfold World.remove_file at h
  split at h
  · rename_i fault _
    cases h
    exact .inl ⟨fault, rfl, rfl⟩
  · rename_i q hq
    cases hr : w.fs.tree.remove_file w.fs.cwd p.segs with
    | error fault =>
      rw [hr] at h
      cases h
      exact .inl ⟨fault, rfl, rfl⟩
    | ok tree =>
      rw [hr] at h
      cases h
      obtain ⟨q', hq', hd, rfl⟩ := Tree.remove_file_ok hr
      obtain rfl : q = q' := Except.ok.inj (hq.symm.trans hq')
      exact .inr ⟨q, rfl, hq, hd, rfl⟩

theorem write_shape (w : World) (handle : Place) (bytes : List UInt8) (modified : Option Nat) :
    Tree.SameShape w.fs.tree (w.write handle bytes modified).fs.tree ∧
      (w.write handle bytes modified).fs.cwd = w.fs.cwd ∧
      (w.write handle bytes modified).touched = w.touched := by
  unfold World.write
  split
  · rename_i content hn
    refine ⟨Tree.shape_put ?_, rfl, List.append_nil _⟩
    unfold Tree.is_link
    rw [hn]
    rfl
  · exact ⟨.refl _, rfl, rfl⟩

end camel_file
