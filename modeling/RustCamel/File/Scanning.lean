-- What a scan finds: every candidate is a regular file below the endpoint directory that passes the
-- filters, and no file is found twice.
import RustCamel.File.HeldFiles

namespace camel_file

open FileTree UnixPath Prog List

/-- Every entry of the file system has a name that is one name. -/
def WellNamed (fs : Fs) : Prop := ∀ p n, (fs.tree.node (p ++ [n])).isSome → Plain n

/-- The path of a file below the endpoint directory. -/
def path_below (base : List (Seg Text)) (names : List Text) : Path :=
  ⟨base ++ names.map .name, false⟩

theorem path_below_snoc (base : List (Seg Text)) (names : List Text) (n : Text) :
    path_below base (names ++ [n]) = entry (base ++ names.map .name) n := by
  simp [path_below, entry]

theorem path_below_inj {base : List (Seg Text)} {names names' : List Text}
    (h : path_below base names = path_below base names') : names = names' := by
  have hc := congrArg Path.components h
  simp only [path_below, append_cancel_left_eq] at hc
  refine map_injective_iff.mpr ?_ hc
  intro a b hab
  cases hab
  rfl

variable {dirs : List Text} {n : Text} {depth : Nat} {folder : List (Seg Text)}
  {entries : List Text}

section

variable {config : FileConfig} {filters : CompiledFilters} {base_path : Path} {seen : List Path}
  {fs : Fs} {B : Place}

/-- The scan comes down to this directory. -/
def Reached (config : FileConfig) (dirs : List Text) : Prop :=
  (dirs = [] ∨ config.recursive = true) ∧ dirs.length + 1 ≤ config.max_depth

/-- A regular file below the endpoint directory `B` that the scan reaches and that passes the
filters. -/
structure Found (config : FileConfig) (filters : CompiledFilters) (base_path : Path) (fs : Fs)
    (B : Place) (dirs : List Text) (n : Text) (content : Content) : Prop where
  name : Plain n
  reached : Reached config dirs
  deep : config.min_depth ≤ dirs.length + 1
  file : FileIn fs (base_path.components ++ dirs.map .name) (B ++ dirs) n content
  passed : pass_all_filters fs (path_below base_path.components (dirs ++ [n])) n base_path config
    filters = true

/-- These candidates were found below this directory, each of them once. -/
structure Listed (config : FileConfig) (filters : CompiledFilters) (base_path : Path) (fs : Fs)
    (B : Place) (dirs : List Text) (candidates : List Candidate) : Prop where
  found : ∀ c ∈ candidates, ∃ below n content,
    c.path = path_below base_path.components (dirs ++ below ++ [n]) ∧
      Found config filters base_path fs B (dirs ++ below) n content
  once : (candidates.map Candidate.path).Nodup

theorem Listed.nil (dirs : List Text) : Listed config filters base_path fs B dirs [] :=
  ⟨by simp, nodup_nil⟩

/-- Found below one of these entries of the directory. -/
def Under (base : List (Seg Text)) (dirs entries : List Text) (candidates : List Candidate) :
    Prop :=
  ∀ c ∈ candidates, ∃ n ∈ entries, ∃ rest, c.path = path_below base (dirs ++ n :: rest)

theorem Listed.append {new later : List Candidate}
    (hne : Listed config filters base_path fs B dirs new)
    (hl : Listed config filters base_path fs B dirs later)
    (hu : Under base_path.components dirs [n] new)
    (hu' : Under base_path.components dirs entries later) (hn : n ∉ entries) :
    Listed config filters base_path fs B dirs (new ++ later) := by
  constructor
  · intro c hc
    rcases mem_append.mp hc with hc | hc
    · exact hne.found c hc
    · exact hl.found c hc
  · rw [map_append, nodup_append]
    refine ⟨hne.once, hl.once, ?_⟩
    intro p hp p' hp' heq
    obtain ⟨c, hc, rfl⟩ := List.mem_map.mp hp
    obtain ⟨c', hc', rfl⟩ := List.mem_map.mp hp'
    obtain ⟨m, hm, rest, hpa⟩ := hu c hc
    obtain ⟨m', hm', rest', hpa'⟩ := hu' c' hc'
    rw [hpa, hpa'] at heq
    have hna := append_cancel_left (path_below_inj heq)
    rw [mem_singleton.mp hm] at hna
    rw [(List.cons.inj hna).1] at hn
    exact hn hm'

theorem Under.append {base : List (Seg Text)} {new later : List Candidate}
    (hn : Under base dirs [n] new) (hl : Under base dirs entries later) :
    Under base dirs (n :: entries) (new ++ later) := by
  intro c hc
  rcases mem_append.mp hc with hc | hc
  · obtain ⟨m, hm, hr⟩ := hn c hc
    exact ⟨m, by rw [mem_singleton.mp hm]; exact mem_cons_self .., hr⟩
  · obtain ⟨m, hm, hr⟩ := hl c hc
    exact ⟨m, .tail _ hm, hr⟩

theorem Listed.up {new : List Candidate}
    (h : Listed config filters base_path fs B (dirs ++ [n]) new) :
    Listed config filters base_path fs B dirs new ∧ Under base_path.components dirs [n] new := by
  refine ⟨⟨?_, h.once⟩, ?_⟩
  · intro c hc
    obtain ⟨below, m, content, hp, hf⟩ := h.found c hc
    refine ⟨n :: below, m, content, ?_, ?_⟩
    · simpa using hp
    · simpa using hf
  · intro c hc
    obtain ⟨below, m, content, hp, -⟩ := h.found c hc
    exact ⟨n, mem_cons_self .., below ++ [m], by simpa using hp⟩

theorem Listed.single {content metadata : Content}
    (h : Found config filters base_path fs B dirs n content) :
    Listed config filters base_path fs B dirs
        [⟨path_below base_path.components (dirs ++ [n]), metadata, depth⟩] ∧
      Under base_path.components dirs [n]
        [⟨path_below base_path.components (dirs ++ [n]), metadata, depth⟩] := by
  refine ⟨⟨?_, nodup_singleton _⟩, ?_⟩
  · intro c hc
    rw [mem_singleton.mp hc]
    exact ⟨[], n, content, by simp, by simpa using h⟩
  · intro c hc
    rw [mem_singleton.mp hc]
    exact ⟨n, mem_cons_self .., [], rfl⟩

/-! ## The walk -/

variable {sem : Sem Call Answer World} {w : World}

/-- A scan leaves the world alone and adds what it finds below the directory. -/
def Scanned (config : FileConfig) (filters : CompiledFilters) (base_path : Path) (B : Place)
    (w : World) (dirs : List Text) (scan : Scan) (r : Except Fault Bool × Scan) (w' : World) :
    Prop :=
  w' = w ∧ ∃ new, r.2.candidates = scan.candidates ++ new ∧
    Listed config filters base_path w.fs B dirs new

theorem look_eq (hs : ∀ c w r w', sem c w r w' → os (fun _ => True) c w r w') {fs : Fs}
    {w' : World} (h : sem .look w fs w') : fs = w.fs ∧ w' = w := by
  rcases hs _ _ _ _ h with h | ⟨-, h⟩
  · exact h
  · cases h

theorem scan_file_spec {content : Content} {scan scan' : Scan} (hn : Plain n)
    (hr : Reached config dirs) (hd : depth = dirs.length + 1)
    (hf : FileIn fs (base_path.components ++ dirs.map .name) (B ++ dirs) n content)
    (h : scan_file config filters base_path seen fs
      (path_below base_path.components (dirs ++ [n])) content depth scan = some scan') :
    ∃ new, scan'.candidates = scan.candidates ++ new ∧
      Listed config filters base_path fs B dirs new ∧ Under base_path.components dirs [n] new := by
  have hl : ∃ new, scan.candidates = scan.candidates ++ new ∧
      Listed config filters base_path fs B dirs new ∧ Under base_path.components dirs [n] new :=
    ⟨[], (append_nil _).symm, .nil dirs, by simp [Under]⟩
  unfold scan_file at h
  split at h
  · cases h
  split at h
  · cases h
    exact hl
  rename_i hde
  split at h
  · cases h
    exact hl
  rename_i hp
  split at h
  · cases h
    exact hl
  · cases h
    have hna : (path_below base_path.components (dirs ++ [n])).file_name.getD [] = n := by
      rw [path_below_snoc, file_name_entry]
      rfl
    rw [hna] at hp
    exact ⟨_, rfl, Listed.single ⟨hn, hr, by omega, hf, by simpa using hp⟩⟩

theorem symlink_metadata_entry {P : Place} (h : Rooted fs folder P) :
    fs.symlink_metadata (entry folder n) = fs.tree.node (P ++ [n]) := by
  unfold Fs.symlink_metadata
  rw [spot_entry h]

theorem walk_entries_spec (hse : ∀ c w r w', sem c w r w' → os (fun _ => True) c w r w')
    (hna : WellNamed w.fs) {descend : Path → Scan → Prog Call Answer (Except Fault Bool × Scan)}
    {dir : Path} (hdi : dir.components = base_path.components ++ dirs.map .name)
    (hre : Reached config dirs) (hd : depth = dirs.length + 1)
    (hro : Rooted w.fs (base_path.components ++ dirs.map .name) (B ++ dirs))
    (hde : ∀ n scan, config.recursive = true → w.fs.tree.is_dir (B ++ dirs ++ [n]) →
      wp (ofSem sem) (descend (path_below base_path.components (dirs ++ [n])) scan)
        (Scanned config filters base_path B w (dirs ++ [n]) scan) w) (names : List Text)
    (ho : names.Nodup) (ht : ∀ n ∈ names, (w.fs.tree.node (B ++ dirs ++ [n])).isSome)
    (scan : Scan) :
    wp (ofSem sem) (walk_entries config filters base_path seen descend dir depth names scan)
      (fun r w' => w' = w ∧ ∃ new, r.2.candidates = scan.candidates ++ new ∧
        Listed config filters base_path w.fs B dirs new ∧
        Under base_path.components dirs names new) w := by
  induction names generalizing scan with
  | nil => exact ⟨rfl, [], (append_nil _).symm, .nil dirs, by simp [Under]⟩
  | cons n names ih =>
    obtain ⟨hn, ho⟩ := nodup_cons.mp ho
    have hp : Plain n := hna _ n (ht n (.head _))
    have hpa : dir.join (parse n) = path_below base_path.components (dirs ++ [n]) := by
      rw [hp.join_eq, hdi, path_below_snoc]
      rfl
    have hne := ih ho fun m hm => ht m (.tail _ hm)
    -- what was found at this entry, and then the rest of them
    have hres : ∀ scan' new, scan'.candidates = scan.candidates ++ new →
        Listed config filters base_path w.fs B dirs new →
        Under base_path.components dirs [n] new →
        wp (ofSem sem) (walk_entries config filters base_path seen descend dir depth names scan')
          (fun r w' => w' = w ∧ ∃ new, r.2.candidates = scan.candidates ++ new ∧
            Listed config filters base_path w.fs B dirs new ∧
            Under base_path.components dirs (n :: names) new) w := by
      intro scan' new hs hl hu
      refine wp_mono (mono_ofSem _) ?_ (hne scan')
      rintro r w' ⟨rfl, later, hla, hl', hu'⟩
      refine ⟨rfl, new ++ later, ?_, hl.append hl' hu hu' hn, hu.append hu'⟩
      rw [hla, hs, append_assoc]
    have hno : wp (ofSem sem)
        (walk_entries config filters base_path seen descend dir depth names scan)
        (fun r w' => w' = w ∧ ∃ new, r.2.candidates = scan.candidates ++ new ∧
          Listed config filters base_path w.fs B dirs new ∧
          Under base_path.components dirs (n :: names) new) w :=
      hres scan [] (append_nil _).symm (.nil dirs) (by simp [Under])
    intro fs' w' hlo
    obtain ⟨rfl, rfl⟩ := look_eq hse hlo
    dsimp only
    rw [hpa, path_below_snoc, symlink_metadata_entry hro, ← path_below_snoc]
    cases hnod : w'.fs.tree.node (B ++ dirs ++ [n]) with
    | none => exact ⟨rfl, [], (append_nil _).symm, .nil dirs, by simp [Under]⟩
    | some node =>
      cases node with
      | link target => exact hno
      | file content =>
        dsimp only
        split
        · exact ⟨rfl, [], (append_nil _).symm, .nil dirs, by simp [Under]⟩
        · rename_i scan' hs
          obtain ⟨new, hnew, hl, hu⟩ := scan_file_spec hp hre hd
            ⟨hro, hnod⟩ hs
          exact hres scan' new hnew hl hu
      | dir =>
        dsimp only
        split
        · rename_i hr
          rw [wp_bind]
          refine wp_mono (mono_ofSem _) ?_ (hde n scan hr (Tree.is_dir_iff.mpr hnod))
          rintro ⟨result, scan'⟩ w'' ⟨rfl, new, hnew, hl⟩
          obtain ⟨hl, hu⟩ := hl.up
          have he : w'' = w'' ∧ ∃ new, scan'.candidates = scan.candidates ++ new ∧
              Listed config filters base_path w''.fs B dirs new ∧
              Under base_path.components dirs (n :: names) new := by
            refine ⟨rfl, new, hnew, hl, ?_⟩
            intro c hc
            obtain ⟨m, hm, hres⟩ := hu c hc
            exact ⟨m, by rw [mem_singleton.mp hm]; exact mem_cons_self .., hres⟩
          match result with
          | .error fault | .ok true => exact he
          | .ok false => exact hres scan' new hnew hl hu
        · exact hno

theorem rooted_of_canonicalize {p : Path} {q : Place} (h : fs.canonicalize p = .ok q)
    (hd : fs.tree.is_dir q) : Rooted fs p.components q := by
  obtain ⟨left, hw⟩ := Tree.walk_of_resolve h
  unfold Path.segs at hw
  obtain ⟨r, middle, hc, hlast⟩ := Tree.walk_of_append hw
  split at hlast
  · rw [Tree.walk_here] at hlast
    split at hlast
    · rw [Tree.walk_nil] at hlast
      cases hlast
      exact ⟨⟨left, hc⟩, hd⟩
    · cases hlast
  · rw [Tree.walk_nil] at hlast
    cases hlast
    exact ⟨⟨left, hc⟩, hd⟩

theorem rooted_down {P : Place} (h : Rooted fs folder P) (hd : fs.tree.is_dir (P ++ [n])) :
    Rooted fs (folder ++ [.name n]) (P ++ [n]) := by
  obtain ⟨⟨left, hw⟩, hP⟩ := h
  have hn := Tree.is_dir_iff.mp hd
  refine ⟨⟨left, ?_⟩, hd⟩
  rw [Tree.walk_append, hw]
  dsimp only
  rw [Tree.walk_step hP (by rw [hn]; rfl) (by unfold Tree.is_link; rw [hn]; rfl), Tree.walk_nil]

variable (hsem : ∀ c w r w', sem c w r w' → os (fun _ => True) c w r w') (hnamed : WellNamed w.fs)

include hsem hnamed

theorem walk_spec (fuel : Nat) {dir : Path}
    (hdi : dir.components = base_path.components ++ dirs.map .name)
    (hd : dirs = [] ∨ config.recursive = true) (hde : depth = dirs.length + 1)
    (ho : ∀ q, w.fs.canonicalize dir = .ok q → q = B ++ dirs) (scan : Scan) :
    wp (ofSem sem) (walk config filters base_path seen fuel depth dir scan)
      (Scanned config filters base_path B w dirs scan) w := by
  induction fuel generalizing depth dir dirs scan with
  | zero => exact ⟨rfl, [], (append_nil _).symm, .nil dirs⟩
  | succ fuel ih =>
    have hno : ∀ visited result, Scanned config filters base_path B w dirs scan
        (result, ⟨visited, scan.candidates⟩) w := fun _ _ =>
      ⟨rfl, [], (append_nil _).symm, .nil dirs⟩
    intro answer w₁ hc
    obtain rfl : w₁ = w := by
      rcases hsem _ _ _ _ hc with ⟨-, rfl⟩ | ⟨-, -, rfl⟩ <;> rfl
    cases answer with
    | error fault => exact hno _ _
    | ok canonical_dir =>
      dsimp only
      split
      · exact hno _ _
      split
      · exact hno _ _
      rename_i hs
      intro listing w₂ hl
      cases listing with
      | error fault =>
        rcases hsem _ _ _ _ hl with ⟨rfl, -⟩ | ⟨-, -, rfl⟩ <;> exact hno _ _
      | ok names =>
        rcases hsem _ _ _ _ hl with ⟨rfl, q, hq, hi, hon, hm⟩ | ⟨-, hr, -⟩
        · obtain rfl := ho q hq
          have hro := rooted_of_canonicalize hq hi
          rw [hdi] at hro
          refine wp_mono (mono_ofSem _) ?_ (walk_entries_spec hsem hnamed hdi
            ⟨hd, by omega⟩ hde hro ?_ names hon (fun n hn => (hm n).mp hn) _)
          · rintro r w₃ ⟨rfl, new, hne, hli, -⟩
            exact ⟨rfl, new, hne, hli⟩
          · intro n scan' hre hsub
            refine ih ?_ (.inr hre) ?_ ?_ scan'
            · rfl
            · rw [hde, length_append, length_singleton]
            · intro q' hq'
              have hdo := rooted_down hro hsub
              have hsu : w₂.fs.canonicalize (path_below base_path.components (dirs ++ [n])) =
                  .ok (B ++ dirs ++ [n]) := by
                apply canonicalize_of_rooted
                · simp [path_below]
                · rw [path_below_snoc]
                  exact hdo
              rw [hsu] at hq'
              rw [← append_assoc]
              exact (Except.ok.inj hq').symm
        · cases hr

/-- A scan of the endpoint directory finds regular files that pass the filters, none of them
twice. -/
theorem scan_candidates_spec (ho : ∀ q, w.fs.canonicalize base_path = .ok q → q = B)
    (fuel : Nat) :
    wp (ofSem sem) (scan_candidates config filters base_path seen fuel)
      (fun r w' => w' = w ∧ Listed config filters base_path w.fs B [] r.2.candidates) w := by
  have hw : wp (ofSem sem) (scan_candidates config filters base_path seen fuel)
      (Scanned config filters base_path B w [] ⟨[], []⟩) w := by
    apply walk_spec hsem hnamed fuel
    · simp
    · exact .inl rfl
    · rfl
    · simpa using ho
  refine wp_mono (mono_ofSem _) ?_ hw
  rintro r w' ⟨rfl, new, hn, hl⟩
  rw [nil_append] at hn
  rw [hn]
  exact ⟨rfl, hl⟩

end

end camel_file
