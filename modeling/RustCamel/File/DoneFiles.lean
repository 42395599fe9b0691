-- Done markers between producer and consumer. The producer puts the whole relative name into the
-- pattern and joins the result to its directory; the consumer puts the last name into it and looks
-- next to the file. The two meet where the pattern begins with the name, or where the name has no
-- directories.
import RustCamel.File.Confinement
import RustCamel.File.Polling

namespace camel_file

open FileTree UnixPath Prog List

variable {refusable : Call → Prop}

/-! ## A file that was opened for writing -/

/-- An opened file is there, and its place is the last one that was touched. -/
structure Opened (p : Path) (q : Place) (w : World) : Prop where
  named : p.as_dir = false
  touched : w.touched.getLast? = some q
  leads : w.fs.canonicalize p = .ok q
  there : (w.fs.tree.node q).isSome

variable {w : World} {config : FileConfig} {target : Path} {file_name : Text} {pattern : Text}
  {target_path : Path} {fs : Fs}

theorem holds_open_write {p : Path} {exclusive truncate : Bool} :
    Holds refusable anything w (sys (.open_write p exclusive truncate)) (Opened p) := by
  rintro answer w' (⟨modified, h⟩ | ⟨-, rfl, rfl⟩)
  · rcases open_write_cases h with ⟨fault, rfl, rfl⟩ |
      ⟨q, tree, rfl, hs, hd, hl, rfl, ht⟩
    · exact ⟨trivial, fun a ha => by cases ha⟩
    · refine ⟨trivial, ?_⟩
      intro q' hq'
      cases hq'
      have hn : p.as_dir = false := by
        cases hc : p.as_dir with
        | false => rfl
        | true =>
          rw [is_dir_of_spot hc hs] at hd
          cases hd
      have hf : ∃ content, tree.node q = some (.file content) := by
        rcases ht with rfl | ⟨rfl, hf⟩
        · exact ⟨_, Tree.node_put_of_spot hs hd⟩
        · exact Tree.is_file_iff.mp hf
      have hk : Tree.Keeps w.fs.tree tree := by
        rcases ht with rfl | ⟨rfl, -⟩
        · exact Tree.keeps_put hl
        · exact .refl _
      obtain ⟨content, hno⟩ := hf
      have hso : (tree.node q).isSome := by
        rw [hno]
        rfl
      refine ⟨hn, getLast?_concat, ?_, hso⟩
      apply Tree.resolve_of_spot hs hd hk hso
      unfold Tree.is_link
      rw [hno]
      rfl
  · exact ⟨trivial, fun a ha => by cases ha⟩

theorem holds_rename {p p' : Path} :
    Holds refusable anything w (sys (.rename p p')) fun _ _ => p'.as_dir = false := by
  rintro answer w' (h | ⟨-, rfl, rfl⟩)
  · rcases rename_cases h with ⟨fault, rfl, rfl⟩ | ⟨q, q', moved, rfl, -, hs, -, -, hd, rfl⟩
    · exact ⟨trivial, fun a ha => by cases ha⟩
    · refine ⟨trivial, ?_⟩
      intro _ _
      cases hc : p'.as_dir with
      | false => rfl
      | true =>
        rw [is_dir_of_spot hc hs] at hd
        cases hd
  · exact ⟨trivial, fun a ha => by cases ha⟩

/-! ## A call that comes through -/

theorem holds_atomic_write {body : List UInt8} {prefix' : Option Text} {durable : Bool} :
    Holds refusable anything w (atomic_write target_path body prefix' durable).run
      fun _ _ => target_path.as_dir = false := by
  unfold atomic_write
  cases target_path.parent with
  | none => exact Holds.throw
  | some parent =>
    cases target_path.file_name with
    | none => exact Holds.throw
    | some file_name =>
      refine Holds.bind Holds.anything ?_
      intro random_infix w₁ _ _
      refine Holds.bind Holds.anything ?_
      intro handle w₂ _ _
      have hw : Holds refusable anything w₂ (write_temp target_path
          (parent.join (parse (temp_name prefix' random_infix file_name))) handle body
          durable).run fun _ _ => target_path.as_dir = false := by
        unfold write_temp
        refine Holds.bind Holds.anything ?_
        intro _ w₃ _ _
        refine Holds.bind Holds.anything ?_
        intro _ w₄ _ _
        exact Holds.timeout holds_rename
      refine Holds.bind (Holds.guarded hw fun _ _ => Holds.anything) ?_
      intro _ w₃ _ hn
      exact Holds.mono Holds.anything fun _ _ _ => hn

theorem holds_write_target {body : List UInt8} :
    Holds refusable anything w (write_target config target_path body).run
      fun written _ => written = true → target_path.as_dir = false := by
  have hw : ∀ (text : String) (exclusive : Bool), Holds refusable anything w
      (do
        let handle ← timeout text (sys (.open_write target_path exclusive false))
        write_body handle body
        plain (sys .sync)
        return true : FileProg Bool).run
      fun written _ => written = true → target_path.as_dir = false := by
    intro text exclusive
    refine Holds.bind (Holds.timeout holds_open_write) ?_
    intro handle w₁ _ ho
    exact Holds.mono Holds.anything fun _ _ _ _ => ho.named
  have ha : ∀ (w' : World) (prefix' : Option Text), Holds refusable anything w'
      (do
        atomic_write target_path body prefix' config.durable
        return true : FileProg Bool).run
      fun written _ => written = true → target_path.as_dir = false := by
    intro w' prefix'
    refine Holds.bind holds_atomic_write ?_
    intro _ w₁ _ hn
    exact Holds.pure fun _ => hn
  unfold write_target
  cases config.file_exist with
  | Fail | Append => exact hw _ _
  | Override => exact ha w _
  | TryRename =>
    cases config.temp_prefix with
    | none => exact Holds.throw
    | some text => exact ha w (some text)
  | Ignore =>
    refine Holds.bind Holds.anything ?_
    intro fs w' _ _
    split
    · exact Holds.pure nofun
    · exact ha w' _

/-- The path at which the producer puts its marker. -/
def marker_path (config : FileConfig) (file_name pattern : Text) : Path :=
  (parse config.directory).join (parse (replace FILE_NAME file_name pattern))

theorem holds_write_done (hd : config.done_file_name = some pattern) :
    Holds refusable anything w (write_done config (parse config.directory) file_name).run
      fun _ w' => (parse (replace FILE_NAME file_name pattern)).is_absolute = false ∧
        ∃ q, Opened (marker_path config file_name pattern) q w' := by
  unfold write_done
  rw [hd]
  refine Holds.bind Holds.checked ?_
  rintro ⟨⟩ w₁ - ⟨hr, rfl⟩
  obtain ⟨-, ha, -⟩ := relative_of_validated hr
  refine Holds.bind Holds.anything ?_
  intro _ w₂ _ _
  refine Holds.bind (Holds.timeout holds_open_write) ?_
  intro q w₃ _ ho
  exact Holds.pure ⟨ha, q, ho⟩

/-- What a call with a done pattern has done when it comes through with a path. -/
structure Produced (config : FileConfig) (file_name pattern : Text) (target : Path) (w : World) :
    Prop where
  relative : validate_relative_filename file_name "fileName" = .ok ()
  target_eq : target = (parse config.directory).join (parse file_name)
  named : target.as_dir = false
  marker_relative : (parse (replace FILE_NAME file_name pattern)).is_absolute = false
  marked : ∃ q, Opened (marker_path config file_name pattern) q w

theorem holds_call {body : List UInt8} (hd : config.done_file_name = some pattern) :
    Holds refusable anything w (call config file_name body).run
      fun result w' => ∀ target, result = some target →
        Produced config file_name pattern target w' := by
  unfold call
  refine Holds.bind Holds.checked ?_
  rintro ⟨⟩ w₁ - ⟨hr, rfl⟩
  unfold produce
  refine Holds.bind Holds.anything ?_
  intro _ w₂ _ _
  refine Holds.bind Holds.anything ?_
  intro _ w₃ _ _
  unfold write_validated
  refine Holds.bind Holds.anything ?_
  intro _ w₄ _ _
  refine Holds.bind holds_write_target ?_
  intro written w₅ _ hn
  cases written with
  | false => exact Holds.pure nofun
  | true =>
    refine Holds.bind (holds_write_done hd) ?_
    intro _ w₆ _ hm
    refine Holds.pure ?_
    intro target ht
    cases ht
    exact ⟨hr, rfl, hn rfl, hm.1, hm.2⟩

/-! ## The name that is written -/

def last_name (file_name : Text) : Text := (parse file_name).file_name.getD []

theorem last_name_of_plain {n : Text} (h : Plain n) : last_name n = n := by
  unfold last_name
  rw [h.parse_eq]
  rfl

theorem last_name_append {front last : Text} (hf : front ≠ []) (hlast : Plain last) :
    last_name (front ++ '/' :: last) = last := by
  unfold last_name
  rw [parse_append hf hlast.not_absolute, hlast.file_name_join]
  rfl

theorem done_path_join {folder : Path} {last : Text} (hlast : Plain last)
    (hn : ¬FILE_NAME_NOEXT <:+: replace FILE_NAME last pattern) :
    done_path (folder.join (parse last)) pattern =
      folder.join (parse (replace FILE_NAME last pattern)) := by
  unfold done_path resolve_done_file_name
  rw [hlast.with_file_name_join, hlast.file_name_join, Option.getD_some, replace_of_not_within hn]

/-! ## Where the two expansions agree -/

/-- The producer and the consumer put the name in the same place: the name has no directories, the
pattern begins with the name (with nothing but `./` before it), or neither has the pattern a place
for the name nor the name a directory. -/
inductive Aligned (config : FileConfig) (file_name pattern : Text) : Prop
  | plain (h : '/' ∉ file_name)
  | leading (rest : Text) (hpattern : pattern = FILE_NAME ++ rest) (hrest : ¬FILE_NAME <:+: rest)
  | behind_dots (hdir : config.directory ≠ []) (dots rest : Text)
      (hpattern : pattern = dots ++ '/' :: (FILE_NAME ++ rest))
      (hdots : (parse dots).components = [.here]) (hrest : ¬FILE_NAME <:+: rest)
  | fixed (hdir : config.directory ≠ []) (hpattern : ¬FILE_NAME <:+: pattern) (n : Text)
      (hname : (parse file_name).below = [.name n])

theorem replace_leading {name rest : Text} (hr : ¬FILE_NAME <:+: rest) :
    replace FILE_NAME name (FILE_NAME ++ rest) = name ++ rest := by
  have hh : replace FILE_NAME name (FILE_NAME ++ rest) = name ++ replace FILE_NAME name rest :=
    replace_at_head
  rw [hh, replace_of_not_within hr]

theorem replace_behind_dots {dots name rest : Text} (hdo : (parse dots).components = [.here])
    (hr : ¬FILE_NAME <:+: rest) :
    replace FILE_NAME name (dots ++ '/' :: (FILE_NAME ++ rest)) =
      dots ++ '/' :: (name ++ rest) := by
  have hd : '$' ∉ dots ++ ['/'] := by
    intro hm
    rcases mem_append.mp hm with hm | hm
    · rcases dot_of_components hdo hm with h | h <;> exact absurd h (by decide)
    · exact absurd hm (by decide)
  have hf : replace FILE_NAME name (dots ++ ['/'] ++ (FILE_NAME ++ rest)) =
      dots ++ ['/'] ++ replace FILE_NAME name (FILE_NAME ++ rest) := replace_append hd
  rw [replace_leading hr] at hf
  simpa using hf

theorem Produced.last_part (h : Produced config file_name pattern target w) :
    Plain file_name ∨ ∃ front last, file_name = front ++ '/' :: last ∧ front ≠ [] ∧
      (parse front).is_absolute = false ∧ Plain last := by
  obtain ⟨hr, rfl, hn, -, -⟩ := h
  obtain ⟨hne, ha, hu⟩ := relative_of_validated hr
  have hfi : (parse file_name).as_dir = false := by
    by_cases hb : (parse config.directory).components = []
    · rwa [Path.join_of_empty hb] at hn
    · rw [Path.join_eq hb ha, Bool.or_eq_false_iff] at hn
      exact hn.2
  rcases last_part_of_named ha hu hne hfi with hp | ⟨front, last, rfl, hf, hlast⟩
  · exact .inl hp
  · rw [is_absolute_parse_append hf hlast.not_absolute] at ha
    exact .inr ⟨front, last, rfl, hf, ha, hlast⟩

theorem Produced.file_name_eq (h : Produced config file_name pattern target w) :
    target.file_name.getD [] = last_name file_name := by
  rw [h.target_eq]
  rcases h.last_part with hp | ⟨front, last, rfl, hf, -, hlast⟩
  · rw [hp.file_name_join, last_name_of_plain hp]
    rfl
  · rw [parse_append hf hlast.not_absolute, ← Path.join_assoc, hlast.file_name_join,
      last_name_append hf hlast]
    rfl

theorem marker_path_eq (hpr : Produced config file_name pattern target w)
    (ha : Aligned config file_name pattern)
    (hno : ¬FILE_NAME_NOEXT <:+: replace FILE_NAME (last_name file_name) pattern) :
    marker_path config file_name pattern = done_path target pattern := by
  unfold marker_path
  rw [hpr.target_eq]
  rcases hpr.last_part with hp | ⟨front, last, rfl, hf, hfr, hlast⟩
  · rw [last_name_of_plain hp] at hno
    rw [done_path_join hp hno]
  · have hl : ∀ rest, (parse (last ++ rest)).is_absolute = false := not_absolute_of_plain hlast
    rw [last_name_append hf hlast] at hno
    rw [parse_append hf hlast.not_absolute, ← Path.join_assoc, done_path_join hlast hno]
    cases ha with
    | plain h => exact absurd (mem_append_right _ (.head _)) h
    | leading rest hpa hr =>
      rw [hpa, replace_leading hr, replace_leading hr, append_assoc,
        cons_append, parse_append hf (hl rest), Path.join_assoc]
    | behind_dots hdi dots rest hpa hdo hr =>
      have hb := components_ne_nil hdi
      have hd : dots ≠ [] := by
        rintro rfl
        cases hdo
      have hfo : ((parse config.directory).join (parse front)).components ≠ [] := by
        rw [Path.join_eq hb hfr]
        simp [hb]
      have hn : (parse (front ++ '/' :: (last ++ rest))).is_absolute = false := by
        rwa [is_absolute_parse_append hf (hl rest)]
      rw [hpa, replace_behind_dots hdo hr, replace_behind_dots hdo hr,
        append_assoc, cons_append, parse_append hd hn,
        parse_append hd (hl rest), join_dots hb hdo, join_dots hfo hdo,
        parse_append hf (hl rest), Path.join_assoc]
    | fixed hdi hpa n hna =>
      have hb := components_ne_nil hdi
      have hnon : (parse front).below = [] := by
        rw [below_append_plain hf hlast] at hna
        have hle := congrArg List.length hna
        simpa using hle
      rw [replace_of_not_within hpa, replace_of_not_within hpa]
      apply Path.join_congr
      rw [Path.join_eq hb hfr, hnon]
      exact (append_nil _).symm

/-- The consumer of the directory finds the marker of every file that the producer has written under
this name, and its done-file filter takes the file. -/
def MarkerIsFound (fs : Fs) (config : FileConfig) (file_name pattern : Text) : Prop :=
  config.done_file_name = some pattern →
    ∀ (refusable : Call → Prop) (body : List UInt8) (target : Path) (w : World),
      Runs (os refusable) (call config file_name body).run ⟨fs, []⟩ (.ok (some target)) w →
      (∃ q, Opened (marker_path config file_name pattern) q w) ∧
        marker_path config file_name pattern = done_path target pattern ∧
        passes_done_file w.fs target (target.file_name.getD []) (some pattern) = true

/-- Producer and consumer agree on the marker where the pattern has the name at its head or the name
has no directories, where no `noext` is left for the consumer to replace, and where the file does
not look like a marker itself. -/
theorem marker_is_found (fs : Fs) (config : FileConfig) (file_name pattern : Text)
    (haligned : Aligned config file_name pattern)
    (hnoext : ¬FILE_NAME_NOEXT <:+: replace FILE_NAME (last_name file_name) pattern)
    (hmarker : is_done_marker (last_name file_name) pattern = false) :
    MarkerIsFound fs config file_name pattern := by
  intro hd refusable body target w hru
  have hs : Holds refusable anything ⟨fs, []⟩ (call config file_name body).run
      fun result w' => ∀ target, result = some target →
        Produced config file_name pattern target w' := holds_call hd
  obtain ⟨-, hr⟩ := wp_ofSem_iff.mp hs _ w hru
  have hp := hr _ rfl target rfl
  have hpa := marker_path_eq hp haligned hnoext
  obtain ⟨q, ho⟩ := hp.marked
  refine ⟨⟨q, ho⟩, hpa, ?_⟩
  have he : done_file_exists w.fs target pattern = true := by
    unfold done_file_exists Fs.exists_
    rw [← hpa, ho.leads]
    exact ho.there
  simp only [passes_done_file]
  rw [he, hp.file_name_eq, hmarker]
  rfl

/-- An accepted endpoint with a done pattern. -/
def marked (directory pattern : String) : FileConfig :=
  { accepted directory with done_file_name := some pattern.toList }

/-- What the producer gives and leaves behind on a system without surprises. -/
def mark (fs : Fs) (directory pattern file_name : String) :
    Except CamelError (Option Path) × World :=
  Prog.eval grant (call (marked directory pattern) file_name.toList [1]).run ⟨fs, []⟩

theorem runs_mark {directory pattern file_name : String}
    (h : (mark fs directory pattern file_name).1 = .ok (some target)) :
    Runs (os fun _ => True) (call (marked directory pattern) file_name.toList [1]).run ⟨fs, []⟩
      (.ok (some target)) (mark fs directory pattern file_name).2 := by
  rw [← h]
  exact runs_grant _ _

theorem nested_marker_is_found :
    MarkerIsFound empty_data (marked "/data" "$\x7bfile:name\x7d.done") "in/x.txt".toList
        "$\x7bfile:name\x7d.done".toList ∧
      (mark empty_data "/data" "$\x7bfile:name\x7d.done" "in/x.txt").1 =
        .ok (some (parse "/data/in/x.txt".toList)) := by
  refine ⟨marker_is_found _ _ _ _ (.leading ".done".toList ?_ ?_) ?_ ?_, ?_⟩
  all_goals decide +kernel

theorem not_markerIsFound {directory pattern file_name : String} (target : Path)
    (hr : (mark fs directory pattern file_name).1 = .ok (some target))
    (hp : marker_path (marked directory pattern) file_name.toList pattern.toList ≠
      done_path target pattern.toList) :
    ¬MarkerIsFound fs (marked directory pattern) file_name.toList pattern.toList := by
  intro h
  exact hp (h rfl _ _ _ _ (runs_mark hr)).2.1

/-- The marker with a fixed name lies in the directory of the endpoint, not next to the file; and
the producer leaves the placeholder without the extension as it is. -/
theorem marker_is_missed :
    ¬MarkerIsFound empty_data (marked "/data" "ready") "in/x.txt".toList "ready".toList ∧
      ¬MarkerIsFound empty_data (marked "/data" "$\x7bfile:name.noext\x7d.done") "x.txt".toList
        "$\x7bfile:name.noext\x7d.done".toList := by
  constructor
  · exact not_markerIsFound (parse "/data/in/x.txt".toList) (by decide +kernel)
      (by decide +kernel)
  · exact not_markerIsFound (parse "/data/x.txt".toList) (by decide +kernel)
      (by decide +kernel)

end camel_file
