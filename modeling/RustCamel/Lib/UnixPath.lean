-- Paths as the standard library of Rust reads their text on Unix: components, joining, parents,
-- names. Empty parts and `.` are dropped, except for a `.` at the head of a relative path.
import RustCamel.Lib.FileTree

namespace UnixPath

open FileTree List

abbrev Text := List Char

/-- A path by its components. `as_dir` says that the text ends with `/` or `/.`: the components are
the same, but the system takes nothing but a directory there. -/
structure Path where
  components : List (Seg Text)
  as_dir : Bool
  deriving DecidableEq

/-- The component of a part between two slashes. -/
def part : Text → Option (Seg Text)
  | [] => none
  | ['.'] => none
  | ['.', '.'] => some .up
  | text => some (.name text)

/-- What the head of the text adds to the components of its parts. -/
def leading : Text → List (Seg Text)
  | '/' :: _ => [.root]
  | ['.'] => [.here]
  | '.' :: '/' :: _ => [.here]
  | _ => []

def ends_as_dir (text : Text) : Bool :=
  match (text.splitOn '/').getLast? with
  | some [] => text ≠ []
  | some ['.'] => true
  | _ => false

/-- `Path::new`. -/
def parse (text : Text) : Path :=
  ⟨leading text ++ (text.splitOn '/').filterMap part, ends_as_dir text⟩

namespace Path

variable (p : Path)

/-- The path as the system gets it. -/
def segs : List (Seg Text) := p.components ++ if p.as_dir then [.here] else []

def is_absolute : Bool := p.components.head? = some .root

def has_up : Bool := p.components.any (· = .up)

/-- The components without a `.` at the head. -/
def below : List (Seg Text) :=
  match p.components with
  | .here :: rest => rest
  | components => components

def join (q : Path) : Path :=
  if q.is_absolute || p.components.isEmpty then q
  else ⟨p.components ++ q.below, q.components.isEmpty || q.as_dir⟩

def parent : Option Path :=
  match p.components.getLast? with
  | none | some .root => none
  | some _ => some ⟨p.components.dropLast, false⟩

def file_name : Option Text :=
  match p.components.getLast? with
  | some (.name n) => some n
  | _ => none

def starts_with (base : Path) : Bool := base.components.isPrefixOf p.components

def strip_prefix (base : Path) : Option Path :=
  if p.starts_with base then some ⟨p.components.drop base.components.length, p.as_dir⟩ else none

def with_file_name (name : Text) : Path :=
  ((if p.file_name.isSome then p.parent else none).getD p).join (parse name)

def seg_text : Seg Text → Text
  | .root => []
  | .here => ['.']
  | .up => ['.', '.']
  | .name n => n

/-- The text of a path with one slash between two components. -/
def to_text : Text := ['/'].intercalate (p.components.map seg_text)

end Path

/-! ## Names -/

/-- A text that is one name: it has no slash, and it is none of the special parts. -/
structure Plain (text : Text) : Prop where
  no_slash : '/' ∉ text
  ne_nil : text ≠ []
  ne_here : text ≠ ['.']
  ne_up : text ≠ ['.', '.']

theorem not_mem_of_mem_splitOn {text l : Text} (h : l ∈ text.splitOn '/') : '/' ∉ l := by
  induction text generalizing l with
  | nil =>
    rw [splitOn_nil, mem_singleton] at h
    rw [h]
    exact not_mem_nil
  | cons c text ih =>
    rw [splitOn_cons_eq_if_modifyHead] at h
    split at h
    · rcases mem_cons.mp h with rfl | h
      · exact not_mem_nil
      · exact ih h
    · rename_i hc
      cases hp : text.splitOn '/' with
      | nil => exact absurd hp (splitOn_ne_nil _ _)
      | cons first rest =>
        rw [hp, modifyHead_cons] at h
        rw [hp] at ih
        rcases mem_cons.mp h with rfl | h
        · have hf := ih (.head _)
          have hn : '/' ≠ c := by
            rintro rfl
            exact hc rfl
          rw [mem_cons, not_or]
          exact ⟨hn, hf⟩
        · exact ih (.tail _ h)

theorem mem_part {text : Text} {c : Char} (h : c ∈ text) (hc : c ≠ '/') :
    ∃ l ∈ text.splitOn '/', c ∈ l := by
  induction text with
  | nil => cases h
  | cons d text ih =>
    rw [splitOn_cons_eq_if_modifyHead]
    split
    · rename_i hd
      rcases mem_cons.mp h with rfl | h
      · exact absurd (beq_iff_eq.mp hd).symm hc.symm
      · obtain ⟨l, hl, hm⟩ := ih h
        exact ⟨l, .tail _ hl, hm⟩
    · cases hp : text.splitOn '/' with
      | nil => exact absurd hp (splitOn_ne_nil _ _)
      | cons first rest =>
        rw [modifyHead_cons]
        rw [hp] at ih
        rcases mem_cons.mp h with rfl | h
        · exact ⟨_, mem_cons_self .., mem_cons_self ..⟩
        · obtain ⟨l, hl, hm⟩ := ih h
          rcases mem_cons.mp hl with rfl | hl
          · exact ⟨_, mem_cons_self .., .tail _ hm⟩
          · exact ⟨l, .tail _ hl, hm⟩

theorem part_cases {text : Text} {seg : Seg Text} (h : part text = some seg) :
    seg = .up ∨ seg = .name text ∧ text ≠ [] ∧ text ≠ ['.'] ∧ text ≠ ['.', '.'] := by
  unfold part at h
  split at h
  · cases h
  · cases h
  · exact .inl (Option.some.inj h).symm
  · rename_i hn hh hu
    exact .inr ⟨(Option.some.inj h).symm, hn, hh, hu⟩

theorem Plain.part_eq {text : Text} (h : Plain text) : part text = some (.name text) := by
  unfold part
  split
  · exact absurd rfl h.ne_nil
  · exact absurd rfl h.ne_here
  · exact absurd rfl h.ne_up
  · rfl

theorem mem_parts {text : Text} {seg : Seg Text}
    (h : seg ∈ (text.splitOn '/').filterMap part) : seg = .up ∨ ∃ n, seg = .name n ∧ Plain n := by
  obtain ⟨l, hl, hp⟩ := mem_filterMap.mp h
  rcases part_cases hp with rfl | ⟨rfl, hn, hh, hu⟩
  · exact .inl rfl
  · exact .inr ⟨l, rfl, not_mem_of_mem_splitOn hl, hn, hh, hu⟩

theorem Plain.parse_eq {text : Text} (h : Plain text) : parse text = ⟨[.name text], false⟩ := by
  have hl : leading text = [] := by
    unfold leading
    split
    · exact absurd (.head _) h.no_slash
    · exact absurd rfl h.ne_here
    · exact absurd (.tail _ (.head _)) h.no_slash
    · rfl
  have he : ends_as_dir text = false := by
    unfold ends_as_dir
    rw [splitOn_eq_singleton h.no_slash, getLast?_singleton]
    split
    · rename_i heq
      exact absurd (Option.some.inj heq) h.ne_nil
    · rename_i heq
      exact absurd (Option.some.inj heq) h.ne_here
    · rfl
  unfold parse
  rw [hl, he, splitOn_eq_singleton h.no_slash]
  simp [h.part_eq]

/-! ## Relative paths without `..` -/

theorem leading_cases (text : Text) :
    leading text = [.root] ∨ leading text = [.here] ∨ leading text = [] := by
  unfold leading
  split <;> simp

theorem below_eq_of_not_absolute {text : Text} (h : (parse text).is_absolute = false) :
    (parse text).below = (text.splitOn '/').filterMap part := by
  unfold Path.is_absolute parse at h
  unfold Path.below parse
  rcases leading_cases text with hl | hl | hl
  · rw [hl] at h
    simp at h
  · rw [hl]
    rfl
  · rw [hl, nil_append]
    cases hp : (text.splitOn '/').filterMap part with
    | nil => rfl
    | cons seg rest =>
      have hs : seg ∈ (text.splitOn '/').filterMap part := by
        rw [hp]
        exact mem_cons_self ..
      rcases mem_parts hs with rfl | ⟨n, rfl, -⟩ <;> rfl

theorem parts_eq_names {text : Text} (hu : (parse text).has_up = false) :
    ∃ names : List Text, (text.splitOn '/').filterMap part = names.map .name ∧
      ∀ n ∈ names, Plain n := by
  have hp : ∀ seg ∈ (text.splitOn '/').filterMap part, ∃ n, seg = .name n ∧ Plain n := by
    intro seg hs
    rcases mem_parts hs with rfl | hnam
    · have hme : Seg.up ∈ (parse text).components := mem_append_right _ hs
      unfold Path.has_up at hu
      rw [List.any_eq_false] at hu
      exact absurd (decide_eq_true rfl) (hu _ hme)
    · exact hnam
  revert hp
  generalize (text.splitOn '/').filterMap part = segs
  intro hp
  induction segs with
  | nil => exact ⟨[], rfl, by simp⟩
  | cons seg segs ih =>
    obtain ⟨n, rfl, hn⟩ := hp seg (.head _)
    obtain ⟨names, hna, hpl⟩ := ih fun seg hs => hp seg (.tail _ hs)
    refine ⟨n :: names, by rw [hna, map_cons], ?_⟩
    intro m hm
    rcases mem_cons.mp hm with rfl | hm
    · exact hn
    · exact hpl m hm

/-- A relative path without `..` goes down along names. -/
theorem exists_names {text : Text} (ha : (parse text).is_absolute = false)
    (hu : (parse text).has_up = false) :
    ∃ names : List Text, (parse text).below = names.map .name ∧ ∀ n ∈ names, Plain n := by
  rw [below_eq_of_not_absolute ha]
  exact parts_eq_names hu

theorem part_eq_none {text : Text} (h : part text = none) : text = [] ∨ text = ['.'] := by
  unfold part at h
  split at h
  · exact .inl rfl
  · exact .inr rfl
  · cases h
  · cases h

theorem ends_as_dir_of_below_nil {text : Text} (hn : text ≠ [])
    (ha : (parse text).is_absolute = false) (h : (parse text).below = []) :
    (parse text).as_dir = true := by
  rw [below_eq_of_not_absolute ha] at h
  have hp : ∀ l ∈ text.splitOn '/', l = [] ∨ l = ['.'] := by
    intro l hl
    exact part_eq_none (filterMap_eq_nil_iff.mp h l hl)
  show ends_as_dir text = true
  unfold ends_as_dir
  cases hlast : (text.splitOn '/').getLast? with
  | none => exact absurd (getLast?_eq_none_iff.mp hlast) (splitOn_ne_nil _ _)
  | some l =>
    rcases hp l (mem_of_getLast? hlast) with rfl | rfl
    · simpa using hn
    · rfl

theorem components_ne_nil {text : Text} (h : text ≠ []) : (parse text).components ≠ [] := by
  intro hnil
  obtain ⟨hl, hp⟩ := append_eq_nil_iff.mp hnil
  cases text with
  | nil => exact h rfl
  | cons c text =>
    by_cases hc : c = '/'
    · subst hc
      cases hl
    · rw [splitOn_cons_eq_if_modifyHead, if_neg (by simpa using hc)] at hp
      cases hs : text.splitOn '/' with
      | nil => exact absurd hs (splitOn_ne_nil _ _)
      | cons first rest =>
        rw [hs, modifyHead_cons, filterMap_eq_nil_iff] at hp
        -- the first part is a dot, so the text begins with one
        rcases part_eq_none (hp _ (.head _)) with hf | hf
        · cases hf
        · obtain ⟨rfl, rfl⟩ := List.cons.inj hf
          cases text with
          | nil => cases hl
          | cons d text =>
            rw [splitOn_cons_eq_if_modifyHead] at hs
            split at hs
            · rename_i hd
              obtain rfl : d = '/' := by simpa using hd
              cases hl
            · cases hr : text.splitOn '/' with
              | nil => exact absurd hr (splitOn_ne_nil _ _)
              | cons first' rest' =>
                rw [hr] at hs
                cases hs

/-- A text that leads nowhere but to `.` holds dots and slashes. -/
theorem dot_of_components {text : Text} {c : Char} (h : (parse text).components = [.here])
    (hc : c ∈ text) : c = '/' ∨ c = '.' := by
  have hp : (text.splitOn '/').filterMap part = [] := by
    unfold parse at h
    rcases leading_cases text with hle | hle | hle
    · rw [hle] at h
      cases h
    · rw [hle] at h
      exact (List.cons.inj h).2
    · rw [hle, nil_append] at h
      dsimp only at h
      have hm : Seg.here ∈ (text.splitOn '/').filterMap part := by
        rw [h]
        exact mem_cons_self ..
      rcases mem_parts hm with hh | ⟨n, hh, -⟩ <;> cases hh
  by_cases hs : c = '/'
  · exact .inl hs
  · obtain ⟨l, hl, hm⟩ := mem_part hc hs
    rcases part_eq_none (filterMap_eq_nil_iff.mp hp l hl) with rfl | rfl
    · cases hm
    · exact .inr (mem_singleton.mp hm)

variable {p q : Path} {n : Text}

theorem components_join {text : Text} (hp : p.components ≠ [])
    (ha : (parse text).is_absolute = false) :
    (p.join (parse text)).components = p.components ++ (parse text).below := by
  unfold Path.join
  have hc : ((parse text).is_absolute || p.components.isEmpty) = false := by
    simp [ha, hp]
  rw [hc]
  rfl

theorem as_dir_join {text : Text} (hp : p.components ≠ []) (ha : (parse text).is_absolute = false)
    (h : (parse text).as_dir = true) : (p.join (parse text)).as_dir = true := by
  unfold Path.join
  have hc : ((parse text).is_absolute || p.components.isEmpty) = false := by
    simp [ha, hp]
  rw [hc]
  simp [h]

/-! ## Joining -/

namespace Path

theorem join_congr {p' : Path} (h : p.components = p'.components) : p.join q = p'.join q := by
  unfold join
  rw [h]

theorem join_of_empty (h : p.components = []) : p.join q = q := by
  unfold join
  rw [h, isEmpty_nil, Bool.or_true, if_pos rfl]

theorem join_of_absolute (h : q.is_absolute = true) : p.join q = q := by
  unfold join
  rw [h, Bool.true_or, if_pos rfl]

theorem join_eq (hp : p.components ≠ []) (hq : q.is_absolute = false) :
    p.join q = ⟨p.components ++ q.below, q.components.isEmpty || q.as_dir⟩ := by
  have hc : (q.is_absolute || p.components.isEmpty) = false := by
    simp [hq, hp]
  unfold join
  rw [hc]
  rfl

theorem below_append (h : p.components ≠ []) (rest : List (Seg Text)) (as_dir : Bool) :
    below ⟨p.components ++ rest, as_dir⟩ = p.below ++ rest := by
  unfold below
  cases hp : p.components with
  | nil => exact absurd hp h
  | cons seg segs => cases seg <;> rfl

theorem is_absolute_append (h : p.components ≠ []) (rest : List (Seg Text)) (as_dir : Bool) :
    is_absolute ⟨p.components ++ rest, as_dir⟩ = p.is_absolute := by
  unfold is_absolute
  cases hp : p.components with
  | nil => exact absurd hp h
  | cons seg segs => rfl

theorem join_assoc (p q r : Path) : (p.join q).join r = p.join (q.join r) := by
  by_cases hr : r.is_absolute = true
  · rw [join_of_absolute hr, join_of_absolute hr, join_of_absolute hr]
  · rw [Bool.not_eq_true] at hr
    by_cases hq : q.components = []
    · rw [join_of_empty hq]
      by_cases hp : p.components = []
      · rw [join_of_empty hp, join_of_empty hp, join_of_empty hq]
      · -- a path without components adds none
        have hj : (p.join q).components = p.components := by
          rw [join_eq hp (by simp [is_absolute, hq])]
          simp [below, hq]
        exact join_congr hj
    · by_cases hp : p.components = []
      · rw [join_of_empty hp, join_of_empty hp]
      · rw [join_eq hq hr]
        by_cases ha : q.is_absolute = true
        · rw [join_of_absolute ha, join_eq hq hr, join_of_absolute]
          rwa [is_absolute_append hq]
        · rw [Bool.not_eq_true] at ha
          rw [join_eq hp ha, join_eq (by simp [hp]) hr,
            join_eq hp (by rwa [is_absolute_append hq]), below_append hq]
          simp [hq]

end Path

theorem Plain.join_eq (h : Plain n) (p : Path) :
    p.join (parse n) = ⟨p.components ++ [.name n], false⟩ := by
  rw [h.parse_eq]
  by_cases hp : p.components = []
  · rw [Path.join_of_empty hp, hp]
    rfl
  · rw [Path.join_eq hp rfl]
    rfl

theorem Plain.file_name_join (h : Plain n) (p : Path) : (p.join (parse n)).file_name = some n := by
  rw [h.join_eq]
  simp [Path.file_name]

theorem Plain.parent_join (h : Plain n) (p : Path) :
    (p.join (parse n)).parent = some ⟨p.components, false⟩ := by
  rw [h.join_eq]
  simp [Path.parent]

theorem Plain.with_file_name_join (h : Plain n) (p : Path) (name : Text) :
    (p.join (parse n)).with_file_name name = p.join (parse name) := by
  unfold Path.with_file_name
  rw [h.file_name_join, h.parent_join]
  exact Path.join_congr rfl

/-! ## The text before the last slash -/

theorem exists_last_part (text : Text) :
    '/' ∉ text ∨ ∃ front last, text = front ++ '/' :: last ∧ '/' ∉ last := by
  induction text with
  | nil => exact .inl not_mem_nil
  | cons c text ih =>
    rcases ih with hs | ⟨front, last, rfl, hlast⟩
    · by_cases hc : c = '/'
      · subst hc
        exact .inr ⟨[], text, rfl, hs⟩
      · refine .inl ?_
        rw [mem_cons, not_or]
        exact ⟨fun h => hc h.symm, hs⟩
    · exact .inr ⟨c :: front, last, rfl, hlast⟩

theorem leading_append {front : Text} (h : front ≠ []) (rest : Text) :
    leading (front ++ '/' :: rest) = leading front := by
  cases front with
  | nil => exact absurd rfl h
  | cons c front =>
    cases front with
    | nil | cons d front =>
      unfold leading
      split <;> simp_all

theorem ends_as_dir_append (front rest : Text) :
    ends_as_dir (front ++ '/' :: rest) = (rest.isEmpty || ends_as_dir rest) := by
  have hlast : ((front ++ '/' :: rest).splitOn '/').getLast? = (rest.splitOn '/').getLast? := by
    rw [splitOn_append_cons_self, getLast?_append_of_ne_nil _ (splitOn_ne_nil _ _)]
  unfold ends_as_dir
  rw [hlast]
  cases rest with
  | nil | cons c rest => simp

theorem parse_append {front rest : Text} (hf : front ≠ [])
    (hr : (parse rest).is_absolute = false) :
    parse (front ++ '/' :: rest) = (parse front).join (parse rest) := by
  rw [Path.join_eq (components_ne_nil hf) hr, below_eq_of_not_absolute hr]
  have he : (parse rest).components.isEmpty = rest.isEmpty := by
    cases rest with
    | nil => rfl
    | cons c rest => simpa using components_ne_nil (cons_ne_nil c rest)
  rw [he]
  unfold parse
  rw [leading_append hf, ends_as_dir_append, splitOn_append_cons_self,
    filterMap_append, append_assoc]

theorem is_absolute_parse_append {front rest : Text} (hf : front ≠ [])
    (hr : (parse rest).is_absolute = false) :
    (parse (front ++ '/' :: rest)).is_absolute = (parse front).is_absolute := by
  rw [parse_append hf hr, Path.join_eq (components_ne_nil hf) hr,
    Path.is_absolute_append (components_ne_nil hf)]

/-- A relative text that does not end like a directory is one name, or it has one behind its last
slash. -/
theorem last_part_of_named {text : Text} (ha : (parse text).is_absolute = false)
    (hu : (parse text).has_up = false) (hne : text ≠ []) (hn : (parse text).as_dir = false) :
    Plain text ∨ ∃ front last, text = front ++ '/' :: last ∧ front ≠ [] ∧ Plain last := by
  rcases exists_last_part text with hs | ⟨front, last, rfl, hlast⟩
  · refine .inl ⟨hs, hne, ?_, ?_⟩
    · rintro rfl
      cases hn
    · rintro rfl
      cases hu
  · refine .inr ⟨front, last, rfl, ?_, hlast, ?_, ?_, ?_⟩
    · rintro rfl
      cases ha
    all_goals
      rintro rfl
    · rw [show (parse (front ++ ['/'])).as_dir = _ from ends_as_dir_append front []] at hn
      cases hn
    · rw [show (parse (front ++ ['/', '.'])).as_dir = _ from ends_as_dir_append front ['.']]
        at hn
      cases hn
    · have hm : Seg.up ∈ (parse (front ++ ['/', '.', '.'])).components := by
        unfold parse
        rw [splitOn_append_cons_self]
        refine mem_append_right _ (mem_filterMap.mpr ⟨['.', '.'], ?_, rfl⟩)
        exact mem_append_right _ (by decide)
      unfold Path.has_up at hu
      rw [List.any_eq_false] at hu
      exact hu _ hm (decide_eq_true rfl)

theorem not_absolute_of_plain (h : Plain n) (rest : Text) :
    (parse (n ++ rest)).is_absolute = false := by
  cases n with
  | nil => exact absurd rfl h.ne_nil
  | cons c n =>
    have hc : c ≠ '/' := by
      rintro rfl
      exact h.no_slash (.head _)
    cases hca : (parse (c :: n ++ rest)).is_absolute with
    | false => rfl
    | true =>
      have hh : leading (c :: n ++ rest) ≠ [.root] := by
        unfold leading
        split <;> simp_all
      unfold Path.is_absolute parse at hca
      rcases leading_cases (c :: n ++ rest) with hl | hl | hl
      · exact absurd hl hh
      · rw [hl] at hca
        simp at hca
      · rw [hl, nil_append, decide_eq_true_eq] at hca
        have hr := mem_parts (mem_of_mem_head? hca)
        rcases hr with hr | ⟨m, hr, -⟩ <;> cases hr

theorem Plain.not_absolute (h : Plain n) : (parse n).is_absolute = false := by
  rw [h.parse_eq]
  rfl

theorem below_append_plain {front last : Text} (hf : front ≠ []) (hlast : Plain last) :
    (parse (front ++ '/' :: last)).below = (parse front).below ++ [.name last] := by
  rw [parse_append hf hlast.not_absolute, hlast.join_eq, Path.below_append (components_ne_nil hf)]

theorem join_dots {dots : Text} (hp : p.components ≠ []) (hd : (parse dots).components = [.here]) :
    p.join ((parse dots).join q) = p.join q := by
  rw [← Path.join_assoc]
  apply Path.join_congr
  rw [Path.join_eq hp (by unfold Path.is_absolute; rw [hd]; rfl)]
  unfold Path.below
  rw [hd]
  exact append_nil _

end UnixPath
