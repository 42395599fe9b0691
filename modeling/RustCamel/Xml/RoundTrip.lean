-- Which values in normal form come back from XML as they were. A space next to an escaped
-- character is lost, and so are the breaks in an attribute and the prefix of its name.
import Mathlib.Data.List.Perm.Subperm
import RustCamel.Simple.Evaluator
import RustCamel.Xml.Reading

open List

namespace camel_api.xml_convert

open camel_language_simple.evaluator (entries_eq items_eq value_eq)

/-! ## Values that come back -/

def is_escaped (c : Char) : Bool := (entity c).isSome

/-- Neither of two neighbours is a space next to an escaped character. -/
def Beside (a b : Char) : Prop :=
  ¬(is_xml_space a = true ∧ is_escaped b = true) ∧ ¬(is_escaped a = true ∧ is_xml_space b = true)

instance : DecidableRel Beside := fun _ _ => inferInstanceAs (Decidable (_ ∧ _))

def tight : List Char → Bool
  | a :: b :: s => decide (Beside a b) && tight (b :: s)
  | _ => true

def unbroken (s : List Char) : Bool := s.all fun c => c ≠ '\t' && c ≠ '\n' && c ≠ '\r'

/-- A name without a prefix that declares no namespace. -/
def plain_attribute (name : List Char) : Bool := name ≠ "xmlns".toList && !name.contains ':'

mutual
/-- No text has a space next to an escaped character, no attribute has a tab or a break in its
value, and no attribute has a prefix or declares a namespace. -/
def survives : Value → Bool
  | .String s => tight s.toList
  | .Array items => survives_items items
  | .Object map => survives_entries map
  | .Null => true
  | .Bool _ => true
  | .Number _ => true
def survives_items : List Value → Bool
  | [] => true
  | item :: items => survives item && survives_items items
def survives_entries : Map → Bool
  | [] => true
  | (key, val) :: map =>
    (if is_attribute_key key then plain_attribute key.toList.tail && unbroken (as_text val)
    else survives val) && survives_entries map
end

/-! ## Texts -/

variable {s : List Char} {k : String} {attrs : List (List Char × List Char)} {val : Value}
  {run : List Char} {value : Value} {room : Nat} {t : Texts}

theorem tight_iff : tight s = true ↔ s.IsChain Beside := by
  induction s with
  | nil => simp [tight]
  | cons a s ih =>
    cases s with
    | nil => simp [tight]
    | cons b s =>
      rw [tight, Bool.and_eq_true, decide_eq_true_eq, ih, isChain_cons_cons]

theorem escaped_not_space {c : Char} (h : is_escaped c = true) : is_xml_space c = false := by
  obtain ⟨name, hn⟩ := Option.isSome_iff_exists.mp h
  rcases entity_cases hn with ⟨rfl, -⟩ | ⟨rfl, -⟩ | ⟨rfl, -⟩ | ⟨rfl, -⟩ | ⟨rfl, -⟩ <;> decide

theorem beside_left {a b : Char} (h : is_escaped b = true) :
    Beside a b ↔ is_xml_space a = false := by
  simp [Beside, h, escaped_not_space h]

theorem beside_right {a b : Char} (h : is_escaped a = true) :
    Beside a b ↔ is_xml_space b = false := by
  simp [Beside, h, escaped_not_space h]

theorem chain_of_plain (h : ∀ c ∈ run, entity c = none) : run.IsChain Beside := by
  induction run with
  | nil => exact List.IsChain.nil
  | cons a run ih =>
    rw [isChain_cons]
    refine ⟨fun b hb => ?_, ih fun c hc => h c (.tail _ hc)⟩
    have ha := h a (by simp)
    have hb' := h b (.tail _ (mem_of_head? hb))
    simp [Beside, is_escaped, ha, hb']

theorem length_trim_xml_le (s : List Char) : (trim_xml s).length ≤ s.length := by
  unfold trim_xml
  have h1 := (dropWhile_sublist (l := (s.dropWhile is_xml_space).reverse) is_xml_space).length_le
  have h2 := (dropWhile_sublist (l := s) is_xml_space).length_le
  rw [length_reverse] at h1 ⊢
  omega

theorem length_squeeze_le (run s : List Char) :
    (squeeze_from run s).length ≤ run.length + s.length := by
  induction s generalizing run with
  | nil => exact length_trim_xml_le run
  | cons c s ih =>
    rw [squeeze_from]
    cases entity c with
    | none =>
      have := ih (run ++ [c])
      simp only [length_append, length_cons, length_nil] at this ⊢
      omega
    | some name =>
      have h1 := length_trim_xml_le run
      have h2 := ih []
      simp only [length_append, length_cons, length_nil] at h2 ⊢
      omega

/-- A text comes back where it does not start with a space and no space is next to an escaped
character. -/
theorem squeeze_eq_iff (hru : ∀ c ∈ run, entity c = none)
    (hlast : ∀ c ∈ (run ++ s).getLast?, is_xml_space c = false) :
    squeeze_from run s = run ++ s ↔
      (∀ c ∈ (run ++ s).head?, is_xml_space c = false) ∧ (run ++ s).IsChain Beside := by
  induction s generalizing run with
  | nil =>
    rw [append_nil] at hlast ⊢
    rw [squeeze_from, trim_xml_eq_self]
    exact and_congr_right fun _ => iff_of_true hlast (chain_of_plain hru)
  | cons c s ih =>
    rw [squeeze_from]
    cases he : entity c with
    | none =>
      have hp : ∀ d ∈ run ++ [c], entity d = none := by
        intro d hd
        rcases mem_append.mp hd with hd | hd
        · exact hru d hd
        · rw [mem_singleton.mp hd]
          exact he
      have hn := ih hp (by simpa using hlast)
      simpa using hn
    | some name =>
      have hes : is_escaped c = true := by simp [is_escaped, he]
      have hlast' : ∀ d ∈ ([] ++ s).getLast?, is_xml_space d = false := by
        intro d hd
        apply hlast d
        rw [nil_append] at hd
        rw [getLast?_append, getLast?_cons, hd]
        rfl
      have hre := ih (by simp) hlast'
      rw [nil_append] at hre
      -- Both parts are at most as long as they were, so both are as they were.
      have hpa : trim_xml run ++ c :: squeeze_from [] s = run ++ c :: s ↔
          trim_xml run = run ∧ squeeze_from [] s = s := by
        constructor
        · intro h
          have hlen := congrArg List.length h
          have h1 := length_trim_xml_le run
          have h2 := length_squeeze_le [] s
          simp only [length_append, length_cons, length_nil] at hlen h2
          obtain ⟨hl, hr⟩ := append_inj h (by omega)
          exact ⟨hl, (List.cons.inj hr).2⟩
        · rintro ⟨hl, hr⟩
          rw [hl, hr]
      have hb : ∀ x, Beside x c ↔ is_xml_space x = false := fun x => beside_left hes
      have hbe : ∀ x, Beside c x ↔ is_xml_space x = false := fun x => beside_right hes
      have hh : (∀ d ∈ (run ++ c :: s).head?, is_xml_space d = false) ↔
          ∀ d ∈ run.head?, is_xml_space d = false := by
        cases run with
        | nil => simp [escaped_not_space hes]
        | cons e run => simp
      rw [hpa, trim_xml_eq_self, hre, hh, isChain_append, isChain_cons]
      simp only [head?_cons, Option.mem_def, Option.some.injEq, forall_eq', hb, hbe]
      have := chain_of_plain hru
      tauto

theorem squeeze_normal_iff (h : normal_text s = true) : squeeze_from [] s = s ↔ tight s = true := by
  obtain ⟨-, hh, hlast⟩ := normal_text_iff.mp h
  have hi : squeeze_from [] s = [] ++ s ↔
      (∀ c ∈ ([] ++ s).head?, is_xml_space c = false) ∧ ([] ++ s).IsChain Beside :=
    squeeze_eq_iff (by simp) fun c hc => not_space_of_not_whitespace (hlast c hc)
  rw [nil_append] at hi
  rw [hi, tight_iff]
  exact and_iff_right fun c hc => not_space_of_not_whitespace (hh c hc)

/-- The value of an attribute comes back where it has no tab and no break. -/
theorem spaced_eq_iff : spaced s = s ↔ unbroken s = true := by
  fun_induction spaced s with
  | case1 s ih | case3 => simp [unbroken]
  | case2 c s hn ih =>
    have hc : unbroken (c :: s) = ((c ≠ '\t' && c ≠ '\n' && c ≠ '\r') && unbroken s) := rfl
    rw [hc, List.cons.injEq, ih, Bool.and_eq_true]
    apply and_congr_left
    intro _
    by_cases hb : (c = '\t' || c = '\n' || c = '\r') = true
    · rw [if_pos hb]
      simp only [Bool.or_eq_true, decide_eq_true_eq] at hb
      rcases hb with (rfl | rfl) | rfl <;> decide
    · rw [if_neg hb]
      simp only [Bool.or_eq_true, decide_eq_true_eq, not_or] at hb
      simp [hb.1.1, hb.1.2, hb.2]

/-! ## Attributes -/

theorem local_name_shorter {name : List Char} (h : ':' ∈ name) :
    (local_name name).length < name.length := by
  unfold local_name
  split
  · rename_i hnil
    have := dropWhile_eq_nil_iff.mp hnil ':' h
    simp at this
  · rename_i c rest hd
    have hle := (dropWhile_sublist (l := name) (fun c => decide (c ≠ ':'))).length_le
    rw [hd, length_cons] at hle
    omega

theorem no_colon_of_plain {name : List Char} (h : plain_attribute name = true) : ':' ∉ name := by
  simp only [plain_attribute, Bool.and_eq_true, Bool.not_eq_true'] at h
  intro hm
  rw [contains_iff_mem.mpr hm] at h
  cases h.2

theorem not_namespace_of_plain {name : List Char} (h : plain_attribute name = true) :
    is_namespace name = false := by
  have hc := no_colon_of_plain h
  simp only [plain_attribute, Bool.and_eq_true, decide_eq_true_eq] at h
  simp only [is_namespace, Bool.or_eq_false_iff, decide_eq_false_iff_not]
  refine ⟨h.1, ?_⟩
  rw [← Bool.not_eq_true, List.isPrefixOf_iff_prefix]
  rintro ⟨rest, rfl⟩
  apply hc
  apply mem_append_left
  decide

theorem keys_insert {map : Map} {key : String} :
    k ∈ keys (insert map key value) ↔ k = key ∨ k ∈ keys map := by
  induction map with
  | nil => simp [insert, keys]
  | cons entry map ih =>
    rw [insert]
    split
    · rename_i heq
      simp [keys, heq]
    · simp only [keys, map_cons, mem_cons] at ih ⊢
      rw [ih]
      tauto

theorem keys_insert_nodup {map : Map} {key : String} (h : (keys map).Nodup) :
    (keys (insert map key value)).Nodup := by
  induction map with
  | nil => simp [insert, keys]
  | cons entry map ih =>
    have hc : keys (entry :: map) = entry.1 :: keys map := rfl
    rw [hc, nodup_cons] at h
    rw [insert]
    split
    · rename_i heq
      have hk : keys ((key, value) :: map) = key :: keys map := rfl
      rw [hk, nodup_cons, ← heq]
      exact h
    · rename_i hn
      have hk : keys (entry :: insert map key value) =
          entry.1 :: keys (insert map key value) := rfl
      rw [hk, nodup_cons, keys_insert, not_or]
      exact ⟨⟨hn, h.1⟩, ih h.2⟩

/-- Where each key has one value, to insert it once more changes nothing. -/
theorem mem_insert_value (value : String → Value) {obj : Map} {key : String} {e : String × Value}
    (h : ∀ entry ∈ obj, entry.2 = value entry.1) :
    e ∈ insert obj key (value key) ↔ e ∈ obj ∨ e = (key, value key) := by
  induction obj with
  | nil => simp [insert]
  | cons entry map ih =>
    have hi := ih fun other ho => h other (.tail _ ho)
    rw [insert]
    split
    · rename_i heq
      obtain rfl : entry = (key, value key) :=
        Prod.ext heq ((h entry mem_cons_self).trans (congrArg value heq))
      simp only [mem_cons]
      tauto
    · simp only [mem_cons, hi]
      tauto

theorem attrs_read_nodup {map : Map} (attrs : List (List Char × List Char)) (h : (keys map).Nodup) :
    (keys (attrs_read map attrs)).Nodup := by
  induction attrs generalizing map with
  | nil => exact h
  | cons attr attrs ih =>
    obtain ⟨name, value⟩ := attr
    rw [attrs_read]
    split
    · exact ih h
    · exact ih (keys_insert_nodup h)

theorem mem_keys_attrs_read {map : Map} (h : k ∈ keys (attrs_read map attrs)) :
    k ∈ keys map ∨ ∃ name ∈ attrs.map Prod.fst, is_namespace name = false ∧
      k = String.ofList ('@' :: local_name name) := by
  induction attrs generalizing map with
  | nil => exact .inl h
  | cons attr attrs ih =>
    obtain ⟨name, value⟩ := attr
    have hl : (∃ n ∈ attrs.map Prod.fst, is_namespace n = false ∧
        k = String.ofList ('@' :: local_name n)) →
        ∃ n ∈ ((name, value) :: attrs).map Prod.fst, is_namespace n = false ∧
          k = String.ofList ('@' :: local_name n) := by
      rintro ⟨n, hn, hr⟩
      exact ⟨n, .tail _ hn, hr⟩
    rw [attrs_read] at h
    split at h
    · rcases ih h with h | h
      · exact .inl h
      · exact .inr (hl h)
    · rename_i hna
      rcases ih h with h | h
      · rcases keys_insert.mp h with rfl | h
        · exact .inr ⟨name, by simp, by simpa using hna, rfl⟩
        · exact .inl h
      · exact .inr (hl h)

theorem attrs_read_plain {map : Map}
    (hp : ∀ name ∈ attrs.map Prod.fst, plain_attribute name = true)
    (hno : (attrs.map Prod.fst).Nodup)
    (hne : ∀ name ∈ attrs.map Prod.fst, String.ofList ('@' :: name) ∉ keys map) :
    attrs_read map attrs = map ++ attrs.map fun (name, value) =>
      (String.ofList ('@' :: name), .String (String.ofList (spaced value))) := by
  induction attrs generalizing map with
  | nil => simp [attrs_read]
  | cons attr attrs ih =>
    obtain ⟨name, value⟩ := attr
    have hna : plain_attribute name = true := hp name (by simp)
    have hk : String.ofList ('@' :: name) ∉ keys map := hne name (by simp)
    rw [map_cons, nodup_cons] at hno
    rw [attrs_read, not_namespace_of_plain hna, local_name_plain (no_colon_of_plain hna)]
    simp only [Bool.false_eq_true, if_false]
    rw [insert_new _ hk, ih (fun n hn => hp n (.tail _ hn)) hno.2]
    · simp
    · intro n hn
      rw [keys_append, mem_append, not_or]
      refine ⟨hne n (.tail _ hn), ?_⟩
      intro heq
      have hs : '@' :: n = '@' :: name := String.ofList_injective (mem_singleton.mp heq)
      rw [(List.cons.inj hs).2] at hn
      exact hno.1 hn

/-! ## Objects -/

theorem lookup_of_mem {map : Map} {key : String} (hk : (keys map).Nodup) (h : (key, val) ∈ map) :
    map.lookup key = some val := by
  induction map with
  | nil => cases h
  | cons entry map ih =>
    have hc : keys (entry :: map) = entry.1 :: keys map := rfl
    rw [hc, nodup_cons] at hk
    rw [lookup_cons]
    rcases mem_cons.mp h with rfl | h
    · simp
    · have hn : key ≠ entry.1 := by
        rintro rfl
        exact hk.1 (mem_map.mpr ⟨_, h, rfl⟩)
      rw [beq_false_of_ne hn]
      exact ih hk.2 h

theorem mem_of_lookup {map : Map} {key : String} (h : map.lookup key = some val) :
    (key, val) ∈ map := by
  induction map with
  | nil => cases h
  | cons entry map ih =>
    rw [lookup_cons] at h
    split at h
    · rename_i heq
      cases h
      rw [beq_iff_eq] at heq
      rw [heq]
      exact mem_cons_self
    · exact .tail _ (ih h)

theorem entries_eq_iff {map other : Map} :
    entries_eq map other = true ↔
      ∀ entry ∈ map, ∃ val, other.lookup entry.1 = some val ∧ value_eq entry.2 val = true := by
  induction map with
  | nil => simp [entries_eq]
  | cons entry map ih =>
    obtain ⟨key, val⟩ := entry
    rw [entries_eq, Bool.and_eq_true, ih, forall_mem_cons]
    apply and_congr_left
    intro _
    cases other.lookup key with
    | none | some val' => simp

theorem survives_entries_iff {map : Map} :
    survives_entries map = true ↔ ∀ entry ∈ map,
      if is_attribute_key entry.1 then
        plain_attribute entry.1.toList.tail = true ∧ unbroken (as_text entry.2) = true
      else survives entry.2 = true := by
  induction map with
  | nil => simp [survives_entries]
  | cons entry map ih =>
    obtain ⟨key, val⟩ := entry
    rw [survives_entries, Bool.and_eq_true, ih, forall_mem_cons]
    apply and_congr_left
    intro _
    split
    · rw [Bool.and_eq_true]
    · exact Iff.rfl

theorem mem_reread_entries {map : Map} {key : String} {v : Value} :
    (key, v) ∈ reread_entries map ↔
      ∃ val, (key, val) ∈ map ∧ is_element_key key = true ∧ v = reread val := by
  induction map with
  | nil => simp [reread_entries]
  | cons entry map ih =>
    obtain ⟨k, val⟩ := entry
    rw [reread_entries]
    by_cases he : is_element_key k = true
    · rw [if_pos he, mem_cons, ih]
      constructor
      · rintro (heq | ⟨val', hm, hk, rfl⟩)
        · obtain ⟨rfl, rfl⟩ := Prod.mk.inj heq
          exact ⟨val, mem_cons_self, he, rfl⟩
        · exact ⟨val', .tail _ hm, hk, rfl⟩
      · rintro ⟨val', hm, hk, rfl⟩
        rcases mem_cons.mp hm with heq | hm
        · obtain ⟨rfl, rfl⟩ := Prod.mk.inj heq
          exact .inl rfl
        · exact .inr ⟨val', hm, hk, rfl⟩
    · rw [if_neg he, ih]
      constructor
      · rintro ⟨val', hm, hk, rfl⟩
        exact ⟨val', .tail _ hm, hk, rfl⟩
      · rintro ⟨val', hm, hk, rfl⟩
        rcases mem_cons.mp hm with heq | hm
        · obtain ⟨rfl, rfl⟩ := Prod.mk.inj heq
          exact absurd hk he
        · exact ⟨val', hm, hk, rfl⟩

theorem keys_reread_entries (map : Map) :
    keys (reread_entries map) = (keys map).filter is_element_key := by
  induction map with
  | nil => rw [reread_entries]; rfl
  | cons entry map ih =>
    obtain ⟨key, val⟩ := entry
    have hc : keys ((key, val) :: map) = key :: keys map := rfl
    rw [reread_entries, hc, filter_cons, ← ih]
    split <;> rfl

theorem string_attrs_of_mem {map : Map} {key : String} (h : (key, val) ∈ map)
    (hk : is_attribute_key key = true) : (key.toList.tail, as_text val) ∈ string_attrs map := by
  induction map with
  | nil => cases h
  | cons entry map ih =>
    obtain ⟨k, v⟩ := entry
    rw [string_attrs]
    rcases mem_cons.mp h with heq | h
    · obtain ⟨rfl, rfl⟩ := Prod.mk.inj heq
      rw [if_pos hk]
      exact mem_cons_self
    · split
      · exact .tail _ (ih h)
      · exact ih h

theorem entry_text_new {map : Map} (text : List Char) (h : "#text" ∉ keys map) :
    entry_text text map = text := by
  induction map generalizing text with
  | nil => rfl
  | cons entry map ih =>
    obtain ⟨key, val⟩ := entry
    have hc : keys ((key, val) :: map) = key :: keys map := rfl
    rw [hc, mem_cons, not_or] at h
    rw [entry_text, if_neg (Ne.symm h.1), ih text h.2]

theorem entry_text_of_mem {map : Map} (text : List Char) (hk : (keys map).Nodup)
    (h : ("#text", val) ∈ map) : entry_text text map = as_text val := by
  induction map generalizing text with
  | nil => cases h
  | cons entry map ih =>
    obtain ⟨key, v⟩ := entry
    have hc : keys ((key, v) :: map) = key :: keys map := rfl
    rw [hc, nodup_cons] at hk
    rw [entry_text]
    rcases mem_cons.mp h with heq | h
    · obtain ⟨rfl, rfl⟩ := Prod.mk.inj heq
      rw [if_pos rfl]
      exact entry_text_new _ hk.1
    · exact ih _ hk.2 h

theorem normal_entry_mem {map : Map} {key : String} (h : normal_entries t room map = true)
    (hm : (key, val) ∈ map) :
    (is_element_key key = false → ∃ s, val = .String s ∧ normal_text s.toList = true) ∧
      (is_element_key key = true → normal_node t room true val = true) := by
  induction map with
  | nil => cases hm
  | cons entry map ih =>
    obtain ⟨k, v⟩ := entry
    obtain ⟨hr, he⟩ := normal_entries_cons h
    rcases mem_cons.mp hm with heq | hm
    · obtain ⟨rfl, rfl⟩ := Prod.mk.inj heq
      rcases he with ⟨name, s, -, -, hnot, -, -, hv, hs⟩ | ⟨s, rfl, hv, hs⟩ |
        ⟨hel, -, -, -, hn⟩
      · exact ⟨fun _ => ⟨s, hv, hs⟩, fun h => absurd (hnot.symm.trans h) (by decide)⟩
      · exact ⟨fun _ => ⟨s, hv, hs⟩, fun h => absurd (text_key.1.symm.trans h) (by decide)⟩
      · exact ⟨fun h => absurd (h.symm.trans hel) (by decide), fun _ => hn⟩
    · exact ih hr hm

theorem insert_child_all {map children : Map} (h : (keys map ++ keys children).Nodup) :
    children.foldl (fun map (k, v) => insert_child map k v) map = map ++ children := by
  induction children generalizing map with
  | nil => simp
  | cons entry children ih =>
    obtain ⟨key, val⟩ := entry
    have hc : keys ((key, val) :: children) = key :: keys children := rfl
    rw [hc] at h
    have hn : key ∉ keys map := by
      intro hm
      exact (nodup_append.mp h).2.2 key hm key (by simp) rfl
    rw [foldl_cons]
    simp only
    rw [insert_child_new val hn, ih]
    · simp
    · rw [keys_append]
      simpa [keys] using h

def text_entry (text : List Char) : Map :=
  if text.isEmpty then [] else [("#text", .String (String.ofList text))]

/-- The entries of an object that come back. -/
def reread_map (map : Map) : Map :=
  attrs_read [] (string_attrs map) ++
    (text_entry (squeeze_from [] (entry_text [] map)) ++ reread_entries map)

theorem attribute_key_of_read {map : Map} (h : k ∈ keys (attrs_read [] (string_attrs map))) :
    is_attribute_key k = true := by
  rcases mem_keys_attrs_read h with h | ⟨name, -, -, rfl⟩
  · cases h
  · simp [is_attribute_key]

theorem keys_text_entry {text : List Char} (h : k ∈ keys (text_entry text)) : k = "#text" := by
  unfold text_entry at h
  split at h
  · cases h
  · exact mem_singleton.mp h

theorem reread_map_nodup {map : Map} (h : (keys map).Nodup) : (keys (reread_map map)).Nodup := by
  have he : ∀ k ∈ keys (reread_entries map), is_element_key k = true := by
    intro k hk
    rw [keys_reread_entries] at hk
    exact (mem_filter.mp hk).2
  have ht : (keys (text_entry (squeeze_from [] (entry_text [] map)))).Nodup := by
    unfold text_entry
    split
    · exact nodup_nil
    · simp [keys]
  rw [reread_map, keys_append, keys_append, nodup_append, nodup_append]
  refine ⟨attrs_read_nodup _ nodup_nil, ⟨ht, ?_, ?_⟩, ?_⟩
  · rw [keys_reread_entries]
    exact h.filter _
  · rintro k hk k' hk' rfl
    have := he k hk'
    rw [keys_text_entry hk] at this
    exact absurd this (by decide)
  · rintro k hk k' hk' rfl
    have ha := attribute_key_of_read hk
    rcases mem_append.mp hk' with hk' | hk'
    · rw [keys_text_entry hk'] at ha
      exact absurd ha (by decide)
    · have := he k hk'
      rcases key_cases k with ⟨-, -, -, hnot, -⟩ | rfl | ⟨-, hnot, -⟩
      · rw [hnot] at this
        cases this
      · exact absurd this (by decide)
      · rw [hnot] at ha
        cases ha

theorem reread_object {map : Map} (hk : (keys map).Nodup)
    (h : normal_entries t room map = true)
    (hs : attrs_read [] (string_attrs map) ≠ [] ∨ reread_entries map ≠ []) :
    reread (.Object map) = .Object (reread_map map) := by
  have hn := reread_map_nodup hk
  have ht : trim (squeeze_from [] (entry_text [] map)) = squeeze_from [] (entry_text [] map) := by
    rcases entry_text_normal h (.inl rfl) with hno | hte
    · rw [hno]
      rfl
    · have := squeeze_normal hte
      simp only [normal_text, Bool.and_eq_true, decide_eq_true_eq] at this
      exact this.2
  have hw : (if (squeeze_from [] (entry_text [] map)).isEmpty then
        attrs_read [] (string_attrs map)
      else insert (attrs_read [] (string_attrs map)) "#text"
        (.String (String.ofList (squeeze_from [] (entry_text [] map))))) =
      attrs_read [] (string_attrs map) ++ text_entry (squeeze_from [] (entry_text [] map)) := by
    unfold text_entry
    split
    · rw [append_nil]
    · apply insert_new
      intro hm
      exact absurd (attribute_key_of_read hm) (by decide)
  rw [reread, build_node_value]
  simp only [ht, hw, reread_map]
  cases hc : reread_entries map with
  | nil =>
    have ha : attrs_read [] (string_attrs map) ≠ [] := by
      rcases hs with ha | hnot
      · exact ha
      · exact absurd hc hnot
    simp [ha]
  | cons entry children =>
    rw [reread_map, hc, keys_append, keys_append, ← append_assoc, ← keys_append] at hn
    rw [insert_child_all hn]
    simp

theorem exists_length_bound (names : List (List Char)) :
    ∃ bound, ∀ name ∈ names, name.length ≤ bound := by
  induction names with
  | nil => exact ⟨0, by simp⟩
  | cons name names ih =>
    obtain ⟨bound, hbound⟩ := ih
    refine ⟨max name.length bound, ?_⟩
    intro n hn
    rcases mem_cons.mp hn with rfl | hn
    · exact Nat.le_max_left _ _
    · exact (hbound n hn).trans (Nat.le_max_right _ _)

theorem plain_of_read
    (h : ∀ name ∈ attrs.map Prod.fst, String.ofList ('@' :: name) ∈ keys (attrs_read [] attrs)) :
    ∀ name ∈ attrs.map Prod.fst, plain_attribute name = true := by
  -- A name that is not plain is the local part of a longer one, and so on without end.
  have hl : ∀ name ∈ attrs.map Prod.fst, plain_attribute name = false →
      ∃ longer ∈ attrs.map Prod.fst, plain_attribute longer = false ∧
        name.length < longer.length := by
    intro name hn hp
    rcases mem_keys_attrs_read (h name hn) with hnil | ⟨longer, hl, hs, heq⟩
    · cases hnil
    · have hlo : name = local_name longer := (List.cons.inj (String.ofList_injective heq)).2
      have hc : ':' ∈ longer := by
        by_contra hnot
        rw [local_name_plain hnot] at hlo
        subst hlo
        simp only [plain_attribute, Bool.and_eq_false_iff, Bool.not_eq_false',
          contains_iff_mem] at hp
        rcases hp with hx | hm
        · simp only [is_namespace, Bool.or_eq_false_iff] at hs
          rw [decide_eq_false_iff_not] at hx hs
          exact hx hs.1
        · exact hnot hm
      refine ⟨longer, hl, ?_, ?_⟩
      · simp [plain_attribute, hc]
      · rw [hlo]
        exact local_name_shorter hc
  obtain ⟨bound, hbound⟩ := exists_length_bound (attrs.map Prod.fst)
  have hno : ∀ d, ∀ name ∈ attrs.map Prod.fst, plain_attribute name = false →
      bound < name.length + d → False := by
    intro d
    induction d with
    | zero =>
      intro name hn _ hlt
      have := hbound name hn
      omega
    | succ d ih =>
      intro name hn hp hlt
      obtain ⟨longer, hl, hp', hlen⟩ := hl name hn hp
      exact ih longer hl hp' (by omega)
  intro name hn
  by_contra hp
  rw [Bool.not_eq_true] at hp
  exact hno (bound + 1) name hn hp (by omega)

theorem not_attribute_of_element {key : String} (h : is_element_key key = true) :
    is_attribute_key key = false := by
  rcases key_cases key with ⟨-, -, -, hnot, -⟩ | rfl | ⟨-, hnot, -⟩
  · rw [hnot] at h
    cases h
  · exact text_key.2
  · exact hnot

theorem not_element_of_attribute {key : String} (h : is_attribute_key key = true) :
    is_element_key key = false := by
  rw [← Bool.not_eq_true]
  intro he
  rw [not_attribute_of_element he] at h
  cases h

section

variable {t : Texts} {room : Nat} {map : Map}

theorem mem_text_entry (hk : (keys map).Nodup) (h : normal_entries t room map = true) {s : String}
    (hm : ("#text", .String s) ∈ map) :
    ("#text", .String (String.ofList (squeeze_from [] s.toList))) ∈ reread_map map := by
  obtain ⟨s', hs', hn⟩ := (normal_entry_mem h hm).1 text_key.1
  cases hs'
  have ht : entry_text [] map = s.toList := entry_text_of_mem [] hk hm
  have hne := (normal_text_iff.mp (squeeze_normal hn)).1
  rw [reread_map, ht, text_entry, if_neg (by simpa using hne)]
  simp

theorem mem_element_entry {key : String} (hm : (key, val) ∈ map)
    (hk : is_element_key key = true) : (key, reread val) ∈ reread_map map := by
  rw [reread_map]
  apply mem_append_right
  apply mem_append_right
  exact mem_reread_entries.mpr ⟨val, hm, hk, rfl⟩

section

variable (hkeys : (keys map).Nodup)
  (hplain : ∀ name ∈ (string_attrs map).map Prod.fst, plain_attribute name = true)

include hkeys hplain

theorem attrs_read_of_plain :
    attrs_read [] (string_attrs map) = (string_attrs map).map fun (name, value) =>
      (String.ofList ('@' :: name), .String (String.ofList (spaced value))) := by
  apply attrs_read_plain hplain (string_attrs_nodup hkeys)
  simp [keys]

theorem mem_attribute_entry {key : String} (hm : (key, val) ∈ map)
    (hk : is_attribute_key key = true) :
    (key, .String (String.ofList (spaced (as_text val)))) ∈ reread_map map := by
  rw [reread_map, attrs_read_of_plain hkeys hplain]
  apply mem_append_left
  refine mem_map.mpr ⟨_, string_attrs_of_mem hm hk, ?_⟩
  simp only [← attribute_key hk, String.ofList_toList]

end

variable (hkeys : (keys map).Nodup) (h : normal_entries t room map = true)

include hkeys h

theorem same_of_survives (ho : ∃ entry ∈ map, entry.1 ≠ "#text")
    (hc : ∀ key val, (key, val) ∈ map → is_element_key key = true → survives val = true →
      value_eq (reread val) val = true)
    (hs : ∀ entry ∈ map, if is_attribute_key entry.1 then
        plain_attribute entry.1.toList.tail = true ∧ unbroken (as_text entry.2) = true
      else survives entry.2 = true) : value_eq (reread (.Object map)) (.Object map) = true := by
  have hplain : ∀ name ∈ (string_attrs map).map Prod.fst, plain_attribute name = true := by
    intro name hna
    obtain ⟨⟨name', value⟩, hm, rfl⟩ := mem_map.mp hna
    obtain ⟨key, val, he, hke, -⟩ := string_attrs_mem hm
    have := hs _ he
    rw [if_pos (by simp [is_attribute_key, hke]), hke] at this
    exact this.1
  have hal : ∀ entry ∈ reread_map map,
      ∃ val, map.lookup entry.1 = some val ∧ value_eq entry.2 val = true := by
    intro entry he
    rcases mem_append.mp he with he | he
    · rw [attrs_read_of_plain hkeys hplain] at he
      obtain ⟨⟨name, value⟩, hm, rfl⟩ := mem_map.mp he
      obtain ⟨key, val, hkv, hke, rfl⟩ := string_attrs_mem hm
      have ha : is_attribute_key key = true := by simp [is_attribute_key, hke]
      obtain ⟨s, rfl, -⟩ := (normal_entry_mem h hkv).1 (not_element_of_attribute ha)
      have hu := hs _ hkv
      rw [if_pos ha] at hu
      have hv : spaced s.toList = s.toList := spaced_eq_iff.mpr hu.2
      refine ⟨.String s, ?_, ?_⟩
      · simp only [← hke, String.ofList_toList]
        exact lookup_of_mem hkeys hkv
      · simp [value_eq, as_text, hv]
    · rcases mem_append.mp he with he | he
      · unfold text_entry at he
        split at he
        · cases he
        · rename_i hne
          rw [mem_singleton.mp he]
          -- The entry is there, for else there is no text.
          have hm : "#text" ∈ keys map := by
            by_contra hnot
            rw [entry_text_new [] hnot] at hne
            exact hne rfl
          obtain ⟨⟨key, val⟩, hkv, rfl⟩ := mem_map.mp hm
          obtain ⟨s, rfl, hn⟩ := (normal_entry_mem h hkv).1 text_key.1
          have ht : tight s.toList = true := by
            have := hs _ hkv
            simpa [text_key.2, survives] using this
          refine ⟨.String s, lookup_of_mem hkeys hkv, ?_⟩
          rw [entry_text_of_mem [] hkeys hkv]
          simp [value_eq, as_text, (squeeze_normal_iff hn).mpr ht]
      · obtain ⟨key, v⟩ := entry
        obtain ⟨val, hkv, hel, rfl⟩ := mem_reread_entries.mp he
        refine ⟨val, lookup_of_mem hkeys hkv, hc key val hkv hel ?_⟩
        have hva := hs _ hkv
        rwa [if_neg (by simp [not_attribute_of_element hel])] at hva
  have hb : ∀ k ∈ keys map, k ∈ keys (reread_map map) := by
    intro k hk
    obtain ⟨⟨key, val⟩, hkv, rfl⟩ := mem_map.mp hk
    rcases key_cases key with ⟨-, -, ha, -⟩ | rfl | ⟨hel, -⟩
    · exact mem_map.mpr ⟨_, mem_attribute_entry hkeys hplain hkv ha, rfl⟩
    · obtain ⟨s, rfl, -⟩ := (normal_entry_mem h hkv).1 text_key.1
      exact mem_map.mpr ⟨_, mem_text_entry hkeys h hkv, rfl⟩
    · exact mem_map.mpr ⟨_, mem_element_entry hkv hel, rfl⟩
  have hf : ∀ k ∈ keys (reread_map map), k ∈ keys map := by
    intro k hk
    obtain ⟨entry, he, rfl⟩ := mem_map.mp hk
    obtain ⟨val, hl, -⟩ := hal entry he
    exact mem_map.mpr ⟨_, mem_of_lookup hl, rfl⟩
  have hp : (keys (reread_map map)).Perm (keys map) :=
    (perm_ext_iff_of_nodup (reread_map_nodup hkeys) hkeys).mpr
      fun k => ⟨hf k, hb k⟩
  have hso : attrs_read [] (string_attrs map) ≠ [] ∨ reread_entries map ≠ [] := by
    obtain ⟨⟨key, val⟩, hkv, hne⟩ := ho
    rcases key_cases key with ⟨-, -, ha, -⟩ | rfl | ⟨hel, -⟩
    · left
      rw [attrs_read_of_plain hkeys hplain]
      have := string_attrs_of_mem hkv ha
      simpa using ne_nil_of_mem this
    · exact absurd rfl hne
    · right
      exact ne_nil_of_mem (mem_reread_entries.mpr ⟨val, hkv, hel, rfl⟩)
  have hlen := hp.length_eq
  simp only [keys, length_map] at hlen
  rw [reread_object hkeys h hso, value_eq, Bool.and_eq_true, decide_eq_true_eq, entries_eq_iff]
  exact ⟨hlen, hal⟩

theorem survives_of_same
    (hch : ∀ key val, (key, val) ∈ map → is_element_key key = true →
      value_eq (reread val) val = true → survives val = true)
    (hs : value_eq (reread (.Object map)) (.Object map) = true) :
    ∀ entry ∈ map, if is_attribute_key entry.1 then
        plain_attribute entry.1.toList.tail = true ∧ unbroken (as_text entry.2) = true
      else survives entry.2 = true := by
  have hso : attrs_read [] (string_attrs map) ≠ [] ∨ reread_entries map ≠ [] := by
    by_contra hno
    rw [not_or, not_not, not_not] at hno
    rw [reread, hno.1, hno.2, build_node_value] at hs
    simp only [isEmpty_nil, Bool.not_true, Bool.false_eq_true, if_false] at hs
    split at hs <;> simp [value_eq] at hs
  rw [reread_object hkeys h hso, value_eq, Bool.and_eq_true, decide_eq_true_eq,
    entries_eq_iff] at hs
  obtain ⟨hlen, hal⟩ := hs
  have hf : keys (reread_map map) ⊆ keys map := by
    intro k hk
    obtain ⟨entry, he, rfl⟩ := mem_map.mp hk
    obtain ⟨val, hl, -⟩ := hal entry he
    exact mem_map.mpr ⟨_, mem_of_lookup hl, rfl⟩
  -- As many keys come back as there are, so every key comes back.
  have hp : (keys (reread_map map)).Perm (keys map) :=
    (subperm_of_subset (reread_map_nodup hkeys) hf).perm_of_length_le
      (by simp [keys, hlen])
  have hplain : ∀ name ∈ (string_attrs map).map Prod.fst, plain_attribute name = true := by
    apply plain_of_read
    intro name hna
    obtain ⟨⟨name', value⟩, hm, rfl⟩ := mem_map.mp hna
    obtain ⟨key, val, hkv, hke, -⟩ := string_attrs_mem hm
    have ha : is_attribute_key key = true := by simp [is_attribute_key, hke]
    have hr : key ∈ keys (reread_map map) := hp.mem_iff.mpr (mem_map.mpr ⟨_, hkv, rfl⟩)
    rw [reread_map, keys_append, keys_append, mem_append, mem_append] at hr
    simp only [← hke, String.ofList_toList]
    rcases hr with hr | hr | hr
    · exact hr
    · rw [keys_text_entry hr] at ha
      exact absurd ha (by decide)
    · rw [keys_reread_entries] at hr
      have hel := (mem_filter.mp hr).2
      rw [not_element_of_attribute ha] at hel
      cases hel
  -- What came back under a key is what was there.
  have hv : ∀ key val back, (key, val) ∈ map → (key, back) ∈ reread_map map →
      value_eq back val = true := by
    intro key val back hkv hb
    obtain ⟨val', hl, hva'⟩ := hal _ hb
    rw [lookup_of_mem hkeys hkv] at hl
    cases hl
    exact hva'
  rintro ⟨key, val⟩ hkv
  rcases key_cases key with ⟨name, hna, ha, hnot, -⟩ | rfl | ⟨hel, ha, -⟩
  · rw [if_pos ha]
    obtain ⟨s, rfl, -⟩ := (normal_entry_mem h hkv).1 hnot
    have hm := string_attrs_of_mem hkv ha
    refine ⟨hplain _ (mem_map.mpr ⟨_, hm, rfl⟩), ?_⟩
    have hb := hv key _ _ hkv (mem_attribute_entry hkeys hplain hkv ha)
    have heq : String.ofList (spaced s.toList) = s := of_decide_eq_true hb
    apply spaced_eq_iff.mp
    have hc := congrArg String.toList heq
    rwa [String.toList_ofList] at hc
  · rw [if_neg (by simp [text_key.2])]
    obtain ⟨s, rfl, hn⟩ := (normal_entry_mem h hkv).1 text_key.1
    have hb := hv _ _ _ hkv (mem_text_entry hkeys h hkv)
    have heq : String.ofList (squeeze_from [] s.toList) = s := of_decide_eq_true hb
    have hc := congrArg String.toList heq
    rw [String.toList_ofList] at hc
    rw [survives]
    exact (squeeze_normal_iff hn).mp hc
  · rw [if_neg (by simp [ha])]
    exact hch key val hkv hel (hv key _ _ hkv (mem_element_entry hkv hel))

end

/-! ## The round trip -/

mutual
theorem same_node_iff (t : Texts) : ∀ (v : Value) (room : Nat) (row : Bool),
    normal_node t room row v = true → (value_eq (reread v) v = true ↔ survives v = true)
  | .Null, _, _, _ => by simp [reread, value_eq, survives]
  | .String s, _, _, h => by
    simp only [normal_node, Bool.and_eq_true] at h
    rw [reread, value_eq, survives, ← squeeze_normal_iff h.2, decide_eq_true_eq]
    constructor
    · intro heq
      have hc := congrArg String.toList heq
      rwa [String.toList_ofList] at hc
    · intro heq
      rw [heq, String.ofList_toList]
  | .Array items, room, _, h => by
    simp only [normal_node, Bool.and_eq_true] at h
    rw [reread, value_eq, survives]
    exact same_items_iff t items room h.2
  | .Object map, room, _, h => by
    obtain ⟨hkeys, he, ho, -⟩ := normal_object h
    have hch := same_children_iff t map (room - 1) he
    rw [survives, survives_entries_iff]
    constructor
    · exact survives_of_same hkeys he fun key val hk hel =>
        (hch key val hk hel).mp
    · exact same_of_survives hkeys he ho fun key val hk hel =>
        (hch key val hk hel).mpr
  | .Bool _, _, _, h | .Number _, _, _, h => by cases h
theorem same_items_iff (t : Texts) : ∀ (items : List Value) (room : Nat),
    normal_items t room items = true →
    (items_eq (reread_items items) items = true ↔ survives_items items = true)
  | [], _, _ => by simp [reread_items, items_eq, survives_items]
  | item :: items, room, h => by
    simp only [normal_items, Bool.and_eq_true] at h
    rw [reread_items, items_eq, survives_items, Bool.and_eq_true, Bool.and_eq_true,
      same_node_iff t item room false h.1, same_items_iff t items room h.2]
theorem same_children_iff (t : Texts) : ∀ (map : Map) (room : Nat),
    normal_entries t room map = true → ∀ key val, (key, val) ∈ map → is_element_key key = true →
    (value_eq (reread val) val = true ↔ survives val = true)
  | [], _, _, _, _, hm, _ => by cases hm
  | (k, v) :: map, room, h, key, val, hm, he => by
    have hr := same_children_iff t map room (normal_entries_cons h).1 key val
    have hno := same_node_iff t v room true
    rcases mem_cons.mp hm with heq | hm
    · have hn := (normal_entry_mem h hm).2 he
      obtain ⟨rfl, rfl⟩ := Prod.mk.inj heq
      exact hno hn
    · exact hr hm he
end

/-- A value in normal form is written as XML and read back, and it comes back as it was where no
text has a space next to an escaped character, no attribute has a tab or a break in its value,
and no attribute has a prefix or declares a namespace. -/
theorem round_trip_iff (t : Texts) (q : QuickXml) (hq : q.Documented) (v : Value)
    (h : normal_form t v = true) :
    (∃ text back, json_to_xml t v = .ok text ∧ xml_to_json q text = .ok back ∧
      value_eq back v = true) ↔ survives v = true := by
  obtain ⟨root, node, rfl⟩ : ∃ root node, v = .Object [(root, node)] := by
    unfold normal_form at h
    split at h
    · exact ⟨_, _, rfl⟩
    · cases h
  have hw := (json_to_xml_normal h).1
  have hr := xml_to_json_normal hq h
  simp only [normal_form, Bool.and_eq_true] at h
  have hn := same_node_iff t node _ false h.2
  have hsa : value_eq (.Object [(root, reread node)]) (.Object [(root, node)]) =
      value_eq (reread node) node := by
    simp [value_eq, entries_eq]
  have hs : survives (.Object [(root, node)]) = survives node := by
    simp [survives, survives_entries, not_attribute_of_element h.1.1]
  rw [hs, ← hn, ← hsa]
  constructor
  · rintro ⟨text, back, ht, hb, heq⟩
    rw [hw] at ht
    cases ht
    rw [hr] at hb
    cases hb
    exact heq
  · intro heq
    exact ⟨_, _, hw, hr, heq⟩

/-- The letters and digits of ASCII alone. -/
def ascii : Texts where
  alphabetic _ := false
  numeric _ := false
  debug s := s
  number_to_string _ := ""
  value_to_string _ := ""

def menu : Value :=
  .Object [("menu", .Object [("dish", .Array [.String "tea&milk", .Null]),
    ("@day", .String "<friday>"), ("#text", .String "to go")])]

theorem menu_comes_back :
    normal_form ascii menu = true ∧ ∃ text back, json_to_xml ascii menu = .ok text ∧
      xml_to_json scanner text = .ok back ∧ value_eq back menu = true :=
  ⟨by decide +kernel,
    (round_trip_iff ascii scanner scanner_documented menu (by decide +kernel)).mpr
      (by decide +kernel)⟩

/-- The spaces around an escaped character do not come back. -/
theorem spaces_around_ampersand_are_lost :
    normal_form ascii (.Object [("a", .String "x & y")]) = true ∧
    json_to_xml ascii (.Object [("a", .String "x & y")]) = .ok "<a>x &amp; y</a>" ∧
    (∀ q : QuickXml, q.Documented →
      xml_to_json q "<a>x &amp; y</a>" = .ok (.Object [("a", .String "x&y")])) ∧
    value_eq (.Object [("a", .String "x&y")]) (.Object [("a", .String "x & y")]) = false := by
  have h : normal_form ascii (.Object [("a", .String "x & y")]) = true := by decide +kernel
  have ht : String.ofList (render (node_markup "a".toList (.String "x & y"))) =
      "<a>x &amp; y</a>" := by decide +kernel
  have hb : reread (.String "x & y") = .String "x&y" := by
    rw [reread]
    rfl
  refine ⟨h, ?_, fun q hq => ?_, by decide +kernel⟩
  · rw [(json_to_xml_normal h).1, ht]
  · rw [← ht, xml_to_json_normal hq h, hb]

end camel_api.xml_convert
