-- What `json_to_xml` writes for a value in normal form: a well-formed document, with each object
-- as an element and each array as a row of elements with the same name.
import RustCamel.Xml.Markup

open List

namespace camel_api.xml_convert

variable {attrs : List Attribute} {tag : List Char} {content : List Markup} {run : List Char}

/-! ## Normal form -/

/-- A text that is not empty and has no white space at its ends. -/
def normal_text (s : List Char) : Bool := !s.isEmpty && decide (trim s = s)

def is_text : Value → Bool
  | .String s => normal_text s.toList
  | _ => false

def is_element_name (t : Texts) (key : String) : Bool :=
  is_valid_xml_name t key.toList && !key.toList.contains ':'

def is_attribute_key (key : String) : Bool := key.toList.head? = some '@'

mutual
/-- The value of an element, or of a row of elements with the same name where one may stand.
There is room for some open elements. An object has each key once. -/
def normal_node (t : Texts) (room : Nat) (row : Bool) : Value → Bool
  | .Null => true
  | .String s => room ≠ 0 && normal_text s.toList
  | .Array items => row && decide (2 ≤ items.length) && normal_items t room items
  | .Object map =>
    !(map.all fun entry => entry.1 = "#text") && decide (map.map Prod.fst).Nodup &&
      (room ≠ 0 || map.all fun entry => is_attribute_key entry.1) &&
      normal_entries t (room - 1) map
  | .Bool _ => false
  | .Number _ => false
def normal_items (t : Texts) (room : Nat) : List Value → Bool
  | [] => true
  | item :: items => normal_node t room false item && normal_items t room items
def normal_entries (t : Texts) (room : Nat) : Map → Bool
  | [] => true
  | (key, val) :: map =>
    (if is_element_key key then is_element_name t key && normal_node t room true val
    else is_text val && (key = "#text" || is_valid_xml_name t key.toList.tail)) &&
      normal_entries t room map
end

/-- A value with a single root. -/
def normal_form (t : Texts) : Value → Bool
  | .Object [(root, node)] =>
    is_element_key root && is_element_name t root && normal_node t DEFAULT_MAX_XML_DEPTH false node
  | _ => false

/-! ## The document of a value -/

def flush (run : List Char) : List Markup := if run.isEmpty then [] else [.chars run]

/-- The markup of a text behind a run of characters that are not escaped. -/
def text_pieces (run : List Char) : List Char → List Markup
  | [] => flush run
  | c :: s =>
    match entity c with
    | some name => flush run ++ .reference name :: text_pieces [] s
    | none => text_pieces (run ++ [c]) s

def as_text : Value → List Char
  | .String s => s.toList
  | _ => []

/-- The last `#text` of some entries. -/
def entry_text (text : List Char) : Map → List Char
  | [] => text
  | (key, val) :: map => entry_text (if key = "#text" then as_text val else text) map

/-- The attributes among some entries. -/
def string_attrs : Map → List (List Char × List Char)
  | [] => []
  | (key, val) :: map =>
    if is_attribute_key key then (key.toList.tail, as_text val) :: string_attrs map
    else string_attrs map

def attributes (map : Map) : List Attribute :=
  (string_attrs map).map fun (name, value) => ⟨name, escape_xml_text value⟩

def element (tag : List Char) (attrs : List Attribute) (content : List Markup) : List Markup :=
  if content.isEmpty then [.empty_tag tag attrs]
  else .open_tag tag attrs :: (content ++ [.close_tag tag])

mutual
def node_markup (tag : List Char) : Value → List Markup
  | .Null => element tag [] []
  | .String s => element tag [] (text_pieces [] s.toList)
  | .Array items => items_markup tag items
  | .Object map =>
    element tag (attributes map) (text_pieces [] (entry_text [] map) ++ entries_markup map)
  | .Bool _ => []
  | .Number _ => []
def items_markup (tag : List Char) : List Value → List Markup
  | [] => []
  | item :: items => node_markup tag item ++ items_markup tag items
def entries_markup : Map → List Markup
  | [] => []
  | (key, val) :: map =>
    if is_element_key key then node_markup key.toList val ++ entries_markup map
    else entries_markup map
end

/-! ## Keys -/

theorem key_cases (key : String) :
    (∃ name, key.toList = '@' :: name ∧ is_attribute_key key = true ∧
      is_element_key key = false ∧ key ≠ "#text") ∨
    (key = "#text") ∨
    (is_element_key key = true ∧ is_attribute_key key = false ∧ key ≠ "#text") := by
  by_cases ht : key = "#text"
  · exact .inr (.inl ht)
  · by_cases ha : key.toList.head? = some '@'
    · left
      cases hc : key.toList with
      | nil =>
        rw [hc] at ha
        cases ha
      | cons c name =>
        rw [hc] at ha
        obtain rfl : c = '@' := by simpa using ha
        exact ⟨name, rfl, by simp [is_attribute_key, hc], by simp [is_element_key, hc], ht⟩
    · right
      right
      exact ⟨by simp [is_element_key, ha, ht], by simp [is_attribute_key, ha], ht⟩

theorem attribute_key {key : String} (h : is_attribute_key key = true) :
    key.toList = '@' :: key.toList.tail := by
  simp only [is_attribute_key, decide_eq_true_eq] at h
  cases hc : key.toList with
  | nil =>
    rw [hc] at h
    cases h
  | cons c chars =>
    rw [hc] at h
    simp only [head?_cons, Option.some.injEq] at h
    rw [h]
    rfl

theorem text_key : is_element_key "#text" = false ∧ is_attribute_key "#text" = false := by decide

/-! ## Texts -/

theorem render_append (a b : List Markup) : render (a ++ b) = render a ++ render b := by
  simp [render]

theorem render_flush (run : List Char) : render (flush run) = run := by
  unfold flush
  split
  · rename_i h
    rw [List.isEmpty_iff.mp h]
    rfl
  · simp [render, Markup.text]

theorem render_text_pieces (run s : List Char) :
    render (text_pieces run s) = run ++ escape_xml_text s := by
  induction s generalizing run with
  | nil => simp [text_pieces, render_flush, escape_xml_text]
  | cons c s ih =>
    have he : escape_xml_text (c :: s) = escape_char c ++ escape_xml_text s := rfl
    rw [text_pieces, he]
    cases hen : entity c with
    | none => simp [ih, escape_char, hen]
    | some name =>
      have hp : render (.reference name :: text_pieces [] s) =
          ('&' :: name ++ [';']) ++ render (text_pieces [] s) := rfl
      simp only [render_append, render_flush, hp, ih, escape_char, hen, nil_append]

/-! ## Well-formed markup -/

/-- Markup that may stand inside an element. -/
structure Content (doc : List Markup) : Prop where
  pieces : ∀ piece ∈ doc, piece.well_formed = true
  runs : doc.IsChain fun a b => ¬(a.is_chars = true ∧ b.is_chars = true)
  closed : ∀ names rest, balanced names (doc ++ rest) = balanced names rest

/-- Content that starts with a tag. -/
structure Elements (doc : List Markup) : Prop extends Content doc where
  tag_first : ∀ piece ∈ doc.head?, piece.is_chars = false

theorem Elements.nil : Elements [] where
  pieces := by simp
  runs := List.IsChain.nil
  closed _ _ := rfl
  tag_first := by simp

theorem Content.append {a b : List Markup} (ha : Content a) (hb : Elements b) :
    Content (a ++ b) where
  pieces piece h := by
    rcases mem_append.mp h with h | h
    · exact ha.pieces piece h
    · exact hb.pieces piece h
  runs := by
    rw [isChain_append]
    refine ⟨ha.runs, hb.runs, fun x _ y hy => ?_⟩
    rw [hb.tag_first y hy]
    simp
  closed names rest := by rw [append_assoc, ha.closed, hb.closed]

theorem Elements.append {a b : List Markup} (ha : Elements a) (hb : Elements b) :
    Elements (a ++ b) where
  toContent := ha.toContent.append hb
  tag_first piece h := by
    cases a with
    | nil => exact hb.tag_first piece h
    | cons first a => exact ha.tag_first piece h

section

variable (hname : is_name tag = true) (hattrs : attributes_well_formed attrs = true)

include hname hattrs

theorem empty_elements : Elements [.empty_tag tag attrs] := by
  refine ⟨⟨?_, isChain_singleton _, fun _ _ => by simp [balanced]⟩, by simp [Markup.is_chars]⟩
  intro piece h
  rw [mem_singleton.mp h]
  simp [Markup.well_formed, hname, hattrs]

theorem tagged_elements (hc : Content content) :
    Elements (.open_tag tag attrs :: (content ++ [.close_tag tag])) := by
  refine ⟨⟨?_, ?_, ?_⟩, by simp [Markup.is_chars]⟩
  · intro piece h
    simp only [mem_cons, mem_append, not_mem_nil, or_false] at h
    rcases h with rfl | h | rfl
    · simp [Markup.well_formed, hname, hattrs]
    · exact hc.pieces piece h
    · exact hname
  · rw [isChain_cons]
    refine ⟨by simp [Markup.is_chars], ?_⟩
    rw [isChain_append]
    refine ⟨hc.runs, isChain_singleton _, by simp [Markup.is_chars]⟩
  · intro names rest
    rw [cons_append, append_assoc, balanced, hc.closed]
    simp [balanced]

theorem element_elements (hc : Content content) : Elements (element tag attrs content) := by
  unfold element
  split
  · exact empty_elements hname hattrs
  · exact tagged_elements hname hattrs hc

end

theorem flush_content (h : ∀ c ∈ run, entity c = none) : Content (flush run) := by
  unfold flush
  split
  · exact Elements.nil.toContent
  · rename_i hn
    refine ⟨?_, isChain_singleton _, fun _ _ => by simp [balanced]⟩
    intro piece hp
    rw [mem_singleton.mp hp]
    simp only [Markup.well_formed, Bool.and_eq_true, Bool.not_eq_true', all_eq_true]
    refine ⟨by simpa using hn, fun c hc => ?_⟩
    have he := h c hc
    rw [decide_eq_true_eq, decide_eq_true_eq]
    constructor
    all_goals
      rintro rfl
      cases he

theorem text_pieces_content (s : List Char) (h : ∀ c ∈ run, entity c = none) :
    Content (text_pieces run s) := by
  induction s generalizing run with
  | nil => exact flush_content h
  | cons c s ih =>
    rw [text_pieces]
    cases he : entity c with
    | none =>
      apply ih
      intro d hd
      rcases mem_append.mp hd with hd | hd
      · exact h d hd
      · rw [mem_singleton.mp hd]
        exact he
    | some name =>
      have hr : Content (text_pieces [] s) := ih (by simp)
      apply (flush_content h).append
      refine ⟨⟨?_, ?_, ?_⟩, by simp [Markup.is_chars]⟩
      · intro piece hp
        rcases mem_cons.mp hp with rfl | hp
        · exact (predefined_entity he).2
        · exact hr.pieces piece hp
      · rw [isChain_cons]
        exact ⟨by simp [Markup.is_chars], hr.runs⟩
      · intro names rest
        rw [cons_append]
        simp [balanced, hr.closed]

theorem text_content (s : List Char) : Content (text_pieces [] s) := text_pieces_content s (by simp)

/-! ## Names and attributes -/

variable {t : Texts} {room : Nat}

theorem is_name_char_of_valid {c : Char}
    (h : (is_alphanumeric t c || c = '_' || c = '-' || c = '.' || c = ':') = true) :
    is_name_char c = true := by
  by_contra hnot
  have hs : c ∈ [' ', '\t', '\n', '\r', '/', '>', '<', '=', '"', '\'', '&', ';', '!', '?'] := by
    simp only [is_name_char, is_xml_space, Bool.and_eq_true, Bool.not_eq_true'] at hnot
    simp at hnot ⊢
    tauto
  have hp : ∀ d ∈ [' ', '\t', '\n', '\r', '/', '>', '<', '=', '"', '\'', '&', ';', '!', '?'],
      d.toNat < 128 ∧ d.isAlpha = false ∧ d.isDigit = false ∧ d ≠ '_' ∧ d ≠ '-' ∧ d ≠ '.' ∧
        d ≠ ':' := @of_decide_eq_true _ (decidableBAll _ _) rfl
  obtain ⟨hl, ha, hd, h1, h2, h3, h4⟩ := hp c hs
  simp [is_alphanumeric, is_alphabetic, hl, ha, hd, h1, h2, h3, h4] at h

theorem is_name_of_valid {name : List Char} (h : is_valid_xml_name t name = true) :
    is_name name = true := by
  cases name with
  | nil => cases h
  | cons c chars =>
    simp only [is_valid_xml_name, Bool.and_eq_true, all_eq_true] at h
    simp only [is_name, isEmpty_cons, Bool.not_false, Bool.true_and, all_eq_true]
    intro d hd
    rcases mem_cons.mp hd with rfl | hd
    · apply is_name_char_of_valid (t := t)
      have := h.1
      simp only [is_alphanumeric, Bool.or_eq_true] at this ⊢
      tauto
    · exact is_name_char_of_valid (h.2 d hd)

theorem escape_plain (s : List Char) : ∀ c ∈ escape_xml_text s, c ≠ '"' ∧ c ≠ '<' := by
  intro c hc
  obtain ⟨d, -, hd⟩ := mem_flatMap.mp hc
  unfold escape_char at hd
  cases he : entity d with
  | none =>
    rw [he] at hd
    rw [mem_singleton.mp hd]
    constructor
    all_goals
      rintro rfl
      cases he
  | some name =>
    rw [he] at hd
    rcases entity_cases he with ⟨rfl, rfl⟩ | ⟨rfl, rfl⟩ | ⟨rfl, rfl⟩ | ⟨rfl, rfl⟩ | ⟨rfl, rfl⟩ <;>
      · simp only [cons_append, nil_append, mem_cons, not_mem_nil, or_false] at hd
        rcases hd with rfl | rfl | rfl | rfl | rfl | rfl <;> decide

theorem string_attrs_mem {map : Map} {name value : List Char}
    (h : (name, value) ∈ string_attrs map) :
    ∃ key val, (key, val) ∈ map ∧ key.toList = '@' :: name ∧ as_text val = value := by
  induction map with
  | nil => cases h
  | cons entry map ih =>
    obtain ⟨key, val⟩ := entry
    rw [string_attrs] at h
    have hr : (name, value) ∈ string_attrs map →
        ∃ key' val', (key', val') ∈ (key, val) :: map ∧ key'.toList = '@' :: name ∧
          as_text val' = value := by
      intro h
      obtain ⟨key', val', hm, heq⟩ := ih h
      exact ⟨key', val', .tail _ hm, heq⟩
    split at h
    · rename_i hk
      rcases mem_cons.mp h with heq | h
      · obtain ⟨rfl, rfl⟩ := Prod.mk.inj heq
        exact ⟨key, val, by simp, attribute_key hk, rfl⟩
      · exact hr h
    · exact hr h

theorem string_attrs_nodup {map : Map} (h : (map.map Prod.fst).Nodup) :
    ((string_attrs map).map Prod.fst).Nodup := by
  induction map with
  | nil => exact nodup_nil
  | cons entry map ih =>
    obtain ⟨key, val⟩ := entry
    rw [map_cons, nodup_cons] at h
    rw [string_attrs]
    split
    · rename_i hk
      rw [map_cons, nodup_cons]
      refine ⟨?_, ih h.2⟩
      intro hm
      obtain ⟨⟨name, value⟩, ha, hname⟩ := mem_map.mp hm
      obtain ⟨key', val', hm', hk', -⟩ := string_attrs_mem ha
      apply h.1
      have hs : key' = key := by
        apply String.toList_injective
        rw [hk', attribute_key hk]
        exact congrArg _ hname
      rw [← hs]
      exact mem_map.mpr ⟨_, hm', rfl⟩
    · exact ih h.2

theorem normal_entries_cons {key : String} {val : Value} {map : Map}
    (h : normal_entries t room ((key, val) :: map) = true) :
    normal_entries t room map = true ∧
    ((∃ name s, key.toList = '@' :: name ∧ is_attribute_key key = true ∧
        is_element_key key = false ∧ key ≠ "#text" ∧ is_valid_xml_name t name = true ∧
        val = .String s ∧ normal_text s.toList = true) ∨
      (∃ s, key = "#text" ∧ val = .String s ∧ normal_text s.toList = true) ∨
      (is_element_key key = true ∧ is_attribute_key key = false ∧ key ≠ "#text" ∧
        is_element_name t key = true ∧ normal_node t room true val = true)) := by
  rw [normal_entries, Bool.and_eq_true] at h
  obtain ⟨he, hr⟩ := h
  refine ⟨hr, ?_⟩
  have ht : is_text val = true → ∃ s, val = .String s ∧ normal_text s.toList = true := by
    intro hv
    cases val with
    | String s => exact ⟨s, rfl, hv⟩
    | _ => cases hv
  rcases key_cases key with ⟨name, hname, ha, hnot, hne⟩ | rfl | ⟨hel, ha, hne⟩
  · simp only [hnot, Bool.false_eq_true, if_false, Bool.and_eq_true, Bool.or_eq_true,
      decide_eq_true_eq, hne, false_or, hname, tail_cons] at he
    obtain ⟨s, hs, hn⟩ := ht he.1
    exact .inl ⟨name, s, hname, ha, hnot, hne, he.2, hs, hn⟩
  · simp only [text_key.1, Bool.false_eq_true, if_false, Bool.and_eq_true] at he
    obtain ⟨s, hs, hn⟩ := ht he.1
    exact .inr (.inl ⟨s, rfl, hs, hn⟩)
  · simp only [hel, if_true, Bool.and_eq_true] at he
    exact .inr (.inr ⟨hel, ha, hne, he.1, he.2⟩)

theorem attributes_ok {map : Map} (h : normal_entries t room map = true)
    (hk : (map.map Prod.fst).Nodup) : attributes_well_formed (attributes map) = true := by
  simp only [attributes_well_formed, Bool.and_eq_true, decide_eq_true_eq, all_eq_true]
  constructor
  · intro attr ha
    obtain ⟨⟨name, value⟩, hm, rfl⟩ := mem_map.mp ha
    simp only [Attribute.well_formed, Bool.and_eq_true, all_eq_true]
    constructor
    · clear hk ha
      induction map with
      | nil => cases hm
      | cons entry map ih =>
        obtain ⟨key, val⟩ := entry
        obtain ⟨hr, he⟩ := normal_entries_cons h
        rw [string_attrs] at hm
        split at hm
        · rename_i hke
          rcases mem_cons.mp hm with heq | hm
          · obtain ⟨rfl, -⟩ := Prod.mk.inj heq
            rcases he with ⟨name, s, hname, -, -, -, hvalid, -⟩ | ⟨s, rfl, -⟩ | ⟨-, hnot, -⟩
            · rw [hname]
              exact is_name_of_valid hvalid
            · exact absurd hke (by decide)
            · rw [hnot] at hke
              cases hke
          · exact ih hr hm
        · exact ih hr hm
    · intro c hc
      have := escape_plain value c hc
      simp [this.1, this.2]
  · have hf : (attributes map).map Attribute.key = (string_attrs map).map Prod.fst := by
      simp [attributes]
    rw [hf]
    exact string_attrs_nodup hk

/-! ## The document that is written -/

theorem normal_object {row : Bool} {map : Map} (h : normal_node t room row (.Object map) = true) :
    (map.map Prod.fst).Nodup ∧ normal_entries t (room - 1) map = true ∧
      (∃ entry ∈ map, entry.1 ≠ "#text") ∧
      (room ≠ 0 ∨ ∀ entry ∈ map, is_attribute_key entry.1 = true) := by
  simp only [normal_node, Bool.and_eq_true, Bool.not_eq_true', all_eq_false,
    decide_eq_true_eq, Bool.or_eq_true, all_eq_true] at h
  obtain ⟨⟨⟨hs, hk⟩, hr⟩, he⟩ := h
  exact ⟨hk, he, hs, hr⟩

mutual
theorem node_elements (t : Texts) : ∀ (v : Value) (room : Nat) (row : Bool) (tag : List Char),
    normal_node t room row v = true → is_name tag = true → Elements (node_markup tag v)
  | .Null, _, _, _, _, ht => by
    rw [node_markup]
    exact element_elements ht rfl Elements.nil.toContent
  | .String s, _, _, _, _, ht => by
    rw [node_markup]
    exact element_elements ht rfl (text_content s.toList)
  | .Array items, room, row, tag, h, ht => by
    simp only [normal_node, Bool.and_eq_true] at h
    rw [node_markup]
    exact items_elements t items room tag h.2 ht
  | .Object map, room, row, tag, h, ht => by
    obtain ⟨hk, he, -, -⟩ := normal_object h
    rw [node_markup]
    exact element_elements ht (attributes_ok he hk)
      ((text_content _).append (entries_elements t map (room - 1) he))
  | .Bool _, _, _, _, h, _ | .Number _, _, _, _, h, _ => by cases h
theorem items_elements (t : Texts) : ∀ (items : List Value) (room : Nat) (tag : List Char),
    normal_items t room items = true → is_name tag = true → Elements (items_markup tag items)
  | [], _, _, _, _ => by
    rw [items_markup]
    exact Elements.nil
  | item :: items, room, tag, h, ht => by
    simp only [normal_items, Bool.and_eq_true] at h
    rw [items_markup]
    exact (node_elements t item room false tag h.1 ht).append
      (items_elements t items room tag h.2 ht)
theorem entries_elements (t : Texts) : ∀ (map : Map) (room : Nat),
    normal_entries t room map = true → Elements (entries_markup map)
  | [], _, _ => by
    rw [entries_markup]
    exact Elements.nil
  | (key, val) :: map, room, h => by
    obtain ⟨hr, he⟩ := normal_entries_cons h
    have hel := entries_elements t map room hr
    rw [entries_markup]
    rcases he with ⟨name, s, -, -, hnot, -⟩ | ⟨s, rfl, -⟩ | ⟨hele, -, -, hname, hn⟩
    · rw [hnot]
      exact hel
    · rw [text_key.1]
      exact hel
    · rw [hele]
      simp only [is_element_name, Bool.and_eq_true] at hname
      exact (node_elements t val room true key.toList hn (is_name_of_valid hname.1)).append
        hel
end

theorem render_eq_nil {doc : List Markup} (h : Content doc) : render doc = [] ↔ doc = [] := by
  constructor
  · intro hr
    cases doc with
    | nil => rfl
    | cons piece doc =>
      have hn := text_ne_nil (h.pieces piece (by simp))
      have ha : piece.text ++ render doc = [] := hr
      exact absurd (append_eq_nil_iff.mp ha).1 hn
  · rintro rfl
    rfl

theorem render_element (tag : List Char) (attrs : List Attribute) (content : List Markup) :
    render (element tag attrs content) =
      if content.isEmpty then empty_tag tag (attributes_text attrs)
      else open_tag tag (attributes_text attrs) ++ render content ++ close_tag tag := by
  unfold element
  split
  all_goals simp [render, Markup.text]

theorem escape_eq_nil {s : List Char} : escape_xml_text s = [] ↔ s = [] := by
  constructor
  · intro h
    cases s with
    | nil => rfl
    | cons c s =>
      have hc : escape_char c = [] := (append_eq_nil_iff.mp h).1
      unfold escape_char at hc
      split at hc <;> cases hc
  · rintro rfl
    rfl

theorem attributes_text_cons (name value : List Char) (attrs : List (List Char × List Char)) :
    attributes_text ((((name, value) :: attrs).map fun (name, value) =>
        (⟨name, escape_xml_text value⟩ : Attribute))) =
      attribute_text name (escape_xml_text value) ++
        attributes_text (attrs.map fun (name, value) => ⟨name, escape_xml_text value⟩) := by
  simp [attributes_text]

mutual
theorem serialize_node_eq (t : Texts) : ∀ (v : Value) (room : Nat) (row : Bool)
    (output : List Char) (tag : String), normal_node t room row v = true →
    is_valid_xml_name t tag.toList = true →
    serialize_node t output tag v = .ok (output ++ render (node_markup tag.toList v))
  | .Null, _, _, output, tag, _, hta => by
    rw [serialize_node, node_markup, render_element]
    simp [hta, attributes_text]
  | .String s, _, _, output, tag, h, hta => by
    simp only [normal_node, Bool.and_eq_true, normal_text, Bool.not_eq_true',
      isEmpty_eq_false_iff] at h
    have hr := render_text_pieces [] s.toList
    have hc : (text_pieces [] s.toList).isEmpty = false := by
      rw [isEmpty_eq_false_iff]
      intro hnil
      rw [hnil] at hr
      exact h.2.1 (escape_eq_nil.mp hr.symm)
    rw [serialize_node, node_markup, render_element]
    simp [hta, attributes_text, hc, hr]
  | .Array items, room, _, output, tag, h, hta => by
    simp only [normal_node, Bool.and_eq_true] at h
    rw [serialize_node, node_markup]
    simp only [hta, Bool.not_true, Bool.false_eq_true, if_false]
    exact serialize_items_eq t items room output tag h.2 hta
  | .Object map, room, row, output, tag, h, hta => by
    obtain ⟨hk, he, -, -⟩ := normal_object h
    have hw := serialize_entries_eq t map (room - 1) [] [] [] he
    have hel := entries_elements t map (room - 1) he
    have hr := render_text_pieces [] (entry_text [] map)
    rw [serialize_node, node_markup, render_element, render_append, hr]
    simp only [hta, Bool.not_true, Bool.false_eq_true, if_false]
    have hb : serialize_entries t [] [] [] map = .ok (attributes_text (attributes map),
        render (entries_markup map), escape_xml_text (entry_text [] map)) := hw
    rw [hb]
    have hem : ((render (entries_markup map)).isEmpty &&
        (escape_xml_text (entry_text [] map)).isEmpty) =
        (text_pieces [] (entry_text [] map) ++ entries_markup map).isEmpty := by
      have ht := render_eq_nil (text_content (entry_text [] map))
      rw [hr, nil_append] at ht
      rw [Bool.eq_iff_iff, Bool.and_eq_true]
      simp only [List.isEmpty_iff, append_eq_nil_iff, render_eq_nil hel.toContent, ht]
      exact and_comm
    simp only [hem, nil_append]
    split <;> rfl
  | .Bool _, _, _, _, _, h, _ | .Number _, _, _, _, _, h, _ => by cases h
theorem serialize_items_eq (t : Texts) : ∀ (items : List Value) (room : Nat)
    (output : List Char) (tag : String), normal_items t room items = true →
    is_valid_xml_name t tag.toList = true →
    serialize_items t output tag items = .ok (output ++ render (items_markup tag.toList items))
  | [], _, output, _, _, _ => by
    simp [serialize_items, items_markup, render]
  | item :: items, room, output, tag, h, ht => by
    simp only [normal_items, Bool.and_eq_true] at h
    rw [serialize_items, serialize_node_eq t item room false output tag h.1 ht]
    simp only
    rw [serialize_items_eq t items room _ tag h.2 ht, items_markup, render_append, append_assoc]
theorem serialize_entries_eq (t : Texts) : ∀ (map : Map) (room : Nat)
    (attrs children text : List Char), normal_entries t room map = true →
    serialize_entries t attrs children (escape_xml_text text) map =
      .ok (attrs ++ attributes_text (attributes map), children ++ render (entries_markup map),
        escape_xml_text (entry_text text map))
  | [], _, attrs, children, text, _ => by
    simp [serialize_entries, attributes, string_attrs, attributes_text, entries_markup, render,
      entry_text]
  | (key, val) :: map, room, attrs, children, text, h => by
    obtain ⟨hr, he⟩ := normal_entries_cons h
    rw [serialize_entries, entries_markup, entry_text, attributes, string_attrs]
    rcases he with ⟨name, s, hname, ha, hnot, hne, hvalid, rfl, -⟩ | ⟨s, rfl, rfl, -⟩ |
      ⟨hel, ha, hne, hname, hn⟩
    · rw [hname]
      simp only [hvalid, ha, hnot, hne, Bool.not_true, Bool.false_eq_true, if_false, if_true,
        tail_cons, attributes_text_cons, as_text, value_as_str]
      rw [serialize_entries_eq t map room _ children text hr, append_assoc]
      rfl
    · have hc : "#text".toList = ['#', 't', 'e', 'x', 't'] := rfl
      simp only [hc, text_key, Bool.false_eq_true, if_false, if_true, as_text, value_as_str]
      exact serialize_entries_eq t map room attrs children s.toList hr
    · simp only [hel, ha, hne, if_true, if_false, Bool.false_eq_true]
      simp only [is_element_name, Bool.and_eq_true] at hname
      split
      · rename_i name heq
        simp [is_attribute_key, heq] at ha
      · rw [serialize_node_eq t val room true children key hn hname.1]
        simp only
        rw [serialize_entries_eq t map room attrs _ text hr, render_append, append_assoc]
        rfl
end

theorem json_to_xml_normal {root : String} {node : Value}
    (h : normal_form t (.Object [(root, node)]) = true) :
    json_to_xml t (.Object [(root, node)]) =
        .ok (String.ofList (render (node_markup root.toList node))) ∧
      WellFormed (node_markup root.toList node) := by
  simp only [normal_form, Bool.and_eq_true, is_element_name] at h
  obtain ⟨⟨hk, hvalid, -⟩, hn⟩ := h
  constructor
  · simp only [json_to_xml, map_cons, map_nil, filter_cons, hk, if_true,
      filter_nil, hvalid, Bool.not_true, Bool.false_eq_true, if_false, lookup_cons,
      beq_self_eq_true]
    rw [serialize_node_eq t node _ false [] root hn hvalid]
    rfl
  · have he := node_elements t node _ false root.toList hn (is_name_of_valid hvalid)
    refine ⟨he.pieces, he.runs, ?_⟩
    have hc := he.closed [] []
    rw [append_nil] at hc
    rw [hc]
    rfl

end camel_api.xml_convert
