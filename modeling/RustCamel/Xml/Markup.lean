-- Documents as lists of markup, and what `quick-xml` documents for them: each piece is one event,
-- and a run of characters is trimmed on its own. A small reader does what is documented.
import Mathlib.Data.List.Chain
import Mathlib.Data.List.TakeWhile
import RustCamel.Xml.Convert

open List

namespace camel_api.xml_convert

/-! ## Documents -/

inductive Markup where
  | open_tag (name : List Char) (attrs : List Attribute)
  | empty_tag (name : List Char) (attrs : List Attribute)
  | close_tag (name : List Char)
  | chars (text : List Char)
  | reference (name : List Char)

def attributes_text (attrs : List Attribute) : List Char :=
  attrs.flatMap fun attr => attribute_text attr.key attr.value

def Markup.text : Markup → List Char
  | .open_tag name attrs => xml_convert.open_tag name (attributes_text attrs)
  | .empty_tag name attrs => xml_convert.empty_tag name (attributes_text attrs)
  | .close_tag name => xml_convert.close_tag name
  | .chars text => text
  | .reference name => '&' :: name ++ [';']

def render (doc : List Markup) : List Char := doc.flatMap Markup.text

def is_xml_space (c : Char) : Bool := c = ' ' || c = '\t' || c = '\n' || c = '\r'

/-- A character that ends no name. -/
def is_name_char (c : Char) : Bool :=
  !(is_xml_space c) && !(['/', '>', '<', '=', '"', '\'', '&', ';', '!', '?'].contains c)

def is_name (name : List Char) : Bool := !name.isEmpty && name.all is_name_char

def Attribute.well_formed (attr : Attribute) : Bool :=
  is_name attr.key && attr.value.all fun c => c ≠ '"' && c ≠ '<'

def attributes_well_formed (attrs : List Attribute) : Bool :=
  attrs.all Attribute.well_formed && decide (attrs.map Attribute.key).Nodup

def Markup.well_formed : Markup → Bool
  | .open_tag name attrs => is_name name && attributes_well_formed attrs
  | .empty_tag name attrs => is_name name && attributes_well_formed attrs
  | .close_tag name => is_name name
  | .chars text => !text.isEmpty && text.all fun c => c ≠ '<' && c ≠ '&'
  | .reference name => is_name name

def Markup.is_chars : Markup → Bool
  | .chars _ => true
  | _ => false

/-- Each closing tag closes the last element that is open, and none stays open. -/
def balanced : List (List Char) → List Markup → Bool
  | names, [] => names.isEmpty
  | names, .open_tag name _ :: doc => balanced (name :: names) doc
  | [], .close_tag _ :: _ => false
  | last :: names, .close_tag name :: doc => last = name && balanced names doc
  | names, .empty_tag _ _ :: doc => balanced names doc
  | names, .chars _ :: doc => balanced names doc
  | names, .reference _ :: doc => balanced names doc

structure WellFormed (doc : List Markup) : Prop where
  pieces : ∀ piece ∈ doc, piece.well_formed = true
  runs : doc.IsChain fun a b => ¬(a.is_chars = true ∧ b.is_chars = true)
  balanced : balanced [] doc = true

/-! ## What the reader documents -/

/-- The text without the XML spaces at its ends. -/
def trim_xml (text : List Char) : List Char :=
  ((text.dropWhile is_xml_space).reverse.dropWhile is_xml_space).reverse

def Markup.event : Markup → Option Event
  | .open_tag name attrs => some (.Start ⟨name, attrs.map .ok⟩)
  | .empty_tag name attrs => some (.Empty ⟨name, attrs.map .ok⟩)
  | .close_tag _ => some .End
  | .chars text => if (trim_xml text).isEmpty then none else some (.Text (trim_xml text))
  | .reference name => some (.GeneralRef name)

def events (doc : List Markup) : List (Except (Nat × String) Event) :=
  (doc.filterMap Markup.event).map .ok

/-- The value of an attribute: each break or tab is a space, and so are the two characters of a
line end. -/
def spaced : List Char → List Char
  | '\r' :: '\n' :: s => ' ' :: spaced s
  | c :: s => (if c = '\t' || c = '\n' || c = '\r' then ' ' else c) :: spaced s
  | [] => []

/-- What `quick-xml` documents of its reader, of the predefined entities and of the value of an
attribute. -/
structure QuickXml.Documented (q : QuickXml) : Prop where
  reads : ∀ doc, WellFormed doc → q.read_events (render doc) = events doc
  unescape_plain : ∀ text, '&' ∉ text → q.unescape text = .ok text
  unescape_entity : ∀ c name, entity c = some name → q.unescape ('&' :: name ++ [';']) = .ok [c]
  normalized : ∀ s, q.normalized_value (escape_xml_text s) = .ok (spaced s)

/-! ## A reader that does what is documented -/

/-- The attributes of a tag, and the text behind them. -/
def scan_attributes : Nat → List Char → List (Except String Attribute) × List Char
  | 0, text => ([], text)
  | _, [] => ([], [])
  | fuel + 1, c :: text =>
    if c = ' ' then
      let value := (text.dropWhile is_name_char).drop 2
      let rest := scan_attributes fuel (value.dropWhile (· ≠ '"')).tail
      (.ok ⟨text.takeWhile is_name_char, value.takeWhile (· ≠ '"')⟩ :: rest.1, rest.2)
    else ([], c :: text)

def scan_tag (text : List Char) : Event × List Char :=
  let rest := scan_attributes text.length (text.dropWhile is_name_char)
  let tag : BytesStart := ⟨text.takeWhile is_name_char, rest.1⟩
  if rest.2.head? = some '/' then (.Empty tag, rest.2.drop 2) else (.Start tag, rest.2.drop 1)

def scan : Nat → List Char → List (Except (Nat × String) Event)
  | 0, _ => []
  | _, [] => []
  | fuel + 1, c :: text =>
    if c = '<' then
      if text.head? = some '/' then .ok .End :: scan fuel (text.dropWhile (· ≠ '>')).tail
      else .ok (scan_tag text).1 :: scan fuel (scan_tag text).2
    else if c = '&' then
      .ok (.GeneralRef (text.takeWhile (· ≠ ';'))) :: scan fuel (text.dropWhile (· ≠ ';')).tail
    else
      let run := (c :: text).takeWhile fun c => c ≠ '<' && c ≠ '&'
      let rest := scan fuel ((c :: text).dropWhile fun c => c ≠ '<' && c ≠ '&')
      if (trim_xml run).isEmpty then rest else .ok (.Text (trim_xml run)) :: rest

/-- The character of a predefined entity. -/
def predefined (name : List Char) : Option Char :=
  ['&', '<', '>', '"', '\''].find? fun c => entity c = some name

def resolve : Nat → List Char → Except String (List Char)
  | _, [] => .ok []
  | 0, _ => .error "too long"
  | fuel + 1, c :: text =>
    if c = '&' then
      match predefined (text.takeWhile (· ≠ ';')) with
      | some c => (resolve fuel (text.dropWhile (· ≠ ';')).tail).map (c :: ·)
      | none => .error "unrecognized entity"
    else (resolve fuel text).map (c :: ·)

def scanner : QuickXml where
  read_events text := scan text.length text
  unescape text := resolve text.length text
  normalized_value text := (resolve text.length text).map spaced

variable {c : Char} {fuel : Nat} {doc : List Markup} {attrs : List Attribute} {piece : Markup}
  {s : List Char}

theorem takeWhile_stop {p : Char → Bool} {a : List Char} (b : List Char) (h : ∀ d ∈ a, p d = true)
    (hc : p c = false) : (a ++ c :: b).takeWhile p = a ∧ (a ++ c :: b).dropWhile p = c :: b := by
  induction a with
  | nil => simp [hc]
  | cons d a ih =>
    obtain ⟨ht, hdr⟩ := ih fun e he => h e (.tail _ he)
    have hd := h d (by simp)
    simp [hd, ht, hdr]

theorem name_chars {name : List Char} (h : is_name name = true) :
    name ≠ [] ∧ ∀ c ∈ name, is_name_char c = true := by
  simp only [is_name, Bool.and_eq_true, Bool.not_eq_true', isEmpty_eq_false_iff, all_eq_true] at h
  exact h

theorem name_stops_at_semicolon {name : List Char} (h : is_name name = true) (rest : List Char) :
    (name ++ ';' :: rest).takeWhile (· ≠ ';') = name ∧
      (name ++ ';' :: rest).dropWhile (· ≠ ';') = ';' :: rest := by
  obtain ⟨-, hc⟩ := name_chars h
  apply takeWhile_stop rest _ (by decide)
  intro d hd
  rw [decide_eq_true_eq]
  rintro rfl
  exact absurd (hc ';' hd) (by decide)

theorem scan_attributes_text (rest : List Char) (hat : ∀ attr ∈ attrs, attr.well_formed = true)
    (hc : c ≠ ' ') (hf : attrs.length ≤ fuel) :
    scan_attributes fuel (attributes_text attrs ++ c :: rest) = (attrs.map .ok, c :: rest) := by
  induction attrs generalizing fuel with
  | nil =>
    cases fuel with
    | zero => rfl
    | succ fuel => simp [attributes_text, scan_attributes, hc]
  | cons attr attrs ih =>
    obtain ⟨fuel, rfl⟩ : ∃ n, fuel = n + 1 := ⟨fuel - 1, by simp at hf; omega⟩
    have hatt := hat attr (by simp)
    simp only [Attribute.well_formed, Bool.and_eq_true] at hatt
    obtain ⟨hke, hv⟩ := hatt
    obtain ⟨-, hke⟩ := name_chars hke
    have hv' : ∀ d ∈ attr.value, decide (d ≠ '"') = true := by
      intro d hd
      have := all_eq_true.mp hv d hd
      simp only [Bool.and_eq_true] at this
      exact this.1
    obtain ⟨hk, hkd⟩ := takeWhile_stop
      ('"' :: (attr.value ++ '"' :: (attributes_text attrs ++ c :: rest))) hke
      (show is_name_char '=' = false by decide)
    obtain ⟨hvt, hvd⟩ := takeWhile_stop (attributes_text attrs ++ c :: rest) hv'
      (show decide ('"' ≠ '"') = false by decide)
    have ht : attributes_text (attr :: attrs) ++ c :: rest = ' ' :: (attr.key ++
        '=' :: '"' :: (attr.value ++ '"' :: (attributes_text attrs ++ c :: rest))) := by
      simp [attributes_text, attribute_text]
    have hr := ih (fun a ha => hat a (.tail _ ha)) (show attrs.length ≤ fuel by simp at hf; omega)
    rw [ht, scan_attributes]
    simp only [if_true, hk, hkd, drop_succ_cons, drop_zero, hvt, hvd, tail_cons, hr, map_cons]

theorem scan_tag_text {name : List Char} (rest : List Char) (hn : is_name name = true)
    (ha : attributes_well_formed attrs = true) :
    scan_tag (name ++ (attributes_text attrs ++ '>' :: rest)) =
        (.Start ⟨name, attrs.map .ok⟩, rest) ∧
      scan_tag (name ++ (attributes_text attrs ++ '/' :: '>' :: rest)) =
        (.Empty ⟨name, attrs.map .ok⟩, rest) := by
  obtain ⟨-, hn⟩ := name_chars hn
  simp only [attributes_well_formed, Bool.and_eq_true, all_eq_true] at ha
  have hlen : ∀ rest, attrs.length ≤ (name ++ (attributes_text attrs ++ rest)).length := by
    intro rest
    have hat : attrs.length ≤ (attributes_text attrs).length := by
      clear ha
      induction attrs with
      | nil => simp
      | cons attr attrs ih =>
        simp [attributes_text, attribute_text] at ih ⊢
        omega
    simp only [length_append]
    omega
  -- The name ends at the first attribute or at the end of the tag.
  have hs : ∀ c rest, is_name_char c = false →
      (name ++ (attributes_text attrs ++ c :: rest)).takeWhile is_name_char = name ∧
      (name ++ (attributes_text attrs ++ c :: rest)).dropWhile is_name_char =
        attributes_text attrs ++ c :: rest := by
    intro c rest hc
    cases attrs with
    | nil => exact takeWhile_stop rest hn hc
    | cons attr attrs =>
      have ht : attributes_text (attr :: attrs) ++ c :: rest =
          ' ' :: (attr.key ++ '=' :: '"' :: attr.value ++ ['"'] ++
            attributes_text attrs ++ c :: rest) := by
        simp [attributes_text, attribute_text]
      rw [ht]
      exact takeWhile_stop _ hn (by decide)
  constructor
  · obtain ⟨hta, hd⟩ := hs '>' rest (by decide)
    unfold scan_tag
    rw [hta, hd, scan_attributes_text rest ha.1 (by decide) (hlen _)]
    simp
  · obtain ⟨hta, hd⟩ := hs '/' ('>' :: rest) (by decide)
    unfold scan_tag
    rw [hta, hd, scan_attributes_text _ ha.1 (by decide) (hlen _)]
    simp

theorem render_after_chars {text : List Char}
    (hr : (Markup.chars text :: doc).IsChain fun a b => ¬(a.is_chars = true ∧ b.is_chars = true)) :
    render doc = [] ∨ ∃ c rest, render doc = c :: rest ∧ (c ≠ '<' && c ≠ '&') = false := by
  cases doc with
  | nil => exact .inl rfl
  | cons piece doc =>
    right
    have hnot := (isChain_cons_cons.mp hr).1
    cases piece with
    | open_tag name attrs | empty_tag name attrs | close_tag name => exact ⟨'<', _, rfl, rfl⟩
    | chars text' => exact absurd ⟨rfl, rfl⟩ hnot
    | reference name => exact ⟨'&', _, rfl, rfl⟩

theorem events_cons (piece : Markup) (doc : List Markup) :
    events (piece :: doc) = (piece.event.toList.map .ok) ++ events doc := by
  unfold events
  rw [filterMap_cons]
  cases piece.event <;> rfl

theorem scan_piece (fuel : Nat) (hp : piece.well_formed = true)
    (hr : (piece :: doc).IsChain fun a b => ¬(a.is_chars = true ∧ b.is_chars = true)) :
    scan (fuel + 1) (piece.text ++ render doc) =
      piece.event.toList.map .ok ++ scan fuel (render doc) := by
  cases piece with
  | open_tag name attrs =>
    simp only [Markup.well_formed, Bool.and_eq_true] at hp
    obtain ⟨hs, -⟩ := scan_tag_text (render doc) hp.1 hp.2
    obtain ⟨hn, hch⟩ := name_chars hp.1
    obtain ⟨c, name, rfl⟩ := exists_cons_of_ne_nil hn
    have hsl : c ≠ '/' := by
      rintro rfl
      exact absurd (hch '/' (by simp)) (by decide)
    have ht : Markup.text (.open_tag (c :: name) attrs) ++ render doc =
        '<' :: (c :: name ++ (attributes_text attrs ++ '>' :: render doc)) := by
      simp [Markup.text, open_tag]
    rw [ht, scan]
    simp only [if_true, hs]
    simp [hsl, Markup.event]
  | empty_tag name attrs =>
    simp only [Markup.well_formed, Bool.and_eq_true] at hp
    obtain ⟨-, he⟩ := scan_tag_text (render doc) hp.1 hp.2
    obtain ⟨hn, hch⟩ := name_chars hp.1
    obtain ⟨c, name, rfl⟩ := exists_cons_of_ne_nil hn
    have hsl : c ≠ '/' := by
      rintro rfl
      exact absurd (hch '/' (by simp)) (by decide)
    have ht : Markup.text (.empty_tag (c :: name) attrs) ++ render doc =
        '<' :: (c :: name ++ (attributes_text attrs ++ '/' :: '>' :: render doc)) := by
      simp [Markup.text, empty_tag]
    rw [ht, scan]
    simp only [if_true, he]
    simp [hsl, Markup.event]
  | close_tag name =>
    obtain ⟨-, hch⟩ := name_chars hp
    have hg : ∀ d ∈ '/' :: name, decide (d ≠ '>') = true := by
      intro d hd
      rcases mem_cons.mp hd with rfl | hd
      · decide
      · rw [decide_eq_true_eq]
        rintro rfl
        exact absurd (hch '>' hd) (by decide)
    obtain ⟨-, hdr⟩ := takeWhile_stop (render doc) hg (show decide ('>' ≠ '>') = false by decide)
    have ht : Markup.text (.close_tag name) ++ render doc =
        '<' :: ('/' :: name ++ '>' :: render doc) := by
      simp [Markup.text, close_tag]
    rw [ht, scan]
    simp only [if_true, hdr]
    simp [Markup.event]
  | reference name =>
    obtain ⟨hta, hdr⟩ := name_stops_at_semicolon hp (render doc)
    have ht : Markup.text (.reference name) ++ render doc = '&' :: (name ++ ';' :: render doc) := by
      simp [Markup.text]
    rw [ht, scan]
    simp only [hta, hdr]
    simp [Markup.event]
  | chars text =>
    simp only [Markup.well_formed, Bool.and_eq_true, Bool.not_eq_true', isEmpty_eq_false_iff]
      at hp
    obtain ⟨hn, hch⟩ := hp
    rw [all_eq_true] at hch
    have hsp : (text ++ render doc).takeWhile (fun c => c ≠ '<' && c ≠ '&') = text ∧
        (text ++ render doc).dropWhile (fun c => c ≠ '<' && c ≠ '&') = render doc := by
      rcases render_after_chars hr with hnil | ⟨c, rest, hre, hc⟩
      · rw [hnil, append_nil]
        exact ⟨takeWhile_eq_self_iff.mpr hch, dropWhile_eq_nil_iff.mpr hch⟩
      · rw [hre]
        exact takeWhile_stop rest hch hc
    obtain ⟨c, text, rfl⟩ := exists_cons_of_ne_nil hn
    have hc := hch c (by simp)
    simp only [Bool.and_eq_true, decide_eq_true_eq] at hc
    simp only [Markup.text]
    rw [cons_append] at hsp ⊢
    rw [scan, if_neg hc.1, if_neg hc.2]
    simp only [hsp.1, hsp.2, Markup.event]
    split <;> rfl

theorem text_ne_nil (h : piece.well_formed = true) : piece.text ≠ [] := by
  cases piece with
  | chars text =>
    simp only [Markup.well_formed, Bool.and_eq_true, Bool.not_eq_true', isEmpty_eq_false_iff]
      at h
    exact h.1
  | _ => simp [Markup.text, open_tag, empty_tag, close_tag]

theorem scan_render (hpie : ∀ p ∈ doc, p.well_formed = true)
    (hru : doc.IsChain fun a b => ¬(a.is_chars = true ∧ b.is_chars = true))
    (hf : (render doc).length ≤ fuel) : scan fuel (render doc) = events doc := by
  induction doc generalizing fuel with
  | nil =>
    cases fuel with
    | zero | succ fuel => rfl
  | cons piece doc ih =>
    have hpi := hpie piece (by simp)
    have hpo := length_pos_iff.mpr (text_ne_nil hpi)
    have hr : render (piece :: doc) = piece.text ++ render doc := rfl
    rw [hr, length_append] at hf
    obtain ⟨fuel, rfl⟩ : ∃ n, fuel = n + 1 := ⟨fuel - 1, by omega⟩
    rw [hr, scan_piece fuel hpi hru, events_cons,
      ih (fun p hp => hpie p (.tail _ hp)) hru.tail (by omega)]

theorem entity_cases {name : List Char} (h : entity c = some name) :
    (c = '&' ∧ name = ['a', 'm', 'p']) ∨ (c = '<' ∧ name = ['l', 't']) ∨
    (c = '>' ∧ name = ['g', 't']) ∨ (c = '"' ∧ name = ['q', 'u', 'o', 't']) ∨
    (c = '\'' ∧ name = ['a', 'p', 'o', 's']) := by
  unfold entity at h
  split_ifs at h <;> simp_all

theorem predefined_entity {name : List Char} (h : entity c = some name) :
    predefined name = some c ∧ is_name name = true := by
  rcases entity_cases h with ⟨rfl, rfl⟩ | ⟨rfl, rfl⟩ | ⟨rfl, rfl⟩ | ⟨rfl, rfl⟩ | ⟨rfl, rfl⟩ <;>
    decide

theorem resolve_escape (hf : (escape_xml_text s).length ≤ fuel) :
    resolve fuel (escape_xml_text s) = .ok s := by
  induction s generalizing fuel with
  | nil => cases fuel <;> rfl
  | cons c s ih =>
    have ht : escape_xml_text (c :: s) = escape_char c ++ escape_xml_text s := rfl
    rw [ht] at hf ⊢
    cases he : entity c with
    | none =>
      have hch : escape_char c = [c] := by simp [escape_char, he]
      rw [hch] at hf ⊢
      have hc : c ≠ '&' := by
        rintro rfl
        cases he
      obtain ⟨fuel, rfl⟩ : ∃ n, fuel = n + 1 := ⟨fuel - 1, by simp at hf; omega⟩
      rw [singleton_append, resolve, if_neg hc, ih (by simp at hf; omega)]
      rfl
    | some name =>
      obtain ⟨hp, hn⟩ := predefined_entity he
      have hch : escape_char c ++ escape_xml_text s =
          '&' :: (name ++ ';' :: escape_xml_text s) := by
        simp [escape_char, he]
      rw [hch] at hf ⊢
      obtain ⟨fuel, rfl⟩ : ∃ n, fuel = n + 1 := ⟨fuel - 1, by simp at hf; omega⟩
      obtain ⟨hta, hd⟩ := name_stops_at_semicolon hn (escape_xml_text s)
      rw [resolve, if_pos rfl, hta, hp]
      simp only [hd, tail_cons]
      rw [ih (by simp at hf; omega)]
      rfl

theorem resolve_plain (h : '&' ∉ s) (hf : s.length ≤ fuel) : resolve fuel s = .ok s := by
  induction s generalizing fuel with
  | nil => cases fuel <;> rfl
  | cons c s ih =>
    obtain ⟨fuel, rfl⟩ : ∃ n, fuel = n + 1 := ⟨fuel - 1, by simp at hf; omega⟩
    rw [mem_cons, not_or] at h
    rw [resolve, if_neg (Ne.symm h.1), ih h.2 (by simp at hf; omega)]
    rfl

theorem scanner_documented : scanner.Documented where
  reads doc h := scan_render h.pieces h.runs le_rfl
  unescape_plain text h := resolve_plain h le_rfl
  unescape_entity c name h := by
    have he := resolve_escape (s := [c]) le_rfl
    have ht : escape_xml_text [c] = '&' :: name ++ [';'] := by
      simp [escape_xml_text, escape_char, h]
    rwa [ht] at he
  normalized s := by
    change (resolve _ _).map spaced = _
    rw [resolve_escape le_rfl]
    rfl

end camel_api.xml_convert
