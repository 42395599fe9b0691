-- `validate_xml` in `camel-api/src/xml_convert.rs`, and what it says of the texts that
-- `json_to_xml` returns. They are always well-formed markup, but an array under the root key gives
-- as many root elements as it has items, so a text is accepted only where there is one.
import RustCamel.Xml.RoundTrip

open List

namespace camel_api.xml_convert

/-! ## The check -/

/-- An event as `validate_xml` tells them apart: a document type, or any other. -/
inductive Seen where
  | DocType
  | event (e : Event)

def Seen.erase : Seen → Event
  | .DocType => .Other
  | .event e => e

/-- The reader, with the document types told apart. -/
structure Reader (q : QuickXml) where
  read : List Char → List (Except (Nat × String) Seen)
  same : ∀ text, (read text).map (Except.map Seen.erase) = q.read_events text

def check_root_element (depth root_count : Nat) : Except error.CamelError Nat :=
  if depth = 0 then
    if 1 < root_count + 1 then failed "multiple root elements found" else .ok (root_count + 1)
  else .ok root_count

def validate_loop (depth root_count : Nat) : List (Except (Nat × String) Seen) →
    Except error.CamelError Nat
  | [] => .ok root_count
  | .error (position, e) :: _ => failed s!"invalid XML at position {position}: {e}"
  | .ok .DocType :: _ => failed "DOCTYPE is not allowed in XML body"
  | .ok (.event (.Start _)) :: rest =>
    match check_root_element depth root_count with
    | .error err => .error err
    | .ok root_count => validate_loop (depth + 1) root_count rest
  | .ok (.event (.Empty _)) :: rest =>
    match check_root_element depth root_count with
    | .error err => .error err
    | .ok root_count => validate_loop depth root_count rest
  | .ok (.event .End) :: rest => validate_loop (depth - 1) root_count rest
  | .ok (.event _) :: rest => validate_loop depth root_count rest

def validate_xml {q : QuickXml} (r : Reader q) (input : String) : Except error.CamelError Unit :=
  match validate_loop 0 0 (r.read input.toList) with
  | .error err => .error err
  | .ok root_count =>
    if root_count = 0 then failed "empty XML: no root element found" else .ok ()

/-! ## What the check makes of markup -/

def seen (doc : List Markup) : List (Except (Nat × String) Seen) :=
  (doc.filterMap Markup.event).map fun e => .ok (.event e)

variable {q : QuickXml} {doc a b : List Markup} {t : Texts} {k l : Nat}

theorem seen_cons (piece : Markup) (doc : List Markup) :
    seen (piece :: doc) = (piece.event.toList.map fun e => .ok (.event e)) ++ seen doc := by
  unfold seen
  cases h : piece.event <;> simp [h]

theorem seen_nil : seen [] = [] := rfl

theorem seen_of_erased {es : List Event} (hn : ∀ e ∈ es, e ≠ .Other) :
    ∀ {read : List (Except (Nat × String) Seen)},
      read.map (Except.map Seen.erase) = es.map .ok → read = es.map fun e => .ok (.event e) := by
  induction es with
  | nil => simp
  | cons e es ih =>
    intro read h
    obtain ⟨first, rest, rfl, hf, hr⟩ := map_eq_cons_iff.mp h
    rw [ih (fun e he => hn e (.tail _ he)) hr]
    rcases first with _ | _ | e'
    · cases hf
    · cases hf
      exact absurd rfl (hn _ mem_cons_self)
    · cases hf
      rfl

theorem read_render (hq : q.Documented) (r : Reader q) (h : WellFormed doc) :
    r.read (render doc) = seen doc := by
  apply seen_of_erased _ ((r.same (render doc)).trans (hq.reads doc h))
  intro e he
  obtain ⟨piece, -, hp⟩ := mem_filterMap.mp he
  rintro rfl
  cases piece <;> simp [Markup.event] at hp

/-- How many elements start outermost, from a depth on. -/
def tops : Nat → List Markup → Nat
  | _, [] => 0
  | depth, .open_tag _ _ :: doc => (if depth = 0 then 1 else 0) + tops (depth + 1) doc
  | depth, .empty_tag _ _ :: doc => (if depth = 0 then 1 else 0) + tops depth doc
  | depth, .close_tag _ :: doc => tops (depth - 1) doc
  | depth, _ :: doc => tops depth doc

theorem validate_seen (doc : List Markup) (depth roots : Nat) (hr : roots ≤ 1) :
    validate_loop depth roots (seen doc) =
      if roots + tops depth doc ≤ 1 then .ok (roots + tops depth doc)
      else failed "multiple root elements found" := by
  induction doc generalizing depth roots with
  | nil => simp [seen_nil, validate_loop, tops, hr]
  | cons piece doc ih =>
    rw [seen_cons]
    cases piece with
    | chars text =>
      simp only [Markup.event, tops]
      split
      all_goals exact ih depth roots hr
    | reference name => exact ih depth roots hr
    | close_tag name => exact ih (depth - 1) roots hr
    | open_tag name attrs | empty_tag name attrs =>
      simp only [Markup.event, Option.toList_some, map_cons, map_nil, cons_append,
        nil_append, validate_loop, check_root_element, tops]
      by_cases hd : depth = 0
      · by_cases hzero : roots = 0
        · simp [hd, hzero, ih 0 1, ih 1 1]
        · simp [hd, show roots = 1 by omega, failed]
      · simp [hd, ih _ _ hr]

/-- Markup with `k` elements outermost, which all end in it. -/
structure Counted (k : Nat) (doc : List Markup) : Prop where
  outside : ∀ rest, tops 0 (doc ++ rest) = k + tops 0 rest
  inside : ∀ depth rest, tops (depth + 1) (doc ++ rest) = tops (depth + 1) rest

theorem Counted.nil : Counted 0 [] := ⟨by simp, by simp⟩

theorem Counted.append (ha : Counted k a) (hb : Counted l b) : Counted (k + l) (a ++ b) := by
  constructor
  · intro rest
    rw [append_assoc, ha.outside, hb.outside, Nat.add_assoc]
  · intro depth rest
    rw [append_assoc, ha.inside, hb.inside]

theorem counted_flush (run : List Char) : Counted 0 (flush run) := by
  unfold flush
  split
  · exact .nil
  · exact ⟨by simp [tops], by simp [tops]⟩

theorem counted_text (run s : List Char) : Counted 0 (text_pieces run s) := by
  induction s generalizing run with
  | nil => exact counted_flush run
  | cons c s ih =>
    rw [text_pieces]
    cases entity c with
    | none => exact ih _
    | some name =>
      have hr : Counted 0 (.reference name :: text_pieces [] s) := by
        constructor
        · exact (ih []).outside
        · exact (ih []).inside
      exact (counted_flush run).append hr

theorem Counted.tagged (h : Counted k doc) (tag : List Char) (attrs : List Attribute) :
    Counted 1 (.open_tag tag attrs :: (doc ++ [.close_tag tag])) := by
  constructor
  · intro rest
    simp [tops, h.inside 0]
  · intro depth rest
    simp [tops, h.inside (depth + 1)]

/-! ## What is written -/

mutual
/-- How many elements a value gives: an array one for each of its items, and these may be arrays. -/
def element_count : Value → Nat
  | .Array items => element_counts items
  | _ => 1
def element_counts : List Value → Nat
  | [] => 0
  | item :: items => element_count item + element_counts items
end

mutual
/-- In no object of the value a key stands twice. -/
def distinct_keys : Value → Prop
  | .Array items => distinct_items items
  | .Object map => (map.map Prod.fst).Nodup ∧ distinct_entries map
  | _ => True
def distinct_items : List Value → Prop
  | [] => True
  | item :: items => distinct_keys item ∧ distinct_items items
def distinct_entries : Map → Prop
  | [] => True
  | (_, val) :: map => distinct_keys val ∧ distinct_entries map
end

/-- What `serde_json` prints for a number: digits, a sign, a point and an exponent. -/
def Texts.Documented (t : Texts) : Prop := ∀ n, ∀ c ∈ (t.number_to_string n).toList, entity c = none

/-- What a value is written as. -/
def Written (k : Nat) (output written : List Char) : Prop :=
  ∃ doc, written = output ++ render doc ∧ Elements doc ∧ Counted k doc

variable {output written : List Char} {tag : String} {v : Value} {as : List Attribute} {obj : Map}

section

variable (htag : is_name tag.toList = true) (has : attributes_well_formed as = true)

include htag has

theorem written_empty : Written 1 output (output ++ empty_tag tag.toList (attributes_text as)) := by
  refine ⟨_, ?_, empty_elements htag has, by simp [tops], by simp [tops]⟩
  simp [render, Markup.text]

theorem written_tagged (hc : Content doc) (hco : Counted k doc) :
    Written 1 output (output ++ (open_tag tag.toList (attributes_text as) ++ render doc ++
      close_tag tag.toList)) := by
  refine ⟨_, ?_, tagged_elements htag has hc, hco.tagged _ _⟩
  simp [render, Markup.text]

end

/-- A value that is neither an array nor an object. A number and a Boolean are not escaped. -/
theorem written_leaf (ht : t.Documented) (h : serialize_node t output tag v = .ok written)
    (ha : ∀ items, v ≠ .Array items) (ho : ∀ map, v ≠ .Object map) :
    Written 1 output written := by
  have hp : ∀ s : List Char, is_name tag.toList = true → (∀ c ∈ s, entity c = none) →
      Written 1 output (output ++ (open_tag tag.toList [] ++ s ++ close_tag tag.toList)) := by
    intro s htag hs
    have hw := @written_tagged _ _ output tag [] htag rfl (flush_content hs) (counted_flush s)
    rwa [render_flush] at hw
  rw [serialize_node.eq_def] at h
  split at h
  · cases h
  · rename_i htag
    have hn : is_name tag.toList = true := is_name_of_valid (t := t) (by simpa using htag)
    cases v with
    | Null =>
      cases h
      exact @written_empty output tag [] hn rfl
    | Bool b =>
      cases h
      exact hp _ hn (by cases b <;> exact @of_decide_eq_true _ (decidableBAll _ _) rfl)
    | Number n =>
      cases h
      exact hp _ hn (ht n)
    | String s =>
      cases h
      have hw := @written_tagged _ _ output tag [] hn rfl (text_content s.toList)
        (counted_text [] s.toList)
      rwa [render_text_pieces] at hw
    | Array items => exact absurd rfl (ha items)
    | Object map => exact absurd rfl (ho map)

/-- What the entries of an object are written as, beside the text, which is escaped. -/
def EntriesWritten (map : Map) (attrs children attrs' children' : List Char) : Prop :=
  ∃ as doc k, attrs' = attrs ++ attributes_text as ∧ children' = children ++ render doc ∧
    (∀ attr ∈ as, attr.well_formed = true) ∧
    as.map Attribute.key = (string_attrs map).map Prod.fst ∧ Elements doc ∧ Counted k doc

mutual
theorem written_node (ht : t.Documented) : ∀ (v : Value) (output written : List Char)
    (tag : String), distinct_keys v → serialize_node t output tag v = .ok written →
    Written (element_count v) output written
  | .Null, _, _, _, _, h
  | .Bool _, _, _, _, _, h
  | .Number _, _, _, _, _, h
  | .String _, _, _, _, _, h => written_leaf ht h (by simp) (by simp)
  | .Array items, output, written, tag, hk, h => by
    rw [serialize_node] at h
    split at h
    · cases h
    · exact written_items ht items output written tag hk h
  | .Object map, output, written, tag, hk, h => by
    rw [serialize_node] at h
    split at h
    · cases h
    rename_i htag
    have hna : is_name tag.toList = true := is_name_of_valid (t := t) (by simpa using htag)
    cases he : serialize_entries t [] [] [] map with
    | error err => simp [he] at h
    | ok buffers =>
      obtain ⟨attrs, children, text⟩ := buffers
      obtain ⟨⟨s, rfl⟩, as, doc, k, rfl, rfl, has, hn, hel, hc⟩ :=
        written_entries ht map [] [] [] _ _ _ hk.2 he
      have ha : attributes_well_formed as = true := by
        simp only [attributes_well_formed, hn, string_attrs_nodup hk.1, decide_true,
          Bool.and_true, all_eq_true]
        exact has
      simp only [he, nil_append] at h
      split at h
      · cases h
        exact written_empty hna ha
      · cases h
        have hw := @written_tagged _ _ output tag as hna ha
          ((text_content s).append hel) ((counted_text [] s).append hc)
        rwa [render_append, render_text_pieces] at hw
theorem written_items (ht : t.Documented) : ∀ (items : List Value) (output written : List Char)
    (tag : String), distinct_items items → serialize_items t output tag items = .ok written →
    Written (element_counts items) output written
  | [], output, _, _, _, h => by
    cases h
    exact ⟨[], by simp [render], .nil, .nil⟩
  | item :: items, output, written, tag, hke, h => by
    rw [serialize_items] at h
    cases hi : serialize_node t output tag item with
    | error err => simp [hi] at h
    | ok first =>
      rw [hi] at h
      obtain ⟨doc, rfl, hd, hk⟩ := written_node ht item output first tag hke.1 hi
      obtain ⟨rest, rfl, hr, hl⟩ := written_items ht items _ written tag hke.2 h
      exact ⟨doc ++ rest, by simp [render_append], hd.append hr, hk.append hl⟩
theorem written_entries (ht : t.Documented) : ∀ (map : Map)
    (attrs children s attrs' children' text' : List Char), distinct_entries map →
    serialize_entries t attrs children (escape_xml_text s) map = .ok (attrs', children', text') →
    (∃ s, text' = escape_xml_text s) ∧ EntriesWritten map attrs children attrs' children'
  | [], attrs, children, s, _, _, _, _, h => by
    cases h
    exact ⟨⟨s, rfl⟩, [], [], 0, by simp [attributes_text], by simp [render], by simp, rfl, .nil, .nil⟩
  | (key, val) :: map, attrs, children, s, attrs', children', text', hke, h => by
    rw [serialize_entries] at h
    split at h
    · rename_i name hna
      split at h
      · cases h
      · rename_i hvalid
        obtain ⟨hte, as, doc, k, rfl, rfl, has, hn, hd⟩ :=
          written_entries ht map _ _ s _ _ _ hke.2 h
        refine ⟨hte, ⟨name, escape_xml_text (value_as_str t val)⟩ :: as, doc, k, ?_, rfl, ?_, ?_,
          hd⟩
        · simp [attributes_text]
        · rw [forall_mem_cons]
          refine ⟨?_, has⟩
          simp only [Attribute.well_formed, Bool.and_eq_true, all_eq_true, decide_eq_true_eq]
          exact ⟨is_name_of_valid (by simpa using hvalid), escape_plain _⟩
        · simp [string_attrs, is_attribute_key, hna, hn]
    · rename_i ha
      have hno : is_attribute_key key = false := by
        cases hkey : key.toList with
        | nil => simp [is_attribute_key, hkey]
        | cons c name =>
          have : c ≠ '@' := fun hc => ha name (hc ▸ hkey)
          simp [is_attribute_key, hkey, this]
      have hs : string_attrs ((key, val) :: map) = string_attrs map := by
        simp [string_attrs, hno]
      rw [EntriesWritten, hs]
      split at h
      · exact written_entries ht map _ _ _ _ _ _ hke.2 h
      · cases hch : serialize_node t children key val with
        | error err => simp [hch] at h
        | ok first =>
          rw [hch] at h
          obtain ⟨child, rfl, he, hk⟩ := written_node ht val children first key hke.1 hch
          obtain ⟨hte, as, doc, k, rfl, rfl, has, hn, hd, hl⟩ :=
            written_entries ht map _ _ s _ _ _ hke.2 h
          exact ⟨hte, as, child ++ doc, _, rfl, by simp [render_append], has, hn,
            he.append hd, hk.append hl⟩
end

/-! ## The law -/

def one_root : Value → Prop
  | .Object obj => ∀ key val, is_element_key key = true → obj.lookup key = some val →
    element_count val = 1
  | _ => False

theorem element_of_written {xml : String} (h : json_to_xml t (.Object obj) = .ok xml) :
    ∃ root child, serialize_node t [] root child = .ok xml.toList ∧ (root, child) ∈ obj ∧
      (one_root (.Object obj) ↔ element_count child = 1) := by
  simp only [json_to_xml] at h
  split at h
  · cases h
  · rename_i root hr
    split at h
    · cases h
    · split at h
      · rename_i child hc
        cases hw : serialize_node t [] root child with
        | error err => simp [hw, Except.map] at h
        | ok written =>
          rw [hw] at h
          cases h
          obtain ⟨before, after, ho, -⟩ := lookup_eq_some_iff.mp hc
          refine ⟨root, child, by simpa using hw, by simp [ho], fun hon => ?_, ?_⟩
          · have hm : root ∈ (obj.map Prod.fst).filter is_element_key := by simp [hr]
            exact hon root child (mem_filter.mp hm).2 hc
          · intro hco key val hk hv
            obtain ⟨before, after, ho, -⟩ := lookup_eq_some_iff.mp hv
            have hm : key ∈ (obj.map Prod.fst).filter is_element_key := by simp [ho, hk]
            rw [hr, mem_singleton] at hm
            rw [hm, hc] at hv
            cases hv
            exact hco
      · cases h
  · cases h

theorem distinct_of_mem {key : String} (h : distinct_entries obj) (hm : (key, v) ∈ obj) :
    distinct_keys v := by
  induction obj with
  | nil => cases hm
  | cons entry obj ih =>
    rcases mem_cons.mp hm with rfl | hm
    · exact h.1
    · exact ih h.2 hm

/-- What `json_to_xml` returns is a document that `validate_xml` accepts exactly when the value
under the root key, with its arrays spread out, is one element. -/
theorem written_is_document_iff (q : QuickXml) (hq : q.Documented) (r : Reader q) (t : Texts)
    (ht : t.Documented) (v : Value) (hkeys : distinct_keys v) (xml : String)
    (h : json_to_xml t v = .ok xml) :
    ((∃ doc, WellFormed doc ∧ xml.toList = render doc) ∧ validate_xml r xml = .ok ()) ↔
      one_root v := by
  cases v with
  | Object obj =>
    obtain ⟨root, child, hw, hm, ho⟩ := element_of_written h
    obtain ⟨doc, hd, he, hc⟩ :=
      written_node ht child [] xml.toList root (distinct_of_mem hkeys.2 hm) hw
    have hcl := he.closed [] []
    have hto := hc.outside []
    rw [append_nil] at hcl hto
    have hf : WellFormed doc := ⟨he.pieces, he.runs, hcl⟩
    rw [ho, and_iff_right ⟨doc, hf, hd⟩, validate_xml, hd, nil_append,
      read_render hq r hf, validate_seen doc 0 0 (by omega), hto]
    by_cases hfe : element_count child ≤ 1
    · by_cases hzero : element_count child = 0
      · simp [tops, hzero, failed]
      · simp [tops, show element_count child = 1 by omega]
    · simp [tops, hfe, failed]
      omega
  | _ => cases h

/-- The small reader sees no document types. -/
def scanning : Reader scanner where
  read text := (scanner.read_events text).map (Except.map .event)
  same text := by
    rw [map_map]
    refine map_id'' (fun x => ?_) _
    cases x <;> rfl

theorem one_dish_is_accepted :
    json_to_xml ascii (.Object [("dish", .Array [.String "tea"])]) = .ok "<dish>tea</dish>" ∧
      (∃ doc, WellFormed doc ∧ "<dish>tea</dish>".toList = render doc) ∧
      validate_xml scanning "<dish>tea</dish>" = .ok () := by
  have h : json_to_xml ascii (.Object [("dish", .Array [.String "tea"])]) =
      .ok "<dish>tea</dish>" := by
    simp [json_to_xml]
    rfl
  refine ⟨h, (written_is_document_iff scanner scanner_documented scanning ascii ?_ _ ?_ _ h).mpr ?_⟩
  · simp [Texts.Documented, ascii]
  · simp [distinct_keys, distinct_entries, distinct_items]
  · intro key val hk hv
    by_cases hd : key = "dish"
    · subst hd
      cases hv
      rfl
    · simp [lookup_cons, beq_eq_false_iff_ne.mpr hd] at hv

/-- Two dishes are two root elements. -/
theorem two_dishes_are_refused :
    json_to_xml ascii (.Object [("dish", .Array [.String "tea", .Null])]) =
        .ok "<dish>tea</dish><dish/>" ∧
      (validate_xml scanning "<dish>tea</dish><dish/>").toOption = none := by
  refine ⟨?_, by decide +kernel⟩
  simp [json_to_xml]
  rfl

end camel_api.xml_convert
