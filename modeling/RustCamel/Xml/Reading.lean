-- What `xml_to_json` reads in a document that was written for a value in normal form. Each text
-- loses the spaces around its references, and each attribute its prefix and its breaks.
import RustCamel.Xml.Writing

open List

namespace camel_api.xml_convert

/-! ## The value that comes back -/

/-- The text that is read where a text was written behind a run of characters. -/
def squeeze_from (run : List Char) : List Char → List Char
  | [] => trim_xml run
  | c :: s =>
    match entity c with
    | some _ => trim_xml run ++ c :: squeeze_from [] s
    | none => squeeze_from (run ++ [c]) s

def attrs_read (map : Map) : List (List Char × List Char) → Map
  | [] => map
  | (name, value) :: attrs =>
    if is_namespace name then attrs_read map attrs
    else
      let key := String.ofList ('@' :: local_name name)
      attrs_read (insert map key (.String (String.ofList (spaced value)))) attrs

mutual
def reread : Value → Value
  | .String s => .String (String.ofList (squeeze_from [] s.toList))
  | .Array items => .Array (reread_items items)
  | .Object map =>
    build_node_value ⟨"", attrs_read [] (string_attrs map), reread_entries map,
      squeeze_from [] (entry_text [] map)⟩
  | .Null => .Null
  | .Bool b => .Bool b
  | .Number n => .Number n
def reread_items : List Value → List Value
  | [] => []
  | item :: items => reread item :: reread_items items
def reread_entries : Map → Map
  | [] => []
  | (key, val) :: map =>
    if is_element_key key then (key, reread val) :: reread_entries map else reread_entries map
end

/-! ## Maps -/

def keys (map : Map) : List String := map.map Prod.fst

section

variable (value : Value) {map : Map} {key : String} {name : String}

section

variable (h : key ∉ keys map)

include h

theorem insert_new : insert map key value = map ++ [(key, value)] := by
  induction map with
  | nil => rfl
  | cons entry map ih =>
    simp only [keys, map_cons, mem_cons, not_or] at h
    rw [insert, if_neg (Ne.symm h.1), ih h.2, cons_append]

theorem findIdx_eq_none : (map.findIdx? fun entry => entry.1 = key) = none := by
  rw [findIdx?_eq_none_iff]
  intro entry he
  rw [decide_eq_false_iff_not]
  rintro rfl
  exact h (List.mem_map_of_mem he)

theorem remove_new : remove map key = none := by
  simp [remove, findIdx_eq_none h]

/-- The entry that came last is removed without a change to the others. -/
theorem remove_last : remove (map ++ [(key, value)]) key = some (value, map) := by
  have hi : ((map ++ [(key, value)]).findIdx? fun entry => entry.1 = key) = some map.length := by
    rw [findIdx?_append, findIdx_eq_none h]
    simp
  simp [remove, hi]

end

variable (h : name ∉ keys map)

include h

theorem insert_child_new : insert_child map name value = map ++ [(name, value)] := by
  rw [insert_child, remove_new h]
  exact insert_new value h

theorem insert_child_second {first : Value} (hf : ∀ arr, first ≠ .Array arr) :
    insert_child (map ++ [(name, first)]) name value = map ++ [(name, .Array [first, value])] := by
  rw [insert_child, remove_last first h]
  cases first with
  | Array arr => exact absurd rfl (hf arr)
  | _ => exact insert_new _ h

theorem insert_child_next {arr : List Value} :
    insert_child (map ++ [(name, .Array arr)]) name value =
      map ++ [(name, .Array (arr ++ [value]))] := by
  rw [insert_child, remove_last _ h]
  exact insert_new _ h

end

theorem insert_children_next {map : Map} {name : String} (arr values : List Value)
    (h : name ∉ keys map) :
    values.foldl (fun map value => insert_child map name value) (map ++ [(name, .Array arr)]) =
      map ++ [(name, .Array (arr ++ values))] := by
  induction values generalizing arr with
  | nil => simp
  | cons value values ih =>
    rw [foldl_cons, insert_child_next value h, ih, append_assoc, singleton_append]

theorem insert_children {map : Map} {name : String} {values : List Value} (h : name ∉ keys map)
    (hlen : 2 ≤ values.length) (hv : ∀ v ∈ values, ∀ arr, v ≠ .Array arr) :
    values.foldl (fun map value => insert_child map name value) map =
      map ++ [(name, .Array values)] := by
  match values, hlen with
  | first :: second :: values, _ =>
    rw [foldl_cons, insert_child_new first h, foldl_cons,
      insert_child_second second h (hv first (by simp)), insert_children_next _ _ h]
    rfl

/-! ## Texts -/

variable {q : QuickXml} {max_depth : Nat}

theorem events_append (a b : List Markup) : events (a ++ b) = events a ++ events b := by
  simp [events]

theorem read_ok {s s' : Loop} {event : Event} (rest : List (Except (Nat × String) Event))
    (h : step q max_depth s event = .ok s') :
    read_loop q max_depth s (.ok event :: rest) = read_loop q max_depth s' rest := by
  rw [read_loop, h]

variable {s : List Char} {c : Char} {t : Texts} {room : Nat} {v : Value} {run : List Char}
  {p : Char → Bool}

theorem mem_of_mem_trim_xml (h : c ∈ trim_xml s) : c ∈ s := by
  unfold trim_xml at h
  have h := (dropWhile_sublist is_xml_space).subset (mem_reverse.mp h)
  exact (dropWhile_sublist is_xml_space).subset (mem_reverse.mp h)

theorem read_flush (hq : q.Documented) (hr : ∀ c ∈ run, entity c = none) (node : XmlNode)
    (stack : List XmlNode) (g : Bool) (r : Option Value)
    (rest : List (Except (Nat × String) Event)) :
    read_loop q max_depth ⟨node :: stack, g, r⟩ (events (flush run) ++ rest) =
      read_loop q max_depth
        ⟨{ node with text := node.text ++ trim_xml run } :: stack, g, r⟩ rest := by
  have hp : '&' ∉ trim_xml run := by
    intro hm
    cases hr '&' (mem_of_mem_trim_xml hm)
  by_cases ht : (trim_xml run).isEmpty = true
  · have hn : events (flush run) = [] := by
      unfold flush
      split
      · rfl
      · simp [events, Markup.event, ht]
    rw [hn, List.isEmpty_iff.mp ht, append_nil]
    rfl
  · have hs : events (flush run) = [.ok (.Text (trim_xml run))] := by
      have hne : run.isEmpty = false := by
        rw [isEmpty_eq_false_iff]
        rintro rfl
        exact ht rfl
      simp [flush, hne, events, Markup.event, ht]
    rw [hs, singleton_append]
    apply read_ok
    simp [step, hq.unescape_plain _ hp, Loop.push_text]

theorem read_text (hq : q.Documented) (s : List Char) (hru : ∀ c ∈ run, entity c = none)
    (node : XmlNode) (stack : List XmlNode) (g : Bool) (r : Option Value)
    (rest : List (Except (Nat × String) Event)) :
    read_loop q max_depth ⟨node :: stack, g, r⟩ (events (text_pieces run s) ++ rest) =
      read_loop q max_depth ⟨{ node with text := node.text ++ squeeze_from run s } :: stack, g, r⟩
        rest := by
  induction s generalizing run node with
  | nil => exact read_flush hq hru node stack g r rest
  | cons c s ih =>
    rw [text_pieces, squeeze_from]
    cases he : entity c with
    | none =>
      apply ih
      intro d hd
      rcases mem_append.mp hd with hd | hd
      · exact hru d hd
      · rw [mem_singleton.mp hd]
        exact he
    | some name =>
      have hr : events (.reference name :: text_pieces [] s) =
          .ok (.GeneralRef name) :: events (text_pieces [] s) := rfl
      have hs : step q max_depth
          ⟨{ node with text := node.text ++ trim_xml run } :: stack, g, r⟩ (.GeneralRef name) =
          .ok ⟨{ node with text := node.text ++ trim_xml run ++ [c] } :: stack, g, r⟩ := by
        simp only [step, hq.unescape_entity c name he, Loop.push_text]
      simp only [events_append, append_assoc, hr]
      rw [read_flush hq hru, cons_append, read_ok _ hs, ih (by simp)]
      simp

/-! ## The ends of a text -/

theorem dropWhile_eq_self : s.dropWhile p = s ↔ ∀ c ∈ s.head?, p c = false := by
  cases s with
  | nil => simp
  | cons c s =>
    rw [dropWhile_cons]
    split
    · rename_i hc
      constructor
      · intro h
        have hlen := (dropWhile_sublist (l := s) p).length_le
        rw [h, length_cons] at hlen
        omega
      · intro h
        have := h c (by simp)
        rw [hc] at this
        cases this
    · rename_i hc
      simpa using hc

theorem trim_eq_self :
    ((s.dropWhile p).reverse.dropWhile p).reverse = s ↔
      (∀ c ∈ s.head?, p c = false) ∧ ∀ c ∈ s.getLast?, p c = false := by
  have hlast : (∀ c ∈ s.getLast?, p c = false) ↔ s.reverse.dropWhile p = s.reverse := by
    rw [dropWhile_eq_self, head?_reverse]
  rw [hlast, ← dropWhile_eq_self]
  constructor
  · intro h
    have hlen := congrArg List.length h
    rw [length_reverse] at hlen
    have hle := (dropWhile_sublist (l := (s.dropWhile p).reverse) p).length_le
    rw [length_reverse] at hle
    have hs : s.dropWhile p <:+ s := List.dropWhile_suffix p
    have hf : s.dropWhile p = s := hs.eq_of_length_le (by omega)
    rw [hf] at h
    refine ⟨hf, ?_⟩
    rw [reverse_eq_iff] at h
    exact h
  · rintro ⟨hf, hr⟩
    rw [hf, hr, reverse_reverse]

theorem trim_xml_eq_self :
    trim_xml s = s ↔
      (∀ c ∈ s.head?, is_xml_space c = false) ∧ ∀ c ∈ s.getLast?, is_xml_space c = false :=
  trim_eq_self

theorem whitespace_of_xml_space (h : is_xml_space c = true) : is_whitespace c = true := by
  simp only [is_xml_space, Bool.or_eq_true, decide_eq_true_eq] at h
  rcases h with ((rfl | rfl) | rfl) | rfl <;> decide

theorem not_space_of_not_whitespace (h : is_whitespace c = false) : is_xml_space c = false := by
  rw [← Bool.not_eq_true]
  intro hs
  rw [whitespace_of_xml_space hs] at h
  cases h

theorem normal_text_iff :
    normal_text s = true ↔ s ≠ [] ∧ (∀ c ∈ s.head?, is_whitespace c = false) ∧
      ∀ c ∈ s.getLast?, is_whitespace c = false := by
  simp only [normal_text, Bool.and_eq_true, Bool.not_eq_true', isEmpty_eq_false_iff,
    decide_eq_true_eq]
  exact and_congr_right fun _ => trim_eq_self

theorem trim_xml_head (h : is_xml_space c = false) : (trim_xml (c :: s)).head? = some c := by
  have hd : (c :: s).dropWhile is_xml_space = c :: s := by simp [h]
  rw [trim_xml, hd, head?_reverse, reverse_cons, dropWhile_append]
  split
  · simp [h]
  · simp

theorem trim_xml_last (h : is_xml_space c = false) : (trim_xml (s ++ [c])).getLast? = some c := by
  have hd : ∃ x, (s ++ [c]).dropWhile is_xml_space = x ++ [c] := by
    rw [dropWhile_append]
    split
    · exact ⟨[], by simp [h]⟩
    · exact ⟨_, rfl⟩
  obtain ⟨x, hx⟩ := hd
  rw [trim_xml, hx, reverse_append, reverse_singleton, singleton_append, dropWhile_cons, h]
  simp

theorem squeeze_head (h : (run ++ s).head? = some c) (hc : is_xml_space c = false) :
    (squeeze_from run s).head? = some c := by
  induction s generalizing run with
  | nil =>
    rw [append_nil] at h
    obtain ⟨rest, rfl⟩ := head?_eq_some_iff.mp h
    exact trim_xml_head hc
  | cons d s ih =>
    rw [squeeze_from]
    cases he : entity d with
    | none => exact ih (by simpa using h)
    | some name =>
      cases run with
      | nil => exact h
      | cons e run =>
        obtain rfl : e = c := by simpa using h
        simp [trim_xml_head hc]

theorem squeeze_last (h : (run ++ s).getLast? = some c) (hc : is_xml_space c = false) :
    (squeeze_from run s).getLast? = some c := by
  induction s generalizing run with
  | nil =>
    rw [append_nil] at h
    obtain ⟨rest, rfl⟩ := getLast?_eq_some_iff.mp h
    exact trim_xml_last hc
  | cons d s ih =>
    rw [squeeze_from]
    cases he : entity d with
    | none => exact ih (by simpa using h)
    | some name =>
      simp only
      cases s with
      | nil =>
        have hd : d = c := by simpa using h
        simp [squeeze_from, trim_xml, hd]
      | cons e s =>
        have hr : (squeeze_from [] (e :: s)).getLast? = some c := ih (by simpa using h)
        rw [getLast?_append, getLast?_cons, hr]
        simp

theorem squeeze_normal (h : normal_text s = true) : normal_text (squeeze_from [] s) = true := by
  obtain ⟨hn, hh, hlast⟩ := normal_text_iff.mp h
  obtain ⟨c, hc⟩ : ∃ c, s.head? = some c := by
    obtain ⟨c, s, rfl⟩ := exists_cons_of_ne_nil hn
    exact ⟨c, rfl⟩
  obtain ⟨d, hd⟩ : ∃ d, s.getLast? = some d := by
    rw [getLast?_eq_some_getLast hn]
    exact ⟨_, rfl⟩
  have hch : (squeeze_from [] s).head? = some c :=
    squeeze_head hc (not_space_of_not_whitespace (hh c hc))
  have hdl : (squeeze_from [] s).getLast? = some d :=
    squeeze_last hd (not_space_of_not_whitespace (hlast d hd))
  rw [normal_text_iff, hch, hdl]
  refine ⟨?_, ?_, ?_⟩
  · intro hnil
    rw [hnil] at hch
    cases hch
  · rintro e ⟨⟩
    exact hh c hc
  · rintro e ⟨⟩
    exact hlast d hd

theorem build_string (name : String) {text : List Char} (h : normal_text text = true) :
    build_node_value ⟨name, [], [], text⟩ = .String (String.ofList text) := by
  simp only [normal_text, Bool.and_eq_true, Bool.not_eq_true', decide_eq_true_eq] at h
  simp [build_node_value, h.2, h.1]

/-! ## Elements -/

theorem parse_attrs_into_eq (hq : q.Documented) (attrs : List (List Char × List Char)) (map : Map) :
    parse_attrs_into q map ((attrs.map fun (name, value) =>
        (⟨name, escape_xml_text value⟩ : Attribute)).map .ok) = .ok (attrs_read map attrs) := by
  induction attrs generalizing map with
  | nil => rfl
  | cons attr attrs ih =>
    obtain ⟨name, value⟩ := attr
    rw [map_cons, map_cons, parse_attrs_into, attrs_read]
    cases hn : is_namespace name with
    | true =>
      simp only [if_true]
      exact ih map
    | false =>
      simp only [hq.normalized]
      exact ih _

theorem local_name_plain {name : List Char} (h : ':' ∉ name) : local_name name = name := by
  have hd : name.dropWhile (· ≠ ':') = [] := by
    rw [dropWhile_eq_nil_iff]
    intro c hc
    rw [decide_eq_true_eq]
    rintro rfl
    exact h hc
  rw [local_name, hd]

theorem build_empty (name : String) (attrs : Map) :
    build_node_value ⟨name, attrs, [], []⟩ = if attrs.isEmpty then .Null else .Object attrs := by
  have ht : trim [] = [] := rfl
  cases attrs with
  | nil => rfl
  | cons entry attrs => simp [build_node_value, ht]

theorem read_element (hq : q.Documented) {tag : String} (ht : ':' ∉ tag.toList)
    (attrs : List (List Char × List Char)) {content : List Markup} {children : Map}
    {text : List Char} {s : Loop} (rest : List (Except (Nat × String) Event))
    (hr : s.result = none) (hem : content = [] → children = [] ∧ text = [])
    (hro : content ≠ [] → s.stack.length < max_depth)
    (hc : content ≠ [] → ∀ rest, read_loop q max_depth
        ⟨⟨tag, attrs_read [] attrs, [], []⟩ :: s.stack, true, none⟩ (events content ++ rest) =
      read_loop q max_depth
        ⟨⟨tag, attrs_read [] attrs, children, text⟩ :: s.stack, true, none⟩ rest) :
    read_loop q max_depth s (events (element tag.toList (attrs.map fun (name, value) =>
        ⟨name, escape_xml_text value⟩) content) ++ rest) =
      read_loop q max_depth ({ s with got_root := true }.place tag
        (build_node_value ⟨"", attrs_read [] attrs, children, text⟩)) rest := by
  have ha := parse_attrs_into_eq hq attrs []
  by_cases hnil : content = []
  · obtain ⟨rfl, rfl⟩ := hem hnil
    subst hnil
    apply read_ok
    simp only [step, hr, parse_attrs, ha, local_name_plain ht, String.ofList_toList]
    rw [build_empty]
    rfl
  · have he : events (element tag.toList (attrs.map fun (name, value) =>
        ⟨name, escape_xml_text value⟩) content) ++ rest =
        .ok (.Start ⟨tag.toList, (attrs.map fun (name, value) =>
          (⟨name, escape_xml_text value⟩ : Attribute)).map .ok⟩) ::
          (events content ++ (.ok .End :: rest)) := by
      unfold element
      rw [if_neg (by simpa using hnil)]
      simp [events, Markup.event]
    have hs : step q max_depth s (.Start ⟨tag.toList, (attrs.map fun (name, value) =>
          (⟨name, escape_xml_text value⟩ : Attribute)).map .ok⟩) =
        .ok ⟨⟨tag, attrs_read [] attrs, [], []⟩ :: s.stack, true, none⟩ := by
      simp only [step, hr, parse_attrs, ha, local_name_plain ht, String.ofList_toList]
      have := hro hnil
      simp [show ¬ max_depth ≤ s.stack.length by omega]
      rfl
    rw [he, read_ok _ hs, hc hnil]
    apply read_ok
    simp only [step]
    rw [← hr]
    rfl

theorem normal_node_single (h : normal_node t room true v = true) (hv : ∀ items, v ≠ .Array items) :
    normal_node t room false v = true := by
  cases v with
  | Array items => exact absurd rfl (hv items)
  | _ => exact h

theorem build_not_array (node : XmlNode) (items : List Value) :
    build_node_value node ≠ .Array items := by
  unfold build_node_value
  dsimp only
  split_ifs <;> simp

theorem reread_not_array (h : normal_node t room false v = true) (items : List Value) :
    reread v ≠ .Array items := by
  cases v with
  | Array items' => simp [normal_node] at h
  | Object map =>
    rw [reread]
    exact build_not_array _ _
  | _ => simp [reread]

theorem reread_items_eq (items : List Value) : reread_items items = items.map reread := by
  induction items with
  | nil => rw [reread_items, map_nil]
  | cons item items ih => rw [reread_items, map_cons, ih]

theorem normal_items_mem {items : List Value} (h : normal_items t room items = true) :
    ∀ item ∈ items, normal_node t room false item = true := by
  induction items with
  | nil => simp
  | cons item items ih =>
    simp only [normal_items, Bool.and_eq_true] at h
    intro v hv
    rcases mem_cons.mp hv with rfl | hv
    · exact h.1
    · exact ih h.2 v hv

theorem keys_append (a b : Map) : keys (a ++ b) = keys a ++ keys b := by
  simp [keys]

theorem entry_text_normal {map : Map} {text : List Char} (h : normal_entries t room map = true)
    (ht : text = [] ∨ normal_text text = true) :
    entry_text text map = [] ∨ normal_text (entry_text text map) = true := by
  induction map generalizing text with
  | nil => exact ht
  | cons entry map ih =>
    obtain ⟨key, val⟩ := entry
    obtain ⟨hr, he⟩ := normal_entries_cons h
    rw [entry_text]
    rcases he with ⟨name, s, -, -, -, hn, -⟩ | ⟨s, rfl, rfl, hs⟩ | ⟨-, -, hn, -⟩
    · rw [if_neg hn]
      exact ih hr ht
    · rw [if_pos rfl]
      exact ih hr (.inr hs)
    · rw [if_neg hn]
      exact ih hr ht

theorem element_ne_nil (tag : List Char) (attrs : List Attribute) (content : List Markup) :
    element tag attrs content ≠ [] := by
  unfold element
  split <;> simp

theorem node_markup_ne_nil {row : Bool} (tag : List Char) (h : normal_node t room row v = true) :
    node_markup tag v ≠ [] := by
  have hs : ∀ v, normal_node t room false v = true → node_markup tag v ≠ [] := by
    intro v h
    cases v with
    | Null | String _ | Object _ =>
      rw [node_markup]
      exact element_ne_nil _ _ _
    | Array _ | Bool _ | Number _ => simp [normal_node] at h
  cases v with
  | Array items =>
    simp only [normal_node, Bool.and_eq_true, decide_eq_true_eq] at h
    cases items with
    | nil => simp at h
    | cons item items =>
      rw [node_markup, items_markup]
      have := hs item (normal_items_mem h.2 item (by simp))
      simp [this]
  | _ => exact hs _ h

theorem reread_entries_nil {map : Map} (h : normal_entries t room map = true)
    (hnil : entries_markup map = []) : reread_entries map = [] := by
  induction map with
  | nil => rw [reread_entries]
  | cons entry map ih =>
    obtain ⟨key, val⟩ := entry
    obtain ⟨hr, he⟩ := normal_entries_cons h
    rw [entries_markup] at hnil
    rw [reread_entries]
    rcases he with ⟨name, s, -, -, hnot, -⟩ | ⟨s, rfl, -⟩ | ⟨hel, -, -, -, hn⟩
    · rw [hnot] at hnil ⊢
      exact ih hr hnil
    · rw [text_key.1] at hnil ⊢
      exact ih hr hnil
    · rw [if_pos hel] at hnil
      exact absurd (append_eq_nil_iff.mp hnil).1 (node_markup_ne_nil _ hn)

theorem attributes_only {map : Map} (text : List Char)
    (h : ∀ entry ∈ map, is_attribute_key entry.1 = true) :
    entry_text text map = text ∧ entries_markup map = [] := by
  induction map with
  | nil => exact ⟨by rw [entry_text], by rw [entries_markup]⟩
  | cons entry map ih =>
    obtain ⟨key, val⟩ := entry
    have hk : is_attribute_key key = true := h (key, val) (by simp)
    have hr := ih fun entry he => h entry (.tail _ he)
    rw [entry_text, entries_markup]
    rcases key_cases key with ⟨name, -, -, hnot, hn⟩ | rfl | ⟨-, hnot, -⟩
    · rw [if_neg hn, hnot]
      exact hr
    · exact absurd hk (by decide)
    · rw [hnot] at hk
      cases hk

theorem text_pieces_ne_nil (h : normal_text s = true) : text_pieces [] s ≠ [] := by
  intro hnil
  have hr := render_text_pieces [] s
  rw [hnil] at hr
  exact (normal_text_iff.mp h).1 (escape_eq_nil.mp hr.symm)

mutual
theorem read_node (hq : q.Documented) (t : Texts) : ∀ (v : Value) (room : Nat) (tag : String)
    (s : Loop) (rest : List (Except (Nat × String) Event)), normal_node t room false v = true →
    is_element_name t tag = true → s.result = none → s.stack.length + room ≤ max_depth →
    read_loop q max_depth s (events (node_markup tag.toList v) ++ rest) =
      read_loop q max_depth ({ s with got_root := true }.place tag (reread v)) rest
  | .Null, room, tag, s, rest, h, hta, hr, hro => by
    have hc : ':' ∉ tag.toList := by
      simpa [is_element_name] using (Bool.and_eq_true_iff.mp hta).2
    rw [node_markup, reread]
    exact read_element hq hc [] rest hr (fun _ => ⟨rfl, rfl⟩) (by simp) (by simp)
  | .String text, room, tag, s, rest, h, hta, hr, hro => by
    have hc : ':' ∉ tag.toList := by
      simpa [is_element_name] using (Bool.and_eq_true_iff.mp hta).2
    simp only [normal_node, Bool.and_eq_true, decide_eq_true_eq] at h
    rw [node_markup, reread, ← build_string "" (squeeze_normal h.2)]
    apply read_element hq hc [] rest hr
    · intro hnil
      exact absurd hnil (text_pieces_ne_nil h.2)
    · intro _
      omega
    · intro _ rest
      exact read_text hq text.toList (by simp) _ _ _ _ rest
  | .Array items, room, tag, s, rest, h, hta, hr, hro => by
    simp [normal_node] at h
  | .Object map, room, tag, s, rest, h, hta, hr, hro => by
    have hc : ':' ∉ tag.toList := by
      simpa [is_element_name] using (Bool.and_eq_true_iff.mp hta).2
    obtain ⟨hk, he, -, hd⟩ := normal_object h
    have ho : text_pieces [] (entry_text [] map) ++ entries_markup map ≠ [] → room ≠ 0 := by
      intro hne
      refine hd.resolve_right fun ha => ?_
      obtain ⟨ht, hch⟩ := attributes_only [] ha
      rw [ht, hch] at hne
      exact hne rfl
    rw [node_markup, reread]
    apply read_element hq hc (string_attrs map) rest hr
    · intro hnil
      obtain ⟨ht, hch⟩ := append_eq_nil_iff.mp hnil
      refine ⟨reread_entries_nil he hch, ?_⟩
      rcases entry_text_normal he (.inl rfl) with hn | hs
      · rw [hn]
        rfl
      · exact absurd ht (text_pieces_ne_nil hs)
    · intro hne
      have := ho hne
      omega
    · intro hne rest
      have := ho hne
      rw [events_append, append_assoc, read_text hq _ (by simp)]
      exact read_entries hq t map (room - 1) _ s.stack rest he (by simpa [keys] using hk) (by omega)
  | .Bool _, _, _, _, _, h, _, _, _ | .Number _, _, _, _, _, h, _, _, _ => by cases h
theorem read_items (hq : q.Documented) (t : Texts) : ∀ (items : List Value) (room : Nat)
    (tag : String) (parent : XmlNode) (stack : List XmlNode)
    (rest : List (Except (Nat × String) Event)), normal_items t room items = true →
    is_element_name t tag = true → stack.length + 1 + room ≤ max_depth →
    read_loop q max_depth ⟨parent :: stack, true, none⟩
        (events (items_markup tag.toList items) ++ rest) =
      read_loop q max_depth ⟨⟨parent.name, parent.attrs, (reread_items items).foldl
        (fun map value => insert_child map tag value) parent.children, parent.text⟩ :: stack,
        true, none⟩ rest
  | [], room, tag, parent, stack, rest, h, ht, hr => by
    rw [items_markup, reread_items]
    rfl
  | item :: items, room, tag, parent, stack, rest, h, ht, hr => by
    simp only [normal_items, Bool.and_eq_true] at h
    rw [items_markup, reread_items, events_append, append_assoc,
      read_node hq t item room tag _ _ h.1 ht rfl (by simpa using hr)]
    exact read_items hq t items room tag _ stack rest h.2 ht hr
theorem read_entries (hq : q.Documented) (t : Texts) : ∀ (map : Map) (room : Nat)
    (parent : XmlNode) (stack : List XmlNode) (rest : List (Except (Nat × String) Event)),
    normal_entries t room map = true → (keys parent.children ++ keys map).Nodup →
    stack.length + 1 + room ≤ max_depth →
    read_loop q max_depth ⟨parent :: stack, true, none⟩ (events (entries_markup map) ++ rest) =
      read_loop q max_depth
        ⟨⟨parent.name, parent.attrs, parent.children ++ reread_entries map, parent.text⟩ :: stack,
          true, none⟩ rest
  | [], room, parent, stack, rest, h, hk, hr => by
    rw [entries_markup, reread_entries, append_nil]
    rfl
  | (key, val) :: map, room, parent, stack, rest, h, hk, hr => by
    obtain ⟨hre, he⟩ := normal_entries_cons h
    have hnew : key ∉ keys parent.children := by
      intro hm
      exact (nodup_append.mp hk).2.2 key hm key (by simp [keys]) rfl
    have hsk : (keys parent.children ++ keys map).Nodup := by
      have hc : keys ((key, val) :: map) = key :: keys map := rfl
      rw [hc] at hk
      exact hk.sublist (List.Sublist.append_left (sublist_cons_self _ _) _)
    have hne : (keys (parent.children ++ [(key, reread val)]) ++ keys map).Nodup := by
      rw [keys_append, append_assoc]
      exact hk
    rw [entries_markup, reread_entries]
    rcases he with ⟨name, s, -, -, hnot, -⟩ | ⟨s, rfl, -⟩ | ⟨hel, -, -, hna, hn⟩
    · rw [hnot]
      exact read_entries hq t map room parent stack rest hre hsk hr
    · rw [text_key.1]
      exact read_entries hq t map room parent stack rest hre hsk hr
    · rw [hel, if_pos rfl, if_pos rfl, events_append, append_assoc]
      have hs : (∀ items, val ≠ .Array items) →
          read_loop q max_depth ⟨parent :: stack, true, none⟩
              (events (node_markup key.toList val) ++ (events (entries_markup map) ++ rest)) =
            read_loop q max_depth ⟨⟨parent.name, parent.attrs,
              parent.children ++ (key, reread val) :: reread_entries map, parent.text⟩ :: stack,
              true, none⟩ rest := by
        intro hval
        rw [read_node hq t val room key _ _ (normal_node_single hn hval) hna rfl
          (by simpa using hr)]
        simp only [Loop.place, insert_child_new _ hnew]
        rw [read_entries hq t map room _ stack rest hre hne hr]
        simp only [append_assoc, singleton_append]
      cases val with
      | Array items =>
        simp only [normal_node, Bool.and_eq_true, decide_eq_true_eq] at hn
        have hva : ∀ v ∈ reread_items items, ∀ arr, v ≠ .Array arr := by
          rw [reread_items_eq]
          intro v hv
          obtain ⟨item, hi, rfl⟩ := List.mem_map.mp hv
          exact reread_not_array (normal_items_mem hn.2 item hi)
        have hlen : 2 ≤ (reread_items items).length := by
          rw [reread_items_eq, length_map]
          exact hn.1.2
        rw [node_markup, read_items hq t items room key parent stack _ hn.2 hna hr,
          insert_children hnew hlen hva]
        rw [reread] at hne ⊢
        rw [read_entries hq t map room _ stack rest hre hne hr]
        simp only [append_assoc, singleton_append]
      | _ => exact hs (by simp)
end

theorem xml_to_json_normal {root : String} {node : Value} (hq : q.Documented)
    (h : normal_form t (.Object [(root, node)]) = true) :
    xml_to_json q (String.ofList (render (node_markup root.toList node))) =
      .ok (.Object [(root, reread node)]) := by
  have hd := (json_to_xml_normal h).2
  simp only [normal_form, Bool.and_eq_true] at h
  have hr := read_node hq t node DEFAULT_MAX_XML_DEPTH root ⟨[], false, none⟩ [] h.2 h.1.2 rfl
    (Nat.le_of_eq (Nat.zero_add _))
  rw [append_nil] at hr
  rw [xml_to_json, xml_to_json_with_depth_limit, String.toList_ofList, hq.reads _ hd, hr]
  rfl

end camel_api.xml_convert
