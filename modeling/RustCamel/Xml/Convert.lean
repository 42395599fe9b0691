-- The conversion between XML and JSON in `camel-api/src/xml_convert.rs`. The XML reader is
-- `quick-xml` and stands as a parameter, and so does what `serde_json` prints.
import RustCamel.Api.Exchange

namespace camel_api.xml_convert

/-! ## Maps -/

/-- The entries of an object in the order in which they came. -/
abbrev Map := List (String × Value)

/-- `Map::insert`: a key that is there keeps its place. -/
def insert : Map → String → Value → Map
  | [], key, value => [(key, value)]
  | entry :: map, key, value =>
    if entry.1 = key then (key, value) :: map else entry :: insert map key value

/-- `Map::remove`: the last entry takes the place of the removed one. -/
def remove (map : Map) (key : String) : Option (Value × Map) := do
  let i ← map.findIdx? fun entry => entry.1 = key
  let entry ← map[i]?
  let last ← map.getLast?
  some (entry.2, (map.set i last).dropLast)

def insert_child (map : Map) (name : String) (value : Value) : Map :=
  match remove map name with
  | none => insert map name value
  | some (.Array arr, map) => insert map name (.Array (arr ++ [value]))
  | some (existing, map) => insert map name (.Array [existing, value])

def single_entry_map (key : String) (value : Value) : Map := insert [] key value

/-! ## The reader -/

structure Attribute where
  key : List Char
  value : List Char

/-- A tag. An attribute that does not parse stands as the text of its error. -/
structure BytesStart where
  name : List Char
  attributes : List (Except String Attribute)

inductive Event where
  | Start (tag : BytesStart)
  | Empty (tag : BytesStart)
  | End
  | Text (raw : List Char)
  | CData (text : List Char)
  | GeneralRef (name : List Char)
  -- A comment, a declaration, a processing instruction or a document type.
  | Other

/-- `quick-xml`: the events of a text up to its end, read with `trim_text` (an error stands with
its position), the text of an escaped text, and the value of an attribute. -/
structure QuickXml where
  read_events : List Char → List (Except (Nat × String) Event)
  unescape : List Char → Except String (List Char)
  normalized_value : List Char → Except String (List Char)

/-- The part of a name behind its first colon. -/
def local_name (name : List Char) : List Char :=
  match name.dropWhile (· ≠ ':') with
  | [] => name
  | _ :: rest => rest

/-! ## From XML to JSON -/

def DEFAULT_MAX_XML_DEPTH : Nat := 100

structure XmlNode where
  name : String
  attrs : Map
  children : Map
  text : List Char

def failed {α : Type} (message : String) : Except error.CamelError α :=
  .error (.TypeConversionFailed message)

/-- An attribute that declares a namespace. -/
def is_namespace (full_name : List Char) : Bool :=
  full_name = "xmlns".toList || "xmlns:".toList.isPrefixOf full_name

def parse_attrs_into (q : QuickXml) (map : Map) :
    List (Except String Attribute) → Except error.CamelError Map
  | [] => .ok map
  | .error err :: _ => failed s!"cannot parse attribute: {err}"
  | .ok attr :: rest =>
    if is_namespace attr.key then parse_attrs_into q map rest
    else
      match q.normalized_value attr.value with
      | .error err => failed s!"cannot unescape attribute value: {err}"
      | .ok val =>
        let key := String.ofList ('@' :: local_name attr.key)
        parse_attrs_into q (insert map key (.String (String.ofList val))) rest

def parse_attrs (q : QuickXml) (e : BytesStart) : Except error.CamelError Map :=
  parse_attrs_into q [] e.attributes

def build_node_value (node : XmlNode) : Value :=
  let has_attrs := !node.attrs.isEmpty
  let has_children := !node.children.isEmpty
  let trimmed := trim node.text
  let with_text (map : Map) : Map :=
    if trimmed.isEmpty then map else insert map "#text" (.String (String.ofList trimmed))
  if has_children then
    .Object (node.children.foldl (fun map (k, v) => insert_child map k v) (with_text node.attrs))
  else if has_attrs then .Object (with_text node.attrs)
  else if trimmed.isEmpty then .Null
  else .String (String.ofList trimmed)

/-- The loop's variables. The innermost open element comes first. -/
structure Loop where
  stack : List XmlNode
  got_root : Bool
  result : Option Value

/-- A value becomes a child of the innermost open element, or else the result. -/
def Loop.place (s : Loop) (name : String) (value : Value) : Loop :=
  match s.stack with
  | parent :: stack =>
    { s with stack := { parent with children := insert_child parent.children name value } :: stack }
  | [] => { s with result := some (.Object (single_entry_map name value)) }

def Loop.push_text (s : Loop) (text : List Char) : Loop :=
  match s.stack with
  | node :: stack => { s with stack := { node with text := node.text ++ text } :: stack }
  | [] => s

/-- One event of the loop in `xml_to_json_with_depth_limit`. -/
def step (q : QuickXml) (max_depth : Nat) (s : Loop) : Event → Except error.CamelError Loop
  | .Start e =>
    if s.result.isSome then failed "multiple root elements found"
    else do
      let name := String.ofList (local_name e.name)
      let attrs ← parse_attrs q e
      if max_depth ≤ s.stack.length then failed s!"XML nesting depth exceeds limit of {max_depth}"
      else .ok { s with got_root := true, stack := ⟨name, attrs, [], []⟩ :: s.stack }
  | .Empty e =>
    if s.result.isSome then failed "multiple root elements found"
    else do
      let name := String.ofList (local_name e.name)
      let attrs ← parse_attrs q e
      let value := if attrs.isEmpty then Value.Null else .Object attrs
      .ok ({ s with got_root := true }.place name value)
  | .Text raw =>
    match q.unescape raw with
    | .error err => failed s!"cannot unescape XML text: {err}"
    | .ok text => .ok (s.push_text text)
  | .GeneralRef ref_name =>
    match q.unescape ('&' :: ref_name ++ [';']) with
    | .error err => failed s!"cannot unescape XML ref &{String.ofList ref_name};: {err}"
    | .ok text => .ok (s.push_text text)
  | .CData text => .ok (s.push_text text)
  | .End =>
    match s.stack with
    | [] => failed "unexpected closing tag"
    | node :: stack => .ok ({ s with stack := stack }.place node.name (build_node_value node))
  | .Other => .ok s

def read_loop (q : QuickXml) (max_depth : Nat) (s : Loop) :
    List (Except (Nat × String) Event) → Except error.CamelError Value
  | [] =>
    if !s.got_root then failed "empty XML: no root element found"
    else
      match s.result with
      | some res => .ok res
      | none => failed "unexpected end of XML input"
  | .error (position, err) :: _ => failed s!"invalid XML at position {position}: {err}"
  | .ok event :: rest =>
    match step q max_depth s event with
    | .error err => .error err
    | .ok s => read_loop q max_depth s rest

def xml_to_json_with_depth_limit (q : QuickXml) (input : String) (max_depth : Nat) :
    Except error.CamelError Value :=
  read_loop q max_depth ⟨[], false, none⟩ (q.read_events input.toList)

def xml_to_json (q : QuickXml) (input : String) : Except error.CamelError Value :=
  xml_to_json_with_depth_limit q input DEFAULT_MAX_XML_DEPTH

/-! ## From JSON to XML -/

/-- The letters and digits beyond ASCII, the debug form of a string, and what `serde_json` prints
for a number and for an array or an object. -/
structure Texts where
  alphabetic : Char → Bool
  numeric : Char → Bool
  debug : String → String
  number_to_string : Number → String
  value_to_string : Value → String

def is_alphabetic (t : Texts) (c : Char) : Bool :=
  if c.toNat < 128 then c.isAlpha else t.alphabetic c

def is_alphanumeric (t : Texts) (c : Char) : Bool :=
  is_alphabetic t c || if c.toNat < 128 then c.isDigit else t.numeric c

def is_valid_xml_name (t : Texts) : List Char → Bool
  | [] => false
  | c :: chars =>
    (is_alphabetic t c || c = '_' || c = ':') &&
      chars.all fun c => is_alphanumeric t c || c = '_' || c = '-' || c = '.' || c = ':'

/-- The entity for a character that is escaped. -/
def entity (c : Char) : Option (List Char) :=
  if c = '&' then some ['a', 'm', 'p']
  else if c = '<' then some ['l', 't']
  else if c = '>' then some ['g', 't']
  else if c = '"' then some ['q', 'u', 'o', 't']
  else if c = '\'' then some ['a', 'p', 'o', 's']
  else none

def escape_char (c : Char) : List Char :=
  match entity c with
  | some name => '&' :: name ++ [';']
  | none => [c]

def escape_xml_text (s : List Char) : List Char := s.flatMap escape_char

def value_as_str (t : Texts) : Value → List Char
  | .String s => s.toList
  | .Number n => (t.number_to_string n).toList
  | .Bool b => (toString b).toList
  | .Null => []
  | .Array items => (t.value_to_string (.Array items)).toList
  | .Object map => (t.value_to_string (.Object map)).toList

def open_tag (tag attrs : List Char) : List Char := '<' :: tag ++ attrs ++ ['>']

def empty_tag (tag attrs : List Char) : List Char := '<' :: tag ++ attrs ++ ['/', '>']

def close_tag (tag : List Char) : List Char := '<' :: '/' :: tag ++ ['>']

def attribute_text (name value : List Char) : List Char :=
  ' ' :: name ++ '=' :: '"' :: value ++ ['"']

mutual
def serialize_node (t : Texts) (output : List Char) (tag : String) (value : Value) :
    Except error.CamelError (List Char) :=
  if !is_valid_xml_name t tag.toList then failed s!"invalid XML element name: {t.debug tag}"
  else
    match value with
    | .Null => .ok (output ++ empty_tag tag.toList [])
    | .String s =>
      .ok (output ++ (open_tag tag.toList [] ++ escape_xml_text s.toList ++ close_tag tag.toList))
    | .Number n =>
      .ok (output ++ (open_tag tag.toList [] ++ (t.number_to_string n).toList ++
        close_tag tag.toList))
    | .Bool b =>
      .ok (output ++ (open_tag tag.toList [] ++ (toString b).toList ++ close_tag tag.toList))
    | .Array arr => serialize_items t output tag arr
    | .Object map =>
      match serialize_entries t [] [] [] map with
      | .error err => .error err
      | .ok (attrs, children, text) =>
        if children.isEmpty && text.isEmpty then .ok (output ++ empty_tag tag.toList attrs)
        else
          .ok (output ++ (open_tag tag.toList attrs ++ (text ++ children) ++ close_tag tag.toList))
def serialize_items (t : Texts) (output : List Char) (tag : String) :
    List Value → Except error.CamelError (List Char)
  | [] => .ok output
  | item :: arr =>
    match serialize_node t output tag item with
    | .error err => .error err
    | .ok output => serialize_items t output tag arr
/-- The loop over the entries of an object, with the buffers `attrs`, `children` and `text`. -/
def serialize_entries (t : Texts) (attrs children text : List Char) :
    Map → Except error.CamelError (List Char × List Char × List Char)
  | [] => .ok (attrs, children, text)
  | (key, val) :: map =>
    match key.toList with
    | '@' :: attr_name =>
      if !is_valid_xml_name t attr_name then
        failed s!"invalid XML attribute name: {t.debug (String.ofList attr_name)}"
      else
        let value := escape_xml_text (value_as_str t val)
        serialize_entries t (attrs ++ attribute_text attr_name value) children text map
    | _ =>
      if key = "#text" then
        serialize_entries t attrs children (escape_xml_text (value_as_str t val)) map
      else
        match serialize_node t children key val with
        | .error err => .error err
        | .ok children => serialize_entries t attrs children text map
end

def is_element_key (k : String) : Bool := !(k.toList.head? = some '@') && k ≠ "#text"

def json_to_xml (t : Texts) (value : Value) : Except error.CamelError String :=
  match value with
  | .Object obj =>
    match (obj.map Prod.fst).filter is_element_key with
    | [] => failed "cannot convert to XML: JSON object must contain exactly one root element"
    | [root_key] =>
      if !is_valid_xml_name t root_key.toList then
        failed s!"invalid XML element name: {t.debug root_key}"
      else
        match obj.lookup root_key with
        | some child => (serialize_node t [] root_key child).map String.ofList
        -- The key comes from the object.
        | none => failed "key not found"
    | element_keys =>
      let names := String.intercalate ", " element_keys
      failed (s!"cannot convert to XML: expected exactly one root element, " ++
        s!"found {element_keys.length} ({names})")
  | _ => failed "cannot convert to XML: top-level value must be a JSON object"

end camel_api.xml_convert
