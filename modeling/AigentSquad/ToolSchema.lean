import AigentSquad.Dict
import AigentSquad.Effects

/-!
# Tool schemas and tool names

`core/tool_schema.py`: the name map of one adapter and the normaliser from an
MCP `inputSchema` to the Converse dialect. A schema walk follows the value; only
reference hops and nesting levels are counted.
-/

set_option autoImplicit false

namespace AigentSquad.ToolSchema
open AigentSquad.PyText AigentSquad.PyJson AigentSquad.Dict AigentSquad.Effects

structure ToolNameMap where
  to_server : Entries Str Str
  to_converse : Entries Str Str
deriving DecidableEq

def ToolNameMap.empty : ToolNameMap := ⟨[], []⟩

/-- `name.replace("-", "_")` -/
def underscored (name : Str) : Str := name.map (fun c => if c = '-' then '_' else c)

/-- `name.replace("_", "-")` -/
def hyphened (name : Str) : Str := name.map (fun c => if c = '_' then '-' else c)

def suffixed (converse_name : Str) (suffix : Nat) : Str := converse_name ++ '_' :: strNat suffix

def clashes (m : ToolNameMap) (converse_name server_name : Str) : Bool :=
  match get m.to_server converse_name with
  | some other => other ≠ server_name
  | none => false

/-- The name `register` picks; the suffix search ends within the size of the map. -/
def registered_name (m : ToolNameMap) (server_name : Str) : Str :=
  let converse_name := underscored server_name
  if clashes m converse_name server_name then
    suffixed converse_name
      (freeFrom m.to_server (suffixed converse_name) m.to_server.length 1)
  else converse_name

def register (m : ToolNameMap) (server_name : Str) : Str × ToolNameMap :=
  let converse_name := registered_name m server_name
  (converse_name, ⟨put m.to_server converse_name server_name,
    put m.to_converse server_name converse_name⟩)

def to_server_name (m : ToolNameMap) (converse_name : Str) : Option Str :=
  get m.to_server converse_name

theorem suffixed_injective (name : Str) (i j : Nat) (h : suffixed name i = suffixed name j) :
    i = j := by
  have htail : strNat i = strNat j := by simpa [suffixed] using h
  exact strNat_injective i j htail

/-- A registered name belongs to nobody else. -/
theorem registered_name_free (m : ToolNameMap) (server_name other : Str)
    (h : get m.to_server (registered_name m server_name) = some other) : other = server_name := by
  unfold registered_name at h
  by_cases hc : clashes m (underscored server_name) server_name = true
  · rw [if_pos hc] at h
    have hfree := freeFrom_free m.to_server (suffixed (underscored server_name))
      (suffixed_injective _) 1
    have hhas := (has_iff_get m.to_server _).mpr ⟨other, h⟩
    exact absurd hhas (by simp [hfree])
  · rw [if_neg hc] at h
    simpa [clashes, h] using hc

@[simp] theorem register_own (m : ToolNameMap) (server_name : Str) :
    to_server_name (register m server_name).2 (register m server_name).1 = some server_name :=
  get_put_same _ _ _

theorem register_keeps (m : ToolNameMap) (server_name name tool : Str)
    (h : to_server_name m name = some tool) :
    to_server_name (register m server_name).2 name = some tool := by
  by_cases hname : name = registered_name m server_name
  · subst hname
    have htool := registered_name_free m server_name tool h
    rw [htool]
    exact get_put_same _ _ _
  · exact (get_put_other _ _ _ _ hname).trans h

def MAX_NESTING_DEPTH : Nat := 4

def generic_object : Json := .obj [("type".toList, .str "object".toList)]

def permissive_object : Json :=
  .obj [("type".toList, .str "object".toList), ("properties".toList, .obj [])]

def reference_prefixes : List Str := ["#/$defs/".toList, "#/definitions/".toList]

/-- The definition a local reference names. -/
def definition (defs : Entries Str Json) (ref_path : Str) : Option Json :=
  reference_prefixes.findSome? (fun p =>
    if startswith ref_path p then get defs (ref_path.drop p.length) else none)

mutual

/-- One pass of `_resolve_refs`; `follow` is what a `$ref` becomes. -/
def inline (follow : Json → Except Exn Json) : Json → Except Exn Json
  | .obj pairs =>
    match Json.get pairs "$ref".toList with
    | some ref_path => follow ref_path
    | none => (inlinePairs follow pairs).map Json.obj
  | schema => .ok schema

def inlinePairs (follow : Json → Except Exn Json) :
    List (Str × Json) → Except Exn (List (Str × Json))
  | [] => .ok []
  | (key, value) :: pairs =>
    if key ∈ ["$defs".toList, "definitions".toList] then inlinePairs follow pairs
    else do
      let value ←
        if key = "properties".toList then inlineProperties follow value
        else if key = "items".toList then inline follow value
        else if key ∈ ["allOf".toList, "anyOf".toList, "oneOf".toList] then
          inlineUnion follow value
        else .ok value
      let rest ← inlinePairs follow pairs
      pure ((key, value) :: rest)

def inlineProperties (follow : Json → Except Exn Json) : Json → Except Exn Json
  | .obj members => (inlineMembers follow members).map Json.obj
  | value => .ok value

def inlineUnion (follow : Json → Except Exn Json) : Json → Except Exn Json
  | .arr items => (inlineItems follow items).map Json.arr
  | value => .ok value

def inlineMembers (follow : Json → Except Exn Json) :
    List (Str × Json) → Except Exn (List (Str × Json))
  | [] => .ok []
  | (name, schema) :: members => do
    let schema ← inline follow schema
    let rest ← inlineMembers follow members
    pure ((name, schema) :: rest)

def inlineItems (follow : Json → Except Exn Json) : List Json → Except Exn (List Json)
  | [] => .ok []
  | schema :: items => do
    let schema ← inline follow schema
    let rest ← inlineItems follow items
    pure (schema :: rest)

end

/-- `_resolve_refs` with `hops` references left before the cap. -/
def resolve_refs (defs : Entries Str Json) : Nat → Json → Except Exn Json
  | 0 => inline (fun _ => .ok generic_object)
  | hops + 1 => inline (fun ref_path =>
      match ref_path with
      | .str path =>
        match definition defs path with
        | some resolved => resolve_refs defs hops resolved
        | none => .ok generic_object
      | _ => .error .AttributeError)

def description_of (pairs : List (Str × Json)) : List (Str × Json) :=
  match Json.get pairs "description".toList with
  | some desc => [("description".toList, desc)]
  | none => []

/-- `merged["description"] = desc` where it is set and missing -/
def with_description (pairs : List (Str × Json)) : Json → Json
  | .obj merged =>
    match Json.get pairs "description".toList with
    | some desc =>
      if desc.truthy && !has merged "description".toList then
        .obj (merged ++ [("description".toList, desc)])
      else .obj merged
    | none => .obj merged
  | merged => merged

/-- A union with its non-null variants already simplified, unless that raised. -/
def unwrap (pairs : List (Str × Json)) : List (Except Exn Json) → Except Exn Json
  | [] => .ok generic_object
  | [variant] => variant.map (with_description pairs)
  | _ => .ok (.obj (("type".toList, .str "object".toList) :: description_of pairs))

def type_is_null (pairs : List (Str × Json)) : Bool :=
  match Json.get pairs "type".toList with
  | some (.str t) => t = "null".toList
  | _ => false

mutual

def simplify_unions : Json → Except Exn Json
  | .obj pairs =>
    match unionAt "anyOf".toList pairs with
    | some variants => variants.bind (unwrap pairs)
    | none =>
      match unionAt "oneOf".toList pairs with
      | some variants => variants.bind (unwrap pairs)
      | none => (simplifyPairs pairs).map Json.obj
  | schema => .ok schema

def unionAt (union_key : Str) :
    List (Str × Json) → Option (Except Exn (List (Except Exn Json)))
  | [] => none
  | (key, value) :: pairs =>
    if key = union_key then some (variantsOf value) else unionAt union_key pairs

/-- What iterating over the value of a union key yields. -/
def variantsOf : Json → Except Exn (List (Except Exn Json))
  | .arr items => nonNull items
  | .str s => if s.isEmpty then .ok [] else .error .AttributeError
  | .obj pairs => if pairs.isEmpty then .ok [] else .error .AttributeError
  | _ => .error .TypeError

def nonNull : List Json → Except Exn (List (Except Exn Json))
  | [] => .ok []
  | variant :: variants =>
    match variant with
    | .obj pairs => do
      let rest ← nonNull variants
      pure (if type_is_null pairs then rest else simplify_unions variant :: rest)
    | _ => .error .AttributeError

def simplifyPairs : List (Str × Json) → Except Exn (List (Str × Json))
  | [] => .ok []
  | (key, value) :: pairs => do
    let value ←
      if key = "properties".toList then simplifyProperties value
      else if key = "items".toList then simplify_unions value
      else .ok value
    let rest ← simplifyPairs pairs
    pure ((key, value) :: rest)

def simplifyProperties : Json → Except Exn Json
  | .obj members => (simplifyMembers members).map Json.obj
  | value => .ok value

def simplifyMembers : List (Str × Json) → Except Exn (List (Str × Json))
  | [] => .ok []
  | (name, schema) :: members => do
    let schema ← simplify_unions schema
    let rest ← simplifyMembers members
    pure ((name, schema) :: rest)

end

mutual

/-- `_cap_depth` with `left` levels before the cap. -/
def cap_depth (left : Nat) : Json → Json
  | .obj pairs =>
    match left with
    | 0 => .obj (("type".toList, .str "object".toList) :: description_of pairs)
    | left + 1 => .obj (capPairs left pairs)
  | schema => schema

def capPairs (left : Nat) : List (Str × Json) → List (Str × Json)
  | [] => []
  | (key, value) :: pairs =>
    let value :=
      if key = "properties".toList then capProperties left value
      else if key = "items".toList then cap_depth left value
      else value
    (key, value) :: capPairs left pairs

def capProperties (left : Nat) : Json → Json
  | .obj members => .obj (capMembers left members)
  | value => value

def capMembers (left : Nat) : List (Str × Json) → List (Str × Json)
  | [] => []
  | (name, schema) :: members => (name, cap_depth left schema) :: capMembers left members

end

/-- The keywords Converse takes. -/
def allowed : List Str :=
  ["type".toList, "properties".toList, "required".toList, "items".toList, "description".toList,
    "enum".toList, "default".toList, "minimum".toList, "maximum".toList, "minLength".toList,
    "maxLength".toList, "pattern".toList, "additionalProperties".toList, "title".toList]

mutual

def strip_unsupported_keys : Json → Json
  | .obj pairs => .obj (stripPairs pairs)
  | schema => schema

def stripPairs : List (Str × Json) → List (Str × Json)
  | [] => []
  | (key, value) :: pairs =>
    if key ∈ allowed then
      let value :=
        if key = "properties".toList then stripProperties value
        else if key = "items".toList then strip_unsupported_keys value
        else value
      (key, value) :: stripPairs pairs
    else stripPairs pairs

def stripProperties : Json → Json
  | .obj members => .obj (stripMembers members)
  | value => value

def stripMembers : List (Str × Json) → List (Str × Json)
  | [] => []
  | (name, schema) :: members => (name, strip_unsupported_keys schema) :: stripMembers members

end

def value_error : Exn :=
  .other "ValueError".toList "dictionary update sequence element has wrong length".toList

/-- The entry one element of an update sequence gives; a key that is no text is
hashed and never looked up. -/
def sequence_entry : Json → Except Exn (Entries Str Json)
  | .arr [.str k, v] => .ok [(k, v)]
  | .arr [.arr _, _] => .error .TypeError
  | .arr [.obj _, _] => .error .TypeError
  | .arr [_, _] => .ok []
  | .str [k, v] => .ok [([k], .str [v])]
  | .obj [(k, _), (v, _)] => .ok [(k, .str v)]
  | .arr _ => .error value_error
  | .str _ => .error value_error
  | .obj _ => .error value_error
  | _ => .error .TypeError

/-- `dict(value)` for a value read from JSON. -/
def entries_of : Json → Except Exn (Entries Str Json)
  | .obj pairs => .ok pairs
  | .arr items => (items.mapM sequence_entry).map List.flatten
  | .str s => if s.isEmpty then .ok [] else .error value_error
  | _ => .error .TypeError

/-- `schema.pop(key, {})` merged into the definitions so far. -/
def pop_definitions (key : Str) (schema : Entries Str Json) (defs : Entries Str Json) :
    Except Exn (Entries Str Json) :=
  match get schema key with
  | some value => (entries_of value).map (update defs)
  | none => .ok defs

/-- The schema of an object at the top level, any other one replaced. -/
def top_level : Json → Except Exn Json
  | .obj pairs =>
    match Json.get pairs "type".toList with
    | some (.str t) => .ok (if t = "object".toList then .obj pairs else permissive_object)
    | _ => .ok permissive_object
  | _ => .error .AttributeError

def normalize_input_schema : Option (Entries Str Json) → Except Exn Json
  | none => .ok permissive_object
  | some [] => .ok permissive_object
  | some schema => do
    let defs ← pop_definitions "$defs".toList schema []
    let defs ← pop_definitions "definitions".toList schema defs
    let schema := erase (erase schema "$defs".toList) "definitions".toList
    let schema ← resolve_refs defs MAX_NESTING_DEPTH (.obj schema)
    let schema ← simplify_unions schema
    top_level (strip_unsupported_keys (cap_depth MAX_NESTING_DEPTH schema))

def default_description (server_name : Str) : Str := "Tool: ".toList ++ server_name

/-- `build_tool_spec` once the name is registered. -/
def tool_spec (converse_name server_name description : Str)
    (input_schema : Option (Entries Str Json)) : Except Exn ToolSpec :=
  (normalize_input_schema input_schema).map (fun normalized =>
    ⟨converse_name,
      (if description.isEmpty then default_description server_name else description).take 1024,
      normalized⟩)

theorem tool_spec_name (converse_name server_name description : Str)
    (input_schema : Option (Entries Str Json)) (spec : ToolSpec)
    (h : tool_spec converse_name server_name description input_schema = .ok spec) :
    spec.name = converse_name := by
  unfold tool_spec at h
  cases hn : normalize_input_schema input_schema with
  | error e => simp [hn, Except.map] at h
  | ok normalized =>
    simp only [hn, Except.map, Except.ok.injEq] at h
    rw [← h]

end AigentSquad.ToolSchema
