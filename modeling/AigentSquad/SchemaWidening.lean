import AigentSquad.JsonSchema
import AigentSquad.SchemaTotality

/-!
# Which valid values a normalised schema keeps

Schemas without unions. A schema cut off, by nesting or by the cap on
references, becomes a generic object, and so does a reference that is not
found. A value stays valid exactly when its parts at those places are objects.
-/

set_option autoImplicit false

namespace AigentSquad.SchemaWidening
open AigentSquad.PyText AigentSquad.PyJson AigentSquad.Dict AigentSquad.Effects
open AigentSquad.ToolSchema hiding inline
open AigentSquad.KeyedEntries AigentSquad.Interaction AigentSquad.SchemaPasses
open AigentSquad.SchemaWalk AigentSquad.NormalisedSchema AigentSquad.SchemaTotality
open AigentSquad.JsonSchema

variable {R : Reading} {target : Str → Json} {defs : Entries Str Json} {left hops hops' : Nat}
variable {schema out v : Json}

def fragment_keywords : List Str :=
  ["type".toList, "properties".toList, "required".toList, "items".toList, "enum".toList,
    "$ref".toList, "$defs".toList, "definitions".toList]

/-- A schema built from these keywords. -/
inductive Fragment : Json → Prop
  | bool (b : Bool) : Fragment (.bool b)
  | object {pairs : List (Str × Json)} (hkeys : ∀ p ∈ pairs, p.1 ∈ fragment_keywords)
      (hreference : ∀ v, ("$ref".toList, v) ∈ pairs → ∃ path, v = .str path)
      (hobjects : ∀ key ∈ member_keywords, ∀ v, (key, v) ∈ pairs → ∃ members, v = .obj members)
      (hmembers : ∀ key ∈ member_keywords, ∀ members, (key, .obj members) ∈ pairs →
        ∀ m ∈ members, Fragment m.2)
      (hitems : ∀ below, ("items".toList, below) ∈ pairs → Fragment below) :
      Fragment (.obj pairs)

theorem Fragment.keys {pairs : List (Str × Json)} (h : Fragment (.obj pairs)) :
    ∀ p ∈ pairs, p.1 ∈ fragment_keywords := by
  cases h with
  | object hkeys _ _ _ _ => exact hkeys

theorem Fragment.objects {pairs : List (Str × Json)} (h : Fragment (.obj pairs)) {key : Str}
    (hkey : key ∈ member_keywords) {v : Json} (hv : (key, v) ∈ pairs) :
    ∃ members, v = .obj members ∧ ∀ m ∈ members, Fragment m.2 := by
  cases h with
  | object _ _ hobjects hmembers _ =>
    obtain ⟨members, rfl⟩ := hobjects key hkey v hv
    exact ⟨members, rfl, hmembers key hkey members hv⟩

theorem Fragment.item {pairs : List (Str × Json)} (h : Fragment (.obj pairs)) {below : Json}
    (hv : ("items".toList, below) ∈ pairs) : Fragment below := by
  cases h with
  | object _ _ _ _ hitems => exact hitems below hv

theorem fragment_no_union {pairs : List (Str × Json)} (h : Fragment (.obj pairs)) :
    union_of pairs = none := by
  cases hunion : union_of pairs with
  | none => rfl
  | some value =>
    obtain ⟨key, hkey, hmem⟩ := union_mem hunion
    have hdisjoint : ∀ k ∈ union_keywords, k ∉ fragment_keywords := by decide
    exact absurd (h.keys _ hmem) (hdisjoint key hkey)

theorem Fragment.is_schema (h : Fragment schema) : IsSchema schema := by
  induction h with
  | bool b => exact .bool b
  | @object pairs hkeys hreference hobjects hmembers hitems ihmembers ihitems =>
    have hnone : ∀ key ∈ union_keywords, ∀ v, (key, v) ∉ pairs := by
      intro key hkey v hv
      have hdisjoint : ∀ k ∈ union_keywords, k ∉ fragment_keywords := by decide
      exact hdisjoint key hkey (hkeys _ hv)
    refine .object hreference hobjects ihmembers ?_ ?_ (fun v hv _ => ihitems v hv) ?_
    · intro key hkey v hv
      exact absurd hv (hnone key hkey v)
    · intro key hkey items hv
      exact absurd hv (hnone key hkey _)
    · intro elements hv
      cases hitems _ hv

theorem fragment_not_met (hdefs : ∀ p ∈ defs, Fragment p.2) {found : List Json}
    (hmet : Met defs hops schema hops' found) : ¬Fragment schema := by
  induction hmet with
  | here hdest hunion =>
    intro h
    cases (fragment_no_union (destination_preserves hdefs h hdest)).symm.trans hunion
  | variant hdest hunion _ _ _ =>
    intro h
    cases (fragment_no_union (destination_preserves hdefs h hdest)).symm.trans hunion
  | property hdest _ hkey hbelow _ ih =>
    intro h
    obtain ⟨_, hmembers, hall⟩ :=
      (destination_preserves hdefs h hdest).objects (by decide) hkey
    cases hmembers
    exact ih (hall _ hbelow)
  | item hdest _ hkey _ ih =>
    intro h
    exact ih ((destination_preserves hdefs h hdest).item hkey)

/-- The walk never raises on such a schema. -/
theorem fragment_simplified (hdefs : ∀ p ∈ defs, Fragment p.2) (h : Fragment schema) :
    ∃ t, simplified defs hops schema = .ok t :=
  (simplified_total_iff (fun p hp => (hdefs p hp).is_schema) hops schema h.is_schema).mpr
    (fun _ _ hmet => absurd h (fragment_not_met hdefs hmet))

theorem fragment_child {pairs : List (Str × Json)} (h : Fragment (.obj pairs)) {below part : Json}
    (hchild : Child pairs v below part) : Fragment below := by
  cases hchild with
  | property hkey hbelow _ =>
    obtain ⟨_, hmembers, hall⟩ := h.objects (by decide) (mem_of_get pairs _ _ hkey)
    cases hmembers
    exact hall _ (mem_of_get _ _ _ hbelow)
  | item hkey _ => exact h.item (mem_of_get pairs _ _ hkey)

/-- What is asked where references end. -/
def At (cut : Prop) (node : Nat → List (Str × Json) → Prop) : Destination → Prop
  | .schema hops (.obj pairs) => node hops pairs
  | .schema _ (.bool b) => b = true
  | .schema _ _ => False
  | .collapses => cut
  | .fails => False

/-- Validity with references followed and nesting cut as the passes do. -/
def Accepts (R : Reading) (defs : Entries Str Json) : Nat → Nat → Json → Json → Prop
  | 0, hops, schema, v =>
    At (v.isObject = true) (fun _ _ => v.isObject = true) (destination defs hops schema)
  | left + 1, hops, schema, v =>
    At (v.isObject = true) (fun hops' pairs => R.asserted pairs v = true ∧
      ∀ below part, Child pairs v below part → Accepts R defs left hops' below part)
      (destination defs hops schema)

/-- Every reference followed is to what it stands for. -/
def Agrees (target : Str → Json) (defs : Entries Str Json) : Nat → Json → Prop
  | 0, _ => True
  | hops + 1, schema => ∀ path resolved, reference schema = some (.str path) →
      definition defs path = some resolved →
      resolved = target path ∧ Agrees target defs hops resolved

/-- The parts of a value at the places cut off are objects. Under a reference that is followed to
something else the part must be accepted there. -/
def Held (R : Reading) (target : Str → Json) (defs : Entries Str Json) :
    Nat → Nat → Json → Json → Prop
  | 0, hops, schema, v =>
    (Agrees target defs hops schema → At (v.isObject = true) (fun _ _ => v.isObject = true)
      (destination defs hops schema)) ∧
    (¬Agrees target defs hops schema → Accepts R defs 0 hops schema v)
  | left + 1, hops, schema, v =>
    (Agrees target defs hops schema → At (v.isObject = true) (fun hops' pairs =>
      ∀ below part, Child pairs v below part → Held R target defs left hops' below part)
      (destination defs hops schema)) ∧
    (¬Agrees target defs hops schema → Accepts R defs (left + 1) hops schema v)

theorem valid_generic : Valid R target generic_object v ↔ v.isObject = true := by
  refine valid_object_type rfl (by simp [Json.get]) ?_
  intro members h
  cases h

theorem valid_permissive : Valid R target permissive_object v ↔ v.isObject = true := by
  refine valid_object_type rfl (by simp [Json.get]) ?_
  intro members h
  cases h
  rfl

theorem valid_cut (pairs : List (Str × Json)) :
    Valid R target (capped 0 (.obj pairs)) v ↔ v.isObject = true := by
  have hkeys : ∀ key, key ≠ "type".toList → key ≠ "description".toList →
      Json.get (("type".toList, .str "object".toList) :: description_of pairs) key = none := by
    intro key ht hd
    change Dict.get _ key = none
    rw [get_cons, if_neg ht.symm]
    cases hget : Dict.get (description_of pairs) key with
    | none => rfl
    | some w => exact absurd (description_of_keys pairs _ (mem_of_get _ _ _ hget)) hd
  rw [capped_cut]
  refine valid_object_type rfl ?_ ?_
  · intro key hkey
    have hne : ∀ k ∈ ["$ref".toList, "enum".toList, "required".toList, "items".toList],
        k ≠ "type".toList ∧ k ≠ "description".toList := by decide
    exact hkeys key (hne key hkey).1 (hne key hkey).2
  · intro members h
    rw [hkeys _ (by decide) (by decide)] at h
    cases h

/-- The parts of a value under a normalised object are its parts under the raw one. -/
theorem child_normal {pairs entries : List (Str × Json)}
    (hn : Normal defs left hops pairs entries) {b part : Json} (h : Child entries v b part) :
    ∃ below, Child pairs v below part ∧ normalised defs left hops below = .ok b := by
  cases h with
  | property hkey hbelow hpart =>
    obtain ⟨w, hw, hwalked⟩ := hn.of_get (by decide) (by decide) hkey
    obtain ⟨members, rfl, hrs⟩ := hwalked.to_members
    obtain ⟨below, hmember, hnormal⟩ := hrs.get_right hbelow
    exact ⟨below, .property hw hmember hpart, hnormal⟩
  | item hkey hpart =>
    obtain ⟨w, hw, hwalked⟩ := hn.of_get (by decide) (by decide) hkey
    exact ⟨w, .item hw hpart, hwalked.item⟩

theorem normal_child {pairs entries : List (Str × Json)}
    (hn : Normal defs left hops pairs entries) {below part : Json} (h : Child pairs v below part) :
    ∃ b, Child entries v b part ∧ normalised defs left hops below = .ok b := by
  cases h with
  | property hkey hbelow hpart =>
    obtain ⟨w, hw, hwalked⟩ := hn.get_some (by decide) (by decide) hkey
    obtain ⟨rs, rfl, hrs⟩ := hwalked.of_members
    obtain ⟨b, hb, hnormal⟩ := hrs.get_some hbelow
    exact ⟨b, .property hw hb hpart, hnormal⟩
  | item hkey hpart =>
    obtain ⟨w, hw, hwalked⟩ := hn.get_some (by decide) (by decide) hkey
    exact ⟨w, .item hw hpart, hwalked.item⟩

theorem normal_asserted {pairs entries : List (Str × Json)}
    (hn : Normal defs left hops pairs entries) : R.asserted entries v = R.asserted pairs v := by
  have hsame : ∀ key ∈ ["type".toList, "enum".toList, "required".toList],
      Json.get entries key = Json.get pairs key := by
    have hkeys : ∀ key ∈ ["type".toList, "enum".toList, "required".toList],
        key ∈ allowed ∧ key ∉ changed_keywords := by decide
    exact fun key hkey => hn.same (hkeys key hkey).1 (hkeys key hkey).2
  rw [Reading.asserted, Reading.asserted, hsame _ (by simp), hsame _ (by simp), hsame _ (by simp)]

theorem normal_reference {pairs entries : List (Str × Json)}
    (hn : Normal defs left hops pairs entries) : Json.get entries "$ref".toList = none := by
  cases hget : Json.get entries "$ref".toList with
  | none => rfl
  | some w =>
    have hnot : "$ref".toList ∉ allowed := by decide
    exact absurd (hn.keys _ (mem_of_get _ _ _ hget)) hnot

theorem capped_generic (left : Nat) : capped left generic_object = generic_object := by
  cases left <;> rfl

/-- Where references do not end at an object the result is no deeper. -/
theorem normalised_at {node : Nat → List (Str × Json) → Prop}
    (hdefs : ∀ p ∈ defs, Fragment p.2) (h : Fragment schema)
    (hout : normalised defs left hops schema = .ok out)
    (hnode : ∀ hops' pairs, destination defs hops schema = .schema hops' (.obj pairs) →
      Fragment (.obj pairs) → (Valid R target out v ↔ node hops' pairs)) :
    Valid R target out v ↔ At (v.isObject = true) node (destination defs hops schema) := by
  cases hdest : destination defs hops schema with
  | fails =>
    obtain ⟨t, ht, _⟩ := map_eq_ok.mp hout
    rw [simplified, destination_fails hdest] at ht
    cases ht
  | collapses =>
    obtain ⟨t, ht, rfl⟩ := map_eq_ok.mp hout
    rw [simplified_collapses hdest] at ht
    cases ht
    rw [capped_generic]
    exact valid_generic
  | schema hops' reached =>
    have hreached : Fragment reached := destination_preserves hdefs h hdest
    cases hreached with
    | bool b =>
      rw [normalised_of_scalar hout rfl hdest]
      exact valid_bool b
    | object _ _ _ _ _ => exact hnode hops' _ hdest (destination_preserves hdefs h hdest)

/-- What the normalised schema accepts, told from the raw one. -/
theorem normalised_valid_iff (hdefs : ∀ p ∈ defs, Fragment p.2) (h : Fragment schema)
    (hout : normalised defs left hops schema = .ok out) :
    Valid R target out v ↔ Accepts R defs left hops schema v := by
  induction left generalizing hops schema out v with
  | zero =>
    refine normalised_at hdefs h hout ?_
    intro hops' pairs hdest hpairs
    obtain ⟨t, ht, rfl⟩ := map_eq_ok.mp hout
    obtain ⟨ts, added, rfl, _⟩ := simplified_comes (.node hdest (fragment_no_union hpairs)) ht
    exact valid_cut (ts ++ added)
  | succ left ih =>
    refine normalised_at hdefs h hout ?_
    intro hops' pairs hdest hpairs
    obtain ⟨t, ht, rfl⟩ := map_eq_ok.mp hout
    obtain ⟨entries, hcapped, hn⟩ :=
      capped_rebuilt left (simplified_comes (.node hdest (fragment_no_union hpairs)) ht)
    rw [hcapped, valid_obj (normal_reference hn), normal_asserted hn]
    refine and_congr_right (fun _ => ⟨?_, ?_⟩)
    · intro hvalid below part hchild
      obtain ⟨b, hb, hnormal⟩ := normal_child hn hchild
      exact (ih (fragment_child hpairs hchild) hnormal).mp (hvalid b part hb)
    · intro haccepts b part hb
      obtain ⟨below, hchild, hnormal⟩ := child_normal hn hb
      exact (ih (fragment_child hpairs hchild) hnormal).mpr (haccepts below part hchild)

/-- A value valid under a schema is valid where its references end. -/
theorem valid_destination {reached : Json} (hagrees : Agrees target defs hops schema)
    (hdest : destination defs hops schema = .schema hops' reached)
    (h : Valid R target schema v) : Valid R target reached v := by
  fun_induction destination defs hops schema with
  | case1 schema ref_path href => cases hdest
  | case2 schema href =>
    cases hdest
    exact h
  | case3 hops schema path href resolved hdef ih =>
    obtain ⟨rfl, hrest⟩ := hagrees path resolved href hdef
    cases schema with
    | obj pairs => exact ih hrest hdest (h.at_target href)
    | _ => cases href
  | case4 hops schema path href hdef => cases hdest
  | case5 hops schema ref_path hno href => cases hdest
  | case6 hops schema href =>
    cases hdest
    exact h

theorem at_congr {cut : Prop} {node node' : Nat → List (Str × Json) → Prop} {d : Destination}
    (h : ∀ hops pairs, d = .schema hops (.obj pairs) → (node hops pairs ↔ node' hops pairs)) :
    At cut node d ↔ At cut node' d := by
  cases d with
  | schema hops reached =>
    cases reached with
    | obj pairs => exact h hops pairs rfl
    | _ => exact Iff.rfl
  | _ => exact Iff.rfl

theorem split_iff {p q r : Prop} (h : p → (r ↔ q)) : r ↔ (p → q) ∧ (¬p → r) := by
  by_cases hp : p
  · simp [hp, h hp]
  · simp [hp]

/-- Of the values valid under the raw schema, those accepted are those held. -/
theorem accepts_iff_held (hdefs : ∀ p ∈ defs, Fragment p.2) (h : Fragment schema)
    (hvalid : Valid R target schema v) :
    Accepts R defs left hops schema v ↔ Held R target defs left hops schema v := by
  induction left generalizing hops schema v with
  | zero =>
    rw [Held]
    exact split_iff (fun _ => Iff.rfl)
  | succ left ih =>
    rw [Held]
    refine split_iff (fun hagrees => at_congr (fun hops' pairs hdest => ?_))
    have hpairs : Fragment (.obj pairs) := destination_preserves hdefs h hdest
    obtain ⟨hasserted, hchildren⟩ := (valid_obj (destination_schema hdest).1).mp
      (valid_destination hagrees hdest hvalid)
    constructor
    · rintro ⟨_, haccepts⟩ below part hchild
      exact (ih (fragment_child hpairs hchild) (hchildren below part hchild)).mp
        (haccepts below part hchild)
    · intro hheld
      refine ⟨hasserted, fun below part hchild => ?_⟩
      exact (ih (fragment_child hpairs hchild) (hchildren below part hchild)).mpr
        (hheld below part hchild)

/-- What the top level asks of a value valid under the raw schema. -/
def KeptValid (R : Reading) (target : Str → Json) (defs : Entries Str Json) (schema v : Json) :
    Prop :=
  match destination defs MAX_NESTING_DEPTH schema with
  | .schema _ (.obj pairs) =>
    (Json.get pairs "type".toList = some (.str "object".toList) →
      Held R target defs MAX_NESTING_DEPTH MAX_NESTING_DEPTH schema v) ∧
    (Json.get pairs "type".toList ≠ some (.str "object".toList) → v.isObject = true)
  | .collapses => v.isObject = true
  | _ => False

/-- The definitions of such a schema are such schemas. -/
theorem fragment_extracted {input_schema : Entries Str Json} (h : Fragment (.obj input_schema)) :
    ∃ defs, extracted input_schema = .ok defs ∧ ∀ p ∈ defs, Fragment p.2 := by
  have hmember : ∀ key ∈ definition_keywords, key ∈ member_keywords := by decide
  exact extracted_preserves (fun key hkey v hv => h.objects (hmember key hkey) hv)

/-- The top level is kept or replaced by one that takes every object. -/
theorem top_level_valid (pairs : List (Str × Json)) :
    (∃ out, top_level (.obj pairs) = .ok out ∧ Valid R target out v) ↔
      (Json.get pairs "type".toList = some (.str "object".toList) →
        Valid R target (.obj pairs) v) ∧
      (Json.get pairs "type".toList ≠ some (.str "object".toList) → v.isObject = true) := by
  by_cases ht : Json.get pairs "type".toList = some (.str "object".toList)
  · rw [top_level_object ht]
    constructor
    · rintro ⟨_, hsame, hvalid⟩
      cases hsame
      exact ⟨fun _ => hvalid, fun hne => absurd ht hne⟩
    · rintro ⟨hvalid, _⟩
      exact ⟨_, rfl, hvalid ht⟩
  · rw [top_level_other ht]
    constructor
    · rintro ⟨_, hsame, hvalid⟩
      cases hsame
      exact ⟨fun h => absurd h ht, fun _ => valid_permissive.mp hvalid⟩
    · rintro ⟨_, hobject⟩
      exact ⟨_, rfl, valid_permissive.mpr (hobject ht)⟩

theorem normal_valid_iff (hdefs : ∀ p ∈ defs, Fragment p.2) (h : Fragment schema)
    (hvalid : Valid R target schema v) {normal : Json}
    (hnormal : normalised defs MAX_NESTING_DEPTH MAX_NESTING_DEPTH schema = .ok normal) :
    (∃ out, top_level normal = .ok out ∧ Valid R target out v) ↔
      KeptValid R target defs schema v := by
  have hheld : Valid R target normal v ↔ Held R target defs MAX_NESTING_DEPTH MAX_NESTING_DEPTH
      schema v := (normalised_valid_iff hdefs h hnormal).trans (accepts_iff_held hdefs h hvalid)
  obtain ⟨t, ht, rfl⟩ := map_eq_ok.mp hnormal
  unfold KeptValid
  cases hdest : destination defs MAX_NESTING_DEPTH schema with
  | fails =>
    rw [simplified, destination_fails hdest] at ht
    cases ht
  | collapses =>
    rw [simplified_collapses hdest] at ht
    cases ht
    rw [capped_generic]
    constructor
    · rintro ⟨_, hsame, hout⟩
      cases (top_level_object rfl).symm.trans hsame
      exact valid_generic.mp hout
    · intro hobject
      exact ⟨generic_object, top_level_object rfl, valid_generic.mpr hobject⟩
  | schema hops' reached =>
    have hreached : Fragment reached := destination_preserves hdefs h hdest
    cases hreached with
    | bool b =>
      rw [normalised_of_scalar hnormal rfl hdest]
      constructor
      · rintro ⟨_, hraises, _⟩
        cases hraises
      · exact False.elim
    | @object pairs _ _ _ _ _ =>
      have hpairs : Fragment (.obj pairs) := destination_preserves hdefs h hdest
      obtain ⟨entries, hcapped, hn⟩ :=
        capped_rebuilt 3 (simplified_comes (.node hdest (fragment_no_union hpairs)) ht)
      rw [show capped MAX_NESTING_DEPTH t = _ from hcapped] at hheld ⊢
      rw [top_level_valid, hheld, hn.same (by decide) (by decide)]

/-- Of the values valid under a schema without unions, the normalised one takes those whose parts
at the places cut off are objects. -/
theorem normalized_valid_iff (R : Reading) (target : Str → Json) (input_schema : Entries Str Json)
    (v : Json) (h : Fragment (.obj input_schema)) (hvalid : Valid R target (.obj input_schema) v) :
    (∃ out, normalize_input_schema (some input_schema) = .ok out ∧ Valid R target out v) ↔
      ∀ defs, extracted input_schema = .ok defs →
        KeptValid R target defs (.obj input_schema) v := by
  obtain ⟨defs, hdefs, hfragments⟩ := fragment_extracted h
  have hreturn : ∃ t, simplified defs MAX_NESTING_DEPTH (.obj input_schema) = .ok t :=
    fragment_simplified hfragments h
  obtain ⟨t, ht⟩ := hreturn
  have hnormal : normalised defs MAX_NESTING_DEPTH MAX_NESTING_DEPTH (.obj input_schema) =
      .ok (capped MAX_NESTING_DEPTH t) := map_eq_ok.mpr ⟨t, ht, rfl⟩
  have hreturns : normalize_input_schema (some input_schema) =
      top_level (capped MAX_NESTING_DEPTH t) := by
    rw [normalize_eq, hdefs]
    change (normalised defs MAX_NESTING_DEPTH MAX_NESTING_DEPTH (.obj input_schema) >>=
      top_level) = _
    rw [hnormal]
    rfl
  rw [hreturns, normal_valid_iff hfragments h hvalid hnormal]
  constructor
  · rintro hkept _ hsame
    cases hdefs.symm.trans hsame
    exact hkept
  · intro hall
    exact hall defs hdefs

/-- An object of type object with one property. -/
def nesting (below : Json) : Entries Str Json :=
  [("type".toList, .str "object".toList),
    ("properties".toList, .obj [("nested".toList, below)])]

/-- A string under `levels` objects. -/
def nested : Nat → Json
  | 0 => .obj [("type".toList, .str "string".toList)]
  | levels + 1 => .obj (nesting (nested levels))

def nestedValue : Nat → Json
  | 0 => .str "leaf".toList
  | levels + 1 => .obj [("nested".toList, nestedValue levels)]

theorem nested_fragment (levels : Nat) : Fragment (nested levels) := by
  induction levels with
  | zero => apply Fragment.object <;> simp [fragment_keywords, member_keywords]
  | succ levels ih =>
    apply Fragment.object <;> simp [nesting, fragment_keywords, member_keywords]
    exact ih

theorem nested_child {below part : Json} {v : Json}
    (h : Child (nesting below) (.obj [("nested".toList, v)]) schema part) :
    schema = below ∧ part = v := by
  cases h with
  | property hkey hbelow hpart =>
    cases hkey
    have hname := List.mem_singleton.mp (mem_of_get _ _ _ hbelow)
    have hfield := List.mem_singleton.mp (mem_of_get _ _ _ hpart)
    exact ⟨(Prod.mk.inj hname).2, (Prod.mk.inj hfield).2⟩

theorem nested_valid (levels : Nat) :
    Valid R target (nested levels) (nestedValue levels) := by
  induction levels with
  | zero =>
    refine (valid_obj rfl).mpr ⟨rfl, ?_⟩
    intro below part hchild
    cases hchild
  | succ levels ih =>
    refine (valid_obj rfl).mpr ⟨rfl, ?_⟩
    intro below part hchild
    obtain ⟨rfl, rfl⟩ := nested_child hchild
    exact ih

theorem nested_not_accepted (levels : Nat) :
    ¬Accepts R [] levels (hops + 1) (nested levels) (nestedValue levels) := by
  induction levels with
  | zero =>
    intro h
    cases (show false = true from h)
  | succ levels ih =>
    intro h
    have hbelow : Json.get [("nested".toList, nested levels)] "nested".toList =
        some (nested levels) := rfl
    have hchild : Child (nesting (nested levels)) (nestedValue (levels + 1)) (nested levels)
        (nestedValue levels) := .property rfl hbelow rfl
    exact ih ((show _ ∧ _ from h).2 _ _ hchild)

theorem nested_agrees (levels : Nat) : Agrees target [] (hops + 1) (nested levels) := by
  intro path resolved href _
  cases levels <;> cases href

/-- With levels to spare nothing is cut. -/
theorem nested_held (levels : Nat) :
    Held R target [] (levels + 1) (hops + 1) (nested levels) (nestedValue levels) := by
  induction levels with
  | zero =>
    refine ⟨fun _ => ?_, fun hno => absurd (nested_agrees 0) hno⟩
    intro below part hchild
    cases hchild
  | succ levels ih =>
    refine ⟨fun _ => ?_, fun hno => absurd (nested_agrees (levels + 1)) hno⟩
    intro below part hchild
    obtain ⟨rfl, rfl⟩ := nested_child hchild
    exact ih

def decimal : Reading := ⟨fun _ => false, fun _ _ => false, true⟩

theorem three_levels_kept : ∃ out,
    normalize_input_schema (some (nesting (nested 2))) = .ok out ∧
      Valid decimal (fun _ => .bool false) out (nestedValue 3) := by
  refine (normalized_valid_iff decimal (fun _ => .bool false) (nesting (nested 2)) (nestedValue 3)
    (nested_fragment 3) (nested_valid 3)).mpr ?_
  intro defs hdefs
  cases (show Except.ok [] = Except.ok defs from hdefs)
  exact ⟨fun _ => nested_held 3, fun h => absurd rfl h⟩

/-- A string four levels down is no longer taken. -/
theorem deep_string_refused :
    ¬∀ (R : Reading) (target : Str → Json) (input_schema : Entries Str Json) (v : Json),
      Fragment (.obj input_schema) → Valid R target (.obj input_schema) v →
      ∃ out, normalize_input_schema (some input_schema) = .ok out ∧ Valid R target out v := by
  intro h
  obtain ⟨out, hout, hvalid⟩ := h decimal (fun _ => .bool false) (nesting (nested 3))
    (nestedValue 4) (nested_fragment 4) (nested_valid 4)
  have hnormal : normalised [] MAX_NESTING_DEPTH MAX_NESTING_DEPTH (nested 4) = .ok out := hout
  exact nested_not_accepted 4
    ((normalised_valid_iff (by simp) (nested_fragment 4) hnormal).mp hvalid)

end AigentSquad.SchemaWidening
