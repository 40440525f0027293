import AigentSquad.Dict
import AigentSquad.PyJson

/-!
# Validity under a JSON Schema

The assertions `type`, `enum` and `required`, the applicators `properties` and
`items`, and `$ref`. What a reference stands for is a parameter, so is what the
specification leaves to the reading of numbers. Other keywords assert nothing.
Nothing here names a particular program.
-/

set_option autoImplicit false

namespace AigentSquad.JsonSchema
open AigentSquad.PyText AigentSquad.PyJson AigentSquad.Dict

/-- A dialect: which floats are integers, which values are equal and whether the keywords beside
a `$ref` apply. -/
structure Reading where
  integral : Str → Bool
  same : Json → Json → Bool
  siblings : Bool

def Reading.has_type (R : Reading) (t : Str) : Json → Bool
  | .null => t = "null".toList
  | .bool _ => t = "boolean".toList
  | .int _ => t = "integer".toList || t = "number".toList
  | .float text => t = "number".toList || (t = "integer".toList && R.integral text)
  | .str _ => t = "string".toList
  | .arr _ => t = "array".toList
  | .obj _ => t = "object".toList

/-- The value of `type` is one name or a list of names. -/
def Reading.typed (R : Reading) (v : Json) : Json → Bool
  | .str t => R.has_type t v
  | .arr names => names.any (fun name =>
      match name with
      | .str t => R.has_type t v
      | _ => false)
  | _ => true

def Reading.listed (R : Reading) (v : Json) : Json → Bool
  | .arr options => options.any (R.same v)
  | _ => true

def supplied (v : Json) : Json → Bool
  | .arr names =>
    match v with
    | .obj fields => names.all (fun name =>
        match name with
        | .str n => has fields n
        | _ => true)
    | _ => true
  | _ => true

/-- What the assertions of one object say of the value itself. -/
def Reading.asserted (R : Reading) (pairs : List (Str × Json)) (v : Json) : Bool :=
  (Json.get pairs "type".toList).all (R.typed v) &&
    (Json.get pairs "enum".toList).all (R.listed v) &&
    (Json.get pairs "required".toList).all (supplied v)

/-- A part of a value and the schema that applies to it. -/
inductive Child (pairs : List (Str × Json)) : Json → Json → Json → Prop
  | property {members fields : List (Str × Json)} {name : Str} {below part : Json}
      (hkey : Json.get pairs "properties".toList = some (.obj members))
      (hbelow : Json.get members name = some below) (hpart : Json.get fields name = some part) :
      Child pairs (.obj fields) below part
  | item {parts : List Json} {below part : Json}
      (hkey : Json.get pairs "items".toList = some below) (hpart : part ∈ parts) :
      Child pairs (.arr parts) below part

inductive Valid (R : Reading) (target : Str → Json) : Json → Json → Prop
  | any (v : Json) : Valid R target (.bool true) v
  | object {pairs : List (Str × Json)} {v : Json}
      (hreference : ∀ path, Json.get pairs "$ref".toList = some (.str path) →
        Valid R target (target path) v)
      (hasserted : R.siblings = true ∨ Json.get pairs "$ref".toList = none →
        R.asserted pairs v = true)
      (hchildren : R.siblings = true ∨ Json.get pairs "$ref".toList = none →
        ∀ below part, Child pairs v below part → Valid R target below part) :
      Valid R target (.obj pairs) v

variable {R : Reading} {target : Str → Json} {v : Json}

theorem valid_bool (b : Bool) : Valid R target (.bool b) v ↔ b = true := by
  constructor
  · intro h
    cases h
    rfl
  · rintro rfl
    exact .any v

/-- Without a reference an object asserts what stands in it. -/
theorem valid_obj {pairs : List (Str × Json)} (href : Json.get pairs "$ref".toList = none) :
    Valid R target (.obj pairs) v ↔ R.asserted pairs v = true ∧
      ∀ below part, Child pairs v below part → Valid R target below part := by
  constructor
  · intro h
    cases h with
    | object _ hasserted hchildren => exact ⟨hasserted (Or.inr href), hchildren (Or.inr href)⟩
  · rintro ⟨hasserted, hchildren⟩
    refine .object ?_ (fun _ => hasserted) (fun _ => hchildren)
    intro path hpath
    cases href.symm.trans hpath

theorem Valid.at_target {pairs : List (Str × Json)} {path : Str}
    (h : Valid R target (.obj pairs) v)
    (href : Json.get pairs "$ref".toList = some (.str path)) :
    Valid R target (target path) v := by
  cases h with
  | object hreference _ _ => exact hreference path href

theorem Child.congr {pairs pairs' : List (Str × Json)} {below part : Json}
    (hp : Json.get pairs "properties".toList = Json.get pairs' "properties".toList)
    (hi : Json.get pairs "items".toList = Json.get pairs' "items".toList)
    (h : Child pairs v below part) : Child pairs' v below part := by
  cases h with
  | property hkey hbelow hpart => exact .property (hp ▸ hkey) hbelow hpart
  | item hkey hpart => exact .item (hi ▸ hkey) hpart

theorem typed_object : R.has_type "object".toList v = v.isObject := by
  cases v <;> rfl

/-- A schema of type object that says no more. -/
theorem valid_object_type {pairs : List (Str × Json)}
    (htype : Json.get pairs "type".toList = some (.str "object".toList))
    (hnone : ∀ key ∈ ["$ref".toList, "enum".toList, "required".toList, "items".toList],
      Json.get pairs key = none)
    (hmembers : ∀ members, Json.get pairs "properties".toList = some (.obj members) →
      members = []) :
    Valid R target (.obj pairs) v ↔ v.isObject = true := by
  rw [valid_obj (hnone _ (by simp)), Reading.asserted, htype, hnone "enum".toList (by simp),
    hnone "required".toList (by simp)]
  simp only [Option.all_some, Option.all_none, Bool.and_true, Reading.typed, typed_object]
  constructor
  · rintro ⟨h, _⟩
    exact h
  · intro h
    refine ⟨h, ?_⟩
    intro below part hchild
    cases hchild with
    | property hkey hbelow _ =>
      rw [hmembers _ hkey] at hbelow
      cases hbelow
    | item hkey _ => cases (hnone "items".toList (by simp)).symm.trans hkey

end AigentSquad.JsonSchema
