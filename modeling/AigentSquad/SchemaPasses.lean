import AigentSquad.Interaction
import AigentSquad.KeyedEntries
import AigentSquad.ToolSchema

/-!
# What one pass of the normaliser does to an object

Each pass rebuilds an object entry by entry. A pass that can raise is stated as
a relation between the entries it reads and those it writes.
-/

set_option autoImplicit false

namespace AigentSquad.SchemaPasses
open AigentSquad.PyText AigentSquad.PyJson AigentSquad.Dict AigentSquad.Effects
open AigentSquad.ToolSchema hiding inline
open AigentSquad.KeyedEntries AigentSquad.Interaction

def union_keywords : List Str := ["allOf".toList, "anyOf".toList, "oneOf".toList]

/-- The keywords `_resolve_refs` leaves out of its result. -/
def definition_keywords : List Str := ["$defs".toList, "definitions".toList]

def kept (key : Str) : Bool := key ∉ definition_keywords

/-- The value of one keyword once its references are inlined. -/
def inlineValue (follow : Json → Except Exn Json) (key : Str) (value : Json) : Except Exn Json :=
  if key = "properties".toList then inlineProperties follow value
  else if key = "items".toList then ToolSchema.inline follow value
  else if key ∈ union_keywords then inlineUnion follow value
  else .ok value

/-- The value of one keyword once its unions are simplified. -/
def simplifyValue (key : Str) (value : Json) : Except Exn Json :=
  if key = "properties".toList then simplifyProperties value
  else if key = "items".toList then simplify_unions value
  else .ok value

theorem map_eq_ok {α β ε : Type} {x : Except ε α} {f : α → β} {b : β} :
    x.map f = .ok b ↔ ∃ a, x = .ok a ∧ f a = b := by
  cases x <;> simp [Except.map]

theorem inlinePairs_left_out (follow : Json → Except Exn Json) (k : Str) (v : Json)
    (pairs : List (Str × Json)) (hk : kept k = false) :
    inlinePairs follow ((k, v) :: pairs) = inlinePairs follow pairs := by
  have hmem : k ∈ ["$defs".toList, "definitions".toList] :=
    Decidable.not_not.mp (of_decide_eq_false hk)
  rw [inlinePairs, if_pos hmem]

theorem inlinePairs_kept (follow : Json → Except Exn Json) (k : Str) (v : Json)
    (pairs : List (Str × Json)) (hk : kept k = true) :
    inlinePairs follow ((k, v) :: pairs) = (do
      let value ← inlineValue follow k v
      let rest ← inlinePairs follow pairs
      pure ((k, value) :: rest)) := by
  have hmem : k ∉ ["$defs".toList, "definitions".toList] := of_decide_eq_true hk
  rw [inlinePairs, if_neg hmem, inlineValue, union_keywords]
  split_ifs <;> rfl

theorem simplifyPairs_cons (k : Str) (v : Json) (pairs : List (Str × Json)) :
    simplifyPairs ((k, v) :: pairs) = (do
      let value ← simplifyValue k v
      let rest ← simplifyPairs pairs
      pure ((k, value) :: rest)) := by
  rw [simplifyPairs, simplifyValue]
  split_ifs <;> rfl

theorem inlinePairs_ok (follow : Json → Except Exn Json) (pairs rs : List (Str × Json)) :
    inlinePairs follow pairs = .ok rs ↔
      Keyed (fun k v w => inlineValue follow k v = .ok w) (pairs.filter (fun p => kept p.1))
        rs := by
  induction pairs generalizing rs with
  | nil => simp [inlinePairs, keyed_nil_left, eq_comm]
  | cons p pairs ih =>
    obtain ⟨k, v⟩ := p
    by_cases hk : kept k = true
    · rw [inlinePairs_kept follow k v pairs hk,
        List.filter_cons_of_pos (p := fun p : Str × Json => kept p.1) hk, keyed_cons]
      simp only [← ih]
      exact traversed_cons
    · rw [inlinePairs_left_out follow k v pairs (by simpa using hk),
        List.filter_cons_of_neg (p := fun p : Str × Json => kept p.1) hk, ih]

theorem inlineMembers_ok (follow : Json → Except Exn Json) (members rs : List (Str × Json)) :
    inlineMembers follow members = .ok rs ↔
      Keyed (fun _ v w => ToolSchema.inline follow v = .ok w) members rs := by
  induction members generalizing rs with
  | nil => simp [inlineMembers, keyed_nil_left, eq_comm]
  | cons m members ih =>
    obtain ⟨name, v⟩ := m
    rw [keyed_cons]
    simp only [← ih]
    exact traversed_cons

theorem inlineItems_ok (follow : Json → Except Exn Json) (items rs : List Json) :
    inlineItems follow items = .ok rs ↔
      List.Forall₂ (fun v w => ToolSchema.inline follow v = .ok w) items rs := by
  induction items generalizing rs with
  | nil => simp [inlineItems, eq_comm]
  | cons v items ih =>
    rw [List.forall₂_cons_left_iff]
    simp only [← ih]
    exact traversed_cons.trans (by simp)

theorem simplifyPairs_ok (pairs rs : List (Str × Json)) :
    simplifyPairs pairs = .ok rs ↔ Keyed (fun k v w => simplifyValue k v = .ok w) pairs rs := by
  induction pairs generalizing rs with
  | nil => simp [simplifyPairs, keyed_nil_left, eq_comm]
  | cons p pairs ih =>
    obtain ⟨k, v⟩ := p
    rw [simplifyPairs_cons, keyed_cons]
    simp only [← ih]
    exact traversed_cons

theorem simplifyMembers_ok (members rs : List (Str × Json)) :
    simplifyMembers members = .ok rs ↔
      Keyed (fun _ v w => simplify_unions v = .ok w) members rs := by
  induction members generalizing rs with
  | nil => simp [simplifyMembers, keyed_nil_left, eq_comm]
  | cons m members ih =>
    obtain ⟨name, v⟩ := m
    rw [keyed_cons]
    simp only [← ih]
    exact traversed_cons

/-- The reference an object is, its other keywords aside. -/
def reference : Json → Option Json
  | .obj pairs => Json.get pairs "$ref".toList
  | _ => none

/-- What a `$ref` becomes with `hops` references left. -/
def follow (defs : Entries Str Json) : Nat → Json → Except Exn Json
  | 0, _ => .ok generic_object
  | hops + 1, .str path =>
    match definition defs path with
    | some resolved => resolve_refs defs hops resolved
    | none => .ok generic_object
  | _ + 1, _ => .error .AttributeError

theorem resolve_refs_eq (defs : Entries Str Json) (hops : Nat) (schema : Json) :
    resolve_refs defs hops schema = ToolSchema.inline (follow defs hops) schema := by
  cases hops with
  | zero => rfl
  | succ hops =>
    rw [resolve_refs]
    congr 1
    funext ref_path
    cases ref_path <;> rfl

theorem inline_obj (f : Json → Except Exn Json) (pairs : List (Str × Json))
    (h : reference (.obj pairs) = none) :
    ToolSchema.inline f (.obj pairs) = (inlinePairs f pairs).map Json.obj := by
  rw [ToolSchema.inline, show Json.get pairs "$ref".toList = none from h]

theorem unionAt_eq (union_key : Str) (pairs : List (Str × Json)) :
    unionAt union_key pairs = (Json.get pairs union_key).map variantsOf := by
  induction pairs with
  | nil => rfl
  | cons p pairs ih =>
    obtain ⟨k, v⟩ := p
    rw [unionAt, show Json.get ((k, v) :: pairs) union_key = _ from get_cons k union_key v pairs]
    by_cases hk : k = union_key
    · rw [if_pos hk, if_pos hk]
      rfl
    · rw [if_neg hk, if_neg hk, ih]
      rfl

/-- The union an object is simplified by. -/
def union_of (pairs : List (Str × Json)) : Option Json :=
  (Json.get pairs "anyOf".toList).or (Json.get pairs "oneOf".toList)

theorem simplify_unions_obj (pairs : List (Str × Json)) :
    simplify_unions (.obj pairs) =
      match union_of pairs with
      | some value => (variantsOf value).bind (unwrap pairs)
      | none => (simplifyPairs pairs).map Json.obj := by
  rw [simplify_unions, unionAt_eq, unionAt_eq, union_of]
  cases Json.get pairs "anyOf".toList with
  | some value => rfl
  | none => cases Json.get pairs "oneOf".toList <;> rfl

/-- The first two passes. -/
def simplified (defs : Entries Str Json) (hops : Nat) (schema : Json) : Except Exn Json :=
  (resolve_refs defs hops schema).bind simplify_unions

/-- What they make of the value of one keyword. -/
def Passed (defs : Entries Str Json) (hops : Nat) (key : Str) (v w : Json) : Prop :=
  ∃ u, inlineValue (follow defs hops) key v = .ok u ∧ simplifyValue key u = .ok w

/-- The entries of a resolved object. -/
def Inlined (defs : Entries Str Json) (hops : Nat) (pairs rs : List (Str × Json)) : Prop :=
  Keyed (fun k v w => inlineValue (follow defs hops) k v = .ok w)
    (pairs.filter (fun p => kept p.1)) rs

theorem resolved_pairs {defs : Entries Str Json} {hops : Nat} {pairs : List (Str × Json)}
    (href : reference (.obj pairs) = none) (r : Json) :
    resolve_refs defs hops (.obj pairs) = .ok r ↔
      ∃ rs, r = .obj rs ∧ Inlined defs hops pairs rs := by
  rw [resolve_refs_eq, inline_obj _ _ href, map_eq_ok]
  simp only [inlinePairs_ok, Inlined]
  exact ⟨fun ⟨rs, hrs, hr⟩ => ⟨rs, hr.symm, hrs⟩, fun ⟨rs, hr, hrs⟩ => ⟨rs, hrs, hr.symm⟩⟩

theorem Inlined.get_some {defs : Entries Str Json} {hops : Nat} {pairs rs : List (Str × Json)}
    (h : Inlined defs hops pairs rs) {key : Str} (hkey : kept key = true) {v : Json}
    (hv : Json.get pairs key = some v) :
    ∃ w, Json.get rs key = some w ∧ inlineValue (follow defs hops) key v = .ok w :=
  Keyed.get_some h ((get_filter pairs kept key hkey).trans hv)

theorem Inlined.get_none {defs : Entries Str Json} {hops : Nat} {pairs rs : List (Str × Json)}
    (h : Inlined defs hops pairs rs) {key : Str} (hkey : kept key = true)
    (hv : Json.get pairs key = none) : Json.get rs key = none :=
  Keyed.get_none h ((get_filter pairs kept key hkey).trans hv)

theorem inlineValue_same {f : Json → Except Exn Json} {key : Str} {v : Json}
    (hp : key ≠ "properties".toList) (hi : key ≠ "items".toList) (hu : key ∉ union_keywords) :
    inlineValue f key v = .ok v := by
  rw [inlineValue, if_neg hp, if_neg hi, if_neg hu]

/-- A keyword references are not looked for under is found unchanged. -/
theorem Inlined.same {defs : Entries Str Json} {hops : Nat} {pairs rs : List (Str × Json)}
    (h : Inlined defs hops pairs rs) {key : Str} (hkey : kept key = true)
    (hp : key ≠ "properties".toList) (hi : key ≠ "items".toList) (hu : key ∉ union_keywords) :
    Json.get rs key = Json.get pairs key := by
  cases hv : Json.get pairs key with
  | none => exact h.get_none hkey hv
  | some v =>
    obtain ⟨w, hw, hvalue⟩ := h.get_some hkey hv
    cases (inlineValue_same hp hi hu).symm.trans hvalue
    exact hw

/-- The resolved object has the resolved union. -/
theorem Inlined.union {defs : Entries Str Json} {hops : Nat}
    {pairs rs : List (Str × Json)} (hrs : Inlined defs hops pairs rs) {value : Json}
    (hunion : union_of pairs = some value) :
    ∃ w, union_of rs = some w ∧ inlineUnion (follow defs hops) value = .ok w := by
  unfold union_of at hunion ⊢
  cases hany : Json.get pairs "anyOf".toList with
  | some v =>
    rw [hany] at hunion
    cases hunion
    obtain ⟨w, hw, hv⟩ := hrs.get_some (by decide) hany
    exact ⟨w, by rw [hw]; rfl, hv⟩
  | none =>
    rw [hany] at hunion
    obtain ⟨w, hw, hv⟩ := hrs.get_some (by decide) hunion
    exact ⟨w, by rw [hrs.get_none (by decide) hany, hw]; rfl, hv⟩

theorem simplified_node {defs : Entries Str Json} {hops : Nat} {pairs : List (Str × Json)}
    (href : reference (.obj pairs) = none) (hunion : union_of pairs = none) (t : Json) :
    simplified defs hops (.obj pairs) = .ok t ↔
      ∃ ts, t = .obj ts ∧
        Keyed (Passed defs hops) (pairs.filter (fun p => kept p.1)) ts := by
  obtain ⟨hany, hone⟩ := Option.or_eq_none_iff.mp hunion
  have hnone : ∀ rs, Inlined defs hops pairs rs → union_of rs = none := fun rs hrs =>
    Option.or_eq_none_iff.mpr ⟨hrs.get_none (by decide) hany, hrs.get_none (by decide) hone⟩
  constructor
  · intro h
    obtain ⟨r, hr, ht⟩ := bind_eq_ok h
    obtain ⟨rs, rfl, hrs⟩ := (resolved_pairs href r).mp hr
    rw [simplify_unions_obj, hnone rs hrs] at ht
    obtain ⟨ts, hts, rfl⟩ := map_eq_ok.mp ht
    exact ⟨ts, rfl, (keyed_comp _ _ _ _).mp ⟨rs, hrs, (simplifyPairs_ok rs ts).mp hts⟩⟩
  · rintro ⟨ts, rfl, hts⟩
    obtain ⟨rs, hrs, hts⟩ := (keyed_comp _ _ _ _).mpr hts
    rw [simplified, (resolved_pairs href _).mpr ⟨rs, rfl, hrs⟩]
    change simplify_unions (.obj rs) = _
    rw [simplify_unions_obj, hnone rs hrs]
    exact map_eq_ok.mpr ⟨ts, (simplifyPairs_ok rs ts).mpr hts, rfl⟩

/-- The value of one keyword when every subschema under it goes through `child`. -/
def Walked (child : Json → Json → Prop) (key : Str) (v w : Json) : Prop :=
  if key = "properties".toList then
    match v with
    | .obj members => ∃ rs, w = .obj rs ∧ Keyed (fun _ => child) members rs
    | _ => w = v
  else if key = "items".toList then child v w
  else w = v

theorem simplified_scalar (defs : Entries Str Json) (hops : Nat) (v : Json)
    (h : v.isObject = false) : simplified defs hops v = .ok v := by
  rw [simplified, resolve_refs_eq]
  cases v with
  | obj pairs => cases h
  | _ => rfl

theorem passed_items (defs : Entries Str Json) (hops : Nat) (v w : Json) :
    Passed defs hops "items".toList v w ↔ simplified defs hops v = .ok w := by
  rw [simplified, resolve_refs_eq]
  constructor
  · rintro ⟨u, hu, hw⟩
    rw [show ToolSchema.inline (follow defs hops) v = .ok u from hu]
    exact hw
  · intro h
    exact bind_eq_ok h

theorem passed_members (defs : Entries Str Json) (hops : Nat) (members : List (Str × Json))
    (w : Json) :
    Passed defs hops "properties".toList (.obj members) w ↔
      ∃ rs, w = .obj rs ∧ Keyed (fun _ a b => simplified defs hops a = .ok b) members rs := by
  have hcomp : ∀ a b, (∃ u, ToolSchema.inline (follow defs hops) a = .ok u ∧
      simplify_unions u = .ok b) ↔ simplified defs hops a = .ok b :=
    fun a b => (passed_items defs hops a b)
  constructor
  · rintro ⟨u, hu, hw⟩
    obtain ⟨us, hus, rfl⟩ :=
      map_eq_ok.mp (show (inlineMembers _ members).map Json.obj = .ok u from hu)
    obtain ⟨rs, hrs, rfl⟩ :=
      map_eq_ok.mp (show (simplifyMembers us).map Json.obj = .ok w from hw)
    have hboth := (keyed_comp _ _ _ _).mp
      ⟨us, (inlineMembers_ok _ _ _).mp hus, (simplifyMembers_ok _ _).mp hrs⟩
    exact ⟨rs, rfl, hboth.mono (fun _ a b _ h => (hcomp a b).mp h)⟩
  · rintro ⟨rs, rfl, hrs⟩
    have hboth := hrs.mono (fun _ a b _ h => (hcomp a b).mpr h)
    obtain ⟨us, hus, hrs⟩ := (keyed_comp _ _ _ _).mpr hboth
    refine ⟨.obj us, ?_, ?_⟩
    · exact map_eq_ok.mpr ⟨us, (inlineMembers_ok _ _ _).mpr hus, rfl⟩
    · exact map_eq_ok.mpr ⟨rs, (simplifyMembers_ok _ _).mpr hrs, rfl⟩

/-- The two passes together descend into `properties` and `items`. -/
theorem passed_walked (defs : Entries Str Json) (hops : Nat) (key : Str) (v w : Json)
    (hkey : key ∉ union_keywords) :
    Passed defs hops key v w ↔ Walked (fun a b => simplified defs hops a = .ok b) key v w := by
  unfold Walked
  by_cases hp : key = "properties".toList
  · subst hp
    rw [if_pos rfl]
    cases v with
    | obj members => exact passed_members defs hops members w
    | _ =>
      constructor
      · rintro ⟨u, hu, hw⟩
        cases hu
        cases hw
        rfl
      · rintro rfl
        exact ⟨_, rfl, rfl⟩
  · rw [if_neg hp]
    by_cases hi : key = "items".toList
    · subst hi
      exact passed_items defs hops v w
    · rw [if_neg hi]
      have hinline : inlineValue (follow defs hops) key v = .ok v := inlineValue_same hp hi hkey
      have hsimplify : simplifyValue key v = .ok v := by
        rw [simplifyValue, if_neg hp, if_neg hi]
      constructor
      · rintro ⟨u, hu, hw⟩
        cases hinline.symm.trans hu
        cases hsimplify.symm.trans hw
        rfl
      · rintro rfl
        exact ⟨w, hinline, hsimplify⟩

/-- The last two passes with `left` levels before the cap. -/
def capped (left : Nat) (schema : Json) : Json := strip_unsupported_keys (cap_depth left schema)

/-- The keywords of a generic object. -/
def bare_keywords : List Str := ["type".toList, "description".toList]

theorem stripPairs_bare (pairs : List (Str × Json)) (h : ∀ p ∈ pairs, p.1 ∈ bare_keywords) :
    stripPairs pairs = pairs := by
  induction pairs with
  | nil => rfl
  | cons p pairs ih =>
    obtain ⟨k, v⟩ := p
    have hk : k ∈ bare_keywords := h (k, v) (by simp)
    have hallowed : ∀ j ∈ bare_keywords,
        j ∈ allowed ∧ j ≠ "properties".toList ∧ j ≠ "items".toList := by decide
    obtain ⟨hin, hp, hi⟩ := hallowed k hk
    rw [stripPairs, if_pos hin, ih (fun q hq => h q (List.mem_cons_of_mem _ hq))]
    simp only [if_neg hp, if_neg hi]

theorem description_of_keys (pairs : List (Str × Json)) :
    ∀ p ∈ description_of pairs, p.1 = "description".toList := by
  intro p hp
  unfold description_of at hp
  split at hp
  · rw [List.mem_singleton.mp hp]
  · cases hp

theorem capped_cut (pairs : List (Str × Json)) :
    capped 0 (.obj pairs) =
      .obj (("type".toList, .str "object".toList) :: description_of pairs) := by
  rw [capped, cap_depth, strip_unsupported_keys, stripPairs_bare]
  intro p hp
  rcases List.mem_cons.mp hp with rfl | hp
  · decide
  · rw [description_of_keys pairs p hp]
    decide

theorem capped_scalar (left : Nat) (v : Json) (h : v.isObject = false) : capped left v = v := by
  cases v with
  | obj pairs => cases h
  | _ => rfl

theorem capped_members (left : Nat) (members : List (Str × Json)) :
    stripMembers (capMembers left members) = members.map (fun m => (m.1, capped left m.2)) := by
  induction members with
  | nil => rfl
  | cons m members ih =>
    obtain ⟨name, v⟩ := m
    rw [capMembers, stripMembers, ih]
    rfl

/-- What the last two passes make of the value of an allowed keyword. -/
def cappedValue (left : Nat) (key : Str) (v : Json) : Json :=
  if key = "properties".toList then stripProperties (capProperties left v)
  else if key = "items".toList then capped left v
  else v

theorem capped_pairs (left : Nat) (pairs : List (Str × Json)) :
    stripPairs (capPairs left pairs) =
      (pairs.filter (fun p => p.1 ∈ allowed)).map (fun p => (p.1, cappedValue left p.1 p.2)) := by
  induction pairs with
  | nil => rfl
  | cons p pairs ih =>
    obtain ⟨k, v⟩ := p
    rw [capPairs, stripPairs, ih]
    by_cases hk : k ∈ allowed
    · rw [if_pos hk, List.filter_cons_of_pos (by simpa using hk), List.map_cons, cappedValue]
      split_ifs <;> rfl
    · rw [if_neg hk, List.filter_cons_of_neg (by simpa using hk)]

theorem cappedValue_walked (left : Nat) (key : Str) (v : Json) :
    Walked (fun a b => b = capped left a) key v (cappedValue left key v) := by
  unfold Walked cappedValue
  by_cases hp : key = "properties".toList
  · rw [if_pos hp, if_pos hp]
    cases v with
    | obj members =>
      refine ⟨_, rfl, ?_⟩
      rw [capped_members]
      exact List.forall₂_map_right_iff.mpr (List.forall₂_same.mpr (fun _ _ => ⟨rfl, rfl⟩))
    | _ => rfl
  · rw [if_neg hp, if_neg hp]
    split_ifs <;> rfl

theorem Walked.of_members {C : Json → Json → Prop} {members : List (Str × Json)} {w : Json}
    (h : Walked C "properties".toList (.obj members) w) :
    ∃ rs, w = .obj rs ∧ Keyed (fun _ => C) members rs := h

theorem Walked.to_members {C : Json → Json → Prop} {v : Json} {rs : List (Str × Json)}
    (h : Walked C "properties".toList v (.obj rs)) :
    ∃ members, v = .obj members ∧ Keyed (fun _ => C) members rs := by
  cases v with
  | obj members =>
    obtain ⟨us, hus, hkeyed⟩ := h.of_members
    cases hus
    exact ⟨members, rfl, hkeyed⟩
  | _ => cases (show _ = _ from h)

theorem Walked.item {C : Json → Json → Prop} {v w : Json} (h : Walked C "items".toList v w) :
    C v w := h

theorem Walked.same {C : Json → Json → Prop} {key : Str} {v w : Json} (h : Walked C key v w)
    (hp : key ≠ "properties".toList) (hi : key ≠ "items".toList) : w = v := by
  unfold Walked at h
  rw [if_neg hp, if_neg hi] at h
  exact h

theorem walked_same {C : Json → Json → Prop} {key : Str} {v : Json}
    (hp : key ≠ "properties".toList) (hi : key ≠ "items".toList) : Walked C key v v := by
  unfold Walked
  rw [if_neg hp, if_neg hi]

theorem Walked.mono {C D : Json → Json → Prop} {key : Str} {v w : Json}
    (hCD : ∀ a b, C a b → D a b) (h : Walked C key v w) : Walked D key v w := by
  unfold Walked at h ⊢
  by_cases hp : key = "properties".toList
  · rw [if_pos hp] at h ⊢
    cases v with
    | obj members =>
      obtain ⟨rs, rfl, hrs⟩ := h
      exact ⟨rs, rfl, hrs.mono (fun _ a b _ hab => hCD a b hab)⟩
    | _ => exact h
  · rw [if_neg hp] at h ⊢
    by_cases hi : key = "items".toList
    · rw [if_pos hi] at h ⊢
      exact hCD v w h
    · rw [if_neg hi] at h ⊢
      exact h

theorem Walked.comp {C D : Json → Json → Prop} {key : Str} {u v w : Json}
    (h : Walked C key u v) (h' : Walked D key v w) :
    Walked (fun a c => ∃ b, C a b ∧ D b c) key u w := by
  unfold Walked at h h' ⊢
  by_cases hp : key = "properties".toList
  · rw [if_pos hp] at h h' ⊢
    cases u with
    | obj members =>
      obtain ⟨rs, rfl, hrs⟩ := h
      obtain ⟨ts, rfl, hts⟩ := h'
      exact ⟨ts, rfl, (keyed_comp _ _ _ _).mp ⟨rs, hrs, hts⟩⟩
    | _ =>
      cases h
      exact h'
  · rw [if_neg hp] at h h' ⊢
    by_cases hi : key = "items".toList
    · rw [if_pos hi] at h h' ⊢
      exact ⟨v, h, h'⟩
    · rw [if_neg hi] at h h' ⊢
      exact h'.trans h

end AigentSquad.SchemaPasses
