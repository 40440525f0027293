import AigentSquad.SchemaPasses

/-!
# Which raw schema a normalised one comes from

References first lead somewhere, a union with one variant left then hands over
to that variant. What the first two passes return is either the object so
reached, rebuilt keyword by keyword, or a generic object.
-/

set_option autoImplicit false

namespace AigentSquad.SchemaWalk
open AigentSquad.PyText AigentSquad.PyJson AigentSquad.Dict AigentSquad.Effects
open AigentSquad.ToolSchema hiding inline
open AigentSquad.KeyedEntries AigentSquad.Interaction AigentSquad.SchemaPasses

/-- Where a chain of references ends. -/
inductive Destination where
  | fails
  | collapses
  | schema (hops : Nat) (target : Json)

def destination (defs : Entries Str Json) : Nat → Json → Destination
  | 0, schema =>
    match reference schema with
    | some _ => .collapses
    | none => .schema 0 schema
  | hops + 1, schema =>
    match reference schema with
    | some (.str path) =>
      match definition defs path with
      | some resolved => destination defs hops resolved
      | none => .collapses
    | some _ => .fails
    | none => .schema (hops + 1) schema

variable {defs : Entries Str Json} {hops hops' : Nat} {schema target : Json}

theorem arr_destination (elements : List Json) (hops₁ : Nat) (pairs : List (Str × Json)) :
    destination defs hops (.arr elements) ≠ .schema hops₁ (.obj pairs) := by
  cases hops <;> simp [destination, reference]

theorem isObject_iff {v : Json} : v.isObject = true ↔ ∃ pairs, v = .obj pairs := by
  cases v <;> simp [Json.isObject]

theorem inline_reference {f : Json → Except Exn Json} {ref_path : Json}
    (h : reference schema = some ref_path) : ToolSchema.inline f schema = f ref_path := by
  cases schema with
  | obj pairs => rw [ToolSchema.inline, show Json.get pairs "$ref".toList = some ref_path from h]
  | _ => cases h

theorem resolve_hop {path : Str} {resolved : Json} (href : reference schema = some (.str path))
    (hdef : definition defs path = some resolved) :
    resolve_refs defs (hops + 1) schema = resolve_refs defs hops resolved := by
  rw [resolve_refs_eq, inline_reference href, follow, hdef]

theorem destination_schema (h : destination defs hops schema = .schema hops' target) :
    reference target = none ∧
      resolve_refs defs hops schema = resolve_refs defs hops' target ∧
      (hops' < hops ∨ hops' = hops ∧ target = schema) := by
  fun_induction destination defs hops schema with
  | case1 schema ref_path href => cases h
  | case2 schema href =>
    cases h
    exact ⟨href, rfl, Or.inr ⟨rfl, rfl⟩⟩
  | case3 hops schema path href resolved hdef ih =>
    obtain ⟨hnone, heq, hless⟩ := ih h
    exact ⟨hnone, (resolve_hop href hdef).trans heq, Or.inl (by omega)⟩
  | case4 hops schema path href hdef => cases h
  | case5 hops schema ref_path hno href => cases h
  | case6 hops schema href =>
    cases h
    exact ⟨href, rfl, Or.inr ⟨rfl, rfl⟩⟩

theorem destination_collapses (h : destination defs hops schema = .collapses) :
    resolve_refs defs hops schema = .ok generic_object := by
  fun_induction destination defs hops schema with
  | case1 schema ref_path href => rw [resolve_refs_eq, inline_reference href, follow]
  | case2 schema href => cases h
  | case3 hops schema path href resolved hdef ih => exact (resolve_hop href hdef).trans (ih h)
  | case4 hops schema path href hdef => rw [resolve_refs_eq, inline_reference href, follow, hdef]
  | case5 hops schema ref_path hno href => cases h
  | case6 hops schema href => cases h

theorem destination_fails (h : destination defs hops schema = .fails) :
    resolve_refs defs hops schema = .error .AttributeError := by
  fun_induction destination defs hops schema with
  | case1 schema ref_path href => cases h
  | case2 schema href => cases h
  | case3 hops schema path href resolved hdef ih => exact (resolve_hop href hdef).trans (ih h)
  | case4 hops schema path href hdef => cases h
  | case5 hops schema ref_path hno href =>
    rw [resolve_refs_eq, inline_reference href]
    cases ref_path with
    | str path => exact absurd rfl (hno path)
    | _ => rfl
  | case6 hops schema href => cases h

theorem definition_mem {path : Str} {resolved : Json} (h : definition defs path = some resolved) :
    ∃ name, (name, resolved) ∈ defs := by
  obtain ⟨p, _, hp⟩ := List.exists_of_findSome?_eq_some h
  split_ifs at hp
  exact ⟨_, mem_of_get defs _ _ hp⟩

/-- What holds of a schema and of every definition holds where references end. -/
theorem destination_preserves {P : Json → Prop} (hdefs : ∀ p ∈ defs, P p.2) (h : P schema)
    (hdest : destination defs hops schema = .schema hops' target) : P target := by
  fun_induction destination defs hops schema with
  | case1 schema ref_path href => cases hdest
  | case2 schema href =>
    cases hdest
    exact h
  | case3 hops schema path href resolved hdef ih =>
    obtain ⟨name, hmem⟩ := definition_mem hdef
    exact ih (hdefs _ hmem) hdest
  | case4 hops schema path href hdef => cases hdest
  | case5 hops schema ref_path hno href => cases hdest
  | case6 hops schema href =>
    cases hdest
    exact h

theorem simplified_destination (h : destination defs hops schema = .schema hops' target) :
    simplified defs hops schema = simplified defs hops' target := by
  rw [simplified, (destination_schema h).2.1, simplified]

theorem simplified_collapses (h : destination defs hops schema = .collapses) :
    simplified defs hops schema = .ok generic_object := by
  rw [simplified, destination_collapses h]
  rfl

/-- A schema below the end of its references comes later in the walk. -/
theorem walk_induction (defs : Entries Str Json) {motive : Nat → Json → Prop}
    (step : ∀ hops schema,
      (∀ hops' target below, destination defs hops schema = .schema hops' target →
        sizeOf below < sizeOf target → motive hops' below) → motive hops schema) :
    ∀ hops schema, motive hops schema := by
  intro hops
  induction hops using Nat.strongRecOn with
  | _ hops ihops =>
    intro schema
    induction hn : sizeOf schema using Nat.strongRecOn generalizing schema with
    | _ n ihn =>
      apply step
      intro hops' target below hdest hbelow
      rcases (destination_schema hdest).2.2 with hless | ⟨rfl, rfl⟩
      · exact ihops hops' hless below
      · exact ihn (sizeOf below) (hn ▸ hbelow) below rfl

/-- `v.get("type")` of an object is `"null"`. -/
def typed_null : Json → Bool
  | .obj pairs => type_is_null pairs
  | _ => false

/-- A variant whose references end at a schema of type null. -/
def is_null (defs : Entries Str Json) (hops : Nat) (variant : Json) : Bool :=
  match destination defs hops variant with
  | .schema _ target => typed_null target
  | _ => false

/-- The variants left of a union. -/
def live (defs : Entries Str Json) (hops : Nat) (items : List Json) : List Json :=
  items.filter (fun variant => !is_null defs hops variant)

def leads_to_object (defs : Entries Str Json) (hops : Nat) (schema : Json) : Bool :=
  match destination defs hops schema with
  | .schema _ target => target.isObject
  | .collapses => true
  | .fails => false

theorem resolved_variant {v r : Json} (h : resolve_refs defs hops v = .ok r) :
    r.isObject = leads_to_object defs hops v ∧ typed_null r = is_null defs hops v := by
  unfold leads_to_object is_null
  cases hdest : destination defs hops v with
  | fails =>
    rw [destination_fails hdest] at h
    cases h
  | collapses =>
    rw [destination_collapses hdest] at h
    cases h
    exact ⟨rfl, rfl⟩
  | schema hops' target =>
    obtain ⟨href, heq, _⟩ := destination_schema hdest
    rw [heq] at h
    cases target with
    | obj pairs =>
      obtain ⟨rs, rfl, hrs⟩ := (resolved_pairs href r).mp h
      refine ⟨rfl, ?_⟩
      change type_is_null rs = type_is_null pairs
      rw [type_is_null, type_is_null, hrs.same (by decide) (by decide) (by decide) (by decide)]
    | _ =>
      rw [resolve_refs_eq] at h
      cases h
      exact ⟨rfl, rfl⟩

theorem live_mem {v : Json} {items : List Json} (h : live defs hops items = [v]) : v ∈ items :=
  List.mem_of_mem_filter (h ▸ List.mem_singleton_self v)

theorem live_cons (v : Json) (items : List Json) :
    live defs hops (v :: items) =
      if is_null defs hops v then live defs hops items else v :: live defs hops items := by
  rw [live, List.filter_cons]
  cases is_null defs hops v <;> rfl

theorem nonNull_cons (pairs : List (Str × Json)) (rs : List Json) :
    nonNull (.obj pairs :: rs) = (nonNull rs).map (fun rest =>
      if typed_null (.obj pairs) then rest else simplify_unions (.obj pairs) :: rest) := rfl

/-- The filtering of the variants: it raises at one without `get`. -/
theorem nonNull_resolved {items rs : List Json}
    (h : List.Forall₂ (fun v r => resolve_refs defs hops v = .ok r) items rs)
    (vs : List (Except Exn Json)) :
    nonNull rs = .ok vs ↔ (∀ v ∈ items, leads_to_object defs hops v = true) ∧
      vs = (live defs hops items).map (simplified defs hops) := by
  induction h generalizing vs with
  | nil =>
    constructor
    · intro h
      cases h
      exact ⟨by simp, rfl⟩
    · rintro ⟨_, rfl⟩
      rfl
  | @cons v r items rs hr _ ih =>
    obtain ⟨hobj, hnull⟩ := resolved_variant hr
    rw [List.forall_mem_cons, ← hobj]
    cases r with
    | obj pairs =>
      have hsimplified : simplified defs hops v = simplify_unions (.obj pairs) := by
        rw [simplified, hr]
        rfl
      have hlive : (live defs hops (v :: items)).map (simplified defs hops) =
          if typed_null (.obj pairs) then (live defs hops items).map (simplified defs hops)
          else
            simplify_unions (.obj pairs) :: (live defs hops items).map (simplified defs hops) := by
        rw [live_cons, hnull]
        split_ifs
        · rfl
        · rw [List.map_cons, hsimplified]
      rw [nonNull_cons, map_eq_ok, hlive]
      simp only [ih]
      constructor
      · rintro ⟨rest, ⟨hall, rfl⟩, rfl⟩
        exact ⟨⟨rfl, hall⟩, rfl⟩
      · rintro ⟨⟨_, hall⟩, rfl⟩
        exact ⟨_, ⟨hall, rfl⟩, rfl⟩
    | _ =>
      constructor
      · intro h
        cases h
      · rintro ⟨⟨h, _⟩, _⟩
        cases h

theorem unwrap_congr {pairs rs : List (Str × Json)}
    (h : Json.get rs "description".toList = Json.get pairs "description".toList) :
    unwrap rs = unwrap pairs := by
  have hwith : with_description rs = with_description pairs := by
    funext merged
    cases merged with
    | obj merged => rw [with_description, with_description, h]
    | _ => rfl
  funext variants
  match variants with
  | [] => rfl
  | [variant] => rw [unwrap, unwrap, hwith]
  | _ :: _ :: _ => rw [unwrap, unwrap, description_of, description_of, h] <;> simp

/-- An object with a union becomes what its variants leave of it. -/
theorem simplified_union {pairs : List (Str × Json)} {items : List Json}
    (href : reference (.obj pairs) = none) (hunion : union_of pairs = some (.arr items))
    (t : Json) :
    simplified defs hops (.obj pairs) = .ok t ↔
      (∃ r, resolve_refs defs hops (.obj pairs) = .ok r) ∧
      (∀ v ∈ items, leads_to_object defs hops v = true) ∧
      unwrap pairs ((live defs hops items).map (simplified defs hops)) = .ok t := by
  have hresolved : ∀ r, resolve_refs defs hops (.obj pairs) = .ok r →
      (simplify_unions r = .ok t ↔ (∀ v ∈ items, leads_to_object defs hops v = true) ∧
        unwrap pairs ((live defs hops items).map (simplified defs hops)) = .ok t) := by
    intro r hr
    obtain ⟨rs, rfl, hrs⟩ := (resolved_pairs href r).mp hr
    obtain ⟨w, hw, hinline⟩ := hrs.union hunion
    obtain ⟨us, hus, rfl⟩ := map_eq_ok.mp hinline
    have hitems : List.Forall₂ (fun v r => resolve_refs defs hops v = .ok r) items us :=
      ((inlineItems_ok _ _ _).mp hus).imp (fun a _ h => (resolve_refs_eq defs hops a).trans h)
    have hvariants := nonNull_resolved hitems
    rw [simplify_unions_obj, hw,
      ← unwrap_congr (hrs.same (by decide) (by decide) (by decide) (by decide))]
    constructor
    · intro h
      obtain ⟨vs, hvs, ht⟩ := bind_eq_ok h
      obtain ⟨hall, rfl⟩ := (hvariants vs).mp hvs
      exact ⟨hall, ht⟩
    · rintro ⟨hall, ht⟩
      change (nonNull us).bind (unwrap rs) = _
      rw [(hvariants _).mpr ⟨hall, rfl⟩]
      exact ht
  constructor
  · intro h
    obtain ⟨r, hr, ht⟩ := bind_eq_ok h
    exact ⟨⟨r, hr⟩, (hresolved r hr).mp ht⟩
  · rintro ⟨⟨r, hr⟩, hrest⟩
    rw [simplified, hr]
    exact (hresolved r hr).mpr hrest

theorem value_smaller {pairs : List (Str × Json)} {key : Str} {v : Json} (h : (key, v) ∈ pairs) :
    sizeOf v < sizeOf (Json.obj pairs) := by
  have hmem := List.sizeOf_lt_of_mem h
  rw [Json.obj.sizeOf_spec]
  rw [Prod.mk.sizeOf_spec] at hmem
  omega

theorem member_smaller {pairs members : List (Str × Json)} {key : Str} {m : Str × Json}
    (h : (key, .obj members) ∈ pairs) (hm : m ∈ members) :
    sizeOf m.2 < sizeOf (Json.obj pairs) :=
  (value_smaller (show (m.1, m.2) ∈ members from hm)).trans (value_smaller h)

theorem variant_smaller {pairs : List (Str × Json)} {items : List Json} {v : Json}
    (hunion : union_of pairs = some (.arr items)) (hv : v ∈ items) :
    sizeOf v < sizeOf (Json.obj pairs) := by
  have hitem := List.sizeOf_lt_of_mem hv
  have hvalue : sizeOf (Json.arr items) < sizeOf (Json.obj pairs) := by
    rcases Option.or_eq_some_iff.mp hunion with h | ⟨_, h⟩
    · exact value_smaller (mem_of_get pairs _ _ h)
    · exact value_smaller (mem_of_get pairs _ _ h)
  rw [Json.arr.sizeOf_spec] at hvalue
  omega

/-- A union keyword whose value is no list has no variants or raises. -/
theorem simplified_odd_union {pairs : List (Str × Json)} {value t : Json}
    (href : reference (.obj pairs) = none) (hunion : union_of pairs = some value)
    (harr : ∀ items, value ≠ .arr items) (h : simplified defs hops (.obj pairs) = .ok t) :
    t = generic_object := by
  obtain ⟨r, hr, ht⟩ := bind_eq_ok h
  obtain ⟨rs, rfl, hrs⟩ := (resolved_pairs href r).mp hr
  obtain ⟨w, hw, hinline⟩ := hrs.union hunion
  rw [simplify_unions_obj, hw] at ht
  obtain ⟨vs, hvs, ht⟩ := bind_eq_ok ht
  cases value with
  | arr items => exact absurd rfl (harr items)
  | str s =>
    cases hinline
    rw [variantsOf] at hvs
    split_ifs at hvs
    cases hvs
    cases ht
    rfl
  | obj members =>
    cases hinline
    rw [variantsOf] at hvs
    split_ifs at hvs
    cases hvs
    cases ht
    rfl
  | _ =>
    cases hinline
    cases hvs

/-- How the first two passes come to a result. -/
inductive Outcome (defs : Entries Str Json) (hops : Nat) (schema : Json) : Json → Prop
  | collapsed (hdest : destination defs hops schema = .collapses) :
      Outcome defs hops schema generic_object
  | scalar {hops' : Nat} {target : Json}
      (hdest : destination defs hops schema = .schema hops' target)
      (htarget : target.isObject = false) : Outcome defs hops schema target
  | node {hops' : Nat} {pairs ts : List (Str × Json)}
      (hdest : destination defs hops schema = .schema hops' (.obj pairs))
      (hunion : union_of pairs = none)
      (hts : Keyed (Passed defs hops') (pairs.filter (fun p => kept p.1)) ts) :
      Outcome defs hops schema (.obj ts)
  | unwrapped {hops' : Nat} {pairs : List (Str × Json)} {items : List Json} {v m : Json}
      (hdest : destination defs hops schema = .schema hops' (.obj pairs))
      (hunion : union_of pairs = some (.arr items)) (hlive : live defs hops' items = [v])
      (hobject : leads_to_object defs hops' v = true) (hm : simplified defs hops' v = .ok m) :
      Outcome defs hops schema (with_description pairs m)
  | given_up {hops' : Nat} {pairs described : List (Str × Json)} {value : Json}
      (hdest : destination defs hops schema = .schema hops' (.obj pairs))
      (hunion : union_of pairs = some value) :
      Outcome defs hops schema
        (.obj (("type".toList, .str "object".toList) :: description_of described))

theorem union_outcome {pairs : List (Str × Json)} {value t : Json}
    (hdest : destination defs hops schema = .schema hops' (.obj pairs))
    (hunion : union_of pairs = some value) (h : simplified defs hops' (.obj pairs) = .ok t) :
    Outcome defs hops schema t := by
  obtain ⟨href, _⟩ := destination_schema hdest
  have hgeneric : Outcome defs hops schema
      (.obj (("type".toList, .str "object".toList) :: description_of [])) := .given_up hdest hunion
  by_cases harr : ∃ items, value = .arr items
  · obtain ⟨items, rfl⟩ := harr
    obtain ⟨_, hall, hunwrap⟩ := (simplified_union href hunion t).mp h
    cases hlive : live defs hops' items with
    | nil =>
      rw [hlive] at hunwrap
      cases hunwrap
      exact hgeneric
    | cons v rest =>
      rw [hlive] at hunwrap
      cases rest with
      | nil =>
        obtain ⟨m, hm, rfl⟩ := map_eq_ok.mp hunwrap
        exact .unwrapped hdest hunion hlive (hall v (live_mem hlive)) hm
      | cons _ _ =>
        cases hunwrap
        exact .given_up hdest hunion
  · rw [simplified_odd_union href hunion (fun items h => harr ⟨items, h⟩) h]
    exact hgeneric

theorem simplified_outcome {t : Json} (h : simplified defs hops schema = .ok t) :
    Outcome defs hops schema t := by
  cases hdest : destination defs hops schema with
  | fails =>
    rw [simplified, destination_fails hdest] at h
    cases h
  | collapses =>
    rw [simplified_collapses hdest] at h
    cases h
    exact .collapsed hdest
  | schema hops' target =>
    rw [simplified_destination hdest] at h
    cases htarget : target.isObject with
    | false =>
      rw [simplified_scalar _ _ _ htarget] at h
      cases h
      exact .scalar hdest htarget
    | true =>
      obtain ⟨pairs, rfl⟩ := isObject_iff.mp htarget
      cases hunion : union_of pairs with
      | none =>
        obtain ⟨ts, rfl, hts⟩ := (simplified_node (destination_schema hdest).1 hunion t).mp h
        exact .node hdest hunion hts
      | some value => exact union_outcome hdest hunion h

/-- The object a schema comes to through references and single variants. -/
inductive Comes (defs : Entries Str Json) : Nat → Json → Nat → List (Str × Json) → Prop
  | node {hops : Nat} {schema : Json} {hops' : Nat} {pairs : List (Str × Json)}
      (hdest : destination defs hops schema = .schema hops' (.obj pairs))
      (hunion : union_of pairs = none) : Comes defs hops schema hops' pairs
  | variant {hops : Nat} {schema : Json} {hops₁ : Nat} {union : List (Str × Json)}
      {items : List Json} {v : Json} {hops' : Nat} {pairs : List (Str × Json)}
      (hdest : destination defs hops schema = .schema hops₁ (.obj union))
      (hunion : union_of union = some (.arr items)) (hlive : live defs hops₁ items = [v])
      (rest : Comes defs hops₁ v hops' pairs) : Comes defs hops schema hops' pairs

theorem Comes.unique {pairs pairs' : List (Str × Json)} {hops₂ : Nat}
    (h : Comes defs hops schema hops' pairs) (h' : Comes defs hops schema hops₂ pairs') :
    hops' = hops₂ ∧ pairs = pairs' := by
  induction h with
  | node hdest hunion =>
    cases h' with
    | node hdest' _ =>
      cases hdest.symm.trans hdest'
      exact ⟨rfl, rfl⟩
    | variant hdest' hunion' _ _ =>
      cases hdest.symm.trans hdest'
      cases hunion.symm.trans hunion'
  | variant hdest hunion hlive _ ih =>
    cases h' with
    | node hdest' hunion' =>
      cases hdest.symm.trans hdest'
      cases hunion.symm.trans hunion'
    | variant hdest' hunion' hlive' rest' =>
      cases hdest.symm.trans hdest'
      cases hunion.symm.trans hunion'
      cases hlive.symm.trans hlive'
      exact ih rest'

/-- The object `pairs` rebuilt, perhaps with the description of a union added. -/
def Rebuilt (defs : Entries Str Json) (hops : Nat) (pairs : List (Str × Json)) (t : Json) : Prop :=
  ∃ ts added, t = .obj (ts ++ added) ∧
    Keyed (Passed defs hops) (pairs.filter (fun p => kept p.1)) ts ∧
    ∀ p ∈ added, p.1 = "description".toList

/-- A generic object, or a value that is no object. -/
def Bare : Json → Prop
  | .obj pairs => Json.get pairs "type".toList = some (.str "object".toList) ∧
      ∀ p ∈ pairs, p.1 ∈ bare_keywords
  | _ => True

theorem bare_scalar {v : Json} (h : v.isObject = false) : Bare v := by
  cases v with
  | obj pairs => cases h
  | _ => exact trivial

theorem bare_generic (pairs : List (Str × Json)) :
    Bare (.obj (("type".toList, .str "object".toList) :: description_of pairs)) := by
  refine ⟨rfl, ?_⟩
  intro p hp
  rcases List.mem_cons.mp hp with rfl | hp
  · simp [bare_keywords]
  · rw [description_of_keys pairs p hp]
    simp [bare_keywords]

/-- A description may be added at the end, nothing else. -/
theorem with_description_obj (pairs merged : List (Str × Json)) :
    ∃ added, with_description pairs (.obj merged) = .obj (merged ++ added) ∧
      ∀ p ∈ added, p.1 = "description".toList := by
  have hsame : ∃ added, Json.obj merged = .obj (merged ++ added) ∧
      ∀ p ∈ added, p.1 = "description".toList := ⟨[], by simp, by simp⟩
  rw [with_description]
  cases Json.get pairs "description".toList with
  | none => exact hsame
  | some desc =>
    by_cases hadd : (desc.truthy && !has merged "description".toList) = true
    · simp only [if_pos hadd]
      exact ⟨[("description".toList, desc)], rfl, fun p hp => by rw [List.mem_singleton.mp hp]⟩
    · simp only [if_neg hadd]
      exact hsame

theorem with_description_scalar (pairs : List (Str × Json)) (v : Json) (h : v.isObject = false) :
    with_description pairs v = v := by
  cases v with
  | obj merged => cases h
  | _ => rfl

theorem simplified_comes {pairs : List (Str × Json)} {t : Json}
    (h : Comes defs hops schema hops' pairs) (ht : simplified defs hops schema = .ok t) :
    Rebuilt defs hops' pairs t := by
  induction h generalizing t with
  | node hdest hunion =>
    rw [simplified_destination hdest] at ht
    obtain ⟨ts, rfl, hts⟩ := (simplified_node (destination_schema hdest).1 hunion t).mp ht
    exact ⟨ts, [], by simp, hts, by simp⟩
  | variant hdest hunion hlive _ ih =>
    rw [simplified_destination hdest,
      simplified_union (destination_schema hdest).1 hunion, hlive] at ht
    obtain ⟨m, hm, rfl⟩ := map_eq_ok.mp ht.2.2
    obtain ⟨ts, added, rfl, hts, hadded⟩ := ih hm
    obtain ⟨more, hmore, hkeys⟩ := with_description_obj _ (ts ++ added)
    refine ⟨ts, added ++ more, by rw [hmore, List.append_assoc], hts, ?_⟩
    intro p hp
    exact (List.mem_append.mp hp).elim (hadded p) (hkeys p)

theorem Bare.with_description {t : Json} (h : Bare t) (pairs : List (Str × Json)) :
    Bare (with_description pairs t) := by
  cases t with
  | obj merged =>
    obtain ⟨added, hadded, hkeys⟩ := with_description_obj pairs merged
    rw [hadded]
    refine ⟨?_, ?_⟩
    · have hget : Json.get (merged ++ added) "type".toList =
          (Json.get merged "type".toList).or (Json.get added "type".toList) := by
        simp only [Json.get, List.find?_append]
        cases List.find? _ merged <;> rfl
      rw [hget, h.1]
      rfl
    · intro p hp
      rcases List.mem_append.mp hp with hp | hp
      · exact h.2 p hp
      · rw [hkeys p hp]
        decide
  | _ =>
    rw [with_description_scalar _ _ rfl]
    exact h

/-- A schema that comes to no object is given up for a generic one. -/
theorem simplified_bare : ∀ (hops : Nat) (schema : Json) {t : Json},
    (∀ hops' pairs, ¬Comes defs hops schema hops' pairs) →
    simplified defs hops schema = .ok t → Bare t := by
  intro hops schema
  induction hops, schema using walk_induction defs with
  | step hops schema ih =>
    intro t hno ht
    cases simplified_outcome ht with
    | collapsed _ => exact bare_generic []
    | scalar _ htarget => exact bare_scalar htarget
    | node hdest hunion _ => exact absurd (Comes.node hdest hunion) (hno _ _)
    | unwrapped hdest hunion hlive _ hm =>
      refine (ih _ _ _ hdest (variant_smaller hunion (live_mem hlive)) ?_ hm).with_description _
      intro hops' pairs hcomes
      exact hno _ _ (Comes.variant hdest hunion hlive hcomes)
    | given_up _ _ => exact bare_generic _

theorem with_description_isObject (pairs : List (Str × Json)) (v : Json) :
    (with_description pairs v).isObject = v.isObject := by
  cases v with
  | obj merged =>
    obtain ⟨added, hadded, _⟩ := with_description_obj pairs merged
    rw [hadded]
    rfl
  | _ => rw [with_description_scalar _ _ rfl]

/-- Only a reference can make an object of a schema, or take it away. -/
theorem simplified_isObject : ∀ (hops : Nat) (schema : Json) {t : Json},
    simplified defs hops schema = .ok t → t.isObject = leads_to_object defs hops schema := by
  intro hops schema
  induction hops, schema using walk_induction defs with
  | step hops schema ih =>
    intro t ht
    unfold leads_to_object
    cases simplified_outcome ht with
    | collapsed hdest => rw [hdest]; rfl
    | scalar hdest _ => rw [hdest]
    | node hdest _ _ => rw [hdest]; rfl
    | unwrapped hdest hunion hlive hobject hm =>
      rw [hdest, with_description_isObject,
        ih _ _ _ hdest (variant_smaller hunion (live_mem hlive)) hm]
      exact hobject
    | given_up hdest _ => rw [hdest]; rfl

end AigentSquad.SchemaWalk
