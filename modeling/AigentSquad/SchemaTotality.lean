import AigentSquad.NormalisedSchema

/-!
# When normalisation returns

A schema is a boolean or an object, whatever the keywords the passes do not
read. Inlining its references always succeeds. Filtering the variants of a
union calls `get` on each, so a variant that is a boolean raises.
-/

set_option autoImplicit false

namespace AigentSquad.SchemaTotality
open AigentSquad.PyText AigentSquad.PyJson AigentSquad.Dict AigentSquad.Effects
open AigentSquad.ToolSchema hiding inline
open AigentSquad.KeyedEntries AigentSquad.Interaction AigentSquad.SchemaPasses
open AigentSquad.SchemaWalk AigentSquad.NormalisedSchema

variable {defs : Entries Str Json} {hops hops' : Nat} {schema : Json}

/-- The keywords whose value is an object of schemas. -/
def member_keywords : List Str :=
  ["properties".toList, "$defs".toList, "definitions".toList]

/-- What JSON Schema asks of the keywords the passes read. -/
inductive IsSchema : Json → Prop
  | bool (b : Bool) : IsSchema (.bool b)
  | object {pairs : List (Str × Json)}
      (hreference : ∀ v, ("$ref".toList, v) ∈ pairs → ∃ path, v = .str path)
      (hobjects : ∀ key ∈ member_keywords, ∀ v, (key, v) ∈ pairs → ∃ members, v = .obj members)
      (hmembers : ∀ key ∈ member_keywords, ∀ members, (key, .obj members) ∈ pairs →
        ∀ m ∈ members, IsSchema m.2)
      (hunions : ∀ key ∈ union_keywords, ∀ v, (key, v) ∈ pairs → ∃ items, v = .arr items)
      (hvariants : ∀ key ∈ union_keywords, ∀ items, (key, .arr items) ∈ pairs →
        ∀ v ∈ items, IsSchema v)
      (hitems : ∀ v, ("items".toList, v) ∈ pairs → (∀ elements, v ≠ .arr elements) → IsSchema v)
      (helements : ∀ elements, ("items".toList, .arr elements) ∈ pairs →
        ∀ e ∈ elements, IsSchema e) : IsSchema (.obj pairs)

theorem forall₂_exists {α β : Type} {R : α → β → Prop} {l : List α} (h : ∀ a ∈ l, ∃ b, R a b) :
    ∃ r, List.Forall₂ R l r := by
  induction l with
  | nil => exact ⟨[], .nil⟩
  | cons a l ih =>
    obtain ⟨b, hb⟩ := h a (by simp)
    obtain ⟨r, hr⟩ := ih (fun c hc => h c (List.mem_cons_of_mem a hc))
    exact ⟨b :: r, .cons hb hr⟩

theorem reference_mem {pairs : List (Str × Json)} {ref_path : Json}
    (h : reference (.obj pairs) = some ref_path) : ("$ref".toList, ref_path) ∈ pairs :=
  mem_of_get pairs _ _ h

theorem mem_kept {pairs : List (Str × Json)} {key : Str} {v : Json}
    (h : (key, v) ∈ pairs.filter (fun p => kept p.1)) : (key, v) ∈ pairs :=
  (List.mem_filter.mp h).1

theorem kept_mem {pairs : List (Str × Json)} {key : Str} {v : Json} (hkey : kept key = true)
    (h : (key, v) ∈ pairs) : (key, v) ∈ pairs.filter (fun p => kept p.1) :=
  List.mem_filter.mpr ⟨h, hkey⟩

/-- Inlining succeeds where every reference does. -/
theorem inline_total {f : Json → Except Exn Json} (hf : ∀ path, ∃ r, f (.str path) = .ok r)
    (h : IsSchema schema) : ∃ r, ToolSchema.inline f schema = .ok r := by
  induction h with
  | bool b => exact ⟨.bool b, rfl⟩
  | @object pairs hreference hobjects _ hunions _ _ _ ihmembers ihvariants ihitems _ =>
    cases href : reference (.obj pairs) with
    | some ref_path =>
      obtain ⟨path, rfl⟩ := hreference _ (reference_mem href)
      rw [inline_reference href]
      exact hf path
    | none =>
      have hpairs : ∃ rs, inlinePairs f pairs = .ok rs := by
        simp only [inlinePairs_ok]
        rw [keyed_exists]
        intro key v hmem
        have hv := mem_kept hmem
        unfold inlineValue
        by_cases hp : key = "properties".toList
        · subst hp
          obtain ⟨members, rfl⟩ := hobjects _ (by decide) v hv
          have hmembers : ∃ rs, inlineMembers f members = .ok rs := by
            simp only [inlineMembers_ok]
            rw [keyed_exists]
            intro name below hbelow
            exact ihmembers _ (by decide) members hv (name, below) hbelow
          obtain ⟨rs, hrs⟩ := hmembers
          exact ⟨.obj rs, by rw [if_pos rfl]; exact map_eq_ok.mpr ⟨rs, hrs, rfl⟩⟩
        · rw [if_neg hp]
          by_cases hi : key = "items".toList
          · subst hi
            rw [if_pos rfl]
            by_cases harr : ∃ elements, v = .arr elements
            · obtain ⟨elements, rfl⟩ := harr
              exact ⟨.arr elements, rfl⟩
            · exact ihitems v hv (fun elements h => harr ⟨elements, h⟩)
          · rw [if_neg hi]
            by_cases hu : key ∈ union_keywords
            · obtain ⟨items, rfl⟩ := hunions key hu v hv
              obtain ⟨rs, hrs⟩ := forall₂_exists (ihvariants key hu items hv)
              exact ⟨.arr rs, by
                rw [if_pos hu]
                exact map_eq_ok.mpr ⟨rs, (inlineItems_ok f items rs).mpr hrs, rfl⟩⟩
            · exact ⟨v, if_neg hu⟩
      obtain ⟨rs, hrs⟩ := hpairs
      exact ⟨.obj rs, by rw [inline_obj f pairs href, hrs]; rfl⟩

theorem resolve_total (hdefs : ∀ p ∈ defs, IsSchema p.2) (h : IsSchema schema) :
    ∃ r, resolve_refs defs hops schema = .ok r := by
  induction hops generalizing schema with
  | zero =>
    rw [resolve_refs_eq]
    exact inline_total (fun _ => ⟨generic_object, rfl⟩) h
  | succ hops ih =>
    rw [resolve_refs_eq]
    refine inline_total (fun path => ?_) h
    rw [follow]
    cases hdef : definition defs path with
    | none => exact ⟨generic_object, rfl⟩
    | some resolved =>
      obtain ⟨name, hmem⟩ := definition_mem hdef
      exact ih (hdefs _ hmem)

/-- The unions the walk reaches, through references, single variants, properties and items. -/
inductive Met (defs : Entries Str Json) : Nat → Json → Nat → List Json → Prop
  | here {hops : Nat} {schema : Json} {hops' : Nat} {union : List (Str × Json)}
      {items : List Json} (hdest : destination defs hops schema = .schema hops' (.obj union))
      (hunion : union_of union = some (.arr items)) : Met defs hops schema hops' items
  | variant {hops : Nat} {schema : Json} {hops₁ : Nat} {union : List (Str × Json)}
      {items : List Json} {v : Json} {hops' : Nat} {found : List Json}
      (hdest : destination defs hops schema = .schema hops₁ (.obj union))
      (hunion : union_of union = some (.arr items)) (hlive : live defs hops₁ items = [v])
      (rest : Met defs hops₁ v hops' found) : Met defs hops schema hops' found
  | property {hops : Nat} {schema : Json} {hops₁ : Nat} {pairs members : List (Str × Json)}
      {name : Str} {below : Json} {hops' : Nat} {found : List Json}
      (hdest : destination defs hops schema = .schema hops₁ (.obj pairs))
      (hunion : union_of pairs = none) (hkey : ("properties".toList, .obj members) ∈ pairs)
      (hbelow : (name, below) ∈ members) (rest : Met defs hops₁ below hops' found) :
      Met defs hops schema hops' found
  | item {hops : Nat} {schema : Json} {hops₁ : Nat} {pairs : List (Str × Json)}
      {below : Json} {hops' : Nat} {found : List Json}
      (hdest : destination defs hops schema = .schema hops₁ (.obj pairs))
      (hunion : union_of pairs = none) (hkey : ("items".toList, below) ∈ pairs)
      (rest : Met defs hops₁ below hops' found) : Met defs hops schema hops' found

/-- No variant of a union reached is a boolean. -/
def VariantsObjects (defs : Entries Str Json) (hops : Nat) (schema : Json) : Prop :=
  ∀ hops' items, Met defs hops schema hops' items →
    ∀ v ∈ items, leads_to_object defs hops' v = true

theorem variants_objects_of_scalar (h : ∀ hops' pairs,
    destination defs hops schema ≠ .schema hops' (.obj pairs)) :
    VariantsObjects defs hops schema := by
  intro hops' items hmet
  cases hmet with
  | here hdest _ => exact absurd hdest (h _ _)
  | variant hdest _ _ _ => exact absurd hdest (h _ _)
  | property hdest _ _ _ _ => exact absurd hdest (h _ _)
  | item hdest _ _ _ => exact absurd hdest (h _ _)

theorem variants_objects_node {pairs : List (Str × Json)}
    (hdest : destination defs hops schema = .schema hops' (.obj pairs))
    (hunion : union_of pairs = none) :
    VariantsObjects defs hops schema ↔
      (∀ members, ("properties".toList, .obj members) ∈ pairs →
        ∀ m ∈ members, VariantsObjects defs hops' m.2) ∧
      (∀ below, ("items".toList, below) ∈ pairs → VariantsObjects defs hops' below) := by
  constructor
  · intro h
    refine ⟨?_, ?_⟩
    · intro members hkey m hm hops₁ items hmet
      have hbelow : (m.1, m.2) ∈ members := hm
      exact h hops₁ items (.property hdest hunion hkey hbelow hmet)
    · intro below hkey hops₁ items hmet
      exact h hops₁ items (.item hdest hunion hkey hmet)
  · rintro ⟨hproperties, hitems⟩ hops₁ items hmet
    cases hmet with
    | here hdest' hunion' =>
      cases hdest.symm.trans hdest'
      cases hunion.symm.trans hunion'
    | variant hdest' hunion' _ _ =>
      cases hdest.symm.trans hdest'
      cases hunion.symm.trans hunion'
    | property hdest' _ hkey hbelow rest =>
      cases hdest.symm.trans hdest'
      exact hproperties _ hkey _ hbelow hops₁ items rest
    | item hdest' _ hkey rest =>
      cases hdest.symm.trans hdest'
      exact hitems _ hkey hops₁ items rest

theorem variants_objects_union {pairs : List (Str × Json)} {items : List Json}
    (hdest : destination defs hops schema = .schema hops' (.obj pairs))
    (hunion : union_of pairs = some (.arr items)) :
    VariantsObjects defs hops schema ↔
      (∀ v ∈ items, leads_to_object defs hops' v = true) ∧
      (∀ v, live defs hops' items = [v] → VariantsObjects defs hops' v) := by
  constructor
  · intro h
    refine ⟨h hops' items (.here hdest hunion), ?_⟩
    intro v hlive hops₁ found hmet
    exact h hops₁ found (.variant hdest hunion hlive hmet)
  · rintro ⟨hhere, hvariant⟩ hops₁ found hmet
    cases hmet with
    | here hdest' hunion' =>
      cases hdest.symm.trans hdest'
      cases hunion.symm.trans hunion'
      exact hhere
    | variant hdest' hunion' hlive rest =>
      cases hdest.symm.trans hdest'
      cases hunion.symm.trans hunion'
      exact hvariant _ hlive hops₁ found rest
    | property hdest' hunion' _ _ _ =>
      cases hdest.symm.trans hdest'
      cases hunion.symm.trans hunion'
    | item hdest' hunion' _ _ =>
      cases hdest.symm.trans hdest'
      cases hunion.symm.trans hunion'

theorem IsSchema.objects {pairs : List (Str × Json)} (h : IsSchema (.obj pairs)) {key : Str}
    (hkey : key ∈ member_keywords) {v : Json} (hv : (key, v) ∈ pairs) :
    ∃ members, v = .obj members ∧ ∀ m ∈ members, IsSchema m.2 := by
  cases h with
  | object _ hobjects hmembers _ _ _ _ =>
    obtain ⟨members, rfl⟩ := hobjects key hkey v hv
    exact ⟨members, rfl, hmembers key hkey members hv⟩

theorem IsSchema.union {pairs : List (Str × Json)} (h : IsSchema (.obj pairs)) {key : Str}
    (hkey : key ∈ union_keywords) {v : Json} (hv : (key, v) ∈ pairs) :
    ∃ items, v = .arr items ∧ ∀ i ∈ items, IsSchema i := by
  cases h with
  | object _ _ _ hunions hvariants _ _ =>
    obtain ⟨items, rfl⟩ := hunions key hkey v hv
    exact ⟨items, rfl, hvariants key hkey items hv⟩

theorem IsSchema.items {pairs : List (Str × Json)} (h : IsSchema (.obj pairs)) {v : Json}
    (hv : ("items".toList, v) ∈ pairs) : (∃ elements, v = .arr elements) ∨ IsSchema v := by
  cases h with
  | object _ _ _ _ _ hitems _ =>
    by_cases harr : ∃ elements, v = .arr elements
    · exact Or.inl harr
    · exact Or.inr (hitems v hv (fun elements h => harr ⟨elements, h⟩))

theorem union_mem {pairs : List (Str × Json)} {value : Json} (h : union_of pairs = some value) :
    ∃ key ∈ union_keywords, (key, value) ∈ pairs := by
  rcases Option.or_eq_some_iff.mp h with h | ⟨_, h⟩
  · exact ⟨_, by decide, mem_of_get pairs _ _ h⟩
  · exact ⟨_, by decide, mem_of_get pairs _ _ h⟩

/-- The step at an object without a union: its parts decide. -/
theorem node_total {pairs : List (Str × Json)} (hdefs : ∀ p ∈ defs, IsSchema p.2)
    (h : IsSchema (.obj pairs)) (href : reference (.obj pairs) = none)
    (hunion : union_of pairs = none) :
    (∃ t, simplified defs hops (.obj pairs) = .ok t) ↔
      (∀ members, ("properties".toList, .obj members) ∈ pairs →
        ∀ m ∈ members, ∃ t, simplified defs hops m.2 = .ok t) ∧
      (∀ below, ("items".toList, below) ∈ pairs → ∃ t, simplified defs hops below = .ok t) := by
  have hpairs : (∃ t, simplified defs hops (.obj pairs) = .ok t) ↔
      ∀ key v, (key, v) ∈ pairs.filter (fun p => kept p.1) → ∃ w, Passed defs hops key v w := by
    rw [← keyed_exists]
    constructor
    · rintro ⟨t, ht⟩
      obtain ⟨ts, _, hts⟩ := (simplified_node href hunion t).mp ht
      exact ⟨ts, hts⟩
    · rintro ⟨ts, hts⟩
      exact ⟨.obj ts, (simplified_node href hunion _).mpr ⟨ts, rfl, hts⟩⟩
  rw [hpairs]
  constructor
  · intro hall
    refine ⟨?_, ?_⟩
    · intro members hkey m hm
      obtain ⟨w, hw⟩ := hall _ _ (kept_mem (by decide) hkey)
      obtain ⟨rs, _, hrs⟩ := (passed_members defs hops members w).mp hw
      obtain ⟨t, _, ht⟩ := hrs.mem_left (k := m.1) (v := m.2) hm
      exact ⟨t, ht⟩
    · intro below hkey
      obtain ⟨w, hw⟩ := hall _ _ (kept_mem (by decide) hkey)
      exact ⟨w, (passed_items defs hops below w).mp hw⟩
  · rintro ⟨hproperties, hitems⟩ key v hmem
    have hv := mem_kept hmem
    by_cases hp : key = "properties".toList
    · subst hp
      obtain ⟨members, rfl, _⟩ := h.objects (by decide) hv
      obtain ⟨rs, hrs⟩ := (keyed_exists (fun _ a b => simplified defs hops a = .ok b) members).mpr
        (fun name below hbelow => hproperties members hv (name, below) hbelow)
      exact ⟨.obj rs, (passed_members defs hops members _).mpr ⟨rs, rfl, hrs⟩⟩
    · by_cases hi : key = "items".toList
      · subst hi
        obtain ⟨t, ht⟩ := hitems v hv
        exact ⟨t, (passed_items defs hops v t).mpr ht⟩
      · by_cases hu : key ∈ union_keywords
        · -- only `allOf` is left here; its schemas are inlined and kept
          obtain ⟨items, rfl, hitems⟩ := h.union hu hv
          obtain ⟨rs, hrs⟩ := forall₂_exists (R := fun a b =>
            ToolSchema.inline (follow defs hops) a = .ok b) (l := items) (fun a ha => by
              rw [← resolve_refs_eq]
              exact resolve_total hdefs (hitems a ha))
          refine ⟨.arr rs, .arr rs, ?_, ?_⟩
          · rw [inlineValue, if_neg hp, if_neg hi, if_pos hu]
            exact map_eq_ok.mpr ⟨rs, (inlineItems_ok _ items rs).mpr hrs, rfl⟩
          · rw [simplifyValue, if_neg hp, if_neg hi]
        · exact ⟨v, (passed_walked defs hops key v v hu).mpr (walked_same hp hi)⟩

theorem variants_total {pairs : List (Str × Json)} {items : List Json}
    (hdefs : ∀ p ∈ defs, IsSchema p.2) (h : IsSchema (.obj pairs))
    (href : reference (.obj pairs) = none) (hunion : union_of pairs = some (.arr items)) :
    (∃ t, simplified defs hops (.obj pairs) = .ok t) ↔
      (∀ v ∈ items, leads_to_object defs hops v = true) ∧
      (∀ v, live defs hops items = [v] → ∃ t, simplified defs hops v = .ok t) := by
  constructor
  · rintro ⟨t, ht⟩
    obtain ⟨_, hall, hunwrap⟩ := (simplified_union href hunion t).mp ht
    refine ⟨hall, ?_⟩
    intro v hlive
    rw [hlive] at hunwrap
    obtain ⟨m, hm, _⟩ := map_eq_ok.mp hunwrap
    exact ⟨m, hm⟩
  · rintro ⟨hall, hsingle⟩
    have hunwrap :
        ∃ t, unwrap pairs ((live defs hops items).map (simplified defs hops)) = .ok t := by
      cases hlive : live defs hops items with
      | nil => exact ⟨generic_object, rfl⟩
      | cons v rest =>
        cases rest with
        | nil =>
          obtain ⟨m, hm⟩ := hsingle v hlive
          exact ⟨with_description pairs m, map_eq_ok.mpr ⟨m, hm, rfl⟩⟩
        | cons _ _ => exact ⟨_, rfl⟩
    obtain ⟨t, ht⟩ := hunwrap
    exact ⟨t, (simplified_union href hunion t).mpr ⟨resolve_total hdefs h, hall, ht⟩⟩

/-- The walk returns exactly when no variant it filters is a boolean. -/
theorem simplified_total_iff (hdefs : ∀ p ∈ defs, IsSchema p.2) :
    ∀ (hops : Nat) (schema : Json), IsSchema schema →
      ((∃ t, simplified defs hops schema = .ok t) ↔ VariantsObjects defs hops schema) := by
  intro hops schema
  induction hops, schema using walk_induction defs with
  | step hops schema ih =>
    intro h
    cases hdest : destination defs hops schema with
    | fails =>
      have hreturn : ∃ r, resolve_refs defs hops schema = .ok r := resolve_total hdefs h
      obtain ⟨r, hr⟩ := hreturn
      rw [destination_fails hdest] at hr
      cases hr
    | collapses =>
      refine iff_of_true ⟨_, simplified_collapses hdest⟩ (variants_objects_of_scalar ?_)
      simp [hdest]
    | schema hops₁ target =>
      have htarget : IsSchema target := destination_preserves hdefs h hdest
      rw [simplified_destination hdest]
      obtain ⟨href, _⟩ := destination_schema hdest
      cases target with
      | obj pairs =>
        cases hunion : union_of pairs with
        | none =>
          rw [node_total hdefs htarget href hunion, variants_objects_node hdest hunion]
          have hproperties : ∀ members, ("properties".toList, .obj members) ∈ pairs →
              ∀ m ∈ members, ((∃ t, simplified defs hops₁ m.2 = .ok t) ↔
                VariantsObjects defs hops₁ m.2) := by
            intro members hkey m hm
            obtain ⟨_, hmembers, hschemas⟩ := htarget.objects (by decide) hkey
            cases hmembers
            exact ih hops₁ _ m.2 hdest (member_smaller hkey hm) (hschemas m hm)
          have hitems : ∀ below, ("items".toList, below) ∈ pairs →
              ((∃ t, simplified defs hops₁ below = .ok t) ↔ VariantsObjects defs hops₁ below) := by
            intro below hkey
            rcases htarget.items hkey with ⟨elements, rfl⟩ | hbelow
            · refine iff_of_true ⟨_, simplified_scalar defs hops₁ _ rfl⟩ ?_
              exact variants_objects_of_scalar (arr_destination elements)
            · exact ih hops₁ _ below hdest (value_smaller hkey) hbelow
          constructor
          · rintro ⟨hp, hi⟩
            refine ⟨?_, fun below hkey => (hitems below hkey).mp (hi below hkey)⟩
            intro members hkey m hm
            exact (hproperties members hkey m hm).mp (hp members hkey m hm)
          · rintro ⟨hp, hi⟩
            refine ⟨?_, fun below hkey => (hitems below hkey).mpr (hi below hkey)⟩
            intro members hkey m hm
            exact (hproperties members hkey m hm).mpr (hp members hkey m hm)
        | some value =>
          obtain ⟨key, hkey, hmem⟩ := union_mem hunion
          obtain ⟨items, rfl, hitems⟩ := htarget.union hkey hmem
          rw [variants_total hdefs htarget href hunion, variants_objects_union hdest hunion]
          refine and_congr_right (fun _ => forall_congr' (fun v => imp_congr_right ?_))
          intro hlive
          have hv : v ∈ items := live_mem hlive
          exact ih hops₁ _ v hdest (variant_smaller hunion hv) (hitems v hv)
      | _ =>
        refine iff_of_true ⟨_, simplified_scalar defs hops₁ _ rfl⟩ (variants_objects_of_scalar ?_)
        simp [hdest]

theorem extracted_total {input_schema : Entries Str Json} (h : IsSchema (.obj input_schema)) :
    ∃ defs, extracted input_schema = .ok defs ∧ ∀ p ∈ defs, IsSchema p.2 := by
  have hmember : ∀ key ∈ definition_keywords, key ∈ member_keywords := by decide
  exact extracted_preserves (fun key hkey v hv => h.objects (hmember key hkey) hv)

theorem top_level_total (normal : Json) :
    (∃ out, top_level normal = .ok out) ↔ normal.isObject = true := by
  cases normal with
  | obj pairs =>
    refine iff_of_true ?_ rfl
    rw [top_level]
    split
    · exact ⟨_, rfl⟩
    · exact ⟨_, rfl⟩
  | _ => simp [top_level, Json.isObject]

/-- Normalisation of a schema returns exactly when its references end at an object and no variant
of a union the walk reaches ends at a boolean. -/
theorem normalize_returns_iff (input_schema : Entries Str Json) (h : IsSchema (.obj input_schema)) :
    (∃ out, normalize_input_schema (some input_schema) = .ok out) ↔
      ∀ defs, extracted input_schema = .ok defs →
        leads_to_object defs MAX_NESTING_DEPTH (.obj input_schema) = true ∧
        VariantsObjects defs MAX_NESTING_DEPTH (.obj input_schema) := by
  obtain ⟨defs, hdefs, hschemas⟩ := extracted_total h
  have htotal := simplified_total_iff hschemas MAX_NESTING_DEPTH (.obj input_schema) h
  rw [normalize_eq, hdefs]
  constructor
  · rintro ⟨out, hout⟩ defs' hdefs'
    cases hdefs'
    obtain ⟨_, hsame, hout⟩ := bind_eq_ok hout
    cases hsame
    obtain ⟨normal, hnormal, htop⟩ := bind_eq_ok hout
    obtain ⟨t, ht, rfl⟩ := map_eq_ok.mp hnormal
    have hobject := (top_level_total _).mp ⟨out, htop⟩
    rw [capped_isObject, simplified_isObject _ _ ht] at hobject
    exact ⟨hobject, htotal.mp ⟨t, ht⟩⟩
  · intro hall
    obtain ⟨hobject, hvariants⟩ := hall defs rfl
    obtain ⟨t, ht⟩ := htotal.mpr hvariants
    rw [← simplified_isObject _ _ ht, ← capped_isObject MAX_NESTING_DEPTH] at hobject
    obtain ⟨out, hout⟩ := (top_level_total _).mpr hobject
    refine ⟨out, ?_⟩
    change (normalised defs MAX_NESTING_DEPTH MAX_NESTING_DEPTH (.obj input_schema) >>=
      top_level) = _
    rw [normalised, ht]
    exact hout

def nullableLimit : Entries Str Json :=
  [("type".toList, .str "object".toList),
    ("properties".toList, .obj [("limit".toList, .obj [("oneOf".toList,
      .arr [.obj [("type".toList, .str "integer".toList)],
        .obj [("type".toList, .str "null".toList)]])])])]

theorem nullableLimit_is_schema : IsSchema (.obj nullableLimit) := by
  have htyped : ∀ t : Str, IsSchema (.obj [("type".toList, .str t)]) := by
    intro t
    apply IsSchema.object <;> simp [member_keywords, union_keywords]
  have hlimit : IsSchema (.obj [("oneOf".toList,
      .arr [.obj [("type".toList, .str "integer".toList)],
        .obj [("type".toList, .str "null".toList)]])]) := by
    apply IsSchema.object <;> simp [member_keywords, union_keywords]
    exact ⟨htyped _, htyped _⟩
  apply IsSchema.object <;> simp [nullableLimit, member_keywords, union_keywords]
  exact hlimit

theorem nullableLimit_variants :
    leads_to_object [] MAX_NESTING_DEPTH (.obj nullableLimit) = true ∧
      VariantsObjects [] MAX_NESTING_DEPTH (.obj nullableLimit) :=
  (normalize_returns_iff nullableLimit nullableLimit_is_schema).mp ⟨_, rfl⟩ [] rfl

/-- A limit that may be anything. -/
def anyLimit : Entries Str Json :=
  [("type".toList, .str "object".toList),
    ("properties".toList, .obj [("limit".toList, .obj [("anyOf".toList, .arr [.bool true])])])]

theorem anyLimit_is_schema : IsSchema (.obj anyLimit) := by
  have hlimit : IsSchema (.obj [("anyOf".toList, .arr [.bool true])]) := by
    apply IsSchema.object <;> simp [member_keywords, union_keywords, IsSchema.bool]
  apply IsSchema.object <;> simp [anyLimit, member_keywords, union_keywords]
  exact hlimit

theorem boolean_variant_raises :
    ¬∀ input_schema : Entries Str Json, IsSchema (.obj input_schema) →
      ∃ out, normalize_input_schema (some input_schema) = .ok out := by
  intro h
  obtain ⟨out, hout⟩ := h anyLimit anyLimit_is_schema
  cases (show Except.error Exn.AttributeError = Except.ok out from hout)

end AigentSquad.SchemaTotality
