import AigentSquad.NormalisedSchema

/-!
# Whether a normalised schema is in the Converse dialect

Every subschema position of the result is looked at. The four passes descend
into `properties` and into an `items` that is one schema. A schema under
`additionalProperties` and the elements of an `items` list are passed on as
they stand.
-/

set_option autoImplicit false

namespace AigentSquad.SchemaDialect
open AigentSquad.PyText AigentSquad.PyJson AigentSquad.Dict AigentSquad.Effects
open AigentSquad.ToolSchema hiding inline
open AigentSquad.KeyedEntries AigentSquad.Interaction AigentSquad.SchemaPasses
open AigentSquad.SchemaWalk AigentSquad.NormalisedSchema

variable {defs : Entries Str Json} {hops hops' left : Nat} {schema out : Json}

/-- The objects standing where a schema is expected. -/
inductive Position : Json → List (Str × Json) → Prop
  | here (pairs : List (Str × Json)) : Position (.obj pairs) pairs
  | property {pairs members at' : List (Str × Json)} {name : Str} {below : Json}
      (hkey : ("properties".toList, .obj members) ∈ pairs) (hbelow : (name, below) ∈ members)
      (rest : Position below at') : Position (.obj pairs) at'
  | item {pairs at' : List (Str × Json)} {below : Json}
      (hkey : ("items".toList, below) ∈ pairs) (rest : Position below at') :
      Position (.obj pairs) at'
  | tuple {pairs at' : List (Str × Json)} {elements : List Json} {below : Json}
      (hkey : ("items".toList, .arr elements) ∈ pairs) (hbelow : below ∈ elements)
      (rest : Position below at') : Position (.obj pairs) at'
  | additional {pairs at' : List (Str × Json)} {below : Json}
      (hkey : ("additionalProperties".toList, below) ∈ pairs) (rest : Position below at') :
      Position (.obj pairs) at'

/-- Only the keywords Converse takes, at every position. -/
def InDialect (schema : Json) : Prop :=
  ∀ pairs, Position schema pairs → ∀ p ∈ pairs, p.1 ∈ allowed

theorem unsupported_keywords : ∀ key ∈ ["$ref".toList, "$defs".toList, "definitions".toList,
    "anyOf".toList, "oneOf".toList, "allOf".toList], key ∉ allowed := by decide

theorem InDialect.no_unsupported (h : InDialect schema) {pairs : List (Str × Json)}
    (hpos : Position schema pairs) :
    ∀ key ∈ ["$ref".toList, "$defs".toList, "definitions".toList, "anyOf".toList, "oneOf".toList,
      "allOf".toList], Json.get pairs key = none := by
  intro key hkey
  cases hget : Json.get pairs key with
  | none => rfl
  | some v =>
    exact absurd (h pairs hpos _ (mem_of_get pairs key v hget)) (unsupported_keywords key hkey)

theorem in_dialect_scalar (h : schema.isObject = false) : InDialect schema := by
  intro pairs hpos
  cases hpos <;> cases h

theorem in_dialect_iff (pairs : List (Str × Json)) :
    InDialect (.obj pairs) ↔ (∀ p ∈ pairs, p.1 ∈ allowed) ∧
      (∀ members, ("properties".toList, .obj members) ∈ pairs → ∀ m ∈ members, InDialect m.2) ∧
      (∀ below, ("items".toList, below) ∈ pairs → InDialect below ∧
        ∀ elements, below = .arr elements → ∀ e ∈ elements, InDialect e) ∧
      (∀ below, ("additionalProperties".toList, below) ∈ pairs → InDialect below) := by
  constructor
  · intro h
    refine ⟨h pairs (.here pairs), ?_, ?_, ?_⟩
    · intro members hkey m hm at' hpos
      exact h at' (.property hkey hm hpos)
    · intro below hkey
      refine ⟨fun at' hpos => h at' (.item hkey hpos), ?_⟩
      rintro elements rfl e he at' hpos
      exact h at' (.tuple hkey he hpos)
    · intro below hkey at' hpos
      exact h at' (.additional hkey hpos)
  · rintro ⟨hhere, hproperties, hitems, hadditional⟩ at' hpos
    cases hpos with
    | here => exact hhere
    | property hkey hbelow rest => exact hproperties _ hkey _ hbelow at' rest
    | item hkey rest => exact (hitems _ hkey).1 at' rest
    | tuple hkey hbelow rest => exact (hitems _ hkey).2 _ rfl _ hbelow at' rest
    | additional hkey rest => exact hadditional _ hkey at' rest

theorem in_dialect_bare {pairs : List (Str × Json)} (h : ∀ p ∈ pairs, p.1 ∈ bare_keywords) :
    InDialect (.obj pairs) := by
  have hbare : ∀ key ∈ bare_keywords, key ∈ allowed ∧ key ≠ "properties".toList ∧
      key ≠ "items".toList ∧ key ≠ "additionalProperties".toList := by decide
  rw [in_dialect_iff]
  refine ⟨fun p hp => (hbare _ (h p hp)).1, ?_, ?_, ?_⟩
  · intro members hkey
    exact absurd rfl (hbare _ (h _ hkey)).2.1
  · intro below hkey
    exact absurd rfl (hbare _ (h _ hkey)).2.2.1
  · intro below hkey
    exact absurd rfl (hbare _ (h _ hkey)).2.2.2

/-- What the cap leaves of the subschemas no pass walks into is in the dialect as it stands. -/
def CleanAsIs (defs : Entries Str Json) : Nat → Nat → Json → Prop
  | 0, _, _ => True
  | left + 1, hops, schema => ∀ hops' pairs, Comes defs hops schema hops' pairs →
      (∀ members, ("properties".toList, .obj members) ∈ pairs →
        ∀ m ∈ members, CleanAsIs defs left hops' m.2) ∧
      (∀ below, ("items".toList, below) ∈ pairs → CleanAsIs defs left hops' below ∧
        ∀ hops₁ elements, destination defs hops' below = .schema hops₁ (.arr elements) →
          ∀ e ∈ elements, InDialect e) ∧
      (∀ below, ("additionalProperties".toList, below) ∈ pairs → InDialect below)

/-- The keys of a capped object are its own, or those of a generic one. -/
theorem capped_keys (left : Nat) (pairs : List (Str × Json)) :
    ∃ outs, capped left (.obj pairs) = .obj outs ∧
      ∀ p ∈ outs, p.1 ∈ bare_keywords ∨ ∃ q ∈ pairs, q.1 = p.1 := by
  cases left with
  | zero =>
    refine ⟨_, capped_cut pairs, ?_⟩
    intro p hp
    exact Or.inl ((bare_generic pairs).2 p hp)
  | succ left =>
    refine ⟨_, by rw [capped, cap_depth, strip_unsupported_keys, capped_pairs], ?_⟩
    intro p hp
    obtain ⟨q, hq, rfl⟩ := List.mem_map.mp hp
    exact Or.inr ⟨q, List.mem_of_mem_filter hq, rfl⟩

theorem bare_in_dialect {t : Json} (left : Nat) (h : Bare t) : InDialect (capped left t) := by
  cases t with
  | obj pairs =>
    obtain ⟨outs, houts, hkeys⟩ := capped_keys left pairs
    rw [houts]
    apply in_dialect_bare
    intro p hp
    rcases hkeys p hp with hbare | ⟨q, hq, hpq⟩
    · exact hbare
    · exact hpq ▸ h.2 q hq
  | _ =>
    rw [capped_scalar left _ rfl]
    exact in_dialect_scalar rfl

theorem cut_in_dialect (t : Json) : InDialect (capped 0 t) := by
  cases t with
  | obj pairs =>
    rw [capped_cut]
    exact in_dialect_bare (bare_generic pairs).2
  | _ =>
    rw [capped_scalar 0 _ rfl]
    exact in_dialect_scalar rfl

/-- The step of the walk: what is in the dialect below an object decides. -/
theorem normal_in_dialect {pairs entries : List (Str × Json)}
    (hbelow : ∀ below out, normalised defs left hops below = .ok out →
      (InDialect out ↔ CleanAsIs defs left hops below))
    (hn : Normal defs left hops pairs entries) :
    InDialect (.obj entries) ↔
      (∀ members, ("properties".toList, .obj members) ∈ pairs →
        ∀ m ∈ members, CleanAsIs defs left hops m.2) ∧
      (∀ below, ("items".toList, below) ∈ pairs → CleanAsIs defs left hops below ∧
        ∀ hops₁ elements, destination defs hops below = .schema hops₁ (.arr elements) →
          ∀ e ∈ elements, InDialect e) ∧
      (∀ below, ("additionalProperties".toList, below) ∈ pairs → InDialect below) := by
  rw [in_dialect_iff]
  constructor
  · rintro ⟨_, hproperties, hitems, hadditional⟩
    refine ⟨?_, ?_, ?_⟩
    · intro members hkey m hm
      obtain ⟨w, hw, hwalked⟩ := hn.mem (by decide) hkey
      obtain ⟨rs, rfl, hrs⟩ := hwalked.of_members
      obtain ⟨b, hb, hnormal⟩ := hrs.mem_left (k := m.1) (v := m.2) hm
      exact (hbelow m.2 b hnormal).mp (hproperties rs hw _ hb)
    · intro below hkey
      obtain ⟨w, hw, hwalked⟩ := hn.mem (by decide) hkey
      obtain ⟨hin, helements⟩ := hitems w hw
      refine ⟨(hbelow below w hwalked.item).mp hin, ?_⟩
      intro hops₁ elements hdest
      exact helements elements (normalised_of_scalar hwalked.item rfl hdest)
    · intro below hkey
      obtain ⟨w, hw, hwalked⟩ := hn.mem (by decide) hkey
      rw [← hwalked.same (by decide) (by decide)]
      exact hadditional w hw
  · rintro ⟨hproperties, hitems, hadditional⟩
    refine ⟨hn.keys, ?_, ?_, ?_⟩
    · intro rs hkey b hb
      obtain ⟨v, hv, hwalked⟩ := hn.of_mem (by decide) hkey
      obtain ⟨members, rfl, hrs⟩ := hwalked.to_members
      obtain ⟨below, hm, hnormal⟩ := hrs.mem_right (k := b.1) (w := b.2) hb
      exact (hbelow below b.2 hnormal).mpr (hproperties members hv _ hm)
    · intro w hkey
      obtain ⟨v, hv, hwalked⟩ := hn.of_mem (by decide) hkey
      obtain ⟨hclean, helements⟩ := hitems v hv
      refine ⟨(hbelow v w hwalked.item).mpr hclean, ?_⟩
      rintro elements rfl
      obtain ⟨hops₁, hdest⟩ := normalised_scalar hwalked.item rfl
      exact helements hops₁ elements hdest
    · intro w hkey
      obtain ⟨v, hv, hwalked⟩ := hn.of_mem (by decide) hkey
      rw [hwalked.same (by decide) (by decide)]
      exact hadditional v hv

theorem normalised_in_dialect (h : normalised defs left hops schema = .ok out) :
    InDialect out ↔ CleanAsIs defs left hops schema := by
  induction left generalizing hops schema out with
  | zero =>
    obtain ⟨t, _, rfl⟩ := map_eq_ok.mp h
    exact iff_of_true (cut_in_dialect t) trivial
  | succ left ih =>
    obtain ⟨t, ht, rfl⟩ := map_eq_ok.mp h
    by_cases hcomes : ∃ hops' pairs, Comes defs hops schema hops' pairs
    · obtain ⟨hops', pairs, hcomes⟩ := hcomes
      obtain ⟨entries, hout, hn⟩ := capped_rebuilt left (simplified_comes hcomes ht)
      rw [hout, normal_in_dialect (fun below out => ih) hn, CleanAsIs]
      constructor
      · intro hparts hops₂ pairs₂ hcomes₂
        obtain ⟨rfl, rfl⟩ := hcomes.unique hcomes₂
        exact hparts
      · intro hclean
        exact hclean hops' pairs hcomes
    · have hno : ∀ hops' pairs, ¬Comes defs hops schema hops' pairs :=
        fun hops' pairs hc => hcomes ⟨hops', pairs, hc⟩
      refine iff_of_true (bare_in_dialect _ (simplified_bare hops schema hno ht)) ?_
      intro hops' pairs hc
      exact absurd hc (hno hops' pairs)

theorem permissive_in_dialect : InDialect permissive_object := by
  have hkeys : ∀ {key : Str} {v : Json},
      (key, v) ∈ [("type".toList, Json.str "object".toList), ("properties".toList, .obj [])] →
      (key = "type".toList ∧ v = .str "object".toList) ∨
        (key = "properties".toList ∧ v = .obj []) := by
    intro key v h
    rcases List.mem_pair.mp h with h | h
    · exact Or.inl (Prod.mk.inj h)
    · exact Or.inr (Prod.mk.inj h)
  rw [permissive_object, in_dialect_iff]
  refine ⟨by decide, ?_, ?_, ?_⟩
  · intro members hkey m hm
    rcases hkeys hkey with ⟨h, _⟩ | ⟨_, h⟩
    · exact absurd h (by decide)
    · cases h
      cases hm
  · intro below hkey
    rcases hkeys hkey with ⟨h, _⟩ | ⟨h, _⟩
    · exact absurd h (by decide)
    · exact absurd h (by decide)
  · intro below hkey
    rcases hkeys hkey with ⟨h, _⟩ | ⟨h, _⟩
    · exact absurd h (by decide)
    · exact absurd h (by decide)

theorem top_level_in_dialect {normal : Json} (h : top_level normal = .ok out)
    (hnormal : InDialect normal) : InDialect out := by
  cases normal with
  | obj pairs =>
    by_cases ht : Json.get pairs "type".toList = some (.str "object".toList)
    · rw [top_level_object ht] at h
      cases h
      exact hnormal
    · rw [top_level_other ht] at h
      cases h
      exact permissive_in_dialect
  | _ => cases h

/-- The result is in the dialect exactly when the subschemas nothing descends into are, unless
the top level is given up. -/
theorem normalized_in_dialect_iff (input_schema : Entries Str Json) (out : Json)
    (h : normalize_input_schema (some input_schema) = .ok out) :
    (InDialect out ∧ ObjectSchema out) ↔
      ∀ defs hops pairs, extracted input_schema = .ok defs →
        Comes defs MAX_NESTING_DEPTH (.obj input_schema) hops pairs →
        Json.get pairs "type".toList = some (.str "object".toList) →
        CleanAsIs defs MAX_NESTING_DEPTH MAX_NESTING_DEPTH (.obj input_schema) := by
  rw [normalize_eq] at h
  obtain ⟨defs, hdefs, h⟩ := bind_eq_ok h
  obtain ⟨normal, hnormal, h⟩ := bind_eq_ok h
  have hobject : ObjectSchema out := top_level_is_object h
  by_cases hcomes : ∃ hops pairs, Comes defs MAX_NESTING_DEPTH (.obj input_schema) hops pairs
  · obtain ⟨hops, pairs, hcomes⟩ := hcomes
    obtain ⟨t, ht, rfl⟩ := map_eq_ok.mp hnormal
    obtain ⟨entries, hout, hn⟩ := capped_rebuilt 3 (simplified_comes hcomes ht)
    have htype : Json.get entries "type".toList = Json.get pairs "type".toList :=
      hn.same (by decide) (by decide)
    by_cases hpairs : Json.get pairs "type".toList = some (.str "object".toList)
    · have hsame : out = capped MAX_NESTING_DEPTH t := by
        rw [show capped MAX_NESTING_DEPTH t = _ from hout] at h ⊢
        exact (Except.ok.inj ((top_level_object (htype.trans hpairs)).symm.trans h)).symm
      rw [hsame, normalised_in_dialect hnormal, ← hsame]
      constructor
      · rintro ⟨hclean, _⟩ defs' _ _ hdefs' _ _
        cases hdefs.symm.trans hdefs'
        exact hclean
      · intro hclean
        exact ⟨hclean defs hops pairs hdefs hcomes hpairs, hobject⟩
    · rw [show capped MAX_NESTING_DEPTH t = _ from hout,
        top_level_other (fun hp => hpairs (htype.symm.trans hp))] at h
      cases h
      refine iff_of_true ⟨permissive_in_dialect, hobject⟩ ?_
      intro defs' hops' pairs' hdefs' hcomes' hpairs'
      cases hdefs.symm.trans hdefs'
      obtain ⟨rfl, rfl⟩ := hcomes.unique hcomes'
      exact absurd hpairs' hpairs
  · obtain ⟨t, ht, rfl⟩ := map_eq_ok.mp hnormal
    have hbare : Bare t := simplified_bare _ _ (fun hops pairs hc => hcomes ⟨hops, pairs, hc⟩) ht
    refine iff_of_true ⟨top_level_in_dialect h (bare_in_dialect _ hbare), hobject⟩ ?_
    intro defs' hops pairs hdefs' hc _
    cases hdefs.symm.trans hdefs'
    exact absurd ⟨hops, pairs, hc⟩ hcomes

theorem clean_of_comes {pairs : List (Str × Json)} (hcomes : Comes defs hops schema hops' pairs)
    (hproperties : ∀ members, ("properties".toList, .obj members) ∈ pairs →
      ∀ m ∈ members, CleanAsIs defs left hops' m.2)
    (hnone : ∀ p ∈ pairs, p.1 ≠ "items".toList ∧ p.1 ≠ "additionalProperties".toList) :
    CleanAsIs defs (left + 1) hops schema := by
  intro hops₁ pairs₁ h
  obtain ⟨rfl, rfl⟩ := hcomes.unique h
  refine ⟨hproperties, ?_, ?_⟩
  · intro below hkey
    exact absurd rfl (hnone _ hkey).1
  · intro below hkey
    exact absurd rfl (hnone _ hkey).2

def labelSchema : Entries Str Json :=
  [("type".toList, .str "object".toList),
    ("properties".toList,
      .obj [("label".toList, .obj [("$ref".toList, .str "#/$defs/Label".toList)])]),
    ("$defs".toList, .obj [("Label".toList, .obj [("type".toList, .str "string".toList)])])]

theorem labelSchema_in_dialect :
    InDialect (.obj [("type".toList, .str "object".toList), ("properties".toList,
      .obj [("label".toList, .obj [("type".toList, .str "string".toList)])])]) := by
  refine ((normalized_in_dialect_iff labelSchema _ rfl).mpr ?_).1
  intro defs hops pairs hdefs _ _
  cases (show Except.ok [("Label".toList, Json.obj [("type".toList, .str "string".toList)])] =
    .ok defs from hdefs)
  refine clean_of_comes (.node rfl rfl) ?_ (by decide)
  intro members hkey m hm
  have hmembers : members =
      [("label".toList, .obj [("$ref".toList, .str "#/$defs/Label".toList)])] := by
    simpa [labelSchema] using hkey
  subst hmembers
  rw [List.mem_singleton.mp hm]
  exact clean_of_comes (.node rfl rfl) (by simp) (by decide)

/-- A reference under `additionalProperties` stays. -/
theorem additional_reference_stays :
    ¬∀ (input_schema : Entries Str Json) (out : Json),
      normalize_input_schema (some input_schema) = .ok out → InDialect out ∧ ObjectSchema out := by
  intro h
  have hin := (h [("type".toList, .str "object".toList),
    ("additionalProperties".toList, .obj [("$ref".toList, .str "#/$defs/Label".toList)]),
    ("$defs".toList, .obj [("Label".toList, .obj [("type".toList, .str "string".toList)])])]
    (.obj [("type".toList, .str "object".toList),
      ("additionalProperties".toList, .obj [("$ref".toList, .str "#/$defs/Label".toList)])]) rfl).1
  have hkey := hin _ (.additional (List.mem_cons_of_mem _ (List.mem_singleton_self _)) (.here _))
    _ (List.mem_singleton_self _)
  exact absurd hkey (by decide)

end AigentSquad.SchemaDialect
