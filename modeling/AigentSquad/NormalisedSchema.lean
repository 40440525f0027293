import AigentSquad.SchemaWalk

/-!
# What the four passes make of an object

The last two passes keep a rebuilt object's keywords, in their order, and go
below `properties` and `items`. The top level is kept or replaced as a whole.
-/

set_option autoImplicit false

namespace AigentSquad.NormalisedSchema
open AigentSquad.PyText AigentSquad.PyJson AigentSquad.Dict AigentSquad.Effects
open AigentSquad.ToolSchema hiding inline
open AigentSquad.KeyedEntries AigentSquad.Interaction AigentSquad.SchemaPasses
open AigentSquad.SchemaWalk

variable {defs : Entries Str Json} {hops hops' : Nat} {schema : Json}

/-- All four passes, with `left` levels and `hops` references left. -/
def normalised (defs : Entries Str Json) (left hops : Nat) (schema : Json) : Except Exn Json :=
  (simplified defs hops schema).map (capped left)

theorem capped_isObject (left : Nat) (v : Json) : (capped left v).isObject = v.isObject := by
  cases v with
  | obj pairs => cases left <;> rfl
  | _ => rfl

/-- A value that is no object passes as it stands. -/
theorem normalised_scalar {left : Nat} {out : Json}
    (h : normalised defs left hops schema = .ok out) (hout : out.isObject = false) :
    ∃ hops', destination defs hops schema = .schema hops' out := by
  obtain ⟨t, ht, rfl⟩ := map_eq_ok.mp h
  rw [capped_isObject] at hout
  rw [capped_scalar left t hout]
  have hleads := (simplified_isObject hops schema ht).symm.trans hout
  unfold leads_to_object at hleads
  cases hdest : destination defs hops schema with
  | fails =>
    rw [simplified, destination_fails hdest] at ht
    cases ht
  | collapses => simp [hdest] at hleads
  | schema hops' target =>
    rw [hdest] at hleads
    rw [simplified_destination hdest, simplified_scalar _ _ _ hleads] at ht
    cases ht
    exact ⟨hops', rfl⟩

theorem normalised_of_scalar {left : Nat} {target out : Json}
    (h : normalised defs left hops schema = .ok out) (htarget : target.isObject = false)
    (hdest : destination defs hops schema = .schema hops' target) : out = target := by
  rw [normalised, simplified_destination hdest, simplified_scalar _ _ _ htarget] at h
  cases h
  exact capped_scalar left target htarget

theorem allowed_kept : ∀ key ∈ allowed, kept key = true ∧ key ∉ union_keywords := by decide

theorem filter_kept (pairs : List (Str × Json)) :
    (pairs.filter (fun p => kept p.1)).filter (fun p => p.1 ∈ allowed) =
      pairs.filter (fun p => p.1 ∈ allowed) := by
  rw [List.filter_filter]
  apply List.filter_congr
  intro p _
  by_cases h : p.1 ∈ allowed
  · simp [h, (allowed_kept p.1 h).1]
  · simp [h]

/-- A description is neither dropped nor changed at the end. -/
theorem capped_added (left : Nat) (ts added : List (Str × Json))
    (h : ∀ p ∈ added, p.1 = "description".toList) :
    capped (left + 1) (.obj (ts ++ added)) =
      .obj ((ts.filter (fun p => p.1 ∈ allowed)).map (fun p => (p.1, cappedValue left p.1 p.2)) ++
        added) := by
  have hkeep : added.filter (fun p => p.1 ∈ allowed) = added := by
    rw [List.filter_eq_self]
    intro p hp
    rw [h p hp]
    decide
  have hsame : added.map (fun p => (p.1, cappedValue left p.1 p.2)) = added := by
    refine (List.map_congr_left ?_).trans (List.map_id added)
    intro p hp
    rw [cappedValue, h p hp, if_neg (by decide), if_neg (by decide), ← h p hp]
    rfl
  rw [capped, cap_depth, strip_unsupported_keys, capped_pairs, List.filter_append,
    List.map_append, hkeep, hsame]

/-- The entries of a normalised object, from those of the raw one. A union may have left it a
description. -/
def Normal (defs : Entries Str Json) (left hops : Nat) (pairs entries : List (Str × Json)) : Prop :=
  ∃ outs added, entries = outs ++ added ∧
    Keyed (Walked (fun a b => normalised defs left hops a = .ok b))
      (pairs.filter (fun p => p.1 ∈ allowed)) outs ∧
    ∀ p ∈ added, p.1 = "description".toList

theorem capped_rebuilt (left : Nat) {pairs : List (Str × Json)} {t : Json}
    (h : Rebuilt defs hops pairs t) :
    ∃ entries, capped (left + 1) t = .obj entries ∧ Normal defs left hops pairs entries := by
  obtain ⟨ts, added, rfl, hts, hadded⟩ := h
  refine ⟨_, capped_added left ts added hadded, _, added, rfl, ?_, hadded⟩
  have hallowed := hts.filter (fun k => k ∈ allowed)
  rw [filter_kept] at hallowed
  have hcapped : Keyed (fun k v w => w = cappedValue left k v) (ts.filter (fun p => p.1 ∈ allowed))
      ((ts.filter (fun p => p.1 ∈ allowed)).map (fun p => (p.1, cappedValue left p.1 p.2))) :=
    List.forall₂_map_right_iff.mpr (List.forall₂_same.mpr (fun _ _ => ⟨rfl, rfl⟩))
  refine ((keyed_comp _ _ _ _).mp ⟨_, hallowed, hcapped⟩).mono ?_
  rintro key v w hmem ⟨u, hu, rfl⟩
  have hkey : key ∈ allowed := by simpa using (List.mem_filter.mp hmem).2
  have hpassed := (passed_walked defs hops key v u (allowed_kept key hkey).2).mp hu
  refine (hpassed.comp (cappedValue_walked left key u)).mono ?_
  rintro a b ⟨c, hc, rfl⟩
  exact map_eq_ok.mpr ⟨c, hc, rfl⟩

section
variable {left : Nat} {pairs entries : List (Str × Json)} {key : Str} {v w : Json}

theorem mem_allowed (hkey : key ∈ allowed) :
    (key, v) ∈ pairs.filter (fun p => p.1 ∈ allowed) ↔ (key, v) ∈ pairs := by
  rw [List.mem_filter]
  exact and_iff_left (by simpa using hkey)

theorem Normal.keys (h : Normal defs left hops pairs entries) : ∀ p ∈ entries, p.1 ∈ allowed := by
  obtain ⟨outs, added, rfl, houts, hadded⟩ := h
  intro p hp
  rcases List.mem_append.mp hp with hp | hp
  · obtain ⟨v, hv, _⟩ := houts.mem_right (k := p.1) (w := p.2) hp
    simpa using (List.mem_filter.mp hv).2
  · rw [hadded p hp]
    decide

theorem Normal.mem (h : Normal defs left hops pairs entries) (hkey : key ∈ allowed)
    (hv : (key, v) ∈ pairs) :
    ∃ w, (key, w) ∈ entries ∧ Walked (fun a b => normalised defs left hops a = .ok b) key v w := by
  obtain ⟨outs, added, rfl, houts, _⟩ := h
  obtain ⟨w, hw, hwalked⟩ := houts.mem_left ((mem_allowed hkey).mpr hv)
  exact ⟨w, List.mem_append_left added hw, hwalked⟩

theorem Normal.of_mem (h : Normal defs left hops pairs entries)
    (hkey : key ≠ "description".toList) (hw : (key, w) ∈ entries) :
    ∃ v, (key, v) ∈ pairs ∧ Walked (fun a b => normalised defs left hops a = .ok b) key v w := by
  obtain ⟨outs, added, rfl, houts, hadded⟩ := h
  rcases List.mem_append.mp hw with hw | hw
  · obtain ⟨v, hv, hwalked⟩ := houts.mem_right hw
    exact ⟨v, (List.mem_filter.mp hv).1, hwalked⟩
  · exact absurd (hadded _ hw) hkey

theorem get_append_added {outs added : List (Str × Json)}
    (hadded : ∀ p ∈ added, p.1 = "description".toList) (hkey : key ≠ "description".toList) :
    Json.get (outs ++ added) key = Json.get outs key := by
  have hnone : added.find? (fun p => p.1 = key) = none := by
    rw [List.find?_eq_none]
    intro p hp
    simpa [hadded p hp] using hkey.symm
  rw [Json.get, List.find?_append, hnone, Option.or_none, Json.get]

/-- A key other than the description is looked up on both sides alike. -/
theorem Normal.get (h : Normal defs left hops pairs entries) (hallowed : key ∈ allowed)
    (hkey : key ≠ "description".toList) :
    Option.Rel (Walked (fun a b => normalised defs left hops a = .ok b) key)
      (Json.get pairs key) (Json.get entries key) := by
  obtain ⟨outs, added, rfl, houts, hadded⟩ := h
  have hrel := Keyed.get houts key
  rw [get_filter pairs (fun k => k ∈ allowed) key (by simpa using hallowed)] at hrel
  rw [get_append_added hadded hkey]
  exact hrel

theorem Normal.get_some (h : Normal defs left hops pairs entries) (hallowed : key ∈ allowed)
    (hkey : key ≠ "description".toList) (hv : Json.get pairs key = some v) :
    ∃ w, Json.get entries key = some w ∧
      Walked (fun a b => normalised defs left hops a = .ok b) key v w :=
  rel_some_left (h.get hallowed hkey) hv

theorem Normal.of_get (h : Normal defs left hops pairs entries) (hallowed : key ∈ allowed)
    (hkey : key ≠ "description".toList) (hw : Json.get entries key = some w) :
    ∃ v, Json.get pairs key = some v ∧
      Walked (fun a b => normalised defs left hops a = .ok b) key v w :=
  rel_some_right (h.get hallowed hkey) hw

/-- The keywords a pass changes something at. -/
def changed_keywords : List Str :=
  ["properties".toList, "items".toList, "description".toList]

/-- A keyword no pass changes is found in the normalised object as it was. -/
theorem Normal.same (h : Normal defs left hops pairs entries) (hallowed : key ∈ allowed)
    (hsame : key ∉ changed_keywords) : Json.get entries key = Json.get pairs key := by
  have hchanged : ∀ k ∈ changed_keywords, key ≠ k := fun k hk h => hsame (h ▸ hk)
  cases hv : Json.get pairs key with
  | none => exact rel_none (h.get hallowed (hchanged _ (by decide))) hv
  | some v =>
    obtain ⟨w, hw, hwalked⟩ := h.get_some hallowed (hchanged _ (by decide)) hv
    rw [hw, hwalked.same (hchanged _ (by decide)) (hchanged _ (by decide))]

end

/-- The definitions `normalize_input_schema` collects. -/
def extracted (schema : Entries Str Json) : Except Exn (Entries Str Json) := do
  let defs ← pop_definitions "$defs".toList schema []
  pop_definitions "definitions".toList schema defs

theorem put_values {P : Json → Prop} {d : Entries Str Json} {k : Str} {v : Json}
    (hd : ∀ p ∈ d, P p.2) (hv : P v) : ∀ p ∈ put d k v, P p.2 := by
  intro p hp
  unfold put at hp
  split_ifs at hp
  · obtain ⟨q, hq, rfl⟩ := List.mem_map.mp hp
    split_ifs
    · exact hv
    · exact hd q hq
  · rcases List.mem_append.mp hp with hp | hp
    · exact hd p hp
    · rw [List.mem_singleton.mp hp]
      exact hv

theorem update_values {P : Json → Prop} {d e : Entries Str Json} (hd : ∀ p ∈ d, P p.2)
    (he : ∀ p ∈ e, P p.2) : ∀ p ∈ update d e, P p.2 := by
  induction e generalizing d with
  | nil => exact hd
  | cons q e ih =>
    exact ih (put_values hd (he q (by simp))) (fun p hp => he p (List.mem_cons_of_mem q hp))

/-- Tables of definitions are merged without raising where they are objects. -/
theorem extracted_preserves {P : Json → Prop} {input_schema : Entries Str Json}
    (h : ∀ key ∈ definition_keywords, ∀ v, (key, v) ∈ input_schema →
      ∃ members, v = .obj members ∧ ∀ m ∈ members, P m.2) :
    ∃ defs, extracted input_schema = .ok defs ∧ ∀ p ∈ defs, P p.2 := by
  have hpop : ∀ key ∈ definition_keywords, ∀ defs : Entries Str Json, (∀ p ∈ defs, P p.2) →
      ∃ defs', pop_definitions key input_schema defs = .ok defs' ∧ ∀ p ∈ defs', P p.2 := by
    intro key hkey defs hdefs
    unfold pop_definitions
    cases hv : Dict.get input_schema key with
    | none => exact ⟨defs, rfl, hdefs⟩
    | some v =>
      obtain ⟨members, rfl, hmembers⟩ := h key hkey v (mem_of_get input_schema key v hv)
      exact ⟨update defs members, rfl, update_values hdefs hmembers⟩
  obtain ⟨first, hfirst, hvalues⟩ := hpop "$defs".toList (by decide) [] (by simp)
  obtain ⟨defs, hdefs, hall⟩ := hpop "definitions".toList (by decide) first hvalues
  refine ⟨defs, ?_, hall⟩
  rw [extracted, hfirst]
  exact hdefs

theorem inlinePairs_filter (f : Json → Except Exn Json) (pairs : List (Str × Json)) :
    inlinePairs f (pairs.filter (fun p => kept p.1)) = inlinePairs f pairs := by
  induction pairs with
  | nil => rfl
  | cons p pairs ih =>
    obtain ⟨k, v⟩ := p
    by_cases hk : kept k = true
    · rw [List.filter_cons_of_pos (p := fun p : Str × Json => kept p.1) hk,
        inlinePairs_kept f k v _ hk, inlinePairs_kept f k v _ hk, ih]
    · rw [List.filter_cons_of_neg (p := fun p : Str × Json => kept p.1) hk, ih,
        inlinePairs_left_out f k v _ (by simpa using hk)]

theorem kept_iff (key : Str) :
    kept key = true ↔ key ≠ "$defs".toList ∧ key ≠ "definitions".toList := by
  rw [kept, decide_eq_true_eq, definition_keywords, List.mem_pair, not_or]

theorem erase_definitions (schema : Entries Str Json) :
    erase (erase schema "$defs".toList) "definitions".toList =
      schema.filter (fun p => kept p.1) := by
  rw [erase, erase, List.filter_filter]
  apply List.filter_congr
  intro p _
  rw [Bool.eq_iff_iff, kept_iff, Bool.and_eq_true, decide_eq_true_eq, decide_eq_true_eq]
  exact and_comm

/-- Taking the definitions out first changes nothing. -/
theorem simplified_erased (schema : Entries Str Json) :
    simplified defs hops (.obj (erase (erase schema "$defs".toList) "definitions".toList)) =
      simplified defs hops (.obj schema) := by
  have hget : Json.get (schema.filter (fun p => kept p.1)) "$ref".toList =
      Json.get schema "$ref".toList := get_filter schema kept _ (by decide)
  rw [erase_definitions, simplified, simplified, resolve_refs_eq, resolve_refs_eq,
    ToolSchema.inline, ToolSchema.inline, hget, inlinePairs_filter]

theorem normalised_passes (left : Nat) (schema : Json) :
    (do
      let schema ← resolve_refs defs hops schema
      let schema ← simplify_unions schema
      top_level (strip_unsupported_keys (cap_depth left schema))) =
      (normalised defs left hops schema >>= top_level) := by
  rw [normalised, simplified]
  cases resolve_refs defs hops schema with
  | error e => rfl
  | ok resolved =>
    change (simplify_unions resolved >>= _) =
      ((simplify_unions resolved).map (capped left) >>= top_level)
    cases simplify_unions resolved <;> rfl

theorem normalize_eq (schema : Entries Str Json) :
    normalize_input_schema (some schema) = (do
      let defs ← extracted schema
      let normal ← normalised defs MAX_NESTING_DEPTH MAX_NESTING_DEPTH (.obj schema)
      top_level normal) := by
  cases hschema : schema with
  | nil => rfl
  | cons p pairs =>
    rw [← hschema, normalize_input_schema, extracted, bind_assoc]
    · congr 1
      funext defs
      congr 1
      funext defs
      refine (normalised_passes MAX_NESTING_DEPTH _).trans ?_
      rw [normalised, simplified_erased, normalised]
    · rw [hschema]
      simp

/-- An object schema at the top. -/
def ObjectSchema : Json → Prop
  | .obj pairs => Json.get pairs "type".toList = some (.str "object".toList)
  | _ => False

theorem top_level_object {pairs : List (Str × Json)}
    (h : Json.get pairs "type".toList = some (.str "object".toList)) :
    top_level (.obj pairs) = .ok (.obj pairs) := by
  rw [top_level, h]
  rfl

theorem top_level_other {pairs : List (Str × Json)}
    (h : Json.get pairs "type".toList ≠ some (.str "object".toList)) :
    top_level (.obj pairs) = .ok permissive_object := by
  rw [top_level]
  cases ht : Json.get pairs "type".toList with
  | none => rfl
  | some v =>
    cases v with
    | str t =>
      have hne : t ≠ "object".toList := by
        rintro rfl
        exact h ht
      simp only [if_neg hne]
    | _ => rfl

/-- What is returned is an object schema. -/
theorem top_level_is_object {normal out : Json} (h : top_level normal = .ok out) :
    ObjectSchema out := by
  cases normal with
  | obj pairs =>
    by_cases ht : Json.get pairs "type".toList = some (.str "object".toList)
    · rw [top_level_object ht] at h
      cases h
      exact ht
    · rw [top_level_other ht] at h
      cases h
      rfl
  | _ => cases h

end AigentSquad.NormalisedSchema
