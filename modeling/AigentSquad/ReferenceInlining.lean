import AigentSquad.OpenRecursion
import AigentSquad.SchemaWalk

/-!
# Reference inlining ends

`_resolve_refs` as it calls itself, with `_ref_depth` counted up and whatever
nesting the calls need. A call on a part of a schema leaves `_ref_depth` alone
and has less to read, a call on a definition raises it up to the cap: the calls
end, and no path through them inlines more references than the cap.
-/

set_option autoImplicit false

namespace AigentSquad.ReferenceInlining
open AigentSquad.PyText AigentSquad.PyJson AigentSquad.Dict AigentSquad.Effects
open AigentSquad.ToolSchema hiding inline
open AigentSquad.OpenRecursion AigentSquad.SchemaPasses AigentSquad.SchemaWalk

/-- A result or an exception, or neither where the calls are not nested deep enough. -/
abbrev Run := ExceptT Exn Option

section Body
variable (again : Json → Run Json)

def visit_members : List (Str × Json) → Run (List (Str × Json))
  | [] => pure []
  | (name, schema) :: members => do
    let schema ← again schema
    let rest ← visit_members members
    pure ((name, schema) :: rest)

def visit_items : List Json → Run (List Json)
  | [] => pure []
  | schema :: items => do
    let schema ← again schema
    let rest ← visit_items items
    pure (schema :: rest)

def visit_value (key : Str) (value : Json) : Run Json :=
  if key = "properties".toList then
    match value with
    | .obj members => Json.obj <$> visit_members again members
    | value => pure value
  else if key = "items".toList then
    match value with
    | .obj pairs => again (.obj pairs)
    | value => pure value
  else if key ∈ union_keywords then
    match value with
    | .arr items => Json.arr <$> visit_items again items
    | value => pure value
  else pure value

def visit_pairs : List (Str × Json) → Run (List (Str × Json))
  | [] => pure []
  | (key, value) :: pairs =>
    if key ∈ definition_keywords then visit_pairs pairs
    else do
      let value ← visit_value again key value
      let rest ← visit_pairs pairs
      pure ((key, value) :: rest)

end Body

/-- The body of `_resolve_refs`, a call being its `_ref_depth` and its schema. -/
def visit (defs : Entries Str Json) (again : ℕ × Json → Option (Except Exn Json)) :
    ℕ × Json → Option (Except Exn Json)
  | (ref_depth, .obj pairs) =>
    match Json.get pairs "$ref".toList with
    | some ref_path =>
      if MAX_NESTING_DEPTH ≤ ref_depth then some (.ok generic_object)
      else
        match ref_path with
        | .str path =>
          match definition defs path with
          | some resolved => again (ref_depth + 1, resolved)
          | none => some (.ok generic_object)
        | _ => some (.error .AttributeError)
    | none => (Json.obj <$> visit_pairs (fun schema => again (ref_depth, schema)) pairs : Run Json)
  | (_, schema) => some (.ok schema)

/-! ## The calls -/

/-- The parts of a keyword's value that are schemas. -/
def parts (key : Str) : Json → List Json
  | .obj pairs =>
    if key = "properties".toList then pairs.map Prod.snd
    else if key = "items".toList then [.obj pairs]
    else []
  | .arr items => if key ∈ union_keywords then items else []
  | _ => []

def calls (defs : Entries Str Json) : ℕ × Json → List (ℕ × Json)
  | (ref_depth, .obj pairs) =>
    match Json.get pairs "$ref".toList with
    | some (.str path) =>
      if MAX_NESTING_DEPTH ≤ ref_depth then []
      else ((definition defs path).map (fun resolved => (ref_depth + 1, resolved))).toList
    | some _ => []
    | none => (pairs.flatMap (fun p => parts p.1 p.2)).map (fun schema => (ref_depth, schema))
  | _ => []

/-- A call made on the way from the root, and how many references were inlined before it. -/
inductive Path (defs : Entries Str Json) (root : Json) : ℕ → ℕ × Json → Prop
  | root : Path defs root 0 (0, root)
  | part {inlined : ℕ} {x y : ℕ × Json} (h : Path defs root inlined x)
      (hx : reference x.2 = none) (hy : y ∈ calls defs x) : Path defs root inlined y
  | definition {inlined : ℕ} {x y : ℕ × Json} {ref_path : Json} (h : Path defs root inlined x)
      (hx : reference x.2 = some ref_path) (hy : y ∈ calls defs x) :
      Path defs root (inlined + 1) y

theorem calls_reference (defs : Entries Str Json) (x y : ℕ × Json) {ref_path : Json}
    (hx : reference x.2 = some ref_path) (hy : y ∈ calls defs x) :
    x.1 < MAX_NESTING_DEPTH ∧ y.1 = x.1 + 1 := by
  obtain ⟨ref_depth, schema⟩ := x
  cases schema with
  | obj pairs =>
    rw [calls, show Json.get pairs "$ref".toList = some ref_path from hx] at hy
    cases ref_path with
    | str path =>
      dsimp only at hy
      split at hy
      · cases hy
      · next hless =>
        obtain ⟨resolved, _, rfl⟩ := by simpa using hy
        exact ⟨Nat.lt_of_not_le hless, rfl⟩
    | _ => cases hy
  | _ => cases hx

theorem parts_smaller {pairs : List (Str × Json)} {key : Str} {value schema : Json}
    (h : (key, value) ∈ pairs) (hs : schema ∈ parts key value) :
    sizeOf schema < sizeOf (Json.obj pairs) := by
  cases value with
  | obj members =>
    simp only [parts] at hs
    split_ifs at hs
    · obtain ⟨m, hm, rfl⟩ := List.mem_map.mp hs
      exact member_smaller h hm
    · rw [List.mem_singleton.mp hs]
      exact value_smaller h
    · cases hs
  | arr items =>
    simp only [parts] at hs
    split_ifs at hs
    · have hitem := List.sizeOf_lt_of_mem hs
      have hvalue := value_smaller h
      rw [Json.arr.sizeOf_spec] at hvalue
      omega
    · cases hs
  | _ => cases hs

theorem calls_part (defs : Entries Str Json) (x y : ℕ × Json) (hx : reference x.2 = none)
    (hy : y ∈ calls defs x) : y.1 = x.1 ∧ sizeOf y.2 < sizeOf x.2 := by
  obtain ⟨ref_depth, schema⟩ := x
  cases schema with
  | obj pairs =>
    rw [calls, show Json.get pairs "$ref".toList = none from hx] at hy
    obtain ⟨schema, hschema, rfl⟩ := List.mem_map.mp hy
    obtain ⟨⟨key, value⟩, hmem, hpart⟩ := List.mem_flatMap.mp hschema
    exact ⟨rfl, parts_smaller hmem hpart⟩
  | _ => cases hy

/-- The references left before the cap, then the size of the schema. -/
theorem calls_wellFounded (defs : Entries Str Json) :
    WellFounded (fun y x => y ∈ calls defs x) := by
  refine wellFounded_of_rank (fun x => (MAX_NESTING_DEPTH - x.1, sizeOf x.2)) ?_
  intro x y hy
  cases hx : reference x.2 with
  | some ref_path =>
    obtain ⟨hless, hdepth⟩ := calls_reference defs x y hx hy
    left
    dsimp only
    omega
  | none =>
    obtain ⟨hdepth, hsize⟩ := calls_part defs x y hx hy
    exact .inr ⟨by rw [hdepth], hsize⟩

/-- `_ref_depth` counts the references inlined on the way, and stays within the cap. -/
theorem path_depth {defs : Entries Str Json} {root : Json} {inlined : ℕ} {x : ℕ × Json}
    (h : Path defs root inlined x) : inlined = x.1 ∧ x.1 ≤ MAX_NESTING_DEPTH := by
  induction h with
  | root => exact ⟨rfl, Nat.zero_le _⟩
  | part _ hx hy ih =>
    rwa [(calls_part defs _ _ hx hy).1]
  | definition _ hx hy ih =>
    obtain ⟨hless, hdepth⟩ := calls_reference defs _ _ hx hy
    omega

/-! ## What the body asks for -/

section Congruence
variable {f g : Json → Run Json}

theorem visit_members_congr {members : List (Str × Json)} (h : ∀ m ∈ members, f m.2 = g m.2) :
    visit_members f members = visit_members g members := by
  induction members with
  | nil => rfl
  | cons m members ih =>
    obtain ⟨hm, hmembers⟩ := List.forall_mem_cons.mp h
    obtain ⟨name, schema⟩ := m
    rw [visit_members, visit_members, show f schema = g schema from hm, ih hmembers]

theorem visit_items_congr {items : List Json} (h : ∀ s ∈ items, f s = g s) :
    visit_items f items = visit_items g items := by
  induction items with
  | nil => rfl
  | cons schema items ih =>
    obtain ⟨hschema, hitems⟩ := List.forall_mem_cons.mp h
    rw [visit_items, visit_items, hschema, ih hitems]

theorem visit_value_congr {key : Str} {value : Json} (h : ∀ s ∈ parts key value, f s = g s) :
    visit_value f key value = visit_value g key value := by
  unfold visit_value
  split_ifs with hp hi hu
  · cases value with
    | obj members =>
      rw [parts, if_pos hp] at h
      simp only [visit_members_congr (List.forall_mem_map.mp h)]
    | _ => rfl
  · cases value with
    | obj pairs =>
      rw [parts, if_neg hp, if_pos hi] at h
      exact h _ (List.mem_singleton_self _)
    | _ => rfl
  · cases value with
    | arr items =>
      rw [parts, if_pos hu] at h
      simp only [visit_items_congr h]
    | _ => rfl
  · rfl

theorem visit_pairs_congr {pairs : List (Str × Json)}
    (h : ∀ p ∈ pairs, ∀ s ∈ parts p.1 p.2, f s = g s) :
    visit_pairs f pairs = visit_pairs g pairs := by
  induction pairs with
  | nil => rfl
  | cons p pairs ih =>
    obtain ⟨hp, hpairs⟩ := List.forall_mem_cons.mp h
    obtain ⟨key, value⟩ := p
    rw [visit_pairs, visit_pairs, visit_value_congr hp, ih hpairs]

end Congruence

theorem visit_asks (defs : Entries Str Json) : Asks (visit defs) (calls defs) := by
  intro f g x h
  obtain ⟨ref_depth, schema⟩ := x
  cases schema with
  | obj pairs =>
    rw [calls] at h
    rw [visit, visit]
    cases href : Json.get pairs "$ref".toList with
    | none =>
      rw [href] at h
      dsimp only at h ⊢
      rw [visit_pairs_congr]
      intro p hp schema hschema
      exact h _ (List.mem_map_of_mem (List.mem_flatMap.mpr ⟨p, hp, hschema⟩))
    | some ref_path =>
      rw [href] at h
      dsimp only at h ⊢
      split_ifs with hcap
      · rfl
      · cases ref_path with
        | str path =>
          dsimp only at h ⊢
          rw [if_neg hcap] at h
          cases hdef : definition defs path with
          | none => rfl
          | some resolved => exact h _ (by simp [hdef])
        | _ => rfl
  | _ => rfl

/-! ## What the calls return -/

section Returns
variable (f : Json → Except Exn Json)

/-- A call answered by one pass. -/
def answered (schema : Json) : Run Json := ExceptT.mk (some (ToolSchema.inline f schema))

theorem visit_members_answered (members : List (Str × Json)) :
    visit_members (answered f) members = ExceptT.mk (some (inlineMembers f members)) := by
  induction members with
  | nil => rfl
  | cons m members ih =>
    obtain ⟨name, schema⟩ := m
    rw [visit_members, inlineMembers, ih, answered]
    cases ToolSchema.inline f schema with
    | error e => rfl
    | ok schema => cases inlineMembers f members <;> rfl

theorem visit_items_answered (items : List Json) :
    visit_items (answered f) items = ExceptT.mk (some (inlineItems f items)) := by
  induction items with
  | nil => rfl
  | cons schema items ih =>
    rw [visit_items, inlineItems, ih, answered]
    cases ToolSchema.inline f schema with
    | error e => rfl
    | ok schema => cases inlineItems f items <;> rfl

theorem visit_value_answered (key : Str) (value : Json) :
    visit_value (answered f) key value = ExceptT.mk (some (inlineValue f key value)) := by
  unfold visit_value inlineValue
  split_ifs
  · cases value with
    | obj members =>
      dsimp only
      rw [inlineProperties, visit_members_answered]
      cases inlineMembers f members <;> rfl
    | _ => rfl
  · cases value with
    | obj pairs => rfl
    | _ => rfl
  · cases value with
    | arr items =>
      dsimp only
      rw [inlineUnion, visit_items_answered]
      cases inlineItems f items <;> rfl
    | _ => rfl
  · rfl

theorem visit_pairs_answered (pairs : List (Str × Json)) :
    visit_pairs (answered f) pairs = ExceptT.mk (some (inlinePairs f pairs)) := by
  induction pairs with
  | nil => rfl
  | cons p pairs ih =>
    obtain ⟨key, value⟩ := p
    by_cases hkey : key ∈ definition_keywords
    · rw [visit_pairs, if_pos hkey, ih,
        inlinePairs_left_out f key value pairs (by simp [kept, hkey])]
    · rw [visit_pairs, if_neg hkey, ih, visit_value_answered,
        inlinePairs_kept f key value pairs (by simp [kept, hkey])]
      cases inlineValue f key value with
      | error e => rfl
      | ok value => cases inlinePairs f pairs <;> rfl

end Returns

theorem visit_eq (defs : Entries Str Json) (x : ℕ × Json) :
    visit defs (fun y => some (resolve_refs defs (MAX_NESTING_DEPTH - y.1) y.2)) x =
      some (resolve_refs defs (MAX_NESTING_DEPTH - x.1) x.2) := by
  obtain ⟨ref_depth, schema⟩ := x
  cases schema with
  | obj pairs =>
    rw [visit]
    cases href : Json.get pairs "$ref".toList with
    | none =>
      have hagain : (fun schema => some (resolve_refs defs (MAX_NESTING_DEPTH - ref_depth) schema))
          = answered (follow defs (MAX_NESTING_DEPTH - ref_depth)) := by
        funext schema
        rw [resolve_refs_eq]
        rfl
      dsimp only
      rw [hagain, visit_pairs_answered, resolve_refs_eq, inline_obj _ _ href]
      cases inlinePairs (follow defs (MAX_NESTING_DEPTH - ref_depth)) pairs <;> rfl
    | some ref_path =>
      dsimp only
      rw [resolve_refs_eq,
        inline_reference (show reference (.obj pairs) = some ref_path from href)]
      split_ifs with hcap
      · rw [Nat.sub_eq_zero_of_le hcap]
        rfl
      · obtain ⟨hops, hhops⟩ : ∃ hops, MAX_NESTING_DEPTH - ref_depth = hops + 1 :=
          ⟨MAX_NESTING_DEPTH - (ref_depth + 1), by omega⟩
        rw [hhops]
        cases ref_path with
        | str path =>
          rw [follow]
          dsimp only
          cases definition defs path with
          | none => rfl
          | some resolved =>
            dsimp only
            rw [show MAX_NESTING_DEPTH - (ref_depth + 1) = hops by omega]
        | _ => rfl
  | _ =>
    rw [resolve_refs_eq]
    rfl

/-- However the definitions refer to each other, `_resolve_refs` returns, and no
path through the calls it makes inlines more references than the cap. -/
theorem inlining_terminates (defs : Entries Str Json) (schema : Json) :
    (∃ depth, ∀ more, depth ≤ more →
      within (visit defs) more (0, schema) =
        some (resolve_refs defs MAX_NESTING_DEPTH schema)) ∧
    Asks (visit defs) (calls defs) ∧
    ∀ inlined call, Path defs schema inlined call → inlined ≤ MAX_NESTING_DEPTH := by
  refine ⟨?_, visit_asks defs, ?_⟩
  · exact within_eq (visit_asks defs) (calls_wellFounded defs)
      (fun x => resolve_refs defs (MAX_NESTING_DEPTH - x.1) x.2) (visit_eq defs) (0, schema)
  · intro inlined call hpath
    obtain ⟨rfl, hcap⟩ := path_depth hpath
    exact hcap

end AigentSquad.ReferenceInlining
