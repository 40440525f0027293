import AigentSquad.ToolSchema

/-!
# Listing an adapter's tools and resolving their names

`McpAdapter.list_tool_specs`, `_build_specs_from_session` and
`_resolve_server_name`. Every spec is kept with the server tool it was built
from, which the code does not store. Any exception while listing leaves no
specs, and the name map as far as it was filled.
-/

set_option autoImplicit false

namespace AigentSquad.ToolListing
open AigentSquad.PyText AigentSquad.PyJson AigentSquad.Dict AigentSquad.Effects
open AigentSquad.ToolSchema

structure Tool where
  name : Str
  description : Option Str
  inputSchema : Option (Entries Str Json)

structure Offer where
  tool : Tool
  spec : ToolSpec

/-- What an adapter is configured with, as far as its tools are concerned. -/
structure Datasource where
  adapter : McpAdapter
  tools : List Str
  cache_ttl : ℚ

structure AdapterState where
  name_map : Option ToolNameMap
  cached_tool_specs : Option (List Offer)
  specs_cached_at : ℚ

def AdapterState.fresh : AdapterState := ⟨none, none, 0⟩

/-- How reading the catalog ends: without one, with one, or with one and an
exception while the session closes. -/
inductive Listing where
  | failure
  | catalog (tools : List Tool)
  | dropped (tools : List Tool)

/-- The offers of a catalog, with the name map it leaves also when it raises. -/
def build_specs (allowlist : List Str) (m : ToolNameMap) :
    List Tool → Except Exn (List Offer) × ToolNameMap
  | [] => (.ok [], m)
  | tool :: tools =>
    if tool.name ∈ allowlist then
      let registered := register m tool.name
      match tool_spec registered.1 tool.name (tool.description.getD []) tool.inputSchema with
      | .error e => (.error e, registered.2)
      | .ok spec =>
        let rest := build_specs allowlist registered.2 tools
        (rest.1.map (fun offers => ⟨tool, spec⟩ :: offers), rest.2)
    else build_specs allowlist m tools

/-- The offers and the name map a listing answer leaves. -/
def read_catalog (d : Datasource) : Listing → List Offer × ToolNameMap
  | .failure => ([], ToolNameMap.empty)
  | .catalog tools =>
    let built := build_specs d.tools ToolNameMap.empty tools
    (built.1.toOption.getD [], built.2)
  | .dropped tools => ([], (build_specs d.tools ToolNameMap.empty tools).2)

/-- The cached offers while they are valid. -/
def cached (d : Datasource) (st : AdapterState) (now : ℚ) : Option (List Offer) :=
  match st.cached_tool_specs with
  | some offers =>
    if 0 < d.cache_ttl ∧ now - st.specs_cached_at < d.cache_ttl then some offers else none
  | none => none

/-- The assignments that end a listing at the time `now`. -/
def store (d : Datasource) (answer : Listing) (now : ℚ) : List Offer × AdapterState :=
  let read := if d.tools.isEmpty then ([], ToolNameMap.empty) else read_catalog d answer
  (read.1, ⟨some read.2, some read.1, now⟩)

def list_tool_specs (d : Datasource) (st : AdapterState) (now : ℚ) (answer : Listing)
    (later : ℚ) : List Offer × AdapterState :=
  match cached d st now with
  | some offers => (offers, st)
  | none => store d answer later

/-- A server name from the map, when it is there and not empty. -/
def mapped (st : AdapterState) (converse_name : Str) : Option Str :=
  st.name_map.bind (fun m =>
    (to_server_name m converse_name).filter (fun server_name => !server_name.isEmpty))

def fallback (d : Datasource) (converse_name : Str) : Str :=
  if converse_name ∈ d.tools then converse_name
  else if hyphened converse_name ∈ d.tools then hyphened converse_name
  else converse_name

def resolve_server_name (d : Datasource) (st : AdapterState) (converse_name : Str) : Str :=
  (mapped st converse_name).getD (fallback d converse_name)

/-- The tool `call_tool` executes, `none` for a `PermissionError`. -/
def call_target (d : Datasource) (st : AdapterState) (name : Str) : Option Str :=
  let server_name := resolve_server_name d st name
  if server_name ∈ d.tools then some server_name else none

/-- Rule of the catalog loop: what every registration keeps holds of the map in
the end, and what it gives holds of every offer. -/
theorem build_specs_rule (allowlist : List Str) (P : ToolNameMap → Prop) (Q : Str → Str → Prop)
    (hreg : ∀ m server_name, server_name ∈ allowlist → P m →
      P (register m server_name).2 ∧ Q (register m server_name).1 server_name)
    (m : ToolNameMap) (tools : List Tool) (hm : P m) :
    P (build_specs allowlist m tools).2 ∧
      ∀ offers, (build_specs allowlist m tools).1 = .ok offers →
        ∀ o ∈ offers, Q o.spec.name o.tool.name := by
  induction tools generalizing m with
  | nil =>
    refine ⟨hm, ?_⟩
    intro offers h o ho
    simp only [build_specs, Except.ok.injEq] at h
    simp [← h] at ho
  | cons t tools ih =>
    unfold build_specs
    by_cases ht : t.name ∈ allowlist
    · obtain ⟨hnext, hname⟩ := hreg m t.name ht hm
      simp only [if_pos ht]
      cases hspec : tool_spec (register m t.name).1 t.name (t.description.getD [])
          t.inputSchema with
      | error e => exact ⟨hnext, fun offers h => by cases h⟩
      | ok spec =>
        obtain ⟨hmap, hoffers⟩ := ih (register m t.name).2 hnext
        refine ⟨hmap, ?_⟩
        intro offers h o ho
        cases hrest : (build_specs allowlist (register m t.name).2 tools).1 with
        | error e => simp [hrest, Except.map] at h
        | ok rest =>
          simp only [hrest, Except.map, Except.ok.injEq] at h
          rw [← h, List.mem_cons] at ho
          rcases ho with rfl | ho
          · rwa [tool_spec_name _ _ _ _ _ hspec]
          · exact hoffers rest hrest o ho
    · simpa only [if_neg ht] using ih m hm

theorem build_specs_keeps (allowlist : List Str) (m : ToolNameMap) (tools : List Tool)
    (name tool : Str) (h : to_server_name m name = some tool) :
    to_server_name (build_specs allowlist m tools).2 name = some tool :=
  (build_specs_rule allowlist (fun m => to_server_name m name = some tool) (fun _ _ => True)
    (fun m server_name _ hm => ⟨register_keeps m server_name name tool hm, trivial⟩) m tools h).1

/-- The empty name stands for the empty tool only. -/
def EmptyName (m : ToolNameMap) : Prop := ∀ tool, to_server_name m [] = some tool → tool = []

theorem register_empty (m : ToolNameMap) (server_name : Str) (hm : EmptyName m) :
    EmptyName (register m server_name).2 ∧ (server_name = [] → (register m server_name).1 = []) := by
  have hbase : server_name = [] → registered_name m server_name = [] := by
    rintro rfl
    have hclear : clashes m [] [] = false := by
      unfold clashes
      cases hg : get m.to_server [] with
      | none => rfl
      | some other => simpa using hm other hg
    simp [registered_name, underscored, hclear]
  have hback : registered_name m server_name = [] → server_name = [] := by
    unfold registered_name
    by_cases hc : clashes m (underscored server_name) server_name = true
    · simp [hc, suffixed]
    · simp only [hc, Bool.false_eq_true, if_false]
      exact List.map_eq_nil_iff.mp
  refine ⟨?_, hbase⟩
  intro tool htool
  by_cases hname : [] = registered_name m server_name
  · have hown := register_own m server_name
    change to_server_name _ (registered_name m server_name) = _ at hown
    rw [← hname, htool, Option.some.injEq] at hown
    rw [hown]
    exact hback hname.symm
  · exact hm tool ((get_put_other _ _ _ _ hname).symm.trans htool)

/-- Every offer of a catalog is for an allowed tool, and the map knows its name. -/
theorem build_specs_offers (allowlist : List Str) (m : ToolNameMap) (tools : List Tool)
    (offers : List Offer) (h : (build_specs allowlist m tools).1 = .ok offers) (o : Offer)
    (ho : o ∈ offers) :
    o.tool.name ∈ allowlist ∧
      to_server_name (build_specs allowlist m tools).2 o.spec.name = some o.tool.name := by
  induction tools generalizing m offers with
  | nil =>
    simp only [build_specs, Except.ok.injEq] at h
    simp [← h] at ho
  | cons t tools ih =>
    unfold build_specs at h ⊢
    by_cases ht : t.name ∈ allowlist
    · simp only [if_pos ht] at h ⊢
      cases hspec : tool_spec (register m t.name).1 t.name (t.description.getD [])
          t.inputSchema with
      | error e => simp [hspec] at h
      | ok spec =>
        simp only [hspec] at h ⊢
        cases hrest : (build_specs allowlist (register m t.name).2 tools).1 with
        | error e => simp [hrest, Except.map] at h
        | ok rest =>
          simp only [hrest, Except.map, Except.ok.injEq] at h
          rw [← h, List.mem_cons] at ho
          rcases ho with rfl | ho
          · have hname := tool_spec_name _ _ _ _ _ hspec
            refine ⟨ht, ?_⟩
            rw [hname]
            exact build_specs_keeps allowlist _ tools _ _ (register_own m t.name)
          · exact ih _ rest hrest ho
    · simp only [if_neg ht] at h ⊢
      exact ih m offers h ho

/-- The offers are for allowed tools and are known to the map. -/
structure Known (d : Datasource) (m : ToolNameMap) (offers : List Offer) : Prop where
  allowed : ∀ o ∈ offers, o.tool.name ∈ d.tools
  listed : ∀ o ∈ offers, to_server_name m o.spec.name = some o.tool.name
  empty : ∀ o ∈ offers, o.tool.name = [] → o.spec.name = []

theorem known_nil (d : Datasource) (m : ToolNameMap) : Known d m [] :=
  ⟨by simp, by simp, by simp⟩

/-- What an answer leaves is what building some catalog leaves, offers kept or not. -/
theorem read_catalog_built (d : Datasource) (answer : Listing) :
    ∃ tools, (read_catalog d answer).2 = (build_specs d.tools ToolNameMap.empty tools).2 ∧
      ((read_catalog d answer).1 = [] ∨
        (build_specs d.tools ToolNameMap.empty tools).1 = .ok (read_catalog d answer).1) := by
  cases answer with
  | failure => exact ⟨[], rfl, .inl rfl⟩
  | dropped tools => exact ⟨tools, rfl, .inl rfl⟩
  | catalog tools =>
    refine ⟨tools, rfl, ?_⟩
    cases hbuilt : (build_specs d.tools ToolNameMap.empty tools).1 with
    | error e => simp [read_catalog, hbuilt, Except.toOption]
    | ok offers => simp [read_catalog, hbuilt, Except.toOption]

theorem read_catalog_known (d : Datasource) (answer : Listing) :
    Known d (read_catalog d answer).2 (read_catalog d answer).1 := by
  obtain ⟨tools, hmap, hnone | hbuilt⟩ := read_catalog_built d answer
  · rw [hnone]
    exact known_nil d _
  · have hoffers := build_specs_offers d.tools _ tools _ hbuilt
    have hempty := (build_specs_rule d.tools EmptyName (fun name tool => tool = [] → name = [])
      (fun m server_name _ hm => register_empty m server_name hm) ToolNameMap.empty tools
      (fun tool h => by cases h)).2 _ hbuilt
    rw [hmap]
    exact ⟨fun o ho => (hoffers o ho).1, fun o ho => (hoffers o ho).2, hempty⟩

/-- What an adapter has cached it can resolve. -/
def Coherent (d : Datasource) (st : AdapterState) : Prop :=
  ∀ offers, st.cached_tool_specs = some offers → ∃ m, st.name_map = some m ∧ Known d m offers

theorem fresh_coherent (d : Datasource) : Coherent d AdapterState.fresh := by
  intro offers h
  cases h

theorem cached_eq (d : Datasource) (st : AdapterState) (now : ℚ) (offers : List Offer)
    (h : cached d st now = some offers) : st.cached_tool_specs = some offers := by
  unfold cached at h
  cases hc : st.cached_tool_specs with
  | none => simp [hc] at h
  | some held =>
    simp only [hc] at h
    by_cases hvalid : 0 < d.cache_ttl ∧ now - st.specs_cached_at < d.cache_ttl
    · rwa [if_pos hvalid] at h
    · simp [hvalid] at h

theorem store_known (d : Datasource) (answer : Listing) (now : ℚ) :
    ∃ m, (store d answer now).2.name_map = some m ∧
      (store d answer now).2.cached_tool_specs = some (store d answer now).1 ∧
      Known d m (store d answer now).1 := by
  by_cases hempty : d.tools.isEmpty = true
  · exact ⟨_, rfl, rfl, by simpa [store, hempty] using known_nil d _⟩
  · refine ⟨_, rfl, rfl, ?_⟩
    simpa [store, hempty] using read_catalog_known d answer

/-- A listing returns what its adapter resolves afterwards. -/
theorem list_tool_specs_known (d : Datasource) (st : AdapterState) (now : ℚ) (answer : Listing)
    (later : ℚ) (h : Coherent d st) :
    ∃ m, (list_tool_specs d st now answer later).2.name_map = some m ∧
      (list_tool_specs d st now answer later).2.cached_tool_specs =
        some (list_tool_specs d st now answer later).1 ∧
      Known d m (list_tool_specs d st now answer later).1 := by
  unfold list_tool_specs
  cases hc : cached d st now with
  | none => exact store_known d answer later
  | some offers =>
    have hheld := cached_eq d st now offers hc
    obtain ⟨m, hm, hknown⟩ := h offers hheld
    exact ⟨m, hm, hheld, hknown⟩

theorem list_tool_specs_coherent (d : Datasource) (st : AdapterState) (now : ℚ)
    (answer : Listing) (later : ℚ) (h : Coherent d st) :
    Coherent d (list_tool_specs d st now answer later).2 := by
  obtain ⟨m, hm, hcached, hknown⟩ := list_tool_specs_known d st now answer later h
  intro offers hoffers
  rw [hcached, Option.some.injEq] at hoffers
  exact ⟨m, hm, hoffers ▸ hknown⟩

theorem fallback_empty (d : Datasource) : fallback d [] = [] := by
  unfold fallback
  by_cases h : [] ∈ d.tools
  · exact if_pos h
  · rw [if_neg h]
    exact ite_id _

theorem resolve_mapped (d : Datasource) (st : AdapterState) (m : ToolNameMap) (name tool : Str)
    (hm : st.name_map = some m) (hname : to_server_name m name = some tool) (hne : tool ≠ []) :
    resolve_server_name d st name = tool := by
  have hmapped : mapped st name = some tool := by
    simp [mapped, hm, hname, Option.filter, hne]
  rw [resolve_server_name, hmapped, Option.getD_some]

/-- A name the map has resolves to its tool; the tool named by the empty text
is found by the fallback. -/
theorem resolve_known (d : Datasource) (st : AdapterState) (m : ToolNameMap)
    (offers : List Offer) (hm : st.name_map = some m) (h : Known d m offers) (o : Offer)
    (ho : o ∈ offers) : resolve_server_name d st o.spec.name = o.tool.name := by
  have hname := h.listed o ho
  by_cases hempty : o.tool.name = []
  · have hspec := h.empty o ho hempty
    have hmapped : mapped st o.spec.name = none := by
      simp [mapped, hm, hname, hempty, Option.filter]
    rw [resolve_server_name, hmapped, Option.getD_none, hspec, fallback_empty, hempty]
  · exact resolve_mapped d st m _ _ hm hname hempty

theorem call_target_known (d : Datasource) (st : AdapterState) (m : ToolNameMap)
    (offers : List Offer) (hm : st.name_map = some m) (h : Known d m offers) (o : Offer)
    (ho : o ∈ offers) : call_target d st o.spec.name = some o.tool.name := by
  simp [call_target, resolve_known d st m offers hm h o ho, h.allowed o ho]

def plain (name : Str) : Tool := ⟨name, none, none⟩

def plain_spec (name : Str) : ToolSpec :=
  ⟨underscored name, (default_description name).take 1024, permissive_object⟩

/-- A catalog of one allowed tool offers it under its underscored name. -/
theorem store_plain (d : Datasource) (name : Str) (h : name ∈ d.tools) (now : ℚ) :
    (store d (.catalog [plain name]) now).1 = [⟨plain name, plain_spec name⟩] ∧
      (store d (.catalog [plain name]) now).2.name_map =
        some (register ToolNameMap.empty name).2 := by
  have hne : d.tools.isEmpty = false := by
    rw [List.isEmpty_eq_false_iff]
    exact List.ne_nil_of_mem h
  have hbuilt : build_specs d.tools ToolNameMap.empty [plain name] =
      (.ok [⟨plain name, plain_spec name⟩], (register ToolNameMap.empty name).2) := by
    unfold build_specs
    rw [if_pos (show (plain name).name ∈ d.tools from h)]
    exact rfl
  constructor
  · simp [store, hne, read_catalog, hbuilt, Except.toOption]
  · simp [store, hne, read_catalog, hbuilt]

end AigentSquad.ToolListing
