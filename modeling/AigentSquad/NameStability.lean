import AigentSquad.ToolListing
import AigentSquad.Transition

/-!
# Name resolution under concurrent requests

Requests share one adapter. A listing reads the cache when it starts and
replaces the name map and the cache when it ends; between the two other requests
take steps. A call resolves its name against the map of that moment.
-/

set_option autoImplicit false

namespace AigentSquad.NameStability
open AigentSquad.PyText AigentSquad.Dict AigentSquad.Effects AigentSquad.Transition
open AigentSquad.ToolSchema AigentSquad.ToolListing

inductive Step (R : Type) where
  | start (request : R) (now : ℚ)
  | finish (request : R) (answer : Listing) (now : ℚ)
  | call (request : R) (name : Str)

/-- The adapter, the requests that started listing, those still waiting for
their answer, and what each request was offered. -/
structure Shared (R : Type) where
  adapter : AdapterState
  started : List R
  waiting : List R
  offered : List (R × Offer)

variable {R : Type}

def initial : Shared R := ⟨.fresh, [], [], []⟩

/-- A listing returns its offers to the request. -/
def deliver (s : Shared R) (request : R) (out : List Offer × AdapterState) : Shared R :=
  { s with adapter := out.2, offered := s.offered ++ out.1.map (fun o => (request, o)) }

/-- What a request that starts listing finds in the cache, or waits for. -/
def begin_listing (d : Datasource) (s : Shared R) (request : R) (now : ℚ) : Shared R :=
  match cached d s.adapter now with
  | some offers => deliver s request (offers, s.adapter)
  | none =>
    if d.tools.isEmpty then deliver s request (store d .failure now)
    else { s with waiting := request :: s.waiting }

/-- A request lists once, and calls tools after that. -/
def step [DecidableEq R] (d : Datasource) (s : Shared R) : Step R → Option (Shared R)
  | .start request now =>
    if request ∈ s.started then none
    else some (begin_listing d { s with started := request :: s.started } request now)
  | .finish request answer now =>
    if request ∈ s.waiting then
      some (deliver { s with waiting := s.waiting.erase request } request (store d answer now))
    else none
  | .call request _ => if request ∈ s.started ∧ request ∉ s.waiting then some s else none

/-- A called name resolves to the tool the request was offered under it. -/
def Resolves (d : Datasource) (s : Shared R) : Step R → Prop
  | .call request name => ∀ o, (request, o) ∈ s.offered → o.spec.name = name →
      resolve_server_name d s.adapter name = o.tool.name
  | _ => True

/-- Allowed names stay apart when underscored and can be told from their
underscored form. -/
structure Unambiguous (tools : List Str) : Prop where
  injective : ∀ s ∈ tools, ∀ t ∈ tools, underscored s = underscored t → s = t
  reversible : ∀ s ∈ tools, s = underscored s ∨ s = hyphened (underscored s)

theorem underscored_idem (s : Str) : underscored (underscored s) = underscored s := by
  simp only [underscored, List.map_map]
  apply List.map_congr_left
  intro c _
  by_cases h : c = '-'
  · simp [h]
  · simp [h]

section Sound
variable {d : Datasource}

/-- The map holds allowed tools under their underscored names. -/
def MapFits (d : Datasource) (m : ToolNameMap) : Prop :=
  ∀ name tool, to_server_name m name = some tool → tool ∈ d.tools ∧ name = underscored tool

def OfferFits (d : Datasource) (o : Offer) : Prop :=
  o.tool.name ∈ d.tools ∧ o.spec.name = underscored o.tool.name

structure Fits (d : Datasource) (s : Shared R) : Prop where
  map : ∀ m, s.adapter.name_map = some m → MapFits d m
  cache : ∀ offers, s.adapter.cached_tool_specs = some offers → ∀ o ∈ offers, OfferFits d o
  offered : ∀ p ∈ s.offered, OfferFits d p.2

theorem registered_name_fits (h : Unambiguous d.tools) (m : ToolNameMap) (hm : MapFits d m)
    (s : Str) (hs : s ∈ d.tools) : registered_name m s = underscored s := by
  have hclear : clashes m (underscored s) s = false := by
    unfold clashes
    cases hg : get m.to_server (underscored s) with
    | none => rfl
    | some other =>
      obtain ⟨hother, hname⟩ := hm (underscored s) other hg
      have heq := h.injective s hs other hother hname
      simp [heq]
  simp [registered_name, hclear]

theorem register_fits (h : Unambiguous d.tools) (m : ToolNameMap) (s : Str) (hs : s ∈ d.tools)
    (hm : MapFits d m) :
    MapFits d (register m s).2 ∧ (s ∈ d.tools ∧ (register m s).1 = underscored s) := by
  have hname := registered_name_fits h m hm s hs
  refine ⟨?_, hs, hname⟩
  intro name tool htool
  by_cases hn : name = registered_name m s
  · have hown : to_server_name (register m s).2 name = some s := by
      rw [hn]
      exact register_own m s
    rw [htool, Option.some.injEq] at hown
    rw [hown, hn, hname]
    exact ⟨hs, rfl⟩
  · exact hm name tool ((get_put_other _ _ _ _ hn).symm.trans htool)

theorem empty_fits : MapFits d ToolNameMap.empty := by
  intro name tool h
  cases h

theorem read_catalog_fits (h : Unambiguous d.tools) (answer : Listing) :
    MapFits d (read_catalog d answer).2 ∧ ∀ o ∈ (read_catalog d answer).1, OfferFits d o := by
  obtain ⟨tools, hmap, hoffers⟩ := read_catalog_built d answer
  have hbuild := build_specs_rule d.tools (MapFits d)
    (fun name tool => tool ∈ d.tools ∧ name = underscored tool)
    (fun m s hs hm => register_fits h m s hs hm) ToolNameMap.empty tools empty_fits
  rw [hmap]
  refine ⟨hbuild.1, ?_⟩
  rcases hoffers with hnone | hbuilt
  · simp [hnone]
  · exact hbuild.2 _ hbuilt

theorem store_fits (h : Unambiguous d.tools) (s : Shared R) (hs : Fits d s) (request : R)
    (answer : Listing) (now : ℚ) : Fits d (deliver s request (store d answer now)) := by
  have hread : MapFits d (if d.tools.isEmpty then ([], ToolNameMap.empty)
      else read_catalog d answer).2 ∧
      ∀ o ∈ (if d.tools.isEmpty then ([], ToolNameMap.empty) else read_catalog d answer).1,
        OfferFits d o := by
    by_cases hempty : d.tools.isEmpty = true
    · simpa [hempty] using empty_fits
    · simpa [hempty] using read_catalog_fits h answer
  constructor
  · rintro m hm
    cases hm
    exact hread.1
  · rintro offers hoffers
    cases hoffers
    exact hread.2
  · intro p hp
    rcases List.mem_append.mp hp with hp | hp
    · exact hs.offered p hp
    · obtain ⟨o, ho, rfl⟩ := List.mem_map.mp hp
      exact hread.2 o ho

theorem Fits.requests {s : Shared R} (hs : Fits d s) (started waiting : List R) :
    Fits d { s with started := started, waiting := waiting } :=
  ⟨hs.map, hs.cache, hs.offered⟩

theorem begin_listing_fits (h : Unambiguous d.tools) (s : Shared R) (hs : Fits d s) (request : R)
    (now : ℚ) : Fits d (begin_listing d s request now) := by
  unfold begin_listing
  cases hc : cached d s.adapter now with
  | some offers =>
    have hheld := cached_eq d s.adapter now offers hc
    refine ⟨hs.map, hs.cache, ?_⟩
    intro p hp
    rcases List.mem_append.mp hp with hp | hp
    · exact hs.offered p hp
    · obtain ⟨o, ho, rfl⟩ := List.mem_map.mp hp
      exact hs.cache offers hheld o ho
  | none =>
    by_cases hempty : d.tools.isEmpty = true
    · simpa only [if_pos hempty] using store_fits h s hs request .failure now
    · simpa only [if_neg hempty] using hs.requests s.started (request :: s.waiting)

theorem step_fits [DecidableEq R] (h : Unambiguous d.tools) (s t : Shared R) (l : Step R)
    (hstep : step d s l = some t) (hs : Fits d s) : Fits d t := by
  cases l with
  | start request now =>
    simp only [step, Option.ite_none_left_eq_some, Option.some.injEq] at hstep
    rw [← hstep.2]
    exact begin_listing_fits h _ (hs.requests (request :: s.started) s.waiting) request now
  | finish request answer now =>
    simp only [step, Option.ite_none_right_eq_some, Option.some.injEq] at hstep
    rw [← hstep.2]
    exact store_fits h _ (hs.requests s.started (s.waiting.erase request)) request answer now
  | call request name =>
    simp only [step, Option.ite_none_right_eq_some, Option.some.injEq] at hstep
    exact hstep.2 ▸ hs

/-- Without a map entry the underscored name leads back to its tool. -/
theorem fallback_fits (h : Unambiguous d.tools) (s : Str) (hs : s ∈ d.tools) :
    fallback d (underscored s) = s := by
  unfold fallback
  by_cases hu : underscored s ∈ d.tools
  · rw [if_pos hu]
    exact h.injective _ hu s hs (underscored_idem s)
  · have hback : hyphened (underscored s) = s := by
      rcases h.reversible s hs with heq | heq
      · exact absurd (heq ▸ hs) hu
      · exact heq.symm
    rw [if_neg hu, hback, if_pos hs]

theorem resolve_fits (h : Unambiguous d.tools) (st : AdapterState)
    (hmap : ∀ m, st.name_map = some m → MapFits d m) (s : Str) (hs : s ∈ d.tools) :
    resolve_server_name d st (underscored s) = s := by
  unfold resolve_server_name
  cases hm : mapped st (underscored s) with
  | none => exact fallback_fits h s hs
  | some tool =>
    simp only [mapped, Option.bind_eq_some_iff, Option.filter_eq_some_iff] at hm
    obtain ⟨m, hname, htool, _⟩ := hm
    obtain ⟨hallowed, heq⟩ := hmap m hname _ _ htool
    exact (h.injective s hs tool hallowed heq).symm

theorem fits_resolves (h : Unambiguous d.tools) (s : Shared R) (hs : Fits d s) (l : Step R) :
    Resolves d s l := by
  cases l with
  | start request now => trivial
  | finish request answer now => trivial
  | call request name =>
    intro o ho hname
    obtain ⟨hallowed, hspec⟩ := hs.offered _ ho
    rw [← hname, hspec]
    exact resolve_fits h s.adapter hs.map o.tool.name hallowed

theorem initial_fits : Fits d (initial : Shared R) := by
  constructor
  · intro m hm
    cases hm
  · intro offers h
    cases h
  · intro p hp
    cases hp

theorem stable_of_unambiguous [DecidableEq R] (h : Unambiguous d.tools) (s : Shared R) (hs : Fits d s)
    (ls : List (Step R)) : Along (step d) (Resolves d) s ls := by
  induction ls generalizing s with
  | nil => trivial
  | cons l ls ih =>
    refine ⟨fits_resolves h s hs l, ?_⟩
    intro t ht
    exact ih t (step_fits h s t l ht hs)

end Sound

/-- Two listings that start before either ends: the first request is offered
`name`, then the second one gets its answer. -/
def overtaken (a b : R) (name : Str) (answer : Listing) : List (Step R) :=
  [.start a 0, .start b 0, .finish a (.catalog [plain name]) 0, .finish b answer 0]

/-- What the two listings leave. -/
def overtaken_state (d : Datasource) (a b : R) (name : Str) (answer : Listing) : Shared R where
  adapter := (store d answer 0).2
  started := [b, a]
  waiting := []
  offered := (store d (.catalog [plain name]) 0).1.map (fun o => (a, o)) ++
    (store d answer 0).1.map (fun o => (b, o))

theorem overtaken_exec [DecidableEq R] (d : Datasource) (a b : R) (hab : a ≠ b) (name : Str)
    (h : name ∈ d.tools) (answer : Listing) :
    exec (step d) initial (overtaken a b name answer) =
      some (overtaken_state d a b name answer) := by
  have hne : d.tools ≠ [] := List.ne_nil_of_mem h
  have hwait : [b, a].erase a = [b] := by simp [hab.symm]
  simp [overtaken, step, begin_listing, initial, cached, AdapterState.fresh, hne, deliver, hwait,
    hab.symm, overtaken_state]

theorem overtaken_resolves [DecidableEq R] (d : Datasource) (a b : R) (hab : a ≠ b)
    (hstable : ∀ ls : List (Step R), Along (step d) (Resolves d) initial ls) (name : Str)
    (h : name ∈ d.tools) (answer : Listing) :
    resolve_server_name d (store d answer 0).2 (underscored name) = name := by
  have hexec := overtaken_exec d a b hab name h answer
  have hcall := ((along_append (step d) (Resolves d) initial _ _).mp
    (hstable (overtaken a b name answer ++ [.call a (underscored name)]))).2 _ hexec
  have hmem : (a, (⟨plain name, plain_spec name⟩ : Offer)) ∈
      (overtaken_state d a b name answer).offered := by
    simp [overtaken_state, (store_plain d name h 0).1]
  exact hcall.1 _ hmem rfl

theorem unambiguous_of_stable [DecidableEq R] (d : Datasource) (a b : R) (hab : a ≠ b)
    (hstable : ∀ ls : List (Step R), Along (step d) (Resolves d) initial ls) :
    Unambiguous d.tools := by
  have hover := overtaken_resolves d a b hab hstable
  constructor
  · intro s hs t ht hst
    have hmap := (store_plain d t ht 0).2
    have hresolve := hover s hs (.catalog [plain t])
    by_cases hempty : t = []
    · subst hempty
      exact List.map_eq_nil_iff.mp hst
    · have hown : to_server_name (register ToolNameMap.empty t).2 (underscored t) = some t :=
        register_own ToolNameMap.empty t
      rw [hst, resolve_mapped d _ _ _ t hmap hown hempty] at hresolve
      exact hresolve.symm
  · intro s hs
    have hresolve := hover s hs .failure
    have hmapped : mapped (store d .failure 0).2 (underscored s) = none := by
      unfold store
      cases d.tools.isEmpty <;> rfl
    rw [resolve_server_name, hmapped, Option.getD_none, fallback] at hresolve
    by_cases hu : underscored s ∈ d.tools
    · rw [if_pos hu] at hresolve
      exact .inl hresolve.symm
    · rw [if_neg hu] at hresolve
      by_cases hh : hyphened (underscored s) ∈ d.tools
      · rw [if_pos hh] at hresolve
        exact .inr hresolve.symm
      · rw [if_neg hh] at hresolve
        exact .inl hresolve.symm

/-- Whatever two requests do and the server answers, offered names keep their
tools exactly when the allowlist is unambiguous. -/
theorem names_stable_iff [DecidableEq R] (d : Datasource) (a b : R) (hab : a ≠ b) :
    (∀ ls : List (Step R), Along (step d) (Resolves d) initial ls) ↔ Unambiguous d.tools :=
  ⟨unambiguous_of_stable d a b hab, fun h => stable_of_unambiguous h initial initial_fits⟩

def sample (tools : List Str) : Datasource := ⟨⟨"k8s".toList, "http://k8s".toList⟩, tools, 300⟩

theorem hyphened_names_stable :
    Unambiguous ["get-pods".toList, "list_nodes".toList] ∧
      ∀ ls : List (Step Bool), Along (step (sample ["get-pods".toList, "list_nodes".toList]))
        (Resolves (sample ["get-pods".toList, "list_nodes".toList])) initial ls := by
  have hsafe : Unambiguous ["get-pods".toList, "list_nodes".toList] := by
    constructor
    · decide
    · decide
  constructor
  · exact hsafe
  · exact (names_stable_iff (sample ["get-pods".toList, "list_nodes".toList]) false true
      (by decide)).mpr hsafe

/-- One name in two spellings, and one name that mixes both separators. -/
theorem overtaken_names_reroute :
    (∃ ls : List (Step Bool), ¬ Along (step (sample ["get-pods".toList, "get_pods".toList]))
      (Resolves (sample ["get-pods".toList, "get_pods".toList])) initial ls) ∧
    ∃ ls : List (Step Bool), ¬ Along (step (sample ["get-pods_v2".toList]))
      (Resolves (sample ["get-pods_v2".toList])) initial ls := by
  constructor
  · apply not_forall.mp
    intro h
    have hsafe := unambiguous_of_stable _ false true (by decide) h
    exact absurd (hsafe.injective "get-pods".toList (by decide) "get_pods".toList (by decide)
      (by decide)) (by decide)
  · apply not_forall.mp
    intro h
    have hsafe := unambiguous_of_stable _ false true (by decide) h
    exact absurd (hsafe.reversible "get-pods_v2".toList (by decide)) (by decide)

end AigentSquad.NameStability
