import AigentSquad.ToolListing
import AigentSquad.Transition

/-!
# The cache of tool specs

Calls of `list_tool_specs` on one adapter, in any number and at any times. A
call that finds a valid cache ends at once; any other waits for the server, and
further calls may begin and end meanwhile. Every listing that ends is recorded,
the last one first.
-/

set_option autoImplicit false

namespace AigentSquad.SpecCache
open AigentSquad.PyText AigentSquad.Transition AigentSquad.ToolSchema AigentSquad.ToolListing

inductive Step where
  | call (now : ℚ)
  | finish (answer : Listing) (now : ℚ)

/-- A listing that has ended: whether it went through, and what it returned. -/
structure Ended where
  succeeded : Bool
  offers : List Offer
  time : ℚ

structure Shared where
  adapter : AdapterState
  waiting : ℕ
  listings : List Ended

def initial : Shared := ⟨.fresh, 0, []⟩

/-- The whole catalog was read and every spec was built. -/
def read_whole (d : Datasource) : Listing → Bool
  | .catalog tools => (build_specs d.tools ToolNameMap.empty tools).1.isOk
  | _ => false

/-- Without tools there is nothing to ask the server for. -/
def ended (d : Datasource) (answer : Listing) (now : ℚ) : Ended :=
  ⟨d.tools.isEmpty || read_whole d answer, (store d answer now).1, now⟩

def step (d : Datasource) (s : Shared) : Step → Option Shared
  | .call now =>
    match cached d s.adapter now with
    | some _ => some s
    | none => some { s with waiting := s.waiting + 1 }
  | .finish answer now =>
    if 0 < s.waiting then
      some ⟨(store d answer now).2, s.waiting - 1, ended d answer now :: s.listings⟩
    else none

/-- What a step returns to its caller. -/
def returned (d : Datasource) (s : Shared) : Step → Option (List Offer)
  | .call now => cached d s.adapter now
  | .finish answer now => some (store d answer now).1

/-- The specs of a successful listing that is at most `cache_ttl` old. -/
def Remembered (d : Datasource) (s : Shared) (now : ℚ) (offers : List Offer) : Prop :=
  ∃ l ∈ s.listings, l.succeeded = true ∧ l.offers = offers ∧ now - l.time ≤ d.cache_ttl

/-- A call returns what the server answered it or what a listing left. -/
def Truthful (d : Datasource) (s : Shared) (l : Step) : Prop :=
  ∀ offers, returned d s l = some offers →
    match l with
    | .call now => Remembered d s now offers
    | .finish answer now => offers = (ended d answer now).offers

/-- No call comes within `cache_ttl` of a failed listing, the last one to end. -/
def Recovered (d : Datasource) (s : Shared) : Step → Prop
  | .call now => ∀ last ∈ s.listings.head?, last.succeeded = false → 0 < d.cache_ttl →
      now - last.time < d.cache_ttl → Remembered d s now []
  | .finish _ _ => True

/-! ### One step -/

theorem ended_failed (d : Datasource) (answer : Listing) (now : ℚ)
    (h : (ended d answer now).succeeded = false) : (ended d answer now).offers = [] := by
  obtain ⟨hempty, hread⟩ := Bool.or_eq_false_iff.mp h
  change (store d answer now).1 = []
  rw [store, hempty, if_neg (by decide)]
  cases answer with
  | failure => rfl
  | dropped tools => rfl
  | catalog tools =>
    rw [read_whole] at hread
    rw [read_catalog]
    cases hbuilt : (build_specs d.tools ToolNameMap.empty tools).1 with
    | error e => rfl
    | ok offers =>
      rw [hbuilt] at hread
      cases hread

/-- The cache holds what the last listing returned, since the moment it ended. -/
structure Recorded (s : Shared) : Prop where
  specs : s.adapter.cached_tool_specs = s.listings.head?.map Ended.offers
  time : ∀ last ∈ s.listings.head?, s.adapter.specs_cached_at = last.time
  failed : ∀ l ∈ s.listings, l.succeeded = false → l.offers = []

theorem initial_recorded : Recorded initial := ⟨rfl, by simp [initial], by simp [initial]⟩

theorem step_recorded (d : Datasource) (s t : Shared) (l : Step) (h : step d s l = some t)
    (hs : Recorded s) : Recorded t := by
  cases l with
  | call now =>
    simp only [step] at h
    split at h
    · cases h
      exact hs
    · cases h
      exact ⟨hs.specs, hs.time, hs.failed⟩
  | finish answer now =>
    simp only [step, Option.ite_none_right_eq_some, Option.some.injEq] at h
    obtain ⟨_, rfl⟩ := h
    refine ⟨rfl, ?_, ?_⟩
    · intro last hlast
      cases hlast
      rfl
    · intro l hl hfailed
      rcases List.mem_cons.mp hl with rfl | hl
      · exact ended_failed d answer now hfailed
      · exact hs.failed l hl hfailed

/-- What a call is served, and when. -/
theorem cached_iff (d : Datasource) (s : Shared) (now : ℚ) (offers : List Offer)
    (hs : Recorded s) :
    cached d s.adapter now = some offers ↔ ∃ last, s.listings.head? = some last ∧
      last.offers = offers ∧ 0 < d.cache_ttl ∧ now - last.time < d.cache_ttl := by
  rw [cached, hs.specs]
  cases hlast : s.listings.head? with
  | none => simp
  | some last =>
    have htime := hs.time last hlast
    simp only [Option.map_some, htime, Option.some.injEq, exists_eq_left']
    split
    · next hvalid => simp [hvalid]
    · next hvalid =>
      simp only [reduceCtorEq, false_iff]
      exact fun h => hvalid h.2

theorem truthful_iff (d : Datasource) (s : Shared) (l : Step) (hs : Recorded s) :
    Truthful d s l ↔ Recovered d s l := by
  cases l with
  | finish answer now =>
    refine iff_of_true (fun offers h => ?_) trivial
    exact (Option.some.inj h).symm
  | call now =>
    constructor
    · intro h last hlast hfailed hpos hvalid
      have hnone := hs.failed last (List.mem_of_head? hlast) hfailed
      exact h [] ((cached_iff d s now [] hs).mpr ⟨last, hlast, hnone, hpos, hvalid⟩)
    · intro h offers hoffers
      obtain ⟨last, hlast, rfl, hpos, hvalid⟩ := (cached_iff d s now offers hs).mp hoffers
      cases hsucceeded : last.succeeded with
      | true => exact ⟨last, List.mem_of_head? hlast, hsucceeded, rfl, le_of_lt hvalid⟩
      | false =>
        rw [hs.failed last (List.mem_of_head? hlast) hsucceeded]
        exact h last hlast hsucceeded hpos hvalid

/-! ### Whole runs -/

/-- The cache serves successful listings only, exactly while no call follows a failed listing
within `cache_ttl`. -/
theorem remembers_successes_iff (d : Datasource) (ls : List Step) :
    Along (step d) (Truthful d) initial ls ↔ Along (step d) (Recovered d) initial ls :=
  along_congr (fun s l t h _ hs => step_recorded d s t l h hs)
    (fun s l _ hs => truthful_iff d s l hs) initial_recorded (along_of_forall (fun _ _ => trivial) _ _)

/-- After a listing that failed every call within `cache_ttl` is served no tools. -/
theorem failure_hides_tools (d : Datasource) (s t : Shared) (answer : Listing) (time now : ℚ)
    (h : step d s (.finish answer time) = some t) (hfailed : (ended d answer time).succeeded = false)
    (hpos : 0 < d.cache_ttl) (hvalid : now - time < d.cache_ttl) (hs : Recorded s) :
    returned d t (.call now) = some [] := by
  have ht := step_recorded d s t _ h hs
  simp only [step, Option.ite_none_right_eq_some, Option.some.injEq] at h
  obtain ⟨_, rfl⟩ := h
  exact (cached_iff d _ now [] ht).mpr
    ⟨ended d answer time, rfl, ended_failed d answer time hfailed, hpos, hvalid⟩

def podServer : Datasource := ⟨⟨"k8s".toList, []⟩, ["get_pods".toList], 300⟩

/-- The server is unreachable once. -/
theorem failure_remembered : ¬ ∀ (d : Datasource) (ls : List Step),
    Along (step d) (Truthful d) initial ls := by
  intro h
  have hrun := h podServer [.call 0, .finish .failure 0, .call 1]
  have hfirst : step podServer initial (.call 0) = some ⟨.fresh, 1, []⟩ := rfl
  have hlast := ((hrun.2 _ hfirst).2 _ rfl).1
  have hserved : cached podServer (store podServer .failure 0).2 1 = some [] := by
    norm_num [cached, store, podServer, read_catalog]
  obtain ⟨l, hl, hsucceeded, _⟩ := hlast [] hserved
  rw [List.mem_singleton.mp hl] at hsucceeded
  cases hsucceeded

/-- A call without others in between is the function as written. -/
theorem list_tool_specs_steps (d : Datasource) (s : Shared) (now later : ℚ) (answer : Listing) :
    (∃ offers, returned d s (.call now) = some offers ∧ step d s (.call now) = some s ∧
      list_tool_specs d s.adapter now answer later = (offers, s.adapter)) ∨
    (∃ t, returned d s (.call now) = none ∧
      exec (step d) s [.call now, .finish answer later] = some t ∧
      returned d s (.finish answer later) =
        some (list_tool_specs d s.adapter now answer later).1 ∧
      t.adapter = (list_tool_specs d s.adapter now answer later).2) := by
  unfold list_tool_specs
  cases hcached : cached d s.adapter now with
  | some offers => exact .inl ⟨offers, hcached, by rw [step, hcached], rfl⟩
  | none =>
    refine .inr ⟨⟨(store d answer later).2, s.waiting, ended d answer later :: s.listings⟩,
      hcached, ?_, rfl, rfl⟩
    rw [exec_cons, step, hcached]
    simp [step]

end AigentSquad.SpecCache
