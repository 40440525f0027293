import AigentSquad.ToolListing
import AigentSquad.ToolSafety

/-!
# Where a tool call ends up

The router keeps the last adapter name registered for a converse name, the pool
the last adapter registered for an adapter name, and the adapter resolves the
tool. A call reaches what was offered unless two adapters share a tool name, or
an adapter that offers something is hidden by a later one of its name.
-/

set_option autoImplicit false

namespace AigentSquad.ToolRouting
open AigentSquad.PyText AigentSquad.PyJson AigentSquad.Truncation AigentSquad.Interaction
open AigentSquad.Effects AigentSquad.AgenticLoop AigentSquad.AgenticLoopStreaming
open AigentSquad.Traces AigentSquad.LoopAgreement AigentSquad.LoopProtocol
open AigentSquad.ToolSafety AigentSquad.ToolListing

section LastIndex
variable {α : Type}

/-- The last position that satisfies `p`. -/
def lastIndex (p : α → Bool) : List α → Option Nat
  | [] => none
  | x :: xs =>
    match lastIndex p xs with
    | some i => some (i + 1)
    | none => if p x then some 0 else none

theorem lastIndex_none (p : α → Bool) (xs : List α) :
    lastIndex p xs = none ↔ ∀ x ∈ xs, p x = false := by
  induction xs with
  | nil => simp [lastIndex]
  | cons x xs ih =>
    unfold lastIndex
    cases hxs : lastIndex p xs with
    | some i =>
      have hnot : ¬ ∀ x ∈ xs, p x = false := fun h => by simp [ih.mpr h] at hxs
      simp only [reduceCtorEq, List.mem_cons, forall_eq_or_imp, false_iff]
      exact fun h => hnot h.2
    | none =>
      have hall := ih.mp hxs
      by_cases hx : p x = true
      · simp [hx]
      · simpa [hx] using hall

theorem lastIndex_some (p : α → Bool) (xs : List α) (i : Nat) :
    lastIndex p xs = some i ↔
      (∃ x, xs[i]? = some x ∧ p x = true) ∧
        ∀ (j : Nat) (y : α), i < j → xs[j]? = some y → p y = false := by
  induction xs generalizing i with
  | nil => simp [lastIndex]
  | cons x xs ih =>
    unfold lastIndex
    cases hxs : lastIndex p xs with
    | some k =>
      obtain ⟨⟨y, hy, hpy⟩, hlater⟩ := (ih k).mp hxs
      simp only [Option.some.injEq]
      constructor
      · rintro rfl
        refine ⟨⟨y, by simpa using hy, hpy⟩, ?_⟩
        intro j z hj hz
        cases j with
        | zero => omega
        | succ j => exact hlater j z (by omega) (by simpa using hz)
      · rintro ⟨⟨z, hz, hpz⟩, hafter⟩
        cases i with
        | zero =>
          have hfalse := hafter (k + 1) y (by omega) (by simpa using hy)
          simp [hpy] at hfalse
        | succ i =>
          have hi := (ih i).mpr ⟨⟨z, by simpa using hz, hpz⟩,
            fun j w hj hw => hafter (j + 1) w (by omega) (by simpa using hw)⟩
          rw [hxs, Option.some.injEq] at hi
          omega
    | none =>
      have hnone := (lastIndex_none p xs).mp hxs
      by_cases hx : p x = true
      · simp only [hx, if_true, Option.some.injEq]
        constructor
        · rintro rfl
          refine ⟨⟨x, rfl, hx⟩, ?_⟩
          intro j z hj hz
          cases j with
          | zero => omega
          | succ j => exact hnone z (List.mem_of_getElem? (by simpa using hz))
        · rintro ⟨⟨z, hz, hpz⟩, _⟩
          cases i with
          | zero => rfl
          | succ i =>
            have hfalse := hnone z (List.mem_of_getElem? (by simpa using hz))
            simp [hpz] at hfalse
      · simp only [hx, Bool.false_eq_true, if_false, reduceCtorEq, false_iff]
        rintro ⟨⟨z, hz, hpz⟩, _⟩
        have hmem := List.mem_of_getElem? hz
        rcases List.mem_cons.mp hmem with rfl | hmem
        · exact hx hpz
        · simp [hnone z hmem] at hpz

theorem find_reverse_lastIndex (p : α → Bool) (xs : List α) :
    xs.reverse.find? p = (lastIndex p xs).bind (fun i => xs[i]?) := by
  induction xs with
  | nil => rfl
  | cons x xs ih =>
    rw [List.reverse_cons, List.find?_append, ih, lastIndex]
    cases hxs : lastIndex p xs with
    | some i =>
      obtain ⟨⟨y, hy, _⟩, _⟩ := (lastIndex_some p xs i).mp hxs
      simp [hy]
    | none => by_cases hx : p x = true <;> simp [hx]

end LastIndex

/-- An adapter that can resolve what it has cached, and the answer its server
gives this run. -/
structure Server where
  source : Datasource
  state : AdapterState
  coherent : Coherent source state
  now : ℚ
  answer : Listing
  later : ℚ

namespace Server

def adapter (s : Server) : McpAdapter := s.source.adapter

def listing (s : Server) : List Offer × AdapterState :=
  list_tool_specs s.source s.state s.now s.answer s.later

def offers (s : Server) : List Offer := s.listing.1

def after (s : Server) : AdapterState := s.listing.2

def specs (s : Server) : List (ToolSpec × Str) :=
  s.offers.map (fun o => (o.spec, s.adapter.name))

def offersName (s : Server) (name : Str) : Bool := s.offers.any (fun o => o.spec.name = name)

end Server

/-- The tool specs of a run with the adapter each was listed by. -/
def offered_specs (servers : List Server) : List (ToolSpec × Str) := servers.flatMap Server.specs

/-- The position of the adapter the pool executes a name on. -/
def executed_on (servers : List Server) (name : Str) : Option Nat :=
  (resolve (routes_of (offered_specs servers)) name).bind (fun adapter_name =>
    lastIndex (fun s => s.adapter.name = adapter_name) servers)

/-- The adapter and the server tool a call of `name` is executed on. -/
def destination (servers : List Server) (name : Str) : Option (Nat × Str) :=
  (executed_on servers name).bind (fun i =>
    servers[i]?.bind (fun s => (call_target s.source s.after name).map (fun tool => (i, tool))))

/-- Every offered name leads to the adapter and the tool its spec was built from. -/
def OfferedRight (servers : List Server) : Prop :=
  ∀ (i : Nat) (s : Server), servers[i]? = some s →
    ∀ o ∈ s.offers, destination servers o.spec.name = some (i, o.tool.name)

/-- An adapter beside a later one: no tool name in common, and another adapter
name unless it offers nothing. -/
structure Separate (s t : Server) : Prop where
  tools : ∀ o ∈ s.offers, ∀ p ∈ t.offers, o.spec.name ≠ p.spec.name
  adapters : s.offers ≠ [] → s.adapter.name ≠ t.adapter.name

theorem resolve_append (r q : Routes) (name : Str) :
    resolve (r ++ q) name = (resolve q name).or (resolve r name) := by
  unfold resolve
  rw [List.reverse_append, List.find?_append]
  cases q.reverse.find? (fun e => e.1 = name) <;> rfl

theorem resolve_specs (s : Server) (name : Str) :
    resolve (routes_of s.specs) name =
      if s.offersName name then some s.adapter.name else none := by
  unfold resolve
  cases hfind : (routes_of s.specs).reverse.find? (fun r => r.1 = name) with
  | none =>
    have hno : s.offersName name = false := by
      rw [Server.offersName, List.any_eq_false]
      intro o ho
      have hall := List.find?_eq_none.mp hfind (o.spec.name, s.adapter.name)
        (by simp only [List.mem_reverse, routes_of, Server.specs, List.map_map, List.mem_map]
            exact ⟨o, ho, rfl⟩)
      exact hall
    simp [hno]
  | some r =>
    have hmem : r ∈ routes_of s.specs := List.mem_reverse.mp (List.mem_of_find?_eq_some hfind)
    have hname : r.1 = name := by simpa using List.find?_some hfind
    simp only [routes_of, Server.specs, List.map_map, List.mem_map] at hmem
    obtain ⟨o, ho, rfl⟩ := hmem
    have hyes : s.offersName name = true := by
      rw [Server.offersName, List.any_eq_true]
      exact ⟨o, ho, by simpa using hname⟩
    simp [hyes]

/-- The router sends a name to the last adapter that offers it. -/
theorem resolve_offered (servers : List Server) (name : Str) :
    resolve (routes_of (offered_specs servers)) name =
      (lastIndex (fun s => s.offersName name) servers).bind
        (fun i => servers[i]?.map (fun s => s.adapter.name)) := by
  induction servers with
  | nil => rfl
  | cons s servers ih =>
    have hroutes : routes_of (offered_specs (s :: servers)) =
        routes_of s.specs ++ routes_of (offered_specs servers) := by
      simp [offered_specs, routes_of]
    rw [hroutes, resolve_append, ih, resolve_specs]
    simp only [lastIndex]
    cases hlast : lastIndex (fun s => s.offersName name) servers with
    | some i =>
      obtain ⟨⟨t, ht, _⟩, _⟩ := (lastIndex_some _ servers i).mp hlast
      simp [ht]
    | none => by_cases hs : s.offersName name = true <;> simp [hs]

theorem executed_on_iff (servers : List Server) (name : Str) (i : Nat) :
    executed_on servers name = some i ↔
      ∃ (k : Nat) (s : Server), lastIndex (fun s => s.offersName name) servers = some k ∧
        servers[k]? = some s ∧
        lastIndex (fun t => t.adapter.name = s.adapter.name) servers = some i := by
  unfold executed_on
  rw [resolve_offered]
  cases hlast : lastIndex (fun s => s.offersName name) servers with
  | none => simp
  | some k =>
    obtain ⟨⟨t, ht, _⟩, _⟩ := (lastIndex_some _ servers k).mp hlast
    simp [ht]

theorem call_target_offered (s : Server) (o : Offer) (ho : o ∈ s.offers) :
    call_target s.source s.after o.spec.name = some o.tool.name := by
  obtain ⟨m, hm, _, hknown⟩ :=
    list_tool_specs_known s.source s.state s.now s.answer s.later s.coherent
  exact call_target_known s.source s.after m s.offers hm hknown o ho

theorem destination_position (servers : List Server) (name : Str) (i : Nat) (tool : Str)
    (h : destination servers name = some (i, tool)) : executed_on servers name = some i := by
  unfold destination at h
  simp only [Option.bind_eq_some_iff, Option.map_eq_some_iff, Prod.mk.injEq] at h
  obtain ⟨k, hk, s, _, t, _, rfl, _⟩ := h
  exact hk

theorem offersName_of_mem (s : Server) (o : Offer) (ho : o ∈ s.offers) :
    s.offersName o.spec.name = true := by
  rw [Server.offersName, List.any_eq_true]
  exact ⟨o, ho, by simp⟩

/-- An offer that is executed on its own adapter is the last of its name, on the
last adapter of its name. -/
theorem own_position (servers : List Server) (i : Nat) (s : Server) (hs : servers[i]? = some s)
    (o : Offer) (ho : o ∈ s.offers)
    (hlast : lastIndex (fun s => s.offersName o.spec.name) servers = some i)
    (hname : lastIndex (fun t => t.adapter.name = s.adapter.name) servers = some i) :
    destination servers o.spec.name = some (i, o.tool.name) := by
  have hexec := (executed_on_iff servers o.spec.name i).mpr ⟨i, s, hlast, hs, hname⟩
  simp [destination, hexec, hs, call_target_offered s o ho]

theorem offered_right_of_separate (servers : List Server) (h : servers.Pairwise Separate) :
    OfferedRight servers := by
  intro i s hs o ho
  have hlater : ∀ (j : Nat) (t : Server), i < j → servers[j]? = some t → Separate s t := by
    intro j t hij ht
    obtain ⟨hi, hsi⟩ := List.getElem?_eq_some_iff.mp hs
    obtain ⟨hj, htj⟩ := List.getElem?_eq_some_iff.mp ht
    rw [← hsi, ← htj]
    exact List.pairwise_iff_getElem.mp h i j hi hj hij
  apply own_position servers i s hs o ho
  · apply (lastIndex_some _ servers i).mpr
    refine ⟨⟨s, hs, offersName_of_mem s o ho⟩, ?_⟩
    intro j t hij ht
    rw [Server.offersName, List.any_eq_false]
    intro p hp
    have hne := (hlater j t hij ht).tools o ho p hp
    simpa using hne.symm
  · apply (lastIndex_some _ servers i).mpr
    refine ⟨⟨s, hs, by simp⟩, ?_⟩
    intro j t hij ht
    have hne := (hlater j t hij ht).adapters (List.ne_nil_of_mem ho)
    simpa using hne.symm

/-- The last adapter that offers a name hides the others, and the last of an
adapter name takes its calls. -/
theorem separate_of_offered_right (servers : List Server) (h : OfferedRight servers) :
    servers.Pairwise Separate := by
  have hroute : ∀ (i : Nat) (s : Server), servers[i]? = some s → ∀ o ∈ s.offers,
      lastIndex (fun t => t.adapter.name = s.adapter.name) servers = some i := by
    intro i s hs o ho
    have hexec := destination_position servers _ i _ (h i s hs o ho)
    obtain ⟨k, t, hk, ht, hi⟩ := (executed_on_iff servers _ i).mp hexec
    obtain ⟨⟨u, hu, hoffer⟩, _⟩ := (lastIndex_some _ servers k).mp hk
    rw [ht, Option.some.injEq] at hu
    subst hu
    rw [Server.offersName, List.any_eq_true] at hoffer
    obtain ⟨p, hp, hname⟩ := hoffer
    have hown := h k t ht p hp
    rw [of_decide_eq_true hname, h i s hs o ho, Option.some.injEq, Prod.mk.injEq] at hown
    rw [hown.1, ht, Option.some.injEq] at hs
    rw [← hs]
    exact hi
  apply List.pairwise_iff_getElem.mpr
  intro i j hi hj hij
  have hs := List.getElem?_eq_getElem hi
  have ht := List.getElem?_eq_getElem hj
  constructor
  · intro o ho p hp hname
    have hi' := h i _ hs o ho
    have hj' := h j _ ht p hp
    rw [← hname, hi', Option.some.injEq, Prod.mk.injEq] at hj'
    omega
  · intro hne hname
    obtain ⟨o, ho⟩ := List.exists_mem_of_ne_nil _ hne
    have hlast := hroute i _ hs o ho
    have hfalse := ((lastIndex_some _ servers i).mp hlast).2 j _ hij ht
    simp [hname] at hfalse

/-- The listings of a run all come before its first execution. -/
theorem listed_before_call (py : Runtime) (cfg : LoopConfig) (a : RunArgs) (d : Dialogue)
    (r : Except Exn (Str × List Message)) (h : RunTrace py cfg a d r) (pre post : Dialogue)
    (adapter : McpAdapter) (tool_name : Str) (args : Json) (o : ToolOutcome)
    (hd : d = pre ++ ⟨.call_tool adapter tool_name args, o⟩ :: post) : listed post = [] := by
  obtain ⟨loop_start, listing, specs, body, rfl, hlist, hloop⟩ := h.split
  rcases append_eq_middle _ _ _ _ _ hd with ⟨mid, hmid, _⟩ | ⟨mid, rfl, hmid⟩
  · have hmem : (⟨.call_tool adapter tool_name args, o⟩ : Sigma Answer) ∈
        (⟨.time, loop_start⟩ :: listing : Dialogue) := by simp [hmid]
    rcases List.mem_cons.mp hmem with heq | hmem
    · cases heq
    · exact absurd (list_trace_topic _ _ _ hlist _ hmem) (by simp [topic])
  · apply listed_elsewhere
    intro s hs
    exact loop_trace_topic _ _ _ _ _ _ _ _ _ hloop s (by simp [hmid, hs])

/-- The questions and answers of one run of either loop. -/
def Ran (py : Runtime) (cfg : LoopConfig) (thinks : Bool) (a : RunArgs) (d : Dialogue) : Prop :=
  (∃ tr r, Path (run_agentic_loop py cfg a) tr r ∧ asks tr = d) ∨
    ∃ tr r, Path (run_agentic_loop_streaming py cfg thinks a) tr r ∧ asks tr = d

theorem Ran.begins_trace {py : Runtime} {cfg : LoopConfig} {thinks : Bool} {a : RunArgs}
    {d : Dialogue} (h : Ran py cfg thinks a d) : ∃ rest r, RunTrace py cfg a (d ++ rest) r := by
  rcases h with ⟨tr, r, hpath, rfl⟩ | ⟨tr, r, hpath, rfl⟩
  · exact ⟨[], r, by simpa using run_path_trace py cfg a tr r hpath⟩
  · obtain ⟨full, out, rest, hfull, hasks⟩ := streaming_path_prefix py cfg thinks a tr r hpath
    have htrace := run_path_trace py cfg a full out hfull
    rw [hasks] at htrace
    exact ⟨rest, out, htrace⟩

/-- Every execution of a run is routed by all it listed. -/
theorem call_routed {py : Runtime} {cfg : LoopConfig} {thinks : Bool} {a : RunArgs} {d : Dialogue}
    (h : Ran py cfg thinks a d) (adapter : McpAdapter) (tool_name : Str) (args : Json)
    (o : ToolOutcome) (hmem : (⟨.call_tool adapter tool_name args, o⟩ : Sigma Answer) ∈ d) :
    resolve (routes_of (listed d)) tool_name = some adapter.name ∧
      adapter_by_name a.mcp_adapters adapter.name = some adapter := by
  obtain ⟨rest, r, htrace⟩ := h.begins_trace
  obtain ⟨pre, post, rfl⟩ := List.append_of_mem hmem
  have hsplit : pre ++ ⟨.call_tool adapter tool_name args, o⟩ :: post ++ rest =
      pre ++ ⟨.call_tool adapter tool_name args, o⟩ :: (post ++ rest) := by simp
  have hcleared := (run_trace_safe py cfg a _ r htrace).1.executions pre adapter tool_name args o
    (post ++ rest) hsplit
  have hafter := listed_before_call py cfg a _ r htrace pre (post ++ rest) adapter tool_name args
    o hsplit
  rw [listed_append, List.append_eq_nil_iff] at hafter
  have hlisted : listed (pre ++ ⟨.call_tool adapter tool_name args, o⟩ :: post) = listed pre := by
    have hcall : listed (⟨.call_tool adapter tool_name args, o⟩ :: post) = listed post := rfl
    rw [listed_append, hcall, hafter.1, List.append_nil]
  rw [hlisted]
  exact ⟨hcleared.routed, hcleared.known⟩

theorem adapter_by_name_position (servers : List Server) (name : Str) :
    adapter_by_name (servers.map Server.adapter) name =
      (lastIndex (fun s => s.adapter.name = name) servers).bind
        (fun i => servers[i]?.map Server.adapter) := by
  unfold adapter_by_name
  have hmap : (servers.map Server.adapter).reverse.find? (fun ad => ad.name = name) =
      (servers.reverse.find? (fun s => s.adapter.name = name)).map Server.adapter := by
    rw [← List.map_reverse, List.find?_map]
    rfl
  rw [hmap, find_reverse_lastIndex]
  cases lastIndex (fun s => decide (s.adapter.name = name)) servers <;> rfl

/-- What the servers list is what the run executes on. -/
theorem call_executed {py : Runtime} {cfg : LoopConfig} {thinks : Bool} {a : RunArgs}
    {d : Dialogue} (h : Ran py cfg thinks a d) (servers : List Server)
    (ha : a.mcp_adapters = servers.map Server.adapter) (hd : listed d = offered_specs servers)
    (adapter : McpAdapter) (tool_name : Str) (args : Json) (o : ToolOutcome)
    (hmem : (⟨.call_tool adapter tool_name args, o⟩ : Sigma Answer) ∈ d) :
    ∃ (i : Nat) (s : Server), executed_on servers tool_name = some i ∧ servers[i]? = some s ∧
      s.adapter = adapter := by
  obtain ⟨hroute, hknown⟩ := call_routed h adapter tool_name args o hmem
  rw [hd] at hroute
  rw [ha, adapter_by_name_position] at hknown
  simp only [Option.bind_eq_some_iff, Option.map_eq_some_iff] at hknown
  obtain ⟨i, hi, s, hs, hadapter⟩ := hknown
  refine ⟨i, s, ?_, hs, hadapter⟩
  rw [executed_on, hroute]
  exact hi

/-- Calls reach what was offered exactly when the adapters are separate, and a
run executes its calls where the servers' listings say. -/
theorem tool_calls_reach (servers : List Server) :
    (OfferedRight servers ↔ servers.Pairwise Separate) ∧
      ∀ (py : Runtime) (cfg : LoopConfig) (thinks : Bool) (a : RunArgs) (d : Dialogue),
        Ran py cfg thinks a d → a.mcp_adapters = servers.map Server.adapter →
        listed d = offered_specs servers →
        ∀ (adapter : McpAdapter) (tool_name : Str) (args : Json) (o : ToolOutcome),
          (⟨.call_tool adapter tool_name args, o⟩ : Sigma Answer) ∈ d →
          ∃ (i : Nat) (s : Server), executed_on servers tool_name = some i ∧
            servers[i]? = some s ∧ s.adapter = adapter :=
  ⟨⟨separate_of_offered_right servers, offered_right_of_separate servers⟩,
    fun _ _ _ _ _ h ha hd => call_executed h servers ha hd⟩

/-- An adapter's server that has just listed one tool without a schema. -/
def single (name tool : Str) : Server where
  source := ⟨⟨name, "http://".toList ++ name⟩, [tool], 300⟩
  state := .fresh
  coherent := fresh_coherent _
  now := 0
  answer := .catalog [plain tool]
  later := 0

theorem single_name (name tool : Str) : (single name tool).adapter.name = name := rfl

theorem single_offers (name tool : Str) :
    (single name tool).offers = [⟨plain tool, plain_spec tool⟩] :=
  (store_plain (single name tool).source tool (List.mem_singleton.mpr rfl) 0).1

/-- One server for the pod listing, its specs still cached. -/
def podServer : Server where
  source := ⟨k8s, ["get_pods".toList], 300⟩
  state := ⟨some ⟨[("get_pods".toList, "get_pods".toList)], []⟩,
    some [⟨⟨"get_pods".toList, none, none⟩, ⟨"get_pods".toList, "list pods".toList, .obj []⟩⟩], 0⟩
  coherent := by
    intro offers h
    simp only [Option.some.injEq] at h
    subst h
    exact ⟨_, rfl, ⟨by simp, by simp [ToolSchema.to_server_name, Dict.get], by simp⟩⟩
  now := 10
  answer := .failure
  later := 10

theorem pod_offered : offered_specs [podServer] = podSpecs := by
  have hvalid : 0 < podServer.source.cache_ttl ∧
      podServer.now - podServer.state.specs_cached_at < podServer.source.cache_ttl := by
    norm_num [podServer]
  have hcached : cached podServer.source podServer.state podServer.now =
      podServer.state.cached_tool_specs := if_pos hvalid
  have hlisting : podServer.listing = (podServer.state.cached_tool_specs.getD [],
      podServer.state) := by
    rw [Server.listing, list_tool_specs, hcached]
    rfl
  rw [offered_specs, List.flatMap_singleton, Server.specs, Server.offers, hlisting]
  rfl

theorem tool_calls_reach_pods :
    OfferedRight [podServer] ∧
      ∃ (i : Nat) (s : Server), executed_on [podServer] getPods.name = some i ∧
        [podServer][i]? = some s ∧ s.adapter = k8s := by
  have hpath := run_trace_path _ _ _ _ _ (pod_trace leak .accepted)
  obtain ⟨hright, hruns⟩ := tool_calls_reach [podServer]
  refine ⟨hright.mpr (List.pairwise_singleton _ _), ?_⟩
  refine hruns asciiRuntime .default false sampleArgs (podDialogue leak .accepted)
    (.inl ⟨_, _, hpath, by simp⟩) rfl ?_ k8s getPods.name getPods.input leak ?_
  · rw [pod_offered]
    rfl
  · simp [podDialogue]

/-- Two adapters that offer one tool name, and two of one adapter name. -/
theorem shared_names_misroute :
    ¬ OfferedRight [single "prod".toList "get_pods".toList, single "dev".toList "get_pods".toList] ∧
      ¬ OfferedRight [single "mcp".toList "get_pods".toList, single "mcp".toList "get_logs".toList] := by
  constructor
  · intro h
    have hpair := separate_of_offered_right _ h
    simp only [List.pairwise_cons, List.mem_singleton, forall_eq] at hpair
    have htools := hpair.1.tools
    simp [single_offers] at htools
  · intro h
    have hpair := separate_of_offered_right _ h
    simp only [List.pairwise_cons, List.mem_singleton, forall_eq] at hpair
    have hadapters := hpair.1.adapters
    simp [single_offers, single_name] at hadapters

end AigentSquad.ToolRouting
