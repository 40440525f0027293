import AigentSquad.ServerBreaker

/-!
# Collecting from an MCP server

`McpAdapter._collect` and `_invoke_tools` against a server that may answer every
request as it likes, going by all that was asked before. Entering and leaving the
connection may raise as well.
-/

set_option autoImplicit false

namespace AigentSquad.McpCollection
open AigentSquad.PyText AigentSquad.Dict AigentSquad.ToolListing AigentSquad.Transition
open AigentSquad.ServerBreaker (Exc mcp_error_detail)

/-- An adapter as collecting reads it. -/
structure Collector where
  server : Datasource
  tool_arguments : Entries Str Str
  inject_query_as : Str

inductive Request where
  /-- `initialize` -/
  | session_init
  | list_tools
  | call_tool (name : Str) (args : Entries Str Str)
deriving DecidableEq

inductive Reply (α : Type) where
  | ok (answer : α)
  /-- the request raises -/
  | error (exc : Exc)
  /-- the connection breaks: the request is cancelled, and the connection raises -/
  | broken (exc : Exc)
  /-- the task that collects is cancelled -/
  | cancelled

/-- A server, and the connection to it. -/
structure Server where
  connect : Option Exc
  session_init : Reply Unit
  list_tools : Reply (List Str)
  /-- the text of each content block of the result, by the requests so far -/
  call_tool : List Request → Reply (List (Option Str))
  close : Option Exc

/-- How the body of the connection ends early. -/
inductive Abort where
  | raised (exc : Exc)
  | cancelled

inductive Outcome where
  | text (s : Str)
  | cancelled

section Collect
variable (c : Collector)

def line (label body : Str) : Str := "[mcp:".toList ++ label ++ "] ".toList ++ body

def Collector.name (c : Collector) : Str := c.server.adapter.name

/-- The line of a tool. -/
def report (tool body : Str) : Str := line (c.name ++ ':' :: tool) body

def failure (exc : Exc) : Str := "error: ".toList ++ mcp_error_detail exc

/-- `_render` -/
def render (content : List (Option Str)) : Str :=
  let parts := content.filterMap id
  if parts.isEmpty then "(no text content)".toList else join ['\n'] parts

variable (query : Str)

def arguments : Entries Str Str :=
  if c.inject_query_as.isEmpty then c.tool_arguments
  else put c.tool_arguments c.inject_query_as query

def request (tool : Str) : Request := .call_tool tool (arguments c query)

/-- Before what the rest of the loop collects, unless that ends early. -/
def prepend (block : Str) (rest : Except Abort (List Str) × List Request) :
    Except Abort (List Str) × List Request :=
  (rest.1.map (block :: ·), rest.2)

variable (server : Server)

/-- The loop of `_invoke_tools`, with the requests so far. -/
def invoke_each (available : List Str) :
    List Str → List Request → Except Abort (List Str) × List Request
  | [], asked => (.ok [], asked)
  | tool :: tools, asked =>
    if tool ∈ available then
      let asked := asked ++ [request c query tool]
      match server.call_tool asked with
      | .ok content =>
        prepend (report c tool (render content)) (invoke_each available tools asked)
      | .error exc => prepend (report c tool (failure exc)) (invoke_each available tools asked)
      | .broken exc => (.error (.raised exc), asked)
      | .cancelled => (.error .cancelled, asked)
    else
      prepend (report c tool "not exposed by server".toList) (invoke_each available tools asked)

def invoke_tools : Except Abort (List Str) × List Request :=
  match server.session_init with
  | .error exc | .broken exc => (.error (.raised exc), [.session_init])
  | .cancelled => (.error .cancelled, [.session_init])
  | .ok _ =>
    match server.list_tools with
    | .error exc | .broken exc => (.error (.raised exc), [.session_init, .list_tools])
    | .cancelled => (.error .cancelled, [.session_init, .list_tools])
    | .ok available =>
      invoke_each c query server available c.server.tools [.session_init, .list_tools]

/-- The text where no tool was called to the end. -/
def failed (exc : Exc) : Str := line c.name (failure exc)

/-- `_collect`, with the requests it makes -/
def collect : Outcome × List Request :=
  if c.server.tools.isEmpty then
    (.text (line c.name "no tools allowlisted (skipped)".toList), [])
  else
    match server.connect with
    | some exc => (.text (failed c exc), [])
    | none =>
      let invoked := invoke_tools c query server
      (match invoked.1 with
        | .error .cancelled => .cancelled
        | .error (.raised exc) => .text (failed c exc)
        | .ok results =>
          match server.close with
          | some exc =>
            if results.isEmpty then .text (failed c exc) else .text (join ['\n'] results)
          | none => .text (join ['\n'] results),
        invoked.2)

/-! ## What is asked and what is reported -/

/-- The calls of a collection that nothing stops. -/
def calls (available tools : List Str) : List Request :=
  (tools.filter (· ∈ available)).map (request c query)

/-- The line of a tool, by the requests up to its own. -/
def answered (available : List Str) (asked : List Request) (tool : Str) : Str :=
  report c tool
    (if tool ∈ available then
      match server.call_tool asked with
      | .ok content => render content
      | .error exc | .broken exc => failure exc
      | .cancelled => []
    else "not exposed by server".toList)

/-- The lines of all tools, each by its own answer. -/
def Reported (available : List Str) (asked : List Request) (tools results : List Str) : Prop :=
  results.length = tools.length ∧
    ∀ i tool, tools[i]? = some tool →
      results[i]? = some (answered c server available
        (asked ++ calls c query available (tools.take (i + 1))) tool)

theorem calls_cons_of_mem (available tools : List Str) (tool : Str) (h : tool ∈ available) :
    calls c query available (tool :: tools) =
      request c query tool :: calls c query available tools := by
  rw [calls, List.filter_cons, if_pos (decide_eq_true h)]
  rfl

theorem calls_cons_of_not_mem (available tools : List Str) (tool : Str) (h : tool ∉ available) :
    calls c query available (tool :: tools) = calls c query available tools := by
  rw [calls, List.filter_cons, if_neg (by simpa using h)]
  rfl

/-- One line more, the requests before it grown by those for it. -/
theorem reported_cons (available : List Str) (asked more : List Request) (tool : Str)
    (tools results : List Str)
    (hcalls : ∀ ts, calls c query available (tool :: ts) = more ++ calls c query available ts)
    (h : Reported c query server available (asked ++ more) tools results) :
    Reported c query server available asked (tool :: tools)
      (answered c server available (asked ++ more) tool :: results) := by
  refine ⟨congrArg Nat.succ h.1, ?_⟩
  intro i other hi
  rw [List.take_succ_cons, hcalls, ← List.append_assoc]
  cases i with
  | zero =>
    rw [List.getElem?_cons_zero, Option.some.injEq] at hi
    subst hi
    rw [List.take_zero, List.getElem?_cons_zero]
    simp [calls]
  | succ i =>
    rw [List.getElem?_cons_succ] at hi ⊢
    exact h.2 i other hi

/-- How far a collection has come when the loop ends. -/
structure Ends (available : List Str) (asked : List Request) (tools : List Str)
    (ended : Except Abort (List Str) × List Request) : Prop where
  made : ∃ k, ended.2 = asked ++ (calls c query available tools).take k
  whole : ∀ results, ended.1 = .ok results → ended.2 = asked ++ calls c query available tools ∧
    Reported c query server available asked tools results

theorem prepend_ends (available : List Str) (asked more : List Request) (tool : Str)
    (tools : List Str) (ended : Except Abort (List Str) × List Request)
    (hcalls : ∀ ts, calls c query available (tool :: ts) = more ++ calls c query available ts)
    (h : Ends c query server available (asked ++ more) tools ended) :
    Ends c query server available asked (tool :: tools)
      (prepend (answered c server available (asked ++ more) tool) ended) := by
  constructor
  · obtain ⟨k, hk⟩ := h.made
    refine ⟨more.length + k, ?_⟩
    rw [prepend, hk, hcalls, List.take_length_add_append, List.append_assoc]
  · intro results hresults
    cases hended : ended.1 with
    | error e =>
      rw [prepend, hended] at hresults
      cases hresults
    | ok rest =>
      rw [prepend, hended] at hresults
      cases hresults
      obtain ⟨hasked, hrest⟩ := h.whole rest hended
      refine ⟨?_, reported_cons c query server available asked more tool tools rest hcalls hrest⟩
      rw [prepend, hasked, hcalls, List.append_assoc]

theorem stopped_ends (available : List Str) (asked : List Request) (tool : Str)
    (tools : List Str) (abort : Abort) (h : tool ∈ available) :
    Ends c query server available asked (tool :: tools)
      (.error abort, asked ++ [request c query tool]) where
  made := ⟨1, by rw [calls_cons_of_mem c query available tools tool h]; rfl⟩
  whole := fun _ h => by cases h

theorem invoke_each_ends (available tools : List Str) (asked : List Request) :
    Ends c query server available asked tools
      (invoke_each c query server available tools asked) := by
  induction tools generalizing asked with
  | nil =>
    refine ⟨⟨0, (List.append_nil _).symm⟩, ?_⟩
    intro results h
    cases h
    exact ⟨(List.append_nil _).symm, rfl, fun i tool hi => by cases hi⟩
  | cons tool tools ih =>
    rw [invoke_each]
    by_cases hmem : tool ∈ available
    · rw [if_pos hmem]
      have hrest := prepend_ends c query server available asked [request c query tool] tool tools _
        (fun ts => calls_cons_of_mem c query available ts tool hmem)
        (ih (asked ++ [request c query tool]))
      rw [answered, if_pos hmem] at hrest
      dsimp only
      cases hreply : server.call_tool (asked ++ [request c query tool]) with
      | ok content => rwa [hreply] at hrest
      | error exc => rwa [hreply] at hrest
      | broken exc => exact stopped_ends c query server available asked tool tools _ hmem
      | cancelled => exact stopped_ends c query server available asked tool tools _ hmem
    · rw [if_neg hmem]
      have hrest := prepend_ends c query server available asked [] tool tools _
        (fun ts => calls_cons_of_not_mem c query available ts tool hmem)
        (by rw [List.append_nil]; exact ih asked)
      rwa [answered, if_neg hmem] at hrest

theorem mem_calls (available tools : List Str) (name : Str) (args : Entries Str Str)
    (h : .call_tool name args ∈ calls c query available tools) :
    name ∈ tools ∧ name ∈ available ∧ args = arguments c query := by
  obtain ⟨tool, htool, heq⟩ := List.mem_map.mp h
  obtain ⟨hmem, havailable⟩ := List.mem_filter.mp htool
  cases heq
  exact ⟨hmem, of_decide_eq_true havailable, rfl⟩

/-- Only listed tools of the allowlist are called, with the configured arguments. -/
def Allowed (asked : List Request) : Prop :=
  ∀ name args, .call_tool name args ∈ asked →
    name ∈ c.server.tools ∧ args = arguments c query ∧
      ∃ available, server.list_tools = .ok available ∧ name ∈ available

/-- Every tool was asked, in order, and has its line. -/
def Complete (available : List Str) (collected : Outcome × List Request) : Prop :=
  collected.2 = [.session_init, .list_tools] ++ calls c query available c.server.tools ∧
    ∃ results, collected.1 = .text (join ['\n'] results) ∧
      Reported c query server available [.session_init, .list_tools] c.server.tools results

/-- The connection stands through all requests; a call may raise all the same. -/
structure Connected (available : List Str) : Prop where
  connect : server.connect = none
  session_init : server.session_init = .ok ()
  list_tools : server.list_tools = .ok available
  call_tool : ∀ asked, (∃ content, server.call_tool asked = .ok content) ∨
    ∃ exc, server.call_tool asked = .error exc

theorem invoke_each_connected (available tools : List Str) (asked : List Request)
    (h : Connected server available) :
    ∃ results, (invoke_each c query server available tools asked).1 = .ok results := by
  induction tools generalizing asked with
  | nil => exact ⟨[], rfl⟩
  | cons tool tools ih =>
    have hrest : ∀ block asked, ∃ results,
        (prepend block (invoke_each c query server available tools asked)).1 = .ok results := by
      intro block asked
      obtain ⟨results, hresults⟩ := ih asked
      exact ⟨block :: results, by rw [prepend, hresults]; rfl⟩
    rw [invoke_each]
    split
    · dsimp only
      rcases h.call_tool (asked ++ [request c query tool]) with ⟨content, hok⟩ | ⟨exc, herror⟩
      · rw [hok]
        exact hrest _ _
      · rw [herror]
        exact hrest _ _
    · exact hrest _ _

theorem invoke_tools_cases :
    (∃ abort, (invoke_tools c query server).1 = .error abort ∧
      Allowed c query server (invoke_tools c query server).2) ∨
    (∃ available results, server.list_tools = .ok available ∧
      (invoke_tools c query server).1 = .ok results ∧
      (invoke_tools c query server).2 =
        [.session_init, .list_tools] ++ calls c query available c.server.tools ∧
      Reported c query server available [.session_init, .list_tools] c.server.tools results) := by
  have hnone : ∀ asked : List Request, (∀ name args, .call_tool name args ∉ asked) →
      Allowed c query server asked := fun asked h name args hmem => absurd hmem (h name args)
  unfold invoke_tools
  split
  · exact .inl ⟨_, rfl, hnone _ (by simp)⟩
  · exact .inl ⟨_, rfl, hnone _ (by simp)⟩
  · exact .inl ⟨_, rfl, hnone _ (by simp)⟩
  · split
    · exact .inl ⟨_, rfl, hnone _ (by simp)⟩
    · exact .inl ⟨_, rfl, hnone _ (by simp)⟩
    · exact .inl ⟨_, rfl, hnone _ (by simp)⟩
    · next available hlisted =>
      have hends := invoke_each_ends c query server available c.server.tools
        [.session_init, .list_tools]
      cases hended : (invoke_each c query server available c.server.tools
          [.session_init, .list_tools]).1 with
      | ok results => exact .inr ⟨available, results, hlisted, rfl, hends.whole results hended⟩
      | error abort =>
        refine .inl ⟨abort, rfl, ?_⟩
        obtain ⟨k, hk⟩ := hends.made
        intro name args hmem
        rw [hk, List.mem_append] at hmem
        rcases hmem with hfirst | hcall
        · simp at hfirst
        · obtain ⟨htool, havailable, hargs⟩ :=
            mem_calls c query available _ name args (List.mem_of_mem_take hcall)
          exact ⟨htool, hargs, available, hlisted, havailable⟩

theorem complete_allowed (available : List Str) (collected : Outcome × List Request)
    (hlisted : server.list_tools = .ok available)
    (h : Complete c query server available collected) : Allowed c query server collected.2 := by
  intro name args hmem
  rw [h.1, List.mem_append] at hmem
  rcases hmem with hfirst | hcall
  · simp at hfirst
  · obtain ⟨htool, havailable, hargs⟩ := mem_calls c query available _ name args hcall
    exact ⟨htool, hargs, available, hlisted, havailable⟩

/-- An exception on leaving the connection costs no line that was collected. -/
theorem closed_text (results : List Str) (h : results ≠ []) :
    (match server.close with
      | some exc =>
        if results.isEmpty then Outcome.text (failed c exc) else .text (join ['\n'] results)
      | none => .text (join ['\n'] results)) = .text (join ['\n'] results) := by
  split
  · rw [if_neg]
    rwa [List.isEmpty_iff]
  · rfl

theorem collect_allowed : Allowed c query server (collect c query server).2 := by
  have hnone : Allowed c query server [] := fun _ _ h => absurd h List.not_mem_nil
  unfold collect
  split
  · exact hnone
  · split
    · exact hnone
    · rcases invoke_tools_cases c query server with
        ⟨_, _, hallowed⟩ | ⟨available, results, hlisted, _, hasked, hreported⟩
      · exact hallowed
      · exact complete_allowed c query server available
          (.text (join ['\n'] results), (invoke_tools c query server).2) hlisted
          ⟨hasked, results, rfl, hreported⟩

/-- Whatever the server answers, the collector calls allowlisted tools only. Its text
has a line for each of them, which depends on the answers up to that one, or it is a
single error; and only a connection that does not stand keeps it from the former. -/
theorem collect_all_or_nothing (htools : c.server.tools ≠ []) :
    Allowed c query server (collect c query server).2 ∧
      ((collect c query server).1 = .cancelled ∨
        (∃ exc, (collect c query server).1 = .text (failed c exc)) ∨
        ∃ available, server.list_tools = .ok available ∧
          Complete c query server available (collect c query server)) ∧
      ∀ available, Connected server available →
        Complete c query server available (collect c query server) := by
  refine ⟨collect_allowed c query server, ?_⟩
  have hsome : c.server.tools.isEmpty = false := by
    rwa [← Bool.not_eq_true, List.isEmpty_iff]
  unfold collect
  rw [hsome]
  dsimp only [Bool.false_eq_true, if_false]
  cases hconnect : server.connect with
  | some exc =>
    refine ⟨.inr (.inl ⟨exc, rfl⟩), ?_⟩
    intro available h
    rw [h.connect] at hconnect
    cases hconnect
  | none =>
    dsimp only
    rcases invoke_tools_cases c query server with
      ⟨abort, habort, _⟩ | ⟨available, results, hlisted, hok, hasked, hreported⟩
    · constructor
      · rw [habort]
        cases abort with
        | raised exc => exact .inr (.inl ⟨exc, rfl⟩)
        | cancelled => exact .inl rfl
      · intro available h
        obtain ⟨results, hresults⟩ := invoke_each_connected c query server available
          c.server.tools [.session_init, .list_tools] h
        unfold invoke_tools at habort
        rw [h.session_init, h.list_tools] at habort
        cases hresults.symm.trans habort
    · have hne : results ≠ [] := by
        intro hnil
        rw [hnil] at hreported
        exact htools (List.length_eq_zero_iff.mp hreported.1.symm)
      have hcomplete : Complete c query server available
          (match (invoke_tools c query server).1 with
            | .error .cancelled => .cancelled
            | .error (.raised exc) => .text (failed c exc)
            | .ok results =>
              match server.close with
              | some exc =>
                if results.isEmpty then .text (failed c exc) else .text (join ['\n'] results)
              | none => .text (join ['\n'] results),
            (invoke_tools c query server).2) := by
        refine ⟨hasked, results, ?_, hreported⟩
        rw [hok]
        exact closed_text c server results hne
      refine ⟨.inr (.inr ⟨available, hlisted, hcomplete⟩), ?_⟩
      intro other h
      have heq : available = other := by
        rw [h.list_tools] at hlisted
        cases hlisted
        rfl
      exact heq ▸ hcomplete

/-- Of two allowlisted tools the server has one, whose call it refuses; closing raises. -/
def stubborn : Server where
  connect := none
  session_init := .ok ()
  list_tools := .ok ["pods_list".toList, "pods_delete".toList]
  call_tool := fun _ => .error (.mk "McpError".toList "refused".toList [] none)
  close := some (.mk "ExceptionGroup".toList [] [] none)

def pods : Collector where
  server := ⟨⟨"k8s".toList, "http://mcp".toList⟩, ["pods_list".toList, "pods_log".toList], 60⟩
  tool_arguments := []
  inject_query_as := []

theorem collect_all_or_nothing_stubborn :
    Complete pods "why".toList stubborn ["pods_list".toList, "pods_delete".toList]
      (collect pods "why".toList stubborn) :=
  (collect_all_or_nothing pods "why".toList stubborn (List.cons_ne_nil _ _)).2.2 _
    ⟨rfl, rfl, rfl, fun _ => .inr ⟨_, rfl⟩⟩

end Collect

/-! ## An adapter over its life -/

structure Life where
  state : AdapterState
  /-- the tools the server was asked to execute -/
  executed : List Str

inductive Label where
  | list_tool_specs (now : ℚ) (answer : Listing) (later : ℚ)
  /-- a call by the model, and whether its session comes as far as the request -/
  | call_tool (name : Str) (reached : Bool)
  | collect (query : Str) (server : Server)

def called : Request → Option Str
  | .call_tool name _ => some name
  | _ => none

def step (c : Collector) (s : Life) : Label → Option Life
  | .list_tool_specs now answer later =>
    some { s with state := (ToolListing.list_tool_specs c.server s.state now answer later).2 }
  | .call_tool name reached =>
    match call_target c.server s.state name with
    | none => some s
    | some tool => some (if reached then { s with executed := tool :: s.executed } else s)
  | .collect query server =>
    some { s with executed := (collect c query server).2.filterMap called ++ s.executed }

def OnlyAllowlisted (c : Collector) (s : Life) : Prop := ∀ tool ∈ s.executed, tool ∈ c.server.tools

theorem collect_allowlisted (c : Collector) (query : Str) (server : Server) :
    ∀ tool ∈ (collect c query server).2.filterMap called, tool ∈ c.server.tools := by
  intro tool htool
  obtain ⟨r, hr, hcalled⟩ := List.mem_filterMap.mp htool
  cases r with
  | session_init => cases hcalled
  | list_tools => cases hcalled
  | call_tool name args =>
    cases hcalled
    exact (collect_allowed c query server tool args hr).1

theorem step_allowlisted (c : Collector) (s : Life) (l : Label) (t : Life)
    (h : step c s l = some t) (hs : OnlyAllowlisted c s) : OnlyAllowlisted c t := by
  cases l with
  | list_tool_specs now answer later =>
    cases h
    exact hs
  | call_tool name reached =>
    simp only [step] at h
    split at h
    · cases h
      exact hs
    · next tool htarget =>
      cases h
      split
      · refine List.forall_mem_cons.mpr ⟨?_, hs⟩
        unfold call_target at htarget
        obtain ⟨hmem, heq⟩ := Option.ite_none_right_eq_some.mp htarget
        cases heq
        exact hmem
      · exact hs
  | collect query server =>
    cases h
    exact List.forall_mem_append.mpr ⟨collect_allowlisted c query server, hs⟩

end AigentSquad.McpCollection
