import AigentSquad.ServerBreaker
import AigentSquad.ItemCounts

/-!
# The streamed status of a tool call

What `run_agentic_loop_streaming` shows of a tool call that reaches the session
pool. A call has a result when its session renders one; whatever else happens
comes back from the pool as text too, and the summary is made of the text alone.
-/

set_option autoImplicit false

namespace AigentSquad.StreamedStatus
open AigentSquad.PyText AigentSquad.PyJson AigentSquad.Truncation AigentSquad.Interaction
open AigentSquad.Effects AigentSquad.AgenticLoop AigentSquad.AgenticLoopStreaming
open AigentSquad.ToolListing AigentSquad.ServerBreaker AigentSquad.ItemCounts
open AigentSquad.LoopAgreement (sampleArgs getPods)

/-- What a tool call meets. -/
structure Attempt where
  args_verdict : Verdict
  /-- the breaker of the server lets the call through -/
  closed : Bool
  server : Datasource
  state : AdapterState
  session : Session
  result_verdict : Verdict

/-- `type(v).__name__` -/
def type_name : Json → Str
  | .null => "NoneType".toList
  | .bool _ => "bool".toList
  | .int _ => "int".toList
  | .float _ => "float".toList
  | .str _ => "str".toList
  | .arr _ => "list".toList
  | .obj _ => "dict".toList

def not_a_mapping (args : Json) : Exc :=
  .mk "TypeError".toList ("'".toList ++ type_name args ++ "' object is not a mapping".toList) [] none

/-- `McpAdapter.call_tool` with its arguments, which only a mapping merges. -/
def adapter_call_tool (d : Datasource) (st : AdapterState) (name : Str) (args : Json)
    (session : Session) : ToolOutcome :=
  match call_target d st name, args with
  | none, _ => call_tool d st name session
  | some _, .obj _ => call_tool d st name session
  | some _, args => .exception (mcp_error_detail (not_a_mapping args))

def answer (c : Attempt) : (e : Ask) → Answer e
  | .guardrail_apply _ .INPUT _ => c.args_verdict
  | .guardrail_apply _ .OUTPUT _ => c.result_verdict
  | .can_execute _ => c.closed
  | .call_tool adapter name args =>
    adapter_call_tool { c.server with adapter := adapter } c.state name args c.session
  | e => calm e

def surroundings (c : Attempt) (_ : Unit) (e : Ask) : Answer e × Unit := (answer c e, ())

def tool_summary : Ev → Option Str
  | .emitted (.StepToolResult _ summary) => some summary
  | _ => none

/-- The summaries streamed during a tool call. -/
def summaries (py : Runtime) (cfg : LoopConfig) (a : RunArgs) (routes : Routes) (u : ToolUse)
    (c : Attempt) : List Str :=
  (serve (surroundings c) () (tool_call_streaming py cfg a routes u)).2.1.filterMap tool_summary

/-- The call passes the guardrail on its arguments and has a route to the pool. -/
structure Reaches (py : Runtime) (routes : Routes) (u : ToolUse) (c : Attempt)
    (adapter_name : Str) : Prop where
  displayed : ∃ args_display, sanitize_args_for_display py u.input = .ok args_display
  accepted : c.args_verdict = .accepted
  routed : resolve routes u.name = some adapter_name

/-- The session a call comes to, if it gets that far. -/
def met (a : RunArgs) (u : ToolUse) (c : Attempt) (adapter_name : Str) : Option Session :=
  match adapter_by_name a.mcp_adapters adapter_name with
  | none => none
  | some adapter =>
    if c.closed then
      match call_target { c.server with adapter := adapter } c.state u.name, u.input with
      | some _, .obj _ => some c.session
      | _, _ => none
    else none

/-- The text of the server's result; `none` is a failed call. -/
def result_of : Option Session → Option Str
  | some (.rendered text) => some (text.take ADAPTER_SAFETY_CAP)
  | _ => none

/-- What the pool returns to the loop. -/
def pool_text (a : RunArgs) (u : ToolUse) (c : Attempt) (adapter_name : Str) : Str :=
  match adapter_by_name a.mcp_adapters adapter_name with
  | none => adapter_not_found adapter_name
  | some adapter =>
    if c.closed then
      outcome_text adapter_name u.name
        (adapter_call_tool { c.server with adapter := adapter } c.state u.name u.input c.session)
    else pool_error adapter_name u.name "circuit breaker OPEN".toList

/-- The fixed forms of a summary, a count apart. -/
def Terse (summary : Str) : Prop :=
  summary = "📦 empty".toList ∨ summary = "📦 ok".toList ∨ ∃ n, StreamStates summary n

def ReportsError (summary : Str) : Prop := "📦 error".toList <+: summary

structure Truthful (result : Option Str) (summary : Str) : Prop where
  reported : ReportsError summary ↔ result = none
  terse : result ≠ none → Terse summary

/-- `_summarize_tool_result` takes the text for an error. -/
def ReadsAsError (text : Str) : Prop :=
  "error".toList <+: strip text ∨ "Error".toList <+: strip text

/-- A result that does not read as an error, or a `PermissionError` of the
session itself that does, each as the guardrail leaves it. -/
def Readable (verdict : Verdict) : Option Session → Prop
  | some (.rendered text) => ¬ ReadsAsError (redacted (text.take ADAPTER_SAFETY_CAP) verdict)
  | some (.permission_error message) => ReadsAsError (redacted message verdict)
  | _ => False

theorem error_sign : "📦 error".toList = "📦 ".toList ++ "error".toList := by decide

theorem reports_error_iff (words : Str) :
    ReportsError ("📦 ".toList ++ words) ↔ "error".toList <+: words := by
  rw [ReportsError, error_sign]
  exact List.prefix_append_right_inj _

theorem count_no_error (words : Str) (n : Nat) (h : counting_words words n) :
    ¬ "error".toList <+: words := by
  rintro ⟨rest, rfl⟩
  exact words_not_counting 'e' _ n (by decide) (by decide) h

theorem terse_no_error (summary : Str) (h : Terse summary) : ¬ ReportsError summary := by
  rcases h with rfl | rfl | ⟨n, words, rfl, hwords⟩
  · unfold ReportsError
    decide
  · unfold ReportsError
    decide
  · rw [reports_error_iff]
    exact count_no_error words n hwords

theorem reads_as_error_iff (text : Str) :
    ReadsAsError text ↔ (startswith (strip text) "error".toList ||
      startswith (strip text) "Error".toList) = true := by
  simp only [ReadsAsError, startswith, Bool.or_eq_true, List.isPrefixOf_iff_prefix]

/-- A summary is an error where the text reads as one, and terse elsewhere. -/
theorem summarize_cases (py : Runtime) (text : Str) :
    (ReadsAsError text ∧ ReportsError (summarize_tool_result py text)) ∨
      (¬ ReadsAsError text ∧ Terse (summarize_tool_result py text)) := by
  unfold summarize_tool_result
  simp only
  split
  · next hempty =>
    right
    rw [List.isEmpty_iff] at hempty
    constructor
    · rw [ReadsAsError, hempty]
      decide
    · exact .inl rfl
  · split
    · next herror =>
      left
      constructor
      · exact (reads_as_error_iff text).mpr herror
      · rw [error_words, List.append_assoc, reports_error_iff]
        exact ⟨':' :: ' ' :: _, rfl⟩
    · next herror =>
      right
      constructor
      · exact fun h => herror ((reads_as_error_iff text).mp h)
      · split
        · split
          · exact .inl rfl
          · exact .inr (.inr ⟨_, _, List.append_assoc _ _ _, .inl rfl⟩)
        · split
          · exact .inr (.inl rfl)
          · exact .inr (.inr ⟨_, '~' :: (strNat _ ++ " items".toList), rfl, .inr rfl⟩)

theorem summarize_error_iff (py : Runtime) (text : Str) :
    ReportsError (summarize_tool_result py text) ↔ ReadsAsError text := by
  rcases summarize_cases py text with ⟨hreads, hreports⟩ | ⟨hreads, hterse⟩
  · exact iff_of_true hreports hreads
  · exact iff_of_false (terse_no_error _ hterse) hreads

theorem bracketed_no_error (text : Str) : ¬ ReadsAsError ('[' :: text) := by
  have hspace : isspace '[' = false := by decide
  have hstrip : strip ('[' :: text) = '[' :: rstrip text :=
    strip_append ['['] text (by simp) (by simpa using hspace) (by simpa using hspace)
  rw [ReadsAsError, hstrip]
  rintro (⟨rest, h⟩ | ⟨rest, h⟩)
  · exact absurd (List.cons.inj h).1 (by decide)
  · exact absurd (List.cons.inj h).1 (by decide)

theorem redacted_bracketed (text : Str) (verdict : Verdict) :
    ∃ rest, redacted ('[' :: text) verdict = '[' :: rest := by
  cases verdict with
  | accepted => exact ⟨text, rfl⟩
  | error exc => exact ⟨text, rfl⟩
  | blocked reason categories => exact ⟨_, rfl⟩

theorem failure_truthful_iff (py : Runtime) (text : Str) :
    Truthful none (summarize_tool_result py text) ↔ ReadsAsError text := by
  rw [← summarize_error_iff py text]
  constructor
  · exact fun htrue => htrue.reported.mpr rfl
  · intro hreports
    constructor
    · exact iff_of_true hreports rfl
    · exact fun hsome => absurd rfl hsome

theorem result_truthful_iff (py : Runtime) (result text : Str) :
    Truthful (some result) (summarize_tool_result py text) ↔ ¬ ReadsAsError text := by
  constructor
  · intro htrue hreads
    have hreports := (summarize_error_iff py text).mpr hreads
    cases htrue.reported.mp hreports
  · intro hreads
    obtain ⟨herror, -⟩ | ⟨-, hterse⟩ := summarize_cases py text
    · exact absurd herror hreads
    · constructor
      · exact iff_of_false (terse_no_error _ hterse) (by simp)
      · exact fun _ => hterse

section Call
variable (a : RunArgs) (u : ToolUse) (c : Attempt) (adapter_name : Str)

/-- The pool returns the result, a text of its own in brackets, or the message
of a `PermissionError`. -/
theorem pool_text_cases :
    (∃ text, met a u c adapter_name = some (.rendered text) ∧
      pool_text a u c adapter_name = text.take ADAPTER_SAFETY_CAP) ∨
    (∃ message, met a u c adapter_name = some (.permission_error message) ∧
      pool_text a u c adapter_name = message) ∨
    ((∀ text, met a u c adapter_name ≠ some (.rendered text)) ∧
      (∀ message, met a u c adapter_name ≠ some (.permission_error message)) ∧
      ∃ rest, pool_text a u c adapter_name = '[' :: rest) := by
  unfold met pool_text
  cases adapter_by_name a.mcp_adapters adapter_name with
  | none => exact .inr (.inr ⟨by simp, by simp, _, rfl⟩)
  | some adapter =>
    cases c.closed with
    | false => exact .inr (.inr ⟨by simp, by simp, _, rfl⟩)
    | true =>
      simp only [if_true, adapter_call_tool]
      cases htarget : call_target { c.server with adapter := adapter } c.state u.name with
      | none =>
        refine .inr (.inr ⟨by simp, by simp, ?_⟩)
        rw [call_tool, htarget]
        exact ⟨_, rfl⟩
      | some server_name =>
        cases u.input with
        | obj pairs =>
          simp only [call_tool, htarget]
          cases c.session with
          | rendered text => exact .inl ⟨text, rfl, rfl⟩
          | permission_error message => exact .inr (.inl ⟨message, rfl, rfl⟩)
          | rejected exc => exact .inr (.inr ⟨by simp, by simp, _, rfl⟩)
          | raised exc => exact .inr (.inr ⟨by simp, by simp, _, rfl⟩)
          | hangs => exact .inr (.inr ⟨by simp, by simp, _, rfl⟩)
        | _ => exact .inr (.inr ⟨by simp, by simp, _, rfl⟩)

/-- The pool streams nothing of its own. -/
theorem pool_served :
    ∃ tr, serve (surroundings c) () (pool_call_tool a.mcp_adapters adapter_name u.name u.input) =
        ((), tr, .ok (pool_text a u c adapter_name)) ∧ tr.filterMap tool_summary = [] := by
  unfold pool_text
  cases hadapter : adapter_by_name a.mcp_adapters adapter_name with
  | none =>
    rw [pool_call_tool_missing _ _ _ _ hadapter]
    exact ⟨[], rfl, rfl⟩
  | some adapter =>
    rw [pool_call_tool_found _ _ _ _ adapter hadapter]
    by_cases hclosed : c.closed = true
    · simp only [serve, surroundings, answer, hclosed, if_true]
      cases adapter_call_tool { c.server with adapter := adapter } c.state u.name u.input
          c.session with
      | result text => exact ⟨_, rfl, rfl⟩
      | timeout => exact ⟨_, rfl, rfl⟩
      | permission_error message => exact ⟨_, rfl, rfl⟩
      | exception detail => exact ⟨_, rfl, rfl⟩
    · simp only [serve, surroundings, answer, hclosed, Bool.false_eq_true, if_false]
      exact ⟨_, rfl, rfl⟩

/-- A call that reaches the pool streams one summary, of what the guardrail
leaves of the returned text. -/
theorem summaries_eq (py : Runtime) (cfg : LoopConfig) (routes : Routes)
    (h : Reaches py routes u c adapter_name) :
    summaries py cfg a routes u c =
      [summarize_tool_result py (redacted (pool_text a u c adapter_name) c.result_verdict)] := by
  obtain ⟨args_display, hdisplay⟩ := h.displayed
  obtain ⟨tr, hpool, hsilent⟩ := pool_served a u c adapter_name
  have haccepted : (surroundings c () (.guardrail_apply (dumps true u.input) .INPUT a.ids)).1 =
      .accepted := h.accepted
  rw [summaries, tool_call_streaming_ok py cfg a routes u args_display hdisplay]
  simp only [serve, haccepted, if_true, h.routed]
  rw [serve_bind _ () () _ _ tr _ hpool]
  simp only [serve, surroundings, answer, List.filterMap_cons, List.filterMap_append, hsilent,
    tool_summary, List.nil_append, List.filterMap_nil]

end Call

/-- `get_pods` on the server of the pods, which ends the session as told. -/
def pods_attempt (session : Session) : Attempt where
  args_verdict := .accepted
  closed := true
  server := pods_server
  state := AdapterState.fresh
  session := session
  result_verdict := .accepted

def pods_routes : Routes := [("get_pods".toList, "k8s".toList)]

theorem pods_reached (session : Session) :
    Reaches asciiRuntime pods_routes getPods (pods_attempt session) "k8s".toList where
  displayed := ⟨_, rfl⟩
  accepted := rfl
  routed := by decide

def pods_counted : Attempt := pods_attempt (.rendered "[1, 2]".toList)

def pods_hang : Attempt := pods_attempt .hangs

end AigentSquad.StreamedStatus
