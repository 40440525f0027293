import AigentSquad.AgenticLoop

/-!
# Runs of the loop as traces

The questions and answers of a finished run, read as a derivation: which tool
uses a turn executed and with what results, and how the loop state went from
turn to turn. Every path of the loop has such a trace.
-/

set_option autoImplicit false

namespace AigentSquad.Traces
open AigentSquad.PyText AigentSquad.PyJson AigentSquad.Truncation AigentSquad.Interaction
open AigentSquad.Effects AigentSquad.AgenticLoop

abbrev Dialogue := List (Sigma Answer)

def records (url : Str) : ToolOutcome → Dialogue
  | .result _ => [⟨.record_success url, ()⟩]
  | .permission_error _ => []
  | _ => [⟨.record_failure url, ()⟩]

/-- What a question of the loop is about. -/
inductive Topic where
  | clock
  | listing
  | model
  | execution
  | tools
deriving DecidableEq

def topic : Sigma Answer → Topic
  | ⟨.time, _⟩ => .clock
  | ⟨.list_tool_specs _, _⟩ => .listing
  | ⟨.converse _, _⟩ => .model
  | ⟨.call_tool _ _ _, _⟩ => .execution
  | _ => .tools

def converse_calls (tr : List Ev) : List ConverseCall :=
  (asks tr).filterMap (fun s => match s with
    | ⟨.converse call, _⟩ => some call
    | _ => none)

theorem mem_converse_calls (tr : List Ev) (call : ConverseCall) :
    call ∈ converse_calls tr ↔
      ∃ answer : Except Exn Response, (⟨.converse call, answer⟩ : Sigma Answer) ∈ asks tr := by
  rw [converse_calls, List.mem_filterMap]
  constructor
  · rintro ⟨⟨e, answer⟩, hmem, he⟩
    cases e with
    | converse c =>
      simp only [Option.some.injEq] at he
      exact ⟨answer, he ▸ hmem⟩
    | _ => cases he
  · rintro ⟨answer, hmem⟩
    exact ⟨_, hmem, rfl⟩

inductive PoolTrace (adapters : List McpAdapter) (adapter_name tool_name : Str) (args : Json) :
    Dialogue → Str → Prop
  | missing (h : adapter_by_name adapters adapter_name = none) :
      PoolTrace adapters adapter_name tool_name args [] (adapter_not_found adapter_name)
  | refused {adapter : McpAdapter} (h : adapter_by_name adapters adapter_name = some adapter) :
      PoolTrace adapters adapter_name tool_name args [⟨.can_execute adapter.url, false⟩]
        (pool_error adapter_name tool_name "circuit breaker OPEN".toList)
  | executed {adapter : McpAdapter} (h : adapter_by_name adapters adapter_name = some adapter)
      (outcome : ToolOutcome) :
      PoolTrace adapters adapter_name tool_name args
        (⟨.can_execute adapter.url, true⟩ :: ⟨.call_tool adapter tool_name args, outcome⟩ ::
          records adapter.url outcome)
        (outcome_text adapter_name tool_name outcome)

/-- The dialogue of one tool use, with its result. -/
inductive CallTrace (py : Runtime) (cfg : LoopConfig) (a : RunArgs) (routes : Routes)
    (u : ToolUse) : Dialogue → ToolResult × List Str → Prop
  | blocked {v : Verdict} (h : v ≠ .accepted) :
      CallTrace py cfg a routes u [⟨.guardrail_apply (dumps true u.input) .INPUT a.ids, v⟩]
        (blocked_result u, [u.name])
  | not_found (h : resolve routes u.name = none) :
      CallTrace py cfg a routes u
        [⟨.guardrail_apply (dumps true u.input) .INPUT a.ids, Verdict.accepted⟩]
        (not_found_result u, [u.name])
  | routed {adapter_name raw : Str} {pool : Dialogue} (h : resolve routes u.name = some adapter_name)
      (hpool : PoolTrace a.mcp_adapters adapter_name u.name u.input pool raw) (v : Verdict) :
      CallTrace py cfg a routes u
        (⟨.guardrail_apply (dumps true u.input) .INPUT a.ids, Verdict.accepted⟩ :: pool ++
          [⟨.guardrail_apply raw .OUTPUT a.ids, v⟩])
        (executed_result py cfg u (redacted raw v), [])

inductive CallsTrace (py : Runtime) (cfg : LoopConfig) (a : RunArgs) (routes : Routes) :
    List ToolUse → Dialogue → List ToolResult × List Str → Prop
  | nil : CallsTrace py cfg a routes [] [] ([], [])
  | cons {u : ToolUse} {us : List ToolUse} {d ds : Dialogue} {out : ToolResult × List Str}
      {outs : List ToolResult × List Str} (head : CallTrace py cfg a routes u d out)
      (tail : CallsTrace py cfg a routes us ds outs) :
      CallsTrace py cfg a routes (u :: us) (d ++ ds) (out.1 :: outs.1, out.2 ++ outs.2)

/-- The answer a response gives when it requests no tool. -/
def answer_text (resp : Response) : Str :=
  let final_text := join "\n".toList (texts resp.content)
  if resp.stop_reason ≠ "tool_use".toList then final_text
  else if final_text.isEmpty then "(no response)".toList else final_text

def requests_tools (resp : Response) : Prop :=
  resp.stop_reason = "tool_use".toList ∧ tool_use_blocks resp.content ≠ []

inductive LoopTrace (py : Runtime) (cfg : LoopConfig) (a : RunArgs)
    (specs : List (ToolSpec × Str)) (loop_start : ℚ) :
    Nat → LoopState → Dialogue → Except Exn (Str × List Message) → Prop
  | exhausted {left : Nat} {st : LoopState} {now : ℚ} {r : Except Exn (Str × List Message)}
      (h : left = 0 ∨ budget_left cfg st (elapsed_ms loop_start now) = false)
      (hr : degraded_answer cfg st (elapsed_ms loop_start now) = .done r) :
      LoopTrace py cfg a specs loop_start left st [⟨.time, now⟩] r
  | failed {left : Nat} {st : LoopState} {now : ℚ} {e : Exn}
      (h : budget_left cfg st (elapsed_ms loop_start now) = true) :
      LoopTrace py cfg a specs loop_start (left + 1) st
        [⟨.time, now⟩, ⟨.converse (converse_call a (tool_config_of specs)
          (trimmed py cfg st.messages)), Except.error e⟩] (.error e)
  | answered {left : Nat} {st : LoopState} {now : ℚ} {resp : Response}
      (h : budget_left cfg st (elapsed_ms loop_start now) = true) (hresp : ¬ requests_tools resp) :
      LoopTrace py cfg a specs loop_start (left + 1) st
        [⟨.time, now⟩, ⟨.converse (converse_call a (tool_config_of specs)
          (trimmed py cfg st.messages)), Except.ok resp⟩]
        (.ok (answer_text resp, trimmed py cfg st.messages))
  | turn {left : Nat} {st : LoopState} {now : ℚ} {resp : Response} {calls rest : Dialogue}
      {out : List ToolResult × List Str} {r : Except Exn (Str × List Message)}
      (h : budget_left cfg st (elapsed_ms loop_start now) = true) (hresp : requests_tools resp)
      (hcalls : CallsTrace py cfg a (routes_of specs) (tool_use_blocks resp.content) calls out)
      (hrest : LoopTrace py cfg a specs loop_start left
        (after_turn st (trimmed py cfg st.messages) resp out) rest r) :
      LoopTrace py cfg a specs loop_start (left + 1) st
        (⟨.time, now⟩ :: ⟨.converse (converse_call a (tool_config_of specs)
          (trimmed py cfg st.messages)), Except.ok resp⟩ :: calls ++ rest) r

/-- The listings, in adapter order, and what they offer. -/
inductive ListTrace : List McpAdapter → Dialogue → List (ToolSpec × Str) → Prop
  | nil : ListTrace [] [] []
  | cons {adapter : McpAdapter} {adapters : List McpAdapter} {d : Dialogue}
      {specs : List (ToolSpec × Str)} (answer : Except Exn (List ToolSpec))
      (tail : ListTrace adapters d specs) :
      ListTrace (adapter :: adapters) (⟨.list_tool_specs adapter, answer⟩ :: d)
        (contributed adapter answer ++ specs)

structure RunTrace (py : Runtime) (cfg : LoopConfig) (a : RunArgs) (d : Dialogue)
    (r : Except Exn (Str × List Message)) : Prop where
  split : ∃ loop_start listing specs body, d = ⟨.time, loop_start⟩ :: listing ++ body ∧
    ListTrace a.mcp_adapters listing specs ∧
    LoopTrace py cfg a specs loop_start cfg.MAX_TOOL_STEPS.toNat (initial_state a) body r

theorem records_topic (url : Str) (o : ToolOutcome) : ∀ s ∈ records url o, topic s = .tools := by
  cases o <;> simp [records, topic]

/-- A tool use talks to guardrail, breaker and tools only. -/
def ToolTalk (d : Dialogue) : Prop := ∀ s ∈ d, topic s = .execution ∨ topic s = .tools

theorem ToolTalk.append {c d : Dialogue} (hc : ToolTalk c) (hd : ToolTalk d) :
    ToolTalk (c ++ d) := by
  intro s hs
  exact (List.mem_append.mp hs).elim (hc s) (hd s)

theorem pool_trace_talk (adapters : List McpAdapter) (adapter_name tool_name raw : Str)
    (args : Json) (d : Dialogue) (h : PoolTrace adapters adapter_name tool_name args d raw) :
    ToolTalk d := by
  cases h with
  | missing _ => simp [ToolTalk]
  | refused _ => simp [ToolTalk, topic]
  | executed _ outcome =>
    intro s hs
    simp only [List.mem_cons] at hs
    rcases hs with rfl | rfl | hs
    · exact .inr rfl
    · exact .inl rfl
    · exact .inr (records_topic _ outcome s hs)

theorem calls_trace_talk (py : Runtime) (cfg : LoopConfig) (a : RunArgs) (routes : Routes)
    (us : List ToolUse) (d : Dialogue) (out : List ToolResult × List Str)
    (h : CallsTrace py cfg a routes us d out) : ToolTalk d := by
  induction h with
  | nil => simp [ToolTalk]
  | cons head _ ih =>
    refine ToolTalk.append ?_ ih
    cases head with
    | blocked _ => simp [ToolTalk, topic]
    | not_found _ => simp [ToolTalk, topic]
    | routed _ hpool v =>
      have hp := pool_trace_talk _ _ _ _ _ _ hpool
      intro s hs
      simp only [List.cons_append, List.mem_cons, List.mem_append, List.not_mem_nil,
        or_false] at hs
      rcases hs with rfl | hs | rfl
      · exact .inr rfl
      · exact hp s hs
      · exact .inr rfl

theorem calls_trace_length (py : Runtime) (cfg : LoopConfig) (a : RunArgs) (routes : Routes)
    (us : List ToolUse) (d : Dialogue) (out : List ToolResult × List Str)
    (h : CallsTrace py cfg a routes us d out) : out.1.length = us.length := by
  induction h with
  | nil => rfl
  | cons _ _ ih => rw [List.length_cons, ih, List.length_cons]

theorem list_trace_topic (adapters : List McpAdapter) (d : Dialogue)
    (specs : List (ToolSpec × Str)) (h : ListTrace adapters d specs) :
    ∀ s ∈ d, topic s = .listing := by
  induction h with
  | nil => simp
  | cons _ _ ih => simpa [topic] using ih

/-- Once the loop runs, no adapter is listed again. -/
theorem loop_trace_topic (py : Runtime) (cfg : LoopConfig) (a : RunArgs)
    (specs : List (ToolSpec × Str)) (loop_start : ℚ) (left : Nat) (st : LoopState) (d : Dialogue)
    (r : Except Exn (Str × List Message))
    (h : LoopTrace py cfg a specs loop_start left st d r) : ∀ s ∈ d, topic s ≠ .listing := by
  induction h with
  | exhausted _ _ => simp [topic]
  | failed _ => simp [topic]
  | answered _ _ => simp [topic]
  | turn _ _ hcalls _ ih =>
    intro s hs
    simp only [List.cons_append, List.mem_cons, List.mem_append] at hs
    rcases hs with rfl | rfl | hs | hs
    · simp [topic]
    · simp [topic]
    · rcases calls_trace_talk py cfg a _ _ _ _ hcalls s hs with ht | ht <;> simp [ht]
    · exact ih s hs

theorem record_path (url : Str) (o : ToolOutcome) (tr : List Ev) (r : Except Exn Unit) :
    Path (record url o) tr r ↔ tr = heard (records url o) ∧ r = .ok () := by
  cases o with
  | permission_error _ => simp [record, records, Prog.pure_eq]
  | _ =>
    simp only [record, records, Prog.request, path_ask, Prog.pure_eq, path_done, heard_cons,
      heard_nil]
    constructor
    · rintro ⟨_, _, rfl, rfl, rfl⟩
      exact ⟨rfl, rfl⟩
    · rintro ⟨rfl, rfl⟩
      exact ⟨(), [], rfl, rfl, rfl⟩

theorem pool_call_tool_path (adapters : List McpAdapter) (adapter_name tool_name : Str)
    (args : Json) (tr : List Ev) (r : Except Exn Str)
    (h : Path (pool_call_tool adapters adapter_name tool_name args) tr r) :
    ∃ raw, r = .ok raw ∧ PoolTrace adapters adapter_name tool_name args (asks tr) raw := by
  cases hn : adapter_by_name adapters adapter_name with
  | none =>
    rw [pool_call_tool_missing adapters adapter_name tool_name args hn, path_done] at h
    obtain ⟨rfl, rfl⟩ := h
    exact ⟨_, rfl, .missing hn⟩
  | some adapter =>
    rw [pool_call_tool_found adapters adapter_name tool_name args adapter hn, path_ask] at h
    obtain ⟨closed, rest, rfl, h⟩ := h
    cases closed with
    | false =>
      simp only [Bool.false_eq_true, if_false, path_done] at h
      obtain ⟨rfl, rfl⟩ := h
      exact ⟨_, rfl, .refused hn⟩
    | true =>
      simp only [if_true, path_ask] at h
      obtain ⟨outcome, rest, rfl, h⟩ := h
      rcases (path_bind _ _ _ _).mp h with ⟨x, hx, _⟩ | ⟨_, tr₁, tr₂, rfl, h₁, h₂⟩
      · cases ((record_path _ _ _ _).mp hx).2
      · obtain ⟨rfl, rfl⟩ := (path_done _ _ _).mp h₂
        obtain ⟨rfl, _⟩ := (record_path _ _ _ _).mp h₁
        refine ⟨_, rfl, ?_⟩
        simp only [asks, List.append_nil, asks_heard]
        exact .executed hn outcome

theorem tool_call_path (py : Runtime) (cfg : LoopConfig) (a : RunArgs) (routes : Routes)
    (u : ToolUse) (tr : List Ev) (r : Except Exn (ToolResult × List Str))
    (h : Path (tool_call py cfg a routes u) tr r) :
    ∃ out, r = .ok out ∧ CallTrace py cfg a routes u (asks tr) out := by
  rw [tool_call_eq, path_ask] at h
  obtain ⟨v, rest, rfl, h⟩ := h
  by_cases hv : v = .accepted
  · subst hv
    simp only [if_true] at h
    cases hr : resolve routes u.name with
    | none =>
      simp only [hr, path_done] at h
      obtain ⟨rfl, rfl⟩ := h
      exact ⟨_, rfl, .not_found hr⟩
    | some adapter_name =>
      simp only [hr] at h
      rcases (path_bind _ _ _ _).mp h with ⟨x, hx, _⟩ | ⟨raw, tr₁, tr₂, rfl, h₁, h₂⟩
      · obtain ⟨_, hx, _⟩ := pool_call_tool_path _ _ _ _ _ _ hx
        cases hx
      · obtain ⟨_, hraw, hpool⟩ := pool_call_tool_path _ _ _ _ _ _ h₁
        cases hraw
        rw [path_ask] at h₂
        obtain ⟨v, _, rfl, h₂⟩ := h₂
        obtain ⟨rfl, rfl⟩ := (path_done _ _ _).mp h₂
        refine ⟨_, rfl, ?_⟩
        simpa [asks] using CallTrace.routed hr hpool v
  · simp only [hv, if_false, path_done] at h
    obtain ⟨rfl, rfl⟩ := h
    exact ⟨_, rfl, .blocked hv⟩

theorem tool_calls_path (py : Runtime) (cfg : LoopConfig) (a : RunArgs) (routes : Routes)
    (us : List ToolUse) (tr : List Ev) (r : Except Exn (List ToolResult × List Str))
    (h : Path (tool_calls py cfg a routes us) tr r) :
    ∃ out, r = .ok out ∧ CallsTrace py cfg a routes us (asks tr) out := by
  induction us generalizing tr r with
  | nil =>
    obtain ⟨rfl, rfl⟩ := (path_done _ _ _).mp h
    exact ⟨_, rfl, .nil⟩
  | cons u us ih =>
    rw [tool_calls_cons] at h
    rcases (path_bind _ _ _ _).mp h with ⟨x, hx, _⟩ | ⟨out, tr₁, tr₂, rfl, h₁, h₂⟩
    · obtain ⟨_, hx, _⟩ := tool_call_path _ _ _ _ _ _ _ hx
      cases hx
    · obtain ⟨_, hout, hhead⟩ := tool_call_path _ _ _ _ _ _ _ h₁
      cases hout
      rcases (path_bind _ _ _ _).mp h₂ with ⟨x, hx, _⟩ | ⟨rest, tr₃, tr₄, rfl, h₃, h₄⟩
      · obtain ⟨_, hx, _⟩ := ih _ _ hx
        cases hx
      · obtain ⟨_, hrest, htail⟩ := ih _ _ h₃
        cases hrest
        obtain ⟨rfl, rfl⟩ := (path_done _ _ _).mp h₄
        refine ⟨_, rfl, ?_⟩
        simpa [asks] using CallsTrace.cons hhead htail

theorem degraded_answer_done (cfg : LoopConfig) (st : LoopState) (elapsed : ℚ) :
    ∃ r, degraded_answer cfg st elapsed = .done r := by
  unfold degraded_answer
  split
  · exact ⟨_, rfl⟩
  · split <;> exact ⟨_, rfl⟩

theorem degraded_answer_messages (cfg : LoopConfig) (st : LoopState) (elapsed : ℚ) (answer : Str)
    (ms : List Message) (h : degraded_answer cfg st elapsed = .done (.ok (answer, ms))) :
    ms = st.messages := by
  unfold degraded_answer at h
  split at h
  · cases h
  · split at h <;>
      simp only [Prog.pure_eq, Prog.done.injEq, Except.ok.injEq, Prod.mk.injEq] at h <;>
      exact h.2.symm

theorem respond_answered (py : Runtime) (cfg : LoopConfig) (a : RunArgs)
    (specs : List (ToolSpec × Str)) (loop_start : ℚ) (left : Nat) (st : LoopState)
    (messages : List Message) (resp : Response) (h : ¬ requests_tools resp) :
    respond py cfg a specs loop_start left st messages resp =
      .done (.ok (answer_text resp, messages)) := by
  unfold respond answer_text
  by_cases hstop : resp.stop_reason ≠ "tool_use".toList
  · rw [if_pos hstop, if_pos hstop]
  · have hnone : tool_use_blocks resp.content = [] :=
      by_contra (fun hne => h ⟨not_not.mp hstop, hne⟩)
    rw [if_neg hstop, if_neg hstop, hnone, List.isEmpty_nil, if_pos rfl]

theorem respond_turn (py : Runtime) (cfg : LoopConfig) (a : RunArgs)
    (specs : List (ToolSpec × Str)) (loop_start : ℚ) (left : Nat) (st : LoopState)
    (messages : List Message) (resp : Response) (h : requests_tools resp) :
    respond py cfg a specs loop_start left st messages resp =
      (tool_calls py cfg a (routes_of specs) (tool_use_blocks resp.content)).bind (fun out =>
        loop py cfg a specs loop_start left (after_turn st messages resp out)) := by
  unfold respond
  rw [if_neg (not_not.mpr h.1), if_neg (by simpa using h.2)]

theorem respond_path (py : Runtime) (cfg : LoopConfig) (a : RunArgs)
    (specs : List (ToolSpec × Str)) (loop_start : ℚ) (left : Nat) (st : LoopState)
    (messages : List Message) (resp : Response) (tr : List Ev)
    (r : Except Exn (Str × List Message))
    (h : Path (respond py cfg a specs loop_start left st messages resp) tr r) :
    (¬ requests_tools resp ∧ asks tr = [] ∧ r = .ok (answer_text resp, messages)) ∨
    (requests_tools resp ∧ ∃ out calls rest, asks tr = calls ++ asks rest ∧
      CallsTrace py cfg a (routes_of specs) (tool_use_blocks resp.content) calls out ∧
      Path (loop py cfg a specs loop_start left (after_turn st messages resp out)) rest r) := by
  by_cases hresp : requests_tools resp
  · rw [respond_turn _ _ _ _ _ _ _ _ _ hresp] at h
    rcases (path_bind _ _ _ _).mp h with ⟨x, hx, _⟩ | ⟨out, tr₁, tr₂, rfl, h₁, h₂⟩
    · obtain ⟨_, hx, _⟩ := tool_calls_path _ _ _ _ _ _ _ hx
      cases hx
    · obtain ⟨_, hout, hcalls⟩ := tool_calls_path _ _ _ _ _ _ _ h₁
      cases hout
      exact .inr ⟨hresp, out, asks tr₁, tr₂, by simp, hcalls, h₂⟩
  · rw [respond_answered _ _ _ _ _ _ _ _ _ hresp, path_done] at h
    exact .inl ⟨hresp, by simp [h.1, asks], h.2⟩

theorem loop_path (py : Runtime) (cfg : LoopConfig) (a : RunArgs) (specs : List (ToolSpec × Str))
    (loop_start : ℚ) (left : Nat) (st : LoopState) (tr : List Ev)
    (r : Except Exn (Str × List Message)) (h : Path (loop py cfg a specs loop_start left st) tr r) :
    LoopTrace py cfg a specs loop_start left st (asks tr) r := by
  have exhaust : ∀ left st now tr r, (left = 0 ∨
      budget_left cfg st (elapsed_ms loop_start now) = false) →
      Path (degraded_answer cfg st (elapsed_ms loop_start now)) tr r →
      LoopTrace py cfg a specs loop_start left st (⟨.time, now⟩ :: asks tr) r := by
    intro left st now tr r hleft h
    obtain ⟨s, hs⟩ := degraded_answer_done cfg st (elapsed_ms loop_start now)
    rw [hs, path_done] at h
    obtain ⟨rfl, rfl⟩ := h
    exact .exhausted hleft hs
  induction left generalizing st tr with
  | zero =>
    rw [loop_zero, path_ask] at h
    obtain ⟨now, rest, rfl, h⟩ := h
    exact exhaust 0 st now rest r (.inl rfl) h
  | succ left ih =>
    rw [loop_succ, path_ask] at h
    obtain ⟨now, rest, rfl, h⟩ := h
    cases hb : budget_left cfg st (elapsed_ms loop_start now) with
    | false =>
      simp only [hb, Bool.false_eq_true, if_false] at h
      exact exhaust (left + 1) st now rest r (.inr hb) h
    | true =>
      simp only [hb, if_true, path_ask] at h
      obtain ⟨answer, rest, rfl, h⟩ := h
      cases answer with
      | error e =>
        obtain ⟨rfl, rfl⟩ := (path_done _ _ _).mp h
        exact .failed hb
      | ok resp =>
        rcases respond_path _ _ _ _ _ _ _ _ _ _ _ h with
          ⟨hresp, htr, rfl⟩ | ⟨hresp, out, calls, rest, htr, hcalls, hrest⟩
        · simp only [asks, htr]
          exact .answered hb hresp
        · simp only [asks, htr]
          exact .turn hb hresp hcalls (ih _ _ hrest)

theorem list_specs_path (adapters : List McpAdapter) (tr : List Ev)
    (r : Except Exn (List (ToolSpec × Str))) (h : Path (list_specs adapters) tr r) :
    ∃ specs, r = .ok specs ∧ ListTrace adapters (asks tr) specs := by
  induction adapters generalizing tr r with
  | nil =>
    obtain ⟨rfl, rfl⟩ := (path_done _ _ _).mp h
    exact ⟨_, rfl, .nil⟩
  | cons adapter adapters ih =>
    rw [list_specs_cons, path_ask] at h
    obtain ⟨answer, rest, rfl, h⟩ := h
    rcases (path_bind _ _ _ _).mp h with ⟨x, hx, _⟩ | ⟨specs, tr₁, tr₂, rfl, h₁, h₂⟩
    · obtain ⟨_, hx, _⟩ := ih _ _ hx
      cases hx
    · obtain ⟨_, hspecs, htail⟩ := ih _ _ h₁
      cases hspecs
      obtain ⟨rfl, rfl⟩ := (path_done _ _ _).mp h₂
      refine ⟨_, rfl, ?_⟩
      simpa [asks] using ListTrace.cons answer htail

/-- Every path of the loop is a run of the trace system. -/
theorem run_path_trace (py : Runtime) (cfg : LoopConfig) (a : RunArgs) (tr : List Ev)
    (r : Except Exn (Str × List Message)) (h : Path (run_agentic_loop py cfg a) tr r) :
    RunTrace py cfg a (asks tr) r := by
  rw [run_agentic_loop_eq, path_ask] at h
  obtain ⟨loop_start, rest, rfl, h⟩ := h
  rcases (path_bind _ _ _ _).mp h with ⟨x, hx, _⟩ | ⟨specs, tr₁, tr₂, rfl, h₁, h₂⟩
  · obtain ⟨_, hx, _⟩ := list_specs_path _ _ _ hx
    cases hx
  · obtain ⟨_, hspecs, hlist⟩ := list_specs_path _ _ _ h₁
    cases hspecs
    exact ⟨loop_start, asks tr₁, specs, asks tr₂, by simp [asks], hlist,
      loop_path py cfg a specs loop_start _ _ tr₂ r h₂⟩

theorem pool_trace_path (adapters : List McpAdapter) (adapter_name tool_name raw : Str)
    (args : Json) (d : Dialogue) (h : PoolTrace adapters adapter_name tool_name args d raw) :
    Path (pool_call_tool adapters adapter_name tool_name args) (heard d) (.ok raw) := by
  cases h with
  | missing h =>
    rw [pool_call_tool_missing adapters adapter_name tool_name args h]
    exact .done _
  | refused h =>
    rw [pool_call_tool_found adapters adapter_name tool_name args _ h]
    exact (path_ask _ _ _ _).mpr ⟨false, [], rfl, .done _⟩
  | @executed adapter h outcome =>
    rw [pool_call_tool_found adapters adapter_name tool_name args _ h]
    have hrec := (record_path adapter.url outcome _ _).mpr ⟨rfl, rfl⟩
    refine (path_ask _ _ _ _).mpr ⟨true, _, rfl, ?_⟩
    refine (path_ask _ _ _ _).mpr ⟨outcome, _, rfl, ?_⟩
    exact hrec.map_ok (fun _ => outcome_text adapter_name tool_name outcome)

theorem call_trace_path (py : Runtime) (cfg : LoopConfig) (a : RunArgs) (routes : Routes)
    (u : ToolUse) (d : Dialogue) (out : ToolResult × List Str)
    (h : CallTrace py cfg a routes u d out) :
    Path (tool_call py cfg a routes u) (heard d) (.ok out) := by
  rw [tool_call_eq]
  cases h with
  | @blocked v h =>
    refine (path_ask _ _ _ _).mpr ⟨v, [], rfl, ?_⟩
    rw [if_neg h]
    exact .done _
  | not_found h =>
    refine (path_ask _ _ _ _).mpr ⟨.accepted, [], rfl, ?_⟩
    rw [if_pos rfl, h]
    exact .done _
  | @routed adapter_name raw pool h hpool v =>
    refine (path_ask _ _ _ _).mpr ⟨.accepted, heard (pool ++ _), rfl, ?_⟩
    rw [if_pos rfl, h, heard_append]
    exact (pool_trace_path _ _ _ _ _ _ hpool).bind_ok ((path_ask _ _ _ _).mpr ⟨v, [], rfl, .done _⟩)

theorem calls_trace_path (py : Runtime) (cfg : LoopConfig) (a : RunArgs) (routes : Routes)
    (us : List ToolUse) (d : Dialogue) (out : List ToolResult × List Str)
    (h : CallsTrace py cfg a routes us d out) :
    Path (tool_calls py cfg a routes us) (heard d) (.ok out) := by
  induction h with
  | nil => exact .done _
  | cons head _ ih =>
    rw [tool_calls_cons, heard_append]
    exact (call_trace_path py cfg a routes _ _ _ head).bind_ok
      (ih.map_ok (fun rest => (_ :: rest.1, _ ++ rest.2)))

theorem list_trace_path (adapters : List McpAdapter) (d : Dialogue)
    (specs : List (ToolSpec × Str)) (h : ListTrace adapters d specs) :
    Path (list_specs adapters) (heard d) (.ok specs) := by
  induction h with
  | nil => exact .done _
  | cons answer _ ih =>
    rw [list_specs_cons]
    exact (path_ask _ _ _ _).mpr ⟨answer, _, rfl, ih.map_ok (fun specs => contributed _ answer ++ specs)⟩

theorem loop_trace_path (py : Runtime) (cfg : LoopConfig) (a : RunArgs)
    (specs : List (ToolSpec × Str)) (loop_start : ℚ) (left : Nat) (st : LoopState) (d : Dialogue)
    (r : Except Exn (Str × List Message))
    (h : LoopTrace py cfg a specs loop_start left st d r) :
    Path (loop py cfg a specs loop_start left st) (heard d) r := by
  induction h with
  | @exhausted left st now r hleft hr =>
    cases left with
    | zero =>
      rw [loop_zero]
      exact (path_ask _ _ _ _).mpr ⟨now, [], rfl, hr ▸ .done r⟩
    | succ left =>
      rw [loop_succ]
      refine (path_ask _ _ _ _).mpr ⟨now, [], rfl, ?_⟩
      rw [hleft.resolve_left (by simp), if_neg (by simp), hr]
      exact .done r
  | @failed left st now e hb =>
    rw [loop_succ]
    refine (path_ask _ _ _ _).mpr ⟨now, _, rfl, ?_⟩
    rw [hb, if_pos rfl]
    exact (path_ask _ _ _ _).mpr ⟨.error e, [], rfl, .done _⟩
  | @answered left st now resp hb hresp =>
    rw [loop_succ]
    refine (path_ask _ _ _ _).mpr ⟨now, _, rfl, ?_⟩
    rw [hb, if_pos rfl]
    refine (path_ask _ _ _ _).mpr ⟨.ok resp, [], rfl, ?_⟩
    show Path (respond py cfg a specs loop_start left st _ resp) [] _
    rw [respond_answered _ _ _ _ _ _ _ _ _ hresp]
    exact .done _
  | @turn left st now resp calls rest out r hb hresp hcalls _ ih =>
    rw [loop_succ]
    refine (path_ask _ _ _ _).mpr ⟨now, _, rfl, ?_⟩
    rw [hb, if_pos rfl]
    refine (path_ask _ _ _ _).mpr ⟨.ok resp, heard (calls ++ rest), rfl, ?_⟩
    show Path (respond py cfg a specs loop_start left st _ resp) _ r
    rw [respond_turn _ _ _ _ _ _ _ _ _ hresp, heard_append]
    exact (calls_trace_path py cfg a _ _ _ _ hcalls).bind_ok ih

/-- Every trace is a path, so traces and paths are the same runs. -/
theorem run_trace_path (py : Runtime) (cfg : LoopConfig) (a : RunArgs) (d : Dialogue)
    (r : Except Exn (Str × List Message)) (h : RunTrace py cfg a d r) :
    Path (run_agentic_loop py cfg a) (heard d) r := by
  obtain ⟨loop_start, listing, specs, body, rfl, hlist, hloop⟩ := h.split
  rw [run_agentic_loop_eq]
  refine (path_ask _ _ _ _).mpr ⟨loop_start, heard listing ++ heard body, by simp, ?_⟩
  exact (list_trace_path _ _ _ hlist).bind_ok (loop_trace_path _ _ _ _ _ _ _ _ _ hloop)

end AigentSquad.Traces
