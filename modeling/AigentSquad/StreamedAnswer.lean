import AigentSquad.Budgets

/-!
# The streamed answer

The final chunks of the streaming loop against the text the silent loop returns.
Tool calls and thinking stream no final chunk, so the streamed answer is that of
the last response, unless the stream stops before it.
-/

set_option autoImplicit false

namespace AigentSquad.StreamedAnswer
open AigentSquad.PyText AigentSquad.PyJson AigentSquad.Truncation AigentSquad.Interaction
open AigentSquad.Effects AigentSquad.AgenticLoop AigentSquad.AgenticLoopStreaming
open AigentSquad.Traces AigentSquad.LoopAgreement AigentSquad.Budgets

def final_chunk : StepEvent → Str
  | .StepFinalChunk text => text
  | _ => []

/-- The final chunks of a run, concatenated. -/
def streamed (tr : List Ev) : Str := (emits tr).flatMap final_chunk

@[simp] theorem streamed_nil : streamed [] = [] := rfl

@[simp] theorem streamed_asked (e : Ask) (answer : Answer e) (tr : List Ev) :
    streamed (.asked e answer :: tr) = streamed tr := rfl

@[simp] theorem streamed_emitted (e : StepEvent) (tr : List Ev) :
    streamed (.emitted e :: tr) = final_chunk e ++ streamed tr := by
  simp [streamed, emits]

@[simp] theorem streamed_append (s t : List Ev) : streamed (s ++ t) = streamed s ++ streamed t := by
  simp [streamed]

@[simp] theorem streamed_heard (d : Dialogue) : streamed (heard d) = [] := by
  simp [streamed]

theorem chunksFrom_flatten (size n : Nat) (s : Str) (hsize : 0 < size) (hn : s.length ≤ n) :
    (chunksFrom size n s).flatten = s := by
  induction n generalizing s with
  | zero =>
    have hnil : s = [] := List.length_eq_zero_iff.mp (by omega)
    rw [hnil]
    rfl
  | succ n ih =>
    cases s with
    | nil => rfl
    | cons c s =>
      have hlen : ((c :: s).drop size).length ≤ n := by
        simp only [List.length_drop, List.length_cons] at hn ⊢
        omega
      rw [chunksFrom, if_neg (by simp), List.flatten_cons, ih _ hlen, List.take_append_drop]

/-- Slicing into chunks loses nothing. -/
theorem chunks_flatten (size : Nat) (s : Str) (hsize : 0 < size) : (chunks size s).flatten = s :=
  chunksFrom_flatten size s.length s hsize (by omega)

theorem yieldAll_path (es : List StepEvent) :
    Path (yieldAll es) (es.map Event.emitted) (.ok ()) := by
  induction es with
  | nil => exact .done _
  | cons e es ih => exact .emit ih

@[simp] theorem asks_emitted (es : List StepEvent) :
    asks (es.map Event.emitted : List Ev) = [] := by
  induction es with
  | nil => rfl
  | cons e es ih => simpa [asks] using ih

theorem streamed_map (es : List StepEvent) :
    streamed (es.map Event.emitted) = es.flatMap final_chunk := by
  induction es with
  | nil => rfl
  | cons e es ih => simp [ih]

theorem thinking_streams_nothing (resp : Response) : (thinking resp).flatMap final_chunk = [] := by
  have hreasoning : ∀ e ∈ resp.content.filterMap thinking_block, final_chunk e = [] := by
    intro e he
    obtain ⟨block, _, hblock⟩ := List.mem_filterMap.mp he
    cases block with
    | reasoning t =>
      by_cases ht : t.isEmpty = true
      · simp [thinking_block, ht] at hblock
      · simp only [thinking_block, ht, Bool.false_eq_true, if_false, Option.some.injEq] at hblock
        rw [← hblock]
        rfl
    | _ => cases hblock
  rw [thinking, List.flatMap_append, List.flatMap_eq_nil_iff.mpr hreasoning, List.nil_append]
  by_cases hstop : resp.stop_reason = "tool_use".toList
  · rw [if_pos hstop]
    simp [List.flatMap_eq_nil_iff, final_chunk]
  · rw [if_neg hstop]
    rfl

/-- What the events of an answer stream, chunked or not, is its text. -/
theorem answer_events_streamed (resp : Response) :
    (answer_events resp).flatMap final_chunk = join "\n".toList (texts resp.content) := by
  rw [answer_events]
  by_cases hstop : resp.stop_reason ≠ "tool_use".toList
  · rw [if_pos hstop, final_events, List.flatMap_append, List.flatMap_map]
    simp only [stop, final_chunk, List.flatMap_cons, List.flatMap_nil, List.append_nil,
      List.flatMap_id']
    exact chunks_flatten 200 _ (by omega)
  · rw [if_neg hstop, no_tool_events]
    cases hempty : (join "\n".toList (texts resp.content)).isEmpty with
    | true =>
      rw [List.isEmpty_iff.mp hempty]
      rfl
    | false => simp [stop, final_chunk]

/-- What `_sanitize_args_for_display` accepts: nothing, or an object. -/
def displayable (args : Json) : Bool := !args.truthy || args.isObject

theorem sanitize_displayable (py : Runtime) (args : Json) (h : displayable args = true) :
    ∃ shown, sanitize_args_for_display py args = .ok shown := by
  unfold sanitize_args_for_display
  by_cases ht : args.truthy = true
  · rw [if_neg (by simp [ht])]
    cases args with
    | obj pairs => exact ⟨_, rfl⟩
    | _ => simp [displayable, ht, Json.isObject] at h
  · rw [if_pos (by simp [ht])]
    exact ⟨[], rfl⟩

theorem sanitize_undisplayable (py : Runtime) (args : Json) (h : displayable args = false) :
    sanitize_args_for_display py args = .error .AttributeError := by
  unfold sanitize_args_for_display
  have ht : args.truthy = true := by
    cases ht : args.truthy with
    | true => rfl
    | false => simp [displayable, ht] at h
  rw [if_neg (by simp [ht])]
  cases args with
  | obj pairs => simp [displayable, Json.isObject] at h
  | _ => rfl

theorem pool_streams_nothing (adapters : List McpAdapter) (adapter_name tool_name raw : Str)
    (args : Json) (d : Dialogue) (h : PoolTrace adapters adapter_name tool_name args d raw) :
    ∃ tr, Path (pool_call_tool adapters adapter_name tool_name args) tr (.ok raw) ∧
      asks tr = d ∧ streamed tr = [] :=
  ⟨heard d, pool_trace_path _ _ _ _ _ _ h, asks_heard d, streamed_heard d⟩

/-- The streamed tool use asks what the silent one asks. -/
theorem call_streams_nothing (py : Runtime) (cfg : LoopConfig) (a : RunArgs) (routes : Routes)
    (u : ToolUse) (d : Dialogue) (out : ToolResult × List Str)
    (h : CallTrace py cfg a routes u d out) (hu : displayable u.input = true) :
    ∃ tr, Path (tool_call_streaming py cfg a routes u) tr (.ok out) ∧ asks tr = d ∧
      streamed tr = [] := by
  obtain ⟨shown, hshown⟩ := sanitize_displayable py u.input hu
  rw [tool_call_streaming_ok py cfg a routes u shown hshown]
  cases h with
  | @blocked v h =>
    refine ⟨_, .emit ((path_ask _ _ _ _).mpr
      ⟨v, [.emitted (.StepToolResult u.name "🚫 blocked by guardrail".toList)], rfl, ?_⟩), rfl, rfl⟩
    rw [if_neg h]
    exact .emit (.done _)
  | not_found h =>
    refine ⟨_, .emit ((path_ask _ _ _ _).mpr
      ⟨.accepted, [.emitted (.StepToolResult u.name "❌ tool not found".toList)], rfl, ?_⟩), rfl, rfl⟩
    rw [if_pos rfl, h]
    exact .emit (.done _)
  | @routed adapter_name raw pool h hpool v =>
    obtain ⟨tr, hpath, hasks, hstreamed⟩ := pool_streams_nothing _ _ _ _ _ _ hpool
    refine ⟨_, .emit ((path_ask _ _ _ _).mpr
      ⟨.accepted, tr ++ [.asked (.guardrail_apply raw .OUTPUT a.ids) v,
        .emitted (.StepToolResult u.name (summarize_tool_result py (redacted raw v)))],
        rfl, ?_⟩), ?_, ?_⟩
    · rw [if_pos rfl, h]
      exact hpath.bind_ok ((path_ask _ _ _ _).mpr ⟨v, _, rfl, .emit (.done _)⟩)
    · simp [asks, hasks]
    · simp [final_chunk, hstreamed]

/-- Tool uses that can all be displayed are streamed as executed; at the first
one that cannot, the stream raises. Neither streams a final chunk. -/
theorem calls_stream_nothing (py : Runtime) (cfg : LoopConfig) (a : RunArgs) (routes : Routes)
    (us : List ToolUse) (d : Dialogue) (out : List ToolResult × List Str)
    (h : CallsTrace py cfg a routes us d out) :
    ((∀ u ∈ us, displayable u.input = true) ∧
      ∃ tr, Path (tool_calls_streaming py cfg a routes us) tr (.ok out) ∧ asks tr = d ∧
        streamed tr = []) ∨
    (¬ (∀ u ∈ us, displayable u.input = true) ∧
      ∃ tr suf e, Path (tool_calls_streaming py cfg a routes us) tr (.error e) ∧
        d = asks tr ++ suf ∧ streamed tr = []) := by
  induction h with
  | nil => exact .inl ⟨by simp, [], .done _, rfl, rfl⟩
  | @cons u us d ds out outs head _ ih =>
    rw [tool_calls_streaming_cons]
    cases hu : displayable u.input with
    | false =>
      refine .inr ⟨by simp [hu], [], d ++ ds, .AttributeError, ?_, rfl, rfl⟩
      rw [tool_call_streaming_error py cfg a routes u _ (sanitize_undisplayable py _ hu)]
      exact .done _
    | true =>
      obtain ⟨tr, hpath, rfl, hstreamed⟩ := call_streams_nothing py cfg a routes u d out head hu
      rcases ih with ⟨hus, tr', hpath', rfl, hstreamed'⟩ | ⟨hus, tr', suf, e, hpath', rfl, hstreamed'⟩
      · refine .inl ⟨by simpa [hu] using hus, tr ++ tr', ?_, by simp, by simp [hstreamed, hstreamed']⟩
        exact hpath.bind_ok (hpath'.map_ok (fun rest => (out.1 :: rest.1, out.2 ++ rest.2)))
      · refine .inr ⟨by simpa [hu] using hus, tr ++ tr', suf, e, ?_, by simp,
          by simp [hstreamed, hstreamed']⟩
        exact hpath.bind_ok ((path_bind _ _ _ _).mpr (.inl ⟨e, hpath', rfl⟩))

/-- The response of the last model call, when the run ended with it. -/
def last_answer (tr : List Ev) : Option Response :=
  match (asks tr).getLast? with
  | some ⟨.converse _, .ok resp⟩ => some resp
  | _ => none

/-- Every tool input the run was asked to use can be displayed. -/
def Displayed (d : Dialogue) : Prop :=
  ∀ call resp, (⟨.converse call, .ok resp⟩ : Sigma Answer) ∈ d → requests_tools resp →
    ∀ u ∈ tool_use_blocks resp.content, displayable u.input = true

theorem talk_displayed (d : Dialogue) (h : ToolTalk d) : Displayed d := by
  intro call resp hmem
  rcases h _ hmem with ht | ht <;> simp [topic] at ht

theorem displayed_append (c d : Dialogue) : Displayed (c ++ d) ↔ Displayed c ∧ Displayed d := by
  constructor
  · intro h
    exact ⟨fun call resp hmem => h call resp (by simp [hmem]),
      fun call resp hmem => h call resp (by simp [hmem])⟩
  · rintro ⟨hc, hd⟩ call resp hmem
    rw [List.mem_append] at hmem
    exact hmem.elim (hc call resp) (hd call resp)

theorem displayed_round (now : ℚ) (call : ConverseCall) (resp : Response) (d : Dialogue) :
    Displayed (⟨.time, now⟩ :: ⟨.converse call, .ok resp⟩ :: d) ↔
      (requests_tools resp → ∀ u ∈ tool_use_blocks resp.content, displayable u.input = true) ∧
        Displayed d := by
  constructor
  · intro h
    exact ⟨h call resp (by simp), fun call' resp' hmem => h call' resp' (by simp [hmem])⟩
  · rintro ⟨hresp, hd⟩ call' resp' hmem
    simp only [List.mem_cons] at hmem
    rcases hmem with hmem | hmem | hmem
    · cases hmem
    · cases hmem
      exact hresp
    · exact hd call' resp' hmem

/-- What the stream shows of one answered round, before it acts on the response. -/
def round_events (now : ℚ) (call : ConverseCall) (resp : Response) : List Ev :=
  .asked .time now :: .asked (.converse call) (.ok resp) :: (thinking resp).map .emitted

theorem round_path (py : Runtime) (cfg : LoopConfig) (a : RunArgs) (specs : List (ToolSpec × Str))
    (loop_start now : ℚ) (left : Nat) (st : LoopState) (resp : Response) (tr : List Ev)
    (r : Except Exn Unit) (hb : budget_left cfg st (elapsed_ms loop_start now) = true)
    (h : Path (respond_streaming py cfg false a specs loop_start left st
      (trimmed py cfg st.messages) resp) tr r) :
    Path (loop_streaming py cfg false a specs loop_start (left + 1) st)
      (round_events now (converse_call a (tool_config_of specs) (trimmed py cfg st.messages)) resp
        ++ tr) r := by
  rw [loop_streaming_succ]
  refine (path_ask _ _ _ _).mpr ⟨now, _, rfl, ?_⟩
  rw [hb, if_pos rfl, if_neg (by simp)]
  refine (path_ask _ _ _ _).mpr ⟨.ok resp, _, rfl, ?_⟩
  exact (yieldAll_path _).bind_ok h

@[simp] theorem round_asks (now : ℚ) (call : ConverseCall) (resp : Response) :
    asks (round_events now call resp) = [⟨.time, now⟩, ⟨.converse call, .ok resp⟩] := by
  simp [round_events, asks]

@[simp] theorem round_streamed (now : ℚ) (call : ConverseCall) (resp : Response) :
    streamed (round_events now call resp) = [] := by
  simp [round_events, streamed_map, thinking_streams_nothing]

theorem loop_trace_nonempty (py : Runtime) (cfg : LoopConfig) (a : RunArgs)
    (specs : List (ToolSpec × Str)) (loop_start : ℚ) (left : Nat) (st : LoopState) (d : Dialogue)
    (r : Except Exn (Str × List Message)) (h : LoopTrace py cfg a specs loop_start left st d r) :
    d ≠ [] := by
  cases h <;> simp

/-- A loop that ends with a response returns its text. The stream of the same
dialogue ends with the text of that response, or raises at a tool input it
cannot display, with no final chunk streamed so far. -/
theorem loop_streamed (py : Runtime) (cfg : LoopConfig) (a : RunArgs)
    (specs : List (ToolSpec × Str)) (loop_start : ℚ) (left : Nat) (st : LoopState) (d : Dialogue)
    (r : Except Exn (Str × List Message)) (call : ConverseCall) (resp : Response)
    (h : LoopTrace py cfg a specs loop_start left st d r)
    (hlast : d.getLast? = some ⟨.converse call, .ok resp⟩) :
    (¬ requests_tools resp ∧ ∃ ms, r = .ok (answer_text resp, ms)) ∧
    ((Displayed d ∧ ∃ tr, Path (loop_streaming py cfg false a specs loop_start left st) tr (.ok ()) ∧
        asks tr = d ∧ streamed tr = join "
".toList (texts resp.content)) ∨
      (¬ Displayed d ∧ ∃ tr suf e,
        Path (loop_streaming py cfg false a specs loop_start left st) tr (.error e) ∧
        d = asks tr ++ suf ∧ streamed tr = [])) := by
  induction h with
  | exhausted _ _ => simp at hlast
  | failed _ => simp at hlast
  | @answered left st now resp' hb hresp =>
    simp only [List.getLast?_cons_cons, List.getLast?_singleton, Option.some.injEq] at hlast
    cases hlast
    refine ⟨⟨hresp, _, rfl⟩, .inl ⟨?_, _, round_path py cfg a specs loop_start now left st resp
      ((answer_events resp).map Event.emitted) (.ok ()) hb ?_, ?_, ?_⟩⟩
    · exact (displayed_round _ _ _ _).mpr ⟨fun hreq => absurd hreq hresp, by simp [Displayed]⟩
    · rw [respond_streaming_answered _ _ _ _ _ _ _ _ _ _ hresp]
      exact yieldAll_path _
    · simp
    · rw [streamed_append, round_streamed, streamed_map, answer_events_streamed, List.nil_append]
  | @turn left st now resp' calls rest out r hb hresp hcalls hrest ih =>
    have hne := loop_trace_nonempty py cfg a specs loop_start left _ rest r hrest
    rw [List.getLast?_append_of_ne_nil _ hne] at hlast
    obtain ⟨hend, hstream⟩ := ih hlast
    refine ⟨hend, ?_⟩
    have htalk := calls_trace_talk py cfg a _ _ _ _ hcalls
    rcases calls_stream_nothing py cfg a _ _ _ _ hcalls with
      ⟨hus, tr, hpath, rfl, hnone⟩ | ⟨hus, tr, suf, e, hpath, rfl, hnone⟩
    · rcases hstream with ⟨hshown, tr', hpath', rfl, htext⟩ | ⟨hshown, tr', suf, e, hpath', rfl, hnone'⟩
      · refine .inl ⟨?_, _, round_path py cfg a specs loop_start now left st resp' (tr ++ tr') (.ok ())
          hb ?_, by simp, by simp [hnone, htext]⟩
        · exact (displayed_round _ _ _ _).mpr ⟨fun _ => hus,
            (displayed_append _ _).mpr ⟨talk_displayed _ htalk, hshown⟩⟩
        · rw [respond_streaming_turn _ _ _ _ _ _ _ _ _ _ hresp]
          exact hpath.bind_ok hpath'
      · refine .inr ⟨?_, _, suf, e, round_path py cfg a specs loop_start now left st resp' (tr ++ tr')
          (.error e) hb ?_, by simp, by simp [hnone, hnone']⟩
        · intro hall
          exact hshown ((displayed_append _ _).mp ((displayed_round _ _ _ _).mp hall).2).2
        · rw [respond_streaming_turn _ _ _ _ _ _ _ _ _ _ hresp]
          exact hpath.bind_ok hpath'
    · refine .inr ⟨?_, _, suf ++ rest, e, round_path py cfg a specs loop_start now left st resp' tr
        (.error e) hb ?_, by simp, by simp [hnone]⟩
      · intro hall
        exact hus (((displayed_round _ _ _ _).mp hall).1 hresp)
      · rw [respond_streaming_turn _ _ _ _ _ _ _ _ _ _ hresp]
        exact (path_bind _ _ _ _).mpr (.inl ⟨e, hpath, rfl⟩)

/-- The response says `tool_use`, but holds no tool use and no text. -/
def Mute (resp : Response) : Prop :=
  resp.stop_reason = "tool_use".toList ∧ tool_use_blocks resp.content = [] ∧
    texts resp.content = []

/-- The response is final and holds no text. -/
def Blank (resp : Response) : Prop :=
  resp.stop_reason ≠ "tool_use".toList ∧ texts resp.content = []

theorem join_texts_eq_nil (content : List ContentBlock) :
    join "
".toList (texts content) = [] ↔ texts content = [] := by
  constructor
  · intro h
    cases ht : texts content with
    | nil => rfl
    | cons t ts =>
      have hmem : t ∈ texts content := by simp [ht]
      obtain ⟨block, _, hblock⟩ := List.mem_filterMap.mp hmem
      have hne : t ≠ [] := by
        cases block with
        | text s =>
          rintro rfl
          cases s <;> simp [ContentBlock.nonEmptyText] at hblock
        | _ => cases hblock
      cases ts <;> simp_all [join]
  · intro h
    rw [h]
    rfl

theorem answer_text_eq_join (resp : Response) (h : ¬ requests_tools resp) :
    join "\n".toList (texts resp.content) = answer_text resp ↔ ¬ Mute resp := by
  by_cases hstop : resp.stop_reason ≠ "tool_use".toList
  · rw [answer_text, if_pos hstop]
    exact ⟨fun _ hmute => hstop hmute.1, fun _ => rfl⟩
  · have hnone : tool_use_blocks resp.content = [] :=
      by_contra (fun hne => h ⟨not_not.mp hstop, hne⟩)
    rw [answer_text, if_neg hstop]
    by_cases ht : texts resp.content = []
    · rw [ht]
      constructor
      · intro heq
        exact absurd heq (by decide)
      · intro hmute
        exact absurd ⟨not_not.mp hstop, hnone, ht⟩ hmute
    · have hjoin : (join "\n".toList (texts resp.content)).isEmpty = false := by
        rw [Bool.eq_false_iff, ne_eq, List.isEmpty_iff, join_texts_eq_nil]
        exact ht
      simp only [hjoin, Bool.false_eq_true, if_false, true_iff]
      exact fun hmute => ht hmute.2.2

theorem answer_text_eq_nil (resp : Response) : answer_text resp = [] ↔ Blank resp := by
  by_cases hstop : resp.stop_reason ≠ "tool_use".toList
  · rw [answer_text, if_pos hstop, join_texts_eq_nil]
    exact ⟨fun h => ⟨hstop, h⟩, fun h => h.2⟩
  · rw [answer_text, if_neg hstop]
    constructor
    · intro h
      by_cases hjoin : (join "\n".toList (texts resp.content)).isEmpty = true
      · simp only [hjoin, if_true] at h
        exact absurd h (by decide)
      · simp only [hjoin, Bool.false_eq_true, if_false] at h
        exact absurd (List.isEmpty_iff.mpr h) hjoin
    · exact fun h => absurd h.1 hstop

/-- With extended thinking on, the stream raises before its first model call. -/
theorem loop_thinking (py : Runtime) (cfg : LoopConfig) (a : RunArgs)
    (specs : List (ToolSpec × Str)) (loop_start : ℚ) (left : Nat) (st : LoopState) (d : Dialogue)
    (r : Except Exn (Str × List Message)) (call : ConverseCall) (resp : Response)
    (h : LoopTrace py cfg a specs loop_start left st d r)
    (hlast : d.getLast? = some ⟨.converse call, .ok resp⟩) :
    ∃ tr suf e, Path (loop_streaming py cfg true a specs loop_start left st) tr (.error e) ∧
      d = asks tr ++ suf ∧ streamed tr = [] := by
  have raised : ∀ left st now suf, budget_left cfg st (elapsed_ms loop_start now) = true →
      ∃ tr suf' e, Path (loop_streaming py cfg true a specs loop_start (left + 1) st) tr
        (.error e) ∧ (⟨.time, now⟩ :: suf : Dialogue) = asks tr ++ suf' ∧ streamed tr = [] := by
    intro left st now suf hb
    refine ⟨[.asked .time now], suf, .TypeError, ?_, rfl, rfl⟩
    rw [loop_streaming_succ]
    refine (path_ask _ _ _ _).mpr ⟨now, [], rfl, ?_⟩
    rw [hb, if_pos rfl, if_pos rfl]
    exact .done _
  cases h with
  | exhausted _ _ => simp at hlast
  | failed _ => simp at hlast
  | answered hb _ => exact raised _ _ _ _ hb
  | turn hb _ _ _ => exact raised _ _ _ _ hb

theorem last_answer_eq (tr : List Ev) (resp : Response) (h : last_answer tr = some resp) :
    ∃ call, (asks tr).getLast? = some ⟨.converse call, .ok resp⟩ := by
  unfold last_answer at h
  split at h
  · cases h
    exact ⟨_, by assumption⟩
  · cases h

/-- What the stream of an environment's run is, from what the loop of its silent
run allows. -/
theorem streamed_run (py : Runtime) (cfg : LoopConfig) (thinks : Bool) (a : RunArgs)
    (env : Env Ask Answer) (loop_start : ℚ) (specs : List (ToolSpec × Str))
    (listing body suf : Dialogue) (tr : List Ev) (r : Except Exn Unit)
    (hrun : asks (run env [] (run_agentic_loop py cfg a)).1 =
      ⟨.time, loop_start⟩ :: listing ++ body)
    (hlist : ListTrace a.mcp_adapters listing specs)
    (hpath : Path (loop_streaming py cfg thinks a specs loop_start cfg.MAX_TOOL_STEPS.toNat
      (initial_state a)) tr r) (hbody : body = asks tr ++ suf) :
    streamed (run env [] (run_agentic_loop_streaming py cfg thinks a)).1 = streamed tr := by
  have hstream : Path (run_agentic_loop_streaming py cfg thinks a)
      (.asked .time loop_start :: (heard listing ++ tr)) r := by
    rw [run_agentic_loop_streaming_eq]
    refine (path_ask _ _ _ _).mpr ⟨loop_start, _, rfl, ?_⟩
    exact (list_trace_path _ _ _ hlist).bind_ok hpath
  have hfollows : Follows env []
      (asks (.asked .time loop_start :: (heard listing ++ tr) : List Ev)) := by
    have hall := run_follows env [] (run_agentic_loop py cfg a)
    rw [hrun, hbody, ← List.append_assoc] at hall
    simpa [asks] using hall.of_append
  rw [hstream.run_eq hfollows]
  simp

/-- The model says `tool_use` and sends nothing. -/
def muteModel : Env Ask Answer := fun _ e =>
  match e with
  | .converse _ => .ok ⟨"tool_use".toList, [], ⟨10, 0⟩⟩
  | e => calm e

def returned_text : Except Exn (Str × List Message) → Str
  | .ok out => out.1
  | .error _ => []

end AigentSquad.StreamedAnswer
