import AigentSquad.Supervisor
import AigentSquad.StreamedAnswer
import AigentSquad.Delimiter

/-!
# The SSE stream of the agentic loop

`sse_stream_agentic` over the events of a run and the way the run ended. Trace
events are rendered between two markers, the answer follows. A run that ends
without `StepDone` is closed; one that ends with an exception passes it on.
-/

set_option autoImplicit false

namespace AigentSquad.SseStream
open AigentSquad.PyText AigentSquad.Truncation AigentSquad.Interaction AigentSquad.Effects
open AigentSquad.AgenticLoop AigentSquad.AgenticLoopStreaming AigentSquad.LoopAgreement
open AigentSquad.Budgets AigentSquad.StreamedAnswer

/-! ## Frames -/

structure DeltaContent where
  role : Option Str := none
  content : Option Str := none
deriving DecidableEq

structure ChunkChoice where
  index : ℕ := 0
  delta : DeltaContent
  finish_reason : Option Str := none
deriving DecidableEq

structure ChatCompletionChunk where
  id : Str
  object : Str := "chat.completion.chunk".toList
  created : ℕ
  model : Str
  choices : List ChunkChoice
deriving DecidableEq

/-- `data: ` and the chunk, or the `[DONE]` sentinel. -/
inductive Frame where
  | data (chunk : ChatCompletionChunk)
  | DONE
deriving DecidableEq

/-- What all chunks of a stream share. -/
structure Completion where
  cid : Str
  created : ℕ
  model : Str

def chunk (c : Completion) (choice : ChunkChoice) : Frame :=
  .data { id := c.cid, created := c.created, model := c.model, choices := [choice] }

def prelude (c : Completion) : Frame :=
  chunk c { delta := { role := some "assistant".toList, content := some [] } }

def make_chunk (c : Completion) (content : Str) : Frame :=
  chunk c { delta := { content := some content } }

def finish (c : Completion) (finish_reason : Str) : Frame :=
  chunk c { delta := {}, finish_reason := some finish_reason }

/-- The content deltas of a frame. -/
def Frame.content : Frame → Str
  | .data chunk => chunk.choices.flatMap (fun choice => choice.delta.content.getD [])
  | .DONE => []

/-- The content deltas of a body, concatenated. -/
def content (frames : List Frame) : Str := frames.flatMap Frame.content

/-! ## The trace -/

def TRACE_OFF (style : Str) : Bool := style = "off".toList

def TRACE_OPEN (style : Str) : Str :=
  if style = "think".toList then "<think>\n🔧 Tool trace\n\n".toList
  else if style = "details".toList then
    "<details>\n<summary>🔧 Tool trace</summary>\n\n".toList
  else if style = "plain".toList then "🔧 Tool trace\n".toList
  else if style = "off".toList then []
  else "<think>\n🔧 Tool trace\n\n".toList

def TRACE_CLOSE (style : Str) : Str :=
  if style = "think".toList then "\n</think>\n\n".toList
  else if style = "details".toList then "\n</details>\n\n".toList
  else if style = "plain".toList then "\n\n".toList
  else if style = "off".toList then []
  else "\n</think>\n\n".toList

/-- `.0%` -/
def percent (q : ℚ) : Str := fixed 0 (q * 100) ++ "%".toList

/-- The line of a trace event; the other events have none. -/
def trace_line : StepEvent → Option Str
  | .StepRouting agent confidence _ sub_query =>
    let foco := if sub_query.isEmpty then [] else " — foco: \"".toList ++ sub_query ++ "\"".toList
    some ("🧭 Routed to **".toList ++ agent ++ "** (confidence ".toList ++ percent confidence ++
      ")".toList ++ foco ++ "\n".toList)
  | .StepThinking text => some ("💭 ".toList ++ text ++ "\n".toList)
  | .StepToolCall tool_name args_display =>
    some (if args_display.isEmpty then "🔧 ".toList ++ tool_name ++ "()\n".toList
      else "🔧 ".toList ++ tool_name ++ "(".toList ++ args_display ++ ")\n".toList)
  | .StepToolResult _ summary => some (summary ++ "\n".toList)
  | .StepFinalChunk _ => none
  | .StepDone _ => none

/-! ## The encoder -/

structure Details where
  opened : Bool
  closed : Bool

def Details.isOpen (d : Details) : Bool := d.opened && !d.closed

section Encoder
variable (c : Completion) (style : Str)

/-- The marker that opens the trace before its first line. -/
def opening (d : Details) : List Frame :=
  if d.opened then [] else [make_chunk c (TRACE_OPEN style)]

def closing (d : Details) : List Frame :=
  if d.isOpen then [make_chunk c (TRACE_CLOSE style)] else []

/-- The frames, and how the body ends. `ended` is the end of the generator that
the events come from. -/
def encode (ended : Except Exn Unit) : Details → List StepEvent → List Frame × Except Exn Unit
  | d, [] =>
    match ended with
    | .ok _ => (closing c style d ++ [finish c "stop".toList, .DONE], .ok ())
    | .error exc => ([], .error exc)
  | d, event :: events =>
    match event with
    | .StepFinalChunk text =>
      let out := encode ended { d with closed := d.closed || d.isOpen } events
      (closing c style d ++ make_chunk c text :: out.1, out.2)
    | .StepDone finish_reason =>
      (closing c style d ++ [finish c finish_reason, .DONE], .ok ())
    | event =>
      if TRACE_OFF style then encode ended d events
      else
        let out := encode ended { d with opened := true } events
        (opening c style d ++ make_chunk c ((trace_line event).getD []) :: out.1, out.2)

def sse_stream_agentic (events : List StepEvent) (ended : Except Exn Unit) :
    List Frame × Except Exn Unit :=
  let out := encode c style ended ⟨false, false⟩ events
  (prelude c :: out.1, out.2)

end Encoder

/-! ## What a run streams -/

/-- A trace event, one with a line. -/
def Traced (event : StepEvent) : Prop := (trace_line event).isSome

def finish_reason : StepEvent → Option Str
  | .StepDone reason => some reason
  | _ => none

def answered (answer : List Str) (reason : Str) : List StepEvent :=
  answer.map .StepFinalChunk ++ [.StepDone reason]

/-- Trace events first; a run that returns goes on with its answer and one
`StepDone`, one that raises stops there. -/
inductive Ordered : List StepEvent → Except Exn Unit → Prop
  | finished (trace : List StepEvent) (answer : List Str) (reason : Str)
      (h : ∀ event ∈ trace, Traced event) :
      Ordered (trace ++ answered answer reason) (.ok ())
  | failed (trace : List StepEvent) (exc : Exn) (h : ∀ event ∈ trace, Traced event) :
      Ordered trace (.error exc)

theorem Ordered.of_ok {events : List StepEvent} (h : Ordered events (.ok ())) :
    ∃ trace answer reason, (∀ event ∈ trace, Traced event) ∧
      events = trace ++ answered answer reason := by
  cases h with
  | finished trace answer reason htrace => exact ⟨trace, answer, reason, htrace, rfl⟩

theorem Ordered.of_error {events : List StepEvent} {exc : Exn} (h : Ordered events (.error exc)) :
    ∀ event ∈ events, Traced event := by
  cases h with
  | failed _ _ htrace => exact htrace

theorem ordered_append {front events : List StepEvent} {r : Except Exn Unit}
    (hfront : ∀ event ∈ front, Traced event) (h : Ordered events r) :
    Ordered (front ++ events) r := by
  cases h with
  | finished trace answer reason htrace =>
    rw [← List.append_assoc]
    apply Ordered.finished
    intro event hevent
    exact (List.mem_append.mp hevent).elim (hfront event) (htrace event)
  | failed _ exc htrace =>
    apply Ordered.failed
    intro event hevent
    exact (List.mem_append.mp hevent).elim (hfront event) (htrace event)

/-- All events of every run are trace events. -/
def Traces {α : Type} : M α → Prop
  | .done _ => True
  | .ask _ k => ∀ answer, Traces (k answer)
  | .emit event p => Traced event ∧ Traces p

theorem traces_bind {α β : Type} (p : M α) (f : α → M β) (hp : Traces p)
    (hf : ∀ x, Traces (f x)) : Traces (p.bind f) := by
  induction p with
  | done r =>
    cases r with
    | ok x => exact hf x
    | error e => trivial
  | ask e k ih => exact fun answer => ih answer (hp answer)
  | emit event p ih => exact ⟨hp.1, ih hp.2⟩

theorem traces_path {α : Type} {p : M α} (hp : Traces p) {tr : List Ev} {r : Except Exn α}
    (h : Path p tr r) : ∀ event ∈ emits tr, Traced event := by
  induction h with
  | done r => exact fun _ hevent => absurd hevent List.not_mem_nil
  | ask answer _ ih => exact ih (hp answer)
  | emit _ ih =>
    intro event hevent
    rcases List.mem_cons.mp hevent with rfl | hrest
    · exact hp.1
    · exact ih hp.2 event hrest

theorem traces_of_silent {α : Type} (p : M α) (hp : Silent p) : Traces p := by
  induction p with
  | done r => trivial
  | ask e k ih => exact fun answer => ih answer (hp answer)
  | emit event p _ => exact hp.elim

theorem yieldAll_traces (events : List StepEvent) (h : ∀ event ∈ events, Traced event) :
    Traces (yieldAll events) := by
  induction events with
  | nil => trivial
  | cons event events ih =>
    exact ⟨h event List.mem_cons_self, ih (fun e he => h e (List.mem_cons_of_mem event he))⟩

/-- Every run of the program streams in that order. -/
def Orderly : M Unit → Prop
  | p => ∀ tr r, Path p tr r → Ordered (emits tr) r

theorem orderly_bind {α : Type} (p : M α) (f : α → M Unit) (hp : Traces p)
    (hf : ∀ x, Orderly (f x)) : Orderly (p.bind f) := by
  intro tr r h
  rcases (path_bind p f tr r).mp h with ⟨exc, hpath, rfl⟩ | ⟨x, s, t, rfl, hs, ht⟩
  · exact .failed _ exc (traces_path hp hpath)
  · rw [emits_append]
    exact ordered_append (traces_path hp hs) (hf x t r ht)

theorem orderly_ask (e : Ask) (k : Answer e → M Unit) (hk : ∀ answer, Orderly (k answer)) :
    Orderly (.ask e k) := by
  intro tr r h
  obtain ⟨answer, rest, rfl, hrest⟩ := (path_ask e k tr r).mp h
  exact hk answer rest r hrest

theorem orderly_emit (event : StepEvent) (p : M Unit) (hevent : Traced event) (hp : Orderly p) :
    Orderly (.emit event p) := by
  intro tr r h
  obtain ⟨rest, rfl, hrest⟩ := (path_emit event p tr r).mp h
  have hfront : ∀ e ∈ [event], Traced e := fun e he => List.mem_singleton.mp he ▸ hevent
  exact ordered_append hfront (hp rest r hrest)

theorem orderly_error (exc : Exn) : Orderly (.done (.error exc)) := by
  intro tr r h
  obtain ⟨rfl, rfl⟩ := (path_done _ tr r).mp h
  exact .failed [] exc (fun _ hevent => absurd hevent List.not_mem_nil)

theorem yieldAll_only (events : List StepEvent) (tr : List Ev) (r : Except Exn Unit)
    (h : Path (yieldAll events) tr r) : emits tr = events ∧ r = .ok () := by
  induction events generalizing tr with
  | nil =>
    obtain ⟨rfl, rfl⟩ := (path_done _ tr r).mp h
    exact ⟨rfl, rfl⟩
  | cons event events ih =>
    obtain ⟨rest, rfl, hrest⟩ := (path_emit _ _ tr r).mp h
    obtain ⟨hemits, hr⟩ := ih rest hrest
    exact ⟨by rw [emits, hemits], hr⟩

theorem orderly_answer (answer : List Str) (reason : Str) :
    Orderly (yieldAll (answered answer reason)) := by
  intro tr r h
  obtain ⟨hemits, rfl⟩ := yieldAll_only _ tr r h
  rw [hemits]
  exact .finished [] answer reason (fun _ hevent => absurd hevent List.not_mem_nil)

/-! ## The loop streams in that order -/

theorem thinking_traced (resp : Response) : ∀ event ∈ thinking resp, Traced event := by
  intro event hevent
  rcases List.mem_append.mp hevent with hreasoning | htext
  · obtain ⟨block, -, hblock⟩ := List.mem_filterMap.mp hreasoning
    cases block with
    | reasoning t =>
      simp only [thinking_block] at hblock
      split at hblock
      · cases hblock
      · cases hblock
        rfl
    | _ => cases hblock
  · split at htext
    · obtain ⟨t, -, rfl⟩ := List.mem_map.mp htext
      rfl
    · cases htext

section Loop
variable (py : Runtime) (cfg : LoopConfig) (a : RunArgs)

theorem tool_call_traces (routes : Routes) (u : ToolUse) :
    Traces (tool_call_streaming py cfg a routes u) := by
  cases h : sanitize_args_for_display py u.input with
  | error exc =>
    rw [tool_call_streaming_error py cfg a routes u exc h]
    trivial
  | ok args_display =>
    rw [tool_call_streaming_ok py cfg a routes u args_display h]
    constructor
    · rfl
    · intro verdict
      show Traces (if verdict = .accepted then _ else _)
      split
      · split
        · exact ⟨rfl, trivial⟩
        · apply traces_bind
          · exact traces_of_silent _ (pool_call_tool_silent _ _ _ _)
          · exact fun raw verdict => ⟨rfl, trivial⟩
      · exact ⟨rfl, trivial⟩

theorem tool_calls_traces (routes : Routes) (us : List ToolUse) :
    Traces (tool_calls_streaming py cfg a routes us) := by
  induction us with
  | nil => trivial
  | cons u us ih =>
    rw [tool_calls_streaming_cons]
    apply traces_bind
    · exact tool_call_traces py cfg a routes u
    · exact fun _ => traces_bind _ _ ih (fun _ => trivial)

theorem no_tool_orderly (resp : Response) : Orderly (yieldAll (no_tool_events resp)) := by
  unfold no_tool_events
  dsimp only
  split
  · exact orderly_answer [] "stop".toList
  · exact orderly_answer [_] "stop".toList

theorem loop_orderly (thinks : Bool) (specs : List (ToolSpec × Str)) (loop_start : ℚ)
    (left : ℕ) (st : LoopState) :
    Orderly (loop_streaming py cfg thinks a specs loop_start left st) := by
  induction left generalizing st with
  | zero =>
    rw [loop_streaming_zero]
    exact orderly_ask _ _ (fun _ => orderly_answer [_] "length".toList)
  | succ left ih =>
    rw [loop_streaming_succ]
    apply orderly_ask
    intro now
    split
    · split
      · exact orderly_error _
      · apply orderly_ask
        intro answer
        cases answer with
        | error exc => exact orderly_error exc
        | ok resp =>
          apply orderly_bind
          · exact yieldAll_traces _ (thinking_traced resp)
          · intro _
            unfold respond_streaming
            split
            · exact orderly_answer _ "stop".toList
            · split
              · exact no_tool_orderly resp
              · exact orderly_bind _ _ (tool_calls_traces py cfg a _ _) (fun out => ih _)
    · exact orderly_answer [_] "length".toList

theorem run_orderly (thinks : Bool) : Orderly (run_agentic_loop_streaming py cfg thinks a) := by
  rw [run_agentic_loop_streaming_eq]
  apply orderly_ask
  intro loop_start
  exact orderly_bind _ _ (traces_of_silent _ (list_specs_silent a.mcp_adapters))
    (fun specs => loop_orderly py cfg a thinks specs loop_start _ _)

end Loop

/-- The streams of the service: that of a forced agent, and that of the agent
the classifier chose, behind its routing step. -/
inductive StepStream (py : Runtime) : M Unit → Prop
  | forced (cfg : LoopConfig) (thinks : Bool) (a : RunArgs) :
      StepStream py (run_agentic_loop_streaming py cfg thinks a)
  | routed (m : AgentMatch) (classification : ClassifierResult) (cfg : LoopConfig) (thinks : Bool)
      (a : RunArgs) : StepStream py
        (.emit (Supervisor.routing m classification) (run_agentic_loop_streaming py cfg thinks a))

theorem stream_orderly (py : Runtime) (stream : M Unit) (h : StepStream py stream) :
    Orderly stream := by
  cases h with
  | forced cfg thinks a => exact run_orderly py cfg a thinks
  | routed m classification cfg thinks a => exact orderly_emit _ _ rfl (run_orderly py cfg a thinks)

theorem agent_stream (py : Runtime) (settings : GenericAgent.Settings) (ag : GenericAgent.Agent)
    (call : GenericAgent.AgentCall) (tr : List Ev) (stream : M Unit)
    (h : Path (GenericAgent.process_request_streaming py settings ag call) tr (.ok stream)) :
    ∃ cfg thinks a, stream = run_agentic_loop_streaming py cfg thinks a := by
  obtain ⟨input_text, _, _, rfl, _, h⟩ := Path.of_bind_ok h
  obtain ⟨contexts, _, _, rfl, _, h⟩ := Path.of_bind_ok h
  cases ((path_done _ _ _).mp h).2
  exact ⟨_, _, _, rfl⟩

section Offered
open AigentSquad.Supervisor
variable (py : Runtime) (sup : SupervisorAgent) (req : Request)

/-- Where a stream is offered, it is one of these. -/
def Offers (p : M (Option (M Unit))) : Prop :=
  ∀ tr stream, Path p tr (.ok (some stream)) → StepStream py stream

theorem offers_none : Offers py (pure none) := by
  intro tr stream h
  cases ((path_done _ _ _).mp h).2

theorem offers_bind {α : Type} (p : M α) (f : α → M (Option (M Unit)))
    (hf : ∀ x, Offers py (f x)) : Offers py (p.bind f) := by
  intro tr stream h
  obtain ⟨x, _, t, rfl, _, hrest⟩ := Path.of_bind_ok h
  exact hf x t stream hrest

theorem offers_agent (ag : GenericAgent.Agent) (agent_name user_input agent_input : Str)
    (model_id_override : Option Str) (wrap : M Unit → M Unit)
    (hwrap : ∀ cfg thinks a, StepStream py (wrap (run_agentic_loop_streaming py cfg thinks a))) :
    Offers py ((stream_agent py sup req ag agent_name user_input agent_input
      model_id_override).bind (fun step_gen => pure (some (wrap step_gen)))) := by
  intro tr stream h
  obtain ⟨step_gen, s, t, rfl, hagent, hdone⟩ := Path.of_bind_ok h
  obtain ⟨_, _, _, rfl, _, h₁⟩ := Path.of_bind_ok hagent
  obtain ⟨_, _, _, rfl, _, h₂⟩ := Path.of_bind_ok h₁
  obtain ⟨cfg, thinks, a, rfl⟩ := agent_stream py _ _ _ _ step_gen h₂
  cases ((path_done _ _ _).mp hdone).2
  exact hwrap cfg thinks a

theorem offers_forced (name user_input : Str) :
    Offers py (stream_forced py sup req name user_input) := by
  apply offers_bind
  intro ag
  split
  · exact offers_agent py sup req ag _ _ _ _ id .forced
  · exact offers_none py

theorem offers_classified (classification : ClassifierResult) (user_input : Str) :
    Offers py (stream_classified py sup req classification user_input) := by
  unfold stream_classified
  split
  · exact offers_none py
  · split
    · next m _ =>
      apply offers_bind
      intro ag
      split
      · exact offers_agent py sup req ag _ _ _ _ (.emit (routing m classification))
          (.routed m classification)
      · exact offers_none py
    · exact offers_none py

/-- Every stream of the service is one of these. -/
theorem offers_stream : Offers py (process_request_streaming py sup req) := by
  apply offers_bind
  intro budget
  cases budget with
  | ok _ =>
    apply offers_bind
    intro user_input
    split
    · exact offers_forced py sup req _ user_input
    · split
      · exact offers_none py
      · exact offers_bind py _ _ (fun c => offers_classified py sup req c user_input)
  | error exc =>
    cases exc with
    | TokenBudgetExceeded used limit => exact offers_none py
    | _ =>
      intro tr stream h
      cases ((path_done _ _ _).mp h).2

end Offered

/-! ## What the encoder does with it -/

section Encoded
variable (c : Completion) (style : Str) (ended : Except Exn Unit)

def lines (events : List StepEvent) : List Str := events.filterMap trace_line

theorem lines_cons (event : StepEvent) (events : List StepEvent) (line : Str)
    (h : trace_line event = some line) : lines (event :: events) = line :: lines events :=
  List.filterMap_cons_some h

theorem lines_answer (answer : List Str) (reason : Str) :
    lines (answered answer reason) = [] := by
  induction answer with
  | nil => exact List.filterMap_cons_none rfl
  | cons text answer ih => exact (List.filterMap_cons_none rfl).trans ih

theorem encode_off (hoff : TRACE_OFF style = true) (d : Details) (trace rest : List StepEvent)
    (h : ∀ event ∈ trace, Traced event) :
    encode c style ended d (trace ++ rest) = encode c style ended d rest := by
  induction trace with
  | nil => rfl
  | cons event trace ih =>
    rw [← ih (fun e he => h e (List.mem_cons_of_mem event he)), List.cons_append]
    have hevent := h event List.mem_cons_self
    cases event with
    | StepFinalChunk text => cases hevent
    | StepDone reason => cases hevent
    | _ => exact if_pos hoff

theorem encode_traced (hoff : TRACE_OFF style = false) (d : Details) (event : StepEvent)
    (rest : List StepEvent) (line : Str) (h : trace_line event = some line) :
    encode c style ended d (event :: rest) =
      (opening c style d ++ make_chunk c line ::
        (encode c style ended { d with opened := true } rest).1,
        (encode c style ended { d with opened := true } rest).2) := by
  have hon : ¬ TRACE_OFF style = true := by rw [hoff]; decide
  cases event with
  | StepFinalChunk text => cases h
  | StepDone reason => cases h
  | _ =>
    cases h
    exact if_neg hon

/-- Once the trace is open, its lines follow one another. -/
theorem encode_lines (hoff : TRACE_OFF style = false) (closed : Bool)
    (trace rest : List StepEvent) (h : ∀ event ∈ trace, Traced event) :
    encode c style ended ⟨true, closed⟩ (trace ++ rest) =
      ((lines trace).map (make_chunk c) ++ (encode c style ended ⟨true, closed⟩ rest).1,
        (encode c style ended ⟨true, closed⟩ rest).2) := by
  induction trace with
  | nil => rfl
  | cons event trace ih =>
    obtain ⟨line, hline⟩ := Option.isSome_iff_exists.mp (h event List.mem_cons_self)
    rw [List.cons_append, encode_traced c style ended hoff _ event _ line hline,
      ih (fun e he => h e (List.mem_cons_of_mem event he)), lines_cons event trace line hline]
    rfl

/-- A trace that is shown is opened before its first line. -/
theorem encode_trace (hoff : TRACE_OFF style = false) (trace rest : List StepEvent)
    (hne : trace ≠ []) (h : ∀ event ∈ trace, Traced event) :
    encode c style ended ⟨false, false⟩ (trace ++ rest) =
      ((TRACE_OPEN style :: lines trace).map (make_chunk c) ++
        (encode c style ended ⟨true, false⟩ rest).1,
        (encode c style ended ⟨true, false⟩ rest).2) := by
  cases trace with
  | nil => exact absurd rfl hne
  | cons event trace =>
    obtain ⟨line, hline⟩ := Option.isSome_iff_exists.mp (h event List.mem_cons_self)
    rw [List.cons_append, encode_traced c style ended hoff _ event _ line hline,
      encode_lines c style ended hoff _ _ _ (fun e he => h e (List.mem_cons_of_mem event he)),
      lines_cons event trace line hline]
    rfl

/-- The markers the answer closes the trace with. -/
def close_marker (d : Details) : List Str := if d.isOpen then [TRACE_CLOSE style] else []

theorem encode_answer (d : Details) (answer : List Str) (reason : Str) :
    encode c style ended d (answered answer reason) =
      ((close_marker style d ++ answer).map (make_chunk c) ++ [finish c reason, .DONE],
        .ok ()) := by
  have hclosing : ∀ d : Details, closing c style d = (close_marker style d).map (make_chunk c) := by
    intro d
    unfold closing close_marker
    split <;> rfl
  induction answer generalizing d with
  | nil =>
    rw [List.append_nil, ← hclosing]
    rfl
  | cons text answer ih =>
    have hshut : close_marker style { d with closed := d.closed || d.isOpen } = [] := by
      obtain ⟨opened, closed⟩ := d
      cases opened <;> cases closed <;> rfl
    rw [answered, List.map_cons, List.cons_append, encode, ← answered, ih, hshut, hclosing]
    simp only [List.nil_append, List.map_append, List.map_cons, List.append_assoc,
      List.cons_append]

theorem content_body (contents : List Str) (last : List Frame)
    (h : last.flatMap Frame.content = []) :
    content (prelude c :: (contents.map (make_chunk c) ++ last)) = contents.flatten := by
  have hchunks : (contents.map (make_chunk c)).flatMap Frame.content = contents.flatten := by
    rw [List.flatMap_map]
    simp [make_chunk, chunk, Frame.content, List.flatMap_id']
  rw [content, List.flatMap_cons, List.flatMap_append, hchunks, h, List.append_nil]
  rfl

/-- The trace as it is shown, its close marker included. -/
def shown (events : List StepEvent) : List Str :=
  if TRACE_OFF style || (lines events).isEmpty then []
  else TRACE_OPEN style :: lines events ++ [TRACE_CLOSE style]

/-- The trace of a run that raises is shown without it. -/
def cut_short (events : List StepEvent) : List Str :=
  if TRACE_OFF style || (lines events).isEmpty then [] else TRACE_OPEN style :: lines events

theorem lines_append (front events : List StepEvent) :
    lines (front ++ events) = lines front ++ lines events := List.filterMap_append

theorem lines_nonempty (trace : List StepEvent) (hne : trace ≠ [])
    (h : ∀ event ∈ trace, Traced event) : (lines trace).isEmpty = false := by
  cases trace with
  | nil => exact absurd rfl hne
  | cons event trace =>
    obtain ⟨line, hline⟩ := Option.isSome_iff_exists.mp (h event List.mem_cons_self)
    rw [lines_cons event trace line hline]
    rfl

theorem body_finished (trace : List StepEvent) (answer : List Str) (reason : Str)
    (h : ∀ event ∈ trace, Traced event) :
    let events := trace ++ answered answer reason
    sse_stream_agentic c style events ended =
      (prelude c :: ((shown style events ++ answer).map (make_chunk c) ++
        [finish c reason, .DONE]), .ok ()) := by
  have hlines : lines (trace ++ answered answer reason) =
      lines trace := by
    rw [lines_append, lines_answer, List.append_nil]
  show (prelude c :: (encode c style ended ⟨false, false⟩ (trace ++ _)).1, _) = _
  rw [shown, hlines]
  cases hoff : TRACE_OFF style with
  | true =>
    rw [encode_off c style ended hoff _ _ _ h, encode_answer]
    rfl
  | false =>
    by_cases hne : trace = []
    · rw [hne, List.nil_append, encode_answer]
      rfl
    · rw [encode_trace c style ended hoff _ _ hne h, encode_answer, lines_nonempty trace hne h]
      simp only [close_marker, Details.isOpen, Bool.not_false, Bool.and_self, if_true,
        Bool.or_self, Bool.false_eq_true, if_false, List.map_append, List.append_assoc]

theorem body_failed (trace : List StepEvent) (exc : Exn) (h : ∀ event ∈ trace, Traced event) :
    sse_stream_agentic c style trace (.error exc) =
      (prelude c :: (cut_short style trace).map (make_chunk c), .error exc) := by
  show (prelude c :: (encode c style (.error exc) ⟨false, false⟩ trace).1, _) = _
  rw [cut_short, ← List.append_nil trace]
  cases hoff : TRACE_OFF style with
  | true =>
    rw [encode_off c style (.error exc) hoff _ _ _ h]
    rfl
  | false =>
    by_cases hne : trace = []
    · rw [hne]
      rfl
    · rw [encode_trace c style (.error exc) hoff _ _ hne h, List.append_nil,
        lines_nonempty trace hne h]
      simp only [encode, Bool.or_self, Bool.false_eq_true, if_false, List.append_nil]

end Encoded

theorem streamed_trace (trace : List StepEvent) (h : ∀ event ∈ trace, Traced event) :
    trace.flatMap final_chunk = [] := by
  apply List.flatMap_eq_nil_iff.mpr
  intro event hevent
  have htraced := h event hevent
  cases event with
  | StepFinalChunk text => cases htraced
  | _ => rfl

theorem streamed_answer (trace : List StepEvent) (answer : List Str) (reason : Str)
    (h : ∀ event ∈ trace, Traced event) :
    (trace ++ answered answer reason).flatMap final_chunk = answer.flatten := by
  rw [List.flatMap_append, streamed_trace trace h, answered, List.flatMap_append,
    List.flatMap_map]
  simp [final_chunk]

theorem reasons_answer (trace : List StepEvent) (answer : List Str) (reason : Str)
    (h : ∀ event ∈ trace, Traced event) :
    (trace ++ answered answer reason).filterMap finish_reason =
      [reason] := by
  have htrace : trace.filterMap finish_reason = [] := by
    apply List.filterMap_eq_nil_iff.mpr
    intro event hevent
    have htraced := h event hevent
    cases event with
    | StepDone reason => cases htraced
    | _ => rfl
  rw [List.filterMap_append, htrace, answered, List.filterMap_append, List.filterMap_map]
  simp [finish_reason, Function.comp_def]

/-- The trace as a run shows it: a run that raises leaves it open. -/
def trace_text (style : Str) (events : List StepEvent) : Except Exn Unit → Str
  | .ok _ => (shown style events).flatten
  | .error _ => (cut_short style events).flatten

theorem content_stream (py : Runtime) (c : Completion) (style : Str) (stream : M Unit)
    (hstream : StepStream py stream) (tr : List Ev) (r : Except Exn Unit) (h : Path stream tr r) :
    content (sse_stream_agentic c style (emits tr) r).1 =
      trace_text style (emits tr) r ++ streamed tr := by
  have hordered := stream_orderly py stream hstream tr r h
  cases r with
  | ok _ =>
    obtain ⟨trace, answer, reason, htrace, hevents⟩ := hordered.of_ok
    have hbody := body_finished c style (.ok ()) trace answer reason htrace
    have hstreamed := streamed_answer trace answer reason htrace
    rw [← hevents] at hbody hstreamed
    rw [hbody, content_body c _ _ rfl, List.flatten_append, streamed, hstreamed]
    rfl
  | error exc =>
    have htrace := hordered.of_error
    have hcontent := content_body c (cut_short style (emits tr)) [] rfl
    rw [List.append_nil] at hcontent
    rw [body_failed c style _ exc htrace, hcontent, streamed, streamed_trace _ htrace,
      List.append_nil]
    rfl

def sampleCompletion : Completion := ⟨"chatcmpl-1".toList, 0, "aigent-squad".toList⟩

def sampleStream : M Unit :=
  run_agentic_loop_streaming asciiRuntime .default false sampleArgs

/-- The exception of a model call is the end of every run that meets it. -/
def Rethrows (p : M Unit) : Prop :=
  ∀ tr r call exc, Path p tr r → ⟨Ask.converse call, .error exc⟩ ∈ asks tr → r = .error exc

theorem rethrows_quiet (p : M Unit) (h : ∀ tr r, Path p tr r → Quiet tr) : Rethrows p := by
  intro tr r call exc hpath hmem
  exact absurd (.inr rfl) (h tr r hpath _ hmem)

theorem rethrows_bind {α : Type} (p : M α) (f : α → M Unit)
    (hp : ∀ tr r, Path p tr r → Quiet tr) (hf : ∀ x, Rethrows (f x)) : Rethrows (p.bind f) := by
  intro tr r call exc h hmem
  rcases (path_bind p f tr r).mp h with ⟨e, hpath, rfl⟩ | ⟨x, s, t, rfl, hs, ht⟩
  · exact absurd (.inr rfl) (hp tr _ hpath _ hmem)
  · rw [asks_append, List.mem_append] at hmem
    rcases hmem with hfirst | hlast
    · exact absurd (.inr rfl) (hp s _ hs _ hfirst)
    · exact hf x t r call exc ht hlast

theorem rethrows_time (k : ℚ → M Unit) (hk : ∀ now, Rethrows (k now)) :
    Rethrows (.ask .time k) := by
  intro tr r call exc h hmem
  obtain ⟨now, rest, rfl, hrest⟩ := (path_ask _ _ tr r).mp h
  rcases List.mem_cons.mp hmem with heq | hmem
  · cases heq
  · exact hk now rest r call exc hrest hmem

theorem rethrows_converse (call : ConverseCall) (k : Except Exn Response → M Unit)
    (herror : ∀ exc, k (.error exc) = .done (.error exc)) (hok : ∀ resp, Rethrows (k (.ok resp))) :
    Rethrows (.ask (.converse call) k) := by
  intro tr r call' exc h hmem
  obtain ⟨answer, rest, rfl, hrest⟩ := (path_ask _ _ tr r).mp h
  cases answer with
  | error e =>
    rw [herror] at hrest
    obtain ⟨rfl, rfl⟩ := (path_done _ rest r).mp hrest
    rcases List.mem_cons.mp hmem with heq | hmem
    · cases heq
      rfl
    · cases hmem
  | ok resp =>
    rcases List.mem_cons.mp hmem with heq | hmem
    · cases heq
    · exact hok resp rest r call' exc hrest hmem

theorem rethrows_yieldAll (events : List StepEvent) : Rethrows (yieldAll events) :=
  rethrows_quiet _ (yieldAll_quiet events)

theorem loop_rethrows (py : Runtime) (cfg : LoopConfig) (thinks : Bool) (a : RunArgs)
    (specs : List (ToolSpec × Str)) (loop_start : ℚ) (left : ℕ) (st : LoopState) :
    Rethrows (loop_streaming py cfg thinks a specs loop_start left st) := by
  induction left generalizing st with
  | zero =>
    rw [loop_streaming_zero]
    exact rethrows_time _ (fun _ => rethrows_yieldAll _)
  | succ left ih =>
    rw [loop_streaming_succ]
    apply rethrows_time
    intro now
    split
    · split
      · apply rethrows_quiet
        intro tr r h
        rw [((path_done _ tr r).mp h).1]
        exact fun _ hmem => absurd hmem List.not_mem_nil
      · apply rethrows_converse
        · exact fun _ => rfl
        · intro resp
          apply rethrows_bind
          · exact yieldAll_quiet _
          · intro _
            unfold respond_streaming
            split
            · exact rethrows_yieldAll _
            · split
              · exact rethrows_yieldAll _
              · exact rethrows_bind _ _ (tool_calls_streaming_quiet py cfg a _ _) (fun out => ih _)
    · exact rethrows_yieldAll _

theorem stream_rethrows (py : Runtime) (stream : M Unit) (h : StepStream py stream) :
    Rethrows stream := by
  have hrun : ∀ cfg thinks a, Rethrows (run_agentic_loop_streaming py cfg thinks a) := by
    intro cfg thinks a
    rw [run_agentic_loop_streaming_eq]
    apply rethrows_time
    intro loop_start
    exact rethrows_bind _ _ (listing_quiet a.mcp_adapters)
      (fun specs => loop_rethrows py cfg thinks a specs loop_start _ _)
  cases h with
  | forced cfg thinks a => exact hrun cfg thinks a
  | routed m classification cfg thinks a =>
    intro tr r call exc h hmem
    obtain ⟨rest, rfl, hrest⟩ := (path_emit _ _ tr r).mp h
    exact hrun cfg thinks a rest r call exc hrest hmem

/-- The body ends with one finish frame and `[DONE]`, its trace closed. -/
def Terminated (c : Completion) (style : Str) (body : List Frame) : Prop :=
  ∃ (contents : List Str) (reason : Str),
    body = prelude c :: (contents.map (make_chunk c) ++ [finish c reason, .DONE]) ∧
      (TRACE_OPEN style ∈ contents → TRACE_CLOSE style ∈ contents)

theorem terminated_done (c : Completion) (style : Str) (body : List Frame)
    (h : Terminated c style body) : .DONE ∈ body := by
  obtain ⟨contents, reason, rfl, -⟩ := h
  simp

/-- A stream whose model call raises is never terminated: the exception passes
through the encoder, and the body stops in its open trace. -/
theorem raised_stream_unterminated (py : Runtime) (c : Completion) (style : Str) (stream : M Unit)
    (hstream : StepStream py stream) (tr : List Ev) (r : Except Exn Unit) (call : ConverseCall)
    (exc : Exn) (h : Path stream tr r) (hraised : ⟨.converse call, .error exc⟩ ∈ asks tr) :
    sse_stream_agentic c style (emits tr) r =
        (prelude c :: (cut_short style (emits tr)).map (make_chunk c), .error exc) ∧
      ¬ Terminated c style (sse_stream_agentic c style (emits tr) r).1 := by
  have hr := stream_rethrows py stream hstream tr r call exc h hraised
  subst hr
  have htraced := (stream_orderly py stream hstream tr _ h).of_error
  have hbody := body_failed c style (emits tr) exc htraced
  constructor
  · exact hbody
  · intro hterminated
    rw [hbody] at hterminated
    have hdone := terminated_done c style _ hterminated
    simp [prelude, make_chunk, chunk] at hdone

/-- One tool turn, then the guardrail blocks what the model says. -/
def blockedEnv : Env Ask Answer := fun h e =>
  match e with
  | .converse call =>
    if call.messages.length = 1 then sampleEnv h (.converse call)
    else .error (.GuardrailBlockedError "PII".toList "OUTPUT".toList [])
  | e => sampleEnv h e

def raisedBy (exc : Exn) : Sigma Answer → Bool
  | ⟨.converse _, .error e⟩ => e = exc
  | _ => false

theorem raised_of_any (exc : Exn) (tr : List Ev) (h : (asks tr).any (raisedBy exc) = true) :
    ∃ call, ⟨.converse call, .error exc⟩ ∈ asks tr := by
  obtain ⟨⟨e, answer⟩, hmem, hraised⟩ := List.any_eq_true.mp h
  unfold raisedBy at hraised
  split at hraised
  · next call e heq =>
    cases heq
    rw [of_decide_eq_true hraised] at hmem
    exact ⟨call, hmem⟩
  · cases hraised

def blocked : Exn := .GuardrailBlockedError "PII".toList "OUTPUT".toList []

set_option maxRecDepth 100000 in
/-- The trace is open when the block comes, and neither it nor the stream is
closed. -/
theorem blocked_stream_unterminated :
    let out := run blockedEnv [] sampleStream
    let body := (sse_stream_agentic sampleCompletion "think".toList (emits out.1) out.2).1
    (asks out.1).any (raisedBy blocked) = true ∧ out.2 = .error blocked ∧
      make_chunk sampleCompletion (TRACE_OPEN "think".toList) ∈ body ∧
      make_chunk sampleCompletion (TRACE_CLOSE "think".toList) ∉ body ∧
      ¬ Terminated sampleCompletion "think".toList body := by
  refine ⟨by decide +kernel, by decide +kernel, by decide +kernel, by decide +kernel, ?_⟩
  intro h
  exact absurd (terminated_done _ _ _ h) (by decide +kernel)

set_option maxRecDepth 100000 in
theorem blocked_stream_cut_short :
    ∃ call, ⟨.converse call, .error blocked⟩ ∈ asks (run blockedEnv [] sampleStream).1 ∧
      sse_stream_agentic sampleCompletion "think".toList
          (emits (run blockedEnv [] sampleStream).1) (run blockedEnv [] sampleStream).2 =
        (prelude sampleCompletion ::
          (cut_short "think".toList (emits (run blockedEnv [] sampleStream).1)).map
            (make_chunk sampleCompletion), .error blocked) ∧
      ¬ Terminated sampleCompletion "think".toList (sse_stream_agentic sampleCompletion
        "think".toList (emits (run blockedEnv [] sampleStream).1)
        (run blockedEnv [] sampleStream).2).1 := by
  obtain ⟨call, hcall⟩ := raised_of_any blocked (run blockedEnv [] sampleStream).1
    (by decide +kernel)
  exact ⟨call, hcall, raised_stream_unterminated asciiRuntime sampleCompletion "think".toList
    sampleStream (.forced .default false sampleArgs) _ _ call blocked (run_path _ _ _) hcall⟩

end AigentSquad.SseStream
