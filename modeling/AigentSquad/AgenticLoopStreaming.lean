import AigentSquad.AgenticLoop
import AigentSquad.PyRepr
import AigentSquad.Regex

/-!
# The streaming agentic loop

`run_agentic_loop_streaming`, which repeats the loop and yields step events on
the way. `converse` takes no `additional_model_request_fields`, so the extended
thinking switch makes the call itself a TypeError.
-/

set_option autoImplicit false

namespace AigentSquad.AgenticLoopStreaming
open AigentSquad.PyText AigentSquad.PyJson AigentSquad.PyRepr AigentSquad.Regex
open AigentSquad.Truncation AigentSquad.Interaction AigentSquad.Effects AigentSquad.AgenticLoop

def SECRET_KEYS : Rx :=
  alts (litIgnoreCase "password".toList) (["secret", "token", "api_key", "apikey", "auth",
    "credential", "private_key"].map (fun s => litIgnoreCase s.toList))

def display_value (py : Runtime) : Json → Str
  | .str s => reprStr py (clip 60 57 s)
  | v => clip 60 57 (dumps true v)

def display_pair (py : Runtime) (kv : Str × Json) : Str :=
  if (search py.word SECRET_KEYS kv.1).isSome then kv.1 ++ "=\"***\"".toList
  else kv.1 ++ ['='] ++ display_value py kv.2

def sanitize_args_for_display (py : Runtime) (args : Json) : Except Exn Str :=
  if !args.truthy then .ok []
  else
    match args with
    | .obj pairs => .ok (join ", ".toList (pairs.map (display_pair py)))
    | _ => .error .AttributeError

def summarize_tool_result (py : Runtime) (result : Str) : Str :=
  let stripped := strip result
  if stripped.isEmpty then "📦 empty".toList
  else if startswith stripped "error".toList || startswith stripped "Error".toList then
    "📦 error: ".toList ++ ((splitlines stripped).headD []).take 60
  else
    match count_items py result with
    | some n => if n = 0 then "📦 empty".toList else "📦 ".toList ++ strNat n ++ " items".toList
    | none =>
      let lines := non_empty_lines result
      if lines.length ≤ 1 then "📦 ok".toList
      else "📦 ~".toList ++ strNat lines.length ++ " items".toList

def thinking_block : ContentBlock → Option StepEvent
  | .reasoning t => if t.isEmpty then none else some (.StepThinking t)
  | _ => none

def thinking (resp : Response) : List StepEvent :=
  resp.content.filterMap thinking_block ++
    if resp.stop_reason = "tool_use".toList then (texts resp.content).map .StepThinking else []

/-- The `StepFinalChunk` slices of a text; `n` bounds their number. -/
def chunksFrom (size : Nat) : Nat → Str → List Str
  | 0, _ => []
  | n + 1, s => if s.isEmpty then [] else s.take size :: chunksFrom size n (s.drop size)

def chunks (size : Nat) (s : Str) : List Str := chunksFrom size s.length s

def stop : StepEvent := .StepDone "stop".toList

def final_events (resp : Response) : List StepEvent :=
  (chunks 200 (join "\n".toList (texts resp.content))).map .StepFinalChunk ++ [stop]

/-- The model said `tool_use` but sent no tool use block. -/
def no_tool_events (resp : Response) : List StepEvent :=
  let final_text := join "\n".toList (texts resp.content)
  (if final_text.isEmpty then [] else [.StepFinalChunk final_text]) ++ [stop]

def degraded_note_streaming : Str :=
  ("⚠️ I could not complete the full investigation within the " ++
    "available time — here is what I was able to collect:").toList

def degraded_events (st : LoopState) : List StepEvent :=
  let partial_texts := texts (st.content_blocks.getD [])
  [.StepFinalChunk (if partial_texts.isEmpty then degraded_note_streaming
    else degraded_note_streaming ++ "\n\n".toList ++ join "\n".toList partial_texts),
    .StepDone "length".toList]

def tool_call_streaming (py : Runtime) (cfg : LoopConfig) (a : RunArgs) (routes : Routes)
    (u : ToolUse) : M (ToolResult × List Str) := do
  match sanitize_args_for_display py u.input with
  | .error e => .throw e
  | .ok args_display =>
    .yield (.StepToolCall u.name args_display)
    let args_safe ← guardrail_tool_args u.input a.ids
    if args_safe then
      match resolve routes u.name with
      | none =>
        .yield (.StepToolResult u.name "❌ tool not found".toList)
        pure (not_found_result u, [u.name])
      | some adapter_name =>
        let raw ← pool_call_tool a.mcp_adapters adapter_name u.name u.input
        let result_text ← guardrail_tool_result raw a.ids
        .yield (.StepToolResult u.name (summarize_tool_result py result_text))
        pure (executed_result py cfg u result_text, [])
    else
      .yield (.StepToolResult u.name "🚫 blocked by guardrail".toList)
      pure (blocked_result u, [u.name])

theorem tool_call_streaming_error (py : Runtime) (cfg : LoopConfig) (a : RunArgs)
    (routes : Routes) (u : ToolUse) (e : Exn) (h : sanitize_args_for_display py u.input = .error e) :
    tool_call_streaming py cfg a routes u = .done (.error e) := by
  rw [tool_call_streaming, h]
  rfl

theorem tool_call_streaming_ok (py : Runtime) (cfg : LoopConfig) (a : RunArgs) (routes : Routes)
    (u : ToolUse) (args_display : Str)
    (h : sanitize_args_for_display py u.input = .ok args_display) :
    tool_call_streaming py cfg a routes u =
      .emit (.StepToolCall u.name args_display)
        (.ask (.guardrail_apply (dumps true u.input) .INPUT a.ids) (fun verdict =>
          if verdict = .accepted then
            match resolve routes u.name with
            | none => .emit (.StepToolResult u.name "❌ tool not found".toList)
                (.done (.ok (not_found_result u, [u.name])))
            | some adapter_name =>
              (pool_call_tool a.mcp_adapters adapter_name u.name u.input).bind (fun raw =>
                .ask (.guardrail_apply raw .OUTPUT a.ids) (fun verdict =>
                  .emit (.StepToolResult u.name (summarize_tool_result py (redacted raw verdict)))
                    (.done (.ok (executed_result py cfg u (redacted raw verdict), [])))))
          else .emit (.StepToolResult u.name "🚫 blocked by guardrail".toList)
            (.done (.ok (blocked_result u, [u.name]))))) := by
  rw [tool_call_streaming, h]
  refine congrArg (Prog.emit _) (congrArg (Prog.ask (Ask.guardrail_apply _ _ _)) ?_)
  funext verdict
  simp only [Prog.pure_eq, Prog.bind_ok, decide_eq_true_eq]
  rfl

def tool_calls_streaming (py : Runtime) (cfg : LoopConfig) (a : RunArgs) (routes : Routes) :
    List ToolUse → M (List ToolResult × List Str)
  | [] => pure ([], [])
  | u :: us => do
    let out ← tool_call_streaming py cfg a routes u
    let rest ← tool_calls_streaming py cfg a routes us
    pure (out.1 :: rest.1, out.2 ++ rest.2)

theorem tool_calls_streaming_cons (py : Runtime) (cfg : LoopConfig) (a : RunArgs)
    (routes : Routes) (u : ToolUse) (us : List ToolUse) :
    tool_calls_streaming py cfg a routes (u :: us) =
      (tool_call_streaming py cfg a routes u).bind (fun out =>
        (tool_calls_streaming py cfg a routes us).bind (fun rest =>
          .done (.ok (out.1 :: rest.1, out.2 ++ rest.2)))) := rfl

def loop_streaming (py : Runtime) (cfg : LoopConfig) (enable_extended_thinking : Bool)
    (a : RunArgs) (specs : List (ToolSpec × Str)) (loop_start : ℚ) : Nat → LoopState → M Unit
  | 0, st => do
    let _ ← time
    yieldAll (degraded_events st)
  | left + 1, st => do
    let now ← time
    if budget_left cfg st (elapsed_ms loop_start now) then
      let messages := trimmed py cfg st.messages
      if enable_extended_thinking then .throw .TypeError
      else
        match ← converse (converse_call a (tool_config_of specs) messages) with
        | .error e => .throw e
        | .ok resp =>
          yieldAll (thinking resp)
          if resp.stop_reason ≠ "tool_use".toList then yieldAll (final_events resp)
          else if (tool_use_blocks resp.content).isEmpty then yieldAll (no_tool_events resp)
          else
            let out ← tool_calls_streaming py cfg a (routes_of specs)
              (tool_use_blocks resp.content)
            loop_streaming py cfg enable_extended_thinking a specs loop_start left
              (after_turn st messages resp out)
    else yieldAll (degraded_events st)

theorem loop_streaming_zero (py : Runtime) (cfg : LoopConfig) (thinks : Bool) (a : RunArgs)
    (specs : List (ToolSpec × Str)) (loop_start : ℚ) (st : LoopState) :
    loop_streaming py cfg thinks a specs loop_start 0 st =
      .ask .time (fun _ => yieldAll (degraded_events st)) := rfl

/-- What the loop does with a response once its thinking is streamed. -/
def respond_streaming (py : Runtime) (cfg : LoopConfig) (thinks : Bool) (a : RunArgs)
    (specs : List (ToolSpec × Str)) (loop_start : ℚ) (left : Nat) (st : LoopState)
    (messages : List Message) (resp : Response) : M Unit :=
  if resp.stop_reason ≠ "tool_use".toList then yieldAll (final_events resp)
  else if (tool_use_blocks resp.content).isEmpty then yieldAll (no_tool_events resp)
  else
    (tool_calls_streaming py cfg a (routes_of specs) (tool_use_blocks resp.content)).bind
      (fun out => loop_streaming py cfg thinks a specs loop_start left
        (after_turn st messages resp out))

theorem loop_streaming_succ (py : Runtime) (cfg : LoopConfig) (thinks : Bool) (a : RunArgs)
    (specs : List (ToolSpec × Str)) (loop_start : ℚ) (left : Nat) (st : LoopState) :
    loop_streaming py cfg thinks a specs loop_start (left + 1) st = .ask .time (fun now =>
      if budget_left cfg st (elapsed_ms loop_start now) then
        if thinks then .done (.error .TypeError)
        else
          .ask (.converse (converse_call a (tool_config_of specs) (trimmed py cfg st.messages)))
            (fun answer => match answer with
              | .error e => .done (.error e)
              | .ok resp => (yieldAll (thinking resp)).bind (fun _ =>
                respond_streaming py cfg thinks a specs loop_start left st
                  (trimmed py cfg st.messages) resp))
      else yieldAll (degraded_events st)) := by
  refine congrArg (Prog.ask Ask.time) (funext fun now => ?_)
  by_cases hb : budget_left cfg st (elapsed_ms loop_start now) = true
  · simp only [Prog.pure_eq, Prog.bind_ok, hb, if_true]
    cases thinks with
    | true => rfl
    | false =>
      refine congrArg (Prog.ask (Ask.converse _)) (funext fun answer => ?_)
      cases answer <;> rfl
  · simp only [Prog.pure_eq, Prog.bind_ok, hb, Bool.false_eq_true, if_false]

def run_agentic_loop_streaming (py : Runtime) (cfg : LoopConfig)
    (enable_extended_thinking : Bool) (a : RunArgs) : M Unit := do
  let loop_start ← time
  let specs ← list_specs a.mcp_adapters
  loop_streaming py cfg enable_extended_thinking a specs loop_start cfg.MAX_TOOL_STEPS.toNat
    (initial_state a)

theorem run_agentic_loop_streaming_eq (py : Runtime) (cfg : LoopConfig) (thinks : Bool)
    (a : RunArgs) :
    run_agentic_loop_streaming py cfg thinks a = .ask .time (fun loop_start =>
      (list_specs a.mcp_adapters).bind (fun specs =>
        loop_streaming py cfg thinks a specs loop_start cfg.MAX_TOOL_STEPS.toNat
          (initial_state a))) := rfl

end AigentSquad.AgenticLoopStreaming
