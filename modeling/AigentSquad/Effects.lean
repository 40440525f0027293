import AigentSquad.Interaction
import AigentSquad.Truncation

/-!
# What the agent code asks of its surroundings

Clock, randomness, MCP servers, datasources, circuit breakers, guardrail, model,
stores, classifier and scanner. Every function that talks to them is an
interaction program over these questions; the events it streams are `StepEvent`.
-/

set_option autoImplicit false

namespace AigentSquad.Effects
open AigentSquad.PyText AigentSquad.PyJson AigentSquad.Truncation AigentSquad.Interaction

inductive Exn where
  | GuardrailBlockedError (reason source : Str) (categories : List Str)
  | UnboundLocalError
  | AttributeError
  | TypeError
  | TokenBudgetExceeded (used limit : Int)
  | other (name message : Str)
deriving DecidableEq, Repr

structure McpAdapter where
  name : Str
  url : Str

/-- `mcp` carries the tool allowlist; the other kinds only collect. -/
inductive DatasourceAdapter where
  | mcp (adapter : McpAdapter) (tools : List Str)
  | other (name : Str)

structure ToolSpec where
  name : Str
  description : Str
  inputSchema : Json

inductive ContentBlock where
  | text (text : Str)
  | tool_use (use : ToolUse)
  | reasoning (text : Str)
  | unknown (raw : Json)

structure Usage where
  input_tokens : Int
  output_tokens : Int

structure Response where
  stop_reason : Str
  content : List ContentBlock
  usage : Usage

structure ConverseCall where
  messages : List Message
  system_prompt : Str
  max_tokens : Int
  temperature : ℚ
  tool_config : Option (List ToolSpec)
  agent_id : Str
  user_id : Str
  session_id : Str
  role : Str
  budget_session_id : Option Str
  apply_bedrock_guardrail : Bool
  skip_input_guardrail : Bool
  model_id_override : Option Str

/-- One user message to `bedrock.invoke`. -/
structure InvokeCall where
  content : Str
  system_prompt : Str
  temperature : ℚ
  role : Str
  agent_id : Str
  user_id : Str
  session_id : Str
  budget_session_id : Option Str
  skip_input_guardrail : Bool

inductive Source where
  | INPUT
  | OUTPUT
deriving DecidableEq, Repr

inductive Verdict where
  | accepted
  | blocked (reason : Str) (categories : List Str)
  /-- any exception but `GuardrailBlockedError` -/
  | error (exc : Exn)
deriving DecidableEq, Repr

inductive ToolOutcome where
  | result (text : Str)
  | timeout
  | permission_error (message : Str)
  | exception (detail : Str)
deriving DecidableEq, Repr

structure Ids where
  agent_id : Str
  user_id : Str
  session_id : Str
deriving DecidableEq, Repr

structure QualityAssessment where
  confidence : Str
  unverified_claims : List Str
deriving DecidableEq

structure ConversationMessage where
  role : Str
  content : Str
  agent_id : Option Str
  quality_assessment : Option QualityAssessment
deriving DecidableEq

structure AgentMatch where
  agent : Str
  confidence : ℚ
  sub_query : Str

structure ClassifierResult where
  agents : List AgentMatch
  reasoning : Option Str
  complexity : Str

inductive Ask where
  | time
  | list_tool_specs (adapter : McpAdapter)
  | converse (call : ConverseCall)
  | guardrail_apply (text : Str) (source : Source) (ids : Ids)
  | can_execute (url : Str)
  | call_tool (adapter : McpAdapter) (tool_name : Str) (args : Json)
  | record_success (url : Str)
  | record_failure (url : Str)
  /-- `InputScanner.scan`: the normalised text -/
  | scan_input (text : Str) (ids : Ids)
  | collect (adapter : DatasourceAdapter) (query : Str)
  | token_hex
  /-- how often a canary was detected in the session, this time included -/
  | count_detection (session_id : Str)
  | invoke (call : InvokeCall)
  | check_budget (session_id : Str)
  | fetch_chat (user_id session_id agent_id : Str)
  | fetch_all_chats (user_id session_id : Str)
  | save_chat_message (user_id session_id agent_id : Str) (message : ConversationMessage)
  | classify (user_input : Str) (chat_history : List ConversationMessage)
      (user_id session_id : Str)
  | inject_similar_cases (symptom : Str)
  | uuid4

abbrev Answer : Ask → Type
  | .time => ℚ
  | .list_tool_specs _ => Except Exn (List ToolSpec)
  | .converse _ => Except Exn Response
  | .guardrail_apply _ _ _ => Verdict
  | .can_execute _ => Bool
  | .call_tool _ _ _ => ToolOutcome
  | .record_success _ => Unit
  | .record_failure _ => Unit
  | .scan_input _ _ => Except Exn Str
  | .collect _ _ => Except Exn Str
  | .token_hex => Str
  | .count_detection _ => Int
  | .invoke _ => Except Exn Str
  | .check_budget _ => Except Exn Unit
  | .fetch_chat _ _ _ => Except Exn (List ConversationMessage)
  | .fetch_all_chats _ _ => Except Exn (List ConversationMessage)
  | .save_chat_message _ _ _ _ => Except Exn Unit
  | .classify _ _ _ _ => Except Exn ClassifierResult
  | .inject_similar_cases _ => Except Exn Str
  | .uuid4 => Str

/-- Surroundings where nothing fails and nothing is known. -/
def calm : (e : Ask) → Answer e
  | .time => (0 : ℚ)
  | .list_tool_specs _ => .ok []
  | .converse _ => .ok ⟨"end_turn".toList, [], ⟨0, 0⟩⟩
  | .guardrail_apply _ _ _ => .accepted
  | .can_execute _ => true
  | .call_tool _ _ _ => .result []
  | .record_success _ => ()
  | .record_failure _ => ()
  | .scan_input text _ => .ok text
  | .collect _ _ => .ok []
  | .token_hex => "00112233445566778899aabbccddeeff".toList
  | .count_detection _ => (1 : Int)
  | .invoke _ => .ok []
  | .check_budget _ => .ok ()
  | .fetch_chat _ _ _ => .ok []
  | .fetch_all_chats _ _ => .ok []
  | .save_chat_message _ _ _ _ => .ok ()
  | .classify _ _ _ _ => .ok ⟨[], none, "standard".toList⟩
  | .inject_similar_cases _ => .ok []
  | .uuid4 => "00000000-0000-4000-8000-000000000000".toList

instance answer_nonempty (e : Ask) : Nonempty (Answer e) := ⟨calm e⟩

inductive StepEvent where
  | StepThinking (text : Str)
  | StepToolCall (tool_name args_display : Str)
  | StepToolResult (tool_name summary : Str)
  | StepFinalChunk (text : Str)
  | StepRouting (agent : Str) (confidence : ℚ) (reasoning sub_query : Str)
  | StepDone (finish_reason : Str)
deriving DecidableEq

abbrev M (α : Type) := Prog Ask Answer StepEvent Exn α

abbrev Ev := Event Ask Answer StepEvent

abbrev time : M ℚ := .request Ask.time

abbrev listToolSpecs (adapter : McpAdapter) : M (Except Exn (List ToolSpec)) :=
  .request (Ask.list_tool_specs adapter)

abbrev converse (call : ConverseCall) : M (Except Exn Response) := .request (Ask.converse call)

abbrev guardrailApply (text : Str) (source : Source) (ids : Ids) : M Verdict :=
  .request (Ask.guardrail_apply text source ids)

abbrev canExecute (url : Str) : M Bool := .request (Ask.can_execute url)

abbrev callTool (adapter : McpAdapter) (tool_name : Str) (args : Json) : M ToolOutcome :=
  .request (Ask.call_tool adapter tool_name args)

abbrev recordSuccess (url : Str) : M Unit := .request (Ask.record_success url)

abbrev recordFailure (url : Str) : M Unit := .request (Ask.record_failure url)

/-- An answer that may be an exception, raised where it is received. -/
def asked {α : Type} (p : M (Except Exn α)) : M α := p.bind .ofExcept

def yieldAll : List StepEvent → M Unit
  | [] => pure ()
  | e :: es => .emit e (yieldAll es)

end AigentSquad.Effects
