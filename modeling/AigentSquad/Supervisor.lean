import AigentSquad.RunInvestigation

/-!
# The supervisor

One request is answered by a fixed text, by one agent, by several agents whose
answers are fused, or by an investigation; or the events of one agent are
streamed. The knowledge distilled after an investigation is left out.
-/

set_option autoImplicit false

namespace AigentSquad.Supervisor
open AigentSquad.PyText AigentSquad.PyJson AigentSquad.Dict AigentSquad.Interaction
open AigentSquad.Postcondition AigentSquad.Effects AigentSquad.GenericAgent
open AigentSquad.EvidenceExchange AigentSquad.RunInvestigation

structure TierSettings where
  aigent_tier_routing_enabled : Bool
  aigent_tier_confidence_high : ℚ
  aigent_tier_deep_enabled : Bool
  bedrock_tier_fast_model_id : Str
  bedrock_tier_standard_model_id : Str
  bedrock_tier_deep_model_id : Str

inductive Tier where
  | fast
  | standard
  | deep
deriving DecidableEq, Repr

def resolve_model_for_tier (t : TierSettings) : Tier → Str
  | .fast => t.bedrock_tier_fast_model_id
  | .deep =>
    if t.aigent_tier_deep_enabled then t.bedrock_tier_deep_model_id
    else t.bedrock_tier_standard_model_id
  | .standard => t.bedrock_tier_standard_model_id

/-- The confidence of the first agent, 0 without one. -/
def confidence (c : ClassifierResult) : ℚ := (c.agents.head?.map AgentMatch.confidence).getD 0

def selected_agent (c : ClassifierResult) : Str :=
  (c.agents.head?.map AgentMatch.agent).getD "unknown".toList

def tier (t : TierSettings) (c : ClassifierResult) : Tier :=
  let high := t.aigent_tier_confidence_high
  if c.complexity = "simple".toList ∧ high ≤ confidence c then .fast
  else if c.complexity = "complex".toList ∨ confidence c < high then .deep
  else .standard

def resolve_tier_model (t : TierSettings) (c : ClassifierResult) : Option Str :=
  if t.aigent_tier_routing_enabled then some (resolve_model_for_tier t (tier t c)) else none

def heuristic_complexity (agents : List AgentMatch) (user_input : Str) : Str :=
  if 2 ≤ agents.length then "complex".toList
  else if agents.length = 1 ∧ user_input.length ≤ 60 then "simple".toList
  else "standard".toList

def INVESTIGATION_KEYWORDS : List Str :=
  ["why".toList, "por que".toList, "porque".toList, "causa".toList, "latency".toList,
    "latencia".toList, "slow".toList, "error rate".toList, "down".toList, "crashloop".toList,
    "oom".toList, "failing".toList, "degraded".toList, "after deploy".toList,
    "depois do deploy".toList, "started failing".toList, "comecou a falhar".toList,
    "timeout".toList, "500".toList, "503".toList, "investigate".toList, "investigar".toList,
    "rca".toList, "root cause".toList]

def TRIVIAL_KEYWORDS : List Str :=
  ["how do i".toList, "como configurar".toList, "how to".toList, "como faco".toList,
    "what is".toList, "o que e".toList, "list".toList, "liste".toList, "show me".toList,
    "mostre".toList]

def MUTATION_REQUEST_KEYWORDS : List Str :=
  ["authorize you to".toList, "go ahead and".toList, "please go ahead".toList]

def should_investigate (py : Runtime) (symptom : Str) (force : Bool) : Bool :=
  let low := lower py symptom
  force || (INVESTIGATION_KEYWORDS.any (isIn · low) && !TRIVIAL_KEYWORDS.any (isIn · low) &&
    !MUTATION_REQUEST_KEYWORDS.any (isIn · low))

def max_agents : ℕ := 3

structure SupervisorAgent where
  agents : Entries Str Agent
  settings : Settings
  tiers : TierSettings

structure Request where
  user_input : Str
  user_id : Str
  session_id : Str
  mode : Str
  force_agent : Option Str

/-- The value of the `confidence` key. -/
inductive Rating where
  | score (q : ℚ)
  | level (c : Confidence)

/-- The value of the `error` key. -/
inductive Failure where
  | token_budget_exceeded
  | raised (exc : Exn)

/-- The answer's keys; an absent key has its default. -/
structure Reply where
  agent : Str
  response : Json
  confidence : Rating
  error : Option Failure := none
  reasoning : Option Str := none
  quality_assessment : Option QualityAssessment := none
  agents_consulted : List Str := []
  agents_failed : List Str := []
  rca : Option RCAResult := none

def budget_text : Str :=
  "This session has reached its token budget. ".toList ++
    "Please start a new session to continue.".toList

def budget_reply : Reply where
  agent := "supervisor".toList
  response := .str budget_text
  confidence := .score 0
  error := some .token_budget_exceeded

def rephrase_text : Str :=
  "I'm not sure how to help with that. ".toList ++ "Could you please rephrase your question?".toList

def rephrase_reply (confidence : ℚ) : Reply where
  agent := "supervisor".toList
  response := .str rephrase_text
  confidence := .score confidence

def unexpected_text : Str := "An unexpected error occurred. Please try again.".toList

def unexpected_reply (exc : Exn) : Reply where
  agent := "supervisor".toList
  response := .str unexpected_text
  confidence := .score 0
  error := some (.raised exc)

def agent_error_text (agent_name : Str) : Str :=
  "Error processing request in ".toList ++ agent_name ++ " agent.".toList

def agent_error_reply (agent_name : Str) (exc : Exn) : Reply where
  agent := agent_name
  response := .str (agent_error_text agent_name)
  confidence := .score 0
  error := some (.raised exc)

def agent_reply (agent_name : Str) (c : ClassifierResult) (message : ConversationMessage) :
    Reply where
  agent := agent_name
  response := .str message.content
  confidence := .score (confidence c)
  reasoning := c.reasoning
  quality_assessment := message.quality_assessment

def investigation_reply (rca : RCAResult) : Reply where
  agent := "investigation".toList
  response := rca.hypothesis
  confidence := .level rca.confidence
  rca := some rca

def save (req : Request) (agent_id : Str) (message : ConversationMessage) : M Unit :=
  asked (.request (Ask.save_chat_message req.user_id req.session_id agent_id message))

def user_message (content agent_id : Str) : ConversationMessage :=
  ⟨"user".toList, content, some agent_id, none⟩

def assistant_message (content agent_id : Str) : ConversationMessage :=
  ⟨"assistant".toList, content, some agent_id, none⟩

def fetch_chat (req : Request) (agent_id : Str) : M (List ConversationMessage) :=
  asked (.request (Ask.fetch_chat req.user_id req.session_id agent_id))

def agent_call (req : Request) (input_text : Str) (chat_history : List ConversationMessage)
    (model_id_override : Option Str) : AgentCall where
  input_text := input_text
  user_id := req.user_id
  session_id := req.session_id
  chat_history := chat_history
  budget_session_id := none
  model_id_override := model_id_override

/-- The focused question of the classifier's first agent, else the input. -/
def focused_input (c : ClassifierResult) (user_input : Str) : Str :=
  match c.agents with
  | [] => user_input
  | m :: _ => or_else m.sub_query user_input

/-- What becomes of a single agent's result. -/
def conclude (req : Request) (agent_name : Str) (c : ClassifierResult) :
    Except Exn ConversationMessage → M Reply
  | .error (.GuardrailBlockedError reason source categories) =>
    .throw (.GuardrailBlockedError reason source categories)
  | .error exc => pure (agent_error_reply agent_name exc)
  | .ok message => do
    save req agent_name (assistant_message message.content agent_name)
    pure (agent_reply agent_name c message)

def single_agent_call (py : Runtime) (sup : SupervisorAgent) (req : Request) (agent_name : Str)
    (c : ClassifierResult) (user_input : Str) (model_id_override : Option Str) : M Reply := do
  let agent_history ← fetch_chat req agent_name
  let ag ← .ofExcept (agent_named py sup.agents agent_name)
  let result ← attempt (GenericAgent.process_request py sup.settings ag
    (agent_call req (focused_input c user_input) agent_history model_id_override))
  conclude req agent_name c result

def SYNTHESIZER_PROMPT : Str :=
  ("You are a response synthesizer. You receive a user query and N specialist agent responses, " ++
    "and produce a single coherent answer.\n\n" ++
    "RULES:\n" ++
    "1. Preserve attribution: mention which agent contributed what when relevant\n" ++
    "2. Merge complementary information; don't repeat the same fact from multiple agents\n" ++
    "3. If agents disagree, surface the disagreement\n" ++
    "4. Keep it concise but complete\n" ++
    "5. Don't add information not present in the agent responses\n\n" ++
    "If any agents are listed as FAILED, include a brief note that the response is " ++
    "partial.").toList

def agent_block (response : Str × Str) : Str :=
  "<agent name=\"".toList ++ response.1 ++ "\">\n".toList ++ response.2 ++ "\n</agent>".toList

def fusion_message (query : Str) (responses : List (Str × Str)) (failed : List Str) : Str :=
  "User query:\n<user_query>\n".toList ++ query ++
    "\n</user_query>\n\nAgent responses:\n".toList ++
    join "\n\n".toList (responses.map agent_block) ++
    (if failed.isEmpty then [] else "\n\nFAILED agents: ".toList ++ join ", ".toList failed) ++
    "\n\nSynthesize a single answer for the user.".toList

def fusion_call (req : Request) (query : Str) (responses : List (Str × Str)) (failed : List Str) :
    InvokeCall where
  content := fusion_message query responses failed
  system_prompt := SYNTHESIZER_PROMPT
  temperature := 3 / 10
  role := "synthesis".toList
  agent_id := "synthesizer".toList
  user_id := req.user_id
  session_id := req.session_id
  budget_session_id := none
  skip_input_guardrail := true

def all_failed_text : Str := "All agents failed to respond. Please try again.".toList

def synthesize (req : Request) (query : Str) (responses : List (Str × Str)) (failed : List Str) :
    M Str :=
  if responses.isEmpty then pure all_failed_text
  else invoke (fusion_call req query responses failed)

/-- The answers of the agents that answered, under their names. -/
def answered : List (AgentMatch × Except Exn ConversationMessage) → List (Str × Str)
  | [] => []
  | (m, .ok message) :: results => (m.agent, message.content) :: answered results
  | (_, .error _) :: results => answered results

def failed : List (AgentMatch × Except Exn ConversationMessage) → List Str
  | [] => []
  | (_, .ok _) :: results => failed results
  | (m, .error _) :: results => m.agent :: failed results

def lowest_confidence (primary : AgentMatch) (others : List AgentMatch) : ℚ :=
  others.foldl (fun q m => min q m.confidence) primary.confidence

def fan_out_reply (primary : AgentMatch) (others : List AgentMatch) (failed : List Str)
    (final_response : Str) : Reply where
  agent := "supervisor".toList
  response := .str final_response
  confidence := .score (lowest_confidence primary others)
  agents_consulted := (primary :: others).map AgentMatch.agent
  agents_failed := failed

def fan_out (py : Runtime) (sup : SupervisorAgent) (req : Request) (primary : AgentMatch)
    (others : List AgentMatch) (user_input : Str) (model_id_override : Option Str) : M Reply := do
  let agents := primary :: others
  let specialists ← .ofExcept (agents.mapM (fun m => agent_named py sup.agents m.agent))
  let results ← gather ((agents.zip specialists).map (fun p =>
    GenericAgent.process_request py sup.settings p.2
      (agent_call req (or_else p.1.sub_query user_input) [] model_id_override)))
  .ofExcept (refuse_blocked results)
  let outcomes := agents.zip results
  let final_response ← synthesize req user_input (answered outcomes) (failed outcomes)
  save req primary.agent (assistant_message final_response primary.agent)
  pure (fan_out_reply primary others (failed outcomes) final_response)

/-- `guardrail.apply` on the user's question -/
def admitted : Verdict → Except Exn Unit
  | .accepted => .ok ()
  | .blocked reason categories => .error (.GuardrailBlockedError reason "INPUT".toList categories)
  | .error exc => .error exc

/-- The entry checks: the normalised input. -/
def ingress (req : Request) : M Str := do
  let user_input ← scanInput req.user_input
    ⟨"supervisor".toList, req.user_id, req.session_id⟩
  let verdict ← guardrailApply user_input .INPUT ⟨"ingress".toList, req.user_id, req.session_id⟩
  .ofExcept (admitted verdict)
  pure user_input

/-- The agent the caller insists on, if known. -/
def forced (sup : SupervisorAgent) (req : Request) : Option Str :=
  match req.force_agent with
  | some name => if !name.isEmpty && has sup.agents name then some name else none
  | none => none

def forced_result (name user_input : Str) : ClassifierResult :=
  ⟨[⟨name, 1, []⟩], some ("forced to ".toList ++ name),
    heuristic_complexity [⟨name, 1, []⟩] user_input⟩

def answer_forced (py : Runtime) (sup : SupervisorAgent) (req : Request) (name user_input : Str) :
    M Reply := do
  let direct := forced_result name user_input
  save req name (user_message user_input name)
  single_agent_call py sup req name direct user_input (resolve_tier_model sup.tiers direct)

def investigation_result : ClassifierResult :=
  ⟨[⟨"investigation".toList, 9 / 10, []⟩], some "investigation mode".toList, "complex".toList⟩

def investigation_of (sup : SupervisorAgent) (req : Request) (user_input : Str) : Investigation where
  symptom := user_input
  agents := sup.agents
  user_id := req.user_id
  session_id := req.session_id
  relevant_agent_names := []
  model_id_override := resolve_tier_model sup.tiers investigation_result

def classify (req : Request) (user_input : Str) : M ClassifierResult := do
  let chat_history ← asked (.request (Ask.fetch_all_chats req.user_id req.session_id))
  asked (.request (Ask.classify user_input chat_history req.user_id req.session_id))

def unclassified (c : ClassifierResult) : Bool :=
  c.agents.isEmpty || selected_agent c = "unknown".toList

/-- The first agents of the classification that are known. -/
def known_agents (sup : SupervisorAgent) (c : ClassifierResult) : List AgentMatch :=
  (c.agents.take max_agents).filter (fun m => has sup.agents m.agent)

def answer_classified (py : Runtime) (sup : SupervisorAgent) (req : Request) (c : ClassifierResult)
    (user_input : Str) : M Reply :=
  if unclassified c then pure (rephrase_reply (confidence c))
  else
    match known_agents sup c with
    | [] => pure (rephrase_reply 0)
    | primary :: others => do
      save req primary.agent (user_message user_input primary.agent)
      let tier_model_id := resolve_tier_model sup.tiers c
      if others.isEmpty then
        single_agent_call py sup req primary.agent c user_input tier_model_id
      else fan_out py sup req primary others user_input tier_model_id

def investigates (py : Runtime) (req : Request) (user_input : Str) : Bool :=
  should_investigate py user_input (req.mode = "investigate".toList)

section Entry
variable [Values]

def investigate (py : Runtime) (sup : SupervisorAgent) (req : Request) (user_input : Str) :
    M Reply := do
  let rca ← run_investigation py sup.settings (investigation_of sup req user_input)
  pure (investigation_reply rca)

/-- What is done with an admitted request. -/
def respond (py : Runtime) (sup : SupervisorAgent) (req : Request) (user_input : Str) : M Reply :=
  match forced sup req with
  | some name => answer_forced py sup req name user_input
  | none =>
    if investigates py req user_input then investigate py sup req user_input
    else do
      let c ← classify req user_input
      answer_classified py sup req c user_input

def attended (py : Runtime) (sup : SupervisorAgent) (req : Request) : M Reply := do
  let user_input ← ingress req
  respond py sup req user_input

def within_budget {α : Type} (exceeded : α) (p : M α) : Except Exn Unit → M α
  | .error (.TokenBudgetExceeded _ _) => pure exceeded
  | .error exc => .throw exc
  | .ok () => p

def check_budget (req : Request) : M (Except Exn Unit) :=
  .request (Ask.check_budget req.session_id)

/-- Refusals reach the caller, other exceptions become an answer. -/
def recover : Exn → M Reply
  | .GuardrailBlockedError reason source categories =>
    .throw (.GuardrailBlockedError reason source categories)
  | exc => pure (unexpected_reply exc)

def process_request (py : Runtime) (sup : SupervisorAgent) (req : Request) : M Reply :=
  Prog.handle (do
    let budget ← check_budget req
    within_budget budget_reply (attended py sup req) budget) recover

end Entry

/-- The stream of an agent with tools, its question saved. -/
def stream_agent (py : Runtime) (sup : SupervisorAgent) (req : Request) (ag : Agent)
    (agent_name user_input agent_input : Str) (model_id_override : Option Str) : M (M Unit) := do
  save req agent_name (user_message user_input agent_name)
  let chat_history ← fetch_chat req agent_name
  GenericAgent.process_request_streaming py sup.settings ag
    (agent_call req agent_input chat_history model_id_override)

def stream_forced (py : Runtime) (sup : SupervisorAgent) (req : Request) (name user_input : Str) :
    M (Option (M Unit)) := do
  let ag ← .ofExcept (agent_named py sup.agents name)
  if ag.has_agentic_tools then do
    let direct := forced_result name user_input
    let step_gen ← stream_agent py sup req ag name user_input user_input
      (resolve_tier_model sup.tiers direct)
    pure (some step_gen)
  else pure none

def routing (m : AgentMatch) (c : ClassifierResult) : StepEvent :=
  .StepRouting m.agent m.confidence (c.reasoning.getD []) m.sub_query

def stream_classified (py : Runtime) (sup : SupervisorAgent) (req : Request) (c : ClassifierResult)
    (user_input : Str) : M (Option (M Unit)) :=
  if unclassified c then pure none
  else
    match known_agents sup c with
    | [m] => do
      let ag ← .ofExcept (agent_named py sup.agents m.agent)
      if ag.has_agentic_tools then do
        let step_gen ← stream_agent py sup req ag m.agent user_input
          (or_else m.sub_query user_input) (resolve_tier_model sup.tiers c)
        pure (some (.emit (routing m c) step_gen))
      else pure none
    | _ => pure none

def stream_attended (py : Runtime) (sup : SupervisorAgent) (req : Request) : M (Option (M Unit)) := do
  let user_input ← ingress req
  match forced sup req with
  | some name => stream_forced py sup req name user_input
  | none =>
    if investigates py req user_input then pure none
    else do
      let c ← classify req user_input
      stream_classified py sup req c user_input

/-- `none` where the caller falls back to `process_request`. -/
def process_request_streaming (py : Runtime) (sup : SupervisorAgent) (req : Request) :
    M (Option (M Unit)) := do
  let budget ← check_budget req
  within_budget none (stream_attended py sup req) budget

end AigentSquad.Supervisor
