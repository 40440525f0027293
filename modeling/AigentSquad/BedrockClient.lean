import AigentSquad.CircuitBreaker
import AigentSquad.Effects

/-!
# The Bedrock client

`BedrockClient.invoke` and `converse`: two engines with one retry loop each,
inside one circuit breaker that is kept in memory. The replies of the service
and the verdicts of the guardrail are given from outside, every request is
listed with its reply and every call of `record_usage` with its arguments.
Metrics, waiting times, the semaphore and what a request says beside
`cache_control` are left out.
-/

set_option autoImplicit false

namespace AigentSquad.BedrockClient
open AigentSquad.PyText AigentSquad.PyJson AigentSquad.Truncation AigentSquad.Effects
open AigentSquad.CircuitBreaker

/-- What a request comes back with; a `ClientError` by its code and `str(e)`. -/
inductive Reply (R : Type) where
  | completion (result : R)
  | client_error (error_code text : Str)
  | failure (exc : Exn)

structure Exchange (R : Type) where
  cache_control : Bool
  reply : Reply R

/-- A call of `budget_tracker.record_usage`. -/
structure Spend where
  session_id : Str
  usage : Usage

structure Surroundings (R : Type) where
  now : ℚ
  later : ℚ
  input_verdict : Verdict
  replies : ℕ → Reply R
  /-- on the n-th text of a completion -/
  output_verdict : ℕ → Str → Verdict

/-- How the attempts of a call end. -/
structure Outcome (R A : Type) where
  served : List (Exchange R)
  recorded : List Spend
  cache_supported : Option Bool
  result : Except Exn A

def Outcome.behind {R A : Type} (o : Outcome R A) (first : Exchange R) : Outcome R A :=
  { o with served := first :: o.served }

/-- The arguments of a call that the loop reads. -/
structure Call where
  /-- the user's text in the messages -/
  user_text : Str
  session_id : Str
  budget_session_id : Option Str
  skip_input_guardrail : Bool

/-- `budget_session_id or session_id` -/
def Call.charged (call : Call) : Str :=
  match call.budget_session_id with
  | some session => if session.isEmpty then call.session_id else session
  | none => call.session_id

/-- What differs between the two engines. -/
structure Engine (R A : Type) where
  usage : R → Usage
  /-- the texts the guardrail sees and what is returned behind it -/
  output : R → Except Exn (List Str × A)
  /-- whether an error is taken for a rejection of `cache_control` -/
  rejects : Str → Str → Bool
  exhausted : Str

/-- `guardrail.apply`; an error of its own service is a refusal too. -/
def guarded (source : Str) : Verdict → Except Exn Unit
  | .accepted => .ok ()
  | .blocked reason categories => .error (.GuardrailBlockedError reason source categories)
  | .error exc => .error exc

def guard_output (verdict : ℕ → Str → Verdict) : ℕ → List Str → Except Exn Unit
  | _, [] => .ok ()
  | n, text :: texts => do
    guarded "OUTPUT".toList (verdict n text)
    guard_output verdict (n + 1) texts

def RETRYABLE : List Str :=
  ["ThrottlingException".toList, "ServiceUnavailableException".toList,
    "InternalServerException".toList]

section Loop
variable {R A : Type} (eng : Engine R A) (call : Call) (env : Surroundings R)

def delivered (result : R) : Except Exn A := do
  let (texts, answer) ← eng.output result
  guard_output env.output_verdict 0 texts
  pure answer

def recordings (usage : Usage) : List Spend :=
  if call.charged.isEmpty then [] else [⟨call.charged, usage⟩]

/-- `for attempt in range(max_retries)` with `left` attempts to go. -/
def attempts (max_retries : ℕ) : ℕ → ℕ → Bool → Option Bool → Outcome R A
  | 0, _, _, cache_supported =>
    ⟨[], [], cache_supported, .error (.other "Exception".toList
      (eng.exhausted ++ " after ".toList ++ strNat max_retries ++ " attempts".toList))⟩
  | left + 1, attempt, cache_control, cache_supported =>
    let here : Exchange R := ⟨cache_control, env.replies attempt⟩
    match env.replies attempt with
    | .completion result =>
      ⟨[here], recordings call (eng.usage result), cache_supported, delivered eng env result⟩
    | .client_error error_code text =>
      if eng.rejects error_code text then
        (attempts max_retries left (attempt + 1) false (some false)).behind here
      else if error_code ∈ RETRYABLE ∧ attempt + 1 < max_retries then
        (attempts max_retries left (attempt + 1) cache_control cache_supported).behind here
      else ⟨[here], [], cache_supported, .error (.other error_code text)⟩
    | .failure exc => ⟨[here], [], cache_supported, .error exc⟩

section Attempt
variable (max_retries left attempt : ℕ) (cache_control : Bool) (cache_supported : Option Bool)

theorem attempts_completion (result : R) (h : env.replies attempt = .completion result) :
    attempts eng call env max_retries (left + 1) attempt cache_control cache_supported =
      ⟨[⟨cache_control, .completion result⟩], recordings call (eng.usage result),
        cache_supported, delivered eng env result⟩ := by
  simp only [attempts, h]

theorem attempts_failure (exc : Exn) (h : env.replies attempt = .failure exc) :
    attempts eng call env max_retries (left + 1) attempt cache_control cache_supported =
      ⟨[⟨cache_control, .failure exc⟩], [], cache_supported, .error exc⟩ := by
  simp only [attempts, h]

variable (error_code text : Str) (h : env.replies attempt = .client_error error_code text)
include h

theorem attempts_rejected (hrejects : eng.rejects error_code text = true) :
    attempts eng call env max_retries (left + 1) attempt cache_control cache_supported =
      (attempts eng call env max_retries left (attempt + 1) false (some false)).behind
        ⟨cache_control, .client_error error_code text⟩ := by
  simp only [attempts, h, hrejects, if_true]

theorem attempts_retried (hrejects : eng.rejects error_code text = false)
    (hretry : error_code ∈ RETRYABLE ∧ attempt + 1 < max_retries) :
    attempts eng call env max_retries (left + 1) attempt cache_control cache_supported =
      (attempts eng call env max_retries left (attempt + 1) cache_control cache_supported).behind
        ⟨cache_control, .client_error error_code text⟩ := by
  simp only [attempts, h, hrejects, if_pos hretry]
  rfl

theorem attempts_raised (hrejects : eng.rejects error_code text = false)
    (hretry : ¬ (error_code ∈ RETRYABLE ∧ attempt + 1 < max_retries)) :
    attempts eng call env max_retries (left + 1) attempt cache_control cache_supported =
      ⟨[⟨cache_control, .client_error error_code text⟩], [], cache_supported,
        .error (.other error_code text)⟩ := by
  simp only [attempts, h, hrejects, if_neg hretry]
  rfl

end Attempt

/-- The attempts behind the INPUT guardrail, where that is asked. -/
def run_sync (asks_input : Bool) (max_retries : ℕ) (cache_control : Bool)
    (cache_supported : Option Bool) : Outcome R A :=
  let verdict := if asks_input then env.input_verdict else .accepted
  match guarded "INPUT".toList verdict with
  | .ok () => attempts eng call env max_retries max_retries 0 cache_control cache_supported
  | .error exc => ⟨[], [], cache_supported, .error exc⟩

/-- The INPUT guardrail is asked and does not accept. -/
def input_refused : Prop := call.skip_input_guardrail = false ∧ env.input_verdict ≠ .accepted

theorem guarded_accepted (source : Str) (verdict : Verdict) (hok : verdict = .accepted) :
    guarded source verdict = .ok () := by
  rw [hok]
  rfl

theorem guarded_stopped (source : Str) (verdict : Verdict) (hnot : verdict ≠ .accepted) :
    ∃ exc, guarded source verdict = .error exc := by
  cases verdict with
  | accepted => exact absurd rfl hnot
  | blocked reason categories => exact ⟨_, rfl⟩
  | error exc => exact ⟨exc, rfl⟩

theorem run_admitted (asks_input : Bool) (max_retries : ℕ) (cache_control : Bool)
    (cache_supported : Option Bool)
    (hin : asks_input = true → env.input_verdict = .accepted) :
    run_sync eng call env asks_input max_retries cache_control cache_supported =
      attempts eng call env max_retries max_retries 0 cache_control cache_supported := by
  have hok : guarded "INPUT".toList (if asks_input then env.input_verdict else .accepted) =
      .ok () := by
    refine guarded_accepted _ _ ?_
    cases asks_input
    · rfl
    · exact hin rfl
  rw [run_sync, hok]

/-- Refused at the INPUT, a call makes no attempt. -/
theorem run_refused (max_retries : ℕ) (cache_control : Bool) (cache_supported : Option Bool)
    (hin : env.input_verdict ≠ .accepted) :
    ∃ exc, run_sync eng call env true max_retries cache_control cache_supported =
      ⟨[], [], cache_supported, .error exc⟩ := by
  obtain ⟨exc, hexc⟩ := guarded_stopped "INPUT".toList env.input_verdict hin
  refine ⟨exc, ?_⟩
  rw [run_sync, if_pos rfl, hexc]

end Loop

structure Client where
  max_retries : ℕ
  cache_supported : Option Bool
  breaker : Shared

/-- `BedrockClient()` -/
def Client.new : Client := ⟨3, none, start 5 30 false⟩

/-! ## The engine of the Messages API -/

structure InvokeResult where
  input_tokens : Option Int
  output_tokens : Option Int
  /-- `result['content'][0]['text']` -/
  text : Option Str

def mentions_cache_control (error_code text : Str) : Bool :=
  error_code = "ValidationException".toList && isIn "cache_control".toList text

def messages_api : Engine InvokeResult Str where
  usage r := ⟨r.input_tokens.getD 0, r.output_tokens.getD 0⟩
  output r :=
    match r.text with
    | some text => .ok ([text], text)
    | none => .error (.other "KeyError".toList "'content'".toList)
  rejects := mentions_cache_control
  exhausted := "Failed to invoke Bedrock".toList

/-- `_is_cache_supported`: what is answered is remembered. -/
def is_cache_supported (cache_supported : Option Bool) : Bool := cache_supported.getD true

/-- `use_cache and settings.bedrock_prompt_cache_enabled` -/
def invoke_sync (client : Client) (call : Call) (wants_cache : Bool)
    (env : Surroundings InvokeResult) : Outcome InvokeResult Str :=
  let supported := is_cache_supported client.cache_supported
  run_sync messages_api call env (!call.skip_input_guardrail) client.max_retries
    (wants_cache && supported) (if wants_cache then some supported else client.cache_supported)

/-! ## The engine of the Converse API -/

inductive RawBlock where
  | text (text : Str)
  | toolUse (toolUseId name : Option Str) (input : Option Json)
  | other (raw : Json)

structure ConverseResult where
  stopReason : Option Str
  content : List RawBlock
  inputTokens : Option Int
  outputTokens : Option Int

def parse_converse_content (raw_blocks : List RawBlock) : List ContentBlock :=
  raw_blocks.map (fun block => match block with
    | .text text => .text text
    | .toolUse toolUseId name input =>
      .tool_use ⟨toolUseId.getD [], name.getD [], input.getD (.obj [])⟩
    | .other raw => .unknown raw)

/-- The text blocks that are not empty. -/
def guarded_texts (content : List ContentBlock) : List Str :=
  content.filterMap (fun block => match block with
    | .text text => if text.isEmpty then none else some text
    | _ => none)

def converse_api : Engine ConverseResult Response where
  usage r := ⟨r.inputTokens.getD 0, r.outputTokens.getD 0⟩
  output r :=
    let content := parse_converse_content r.content
    .ok (guarded_texts content, ⟨r.stopReason.getD "end_turn".toList, content,
      ⟨r.inputTokens.getD 0, r.outputTokens.getD 0⟩⟩)
  rejects := fun _ _ => false
  exhausted := "Failed to invoke Bedrock Converse".toList

def converse_sync (client : Client) (call : Call) (env : Surroundings ConverseResult) :
    Outcome ConverseResult Response :=
  run_sync converse_api call env (!call.skip_input_guardrail && !call.user_text.isEmpty)
    client.max_retries false client.cache_supported

/-! ## The circuit breaker around both -/

/-- The breaker, in memory, sends no command that could fail. -/
def admitted (breaker : Shared) (now : ℚ) : Shared × Bool :=
  let asked := can_execute breaker now up
  (asked.1, asked.2.toOption.getD false)

def within_breaker {R A : Type} (client : Client) (env : Surroundings R) (o : Outcome R A) :
    Client × Outcome R A :=
  let may := admitted client.breaker env.now
  if !may.2 then
    ({ client with breaker := may.1 }, ⟨[], [], client.cache_supported,
      .error (.other "Exception".toList "Bedrock circuit breaker is OPEN".toList)⟩)
  else
    let breaker :=
      match o.result with
      | .ok _ => (record_success may.1 up).1
      | .error (.GuardrailBlockedError _ _ _) => may.1
      | .error _ => (record_failure may.1 env.later up).1
    ({ client with breaker := breaker, cache_supported := o.cache_supported }, o)

def invoke (client : Client) (call : Call) (wants_cache : Bool)
    (env : Surroundings InvokeResult) : Client × Outcome InvokeResult Str :=
  within_breaker client env (invoke_sync client call wants_cache env)

def converse (client : Client) (call : Call) (env : Surroundings ConverseResult) :
    Client × Outcome ConverseResult Response :=
  within_breaker client env (converse_sync client call env)

end AigentSquad.BedrockClient
