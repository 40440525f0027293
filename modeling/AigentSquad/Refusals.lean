import AigentSquad.DailyBudget
import AigentSquad.FinalAnswers
import AigentSquad.RequestScope

/-!
# Refusals of the guardrail

The model client and the input scanner refuse by an exception of their own. No
handler between them and the endpoint turns it into an answer: neither that of the
supervisor nor the gathering of several agents.
-/

set_option autoImplicit false

namespace AigentSquad.Refusals
open AigentSquad.PyText AigentSquad.PyJson AigentSquad.Dict AigentSquad.Interaction
open AigentSquad.Postcondition AigentSquad.FinalAnswers AigentSquad.Truncation AigentSquad.Effects
open AigentSquad.AgenticLoop AigentSquad.AgenticLoopStreaming AigentSquad.Canary
open AigentSquad.GenericAgent AigentSquad.EvidenceExchange AigentSquad.RunInvestigation
open AigentSquad.LoopQuestions AigentSquad.Supervisor AigentSquad.StoredHistory
open AigentSquad.RequestScope

def Block (exc : Exn) : Prop :=
  ∃ reason source categories, exc = .GuardrailBlockedError reason source categories

def Blocked {α : Type} (r : Except Exn α) : Prop := Fails Block r

/-- The client, the classifier or the scanner has raised a refusal. -/
def Refused : Sigma Answer → Prop
  | ⟨.converse _, r⟩ => Fails Block r
  | ⟨.invoke _, r⟩ => Fails Block r
  | ⟨.classify _ _ _ _, r⟩ => Fails Block r
  | ⟨.scan_input _ _, r⟩ => Fails Block r
  | _ => False

/-- A question that the guardrail does not answer by an exception. -/
def Open : Ask → Prop
  | .converse _ => False
  | .invoke _ => False
  | .classify _ _ _ _ => False
  | .scan_input _ _ => False
  | _ => True

theorem harmless_of_open (e : Ask) (h : Open e) : Harmless Refused e := by
  cases e with
  | converse _ => exact h.elim
  | invoke _ => exact h.elim
  | classify _ _ _ _ => exact h.elim
  | scan_input _ _ => exact h.elim
  | _ => exact fun _ hr => hr

theorem stops_of_open {α : Type} {p : M α} (hp : AsksOnly Open p) : Stops Refused Block p :=
  stops_of_harmless (hp.mono harmless_of_open)

/-! ## The loop and the agents -/

theorem open_of_pool (e : Ask) (h : PoolAsk e) : Open e := by
  cases e with
  | converse _ => exact h.elim
  | invoke _ => exact h.elim
  | classify _ _ _ _ => exact h.elim
  | scan_input _ _ => exact h.elim
  | _ => trivial

theorem open_of_listing (e : Ask) (h : ListingAsk e) : Open e := by
  cases e with
  | converse _ => exact h.elim
  | invoke _ => exact h.elim
  | classify _ _ _ _ => exact h.elim
  | scan_input _ _ => exact h.elim
  | _ => trivial

section Loop
variable (py : Runtime) (cfg : LoopConfig) (a : RunArgs)

theorem tool_call_open (routes : Routes) (u : ToolUse) :
    AsksOnly Open (tool_call py cfg a routes u) := by
  rw [tool_call_eq]
  constructor
  · trivial
  · intro verdict
    show AsksOnly Open (if verdict = .accepted then _ else _)
    split
    · split
      · trivial
      · apply asksOnly_bind
        · exact (pool_call_tool_asks _ _ _ _).mono open_of_pool
        · exact fun raw => ⟨trivial, fun _ => trivial⟩
    · trivial

theorem tool_calls_open (routes : Routes) (us : List ToolUse) :
    AsksOnly Open (tool_calls py cfg a routes us) := by
  induction us with
  | nil => trivial
  | cons u us ih =>
    rw [tool_calls_cons]
    apply asksOnly_bind
    · exact tool_call_open py cfg a routes u
    · exact fun _ => asksOnly_bind Open _ _ ih (fun _ => trivial)

theorem degraded_answer_open (st : LoopState) (elapsed : ℚ) :
    AsksOnly Open (degraded_answer cfg st elapsed) := by
  unfold degraded_answer
  split
  · trivial
  · split <;> trivial

theorem time_stops {α : Type} {k : ℚ → M α} (hk : ∀ now, Stops Refused Block (k now)) :
    Stops Refused Block (.ask .time k) := stops_ask (fun _ h => h.elim) hk

theorem loop_stops (specs : List (ToolSpec × Str)) (loop_start : ℚ) (left : Nat) (st : LoopState) :
    Stops Refused Block (loop py cfg a specs loop_start left st) := by
  induction left generalizing st with
  | zero =>
    rw [loop_zero]
    exact time_stops (fun now => stops_of_open (degraded_answer_open cfg st _))
  | succ left ih =>
    rw [loop_succ]
    refine time_stops (fun now => ?_)
    split
    · apply stops_ask
      · intro reply hrefused
        obtain ⟨exc, rfl, hblock⟩ := hrefused
        exact failing_throw hblock
      · intro reply
        cases reply with
        | error exc => exact stops_done _
        | ok resp =>
          show Stops Refused Block (AgenticLoop.respond py cfg a specs loop_start left st _ resp)
          unfold AgenticLoop.respond
          split
          · exact stops_done _
          · split
            · exact stops_done _
            · exact stops_bind (stops_of_open (tool_calls_open py cfg a _ _)) (fun out => ih _)
    · exact stops_of_open (degraded_answer_open cfg st _)

theorem run_agentic_loop_stops : Stops Refused Block (run_agentic_loop py cfg a) := by
  rw [run_agentic_loop_eq]
  refine time_stops (fun loop_start => stops_bind ?_ (fun specs => loop_stops py cfg a specs _ _ _))
  exact stops_of_open ((list_specs_asks a.mcp_adapters).mono open_of_listing)

theorem yieldAll_open (es : List StepEvent) : AsksOnly Open (yieldAll es) := by
  induction es with
  | nil => trivial
  | cons e es ih => exact ih

theorem tool_call_streaming_open (routes : Routes) (u : ToolUse) :
    AsksOnly Open (tool_call_streaming py cfg a routes u) := by
  cases h : sanitize_args_for_display py u.input with
  | error exc =>
    rw [tool_call_streaming_error py cfg a routes u exc h]
    trivial
  | ok args_display =>
    rw [tool_call_streaming_ok py cfg a routes u args_display h]
    constructor
    · trivial
    · intro verdict
      show AsksOnly Open (if verdict = .accepted then _ else _)
      split
      · split
        · trivial
        · apply asksOnly_bind
          · exact (pool_call_tool_asks _ _ _ _).mono open_of_pool
          · exact fun raw => ⟨trivial, fun _ => trivial⟩
      · trivial

theorem tool_calls_streaming_open (routes : Routes) (us : List ToolUse) :
    AsksOnly Open (tool_calls_streaming py cfg a routes us) := by
  induction us with
  | nil => trivial
  | cons u us ih =>
    rw [tool_calls_streaming_cons]
    apply asksOnly_bind
    · exact tool_call_streaming_open py cfg a routes u
    · exact fun _ => asksOnly_bind Open _ _ ih (fun _ => trivial)

theorem loop_streaming_stops (thinks : Bool) (specs : List (ToolSpec × Str)) (loop_start : ℚ)
    (left : Nat) (st : LoopState) :
    Stops Refused Block (loop_streaming py cfg thinks a specs loop_start left st) := by
  induction left generalizing st with
  | zero =>
    rw [loop_streaming_zero]
    exact time_stops (fun now => stops_of_open (yieldAll_open _))
  | succ left ih =>
    rw [loop_streaming_succ]
    refine time_stops (fun now => ?_)
    split
    · split
      · exact stops_done _
      · apply stops_ask
        · intro reply hrefused
          obtain ⟨exc, rfl, hblock⟩ := hrefused
          exact failing_throw hblock
        · intro reply
          cases reply with
          | error exc => exact stops_done _
          | ok resp =>
            refine stops_bind (stops_of_open (yieldAll_open _)) (fun _ => ?_)
            unfold respond_streaming
            split
            · exact stops_of_open (yieldAll_open _)
            · split
              · exact stops_of_open (yieldAll_open _)
              · exact stops_bind (stops_of_open (tool_calls_streaming_open py cfg a _ _))
                  (fun out => ih _)
    · exact stops_of_open (yieldAll_open _)

theorem run_agentic_loop_streaming_stops (thinks : Bool) :
    Stops Refused Block (run_agentic_loop_streaming py cfg thinks a) := by
  rw [run_agentic_loop_streaming_eq]
  refine time_stops (fun loop_start => stops_bind ?_
    (fun specs => loop_streaming_stops py cfg a thinks specs _ _ _))
  exact stops_of_open ((list_specs_asks a.mcp_adapters).mono open_of_listing)

end Loop

section Agents
variable (py : Runtime) (s : Settings)

theorem scanInput_stops (text : Str) (ids : Ids) : Stops Refused Block (scanInput text ids) := by
  apply stops_ask
  · intro reply hrefused
    obtain ⟨exc, rfl, hblock⟩ := hrefused
    exact failing_throw hblock
  · exact fun reply => stops_done _

theorem invoke_stops (call : InvokeCall) : Stops Refused Block (invoke call) := by
  apply stops_ask
  · intro reply hrefused
    obtain ⟨exc, rfl, hblock⟩ := hrefused
    exact failing_throw hblock
  · exact fun reply => stops_done _

theorem collect_all_open (adapters : List DatasourceAdapter) (query : Str) :
    AsksOnly Open (collect_all adapters query) := by
  induction adapters with
  | nil => trivial
  | cons adapter adapters ih =>
    apply asksOnly_bind
    · exact ⟨trivial, fun _ => trivial⟩
    · exact fun _ => asksOnly_bind Open _ _ ih (fun _ => trivial)

theorem inject_open (enabled : Bool) (infra_data : Str) :
    AsksOnly Open (inject enabled infra_data) := by
  unfold inject
  split
  · trivial
  · exact ⟨trivial, fun _ => ⟨trivial, fun _ => trivial⟩⟩

theorem detect_open (enabled : Bool) (threshold : Int) (response : Str)
    (tokens : List Str) (session_id : Str) :
    AsksOnly Open (detect py enabled threshold response tokens session_id) := by
  unfold detect
  split
  · trivial
  · dsimp only
    split
    · constructor
      · trivial
      · intro count
        show AsksOnly Open (if threshold < count then _ else _)
        split <;> trivial
    · trivial

variable (ag : Agent) (call : AgentCall)

theorem answer_path_stops (input_text system_prompt : Str) :
    Stops Refused Block (answer_path py s ag call input_text system_prompt) := by
  unfold answer_path
  split
  · refine stops_bind (stops_of_open (collect_all_open _ _)) (fun contexts => ?_)
    refine stops_bind (stops_of_open ?_) (fun infra => ?_)
    · unfold inject_present
      split
      · trivial
      · exact inject_open _ _
    · refine stops_bind (run_agentic_loop_stops py s.loop _) (fun out => ?_)
      exact stops_bind (stops_of_open (detect_open py _ _ _ _ _)) (fun _ => stops_done _)
  · refine stops_bind ?_ (fun _ => stops_done _)
    refine stops_bind (stops_of_open (collect_all_open _ _)) (fun contexts => ?_)
    refine stops_bind (stops_of_open (inject_open _ _)) (fun infra => ?_)
    exact stops_bind (invoke_stops _) (fun _ => stops_of_open (detect_open py _ _ _ _ _))

/-- A refusal of the model is the outcome of the agent. -/
theorem agent_request_stops :
    Stops Refused Block (GenericAgent.process_request py s ag call) := by
  unfold GenericAgent.process_request
  split
  · exact stops_done _
  · refine stops_bind (scanInput_stops _ _) (fun input_text => ?_)
    exact stops_bind (answer_path_stops py s ag call _ _) (fun _ => stops_done _)

theorem agent_stream_stops :
    Stops Refused Block (GenericAgent.process_request_streaming py s ag call) :=
  stops_bind (scanInput_stops _ _) (fun _ =>
    stops_bind (stops_of_open (collect_all_open _ _)) (fun _ => stops_done _))

/-- The stream of an agent, consumed. -/
theorem agent_events_stop {tr : List Ev} {gen : M Unit}
    (h : Path (GenericAgent.process_request_streaming py s ag call) tr (.ok gen)) :
    Stops Refused Block gen := by
  obtain ⟨input_text, s₁, t₁, rfl, _, h₁⟩ := Path.of_bind_ok h
  obtain ⟨contexts, s₂, t₂, rfl, _, h₂⟩ := Path.of_bind_ok h₁
  obtain ⟨_, hgen⟩ := (path_done _ _ _).mp h₂
  cases hgen
  exact run_agentic_loop_streaming_stops py s.loop _ _

end Agents

/-! ## The supervisor -/

/-- A refusal among the results is raised. -/
theorem refuse_blocked_fails {α : Type} {results : List (Except Exn α)}
    (h : ∃ exc, Except.error exc ∈ results ∧ Block exc) :
    ∃ exc, refuse_blocked results = .error exc ∧ Block exc := by
  obtain ⟨exc, hmem, reason, source, categories, rfl⟩ := h
  have hsome : (results.findSome? guardrail_block).isSome = true := by
    rw [List.findSome?_isSome_iff]
    exact ⟨_, hmem, rfl⟩
  obtain ⟨block, hblock⟩ := Option.isSome_iff_exists.mp hsome
  obtain ⟨result, _, hfound⟩ := List.exists_of_findSome?_eq_some hblock
  refine ⟨block, by rw [refuse_blocked, hblock], ?_⟩
  unfold guardrail_block at hfound
  split at hfound
  · cases hfound
    exact ⟨_, _, _, rfl⟩
  · cases hfound

section Supervised
variable (py : Runtime) (sup : SupervisorAgent) (req : Supervisor.Request)

theorem save_open (agent_id : Str) (message : ConversationMessage) :
    AsksOnly Open (save req agent_id message) := ⟨trivial, fun _ => trivial⟩

theorem fetch_chat_open (agent_id : Str) : AsksOnly Open (fetch_chat req agent_id) :=
  ⟨trivial, fun _ => trivial⟩

theorem ingress_stops : Stops Refused Block (ingress req) := by
  refine stops_bind (scanInput_stops _ _) (fun user_input => stops_of_open ?_)
  apply asksOnly_bind
  · exact ⟨trivial, fun _ => trivial⟩
  · exact fun _ => asksOnly_bind Open _ _ trivial (fun _ => trivial)

theorem classify_stops (user_input : Str) : Stops Refused Block (classify req user_input) := by
  apply stops_bind
  · exact stops_of_open ⟨trivial, fun _ => trivial⟩
  · intro chat_history
    apply stops_ask
    · intro reply hrefused
      obtain ⟨exc, rfl, hblock⟩ := hrefused
      exact failing_throw hblock
    · exact fun reply => stops_done _

theorem conclude_open (agent_name : Str) (c : ClassifierResult)
    (result : Except Exn ConversationMessage) :
    AsksOnly Open (conclude req agent_name c result) := by
  unfold conclude
  split
  · trivial
  · trivial
  · exact asksOnly_bind Open _ _ (save_open req _ _) (fun _ => trivial)

theorem single_agent_call_stops (agent_name : Str) (c : ClassifierResult) (user_input : Str)
    (o : Option Str) :
    Stops Refused Block (single_agent_call py sup req agent_name c user_input o) := by
  refine stops_bind (stops_of_open (fetch_chat_open req _)) (fun agent_history => ?_)
  refine stops_bind (stops_done _) (fun ag => ?_)
  refine stops_attempt (agent_request_stops py sup.settings ag _) (fun exc hblock => ?_)
    (fun result => stops_of_open (conclude_open req agent_name c result))
  obtain ⟨reason, source, categories, rfl⟩ := hblock
  exact failing_throw ⟨_, _, _, rfl⟩

theorem synthesize_stops (query : Str) (responses : List (Str × Str)) (failed : List Str) :
    Stops Refused Block (synthesize req query responses failed) := by
  unfold synthesize
  split
  · exact stops_done _
  · exact invoke_stops _

/-- A program that goes on only without a refusal among the results. -/
theorem refuse_blocked_failing {α β : Type} {results : List (Except Exn α)} {f : Unit → M β}
    (h : ∃ exc, Except.error exc ∈ results ∧ Block exc) :
    Failing Block ((.ofExcept (refuse_blocked results) : M Unit).bind f) := by
  obtain ⟨exc, hraised, hblock⟩ := refuse_blocked_fails h
  rw [hraised]
  exact failing_throw hblock

theorem fan_out_stops (primary : AgentMatch) (others : List AgentMatch) (user_input : Str)
    (o : Option Str) : Stops Refused Block (fan_out py sup req primary others user_input o) := by
  unfold fan_out
  refine stops_bind (stops_done _) (fun specialists => ?_)
  refine stops_gather ?_ (fun results h => refuse_blocked_failing h) (fun results => ?_)
  · intro p hp
    obtain ⟨q, _, rfl⟩ := List.mem_map.mp hp
    exact agent_request_stops py sup.settings q.2 _
  · refine stops_bind (stops_done _) (fun _ => ?_)
    refine stops_bind (synthesize_stops req _ _ _) (fun final_response => ?_)
    exact stops_bind (stops_of_open (save_open req _ _)) (fun _ => stops_done _)

theorem answer_forced_stops (name user_input : Str) :
    Stops Refused Block (answer_forced py sup req name user_input) :=
  stops_bind (stops_of_open (save_open req _ _))
    (fun _ => single_agent_call_stops py sup req name _ user_input _)

theorem answer_classified_stops (c : ClassifierResult) (user_input : Str) :
    Stops Refused Block (answer_classified py sup req c user_input) := by
  unfold answer_classified
  split
  · exact stops_done _
  · split
    · exact stops_done _
    · refine stops_bind (stops_of_open (save_open req _ _)) (fun _ => ?_)
      dsimp only
      split
      · exact single_agent_call_stops py sup req _ c user_input _
      · exact fan_out_stops py sup req _ _ user_input _

section Entry
variable [Values]

theorem run_investigation_stops (s : Settings) (inv : Investigation) :
    Stops Refused Block (run_investigation py s inv) := by
  refine stops_bind (scanInput_stops _ _) (fun symptom => ?_)
  refine stops_bind (stops_of_open ⟨trivial, fun _ => trivial⟩) (fun id => ?_)
  refine stops_bind (stops_done _) (fun specialists => ?_)
  refine stops_gather ?_ (fun results h => refuse_blocked_failing h) (fun results => ?_)
  · intro p hp
    obtain ⟨ag, _, rfl⟩ := List.mem_map.mp hp
    exact agent_request_stops py s ag _
  · refine stops_bind (stops_done _) (fun _ => ?_)
    refine stops_bind (stops_done _) (fun collected => ?_)
    refine stops_bind (stops_done _) (fun built => ?_)
    refine stops_bind ?_ (fun rca => stops_done _)
    refine stops_bind (stops_of_open ⟨trivial, fun _ => trivial⟩) (fun rag_block => ?_)
    exact stops_bind (invoke_stops _) (fun response => stops_done _)

theorem respond_stops (user_input : Str) :
    Stops Refused Block (Supervisor.respond py sup req user_input) := by
  unfold Supervisor.respond
  split
  · exact answer_forced_stops py sup req _ user_input
  · split
    · exact stops_bind (run_investigation_stops py _ _) (fun _ => stops_done _)
    · exact stops_bind (classify_stops req user_input)
        (fun c => answer_classified_stops py sup req c user_input)

omit [Values] in
theorem recover_failing (exc : Exn) (h : Block exc) : Failing Block (recover exc) := by
  obtain ⟨reason, source, categories, rfl⟩ := h
  exact failing_throw ⟨_, _, _, rfl⟩

theorem process_request_stops :
    Stops Refused Block (Supervisor.process_request py sup req) := by
  refine stops_handle ?_ recover_failing (fun exc => ?_)
  · refine stops_bind (stops_of_open ⟨trivial, fun _ => trivial⟩) (fun budget => ?_)
    unfold within_budget
    split
    · exact stops_done _
    · exact stops_done _
    · exact stops_bind (ingress_stops req) (respond_stops py sup req)
  · cases exc with
    | _ => exact stops_done _

end Entry

/-! ### The streams -/

/-- A stream is offered, bare or behind its routing step. -/
theorem stream_agent_stops (ag : Agent) (agent_name user_input agent_input : Str)
    (o : Option Str) (wrap : M Unit → M Unit)
    (hwrap : ∀ gen, Stops Refused Block gen → Stops Refused Block (wrap gen)) :
    Stops Refused Block (consumed
      ((stream_agent py sup req ag agent_name user_input agent_input o).bind
        (fun gen => pure (some (wrap gen))))) := by
  rw [consumed_bind]
  refine stops_bind_of ?_ (fun s gen h => ?_)
  · refine stops_bind (stops_of_open (save_open req _ _)) (fun _ => ?_)
    refine stops_bind (stops_of_open (fetch_chat_open req _)) (fun chat_history => ?_)
    exact agent_stream_stops py sup.settings ag _
  · obtain ⟨_, s₁, t₁, rfl, _, h₁⟩ := Path.of_bind_ok h
    obtain ⟨chat_history, s₂, t₂, rfl, _, h₂⟩ := Path.of_bind_ok h₁
    show Stops Refused Block ((wrap gen).bind (fun _ => pure true))
    exact stops_bind (hwrap gen (agent_events_stop py sup.settings ag _ h₂))
      (fun _ => stops_done _)

theorem stream_forced_stops (name user_input : Str) :
    Stops Refused Block (consumed (stream_forced py sup req name user_input)) := by
  unfold stream_forced
  refine (consumed_bind _ _) ▸ stops_bind (stops_done _) (fun ag => ?_)
  dsimp only
  split
  · exact stream_agent_stops py sup req ag _ _ _ _ id (fun _ h => h)
  · exact stops_done _

theorem stream_classified_stops (c : ClassifierResult) (user_input : Str) :
    Stops Refused Block (consumed (stream_classified py sup req c user_input)) := by
  unfold stream_classified
  split
  · exact stops_done _
  · split
    · next m _ =>
      refine (consumed_bind _ _) ▸ stops_bind (stops_done _) (fun ag => ?_)
      split
      · exact stream_agent_stops py sup req ag _ _ _ _ (.emit (routing m c))
          (fun _ h => stops_emit h)
      · exact stops_done _
    · exact stops_done _

theorem stream_stops : Stops Refused Block (stream_consumed py sup req) := by
  show Stops Refused Block (consumed ((check_budget req).bind
    (within_budget none (stream_attended py sup req))))
  rw [consumed_bind]
  refine stops_bind (stops_of_open ⟨trivial, fun _ => trivial⟩) (fun budget => ?_)
  unfold within_budget
  split
  · exact stops_done _
  · exact stops_done _
  · unfold stream_attended
    refine (consumed_bind _ _) ▸ stops_bind (ingress_stops req) (fun user_input => ?_)
    split
    · exact stream_forced_stops py sup req _ user_input
    · split
      · exact stops_done _
      · exact (consumed_bind _ _) ▸ stops_bind (classify_stops req user_input)
          (fun c => stream_classified_stops py sup req c user_input)

/-- Once the guardrail has refused anything that is asked for a request, by whichever of
its agents, the request ends in a refusal, streamed or not. -/
theorem refusal_stands [Values] (tr : List Ev) (hrefused : Received Refused tr) :
    (∀ r, Path (Supervisor.process_request py sup req) tr r → Blocked r) ∧
      ∀ r, Path (stream_consumed py sup req) tr r → Blocked r :=
  ⟨fun r h => process_request_stops py sup req tr r h hrefused,
    fun r h => stream_stops py sup req tr r h hrefused⟩

end Supervised

/-! ### A refused model call -/

def refusing (s : Sigma Answer) : Bool :=
  match s with
  | ⟨.converse _, .error (.GuardrailBlockedError _ _ _)⟩ => true
  | _ => false

theorem refused_of_refusing {s : Sigma Answer} (h : refusing s = true) : Refused s := by
  unfold refusing at h
  split at h
  · exact ⟨_, rfl, _, _, _, rfl⟩
  · cases h

def refusingEnv : Env Ask Answer := fun _ e =>
  match e with
  | .converse _ => .error (.GuardrailBlockedError "denied topic".toList "OUTPUT".toList [])
  | e => calm e

def refusedStream : List Ev × Except Exn Bool :=
  run refusingEnv [] (stream_consumed asciiRuntime podSquad podRequest)

def refusedAnswer : List Ev × Except Exn Reply :=
  run refusingEnv [] (@Supervisor.process_request textValues asciiRuntime podSquad podRequest)

theorem received_of_any {tr : List Ev} (h : (asks tr).any refusing = true) :
    Received Refused tr := by
  obtain ⟨s, hs, hrefusing⟩ := List.any_eq_true.mp h
  exact ⟨s, hs, refused_of_refusing hrefusing⟩

set_option maxRecDepth 100000 in
theorem refusedAnswer_received : Received Refused refusedAnswer.1 :=
  received_of_any (by decide +kernel)

set_option maxRecDepth 100000 in
theorem refusedStream_received : Received Refused refusedStream.1 :=
  received_of_any (by decide +kernel)

theorem refusal_stands_pods : Blocked refusedAnswer.2 ∧ Blocked refusedStream.2 := by
  have hanswer := @refusal_stands asciiRuntime podSquad podRequest textValues refusedAnswer.1
    refusedAnswer_received
  have hstream := @refusal_stands asciiRuntime podSquad podRequest textValues refusedStream.1
    refusedStream_received
  exact ⟨hanswer.1 _ (run_path refusingEnv [] _), hstream.2 _ (run_path refusingEnv [] _)⟩

/-! ## At the edge -/

/-- What `internal_process` sends back. -/
inductive HttpResponse where
  | json (reply : Reply)
  | http_exception (status_code : ℕ) (detail : Str)

def blocked_response : HttpResponse :=
  .http_exception 403 "Request blocked by security guardrail".toList

/-- `locked` where the session lock is acquired, or its Redis is down. -/
def internal_process (locked : Bool) (r : Except Exn Reply) : HttpResponse :=
  if locked then
    match r with
    | .ok reply => .json reply
    | .error (.GuardrailBlockedError _ _ _) => blocked_response
    | .error _ => .http_exception 500 "Internal server error".toList
  else .http_exception 409 "Session is already being processed by another worker".toList

/-- `resp.raise_for_status()` -/
def call_outcome : HttpResponse → DailyBudget.Outcome
  | .json _ => .result
  | .http_exception status_code _ => .status status_code

/-- What the client of `/query` is answered once the pool has taken the request. -/
def query_answer (locked : Bool) (r : Except Exn Reply) : DailyBudget.Answer :=
  DailyBudget.processed (call_outcome (internal_process locked r))

theorem recover_raises {exc : Exn} {tr : List Ev} {r : Except Exn Reply}
    (h : Path (recover exc) tr r) : (∃ reply, r = .ok reply) ∨ Blocked r := by
  cases exc with
  | GuardrailBlockedError reason source categories =>
    obtain ⟨_, rfl⟩ := (path_done _ _ _).mp h
    exact .inr ⟨_, rfl, _, _, _, rfl⟩
  | _ =>
    obtain ⟨_, rfl⟩ := (path_done _ _ _).mp h
    exact .inl ⟨_, rfl⟩

/-- A request raises nothing else. -/
theorem replies_or_blocked [Values] {py : Runtime} {sup : SupervisorAgent}
    {req : Supervisor.Request} {tr : List Ev} {r : Except Exn Reply}
    (h : Path (Supervisor.process_request py sup req) tr r) :
    (∃ reply, r = .ok reply) ∨ Blocked r := by
  rcases (path_handle _ _ _ _).mp h with ⟨reply, _, rfl⟩ | ⟨exc, s, t, rfl, _, hrecover⟩
  · exact .inl ⟨reply, rfl⟩
  · exact recover_raises hrecover

theorem query_blocked {r : Except Exn Reply} (h : Blocked r) :
    query_answer true r = DailyBudget.forward_error 403 := by
  obtain ⟨exc, rfl, reason, source, categories, rfl⟩ := h
  rfl

end AigentSquad.Refusals
