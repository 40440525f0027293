import AigentSquad.GenericAgent
import AigentSquad.LoopQuestions

/-!
# In whose name an agent asks

The loops put the ids of their caller into every model call and guardrail check. An
agent puts those of its call into these and into its scan, its count of leaked
canaries and the model call of its path without tools.
-/

set_option autoImplicit false

namespace AigentSquad.AgentQuestions
open AigentSquad.PyText AigentSquad.PyJson AigentSquad.Interaction AigentSquad.Postcondition
open AigentSquad.Truncation AigentSquad.Effects AigentSquad.AgenticLoop
open AigentSquad.AgenticLoopStreaming AigentSquad.Canary AigentSquad.GenericAgent
open AigentSquad.LoopQuestions

/-! ## The loops -/

/-- A question of a loop in the name of its caller. -/
def AskedBy (a : RunArgs) : Ask → Prop
  | .converse call => ∃ tool_config messages, call = converse_call a tool_config messages
  | .guardrail_apply _ _ ids => ids = a.ids
  | e => LoopAsk e

section Loops
variable (py : Runtime) (cfg : LoopConfig) (a : RunArgs)

theorem askedBy_of_pool (e : Ask) (h : PoolAsk e) : AskedBy a e := by
  cases e with
  | converse _ => exact h.elim
  | guardrail_apply _ _ _ => exact h.elim
  | _ => exact loopAsk_of_pool _ h

theorem askedBy_of_listing (e : Ask) (h : ListingAsk e) : AskedBy a e := by
  cases e with
  | converse _ => exact h.elim
  | guardrail_apply _ _ _ => exact h.elim
  | _ => exact loopAsk_of_listing _ h

theorem yieldAll_askedBy (es : List StepEvent) : AsksOnly (AskedBy a) (yieldAll es) := by
  induction es with
  | nil => trivial
  | cons e es ih => exact ih

theorem tool_call_askedBy (routes : Routes) (u : ToolUse) :
    AsksOnly (AskedBy a) (tool_call py cfg a routes u) := by
  rw [tool_call_eq]
  constructor
  · rfl
  · intro verdict
    show AsksOnly (AskedBy a) (if verdict = .accepted then _ else _)
    split
    · split
      · trivial
      · apply asksOnly_bind
        · exact (pool_call_tool_asks _ _ _ _).mono (askedBy_of_pool a)
        · exact fun raw => ⟨rfl, fun _ => trivial⟩
    · trivial

theorem tool_calls_askedBy (routes : Routes) (us : List ToolUse) :
    AsksOnly (AskedBy a) (tool_calls py cfg a routes us) := by
  induction us with
  | nil => trivial
  | cons u us ih =>
    rw [tool_calls_cons]
    apply asksOnly_bind
    · exact tool_call_askedBy py cfg a routes u
    · exact fun _ => asksOnly_bind _ _ _ ih (fun _ => trivial)

theorem degraded_answer_askedBy (st : LoopState) (elapsed : ℚ) :
    AsksOnly (AskedBy a) (degraded_answer cfg st elapsed) := by
  unfold degraded_answer
  split
  · trivial
  · split <;> trivial

theorem loop_askedBy (specs : List (ToolSpec × Str)) (loop_start : ℚ) (left : Nat)
    (st : LoopState) : AsksOnly (AskedBy a) (loop py cfg a specs loop_start left st) := by
  induction left generalizing st with
  | zero =>
    rw [loop_zero]
    exact ⟨trivial, fun now => degraded_answer_askedBy cfg a st _⟩
  | succ left ih =>
    rw [loop_succ]
    constructor
    · trivial
    · intro now
      show AsksOnly (AskedBy a) (if budget_left cfg st (elapsed_ms loop_start now) then _ else _)
      split
      · constructor
        · exact ⟨_, _, rfl⟩
        · intro reply
          cases reply with
          | error e => trivial
          | ok resp =>
            show AsksOnly (AskedBy a) (respond py cfg a specs loop_start left st _ resp)
            unfold respond
            split
            · trivial
            · split
              · trivial
              · apply asksOnly_bind
                · exact tool_calls_askedBy py cfg a _ _
                · exact fun out => ih _
      · exact degraded_answer_askedBy cfg a st _

theorem run_agentic_loop_askedBy : AsksOnly (AskedBy a) (run_agentic_loop py cfg a) := by
  rw [run_agentic_loop_eq]
  constructor
  · trivial
  · intro loop_start
    apply asksOnly_bind
    · exact (list_specs_asks a.mcp_adapters).mono (askedBy_of_listing a)
    · exact fun specs => loop_askedBy py cfg a specs loop_start _ _

theorem tool_call_streaming_askedBy (routes : Routes) (u : ToolUse) :
    AsksOnly (AskedBy a) (tool_call_streaming py cfg a routes u) := by
  cases h : sanitize_args_for_display py u.input with
  | error e =>
    rw [tool_call_streaming_error _ _ _ _ _ e h]
    trivial
  | ok args_display =>
    rw [tool_call_streaming_ok _ _ _ _ _ args_display h]
    constructor
    · rfl
    · intro verdict
      show AsksOnly (AskedBy a) (if verdict = .accepted then _ else _)
      split
      · split
        · trivial
        · apply asksOnly_bind
          · exact (pool_call_tool_asks _ _ _ _).mono (askedBy_of_pool a)
          · exact fun raw => ⟨rfl, fun _ => trivial⟩
      · trivial

theorem tool_calls_streaming_askedBy (routes : Routes) (us : List ToolUse) :
    AsksOnly (AskedBy a) (tool_calls_streaming py cfg a routes us) := by
  induction us with
  | nil => trivial
  | cons u us ih =>
    rw [tool_calls_streaming_cons]
    apply asksOnly_bind
    · exact tool_call_streaming_askedBy py cfg a routes u
    · exact fun _ => asksOnly_bind _ _ _ ih (fun _ => trivial)

theorem loop_streaming_askedBy (thinks : Bool) (specs : List (ToolSpec × Str)) (loop_start : ℚ)
    (left : Nat) (st : LoopState) :
    AsksOnly (AskedBy a) (loop_streaming py cfg thinks a specs loop_start left st) := by
  induction left generalizing st with
  | zero =>
    rw [loop_streaming_zero]
    exact ⟨trivial, fun _ => yieldAll_askedBy a _⟩
  | succ left ih =>
    rw [loop_streaming_succ]
    constructor
    · trivial
    · intro now
      show AsksOnly (AskedBy a) (if budget_left cfg st (elapsed_ms loop_start now) then _ else _)
      split
      · split
        · trivial
        · constructor
          · exact ⟨_, _, rfl⟩
          · intro reply
            cases reply with
            | error e => trivial
            | ok resp =>
              apply asksOnly_bind
              · exact yieldAll_askedBy a _
              · intro _
                unfold respond_streaming
                split
                · exact yieldAll_askedBy a _
                · split
                  · exact yieldAll_askedBy a _
                  · apply asksOnly_bind
                    · exact tool_calls_streaming_askedBy py cfg a _ _
                    · exact fun out => ih _
      · exact yieldAll_askedBy a _

theorem run_agentic_loop_streaming_askedBy (thinks : Bool) :
    AsksOnly (AskedBy a) (run_agentic_loop_streaming py cfg thinks a) := by
  rw [run_agentic_loop_streaming_eq]
  constructor
  · trivial
  · intro loop_start
    apply asksOnly_bind
    · exact (list_specs_asks a.mcp_adapters).mono (askedBy_of_listing a)
    · exact fun specs => loop_streaming_askedBy py cfg a thinks specs loop_start _ _

end Loops

/-! ## The agents -/

/-- A question of an agent in the name of its call; the override only reaches the loops. -/
def AskedFor (call : AgentCall) : Ask → Prop
  | .converse c => c.user_id = call.user_id ∧ c.session_id = call.session_id ∧
      c.budget_session_id = call.budget_session_id ∧ c.model_id_override = call.model_id_override
  | .invoke c => c.user_id = call.user_id ∧ c.session_id = call.session_id ∧
      c.budget_session_id = call.budget_session_id
  | .guardrail_apply _ _ ids => ids.user_id = call.user_id ∧ ids.session_id = call.session_id
  | .scan_input _ ids => ids.user_id = call.user_id ∧ ids.session_id = call.session_id
  | .count_detection session_id => session_id = call.session_id
  | .collect _ _ => True
  | .token_hex => True
  | e => LoopAsk e

section Agents
variable (py : Runtime) (s : Settings) (ag : Agent) (call : AgentCall)

theorem askedFor_of_loop (input_text system_prompt : Str) (e : Ask)
    (h : AskedBy (run_args s ag call input_text system_prompt) e) : AskedFor call e := by
  cases e with
  | converse c =>
    obtain ⟨tool_config, messages, rfl⟩ := h
    exact ⟨rfl, rfl, rfl, rfl⟩
  | guardrail_apply text source ids =>
    cases h
    exact ⟨rfl, rfl⟩
  | invoke c => exact (h.elim id id).elim
  | scan_input _ _ => exact (h.elim id id).elim
  | count_detection _ => exact (h.elim id id).elim
  | collect _ _ => trivial
  | token_hex => trivial
  | _ => exact h

theorem collect_all_askedFor (adapters : List DatasourceAdapter) (query : Str) :
    AsksOnly (AskedFor call) (collect_all adapters query) := by
  induction adapters with
  | nil => trivial
  | cons adapter adapters ih =>
    apply asksOnly_bind
    · exact ⟨trivial, fun _ => trivial⟩
    · exact fun _ => asksOnly_bind _ _ _ ih (fun _ => trivial)

theorem inject_askedFor (enabled : Bool) (infra_data : Str) :
    AsksOnly (AskedFor call) (inject enabled infra_data) := by
  unfold inject
  split
  · trivial
  · exact ⟨trivial, fun _ => ⟨trivial, fun _ => trivial⟩⟩

theorem detect_askedFor (enabled : Bool) (threshold : Int) (response : Str) (tokens : List Str) :
    AsksOnly (AskedFor call) (detect py enabled threshold response tokens call.session_id) := by
  unfold detect
  split
  · trivial
  · dsimp only
    split
    · constructor
      · rfl
      · intro count
        show AsksOnly (AskedFor call) (if threshold < count then _ else _)
        split <;> trivial
    · trivial

theorem answer_path_askedFor (input_text system_prompt : Str) :
    AsksOnly (AskedFor call) (answer_path py s ag call input_text system_prompt) := by
  unfold answer_path
  split
  · apply asksOnly_bind
    · exact collect_all_askedFor call _ _
    · intro contexts
      apply asksOnly_bind
      · unfold inject_present
        split
        · trivial
        · exact inject_askedFor call _ _
      · intro infra
        apply asksOnly_bind
        · exact (run_agentic_loop_askedBy py s.loop _).mono (askedFor_of_loop s ag call _ _)
        · intro out
          exact asksOnly_bind _ _ _ (detect_askedFor py call _ _ _ _) (fun _ => trivial)
  · refine asksOnly_bind _ _ _ ?_ (fun _ => trivial)
    apply asksOnly_bind
    · exact collect_all_askedFor call _ _
    · intro contexts
      apply asksOnly_bind
      · exact inject_askedFor call _ _
      · intro infra
        apply asksOnly_bind
        · exact ⟨⟨rfl, rfl, rfl⟩, fun _ => trivial⟩
        · exact fun response => detect_askedFor py call _ _ _ _

theorem agent_request_askedFor :
    AsksOnly (AskedFor call) (GenericAgent.process_request py s ag call) := by
  unfold GenericAgent.process_request
  split
  · trivial
  · apply asksOnly_bind
    · exact ⟨⟨rfl, rfl⟩, fun _ => trivial⟩
    · intro input_text
      exact asksOnly_bind _ _ _ (answer_path_askedFor py s ag call _ _) (fun _ => trivial)

theorem agent_stream_askedFor :
    AsksOnly (AskedFor call) (GenericAgent.process_request_streaming py s ag call) := by
  apply asksOnly_bind
  · exact ⟨⟨rfl, rfl⟩, fun _ => trivial⟩
  · exact fun _ => asksOnly_bind _ _ _ (collect_all_askedFor call _ _) (fun _ => trivial)

/-- What is asked while the stream is consumed. -/
theorem agent_events_askedFor (tr : List Ev) (gen : M Unit)
    (h : Path (GenericAgent.process_request_streaming py s ag call) tr (.ok gen)) :
    AsksOnly (AskedFor call) gen := by
  obtain ⟨input_text, s₁, t₁, rfl, hscan, h₁⟩ := Path.of_bind_ok h
  obtain ⟨contexts, s₂, t₂, rfl, hcollect, h₂⟩ := Path.of_bind_ok h₁
  obtain ⟨_, hgen⟩ := (path_done _ _ _).mp h₂
  cases hgen
  exact (run_agentic_loop_streaming_askedBy py s.loop _ _).mono (askedFor_of_loop s ag call _ _)

end Agents

end AigentSquad.AgentQuestions
