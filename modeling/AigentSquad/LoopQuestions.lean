import AigentSquad.AgenticLoopStreaming
import AigentSquad.Postcondition

/-!
# What the loops ask

Neither loop asks for more than the clock, the tool listings, the model, the
guardrail, and what the session pool asks around a tool execution.
-/

set_option autoImplicit false

namespace AigentSquad.LoopQuestions
open AigentSquad.PyText AigentSquad.PyJson AigentSquad.Interaction AigentSquad.Postcondition
open AigentSquad.Truncation AigentSquad.Effects AigentSquad.AgenticLoop
open AigentSquad.AgenticLoopStreaming

def PoolAsk : Ask → Prop
  | .can_execute _ => True
  | .call_tool _ _ _ => True
  | .record_success _ => True
  | .record_failure _ => True
  | _ => False

def ListingAsk : Ask → Prop
  | .list_tool_specs _ => True
  | _ => False

def LoopAsk : Ask → Prop
  | .time => True
  | .converse _ => True
  | .guardrail_apply _ _ _ => True
  | e => PoolAsk e ∨ ListingAsk e

theorem loopAsk_of_pool (e : Ask) (h : PoolAsk e) : LoopAsk e := by
  cases e with
  | can_execute _ => exact .inl h
  | call_tool _ _ _ => exact .inl h
  | record_success _ => exact .inl h
  | record_failure _ => exact .inl h
  | _ => exact h.elim

theorem loopAsk_of_listing (e : Ask) (h : ListingAsk e) : LoopAsk e := by
  cases e with
  | list_tool_specs _ => exact .inr h
  | _ => exact h.elim

theorem record_asks (url : Str) (o : ToolOutcome) : AsksOnly PoolAsk (record url o) := by
  cases o with
  | permission_error _ => trivial
  | _ => exact ⟨trivial, fun _ => trivial⟩

theorem pool_call_tool_asks (adapters : List McpAdapter) (adapter_name tool_name : Str)
    (args : Json) : AsksOnly PoolAsk (pool_call_tool adapters adapter_name tool_name args) := by
  cases h : adapter_by_name adapters adapter_name with
  | none =>
    rw [pool_call_tool_missing _ _ _ _ h]
    trivial
  | some adapter =>
    rw [pool_call_tool_found _ _ _ _ adapter h]
    constructor
    · trivial
    · intro closed
      cases closed with
      | false => trivial
      | true =>
        constructor
        · trivial
        · exact fun o => asksOnly_bind PoolAsk _ _ (record_asks adapter.url o) (fun _ => trivial)

theorem list_specs_asks (adapters : List McpAdapter) :
    AsksOnly ListingAsk (list_specs adapters) := by
  induction adapters with
  | nil => trivial
  | cons adapter adapters ih =>
    rw [list_specs_cons]
    exact ⟨trivial, fun _ => asksOnly_bind ListingAsk _ _ ih (fun _ => trivial)⟩

theorem yieldAll_asks (es : List StepEvent) : AsksOnly LoopAsk (yieldAll es) := by
  induction es with
  | nil => trivial
  | cons e es ih => exact ih

section Loops
variable (py : Runtime) (cfg : LoopConfig) (a : RunArgs)

theorem tool_call_asks (routes : Routes) (u : ToolUse) :
    AsksOnly LoopAsk (tool_call py cfg a routes u) := by
  rw [tool_call_eq]
  constructor
  · trivial
  · intro verdict
    show AsksOnly LoopAsk (if verdict = .accepted then _ else _)
    split
    · split
      · trivial
      · apply asksOnly_bind
        · exact (pool_call_tool_asks _ _ _ _).mono loopAsk_of_pool
        · exact fun raw => ⟨trivial, fun _ => trivial⟩
    · trivial

theorem tool_calls_asks (routes : Routes) (us : List ToolUse) :
    AsksOnly LoopAsk (tool_calls py cfg a routes us) := by
  induction us with
  | nil => trivial
  | cons u us ih =>
    rw [tool_calls_cons]
    apply asksOnly_bind
    · exact tool_call_asks py cfg a routes u
    · exact fun _ => asksOnly_bind LoopAsk _ _ ih (fun _ => trivial)

theorem degraded_answer_asks (cfg : LoopConfig) (st : LoopState) (elapsed : ℚ) :
    AsksOnly LoopAsk (degraded_answer cfg st elapsed) := by
  unfold degraded_answer
  split
  · trivial
  · split <;> trivial

theorem loop_asks (specs : List (ToolSpec × Str))
    (loop_start : ℚ) (left : Nat) (st : LoopState) :
    AsksOnly LoopAsk (loop py cfg a specs loop_start left st) := by
  induction left generalizing st with
  | zero =>
    rw [loop_zero]
    exact ⟨trivial, fun now => degraded_answer_asks cfg st _⟩
  | succ left ih =>
    rw [loop_succ]
    constructor
    · trivial
    · intro now
      show AsksOnly LoopAsk (if budget_left cfg st (elapsed_ms loop_start now) then _ else _)
      split
      · constructor
        · trivial
        · intro answer
          cases answer with
          | error e => trivial
          | ok resp =>
            show AsksOnly LoopAsk (respond py cfg a specs loop_start left st _ resp)
            unfold respond
            split
            · trivial
            · split
              · trivial
              · apply asksOnly_bind
                · exact tool_calls_asks py cfg a _ _
                · exact fun out => ih _
      · exact degraded_answer_asks cfg st _

theorem run_agentic_loop_asks :
    AsksOnly LoopAsk (run_agentic_loop py cfg a) := by
  rw [run_agentic_loop_eq]
  constructor
  · trivial
  · intro loop_start
    apply asksOnly_bind
    · exact (list_specs_asks a.mcp_adapters).mono loopAsk_of_listing
    · exact fun specs => loop_asks py cfg a specs loop_start _ _

theorem tool_call_streaming_asks (routes : Routes)
    (u : ToolUse) : AsksOnly LoopAsk (tool_call_streaming py cfg a routes u) := by
  cases h : sanitize_args_for_display py u.input with
  | error e =>
    rw [tool_call_streaming_error _ _ _ _ _ e h]
    trivial
  | ok args_display =>
    rw [tool_call_streaming_ok _ _ _ _ _ args_display h]
    constructor
    · trivial
    · intro verdict
      show AsksOnly LoopAsk (if verdict = .accepted then _ else _)
      split
      · split
        · trivial
        · apply asksOnly_bind
          · exact (pool_call_tool_asks _ _ _ _).mono loopAsk_of_pool
          · exact fun raw => ⟨trivial, fun _ => trivial⟩
      · trivial

theorem tool_calls_streaming_asks (routes : Routes)
    (us : List ToolUse) : AsksOnly LoopAsk (tool_calls_streaming py cfg a routes us) := by
  induction us with
  | nil => trivial
  | cons u us ih =>
    rw [tool_calls_streaming_cons]
    apply asksOnly_bind
    · exact tool_call_streaming_asks py cfg a routes u
    · exact fun _ => asksOnly_bind LoopAsk _ _ ih (fun _ => trivial)

theorem loop_streaming_asks (thinks : Bool)
    (specs : List (ToolSpec × Str)) (loop_start : ℚ) (left : Nat) (st : LoopState) :
    AsksOnly LoopAsk (loop_streaming py cfg thinks a specs loop_start left st) := by
  induction left generalizing st with
  | zero =>
    rw [loop_streaming_zero]
    exact ⟨trivial, fun _ => yieldAll_asks _⟩
  | succ left ih =>
    rw [loop_streaming_succ]
    constructor
    · trivial
    · intro now
      show AsksOnly LoopAsk (if budget_left cfg st (elapsed_ms loop_start now) then _ else _)
      split
      · split
        · trivial
        · constructor
          · trivial
          · intro answer
            cases answer with
            | error e => trivial
            | ok resp =>
              apply asksOnly_bind
              · exact yieldAll_asks _
              · intro _
                unfold respond_streaming
                split
                · exact yieldAll_asks _
                · split
                  · exact yieldAll_asks _
                  · apply asksOnly_bind
                    · exact tool_calls_streaming_asks py cfg a _ _
                    · exact fun out => ih _
      · exact yieldAll_asks _

theorem run_agentic_loop_streaming_asks (thinks : Bool) :
    AsksOnly LoopAsk (run_agentic_loop_streaming py cfg thinks a) := by
  rw [run_agentic_loop_streaming_eq]
  constructor
  · trivial
  · intro loop_start
    apply asksOnly_bind
    · exact (list_specs_asks a.mcp_adapters).mono loopAsk_of_listing
    · exact fun specs => loop_streaming_asks py cfg a thinks specs loop_start _ _

end Loops

end AigentSquad.LoopQuestions
