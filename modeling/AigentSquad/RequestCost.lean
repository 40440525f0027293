import AigentSquad.Refusals

/-!
# The model calls of a request

Each agent of a request has its own loop, with a budget of its own. Together with
the classification and the synthesis they bound what one request asks of the model,
whatever the model answers.
-/

set_option autoImplicit false

namespace AigentSquad.RequestCost
open AigentSquad.PyText AigentSquad.PyJson AigentSquad.Dict AigentSquad.Interaction
open AigentSquad.Postcondition AigentSquad.Truncation AigentSquad.Effects
open AigentSquad.AgenticLoop AigentSquad.AgenticLoopStreaming AigentSquad.GenericAgent
open AigentSquad.EvidenceExchange AigentSquad.RunInvestigation AigentSquad.LoopQuestions
open AigentSquad.Supervisor AigentSquad.StoredHistory AigentSquad.RequestScope
open AigentSquad.Refusals

def model_ask : Ask → Bool
  | .converse _ => true
  | .invoke _ => true
  | .classify _ _ _ _ => true
  | _ => false

def model_calls (tr : List Ev) : ℕ := tr.countP (asks_for model_ask)

/-- What one agent may ask, with tools or without. -/
def agent_calls (cfg : LoopConfig) : ℕ := max 1 cfg.MAX_TOOL_STEPS.toNat

theorem silent_of_open (e : Ask) (h : Open e) : model_ask e = false := by
  cases e with
  | converse _ => exact h.elim
  | invoke _ => exact h.elim
  | classify _ _ _ _ => exact h.elim
  | _ => rfl

theorem calls_of_open {α : Type} {p : M α} (n : ℕ) (hp : AsksOnly Open p) :
    AsksAtMost model_ask n p := asksAtMost_of_none n (hp.mono silent_of_open)

/-- Nothing is asked before. -/
theorem calls_after {α β : Type} {n : ℕ} {p : M α} {f : α → M β} (hp : AsksOnly Open p)
    (hf : ∀ a, AsksAtMost model_ask n (f a)) : AsksAtMost model_ask n (p.bind f) :=
  asksAtMost_after (hp.mono silent_of_open) hf

/-- Nothing is asked after. -/
theorem calls_before {α β : Type} {n : ℕ} {p : M α} {f : α → M β} (hp : AsksAtMost model_ask n p)
    (hf : ∀ a, AsksOnly Open (f a)) : AsksAtMost model_ask n (p.bind f) :=
  asksAtMost_before hp (fun a => (hf a).mono silent_of_open)

theorem calls_ofExcept {α β : Type} {n : ℕ} {x : Except Exn α} {f : α → M β}
    (hf : ∀ a, x = .ok a → AsksAtMost model_ask n (f a)) :
    AsksAtMost model_ask n ((.ofExcept x : M α).bind f) := by
  cases x with
  | ok a => exact hf a rfl
  | error exc => trivial

theorem calls_scan {α : Type} {n : ℕ} {text : Str} {ids : Ids} {f : Str → M α}
    (hf : ∀ t, AsksAtMost model_ask n (f t)) :
    AsksAtMost model_ask n ((scanInput text ids).bind f) :=
  asksAtMost_after ⟨rfl, fun _ => trivial⟩ hf

theorem invoke_calls (call : InvokeCall) : AsksAtMost model_ask 1 (invoke call) :=
  ⟨Nat.le_refl 1, fun _ => trivial⟩

/-! ## The loops and the agents -/

section Loop
variable (py : Runtime) (cfg : LoopConfig) (a : RunArgs)

theorem time_calls {α : Type} {n : ℕ} {k : ℚ → M α} (hk : ∀ now, AsksAtMost model_ask n (k now)) :
    AsksAtMost model_ask n (.ask .time k : M α) := ⟨Nat.zero_le n, hk⟩

theorem converse_calls {α : Type} {n : ℕ} {call : ConverseCall} {k : Except Exn Response → M α}
    (hk : ∀ reply, AsksAtMost model_ask n (k reply)) :
    AsksAtMost model_ask (n + 1) (.ask (.converse call) k : M α) := ⟨Nat.le_add_left 1 n, hk⟩

theorem loop_calls (specs : List (ToolSpec × Str)) (loop_start : ℚ) (left : ℕ) (st : LoopState) :
    AsksAtMost model_ask left (loop py cfg a specs loop_start left st) := by
  induction left generalizing st with
  | zero =>
    rw [loop_zero]
    exact time_calls (fun now => calls_of_open _ (degraded_answer_open cfg st _))
  | succ left ih =>
    rw [loop_succ]
    refine time_calls (fun now => ?_)
    split
    · refine converse_calls (fun reply => ?_)
      cases reply with
      | error exc => trivial
      | ok resp =>
        show AsksAtMost model_ask left
          (AgenticLoop.respond py cfg a specs loop_start left st _ resp)
        unfold AgenticLoop.respond
        split
        · trivial
        · split
          · trivial
          · exact calls_after (tool_calls_open py cfg a _ _) (fun out => ih _)
    · exact calls_of_open _ (degraded_answer_open cfg st _)

theorem run_agentic_loop_calls :
    AsksAtMost model_ask cfg.MAX_TOOL_STEPS.toNat (run_agentic_loop py cfg a) := by
  rw [run_agentic_loop_eq]
  refine time_calls (fun loop_start => ?_)
  exact calls_after ((list_specs_asks a.mcp_adapters).mono open_of_listing)
    (fun specs => loop_calls py cfg a specs loop_start _ _)

theorem loop_streaming_calls (thinks : Bool) (specs : List (ToolSpec × Str)) (loop_start : ℚ)
    (left : ℕ) (st : LoopState) :
    AsksAtMost model_ask left (loop_streaming py cfg thinks a specs loop_start left st) := by
  induction left generalizing st with
  | zero =>
    rw [loop_streaming_zero]
    exact time_calls (fun now => calls_of_open _ (yieldAll_open _))
  | succ left ih =>
    rw [loop_streaming_succ]
    refine time_calls (fun now => ?_)
    split
    · split
      · trivial
      · refine converse_calls (fun reply => ?_)
        cases reply with
        | error exc => trivial
        | ok resp =>
          refine calls_after (yieldAll_open _) (fun _ => ?_)
          unfold respond_streaming
          split
          · exact calls_of_open _ (yieldAll_open _)
          · split
            · exact calls_of_open _ (yieldAll_open _)
            · exact calls_after (tool_calls_streaming_open py cfg a _ _) (fun out => ih _)
    · exact calls_of_open _ (yieldAll_open _)

theorem run_agentic_loop_streaming_calls (thinks : Bool) :
    AsksAtMost model_ask cfg.MAX_TOOL_STEPS.toNat (run_agentic_loop_streaming py cfg thinks a) := by
  rw [run_agentic_loop_streaming_eq]
  refine time_calls (fun loop_start => ?_)
  exact calls_after ((list_specs_asks a.mcp_adapters).mono open_of_listing)
    (fun specs => loop_streaming_calls py cfg a thinks specs loop_start _ _)

end Loop

section Agents
variable (py : Runtime) (s : Settings) (ag : Agent) (call : AgentCall)

theorem answer_path_calls (input_text system_prompt : Str) :
    AsksAtMost model_ask (agent_calls s.loop)
      (answer_path py s ag call input_text system_prompt) := by
  unfold answer_path
  split
  · refine calls_after (collect_all_open _ _) (fun contexts => ?_)
    refine calls_after ?_ (fun infra => ?_)
    · unfold inject_present
      split
      · trivial
      · exact inject_open _ _
    · apply calls_before
      · exact (run_agentic_loop_calls py s.loop _).mono (Nat.le_max_right _ _)
      · exact fun out => asksOnly_bind Open _ _ (detect_open py _ _ _ _ _) (fun _ => trivial)
  · refine calls_before ?_ (fun _ => trivial)
    refine calls_after (collect_all_open _ _) (fun contexts => ?_)
    refine calls_after (inject_open _ _) (fun infra => ?_)
    apply calls_before
    · exact (invoke_calls _).mono (Nat.le_max_left _ _)
    · exact fun response => detect_open py _ _ _ _ _

theorem agent_request_calls :
    AsksAtMost model_ask (agent_calls s.loop) (GenericAgent.process_request py s ag call) := by
  unfold GenericAgent.process_request
  split
  · trivial
  · refine calls_scan (fun input_text => ?_)
    exact calls_before (answer_path_calls py s ag call _ _) (fun _ => trivial)

theorem agent_stream_open :
    AsksAtMost model_ask 0 (GenericAgent.process_request_streaming py s ag call) :=
  calls_scan (fun _ => calls_of_open 0
    (asksOnly_bind Open _ _ (collect_all_open _ _) (fun _ => trivial)))

theorem agent_events_calls {tr : List Ev} {gen : M Unit}
    (h : Path (GenericAgent.process_request_streaming py s ag call) tr (.ok gen)) :
    AsksAtMost model_ask s.loop.MAX_TOOL_STEPS.toNat gen := by
  obtain ⟨input_text, s₁, t₁, rfl, _, h₁⟩ := Path.of_bind_ok h
  obtain ⟨contexts, s₂, t₂, rfl, _, h₂⟩ := Path.of_bind_ok h₁
  obtain ⟨_, hgen⟩ := (path_done _ _ _).mp h₂
  cases hgen
  exact run_agentic_loop_streaming_calls py s.loop _ _

end Agents

/-! ## The supervisor -/

theorem mapM_length {α β : Type} {f : α → Except Exn β} {xs : List α} {ys : List β}
    (h : xs.mapM f = .ok ys) : ys.length = xs.length := by
  induction xs generalizing ys with
  | nil =>
    cases h
    rfl
  | cons x xs ih =>
    rw [List.mapM_cons] at h
    obtain ⟨y, _, h⟩ := bind_eq_ok h
    obtain ⟨rest, hrest, h⟩ := bind_eq_ok h
    cases h
    rw [List.length_cons, ih hrest, List.length_cons]

theorem gather_calls {α : Type} {n k : ℕ} {ps : List (M α)} (hlength : ps.length ≤ k)
    (hps : ∀ p ∈ ps, AsksAtMost model_ask n p) : AsksAtMost model_ask (k * n) (gather ps) :=
  (asksAtMost_gather hps).mono (Nat.mul_le_mul_right n hlength)

section Supervised
variable (py : Runtime) (sup : SupervisorAgent) (req : Supervisor.Request)

theorem classify_calls (user_input : Str) : AsksAtMost model_ask 1 (classify req user_input) :=
  calls_after ⟨trivial, fun _ => trivial⟩ (fun _ => ⟨Nat.le_refl 1, fun _ => trivial⟩)

theorem ingress_silent : AsksOnly (fun e => model_ask e = false) (ingress req) := by
  apply asksOnly_bind
  · exact ⟨rfl, fun _ => trivial⟩
  · intro user_input
    apply asksOnly_bind
    · exact ⟨rfl, fun _ => trivial⟩
    · exact fun _ => asksOnly_bind _ _ _ trivial (fun _ => trivial)

theorem single_agent_call_calls (agent_name : Str) (c : ClassifierResult) (user_input : Str)
    (o : Option Str) : AsksAtMost model_ask (agent_calls sup.settings.loop)
      (single_agent_call py sup req agent_name c user_input o) := by
  refine calls_after (fetch_chat_open req _) (fun agent_history => ?_)
  refine calls_ofExcept (fun ag _ => ?_)
  apply calls_before
  · exact asksAtMost_attempt (agent_request_calls py sup.settings ag _)
  · exact fun result => conclude_open req agent_name c result

theorem synthesize_calls (query : Str) (responses : List (Str × Str)) (failed : List Str) :
    AsksAtMost model_ask 1 (synthesize req query responses failed) := by
  unfold synthesize
  split
  · trivial
  · exact invoke_calls _

theorem known_agents_length (c : ClassifierResult) : (known_agents sup c).length ≤ max_agents :=
  Nat.le_trans (List.length_filter_le _ _) (List.length_take_le _ _)

theorem fan_out_calls (primary : AgentMatch) (others : List AgentMatch) (user_input : Str)
    (o : Option Str) (hmost : (primary :: others).length ≤ max_agents) :
    AsksAtMost model_ask (max_agents * agent_calls sup.settings.loop + 1)
      (fan_out py sup req primary others user_input o) := by
  unfold fan_out
  refine calls_ofExcept (fun specialists _ => ?_)
  apply asksAtMost_bind
  · apply gather_calls
    · rw [List.length_map, List.length_zip]
      exact Nat.le_trans (Nat.min_le_left _ _) hmost
    · intro p hp
      obtain ⟨q, _, rfl⟩ := List.mem_map.mp hp
      exact agent_request_calls py sup.settings q.2 _
  · intro results
    refine calls_ofExcept (fun _ _ => ?_)
    apply calls_before
    · exact synthesize_calls req _ _ _
    · exact fun final_response => asksOnly_bind Open _ _ (save_open req _ _) (fun _ => trivial)

theorem answer_classified_calls (c : ClassifierResult) (user_input : Str) :
    AsksAtMost model_ask (max_agents * agent_calls sup.settings.loop + 1)
      (answer_classified py sup req c user_input) := by
  have hone : agent_calls sup.settings.loop ≤ max_agents * agent_calls sup.settings.loop + 1 := by
    unfold max_agents
    omega
  unfold answer_classified
  split
  · trivial
  · split
    · trivial
    · next primary others hknown =>
      refine calls_after (save_open req _ _) (fun _ => ?_)
      dsimp only
      split
      · exact (single_agent_call_calls py sup req _ c user_input _).mono hone
      · apply fan_out_calls
        rw [← hknown]
        exact known_agents_length sup c

section Entry
variable [Values]

theorem run_investigation_calls (s : Settings) (inv : Investigation) :
    AsksAtMost model_ask (5 * agent_calls s.loop + 1) (run_investigation py s inv) := by
  refine calls_scan (fun symptom => ?_)
  refine calls_after ⟨trivial, fun _ => trivial⟩ (fun id => ?_)
  refine calls_ofExcept (fun specialists hnamed => ?_)
  apply asksAtMost_bind
  · apply gather_calls
    · rw [List.length_map, mapM_length hnamed]
      exact List.length_take_le 5 _
    · intro p hp
      obtain ⟨ag, _, rfl⟩ := List.mem_map.mp hp
      exact agent_request_calls py s ag _
  · intro results
    refine calls_ofExcept (fun _ _ => ?_)
    refine calls_ofExcept (fun collected _ => ?_)
    refine calls_ofExcept (fun built _ => ?_)
    refine calls_before ?_ (fun _ => trivial)
    refine calls_after ⟨trivial, fun _ => trivial⟩ (fun rag_block => ?_)
    exact calls_before (invoke_calls _) (fun _ => trivial)

/-- The agents of an investigation and its synthesis, or a classification, the agents
it selects and their synthesis. -/
def request_calls (cfg : LoopConfig) : ℕ :=
  max (5 * agent_calls cfg + 1) (max_agents * agent_calls cfg + 2)

theorem respond_calls (user_input : Str) :
    AsksAtMost model_ask (request_calls sup.settings.loop)
      (Supervisor.respond py sup req user_input) := by
  unfold Supervisor.respond
  split
  · refine calls_after (save_open req _ _) (fun _ => ?_)
    refine (single_agent_call_calls py sup req _ _ user_input _).mono ?_
    unfold request_calls
    omega
  · split
    · exact calls_before ((run_investigation_calls py sup.settings _).mono (Nat.le_max_left _ _))
        (fun _ => trivial)
    · have hclassified := asksAtMost_bind (classify_calls req user_input)
        (fun c => answer_classified_calls py sup req c user_input)
      refine hclassified.mono ?_
      unfold request_calls
      omega

theorem process_request_calls :
    AsksAtMost model_ask (request_calls sup.settings.loop)
      (Supervisor.process_request py sup req) := by
  apply asksAtMost_handle (n := 0)
  · refine calls_after ⟨trivial, fun _ => trivial⟩ (fun budget => ?_)
    unfold within_budget
    split
    · trivial
    · trivial
    · exact asksAtMost_after (ingress_silent req) (respond_calls py sup req)
  · intro exc
    cases exc with
    | _ => trivial

end Entry

/-! ### The streams -/

theorem stream_agent_calls (ag : Agent) (agent_name user_input agent_input : Str) (o : Option Str)
    (wrap : M Unit → M Unit)
    (hwrap : ∀ n gen, AsksAtMost model_ask n gen → AsksAtMost model_ask n (wrap gen)) :
    AsksAtMost model_ask sup.settings.loop.MAX_TOOL_STEPS.toNat (consumed
      ((stream_agent py sup req ag agent_name user_input agent_input o).bind
        (fun gen => pure (some (wrap gen))))) := by
  rw [consumed_bind, ← Nat.zero_add sup.settings.loop.MAX_TOOL_STEPS.toNat]
  refine asksAtMost_bind_of ?_ (fun tr gen h => ?_)
  · refine calls_after (save_open req _ _) (fun _ => ?_)
    refine calls_after (fetch_chat_open req _) (fun chat_history => ?_)
    exact agent_stream_open py sup.settings ag _
  · obtain ⟨_, s₁, t₁, rfl, _, h₁⟩ := Path.of_bind_ok h
    obtain ⟨chat_history, s₂, t₂, rfl, _, h₂⟩ := Path.of_bind_ok h₁
    show AsksAtMost model_ask _ ((wrap gen).bind (fun _ => pure true))
    exact calls_before (hwrap _ gen (agent_events_calls py sup.settings ag _ h₂)) (fun _ => trivial)

theorem stream_forced_calls (name user_input : Str) :
    AsksAtMost model_ask sup.settings.loop.MAX_TOOL_STEPS.toNat
      (consumed (stream_forced py sup req name user_input)) := by
  unfold stream_forced
  refine (consumed_bind _ _) ▸ calls_ofExcept (fun ag _ => ?_)
  dsimp only
  split
  · exact stream_agent_calls py sup req ag _ _ _ _ id (fun _ _ h => h)
  · trivial

theorem stream_classified_calls (c : ClassifierResult) (user_input : Str) :
    AsksAtMost model_ask sup.settings.loop.MAX_TOOL_STEPS.toNat
      (consumed (stream_classified py sup req c user_input)) := by
  unfold stream_classified
  split
  · trivial
  · split
    · next m _ =>
      refine (consumed_bind _ _) ▸ calls_ofExcept (fun ag _ => ?_)
      split
      · exact stream_agent_calls py sup req ag _ _ _ _ (.emit (routing m c)) (fun _ _ h => h)
      · trivial
    · trivial

theorem stream_calls :
    AsksAtMost model_ask (sup.settings.loop.MAX_TOOL_STEPS.toNat + 1)
      (stream_consumed py sup req) := by
  show AsksAtMost model_ask _ (consumed ((check_budget req).bind
    (within_budget none (stream_attended py sup req))))
  rw [consumed_bind]
  refine calls_after ⟨trivial, fun _ => trivial⟩ (fun budget => ?_)
  unfold within_budget
  split
  · trivial
  · trivial
  · unfold stream_attended
    refine (consumed_bind _ _) ▸ asksAtMost_after (ingress_silent req) (fun user_input => ?_)
    split
    · exact (stream_forced_calls py sup req _ user_input).mono (Nat.le_add_right _ 1)
    · split
      · trivial
      · rw [Nat.add_comm]
        exact (consumed_bind _ _) ▸ asksAtMost_bind (classify_calls req user_input)
          (fun c => stream_classified_calls py sup req c user_input)

end Supervised

end AigentSquad.RequestCost
