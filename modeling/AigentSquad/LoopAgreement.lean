import AigentSquad.AgenticLoopStreaming

/-!
# The two loops act alike

A lock-step simulation of the streaming loop by the silent one. Where tool
inputs may be other than objects, or extended thinking is on, the streaming
loop can stop early, which `cut` allows.
-/

set_option autoImplicit false

namespace AigentSquad.LoopAgreement
open AigentSquad.PyText AigentSquad.PyJson AigentSquad.Truncation AigentSquad.Interaction
open AigentSquad.Effects AigentSquad.AgenticLoop AigentSquad.AgenticLoopStreaming

/-- How the silent loop ends when the streaming one ends with `r`. -/
def Agree (cut : Exn → Prop) (p : M (Str × List Message)) (r : Except Exn Unit) : Prop :=
  (∃ out, p = .done (.ok out) ∧ r = .ok ()) ∨ (∃ e, p = .done (.error e) ∧ r = .error e) ∨
    (p = .done (.error .UnboundLocalError) ∧ r = .ok ()) ∨ ∃ e, r = .error e ∧ cut e

theorem record_silent (url : Str) (o : ToolOutcome) : Silent (record url o) := by
  cases o <;> simp [record, Silent, Prog.request, Prog.pure_eq]

theorem pool_call_tool_silent (adapters : List McpAdapter) (adapter_name tool_name : Str)
    (args : Json) : Silent (pool_call_tool adapters adapter_name tool_name args) := by
  cases h : adapter_by_name adapters adapter_name with
  | none =>
    rw [pool_call_tool_missing adapters adapter_name tool_name args h]
    trivial
  | some adapter =>
    rw [pool_call_tool_found adapters adapter_name tool_name args adapter h]
    intro closed
    cases closed with
    | false => trivial
    | true => exact fun outcome => silent_bind _ _ (record_silent _ outcome) (fun _ => trivial)

theorem list_specs_silent (adapters : List McpAdapter) : Silent (list_specs adapters) := by
  induction adapters with
  | nil => trivial
  | cons ad ads ih =>
    rw [list_specs_cons]
    exact fun answer => silent_bind _ _ ih (fun _ => trivial)

theorem yieldAll_sim {ok : (e : Ask) → Answer e → Prop} {α β : Type}
    {R : M α → Except Exn β → Prop} {p : M α} (es : List StepEvent) (q : Unit → M β)
    (h : Sim ok R p (q ())) : Sim ok R p ((yieldAll es).bind q) := by
  induction es with
  | nil => exact h
  | cons e es ih => exact .emit ih

theorem yieldAll_leaf {ok : (e : Ask) → Answer e → Prop} {α : Type}
    {R : M α → Except Exn Unit → Prop} {p : M α} (es : List StepEvent) (h : R p (.ok ())) :
    Sim ok R p (yieldAll es) := by
  induction es with
  | nil => exact .leaf h
  | cons e es ih => exact .emit ih

theorem sanitize_error (py : Runtime) (args : Json) (e : Exn)
    (h : sanitize_args_for_display py args = .error e) :
    e = .AttributeError ∧ args.isObject = false := by
  unfold sanitize_args_for_display at h
  split at h
  · cases h
  · cases args <;> simp_all [Json.isObject]

variable {ok : (e : Ask) → Answer e → Prop} {cut : Exn → Prop}

theorem tool_call_sim (py : Runtime) (cfg : LoopConfig) (a : RunArgs) (routes : Routes)
    (u : ToolUse) (hu : cut .AttributeError ∨ u.input.isObject = true) :
    Sim ok (Same cut) (tool_call py cfg a routes u) (tool_call_streaming py cfg a routes u) := by
  cases hs : sanitize_args_for_display py u.input with
  | error e =>
    obtain ⟨rfl, hobj⟩ := sanitize_error py u.input e hs
    rw [tool_call_streaming_error py cfg a routes u _ hs]
    rw [hobj] at hu
    exact .leaf (.inr ⟨.AttributeError, rfl, hu.resolve_right (by simp)⟩)
  | ok args_display =>
    rw [tool_call_eq, tool_call_streaming_ok py cfg a routes u args_display hs]
    refine .emit (.ask (fun verdict _ => ?_))
    by_cases hv : verdict = .accepted
    · rw [if_pos hv, if_pos hv]
      cases resolve routes u.name with
      | none => exact .emit (.leaf (.inl rfl))
      | some adapter_name =>
        refine Sim.bind (silent_sim ok cut _ (pool_call_tool_silent _ _ _ _))
          (fun x => .inl rfl) (fun s x hx => .inr ⟨x, rfl, hx⟩) (fun raw => ?_)
        exact .ask (fun verdict _ => .emit (.leaf (.inl rfl)))
    · rw [if_neg hv, if_neg hv]
      exact .emit (.leaf (.inl rfl))

theorem tool_calls_sim (py : Runtime) (cfg : LoopConfig) (a : RunArgs) (routes : Routes)
    (us : List ToolUse) (hus : cut .AttributeError ∨ ∀ u ∈ us, u.input.isObject = true) :
    Sim ok (Same cut) (tool_calls py cfg a routes us)
      (tool_calls_streaming py cfg a routes us) := by
  induction us with
  | nil => exact .leaf (.inl rfl)
  | cons u us ih =>
    rw [tool_calls_cons, tool_calls_streaming_cons]
    refine Sim.bind (tool_call_sim py cfg a routes u (hus.imp_right (fun h => h u (by simp))))
      (fun x => .inl rfl) (fun s x hx => .inr ⟨x, rfl, hx⟩) (fun out => ?_)
    refine Sim.bind (ih (hus.imp_right (fun h v hv => h v (by simp [hv]))))
      (fun x => .inl rfl) (fun s x hx => .inr ⟨x, rfl, hx⟩) (fun rest => ?_)
    exact .leaf (.inl rfl)

theorem degraded_sim (cfg : LoopConfig) (st : LoopState) (elapsed : ℚ) :
    Sim ok (Agree cut) (degraded_answer cfg st elapsed) (yieldAll (degraded_events st)) := by
  apply yieldAll_leaf
  unfold degraded_answer
  split
  · exact .inr (.inr (.inl ⟨rfl, rfl⟩))
  · split <;> exact .inl ⟨_, rfl, rfl⟩

/-- The tool inputs of every admitted response are JSON objects. -/
def ObjectInputs (ok : (e : Ask) → Answer e → Prop) : Prop :=
  ∀ call resp, ok (.converse call) (.ok resp) →
    ∀ u ∈ tool_use_blocks resp.content, u.input.isObject = true

theorem respond_sim (py : Runtime) (cfg : LoopConfig) (thinks : Bool) (a : RunArgs)
    (specs : List (ToolSpec × Str)) (loop_start : ℚ) (left : Nat) (st : LoopState)
    (messages : List Message) (resp : Response)
    (hin : cut .AttributeError ∨ ∀ u ∈ tool_use_blocks resp.content, u.input.isObject = true)
    (hloop : ∀ st, Sim ok (Agree cut) (loop py cfg a specs loop_start left st)
      (loop_streaming py cfg thinks a specs loop_start left st)) :
    Sim ok (Agree cut) (respond py cfg a specs loop_start left st messages resp)
      (respond_streaming py cfg thinks a specs loop_start left st messages resp) := by
  unfold respond respond_streaming
  by_cases hstop : resp.stop_reason ≠ "tool_use".toList
  · rw [if_pos hstop, if_pos hstop]
    exact yieldAll_leaf _ (.inl ⟨_, rfl, rfl⟩)
  · rw [if_neg hstop, if_neg hstop]
    by_cases hnone : (tool_use_blocks resp.content).isEmpty = true
    · rw [if_pos hnone, if_pos hnone]
      exact yieldAll_leaf _ (.inl ⟨_, rfl, rfl⟩)
    · rw [if_neg hnone, if_neg hnone]
      exact Sim.bind (tool_calls_sim py cfg a _ _ hin) (fun x => .inr (.inl ⟨x, rfl, rfl⟩))
        (fun s x hx => .inr (.inr (.inr ⟨x, rfl, hx⟩))) (fun out => hloop _)

theorem loop_sim (py : Runtime) (cfg : LoopConfig) (thinks : Bool) (a : RunArgs)
    (specs : List (ToolSpec × Str)) (loop_start : ℚ) (left : Nat) (st : LoopState)
    (hthinks : thinks = true → cut .TypeError) (hin : cut .AttributeError ∨ ObjectInputs ok) :
    Sim ok (Agree cut) (loop py cfg a specs loop_start left st)
      (loop_streaming py cfg thinks a specs loop_start left st) := by
  induction left generalizing st with
  | zero =>
    rw [loop_zero, loop_streaming_zero]
    exact .ask (fun now _ => degraded_sim cfg st _)
  | succ left ih =>
    rw [loop_succ, loop_streaming_succ]
    refine .ask (fun now _ => ?_)
    by_cases hb : budget_left cfg st (elapsed_ms loop_start now) = true
    · cases thinks with
      | true =>
        simp only [hb, if_true]
        exact .leaf (.inr (.inr (.inr ⟨.TypeError, rfl, hthinks rfl⟩)))
      | false =>
        simp only [hb, if_true, Bool.false_eq_true, if_false]
        refine .ask (fun answer hok => ?_)
        cases answer with
        | error e => exact .leaf (.inr (.inl ⟨e, rfl, rfl⟩))
        | ok resp =>
          exact yieldAll_sim _ _ (respond_sim py cfg false a specs loop_start left st _ resp
            (hin.imp_right (fun h => h _ resp hok)) ih)
    · simp only [hb, Bool.false_eq_true, if_false]
      exact degraded_sim cfg st _

theorem run_sim (py : Runtime) (cfg : LoopConfig) (thinks : Bool) (a : RunArgs)
    (hthinks : thinks = true → cut .TypeError) (hin : cut .AttributeError ∨ ObjectInputs ok) :
    Sim ok (Agree cut) (run_agentic_loop py cfg a)
      (run_agentic_loop_streaming py cfg thinks a) := by
  rw [run_agentic_loop_eq, run_agentic_loop_streaming_eq]
  refine .ask (fun loop_start _ => ?_)
  exact Sim.bind (silent_sim ok cut _ (list_specs_silent _)) (fun x => .inr (.inl ⟨x, rfl, rfl⟩))
    (fun s x hx => .inr (.inr (.inr ⟨x, rfl, hx⟩)))
    (fun specs => loop_sim py cfg thinks a specs loop_start _ _ hthinks hin)

/-- How the two loops end on the same surroundings. -/
inductive SameEnd : Except Exn (Str × List Message) → Except Exn Unit → Prop
  | answered (out : Str × List Message) : SameEnd (.ok out) (.ok ())
  | raised (e : Exn) : SameEnd (.error e) (.error e)
  /-- a budget was exhausted before the first converse call -/
  | only_streaming_answers : SameEnd (.error .UnboundLocalError) (.ok ())

/-- The model only ever requests tools with JSON objects for inputs. -/
def objectInputs : (e : Ask) → Answer e → Prop
  | .converse _, .ok resp => ∀ u ∈ tool_use_blocks resp.content, u.input.isObject = true
  | _, _ => True

def k8s : McpAdapter := ⟨"k8s".toList, "http://k8s".toList⟩

def sampleArgs : RunArgs :=
  ⟨"how many pods?".toList, "be brief".toList, "No previous conversation".toList, [k8s],
    "kubernetes".toList, "u".toList, "s".toList, 0, none, none⟩

def getPods : ToolUse := ⟨"t1".toList, "get_pods".toList, .obj [("ns".toList, .str "dev".toList)]⟩

/-- One tool turn, then the answer. -/
def sampleEnv : Env Ask Answer := fun _ e =>
  match e with
  | .list_tool_specs _ => .ok [⟨"get_pods".toList, "list pods".toList, .obj []⟩]
  | .converse call =>
    if call.messages.length = 1 then .ok ⟨"tool_use".toList, [.tool_use getPods], ⟨10, 5⟩⟩
    else .ok ⟨"end_turn".toList, [.text "3 pods".toList], ⟨20, 5⟩⟩
  | .call_tool _ _ _ => .result "NAME READY\na 1\nb 1\nc 1".toList
  | e => calm e

theorem sampleEnv_admissible : Admissible objectInputs sampleEnv := by
  intro h e
  cases e with
  | converse call =>
    unfold sampleEnv
    by_cases hn : call.messages.length = 1
    · simp [objectInputs, hn, tool_use_blocks, ContentBlock.use, getPods, Json.isObject]
    · simp [objectInputs, hn, tool_use_blocks, ContentBlock.use]
  | _ => trivial

end AigentSquad.LoopAgreement
