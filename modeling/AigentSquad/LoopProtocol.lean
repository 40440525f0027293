import AigentSquad.LoopAgreement
import AigentSquad.Trimming
import AigentSquad.Traces

/-!
# The converse protocol

What Bedrock requires of a message list, kept by trimming and by every tool
turn, hence met by every converse call of a run.
-/

set_option autoImplicit false

namespace AigentSquad.LoopProtocol
open AigentSquad.PyText AigentSquad.PyJson AigentSquad.Truncation AigentSquad.Interaction
open AigentSquad.Effects AigentSquad.AgenticLoop AigentSquad.Traces AigentSquad.LoopAgreement
open AigentSquad.Trimming

def Block.useId : Block → Option Str
  | .toolUse u => some u.toolUseId
  | _ => none

def Block.resultId : Block → Option Str
  | .toolResult r => some r.toolUseId
  | _ => none

def toolUseIds (m : Message) : List Str := m.content.filterMap Block.useId

def toolResultIds (m : Message) : List Str := m.content.filterMap Block.resultId

/-- Roles alternate from user to user, and each assistant message is followed
by a user message that answers its tool uses one to one and in order. -/
structure ConverseProtocol (ms : List Message) : Prop where
  alternates : ms.IsChain (fun m n => m.role ≠ n.role)
  starts_user : ms.head?.map Message.role = some .user
  ends_user : ms.getLast?.map Message.role = some .user
  paired : ∀ i m, ms[i]? = some m → m.role = .assistant →
    ∃ n, ms[i + 1]? = some n ∧ n.role = .user ∧ toolResultIds n = toolUseIds m

/-- Complete turns: an assistant message and the user message answering it. -/
inductive Turns : List Message → Prop
  | nil : Turns []
  | cons {m n : Message} {rest : List Message} (hm : m.role = .assistant) (hn : n.role = .user)
      (hids : toolResultIds n = toolUseIds m) (hrest : Turns rest) : Turns (m :: n :: rest)

def Conversation : List Message → Prop
  | [] => False
  | m :: rest => m.role = .user ∧ Turns rest

theorem turns_append (ms ns : List Message) (hm : Turns ms) (hn : Turns ns) :
    Turns (ms ++ ns) := by
  induction hm with
  | nil => exact hn
  | cons hm hn' hids _ ih => exact .cons hm hn' hids ih

theorem conversation_append (ms ns : List Message) (hm : Conversation ms) (hn : Turns ns) :
    Conversation (ms ++ ns) := by
  cases ms with
  | nil => exact absurd hm id
  | cons m ms => exact ⟨hm.1, turns_append ms ns hm.2 hn⟩

theorem conversation_protocol (ms : List Message) (h : Conversation ms) : ConverseProtocol ms := by
  cases ms with
  | nil => exact absurd h id
  | cons first rest =>
    obtain ⟨hfirst, hturns⟩ := h
    induction hturns generalizing first with
    | nil =>
      refine ⟨by simp, by simp [hfirst], by simp [hfirst], ?_⟩
      intro i m hi hm
      cases i with
      | zero =>
        simp only [List.getElem?_cons_zero, Option.some.injEq] at hi
        rw [← hi, hfirst] at hm
        cases hm
      | succ i => simp at hi
    | @cons m n rest hm hn hids _ ih =>
      have hrest := ih n hn
      refine ⟨?_, by simp [hfirst], ?_, ?_⟩
      · refine .cons_cons (by simp [hfirst, hm]) (.cons_cons (by simp [hm, hn]) hrest.alternates)
      · simpa using hrest.ends_user
      · intro i k hi hk
        match i with
        | 0 =>
          simp only [List.getElem?_cons_zero, Option.some.injEq] at hi
          rw [← hi, hfirst] at hk
          cases hk
        | 1 =>
          simp only [List.getElem?_cons_succ, List.getElem?_cons_zero, Option.some.injEq] at hi
          exact ⟨n, by simp, hn, hi ▸ hids⟩
        | i + 2 =>
          obtain ⟨k', hk', hrole, hids'⟩ := hrest.paired i k (by simpa using hi) hk
          exact ⟨k', by simpa using hk', hrole, hids'⟩

/-- What the protocol sees of a message. -/
def shape (m : Message) : Role × List Str × List Str := (m.role, toolUseIds m, toolResultIds m)

theorem turns_of_shape (ms ns : List Message) (h : ms.map shape = ns.map shape) (hm : Turns ms) :
    Turns ns := by
  induction hm generalizing ns with
  | nil =>
    have hns : ns = [] := by simpa using h.symm
    exact hns ▸ .nil
  | @cons m n rest hrole hrole' hids _ ih =>
    match ns, h with
    | [], h => simp at h
    | [_], h => simp at h
    | m' :: n' :: rest', h =>
      simp only [List.map_cons, List.cons.injEq, shape, Prod.mk.injEq] at h
      obtain ⟨⟨h₁, h₂, _⟩, ⟨h₃, _, h₄⟩, hrest⟩ := h
      exact .cons (h₁ ▸ hrole) (h₃ ▸ hrole') (by rw [← h₄, ← h₂, hids]) (ih rest' hrest)

theorem conversation_of_shape (ms ns : List Message) (h : ms.map shape = ns.map shape)
    (hm : Conversation ms) : Conversation ns := by
  match ms, ns, h, hm with
  | m :: ms, n :: ns, h, hm =>
    simp only [List.map_cons, List.cons.injEq, shape, Prod.mk.injEq] at h
    exact ⟨h.1.1 ▸ hm.1, turns_of_shape ms ns h.2 hm.2⟩

theorem trim_block_ids (py : Runtime) (paired : Str → Str × Json) (b : Block) :
    Block.useId (trim_block py paired b) = Block.useId b ∧
      Block.resultId (trim_block py paired b) = Block.resultId b := by
  cases b <;> exact ⟨rfl, rfl⟩

theorem trim_message_shape (py : Runtime) (ms : List Message) (idx : Nat) (m : Message) :
    shape (trim_message py ms idx m) = shape m := by
  simp only [shape, trim_message, toolUseIds, toolResultIds, List.filterMap_map, Function.comp_def,
    trim_block_ids]

theorem trim_shape (py : Runtime) (cfg : LoopConfig) (ms : List Message) (keep_last_n : Int) :
    (trim_message_history py cfg ms keep_last_n).map shape = ms.map shape := by
  apply List.ext_getElem?
  intro j
  rw [List.getElem?_map, List.getElem?_map, trim_get]
  split
  · rw [Option.map_map]
    exact congrArg (fun f => f <$> ms[j]?) (funext (trim_message_shape py ms j))
  · rfl

theorem call_trace_id (py : Runtime) (cfg : LoopConfig) (a : RunArgs) (routes : Routes)
    (u : ToolUse) (d : Dialogue) (out : ToolResult × List Str)
    (h : CallTrace py cfg a routes u d out) : out.1.toolUseId = u.toolUseId := by
  cases h <;> rfl

theorem calls_trace_ids (py : Runtime) (cfg : LoopConfig) (a : RunArgs) (routes : Routes)
    (us : List ToolUse) (d : Dialogue) (out : List ToolResult × List Str)
    (h : CallsTrace py cfg a routes us d out) :
    out.1.map ToolResult.toolUseId = us.map ToolUse.toolUseId := by
  induction h with
  | nil => rfl
  | cons head _ ih =>
    simp only [List.map_cons, ih, call_trace_id py cfg a routes _ _ _ head]

theorem assistant_ids (blocks : List ContentBlock) :
    toolUseIds ⟨.assistant, to_converse_assistant_blocks blocks⟩ =
      (tool_use_blocks blocks).map ToolUse.toolUseId := by
  induction blocks with
  | nil => rfl
  | cons b bs ih =>
    cases b with
    | tool_use u => exact congrArg (u.toolUseId :: ·) ih
    | _ => exact ih

theorem results_ids (results : List ToolResult) :
    toolResultIds ⟨.user, results.map Block.toolResult⟩ = results.map ToolResult.toolUseId := by
  induction results with
  | nil => rfl
  | cons r rs ih => simp_all [toolResultIds, Block.resultId]

theorem after_turn_conversation (py : Runtime) (cfg : LoopConfig) (a : RunArgs) (routes : Routes)
    (st : LoopState) (ms : List Message) (resp : Response) (d : Dialogue)
    (out : List ToolResult × List Str) (hms : Conversation ms)
    (hcalls : CallsTrace py cfg a routes (tool_use_blocks resp.content) d out) :
    Conversation (after_turn st ms resp out).messages := by
  apply conversation_append _ _ hms
  refine .cons rfl rfl ?_ .nil
  rw [results_ids, assistant_ids, calls_trace_ids py cfg a routes _ _ _ hcalls]

theorem trimmed_conversation (py : Runtime) (cfg : LoopConfig) (ms : List Message)
    (h : Conversation ms) : Conversation (trimmed py cfg ms) :=
  conversation_of_shape ms _ (trim_shape py cfg ms _).symm h

theorem loop_trace_protocol (py : Runtime) (cfg : LoopConfig) (a : RunArgs)
    (specs : List (ToolSpec × Str)) (loop_start : ℚ) (left : Nat) (st : LoopState) (d : Dialogue)
    (r : Except Exn (Str × List Message))
    (h : LoopTrace py cfg a specs loop_start left st d r) (hst : Conversation st.messages)
    (call : ConverseCall) (answer : Except Exn Response)
    (hcall : (⟨.converse call, answer⟩ : Sigma Answer) ∈ d) : ConverseProtocol call.messages := by
  have first : ∀ st : LoopState, Conversation st.messages →
      call = converse_call a (tool_config_of specs) (trimmed py cfg st.messages) →
      ConverseProtocol call.messages := by
    rintro st hst rfl
    exact conversation_protocol _ (trimmed_conversation py cfg _ hst)
  induction h with
  | exhausted _ _ => simp at hcall
  | failed _ =>
    simp only [List.mem_cons, Sigma.mk.injEq, reduceCtorEq, false_and, false_or, List.not_mem_nil,
      or_false, Ask.converse.injEq] at hcall
    exact first _ hst hcall.1
  | answered _ _ =>
    simp only [List.mem_cons, Sigma.mk.injEq, reduceCtorEq, false_and, false_or, List.not_mem_nil,
      or_false, Ask.converse.injEq] at hcall
    exact first _ hst hcall.1
  | turn _ _ hcalls _ ih =>
    simp only [List.cons_append, List.mem_cons, Sigma.mk.injEq, reduceCtorEq, false_and, false_or,
      List.mem_append, Ask.converse.injEq] at hcall
    rcases hcall with hhere | hin | hlater
    · exact first _ hst hhere.1
    · exact absurd (calls_trace_talk py cfg a _ _ _ _ hcalls _ hin) (by simp [topic])
    · exact ih (after_turn_conversation py cfg a _ _ _ _ _ _
        (trimmed_conversation py cfg _ hst) hcalls) hlater

/-- The message list of every converse call of every run meets the protocol. -/
theorem converse_protocol (py : Runtime) (cfg : LoopConfig) (a : RunArgs) (tr : List Ev)
    (r : Except Exn (Str × List Message)) (h : Path (run_agentic_loop py cfg a) tr r)
    (call : ConverseCall) (answer : Except Exn Response)
    (hcall : (⟨.converse call, answer⟩ : Sigma Answer) ∈ asks tr) :
    ConverseProtocol call.messages := by
  obtain ⟨loop_start, listing, specs, body, hd, hlist, hloop⟩ :=
    (run_path_trace py cfg a tr r h).split
  rw [hd] at hcall
  simp only [List.cons_append, List.mem_cons, Sigma.mk.injEq, reduceCtorEq, false_and, false_or,
    List.mem_append] at hcall
  rcases hcall with hin | hin
  · exact absurd (list_trace_topic _ _ _ hlist _ hin) (by simp [topic])
  · exact loop_trace_protocol py cfg a specs loop_start _ _ _ _ hloop ⟨rfl, .nil⟩ call answer hin

def conversesWith (n : Nat) : Sigma Answer → Bool
  | ⟨.converse call, _⟩ => call.messages.length = n
  | _ => false

theorem exists_converse (n : Nat) (d : Dialogue) (h : d.any (conversesWith n) = true) :
    ∃ (call : ConverseCall) (answer : Except Exn Response),
      (⟨.converse call, answer⟩ : Sigma Answer) ∈ d ∧ call.messages.length = n := by
  obtain ⟨⟨e, answer⟩, hmem, hn⟩ := List.any_eq_true.mp h
  cases e with
  | converse call => exact ⟨call, answer, hmem, by simpa [conversesWith] using hn⟩
  | _ => cases hn

set_option maxRecDepth 100000 in
theorem converse_protocol_sample :
    ∃ call : ConverseCall, call.messages.length = 3 ∧ ConverseProtocol call.messages := by
  have hrun := run_path sampleEnv [] (run_agentic_loop asciiRuntime .default sampleArgs)
  obtain ⟨call, answer, hmem, hlen⟩ := exists_converse 3 _
    (show (asks (run sampleEnv [] (run_agentic_loop asciiRuntime .default sampleArgs)).1).any
      (conversesWith 3) = true by decide +kernel)
  exact ⟨call, hlen, converse_protocol _ _ _ _ _ hrun call answer hmem⟩

end AigentSquad.LoopProtocol
