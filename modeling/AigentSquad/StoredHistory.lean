import AigentSquad.Supervisor
import AigentSquad.Groundedness
import AigentSquad.LoopQuestions

/-!
# What a request leaves in the conversation store

The messages of a session are those handed to `save_chat_message`, in order. A
stream leaves the user's message only; an answer that is not streamed leaves the
user's message and the assistant's, or none.
-/

set_option autoImplicit false

namespace AigentSquad.StoredHistory
open AigentSquad.PyText AigentSquad.Dict AigentSquad.Interaction AigentSquad.Postcondition
open AigentSquad.Truncation AigentSquad.Effects AigentSquad.AgenticLoop
open AigentSquad.AgenticLoopStreaming AigentSquad.Canary AigentSquad.GenericAgent
open AigentSquad.EvidenceExchange AigentSquad.RunInvestigation AigentSquad.LoopQuestions

structure Stored where
  user_id : Str
  session_id : Str
  agent_id : Str
  message : ConversationMessage
deriving DecidableEq

def save_of (s : Sigma Answer) : Option Stored :=
  match s.1 with
  | .save_chat_message user_id session_id agent_id message =>
    some ⟨user_id, session_id, agent_id, message⟩
  | _ => none

def saved (tr : List Ev) : List Stored := (asks tr).filterMap save_of

@[simp] theorem saved_nil : saved [] = [] := rfl

@[simp] theorem saved_append (s t : List Ev) : saved (s ++ t) = saved s ++ saved t := by
  rw [saved, asks_append, List.filterMap_append]
  rfl

/-- The question stores nothing. -/
def Reads : Ask → Prop
  | .save_chat_message _ _ _ _ => False
  | _ => True

section Agents
variable (py : Runtime)

theorem saved_of_reads {α : Type} {p : M α} (hp : AsksOnly Reads p) {tr : List Ev}
    {r : Except Exn α} (h : Path p tr r) : saved tr = [] := by
  rw [saved, List.filterMap_eq_nil_iff]
  intro s hs
  have hread := asksOnly_path hp h s hs
  unfold save_of
  split
  · next he =>
    rw [he] at hread
    exact hread.elim
  · rfl

theorem asked_reads {α : Type} {p : M (Except Exn α)} (hp : AsksOnly Reads p) :
    AsksOnly Reads (asked p) := asksOnly_bind Reads p _ hp (fun _ => trivial)

theorem request_reads (e : Ask) (he : Reads e) : AsksOnly Reads (.request e : M (Answer e)) :=
  ⟨he, fun _ => trivial⟩

theorem reads_of_loop (e : Ask) (h : LoopAsk e) : Reads e := by
  cases e with
  | save_chat_message _ _ _ _ => exact h.elim id id
  | _ => trivial

theorem collect_all_reads (adapters : List DatasourceAdapter) (query : Str) :
    AsksOnly Reads (collect_all adapters query) := by
  induction adapters with
  | nil => trivial
  | cons adapter adapters ih =>
    apply asksOnly_bind
    · exact request_reads (.collect _ _) trivial
    · exact fun _ => asksOnly_bind Reads _ _ ih (fun _ => trivial)

theorem inject_reads (enabled : Bool) (infra_data : Str) :
    AsksOnly Reads (inject enabled infra_data) := by
  have htoken : AsksOnly Reads generate_token :=
    asksOnly_bind Reads _ _ (request_reads .token_hex trivial) (fun _ => trivial)
  unfold inject
  split
  · trivial
  · apply asksOnly_bind
    · exact htoken
    · exact fun _ => asksOnly_bind Reads _ _ htoken (fun _ => trivial)

theorem detect_reads (enabled : Bool) (threshold : Int) (response : Str) (tokens : List Str)
    (session_id : Str) : AsksOnly Reads (detect py enabled threshold response tokens session_id) := by
  unfold detect
  split
  · trivial
  · dsimp only
    split
    · constructor
      · trivial
      · intro count
        show AsksOnly Reads (if threshold < count then _ else _)
        split <;> trivial
    · trivial

theorem answer_path_reads (s : Settings) (ag : Agent) (call : AgentCall)
    (input_text system_prompt : Str) :
    AsksOnly Reads (answer_path py s ag call input_text system_prompt) := by
  unfold answer_path
  split
  · apply asksOnly_bind
    · exact collect_all_reads _ _
    · intro contexts
      apply asksOnly_bind
      · unfold inject_present
        split
        · trivial
        · exact inject_reads _ _
      · intro infra
        apply asksOnly_bind
        · exact (run_agentic_loop_asks py s.loop _).mono reads_of_loop
        · intro out
          apply asksOnly_bind
          · exact detect_reads py _ _ _ _ _
          · exact fun _ => trivial
  · apply asksOnly_bind
    · apply asksOnly_bind
      · exact collect_all_reads _ _
      · intro contexts
        apply asksOnly_bind
        · exact inject_reads _ _
        · intro infra
          apply asksOnly_bind
          · exact asked_reads (request_reads (.invoke _) trivial)
          · exact fun response => detect_reads py _ _ _ _ _
    · exact fun _ => trivial

theorem agent_request_reads (s : Settings) (ag : Agent) (call : AgentCall) :
    AsksOnly Reads (GenericAgent.process_request py s ag call) := by
  unfold GenericAgent.process_request
  split
  · trivial
  · apply asksOnly_bind
    · exact asked_reads (request_reads (.scan_input _ _) trivial)
    · intro input_text
      apply asksOnly_bind
      · exact answer_path_reads py s ag call _ _
      · exact fun _ => trivial

/-- An agent's stream reads while it is set up and while it is consumed. -/
theorem agent_stream_reads (s : Settings) (ag : Agent) (call : AgentCall) (gen : M Unit)
    (tr : List Ev) (h : Path (GenericAgent.process_request_streaming py s ag call) tr (.ok gen)) :
    saved tr = [] ∧ AsksOnly Reads gen := by
  obtain ⟨input_text, s₁, t₁, rfl, hscan, h⟩ := Path.of_bind_ok h
  obtain ⟨contexts, s₂, t₂, rfl, hcollect, h⟩ := Path.of_bind_ok h
  obtain ⟨rfl, hgen⟩ := (path_done _ _ _).mp h
  have hscanned := saved_of_reads (asked_reads (request_reads (.scan_input _ _) trivial)) hscan
  have hcollected := saved_of_reads (collect_all_reads _ _) hcollect
  constructor
  · rw [saved_append, saved_append, hscanned, hcollected]
    rfl
  · cases hgen
    exact (run_agentic_loop_streaming_asks py s.loop _ _).mono reads_of_loop

theorem synthesize_rca_reads [Values] (symptom user_id session_id : Str)
    (evidences timeline : List Item) :
    AsksOnly Reads (synthesize_rca py symptom user_id session_id evidences timeline) := by
  apply asksOnly_bind
  · exact ⟨trivial, fun _ => trivial⟩
  · intro rag_block
    apply asksOnly_bind
    · exact asked_reads (request_reads (.invoke _) trivial)
    · exact fun _ => trivial

theorem run_investigation_reads [Values] (s : Settings) (inv : Investigation) :
    AsksOnly Reads (run_investigation py s inv) := by
  apply asksOnly_bind
  · exact asked_reads (request_reads (.scan_input _ _) trivial)
  · intro symptom
    apply asksOnly_bind
    · exact request_reads .uuid4 trivial
    · intro id
      apply asksOnly_bind
      · trivial
      · intro specialists
        apply asksOnly_bind
        · apply asksOnly_gather
          intro p hp
          obtain ⟨ag, _, rfl⟩ := List.mem_map.mp hp
          exact agent_request_reads py s ag _
        · intro results
          apply asksOnly_bind
          · trivial
          · intro _
            apply asksOnly_bind
            · trivial
            · intro evidences
              apply asksOnly_bind
              · trivial
              · intro built
                apply asksOnly_bind
                · exact synthesize_rca_reads py _ _ _ _ _
                · exact fun _ => trivial

end Agents

section Supervised
open AigentSquad.Supervisor
variable (py : Runtime) (sup : SupervisorAgent) (req : Request)

theorem save_stores (agent_id : Str) (message : ConversationMessage) (tr : List Ev)
    (h : Path (save req agent_id message) tr (.ok ())) :
    saved tr = [⟨req.user_id, req.session_id, agent_id, message⟩] := by
  obtain ⟨a, s, t, rfl, hask, hdone⟩ := Path.of_bind_ok h
  obtain ⟨b, rest, rfl, hrest⟩ := (path_ask _ _ _ _).mp hask
  obtain ⟨rfl, _⟩ := (path_done _ _ _).mp hrest
  obtain ⟨rfl, _⟩ := (path_done _ _ _).mp hdone
  rfl

theorem fetch_chat_reads (agent_id : Str) : AsksOnly Reads (fetch_chat req agent_id) :=
  asked_reads (request_reads (.fetch_chat _ _ _) trivial)

theorem ingress_reads : AsksOnly Reads (ingress req) := by
  apply asksOnly_bind
  · exact asked_reads (request_reads (.scan_input _ _) trivial)
  · intro user_input
    apply asksOnly_bind
    · exact request_reads (.guardrail_apply _ _ _) trivial
    · exact fun _ => asksOnly_bind Reads _ _ trivial (fun _ => trivial)

theorem classify_reads (user_input : Str) : AsksOnly Reads (classify req user_input) := by
  apply asksOnly_bind
  · exact asked_reads (request_reads (.fetch_all_chats _ _) trivial)
  · exact fun _ => asked_reads (request_reads (.classify _ _ _ _) trivial)

/-- The stream is asked for and, where there is one, consumed. -/
def stream_consumed : M Bool := do
  let step_gen ← process_request_streaming py sup req
  match step_gen with
  | some gen => do
    gen
    pure true
  | none => pure false

theorem stream_agent_stores (ag : Agent) (agent_name user_input agent_input : Str)
    (model_id_override : Option Str) (tr : List Ev) (gen : M Unit)
    (h : Path (stream_agent py sup req ag agent_name user_input agent_input model_id_override) tr
      (.ok gen)) :
    saved tr = [⟨req.user_id, req.session_id, agent_name, user_message user_input agent_name⟩] ∧
      AsksOnly Reads gen := by
  obtain ⟨_, s₁, t₁, rfl, hsave, h₁⟩ := Path.of_bind_ok h
  obtain ⟨chat_history, s₂, t₂, rfl, hfetch, h₂⟩ := Path.of_bind_ok h₁
  obtain ⟨hnone, hgen⟩ := agent_stream_reads py sup.settings ag _ gen t₂ h₂
  have hfetched := saved_of_reads (fetch_chat_reads req agent_name) hfetch
  constructor
  · rw [saved_append, saved_append, save_stores req _ _ _ hsave, hfetched, hnone]
    rfl
  · exact hgen

/-- One message is stored, and a stream that stores nothing is at hand. -/
def StoresOne (tr : List Ev) (step_gen : Option (M Unit)) : Prop :=
  ∀ gen, step_gen = some gen → (saved tr).length = 1 ∧ AsksOnly Reads gen

theorem storesOne_none (tr : List Ev) : StoresOne tr none := by
  intro gen h
  cases h

theorem storesOne_append {s t : List Ev} {step_gen : Option (M Unit)} (hs : saved s = [])
    (ht : StoresOne t step_gen) : StoresOne (s ++ t) step_gen := by
  intro gen h
  rw [saved_append, hs]
  exact ht gen h

/-- The agent's stream is offered as it is, or behind a routing step. -/
theorem offered_stores (ag : Agent) (agent_name user_input agent_input : Str)
    (model_id_override : Option Str) (wrap : M Unit → M Unit)
    (hwrap : ∀ gen, AsksOnly Reads gen → AsksOnly Reads (wrap gen)) (tr : List Ev)
    (step_gen : Option (M Unit))
    (h : Path ((stream_agent py sup req ag agent_name user_input agent_input
      model_id_override).bind (fun gen => pure (some (wrap gen)))) tr (.ok step_gen)) :
    StoresOne tr step_gen := by
  obtain ⟨gen, s, t, rfl, hagent, hdone⟩ := Path.of_bind_ok h
  obtain ⟨rfl, hsome⟩ := (path_done _ _ _).mp hdone
  obtain ⟨hsaved, hgen⟩ := stream_agent_stores py sup req ag _ _ _ _ s gen hagent
  cases hsome
  intro gen' hgen'
  cases hgen'
  rw [List.append_nil, hsaved]
  exact ⟨rfl, hwrap gen hgen⟩

theorem not_offered_stores (tr : List Ev) (step_gen : Option (M Unit))
    (h : Path (pure none : M (Option (M Unit))) tr (.ok step_gen)) : StoresOne tr step_gen := by
  obtain ⟨rfl, hnone⟩ := (path_done _ _ _).mp h
  cases hnone
  exact storesOne_none _

theorem stream_forced_stores (name user_input : Str) (tr : List Ev) (step_gen : Option (M Unit))
    (h : Path (stream_forced py sup req name user_input) tr (.ok step_gen)) :
    StoresOne tr step_gen := by
  obtain ⟨ag, s, t, rfl, hnamed, hagent⟩ := Path.of_bind_ok h
  obtain ⟨rfl, _⟩ := (path_done _ _ _).mp hnamed
  apply storesOne_append saved_nil
  split at hagent
  · exact offered_stores py sup req ag _ _ _ _ id (fun _ hgen => hgen) t step_gen hagent
  · exact not_offered_stores t step_gen hagent

theorem stream_classified_stores (c : ClassifierResult) (user_input : Str) (tr : List Ev)
    (step_gen : Option (M Unit))
    (h : Path (stream_classified py sup req c user_input) tr (.ok step_gen)) :
    StoresOne tr step_gen := by
  unfold stream_classified at h
  split at h
  · exact not_offered_stores tr step_gen h
  · split at h
    · next m _ =>
      obtain ⟨ag, s, t, rfl, hnamed, hagent⟩ := Path.of_bind_ok h
      obtain ⟨rfl, _⟩ := (path_done _ _ _).mp hnamed
      apply storesOne_append saved_nil
      split at hagent
      · exact offered_stores py sup req ag _ _ _ _ (.emit (routing m c)) (fun _ hgen => hgen) t
          step_gen hagent
      · exact not_offered_stores t step_gen hagent
    · exact not_offered_stores tr step_gen h

theorem stream_attended_stores (tr : List Ev) (step_gen : Option (M Unit))
    (h : Path (stream_attended py sup req) tr (.ok step_gen)) : StoresOne tr step_gen := by
  obtain ⟨user_input, s₁, t₁, rfl, hingress, hrest⟩ := Path.of_bind_ok h
  apply storesOne_append (saved_of_reads (ingress_reads req) hingress)
  split at hrest
  · exact stream_forced_stores py sup req _ user_input t₁ step_gen hrest
  · split at hrest
    · exact not_offered_stores t₁ step_gen hrest
    · obtain ⟨c, s₂, t₂, rfl, hclassify, hagent⟩ := Path.of_bind_ok hrest
      apply storesOne_append (saved_of_reads (classify_reads req user_input) hclassify)
      exact stream_classified_stores py sup req c user_input t₂ step_gen hagent

theorem check_budget_reads : AsksOnly Reads (check_budget req) :=
  request_reads (.check_budget _) trivial

theorem stream_stores (tr : List Ev) (step_gen : Option (M Unit))
    (h : Path (process_request_streaming py sup req) tr (.ok step_gen)) :
    StoresOne tr step_gen := by
  obtain ⟨budget, s, t, rfl, hbudget, hrest⟩ := Path.of_bind_ok h
  apply storesOne_append (saved_of_reads (check_budget_reads req) hbudget)
  cases budget with
  | ok u => exact stream_attended_stores py sup req t step_gen hrest
  | error exc =>
    cases exc with
    | TokenBudgetExceeded used limit => exact not_offered_stores t step_gen hrest
    | _ => cases ((path_done _ _ _).mp hrest).2

/-- A stream leaves one message behind, the user's. -/
theorem stream_consumed_stores (tr : List Ev)
    (h : Path (stream_consumed py sup req) tr (.ok true)) : (saved tr).length = 1 := by
  obtain ⟨step_gen, s, t, rfl, hstream, hrest⟩ := Path.of_bind_ok h
  have hone := stream_stores py sup req s step_gen hstream
  cases step_gen with
  | none => cases ((path_done _ _ _).mp hrest).2
  | some gen =>
    obtain ⟨hsaved, hgen⟩ := hone gen rfl
    obtain ⟨_, t₁, t₂, rfl, hconsumed, hdone⟩ := Path.of_bind_ok hrest
    obtain ⟨rfl, _⟩ := (path_done _ _ _).mp hdone
    rw [List.append_nil, saved_append, saved_of_reads hgen hconsumed, List.append_nil]
    exact hsaved

/-- The answer stands for no exception. -/
def Completed (reply : Reply) : Prop := ∀ exc, reply.error ≠ some (.raised exc)

theorem conclude_stores (agent_name : Str) (c : ClassifierResult)
    (result : Except Exn ConversationMessage) (tr : List Ev) (reply : Reply)
    (h : Path (conclude req agent_name c result) tr (.ok reply)) (hreply : Completed reply) :
    (saved tr).length = 1 := by
  cases result with
  | ok message =>
    obtain ⟨_, s, t, rfl, hsave, hdone⟩ := Path.of_bind_ok h
    obtain ⟨rfl, _⟩ := (path_done _ _ _).mp hdone
    rw [List.append_nil, save_stores req _ _ _ hsave]
    rfl
  | error exc =>
    cases exc with
    | GuardrailBlockedError reason source categories => cases ((path_done _ _ _).mp h).2
    | _ =>
      cases ((path_done _ _ _).mp h).2
      exact absurd rfl (hreply _)

theorem single_agent_call_stores (agent_name : Str) (c : ClassifierResult) (user_input : Str)
    (model_id_override : Option Str) (tr : List Ev) (reply : Reply)
    (h : Path (single_agent_call py sup req agent_name c user_input model_id_override) tr
      (.ok reply)) (hreply : Completed reply) : (saved tr).length = 1 := by
  obtain ⟨agent_history, s₁, t₁, rfl, hfetch, h₁⟩ := Path.of_bind_ok h
  obtain ⟨ag, s₂, t₂, rfl, hnamed, h₂⟩ := Path.of_bind_ok h₁
  obtain ⟨result, s₃, t₃, rfl, hagent, h₃⟩ := Path.of_bind_ok h₂
  have hfetched := saved_of_reads (fetch_chat_reads req agent_name) hfetch
  have hasked := saved_of_reads (asksOnly_attempt Reads _ (agent_request_reads py sup.settings ag _))
    hagent
  obtain ⟨rfl, _⟩ := (path_done _ _ _).mp hnamed
  rw [saved_append, saved_append, saved_append, hfetched, hasked, saved_nil]
  rw [List.nil_append, List.nil_append, List.nil_append]
  exact conclude_stores req agent_name c result t₃ reply h₃ hreply

theorem synthesize_reads (query : Str) (responses : List (Str × Str)) (failed : List Str) :
    AsksOnly Reads (synthesize req query responses failed) := by
  unfold synthesize
  split
  · trivial
  · exact asked_reads (request_reads (.invoke _) trivial)

theorem fan_out_stores (primary : AgentMatch) (others : List AgentMatch) (user_input : Str)
    (model_id_override : Option Str) (tr : List Ev) (reply : Reply)
    (h : Path (fan_out py sup req primary others user_input model_id_override) tr (.ok reply)) :
    (saved tr).length = 1 := by
  obtain ⟨specialists, s₁, t₁, rfl, hnamed, h₁⟩ := Path.of_bind_ok h
  obtain ⟨results, s₂, t₂, rfl, hgather, h₂⟩ := Path.of_bind_ok h₁
  obtain ⟨_, s₃, t₃, rfl, hrefuse, h₃⟩ := Path.of_bind_ok h₂
  obtain ⟨final_response, s₄, t₄, rfl, hfuse, h₄⟩ := Path.of_bind_ok h₃
  obtain ⟨_, s₅, t₅, rfl, hsave, hdone⟩ := Path.of_bind_ok h₄
  obtain ⟨rfl, _⟩ := (path_done _ _ _).mp hnamed
  obtain ⟨rfl, _⟩ := (path_done _ _ _).mp hrefuse
  obtain ⟨rfl, _⟩ := (path_done _ _ _).mp hdone
  have hagents : saved s₂ = [] := by
    apply saved_of_reads (asksOnly_gather Reads _ _) hgather
    intro p hp
    obtain ⟨q, _, rfl⟩ := List.mem_map.mp hp
    exact agent_request_reads py sup.settings q.2 _
  have hfused := saved_of_reads (synthesize_reads req user_input _ _) hfuse
  simp [hagents, hfused, save_stores req _ _ _ hsave]

theorem answer_forced_stores (name user_input : Str) (tr : List Ev) (reply : Reply)
    (h : Path (answer_forced py sup req name user_input) tr (.ok reply))
    (hreply : Completed reply) : (saved tr).length = 2 := by
  obtain ⟨_, s, t, rfl, hsave, hanswer⟩ := Path.of_bind_ok h
  rw [saved_append, List.length_append, save_stores req _ _ _ hsave,
    single_agent_call_stores py sup req _ _ _ _ t reply hanswer hreply]
  rfl

theorem answer_classified_stores (c : ClassifierResult) (user_input : Str) (tr : List Ev)
    (reply : Reply) (h : Path (answer_classified py sup req c user_input) tr (.ok reply))
    (hreply : Completed reply) : (saved tr).length ≠ 1 := by
  unfold answer_classified at h
  split at h
  · obtain ⟨rfl, _⟩ := (path_done _ _ _).mp h
    exact Nat.zero_ne_one
  · split at h
    · obtain ⟨rfl, _⟩ := (path_done _ _ _).mp h
      exact Nat.zero_ne_one
    · obtain ⟨_, s, t, rfl, hsave, hrest⟩ := Path.of_bind_ok h
      have hanswer : (saved t).length = 1 := by
        split at hrest
        · exact single_agent_call_stores py sup req _ _ _ _ t reply hrest hreply
        · exact fan_out_stores py sup req _ _ _ _ t reply hrest
      rw [saved_append, List.length_append, save_stores req _ _ _ hsave, hanswer]
      exact Nat.succ_ne_self 1

variable [Values]

theorem respond_stores (user_input : Str) (tr : List Ev) (reply : Reply)
    (h : Path (Supervisor.respond py sup req user_input) tr (.ok reply))
    (hreply : Completed reply) : (saved tr).length ≠ 1 := by
  unfold Supervisor.respond at h
  split at h
  · rw [answer_forced_stores py sup req _ user_input tr reply h hreply]
    exact Nat.succ_ne_self 1
  · split at h
    · obtain ⟨rca, s, t, rfl, hrun, hdone⟩ := Path.of_bind_ok h
      obtain ⟨rfl, _⟩ := (path_done _ _ _).mp hdone
      rw [List.append_nil, saved_of_reads (run_investigation_reads py sup.settings _) hrun]
      exact Nat.zero_ne_one
    · obtain ⟨c, s, t, rfl, hclassify, hanswer⟩ := Path.of_bind_ok h
      rw [saved_append, saved_of_reads (classify_reads req user_input) hclassify]
      exact answer_classified_stores py sup req c user_input t reply hanswer hreply

theorem attended_stores (tr : List Ev) (reply : Reply)
    (h : Path (attended py sup req) tr (.ok reply)) (hreply : Completed reply) :
    (saved tr).length ≠ 1 := by
  obtain ⟨user_input, s, t, rfl, hingress, hrest⟩ := Path.of_bind_ok h
  rw [saved_append, saved_of_reads (ingress_reads req) hingress]
  exact respond_stores py sup req user_input t reply hrest hreply

/-- A completed answer never leaves one message alone. -/
theorem process_request_stores (tr : List Ev) (reply : Reply)
    (h : Path (Supervisor.process_request py sup req) tr (.ok reply))
    (hreply : Completed reply) : (saved tr).length ≠ 1 := by
  rcases (path_handle _ _ _ _).mp h with ⟨a, ha, hr⟩ | ⟨x, s, t, rfl, _, hrecover⟩
  · cases hr
    obtain ⟨budget, s, t, rfl, hbudget, hbody⟩ := Path.of_bind_ok ha
    rw [saved_append, saved_of_reads (check_budget_reads req) hbudget]
    cases budget with
    | ok u => exact attended_stores py sup req t _ hbody hreply
    | error exc =>
      cases exc with
      | TokenBudgetExceeded used limit =>
        obtain ⟨rfl, _⟩ := (path_done _ _ _).mp hbody
        exact Nat.zero_ne_one
      | _ => cases ((path_done _ _ _).mp hbody).2
  · -- what `recover` answers stands for an exception
    cases x with
    | GuardrailBlockedError reason source categories => cases ((path_done _ _ _).mp hrecover).2
    | _ =>
      cases ((path_done _ _ _).mp hrecover).2
      exact absurd rfl (hreply _)

theorem histories_differ (history : List Stored) (s t : List Ev) (reply : Reply)
    (hs : Path (stream_consumed py sup req) s (.ok true))
    (ht : Path (Supervisor.process_request py sup req) t (.ok reply))
    (hreply : Completed reply) : history ++ saved s ≠ history ++ saved t := by
  intro heq
  have hsame : saved s = saved t := List.append_cancel_left heq
  have hone := stream_consumed_stores py sup req s hs
  rw [hsame] at hone
  exact process_request_stores py sup req t reply ht hreply hone

end Supervised

/-! ### One question, streamed and not -/

section Forced
open AigentSquad.Supervisor AigentSquad.Groundedness

def podSquad : SupervisorAgent where
  agents := [(toolAgent.name, toolAgent)]
  settings := sampleSettings
  tiers := ⟨false, 8 / 10, false, [], [], []⟩

def podRequest : Request where
  user_input := "pods?".toList
  user_id := "u".toList
  session_id := "s".toList
  mode := "query".toList
  force_agent := some toolAgent.name

def answeringEnv : Env Ask Answer := fun _ e =>
  match e with
  | .converse _ => .ok ⟨"end_turn".toList, [.text "3 pods are running".toList], ⟨20, 5⟩⟩
  | e => calm e

def podStream : List Ev × Except Exn Bool :=
  run answeringEnv [] (stream_consumed asciiRuntime podSquad podRequest)

def podAnswer : List Ev × Except Exn Reply :=
  run answeringEnv [] (@Supervisor.process_request textValues asciiRuntime podSquad podRequest)

def completed (r : Except Exn Reply) : Bool :=
  match r with
  | .ok ⟨_, _, _, none, _, _, _, _, _⟩ => true
  | _ => false

theorem completed_reply {r : Except Exn Reply} (h : completed r = true) :
    ∃ reply, r = .ok reply ∧ Completed reply := by
  unfold completed at h
  split at h
  · refine ⟨_, rfl, ?_⟩
    intro exc hexc
    cases hexc
  · cases h

set_option maxRecDepth 100000 in
theorem podStream_consumed : podStream.2 = .ok true := by decide +kernel

set_option maxRecDepth 100000 in
theorem podAnswer_completed : completed podAnswer.2 = true := by decide +kernel

theorem histories_differ_pods :
    ∃ reply, podStream.2 = .ok true ∧ podAnswer.2 = .ok reply ∧ Completed reply ∧
      ([] : List Stored) ++ saved podStream.1 ≠ [] ++ saved podAnswer.1 := by
  obtain ⟨reply, hanswer, hreply⟩ := completed_reply podAnswer_completed
  have hs : Path (stream_consumed asciiRuntime podSquad podRequest) podStream.1 (.ok true) :=
    path_of_run podStream_consumed
  have ht : Path (@Supervisor.process_request textValues asciiRuntime podSquad podRequest)
      podAnswer.1 (.ok reply) := path_of_run hanswer
  exact ⟨reply, podStream_consumed, hanswer, hreply,
    @histories_differ asciiRuntime podSquad podRequest textValues [] _ _ reply hs ht hreply⟩

set_option maxRecDepth 100000 in
/-- The stream's session holds the question, the other one the answer as well. -/
theorem streamed_answer_unsaved :
    podStream.2 = .ok true ∧ completed podAnswer.2 = true ∧
      (saved podStream.1).map (fun m => m.message.role) = ["user".toList] ∧
      (saved podAnswer.1).map (fun m => m.message.role) =
        ["user".toList, "assistant".toList] := by
  decide +kernel

/-- The histories of the two paths are not the same in every environment. -/
theorem same_history_fails : ¬ ∀ (env : Env Ask Answer) (sup : SupervisorAgent) (req : Request)
    (history : List Stored),
    (run env [] (stream_consumed asciiRuntime sup req)).2 = .ok true →
    completed (run env [] (@Supervisor.process_request textValues asciiRuntime sup req)).2 = true →
    history ++ saved (run env [] (stream_consumed asciiRuntime sup req)).1 =
      history ++ saved (run env [] (@Supervisor.process_request textValues asciiRuntime sup req)).1
    := by
  intro h
  have hsame := h answeringEnv podSquad podRequest [] podStream_consumed podAnswer_completed
  have hroles := streamed_answer_unsaved.2.2
  rw [show saved podStream.1 = saved podAnswer.1 from hsame] at hroles
  rw [hroles.2] at hroles
  exact absurd hroles.1 (by decide)

end Forced

end AigentSquad.StoredHistory
