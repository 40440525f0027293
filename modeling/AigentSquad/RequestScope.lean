import AigentSquad.AgentQuestions
import AigentSquad.StoredHistory

/-!
# Whose questions a request asks

Model calls, guardrail checks, scans, counters and stores take a user and a
session, and a model call the session its tokens are charged to. An investigation
runs its agents under sessions of its own. The tier of the routing names the model
of the agents' loops.
-/

set_option autoImplicit false

namespace AigentSquad.RequestScope
open AigentSquad.PyText AigentSquad.PyJson AigentSquad.Dict AigentSquad.Interaction
open AigentSquad.Postcondition AigentSquad.Effects AigentSquad.GenericAgent
open AigentSquad.EvidenceExchange AigentSquad.RunInvestigation AigentSquad.AgentQuestions
open AigentSquad.Supervisor AigentSquad.StoredHistory

/-! ## In its name -/

/-- The session of a request, or that of an investigation in it. -/
def OwnSession (session_id other : Str) : Prop :=
  other = session_id ∨ ∃ id, other = session_id ++ "-inv-".toList ++ id

/-- `budget_session_id or session_id` -/
def charged_session_id (budget_session_id : Option Str) (session_id : Str) : Str :=
  or_else (budget_session_id.getD []) session_id

def Attributed (req : Supervisor.Request) : Ask → Prop
  | .converse call => call.user_id = req.user_id ∧ OwnSession req.session_id call.session_id ∧
      charged_session_id call.budget_session_id call.session_id = req.session_id
  | .invoke call => call.user_id = req.user_id ∧ OwnSession req.session_id call.session_id ∧
      charged_session_id call.budget_session_id call.session_id = req.session_id
  | .guardrail_apply _ _ ids => ids.user_id = req.user_id ∧ OwnSession req.session_id ids.session_id
  | .scan_input _ ids => ids.user_id = req.user_id ∧ OwnSession req.session_id ids.session_id
  | .count_detection session_id => OwnSession req.session_id session_id
  | .check_budget session_id => session_id = req.session_id
  | .fetch_chat user_id session_id _ => user_id = req.user_id ∧ session_id = req.session_id
  | .fetch_all_chats user_id session_id => user_id = req.user_id ∧ session_id = req.session_id
  | .save_chat_message user_id session_id _ _ =>
    user_id = req.user_id ∧ session_id = req.session_id
  | .classify _ _ user_id session_id => user_id = req.user_id ∧ session_id = req.session_id
  | _ => True

def AllAttributed (req : Supervisor.Request) (tr : List Ev) : Prop :=
  ∀ e ∈ asks tr, Attributed req e.1

/-- A call of an agent in the name of a request. -/
structure CallOf (req : Supervisor.Request) (call : AgentCall) : Prop where
  user : call.user_id = req.user_id
  session : OwnSession req.session_id call.session_id
  charged : charged_session_id call.budget_session_id call.session_id = req.session_id

/-- A stream that may be offered, and the questions before and in it. -/
structure Offers (P : Ask → Prop) (p : M (Option (M Unit))) : Prop where
  asks : AsksOnly P p
  stream : ∀ tr gen, Path p tr (.ok (some gen)) → AsksOnly P gen

theorem offers_none (P : Ask → Prop) : Offers P (pure none) := by
  refine ⟨trivial, fun tr gen h => ?_⟩
  cases ((path_done _ _ _).mp h).2

theorem offers_ofExcept {α : Type} {P : Ask → Prop} {x : Except Exn α}
    {f : α → M (Option (M Unit))} (hf : ∀ a, Offers P (f a)) :
    Offers P ((.ofExcept x : M α).bind f) := by
  cases x with
  | ok a => exact hf a
  | error exc => exact ⟨trivial, fun tr gen h => by cases ((path_done _ _ _).mp h).2⟩

theorem offers_bind {α : Type} {P : Ask → Prop} {p : M α} {f : α → M (Option (M Unit))}
    (hp : AsksOnly P p) (hf : ∀ a, Offers P (f a)) : Offers P (p.bind f) := by
  refine ⟨asksOnly_bind P p f hp (fun a => (hf a).asks), fun tr gen h => ?_⟩
  obtain ⟨a, s, t, rfl, _, hrest⟩ := Path.of_bind_ok h
  exact (hf a).stream t gen hrest

/-- A stream is asked for and, where one is offered, consumed. -/
def consumed (p : M (Option (M Unit))) : M Bool :=
  p.bind (fun step_gen => match step_gen with
    | some gen => gen.bind (fun _ => pure true)
    | none => pure false)

theorem consumed_bind {α : Type} (p : M α) (f : α → M (Option (M Unit))) :
    consumed (p.bind f) = p.bind (fun a => consumed (f a)) := Prog.bind_assoc p f _

theorem consumed_asks {P : Ask → Prop} {p : M (Option (M Unit))} (hp : Offers P p) {tr : List Ev}
    {r : Except Exn Bool} (h : Path (consumed p) tr r) : ∀ e ∈ asks tr, P e.1 := by
  rcases (path_bind p _ tr r).mp h with ⟨exc, hraised, rfl⟩ | ⟨step_gen, s, t, rfl, hok, hrest⟩
  · exact asksOnly_path hp.asks hraised
  · rw [asks_append]
    refine List.forall_mem_append.mpr ⟨asksOnly_path hp.asks hok, ?_⟩
    cases step_gen with
    | none =>
      obtain ⟨rfl, _⟩ := (path_done _ _ _).mp hrest
      exact fun e he => absurd he List.not_mem_nil
    | some gen =>
      have hgen : AsksOnly P (gen.bind (fun _ => (pure true : M Bool))) :=
        asksOnly_bind P gen _ (hp.stream s gen hok) (fun _ => trivial)
      exact asksOnly_path hgen hrest

/-- What the supervisor asks in its own name. -/
structure Allows (P : Ask → Prop) (req : Supervisor.Request) : Prop where
  save : ∀ agent_id message, P (.save_chat_message req.user_id req.session_id agent_id message)
  fetch_chat : ∀ agent_id, P (.fetch_chat req.user_id req.session_id agent_id)
  fetch_all_chats : P (.fetch_all_chats req.user_id req.session_id)
  classify : ∀ user_input chat_history,
    P (.classify user_input chat_history req.user_id req.session_id)
  check_budget : P (.check_budget req.session_id)
  scan_input : ∀ text agent_id, P (.scan_input text ⟨agent_id, req.user_id, req.session_id⟩)
  guardrail : ∀ text source agent_id,
    P (.guardrail_apply text source ⟨agent_id, req.user_id, req.session_id⟩)
  invoke : ∀ call : InvokeCall, call.user_id = req.user_id → call.session_id = req.session_id →
    call.budget_session_id = none → P (.invoke call)
  uuid4 : P .uuid4
  similar_cases : ∀ symptom, P (.inject_similar_cases symptom)

section Supervised
variable {P : Ask → Prop} {req : Supervisor.Request} (py : Runtime) (sup : SupervisorAgent)

theorem save_asks (hP : Allows P req) (agent_id : Str) (message : ConversationMessage) :
    AsksOnly P (save req agent_id message) := ⟨hP.save agent_id message, fun _ => trivial⟩

theorem ingress_asks (hP : Allows P req) : AsksOnly P (ingress req) := by
  apply asksOnly_bind
  · exact ⟨hP.scan_input _ _, fun _ => trivial⟩
  · intro user_input
    apply asksOnly_bind
    · exact ⟨hP.guardrail _ _ _, fun _ => trivial⟩
    · exact fun _ => asksOnly_bind P _ _ trivial (fun _ => trivial)

theorem classify_asks (hP : Allows P req) (user_input : Str) :
    AsksOnly P (classify req user_input) := by
  apply asksOnly_bind
  · exact ⟨hP.fetch_all_chats, fun _ => trivial⟩
  · exact fun _ => ⟨hP.classify _ _, fun _ => trivial⟩

theorem single_agent_call_asks (hP : Allows P req) (agent_name : Str) (c : ClassifierResult)
    (user_input : Str) (o : Option Str)
    (hcall : ∀ input_text chat_history e, AskedFor (agent_call req input_text chat_history o) e →
      P e) : AsksOnly P (single_agent_call py sup req agent_name c user_input o) := by
  apply asksOnly_bind
  · exact ⟨hP.fetch_chat _, fun _ => trivial⟩
  · intro agent_history
    apply asksOnly_bind
    · trivial
    · intro ag
      apply asksOnly_bind
      · exact asksOnly_attempt P _ ((agent_request_askedFor py sup.settings ag _).mono (hcall _ _))
      · intro result
        unfold conclude
        split
        · trivial
        · trivial
        · exact asksOnly_bind P _ _ (save_asks hP _ _) (fun _ => trivial)

theorem synthesize_asks (hP : Allows P req) (query : Str) (responses : List (Str × Str))
    (failed : List Str) : AsksOnly P (synthesize req query responses failed) := by
  unfold synthesize
  split
  · trivial
  · exact ⟨hP.invoke _ rfl rfl rfl, fun _ => trivial⟩

theorem fan_out_asks (hP : Allows P req) (primary : AgentMatch) (others : List AgentMatch)
    (user_input : Str) (o : Option Str)
    (hcall : ∀ input_text chat_history e, AskedFor (agent_call req input_text chat_history o) e →
      P e) : AsksOnly P (fan_out py sup req primary others user_input o) := by
  unfold fan_out
  apply asksOnly_bind
  · trivial
  · intro specialists
    apply asksOnly_bind
    · apply asksOnly_gather
      intro p hp
      obtain ⟨q, _, rfl⟩ := List.mem_map.mp hp
      exact (agent_request_askedFor py sup.settings q.2 _).mono (hcall _ _)
    · intro results
      apply asksOnly_bind
      · trivial
      · intro _
        apply asksOnly_bind
        · exact synthesize_asks hP _ _ _
        · exact fun _ => asksOnly_bind P _ _ (save_asks hP _ _) (fun _ => trivial)

theorem answer_classified_asks (hP : Allows P req) (c : ClassifierResult) (user_input : Str)
    (hcall : ∀ input_text chat_history e,
      AskedFor (agent_call req input_text chat_history (resolve_tier_model sup.tiers c)) e → P e) :
    AsksOnly P (answer_classified py sup req c user_input) := by
  unfold answer_classified
  split
  · trivial
  · split
    · trivial
    · apply asksOnly_bind
      · exact save_asks hP _ _
      · intro _
        dsimp only
        split
        · exact single_agent_call_asks py sup hP _ c user_input _ hcall
        · exact fan_out_asks py sup hP _ _ user_input _ hcall

theorem answer_forced_asks (hP : Allows P req) (name user_input : Str)
    (hcall : ∀ input_text chat_history e, AskedFor (agent_call req input_text chat_history
      (resolve_tier_model sup.tiers (forced_result name user_input))) e → P e) :
    AsksOnly P (answer_forced py sup req name user_input) := by
  apply asksOnly_bind
  · exact save_asks hP _ _
  · exact fun _ => single_agent_call_asks py sup hP name _ user_input _ hcall

theorem investigate_asks [Values] (hP : Allows P req) (user_input : Str)
    (hcall : ∀ symptom id e, AskedFor (collection_call symptom req.user_id req.session_id id
      (resolve_tier_model sup.tiers investigation_result)) e → P e) :
    AsksOnly P (investigate py sup req user_input) := by
  refine asksOnly_bind P _ _ ?_ (fun _ => trivial)
  apply asksOnly_bind
  · exact ⟨hP.scan_input _ _, fun _ => trivial⟩
  · intro symptom
    apply asksOnly_bind
    · exact ⟨hP.uuid4, fun _ => trivial⟩
    · intro id
      apply asksOnly_bind
      · trivial
      · intro specialists
        apply asksOnly_bind
        · apply asksOnly_gather
          intro p hp
          obtain ⟨ag, _, rfl⟩ := List.mem_map.mp hp
          exact (agent_request_askedFor py sup.settings ag _).mono (hcall _ _)
        · intro results
          refine asksOnly_bind P _ _ trivial (fun _ => ?_)
          refine asksOnly_bind P _ _ trivial (fun collected => ?_)
          refine asksOnly_bind P _ _ trivial (fun built => ?_)
          refine asksOnly_bind P _ _ ?_ (fun _ => trivial)
          apply asksOnly_bind
          · exact ⟨hP.similar_cases _, fun _ => trivial⟩
          · intro rag_block
            apply asksOnly_bind
            · exact ⟨hP.invoke _ rfl rfl rfl, fun _ => trivial⟩
            · exact fun _ => trivial

end Supervised

section Attribution
variable {req : Supervisor.Request} {py : Runtime} {sup : SupervisorAgent}

theorem attributed_of_call {call : AgentCall} (hcall : CallOf req call) (e : Ask)
    (h : AskedFor call e) : Attributed req e := by
  cases e with
  | converse c =>
    obtain ⟨huser, hsession, hbudget, _⟩ := h
    rw [Attributed, huser, hsession, hbudget]
    exact ⟨hcall.user, hcall.session, hcall.charged⟩
  | invoke c =>
    obtain ⟨huser, hsession, hbudget⟩ := h
    rw [Attributed, huser, hsession, hbudget]
    exact ⟨hcall.user, hcall.session, hcall.charged⟩
  | guardrail_apply text source ids =>
    rw [Attributed, h.1, h.2]
    exact ⟨hcall.user, hcall.session⟩
  | scan_input text ids =>
    rw [Attributed, h.1, h.2]
    exact ⟨hcall.user, hcall.session⟩
  | count_detection session_id =>
    cases h
    exact hcall.session
  | check_budget _ => exact (h.elim id id).elim
  | fetch_chat _ _ _ => exact (h.elim id id).elim
  | fetch_all_chats _ _ => exact (h.elim id id).elim
  | save_chat_message _ _ _ _ => exact (h.elim id id).elim
  | classify _ _ _ _ => exact (h.elim id id).elim
  | _ => trivial

theorem agent_call_of (input_text : Str) (chat_history : List ConversationMessage)
    (model_id_override : Option Str) :
    CallOf req (agent_call req input_text chat_history model_id_override) :=
  ⟨rfl, .inl rfl, rfl⟩

theorem collection_call_of (hsession : req.session_id ≠ []) (symptom investigation_id : Str)
    (model_id_override : Option Str) :
    CallOf req (collection_call symptom req.user_id req.session_id investigation_id
      model_id_override) := by
  refine ⟨rfl, .inr ⟨_, rfl⟩, ?_⟩
  show or_else req.session_id _ = req.session_id
  exact if_neg (by rwa [List.isEmpty_iff])

theorem attributed_allows : Allows (Attributed req) req where
  save := fun _ _ => ⟨rfl, rfl⟩
  fetch_chat := fun _ => ⟨rfl, rfl⟩
  fetch_all_chats := ⟨rfl, rfl⟩
  classify := fun _ _ => ⟨rfl, rfl⟩
  check_budget := rfl
  scan_input := fun _ _ => ⟨rfl, .inl rfl⟩
  guardrail := fun _ _ _ => ⟨rfl, .inl rfl⟩
  invoke := fun call huser hsession hbudget => by
    rw [Attributed, huser, hsession, hbudget]
    exact ⟨rfl, .inl rfl, rfl⟩
  uuid4 := trivial
  similar_cases := fun _ => trivial

theorem agent_call_attributed (input_text : Str) (chat_history : List ConversationMessage)
    (o : Option Str) (e : Ask) (h : AskedFor (agent_call req input_text chat_history o) e) :
    Attributed req e := attributed_of_call (agent_call_of input_text chat_history o) e h

variable (py sup)

theorem respond_attributed [Values] (hsession : req.session_id ≠ []) (user_input : Str) :
    AsksOnly (Attributed req) (Supervisor.respond py sup req user_input) := by
  unfold Supervisor.respond
  split
  · exact answer_forced_asks py sup attributed_allows _ user_input
      (fun input_text history => agent_call_attributed input_text history _)
  · split
    · exact investigate_asks py sup attributed_allows user_input
        (fun symptom id => attributed_of_call (collection_call_of hsession symptom id _))
    · apply asksOnly_bind
      · exact classify_asks attributed_allows user_input
      · exact fun c => answer_classified_asks py sup attributed_allows c user_input
          (fun input_text history => agent_call_attributed input_text history _)

theorem process_request_attributed [Values] (hsession : req.session_id ≠ []) :
    AsksOnly (Attributed req) (Supervisor.process_request py sup req) := by
  apply asksOnly_handle
  · apply asksOnly_bind
    · exact ⟨attributed_allows.check_budget, fun _ => trivial⟩
    · intro budget
      unfold within_budget
      split
      · trivial
      · trivial
      · apply asksOnly_bind
        · exact ingress_asks attributed_allows
        · exact respond_attributed py sup hsession
  · intro exc
    cases exc with
    | _ => trivial

/-! ### The streams -/

end Attribution

section Streams
variable {P : Ask → Prop} {req : Supervisor.Request} (py : Runtime) (sup : SupervisorAgent)

/-- An agent's stream, offered as it is or behind a routing step. -/
theorem stream_agent_offers (hP : Allows P req) (ag : Agent)
    (agent_name user_input agent_input : Str) (o : Option Str)
    (hcall : ∀ input_text chat_history e, AskedFor (agent_call req input_text chat_history o) e →
      P e) (wrap : M Unit → M Unit) (hwrap : ∀ gen, AsksOnly P gen → AsksOnly P (wrap gen)) :
    Offers P ((stream_agent py sup req ag agent_name user_input agent_input o).bind
      (fun gen => pure (some (wrap gen)))) := by
  constructor
  · refine asksOnly_bind P _ _ ?_ (fun _ => trivial)
    apply asksOnly_bind
    · exact save_asks hP _ _
    · intro _
      apply asksOnly_bind
      · exact ⟨hP.fetch_chat _, fun _ => trivial⟩
      · exact fun history => (agent_stream_askedFor py sup.settings ag _).mono (hcall _ _)
  · intro tr gen h
    obtain ⟨gen', s, t, rfl, hagent, hdone⟩ := Path.of_bind_ok h
    obtain ⟨_, heq⟩ := (path_done _ _ _).mp hdone
    cases heq
    obtain ⟨_, s₁, t₁, rfl, _, h₁⟩ := Path.of_bind_ok hagent
    obtain ⟨history, s₂, t₂, rfl, _, h₂⟩ := Path.of_bind_ok h₁
    exact hwrap gen' ((agent_events_askedFor py sup.settings ag _ t₂ gen' h₂).mono (hcall _ _))

theorem stream_forced_offers (hP : Allows P req) (name user_input : Str)
    (hcall : ∀ input_text chat_history e, AskedFor (agent_call req input_text chat_history
      (resolve_tier_model sup.tiers (forced_result name user_input))) e → P e) :
    Offers P (stream_forced py sup req name user_input) := by
  refine offers_ofExcept (fun ag => ?_)
  dsimp only
  split
  · exact stream_agent_offers py sup hP ag _ _ _ _ hcall id (fun _ h => h)
  · exact offers_none P

theorem stream_classified_offers (hP : Allows P req) (c : ClassifierResult) (user_input : Str)
    (hcall : ∀ input_text chat_history e,
      AskedFor (agent_call req input_text chat_history (resolve_tier_model sup.tiers c)) e → P e) :
    Offers P (stream_classified py sup req c user_input) := by
  unfold stream_classified
  split
  · exact offers_none P
  · split
    · next m _ =>
      refine offers_ofExcept (fun ag => ?_)
      split
      · exact stream_agent_offers py sup hP ag _ _ _ _ hcall (.emit (routing m c)) (fun _ h => h)
      · exact offers_none P
    · exact offers_none P

end Streams

section Whole
variable {req : Supervisor.Request} (py : Runtime) (sup : SupervisorAgent)

theorem stream_attributed :
    Offers (Attributed req) (process_request_streaming py sup req) := by
  apply offers_bind
  · exact ⟨attributed_allows.check_budget, fun _ => trivial⟩
  · intro budget
    unfold within_budget
    split
    · exact offers_none _
    · exact ⟨trivial, fun tr gen h => by cases ((path_done _ _ _).mp h).2⟩
    · refine offers_bind (ingress_asks attributed_allows) (fun user_input => ?_)
      split
      · exact stream_forced_offers py sup attributed_allows _ user_input
          (fun input_text history => agent_call_attributed input_text history _)
      · split
        · exact offers_none _
        · refine offers_bind (classify_asks attributed_allows user_input) (fun c => ?_)
          exact stream_classified_offers py sup attributed_allows c user_input
            (fun input_text history => agent_call_attributed input_text history _)

end Whole

/-- The classification under which a request is routed. -/
def Routed (sup : SupervisorAgent) (req : Supervisor.Request) (tr : List Ev)
    (c : ClassifierResult) : Prop :=
  (∃ name user_input, forced sup req = some name ∧ c = forced_result name user_input) ∨
    (forced sup req = none ∧ c = investigation_result) ∨
    (forced sup req = none ∧ ∃ user_input chat_history,
      .asked (.classify user_input chat_history req.user_id req.session_id) (Except.ok c) ∈ tr)

def Runs (model_id_override : Option Str) : Ask → Prop
  | .converse call => call.model_id_override = model_id_override
  | _ => True

def NoConverse : Ask → Prop
  | .converse _ => False
  | _ => True

/-- No agent's loop calls the model, or each one's does by the tier of one routing. -/
def Tiered (sup : SupervisorAgent) (req : Supervisor.Request) (tr : List Ev) : Prop :=
  (∀ e ∈ asks tr, NoConverse e.1) ∨
    ∃ c, Routed sup req tr c ∧ ∀ e ∈ asks tr, Runs (resolve_tier_model sup.tiers c) e.1

section Tiers
variable {req : Supervisor.Request} (py : Runtime) (sup : SupervisorAgent)

theorem runs_of_noConverse {o : Option Str} (e : Ask) (h : NoConverse e) : Runs o e := by
  cases e with
  | converse _ => exact h.elim
  | _ => trivial

theorem runs_of_call {call : AgentCall} (e : Ask) (h : AskedFor call e) :
    Runs call.model_id_override e := by
  cases e with
  | converse c => exact h.2.2.2
  | _ => trivial

theorem noConverse_allows : Allows NoConverse req := by
  constructor <;> intros <;> trivial

theorem runs_allows (o : Option Str) : Allows (Runs o) req := by
  constructor <;> intros <;> trivial

variable {sup}

theorem Tiered.after {s t : List Ev} (hs : ∀ e ∈ asks s, NoConverse e.1) (ht : Tiered sup req t) :
    Tiered sup req (s ++ t) := by
  unfold Tiered
  rw [asks_append]
  rcases ht with hnone | ⟨c, hrouted, hruns⟩
  · exact .inl (List.forall_mem_append.mpr ⟨hs, hnone⟩)
  · refine .inr ⟨c, ?_, List.forall_mem_append.mpr ⟨fun e he => ?_, hruns⟩⟩
    · rcases hrouted with hforced | hinvestigates | ⟨hnone, user_input, history, hclassified⟩
      · exact .inl hforced
      · exact .inr (.inl hinvestigates)
      · exact .inr (.inr ⟨hnone, user_input, history, List.mem_append_right s hclassified⟩)
    · exact runs_of_noConverse _ (hs e he)

/-- What asks no agent is gone through first. -/
theorem tiered_bind {α β : Type} {p : M α} (hp : AsksOnly NoConverse p) {f : α → M β}
    {tr : List Ev} {r : Except Exn β} (h : Path (p.bind f) tr r)
    (hf : ∀ a s t, Path p s (.ok a) → Path (f a) t r → Tiered sup req t) :
    Tiered sup req tr := by
  rcases (path_bind p f tr r).mp h with ⟨exc, hraised, rfl⟩ | ⟨a, s, t, rfl, hok, hrest⟩
  · exact .inl (asksOnly_path hp hraised)
  · exact (hf a s t hok hrest).after (asksOnly_path hp hok)

theorem classify_routes {user_input : Str} {c : ClassifierResult} {s : List Ev}
    (h : Path (classify req user_input) s (.ok c)) :
    ∃ chat_history, .asked (.classify user_input chat_history req.user_id req.session_id)
      (Except.ok c) ∈ s := by
  obtain ⟨chat_history, s₁, t₁, rfl, _, h₁⟩ := Path.of_bind_ok h
  obtain ⟨a, rest, rfl, hdone⟩ := (path_ask _ _ _ _).mp h₁
  obtain ⟨_, heq⟩ := (path_done _ _ _).mp hdone
  subst heq
  exact ⟨chat_history, by simp⟩

/-- A classified request goes on under its classification. -/
theorem classified_tiered {user_input : Str} {s t : List Ev} {c : ClassifierResult}
    (hforced : forced sup req = none) (hs : Path (classify req user_input) s (.ok c))
    (ht : ∀ e ∈ asks t, Runs (resolve_tier_model sup.tiers c) e.1) :
    Tiered sup req (s ++ t) := by
  obtain ⟨chat_history, hmem⟩ := classify_routes hs
  refine .inr ⟨c, .inr (.inr ⟨hforced, user_input, chat_history,
    List.mem_append_left t hmem⟩), ?_⟩
  rw [asks_append]
  refine List.forall_mem_append.mpr ⟨fun e he => ?_, ht⟩
  exact runs_of_noConverse _ (asksOnly_path (classify_asks noConverse_allows user_input) hs e he)

theorem agent_call_runs (input_text : Str) (chat_history : List ConversationMessage)
    (o : Option Str) (e : Ask) (h : AskedFor (agent_call req input_text chat_history o) e) :
    Runs o e := runs_of_call e h

theorem respond_tiered [Values] {user_input : Str} {tr : List Ev} {r : Except Exn Reply}
    (h : Path (Supervisor.respond py sup req user_input) tr r) : Tiered sup req tr := by
  unfold Supervisor.respond at h
  split at h
  · next name hforced =>
    exact .inr ⟨_, .inl ⟨name, user_input, hforced, rfl⟩, asksOnly_path (answer_forced_asks py sup
      (runs_allows _) name user_input (fun input_text history => agent_call_runs _ _ _)) h⟩
  · next hforced =>
    split at h
    · exact .inr ⟨_, .inr (.inl ⟨hforced, rfl⟩), asksOnly_path (investigate_asks py sup
        (runs_allows _) user_input (fun symptom id => runs_of_call)) h⟩
    · rcases (path_bind _ _ tr r).mp h with ⟨exc, hraised, rfl⟩ | ⟨c, s, t, rfl, hok, hrest⟩
      · exact .inl (asksOnly_path (classify_asks noConverse_allows user_input) hraised)
      · exact classified_tiered hforced hok (asksOnly_path (answer_classified_asks py sup
          (runs_allows _) c user_input (fun input_text history => agent_call_runs _ _ _)) hrest)

theorem check_budget_noConverse : AsksOnly NoConverse (check_budget req) :=
  ⟨trivial, fun _ => trivial⟩

theorem ended_tiered {α : Type} {x r : Except Exn α} {tr : List Ev}
    (h : Path (.done x : M α) tr r) : Tiered sup req tr := by
  obtain ⟨rfl, _⟩ := (path_done _ _ _).mp h
  exact .inl (fun e he => absurd he List.not_mem_nil)

theorem body_tiered [Values] {tr : List Ev} {r : Except Exn Reply}
    (h : Path ((check_budget req).bind (within_budget budget_reply (attended py sup req))) tr r) :
    Tiered sup req tr := by
  refine tiered_bind check_budget_noConverse h (fun budget s t _ ht => ?_)
  unfold within_budget at ht
  split at ht
  · exact ended_tiered ht
  · exact ended_tiered ht
  · exact tiered_bind (ingress_asks noConverse_allows) ht (fun user_input u v _ hv =>
      respond_tiered py hv)

theorem stream_tiered {tr : List Ev} {r : Except Exn Bool}
    (h : Path (consumed (process_request_streaming py sup req)) tr r) : Tiered sup req tr := by
  have hbudget : Path ((check_budget req).bind (fun budget => consumed (within_budget none
      (stream_attended py sup req) budget))) tr r := (consumed_bind _ _) ▸ h
  refine tiered_bind check_budget_noConverse hbudget (fun budget s t _ ht => ?_)
  unfold within_budget at ht
  split at ht
  · exact ended_tiered ht
  · exact ended_tiered ht
  · have hingress := (consumed_bind (ingress req) _) ▸ ht
    refine tiered_bind (ingress_asks noConverse_allows) hingress (fun user_input u v _ hv => ?_)
    split at hv
    · next name hforced =>
      exact .inr ⟨_, .inl ⟨name, user_input, hforced, rfl⟩, consumed_asks (stream_forced_offers py
        sup (runs_allows _) name user_input (fun input_text history => agent_call_runs _ _ _)) hv⟩
    · next hforced =>
      split at hv
      · exact ended_tiered hv
      · have hclassify := (consumed_bind (classify req user_input) _) ▸ hv
        rcases (path_bind _ _ v r).mp hclassify with
          ⟨exc, hraised, rfl⟩ | ⟨c, w, x, rfl, hok, hrest⟩
        · exact .inl (asksOnly_path (classify_asks noConverse_allows user_input) hraised)
        · exact classified_tiered hforced hok (consumed_asks (stream_classified_offers py sup
            (runs_allows _) c user_input (fun input_text history => agent_call_runs _ _ _)) hrest)

/-- Streamed or not, and whatever the surroundings answer: all agents' loops of a request
run on one model, that of the tier of its routing. -/
theorem one_tier [Values] (tr : List Ev) :
    (∀ r, Path (Supervisor.process_request py sup req) tr r → Tiered sup req tr) ∧
      ∀ r, Path (stream_consumed py sup req) tr r → Tiered sup req tr := by
  constructor
  · intro r h
    rcases (path_handle _ _ _ _).mp h with ⟨reply, hbody, rfl⟩ | ⟨exc, s, t, rfl, hbody, hrecover⟩
    · exact body_tiered py hbody
    · have hend : t = [] := by
        cases exc with
        | _ => exact ((path_done _ _ _).mp hrecover).1
      rw [hend, List.append_nil]
      exact body_tiered py hbody
  · intro r h
    exact stream_tiered py h

end Tiers

def tieredSquad : SupervisorAgent :=
  { podSquad with tiers := ⟨true, 8 / 10, true, "haiku".toList, "sonnet".toList, "opus".toList⟩ }

def tieredAnswer : List Ev × Except Exn Reply :=
  run answeringEnv [] (@Supervisor.process_request textValues asciiRuntime tieredSquad podRequest)

def tieredStream : List Ev × Except Exn Bool :=
  run answeringEnv [] (stream_consumed asciiRuntime tieredSquad podRequest)

theorem one_tier_pods :
    Tiered tieredSquad podRequest tieredAnswer.1 ∧
      Tiered tieredSquad podRequest tieredStream.1 := by
  have hanswer := @one_tier podRequest asciiRuntime tieredSquad textValues tieredAnswer.1
  have hstream := @one_tier podRequest asciiRuntime tieredSquad textValues tieredStream.1
  exact ⟨hanswer.1 _ (run_path answeringEnv [] _), hstream.2 _ (run_path answeringEnv [] _)⟩

end AigentSquad.RequestScope
