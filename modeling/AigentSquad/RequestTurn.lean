import AigentSquad.StoredHistory

/-!
# The turn a request leaves behind

A request that is not streamed stores the question under an agent, and then what
this agent, or the synthesizer for it, answers. What is stored and what the client
is told are compared on every path, exceptions included.
-/

set_option autoImplicit false

namespace AigentSquad.RequestTurn
open AigentSquad.PyText AigentSquad.PyJson AigentSquad.Dict AigentSquad.Interaction
open AigentSquad.Postcondition AigentSquad.Effects AigentSquad.GenericAgent
open AigentSquad.EvidenceExchange AigentSquad.RunInvestigation AigentSquad.Supervisor
open AigentSquad.StoredHistory

/-- An exception, or an answer that stands for one. -/
def Unanswered : Except Exn Reply → Prop
  | .error _ => True
  | .ok reply => ∃ exc, reply.error = some (.raised exc)

def Tells (r : Except Exn Reply) (text : Str) : Prop :=
  ∃ reply, r = .ok reply ∧ reply.response = .str text ∧ reply.error = none

/-- What is answered without an agent. -/
def Standing : Except Exn Reply → Prop
  | .error _ => False
  | .ok reply => reply = budget_reply ∨ (∃ q, reply = rephrase_reply q) ∨
      ∃ rca, reply = investigation_reply rca

section Turn
variable (req : Supervisor.Request)

def question (agent_id user_input : Str) : Stored :=
  ⟨req.user_id, req.session_id, agent_id, user_message user_input agent_id⟩

def answer (agent_id text : Str) : Stored :=
  ⟨req.user_id, req.session_id, agent_id, assistant_message text agent_id⟩

/-- The scanner made this text of the input, and the guardrail accepted it. -/
def Screened (user_input : Str) (tr : List Ev) : Prop :=
  .asked (.scan_input req.user_input ⟨"supervisor".toList, req.user_id, req.session_id⟩)
      (Except.ok user_input) ∈ tr ∧
    .asked (.guardrail_apply user_input .INPUT ⟨"ingress".toList, req.user_id, req.session_id⟩)
      Verdict.accepted ∈ tr

/-- What follows a stored question. -/
def Closing (agent_id : Str) (stored : List Stored) (r : Except Exn Reply) : Prop :=
  (stored = [] ∧ Unanswered r) ∨
    ∃ text, stored = [answer req agent_id text] ∧ (Tells r text ∨ Unanswered r)

/-- Nothing is stored, and no agent's answer told; or the screened question of a known
agent, and after it only what the client is told. -/
def Recorded (sup : SupervisorAgent) (tr : List Ev) (r : Except Exn Reply) : Prop :=
  (saved tr = [] ∧ (Unanswered r ∨ Standing r)) ∨
    ∃ agent_id user_input stored, has sup.agents agent_id = true ∧ Screened req user_input tr ∧
      saved tr = question req agent_id user_input :: stored ∧ Closing req agent_id stored r

variable {req}

theorem reads_bind {α β : Type} {p : M α} (hp : AsksOnly Reads p) {f : α → M β} {tr : List Ev}
    {r : Except Exn β} (h : Path (p.bind f) tr r) :
    (∃ exc, r = .error exc ∧ saved tr = []) ∨
      ∃ a s t, tr = s ++ t ∧ Path p s (.ok a) ∧ Path (f a) t r ∧ saved tr = saved t := by
  rcases (path_bind p f tr r).mp h with ⟨exc, hraised, rfl⟩ | ⟨a, s, t, rfl, hok, hrest⟩
  · exact .inl ⟨exc, rfl, saved_of_reads hp hraised⟩
  · refine .inr ⟨a, s, t, rfl, hok, hrest, ?_⟩
    rw [saved_append, saved_of_reads hp hok, List.nil_append]

theorem save_bind {β : Type} {agent_id : Str} {message : ConversationMessage} {f : Unit → M β}
    {tr : List Ev} {r : Except Exn β} (h : Path ((save req agent_id message).bind f) tr r) :
    (∃ exc, r = .error exc ∧ saved tr = [⟨req.user_id, req.session_id, agent_id, message⟩]) ∨
      ∃ s t, tr = s ++ t ∧ Path (f ()) t r ∧
        saved tr = ⟨req.user_id, req.session_id, agent_id, message⟩ :: saved t := by
  rcases (path_bind _ f tr r).mp h with ⟨exc, hraised, rfl⟩ | ⟨a, s, t, rfl, hok, hrest⟩
  · refine .inl ⟨exc, rfl, ?_⟩
    obtain ⟨b, rest, rfl, hdone⟩ := (path_ask _ _ _ _).mp hraised
    obtain ⟨rfl, _⟩ := (path_done _ _ _).mp hdone
    rfl
  · exact .inr ⟨s, t, rfl, hrest, by rw [saved_append, save_stores req _ _ _ hok]; rfl⟩

theorem ofExcept_reads {α : Type} (x : Except Exn α) : AsksOnly Reads (.ofExcept x : M α) := trivial

theorem Closing.of_error {agent_id : Str} {exc : Exn} :
    Closing req agent_id [] (.error exc) := .inl ⟨rfl, trivial⟩

/-- What only reads may be gone through, or raise. -/
theorem closing_bind {α : Type} {p : M α} (hp : AsksOnly Reads p) {f : α → M Reply}
    {agent_id : Str} {tr : List Ev} {r : Except Exn Reply} (h : Path (p.bind f) tr r)
    (hf : ∀ a t, Path (f a) t r → Closing req agent_id (saved t) r) :
    Closing req agent_id (saved tr) r := by
  rcases reads_bind hp h with ⟨exc, rfl, hnone⟩ | ⟨a, s, t, rfl, _, hrest, hsaved⟩
  · rw [hnone]
    exact .of_error
  · rw [hsaved]
    exact hf a t hrest

/-- What a program that has given a text to the store goes on to tell. -/
theorem told_closing {agent_id text : Str} {reply : Reply} {tr : List Ev} {r : Except Exn Reply}
    (hresponse : reply.response = .str text) (hreply : reply.error = none)
    (h : Path ((save req agent_id (assistant_message text agent_id)).bind (fun _ => pure reply))
      tr r) : Closing req agent_id (saved tr) r := by
  rcases save_bind h with ⟨exc, rfl, hsaved⟩ | ⟨s, t, rfl, hdone, hsaved⟩
  · exact .inr ⟨text, hsaved, .inr trivial⟩
  · obtain ⟨rfl, rfl⟩ := (path_done _ _ _).mp hdone
    exact .inr ⟨text, hsaved, .inl ⟨reply, rfl, hresponse, hreply⟩⟩

theorem conclude_closing (agent_name : Str) (c : ClassifierResult)
    (result : Except Exn ConversationMessage) (tr : List Ev) (r : Except Exn Reply)
    (h : Path (conclude req agent_name c result) tr r) :
    Closing req agent_name (saved tr) r := by
  cases result with
  | ok message => exact told_closing rfl rfl h
  | error exc =>
    cases exc with
    | GuardrailBlockedError reason source categories =>
      obtain ⟨rfl, rfl⟩ := (path_done _ _ _).mp h
      exact .of_error
    | _ =>
      obtain ⟨rfl, rfl⟩ := (path_done _ _ _).mp h
      exact .inl ⟨rfl, _, rfl⟩

variable {py : Runtime} {sup : SupervisorAgent}

theorem single_agent_call_closing (agent_name : Str) (c : ClassifierResult) (user_input : Str)
    (model_id_override : Option Str) (tr : List Ev) (r : Except Exn Reply)
    (h : Path (single_agent_call py sup req agent_name c user_input model_id_override) tr r) :
    Closing req agent_name (saved tr) r := by
  refine closing_bind (fetch_chat_reads req agent_name) h (fun agent_history s₁ h₁ => ?_)
  refine closing_bind (ofExcept_reads _) h₁ (fun ag s₂ h₂ => ?_)
  have hagent := asksOnly_attempt Reads _ (agent_request_reads py sup.settings ag
    (agent_call req (focused_input c user_input) agent_history model_id_override))
  refine closing_bind hagent h₂ (fun result s₃ h₃ => ?_)
  exact conclude_closing agent_name c result s₃ r h₃

theorem fan_out_closing (primary : AgentMatch) (others : List AgentMatch) (user_input : Str)
    (model_id_override : Option Str) (tr : List Ev) (r : Except Exn Reply)
    (h : Path (fan_out py sup req primary others user_input model_id_override) tr r) :
    Closing req primary.agent (saved tr) r := by
  unfold fan_out at h
  refine closing_bind (ofExcept_reads _) h (fun specialists s₁ h₁ => ?_)
  have hagents : AsksOnly Reads (gather (((primary :: others).zip specialists).map (fun p =>
      GenericAgent.process_request py sup.settings p.2
        (agent_call req (or_else p.1.sub_query user_input) [] model_id_override)))) := by
    apply asksOnly_gather
    intro p hp
    obtain ⟨q, _, rfl⟩ := List.mem_map.mp hp
    exact agent_request_reads py sup.settings q.2 _
  refine closing_bind hagents h₁ (fun results s₂ h₂ => ?_)
  refine closing_bind (ofExcept_reads _) h₂ (fun _ s₃ h₃ => ?_)
  refine closing_bind (synthesize_reads req user_input _ _) h₃ (fun final_response s₄ h₄ => ?_)
  exact told_closing rfl rfl h₄

/-! ## The whole request -/

/-- No question is stored before the agent that answers it is known. -/
theorem answered_recorded {agent_id user_input : Str} {tr s t : List Ev} {r : Except Exn Reply}
    {p : M Reply} (hagent : has sup.agents agent_id = true) (hscreened : Screened req user_input tr)
    (hs : saved s = []) (htr : tr = s ++ t)
    (h : Path ((save req agent_id (user_message user_input agent_id)).bind (fun _ => p)) t r)
    (hp : ∀ u, Path p u r → Closing req agent_id (saved u) r) : Recorded req sup tr r := by
  have hsaved : saved tr = saved t := by rw [htr, saved_append, hs, List.nil_append]
  rcases save_bind h with ⟨exc, rfl, hone⟩ | ⟨u, v, rfl, hrest, hmore⟩
  · exact .inr ⟨agent_id, user_input, [], hagent, hscreened, hsaved.trans hone, .of_error⟩
  · exact .inr ⟨agent_id, user_input, saved v, hagent, hscreened, hsaved.trans hmore, hp v hrest⟩

theorem unstored_recorded {tr s t : List Ev} {r : Except Exn Reply} (hs : saved s = [])
    (htr : tr = s ++ t) (ht : saved t = []) (hr : Unanswered r ∨ Standing r) :
    Recorded req sup tr r := by
  refine .inl ⟨?_, hr⟩
  rw [htr, saved_append, hs, ht]
  rfl

theorem known_agents_known {c : ClassifierResult} {m : AgentMatch}
    (hm : m ∈ known_agents sup c) : has sup.agents m.agent = true :=
  (List.mem_filter.mp hm).2

theorem answer_classified_recorded {c : ClassifierResult} {user_input : Str} {tr s t : List Ev}
    {r : Except Exn Reply} (hscreened : Screened req user_input tr) (hs : saved s = [])
    (htr : tr = s ++ t) (h : Path (answer_classified py sup req c user_input) t r) :
    Recorded req sup tr r := by
  unfold answer_classified at h
  split at h
  · obtain ⟨rfl, rfl⟩ := (path_done _ _ _).mp h
    exact unstored_recorded hs htr rfl (.inr (.inr (.inl ⟨_, rfl⟩)))
  · split at h
    · obtain ⟨rfl, rfl⟩ := (path_done _ _ _).mp h
      exact unstored_recorded hs htr rfl (.inr (.inr (.inl ⟨_, rfl⟩)))
    · next primary others hknown =>
      have hagent := known_agents_known (hknown ▸ List.mem_cons_self : primary ∈ known_agents sup c)
      refine answered_recorded hagent hscreened hs htr h (fun u hu => ?_)
      split at hu
      · exact single_agent_call_closing _ _ _ _ u r hu
      · exact fan_out_closing _ _ _ _ u r hu

theorem forced_known {name : Str} (h : forced sup req = some name) :
    has sup.agents name = true := by
  unfold forced at h
  split at h
  · obtain ⟨hname, heq⟩ := Option.ite_none_right_eq_some.mp h
    cases heq
    exact (Bool.and_eq_true_iff.mp hname).2
  · cases h

theorem ingress_screens {user_input : Str} {s : List Ev}
    (h : Path (ingress req) s (.ok user_input)) : Screened req user_input s := by
  obtain ⟨text, s₁, t₁, rfl, hscan, h₁⟩ := Path.of_bind_ok h
  obtain ⟨verdict, s₂, t₂, rfl, hguard, h₂⟩ := Path.of_bind_ok h₁
  obtain ⟨_, s₃, t₃, rfl, hadmitted, hdone⟩ := Path.of_bind_ok h₂
  obtain ⟨_, hinput⟩ := (path_done _ _ _).mp hdone
  cases hinput
  obtain ⟨scanned, u, rfl, hscanned⟩ := (path_ask _ _ _ _).mp hscan
  obtain ⟨_, htext⟩ := (path_done _ _ _).mp hscanned
  obtain ⟨v, w, rfl, hverdict⟩ := (path_ask _ _ _ _).mp hguard
  obtain ⟨_, hv⟩ := (path_done _ _ _).mp hverdict
  have haccepted : v = .accepted := by
    cases hv
    obtain ⟨_, hadmits⟩ := (path_done _ _ _).mp hadmitted
    unfold admitted at hadmits
    split at hadmits
    · rfl
    · cases hadmits
    · cases hadmits
  subst htext
  subst haccepted
  exact ⟨by simp, by simp⟩

theorem Screened.mono {user_input : Str} {s tr : List Ev} (h : Screened req user_input s)
    (hsub : s ⊆ tr) : Screened req user_input tr := ⟨hsub h.1, hsub h.2⟩

variable [Values]

theorem respond_recorded {user_input : Str} {tr s t : List Ev} {r : Except Exn Reply}
    (hscreened : Screened req user_input tr) (hs : saved s = []) (htr : tr = s ++ t)
    (h : Path (Supervisor.respond py sup req user_input) t r) : Recorded req sup tr r := by
  unfold Supervisor.respond at h
  split at h
  · next name hforced =>
    exact answered_recorded (forced_known hforced) hscreened hs htr h
      (fun u hu => single_agent_call_closing _ _ _ _ u r hu)
  · split at h
    · rcases reads_bind (run_investigation_reads py sup.settings _) h with
        ⟨exc, rfl, hnone⟩ | ⟨rca, u, v, rfl, _, hdone, hsaved⟩
      · exact unstored_recorded hs htr hnone (.inl trivial)
      · obtain ⟨rfl, rfl⟩ := (path_done _ _ _).mp hdone
        exact unstored_recorded hs htr hsaved (.inr (.inr (.inr ⟨rca, rfl⟩)))
    · rcases reads_bind (classify_reads req user_input) h with
        ⟨exc, rfl, hnone⟩ | ⟨c, u, v, rfl, hclassify, hrest, _⟩
      · exact unstored_recorded hs htr hnone (.inl trivial)
      · refine answer_classified_recorded (s := s ++ u) hscreened ?_ ?_ hrest
        · rw [saved_append, hs, saved_of_reads (classify_reads req user_input) hclassify]
          rfl
        · rw [htr, List.append_assoc]

theorem attended_recorded {tr s t : List Ev} {r : Except Exn Reply} (hs : saved s = [])
    (htr : tr = s ++ t) (h : Path (attended py sup req) t r) : Recorded req sup tr r := by
  rcases reads_bind (ingress_reads req) h with
    ⟨exc, rfl, hnone⟩ | ⟨user_input, u, v, rfl, hingress, hrest, _⟩
  · exact unstored_recorded hs htr hnone (.inl trivial)
  · have hscreened : Screened req user_input tr := by
      refine (ingress_screens hingress).mono ?_
      rw [htr]
      exact fun e he => List.mem_append_right s (List.mem_append_left v he)
    refine respond_recorded (s := s ++ u) hscreened ?_ ?_ hrest
    · rw [saved_append, hs, saved_of_reads (ingress_reads req) hingress]
      rfl
    · rw [htr, List.append_assoc]

theorem within_budget_recorded {tr : List Ev} {r : Except Exn Reply}
    (h : Path ((check_budget req).bind (within_budget budget_reply (attended py sup req))) tr r) :
    Recorded req sup tr r := by
  rcases reads_bind (check_budget_reads req) h with
    ⟨exc, rfl, hnone⟩ | ⟨budget, s, t, rfl, hbudget, hrest, _⟩
  · exact .inl ⟨hnone, .inl trivial⟩
  · have hs := saved_of_reads (check_budget_reads req) hbudget
    cases budget with
    | ok u => exact attended_recorded hs rfl hrest
    | error exc =>
      cases exc with
      | TokenBudgetExceeded used limit =>
        obtain ⟨rfl, rfl⟩ := (path_done _ _ _).mp hrest
        exact unstored_recorded hs rfl rfl (.inr (.inl rfl))
      | _ =>
        obtain ⟨rfl, rfl⟩ := (path_done _ _ _).mp hrest
        exact unstored_recorded hs rfl rfl (.inl trivial)

omit [Values] in
/-- An exception leaves no answer, whatever it is turned into. -/
theorem Recorded.recovered {tr : List Ev} {exc : Exn} {r : Except Exn Reply}
    (h : Recorded req sup tr (.error exc)) (hr : Unanswered r) : Recorded req sup tr r := by
  rcases h with ⟨hnone, _⟩ | ⟨agent_id, user_input, stored, hagent, hscreened, hsaved, hclosing⟩
  · exact .inl ⟨hnone, .inl hr⟩
  · refine .inr ⟨agent_id, user_input, stored, hagent, hscreened, hsaved, ?_⟩
    rcases hclosing with ⟨hstored, _⟩ | ⟨text, hstored, _⟩
    · exact .inl ⟨hstored, hr⟩
    · exact .inr ⟨text, hstored, .inr hr⟩

/-- On every path: no answer of an agent is told and not stored, none is stored and
another told, and both messages of a turn are filed under one agent. -/
theorem turn_recorded (tr : List Ev) (r : Except Exn Reply)
    (h : Path (Supervisor.process_request py sup req) tr r) : Recorded req sup tr r := by
  rcases (path_handle _ _ _ _).mp h with ⟨reply, hbody, rfl⟩ | ⟨exc, s, t, rfl, hbody, hrecover⟩
  · exact within_budget_recorded hbody
  · have hrecorded : Recorded req sup s (.error exc) := within_budget_recorded hbody
    have hraised : t = [] ∧ Unanswered r := by
      cases exc with
      | GuardrailBlockedError reason source categories =>
        obtain ⟨rfl, rfl⟩ := (path_done _ _ _).mp hrecover
        exact ⟨rfl, trivial⟩
      | _ =>
        obtain ⟨rfl, rfl⟩ := (path_done _ _ _).mp hrecover
        exact ⟨rfl, _, rfl⟩
    rw [hraised.1, List.append_nil]
    exact hrecorded.recovered hraised.2

end Turn

theorem turn_recorded_pods : Recorded podRequest podSquad podAnswer.1 podAnswer.2 :=
  @turn_recorded podRequest asciiRuntime podSquad textValues podAnswer.1 podAnswer.2
    (run_path answeringEnv [] _)

end AigentSquad.RequestTurn
