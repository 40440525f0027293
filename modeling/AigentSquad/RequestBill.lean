import AigentSquad.Classifier
import AigentSquad.RecordedSpend
import AigentSquad.RequestCost
import AigentSquad.SharedBudget

/-!
# The bill of a request

Every model call of a request is served by the Bedrock client, in whatever state
the other requests have left it. The requests it sends are bounded, and each
completion among them is charged to the session of the request, once.
-/

set_option autoImplicit false

namespace AigentSquad.RequestBill
open AigentSquad.PyText AigentSquad.PyJson AigentSquad.Dict AigentSquad.Interaction
open AigentSquad.Postcondition AigentSquad.Truncation AigentSquad.Effects
open AigentSquad.EvidenceExchange AigentSquad.RunInvestigation
open AigentSquad.BedrockClient AigentSquad.RecordedSpend
open AigentSquad.Supervisor AigentSquad.StoredHistory AigentSquad.RequestScope
open AigentSquad.RequestCost
open AigentSquad.TokenBudget (Redis key)

def user_texts (m : Message) : List Str :=
  if m.role = .user then
    m.content.filterMap (fun block => match block with
      | .text text => some text
      | _ => none)
  else []

def extract_converse_user_text (messages : List Message) : Str :=
  join "\n".toList ((messages.flatMap user_texts).filter (fun p => !p.isEmpty))

def converse_request (call : ConverseCall) : Call where
  user_text := extract_converse_user_text call.messages
  session_id := call.session_id
  budget_session_id := call.budget_session_id
  skip_input_guardrail := call.skip_input_guardrail

/-- The one user message of `content`. -/
def invoke_request (call : InvokeCall) : Call where
  user_text := call.content
  session_id := call.session_id
  budget_session_id := call.budget_session_id
  skip_input_guardrail := call.skip_input_guardrail

def classify_request (system_prompt user_input user_id session_id : Str) : Call :=
  invoke_request (Classifier.classifier_call system_prompt ⟨user_input, user_id, session_id⟩)

/-- The requests sent for a call, the usage of the completions among their replies,
and what is recorded. -/
structure Bill where
  sent : ℕ
  completed : List Usage
  recorded : List Spend

def Bill.nothing : Bill := ⟨0, [], []⟩

def Bill.add (b c : Bill) : Bill :=
  ⟨b.sent + c.sent, b.completed ++ c.completed, b.recorded ++ c.recorded⟩

section Engines
variable {R A : Type} (eng : Engine R A)

def completion (exchange : Exchange R) : Option Usage :=
  match exchange.reply with
  | .completion result => some (eng.usage result)
  | _ => none

def bill (o : Outcome R A) : Bill where
  sent := o.served.length
  completed := o.served.filterMap (completion eng)
  recorded := o.recorded

end Engines

/-- An answer the Bedrock client gives in some state, with its bill. How a classification
is read off the text is left open. -/
inductive Served (max_retries : ℕ) : Sigma Answer → Bill → Prop
  | converse (client : Client) (env : Surroundings ConverseResult) (call : ConverseCall)
      (hclient : client.max_retries = max_retries) :
      Served max_retries
        ⟨.converse call, (BedrockClient.converse client (converse_request call) env).2.result⟩
        (bill converse_api (BedrockClient.converse client (converse_request call) env).2)
  | invoke (client : Client) (wants_cache : Bool) (env : Surroundings InvokeResult)
      (call : InvokeCall) (hclient : client.max_retries = max_retries) :
      Served max_retries
        ⟨.invoke call, (BedrockClient.invoke client (invoke_request call) wants_cache env).2.result⟩
        (bill messages_api (BedrockClient.invoke client (invoke_request call) wants_cache env).2)
  | classify (client : Client) (wants_cache : Bool) (env : Surroundings InvokeResult)
      (system_prompt user_input user_id session_id : Str)
      (chat_history : List ConversationMessage) (answer : Except Exn ClassifierResult)
      (hclient : client.max_retries = max_retries) :
      Served max_retries ⟨.classify user_input chat_history user_id session_id, answer⟩
        (bill messages_api (BedrockClient.invoke client
          (classify_request system_prompt user_input user_id session_id) wants_cache env).2)
  | other (s : Sigma Answer) (hother : model_ask s.1 = false) : Served max_retries s .nothing

inductive Billed (max_retries : ℕ) : List (Sigma Answer) → Bill → Prop
  | nil : Billed max_retries [] .nothing
  | cons {s : Sigma Answer} {d : List (Sigma Answer)} {b c : Bill}
      (hs : Served max_retries s b) (hd : Billed max_retries d c) :
      Billed max_retries (s :: d) (b.add c)

/-! ## One call -/

section Calls
variable {R A : Type} (eng : Engine R A) (call : Call) (env : Surroundings R)

theorem attempts_sent (max_retries left attempt : ℕ) (cache_control : Bool)
    (cache_supported : Option Bool) :
    let b := bill eng (attempts eng call env max_retries left attempt cache_control cache_supported)
    b.sent ≤ left ∧ b.completed.length ≤ 1 := by
  induction left generalizing attempt cache_control cache_supported with
  | zero => exact ⟨Nat.le_refl 0, Nat.zero_le 1⟩
  | succ left ih =>
    dsimp only
    cases hreply : env.replies attempt with
    | completion result =>
      rw [attempts_completion eng call env _ _ _ _ _ result hreply]
      exact ⟨Nat.le_add_left 1 left, Nat.le_refl 1⟩
    | failure exc =>
      rw [attempts_failure eng call env _ _ _ _ _ exc hreply]
      exact ⟨Nat.le_add_left 1 left, Nat.zero_le 1⟩
    | client_error error_code text =>
      cases hrejects : eng.rejects error_code text
      · by_cases hretry : error_code ∈ RETRYABLE ∧ attempt + 1 < max_retries
        · rw [attempts_retried eng call env _ _ _ _ _ _ _ hreply hrejects hretry]
          obtain ⟨hsent, hcompleted⟩ := ih (attempt + 1) cache_control cache_supported
          exact ⟨Nat.succ_le_succ hsent, hcompleted⟩
        · rw [attempts_raised eng call env _ _ _ _ _ _ _ hreply hrejects hretry]
          exact ⟨Nat.le_add_left 1 left, Nat.zero_le 1⟩
      · rw [attempts_rejected eng call env _ _ _ _ _ _ _ hreply hrejects]
        obtain ⟨hsent, hcompleted⟩ := ih (attempt + 1) false (some false)
        exact ⟨Nat.succ_le_succ hsent, hcompleted⟩

theorem run_sent (asks_input : Bool) (max_retries : ℕ) (cache_control : Bool)
    (cache_supported : Option Bool) :
    let b := bill eng (run_sync eng call env asks_input max_retries cache_control cache_supported)
    b.sent ≤ max_retries ∧ b.completed.length ≤ 1 := by
  dsimp only [run_sync]
  split
  · exact attempts_sent eng call env max_retries max_retries 0 cache_control cache_supported
  · exact ⟨Nat.zero_le max_retries, Nat.zero_le 1⟩

theorem completed_charged (session : Str) (served : List (Exchange R)) :
    served.filterMap (cost eng session) =
      (served.filterMap (completion eng)).map (Spend.mk session) := by
  rw [List.map_filterMap]
  congr 1
  funext exchange
  unfold cost completion
  cases exchange.reply <;> rfl

/-- What becomes of one call behind the breaker. -/
structure CallBill (session : Str) (max_retries : ℕ) (b : Bill) : Prop where
  recorded : b.recorded = b.completed.map (Spend.mk session)
  sent : b.sent ≤ max_retries
  completed : b.completed.length ≤ 1

theorem within_bill (client : Client) (session : Str) (hsession : Charges call session)
    (asks_input cache_control : Bool) (cache_supported : Option Bool) :
    CallBill session client.max_retries (bill eng (within_breaker client env
      (run_sync eng call env asks_input client.max_retries cache_control cache_supported)).2) := by
  obtain ⟨hserved, hrecorded⟩ := within_outcome env client
    (run_sync eng call env asks_input client.max_retries cache_control cache_supported)
  have hcharged := run_recorded eng call env session hsession asks_input client.max_retries
    cache_control cache_supported
  obtain ⟨hsent, hcompleted⟩ := run_sent eng call env asks_input client.max_retries cache_control
    cache_supported
  dsimp only at hserved hrecorded hcharged
  cases hmay : (admitted client.breaker env.now).2
  · rw [hmay, if_neg (by simp)] at hserved hrecorded
    constructor
    · simp only [bill, hserved, hrecorded, List.filterMap_nil, List.map_nil]
    · simp only [bill, hserved, List.length_nil, Nat.zero_le]
    · simp only [bill, hserved, List.filterMap_nil, List.length_nil, Nat.zero_le]
  · rw [hmay, if_pos rfl] at hserved hrecorded
    constructor
    · simp only [bill, hserved, hrecorded, hcharged, completed_charged]
    · simp only [bill, hserved]
      exact hsent
    · simp only [bill, hserved]
      exact hcompleted

end Calls

/-! ## The calls of a request -/

/-- `budget_tracker.record_usage` in Redis, for each spend. -/
def book (redis : Redis) (spends : List Spend) : Redis :=
  spends.foldl (fun redis spend => SharedBudget.command
    (.record_usage spend.session_id spend.usage.input_tokens spend.usage.output_tokens) redis) redis

def tokens (usages : List Usage) : Int :=
  (usages.map (fun usage => usage.input_tokens + usage.output_tokens)).sum

theorem book_counter (session other : Str) (usages : List Usage) (redis : Redis) :
    (book redis (usages.map (Spend.mk session)) (key other)).getD 0 =
      (redis (key other)).getD 0 + if other = session then tokens usages else 0 := by
  induction usages generalizing redis with
  | nil => simp [book, tokens]
  | cons usage usages ih =>
    have hone := SharedBudget.command_counter
      (.record_usage session usage.input_tokens usage.output_tokens) redis other
    rw [if_neg (by simp)] at hone
    show (book (SharedBudget.command _ redis) _ _).getD 0 = _
    rw [ih, hone, SharedBudget.tokens]
    by_cases h : other = session
    · rw [if_pos h, if_pos h, if_pos h.symm, tokens, tokens, List.map_cons, List.sum_cons]
      omega
    · rw [if_neg h, if_neg h, if_neg (fun heq => h heq.symm)]
      omega

/-- The completions are charged to the session, each once, and to no other. -/
structure Accounted (session : Str) (max_retries calls : ℕ) (b : Bill) : Prop where
  recorded : b.recorded = b.completed.map (Spend.mk session)
  sent : b.sent ≤ max_retries * calls
  completed : b.completed.length ≤ calls
  counter : ∀ redis other, (book redis b.recorded (key other)).getD 0 =
    (redis (key other)).getD 0 + if other = session then tokens b.completed else 0

theorem accounted_of_recorded {session : Str} {max_retries calls : ℕ} {b : Bill}
    (hrecorded : b.recorded = b.completed.map (Spend.mk session))
    (hsent : b.sent ≤ max_retries * calls) (hcompleted : b.completed.length ≤ calls) :
    Accounted session max_retries calls b where
  recorded := hrecorded
  sent := hsent
  completed := hcompleted
  counter := fun redis other => by rw [hrecorded, book_counter]

theorem Accounted.mono {session : Str} {max_retries m n : ℕ} {b : Bill} (hmn : m ≤ n)
    (h : Accounted session max_retries m b) : Accounted session max_retries n b where
  recorded := h.recorded
  sent := Nat.le_trans h.sent (Nat.mul_le_mul_left max_retries hmn)
  completed := Nat.le_trans h.completed hmn
  counter := h.counter

theorem accounted_of_call {session : Str} {max_retries : ℕ} {b : Bill}
    (h : CallBill session max_retries b) : Accounted session max_retries 1 b :=
  accounted_of_recorded h.recorded (by rw [Nat.mul_one]; exact h.sent) h.completed

theorem charges_of_charged {session : Str} {call : Call} (hsession : session ≠ [])
    (h : charged_session_id call.budget_session_id call.session_id = session) :
    Charges call session := by
  refine ⟨hsession, ?_⟩
  unfold charged_session_id or_else at h
  cases hbudget : call.budget_session_id with
  | none =>
    rw [hbudget] at h
    exact .inr ⟨rfl, h⟩
  | some budget =>
    rw [hbudget, Option.getD_some] at h
    split at h
    · next hempty => exact .inr ⟨List.isEmpty_iff.mp hempty, h⟩
    · exact .inl (congrArg some h)

section Request
variable {req : Supervisor.Request}

theorem served_accounted (hsession : req.session_id ≠ []) {max_retries : ℕ} {s : Sigma Answer}
    {b : Bill} (hs : Served max_retries s b) (hname : Attributed req s.1) :
    Accounted req.session_id max_retries (model_ask s.1).toNat b := by
  cases hs with
  | converse client env call hclient =>
    rw [← hclient]
    exact accounted_of_call (within_bill converse_api _ env client req.session_id
      (charges_of_charged hsession hname.2.2) _ _ _)
  | invoke client wants_cache env call hclient =>
    rw [← hclient]
    exact accounted_of_call (within_bill messages_api _ env client req.session_id
      (charges_of_charged hsession hname.2.2) _ _ _)
  | classify client wants_cache env system_prompt user_input user_id session_id history answer
      hclient =>
    rw [← hclient]
    exact accounted_of_call (within_bill messages_api _ env client req.session_id
      ⟨hsession, .inr ⟨rfl, hname.2⟩⟩ _ _ _)
  | other _ hother =>
    rw [hother]
    exact accounted_of_recorded rfl (Nat.zero_le _) (Nat.le_refl 0)

theorem billed_accounted (hsession : req.session_id ≠ []) {max_retries : ℕ}
    {d : List (Sigma Answer)} {b : Bill} (hd : Billed max_retries d b)
    (hnames : ∀ s ∈ d, Attributed req s.1) :
    Accounted req.session_id max_retries (d.countP (fun s => model_ask s.1)) b := by
  induction hd with
  | nil => exact accounted_of_recorded rfl (Nat.zero_le _) (Nat.le_refl 0)
  | @cons s d b c hs hd ih =>
    obtain ⟨hs_name, hd_names⟩ := List.forall_mem_cons.mp hnames
    have hone := served_accounted hsession hs hs_name
    have hrest := ih hd_names
    have hcount : (s :: d).countP (fun s => model_ask s.1) =
        (model_ask s.1).toNat + d.countP (fun s => model_ask s.1) := by
      rw [List.countP_cons, Nat.add_comm]
      cases model_ask s.1 <;> rfl
    rw [hcount]
    apply accounted_of_recorded
    · show b.recorded ++ c.recorded = (b.completed ++ c.completed).map _
      rw [hone.recorded, hrest.recorded, List.map_append]
    · rw [Nat.mul_add]
      exact Nat.add_le_add hone.sent hrest.sent
    · show (b.completed ++ c.completed).length ≤ _
      rw [List.length_append]
      exact Nat.add_le_add hone.completed hrest.completed

theorem model_calls_asks (tr : List Ev) :
    model_calls tr = (asks tr).countP (fun s => model_ask s.1) := by
  unfold model_calls
  induction tr with
  | nil => rfl
  | cons e tr ih =>
    cases e with
    | asked e a =>
      show (Event.asked e a :: tr).countP _ = ((⟨e, a⟩ : Sigma Answer) :: asks tr).countP _
      rw [List.countP_cons, List.countP_cons, ih]
      rfl
    | emitted o =>
      show (Event.emitted o :: tr).countP _ = (asks tr).countP _
      rw [List.countP_cons, ih]
      rfl

variable (py : Runtime) (sup : SupervisorAgent)

end Request

/-! ### One completion -/

def completing {R : Type} (result : R) : Surroundings R where
  now := 0
  later := 1
  input_verdict := .accepted
  replies := fun _ => .completion result
  output_verdict := fun _ _ => .accepted

theorem completing_result {R A : Type} (eng : Engine R A) (call : Call) (result : R)
    (asks_input cache_control : Bool) (cache_supported : Option Bool) :
    (within_breaker Client.new (completing result) (run_sync eng call (completing result)
      asks_input 3 cache_control cache_supported)).2.result =
        delivered eng (completing result) result := by
  rw [run_admitted eng call (completing result) asks_input _ _ _ (fun _ => rfl),
    attempts_completion eng call (completing result) _ _ _ _ _ result rfl]
  rfl

theorem answering_served (h : List (Sigma Answer)) (e : Ask) :
    ∃ b, Served 3 ⟨e, answeringEnv h e⟩ b := by
  cases e with
  | converse call =>
    have hserved := Served.converse Client.new (completing ⟨some "end_turn".toList,
      [.text "3 pods are running".toList], some 20, some 5⟩) call rfl
    have hresult : (BedrockClient.converse Client.new (converse_request call) _).2.result =
        answeringEnv h (.converse call) :=
      completing_result converse_api (converse_request call) ⟨some "end_turn".toList,
        [.text "3 pods are running".toList], some 20, some 5⟩ _ _ _
    rw [hresult] at hserved
    exact ⟨_, hserved⟩
  | invoke call =>
    have hserved := Served.invoke Client.new true (completing ⟨some 0, some 0, some []⟩) call rfl
    have hresult : (BedrockClient.invoke Client.new (invoke_request call) true _).2.result =
        answeringEnv h (.invoke call) :=
      completing_result messages_api (invoke_request call) ⟨some 0, some 0, some []⟩ _ _ _
    rw [hresult] at hserved
    exact ⟨_, hserved⟩
  | classify user_input chat_history user_id session_id =>
    exact ⟨_, .classify Client.new true (completing ⟨some 0, some 0, some []⟩) [] user_input user_id
      session_id chat_history _ rfl⟩
  | _ => exact ⟨_, .other _ rfl⟩

theorem answering_billed (h d : List (Sigma Answer)) (hd : Follows answeringEnv h d) :
    ∃ b, Billed 3 d b := by
  induction d generalizing h with
  | nil => exact ⟨_, .nil⟩
  | cons s d ih =>
    obtain ⟨hs, hrest⟩ := hd
    obtain ⟨b, hb⟩ := answering_served h s.1
    obtain ⟨c, hc⟩ := ih _ hrest
    rw [← hs] at hb
    exact ⟨_, .cons hb hc⟩

end AigentSquad.RequestBill
