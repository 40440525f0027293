import AigentSquad.ChatFrames
import AigentSquad.EdgeAuth

/-!
# The OpenAI bridge

Models and the agents they name, the user's question among the messages, and a
supervisor result as a completion or as a stream. A result reaches the encoders
in the supervisor's process, or at the gateway after its way through JSON.
-/

set_option autoImplicit false

namespace AigentSquad.OpenAiBridge
open AigentSquad.PyText AigentSquad.PyJson AigentSquad.Dict AigentSquad.Effects
open AigentSquad.SseStream AigentSquad.ChatFrames AigentSquad.EdgeAuth
open AigentSquad.RunInvestigation

/-! ## Models -/

def MODEL_PREFIX : Str := "aigent-squad".toList

def model_id (name : Str) : Str := MODEL_PREFIX ++ '-' :: name

def list_models (agent_names : List Str) : List Str := MODEL_PREFIX :: agent_names.map model_id

/-- The agent a model forces; `none` routes by the classifier. -/
def resolve_target (model : Str) (agent_names : List Str) : Option Str :=
  if model = MODEL_PREFIX then none
  else if startswith model (MODEL_PREFIX ++ ['-']) then
    let agent := model.drop (MODEL_PREFIX.length + 1)
    if agent ∈ agent_names then some agent else none
  else none

/-- The agent the gateway asks for: the model's, else the consumer's own. -/
def force_agent (model : Str) (agent_names : List Str) (auth : AuthResult) : Option Str :=
  match resolve_target model agent_names with
  | some agent => some agent
  | none => auth.consumer_default_agent.filter (fun agent => !agent.isEmpty)

/-! ## Messages -/

structure ChatMessage where
  role : Str
  content : Str := []
deriving DecidableEq

def messages_to_user_input (messages : List ChatMessage) : Str :=
  let users := (messages.filter (fun m => m.role = "user".toList ∧ m.content ≠ [])).map
    ChatMessage.content
  let non_system := (messages.filter (fun m => m.role ≠ "system".toList ∧ m.content ≠ [])).map
    ChatMessage.content
  match users.getLast? with
  | some content => strip content
  | none =>
    match non_system.getLast? with
    | some content => strip content
    | none => []

structure ChatCompletionRequest where
  model : Str
  messages : List ChatMessage
  stream : Bool := false
  max_tokens : Option Int := none
  user : Option Str := none

/-- What `openai_chat_completions` sends to the supervisor. -/
def supervisor_request (agent_names : List Str) (auth : AuthResult) (x_session_id : Str)
    (request : ChatCompletionRequest) : Supervisor.Request :=
  let user_id := or_else (request.user.getD []) "librechat".toList
  { user_input := messages_to_user_input request.messages
    user_id := user_id
    session_id := or_else x_session_id ("openai-".toList ++ user_id)
    mode := "query".toList
    force_agent := force_agent request.model agent_names auth }

/-! ## Results -/

/-- A result dict. The assessment is a dataclass in the process that made it and
one of the other entries after transport. -/
structure Result where
  entries : List (Str × Json)
  quality_assessment : Option QualityAssessment := none

inductive Assessment where
  | dataclass (assessment : QualityAssessment)
  | json (value : Json)

def Result.assessment (r : Result) : Option Assessment :=
  match r.quality_assessment with
  | some assessment => some (.dataclass assessment)
  | none => (Json.get r.entries "quality_assessment".toList).map .json

/-- `result.get("response", "") or ""` -/
def extract_text (r : Result) : Json :=
  match Json.get r.entries "response".toList with
  | some value => if value.truthy then value else .str []
  | none => .str []

def quality (confidence : Json) (unverified_claims : List Json) : Json :=
  .obj [("quality".toList, .obj [("confidence".toList, confidence),
    ("unverified_claims".toList, .arr unverified_claims)])]

/-- `assessment.get("unverified_claims") or []`, refused unless it is a list -/
def claims_of (pairs : List (Str × Json)) : Option (List Json) :=
  match Json.get pairs "unverified_claims".toList with
  | none => some []
  | some value => if value.truthy then items_of value else some []

/-- Absent where the assessment cannot be read, whatever the reason. -/
def x_aigent : Option Assessment → Option Json
  | none => none
  | some (.dataclass assessment) =>
    some (quality (.str assessment.confidence) (assessment.unverified_claims.map .str))
  | some (.json (.obj pairs)) => do
    let confidence ← Json.get pairs "confidence".toList
    let claims ← claims_of pairs
    pure (quality confidence claims)
  | some (.json _) => none

inductive Raised where
  | ValidationError
deriving DecidableEq

structure MessageContent where
  role : Str := "assistant".toList
  content : Str
deriving DecidableEq

structure CompletionChoice where
  index : ℕ := 0
  message : MessageContent
  finish_reason : Str := "stop".toList
deriving DecidableEq

structure UsageInfo where
  prompt_tokens : ℕ := 0
  completion_tokens : ℕ := 0
  total_tokens : ℕ := 0
deriving DecidableEq

structure ChatCompletionResponse where
  id : Str
  object : Str := "chat.completion".toList
  created : ℕ
  model : Str
  choices : List CompletionChoice
  usage : UsageInfo := {}
  x_aigent : Option Json := none

/-- Only a text is a message's content. -/
def build_completion (c : Completion) (r : Result) : Except Raised ChatCompletionResponse :=
  match text_of (extract_text r) with
  | some content => .ok { id := c.cid, created := c.created, model := c.model,
                          choices := [{ message := { content := content } }],
                          x_aigent := x_aigent r.assessment }
  | none => .error .ValidationError

/-- The pseudo-stream: its frames, and how it ends. -/
def sse_stream (c : Completion) (r : Result) : List Frame × Except Raised Unit :=
  match text_of (extract_text r) with
  | some content =>
    (prelude c :: (if content.isEmpty then [] else [make_chunk c content]) ++
      [finish c "stop".toList, .DONE], .ok ())
  | none => ([prelude c], .error .ValidationError)

/-! ## From the supervisor to the gateway -/

mutual

/-- No float JSON has no numeral for. -/
def finite : Json → Bool
  | .float text => !(text ∈ ["NaN".toList, "Infinity".toList, "-Infinity".toList])
  | .arr items => finite_items items
  | .obj pairs => finite_pairs pairs
  | _ => true

def finite_items : List Json → Bool
  | [] => true
  | x :: xs => finite x && finite_items xs

def finite_pairs : List (Str × Json) → Bool
  | [] => true
  | (_, x) :: kvs => finite x && finite_pairs kvs

end

/-- `jsonable_encoder` on the assessment -/
def assessment_json (a : QualityAssessment) : Json :=
  .obj [("confidence".toList, .str a.confidence),
    ("unverified_claims".toList, .arr (a.unverified_claims.map .str))]

def result_json (r : Result) : Json :=
  .obj (r.entries ++ match r.quality_assessment with
    | some assessment => [("quality_assessment".toList, assessment_json assessment)]
    | none => [])

/-- `JSONResponse`; without a text it raises. -/
def response_text (r : Result) : Option Str :=
  if finite (result_json r) then some (render false compact 0 (result_json r)) else none

/-- `result if isinstance(result, dict) else {}` on `resp.json()` -/
def received (value : Json) : Result :=
  match value with
  | .obj pairs => ⟨pairs, none⟩
  | _ => ⟨[], none⟩

/-! ## What a model names -/

theorem model_id_ne (name : Str) : model_id name ≠ MODEL_PREFIX := by
  intro h
  have hlen := congrArg List.length h
  simp [model_id] at hlen

theorem model_id_injective : Function.Injective model_id := by
  intro name other h
  have htail := List.append_cancel_left h
  exact (List.cons.inj htail).2

theorem resolve_listed (agent_names : List Str) (name : Str) (h : name ∈ agent_names) :
    resolve_target (model_id name) agent_names = some name := by
  have hfront : startswith (model_id name) (MODEL_PREFIX ++ ['-']) = true := by
    simp [startswith, model_id]
  have hdrop : (model_id name).drop (MODEL_PREFIX.length + 1) = name := by
    simp [model_id]
  unfold resolve_target
  rw [if_neg (model_id_ne name), if_pos hfront]
  dsimp only
  rw [hdrop, if_pos h]

/-- A model resolves to an agent if it is the listed model of that agent. -/
theorem resolve_target_iff (model : Str) (agent_names : List Str) (agent : Str) :
    resolve_target model agent_names = some agent ↔
      agent ∈ agent_names ∧ model = model_id agent := by
  constructor
  · intro h
    unfold resolve_target at h
    split at h
    · cases h
    · split at h
      · next hfront =>
        dsimp only at h
        split at h
        · next hmem =>
          rw [Option.some.injEq] at h
          obtain ⟨rest, hrest⟩ := List.isPrefixOf_iff_prefix.mp hfront
          have hdrop : model.drop (MODEL_PREFIX.length + 1) = rest := by
            rw [← hrest]
            simp
          rw [hdrop] at h hmem
          subst h
          exact ⟨hmem, by rw [← hrest, model_id, List.append_assoc]; rfl⟩
        · cases h
      · cases h
  · rintro ⟨hmem, rfl⟩
    exact resolve_listed agent_names agent hmem

theorem resolve_target_none (model : Str) (agent_names : List Str) :
    resolve_target model agent_names = none ↔ ∀ name ∈ agent_names, model ≠ model_id name := by
  rw [Option.eq_none_iff_forall_not_mem]
  constructor
  · rintro h name hname rfl
    exact h name (resolve_listed agent_names name hname)
  · intro h agent hagent
    obtain ⟨hmem, hmodel⟩ := (resolve_target_iff model agent_names agent).mp hagent
    exact h agent hmem hmodel

theorem force_agent_iff (model : Str) (agent_names : List Str) (auth : AuthResult) (agent : Str)
    (hagent : agent ≠ []) :
    force_agent model agent_names auth = some agent ↔
      (agent ∈ agent_names ∧ model = model_id agent) ∨
      ((∀ name ∈ agent_names, model ≠ model_id name) ∧
        auth.consumer_default_agent = some agent) := by
  unfold force_agent
  cases hresolve : resolve_target model agent_names with
  | some named =>
    obtain ⟨hmem, hmodel⟩ := (resolve_target_iff model agent_names named).mp hresolve
    constructor
    · rintro ⟨⟩
      exact .inl ⟨hmem, hmodel⟩
    · rintro (⟨_, hother⟩ | ⟨hnone, _⟩)
      · rw [model_id_injective (hmodel.symm.trans hother)]
      · exact absurd hmodel (hnone named hmem)
  | none =>
    have hnone := (resolve_target_none model agent_names).mp hresolve
    constructor
    · intro h
      exact .inr ⟨hnone, (Option.filter_eq_some_iff.mp h).1⟩
    · rintro (⟨hmem, hmodel⟩ | ⟨_, hdefault⟩)
      · exact absurd hmodel (hnone agent hmem)
      · exact Option.filter_eq_some_iff.mpr ⟨hdefault, by simpa using hagent⟩

/-- The specialist a chat request insists on, whatever names the gateway still has
cached: the one its model lists, or the consumer's own where the model lists none.
One the supervisor does not have is not insisted on. -/
theorem forced_by_model_iff (sup : Supervisor.SupervisorAgent) (agent_names : List Str)
    (auth : AuthResult) (x_session_id : Str) (request : ChatCompletionRequest) (agent : Str) :
    Supervisor.forced sup (supervisor_request agent_names auth x_session_id request) = some agent ↔
      agent ≠ [] ∧ has sup.agents agent = true ∧
      ((agent ∈ agent_names ∧ request.model = model_id agent) ∨
        ((∀ name ∈ agent_names, request.model ≠ model_id name) ∧
          auth.consumer_default_agent = some agent)) := by
  have hforced : Supervisor.forced sup (supervisor_request agent_names auth x_session_id request) =
      (force_agent request.model agent_names auth).filter
        (fun name => !name.isEmpty && has sup.agents name) := by
    unfold Supervisor.forced supervisor_request
    cases force_agent request.model agent_names auth with
    | none => rfl
    | some name => rfl
  rw [hforced, Option.filter_eq_some_iff]
  constructor
  · rintro ⟨hasked, hknown⟩
    obtain ⟨hname, hhas⟩ := Bool.and_eq_true_iff.mp hknown
    have hagent : agent ≠ [] := by simpa using hname
    exact ⟨hagent, hhas, (force_agent_iff _ _ _ _ hagent).mp hasked⟩
  · rintro ⟨hagent, hhas, hasked⟩
    exact ⟨(force_agent_iff _ _ _ _ hagent).mpr hasked, by simp [hagent, hhas]⟩

/-! ## The question -/

def ChatMessage.is_system (m : ChatMessage) : Bool := m.role = "system".toList

theorem filter_filter_of_imp {α : Type} (p q : α → Bool) (h : ∀ x, q x = true → p x = true)
    (xs : List α) : (xs.filter p).filter q = xs.filter q := by
  rw [List.filter_filter]
  apply List.filter_congr
  intro x _
  cases hq : q x with
  | false => rfl
  | true => rw [h x hq, Bool.and_self]

/-- What the client's program says in system messages reaches no agent. -/
theorem system_messages_dropped (agent_names : List Str) (auth : AuthResult) (x_session_id : Str)
    (request : ChatCompletionRequest) :
    supervisor_request agent_names auth x_session_id request =
      supervisor_request agent_names auth x_session_id
        { request with messages := request.messages.filter (fun m => !m.is_system) } := by
  have husers := filter_filter_of_imp (fun m : ChatMessage => !m.is_system)
    (fun m => m.role = "user".toList ∧ m.content ≠ []) (fun m hm => by
      rw [ChatMessage.is_system, (of_decide_eq_true hm).1]
      decide) request.messages
  have hothers := filter_filter_of_imp (fun m : ChatMessage => !m.is_system)
    (fun m => m.role ≠ "system".toList ∧ m.content ≠ []) (fun m hm => by
      rw [ChatMessage.is_system, decide_eq_false (of_decide_eq_true hm).1]
      rfl) request.messages
  unfold supervisor_request messages_to_user_input
  dsimp only
  rw [husers, hothers]

/-- Of several questions the last one is asked. -/
theorem last_question (before after : List ChatMessage) (m : ChatMessage)
    (hrole : m.role = "user".toList) (hcontent : m.content ≠ [])
    (hafter : ∀ n ∈ after, n.role = "user".toList → n.content = []) :
    messages_to_user_input (before ++ m :: after) = strip m.content := by
  have hnone : after.filter (fun n => n.role = "user".toList ∧ n.content ≠ []) = [] := by
    apply List.filter_eq_nil_iff.mpr
    intro n hn hq
    obtain ⟨huser, hsome⟩ := of_decide_eq_true hq
    exact hsome (hafter n hn huser)
  unfold messages_to_user_input
  dsimp only
  rw [List.filter_append, List.filter_cons_of_pos (by simp [hrole, hcontent]), hnone]
  simp

/-! ## One text, however it is served -/

theorem sse_stream_stamped (c : Completion) (r : Result) :
    ∀ f ∈ (sse_stream c r).1, Stamped c f := by
  have hprelude : Stamped c (prelude c) := chunk_stamped c _ rfl
  unfold sse_stream
  split
  · next text _ =>
    apply List.forall_mem_cons.mpr ⟨hprelude, List.forall_mem_append.mpr ⟨?_, finish_stamped c _⟩⟩
    split
    · exact fun f hf => absurd hf List.not_mem_nil
    · exact fun f hf => List.mem_singleton.mp hf ▸ chunk_stamped c _ rfl
  · exact fun f hf => List.mem_singleton.mp hf ▸ hprelude

/-- The text of a completion's messages. -/
def ChatCompletionResponse.text (resp : ChatCompletionResponse) : Str :=
  resp.choices.flatMap (fun choice => choice.message.content)

/-- A client that reads the pseudo-stream's bytes has the completion's text and the
end of the stream; where there is no completion the stream stops at its prelude. -/
theorem deliveries_agree (py : Runtime) (c : Completion) (hcreated : DigitLimit c.created)
    (r : Result) (pieces : List (List UInt8))
    (hpieces : pieces.flatten = body (sse_stream c r).1) :
    match build_completion c r with
    | .ok resp => (sse_stream c r).2 = .ok () ∧ ∃ frames, client py pieces = some frames ∧
        content frames = resp.text ∧ frames.getLast? = some .DONE
    | .error exc => (sse_stream c r).2 = .error exc ∧ client py pieces = some [prelude c] := by
  have hread : client py pieces = some (sse_stream c r).1 :=
    client_reads_body py _ (fun f hf => stamped_dated c hcreated f (sse_stream_stamped c r f hf))
      pieces hpieces
  rw [hread]
  unfold build_completion sse_stream
  cases text_of (extract_text r) with
  | none => exact ⟨rfl, rfl⟩
  | some text =>
    refine ⟨rfl, _, rfl, ?_, ?_⟩
    · have hdelta : content (if text.isEmpty then [] else [make_chunk c text]) = text := by
        cases text with
        | nil => rfl
        | cons x xs => simp [content, make_chunk, chunk, Frame.content]
      calc content (prelude c :: (if text.isEmpty then [] else [make_chunk c text]) ++
            [finish c "stop".toList, .DONE])
          = content (if text.isEmpty then [] else [make_chunk c text]) ++
              content [finish c "stop".toList, .DONE] := List.flatMap_append
        _ = text ++ [] := by rw [hdelta]; rfl
        _ = _ := rfl
    · rw [List.getLast?_append]
      rfl

def threePods : Result := ⟨[("agent".toList, .str "kubernetes".toList),
  ("response".toList, .str "3 pods\nin é".toList)], some ⟨"alta".toList, ["3 pods".toList]⟩⟩

/-- Byte by byte. -/
theorem deliveries_agree_three_pods :
    (sse_stream january threePods).2 = .ok () ∧ ∃ frames,
      client asciiRuntime ((body (sse_stream january threePods).1).map (fun b => [b])) =
        some frames ∧
      content frames = "3 pods\nin é".toList ∧ frames.getLast? = some .DONE :=
  deliveries_agree asciiRuntime january january_limit threePods
    ((body (sse_stream january threePods).1).map (fun b => [b])) (List.flatMap_singleton' _)

/-! ## Transport -/

theorem get_append_right (pairs more : List (Str × Json)) (key : Str)
    (h : key ∉ pairs.map Prod.fst) : Json.get (pairs ++ more) key = Json.get more key := by
  have hnone : pairs.find? (fun kv => kv.1 = key) = none := by
    rw [List.find?_eq_none]
    intro kv hkv hkey
    exact h (List.mem_map.mpr ⟨kv, hkv, of_decide_eq_true hkey⟩)
  rw [Json.get, List.find?_append, hnone]
  rfl

theorem get_append_left (pairs more : List (Str × Json)) (key : Str)
    (h : key ∉ more.map Prod.fst) : Json.get (pairs ++ more) key = Json.get pairs key := by
  have hnone : more.find? (fun kv => kv.1 = key) = none := by
    rw [List.find?_eq_none]
    intro kv hkv hkey
    exact h (List.mem_map.mpr ⟨kv, hkv, of_decide_eq_true hkey⟩)
  rw [Json.get, List.find?_append, hnone, Option.or_none]
  rfl

/-- Both shapes of an assessment surface the same. -/
theorem x_aigent_json (a : QualityAssessment) :
    x_aigent (some (.json (assessment_json a))) = x_aigent (some (.dataclass a)) := by
  have hconfidence : Json.get [("confidence".toList, Json.str a.confidence),
      ("unverified_claims".toList, .arr (a.unverified_claims.map Json.str))] "confidence".toList =
      some (.str a.confidence) := rfl
  have hclaims : claims_of [("confidence".toList, Json.str a.confidence),
      ("unverified_claims".toList, .arr (a.unverified_claims.map Json.str))] =
      some (a.unverified_claims.map Json.str) := by
    show (if (Json.arr (a.unverified_claims.map Json.str)).truthy
      then some (a.unverified_claims.map Json.str) else some []) = _
    cases a.unverified_claims with
    | nil => rfl
    | cons claim claims => rfl
  unfold x_aigent assessment_json
  dsimp only
  rw [hconfidence, hclaims]
  rfl

/-- A result as it arrives is as good as it was. -/
theorem transported (r : Result) (hkeys : ((r.entries ++ match r.quality_assessment with
    | some assessment => [("quality_assessment".toList, assessment_json assessment)]
    | none => []).map Prod.fst).Nodup) :
    extract_text (received (result_json r)) = extract_text r ∧
    x_aigent (received (result_json r)).assessment = x_aigent r.assessment := by
  obtain ⟨entries, quality_assessment⟩ := r
  cases quality_assessment with
  | none =>
    simp only [List.append_nil, result_json, received, and_self]
  | some a =>
    have hfresh : "quality_assessment".toList ∉ entries.map Prod.fst := by
      rw [List.map_append, List.nodup_append] at hkeys
      intro hmem
      exact hkeys.2.2 _ hmem _ (List.mem_singleton_self _) rfl
    constructor
    · have hget : Json.get (entries ++ [("quality_assessment".toList, assessment_json a)])
          "response".toList = Json.get entries "response".toList :=
        get_append_left _ _ _
          (show "response".toList ∉ ["quality_assessment".toList] by decide)
      simp only [extract_text, received, result_json, hget]
    · have hget : Json.get (entries ++ [("quality_assessment".toList, assessment_json a)])
          "quality_assessment".toList = some (assessment_json a) := by
        rw [get_append_right _ _ _ hfresh]
        rfl
      simp only [Result.assessment, received, result_json, hget]
      exact x_aigent_json a

/-- What the gateway answers after the transport is what the supervisor's process
would have answered, the assessment included, as a completion and as a stream. -/
theorem answer_survives_transport (py : Runtime) (c : Completion) (r : Result) (text : Str)
    (hsound : Sound py (result_json r)) (htext : response_text r = some text) :
    ∃ value, loads py text = .ok value ∧
      build_completion c (received value) = build_completion c r ∧
      sse_stream c (received value) = sse_stream c r := by
  obtain ⟨hanswer, hassessment⟩ := transported r hsound.1
  refine ⟨result_json r, ?_, ?_, ?_⟩
  · unfold response_text at htext
    split at htext
    · rw [← Option.some.inj htext]
      exact loads_render py false compact _ hsound
    · cases htext
  · simp only [build_completion, hanswer, hassessment]
  · simp only [sse_stream, hanswer]

theorem answer_survives_transport_three_pods :
    ∃ value, loads asciiRuntime (render false compact 0 (result_json threePods)) = .ok value ∧
      build_completion january (received value) = build_completion january threePods ∧
      sse_stream january (received value) = sse_stream january threePods := by
  have hkeys : ["agent".toList, "response".toList, "quality_assessment".toList].Nodup := by decide
  have hfields : ["confidence".toList, "unverified_claims".toList].Nodup := by decide
  have hsound : Sound asciiRuntime (result_json threePods) :=
    ⟨hkeys, trivial, trivial, ⟨hfields, trivial, ⟨trivial, trivial⟩, trivial⟩, trivial⟩
  exact answer_survives_transport asciiRuntime january threePods _ hsound rfl

end AigentSquad.OpenAiBridge
