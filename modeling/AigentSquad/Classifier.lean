import AigentSquad.ExtractJson
import AigentSquad.Interaction

/-!
# The classifier

One model call names the agents for a question. Its answer is read as JSON, else
searched for an agent's name; without an answer the agents' keywords decide.
-/

set_option autoImplicit false

namespace AigentSquad.Classifier
open AigentSquad.PyText AigentSquad.PyJson AigentSquad.Interaction AigentSquad.Effects
open AigentSquad.EvidenceExchange AigentSquad.ExtractJson

/-- What the classifier reads of an agent's configuration. -/
structure AgentConfig where
  name : Str
  routing_keywords : List Str

/-- What the answer says, or `round(score / max_score * 0.6, 2)`. -/
inductive Confidence where
  | given (value : Json)
  | keywords (score max_score : ℕ)

structure AgentMatch where
  agent : Str
  confidence : Confidence
  sub_query : Json

structure ClassifierResult where
  agents : List AgentMatch
  reasoning : Json
  complexity : Str

def text (s : String) : Json := .str s.toList

/-! ### Reading the answer -/

/-- `a.get("agent") in self._agent_names` -/
def named (agent_names : List Str) (agent : Json) : Option Str :=
  match agent with
  | .str name => if name ∈ agent_names then some name else none
  | _ => none

def agent_match (agent_names : List Str) (pairs : List (Str × Json)) : Option AgentMatch :=
  (named agent_names (get_or pairs "agent" .null)).map (fun agent =>
    { agent := agent
      confidence := .given (get_or pairs "confidence" (.float "0.5".toList))
      sub_query := get_or pairs "sub_query" (text "") })

/-- Only a JSON object has a `get`. -/
def listed_agents (agent_names : List Str) : List Json → Except Exn (List AgentMatch)
  | [] => .ok []
  | .obj pairs :: items => do
    let rest ← listed_agents agent_names items
    .ok ((agent_match agent_names pairs).toList ++ rest)
  | _ :: _ => .error .AttributeError

def heuristic_complexity (agents : List AgentMatch) (user_input : Str) : Str :=
  if 2 ≤ agents.length then "complex".toList
  else if agents.length = 1 ∧ user_input.length ≤ 60 then "simple".toList
  else "standard".toList

def complexity_of (raw_complexity : Json) (agents : List AgentMatch) (user_input : Str) : Str :=
  match raw_complexity with
  | .str level =>
    if level ∈ ["simple".toList, "standard".toList, "complex".toList] then level
    else heuristic_complexity agents user_input
  | _ => heuristic_complexity agents user_input

/-- An agent's name anywhere in the answer. -/
def name_scan (py : Runtime) (agent_names : List Str) (response : Str) : ClassifierResult :=
  match agent_names.find? (fun agent_name => isIn agent_name (lower py response)) with
  | some agent_name =>
    ⟨[⟨agent_name, .given (.float "0.5".toList), text ""⟩], text "Fallback parsing",
      "standard".toList⟩
  | none => ⟨[], text "Failed to parse classifier response", "standard".toList⟩

/-- `JSONDecodeError`, `KeyError` and `TypeError` lead to the scan for a name. -/
def read_response (py : Runtime) (agent_names : List Str) (user_input response : Str) :
    Except Exn ClassifierResult :=
  match loads py (extract_json response) with
  | .error .JSONDecodeError => .ok (name_scan py agent_names response)
  | .error .ValueError => .error digit_limit
  | .ok (.obj result) =>
    match iterated (get_or result "agents" (.arr [])) with
    | none => .ok (name_scan py agent_names response)
    | some agents_raw => do
      let agents ← listed_agents agent_names agents_raw
      .ok ⟨agents, get_or result "reasoning" .null,
        complexity_of (get_or result "complexity" (text "")) agents user_input⟩
  | .ok _ => .error .AttributeError

/-! ### Without an answer -/

def scored_agents (py : Runtime) (registry : List AgentConfig) (user_input : Str) :
    List (Str × ℕ) :=
  let lowered := lower py user_input
  (registry.map (fun config =>
    (config.name, config.routing_keywords.countP (fun kw => isIn kw lowered)))).filter
      (fun scored => 0 < scored.2)

def keyword_fallback (py : Runtime) (registry : List AgentConfig) (user_input : Str) :
    ClassifierResult :=
  let sorted := (scored_agents py registry user_input).mergeSort (fun x y => y.2 ≤ x.2)
  match sorted.take 3 with
  | [] => ⟨[], text "keyword fallback: no match", "standard".toList⟩
  | best :: others =>
    ⟨(best :: others).map (fun scored => ⟨scored.1, .keywords scored.2 best.2, text ""⟩),
      text "keyword fallback (LLM unavailable)", "standard".toList⟩

/-! ### The call -/

structure Request where
  user_input : Str
  user_id : Str
  session_id : Str

/-- `system_prompt` is the prompt with the agents and the history filled in. -/
def classifier_call (system_prompt : Str) (req : Request) : InvokeCall where
  content := req.user_input
  system_prompt := system_prompt
  temperature := 3 / 10
  role := "classifier".toList
  agent_id := "classifier".toList
  user_id := req.user_id
  session_id := req.session_id
  budget_session_id := none
  skip_input_guardrail := true

/-- A refusal is passed on, any other failure is answered by the keywords. -/
def classified (py : Runtime) (registry : List AgentConfig) (req : Request) :
    Except Exn Str → Except Exn ClassifierResult
  | .error (.GuardrailBlockedError reason source categories) =>
    .error (.GuardrailBlockedError reason source categories)
  | .error _ => .ok (keyword_fallback py registry req.user_input)
  | .ok response => read_response py (registry.map AgentConfig.name) req.user_input response

def classify (py : Runtime) (registry : List AgentConfig) (system_prompt : Str) (req : Request) :
    M ClassifierResult := do
  let answer ← (.request (Ask.invoke (classifier_call system_prompt req)) : M (Except Exn Str))
  .ofExcept (classified py registry req answer)

/-! ### Registered agents -/

/-- Every agent of the result is registered. -/
def Registered (agent_names : List Str) (c : ClassifierResult) : Prop :=
  ∀ m ∈ c.agents, m.agent ∈ agent_names

theorem name_scan_registered (py : Runtime) (agent_names : List Str) (response : Str) :
    Registered agent_names (name_scan py agent_names response) := by
  unfold name_scan
  split
  · next agent_name hfound =>
    intro m hm
    rw [List.mem_singleton.mp hm]
    exact List.mem_of_find?_eq_some hfound
  · intro m hm
    cases hm

theorem agent_match_registered (agent_names : List Str) (pairs : List (Str × Json))
    (m : AgentMatch) (h : agent_match agent_names pairs = some m) : m.agent ∈ agent_names := by
  obtain ⟨agent, hagent, rfl⟩ := Option.map_eq_some_iff.mp h
  unfold named at hagent
  split at hagent
  · split at hagent
    · next hmem =>
      cases hagent
      exact hmem
    · cases hagent
  · cases hagent

theorem listed_agents_iff (agent_names : List Str) (items : List Json) :
    (∃ agents, listed_agents agent_names items = .ok agents ∧
      ∀ m ∈ agents, m.agent ∈ agent_names) ↔ ∀ item ∈ items, item.isObject = true := by
  induction items with
  | nil =>
    refine iff_of_true ⟨[], rfl, ?_⟩ ?_
    · intro m hm
      cases hm
    · intro item hitem
      cases hitem
  | cons item items ih =>
    rw [List.forall_mem_cons]
    cases item with
    | obj pairs =>
      rw [and_iff_right (show (Json.obj pairs).isObject = true from rfl), ← ih]
      constructor
      · rintro ⟨agents, h, hmem⟩
        obtain ⟨rest, hrest, h⟩ := bind_eq_ok h
        cases h
        exact ⟨rest, hrest, fun m hm => hmem m (List.mem_append_right _ hm)⟩
      · rintro ⟨rest, hrest, hmem⟩
        refine ⟨(agent_match agent_names pairs).toList ++ rest, ?_, ?_⟩
        · rw [listed_agents, hrest]
          rfl
        · intro m hm
          rcases List.mem_append.mp hm with hm | hm
          · exact agent_match_registered agent_names pairs m (Option.mem_toList.mp hm)
          · exact hmem m hm
    | _ =>
      refine iff_of_false ?_ (fun h => Bool.false_ne_true h.1)
      rintro ⟨agents, h, _⟩
      cases h

theorem keyword_fallback_registered (py : Runtime) (registry : List AgentConfig)
    (user_input : Str) :
    Registered (registry.map AgentConfig.name) (keyword_fallback py registry user_input) := by
  have hscored : ∀ s ∈ scored_agents py registry user_input,
      s.1 ∈ registry.map AgentConfig.name := by
    intro s hs
    obtain ⟨config, hconfig, rfl⟩ := List.mem_map.mp (List.mem_filter.mp hs).1
    exact List.mem_map_of_mem hconfig
  unfold keyword_fallback
  dsimp only
  split
  · intro m hm
    cases hm
  · next best others htop =>
    intro m hm
    obtain ⟨s, hs, rfl⟩ := List.mem_map.mp hm
    rw [← htop] at hs
    exact hscored s (List.mem_mergeSort.mp (List.mem_of_mem_take hs))

/-! ### Every answer is classified -/

/-- The answer has no JSON in it, or an object whose agents, where they can be listed, are
objects. -/
def Readable (py : Runtime) (response : Str) : Prop :=
  loads py (extract_json response) = .error .JSONDecodeError ∨
    ∃ result, loads py (extract_json response) = .ok (.obj result) ∧
      ∀ agents_raw, iterated (get_or result "agents" (.arr [])) = some agents_raw →
        ∀ item ∈ agents_raw, item.isObject = true

theorem read_response_iff (py : Runtime) (agent_names : List Str) (user_input response : Str) :
    (∃ c, read_response py agent_names user_input response = .ok c ∧ Registered agent_names c) ↔
      Readable py response := by
  unfold read_response Readable
  cases hloads : loads py (extract_json response) with
  | error e =>
    cases e with
    | JSONDecodeError => exact iff_of_true ⟨_, rfl, name_scan_registered py _ _⟩ (.inl rfl)
    | ValueError => simp
  | ok v =>
    cases v with
    | obj result =>
      simp only [reduceCtorEq, false_or, Except.ok.injEq, Json.obj.injEq, exists_eq_left']
      cases hagents : iterated (get_or result "agents" (.arr [])) with
      | none => exact iff_of_true ⟨_, rfl, name_scan_registered py _ _⟩ (by simp)
      | some agents_raw =>
        simp only [Option.some.injEq, forall_eq']
        rw [← listed_agents_iff agent_names]
        constructor
        · rintro ⟨c, h, hmem⟩
          obtain ⟨agents, hlisted, h⟩ := bind_eq_ok h
          cases h
          exact ⟨agents, hlisted, hmem⟩
        · rintro ⟨agents, hlisted, hmem⟩
          refine ⟨⟨agents, get_or result "reasoning" .null,
            complexity_of (get_or result "complexity" (text "")) agents user_input⟩, ?_, hmem⟩
          rw [hlisted]
          rfl
    | _ => simp

/-- The call returns registered agents when the model answers `response`. -/
def Classifies (py : Runtime) (registry : List AgentConfig) (system_prompt : Str) (req : Request)
    (response : Str) : Prop :=
  ∃ c, Path (classify py registry system_prompt req)
    [.asked (Ask.invoke (classifier_call system_prompt req)) (Except.ok response)] (.ok c) ∧
      Registered (registry.map AgentConfig.name) c

theorem classify_path (py : Runtime) (registry : List AgentConfig) (system_prompt : Str)
    (req : Request) (answer : Except Exn Str) (r : Except Exn ClassifierResult) :
    Path (classify py registry system_prompt req)
      [.asked (Ask.invoke (classifier_call system_prompt req)) answer] r ↔
        r = classified py registry req answer := by
  have hasks : classify py registry system_prompt req =
      Prog.ask (Ask.invoke (classifier_call system_prompt req)) (fun answer : Except Exn Str =>
        Prog.done (classified py registry req answer)) := rfl
  rw [hasks, path_ask]
  constructor
  · rintro ⟨a, rest, heq, h⟩
    cases heq
    exact ((path_done _ _ _).mp h).2
  · rintro rfl
    exact ⟨answer, [], rfl, (path_done _ _ _).mpr ⟨rfl, rfl⟩⟩

end AigentSquad.Classifier
