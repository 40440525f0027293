import AigentSquad.Dict
import AigentSquad.EvidenceExchange
import AigentSquad.Groundedness

/-!
# Investigations

`run_investigation` asks the agents for evidence and has one model call fuse it.
The confidence of the evidence is a ceiling for the confidence of the result.
-/

set_option autoImplicit false

namespace AigentSquad.RunInvestigation
open AigentSquad.PyText AigentSquad.PyJson AigentSquad.PyRepr AigentSquad.Dict
open AigentSquad.Interaction
open AigentSquad.Postcondition AigentSquad.Investigation AigentSquad.EvidenceExchange
open AigentSquad.Effects AigentSquad.GenericAgent AigentSquad.AgenticLoopStreaming
open AigentSquad.Confidence AigentSquad.Groundedness

abbrev Item := Evidence Json

def MAX_AGENTS_PER_INVESTIGATION : Int := 5

def RCA_SYNTHESIZER_PROMPT : Str :=
  ("You are an RCA (Root Cause Analysis) synthesizer.\n\n" ++
    "You receive:\n" ++
    "1. A symptom description\n" ++
    "2. Evidence collected from N specialist agents (each with timestamp, strength, summary)\n" ++
    "3. A timeline of temporal events\n\n" ++
    "Produce a structured RCA result as JSON:\n" ++
    "\x7b\n" ++
    "  \"hypothesis\": \"single-sentence root cause hypothesis\",\n" ++
    "  \"reasoning\": \"how the evidence supports the hypothesis\",\n" ++
    "  \"contradicting_evidence_indices\": [list of indices in evidence array that CONTRADICT " ++
    "the hypothesis],\n" ++
    "  \"prevention\": [\"actionable item 1\", \"actionable item 2\", ...]\n" ++
    "\x7d\n\n" ++
    "RULES:\n" ++
    "- If evidence is insufficient, say so in hypothesis (e.g., \"Insufficient evidence; " ++
    "needs X to confirm\")\n" ++
    "- Identify contradicting evidence honestly (don't ignore it)\n" ++
    "- Prevention items should be concrete: alert/test/guardrail/runbook\n" ++
    "- Output ONLY valid JSON, no preamble.").toList

def CAUSAL_KEYWORDS : List Str :=
  ["deploy".toList, "release".toList, "config change".toList, "restart".toList,
    "rollout".toList, "merge".toList, "upgrade".toList]

/-- `alta`, `media`, `baixa` -/
inductive Confidence where
  | baixa
  | media
  | alta
deriving DecidableEq, Repr

def Confidence.name : Confidence → Str
  | baixa => "baixa".toList
  | media => "media".toList
  | alta => "alta".toList

def LEVEL_RANK : Confidence → ℕ
  | .baixa => 0
  | .media => 1
  | .alta => 2

def RANK_TO_LEGACY : ℕ → Confidence
  | 0 => .baixa
  | 1 => .media
  | _ => .alta

structure RCAResult where
  hypothesis : Json
  confidence : Confidence
  evidence : List Item
  timeline : List Item
  contradicting : List Item
  prevention : Json
  confidence_level : Level
  confidence_track : Track
  independent_signal_count : ℕ
  temporal_violations : List Str

def evidence_query (symptom : Str) : Str :=
  "Collect evidence for the following ".toList ++ "symptom. Return your findings as ".toList ++
    "a JSON list of evidence items, each ".toList ++ "with fields: signal_type ".toList ++
    "(metric|log|trace|event|deploy|infra), ".toList ++ "timestamp (ISO8601, '' if not ".toList ++
    "applicable), strength (forte|media|fraca), ".toList ++ "summary. Symptom: ".toList ++ symptom

/-- `xs[:n]` -/
def up_to {α : Type} (n : Int) (xs : List α) : List α :=
  if 0 ≤ n then xs.take n.toNat else xs.take (xs.length + n).toNat

def chosen_agents (agents : Entries Str Agent) (relevant_agent_names : List Str) : List Str :=
  up_to MAX_AGENTS_PER_INVESTIGATION
    (if relevant_agent_names.isEmpty then agents.map Prod.fst else relevant_agent_names)

def key_error (py : Runtime) (name : Str) : Exn := .other "KeyError".toList (reprStr py name)

/-- `agents[name]` -/
def agent_named (py : Runtime) (agents : Entries Str Agent) (name : Str) : Except Exn Agent :=
  match get agents name with
  | some ag => .ok ag
  | none => .error (key_error py name)

def collection_call (symptom user_id session_id investigation_id : Str)
    (model_id_override : Option Str) : AgentCall where
  input_text := evidence_query symptom
  user_id := user_id
  session_id := session_id ++ "-inv-".toList ++ investigation_id.take 8
  chat_history := []
  budget_session_id := some session_id
  model_id_override := model_id_override

section Fail
variable {α : Type}

def guardrail_block : Except Exn α → Option Exn
  | .error (.GuardrailBlockedError reason source categories) =>
    some (.GuardrailBlockedError reason source categories)
  | _ => none

/-- A refusal of one task is a refusal of the request. -/
def refuse_blocked (results : List (Except Exn α)) : Except Exn Unit :=
  match results.findSome? guardrail_block with
  | some block => .error block
  | none => .ok ()

end Fail

/-- The evidence of the agents that answered. -/
def collected_evidence (py : Runtime) :
    List (Str × Except Exn ConversationMessage) → Except Exn (List Item)
  | [] => .ok []
  | (_, .error _) :: results => collected_evidence py results
  | (name, .ok message) :: results => do
    let items ← parse_evidence py message.content name
    let more ← collected_evidence py results
    .ok (items ++ more)

def timed (e : Item) : Bool := e.timestamp.truthy

def is_text : Json → Bool
  | .str _ => true
  | _ => false

def names_change (py : Runtime) : Json → Bool
  | .str summary => CAUSAL_KEYWORDS.any (fun kw => isIn kw (lower py summary))
  | _ => false

/-- An item as the timeline leaves it. -/
def annotated (py : Runtime) (e : Item) : Item :=
  { e with is_causal_candidate :=
      e.is_causal_candidate || (timed e && names_change py e.summary) }

section Timeline
variable [Values]

def insert_timed (e : Item) : List Item → Except Exn (List Item)
  | [] => .ok [e]
  | f :: fs => do
    if ← Values.lt e.timestamp f.timestamp then .ok (e :: f :: fs)
    else
      let rest ← insert_timed e fs
      .ok (f :: rest)

/-- A stable sort by timestamp. -/
def sort_timed (evidences : List Item) : Except Exn (List Item) :=
  evidences.foldlM (fun sorted e => insert_timed e sorted) []

/-- The items themselves are marked, so the evidence changes with the timeline. -/
def build_timeline (py : Runtime) (evidences : List Item) :
    Except Exn (List Item × List Item) := do
  let temporal ← sort_timed (evidences.filter timed)
  if temporal.all (fun e => is_text e.summary) then
    .ok (evidences.map (annotated py), temporal.map (annotated py))
  else .error .AttributeError

def evidence_line (i : ℕ) (e : Item) : Str :=
  "[".toList ++ strNat i ++ "] ".toList ++ e.source_agent ++ " | ".toList ++
    Values.str e.signal_type ++ " | ".toList ++ Values.str e.strength ++ " | ".toList ++
    Values.str e.timestamp ++ " | ".toList ++ Values.str e.summary

def timeline_line (e : Item) : Str :=
  Values.str e.timestamp ++ " | ".toList ++ e.source_agent ++ " | ".toList ++
    Values.str e.summary ++
    (if e.is_causal_candidate then " *** CAUSAL CANDIDATE ***".toList else [])

def or_else (s default : Str) : Str := if s.isEmpty then default else s

def synthesis_message (symptom rag_block : Str) (evidences timeline : List Item) : Str :=
  "<symptom>\n".toList ++ symptom ++ "\n</symptom>\n\n".toList ++ rag_block ++
    "<evidence>\n".toList ++
    or_else (join "\n".toList (evidences.mapIdx evidence_line)) "(no evidence collected)".toList ++
    "\n</evidence>\n\n<timeline>\n".toList ++
    or_else (join "\n".toList (timeline.map timeline_line)) "(no temporal evidence)".toList ++
    "\n</timeline>\n\nProduce the RCA JSON.".toList

def synthesis_call (symptom rag_block user_id session_id : Str) (evidences timeline : List Item) :
    InvokeCall where
  content := synthesis_message symptom rag_block evidences timeline
  system_prompt := RCA_SYNTHESIZER_PROMPT
  temperature := 1 / 5
  role := "synthesis".toList
  agent_id := "rca-synthesizer".toList
  user_id := user_id
  session_id := session_id
  budget_session_id := none
  skip_input_guardrail := true

/-- Hypothesis, contradicting indices and prevention. -/
structure Synthesis where
  hypothesis : Json
  contradicting_indices : Json
  prevention : Json

def or_list (j : Json) : Json := if j.truthy then j else .arr []

def read_synthesis (pairs : List (Str × Json)) : Synthesis where
  hypothesis := get_or pairs "hypothesis" (.str "Insufficient evidence to form hypothesis".toList)
  contradicting_indices := or_list (get_or pairs "contradicting_evidence_indices" (.arr []))
  prevention := or_list (get_or pairs "prevention" (.arr []))

/-- From the first brace to the last one, empty where none follows. -/
def braced (s : Str) (start : ℕ) : Str :=
  match rfind '}' s with
  | some stop => slice s start stop
  | none => []

def parse_synthesis (py : Runtime) (response : Str) : Except Exn Synthesis :=
  match find '{' response with
  | none => .ok (read_synthesis [])
  | some start =>
    match loads py (braced response start) with
    | .error _ => .ok ⟨.str (response.take 500), .arr [], .arr []⟩
    | .ok (.obj pairs) => .ok (read_synthesis pairs)
    | .ok _ => .error .AttributeError

/-- `evidence[i]` where `0 <= i < len(evidence)` -/
def at_index (evidences : List Item) : Json → Except Exn (Option Item)
  | .int i => .ok (if 0 ≤ i then evidences[i.toNat]? else none)
  | .bool b => .ok evidences[b.toNat]?
  | .float text => if Values.within text evidences.length then .error .TypeError else .ok none
  | _ => .error .TypeError

def contradicting_items (evidences : List Item) (indices : Json) : Except Exn (List Item) :=
  match iterated indices with
  | none => .error .TypeError
  | some indices => do
    let items ← indices.mapM (at_index evidences)
    .ok (items.filterMap id)

def hashable : Json → Bool
  | .arr _ => false
  | .obj _ => false
  | _ => true

def add_signal (signals : List (Str × Json)) (e : Item) : List (Str × Json) :=
  if signals.any (fun s => s.1 = e.source_agent && Values.eq s.2 e.signal_type) then signals
  else (e.source_agent, e.signal_type) :: signals

def correlate (evidences contradicting : List Item) : Except Exn Confidence :=
  if evidences.all (fun e => hashable e.signal_type) then
    let n := (evidences.foldl add_signal []).length
    let has_contradicting := !contradicting.isEmpty
    .ok (if 3 ≤ n && !has_contradicting then .alta
      else if 3 ≤ n && has_contradicting then .media
      else if n = 2 then (if has_contradicting then .baixa else .media)
      else .baixa)
  else .error .TypeError

/-- The model's level is a ceiling. -/
def ceiling (level : Level) (confidence : Confidence) : Confidence :=
  RANK_TO_LEGACY (min (MODEL_RANK level) (LEVEL_RANK confidence))

def rca_result (evidences timeline : List Item) (v : Synthesis) (contradicting : List Item)
    (confidence : Confidence) : RCAResult where
  hypothesis := v.hypothesis
  confidence := ceiling (score_confidence evidences).1 confidence
  evidence := evidences
  timeline := timeline
  contradicting := contradicting
  prevention := v.prevention
  confidence_level := (score_confidence evidences).1
  confidence_track := (score_confidence evidences).2
  independent_signal_count := count_independent evidences
  temporal_violations := validate_temporal_order evidences

def fuse (py : Runtime) (evidences timeline : List Item) (response : Str) :
    Except Exn RCAResult := do
  let synthesis ← parse_synthesis py response
  let contradicting ← contradicting_items evidences synthesis.contradicting_indices
  let confidence ← correlate evidences contradicting
  .ok (rca_result evidences timeline synthesis contradicting confidence)

/-- The retrieval of similar cases fails open. -/
def similar_cases (symptom : Str) : M Str := do
  let block ← (.request (Ask.inject_similar_cases symptom) : M (Except Exn Str))
  pure (block.toOption.getD [])

def synthesize_rca (py : Runtime) (symptom user_id session_id : Str)
    (evidences timeline : List Item) : M RCAResult := do
  let rag_block ← similar_cases symptom
  let response ← invoke (synthesis_call symptom rag_block user_id session_id evidences timeline)
  .ofExcept (fuse py evidences timeline response)

/-- The log takes the length of the hypothesis. -/
def sized : Json → Bool
  | .str _ => true
  | .arr _ => true
  | .obj _ => true
  | _ => false

def logged (rca : RCAResult) : Except Exn RCAResult :=
  if sized rca.hypothesis then .ok rca else .error .TypeError

structure Investigation where
  symptom : Str
  agents : Entries Str Agent
  user_id : Str
  session_id : Str
  relevant_agent_names : List Str
  model_id_override : Option Str

def scan_ids (inv : Investigation) : Ids :=
  ⟨"investigation".toList, inv.user_id, inv.session_id⟩

def run_investigation (py : Runtime) (s : Settings) (inv : Investigation) : M RCAResult := do
  let symptom ← scanInput inv.symptom (scan_ids inv)
  let id ← (.request Ask.uuid4 : M Str)
  let chosen := chosen_agents inv.agents inv.relevant_agent_names
  let call := collection_call symptom inv.user_id inv.session_id id inv.model_id_override
  let specialists ← .ofExcept (chosen.mapM (agent_named py inv.agents))
  let results ← gather (specialists.map (fun ag => process_request py s ag call))
  .ofExcept (refuse_blocked results)
  let collected ← .ofExcept (collected_evidence py (chosen.zip results))
  let built ← .ofExcept (build_timeline py collected)
  let rca ← synthesize_rca py symptom inv.user_id inv.session_id built.1 built.2
  .ofExcept (logged rca)

/-! ### The ceiling -/

omit [Values] in
theorem collected_unannotated (py : Runtime)
    (results : List (Str × Except Exn ConversationMessage)) (evidences : List Item)
    (h : collected_evidence py results = .ok evidences) : ∀ e ∈ evidences, Unannotated e := by
  induction results generalizing evidences with
  | nil =>
    cases h
    simp
  | cons result results ih =>
    obtain ⟨name, answer⟩ := result
    cases answer with
    | error x => exact ih evidences h
    | ok message =>
      obtain ⟨items, hitems, h⟩ := bind_eq_ok h
      obtain ⟨more, hmore, h⟩ := bind_eq_ok h
      cases h
      intro e he
      rcases List.mem_append.mp he with he | he
      · exact parse_evidence_unannotated py message.content name items hitems e he
      · exact ih more hmore e he

omit [Values] in
theorem annotated_unannotated (py : Runtime) (e : Item) (h : Unannotated e) :
    Unannotated (annotated py e) :=
  ⟨h.causal_layer, h.fault_domain, h.signal_subtype, h.derivation_source, h.trace_id,
    h.contradicts_hypothesis, h.contradiction_explained⟩

theorem built_unannotated (py : Runtime) (evidences : List Item)
    (built : List Item × List Item) (h : build_timeline py evidences = .ok built)
    (hev : ∀ e ∈ evidences, Unannotated e) : ∀ e ∈ built.1, Unannotated e := by
  obtain ⟨temporal, _, h⟩ := bind_eq_ok h
  split at h
  · cases h
    intro e he
    obtain ⟨e, hmem, rfl⟩ := List.mem_map.mp he
    exact annotated_unannotated py e (hev e hmem)
  · cases h

omit [Values] in
theorem ceiling_low (confidence : Confidence) : ceiling .LOW confidence = .baixa := by
  rw [ceiling, MODEL_RANK, Nat.zero_min]
  rfl

/-- Evidence without annotations keeps every result at the lowest confidence. -/
theorem fuse_lowest (py : Runtime) (evidences timeline : List Item) (response : Str)
    (rca : RCAResult) (hev : ∀ e ∈ evidences, Unannotated e)
    (h : fuse py evidences timeline response = .ok rca) : rca.confidence = .baixa := by
  obtain ⟨synthesis, _, h⟩ := bind_eq_ok h
  obtain ⟨contradicting, _, h⟩ := bind_eq_ok h
  obtain ⟨confidence, _, h⟩ := bind_eq_ok h
  cases h
  show ceiling (score_confidence evidences).1 confidence = .baixa
  rw [score_unannotated evidences hev]
  exact ceiling_low confidence

omit [Values] in
theorem ofExcept_ok {α : Type} {r : Except Exn α} {tr : List Ev} {a : α}
    (h : Path (.ofExcept r : M α) tr (.ok a)) : r = .ok a := ((path_done _ _ _).mp h).2.symm

/-- Whatever the agents and the model answer. -/
theorem investigation_lowest (py : Runtime) (s : Settings) (inv : Investigation) (tr : List Ev)
    (rca : RCAResult) (h : Path (run_investigation py s inv) tr (.ok rca)) :
    rca.confidence = .baixa := by
  obtain ⟨symptom, _, _, _, _, h⟩ := Path.of_bind_ok h
  obtain ⟨id, _, _, _, _, h⟩ := Path.of_bind_ok h
  obtain ⟨specialists, _, _, _, _, h⟩ := Path.of_bind_ok h
  obtain ⟨results, _, _, _, _, h⟩ := Path.of_bind_ok h
  obtain ⟨_, _, _, _, _, h⟩ := Path.of_bind_ok h
  obtain ⟨collected, _, _, _, hcollected, h⟩ := Path.of_bind_ok h
  obtain ⟨built, _, _, _, hbuilt, h⟩ := Path.of_bind_ok h
  obtain ⟨fused, _, _, _, hsynthesis, h⟩ := Path.of_bind_ok h
  have hev := built_unannotated py collected built (ofExcept_ok hbuilt)
    (collected_unannotated py _ collected (ofExcept_ok hcollected))
  obtain ⟨rag_block, _, _, _, _, hsynthesis⟩ := Path.of_bind_ok hsynthesis
  obtain ⟨response, _, _, _, _, hsynthesis⟩ := Path.of_bind_ok hsynthesis
  have hlogged := ofExcept_ok h
  rw [logged] at hlogged
  split at hlogged
  · cases hlogged
    exact fuse_lowest py built.1 built.2 response rca hev (ofExcept_ok hsynthesis)
  · cases hlogged

/-- A list survives its encoding exactly if it has no annotation to lose, and no
investigation reports more than the lowest confidence. -/
theorem evidence_survives_iff (py : Runtime) :
    (∀ (ea : Bool) (source_agent : Str) (evidences : List (Evidence Str)),
      Survives py ea source_agent evidences ↔ ∀ e ∈ evidences, Unannotated e) ∧
    ∀ (s : Settings) (inv : Investigation) (tr : List Ev) (rca : RCAResult),
      Path (run_investigation py s inv) tr (.ok rca) → rca.confidence = .baixa :=
  ⟨survives_iff py, investigation_lowest py⟩

end Timeline

/-- Values of which only texts are compared. -/
@[reducible] def textValues : Values where
  str j := match j with
    | .str s => s
    | j => dumps false j
  lt j k := match j, k with
    | .str s, .str t => .ok (decide (s < t))
    | _, _ => .error .TypeError
  eq j k := match j, k with
    | .str s, .str t => decide (s = t)
    | _, _ => false
  within _ _ := false
  str_text _ := rfl
  lt_text _ _ := rfl
  eq_text _ _ := rfl

def fullyAnnotated : List (Evidence Str) := [deployed, outOfMemory, errorRate]

def annotatedItem (signal_type causal_layer : String) : Str :=
  "\x7b\"signal_type\": \"".toList ++ signal_type.toList ++ "\", \"causal_layer\": \"".toList ++
    causal_layer.toList ++ "\"\x7d".toList

/-- A change, its mechanism and its impact, as an agent might report them. -/
def annotatedAnswer : Str :=
  "[".toList ++ join ", ".toList [annotatedItem "deploy" "change",
    annotatedItem "event" "mechanism", annotatedItem "metric" "impact"] ++ "]".toList

/-- The agents answer with annotated evidence, the synthesizer with a hypothesis. -/
def annotatingEnv : Env Ask Answer := fun _ e =>
  match e with
  | .invoke call =>
    if call.role = "synthesis".toList then .ok "\x7b\"hypothesis\": \"the deploy\"\x7d".toList
    else .ok annotatedAnswer
  | e => calm e

def openSettings : Settings := ⟨.default, false, false, false, false, 3, 8000, []⟩

def annotatedInvestigation : Investigation :=
  ⟨"checkout is down".toList, [("aws".toList, plainAgent)], "u".toList, "s".toList, [], none⟩

def investigated : List Ev × Except Exn RCAResult :=
  run annotatingEnv [] (@run_investigation textValues asciiRuntime openSettings
    annotatedInvestigation)

def confidence_of (r : Except Exn RCAResult) : Option (Confidence × ℕ) :=
  match r with
  | .ok rca => some (rca.confidence, rca.evidence.length)
  | .error _ => none

set_option maxRecDepth 100000 in
theorem evidence_survives_sample :
    ¬ @Survives textValues asciiRuntime true "kubernetes".toList fullyAnnotated ∧
      ∃ rca, investigated.2 = .ok rca ∧ rca.evidence.length = 3 ∧ rca.confidence = .baixa := by
  have hresult : (confidence_of investigated.2).map Prod.snd = some 3 := by decide +kernel
  constructor
  · intro h
    have hdeployed := ((@evidence_survives_iff textValues asciiRuntime).1 _ _ _).mp h deployed
      (by simp [fullyAnnotated])
    exact absurd hdeployed.causal_layer (by decide)
  · cases hrun : investigated.2 with
    | error x =>
      rw [hrun] at hresult
      cases hresult
    | ok rca =>
      rw [hrun] at hresult
      have hpath : Path (@run_investigation textValues asciiRuntime openSettings
          annotatedInvestigation) _ (.ok rca) := path_of_run hrun
      refine ⟨rca, rfl, by simpa [confidence_of] using hresult, ?_⟩
      exact (@evidence_survives_iff textValues asciiRuntime).2 _ _ _ rca hpath

/-- A change, its mechanism and its impact score HIGH and come back without a layer. -/
theorem annotations_lost :
    score_confidence fullyAnnotated = (.HIGH, .A) ∧
      ¬ ∀ evidences : List (Evidence Str),
        @Survives textValues asciiRuntime true "kubernetes".toList evidences := by
  constructor
  · decide +kernel
  · intro h
    have hdeployed := (@survives_iff textValues _ _ _ _).mp (h fullyAnnotated) deployed
      (by simp [fullyAnnotated])
    exact absurd hdeployed.causal_layer (by decide)

end AigentSquad.RunInvestigation
