import AigentSquad.GenericAgent
import AigentSquad.LoopAgreement

/-!
# When an answer is refused as ungrounded

The quality guard compares the resource ids of an answer with the tool results
the loop left in its messages. Where there are none, on the path without tools
above all, nothing is compared.
-/

set_option autoImplicit false

namespace AigentSquad.Groundedness
open AigentSquad.PyText AigentSquad.Regex AigentSquad.Truncation AigentSquad.Interaction
open AigentSquad.Effects AigentSquad.AgenticLoop AigentSquad.Evidence AigentSquad.Canary
open AigentSquad.ResponseQuality AigentSquad.GenericAgent AigentSquad.LoopAgreement

def RefusedUngrounded {α : Type} (r : Except Exn α) : Prop :=
  ∃ reason source categories, r = .error (.GuardrailBlockedError reason source categories) ∧
    ungrounded_category ∈ categories

/-- The answer gets as far as the comparison and states an id the evidence lacks. -/
structure Ungrounded (py : Runtime) (s : Settings) (answer : Str) (messages : List Message) :
    Prop where
  unleaked : OutputFilter.scan py s.output_filter_enabled answer = .ok ()
  enabled : s.response_quality_enabled = true
  long : ResponseQuality.MIN_RESPONSE_LENGTH ≤ answer.length
  evidence : extract_tool_result_text messages ≠ []
  invented : ∃ id ∈ findall py.word (RESOURCE_ID_PATTERN py) answer,
    isIn (lower py id) (lower py (extract_tool_result_text messages)) = false

def leak_block (py : Runtime) (answer : Str) : Exn :=
  .GuardrailBlockedError "blocked".toList "OUTPUT".toList
    ((OutputFilter.find_leaks py answer).map (fun d => "leak:".toList ++ d.1))

theorem output_filter_cases (py : Runtime) (enabled : Bool) (answer : Str) :
    OutputFilter.scan py enabled answer = .ok () ∨
      OutputFilter.scan py enabled answer = .error (leak_block py answer) := by
  unfold OutputFilter.scan
  by_cases henabled : (!enabled) = true
  · exact .inl (if_pos henabled)
  · by_cases hshort : answer.length < OutputFilter.MIN_RESPONSE_LENGTH
    · rw [if_neg henabled, if_pos hshort]
      exact .inl rfl
    · rw [if_neg henabled, if_neg hshort]
      by_cases hleak : (!(OutputFilter.find_leaks py answer).isEmpty) = true
      · rw [if_pos hleak]
        exact .inr rfl
      · rw [if_neg hleak]
        exact .inl rfl

theorem leak_categories (leaks : List (Str × Str)) :
    ungrounded_category ∉ leaks.map (fun d => "leak:".toList ++ d.1) := by
  intro hmem
  obtain ⟨d, _, hd⟩ := List.mem_map.mp hmem
  have hleak : ("leak:".toList ++ d.1).head? = some 'l' := rfl
  rw [hd] at hleak
  exact absurd hleak (by decide)

theorem leak_block_other (py : Runtime) (answer : Str) :
    ¬ RefusedUngrounded (.error (leak_block py answer) : Except Exn ConversationMessage) := by
  rintro ⟨reason, source, categories, h, hmem⟩
  simp only [leak_block, Except.error.injEq, Exn.GuardrailBlockedError.injEq] at h
  rw [← h.2.2] at hmem
  exact leak_categories _ hmem

theorem defect_names (py : Runtime) (text : Str) :
    ungrounded_category ∉ (find_defects py text).map (fun d => "quality:".toList ++ d.1) := by
  intro hmem
  obtain ⟨d, hd, heq⟩ := List.mem_map.mp hmem
  obtain ⟨p, hp, hfound⟩ := List.mem_filterMap.mp hd
  obtain ⟨m, _, rfl⟩ := Option.map_eq_some_iff.mp hfound
  have hsplit : ungrounded_category = "quality:".toList ++ "ungrounded_resource_id".toList := by
    decide
  rw [hsplit] at heq
  have hname : "ungrounded_resource_id".toList ∈ (PATTERNS py).map Prod.fst :=
    List.append_cancel_left heq ▸ List.mem_map_of_mem hp
  have hnames : (PATTERNS py).map Prod.fst = ["tool_scaffolding".toList,
      "raw_adapter_error".toList, "raw_traceback".toList, "raw_botocore_exception".toList,
      "raw_boto3_error_string".toList, "raw_taskgroup_exception".toList] := rfl
  rw [hnames] at hname
  revert hname
  decide

theorem blocked_ungrounded_iff (py : Runtime) (answer infra_data : Str) :
    ungrounded_category ∈ blocking_categories py answer infra_data ↔
      infra_data ≠ [] ∧ ∃ id ∈ findall py.word (RESOURCE_ID_PATTERN py) answer,
        isIn (lower py id) (lower py infra_data) = false := by
  have hids : find_ungrounded_resource_ids py answer infra_data ≠ [] ↔
      ∃ id ∈ findall py.word (RESOURCE_ID_PATTERN py) answer,
        isIn (lower py id) (lower py infra_data) = false := by
    simp only [find_ungrounded_resource_ids, ne_eq, List.filter_eq_nil_iff, not_forall,
      not_not, Bool.not_eq_true', exists_prop]
  rw [← hids, blocking_categories, List.mem_append]
  by_cases hblock : (!infra_data.isEmpty &&
      !(find_ungrounded_resource_ids py answer infra_data).isEmpty) = true
  · rw [if_pos hblock]
    simpa using hblock
  · rw [if_neg hblock]
    have hnone := defect_names py answer
    simp only [hnone, List.not_mem_nil, or_self, false_iff]
    intro h
    exact hblock (by simpa using h)

theorem quality_refused_iff (py : Runtime) (enabled : Bool) (answer infra_data : Str) :
    RefusedUngrounded (ResponseQuality.scan py enabled answer infra_data) ↔
      enabled = true ∧ ResponseQuality.MIN_RESPONSE_LENGTH ≤ answer.length ∧ infra_data ≠ [] ∧
        ∃ id ∈ findall py.word (RESOURCE_ID_PATTERN py) answer,
          isIn (lower py id) (lower py infra_data) = false := by
  rw [← blocked_ungrounded_iff]
  unfold ResponseQuality.scan
  cases enabled with
  | false => simp [RefusedUngrounded]
  | true =>
    by_cases hshort : answer.length < ResponseQuality.MIN_RESPONSE_LENGTH
    · simp [RefusedUngrounded, hshort]
    · have hlong : ResponseQuality.MIN_RESPONSE_LENGTH ≤ answer.length := by omega
      by_cases hblock : (blocking_categories py answer infra_data).isEmpty = true
      · have hnone : blocking_categories py answer infra_data = [] := List.isEmpty_iff.mp hblock
        simp only [Bool.not_true, Bool.false_eq_true, if_false, hshort, hnone, List.isEmpty_nil,
          List.not_mem_nil, and_false, iff_false]
        rintro ⟨_, _, _, h, _⟩
        by_cases hempty : infra_data.isEmpty = true
        · simp [hempty] at h
        · simp [hempty] at h
      · simp [RefusedUngrounded, hshort, hlong, hblock]

/-- The checks refuse an answer for its ids exactly when it is ungrounded. -/
theorem checked_refused_iff (py : Runtime) (s : Settings) (ag : Agent) (answer : Str)
    (messages : List Message) :
    RefusedUngrounded (checked py s ag answer messages) ↔ Ungrounded py s answer messages := by
  rcases output_filter_cases py s.output_filter_enabled answer with hok | hleak
  · have hquality := quality_refused_iff py s.response_quality_enabled answer
      (extract_tool_result_text messages)
    have hchecked : RefusedUngrounded (checked py s ag answer messages) ↔
        RefusedUngrounded (ResponseQuality.scan py s.response_quality_enabled answer
          (extract_tool_result_text messages)) := by
      unfold checked
      rw [hok]
      cases ResponseQuality.scan py s.response_quality_enabled answer
          (extract_tool_result_text messages) with
      | ok assessment =>
        constructor
        · rintro ⟨_, _, _, h, _⟩
          cases h
        · rintro ⟨_, _, _, h, _⟩
          cases h
      | error e =>
        constructor
        · rintro ⟨reason, source, categories, h, hmem⟩
          cases e with
          | GuardrailBlockedError _ _ _ =>
            cases h
            exact ⟨_, _, _, rfl, hmem⟩
          | _ => cases h
        · rintro ⟨reason, source, categories, h, hmem⟩
          cases h
          exact ⟨_, _, _, rfl, hmem⟩
    rw [hchecked, hquality]
    constructor
    · rintro ⟨henabled, hlong, hevidence, hinvented⟩
      exact ⟨hok, henabled, hlong, hevidence, hinvented⟩
    · intro h
      exact ⟨h.enabled, h.long, h.evidence, h.invented⟩
  · have hchecked : checked py s ag answer messages = .error (leak_block py answer) := by
      unfold checked
      rw [hleak]
      rfl
    rw [hchecked]
    constructor
    · intro h
      exact absurd h (leak_block_other py answer)
    · intro h
      have hok := h.unleaked
      rw [hleak] at hok
      cases hok

/-- The run gets an answer: its text and the messages of the loop, if there was one. -/
def Answered (py : Runtime) (s : Settings) (ag : Agent) (call : AgentCall) (tr : List Ev)
    (out : Str × List Message) : Prop :=
  (strip call.input_text).isEmpty = false ∧ ∃ input_text tr₀ tr₁, tr = tr₀ ++ tr₁ ∧
    Path (scanInput call.input_text (agent_ids ag call)) tr₀ (.ok input_text) ∧
    Path (answer_path py s ag call input_text (with_skills ag input_text)) tr₁ (.ok out)

theorem answered_path (py : Runtime) (s : Settings) (ag : Agent) (call : AgentCall)
    (tr : List Ev) (out : Str × List Message) (h : Answered py s ag call tr out) :
    Path (process_request py s ag call) tr (checked py s ag out.1 out.2) := by
  obtain ⟨hne, input_text, tr₀, tr₁, rfl, hscan, hanswer⟩ := h
  unfold process_request
  rw [if_neg (by simp [hne])]
  have hdone : Path (Prog.ofExcept (checked py s ag out.1 out.2) : M ConversationMessage) []
      (checked py s ag out.1 out.2) := .done _
  have hchecks := Path.bind_ok (f := fun out => Prog.ofExcept (checked py s ag out.1 out.2))
    hanswer hdone
  rw [List.append_nil] at hchecks
  exact hscan.bind_ok hchecks

/-- Once there is an answer the checks decide how the run ends. -/
theorem answered_result (py : Runtime) (s : Settings) (ag : Agent) (call : AgentCall)
    (tr : List Ev) (r : Except Exn ConversationMessage) (out : Str × List Message)
    (h : Path (process_request py s ag call) tr r) (ha : Answered py s ag call tr out) :
    r = checked py s ag out.1 out.2 :=
  (h.unique (u := []) (v := []) (answered_path py s ag call tr out ha) rfl).2

theorem collect_all_cons (adapter : DatasourceAdapter) (adapters : List DatasourceAdapter)
    (query : Str) :
    collect_all (adapter :: adapters) query = .ask (.collect adapter query) (fun context =>
      (collect_all adapters query).bind (fun contexts => .done (.ok (context :: contexts)))) := rfl

theorem collect_all_path (adapters : List DatasourceAdapter) (query : Str) (tr : List Ev)
    (r : Except Exn (List (Except Exn Str))) (h : Path (collect_all adapters query) tr r) :
    ∃ contexts, r = .ok contexts ∧
      ∀ c ∈ contexts, ∃ adapter, (⟨.collect adapter query, c⟩ : Sigma Answer) ∈ asks tr := by
  induction adapters generalizing tr r with
  | nil =>
    obtain ⟨rfl, rfl⟩ := (path_done _ _ _).mp h
    exact ⟨[], rfl, by simp⟩
  | cons adapter adapters ih =>
    rw [collect_all_cons, path_ask] at h
    obtain ⟨context, rest, rfl, hrest⟩ := h
    rcases (path_bind _ _ _ _).mp hrest with ⟨x, hx, _⟩ | ⟨contexts, tr₁, tr₂, rfl, h₁, h₂⟩
    · obtain ⟨_, hx, _⟩ := ih _ _ hx
      cases hx
    · obtain ⟨_, hok, hmem⟩ := ih _ _ h₁
      cases hok
      obtain ⟨rfl, rfl⟩ := (path_done _ _ _).mp h₂
      refine ⟨context :: contexts, rfl, ?_⟩
      intro c hc
      rcases List.mem_cons.mp hc with rfl | hc
      · exact ⟨adapter, by simp [asks]⟩
      · obtain ⟨ad, had⟩ := hmem c hc
        exact ⟨ad, by simp [asks, had]⟩

/-- A collection that failed or came back empty. -/
def Bare : Except Exn Str → Prop
  | .ok text => text = []
  | .error _ => True

/-- No context was collected before the loop. -/
def NothingCollected (tr : List Ev) : Prop :=
  ∀ (adapter : DatasourceAdapter) (query : Str) (answer : Except Exn Str),
    (⟨.collect adapter query, answer⟩ : Sigma Answer) ∈ asks tr → Bare answer

theorem collected_bare (contexts : List (Except Exn Str)) (h : ∀ c ∈ contexts, Bare c) :
    collected contexts = [] := by
  unfold collected
  rw [List.filterMap_eq_nil_iff.mpr]
  · rfl
  · intro c hc
    cases c with
    | error e => rfl
    | ok text =>
      have htext : text = [] := h _ hc
      simp [htext]

theorem detect_untracked (py : Runtime) (enabled : Bool) (threshold : Int)
    (response session_id : Str) :
    detect py enabled threshold response [] session_id = .done (.ok response) := by
  unfold detect
  rw [if_pos (by simp)]
  rfl

/-- With nothing collected beforehand the answer is the loop's. -/
theorem agentic_path_bare (py : Runtime) (s : Settings) (ag : Agent) (call : AgentCall)
    (input_text system_prompt : Str) (tr : List Ev) (out : Str × List Message)
    (h : Path (agentic_path py s ag call input_text system_prompt) tr (.ok out))
    (hbare : NothingCollected tr) :
    ∃ tr', Path (run_agentic_loop py s.loop
      (run_args s ag call input_text (agentic_system s system_prompt []))) tr' (.ok out) := by
  rcases (path_bind _ _ _ _).mp h with ⟨x, _, hx⟩ | ⟨contexts, tr₁, tr₂, rfl, hcollect, hrest⟩
  · cases hx
  · obtain ⟨_, hok, hmem⟩ := collect_all_path _ _ _ _ hcollect
    cases hok
    have hempty : collected contexts = [] := by
      apply collected_bare
      intro c hc
      obtain ⟨adapter, hadapter⟩ := hmem c hc
      exact hbare adapter input_text c (by simp [hadapter])
    rw [hempty] at hrest
    rcases (path_bind _ _ _ _).mp hrest with ⟨x, _, hx⟩ | ⟨infra, tr₃, tr₄, rfl, hinfra, hloop⟩
    · cases hx
    · obtain ⟨_, hnone⟩ := (path_done (.ok ([], [])) _ _).mp hinfra
      cases hnone
      rcases (path_bind _ _ _ _).mp hloop with ⟨x, _, hx⟩ | ⟨answer, tr₅, tr₆, rfl, hanswer, hend⟩
      · cases hx
      · rw [detect_untracked] at hend
        obtain ⟨_, hout⟩ := (path_done (.ok (answer.1, answer.2)) _ _).mp hend
        cases hout
        exact ⟨tr₅, hanswer⟩

theorem legacy_messages (py : Runtime) (s : Settings) (ag : Agent) (call : AgentCall)
    (input_text system_prompt : Str) (tr : List Ev) (out : Str × List Message)
    (htools : ag.has_agentic_tools = false)
    (h : Path (answer_path py s ag call input_text system_prompt) tr (.ok out)) : out.2 = [] := by
  unfold answer_path at h
  rw [if_neg (by simp [htools])] at h
  rcases (path_bind _ _ _ _).mp h with ⟨x, _, hx⟩ | ⟨response, tr₁, tr₂, rfl, _, hend⟩
  · cases hx
  · obtain ⟨_, hout⟩ := (path_done _ _ _).mp hend
    cases hout
    rfl

/-- The data a run collected, by adapters and by tools. -/
def infra_texts (tr : List Ev) : List Str :=
  (asks tr).filterMap (fun s => match s with
    | ⟨.collect _ _, .ok text⟩ => some text
    | ⟨.call_tool _ _ _, .result text⟩ => some text
    | _ => none)

/-- The answer states an id that no collected text has. -/
def Invented (py : Runtime) (tr : List Ev) (answer : Str) : Prop :=
  ∃ id ∈ findall py.word (RESOURCE_ID_PATTERN py) answer,
    ∀ text ∈ infra_texts tr, isIn (lower py id) (lower py text) = false

instance (py : Runtime) (tr : List Ev) (answer : Str) : Decidable (Invented py tr answer) :=
  inferInstanceAs (Decidable (∃ id ∈ _, ∀ text ∈ _, _))

def sampleSettings : Settings := ⟨.default, false, true, true, true, 3, 8000, []⟩

def sampleCall : AgentCall :=
  ⟨"which instances are down?".toList, "u".toList, "s".toList, [], none, none⟩

def inventedAnswer : Str := "i-0123456789abcdef0 is unhealthy".toList

/-- One tool turn or one collection, then an instance nobody reported. -/
def inventingEnv : Env Ask Answer := fun h e =>
  match e with
  | .converse call =>
    if call.messages.length = 1 then .ok ⟨"tool_use".toList, [.tool_use getPods], ⟨10, 5⟩⟩
    else .ok ⟨"end_turn".toList, [.text inventedAnswer], ⟨20, 5⟩⟩
  | .collect _ _ => .ok "no instances".toList
  | .invoke _ => .ok inventedAnswer
  | .scan_input text _ => .ok text
  | e => sampleEnv h e

def sampleAgent (adapter : DatasourceAdapter) : Agent :=
  ⟨"aws".toList, "be brief".toList, [adapter], 0, fun _ => []⟩

def toolAgent : Agent := sampleAgent (.mcp k8s ["get_pods".toList])

def plainAgent : Agent := sampleAgent (.other "aws".toList)

def answerRun (ag : Agent) : List Ev × Except Exn (Str × List Message) :=
  run inventingEnv [] (answer_path asciiRuntime sampleSettings ag sampleCall sampleCall.input_text
    (with_skills ag sampleCall.input_text))

def answeredBy (r : Except Exn (Str × List Message)) : Str × List Message :=
  match r with
  | .ok out => out
  | .error _ => ([], [])

def answerTrace (ag : Agent) : List Ev :=
  .asked (.scan_input sampleCall.input_text (agent_ids ag sampleCall))
    (.ok sampleCall.input_text) :: (answerRun ag).1

theorem sample_answered (ag : Agent) (h : (answerRun ag).2.isOk = true) :
    Answered asciiRuntime sampleSettings ag sampleCall (answerTrace ag)
      (answeredBy (answerRun ag).2) := by
  have hscan : Path (scanInput sampleCall.input_text (agent_ids ag sampleCall))
      [.asked (.scan_input sampleCall.input_text (agent_ids ag sampleCall))
        (.ok sampleCall.input_text)] (.ok sampleCall.input_text) := .ask _ (.done _)
  have hanswer := run_path inventingEnv [] (answer_path asciiRuntime sampleSettings ag sampleCall
    sampleCall.input_text (with_skills ag sampleCall.input_text))
  change Path _ (answerRun ag).1 (answerRun ag).2 at hanswer
  refine ⟨by decide, _, _, (answerRun ag).1, rfl, hscan, ?_⟩
  generalize (answerRun ag).2 = r at h hanswer ⊢
  cases r with
  | ok out => exact hanswer
  | error e => cases h

end AigentSquad.Groundedness
