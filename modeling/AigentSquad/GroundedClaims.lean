import AigentSquad.SummaryText
import AigentSquad.TrimStability

/-!
# Claims after trimming

The groundedness check reads the messages a run ends with, where old results are
summaries. A claim that no result stated is still reported unless a summary
states it, and a summary does so only through what the model wrote itself: the
tool name and the arguments.
-/

set_option autoImplicit false

namespace AigentSquad.GroundedClaims
open AigentSquad.PyText AigentSquad.PyJson AigentSquad.Truncation AigentSquad.Trimming
open AigentSquad.Interaction AigentSquad.Effects AigentSquad.AgenticLoop AigentSquad.Traces
open AigentSquad.LoopAgreement AigentSquad.TrimStability AigentSquad.ResponseQuality
open AigentSquad.Regex AigentSquad.CaseFolding AigentSquad.Evidence AigentSquad.SummaryText

/-- The result texts as first appended: every message list of a run ends in the
message appended last, which trimming leaves alone. -/
def first_appended (calls : List ConverseCall) (ms : List Message) : List Str :=
  (calls.map ConverseCall.messages ++ [ms]).flatMap
    (fun l => l.getLast?.toList.flatMap result_texts)

/-- A claim no result stated, as the check compares them, is reported. -/
structure OverFlags (py : Runtime) (calls : List ConverseCall) (ms : List Message)
    (response : Str) : Prop where
  resource_ids : ∀ w ∈ findall py.word (RESOURCE_ID_PATTERN py) response,
    (∀ t ∈ first_appended calls ms, isIn (lower py w) (lower py t) = false) →
    w ∈ find_ungrounded_resource_ids py response (extract_tool_result_text ms)
  figures : ∀ w ∈ findall py.word (NUMERIC_CLAIM_PATTERN py) response,
    (∀ t ∈ first_appended calls ms, isIn w t = false) →
    w ∈ check_numeric_groundedness py response (extract_tool_result_text ms)

/-- The results the trimmer replaced by a summary between two calls in a row,
each with the tool use its header names. -/
def summarized (cfg : LoopConfig) (calls : List ConverseCall) : List ((Str × Json) × Str) :=
  if !cfg.CONTEXT_TRIM_ENABLED then []
  else calls.flatMap (fun earlier => calls.flatMap (fun later =>
    if later.messages.length = earlier.messages.length + 2 then
      (indices_to_trim later.messages cfg.CONTEXT_KEEP_LAST_N).flatMap (fun i =>
        (earlier.messages[i]?).toList.flatMap (fun m => (result_items m).map (fun item =>
          (find_paired_tool_use later.messages i item.1, item.2))))
    else []))

theorem mem_summarized (cfg : LoopConfig) (calls : List ConverseCall)
    (henabled : cfg.CONTEXT_TRIM_ENABLED = true) (earlier later : ConverseCall)
    (hearlier : earlier ∈ calls) (hlater : later ∈ calls)
    (hnext : later.messages.length = earlier.messages.length + 2) (i : Nat)
    (hi : i ∈ indices_to_trim later.messages cfg.CONTEXT_KEEP_LAST_N) (m : Message)
    (hm : earlier.messages[i]? = some m) (id text : Str) (hitem : (id, text) ∈ result_items m) :
    (find_paired_tool_use later.messages i id, text) ∈ summarized cfg calls := by
  rw [summarized, henabled, if_neg (by simp)]
  refine List.mem_flatMap.mpr ⟨earlier, hearlier, List.mem_flatMap.mpr ⟨later, hlater, ?_⟩⟩
  rw [if_pos hnext]
  refine List.mem_flatMap.mpr ⟨i, hi, List.mem_flatMap.mpr ⟨m, by simp [hm], ?_⟩⟩
  exact List.mem_map.mpr ⟨(id, text), hitem, rfl⟩

/-- No summary of the run brings in a claim of the response that no result stated. -/
structure SummariesSilent (py : Runtime) (cfg : LoopConfig) (calls : List ConverseCall)
    (ms : List Message) (response : Str) : Prop where
  resource_ids : ∀ w ∈ findall py.word (RESOURCE_ID_PATTERN py) response,
    (∀ t ∈ first_appended calls ms, isIn (lower py w) (lower py t) = false) →
    ∀ s ∈ summarized cfg calls, AddsNothing (lower py) SteadyLower (lower py w) s.1 s.2
  figures : ∀ w ∈ findall py.word (NUMERIC_CLAIM_PATTERN py) response,
    (∀ t ∈ first_appended calls ms, isIn w t = false) →
    ∀ s ∈ summarized cfg calls, AddsNothing id (fun _ => True) w s.1 s.2

theorem trimmed_items (py : Runtime) (ms : List Message) (idx : Nat) (m : Message) (t : Str)
    (h : t ∈ result_texts (trim_message py ms idx m)) :
    ∃ id text, (id, text) ∈ result_items m ∧ t = summarize_for_context py
      (find_paired_tool_use ms idx id).1 (find_paired_tool_use ms idx id).2 text := by
  obtain ⟨⟨id, t⟩, hitem, rfl⟩ := List.mem_map.mp h
  obtain ⟨block', hblock', hin⟩ := List.mem_flatMap.mp hitem
  obtain ⟨block, hblock, rfl⟩ := List.mem_map.mp hblock'
  cases block with
  | text t => cases hin
  | toolUse u => cases hin
  | toolResult r =>
    simp only [trim_block, trim_result, block_items, List.mem_map, List.mem_filterMap,
      Prod.mk.injEq] at hin
    obtain ⟨t', ⟨item', ⟨item, hmem, rfl⟩, htext⟩, rfl, rfl⟩ := hin
    cases item with
    | other => cases htext
    | text text =>
      simp only [trim_item, item_text, Option.some.injEq] at htext
      refine ⟨r.toolUseId, text, List.mem_flatMap.mpr ⟨_, hblock, ?_⟩, htext.symm⟩
      exact List.mem_map.mpr ⟨text, List.mem_filterMap.mpr ⟨_, hmem, rfl⟩, rfl⟩

/-- A result of a turn is a framed text or one of the two refusals. -/
theorem calls_trace_results (P : Str → Prop)
    (hframed : ∀ name text, P (framed_result name text))
    (hblocked : ∀ name : Str,
      P (['['] ++ name ++ "] blocked: arguments failed guardrail check".toList))
    (hnot_found : ∀ name : Str,
      P (['['] ++ name ++ "] error: tool not found in any adapter".toList))
    (py : Runtime) (cfg : LoopConfig) (a : RunArgs) (routes : Routes) (us : List ToolUse)
    (d : Dialogue) (out : List ToolResult × List Str) (h : CallsTrace py cfg a routes us d out) :
    ∀ r ∈ out.1, ∀ t ∈ r.content.filterMap item_text, P t := by
  induction h with
  | nil => simp
  | @cons u us d ds out outs head _ ih =>
    refine List.forall_mem_cons.mpr ⟨?_, ih⟩
    cases head with
    | blocked _ =>
      simp only [blocked_result, error_tool_result, List.filterMap_cons, item_text,
        List.filterMap_nil, List.mem_singleton, forall_eq]
      exact hblocked u.name
    | not_found _ =>
      simp only [not_found_result, error_tool_result, List.filterMap_cons, item_text,
        List.filterMap_nil, List.mem_singleton, forall_eq]
      exact hnot_found u.name
    | routed _ _ _ =>
      simp only [executed_result, List.filterMap_cons, item_text, List.filterMap_nil,
        List.mem_singleton, forall_eq]
      exact hframed u.name _

theorem calls_trace_by_lines (py : Runtime) (cfg : LoopConfig) (a : RunArgs) (routes : Routes)
    (us : List ToolUse) (d : Dialogue) (out : List ToolResult × List Str)
    (h : CallsTrace py cfg a routes us d out) :
    ∀ r ∈ out.1, ∀ t ∈ r.content.filterMap item_text, ReadByLines py t := by
  apply calls_trace_results (ReadByLines py) _ _ _ py cfg a routes us d out h
  · exact fun name text => framed_by_lines py name text
  · exact fun name => refusal_by_lines py name _ 'k' (by decide) (by decide) (by decide)
  · exact fun name => refusal_by_lines py name _ 'r' (by decide) (by decide) (by decide)

section
variable {py : Runtime} {fold : Str → Str} {steady : Str → Prop}

def Lined (py : Runtime) (m : Message) : Prop := ∀ t ∈ result_texts m, ReadByLines py t

def Silent (fold : Str → Str) (w : Str) (m : Message) : Prop :=
  ∀ t ∈ result_texts m, ¬ w <:+: fold t

/-- One trimming keeps silent messages silent. -/
theorem trimmed_silent (hf : Folding py fold steady) (w : Str) (hw : Claimed w) (cfg : LoopConfig)
    (ms : List Message) (hms : ∀ m ∈ ms, Lined py m ∧ Silent fold w m)
    (hadds : cfg.CONTEXT_TRIM_ENABLED = true →
      ∀ i ∈ indices_to_trim ms cfg.CONTEXT_KEEP_LAST_N, ∀ m, ms[i]? = some m →
        ∀ id text, (id, text) ∈ result_items m →
          AddsNothing fold steady w (find_paired_tool_use ms i id) text) :
    ∀ m ∈ trimmed py cfg ms, Lined py m ∧ Silent fold w m := by
  intro m hm
  obtain ⟨i, hi⟩ := List.getElem?_of_mem hm
  rw [trimmed, trim_get] at hi
  split at hi
  · next h =>
    rw [Option.map_eq_some_iff] at hi
    obtain ⟨o, ho, rfl⟩ := hi
    obtain ⟨hlined, hsilent⟩ := hms o (List.mem_of_getElem? ho)
    constructor
    · intro t ht
      obtain ⟨id, text, _, rfl⟩ := trimmed_items py ms i o t ht
      exact summary_by_lines py _ text
    · intro t ht hin
      obtain ⟨id, text, hitem, rfl⟩ := trimmed_items py ms i o t ht
      have htext : text ∈ result_texts o := List.mem_map.mpr ⟨_, hitem, rfl⟩
      exact hsilent text htext (summary_adds_nothing hf w hw _ text (hlined text htext)
        (hadds h.1 i h.2 o ho id text hitem) hin)
  · exact hms m (List.mem_of_getElem? hi)

theorem silent_of_last (w : Str) (ms : List Message) (hsilent : ∀ m ∈ ms.dropLast, Silent fold w m)
    (hlast : ∀ m ∈ ms.getLast?, Silent fold w m) : ∀ m ∈ ms, Silent fold w m := by
  cases ms using List.reverseRecOn with
  | nil => simp
  | append_singleton ms x =>
    simp only [List.dropLast_concat] at hsilent
    simp only [List.getLast?_append, List.getLast?_singleton, Option.some_or, Option.mem_def,
      Option.some.injEq, forall_eq'] at hlast
    exact List.forall_mem_append.mpr ⟨hsilent, by simpa using hlast⟩

/-- The state between two calls: nothing but the last results can state `w`. -/
structure Held (py : Runtime) (fold : Str → Str) (w : Str) (calls : List ConverseCall)
    (ms : List Message) : Prop where
  grown : ms.length ≤ 2 ∨ ∃ earlier ∈ calls, ∃ x y, ms = earlier.messages ++ [x, y]
  lined : ∀ m ∈ ms, Lined py m
  silent : ∀ m ∈ ms.dropLast, Silent fold w m

theorem call_silent (hf : Folding py fold steady) (w : Str) (hw : Claimed w) (cfg : LoopConfig)
    (calls : List ConverseCall)
    (hadds : ∀ s ∈ summarized cfg calls, AddsNothing fold steady w s.1 s.2)
    (ms : List Message) (hms : Held py fold w calls ms)
    (hlast : ∀ m ∈ ms.getLast?, Silent fold w m) (call : ConverseCall) (hcall : call ∈ calls)
    (hmessages : call.messages = trimmed py cfg ms) :
    ∀ m ∈ trimmed py cfg ms, Lined py m ∧ Silent fold w m := by
  have hall := silent_of_last w ms hms.silent hlast
  refine trimmed_silent hf w hw cfg ms (fun m hm => ⟨hms.lined m hm, hall m hm⟩) ?_
  intro henabled i hi m hm id text hitem
  have hlt := ((mem_tool_result_indices ms i).mp (indices_to_trim_subset ms _ i hi)).1
  rcases hms.grown with hshort | ⟨earlier, hearlier, x, y, rfl⟩
  · omega
  · have hnext : call.messages.length = earlier.messages.length + 2 := by
      rw [hmessages, trimmed, trim_length]
      simp
    have hi' : i ∈ indices_to_trim call.messages cfg.CONTEXT_KEEP_LAST_N := by
      rwa [hmessages, trimmed, trim_indices]
    rw [List.getElem?_append_left (by simpa using hlt)] at hm
    have h := hadds _ (mem_summarized cfg calls henabled earlier call hearlier hcall hnext i hi' m
      hm id text hitem)
    rwa [hmessages, trimmed, find_paired_of_spoken _ _ i id (trim_spoken py cfg _ _)] at h

theorem assistant_texts (blocks : List ContentBlock) :
    result_texts ⟨.assistant, to_converse_assistant_blocks blocks⟩ = [] := by
  have hblock : ∀ b ∈ to_converse_assistant_blocks blocks, block_items b = [] := by
    intro b hb
    obtain ⟨c, _, hc⟩ := List.mem_filterMap.mp hb
    cases c with
    | text t => cases hc; rfl
    | tool_use u => cases hc; rfl
    | reasoning t => cases hc
    | unknown raw => cases hc
  rw [result_texts, List.map_eq_nil_iff]
  exact List.flatMap_eq_nil_iff.mpr hblock

theorem user_texts (results : List ToolResult) :
    result_texts ⟨.user, results.map Block.toolResult⟩ =
      results.flatMap (fun r => r.content.filterMap item_text) := by
  rw [result_texts, result_items, List.flatMap_map, List.map_flatMap]
  simp [block_items, Function.comp_def]

/-- From a held state on, no message a run ends with states `w`. -/
theorem loop_trace_silent (hf : Folding py fold steady) (w : Str) (hw : Claimed w)
    (cfg : LoopConfig) (a : RunArgs) (specs : List (ToolSpec × Str)) (loop_start : ℚ) (left : Nat)
    (st : LoopState) (d : Dialogue) (r : Except Exn (Str × List Message))
    (h : LoopTrace py cfg a specs loop_start left st d r) (calls : List ConverseCall)
    (hcalls : ∀ call answer, (⟨.converse call, answer⟩ : Sigma Answer) ∈ d → call ∈ calls)
    (hadds : ∀ s ∈ summarized cfg calls, AddsNothing fold steady w s.1 s.2)
    (answer : Str) (ms : List Message) (hr : r = .ok (answer, ms))
    (hlast : ∀ l ∈ calls.map ConverseCall.messages ++ [ms], ∀ m ∈ l.getLast?, Silent fold w m)
    (hheld : Held py fold w calls st.messages) : ∀ m ∈ ms, Silent fold w m := by
  have hcall : ∀ (st : LoopState) (call : ConverseCall), Held py fold w calls st.messages →
      call ∈ calls → call.messages = trimmed py cfg st.messages →
      ∀ m ∈ trimmed py cfg st.messages, Lined py m ∧ Silent fold w m := by
    intro st call hheld hmem hmessages
    refine call_silent hf w hw cfg calls hadds st.messages hheld (fun m hm => ?_) call hmem hmessages
    refine hlast call.messages (by simp; exact .inl ⟨call, hmem, rfl⟩) m ?_
    rw [hmessages, trimmed, trim_last]
    exact hm
  induction h with
  | exhausted _ hdone =>
    subst hr
    have hms := degraded_answer_messages cfg _ _ answer ms hdone
    subst hms
    exact silent_of_last w _ hheld.silent (hlast _ (by simp))
  | failed _ => cases hr
  | @answered left st now resp hb hresp =>
    simp only [Except.ok.injEq, Prod.mk.injEq] at hr
    obtain ⟨_, rfl⟩ := hr
    have hmem := hcalls _ _ (List.mem_cons_of_mem _ (List.mem_cons_self ..))
    exact fun m hm => (hcall st _ hheld hmem rfl m hm).2
  | @turn left st now resp turn rest out r hb hresp hturn _ ih =>
    have hmem := hcalls _ _ (List.mem_cons_of_mem _ (List.mem_cons_self ..))
    have htrimmed := hcall st _ hheld hmem rfl
    refine ih (fun call answer hin => hcalls call answer ?_) hr ?_
    · simp [hin]
    · have hlines := calls_trace_by_lines py cfg a _ _ _ _ hturn
      refine ⟨.inr ⟨_, hmem, _, _, rfl⟩, fun m hm => ?_, fun m hm => ?_⟩
      · simp only [after_turn, List.mem_append, List.mem_cons, List.not_mem_nil, or_false] at hm
        rcases hm with hm | rfl | rfl
        · exact (htrimmed m hm).1
        · simp [Lined, assistant_texts]
        · intro t ht
          rw [user_texts, List.mem_flatMap] at ht
          obtain ⟨r, hr, ht⟩ := ht
          exact hlines r hr t ht
      · simp only [after_turn, List.dropLast_append_cons, List.dropLast_cons_cons,
          List.dropLast_singleton, List.mem_append, List.mem_singleton] at hm
        rcases hm with hm | rfl
        · exact (htrimmed m hm).2
        · simp [Silent, assistant_texts]

end

/-- A claim no result stated is in no message a run ends with. -/
theorem run_silent {py : Runtime} {fold : Str → Str} {steady : Str → Prop}
    (hf : Folding py fold steady) (w : Str) (hw : Claimed w) (cfg : LoopConfig) (a : RunArgs)
    (tr : List Ev) (answer : Str) (ms : List Message)
    (h : Path (run_agentic_loop py cfg a) tr (.ok (answer, ms)))
    (hadds : ∀ s ∈ summarized cfg (converse_calls tr), AddsNothing fold steady w s.1 s.2)
    (hunseen : ∀ t ∈ first_appended (converse_calls tr) ms, ¬ w <:+: fold t) :
    ¬ w <:+: fold (extract_tool_result_text ms) := by
  obtain ⟨loop_start, listing, specs, body, hd, _, hloop⟩ :=
    (run_path_trace py cfg a tr _ h).split
  have hinit : Held py fold w (converse_calls tr) (initial_state a).messages := by
    refine ⟨.inl (by simp [initial_state]), ?_, by simp [initial_state]⟩
    simp [initial_state, Lined, result_texts, result_items, block_items]
  have hcalls : ∀ call answer, (⟨.converse call, answer⟩ : Sigma Answer) ∈ body →
      call ∈ converse_calls tr := by
    intro call answer hin
    exact (mem_converse_calls tr call).mpr ⟨answer, by simp [hd, hin]⟩
  have hlast : ∀ l ∈ (converse_calls tr).map ConverseCall.messages ++ [ms], ∀ m ∈ l.getLast?,
      Silent fold w m := by
    intro l hl m hm t ht
    refine hunseen t (List.mem_flatMap.mpr ⟨l, hl, List.mem_flatMap.mpr ⟨m, ?_, ht⟩⟩)
    simpa using hm
  have hsilent := loop_trace_silent hf w hw cfg a specs loop_start _ _ body _ hloop _ hcalls hadds
    answer ms rfl hlast hinit
  intro hin
  obtain ⟨m, hm, t, ht, hstated⟩ := claim_in_evidence hf w hw ms hin
  exact hsilent m hm t ht hstated

/-- Every claim of a response that no result of the run stated is reported,
unless a summary brought it in. -/
theorem trimming_over_flags (py : Runtime) (cfg : LoopConfig) (a : RunArgs) (tr : List Ev)
    (answer : Str) (ms : List Message)
    (h : Path (run_agentic_loop py cfg a) tr (.ok (answer, ms))) (response : Str)
    (hsilent : SummariesSilent py cfg (converse_calls tr) ms response) :
    OverFlags py (converse_calls tr) ms response := by
  constructor
  · intro w hw hunseen
    refine List.mem_filter.mpr ⟨hw, ?_⟩
    have hsilent := run_silent (lower_folding py) (lower py w) (resource_claimed py response w hw)
      cfg a tr answer ms h (hsilent.resource_ids w hw hunseen) (by simpa [isIn] using hunseen)
    simpa [isIn] using hsilent
  · intro w hw hunseen
    refine List.mem_filter.mpr ⟨hw, ?_⟩
    have hadds : ∀ s ∈ summarized cfg (converse_calls tr),
        AddsNothing id (fun w => w.getLast? ≠ some '.') w s.1 s.2 := by
      intro s hs
      have h := hsilent.figures w hw hunseen s hs
      exact ⟨h.name, h.args, fun _ => numeric_last py response w hw⟩
    have hsilent := run_silent (id_folding py) w (numeric_claimed py response w hw) cfg a tr answer
      ms h hadds (by simpa [isIn] using hunseen)
    simpa [isIn] using hsilent

instance (py : Runtime) (cfg : LoopConfig) (calls : List ConverseCall) (ms : List Message)
    (response : Str) : Decidable (SummariesSilent py cfg calls ms response) :=
  decidable_of_iff (_ ∧ _) ⟨fun h => ⟨h.1, h.2⟩, fun h => ⟨h.1, h.2⟩⟩

instance (py : Runtime) (calls : List ConverseCall) (ms : List Message) (response : Str) :
    Decidable (OverFlags py calls ms response) :=
  decidable_of_iff (_ ∧ _) ⟨fun h => ⟨h.1, h.2⟩, fun h => ⟨h.1, h.2⟩⟩

def sampleRun (env : Env Ask Answer) : List Ev × Except Exn (Str × List Message) :=
  run env [] (run_agentic_loop asciiRuntime keepOne sampleArgs)

def answered (r : Except Exn (Str × List Message)) : Str × List Message :=
  match r with
  | .ok out => out
  | .error _ => ([], [])

theorem sampleRun_path (env : Env Ask Answer) (h : (sampleRun env).2.isOk = true) :
    Path (run_agentic_loop asciiRuntime keepOne sampleArgs) (sampleRun env).1
      (.ok (answered (sampleRun env).2)) := by
  have hpath := run_path env [] (run_agentic_loop asciiRuntime keepOne sampleArgs)
  change Path _ (sampleRun env).1 (sampleRun env).2 at hpath
  generalize (sampleRun env).2 = r at h hpath ⊢
  cases r with
  | ok out => exact hpath
  | error e => cases h

def costAnswer : Str := "The pods cost $12.50.".toList

set_option maxRecDepth 100000 in
/-- After one result has been summarised an invented figure is still reported. -/
theorem trimming_over_flags_four_calls :
    (summarized keepOne (converse_calls (sampleRun (persistentEnv 7)).1)).length = 1 ∧
      OverFlags asciiRuntime (converse_calls (sampleRun (persistentEnv 7)).1)
        (answered (sampleRun (persistentEnv 7)).2).2 costAnswer :=
  ⟨by decide +kernel, trimming_over_flags _ _ _ _ (answered (sampleRun (persistentEnv 7)).2).1 _
    (sampleRun_path (persistentEnv 7) (by decide +kernel)) costAnswer (by decide +kernel)⟩

/-- The model guesses an instance and asks for it three times. -/
def guessed : ToolUse :=
  ⟨"t1".toList, "get_pods".toList, .obj [("node".toList, .str "i-0123456789abcdef0".toList)]⟩

def guessAnswer : Str := "i-0123456789abcdef0 is unhealthy".toList

def guessingEnv : Env Ask Answer := fun h e =>
  match e with
  | .converse call =>
    if call.messages.length < 7 then .ok ⟨"tool_use".toList, [.tool_use guessed], ⟨10, 5⟩⟩
    else .ok ⟨"end_turn".toList, [.text guessAnswer], ⟨20, 5⟩⟩
  | e => sampleEnv h e

set_option maxRecDepth 100000 in
/-- The summary of the first result repeats the guess, which no tool returned. -/
theorem guess_blessed :
    ¬ ∀ (py : Runtime) (cfg : LoopConfig) (a : RunArgs) (tr : List Ev) (answer : Str)
      (ms : List Message), Path (run_agentic_loop py cfg a) tr (.ok (answer, ms)) →
      ∀ response, OverFlags py (converse_calls tr) ms response := by
  intro hall
  have hpath := sampleRun_path guessingEnv (by decide +kernel)
  exact absurd (hall _ _ _ _ _ _ hpath guessAnswer) (by decide +kernel)

end AigentSquad.GroundedClaims
