import AigentSquad.LoopProtocol

/-!
# Tool safety

What surrounds every tool execution of a run, how its result reaches the
messages, and that a raw result the guardrail blocks leaves no trace. The first
two are read off the traces of the silent loop and carried over to the streaming
one by the simulation. The last is a closure of both programs under replacing
blocked results.
-/

set_option autoImplicit false

namespace AigentSquad.ToolSafety
open AigentSquad.PyText AigentSquad.PyJson AigentSquad.Truncation AigentSquad.Interaction
open AigentSquad.Effects AigentSquad.AgenticLoop AigentSquad.AgenticLoopStreaming
open AigentSquad.Traces AigentSquad.LoopAgreement AigentSquad.LoopProtocol
open AigentSquad.Trimming

/-- The guardrail accepted the arguments and the breaker let the call through. -/
def cleared (ids : Ids) (adapter : McpAdapter) (args : Json) : Dialogue :=
  [⟨.guardrail_apply (dumps true args) .INPUT ids, Verdict.accepted⟩,
    ⟨.can_execute adapter.url, true⟩]

/-- The breaker is told and the guardrail gives its verdict on the raw result. -/
def screened (ids : Ids) (adapter : McpAdapter) (tool_name : Str) (o : ToolOutcome) (v : Verdict) :
    Dialogue :=
  records adapter.url o ++ [⟨.guardrail_apply (outcome_text adapter.name tool_name o) .OUTPUT ids, v⟩]

/-- Routes offered by the listings of a dialogue. -/
def listed (d : Dialogue) : List (ToolSpec × Str) :=
  d.flatMap (fun s => match s with
    | ⟨.list_tool_specs adapter, answer⟩ => contributed adapter answer
    | _ => [])

structure Cleared (a : RunArgs) (routes : Routes) (pre : Dialogue) (adapter : McpAdapter)
    (tool_name : Str) (args : Json) : Prop where
  checked : ∃ before, pre = before ++ cleared a.ids adapter args
  routed : resolve routes tool_name = some adapter.name
  known : adapter_by_name a.mcp_adapters adapter.name = some adapter

/-- The results hold the framed text of an execution that goes on with `post`. -/
def Entered (py : Runtime) (cfg : LoopConfig) (a : RunArgs) (results : List Block)
    (adapter : McpAdapter) (tool_name : Str) (args : Json) (o : ToolOutcome) (post : Dialogue) :
    Prop :=
  ∃ (u : ToolUse) (v : Verdict) (after : Dialogue),
    post = screened a.ids adapter tool_name o v ++ after ∧ u.name = tool_name ∧ u.input = args ∧
      .toolResult (executed_result py cfg u (redacted (outcome_text adapter.name tool_name o) v)) ∈
        results

/-- Every execution of a dialogue is cleared, and its result is among `results`. -/
def Safe (py : Runtime) (cfg : LoopConfig) (a : RunArgs) (routes : Routes) (d : Dialogue)
    (results : List Block) : Prop :=
  ∀ pre adapter tool_name args o post, d = pre ++ ⟨.call_tool adapter tool_name args, o⟩ :: post →
    Cleared a routes pre adapter tool_name args ∧
      Entered py cfg a results adapter tool_name args o post

theorem append_eq_middle {α : Type} (c d pre post : List α) (x : α)
    (h : c ++ d = pre ++ x :: post) :
    (∃ mid, c = pre ++ x :: mid ∧ post = mid ++ d) ∨ ∃ mid, pre = c ++ mid ∧ d = mid ++ x :: post := by
  rcases List.append_eq_append_iff.mp h with ⟨mid, rfl, hd⟩ | ⟨mid, rfl, hd⟩
  · exact .inr ⟨mid, rfl, hd⟩
  · cases mid with
    | nil => exact .inr ⟨[], by simp, by simpa using hd.symm⟩
    | cons y mid =>
      simp only [List.cons_append, List.cons.injEq] at hd
      obtain ⟨rfl, rfl⟩ := hd
      exact .inl ⟨mid, rfl, rfl⟩

section Rules
variable {py : Runtime} {cfg : LoopConfig} {a : RunArgs} {routes : Routes}

theorem Cleared.prepend {pre : Dialogue} {adapter : McpAdapter} {tool_name : Str} {args : Json}
    (c : Dialogue) (h : Cleared a routes pre adapter tool_name args) :
    Cleared a routes (c ++ pre) adapter tool_name args := by
  obtain ⟨before, rfl⟩ := h.checked
  exact ⟨⟨c ++ before, by simp⟩, h.routed, h.known⟩

theorem Entered.extend {results more : List Block} {adapter : McpAdapter} {tool_name : Str}
    {args : Json} {o : ToolOutcome} {post : Dialogue} (d : Dialogue)
    (hsub : ∀ b ∈ results, b ∈ more)
    (h : Entered py cfg a results adapter tool_name args o post) :
    Entered py cfg a more adapter tool_name args o (post ++ d) := by
  obtain ⟨u, v, after, rfl, hname, hargs, hmem⟩ := h
  exact ⟨u, v, after ++ d, by simp, hname, hargs, hsub _ hmem⟩

theorem safe_nil : Safe py cfg a routes [] [] := by
  intro pre adapter tool_name args o post h
  cases pre <;> cases h

theorem Safe.append {c d : Dialogue} {rs ss : List Block} (hc : Safe py cfg a routes c rs)
    (hd : Safe py cfg a routes d ss) : Safe py cfg a routes (c ++ d) (rs ++ ss) := by
  intro pre adapter tool_name args o post h
  rcases append_eq_middle c d pre post _ h with ⟨mid, hmid, rfl⟩ | ⟨mid, rfl, hmid⟩
  · obtain ⟨hclear, henter⟩ := hc _ _ _ _ _ _ hmid
    exact ⟨hclear, henter.extend d (fun b hb => List.mem_append_left _ hb)⟩
  · obtain ⟨hclear, henter⟩ := hd _ _ _ _ _ _ hmid
    refine ⟨hclear.prepend c, ?_⟩
    simpa using henter.extend [] (fun b hb => List.mem_append_right _ hb)

end Rules

theorem safe_of_idle (py : Runtime) (cfg : LoopConfig) (a : RunArgs) (routes : Routes)
    (d : Dialogue) (results : List Block) (h : ∀ s ∈ d, topic s ≠ .execution) :
    Safe py cfg a routes d results := by
  intro pre adapter tool_name args o post hd
  exact absurd rfl (h ⟨.call_tool adapter tool_name args, o⟩ (by simp [hd]))

theorem adapter_by_name_name (adapters : List McpAdapter) (name : Str) (adapter : McpAdapter)
    (h : adapter_by_name adapters name = some adapter) : adapter.name = name := by
  have := List.find?_some h
  simpa using this

theorem call_trace_safe (py : Runtime) (cfg : LoopConfig) (a : RunArgs) (routes : Routes)
    (u : ToolUse) (d : Dialogue) (out : ToolResult × List Str)
    (h : CallTrace py cfg a routes u d out) :
    Safe py cfg a routes d [.toolResult out.1] := by
  cases h with
  | blocked _ => exact safe_of_idle _ _ _ _ _ _ (by simp [topic])
  | not_found _ => exact safe_of_idle _ _ _ _ _ _ (by simp [topic])
  | routed hroute hpool v =>
    cases hpool with
    | missing _ => exact safe_of_idle _ _ _ _ _ _ (by simp [topic])
    | refused _ => exact safe_of_idle _ _ _ _ _ _ (by simp [topic])
    | @executed adapter hadapter outcome =>
      have hname := adapter_by_name_name _ _ _ hadapter
      subst hname
      intro pre ad tool_name args o post h
      have hsplit : cleared a.ids adapter u.input ++
          ⟨.call_tool adapter u.name u.input, outcome⟩ ::
            screened a.ids adapter u.name outcome v =
          pre ++ ⟨.call_tool ad tool_name args, o⟩ :: post := by
        simpa [cleared, screened] using h
      rcases append_eq_middle _ _ _ _ _ hsplit with ⟨mid, hmid, _⟩ | ⟨mid, rfl, hmid⟩
      · have hmem : (⟨.call_tool ad tool_name args, o⟩ : Sigma Answer) ∈
            cleared a.ids adapter u.input := by simp [hmid]
        simp [cleared] at hmem
      · cases mid with
        | nil =>
          simp only [List.nil_append, List.cons.injEq, Sigma.mk.injEq, Ask.call_tool.injEq] at hmid
          obtain ⟨⟨⟨rfl, rfl, rfl⟩, ho⟩, rfl⟩ := hmid
          obtain rfl := eq_of_heq ho
          exact ⟨⟨⟨[], rfl⟩, hroute, hadapter⟩, u, v, [], by simp, rfl, rfl, by simp⟩
        | cons x mid =>
          simp only [List.cons_append, List.cons.injEq] at hmid
          have hmem : (⟨.call_tool ad tool_name args, o⟩ : Sigma Answer) ∈
              screened a.ids adapter u.name outcome v := by simp [hmid.2]
          simp only [screened, List.mem_append, List.mem_singleton] at hmem
          rcases hmem with hmem | hmem
          · cases records_topic _ _ _ hmem
          · cases hmem

theorem calls_trace_safe (py : Runtime) (cfg : LoopConfig) (a : RunArgs) (routes : Routes)
    (us : List ToolUse) (d : Dialogue) (out : List ToolResult × List Str)
    (h : CallsTrace py cfg a routes us d out) :
    Safe py cfg a routes d (out.1.map Block.toolResult) := by
  induction h with
  | nil => exact safe_nil
  | cons head _ ih => exact (call_trace_safe py cfg a routes _ _ _ head).append ih

def last_content (ms : List Message) : List Block := (ms.getLast?.map Message.content).getD []

/-- The tools executed since the last converse call have their framed results
in the last message. -/
def Shown (py : Runtime) (cfg : LoopConfig) (a : RunArgs) (pre : Dialogue) (ms : List Message) :
    Prop :=
  ∀ front adapter tool_name args o mid, pre = front ++ ⟨.call_tool adapter tool_name args, o⟩ :: mid →
    (∀ s ∈ mid, topic s ≠ .model) →
    Entered py cfg a (last_content ms) adapter tool_name args o mid

/-- How the part `d` of a dialogue that goes on from `hist` treats its tools. -/
structure SafePart (py : Runtime) (cfg : LoopConfig) (a : RunArgs) (routes : Routes)
    (hist d : Dialogue) : Prop where
  executions : ∀ pre adapter tool_name args o post,
    d = pre ++ ⟨.call_tool adapter tool_name args, o⟩ :: post →
    Cleared a routes (hist ++ pre) adapter tool_name args
  calls : ∀ pre call answer post, d = pre ++ ⟨.converse call, answer⟩ :: post →
    Shown py cfg a (hist ++ pre) call.messages

section Runs
variable {py : Runtime} {cfg : LoopConfig} {a : RunArgs}

theorem shown_of_idle (d : Dialogue) (ms : List Message) (hd : ∀ s ∈ d, topic s ≠ .execution) :
    Shown py cfg a d ms := by
  intro front adapter tool_name args o mid h
  exact absurd rfl (hd ⟨.call_tool adapter tool_name args, o⟩ (by simp [h]))

theorem Shown.idle {hist : Dialogue} {ms : List Message} (d : Dialogue)
    (hd : ∀ s ∈ d, topic s ≠ .execution) (h : Shown py cfg a hist ms) :
    Shown py cfg a (hist ++ d) ms := by
  intro front adapter tool_name args o mid hsplit hmid
  rcases append_eq_middle _ _ _ _ _ hsplit with ⟨m, hm, rfl⟩ | ⟨m, rfl, hm⟩
  · have hbefore := h _ _ _ _ _ _ hm (fun s hs => hmid s (by simp [hs]))
    exact hbefore.extend d (fun b hb => hb)
  · exact absurd rfl (hd ⟨.call_tool adapter tool_name args, o⟩ (by simp [hm]))

theorem Shown.trimmed {hist : Dialogue} {ms : List Message} (h : Shown py cfg a hist ms) :
    Shown py cfg a hist (trimmed py cfg ms) := by
  have hlast : last_content (AgenticLoop.trimmed py cfg ms) = last_content ms := by
    rw [last_content, AgenticLoop.trimmed, trim_last, last_content]
  intro front adapter tool_name args o mid hsplit hmid
  rw [hlast]
  exact h _ _ _ _ _ _ hsplit hmid

/-- After a converse call only the executions of the following turn count. -/
theorem shown_after_call (routes : Routes) (hist d : Dialogue) (call : ConverseCall)
    (answer : Except Exn Response) (ms : List Message)
    (h : Safe py cfg a routes d (last_content ms)) :
    Shown py cfg a (hist ++ ⟨.converse call, answer⟩ :: d) ms := by
  intro front adapter tool_name args o mid hsplit hmid
  rcases append_eq_middle _ _ _ _ _ hsplit with ⟨m, hm, rfl⟩ | ⟨m, rfl, hm⟩
  · exact absurd rfl (hmid ⟨.converse call, answer⟩ (by simp))
  · cases m with
    | nil =>
      simp only [List.nil_append, List.cons.injEq, Sigma.mk.injEq] at hm
      cases hm.1.1
    | cons s m =>
      simp only [List.cons_append, List.cons.injEq] at hm
      exact (h _ _ _ _ _ _ hm.2).2

theorem after_turn_content (st : LoopState) (ms : List Message) (resp : Response)
    (out : List ToolResult × List Str) :
    last_content (after_turn st ms resp out).messages = out.1.map Block.toolResult := by
  simp [last_content, after_turn]

theorem SafePart.append {routes : Routes} {hist c d : Dialogue}
    (hc : SafePart py cfg a routes hist c) (hd : SafePart py cfg a routes (hist ++ c) d) :
    SafePart py cfg a routes hist (c ++ d) := by
  constructor
  · intro pre adapter tool_name args o post h
    rcases append_eq_middle _ _ _ _ _ h with ⟨mid, hmid, _⟩ | ⟨mid, rfl, hmid⟩
    · exact hc.executions _ _ _ _ _ _ hmid
    · rw [← List.append_assoc]
      exact hd.executions _ _ _ _ _ _ hmid
  · intro pre call answer post h
    rcases append_eq_middle _ _ _ _ _ h with ⟨mid, hmid, _⟩ | ⟨mid, rfl, hmid⟩
    · exact hc.calls _ _ _ _ hmid
    · rw [← List.append_assoc]
      exact hd.calls _ _ _ _ hmid

theorem safe_part_idle (routes : Routes) (hist d : Dialogue)
    (hd : ∀ s ∈ d, topic s ≠ .execution ∧ topic s ≠ .model) :
    SafePart py cfg a routes hist d := by
  constructor
  · intro pre adapter tool_name args o post h
    exact absurd rfl (hd ⟨.call_tool adapter tool_name args, o⟩ (by simp [h])).1
  · intro pre call answer post h
    exact absurd rfl (hd ⟨.converse call, answer⟩ (by simp [h])).2

theorem safe_part_call (routes : Routes) (hist : Dialogue) (call : ConverseCall)
    (answer : Except Exn Response) (h : Shown py cfg a hist call.messages) :
    SafePart py cfg a routes hist [⟨.converse call, answer⟩] := by
  constructor
  · intro pre adapter tool_name args o post hsplit
    have hmem : (⟨.call_tool adapter tool_name args, o⟩ : Sigma Answer) ∈
        [(⟨.converse call, answer⟩ : Sigma Answer)] := by simp [hsplit]
    simp at hmem
  · intro pre call' answer' post hsplit
    cases pre with
    | nil =>
      simp only [List.nil_append, List.cons.injEq, Sigma.mk.injEq, Ask.converse.injEq] at hsplit
      rw [← hsplit.1.1]
      simpa using h
    | cons s pre => simp at hsplit

theorem safe_part_tools (routes : Routes) (hist d : Dialogue) (results : List Block)
    (h : Safe py cfg a routes d results) (htalk : ToolTalk d) :
    SafePart py cfg a routes hist d := by
  constructor
  · intro pre adapter tool_name args o post hd
    exact (h _ _ _ _ _ _ hd).1.prepend hist
  · intro pre call answer post hd
    exact absurd (htalk ⟨.converse call, answer⟩ (by simp [hd])) (by simp [topic])

theorem loop_trace_safe (specs : List (ToolSpec × Str)) (loop_start : ℚ) (left : Nat)
    (st : LoopState) (hist d : Dialogue) (r : Except Exn (Str × List Message))
    (h : LoopTrace py cfg a specs loop_start left st d r)
    (hst : Shown py cfg a hist st.messages) :
    SafePart py cfg a (routes_of specs) hist d ∧
      ∀ answer ms, r = .ok (answer, ms) → Shown py cfg a (hist ++ d) ms := by
  have clock : ∀ now : ℚ, ∀ s ∈ [(⟨.time, now⟩ : Sigma Answer)],
      topic s ≠ .execution ∧ topic s ≠ .model := by simp [topic]
  have opening : ∀ (st : LoopState) (hist : Dialogue) (now : ℚ) (answer : Except Exn Response),
      Shown py cfg a hist st.messages →
      SafePart py cfg a (routes_of specs) hist ([⟨.time, now⟩] ++ [⟨.converse
        (converse_call a (tool_config_of specs) (trimmed py cfg st.messages)), answer⟩]) := by
    intro st hist now answer hst
    refine (safe_part_idle _ _ _ (clock now)).append (safe_part_call _ _ _ _ ?_)
    exact (hst.idle _ (fun s hs => (clock now s hs).1)).trimmed
  induction h generalizing hist with
  | @exhausted left st now r _ hr =>
    refine ⟨safe_part_idle _ _ _ (clock now), ?_⟩
    rintro answer ms rfl
    rw [degraded_answer_messages cfg st _ answer ms hr]
    exact hst.idle _ (fun s hs => (clock now s hs).1)
  | failed _ => exact ⟨opening _ _ _ _ hst, fun answer ms h => by cases h⟩
  | @answered left st now resp _ _ =>
    refine ⟨opening _ _ _ _ hst, fun answer ms h => ?_⟩
    have hidle : Safe py cfg a [] [] (last_content ms) := safe_of_idle _ _ _ _ _ _ (by simp)
    have hcall := shown_after_call [] (hist ++ [⟨.time, now⟩]) []
      (converse_call a (tool_config_of specs) (trimmed py cfg st.messages)) (.ok resp) ms hidle
    simpa using hcall
  | @turn left st now resp calls rest out r _ _ hcalls _ ih =>
    have hsafe := calls_trace_safe py cfg a _ _ _ _ hcalls
    have htalk := calls_trace_talk py cfg a _ _ _ _ hcalls
    have hturn := (opening st hist now (.ok resp) hst).append
      (safe_part_tools _ _ _ _ hsafe htalk)
    have hnext : Shown py cfg a (hist ++ ([⟨.time, now⟩] ++ [⟨.converse
        (converse_call a (tool_config_of specs) (trimmed py cfg st.messages)), .ok resp⟩] ++ calls))
        (after_turn st (trimmed py cfg st.messages) resp out).messages := by
      have := shown_after_call (routes_of specs) (hist ++ [⟨.time, now⟩]) calls
        (converse_call a (tool_config_of specs) (trimmed py cfg st.messages)) (.ok resp)
        (after_turn st (trimmed py cfg st.messages) resp out).messages
        (by rw [after_turn_content]; exact hsafe)
      simpa using this
    obtain ⟨hrest, hend⟩ := ih _ hnext
    refine ⟨by simpa using hturn.append hrest, fun answer ms h => ?_⟩
    simpa using hend answer ms h

end Runs

theorem listed_append (c d : Dialogue) : listed (c ++ d) = listed c ++ listed d :=
  List.flatMap_append

theorem listed_elsewhere (d : Dialogue) (h : ∀ s ∈ d, topic s ≠ .listing) : listed d = [] := by
  refine List.flatMap_eq_nil_iff.mpr (fun s hs => ?_)
  obtain ⟨e, answer⟩ := s
  cases e with
  | list_tool_specs adapter => exact absurd rfl (h _ hs)
  | _ => rfl

theorem listed_listing (adapters : List McpAdapter) (d : Dialogue) (specs : List (ToolSpec × Str))
    (h : ListTrace adapters d specs) : listed d = specs := by
  induction h with
  | nil => rfl
  | cons answer _ ih => exact congrArg (contributed _ answer ++ ·) ih

/-- A tool is executed only when cleared, by a name the listings so far offer,
and every converse call shows the results of the turn before it. -/
structure SafeDialogue (py : Runtime) (cfg : LoopConfig) (a : RunArgs) (d : Dialogue) : Prop where
  executions : ∀ pre adapter tool_name args o post,
    d = pre ++ ⟨.call_tool adapter tool_name args, o⟩ :: post →
    Cleared a (routes_of (listed pre)) pre adapter tool_name args
  calls : ∀ pre call answer post, d = pre ++ ⟨.converse call, answer⟩ :: post →
    Shown py cfg a pre call.messages

theorem SafeDialogue.of_prefix {py : Runtime} {cfg : LoopConfig} {a : RunArgs} {d rest : Dialogue}
    (h : SafeDialogue py cfg a (d ++ rest)) : SafeDialogue py cfg a d := by
  constructor
  · rintro pre adapter tool_name args o post rfl
    exact h.executions pre adapter tool_name args o (post ++ rest) (by simp)
  · rintro pre call answer post rfl
    exact h.calls pre call answer (post ++ rest) (by simp)

theorem run_trace_safe (py : Runtime) (cfg : LoopConfig) (a : RunArgs) (d : Dialogue)
    (r : Except Exn (Str × List Message)) (h : RunTrace py cfg a d r) :
    SafeDialogue py cfg a d ∧ ∀ answer ms, r = .ok (answer, ms) → Shown py cfg a d ms := by
  obtain ⟨loop_start, listing, specs, body, rfl, hlist, hloop⟩ := h.split
  have hstart : ∀ s ∈ (⟨.time, loop_start⟩ :: listing : Dialogue),
      topic s ≠ .execution ∧ topic s ≠ .model := by
    intro s hs
    rcases List.mem_cons.mp hs with rfl | hs
    · simp [topic]
    · simp [list_trace_topic _ _ _ hlist s hs]
  obtain ⟨hbody, hend⟩ := loop_trace_safe specs loop_start _ _ (⟨.time, loop_start⟩ :: listing) body r
    hloop (shown_of_idle _ _ (fun s hs => (hstart s hs).1))
  have hall := (safe_part_idle (routes_of specs) [] _ hstart).append hbody
  refine ⟨⟨?_, fun pre call answer post hd => hall.calls pre call answer post hd⟩, hend⟩
  intro pre adapter tool_name args o post hd
  have hclear := hall.executions pre adapter tool_name args o post hd
  rcases append_eq_middle _ _ _ _ _ hd with ⟨mid, hmid, _⟩ | ⟨mid, rfl, hmid⟩
  · exact absurd rfl (hstart ⟨.call_tool adapter tool_name args, o⟩ (by simp [hmid])).1
  · have hnone : listed mid = [] := listed_elsewhere mid
      (fun s hs => loop_trace_topic _ _ _ _ _ _ _ _ _ hloop s (by simp [hmid, hs]))
    have hlisted : listed (⟨.time, loop_start⟩ :: listing ++ mid) = specs := by
      rw [listed_append, hnone, List.append_nil]
      exact congrArg ([] ++ ·) (listed_listing _ _ _ hlist)
    rwa [hlisted]

/-- What the streaming loop asks is the beginning of a dialogue of the silent one. -/
theorem streaming_path_prefix (py : Runtime) (cfg : LoopConfig) (thinks : Bool) (a : RunArgs)
    (tr : List Ev) (r : Except Exn Unit)
    (h : Path (run_agentic_loop_streaming py cfg thinks a) tr r) :
    ∃ full out rest, Path (run_agentic_loop py cfg a) full out ∧ asks full = asks tr ++ rest := by
  have hsim : Sim (fun _ _ => True) (Agree (fun _ => True)) (run_agentic_loop py cfg a)
      (run_agentic_loop_streaming py cfg thinks a) :=
    run_sim py cfg thinks a (fun _ => trivial) (.inl trivial)
  obtain ⟨rest, pre, _, hpre, hpath⟩ := hsim.path_prefix h (fun _ _ => trivial)
  obtain ⟨suf, out, hsuf⟩ := exists_path rest
  exact ⟨pre ++ suf, out, asks suf, hpath suf out hsuf, by simp [hpre]⟩

/-- Two event lists that differ only in raw tool results: on the left one the
guardrail blocked, on the right one it blocked too or the redaction notice. -/
inductive SameButBlocked (ids : Ids) : List Ev → List Ev → Prop
  | nil : SameButBlocked ids [] []
  | same (e : Ev) {tr tr' : List Ev} (h : SameButBlocked ids tr tr') :
      SameButBlocked ids (e :: tr) (e :: tr')
  | blocked (adapter : McpAdapter) (tool_name : Str) (args : Json) (o o' : ToolOutcome)
      (reason : Str) (categories : List Str) (v : Verdict)
      (hv : redacted (outcome_text adapter.name tool_name o') v = redaction_notice)
      {tr tr' : List Ev} (h : SameButBlocked ids tr tr') :
      SameButBlocked ids
        (heard (⟨.call_tool adapter tool_name args, o⟩ ::
          screened ids adapter tool_name o (.blocked reason categories)) ++ tr)
        (heard (⟨.call_tool adapter tool_name args, o'⟩ ::
          screened ids adapter tool_name o' v) ++ tr')

section Blocked
variable {ids : Ids}

theorem same_but_blocked_keeps (e : Ev)
    (he : ∀ adapter tool_name args o, e ≠ .asked (.call_tool adapter tool_name args) o) :
    Keeps (SameButBlocked ids) e := by
  intro tr tr' h
  generalize hl : e :: tr = l at h
  cases h with
  | nil => cases hl
  | same e' h =>
    obtain ⟨rfl, rfl⟩ := List.cons.inj hl
    exact ⟨_, rfl, h⟩
  | blocked adapter tool_name args o o' reason categories v hv h =>
    exact absurd (List.cons.inj hl).1 (he adapter tool_name args o)

theorem SameButBlocked.after {tr tr' : List Ev} (pre : List Ev)
    (h : SameButBlocked ids tr tr') : SameButBlocked ids (pre ++ tr) (pre ++ tr') := by
  induction pre with
  | nil => exact h
  | cons e pre ih => exact .same e ih

theorem converse_calls_screened (adapter : McpAdapter) (tool_name : Str) (args : Json)
    (o : ToolOutcome) (v : Verdict) (tr : List Ev) :
    converse_calls (heard (⟨.call_tool adapter tool_name args, o⟩ ::
      screened ids adapter tool_name o v) ++ tr) = converse_calls tr := by
  cases o <;> rfl

theorem same_but_blocked_view (tr tr' : List Ev) (h : SameButBlocked ids tr tr') :
    converse_calls tr' = converse_calls tr ∧ emits tr' = emits tr := by
  induction h with
  | nil => exact ⟨rfl, rfl⟩
  | same e _ ih =>
    cases e with
    | emitted o => exact ⟨ih.1, congrArg (o :: ·) ih.2⟩
    | asked e answer =>
      refine ⟨?_, ih.2⟩
      cases e with
      | converse call => exact congrArg (call :: ·) ih.1
      | _ => exact ih.1
  | blocked adapter tool_name args o o' reason categories v hv _ ih =>
    rw [converse_calls_screened, converse_calls_screened, emits_append, emits_append, emits_heard,
      emits_heard]
    exact ⟨ih.1, congrArg ([] ++ ·) ih.2⟩

theorem keeps_ask (e : Ask) (he : ∀ adapter tool_name args, e ≠ .call_tool adapter tool_name args)
    (answer : Answer e) : Keeps (SameButBlocked ids) (.asked e answer) := by
  refine same_but_blocked_keeps _ (fun adapter tool_name args o h => ?_)
  exact he adapter tool_name args (Event.asked.inj h).1

theorem keeps_emit (o : StepEvent) : Keeps (SameButBlocked ids) (.emitted o) :=
  same_but_blocked_keeps _ (fun _ _ _ _ h => by cases h)

variable {α : Type}

/-- The verdict on the raw result, and what goes on with the redacted one. -/
theorem closed_verdict (raw : Str) (g : Str → M α)
    (hg : ∀ text, ClosedUnder (SameButBlocked ids) (g text)) :
    ClosedUnder (SameButBlocked ids)
      (.ask (.guardrail_apply raw .OUTPUT ids) (fun v => g (redacted raw v))) :=
  closed_ask _ _ (keeps_ask _ (by simp)) (fun _ => hg _)

theorem closed_record (url : Str) (o : ToolOutcome) :
    ClosedUnder (SameButBlocked ids) (record url o) := by
  cases o with
  | permission_error _ => exact closed_done _
  | _ => exact closed_ask _ _ (keeps_ask _ (by simp)) (fun _ => closed_done _)

theorem screened_path (adapter : McpAdapter) (tool_name : Str) (o : ToolOutcome) (g : Str → M α)
    (tr : List Ev) (r : Except Exn α) :
    Path ((record adapter.url o).bind (fun _ =>
      .ask (.guardrail_apply (outcome_text adapter.name tool_name o) .OUTPUT ids)
        (fun v => g (redacted (outcome_text adapter.name tool_name o) v)))) tr r ↔
    ∃ v tail, tr = heard (screened ids adapter tool_name o v) ++ tail ∧
      Path (g (redacted (outcome_text adapter.name tool_name o) v)) tail r := by
  constructor
  · intro h
    rcases (path_bind _ _ _ _).mp h with ⟨x, hx, _⟩ | ⟨_, tr₁, tr₂, rfl, h₁, h₂⟩
    · cases ((record_path _ _ _ _).mp hx).2
    · obtain ⟨rfl, _⟩ := (record_path _ _ _ _).mp h₁
      obtain ⟨v, tail, rfl, h₃⟩ := (path_ask _ _ _ _).mp h₂
      exact ⟨v, tail, by simp [screened], h₃⟩
  · rintro ⟨v, tail, rfl, h⟩
    rw [screened, heard_append, List.append_assoc]
    exact ((record_path _ _ _ _).mpr ⟨rfl, rfl⟩).bind_ok ((path_ask _ _ _ _).mpr ⟨v, tail, rfl, h⟩)

/-- The one place where the rewriting acts: an execution and its verdict are
rewritten together, and both raw results give the notice. -/
theorem closed_call_tool (adapter : McpAdapter) (tool_name : Str) (args : Json) (g : Str → M α)
    (hg : ∀ text, ClosedUnder (SameButBlocked ids) (g text)) :
    ClosedUnder (SameButBlocked ids) (.ask (.call_tool adapter tool_name args) (fun o =>
      (record adapter.url o).bind (fun _ =>
        .ask (.guardrail_apply (outcome_text adapter.name tool_name o) .OUTPUT ids)
          (fun v => g (redacted (outcome_text adapter.name tool_name o) v))))) := by
  intro tr r suf tr' hp hrel
  obtain ⟨o, rest, rfl, hrest⟩ := (path_ask _ _ _ _).mp hp
  generalize hl : Event.asked (Ask.call_tool adapter tool_name args) o :: rest ++ suf = l at hrel
  cases hrel with
  | nil => cases hl
  | same e h =>
    obtain ⟨rfl, rfl⟩ := List.cons.inj hl
    obtain ⟨tr₁, suf₁, rfl, hp₁, hsuf⟩ := closed_bind _ _ (closed_record _ o)
      (fun _ => closed_verdict _ g hg) rest r suf _ hrest h
    exact ⟨_, suf₁, rfl, .ask o hp₁, hsuf⟩
  | blocked adapter' tool_name' args' o₁ o' reason categories v' hv h =>
    simp only [heard_cons, List.cons_append, List.cons.injEq, Event.asked.injEq,
      Ask.call_tool.injEq] at hl
    obtain ⟨⟨⟨rfl, rfl, rfl⟩, ho⟩, htail⟩ := hl
    obtain rfl := eq_of_heq ho
    obtain ⟨v, tail, rfl, hg₁⟩ := (screened_path adapter tool_name o g rest r).mp hrest
    simp only [screened, heard_append, List.append_assoc, heard_cons, heard_nil,
      List.cons_append, List.nil_append, List.append_cancel_left_eq, List.cons.injEq,
      Event.asked.injEq, heq_eq_eq, true_and] at htail
    obtain ⟨rfl, rfl⟩ := htail
    obtain ⟨tail₁, suf₁, rfl, hp₁, hsuf⟩ := hg redaction_notice tail r suf _ hg₁ h
    refine ⟨_, suf₁, (List.append_assoc _ tail₁ suf₁).symm, ?_, hsuf⟩
    refine (path_ask _ _ _ _).mpr ⟨o', _, rfl, ?_⟩
    refine (screened_path adapter tool_name o' g _ r).mpr ⟨v', tail₁, rfl, ?_⟩
    rwa [hv]

theorem closed_execution (adapters : List McpAdapter) (adapter_name tool_name : Str) (args : Json)
    (g : Str → M α) (hg : ∀ text, ClosedUnder (SameButBlocked ids) (g text)) :
    ClosedUnder (SameButBlocked ids)
      ((pool_call_tool adapters adapter_name tool_name args).bind (fun raw =>
        .ask (.guardrail_apply raw .OUTPUT ids) (fun v => g (redacted raw v)))) := by
  cases h : adapter_by_name adapters adapter_name with
  | none =>
    rw [pool_call_tool_missing adapters adapter_name tool_name args h]
    exact closed_verdict _ g hg
  | some adapter =>
    have hname := adapter_by_name_name adapters adapter_name adapter h
    subst hname
    rw [pool_call_tool_found adapters adapter.name tool_name args adapter h, Prog.bind_ask]
    refine closed_ask _ _ (keeps_ask _ (by simp)) (fun closed => ?_)
    cases closed with
    | false => exact closed_verdict _ g hg
    | true =>
      simp only [if_true, Prog.bind_ask, Prog.bind_assoc, Prog.bind_ok]
      exact closed_call_tool adapter tool_name args g hg

theorem closed_yieldAll (es : List StepEvent) : ClosedUnder (SameButBlocked ids) (yieldAll es) := by
  induction es with
  | nil => exact closed_done _
  | cons e es ih => exact closed_emit _ _ (keeps_emit _) ih

theorem closed_list_specs (adapters : List McpAdapter) :
    ClosedUnder (SameButBlocked ids) (list_specs adapters) := by
  induction adapters with
  | nil => exact closed_done _
  | cons adapter adapters ih =>
    rw [list_specs_cons]
    exact closed_ask _ _ (keeps_ask _ (by simp))
      (fun _ => closed_bind _ _ ih (fun _ => closed_done _))

theorem closed_tool_call (py : Runtime) (cfg : LoopConfig) (a : RunArgs) (routes : Routes)
    (u : ToolUse) : ClosedUnder (SameButBlocked a.ids) (tool_call py cfg a routes u) := by
  rw [tool_call_eq]
  refine closed_ask _ _ (keeps_ask _ (by simp)) (fun verdict => ?_)
  split
  · cases resolve routes u.name with
    | none => exact closed_done _
    | some adapter_name =>
      exact closed_execution _ _ _ _ (fun text => .done (.ok (executed_result py cfg u text, [])))
        (fun _ => closed_done _)
  · exact closed_done _

theorem closed_tool_call_streaming (py : Runtime) (cfg : LoopConfig) (a : RunArgs)
    (routes : Routes) (u : ToolUse) :
    ClosedUnder (SameButBlocked a.ids) (tool_call_streaming py cfg a routes u) := by
  cases hs : sanitize_args_for_display py u.input with
  | error e =>
    rw [tool_call_streaming_error py cfg a routes u e hs]
    exact closed_done _
  | ok args_display =>
    rw [tool_call_streaming_ok py cfg a routes u args_display hs]
    refine closed_emit _ _ (keeps_emit _) (closed_ask _ _ (keeps_ask _ (by simp)) (fun v => ?_))
    split
    · cases resolve routes u.name with
      | none => exact closed_emit _ _ (keeps_emit _) (closed_done _)
      | some adapter_name =>
        exact closed_execution _ _ _ _
          (fun text => .emit (.StepToolResult u.name (summarize_tool_result py text))
            (.done (.ok (executed_result py cfg u text, []))))
          (fun _ => closed_emit _ _ (keeps_emit _) (closed_done _))
    · exact closed_emit _ _ (keeps_emit _) (closed_done _)

theorem closed_tool_calls (py : Runtime) (cfg : LoopConfig) (a : RunArgs) (routes : Routes)
    (us : List ToolUse) : ClosedUnder (SameButBlocked a.ids) (tool_calls py cfg a routes us) := by
  induction us with
  | nil => exact closed_done _
  | cons u us ih =>
    rw [tool_calls_cons]
    exact closed_bind _ _ (closed_tool_call py cfg a routes u)
      (fun _ => closed_bind _ _ ih (fun _ => closed_done _))

theorem closed_tool_calls_streaming (py : Runtime) (cfg : LoopConfig) (a : RunArgs)
    (routes : Routes) (us : List ToolUse) :
    ClosedUnder (SameButBlocked a.ids) (tool_calls_streaming py cfg a routes us) := by
  induction us with
  | nil => exact closed_done _
  | cons u us ih =>
    rw [tool_calls_streaming_cons]
    exact closed_bind _ _ (closed_tool_call_streaming py cfg a routes u)
      (fun _ => closed_bind _ _ ih (fun _ => closed_done _))

theorem closed_degraded (cfg : LoopConfig) (st : LoopState) (elapsed : ℚ) :
    ClosedUnder (SameButBlocked ids) (degraded_answer cfg st elapsed) := by
  obtain ⟨r, hr⟩ := degraded_answer_done cfg st elapsed
  rw [hr]
  exact closed_done r

theorem closed_loop (py : Runtime) (cfg : LoopConfig) (a : RunArgs)
    (specs : List (ToolSpec × Str)) (loop_start : ℚ) (left : Nat) (st : LoopState) :
    ClosedUnder (SameButBlocked a.ids) (loop py cfg a specs loop_start left st) := by
  induction left generalizing st with
  | zero =>
    rw [loop_zero]
    exact closed_ask _ _ (keeps_ask _ (by simp)) (fun _ => closed_degraded cfg st _)
  | succ left ih =>
    rw [loop_succ]
    refine closed_ask _ _ (keeps_ask _ (by simp)) (fun now => ?_)
    split
    · refine closed_ask _ _ (keeps_ask _ (by simp)) (fun answer => ?_)
      cases answer with
      | error e => exact closed_done _
      | ok resp =>
        show ClosedUnder _ (respond py cfg a specs loop_start left st _ resp)
        unfold respond
        split
        · exact closed_done _
        · split
          · exact closed_done _
          · exact closed_bind _ _ (closed_tool_calls py cfg a _ _) (fun _ => ih _)
    · exact closed_degraded cfg st _

theorem closed_loop_streaming (py : Runtime) (cfg : LoopConfig) (thinks : Bool) (a : RunArgs)
    (specs : List (ToolSpec × Str)) (loop_start : ℚ) (left : Nat) (st : LoopState) :
    ClosedUnder (SameButBlocked a.ids)
      (loop_streaming py cfg thinks a specs loop_start left st) := by
  induction left generalizing st with
  | zero =>
    rw [loop_streaming_zero]
    exact closed_ask _ _ (keeps_ask _ (by simp)) (fun _ => closed_yieldAll _)
  | succ left ih =>
    rw [loop_streaming_succ]
    refine closed_ask _ _ (keeps_ask _ (by simp)) (fun now => ?_)
    split
    · split
      · exact closed_done _
      · refine closed_ask _ _ (keeps_ask _ (by simp)) (fun answer => ?_)
        cases answer with
        | error e => exact closed_done _
        | ok resp =>
          refine closed_bind _ _ (closed_yieldAll _) (fun _ => ?_)
          unfold respond_streaming
          split
          · exact closed_yieldAll _
          · split
            · exact closed_yieldAll _
            · exact closed_bind _ _ (closed_tool_calls_streaming py cfg a _ _) (fun _ => ih _)
    · exact closed_yieldAll _

theorem closed_run (py : Runtime) (cfg : LoopConfig) (a : RunArgs) :
    ClosedUnder (SameButBlocked a.ids) (run_agentic_loop py cfg a) := by
  rw [run_agentic_loop_eq]
  exact closed_ask _ _ (keeps_ask _ (by simp)) (fun _ => closed_bind _ _ (closed_list_specs _)
    (fun _ => closed_loop py cfg a _ _ _ _))

theorem closed_run_streaming (py : Runtime) (cfg : LoopConfig) (thinks : Bool) (a : RunArgs) :
    ClosedUnder (SameButBlocked a.ids) (run_agentic_loop_streaming py cfg thinks a) := by
  rw [run_agentic_loop_streaming_eq]
  exact closed_ask _ _ (keeps_ask _ (by simp)) (fun _ => closed_bind _ _ (closed_list_specs _)
    (fun _ => closed_loop_streaming py cfg thinks a _ _ _ _))

/-- Rewriting blocked raw results of a whole run gives a run that ends alike
and looks the same to the model and to the client. -/
theorem blocked_indistinguishable {p : M α} (hp : ClosedUnder (SameButBlocked ids) p)
    (tr tr' : List Ev) (r : Except Exn α) (h : Path p tr r) (hrel : SameButBlocked ids tr tr') :
    Path p tr' r ∧ converse_calls tr' = converse_calls tr ∧ emits tr' = emits tr := by
  obtain ⟨tr₁, suf₁, rfl, hpath, hsuf⟩ := hp tr r [] tr' h (by simpa using hrel)
  generalize hnil : ([] : List Ev) = l at hsuf
  cases hsuf with
  | nil => exact ⟨by simpa using hpath, same_but_blocked_view tr _ hrel⟩
  | same e _ => cases hnil
  | blocked => cases hnil

end Blocked

/-- Both loops execute only cleared tools, show their framed results, and hide
blocked raw results from every later converse call and event. -/
theorem tool_safety (py : Runtime) (cfg : LoopConfig) (thinks : Bool) (a : RunArgs) :
    (∀ tr r, Path (run_agentic_loop py cfg a) tr r → SafeDialogue py cfg a (asks tr) ∧
      (∀ answer ms, r = .ok (answer, ms) → Shown py cfg a (asks tr) ms) ∧
      ∀ tr', SameButBlocked a.ids tr tr' → Path (run_agentic_loop py cfg a) tr' r ∧
        converse_calls tr' = converse_calls tr ∧ emits tr' = emits tr) ∧
    (∀ tr r, Path (run_agentic_loop_streaming py cfg thinks a) tr r →
      SafeDialogue py cfg a (asks tr) ∧
      ∀ tr', SameButBlocked a.ids tr tr' →
        Path (run_agentic_loop_streaming py cfg thinks a) tr' r ∧
        converse_calls tr' = converse_calls tr ∧ emits tr' = emits tr) := by
  constructor
  · intro tr r h
    obtain ⟨hsafe, hend⟩ := run_trace_safe py cfg a _ r (run_path_trace py cfg a tr r h)
    exact ⟨hsafe, hend, fun tr' => blocked_indistinguishable (closed_run py cfg a) tr tr' r h⟩
  · intro tr r h
    obtain ⟨full, out, rest, hfull, hasks⟩ := streaming_path_prefix py cfg thinks a tr r h
    have hsafe := (run_trace_safe py cfg a _ out (run_path_trace py cfg a full out hfull)).1
    rw [hasks] at hsafe
    exact ⟨hsafe.of_prefix, fun tr' =>
      blocked_indistinguishable (closed_run_streaming py cfg thinks a) tr tr' r h⟩

def podSpecs : List (ToolSpec × Str) := [(⟨"get_pods".toList, "list pods".toList, .obj []⟩, k8s.name)]

def wantsPods : Response := ⟨"tool_use".toList, [.tool_use getPods], ⟨10, 5⟩⟩

def saysPods : Response := ⟨"end_turn".toList, [.text "3 pods".toList], ⟨20, 5⟩⟩

/-- The state after one turn whose tool returned `o` and met the verdict `v`. -/
def podState (o : ToolOutcome) (v : Verdict) : LoopState :=
  after_turn (initial_state sampleArgs)
    (trimmed asciiRuntime .default (initial_state sampleArgs).messages) wantsPods
    ([executed_result asciiRuntime .default getPods
      (redacted (outcome_text k8s.name getPods.name o) v)], [])

def podCall (messages : List Message) : ConverseCall :=
  converse_call sampleArgs (tool_config_of podSpecs) (trimmed asciiRuntime .default messages)

def podOpening : Dialogue :=
  [⟨.time, (0 : ℚ)⟩, ⟨.list_tool_specs k8s, .ok (podSpecs.map Prod.fst)⟩, ⟨.time, (0 : ℚ)⟩,
    ⟨.converse (podCall (initial_state sampleArgs).messages), .ok wantsPods⟩] ++
  cleared sampleArgs.ids k8s getPods.input

def podEnding (st : LoopState) : Dialogue :=
  [⟨.time, (0 : ℚ)⟩, ⟨.converse (podCall st.messages), .ok saysPods⟩]

def podDialogue (o : ToolOutcome) (v : Verdict) : Dialogue :=
  podOpening ++ ((⟨.call_tool k8s getPods.name getPods.input, o⟩ ::
    screened sampleArgs.ids k8s getPods.name o v) ++ podEnding (podState o v))

theorem pod_call_trace (o : ToolOutcome) (v : Verdict) :
    CallTrace asciiRuntime .default sampleArgs (routes_of podSpecs) getPods
      (cleared sampleArgs.ids k8s getPods.input ++ (⟨.call_tool k8s getPods.name getPods.input, o⟩ ::
        screened sampleArgs.ids k8s getPods.name o v))
      (executed_result asciiRuntime .default getPods
        (redacted (outcome_text k8s.name getPods.name o) v), []) := by
  have hpool : PoolTrace [k8s] k8s.name getPods.name getPods.input
      (⟨.can_execute k8s.url, true⟩ :: ⟨.call_tool k8s getPods.name getPods.input, o⟩ ::
        records k8s.url o) (outcome_text k8s.name getPods.name o) := .executed rfl o
  have hcall := @CallTrace.routed asciiRuntime .default sampleArgs (routes_of podSpecs) getPods _ _ _
    (by decide) hpool v
  simpa [cleared, screened] using hcall

theorem pod_trace (o : ToolOutcome) (v : Verdict) :
    RunTrace asciiRuntime .default sampleArgs (podDialogue o v)
      (.ok (answer_text saysPods, trimmed asciiRuntime .default (podState o v).messages)) := by
  have hclock : elapsed_ms 0 0 < (LoopConfig.default.MAX_LOOP_DURATION_MS : ℚ) := by
    norm_num [elapsed_ms, LoopConfig.default]
  have hfirst := (budget_left_iff .default (initial_state sampleArgs) _).mpr ⟨hclock, by decide⟩
  have hsecond := (budget_left_iff .default (podState o v) _).mpr
    ⟨hclock, show (0 + (10 + 5) : Int) < 300000 by decide⟩
  have hanswers : ¬ requests_tools saysPods := fun h => absurd h.1 (by decide)
  have hrequests : requests_tools wantsPods := ⟨rfl, List.cons_ne_nil _ _⟩
  have hcalls := CallsTrace.cons (pod_call_trace o v) .nil
  have hrest := @LoopTrace.answered asciiRuntime .default sampleArgs podSpecs 0 6 (podState o v) 0
    saysPods hsecond hanswers
  have hloop := @LoopTrace.turn asciiRuntime .default sampleArgs podSpecs 0 7
    (initial_state sampleArgs) 0 wantsPods _ _ _ _ hfirst hrequests hcalls hrest
  refine ⟨0, [⟨.list_tool_specs k8s, .ok (podSpecs.map Prod.fst)⟩], podSpecs, _, ?_,
    .cons (.ok (podSpecs.map Prod.fst)) .nil, hloop⟩
  simp [podDialogue, podOpening, podEnding, podCall]

def leak : ToolOutcome := .result "password=hunter2".toList

def blockedVerdict : Verdict := .blocked "denied".toList ["pii".toList]

theorem pod_dialogues_same (o o' : ToolOutcome) (reason : Str) (categories : List Str) (v : Verdict)
    (hv : redacted (outcome_text k8s.name getPods.name o') v = redaction_notice) :
    SameButBlocked sampleArgs.ids (heard (podDialogue o (.blocked reason categories)))
      (heard (podDialogue o' v)) := by
  have hstate : podState o (.blocked reason categories) = podState o' v := by
    rw [podState, podState, hv, redacted]
  have hrest : SameButBlocked sampleArgs.ids (heard (podEnding (podState o' v)))
      (heard (podEnding (podState o' v))) := by
    simpa using SameButBlocked.nil.after (heard (podEnding (podState o' v)))
  rw [podDialogue, podDialogue, heard_append, heard_append, hstate, heard_append, heard_append]
  exact (SameButBlocked.blocked k8s _ _ o o' reason categories v hv hrest).after (heard podOpening)

/-- A run with a blocked raw result, and the run that saw the notice instead. -/
theorem tool_safety_blocked :
    SafeDialogue asciiRuntime .default sampleArgs (podDialogue leak blockedVerdict) ∧
      ∃ r, Path (run_agentic_loop asciiRuntime .default sampleArgs)
        (heard (podDialogue (.result redaction_notice) .accepted)) r := by
  have hpath := run_trace_path _ _ _ _ _ (pod_trace leak blockedVerdict)
  obtain ⟨hsafe, _, hblocked⟩ :=
    (tool_safety asciiRuntime .default false sampleArgs).1 _ _ hpath
  refine ⟨by simpa using hsafe, _, (hblocked _ ?_).1⟩
  exact pod_dialogues_same leak _ _ _ .accepted rfl

end AigentSquad.ToolSafety
