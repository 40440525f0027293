import AigentSquad.LoopAgreement
import AigentSquad.LoopQuestions

/-!
# What a stream shows of rejected arguments

Two runs of the streaming loop whose surroundings answer alike, except that the
arguments the guardrail rejects may be others. Their events are the same exactly
when those arguments are displayed alike: a call is announced before its
arguments are checked.
-/

set_option autoImplicit false

namespace AigentSquad.RejectedArguments
open AigentSquad.PyText AigentSquad.PyJson AigentSquad.Truncation AigentSquad.Interaction
open AigentSquad.Postcondition AigentSquad.Effects AigentSquad.AgenticLoop
open AigentSquad.AgenticLoopStreaming AigentSquad.LoopAgreement AigentSquad.LoopQuestions
open AigentSquad.Regex

/-- The same block, but for the input of a tool use. -/
inductive SameBlock : ContentBlock → ContentBlock → Prop
  | same (b : ContentBlock) : SameBlock b b
  | tool_use (id name : Str) (input input' : Json) :
      SameBlock (.tool_use ⟨id, name, input⟩) (.tool_use ⟨id, name, input'⟩)

structure SameResponse (resp resp' : Response) : Prop where
  stop_reason : resp.stop_reason = resp'.stop_reason
  content : List.Forall₂ SameBlock resp.content resp'.content
  usage : resp.usage = resp'.usage

/-- Neither a model call nor a check of arguments. -/
def Elsewhere : Ask → Prop
  | .converse _ => False
  | .guardrail_apply _ .INPUT _ => False
  | _ => True

/-- Two dialogues with the same answers, but for the arguments of the calls the
guardrail rejects. First the requested calls still unchecked, then the rejected
arguments. What the model and the guardrail are shown follows from the runs. -/
inductive SameButRejected : List (ToolUse × ToolUse) → List (Json × Json) →
    List (Sigma Answer) → List (Sigma Answer) → Prop
  | nil (calls : List (ToolUse × ToolUse)) : SameButRejected calls [] [] []
  | same (s : Sigma Answer) (hs : Elsewhere s.1) {calls : List (ToolUse × ToolUse)}
      {rejected : List (Json × Json)} {d d' : List (Sigma Answer)}
      (h : SameButRejected calls rejected d d') :
      SameButRejected calls rejected (s :: d) (s :: d')
  | failed (call call' : ConverseCall) (exc : Exn) {calls : List (ToolUse × ToolUse)}
      {rejected : List (Json × Json)} {d d' : List (Sigma Answer)}
      (h : SameButRejected calls rejected d d') :
      SameButRejected calls rejected (⟨.converse call, .error exc⟩ :: d)
        (⟨.converse call', .error exc⟩ :: d')
  | response (call call' : ConverseCall) {resp resp' : Response} (hr : SameResponse resp resp')
      {calls : List (ToolUse × ToolUse)} {rejected : List (Json × Json)}
      {d d' : List (Sigma Answer)}
      (h : SameButRejected ((tool_use_blocks resp.content).zip (tool_use_blocks resp'.content))
        rejected d d') :
      SameButRejected calls rejected (⟨.converse call, .ok resp⟩ :: d)
        (⟨.converse call', .ok resp'⟩ :: d')
  | accepted (text text' : Str) (ids ids' : Ids) (u : ToolUse)
      {calls : List (ToolUse × ToolUse)} {rejected : List (Json × Json)}
      {d d' : List (Sigma Answer)} (h : SameButRejected calls rejected d d') :
      SameButRejected ((u, u) :: calls) rejected
        (⟨.guardrail_apply text .INPUT ids, Verdict.accepted⟩ :: d)
        (⟨.guardrail_apply text' .INPUT ids', Verdict.accepted⟩ :: d')
  | rejected (text text' : Str) (ids ids' : Ids) (u u' : ToolUse) (v : Verdict)
      (hv : v ≠ .accepted) {calls : List (ToolUse × ToolUse)} {rejected : List (Json × Json)}
      {d d' : List (Sigma Answer)} (h : SameButRejected calls rejected d d') :
      SameButRejected ((u, u') :: calls) ((u.input, u'.input) :: rejected)
        (⟨.guardrail_apply text .INPUT ids, v⟩ :: d)
        (⟨.guardrail_apply text' .INPUT ids', v⟩ :: d')

section Inversion
variable {calls : List (ToolUse × ToolUse)} {rejected : List (Json × Json)}
  {d d' : List (Sigma Answer)}

theorem SameButRejected.tail {e : Ask} {a a' : Answer e} (he : Elsewhere e)
    (h : SameButRejected calls rejected (⟨e, a⟩ :: d) (⟨e, a'⟩ :: d')) :
    a = a' ∧ SameButRejected calls rejected d d' := by
  cases h with
  | same s hs h => exact ⟨rfl, h⟩
  | failed call call' exc h => exact he.elim
  | response call call' hr h => exact he.elim
  | accepted text text' ids ids' u h => exact he.elim
  | rejected text text' ids ids' u u' v hv h => exact he.elim

theorem SameButRejected.answer {call call' : ConverseCall} {x x' : Except Exn Response}
    (h : SameButRejected calls rejected (⟨.converse call, x⟩ :: d) (⟨.converse call', x'⟩ :: d')) :
    (∃ exc, x = .error exc ∧ x' = .error exc ∧ SameButRejected calls rejected d d') ∨
      ∃ resp resp', x = .ok resp ∧ x' = .ok resp' ∧ SameResponse resp resp' ∧
        SameButRejected ((tool_use_blocks resp.content).zip (tool_use_blocks resp'.content))
          rejected d d' := by
  cases h with
  | same s hs h => exact hs.elim
  | failed call call' exc h => exact .inl ⟨exc, rfl, rfl, h⟩
  | response call call' hr h => exact .inr ⟨_, _, rfl, rfl, hr, h⟩

theorem SameButRejected.verdict {u u' : ToolUse} {text text' : Str} {ids ids' : Ids}
    {v v' : Verdict} (h : SameButRejected ((u, u') :: calls) rejected
      (⟨.guardrail_apply text .INPUT ids, v⟩ :: d)
      (⟨.guardrail_apply text' .INPUT ids', v'⟩ :: d')) :
    v = v' ∧ ((v = .accepted ∧ u = u' ∧ SameButRejected calls rejected d d') ∨
      (v ≠ .accepted ∧ ∃ rest, rejected = (u.input, u'.input) :: rest ∧
        SameButRejected calls rest d d')) := by
  cases h with
  | same s hs h => exact hs.elim
  | accepted text text' ids ids' u h => exact ⟨rfl, .inl ⟨rfl, rfl, h⟩⟩
  | rejected text text' ids ids' u u' v hv h => exact ⟨rfl, .inr ⟨hv, _, rfl, h⟩⟩

theorem SameButRejected.length (h : SameButRejected calls rejected d d') :
    d.length = d'.length := by
  induction h with
  | nil calls => rfl
  | same s hs _ ih => exact congrArg (· + 1) ih
  | failed call call' exc _ ih => exact congrArg (· + 1) ih
  | response call call' hr _ ih => exact congrArg (· + 1) ih
  | accepted text text' ids ids' u _ ih => exact congrArg (· + 1) ih
  | rejected text text' ids ids' u u' v hv _ ih => exact congrArg (· + 1) ih

end Inversion

section Pairs
variable (py : Runtime)

def DisplayedAlike (rejected : List (Json × Json)) : Prop :=
  ∀ q ∈ rejected, sanitize_args_for_display py q.1 = sanitize_args_for_display py q.2

theorem displayedAlike_cons (q : Json × Json) (rejected : List (Json × Json)) :
    DisplayedAlike py (q :: rejected) ↔
      sanitize_args_for_display py q.1 = sanitize_args_for_display py q.2 ∧
        DisplayedAlike py rejected := List.forall_mem_cons

/-- Two programs that show of rejected arguments just how they are displayed. -/
def Shows (calls : List (ToolUse × ToolUse)) (p p' : M Unit) : Prop :=
  ∀ rejected tr r tr' r', Path p tr r → Path p' tr' r' →
    SameButRejected calls rejected (asks tr) (asks tr') →
    (emits tr = emits tr' ↔ DisplayedAlike py rejected)

variable {py} {calls : List (ToolUse × ToolUse)}

theorem shows_done (r r' : Except Exn Unit) : Shows py calls (.done r) (.done r') := by
  intro rejected tr s tr' s' h h' hsame
  obtain ⟨rfl, _⟩ := (path_done _ _ _).mp h
  obtain ⟨rfl, _⟩ := (path_done _ _ _).mp h'
  cases hsame
  simp [DisplayedAlike]

theorem shows_emit (o : StepEvent) {p p' : M Unit} (hp : Shows py calls p p') :
    Shows py calls (.emit o p) (.emit o p') := by
  intro rejected tr r tr' r' h h' hsame
  obtain ⟨rest, rfl, hrest⟩ := (path_emit _ _ _ _).mp h
  obtain ⟨rest', rfl, hrest'⟩ := (path_emit _ _ _ _).mp h'
  have htail := hp rejected rest r rest' r' hrest hrest' hsame
  simpa [emits] using htail

theorem shows_ask (e : Ask) (he : Elsewhere e) {k k' : Answer e → M Unit}
    (hk : ∀ a, Shows py calls (k a) (k' a)) : Shows py calls (.ask e k) (.ask e k') := by
  intro rejected tr r tr' r' h h' hsame
  obtain ⟨a, rest, rfl, hrest⟩ := (path_ask _ _ _ _).mp h
  obtain ⟨a', rest', rfl, hrest'⟩ := (path_ask _ _ _ _).mp h'
  obtain ⟨rfl, htail⟩ := hsame.tail he
  exact hk a rejected rest r rest' r' hrest hrest' htail

/-- The same questions, none of them a model call or a check of arguments. -/
theorem shows_bind {α : Type} (p : M α) (hp : AsksOnly Elsewhere p) {k k' : α → M Unit}
    (hk : ∀ a, Shows py calls (k a) (k' a)) : Shows py calls (p.bind k) (p.bind k') := by
  induction p with
  | done r =>
    cases r with
    | ok a => exact hk a
    | error x => exact shows_done _ _
  | ask e k ih => exact shows_ask e hp.1 (fun a => ih a (hp.2 a))
  | emit o p ih => exact shows_emit o (ih hp)

theorem shows_converse (call call' : ConverseCall) {k k' : Except Exn Response → M Unit}
    (herror : ∀ exc, Shows py calls (k (.error exc)) (k' (.error exc)))
    (hok : ∀ resp resp', SameResponse resp resp' →
      Shows py ((tool_use_blocks resp.content).zip (tool_use_blocks resp'.content))
        (k (.ok resp)) (k' (.ok resp'))) :
    Shows py calls (.ask (.converse call) k) (.ask (.converse call') k') := by
  intro rejected tr r tr' r' h h' hsame
  obtain ⟨x, rest, rfl, hrest⟩ := (path_ask _ _ _ _).mp h
  obtain ⟨x', rest', rfl, hrest'⟩ := (path_ask _ _ _ _).mp h'
  rcases hsame.answer with ⟨exc, rfl, rfl, htail⟩ | ⟨resp, resp', rfl, rfl, hr, htail⟩
  · exact herror exc rejected rest r rest' r' hrest hrest' htail
  · exact hok resp resp' hr rejected rest r rest' r' hrest hrest' htail

/-- A call is announced and then checked. -/
theorem shows_check (name : Str) (u u' : ToolUse) (display display' text text' : Str)
    (ids ids' : Ids) (hu : sanitize_args_for_display py u.input = .ok display)
    (hu' : sanitize_args_for_display py u'.input = .ok display') {k k' : Verdict → M Unit}
    (hin : u = u' → Shows py calls (k .accepted) (k' .accepted))
    (hout : ∀ v, v ≠ .accepted → Shows py calls (k v) (k' v)) :
    Shows py ((u, u') :: calls)
      (.emit (.StepToolCall name display) (.ask (.guardrail_apply text .INPUT ids) k))
      (.emit (.StepToolCall name display') (.ask (.guardrail_apply text' .INPUT ids') k')) := by
  intro rejected tr r tr' r' h h' hsame
  obtain ⟨_, rfl, hcheck⟩ := (path_emit _ _ _ _).mp h
  obtain ⟨_, rfl, hcheck'⟩ := (path_emit _ _ _ _).mp h'
  obtain ⟨v, rest, rfl, hrest⟩ := (path_ask _ _ _ _).mp hcheck
  obtain ⟨v', rest', rfl, hrest'⟩ := (path_ask _ _ _ _).mp hcheck'
  obtain ⟨rfl, ⟨rfl, rfl, htail⟩ | ⟨hv, others, rfl, htail⟩⟩ :=
    SameButRejected.verdict (show SameButRejected _ _ (_ :: asks rest) (_ :: asks rest') from hsame)
  · have hdisplay : display = display' := Except.ok.inj (hu.symm.trans hu')
    have hrec := hin rfl rejected rest r rest' r' hrest hrest' htail
    simpa [emits, hdisplay] using hrec
  · have hrec := hout v hv others rest r rest' r' hrest hrest' htail
    rw [displayedAlike_cons, hu, hu', ← hrec]
    simp [emits]

/-- Of two calls only one of which can be announced, one is never checked. -/
theorem shows_apart (r : Except Exn Unit) (o : StepEvent) (e : Ask) (k : Answer e → M Unit) :
    Shows py calls (.done r) (.emit o (.ask e k)) ∧
      Shows py calls (.emit o (.ask e k)) (.done r) := by
  have hlength : ∀ {tr r'}, Path (.emit o (.ask e k)) tr r' → 0 < (asks tr).length := by
    intro tr r' h
    obtain ⟨_, rfl, hask⟩ := (path_emit _ _ _ _).mp h
    obtain ⟨a, rest, rfl, _⟩ := (path_ask _ _ _ _).mp hask
    exact Nat.succ_pos _
  constructor
  · intro rejected tr s tr' s' h h' hsame
    obtain ⟨rfl, _⟩ := (path_done _ _ _).mp h
    exact absurd hsame.length (Nat.ne_of_lt (hlength h'))
  · intro rejected tr s tr' s' h h' hsame
    obtain ⟨rfl, _⟩ := (path_done _ _ _).mp h'
    exact absurd hsame.length (Nat.ne_of_gt (hlength h))

theorem shows_yieldAll (es : List StepEvent) {k k' : Unit → M Unit}
    (hk : Shows py calls (k ()) (k' ())) :
    Shows py calls ((yieldAll es).bind k) ((yieldAll es).bind k') := by
  induction es with
  | nil => exact hk
  | cons e es ih => exact shows_emit e ih

theorem shows_last (es : List StepEvent) : Shows py calls (yieldAll es) (yieldAll es) := by
  induction es with
  | nil => exact shows_done _ _
  | cons e es ih => exact shows_emit e ih

end Pairs

/-- The same tool under the same id. -/
def SameCall (u u' : ToolUse) : Prop := u.toolUseId = u'.toolUseId ∧ u.name = u'.name

theorem SameBlock.use {b b' : ContentBlock} (h : SameBlock b b') :
    (ContentBlock.use b = none ∧ ContentBlock.use b' = none) ∨
      ∃ u u', ContentBlock.use b = some u ∧ ContentBlock.use b' = some u' ∧ SameCall u u' := by
  cases h with
  | same =>
    cases b with
    | tool_use u => exact .inr ⟨u, u, rfl, rfl, rfl, rfl⟩
    | _ => exact .inl ⟨rfl, rfl⟩
  | tool_use id name input input' => exact .inr ⟨_, _, rfl, rfl, rfl, rfl⟩

theorem SameBlock.thinking {b b' : ContentBlock} (h : SameBlock b b') :
    thinking_block b = thinking_block b' ∧
      ContentBlock.nonEmptyText b = ContentBlock.nonEmptyText b' := by
  cases h <;> exact ⟨rfl, rfl⟩

theorem same_calls {content content' : List ContentBlock}
    (h : List.Forall₂ SameBlock content content') :
    List.Forall₂ SameCall (tool_use_blocks content) (tool_use_blocks content') := by
  induction h with
  | nil => exact .nil
  | @cons b b' bs bs' hb _ ih =>
    rcases hb.use with ⟨hnone, hnone'⟩ | ⟨u, u', hsome, hsome', hu⟩
    · rw [tool_use_blocks, tool_use_blocks, List.filterMap_cons_none hnone,
        List.filterMap_cons_none hnone']
      exact ih
    · rw [tool_use_blocks, tool_use_blocks, List.filterMap_cons_some hsome,
        List.filterMap_cons_some hsome']
      exact .cons hu ih

theorem same_isEmpty {us us' : List ToolUse} (h : List.Forall₂ SameCall us us') :
    us.isEmpty = us'.isEmpty := by
  cases h <;> rfl

theorem same_filterMap {β : Type} (f : ContentBlock → Option β)
    (hf : ∀ b b', SameBlock b b' → f b = f b') {content content' : List ContentBlock}
    (h : List.Forall₂ SameBlock content content') :
    content.filterMap f = content'.filterMap f := by
  induction h with
  | nil => rfl
  | cons hb _ ih => rw [List.filterMap_cons, List.filterMap_cons, hf _ _ hb, ih]

theorem same_texts {content content' : List ContentBlock}
    (h : List.Forall₂ SameBlock content content') : texts content = texts content' :=
  same_filterMap _ (fun _ _ hb => hb.thinking.2) h

theorem same_thinking {resp resp' : Response} (h : SameResponse resp resp') :
    thinking resp = thinking resp' := by
  rw [thinking, thinking, same_filterMap _ (fun _ _ hb => hb.thinking.1) h.content,
    same_texts h.content, h.stop_reason]

/-- What the loop reads of its state apart from the messages. -/
structure SameState (st st' : LoopState) : Prop where
  total_tokens_used : st.total_tokens_used = st'.total_tokens_used
  texts : texts (st.content_blocks.getD []) = texts (st'.content_blocks.getD [])

theorem SameState.degraded {st st' : LoopState} (h : SameState st st') :
    degraded_events st = degraded_events st' := by
  rw [degraded_events, degraded_events, h.texts]

theorem SameState.budget {st st' : LoopState} (h : SameState st st') (cfg : LoopConfig)
    (elapsed : ℚ) : budget_left cfg st elapsed = budget_left cfg st' elapsed := by
  rw [budget_left, budget_left, h.total_tokens_used]

theorem SameState.after_turn {st st' : LoopState} (h : SameState st st') {resp resp' : Response}
    (hr : SameResponse resp resp') (messages messages' : List Message)
    (out : List ToolResult × List Str) :
    SameState (after_turn st messages resp out) (after_turn st' messages' resp' out) := by
  constructor
  · show st.total_tokens_used + _ = st'.total_tokens_used + _
    rw [h.total_tokens_used, hr.usage]
  · exact same_texts hr.content

theorem elsewhere_of_pool (e : Ask) (h : PoolAsk e) : Elsewhere e := by
  cases e with
  | converse _ => exact h
  | guardrail_apply _ _ _ => exact h.elim
  | _ => trivial

theorem elsewhere_of_listing (e : Ask) (h : ListingAsk e) : Elsewhere e := by
  cases e with
  | list_tool_specs _ => trivial
  | _ => exact h.elim

section Loop
variable (py : Runtime) (cfg : LoopConfig) (a : RunArgs)

/-- What becomes of a call whose arguments the guardrail accepts. -/
def executed (routes : Routes) (u : ToolUse) : M (ToolResult × List Str) :=
  match resolve routes u.name with
  | none => .emit (.StepToolResult u.name "❌ tool not found".toList)
      (.done (.ok (not_found_result u, [u.name])))
  | some adapter_name =>
    (pool_call_tool a.mcp_adapters adapter_name u.name u.input).bind (fun raw =>
      .ask (.guardrail_apply raw .OUTPUT a.ids) (fun verdict =>
        .emit (.StepToolResult u.name (summarize_tool_result py (redacted raw verdict)))
          (.done (.ok (executed_result py cfg u (redacted raw verdict), [])))))

theorem executed_elsewhere (routes : Routes) (u : ToolUse) :
    AsksOnly Elsewhere (executed py cfg a routes u) := by
  unfold executed
  split
  · trivial
  · apply asksOnly_bind
    · exact (pool_call_tool_asks _ _ _ _).mono elsewhere_of_pool
    · exact fun raw => ⟨trivial, fun _ => trivial⟩

def refused (u : ToolUse) : M (ToolResult × List Str) :=
  .emit (.StepToolResult u.name "🚫 blocked by guardrail".toList)
    (.done (.ok (blocked_result u, [u.name])))

theorem tool_call_streaming_bind (routes : Routes) (u : ToolUse) (display : Str)
    (h : sanitize_args_for_display py u.input = .ok display)
    (k : ToolResult × List Str → M Unit) :
    (tool_call_streaming py cfg a routes u).bind k =
      .emit (.StepToolCall u.name display)
        (.ask (.guardrail_apply (dumps true u.input) .INPUT a.ids) (fun verdict =>
          (if verdict = .accepted then executed py cfg a routes u else refused u).bind k)) := by
  rw [tool_call_streaming_ok py cfg a routes u display h]
  rfl

theorem tool_call_shows (routes : Routes) {calls : List (ToolUse × ToolUse)} {u u' : ToolUse}
    (hu : SameCall u u') {k k' : ToolResult × List Str → M Unit}
    (hk : ∀ out, Shows py calls (k out) (k' out)) :
    Shows py ((u, u') :: calls) ((tool_call_streaming py cfg a routes u).bind k)
      ((tool_call_streaming py cfg a routes u').bind k') := by
  cases hd : sanitize_args_for_display py u.input with
  | error e =>
    rw [tool_call_streaming_error py cfg a routes u e hd, Prog.bind_error]
    cases hd' : sanitize_args_for_display py u'.input with
    | error e' =>
      rw [tool_call_streaming_error py cfg a routes u' e' hd', Prog.bind_error]
      exact shows_done _ _
    | ok display' =>
      rw [tool_call_streaming_bind py cfg a routes u' display' hd']
      exact (shows_apart _ _ _ _).1
  | ok display =>
    rw [tool_call_streaming_bind py cfg a routes u display hd]
    cases hd' : sanitize_args_for_display py u'.input with
    | error e' =>
      rw [tool_call_streaming_error py cfg a routes u' e' hd', Prog.bind_error]
      exact (shows_apart _ _ _ _).2
    | ok display' =>
      rw [tool_call_streaming_bind py cfg a routes u' display' hd', hu.2]
      apply shows_check _ _ _ _ _ _ _ _ _ hd hd'
      · intro heq
        subst heq
        rw [if_pos rfl]
        exact shows_bind _ (executed_elsewhere py cfg a routes u) hk
      · intro v hv
        have hsame : refused u = refused u' := by
          rw [refused, refused, blocked_result, blocked_result, hu.1, hu.2]
        rw [if_neg hv, if_neg hv, hsame]
        exact shows_emit _ (hk _)

theorem tool_calls_shows (routes : Routes) {us us' : List ToolUse}
    (h : List.Forall₂ SameCall us us') {k k' : List ToolResult × List Str → M Unit}
    (hk : ∀ out, Shows py [] (k out) (k' out)) :
    Shows py (us.zip us') ((tool_calls_streaming py cfg a routes us).bind k)
      ((tool_calls_streaming py cfg a routes us').bind k') := by
  induction h generalizing k k' with
  | nil => exact hk ([], [])
  | @cons u u' us us' hu _ ih =>
    rw [tool_calls_streaming_cons, tool_calls_streaming_cons, Prog.bind_assoc, Prog.bind_assoc]
    apply tool_call_shows py cfg a routes hu
    intro out
    rw [Prog.bind_assoc, Prog.bind_assoc]
    exact ih (fun rest => hk (out.1 :: rest.1, out.2 ++ rest.2))

theorem respond_streaming_shows (thinks : Bool) (specs : List (ToolSpec × Str)) (loop_start : ℚ)
    (left : Nat) {st st' : LoopState} (hst : SameState st st') (messages messages' : List Message)
    {resp resp' : Response} (hr : SameResponse resp resp')
    (hloop : ∀ st st', SameState st st' →
      Shows py [] (loop_streaming py cfg thinks a specs loop_start left st)
        (loop_streaming py cfg thinks a specs loop_start left st')) :
    Shows py ((tool_use_blocks resp.content).zip (tool_use_blocks resp'.content))
      (respond_streaming py cfg thinks a specs loop_start left st messages resp)
      (respond_streaming py cfg thinks a specs loop_start left st' messages' resp') := by
  have hcalls := same_calls hr.content
  have hnone := same_isEmpty hcalls
  have hfinal : final_events resp = final_events resp' := by
    rw [final_events, final_events, same_texts hr.content]
  have hno_tool : no_tool_events resp = no_tool_events resp' := by
    rw [no_tool_events, no_tool_events, same_texts hr.content]
  unfold respond_streaming
  rw [← hnone, ← hr.stop_reason, ← hfinal, ← hno_tool]
  split
  · exact shows_last _
  · split
    · exact shows_last _
    · exact tool_calls_shows py cfg a _ hcalls (fun out =>
        hloop _ _ (hst.after_turn hr messages messages' out))

theorem loop_streaming_shows (thinks : Bool) (specs : List (ToolSpec × Str)) (loop_start : ℚ)
    (left : Nat) (st st' : LoopState) (hst : SameState st st') :
    Shows py [] (loop_streaming py cfg thinks a specs loop_start left st)
      (loop_streaming py cfg thinks a specs loop_start left st') := by
  induction left generalizing st st' with
  | zero =>
    rw [loop_streaming_zero, loop_streaming_zero, hst.degraded]
    exact shows_ask .time trivial (fun _ => shows_last _)
  | succ left ih =>
    rw [loop_streaming_succ, loop_streaming_succ]
    apply shows_ask .time trivial
    intro now
    rw [hst.budget, hst.degraded]
    split
    · split
      · exact shows_done _ _
      · apply shows_converse
        · exact fun exc => shows_done _ _
        · intro resp resp' hr
          show Shows py _ ((yieldAll (thinking resp)).bind _) ((yieldAll (thinking resp')).bind _)
          rw [same_thinking hr]
          exact shows_yieldAll _ (respond_streaming_shows py cfg a thinks specs loop_start left hst
            _ _ hr ih)
    · exact shows_last _

theorem run_streaming_shows (thinks : Bool) :
    Shows py [] (run_agentic_loop_streaming py cfg thinks a)
      (run_agentic_loop_streaming py cfg thinks a) := by
  rw [run_agentic_loop_streaming_eq]
  apply shows_ask .time trivial
  intro loop_start
  apply shows_bind _ ((list_specs_asks a.mcp_adapters).mono elsewhere_of_listing)
  intro specs
  exact loop_streaming_shows py cfg a thinks specs loop_start _ _ _ ⟨rfl, rfl⟩

end Loop

/-- Two runs of the streaming loop that differ in rejected arguments only emit
the same events exactly when the rejected arguments are displayed alike. -/
theorem rejected_arguments_shown (py : Runtime) (cfg : LoopConfig) (thinks : Bool) (a : RunArgs)
    (rejected : List (Json × Json)) (tr tr' : List Ev) (r r' : Except Exn Unit)
    (h : Path (run_agentic_loop_streaming py cfg thinks a) tr r)
    (h' : Path (run_agentic_loop_streaming py cfg thinks a) tr' r')
    (hsame : SameButRejected [] rejected (asks tr) (asks tr')) :
    emits tr = emits tr' ↔ DisplayedAlike py rejected :=
  run_streaming_shows py cfg a thinks rejected tr r tr' r' h h' hsame

/-! ### How arguments are displayed -/

theorem join_middle (sep x y : Str) (pre post : List Str) :
    join sep (pre ++ x :: post) = join sep (pre ++ y :: post) ↔ x = y := by
  induction pre with
  | nil =>
    cases post with
    | nil => rfl
    | cons z zs =>
      show x ++ sep ++ join sep (z :: zs) = y ++ sep ++ join sep (z :: zs) ↔ x = y
      rw [List.append_assoc, List.append_assoc, List.append_left_inj]
  | cons w pre ih =>
    have hcons : ∀ z, join sep (w :: (pre ++ z :: post)) =
        w ++ sep ++ join sep (pre ++ z :: post) := by
      intro z
      exact join_cons sep w _ (by simp)
    rw [List.cons_append, List.cons_append, hcons, hcons, List.append_right_inj]
    exact ih

/-- Of one changed value nothing is seen where its name looks secret, and else
what `display_value` leaves of it. -/
theorem changed_value_displayed (py : Runtime) (pre post : List (Str × Json)) (k : Str)
    (v w : Json) :
    sanitize_args_for_display py (.obj (pre ++ (k, v) :: post)) =
        sanitize_args_for_display py (.obj (pre ++ (k, w) :: post)) ↔
      (search py.word SECRET_KEYS k).isSome = true ∨ display_value py v = display_value py w := by
  have hshown : ∀ x, sanitize_args_for_display py (.obj (pre ++ (k, x) :: post)) =
      .ok (join ", ".toList (pre.map (display_pair py) ++ display_pair py (k, x) ::
        post.map (display_pair py))) := by
    intro x
    rw [← List.map_cons, ← List.map_append, sanitize_args_for_display, if_neg (by simp [Json.truthy])]
  rw [hshown, hshown, Except.ok.injEq, join_middle, display_pair, display_pair]
  cases hsecret : (search py.word SECRET_KEYS k).isSome with
  | true => simp
  | false => simp

theorem displayedAlike_of_values (py : Runtime) (pairs pairs' : List (Str × Json))
    (h : List.Forall₂ (fun kv kv' => kv.1 = kv'.1 ∧
      ((search py.word SECRET_KEYS kv.1).isSome = true ∨
        display_value py kv.2 = display_value py kv'.2)) pairs pairs') :
    sanitize_args_for_display py (.obj pairs) = sanitize_args_for_display py (.obj pairs') := by
  have hpairs : pairs.map (display_pair py) = pairs'.map (display_pair py) := by
    induction h with
    | nil => rfl
    | @cons kv kv' kvs kvs' hkv _ ih =>
      have hpair : display_pair py kv = display_pair py kv' := by
        rw [display_pair, display_pair, ← hkv.1]
        rcases hkv.2 with hsecret | hvalue
        · rw [if_pos hsecret, if_pos hsecret]
        · rw [hvalue]
      rw [List.map_cons, List.map_cons, hpair, ih]
  have hnone : pairs.isEmpty = pairs'.isEmpty := by
    cases h <;> rfl
  rw [sanitize_args_for_display, sanitize_args_for_display, Json.truthy, Json.truthy, hnone, hpairs]

/-! ### One rejected call -/

def inNamespace (ns : Str) : ToolUse :=
  ⟨"t1".toList, "get_pods".toList, .obj [("ns".toList, .str ns)]⟩

def asking (ns : Str) : Response := ⟨"tool_use".toList, [.tool_use (inNamespace ns)], ⟨10, 5⟩⟩

def denial : Response := ⟨"end_turn".toList, [.text "denied".toList], ⟨20, 5⟩⟩

def refusal : Verdict := .blocked "denied".toList []

def podTools : Except Exn (List ToolSpec) := .ok [⟨"get_pods".toList, [], .obj []⟩]

/-- The model asks for the pods of a namespace, the guardrail refuses, the model
gives up. -/
def refusedTrace (ns : Str) (call call' : ConverseCall) : List Ev :=
  [.asked .time (0 : ℚ), .asked (.list_tool_specs k8s) podTools, .asked .time (0 : ℚ),
    .asked (.converse call) (.ok (asking ns)),
    .emitted (.StepToolCall "get_pods".toList ("ns=".toList ++ display_value asciiRuntime (.str ns))),
    .asked (.guardrail_apply (dumps true (inNamespace ns).input) .INPUT sampleArgs.ids) refusal,
    .emitted (.StepToolResult "get_pods".toList "🚫 blocked by guardrail".toList),
    .asked .time (0 : ℚ), .asked (.converse call') (.ok denial),
    .emitted (.StepFinalChunk "denied".toList), .emitted stop]

theorem within_budget (st : LoopState) (h : st.total_tokens_used ≤ 15) :
    budget_left .default st (elapsed_ms 0 0) = true := by
  rw [budget_left_iff]
  constructor
  · simp [elapsed_ms, LoopConfig.default]
  · have hmax : LoopConfig.default.MAX_LOOP_TOKENS = 300000 := rfl
    omega

theorem inNamespace_display (ns : Str) :
    sanitize_args_for_display asciiRuntime (inNamespace ns).input =
      .ok ("ns=".toList ++ display_value asciiRuntime (.str ns)) := by
  have hkey : (search asciiRuntime.word SECRET_KEYS "ns".toList).isSome = false := by rfl
  have hpair : display_pair asciiRuntime ("ns".toList, .str ns) =
      "ns=".toList ++ display_value asciiRuntime (.str ns) := by
    rw [display_pair, hkey]
    rfl
  show Except.ok (join ", ".toList [display_pair asciiRuntime ("ns".toList, .str ns)]) = _
  rw [hpair]
  rfl

theorem asking_thinks (ns : Str) : thinking (asking ns) = [] := by
  rw [thinking]
  split <;> rfl

theorem asking_responds (ns : Str) (specs : List (ToolSpec × Str)) (left : Nat) (st : LoopState)
    (messages : List Message) :
    respond_streaming asciiRuntime .default false sampleArgs specs 0 left st messages (asking ns) =
      (tool_calls_streaming asciiRuntime .default sampleArgs (routes_of specs)
        [inNamespace ns]).bind (fun out =>
          loop_streaming asciiRuntime .default false sampleArgs specs 0 left
            (after_turn st messages (asking ns) out)) := by
  have hstop : ¬ (asking ns).stop_reason ≠ "tool_use".toList := not_not.mpr rfl
  have hsome : ¬ (tool_use_blocks (asking ns).content).isEmpty = true := Bool.false_ne_true
  rw [respond_streaming, if_neg hstop, if_neg hsome]
  rfl

theorem asked_path {e : Ask} {k : Answer e → M Unit} (a : Answer e) {tr : List Ev}
    {r : Except Exn Unit} (h : Path (k a) tr r) : Path (.ask e k) (.asked e a :: tr) r := .ask a h

theorem refused_path (ns : Str) : ∃ call call',
    Path (run_agentic_loop_streaming asciiRuntime .default false sampleArgs)
      (refusedTrace ns call call') (.ok ()) := by
  have hrefused : refusal ≠ .accepted := by decide
  apply Exists.intro
  apply Exists.intro
  · rw [run_agentic_loop_streaming_eq]
    apply asked_path (e := .time) (0 : ℚ)
    apply asked_path (e := .list_tool_specs k8s) podTools
    show Path (loop_streaming asciiRuntime .default false sampleArgs _ 0 (7 + 1)
      (initial_state sampleArgs)) _ _
    rw [loop_streaming_succ]
    apply asked_path (e := .time) (0 : ℚ)
    rw [if_pos (within_budget _ (by decide)), if_neg (by decide)]
    apply asked_path (e := .converse _) (.ok (asking ns))
    show Path ((yieldAll (thinking (asking ns))).bind _) _ _
    rw [asking_thinks]
    show Path (respond_streaming _ _ _ _ _ _ _ _ _ (asking ns)) _ _
    rw [asking_responds, tool_calls_streaming_cons, Prog.bind_assoc,
      tool_call_streaming_bind _ _ _ _ _ _ (inNamespace_display ns)]
    apply Path.emit
    apply asked_path (e := .guardrail_apply _ .INPUT sampleArgs.ids) refusal
    rw [if_neg hrefused]
    apply Path.emit
    show Path (loop_streaming asciiRuntime .default false sampleArgs _ 0 (6 + 1) _) _ _
    rw [loop_streaming_succ]
    apply asked_path (e := .time) (0 : ℚ)
    rw [if_pos (within_budget _ (show (0 : Int) + (10 + 5) ≤ 15 by decide)), if_neg (by decide)]
    apply asked_path (e := .converse _) (.ok denial)
    apply Path.emit
    apply Path.emit
    exact .done _

theorem asking_same (ns ns' : Str) : SameResponse (asking ns) (asking ns') :=
  ⟨rfl, .cons (.tool_use _ _ _ _) .nil, rfl⟩

theorem denial_same : SameResponse denial denial := ⟨rfl, .cons (.same _) .nil, rfl⟩

theorem refused_same (ns ns' : Str) (call₁ call₂ call₁' call₂' : ConverseCall) :
    SameButRejected [] [((inNamespace ns).input, (inNamespace ns').input)]
      (asks (refusedTrace ns call₁ call₂)) (asks (refusedTrace ns' call₁' call₂')) := by
  apply SameButRejected.same ⟨.time, (0 : ℚ)⟩ trivial
  apply SameButRejected.same ⟨.list_tool_specs k8s, podTools⟩ trivial
  apply SameButRejected.same ⟨.time, (0 : ℚ)⟩ trivial
  apply SameButRejected.response _ _ (asking_same ns ns')
  apply SameButRejected.rejected _ _ _ _ _ _ refusal (by decide)
  apply SameButRejected.same ⟨.time, (0 : ℚ)⟩ trivial
  apply SameButRejected.response _ _ denial_same
  exact .nil _

theorem rejected_arguments_shown_pods :
    ∃ tr tr' r r', Path (run_agentic_loop_streaming asciiRuntime .default false sampleArgs) tr r ∧
      Path (run_agentic_loop_streaming asciiRuntime .default false sampleArgs) tr' r' ∧
      (emits tr = emits tr' ↔ DisplayedAlike asciiRuntime
        [((inNamespace "dev".toList).input, (inNamespace "prod".toList).input)]) := by
  obtain ⟨call₁, call₂, hdev⟩ := refused_path "dev".toList
  obtain ⟨call₁', call₂', hprod⟩ := refused_path "prod".toList
  exact ⟨_, _, _, _, hdev, hprod, rejected_arguments_shown asciiRuntime .default false sampleArgs
    _ _ _ _ _ hdev hprod (refused_same _ _ call₁ call₂ call₁' call₂')⟩

/-- The namespace the guardrail refused was in the stream already. -/
theorem refused_namespace_streamed : ¬ ∀ (rejected : List (Json × Json)) (tr tr' : List Ev)
    (r r' : Except Exn Unit),
    Path (run_agentic_loop_streaming asciiRuntime .default false sampleArgs) tr r →
    Path (run_agentic_loop_streaming asciiRuntime .default false sampleArgs) tr' r' →
    SameButRejected [] rejected (asks tr) (asks tr') → emits tr = emits tr' := by
  intro h
  obtain ⟨call₁, call₂, hdev⟩ := refused_path "dev".toList
  obtain ⟨call₁', call₂', hprod⟩ := refused_path "prod".toList
  have hemits := h _ _ _ _ _ hdev hprod (refused_same _ _ call₁ call₂ call₁' call₂')
  have hcall := StepEvent.StepToolCall.inj (List.cons.inj hemits).1
  have hvalue := List.append_cancel_left hcall.2
  exact absurd hvalue (by decide +kernel)

end AigentSquad.RejectedArguments
