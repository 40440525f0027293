import AigentSquad.LoopAgreement
import AigentSquad.Traces

/-!
# Budgets of the loops

A run after the listing is a sequence of rounds: a clock reading, the budget
check, at most one model call, and events that neither read the clock nor call
the model. Both loops run in such rounds.
-/

set_option autoImplicit false

namespace AigentSquad.Budgets
open AigentSquad.PyText AigentSquad.PyJson AigentSquad.Truncation AigentSquad.Interaction
open AigentSquad.Effects AigentSquad.AgenticLoop AigentSquad.AgenticLoopStreaming
open AigentSquad.Traces AigentSquad.LoopAgreement

def tokens (usage : Usage) : Int := usage.input_tokens + usage.output_tokens

def answer_tokens : Sigma Answer → Int
  | ⟨.converse _, .ok resp⟩ => tokens resp.usage
  | _ => 0

/-- Tokens the answered model calls of a run reported. -/
def reported (tr : List Ev) : Int := ((asks tr).map answer_tokens).sum

def loud (s : Sigma Answer) : Prop := topic s = .clock ∨ topic s = .model

def Quiet (tr : List Ev) : Prop := ∀ s ∈ asks tr, ¬ loud s

@[simp] theorem reported_nil : reported [] = 0 := rfl

@[simp] theorem reported_time (now : ℚ) (tr : List Ev) :
    reported (.asked .time now :: tr) = reported tr := by
  simp [reported, asks, answer_tokens]

@[simp] theorem reported_converse (call : ConverseCall) (resp : Response) (tr : List Ev) :
    reported (.asked (.converse call) (.ok resp) :: tr) = tokens resp.usage + reported tr := by
  simp [reported, asks, answer_tokens]

theorem reported_append (s t : List Ev) : reported (s ++ t) = reported s + reported t := by
  simp [reported]

theorem answer_tokens_quiet (s : Sigma Answer) (h : ¬ loud s) : answer_tokens s = 0 := by
  obtain ⟨e, answer⟩ := s
  cases e with
  | converse call => exact absurd (.inr rfl) h
  | _ => rfl

theorem Quiet.reported {tr : List Ev} (h : Quiet tr) : Budgets.reported tr = 0 := by
  have hzero : ∀ d : Dialogue, (∀ s ∈ d, ¬ loud s) → (d.map answer_tokens).sum = 0 := by
    intro d hd
    induction d with
    | nil => rfl
    | cons s d ih =>
      rw [List.map_cons, List.sum_cons, answer_tokens_quiet s (hd s (by simp)),
        ih (fun t ht => hd t (by simp [ht]))]
      rfl
  exact hzero _ h

theorem Quiet.converse_calls {tr : List Ev} (h : Quiet tr) : Traces.converse_calls tr = [] := by
  rw [List.eq_nil_iff_forall_not_mem]
  intro call hcall
  obtain ⟨answer, hmem⟩ := (mem_converse_calls tr call).mp hcall
  exact h _ hmem (.inr rfl)

theorem converse_calls_append (s t : List Ev) :
    Traces.converse_calls (s ++ t) = Traces.converse_calls s ++ Traces.converse_calls t := by
  simp [Traces.converse_calls]

/-- A loud event past a quiet stretch lies behind it. -/
theorem quiet_split (mid rest pre post : List Ev) (e : Ask) (answer : Answer e)
    (hmid : Quiet mid) (he : loud ⟨e, answer⟩)
    (h : mid ++ rest = pre ++ .asked e answer :: post) :
    ∃ t, pre = mid ++ t ∧ rest = t ++ .asked e answer :: post := by
  rcases List.append_eq_append_iff.mp h with ⟨t, rfl, ht⟩ | ⟨t, rfl, ht⟩
  · exact ⟨t, rfl, ht⟩
  · cases t with
    | nil => exact ⟨[], by simp, by simpa using ht.symm⟩
    | cons x t =>
      rw [List.cons_append, List.cons.injEq] at ht
      obtain ⟨rfl, _⟩ := ht
      exact absurd he (hmid ⟨e, answer⟩ (by simp [asks]))

theorem Quiet.append {s t : List Ev} (hs : Quiet s) (ht : Quiet t) : Quiet (s ++ t) := by
  intro x hx
  rw [asks_append, List.mem_append] at hx
  exact hx.elim (hs x) (ht x)

theorem Quiet.not_loud {pre post : List Ev} {e : Ask} {answer : Answer e} {tr : List Ev}
    (h : Quiet tr) (htr : tr = pre ++ .asked e answer :: post) : ¬ loud ⟨e, answer⟩ :=
  h ⟨e, answer⟩ (by simp [htr, asks])

theorem talk_quiet {tr : List Ev} (h : ToolTalk (asks tr)) : Quiet tr := by
  intro s hs hloud
  rcases h s hs with ht | ht <;> rcases hloud with hl | hl <;> simp [ht] at hl

/-- The rounds of a loop from a state on: how much of the step budget is left,
what the loop has counted, and which events follow. -/
inductive Rounds {α : Type} (cfg : LoopConfig) (L : Nat → LoopState → M α) (loop_start : ℚ) :
    Nat → LoopState → List Ev → Prop
  | stopped {left : Nat} {st : LoopState} {now : ℚ} {tr : List Ev} (h : Quiet tr) :
      Rounds cfg L loop_start left st (.asked .time now :: tr)
  | ended {left : Nat} {st : LoopState} {now : ℚ} {call : ConverseCall}
      {answer : Except Exn Response} {tr : List Ev}
      (hb : budget_left cfg st (elapsed_ms loop_start now) = true) (h : Quiet tr) :
      Rounds cfg L loop_start (left + 1) st
        (.asked .time now :: .asked (.converse call) answer :: tr)
  | round {left : Nat} {st st' : LoopState} {now : ℚ} {call : ConverseCall} {resp : Response}
      {mid rest : List Ev} (hb : budget_left cfg st (elapsed_ms loop_start now) = true)
      (hmid : Quiet mid)
      (hafter : After (L (left + 1) st)
        (.asked .time now :: .asked (.converse call) (.ok resp) :: mid) (L left st'))
      (htotal : st'.total_tokens_used = st.total_tokens_used + tokens resp.usage)
      (hrest : Rounds cfg L loop_start left st' rest) :
      Rounds cfg L loop_start (left + 1) st
        (.asked .time now :: .asked (.converse call) (.ok resp) :: (mid ++ rest))

section Rounds
variable {α : Type} {cfg : LoopConfig} {L : Nat → LoopState → M α} {loop_start : ℚ}

@[simp] theorem converse_calls_time (now : ℚ) (tr : List Ev) :
    Traces.converse_calls (.asked .time now :: tr) = Traces.converse_calls tr := rfl

@[simp] theorem converse_calls_converse (call : ConverseCall) (answer : Except Exn Response)
    (tr : List Ev) :
    Traces.converse_calls (.asked (.converse call) answer :: tr) =
      call :: Traces.converse_calls tr := rfl

theorem Rounds.steps {left : Nat} {st : LoopState} {tr : List Ev}
    (h : Rounds cfg L loop_start left st tr) : (Traces.converse_calls tr).length ≤ left := by
  induction h with
  | stopped h =>
    rw [converse_calls_time, h.converse_calls]
    simp
  | ended hb h =>
    rw [converse_calls_time, converse_calls_converse, h.converse_calls]
    simp
  | round hb hmid _ _ _ ih =>
    rw [converse_calls_time, converse_calls_converse, converse_calls_append,
      hmid.converse_calls]
    simpa using ih

/-- A model call is started right after a check that found budget left. -/
theorem Rounds.started {left : Nat} {st : LoopState} {tr : List Ev}
    (h : Rounds cfg L loop_start left st tr) {pre post : List Ev} {call : ConverseCall}
    {answer : Except Exn Response} (htr : tr = pre ++ .asked (.converse call) answer :: post) :
    ∃ mid now, pre = mid ++ [.asked .time now] ∧
      elapsed_ms loop_start now < cfg.MAX_LOOP_DURATION_MS ∧
      st.total_tokens_used + reported pre < cfg.MAX_LOOP_TOKENS := by
  have hloud : loud ⟨.converse call, answer⟩ := .inr rfl
  induction h generalizing pre with
  | stopped h =>
    cases pre with
    | nil => cases htr
    | cons x pre =>
      rw [List.cons_append, List.cons.injEq] at htr
      exact absurd hloud (h.not_loud htr.2)
  | @ended left st now _ _ tr hb h =>
    cases pre with
    | nil => cases htr
    | cons x pre =>
      rw [List.cons_append, List.cons.injEq] at htr
      obtain ⟨rfl, htr⟩ := htr
      cases pre with
      | nil => exact ⟨[], now, rfl, by simpa using (budget_left_iff cfg st _).mp hb⟩
      | cons y pre =>
        rw [List.cons_append, List.cons.injEq] at htr
        exact absurd hloud (h.not_loud htr.2)
  | @round left st st' now earlier resp mid rest hb hmid _ htotal _ ih =>
    cases pre with
    | nil => cases htr
    | cons x pre =>
      rw [List.cons_append, List.cons.injEq] at htr
      obtain ⟨rfl, htr⟩ := htr
      cases pre with
      | nil => exact ⟨[], now, rfl, by simpa using (budget_left_iff cfg st _).mp hb⟩
      | cons y pre =>
        rw [List.cons_append, List.cons.injEq] at htr
        obtain ⟨rfl, htr⟩ := htr
        obtain ⟨t, rfl, hrest⟩ := quiet_split _ _ _ _ _ _ hmid hloud htr
        obtain ⟨before, now', rfl, hdur, htok⟩ := ih hrest
        refine ⟨.asked .time now :: .asked (.converse earlier) (.ok resp) :: (mid ++ before), now',
          by simp, hdur, ?_⟩
        rw [htotal] at htok
        simp only [reported_time, reported_converse, reported_append, hmid.reported] at htok ⊢
        omega

/-- At every check the loop is in a state that counted what was reported. -/
theorem Rounds.checked {left : Nat} {st : LoopState} {tr : List Ev}
    (h : Rounds cfg L loop_start left st tr) {pre post : List Ev} {now : ℚ}
    (htr : tr = pre ++ .asked .time now :: post) :
    ∃ left' st', After (L left st) pre (L left' st') ∧
      st'.total_tokens_used = st.total_tokens_used + reported pre := by
  have hloud : loud ⟨.time, now⟩ := .inl rfl
  induction h generalizing pre with
  | @stopped left st _ _ h =>
    cases pre with
    | nil => exact ⟨left, st, .nil _, by simp⟩
    | cons x pre =>
      rw [List.cons_append, List.cons.injEq] at htr
      exact absurd hloud (h.not_loud htr.2)
  | @ended left st _ _ _ _ hb h =>
    cases pre with
    | nil => exact ⟨left + 1, st, .nil _, by simp⟩
    | cons x pre =>
      rw [List.cons_append, List.cons.injEq] at htr
      cases pre with
      | nil => cases htr.2
      | cons y pre =>
        rw [List.cons_append, List.cons.injEq] at htr
        exact absurd hloud (h.not_loud htr.2.2)
  | @round left st st' _ _ resp mid rest hb hmid hafter htotal _ ih =>
    cases pre with
    | nil => exact ⟨left + 1, st, .nil _, by simp⟩
    | cons x pre =>
      rw [List.cons_append, List.cons.injEq] at htr
      obtain ⟨rfl, htr⟩ := htr
      cases pre with
      | nil => cases htr
      | cons y pre =>
        rw [List.cons_append, List.cons.injEq] at htr
        obtain ⟨rfl, htr⟩ := htr
        obtain ⟨t, rfl, hrest⟩ := quiet_split _ _ _ _ _ _ hmid hloud htr
        obtain ⟨left', st'', hleft, hst⟩ := ih hrest
        refine ⟨left', st'', hafter.trans hleft, ?_⟩
        rw [hst, htotal]
        simp only [reported_time, reported_converse, reported_append, hmid.reported]
        omega

end Rounds

theorem listing_quiet (adapters : List McpAdapter) (tr : List Ev)
    (r : Except Exn (List (ToolSpec × Str))) (h : Path (list_specs adapters) tr r) : Quiet tr := by
  obtain ⟨specs, _, hlist⟩ := list_specs_path adapters tr r h
  intro s hs hloud
  have ht := list_trace_topic adapters _ specs hlist s hs
  rcases hloud with hl | hl <;> simp [ht] at hl

theorem tool_calls_quiet (py : Runtime) (cfg : LoopConfig) (a : RunArgs) (routes : Routes)
    (us : List ToolUse) (tr : List Ev) (r : Except Exn (List ToolResult × List Str))
    (h : Path (tool_calls py cfg a routes us) tr r) : Quiet tr := by
  obtain ⟨out, _, hcalls⟩ := tool_calls_path py cfg a routes us tr r h
  exact talk_quiet (calls_trace_talk py cfg a routes us _ out hcalls)

/-- The streamed tool calls ask a prefix of what the silent ones ask. -/
theorem tool_calls_streaming_quiet (py : Runtime) (cfg : LoopConfig) (a : RunArgs)
    (routes : Routes) (us : List ToolUse) (tr : List Ev)
    (r : Except Exn (List ToolResult × List Str))
    (h : Path (tool_calls_streaming py cfg a routes us) tr r) : Quiet tr := by
  have hsim : Sim (fun _ _ => True) (Same (fun _ => True)) (tool_calls py cfg a routes us)
      (tool_calls_streaming py cfg a routes us) :=
    tool_calls_sim py cfg a routes us (.inl trivial)
  obtain ⟨rest, pre, _, hpre, hpath⟩ := hsim.path_prefix h (fun _ _ => trivial)
  obtain ⟨suf, out, hrest⟩ := exists_path rest
  have hquiet := tool_calls_quiet py cfg a routes us _ _ (hpath suf out hrest)
  intro s hs
  exact hquiet s (by simp [hpre, hs])

theorem emitted_quiet {α : Type} (p : M α) (es : List StepEvent) (tr : List Ev) (r : Except Exn α)
    (h : Path ((yieldAll es).bind (fun _ => p)) tr r) :
    ∃ pre suf, tr = pre ++ suf ∧ Quiet pre ∧
      Path (yieldAll es) pre (.ok ()) ∧ Path p suf r := by
  induction es generalizing tr with
  | nil => exact ⟨[], tr, rfl, by simp [Quiet, asks], .done _, h⟩
  | cons e es ih =>
    obtain ⟨rest, rfl, hrest⟩ := (path_emit _ _ _ _).mp h
    obtain ⟨pre, suf, rfl, hquiet, hpre, hsuf⟩ := ih rest hrest
    exact ⟨.emitted e :: pre, suf, rfl, hquiet, .emit hpre, hsuf⟩

theorem yieldAll_quiet (es : List StepEvent) (tr : List Ev) (r : Except Exn Unit)
    (h : Path (yieldAll es) tr r) : Quiet tr := by
  induction es generalizing tr with
  | nil =>
    obtain ⟨rfl, _⟩ := (path_done _ _ _).mp h
    simp [Quiet, asks]
  | cons e es ih =>
    obtain ⟨rest, rfl, hrest⟩ := (path_emit _ _ _ _).mp h
    exact ih rest hrest

theorem after_turn_total (st : LoopState) (messages : List Message) (resp : Response)
    (out : List ToolResult × List Str) :
    (after_turn st messages resp out).total_tokens_used =
      st.total_tokens_used + tokens resp.usage := rfl

theorem loop_rounds (py : Runtime) (cfg : LoopConfig) (a : RunArgs)
    (specs : List (ToolSpec × Str)) (loop_start : ℚ) (left : Nat) (st : LoopState) (tr : List Ev)
    (r : Except Exn (Str × List Message)) (h : Path (loop py cfg a specs loop_start left st) tr r) :
    Rounds cfg (loop py cfg a specs loop_start) loop_start left st tr := by
  have exhaust : ∀ left st now tr r,
      Path (degraded_answer cfg st (elapsed_ms loop_start now)) tr r →
      Rounds cfg (loop py cfg a specs loop_start) loop_start left st (.asked .time now :: tr) := by
    intro left st now tr r h
    obtain ⟨s, hs⟩ := degraded_answer_done cfg st (elapsed_ms loop_start now)
    rw [hs, path_done] at h
    exact .stopped (by simp [h.1, Quiet, asks])
  induction left generalizing st tr with
  | zero =>
    rw [loop_zero, path_ask] at h
    obtain ⟨now, rest, rfl, hrest⟩ := h
    exact exhaust 0 st now rest r hrest
  | succ left ih =>
    rw [loop_succ, path_ask] at h
    obtain ⟨now, rest, rfl, hrest⟩ := h
    cases hb : budget_left cfg st (elapsed_ms loop_start now) with
    | false =>
      rw [hb, if_neg (by simp)] at hrest
      exact exhaust (left + 1) st now rest r hrest
    | true =>
      rw [hb, if_pos rfl, path_ask] at hrest
      obtain ⟨answer, rest, rfl, hrest⟩ := hrest
      cases answer with
      | error e =>
        obtain ⟨rfl, _⟩ := (path_done _ _ _).mp hrest
        exact .ended hb (by simp [Quiet, asks])
      | ok resp =>
        simp only at hrest
        by_cases hresp : requests_tools resp
        · rw [respond_turn _ _ _ _ _ _ _ _ _ hresp] at hrest
          rcases (path_bind _ _ _ _).mp hrest with ⟨x, hx, _⟩ | ⟨out, mid, rest, rfl, h₁, h₂⟩
          · exact .ended hb (tool_calls_quiet _ _ _ _ _ _ _ hx)
          · refine .round hb (tool_calls_quiet _ _ _ _ _ _ _ h₁) ?_ (after_turn_total _ _ _ _)
              (ih _ _ h₂)
            rw [loop_succ]
            apply after_ask
            rw [hb, if_pos rfl]
            apply after_ask
            show After (respond py cfg a specs loop_start left st _ resp) _ _
            rw [respond_turn _ _ _ _ _ _ _ _ _ hresp]
            exact h₁.after_bind _
        · rw [respond_answered _ _ _ _ _ _ _ _ _ hresp, path_done] at hrest
          exact .ended hb (by simp [hrest.1, Quiet, asks])

theorem respond_streaming_turn (py : Runtime) (cfg : LoopConfig) (thinks : Bool) (a : RunArgs)
    (specs : List (ToolSpec × Str)) (loop_start : ℚ) (left : Nat) (st : LoopState)
    (messages : List Message) (resp : Response) (h : requests_tools resp) :
    respond_streaming py cfg thinks a specs loop_start left st messages resp =
      (tool_calls_streaming py cfg a (routes_of specs) (tool_use_blocks resp.content)).bind
        (fun out => loop_streaming py cfg thinks a specs loop_start left
          (after_turn st messages resp out)) := by
  unfold respond_streaming
  rw [if_neg (not_not.mpr h.1), if_neg (by simpa using h.2)]

/-- The events of an answer that requests no tool. -/
def answer_events (resp : Response) : List StepEvent :=
  if resp.stop_reason ≠ "tool_use".toList then final_events resp else no_tool_events resp

theorem respond_streaming_answered (py : Runtime) (cfg : LoopConfig) (thinks : Bool) (a : RunArgs)
    (specs : List (ToolSpec × Str)) (loop_start : ℚ) (left : Nat) (st : LoopState)
    (messages : List Message) (resp : Response) (h : ¬ requests_tools resp) :
    respond_streaming py cfg thinks a specs loop_start left st messages resp =
      yieldAll (answer_events resp) := by
  unfold respond_streaming answer_events
  by_cases hstop : resp.stop_reason ≠ "tool_use".toList
  · rw [if_pos hstop, if_pos hstop]
  · have hnone : tool_use_blocks resp.content = [] :=
      by_contra (fun hne => h ⟨not_not.mp hstop, hne⟩)
    rw [if_neg hstop, if_neg hstop, hnone, List.isEmpty_nil, if_pos rfl]

theorem loop_streaming_rounds (py : Runtime) (cfg : LoopConfig) (thinks : Bool) (a : RunArgs)
    (specs : List (ToolSpec × Str)) (loop_start : ℚ) (left : Nat) (st : LoopState) (tr : List Ev)
    (r : Except Exn Unit)
    (h : Path (loop_streaming py cfg thinks a specs loop_start left st) tr r) :
    Rounds cfg (loop_streaming py cfg thinks a specs loop_start) loop_start left st tr := by
  induction left generalizing st tr with
  | zero =>
    rw [loop_streaming_zero, path_ask] at h
    obtain ⟨now, rest, rfl, hrest⟩ := h
    exact .stopped (yieldAll_quiet _ _ _ hrest)
  | succ left ih =>
    rw [loop_streaming_succ, path_ask] at h
    obtain ⟨now, rest, rfl, hrest⟩ := h
    cases hb : budget_left cfg st (elapsed_ms loop_start now) with
    | false =>
      rw [hb, if_neg (by simp)] at hrest
      exact .stopped (yieldAll_quiet _ _ _ hrest)
    | true =>
      rw [hb, if_pos rfl] at hrest
      cases thinks with
      | true =>
        obtain ⟨rfl, _⟩ := (path_done _ _ _).mp hrest
        exact .stopped (by simp [Quiet, asks])
      | false =>
        rw [if_neg (by simp), path_ask] at hrest
        obtain ⟨answer, rest, rfl, hrest⟩ := hrest
        cases answer with
        | error e =>
          obtain ⟨rfl, _⟩ := (path_done _ _ _).mp hrest
          exact .ended hb (by simp [Quiet, asks])
        | ok resp =>
          obtain ⟨thought, rest, rfl, hthought, hyield, hrest⟩ := emitted_quiet _ _ _ _ hrest
          by_cases hresp : requests_tools resp
          · rw [respond_streaming_turn _ _ _ _ _ _ _ _ _ _ hresp] at hrest
            rcases (path_bind _ _ _ _).mp hrest with ⟨x, hx, _⟩ | ⟨out, mid, rest, rfl, h₁, h₂⟩
            · exact .ended hb (hthought.append (tool_calls_streaming_quiet _ _ _ _ _ _ _ hx))
            · rw [← List.append_assoc]
              refine .round hb (hthought.append (tool_calls_streaming_quiet _ _ _ _ _ _ _ h₁)) ?_
                (after_turn_total _ _ _ _) (ih _ _ h₂)
              rw [loop_streaming_succ]
              apply after_ask
              rw [hb, if_pos rfl, if_neg (by simp)]
              apply after_ask
              refine (hyield.after_bind _).trans ?_
              rw [respond_streaming_turn _ _ _ _ _ _ _ _ _ _ hresp]
              exact h₁.after_bind _
          · rw [respond_streaming_answered _ _ _ _ _ _ _ _ _ _ hresp] at hrest
            exact .ended hb (hthought.append (yieldAll_quiet _ _ _ hrest))

/-- What the budgets promise about the events of a run of `p`, whose loop from a
state on is `L`. The first clock reading is the start of the loop; every later
one opens a check. -/
structure Bounded {α : Type} (cfg : LoopConfig)
    (L : List (ToolSpec × Str) → ℚ → Nat → LoopState → M α) (p : M α) (tr : List Ev) : Prop where
  steps : (((converse_calls tr).length : Nat) : Int) ≤ max cfg.MAX_TOOL_STEPS 0
  started : ∀ pre call answer post, tr = pre ++ .asked (.converse call) answer :: post →
    ∃ loop_start mid now, pre = .asked .time loop_start :: mid ++ [.asked .time now] ∧
      elapsed_ms loop_start now < cfg.MAX_LOOP_DURATION_MS ∧ reported pre < cfg.MAX_LOOP_TOKENS
  checked : ∀ pre now post, pre ≠ [] → tr = pre ++ .asked .time now :: post →
    ∃ specs loop_start left st, After p pre (L specs loop_start left st) ∧
      st.total_tokens_used = reported pre

theorem bounded_of_rounds {α : Type} (cfg : LoopConfig) (a : RunArgs)
    (L : List (ToolSpec × Str) → ℚ → Nat → LoopState → M α) (specs : List (ToolSpec × Str))
    (loop_start : ℚ) (listing body : List Ev)
    (hlist : Path (list_specs a.mcp_adapters) listing (.ok specs))
    (hbody : Rounds cfg (L specs loop_start) loop_start cfg.MAX_TOOL_STEPS.toNat (initial_state a)
      body) :
    Bounded cfg L (.ask .time (fun loop_start => (list_specs a.mcp_adapters).bind (fun specs =>
      L specs loop_start cfg.MAX_TOOL_STEPS.toNat (initial_state a))))
      (.asked .time loop_start :: (listing ++ body)) := by
  have hquiet : Quiet listing := listing_quiet _ _ _ hlist
  have hstart : (initial_state a).total_tokens_used = 0 := rfl
  have hsplit : ∀ {pre post : List Ev} {e : Ask} {answer : Answer e}, loud ⟨e, answer⟩ →
      listing ++ body = pre ++ .asked e answer :: post →
      ∃ t, pre = listing ++ t ∧ body = t ++ .asked e answer :: post ∧
        reported (.asked .time loop_start :: pre) = reported t := by
    intro pre post e answer hloud htr
    obtain ⟨t, rfl, hrest⟩ := quiet_split _ _ _ _ _ _ hquiet hloud htr
    refine ⟨t, rfl, hrest, ?_⟩
    rw [reported_time, reported_append, hquiet.reported, zero_add]
  constructor
  · have hle := hbody.steps
    rw [converse_calls_time, converse_calls_append, hquiet.converse_calls, List.nil_append]
    omega
  · intro pre call answer post htr
    cases pre with
    | nil => cases htr
    | cons x pre =>
      rw [List.cons_append, List.cons.injEq] at htr
      obtain ⟨rfl, htr⟩ := htr
      obtain ⟨t, rfl, hrest, hrep⟩ := hsplit (.inr rfl) htr
      obtain ⟨mid, now, rfl, hdur, htok⟩ := hbody.started hrest
      rw [hstart, zero_add] at htok
      exact ⟨loop_start, listing ++ mid, now, by simp, hdur, by rw [hrep]; exact htok⟩
  · intro pre now post hne htr
    cases pre with
    | nil => exact absurd rfl hne
    | cons x pre =>
      rw [List.cons_append, List.cons.injEq] at htr
      obtain ⟨rfl, htr⟩ := htr
      obtain ⟨t, rfl, hrest, hrep⟩ := hsplit (.inl rfl) htr
      obtain ⟨left, st, hafter, hst⟩ := hbody.checked hrest
      refine ⟨specs, loop_start, left, st, ?_, by rw [hst, hstart, zero_add, hrep]⟩
      apply after_ask
      exact (hlist.after_bind _).trans hafter

/-- Every run of a program that starts the clock, lists the tools and enters a
loop of rounds keeps within its budgets. -/
theorem bounded_of_path {α : Type} (cfg : LoopConfig) (a : RunArgs)
    (L : List (ToolSpec × Str) → ℚ → Nat → LoopState → M α)
    (hL : ∀ specs loop_start left st tr r, Path (L specs loop_start left st) tr r →
      Rounds cfg (L specs loop_start) loop_start left st tr) (tr : List Ev) (r : Except Exn α)
    (h : Path (.ask .time (fun loop_start => (list_specs a.mcp_adapters).bind (fun specs =>
      L specs loop_start cfg.MAX_TOOL_STEPS.toNat (initial_state a)))) tr r) :
    Bounded cfg L (.ask .time (fun loop_start => (list_specs a.mcp_adapters).bind (fun specs =>
      L specs loop_start cfg.MAX_TOOL_STEPS.toNat (initial_state a)))) tr := by
  obtain ⟨loop_start, rest, rfl, hrest⟩ := (path_ask _ _ _ _).mp h
  rcases (path_bind _ _ _ _).mp hrest with ⟨x, hx, _⟩ | ⟨specs, listing, body, rfl, hlist, hbody⟩
  · obtain ⟨_, hx, _⟩ := list_specs_path _ _ _ hx
    cases hx
  · exact bounded_of_rounds cfg a L specs loop_start listing body hlist (hL _ _ _ _ _ _ hbody)

/-- Whatever the model answers and the clock says, both loops keep within their
budgets. -/
theorem budgets_bound (py : Runtime) (cfg : LoopConfig) (thinks : Bool) (a : RunArgs)
    (env : Env Ask Answer) :
    Bounded cfg (loop py cfg a) (run_agentic_loop py cfg a)
        (run env [] (run_agentic_loop py cfg a)).1 ∧
      Bounded cfg (loop_streaming py cfg thinks a) (run_agentic_loop_streaming py cfg thinks a)
        (run env [] (run_agentic_loop_streaming py cfg thinks a)).1 := by
  constructor
  · exact bounded_of_path cfg a (loop py cfg a) (loop_rounds py cfg a) _ _
      (run_path env [] (run_agentic_loop py cfg a))
  · exact bounded_of_path cfg a (loop_streaming py cfg thinks a)
      (loop_streaming_rounds py cfg thinks a) _ _
      (run_path env [] (run_agentic_loop_streaming py cfg thinks a))

def clock_readings (tr : List Ev) : List ℚ :=
  (asks tr).filterMap (fun s => match s with
    | ⟨.time, now⟩ => some now
    | _ => none)

/-- The first check, which follows the listing of the tools, finds budget left. -/
def StartsInBudget (cfg : LoopConfig) (tr : List Ev) : Prop :=
  1 ≤ cfg.MAX_TOOL_STEPS ∧ 0 < cfg.MAX_LOOP_TOKENS ∧
    ∃ loop_start now rest, clock_readings tr = loop_start :: now :: rest ∧
      elapsed_ms loop_start now < cfg.MAX_LOOP_DURATION_MS

/-- No model call of the run raised. -/
def Unraised (d : Dialogue) : Prop :=
  ∀ call e, (⟨.converse call, .error e⟩ : Sigma Answer) ∉ d

theorem degraded_returns (cfg : LoopConfig) (st : LoopState) (elapsed : ℚ)
    (r : Except Exn (Str × List Message)) (hst : st.content_blocks.isSome)
    (h : degraded_answer cfg st elapsed = .done r) : ∃ out, r = .ok out := by
  obtain ⟨blocks, hblocks⟩ := Option.isSome_iff_exists.mp hst
  rw [degraded_answer, hblocks] at h
  by_cases hempty : (texts blocks).isEmpty = true
  · simp only [hempty, if_true, Prog.pure_eq, Prog.done.injEq] at h
    exact ⟨_, h.symm⟩
  · simp only [hempty, Bool.false_eq_true, if_false, Prog.pure_eq, Prog.done.injEq] at h
    exact ⟨_, h.symm⟩

/-- Once a model call was answered, every exit returns. -/
theorem loop_returns (py : Runtime) (cfg : LoopConfig) (a : RunArgs)
    (specs : List (ToolSpec × Str)) (loop_start : ℚ) (left : Nat) (st : LoopState) (d : Dialogue)
    (r : Except Exn (Str × List Message)) (h : LoopTrace py cfg a specs loop_start left st d r)
    (hst : st.content_blocks.isSome) (hd : Unraised d) : ∃ out, r = .ok out := by
  induction h with
  | exhausted _ hr => exact degraded_returns cfg _ _ _ hst hr
  | failed _ => exact absurd (.tail _ (.head _)) (hd _ _)
  | answered _ _ => exact ⟨_, rfl⟩
  | turn _ _ _ _ ih => exact ih rfl (fun call e hmem => hd call e (by simp [hmem]))

theorem listing_readings (adapters : List McpAdapter) (d : Dialogue)
    (specs : List (ToolSpec × Str)) (h : ListTrace adapters d specs) :
    d.filterMap (fun s => match s with
      | ⟨.time, now⟩ => some now
      | _ => none) = ([] : List ℚ) := by
  induction h with
  | nil => rfl
  | cons _ _ ih => simpa using ih

theorem first_check_in_budget (cfg : LoopConfig) (a : RunArgs) (elapsed : ℚ) (left : Nat)
    (hleft : cfg.MAX_TOOL_STEPS.toNat = left + 1)
    (h : budget_left cfg (initial_state a) elapsed = true) :
    1 ≤ cfg.MAX_TOOL_STEPS ∧ 0 < cfg.MAX_LOOP_TOKENS ∧ elapsed < cfg.MAX_LOOP_DURATION_MS := by
  obtain ⟨hdur, htok⟩ := (budget_left_iff cfg _ elapsed).mp h
  exact ⟨by omega, htok, hdur⟩

/-- The tools took a thousand seconds to list. -/
def slowListing : Env Ask Answer := fun hist e =>
  match e with
  | .time => if hist.isEmpty then (0 : ℚ) else 1000
  | e => calm e

end AigentSquad.Budgets
