import AigentSquad.Traces
import AigentSquad.Trimming

/-!
# How often a run rewrites each result

Trimming runs before every converse call on the messages the last trimming left.
With `t` tool turns so far it rewrites the results of the first `t - 1 - N`
turns, so a result is summarised again at every later call. `trims` counts the
times, and every message list of a run is the messages as first appended with
each of them trimmed that often.
-/

set_option autoImplicit false

namespace AigentSquad.Rewriting
open AigentSquad.PyText AigentSquad.PyJson AigentSquad.Truncation AigentSquad.Trimming
open AigentSquad.Interaction AigentSquad.Effects AigentSquad.AgenticLoop AigentSquad.Traces

/-- `t` tool turns after the first message, the results at the even places. -/
structure Turned (t : Nat) (ms : List Message) : Prop where
  length : ms.length = 2 * t + 1
  bears : ∀ i m, ms[i]? = some m → (m.bearsToolResult = true ↔ 1 ≤ i ∧ i % 2 = 0)

theorem even_filter (n : Nat) :
    (List.range (2 * n + 1)).filter (fun i => 1 ≤ i && i % 2 = 0) =
      (List.range n).map (fun k => 2 * k + 2) := by
  induction n with
  | zero => rfl
  | succ n ih =>
    have hodd : (2 * n + 1) % 2 = 1 := by omega
    have heven : (2 * n + 2) % 2 = 0 := by omega
    rw [show 2 * (n + 1) + 1 = 2 * n + 1 + 1 + 1 by ring, List.range_succ, List.range_succ,
      List.filter_append, List.filter_append, ih, List.range_succ, List.map_append]
    simp [hodd, heven]

theorem turned_indices (t : Nat) (ms : List Message) (h : Turned t ms) :
    tool_result_indices ms = (List.range (t - 1)).map (fun k => 2 * k + 2) := by
  have hfilter : ∀ i ∈ List.range (ms.length - 2),
      (1 ≤ i && (ms[i]?).any Message.bearsToolResult) = (1 ≤ i && decide (i % 2 = 0)) := by
    intro i hi
    have hlt : i < ms.length := by
      have := List.mem_range.mp hi
      omega
    have hb := h.bears i ms[i] (List.getElem?_eq_getElem hlt)
    rw [List.getElem?_eq_getElem hlt, Option.any_some, Bool.eq_iff_iff]
    simp only [Bool.and_eq_true, decide_eq_true_eq, hb]
    tauto
  rw [tool_result_indices, List.filter_congr hfilter, h.length]
  cases t with
  | zero => rfl
  | succ t => exact even_filter t

theorem mem_indices_to_trim (t : Nat) (ms : List Message) (h : Turned t ms) (keep_last_n : Int)
    (i : Nat) :
    i ∈ indices_to_trim ms keep_last_n ↔
      1 ≤ i ∧ i % 2 = 0 ∧ i / 2 + (max keep_last_n 1).toNat < t := by
  rw [indices_to_trim, turned_indices t ms h, List.length_map, List.length_range, ← List.map_take,
    List.take_range, List.mem_map]
  constructor
  · rintro ⟨k, hk, rfl⟩
    have := List.mem_range.mp hk
    omega
  · rintro ⟨hpos, heven, hlt⟩
    exact ⟨i / 2 - 1, List.mem_range.mpr (by omega), by omega⟩

/-- Every message trimmed `count` times, with the tool uses of `full`. -/
def rewritten (py : Runtime) (full : List Message) (count : Nat → Nat) : List Message :=
  full.mapIdx (fun i m => (trim_message py full i)^[count i] m)

theorem rewritten_get (py : Runtime) (full : List Message) (count : Nat → Nat) (i : Nat) :
    (rewritten py full count)[i]? = (full[i]?).map (trim_message py full i)^[count i] := by
  rw [rewritten, List.getElem?_mapIdx]

theorem rewritten_length (py : Runtime) (full : List Message) (count : Nat → Nat) :
    (rewritten py full count).length = full.length := by
  rw [rewritten, List.length_mapIdx]

theorem iterate_bears (py : Runtime) (ms : List Message) (idx n : Nat) (m : Message) :
    ((trim_message py ms idx)^[n] m).bearsToolResult = m.bearsToolResult := by
  induction n generalizing m with
  | zero => rfl
  | succ n ih => rw [Function.iterate_succ_apply, ih, trim_message_bears]

theorem iterate_role (py : Runtime) (ms : List Message) (idx n : Nat) (m : Message) :
    ((trim_message py ms idx)^[n] m).role = m.role := by
  induction n generalizing m with
  | zero => rfl
  | succ n ih => rw [Function.iterate_succ_apply, ih, trim_message_role]

theorem rewritten_turned (py : Runtime) (t : Nat) (full : List Message) (count : Nat → Nat)
    (h : Turned t full) : Turned t (rewritten py full count) := by
  refine ⟨by rw [rewritten_length, h.length], fun i m hm => ?_⟩
  rw [rewritten_get, Option.map_eq_some_iff] at hm
  obtain ⟨o, ho, rfl⟩ := hm
  rw [iterate_bears]
  exact h.bears i o ho

/-- Only result messages are rewritten. -/
def OnResults (count : Nat → Nat) : Prop := ∀ i, count i ≠ 0 → 1 ≤ i ∧ i % 2 = 0

theorem rewritten_spoken (py : Runtime) (t : Nat) (full : List Message) (count : Nat → Nat)
    (h : Turned t full) (hcount : OnResults count) :
    (rewritten py full count).map spoken = full.map spoken := by
  apply List.ext_getElem?
  intro i
  rw [List.getElem?_map, List.getElem?_map, rewritten_get, Option.map_map]
  cases hm : full[i]? with
  | none => rfl
  | some m =>
    by_cases hc : count i = 0
    · simp [hc]
    · have hb := (h.bears i m hm).mpr (hcount i hc)
      simp only [Message.bearsToolResult, Bool.and_eq_true, decide_eq_true_eq] at hb
      simp [spoken, iterate_role, hb.1]

/-- How often the result at place `i` has been trimmed when the call with `t`
tool turns is made. -/
def trims (cfg : LoopConfig) (t i : Nat) : Nat :=
  if cfg.CONTEXT_TRIM_ENABLED = true ∧ 1 ≤ i ∧ i % 2 = 0 then
    t - (i / 2 + (max cfg.CONTEXT_KEEP_LAST_N 1).toNat) else 0

theorem trims_on_results (cfg : LoopConfig) (t : Nat) : OnResults (trims cfg t) := by
  intro i hi
  by_contra hcon
  exact hi (if_neg (fun h => hcon h.2))

theorem trims_late (cfg : LoopConfig) (t i : Nat) (h : 2 * t + 1 ≤ i) : trims cfg t i = 0 := by
  unfold trims
  split <;> omega

/-- One trimming step: each result old enough is summarised once more. -/
theorem trimmed_rewritten (py : Runtime) (cfg : LoopConfig) (t : Nat) (full : List Message)
    (h : Turned t full) :
    trimmed py cfg (rewritten py full (trims cfg (t - 1))) = rewritten py full (trims cfg t) := by
  apply List.ext_getElem?
  intro i
  have hturned := rewritten_turned py t full (trims cfg (t - 1)) h
  have hspoken := rewritten_spoken py t full _ h (trims_on_results cfg (t - 1))
  have hstep : (trim_message py (rewritten py full (trims cfg (t - 1))) i) =
      trim_message py full i := funext (fun m => trim_message_of_spoken py _ _ i m hspoken)
  rw [trimmed, trim_get, hstep, rewritten_get, rewritten_get]
  split
  · rename_i hi
    obtain ⟨henabled, hmem⟩ := hi
    obtain ⟨hpos, heven, hlt⟩ := (mem_indices_to_trim t _ hturned _ i).mp hmem
    have hcount : trims cfg t i = trims cfg (t - 1) i + 1 := by
      rw [trims, trims, if_pos ⟨henabled, hpos, heven⟩, if_pos ⟨henabled, hpos, heven⟩]
      omega
    rw [hcount, Option.map_map, Function.iterate_succ']
  · rename_i hi
    have hcount : trims cfg t i = trims cfg (t - 1) i := by
      unfold trims
      split
      · rename_i hc
        have hnot : ¬ (i / 2 + (max cfg.CONTEXT_KEEP_LAST_N 1).toNat < t) := fun hlt =>
          hi ⟨hc.1, (mem_indices_to_trim t _ hturned _ i).mpr ⟨hc.2.1, hc.2.2, hlt⟩⟩
        omega
      · rfl
    rw [hcount]

theorem rewritten_append (py : Runtime) (full new : List Message) (count : Nat → Nat)
    (hcount : ∀ i, full.length ≤ i → count i = 0) :
    rewritten py (full ++ new) count = rewritten py full count ++ new := by
  apply List.ext_getElem?
  intro i
  by_cases hi : i < full.length
  · have hstep : trim_message py (full ++ new) i = trim_message py full i :=
      funext (fun m => trim_message_append py full new i m (Nat.le_of_lt hi))
    rw [List.getElem?_append_left (by rw [rewritten_length]; exact hi), rewritten_get,
      rewritten_get, hstep, List.getElem?_append_left hi]
  · rw [List.getElem?_append_right (by rw [rewritten_length]; omega), rewritten_get,
      hcount i (by omega), rewritten_length, List.getElem?_append_right (by omega)]
    simp

theorem turned_append (t : Nat) (ms : List Message) (blocks : List ContentBlock)
    (results : List ToolResult) (h : Turned t ms) (hresults : results ≠ []) :
    Turned (t + 1) (ms ++ [⟨.assistant, to_converse_assistant_blocks blocks⟩,
      ⟨.user, results.map Block.toolResult⟩]) := by
  have hlength := h.length
  refine ⟨by simp [hlength]; ring, fun i m hm => ?_⟩
  by_cases hi : i < ms.length
  · rw [List.getElem?_append_left hi] at hm
    exact h.bears i m hm
  · rw [List.getElem?_append_right (by omega)] at hm
    obtain hi | hi : i = ms.length ∨ i = ms.length + 1 := by
      have hlt := (List.getElem?_eq_some_iff.mp hm).1
      simp only [List.length_cons, List.length_nil] at hlt
      omega
    · subst hi
      simp only [Nat.sub_self, List.getElem?_cons_zero, Option.some.injEq] at hm
      subst hm
      simp only [Message.bearsToolResult, reduceCtorEq, decide_false, Bool.false_and, false_iff,
        Bool.false_eq_true]
      omega
    · subst hi
      rw [Nat.add_sub_cancel_left] at hm
      simp only [List.getElem?_cons_succ, List.getElem?_cons_zero, Option.some.injEq] at hm
      subst hm
      obtain ⟨x, xs, rfl⟩ := List.exists_cons_of_ne_nil hresults
      simp only [Message.bearsToolResult, List.map_cons, List.any_cons, Block.isToolResult,
        Bool.true_or, Bool.and_true, decide_true, true_iff]
      omega

/-- The messages of a part of a run, from the messages as first appended. -/
structure Replayed (py : Runtime) (cfg : LoopConfig) (t : Nat) (full : List Message)
    (d : Dialogue) (r : Except Exn (Str × List Message)) : Prop where
  calls : ∀ call answer, (⟨.converse call, answer⟩ : Sigma Answer) ∈ d →
    ∃ u, t ≤ u ∧ Turned u (full.take (2 * u + 1)) ∧
      call.messages = rewritten py (full.take (2 * u + 1)) (trims cfg u)
  ending : ∀ answer ms, r = .ok (answer, ms) →
    ∃ u, Turned u full ∧ (ms = rewritten py full (trims cfg u) ∨
      ms = rewritten py full (trims cfg (u - 1)))

theorem loop_trace_replayed (py : Runtime) (cfg : LoopConfig) (a : RunArgs)
    (specs : List (ToolSpec × Str)) (loop_start : ℚ) (left : Nat) (st : LoopState) (d : Dialogue)
    (r : Except Exn (Str × List Message))
    (h : LoopTrace py cfg a specs loop_start left st d r) (t : Nat) (orig : List Message)
    (horig : Turned t orig) (hst : st.messages = rewritten py orig (trims cfg (t - 1))) :
    ∃ full, orig <+: full ∧ Replayed py cfg t full d r := by
  have hcall : ∀ (t : Nat) (orig full : List Message) (st : LoopState), Turned t orig →
      orig <+: full → st.messages = rewritten py orig (trims cfg (t - 1)) →
      Turned t (full.take (2 * t + 1)) ∧
        trimmed py cfg st.messages = rewritten py (full.take (2 * t + 1)) (trims cfg t) := by
    intro t orig full st horig hpre hst
    rw [← horig.length, ← List.prefix_iff_eq_take.mp hpre, hst]
    exact ⟨horig, trimmed_rewritten py cfg t orig horig⟩
  induction h generalizing t orig with
  | exhausted _ hr =>
    refine ⟨orig, List.prefix_rfl, fun call answer hmem => by simp at hmem, ?_⟩
    rintro answer ms rfl
    rw [degraded_answer_messages cfg _ _ answer ms hr]
    exact ⟨t, horig, .inr hst⟩
  | failed _ =>
    refine ⟨orig, List.prefix_rfl, fun call answer hmem => ?_, fun answer ms h => by cases h⟩
    simp only [List.mem_cons, Sigma.mk.injEq, reduceCtorEq, false_and, false_or, List.not_mem_nil,
      or_false, Ask.converse.injEq] at hmem
    obtain ⟨hturned, hms⟩ := hcall t orig orig _ horig List.prefix_rfl hst
    exact ⟨t, le_rfl, hturned, by rw [hmem.1]; exact hms⟩
  | answered _ _ =>
    obtain ⟨hturned, hms⟩ := hcall t orig orig _ horig List.prefix_rfl hst
    refine ⟨orig, List.prefix_rfl, fun call answer hmem => ?_, fun answer ms h => ?_⟩
    · simp only [List.mem_cons, Sigma.mk.injEq, reduceCtorEq, false_and, false_or,
        List.not_mem_nil, or_false, Ask.converse.injEq] at hmem
      exact ⟨t, le_rfl, hturned, by rw [hmem.1]; exact hms⟩
    · simp only [Except.ok.injEq, Prod.mk.injEq] at h
      rw [← h.2, hst]
      exact ⟨t, horig, .inl (trimmed_rewritten py cfg t orig horig)⟩
  | @turn left st now resp calls rest out r _ hresp hcalls _ ih =>
    have hresults : out.1 ≠ [] := by
      have hlen := calls_trace_length py cfg a _ _ _ _ hcalls
      intro hnil
      rw [hnil] at hlen
      exact hresp.2 (List.length_eq_zero_iff.mp hlen.symm)
    have hnext := turned_append t orig resp.content out.1 horig hresults
    have hlength : ∀ i, orig.length ≤ i → trims cfg t i = 0 := fun i hi =>
      trims_late cfg t i (by rw [← horig.length]; exact hi)
    obtain ⟨full, hpre, hfull⟩ := ih (t + 1) _ hnext (by
      rw [Nat.add_sub_cancel, rewritten_append py orig _ _ hlength,
        ← trimmed_rewritten py cfg t orig horig, ← hst]
      rfl)
    have horigpre : orig <+: full := (List.prefix_append _ _).trans hpre
    refine ⟨full, horigpre, fun call answer hmem => ?_, fun answer ms h => hfull.ending answer ms h⟩
    simp only [List.cons_append, List.mem_cons, Sigma.mk.injEq, reduceCtorEq, false_and, false_or,
      List.mem_append, Ask.converse.injEq] at hmem
    rcases hmem with hhere | hin | hlater
    · obtain ⟨hturned, hms⟩ := hcall t orig full st horig horigpre hst
      exact ⟨t, le_rfl, hturned, by rw [hhere.1]; exact hms⟩
    · exact absurd (calls_trace_talk py cfg a _ _ _ _ hcalls _ hin) (by simp [topic])
    · obtain ⟨u, hu, hcalls'⟩ := hfull.calls call answer hlater
      exact ⟨u, by omega, hcalls'⟩

/-- In every run each converse call shows the messages as first appended, each
result summarised once for every trimming that found it old enough. -/
theorem run_replayed (py : Runtime) (cfg : LoopConfig) (a : RunArgs) (tr : List Ev)
    (r : Except Exn (Str × List Message)) (h : Path (run_agentic_loop py cfg a) tr r) :
    ∃ full, (initial_state a).messages <+: full ∧ Replayed py cfg 0 full (asks tr) r := by
  obtain ⟨loop_start, listing, specs, body, hd, hlist, hloop⟩ :=
    (run_path_trace py cfg a tr r h).split
  have hinit : Turned 0 (initial_state a).messages := by
    refine ⟨rfl, fun i m hm => ?_⟩
    cases i with
    | zero =>
      simp only [initial_state, List.getElem?_cons_zero, Option.some.injEq] at hm
      subst hm
      simp [Message.bearsToolResult, Block.isToolResult]
    | succ i => simp [initial_state] at hm
  have hzero : (initial_state a).messages =
      rewritten py (initial_state a).messages (trims cfg (0 - 1)) := by
    simp [rewritten, initial_state, trims]
  obtain ⟨full, hpre, hfull⟩ := loop_trace_replayed py cfg a specs loop_start _ _ body r hloop 0 _
    hinit hzero
  refine ⟨full, hpre, fun call answer hmem => ?_, hfull.ending⟩
  rw [hd] at hmem
  simp only [List.cons_append, List.mem_cons, Sigma.mk.injEq, reduceCtorEq, false_and, false_or,
    List.mem_append] at hmem
  rcases hmem with hin | hin
  · exact absurd (list_trace_topic _ _ _ hlist _ hin) (by simp [topic])
  · exact hfull.calls call answer hin

end AigentSquad.Rewriting
