import AigentSquad.Evidence
import AigentSquad.LoopAgreement
import AigentSquad.Rewriting

/-!
# Trimming over a run

A trimmed result should read as the summary of what the tool returned at every
later call. It does as long as no call comes late enough to summarise a summary.
-/

set_option autoImplicit false

namespace AigentSquad.TrimStability
open AigentSquad.PyText AigentSquad.PyJson AigentSquad.Truncation AigentSquad.Trimming
open AigentSquad.Interaction AigentSquad.Effects AigentSquad.AgenticLoop AigentSquad.Traces
open AigentSquad.LoopAgreement AigentSquad.Rewriting AigentSquad.Evidence

/-- A message reads at every call as it did when it was the last one, or as the
trimming of that. -/
def Stable (py : Runtime) (calls : List ConverseCall) : Prop :=
  ∀ first ∈ calls, ∀ later ∈ calls, ∀ i original m, first.messages.length = i + 1 →
    first.messages[i]? = some original → later.messages[i]? = some m →
    m = original ∨ m = trim_message py later.messages i original

/-- No call carries more tool turns than trimming can take without meeting a
summary again. -/
def EarlyEnough (cfg : LoopConfig) (calls : List ConverseCall) : Prop :=
  cfg.CONTEXT_TRIM_ENABLED = true → ∀ call ∈ calls,
    call.messages.length ≤ 2 * (max cfg.CONTEXT_KEEP_LAST_N 1).toNat + 5

theorem trims_last (cfg : LoopConfig) (u : Nat) : trims cfg u (2 * u) = 0 := by
  unfold trims
  split <;> omega

theorem trims_early (cfg : LoopConfig) (u i : Nat)
    (h : cfg.CONTEXT_TRIM_ENABLED = true →
      2 * u + 1 ≤ 2 * (max cfg.CONTEXT_KEEP_LAST_N 1).toNat + 5) : trims cfg u i ≤ 1 := by
  unfold trims
  split
  · rename_i hc
    have := h hc.1
    omega
  · omega

/-- Runs whose calls all come early enough keep every trimmed result the summary
of the original. -/
theorem trimming_stable (py : Runtime) (cfg : LoopConfig) (a : RunArgs) (tr : List Ev)
    (r : Except Exn (Str × List Message)) (h : Path (run_agentic_loop py cfg a) tr r)
    (hearly : EarlyEnough cfg (converse_calls tr)) : Stable py (converse_calls tr) := by
  obtain ⟨full, _, hfull⟩ := run_replayed py cfg a tr r h
  intro first hfirst later hlater i original m hlast hi hm
  obtain ⟨answer, hfirst⟩ := (mem_converse_calls tr first).mp hfirst
  obtain ⟨u, _, hu, hmsgs⟩ := hfull.calls first answer hfirst
  have hbound := fun henabled => hearly henabled later hlater
  obtain ⟨answer', hlater⟩ := (mem_converse_calls tr later).mp hlater
  obtain ⟨v, _, hv, hmsgs'⟩ := hfull.calls later answer' hlater
  have hiu : i = 2 * u := by
    have := congrArg List.length hmsgs
    rw [rewritten_length, hu.length] at this
    omega
  have hiv : i < 2 * v + 1 := by
    have hlt := (List.getElem?_eq_some_iff.mp hm).1
    rwa [hmsgs', rewritten_length, hv.length] at hlt
  have horiginal : full[i]? = some original := by
    rw [hmsgs, rewritten_get, hiu, trims_last, List.getElem?_take_of_lt (by omega)] at hi
    simpa [hiu] using hi
  have hshown : some m =
      (some original).map (trim_message py (full.take (2 * v + 1)) i)^[trims cfg v i] := by
    rw [← hm, hmsgs', rewritten_get, List.getElem?_take_of_lt hiv, horiginal]
  have hspoken := rewritten_spoken py v _ _ hv (trims_on_results cfg v)
  rw [← hmsgs'] at hspoken
  have hcount : trims cfg v i ≤ 1 := trims_early cfg v i (fun henabled => by
    have := hbound henabled
    rwa [hmsgs', rewritten_length, hv.length] at this)
  obtain hc | hc : trims cfg v i = 0 ∨ trims cfg v i = 1 := by omega
  · left
    simpa [hc] using hshown
  · right
    rw [trim_message_of_spoken py _ _ i original hspoken]
    simpa [hc] using hshown

/-- The model asks for pods until the conversation holds `n` messages. -/
def persistentEnv (n : Nat) : Env Ask Answer := fun h e =>
  match e with
  | .converse call =>
    if call.messages.length < n then .ok ⟨"tool_use".toList, [.tool_use getPods], ⟨10, 5⟩⟩
    else .ok ⟨"end_turn".toList, [.text "3 pods".toList], ⟨20, 5⟩⟩
  | e => sampleEnv h e

def keepOne : LoopConfig := { LoopConfig.default with CONTEXT_KEEP_LAST_N := 1 }

def persistentRun (n : Nat) : List Ev :=
  (run (persistentEnv n) [] (run_agentic_loop asciiRuntime keepOne sampleArgs)).1

theorem persistent_path (n : Nat) :
    ∃ r, Path (run_agentic_loop asciiRuntime keepOne sampleArgs) (persistentRun n) r :=
  ⟨_, run_path (persistentEnv n) [] _⟩

set_option maxRecDepth 100000 in
theorem trimming_stable_four_calls :
    (converse_calls (persistentRun 7)).length = 4 ∧
      Stable asciiRuntime (converse_calls (persistentRun 7)) := by
  obtain ⟨r, hpath⟩ := persistent_path 7
  have hshort : (converse_calls (persistentRun 7)).all (fun call => call.messages.length ≤ 7) =
      true := by decide +kernel
  refine ⟨by decide +kernel, trimming_stable _ _ _ _ r hpath (fun _ call hcall => ?_)⟩
  have := List.all_eq_true.mp hshort call hcall
  simpa [keepOne] using this

/-- The first result reads neither as it did nor as its summary. -/
def resummarised (first later : ConverseCall) : Bool :=
  match first.messages[2]?, later.messages[2]? with
  | some original, some m => first.messages.length = 3 && result_texts m ≠ result_texts original &&
      result_texts m ≠ result_texts (trim_message asciiRuntime later.messages 2 original)
  | _, _ => false

theorem resummarised_unstable (calls : List ConverseCall)
    (h : calls.any (fun first => calls.any (resummarised first)) = true) :
    ¬ Stable asciiRuntime calls := by
  intro hstable
  obtain ⟨first, hfirst, h⟩ := List.any_eq_true.mp h
  obtain ⟨later, hlater, h⟩ := List.any_eq_true.mp h
  unfold resummarised at h
  split at h
  · rename_i original m horiginal hm
    simp only [Bool.and_eq_true, decide_eq_true_eq] at h
    rcases hstable first hfirst later hlater 2 original m h.1.1 horiginal hm with rfl | rfl
    · exact h.1.2 rfl
    · exact h.2 rfl
  · cases h

set_option maxRecDepth 100000 in
/-- At the fifth call the first result is the summary of its summary. -/
theorem fifth_call_resummarises :
    ¬ ∀ (py : Runtime) (cfg : LoopConfig) (a : RunArgs) (tr : List Ev)
      (r : Except Exn (Str × List Message)), Path (run_agentic_loop py cfg a) tr r →
      Stable py (converse_calls tr) := by
  intro hall
  obtain ⟨r, hpath⟩ := persistent_path 9
  exact resummarised_unstable _ (by decide +kernel) (hall _ _ _ _ r hpath)

end AigentSquad.TrimStability
