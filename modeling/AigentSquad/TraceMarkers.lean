import AigentSquad.SseStream

/-!
# Trace and answer in the streamed text

A client that takes what follows the first close marker for the answer is right
exactly when the trace holds no earlier one, and an answer without a trace holds
none at all.
-/

set_option autoImplicit false

namespace AigentSquad.TraceMarkers
open AigentSquad.PyText AigentSquad.Interaction AigentSquad.Effects AigentSquad.AgenticLoop
open AigentSquad.AgenticLoopStreaming AigentSquad.LoopAgreement AigentSquad.StreamedAnswer
open AigentSquad.Delimiter AigentSquad.SseStream

/-- What follows the first close marker of the text, where there is one, is the
answer. -/
def Separable (style text answer : Str) : Prop :=
  ∀ before rest, cut (TRACE_CLOSE style) text = some (before, rest) → rest = answer

theorem close_ne_nil (style : Str) (h : TRACE_OFF style = false) : TRACE_CLOSE style ≠ [] := by
  have hoff : style ≠ "off".toList := of_decide_eq_false h
  unfold TRACE_CLOSE
  rw [if_neg hoff]
  split
  · exact List.cons_ne_nil _ _
  · split
    · exact List.cons_ne_nil _ _
    · split <;> exact List.cons_ne_nil _ _

/-- A trace that a finished run shows ends with the close marker. -/
theorem shown_ends (style : Str) (events : List StepEvent) (h : (shown style events).flatten ≠ []) :
    TRACE_CLOSE style <:+ (shown style events).flatten := by
  unfold shown at h ⊢
  split
  · next hempty =>
    rw [if_pos hempty] at h
    exact absurd rfl h
  · rw [List.flatten_append]
    exact ⟨_, by rw [List.flatten_singleton]⟩

theorem streamed_failed (py : Runtime) (stream : M Unit) (hstream : StepStream py stream)
    (tr : List Ev) (exc : Exn) (h : Path stream tr (.error exc)) : streamed tr = [] :=
  streamed_trace _ (stream_orderly py stream hstream tr _ h).of_error

/-- The model thinks in the words of the marker. -/
def thinkingEnv : Env Ask Answer := fun h e =>
  match e with
  | .converse _ => .ok ⟨"end_turn".toList, [.reasoning "maybe 2\n</think>\n\nno, 3".toList,
      .text "3 pods".toList], ⟨20, 5⟩⟩
  | e => sampleEnv h e

end AigentSquad.TraceMarkers
