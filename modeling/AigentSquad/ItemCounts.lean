import Mathlib.Data.List.Chain
import AigentSquad.GroundedClaims
import AigentSquad.StreamedAnswer

/-!
# Reported item counts

A result's items are counted in the truncation marker, in the streamed summary
and in each context summary. The first two count the redacted result itself. A
context summary counts the text it replaces, which is the framed result, so its
count is the number of non-blank lines of that text.
-/

set_option autoImplicit false

namespace AigentSquad.ItemCounts
open AigentSquad.PyText AigentSquad.PyJson AigentSquad.Truncation AigentSquad.Trimming
open AigentSquad.Interaction AigentSquad.Effects AigentSquad.AgenticLoop
open AigentSquad.AgenticLoopStreaming AigentSquad.Traces AigentSquad.LoopAgreement
open AigentSquad.Rewriting AigentSquad.TrimStability AigentSquad.Evidence AigentSquad.SummaryText
open AigentSquad.Budgets
open AigentSquad.GroundedClaims hiding Silent

/-- A number is read off the front of a text up to the first other character. -/
theorem strNat_takeWhile (n : Nat) (rest : Str) :
    (strNat n ++ ' ' :: rest).takeWhile Char.isDigit = strNat n := by
  rw [List.takeWhile_append_of_pos (strNat_digits n)]
  simp

theorem strNat_front (n m : Nat) (x y : Str)
    (h : strNat n ++ ' ' :: x <+: strNat m ++ ' ' :: y) : n = m ∧ x <+: y := by
  obtain ⟨z, hz⟩ := h
  rw [List.append_assoc, List.cons_append] at hz
  have hdigits := congrArg (List.takeWhile Char.isDigit) hz
  rw [strNat_takeWhile, strNat_takeWhile] at hdigits
  obtain rfl := strNat_injective n m hdigits
  simp only [List.append_cancel_left_eq, List.cons.injEq, true_and] at hz
  exact ⟨rfl, ⟨z, hz⟩⟩

/-- The truncation marker of a counted result. -/
def items_marker (max_chars : Int) (n : Nat) : Str :=
  "[truncated: showing first ".toList ++ strInt max_chars ++ " chars of ".toList ++
    (strNat n ++ " items total]\n".toList)

/-- The text shown for a truncated result opens with a marker of `n` items. -/
def MarkerStates (py : Runtime) (max_chars : Int) (t : Str) (n : Nat) : Prop :=
  max_chars < t.length ∧ items_marker max_chars n <+: truncate_with_marker py t max_chars

theorem items_total_eq : " items total]\n".toList = ' ' :: "items total]\n".toList := by decide

theorem chars_total_eq : " chars total]\n".toList = ' ' :: "chars total]\n".toList := by decide

def total_text (total : Option Nat) (len : Nat) : Str :=
  match total with
  | some m => strNat m ++ " items total]\n".toList
  | none => strNat len ++ " chars total]\n".toList

/-- What the marker says of the total, up to the shown text. -/
theorem marker_total (n : Nat) (total : Option Nat) (len : Nat) (shown : Str)
    (h : strNat n ++ " items total]\n".toList <+: total_text total len ++ shown) :
    total = some n := by
  cases total with
  | some m =>
    simp only [total_text, items_total_eq, List.append_assoc, List.cons_append] at h
    rw [(strNat_front n m _ _ h).1]
  | none =>
    simp only [total_text, items_total_eq, chars_total_eq, List.append_assoc, List.cons_append] at h
    obtain ⟨rest, hrest⟩ := (strNat_front n len _ _ h).2
    have hclash := congrArg List.head? hrest
    rw [List.head?_append_of_ne_nil _ (by decide), List.head?_append_of_ne_nil _ (by decide)] at hclash
    exact absurd hclash (by decide)

theorem truncate_long (py : Runtime) (max_chars : Int) (t : Str) (h : max_chars < t.length) :
    truncate_with_marker py t max_chars =
      "[truncated: showing first ".toList ++ strInt max_chars ++ " chars of ".toList ++
        (total_text (count_items py t) t.length ++ slice t max_chars) := by
  rw [truncate_with_marker, if_neg (not_le.mpr h)]
  cases count_items py t with
  | some m => simp only [total_text, List.append_assoc]
  | none => simp only [total_text, List.append_assoc]

theorem marker_counts (py : Runtime) (max_chars : Int) (t : Str) (n : Nat)
    (h : MarkerStates py max_chars t n) : count_items py t = some n := by
  have hpre := h.2
  rw [truncate_long py max_chars t h.1] at hpre
  exact marker_total n (count_items py t) t.length _ ((List.prefix_append_right_inj _).mp hpre)

theorem row_count_none (text : Str) (h : row_count text = none) :
    (non_empty_lines text).length ≤ 1 := by
  unfold row_count at h
  cases hl : non_empty_lines text with
  | nil => simp
  | cons first rest =>
    cases rest with
    | nil => simp
    | cons second rest =>
      simp only [hl, List.length_cons] at h
      have hpos : 0 < rest.length + 1 + 1 - (if is_table_header (strip first) then 1 else 0) := by
        split <;> omega
      rw [if_pos hpos] at h
      cases h

/-- What follows the package sign in a streamed summary that counts. -/
def counting_words (words : Str) (n : Nat) : Prop :=
  words = strNat n ++ " items".toList ∨ words = '~' :: strNat n ++ " items".toList

/-- The streamed summary gives `n` items, exactly or roughly. -/
def StreamStates (summary : Str) (n : Nat) : Prop :=
  ∃ words, summary = "📦 ".toList ++ words ∧ counting_words words n

theorem words_not_counting (c : Char) (rest : Str) (n : Nat) (hdigit : c.isDigit = false)
    (hrough : c ≠ '~') : ¬ counting_words (c :: rest) n := by
  intro h
  rcases h with h | h
  · cases hn : strNat n with
    | nil => exact absurd hn Nat.toDigits_ne_nil
    | cons d ds =>
      rw [hn, List.cons_append, List.cons.injEq] at h
      have hd := strNat_digits n d (by simp [hn])
      rw [← h.1, hdigit] at hd
      cases hd
  · rw [List.cons_append, List.cons.injEq] at h
    exact hrough h.1

theorem counting_exact (m n : Nat) (h : counting_words (strNat m ++ " items".toList) n) : m = n := by
  rcases h with h | h
  · exact strNat_injective m n (List.append_cancel_right h)
  · cases hm : strNat m with
    | nil => exact absurd hm Nat.toDigits_ne_nil
    | cons d ds =>
      rw [hm, List.cons_append, List.cons_append, List.cons.injEq] at h
      have hd := strNat_digits m d (by simp [hm])
      rw [h.1] at hd
      exact absurd hd (by decide)

theorem empty_words : "📦 empty".toList = "📦 ".toList ++ 'e' :: "mpty".toList := by decide

theorem error_words : "📦 error: ".toList = "📦 ".toList ++ 'e' :: "rror: ".toList := by decide

theorem ok_words : "📦 ok".toList = "📦 ".toList ++ 'o' :: "k".toList := by decide

theorem stream_states_iff (words : Str) (n : Nat) :
    StreamStates ("📦 ".toList ++ words) n ↔ counting_words words n := by
  constructor
  · rintro ⟨words', h, hcount⟩
    rwa [List.append_cancel_left h]
  · exact fun h => ⟨words, rfl, h⟩

theorem count_items_none (py : Runtime) (t : Str) (hne : (strip t).isEmpty = false)
    (h : count_items py t = none) : (non_empty_lines t).length ≤ 1 := by
  rw [count_items, hne, if_neg (by simp), Option.or_eq_none_iff, Option.or_eq_none_iff] at h
  exact row_count_none t h.2.2

/-- A streamed count is the count of the redacted result; the rough count is
never given. -/
theorem streamed_counts (py : Runtime) (t : Str) (n : Nat)
    (h : StreamStates (summarize_tool_result py t) n) : count_items py t = some n := by
  unfold summarize_tool_result at h
  simp only at h
  split at h
  · rw [empty_words, stream_states_iff] at h
    exact absurd h (words_not_counting _ _ _ (by decide) (by decide))
  · next hne =>
    split at h
    · rw [error_words, List.append_assoc, stream_states_iff, List.cons_append] at h
      exact absurd h (words_not_counting _ _ _ (by decide) (by decide))
    · split at h
      · next m hcount =>
        split at h
        · rw [empty_words, stream_states_iff] at h
          exact absurd h (words_not_counting _ _ _ (by decide) (by decide))
        · rw [List.append_assoc, stream_states_iff] at h
          rw [hcount, counting_exact m n h]
      · next hcount =>
        have hlines := count_items_none py t (by simpa using hne) hcount
        rw [if_pos hlines, ok_words, stream_states_iff] at h
        exact absurd h (words_not_counting _ _ _ (by decide) (by decide))

/-- The tool result texts of a run: as first appended, or summarised. -/
inductive RunText (py : Runtime) : Str → Prop
  | framed (name shown : Str) : RunText py (framed_result name shown)
  | blocked (name : Str) :
      RunText py (['['] ++ name ++ "] blocked: arguments failed guardrail check".toList)
  | not_found (name : Str) :
      RunText py (['['] ++ name ++ "] error: tool not found in any adapter".toList)
  | summary (use : Str × Json) (replaced : Str) :
      RunText py (summarize_for_context py use.1 use.2 replaced)

theorem RunText.by_lines {py : Runtime} {text : Str} (h : RunText py text) :
    ReadByLines py text := by
  cases h with
  | framed name shown => exact framed_by_lines py name shown
  | blocked name => exact refusal_by_lines py name _ 'k' (by decide) (by decide) (by decide)
  | not_found name => exact refusal_by_lines py name _ 'r' (by decide) (by decide) (by decide)
  | summary use replaced => exact summary_by_lines py use replaced

theorem RunText.head {py : Runtime} {text : Str} (h : RunText py text) :
    ∃ c rest, text = c :: rest ∧ (c = '<' ∨ c = '[') := by
  cases h with
  | framed name shown => exact ⟨'<', _, rfl, .inl rfl⟩
  | blocked name => exact ⟨'[', _, rfl, .inr rfl⟩
  | not_found name => exact ⟨'[', _, rfl, .inr rfl⟩
  | summary use replaced => exact ⟨'[', _, rfl, .inr rfl⟩

/-- A text of a run is counted by its lines. -/
theorem RunText.count {py : Runtime} {text : Str} (h : RunText py text) :
    count_items py text =
      if 1 < (non_empty_lines text).length then some (non_empty_lines text).length else none := by
  obtain ⟨c, rest, rfl, hc⟩ := h.head
  have hspace : isspace c = false := by rcases hc with rfl | rfl <;> decide
  have hstrip : strip (c :: rest) = c :: rstrip rest :=
    strip_append [c] rest (by simp) (by simpa using hspace) (by simpa using hspace)
  have hrows : count_items py (c :: rest) = row_count (c :: rest) := by
    obtain ⟨d, tail, hd, hread⟩ := h.by_lines
    rw [count_items, hd, List.isEmpty_cons, if_neg (by simp)]
    rcases hread with rfl | ⟨rfl, hloads⟩
    · rfl
    · have hnone : array_count py ('[' :: tail) = none := by
        unfold array_count
        split
        · split
          · next v hv => exact absurd hv (hloads v)
          · rfl
        · rfl
      rw [hnone]
      rfl
  have hupper : c.isUpper = false := by rcases hc with rfl | rfl <;> decide
  rw [hrows, row_count_marked c rest hspace hupper]

def RunTexts (py : Runtime) (m : Message) : Prop := ∀ t ∈ result_texts m, RunText py t

theorem calls_trace_texts (py : Runtime) (cfg : LoopConfig) (a : RunArgs) (routes : Routes)
    (us : List ToolUse) (d : Dialogue) (out : List ToolResult × List Str)
    (h : CallsTrace py cfg a routes us d out) :
    ∀ r ∈ out.1, ∀ t ∈ r.content.filterMap item_text, RunText py t :=
  calls_trace_results (RunText py) .framed .blocked .not_found py cfg a routes us d out h

theorem trimmed_texts (py : Runtime) (cfg : LoopConfig) (ms : List Message)
    (h : ∀ m ∈ ms, RunTexts py m) : ∀ m ∈ trimmed py cfg ms, RunTexts py m := by
  intro m hm
  obtain ⟨i, hi⟩ := List.getElem?_of_mem hm
  rw [trimmed, trim_get] at hi
  split at hi
  · rw [Option.map_eq_some_iff] at hi
    obtain ⟨o, _, rfl⟩ := hi
    intro t ht
    obtain ⟨id, text, _, rfl⟩ := trimmed_items py ms i o t ht
    exact .summary _ text
  · exact h m (List.mem_of_getElem? hi)

theorem after_turn_texts (py : Runtime) (cfg : LoopConfig) (a : RunArgs) (routes : Routes)
    (st : LoopState) (ms : List Message) (resp : Response) (us : List ToolUse) (d : Dialogue)
    (out : List ToolResult × List Str) (hcalls : CallsTrace py cfg a routes us d out)
    (h : ∀ m ∈ ms, RunTexts py m) : ∀ m ∈ (after_turn st ms resp out).messages, RunTexts py m := by
  have hout := calls_trace_texts py cfg a routes us d out hcalls
  intro m hm
  simp only [after_turn, List.mem_append, List.mem_cons, List.not_mem_nil, or_false] at hm
  rcases hm with hm | rfl | rfl
  · exact h m hm
  · simp [RunTexts, assistant_texts]
  · intro t ht
    rw [user_texts, List.mem_flatMap] at ht
    obtain ⟨r, hr, ht⟩ := ht
    exact hout r hr t ht

/-- Every result a model call shows is a text of the run. -/
theorem loop_trace_texts (py : Runtime) (cfg : LoopConfig) (a : RunArgs)
    (specs : List (ToolSpec × Str)) (loop_start : ℚ) (left : Nat) (st : LoopState) (d : Dialogue)
    (r : Except Exn (Str × List Message)) (h : LoopTrace py cfg a specs loop_start left st d r)
    (hst : ∀ m ∈ st.messages, RunTexts py m) :
    ∀ call answer, (⟨.converse call, answer⟩ : Sigma Answer) ∈ d →
      ∀ m ∈ call.messages, RunTexts py m := by
  induction h with
  | exhausted _ _ => simp
  | failed _ =>
    intro call answer hmem
    simp only [List.mem_cons, Sigma.mk.injEq, reduceCtorEq, false_and, false_or, List.not_mem_nil,
      or_false, Ask.converse.injEq] at hmem
    rw [hmem.1]
    exact trimmed_texts py cfg _ hst
  | answered _ _ =>
    intro call answer hmem
    simp only [List.mem_cons, Sigma.mk.injEq, reduceCtorEq, false_and, false_or, List.not_mem_nil,
      or_false, Ask.converse.injEq] at hmem
    rw [hmem.1]
    exact trimmed_texts py cfg _ hst
  | turn _ _ hcalls _ ih =>
    have hnext := trimmed_texts py cfg _ hst
    intro call answer hmem
    simp only [List.cons_append, List.mem_cons, Sigma.mk.injEq, reduceCtorEq, false_and, false_or,
      List.mem_append, Ask.converse.injEq] at hmem
    rcases hmem with hhere | hin | hlater
    · rw [hhere.1]
      exact hnext
    · exact absurd (calls_trace_talk py cfg a _ _ _ _ hcalls _ hin) (by simp [topic])
    · exact ih (after_turn_texts py cfg a _ _ _ _ _ _ _ hcalls hnext) call answer hlater

theorem run_texts (py : Runtime) (cfg : LoopConfig) (a : RunArgs) (tr : List Ev)
    (r : Except Exn (Str × List Message)) (h : Path (run_agentic_loop py cfg a) tr r) :
    ∀ call ∈ converse_calls tr, ∀ m ∈ call.messages, RunTexts py m := by
  obtain ⟨loop_start, listing, specs, body, hd, hlist, hloop⟩ :=
    (run_path_trace py cfg a tr r h).split
  have hinit : ∀ m ∈ (initial_state a).messages, RunTexts py m := by
    simp [initial_state, RunTexts, result_texts, result_items, block_items]
  intro call hcall
  obtain ⟨answer, hmem⟩ := (mem_converse_calls tr call).mp hcall
  rw [hd] at hmem
  simp only [List.cons_append, List.mem_cons, Sigma.mk.injEq, reduceCtorEq, false_and, false_or,
    List.mem_append] at hmem
  rcases hmem with hin | hin
  · exact absurd (list_trace_topic _ _ _ hlist _ hin) (by simp [topic])
  · exact loop_trace_texts py cfg a specs loop_start _ _ body r hloop hinit call answer hin

/-- A result some call shows as a context summary for the first time or again. -/
structure ContextSummary where
  original : Str
  replaced : Str
  shown : Str
deriving DecidableEq

def context_summary (texts : Str × Str × Str) : ContextSummary := ⟨texts.1, texts.2.1, texts.2.2⟩

/-- The summaries two calls in a row come to differ by, each with the text it
replaces and the text the result was first appended with. -/
def context_summaries (cfg : LoopConfig) (calls : List ConverseCall) : List ContextSummary :=
  if !cfg.CONTEXT_TRIM_ENABLED then []
  else calls.flatMap (fun first => calls.flatMap (fun earlier => calls.flatMap (fun later =>
    if later.messages.length = earlier.messages.length + 2 then
      (indices_to_trim later.messages cfg.CONTEXT_KEEP_LAST_N).flatMap (fun i =>
        if first.messages.length = i + 1 then
          match first.messages[i]?, earlier.messages[i]?, later.messages[i]? with
          | some original, some replaced, some shown =>
            ((result_texts original).zip
              ((result_texts replaced).zip (result_texts shown))).map context_summary
          | _, _, _ => []
        else [])
    else [])))

/-- The tool results of a run, after the guardrail's redaction. -/
def redacted_results (tr : List Ev) : List Str :=
  (asks tr).filterMap (fun s => match s with
    | ⟨.guardrail_apply raw .OUTPUT _, verdict⟩ => some (redacted raw verdict)
    | _ => none)

/-- The summary is of the result whose redacted text is `t`. -/
def SummaryOf (py : Runtime) (cfg : LoopConfig) (s : ContextSummary) (t : Str) : Prop :=
  ∃ name, s.original = framed_result name (truncate_with_marker py t cfg.MAX_TOOL_RESULT_CHARS)

/-- The summary reads `shape:n items`. -/
def ShapeStates (py : Runtime) (s : ContextSummary) (n : Nat) : Prop :=
  (∃ use : Str × Json, s.shown = summarize_for_context py use.1 use.2 s.replaced) ∧
    count_items py s.replaced = some n

/-- Every item count given for a result is the count of its redacted text. -/
structure CountsAgree (py : Runtime) (cfg : LoopConfig) (tr : List Ev) : Prop where
  marker : ∀ t ∈ redacted_results tr, ∀ n, MarkerStates py cfg.MAX_TOOL_RESULT_CHARS t n →
    count_items py t = some n
  streamed : ∀ pre raw ids verdict name summary post, tr = pre ++
    .asked (.guardrail_apply raw .OUTPUT ids) verdict ::
      .emitted (.StepToolResult name summary) :: post →
    ∀ n, StreamStates summary n → count_items py (redacted raw verdict) = some n
  shapes : ∀ s ∈ context_summaries cfg (converse_calls tr), ∀ t ∈ redacted_results tr,
    SummaryOf py cfg s t → ∀ n, ShapeStates py s n → count_items py t = some n

/-- Where a context summary replaces a text of several lines, the result has as
many items as that text, frame included, has lines. -/
def LinesMatch (py : Runtime) (cfg : LoopConfig) (tr : List Ev) : Prop :=
  ∀ s ∈ context_summaries cfg (converse_calls tr), ∀ t ∈ redacted_results tr,
    SummaryOf py cfg s t → 1 < (non_empty_lines s.replaced).length →
      count_items py t = some (non_empty_lines s.replaced).length

/-- Where a context summary comes from. -/
theorem mem_context_summaries (cfg : LoopConfig) (calls : List ConverseCall) (s : ContextSummary)
    (h : s ∈ context_summaries cfg calls) :
    ∃ earlier ∈ calls, ∃ later ∈ calls, ∃ i replaced shown,
      cfg.CONTEXT_TRIM_ENABLED = true ∧
      later.messages.length = earlier.messages.length + 2 ∧
      i ∈ indices_to_trim later.messages cfg.CONTEXT_KEEP_LAST_N ∧
      earlier.messages[i]? = some replaced ∧ later.messages[i]? = some shown ∧
      (s.replaced, s.shown) ∈ (result_texts replaced).zip (result_texts shown) := by
  unfold context_summaries at h
  split at h
  · simp at h
  · next henabled =>
    simp only [List.mem_flatMap] at h
    obtain ⟨first, hfirst, earlier, hearlier, later, hlater, h⟩ := h
    split at h
    · next hnext =>
      simp only [List.mem_flatMap] at h
      obtain ⟨i, hi, h⟩ := h
      split at h
      · split at h
        · next original replaced shown _ hreplaced hshown =>
          obtain ⟨texts, htexts, rfl⟩ := List.mem_map.mp h
          exact ⟨earlier, hearlier, later, hlater, i, replaced, shown, by simpa using henabled,
            hnext, hi, hreplaced, hshown, (List.of_mem_zip htexts).2⟩
        · cases h
      · cases h
    · cases h

theorem trimmed_result_texts (py : Runtime) (ms : List Message) (idx : Nat) (m : Message) :
    result_texts (trim_message py ms idx m) = (result_items m).map (fun item =>
      summarize_for_context py (find_paired_tool_use ms idx item.1).1
        (find_paired_tool_use ms idx item.1).2 item.2) := by
  have hblock : ∀ b, block_items (trim_block py (find_paired_tool_use ms idx) b) =
      (block_items b).map (fun item => (item.1, summarize_for_context py
        (find_paired_tool_use ms idx item.1).1 (find_paired_tool_use ms idx item.1).2 item.2)) := by
    intro b
    cases b with
    | text t => rfl
    | toolUse u => rfl
    | toolResult r =>
      have hitems : ∀ items : List ResultItem,
          (items.map (trim_item py (find_paired_tool_use ms idx r.toolUseId))).filterMap item_text =
            (items.filterMap item_text).map (summarize_for_context py
              (find_paired_tool_use ms idx r.toolUseId).1
              (find_paired_tool_use ms idx r.toolUseId).2) := by
        intro items
        rw [List.filterMap_map, List.map_filterMap]
        congr 1
        funext item
        cases item <;> rfl
      simp only [trim_block, trim_result, block_items, hitems, List.map_map]
      rfl
  rw [result_texts, result_items, trim_message, List.flatMap_map, result_items, List.map_flatMap,
    List.map_flatMap]
  congr 1
  funext b
  rw [hblock, List.map_map]
  rfl

/-- From one call to the next a result old enough is summarised once more. -/
theorem next_call_trims (py : Runtime) (cfg : LoopConfig) (a : RunArgs) (tr : List Ev)
    (r : Except Exn (Str × List Message)) (h : Path (run_agentic_loop py cfg a) tr r)
    (earlier later : ConverseCall) (hearlier : earlier ∈ converse_calls tr)
    (hlater : later ∈ converse_calls tr) (henabled : cfg.CONTEXT_TRIM_ENABLED = true)
    (hnext : later.messages.length = earlier.messages.length + 2) (i : Nat)
    (hi : i ∈ indices_to_trim later.messages cfg.CONTEXT_KEEP_LAST_N) :
    ∃ full, later.messages[i]? = (earlier.messages[i]?).map (trim_message py full i) := by
  obtain ⟨full, _, hfull⟩ := run_replayed py cfg a tr r h
  obtain ⟨answer, hearlier⟩ := (mem_converse_calls tr earlier).mp hearlier
  obtain ⟨answer', hlater⟩ := (mem_converse_calls tr later).mp hlater
  obtain ⟨u, _, hu, hmsgs⟩ := hfull.calls earlier answer hearlier
  obtain ⟨v, _, hv, hmsgs'⟩ := hfull.calls later answer' hlater
  have hlen : (full.take (2 * v + 1)).length = (full.take (2 * u + 1)).length + 2 := by
    rw [hmsgs, hmsgs', rewritten_length, rewritten_length] at hnext
    exact hnext
  have huv : v = u + 1 := by
    rw [hu.length, hv.length] at hlen
    omega
  have hturned : Turned v later.messages := by
    rw [hmsgs']
    exact rewritten_turned py v _ _ hv
  obtain ⟨hpos, heven, hold⟩ := (mem_indices_to_trim v _ hturned _ i).mp hi
  have hcount : trims cfg v i = trims cfg u i + 1 := by
    rw [trims, trims, if_pos ⟨henabled, hpos, heven⟩, if_pos ⟨henabled, hpos, heven⟩]
    omega
  have hpre : full.take (2 * u + 1) ++ (full.drop (2 * u + 1)).take 2 = full.take (2 * v + 1) := by
    rw [huv, show 2 * (u + 1) + 1 = 2 * u + 1 + 2 by ring]
    exact List.take_add.symm
  have hstep : trim_message py (full.take (2 * v + 1)) i =
      trim_message py (full.take (2 * u + 1)) i := by
    rw [← hpre]
    exact funext (fun m => trim_message_append py _ _ i m (by rw [hu.length]; omega))
  refine ⟨full.take (2 * v + 1), ?_⟩
  rw [hmsgs, hmsgs', rewritten_get, rewritten_get, hcount, Function.iterate_succ', hstep,
    List.getElem?_take_of_lt (by omega), List.getElem?_take_of_lt (by omega), Option.map_map]

/-- A summary of a run shows what its replaced text is summarised to, and that
text is one of the run's. -/
theorem run_summaries (py : Runtime) (cfg : LoopConfig) (a : RunArgs) (tr : List Ev)
    (r : Except Exn (Str × List Message)) (h : Path (run_agentic_loop py cfg a) tr r)
    (s : ContextSummary) (hs : s ∈ context_summaries cfg (converse_calls tr)) :
    RunText py s.replaced ∧
      ∃ use : Str × Json, s.shown = summarize_for_context py use.1 use.2 s.replaced := by
  obtain ⟨earlier, hearlier, later, hlater, i, replaced, shown, henabled, hnext, hi, hreplaced,
    hshown, hzip⟩ := mem_context_summaries cfg _ s hs
  obtain ⟨full, htrim⟩ := next_call_trims py cfg a tr r h earlier later hearlier hlater henabled
    hnext i hi
  constructor
  · exact run_texts py cfg a tr r h earlier hearlier replaced (List.mem_of_getElem? hreplaced) _
      (List.of_mem_zip hzip).1
  · rw [hreplaced, hshown, Option.map_some, Option.some.injEq] at htrim
    rw [htrim, trimmed_result_texts, result_texts, List.zip_map', List.mem_map] at hzip
    obtain ⟨item, _, hitem⟩ := hzip
    simp only [Prod.mk.injEq] at hitem
    exact ⟨find_paired_tool_use full i item.1, by rw [← hitem.2, ← hitem.1]⟩

def IsToolResult (e : Ev) : Prop := ∃ name summary, e = .emitted (.StepToolResult name summary)

/-- A tool result streamed right after its guardrail check is the summary of
the redacted text. -/
def Summarises (py : Runtime) (x y : Ev) : Prop :=
  ∀ raw ids verdict name summary, x = .asked (.guardrail_apply raw .OUTPUT ids) verdict →
    y = .emitted (.StepToolResult name summary) →
    summary = summarize_tool_result py (redacted raw verdict)

/-- The events of a part of a streamed run, one after the other. -/
structure Shows (py : Runtime) (tr : List Ev) : Prop where
  chain : tr.IsChain (Summarises py)
  head : ∀ e ∈ tr.head?, ¬ IsToolResult e

theorem summarises_plain (py : Runtime) (x y : Ev) (h : ¬ IsToolResult y) : Summarises py x y :=
  fun _ _ _ name summary _ hy => absurd ⟨name, summary, hy⟩ h

theorem shows_plain (py : Runtime) (tr : List Ev) (h : ∀ e ∈ tr, ¬ IsToolResult e) :
    Shows py tr := by
  refine ⟨?_, fun e he => h e (List.mem_of_mem_head? he)⟩
  induction tr with
  | nil => exact .nil
  | cons x tr ih =>
    cases tr with
    | nil => exact .singleton x
    | cons y tr =>
      exact List.isChain_cons_cons.mpr
        ⟨summarises_plain py x y (h y (by simp)), ih (fun e he => h e (by simp [he]))⟩

theorem Shows.append {py : Runtime} {s t : List Ev} (hs : Shows py s) (ht : Shows py t) :
    Shows py (s ++ t) := by
  constructor
  · exact List.isChain_append.mpr ⟨hs.chain, ht.chain,
      fun x _ y hy => summarises_plain py x y (ht.head y hy)⟩
  · intro e he
    cases s with
    | nil => exact ht.head e he
    | cons x s => exact hs.head e he

theorem shows_asked (py : Runtime) (e : Ask) (answer : Answer e) (tr : List Ev)
    (h : Shows py tr) : Shows py (.asked e answer :: tr) := by
  have hone : Shows py [.asked e answer] := by
    refine shows_plain py _ (fun x hx => ?_)
    rw [List.mem_singleton] at hx
    rintro ⟨name, summary, hresult⟩
    rw [hx] at hresult
    cases hresult
  exact hone.append h

theorem silent_path {α : Type} (p : M α) (hp : Silent p) (tr : List Ev) (r : Except Exn α)
    (h : Path p tr r) : ∀ e ∈ tr, ¬ IsToolResult e := by
  induction p generalizing tr with
  | done s =>
    obtain ⟨rfl, _⟩ := (path_done _ _ _).mp h
    simp
  | ask q k ih =>
    obtain ⟨answer, rest, rfl, hrest⟩ := (path_ask _ _ _ _).mp h
    refine List.forall_mem_cons.mpr ⟨?_, ih answer (hp answer) rest hrest⟩
    rintro ⟨name, summary, hresult⟩
    cases hresult
  | emit o p _ => exact absurd hp id

theorem yieldAll_shows (py : Runtime) (es : List StepEvent)
    (hes : ∀ e ∈ es, ¬ IsToolResult (.emitted e)) (tr : List Ev) (r : Except Exn Unit)
    (h : Path (yieldAll es) tr r) : Shows py tr := by
  refine shows_plain py tr ?_
  induction es generalizing tr with
  | nil =>
    obtain ⟨rfl, _⟩ := (path_done _ _ _).mp h
    simp
  | cons e es ih =>
    obtain ⟨rest, rfl, hrest⟩ := (path_emit _ _ _ _).mp h
    exact List.forall_mem_cons.mpr
      ⟨hes e (by simp), ih (fun x hx => hes x (by simp [hx])) rest hrest⟩

/-- The check of a result and its streamed summary. -/
theorem summary_shows (py : Runtime) (raw : Str) (ids : Ids) (verdict : Verdict) (name : Str) :
    Shows py [.asked (.guardrail_apply raw .OUTPUT ids) verdict,
      .emitted (.StepToolResult name (summarize_tool_result py (redacted raw verdict)))] := by
  refine ⟨List.isChain_cons_cons.mpr ⟨?_, .singleton _⟩, fun e he => ?_⟩
  · intro raw' ids' verdict' name' summary hx hy
    cases hx
    cases hy
    rfl
  · rw [List.head?_cons, Option.mem_def, Option.some.injEq] at he
    rw [← he]
    rintro ⟨name', summary, hresult⟩
    cases hresult

theorem tool_call_shows (py : Runtime) (cfg : LoopConfig) (a : RunArgs) (routes : Routes)
    (u : ToolUse) (tr : List Ev) (r : Except Exn (ToolResult × List Str))
    (h : Path (tool_call_streaming py cfg a routes u) tr r) : Shows py tr := by
  have hcall : ∀ shown, ¬ IsToolResult (.emitted (.StepToolCall u.name shown)) := by
    rintro shown ⟨name, summary, hresult⟩
    cases hresult
  have hchecked : ∀ shown verdict summary, Shows py
      [.emitted (.StepToolCall u.name shown),
        .asked (.guardrail_apply (dumps true u.input) .INPUT a.ids) verdict,
        .emitted (.StepToolResult u.name summary)] := by
    intro shown verdict summary
    refine ⟨?_, fun e he => ?_⟩
    · refine List.isChain_cons_cons.mpr ⟨?_, List.isChain_cons_cons.mpr ⟨?_, .singleton _⟩⟩
      · intro _ _ _ _ _ hx
        cases hx
      · intro _ _ _ _ _ hx
        cases hx
    · rw [List.head?_cons, Option.mem_def, Option.some.injEq] at he
      rw [← he]
      exact hcall shown
  cases hs : sanitize_args_for_display py u.input with
  | error e =>
    rw [tool_call_streaming_error py cfg a routes u e hs, path_done] at h
    exact shows_plain py tr (by simp [h.1])
  | ok shown =>
    rw [tool_call_streaming_ok py cfg a routes u shown hs, path_emit] at h
    obtain ⟨rest, rfl, h⟩ := h
    rw [path_ask] at h
    obtain ⟨verdict, rest, rfl, h⟩ := h
    by_cases hv : verdict = .accepted
    · rw [if_pos hv] at h
      cases hroute : resolve routes u.name with
      | none =>
        rw [hroute] at h
        obtain ⟨_, rfl, hrest⟩ := (path_emit _ _ _ _).mp h
        obtain ⟨rfl, _⟩ := (path_done _ _ _).mp hrest
        exact hchecked shown verdict _
      | some adapter_name =>
        rw [hroute] at h
        have hlead : Shows py [.emitted (.StepToolCall u.name shown)] :=
          shows_plain py _ (by simpa using hcall shown)
        refine hlead.append (shows_asked py _ verdict rest ?_)
        rcases (path_bind _ _ _ _).mp h with ⟨x, hx, _⟩ | ⟨raw, pool, rest, rfl, hpool, hrest⟩
        · exact shows_plain py _ (silent_path _ (pool_call_tool_silent _ _ _ _) _ _ hx)
        · have hquiet := silent_path _ (pool_call_tool_silent _ _ _ _) _ _ hpool
          refine (shows_plain py pool hquiet).append ?_
          rw [path_ask] at hrest
          obtain ⟨verdict', _, rfl, hshown⟩ := hrest
          obtain ⟨_, rfl, hend⟩ := (path_emit _ _ _ _).mp hshown
          obtain ⟨rfl, _⟩ := (path_done _ _ _).mp hend
          exact summary_shows py raw a.ids verdict' u.name
    · rw [if_neg hv] at h
      obtain ⟨_, rfl, hrest⟩ := (path_emit _ _ _ _).mp h
      obtain ⟨rfl, _⟩ := (path_done _ _ _).mp hrest
      exact hchecked shown verdict _

theorem tool_call_silent (py : Runtime) (cfg : LoopConfig) (a : RunArgs) (routes : Routes)
    (u : ToolUse) : Silent (tool_call py cfg a routes u) := by
  rw [tool_call_eq]
  intro verdict
  show Silent (if verdict = .accepted then _ else _)
  split
  · split
    · trivial
    · exact silent_bind _ _ (pool_call_tool_silent _ _ _ _) (fun raw verdict => trivial)
  · trivial

theorem tool_calls_silent (py : Runtime) (cfg : LoopConfig) (a : RunArgs) (routes : Routes)
    (us : List ToolUse) : Silent (tool_calls py cfg a routes us) := by
  induction us with
  | nil => trivial
  | cons u us ih =>
    rw [tool_calls_cons]
    exact silent_bind _ _ (tool_call_silent py cfg a routes u)
      (fun out => silent_bind _ _ ih (fun rest => trivial))

theorem degraded_answer_silent (cfg : LoopConfig) (st : LoopState) (elapsed : ℚ) :
    Silent (degraded_answer cfg st elapsed) := by
  obtain ⟨r, hr⟩ := degraded_answer_done cfg st elapsed
  rw [hr]
  trivial

theorem loop_silent (py : Runtime) (cfg : LoopConfig) (a : RunArgs)
    (specs : List (ToolSpec × Str)) (loop_start : ℚ) (left : Nat) (st : LoopState) :
    Silent (loop py cfg a specs loop_start left st) := by
  induction left generalizing st with
  | zero =>
    rw [loop_zero]
    exact fun now => degraded_answer_silent cfg st _
  | succ left ih =>
    rw [loop_succ]
    intro now
    show Silent (if budget_left cfg st (elapsed_ms loop_start now) then _ else _)
    split
    · intro answer
      cases answer with
      | error e => trivial
      | ok resp =>
        show Silent (respond py cfg a specs loop_start left st _ resp)
        by_cases hresp : requests_tools resp
        · rw [respond_turn _ _ _ _ _ _ _ _ _ hresp]
          exact silent_bind _ _ (tool_calls_silent py cfg a _ _) (fun out => ih _)
        · rw [respond_answered _ _ _ _ _ _ _ _ _ hresp]
          trivial
    · exact degraded_answer_silent cfg st _

theorem run_agentic_loop_silent (py : Runtime) (cfg : LoopConfig) (a : RunArgs) :
    Silent (run_agentic_loop py cfg a) := by
  rw [run_agentic_loop_eq]
  exact fun loop_start => silent_bind _ _ (list_specs_silent _)
    (fun specs => loop_silent py cfg a specs loop_start _ _)

theorem tool_calls_shows (py : Runtime) (cfg : LoopConfig) (a : RunArgs) (routes : Routes)
    (us : List ToolUse) (tr : List Ev) (r : Except Exn (List ToolResult × List Str))
    (h : Path (tool_calls_streaming py cfg a routes us) tr r) : Shows py tr := by
  induction us generalizing tr r with
  | nil =>
    obtain ⟨rfl, _⟩ := (path_done _ _ _).mp h
    exact shows_plain py [] (by simp)
  | cons u us ih =>
    rw [tool_calls_streaming_cons] at h
    rcases (path_bind _ _ _ _).mp h with ⟨x, hx, _⟩ | ⟨out, tr₁, tr₂, rfl, h₁, h₂⟩
    · exact tool_call_shows py cfg a routes u tr _ hx
    · refine (tool_call_shows py cfg a routes u tr₁ _ h₁).append ?_
      rcases (path_bind _ _ _ _).mp h₂ with ⟨x, hx, _⟩ | ⟨rest, tr₃, tr₄, rfl, h₃, h₄⟩
      · exact ih tr₂ _ hx
      · obtain ⟨rfl, _⟩ := (path_done _ _ _).mp h₄
        simpa using ih tr₃ _ h₃

theorem answer_events_plain (resp : Response) :
    ∀ e ∈ answer_events resp, ¬ IsToolResult (.emitted e) := by
  intro e he
  rintro ⟨name, summary, hresult⟩
  cases hresult
  unfold answer_events at he
  split at he
  · simp [final_events, stop] at he
  · simp only [no_tool_events, stop] at he
    split at he <;> simp at he

theorem thinking_plain (resp : Response) :
    ∀ e ∈ thinking resp, ¬ IsToolResult (.emitted e) := by
  intro e he
  rintro ⟨name, summary, hresult⟩
  cases hresult
  rcases List.mem_append.mp he with he | he
  · obtain ⟨block, _, hblock⟩ := List.mem_filterMap.mp he
    cases block with
    | reasoning t => by_cases ht : t.isEmpty = true <;> simp [thinking_block, ht] at hblock
    | _ => cases hblock
  · split at he
    · simp at he
    · cases he

theorem degraded_events_plain (st : LoopState) :
    ∀ e ∈ degraded_events st, ¬ IsToolResult (.emitted e) := by
  intro e he
  rintro ⟨name, summary, hresult⟩
  cases hresult
  simp [degraded_events] at he

theorem loop_streaming_shows (py : Runtime) (cfg : LoopConfig) (thinks : Bool) (a : RunArgs)
    (specs : List (ToolSpec × Str)) (loop_start : ℚ) (left : Nat) (st : LoopState) (tr : List Ev)
    (r : Except Exn Unit)
    (h : Path (loop_streaming py cfg thinks a specs loop_start left st) tr r) : Shows py tr := by
  induction left generalizing st tr with
  | zero =>
    rw [loop_streaming_zero, path_ask] at h
    obtain ⟨now, rest, rfl, hrest⟩ := h
    exact shows_asked py _ _ _ (yieldAll_shows py _ (degraded_events_plain st) _ _ hrest)
  | succ left ih =>
    rw [loop_streaming_succ, path_ask] at h
    obtain ⟨now, rest, rfl, hrest⟩ := h
    refine shows_asked py _ _ _ ?_
    split at hrest
    · split at hrest
      · obtain ⟨rfl, _⟩ := (path_done _ _ _).mp hrest
        exact shows_plain py [] (by simp)
      · rw [path_ask] at hrest
        obtain ⟨answer, rest, rfl, hanswer⟩ := hrest
        refine shows_asked py _ _ _ ?_
        cases answer with
        | error e =>
          obtain ⟨rfl, _⟩ := (path_done _ _ _).mp hanswer
          exact shows_plain py [] (by simp)
        | ok resp =>
          obtain ⟨thought, rest, rfl, _, hthought, hturn⟩ := emitted_quiet _ _ _ _ hanswer
          refine (yieldAll_shows py _ (thinking_plain resp) _ _ hthought).append ?_
          by_cases hresp : requests_tools resp
          · rw [respond_streaming_turn _ _ _ _ _ _ _ _ _ _ hresp] at hturn
            rcases (path_bind _ _ _ _).mp hturn with ⟨x, hx, _⟩ | ⟨out, mid, rest, rfl, h₁, h₂⟩
            · exact tool_calls_shows py cfg a _ _ _ _ hx
            · exact (tool_calls_shows py cfg a _ _ _ _ h₁).append (ih _ _ h₂)
          · rw [respond_streaming_answered _ _ _ _ _ _ _ _ _ _ hresp] at hturn
            exact yieldAll_shows py _ (answer_events_plain resp) _ _ hturn
    · exact yieldAll_shows py _ (degraded_events_plain st) _ _ hrest

theorem run_streaming_shows (py : Runtime) (cfg : LoopConfig) (thinks : Bool) (a : RunArgs)
    (tr : List Ev) (r : Except Exn Unit)
    (h : Path (run_agentic_loop_streaming py cfg thinks a) tr r) : Shows py tr := by
  rw [run_agentic_loop_streaming_eq, path_ask] at h
  obtain ⟨loop_start, rest, rfl, hrest⟩ := h
  refine shows_asked py _ _ _ ?_
  rcases (path_bind _ _ _ _).mp hrest with ⟨x, hx, _⟩ | ⟨specs, listing, body, rfl, hlist, hbody⟩
  · exact shows_plain py _ (silent_path _ (list_specs_silent _) _ _ hx)
  · exact (shows_plain py _ (silent_path _ (list_specs_silent _) _ _ hlist)).append
      (loop_streaming_shows py cfg thinks a specs loop_start _ _ body r hbody)

/-- The events of some run of the agentic loop, silent or streaming. -/
inductive AgenticRun (py : Runtime) (cfg : LoopConfig) (a : RunArgs) (tr : List Ev) : Prop
  | silent (r : Except Exn (Str × List Message)) (h : Path (run_agentic_loop py cfg a) tr r)
  | streaming (thinks : Bool) (r : Except Exn Unit)
      (h : Path (run_agentic_loop_streaming py cfg thinks a) tr r)

theorem AgenticRun.shows {py : Runtime} {cfg : LoopConfig} {a : RunArgs} {tr : List Ev}
    (h : AgenticRun py cfg a tr) : Shows py tr := by
  cases h with
  | silent r h =>
    exact shows_plain py tr (silent_path _ (run_agentic_loop_silent py cfg a) tr r h)
  | streaming thinks r h => exact run_streaming_shows py cfg thinks a tr r h

/-- The model calls of a run are the first ones of a silent run. -/
theorem AgenticRun.silent_calls {py : Runtime} {cfg : LoopConfig} {a : RunArgs} {tr : List Ev}
    (h : AgenticRun py cfg a tr) : ∃ tr' r, Path (run_agentic_loop py cfg a) tr' r ∧
      converse_calls tr <+: converse_calls tr' := by
  cases h with
  | silent r h => exact ⟨tr, r, h, List.prefix_rfl⟩
  | streaming thinks r h =>
    have hsim : Sim (fun _ _ => True) (Agree (fun _ => True)) (run_agentic_loop py cfg a)
        (run_agentic_loop_streaming py cfg thinks a) :=
      run_sim py cfg thinks a (fun _ => trivial) (.inl trivial)
    obtain ⟨rest, pre, _, hpre, hpath⟩ := hsim.path_prefix h (fun _ _ => trivial)
    obtain ⟨suf, out, hrest⟩ := exists_path rest
    refine ⟨pre ++ suf, out, hpath suf out hrest, ?_⟩
    rw [converse_calls_append, converse_calls, converse_calls, hpre]
    exact List.prefix_append _ _

theorem context_summaries_grow (cfg : LoopConfig) (calls calls' : List ConverseCall)
    (h : calls <+: calls') (s : ContextSummary) (hs : s ∈ context_summaries cfg calls) :
    s ∈ context_summaries cfg calls' := by
  unfold context_summaries at hs ⊢
  split at hs
  · simp at hs
  · next henabled =>
    rw [if_neg henabled]
    simp only [List.mem_flatMap] at hs ⊢
    obtain ⟨first, hfirst, earlier, hearlier, later, hlater, hs⟩ := hs
    exact ⟨first, h.subset hfirst, earlier, h.subset hearlier, later, h.subset hlater, hs⟩

/-- In every agentic run all reported counts of a result agree exactly when each
text a context summary replaces has as many lines, frame included, as the result
has items, or is a single line and not counted. -/
theorem counts_agree_iff (py : Runtime) (cfg : LoopConfig) (a : RunArgs) (tr : List Ev)
    (h : AgenticRun py cfg a tr) : CountsAgree py cfg tr ↔ LinesMatch py cfg tr := by
  obtain ⟨tr', r, hpath, hcalls⟩ := h.silent_calls
  have hsummary : ∀ s ∈ context_summaries cfg (converse_calls tr), RunText py s.replaced ∧
      ∃ use : Str × Json, s.shown = summarize_for_context py use.1 use.2 s.replaced :=
    fun s hs => run_summaries py cfg a tr' r hpath s (context_summaries_grow cfg _ _ hcalls s hs)
  constructor
  · intro hagree s hs t ht hof hlines
    obtain ⟨htext, hshown⟩ := hsummary s hs
    refine hagree.shapes s hs t ht hof _ ⟨hshown, ?_⟩
    rw [htext.count, if_pos hlines]
  · intro hmatch
    refine ⟨fun t _ n hn => marker_counts py _ t n hn, ?_, ?_⟩
    · intro pre raw ids verdict name summary post htr n hn
      have hchain := h.shows.chain
      rw [htr, List.isChain_append] at hchain
      have hnext := (List.isChain_cons_cons.mp hchain.2.1).1
      rw [hnext raw ids verdict name summary rfl rfl] at hn
      exact streamed_counts py _ n hn
    · intro s hs t ht hof n hn
      have hcount := hn.2
      rw [(hsummary s hs).1.count] at hcount
      split at hcount
      · next hlines =>
        rw [hmatch s hs t ht hof hlines]
        exact hcount
      · cases hcount

set_option maxRecDepth 100000 in
/-- With three calls nothing is summarised yet. -/
theorem counts_agree_three_calls : CountsAgree asciiRuntime keepOne (persistentRun 5) := by
  obtain ⟨r, hpath⟩ := persistent_path 5
  have hnone : context_summaries keepOne (converse_calls (persistentRun 5)) = [] := by
    decide +kernel
  refine (counts_agree_iff asciiRuntime keepOne sampleArgs (persistentRun 5)
    (.silent r hpath)).mpr ?_
  intro s hs
  rw [hnone] at hs
  cases hs

/-- Three pods, of which the summary at the fourth call makes seven. -/
def podSummary (s : ContextSummary) : Bool :=
  s.original = framed_result "get_pods".toList
      (truncate_with_marker asciiRuntime "NAME READY\na 1\nb 1\nc 1".toList
        keepOne.MAX_TOOL_RESULT_CHARS) &&
    s.shown = summarize_for_context asciiRuntime getPods.name getPods.input s.replaced &&
    count_items asciiRuntime s.replaced = some 7

set_option maxRecDepth 100000 in
theorem frame_counted :
    ¬ ∀ (py : Runtime) (cfg : LoopConfig) (a : RunArgs) (tr : List Ev), AgenticRun py cfg a tr →
      CountsAgree py cfg tr := by
  intro hall
  obtain ⟨r, hpath⟩ := persistent_path 7
  have hagree := hall _ _ _ _ (.silent r hpath)
  have hpods : (context_summaries keepOne (converse_calls (persistentRun 7))).any podSummary =
      true := by decide +kernel
  have hresult : "NAME READY\na 1\nb 1\nc 1".toList ∈ redacted_results (persistentRun 7) := by
    decide +kernel
  obtain ⟨s, hs, hpod⟩ := List.any_eq_true.mp hpods
  simp only [podSummary, Bool.and_eq_true, decide_eq_true_eq] at hpod
  have hseven := hagree.shapes s hs _ hresult ⟨_, hpod.1.1⟩ 7
    ⟨⟨(getPods.name, getPods.input), hpod.1.2⟩, hpod.2⟩
  exact absurd hseven (by decide +kernel)

end AigentSquad.ItemCounts
