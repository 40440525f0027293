import AigentSquad.AgenticLoop
import AigentSquad.Evidence

/-!
# What a context summary can state

A tool result of a run, trimmed or not, is never read as JSON when it is
summarised: it is framed, or a refusal, or a summary itself. Its sample is taken
from its lines, so apart from the tool name and arguments in the header a summary
states no claim that the result did not state.
-/

set_option autoImplicit false

namespace AigentSquad.SummaryText
open AigentSquad.PyText AigentSquad.PyJson AigentSquad.Truncation AigentSquad.CaseFolding
open AigentSquad.Evidence AigentSquad.AgenticLoop

/-- A text whose sample is taken from its lines. -/
def ReadByLines (py : Runtime) (text : Str) : Prop :=
  ∃ c rest, strip text = c :: rest ∧
    (c = '<' ∨ (c = '[' ∧ ∀ v, loads py (c :: rest) ≠ .ok v))

theorem framed_by_lines (py : Runtime) (tool_name result_text : Str) :
    ReadByLines py (framed_result tool_name result_text) := by
  obtain ⟨tail, htail⟩ : ∃ tail, framed_result tool_name result_text = ['<'] ++ tail := ⟨_, rfl⟩
  refine ⟨'<', rstrip tail, ?_, .inl rfl⟩
  rw [htail, strip_append ['<'] tail (by simp) (by simp; decide) (by simp; decide)]
  rfl

/-- A refusal: a name in brackets and words that end in a letter. -/
theorem refusal_by_lines (py : Runtime) (name words : Str) (c : Char)
    (hwords : words.getLast? = some c) (hspace : isspace c = false)
    (hc : c ∉ [']', ' ', '\t', '\n', '\r']) :
    ReadByLines py (['['] ++ name ++ words) := by
  have hlast : (['['] ++ name ++ words).getLast? = some c := by
    rw [List.getLast?_append, hwords]
    rfl
  have hstrip : strip (['['] ++ name ++ words) = '[' :: (name ++ words) := by
    have h := strip_append (['['] ++ name ++ words) [] (by simp) (by simp; decide)
      (by rw [hlast]; simpa using hspace)
    simpa [rstrip] using h
  refine ⟨'[', _, hstrip, .inr ⟨rfl, fun v hv => ?_⟩⟩
  obtain ⟨post, hsuffix, hpost⟩ := loads_array_closes py _ v hv
  obtain ⟨pre, hpre⟩ := hsuffix
  have hend : (']' :: post).getLast? = some c := by
    have h := hlast
    rw [List.singleton_append, List.cons_append, ← hpre, ← List.cons_append, List.getLast?_append]
      at h
    simpa [List.getLast?_cons] using h
  simp only [List.mem_cons, List.not_mem_nil, or_false, not_or] at hc
  cases post using List.reverseRecOn with
  | nil =>
    simp only [List.getLast?_singleton, Option.some.injEq] at hend
    exact hc.1 hend.symm
  | append_singleton post d =>
    obtain rfl : d = c := by simpa [List.getLast?_cons, List.getLast?_append] using hend
    have hspaces := List.dropWhile_eq_nil_iff.mp hpost d (by simp)
    simp only [List.mem_cons, List.not_mem_nil, or_false, decide_eq_true_eq] at hspaces
    tauto

theorem summary_by_lines (py : Runtime) (use : Str × Json) (text : Str) :
    ReadByLines py (summarize_for_context py use.1 use.2 text) := by
  obtain ⟨tail, htail⟩ : ∃ tail, summarize_for_context py use.1 use.2 text =
      ['[', 'c'] ++ tail := ⟨_, rfl⟩
  refine ⟨'[', 'c' :: rstrip tail, ?_, .inr ⟨rfl, fun v hv => ?_⟩⟩
  · rw [htail, strip_append ['[', 'c'] tail (by simp) (by simp; decide) (by simp; decide)]
    rfl
  · rw [loads_array_no_value py 'c' ⟨by decide, by decide⟩] at hv
    cases hv

theorem extract_sample_by_lines (py : Runtime) (c : Char) (rest : Str)
    (h : c = '<' ∨ (c = '[' ∧ ∀ v, loads py (c :: rest) ≠ .ok v)) :
    extract_sample py (c :: rest) = sample_lines (c :: rest) := by
  rcases h with rfl | ⟨rfl, hloads⟩
  · rfl
  · have hnone : (loads py ('[' :: rest)).toOption = none := by
      cases hv : loads py ('[' :: rest) with
      | error e => rfl
      | ok v => exact absurd hv (hloads v)
    unfold extract_sample
    simp [hnone]

theorem extract_top_keys_by_lines (py : Runtime) (c : Char) (rest : Str) (h : c = '<' ∨ c = '[') :
    extract_top_keys py (c :: rest) = [] := by
  rcases h with rfl | rfl <;> rfl

theorem first_lines_head (c : Char) (rest : Str) (hc : isspace c = false) :
    ∃ tail, first_lines (c :: rest) = c :: tail := by
  obtain ⟨line, lines, hlines⟩ := splitlines_head c rest (not_break_of_not_space c hc)
  have hstrip : strip (c :: line) = c :: rstrip line :=
    strip_append [c] line (by simp) (by simpa using hc) (by simpa using hc)
  have hjoin : ∀ xs, ∃ tail, join "; ".toList ((c :: rstrip line) :: xs) = c :: tail := by
    intro xs
    cases xs with
    | nil => exact ⟨_, rfl⟩
    | cons x xs => exact ⟨_, rfl⟩
  simpa [first_lines, hlines, hstrip] using hjoin _

theorem sample_lines_head (c : Char) (rest : Str) (hc : isspace c = false) :
    ∃ tail, sample_lines (c :: rest) = c :: tail := by
  obtain ⟨tail, htail⟩ := first_lines_head c rest hc
  rw [sample_lines, htail, clip]
  split
  · exact ⟨_, rfl⟩
  · exact ⟨_, rfl⟩

/-- What the trimmer writes of the tool use itself does not state `w`, and a
sample it cuts cannot come to state it by the cut. -/
structure AddsNothing (fold : Str → Str) (steady : Str → Prop) (w : Str) (use : Str × Json)
    (text : Str) : Prop where
  name : ¬ w <:+: fold ("[context-trimmed] ".toList ++ use.1)
  args : ¬ w <:+: fold ("args:".toList ++ clip 200 197 (dumps false use.2))
  sample : 240 < (first_lines (strip text)).length → steady w

instance (fold : Str → Str) (steady : Str → Prop) [DecidablePred steady] (w : Str)
    (use : Str × Json) (text : Str) : Decidable (AddsNothing fold steady w use text) :=
  decidable_of_iff (_ ∧ _ ∧ _) ⟨fun h => ⟨h.1, h.2.1, h.2.2⟩, fun h => ⟨h.1, h.2, h.3⟩⟩

section
variable {py : Runtime} {fold : Str → Str} {steady : Str → Prop}

theorem ascii_boundary (py : Runtime) (sep : Str)
    (h : ∀ c ∈ sep, isAscii c = true ∧ c.isAlpha = false ∧ c ∉ ['\'', '.', ':', '^', '`']) :
    ∀ c ∈ sep, Boundary py c := fun c hc =>
  boundary_of_ascii py c (h c hc).1 (h c hc).2.1 (h c hc).2.2

/-- The lines of a text state only what the text states. -/
theorem claim_in_lines (hf : Folding py fold steady) (w : Str) (hw : Claimed w) (text : Str)
    (h : w <:+: fold (first_lines text)) : w <:+: fold text := by
  have hsep : ∀ c ∈ "; ".toList, Boundary py c ∧ c ∉ w := by
    intro c hc
    exact ⟨ascii_boundary py "; ".toList (by decide) c hc, hw.free c (by revert c; decide)⟩
  obtain ⟨x, hx, hin⟩ := (hf.infix_join w _ _ hw.ne_nil hsep (by decide)).mp h
  obtain ⟨line, hline, rfl⟩ := List.mem_map.mp (List.mem_of_mem_filter (List.mem_of_mem_take hx))
  exact hf.delimited w _ _ ((strip_delimited line).trans (splitlines_delimited text line hline)) hin

theorem claim_in_sample (hf : Folding py fold steady) (w : Str) (hw : Claimed w) (text : Str)
    (hsteady : 240 < (first_lines text).length → steady w) (h : w <:+: fold (sample_lines text)) :
    w <:+: fold text := by
  refine claim_in_lines hf w hw text ?_
  unfold sample_lines clip at h
  split at h
  · next hcut =>
    have hcut := hf.cut w _ ((first_lines text).drop 237) (hsteady hcut) h
    rwa [List.take_append_drop] at hcut
  · exact h

theorem digit_plain (c : Char) (h : c.isDigit = true) :
    isAscii c = true ∧ c.toLower = c ∧ c ∉ marks := by
  have hrange : 48 ≤ c.val.toNat ∧ c.val.toNat ≤ 57 := by
    simpa [Char.isDigit, UInt32.le_iff_toNat_le] using h
  refine ⟨?_, ?_, ?_⟩
  · simp only [isAscii, decide_eq_true_eq, Char.toNat]
    omega
  · refine toLower_of_not_upper c ?_
    rw [isUpper_eq, decide_eq_false_iff_not]
    rintro ⟨hlow, _⟩
    have : 65 ≤ c.val.toNat := by simpa [UInt32.le_iff_toNat_le] using hlow
    omega
  · intro hmem
    simp only [marks, List.mem_cons, List.not_mem_nil, or_false] at hmem
    rcases hmem with rfl | rfl | rfl | rfl <;> cases h

theorem shape_plain (py : Runtime) (text : Str) :
    ∀ c ∈ "shape:".toList ++ shape py text, isAscii c = true ∧ c.toLower = c ∧ c ∉ marks := by
  have hwords : ∀ words ∈ ["shape:".toList, " items".toList, " chars".toList], ∀ c ∈ words,
      isAscii c = true ∧ c.toLower = c ∧ c ∉ marks := by decide
  have hnum : ∀ n, ∀ c ∈ strNat n, isAscii c = true ∧ c.toLower = c ∧ c ∉ marks := fun n c hc =>
    digit_plain c (Nat.isDigit_of_mem_toDigits (by decide) (by decide) hc)
  intro c hc
  rcases List.mem_append.mp hc with hc | hc
  · exact hwords _ (by simp) c hc
  · unfold shape at hc
    split at hc
    · rcases List.mem_append.mp hc with hc | hc
      · exact hnum _ c hc
      · exact hwords _ (by simp) c hc
    · rcases List.mem_append.mp hc with hc | hc
      · exact hnum _ c hc
      · exact hwords _ (by simp) c hc

theorem claim_not_in_shape (hf : Folding py fold steady) (w : Str) (hw : Claimed w) (text : Str) :
    ¬ w <:+: fold ("shape:".toList ++ shape py text) := by
  have hplain := shape_plain py text
  rw [hf.plain _ (fun c hc => ⟨(hplain c hc).1, (hplain c hc).2.1⟩)]
  intro hin
  obtain ⟨c, hmark, hc⟩ := hw.marked
  exact (hplain c (hin.subset hc)).2.2 hmark

/-- The label of a sample ends where the sample begins with a separator. -/
theorem claim_after_label (hf : Folding py fold steady) (w : Str) (hw : Claimed w) (c : Char)
    (tail : Str) (hc : c = '<' ∨ c = '[') (h : w <:+: fold ("sample:".toList ++ c :: tail)) :
    w <:+: fold (c :: tail) := by
  have hbound : Boundary py c :=
    ascii_boundary py ['<', '['] (by decide) c (by simpa using hc)
  have hfree : c ∉ w := hw.free c (by rcases hc with rfl | rfl <;> decide)
  have hlabel : ¬ w <:+: "sample:".toList := by
    intro hin
    obtain ⟨d, hmark, hd⟩ := hw.marked
    have hwords : ∀ d ∈ "sample:".toList, d ∉ marks := by decide
    exact hwords d (hin.subset hd) hmark
  rw [hf.stop c hbound, hf.plain "sample:".toList (by decide), infix_around_stop w _ _ c hfree] at h
  have hstop := hf.stop c hbound [] tail
  rw [hf.nil, List.nil_append, List.nil_append] at hstop
  rw [hstop]
  exact List.infix_cons (h.resolve_left hlabel)

theorem summary_adds_nothing (hf : Folding py fold steady) (w : Str) (hw : Claimed w)
    (use : Str × Json) (text : Str) (hlines : ReadByLines py text)
    (hadds : AddsNothing fold steady w use text)
    (h : w <:+: fold (summarize_for_context py use.1 use.2 text)) : w <:+: fold text := by
  obtain ⟨c, rest, hstrip, hc⟩ := hlines
  have hkind : c = '<' ∨ c = '[' := hc.imp id And.left
  have hbar : ∀ d ∈ " | ".toList, Boundary py d ∧ d ∉ w := by
    intro d hd
    exact ⟨ascii_boundary py " | ".toList (by decide) d hd, hw.free d (by revert d; decide)⟩
  obtain ⟨part, hpart, hin⟩ := (hf.infix_join w _ _ hw.ne_nil hbar (by decide)).mp h
  simp only [summary_parts, hstrip, extract_sample_by_lines py c rest hc,
    extract_top_keys_by_lines py c rest hkind, List.isEmpty_nil, if_true, List.append_nil,
    List.mem_append, List.mem_cons, List.not_mem_nil, or_false] at hpart
  rcases hpart with (rfl | rfl | rfl) | hpart
  · exact absurd hin hadds.name
  · exact absurd hin hadds.args
  · exact absurd hin (claim_not_in_shape hf w hw text)
  · have hspace : isspace c = false := by rcases hkind with rfl | rfl <;> decide
    obtain ⟨tail, htail⟩ := sample_lines_head c rest hspace
    rw [htail, List.isEmpty_cons, if_neg Bool.false_ne_true, List.mem_singleton] at hpart
    subst hpart
    have hsample := claim_after_label hf w hw c tail hkind hin
    rw [← htail, ← hstrip] at hsample
    exact hf.delimited w _ _ (strip_delimited text)
      (claim_in_sample hf w hw (strip text) hadds.sample hsample)

end

end AigentSquad.SummaryText
