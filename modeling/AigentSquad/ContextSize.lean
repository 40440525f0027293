import AigentSquad.Evidence
import AigentSquad.Trimming

/-!
# The size of a trimmed context

How long a context summary is, from the parts it is made of, and when summaries
in place of results make the messages no longer than they were.
-/

set_option autoImplicit false

namespace AigentSquad.ContextSize
open AigentSquad.PyText AigentSquad.PyJson AigentSquad.Truncation AigentSquad.Trimming
open AigentSquad.Evidence

/-! ## The size of a summary -/

/-- The size of joined parts. -/
def joined_size (sep : Nat) (sizes : List Nat) : Nat := sizes.sum + sep * (sizes.length - 1)

theorem join_length (sep : Str) (xs : List Str) :
    (join sep xs).length = joined_size sep.length (xs.map List.length) := by
  induction xs with
  | nil => rfl
  | cons x xs ih =>
    cases xs with
    | nil => simp [joined_size]
    | cons y ys =>
      have hrest : (x :: y :: ys).length - 1 = ((y :: ys).length - 1) + 1 := by simp
      simp only [joined_size, List.map_cons, List.sum_cons, List.length_cons, List.length_map] at ih ⊢
      rw [join_cons_cons, List.length_append, List.length_append, ih, Nat.add_sub_cancel, Nat.add_sub_cancel,
        Nat.mul_add]
      omega

theorem clip_length (limit keep : Nat) (s : Str) (h : keep + 3 = limit) :
    (clip limit keep s).length = min limit s.length := by
  unfold clip
  split
  · next hlong =>
    rw [List.length_append, List.length_take]
    have hdots : "...".toList.length = 3 := rfl
    omega
  · omega

/-- The list a sample is taken from, where the text is JSON with one. -/
def sampled_items (py : Runtime) (text : Str) : Option (List Json) :=
  if startswith text "[".toList || startswith text "\x7b".toList then
    match loads py text with
    | .ok (.arr (x :: xs)) => some (x :: xs)
    | .ok (.obj pairs) => firstList pairs
    | _ => none
  else none

def sampled_lines (text : Str) : List Str :=
  (((splitlines text).map strip).filter (fun ln => !ln.isEmpty)).take 3

def sample_size (py : Runtime) (text : Str) : Nat :=
  if text.isEmpty then 0
  else
    match sampled_items py text with
    | some items => joined_size 2 ((items.take 3).map (fun item => min 80 (dumps false item).length))
    | none => min 240 (joined_size 2 ((sampled_lines text).map List.length))

def top_keys (py : Runtime) (text : Str) : List Str :=
  if startswith text "\x7b".toList then
    match loads py text with
    | .ok (.obj pairs) => (pairs.map Prod.fst).take 5
    | _ => []
  else []

def keys_size (py : Runtime) (text : Str) : Nat :=
  joined_size 1 ((top_keys py text).map List.length)

/-- The digits of the number of items or of characters. -/
def shape_digits (py : Runtime) (text : Str) : Nat :=
  (strNat ((count_items py text).getD (strip text).length)).length

/-- The parts of a summary by their sizes: the tool's name, its arguments up to
200 characters, the shape, the sample and the keys, each with its label. -/
def summary_size (py : Runtime) (use : Str × Json) (text : Str) : Nat :=
  let sample := sample_size py (strip text)
  let keys := keys_size py (strip text)
  joined_size 3 ([18 + use.1.length, 5 + min 200 (dumps false use.2).length,
      12 + shape_digits py text] ++
    (if sample = 0 then [] else [7 + sample]) ++ (if keys = 0 then [] else [5 + keys]))

theorem values_length (items : List Json) :
    (sample_values items).length =
      joined_size 2 ((items.take 3).map (fun item => min 80 (dumps false item).length)) := by
  rw [sample_values, join_length, List.map_map]
  refine congrArg (joined_size 2) (List.map_congr_left (fun item _ => ?_))
  exact clip_length 80 77 _ rfl

theorem lines_length (text : Str) :
    (sample_lines text).length = min 240 (joined_size 2 ((sampled_lines text).map List.length)) := by
  rw [sample_lines, clip_length 240 237 _ rfl, first_lines, join_length]
  rfl

/-- A sample is of a list of the text's JSON, or else of its first lines. -/
theorem extract_sample_eq (py : Runtime) (text : Str) :
    extract_sample py text =
      if text.isEmpty then []
      else ((sampled_items py text).map sample_values).getD (sample_lines text) := by
  unfold extract_sample sampled_items
  split
  · rfl
  · split
    · cases loads py text with
      | error e => rfl
      | ok v =>
        cases v with
        | arr items => cases items <;> rfl
        | obj pairs =>
          change (match firstList pairs with
            | some items => sample_values items
            | none => sample_lines text) =
            ((firstList pairs).map sample_values).getD (sample_lines text)
          cases firstList pairs <;> rfl
        | _ => rfl
    · rfl

theorem sample_length (py : Runtime) (text : Str) :
    (extract_sample py text).length = sample_size py text := by
  rw [extract_sample_eq, sample_size]
  split
  · rfl
  · cases sampled_items py text with
    | some items => exact values_length items
    | none => exact lines_length text

theorem keys_length (py : Runtime) (text : Str) :
    (extract_top_keys py text).length = keys_size py text := by
  have hkeys : extract_top_keys py text = join ",".toList (top_keys py text) := by
    unfold extract_top_keys top_keys
    split
    · cases loads py text with
      | error e => rfl
      | ok v => cases v <;> rfl
    · rfl
  rw [hkeys, join_length]
  rfl

theorem shape_length (py : Runtime) (text : Str) :
    (shape py text).length = 6 + shape_digits py text := by
  unfold shape shape_digits
  cases count_items py text with
  | some n =>
    rw [List.length_append, Option.getD_some]
    exact Nat.add_comm _ _
  | none =>
    rw [List.length_append, Option.getD_none]
    exact Nat.add_comm _ _

theorem part_length (label part : Str) :
    (if part.isEmpty then [] else [label ++ part]).map List.length =
      if part.length = 0 then [] else [label.length + part.length] := by
  cases part <;> simp

theorem summary_length (py : Runtime) (use : Str × Json) (text : Str) :
    (summarize_for_context py use.1 use.2 text).length = summary_size py use text := by
  have hname : "[context-trimmed] ".toList.length = 18 := rfl
  have hargs : "args:".toList.length = 5 := rfl
  have hshape : "shape:".toList.length = 6 := rfl
  rw [summarize_for_context, join_length, summary_parts, List.map_append, List.map_append,
    part_length, part_length, sample_length, keys_length]
  simp only [List.map_cons, List.map_nil, List.length_append, hname, hargs, hshape,
    clip_length 200 197 _ rfl, shape_length, ← Nat.add_assoc]
  rfl

/-- A summary's own words take 42 characters, the least shape included. -/
theorem summary_floor (py : Runtime) (use : Str × Json) (text : Str) :
    42 + use.1.length ≤ summary_size py use text := by
  have hdigits : 1 ≤ shape_digits py text := List.length_pos_iff.mpr Nat.toDigits_ne_nil
  simp only [summary_size, joined_size, List.sum_append, List.length_append, List.sum_cons,
    List.length_cons]
  omega

/-! ## The size of the messages -/

def item_size : ResultItem → Nat
  | .text t => t.length
  | .other => 0

/-- The text of a block; trimming leaves the arguments of a tool use alone. -/
def block_size : Block → Nat
  | .text t => t.length
  | .toolUse _ => 0
  | .toolResult r => (r.content.map item_size).sum

def message_size (m : Message) : Nat := (m.content.map block_size).sum

/-- The characters that the warning about a large context adds up. -/
def total_chars (messages : List Message) : Nat := (messages.map message_size).sum

/-- The results of a turn, each with the tool use that the turn before it names. -/
def paired_items (messages : List Message) (idx : Nat) : List ((Str × Json) × Str) :=
  match messages[idx]? with
  | some m => (result_items m).map (fun it => (find_paired_tool_use messages idx it.1, it.2))
  | none => []

/-- The results that the turns to be trimmed hold. -/
def replaced (messages : List Message) (keep_last_n : Int) : List ((Str × Json) × Str) :=
  (indices_to_trim messages keep_last_n).flatMap (paired_items messages)

def texts_size (items : List ((Str × Json) × Str)) : Nat :=
  (items.map (fun it => it.2.length)).sum

def summaries_size (py : Runtime) (items : List ((Str × Json) × Str)) : Nat :=
  (items.map (fun it => summary_size py it.1 it.2)).sum

theorem block_trim_size (py : Runtime) (paired : Str → Str × Json) (b : Block) :
    block_size (trim_block py paired b) +
        texts_size ((block_items b).map (fun it => (paired it.1, it.2))) =
      block_size b +
        summaries_size py ((block_items b).map (fun it => (paired it.1, it.2))) := by
  cases b with
  | text t => rfl
  | toolUse u => rfl
  | toolResult r =>
    simp only [trim_block, trim_result, block_size, block_items, texts_size, summaries_size,
      List.map_map]
    induction r.content with
    | nil => rfl
    | cons item items ih =>
      cases item with
      | other =>
        have hnone : (ResultItem.other :: items).filterMap item_text = items.filterMap item_text :=
          rfl
        simpa [hnone, item_size, trim_item] using ih
      | text t =>
        have hlen := summary_length py (paired r.toolUseId) t
        simp only [List.map_cons, List.sum_cons, Function.comp_apply, trim_item, item_size,
          List.filterMap_cons, item_text, hlen] at ih ⊢
        omega

theorem message_trim_size (py : Runtime) (ms : List Message) (idx : Nat) (m : Message)
    (hm : ms[idx]? = some m) :
    message_size (trim_message py ms idx m) + texts_size (paired_items ms idx) =
      message_size m + summaries_size py (paired_items ms idx) := by
  simp only [paired_items, hm, message_size, trim_message, result_items, List.map_map]
  induction m.content with
  | nil => rfl
  | cons b bs ih =>
    have hb := block_trim_size py (find_paired_tool_use ms idx) b
    simp only [texts_size, summaries_size, List.map_cons, List.sum_cons, List.flatMap_cons,
      List.map_append, List.sum_append, Function.comp_apply] at ih hb ⊢
    omega

theorem modify_total (f : Message → Message) (ms : List Message) (idx : Nat) (m : Message)
    (hm : ms[idx]? = some m) :
    total_chars (ms.modify idx f) + message_size m = total_chars ms + message_size (f m) := by
  induction ms generalizing idx with
  | nil => cases hm
  | cons n ms ih =>
    cases idx with
    | zero =>
      obtain rfl : n = m := by simpa using hm
      simp only [List.modify_zero_cons, total_chars, List.map_cons, List.sum_cons]
      omega
    | succ idx =>
      have hrest := ih idx (by simpa using hm)
      simp only [List.modify_succ_cons, total_chars, List.map_cons, List.sum_cons] at hrest ⊢
      omega

/-- Every turn rewritten adds its summaries and takes its results away. -/
theorem fold_total (py : Runtime) (ms : List Message) (idxs : List Nat) (ns : List Message)
    (hnodup : idxs.Nodup) (hns : ns.map spoken = ms.map spoken)
    (hsame : ∀ i ∈ idxs, ns[i]? = ms[i]?)
    (hrole : ∀ i ∈ idxs, ∃ m, ms[i]? = some m ∧ m.role = .user) :
    total_chars (idxs.foldl (fun ms idx => ms.modify idx (trim_message py ms idx)) ns) +
        texts_size (idxs.flatMap (paired_items ms)) =
      total_chars ns + summaries_size py (idxs.flatMap (paired_items ms)) := by
  induction idxs generalizing ns with
  | nil => rfl
  | cons i idxs ih =>
    obtain ⟨hi, hrest⟩ := List.nodup_cons.mp hnodup
    obtain ⟨m, hm, huser⟩ := hrole i (by simp)
    have hat : ns[i]? = some m := by rw [hsame i (by simp), hm]
    have hstep := modify_total (trim_message py ns i) ns i m hat
    rw [trim_message_of_spoken py ns ms i m hns] at hstep
    have hsize := message_trim_size py ms i m hm
    have hrun := ih (ns.modify i (trim_message py ns i)) hrest
      (by
        rw [spoken_modify py ns ns i, hns]
        intro n hn
        obtain rfl : m = n := by simpa [hat] using hn
        exact huser)
      (by
        intro j hj
        have hne : i ≠ j := fun he => hi (he ▸ hj)
        rw [List.getElem?_modify_ne _ _ hne, hsame j (by simp [hj])])
      (fun j hj => hrole j (by simp [hj]))
    simp only [List.foldl_cons, List.flatMap_cons, texts_size, summaries_size, List.map_append,
      List.sum_append] at hrun hsize ⊢
    omega

theorem trim_total (py : Runtime) (cfg : LoopConfig) (ms : List Message) (keep_last_n : Int)
    (henabled : cfg.CONTEXT_TRIM_ENABLED = true) :
    total_chars (trim_message_history py cfg ms keep_last_n) +
        texts_size (replaced ms keep_last_n) =
      total_chars ms + summaries_size py (replaced ms keep_last_n) := by
  unfold trim_message_history
  rw [henabled, if_neg (by simp)]
  refine fold_total py ms _ ms (indices_to_trim_nodup ms keep_last_n) rfl (fun _ _ => rfl) ?_
  intro i hi
  obtain ⟨_, _, m, hm, hbears⟩ :=
    (mem_tool_result_indices ms i).mp (indices_to_trim_subset ms _ i hi)
  exact ⟨m, hm, bears_user m hbears⟩

/-- Trimming makes the messages no longer exactly when the results that it
replaces are at least as long as their summaries. -/
theorem trim_never_grows_iff (py : Runtime) (cfg : LoopConfig) (ms : List Message)
    (keep_last_n : Int) :
    total_chars (trim_message_history py cfg ms keep_last_n) ≤ total_chars ms ↔
      (cfg.CONTEXT_TRIM_ENABLED = true →
        summaries_size py (replaced ms keep_last_n) ≤ texts_size (replaced ms keep_last_n)) := by
  cases henabled : cfg.CONTEXT_TRIM_ENABLED with
  | false =>
    have hsame : trim_message_history py cfg ms keep_last_n = ms := by
      rw [trim_message_history, henabled]
      rfl
    simp [hsame]
  | true =>
    have htotal := trim_total py cfg ms keep_last_n henabled
    constructor
    · intro h _
      omega
    · intro h
      have := h rfl
      omega

/-- Three calls of one tool; the first finds nothing. -/
def missing_pod : List Message :=
  let use (id : Str) : Message := ⟨.assistant, [.toolUse ⟨id, "get_pod".toList, .obj []⟩]⟩
  let result (id text : Str) : Message := ⟨.user, [.toolResult ⟨id, [.text text], none⟩]⟩
  [⟨.user, [.text "which pod fails".toList]⟩,
    use "t1".toList, result "t1".toList "error: not found".toList,
    use "t2".toList, result "t2".toList "api-0 Running".toList,
    use "t3".toList, result "t3".toList "api-1 Running".toList]

theorem short_error_grows :
    ¬ total_chars (trim_message_history asciiRuntime LoopConfig.default missing_pod 1) ≤
      total_chars missing_pod := by
  decide +kernel

end AigentSquad.ContextSize
