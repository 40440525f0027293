import AigentSquad.PyJson

/-!
# Converse messages and their trimming

Item counts, context summaries and `trim_message_history`. Trimming rewrites
the texts of all but the last tool results; roles, block order and tool use ids
are kept.
-/

set_option autoImplicit false

namespace AigentSquad.Truncation
open AigentSquad.PyText AigentSquad.PyJson

structure ToolUse where
  toolUseId : Str
  name : Str
  input : Json

inductive ResultItem where
  | text (text : Str)
  | other

structure ToolResult where
  toolUseId : Str
  content : List ResultItem
  status : Option Str

inductive Block where
  | text (text : Str)
  | toolUse (use : ToolUse)
  | toolResult (result : ToolResult)

inductive Role where
  | user
  | assistant
deriving DecidableEq, Repr

structure Message where
  role : Role
  content : List Block

structure LoopConfig where
  MAX_TOOL_STEPS : Int
  MAX_LOOP_DURATION_MS : Int
  MAX_LOOP_TOKENS : Int
  MAX_TOOL_RESULT_CHARS : Int
  CONTEXT_TRIM_ENABLED : Bool
  CONTEXT_KEEP_LAST_N : Int

def LoopConfig.default : LoopConfig := ⟨8, 120000, 300000, 40000, true, 5⟩

def HEADER_PREFIXES : List Str :=
  ["NAME".toList, "NAMESPACE".toList, "STATUS".toList, "READY".toList, "AGE".toList,
    "NODE".toList]

/-- an upper-case letter, then upper-case letters, digits, underscores, slashes, dashes -/
def isUpperToken : Str → Bool
  | [] => false
  | c :: cs => c.isUpper && cs.all (fun d => d.isUpper || d.isDigit || d ∈ ['_', '/', '-'])

def is_table_header (line : Str) : Bool :=
  match split line with
  | [] => false
  | t :: ts => !ts.isEmpty && ((t :: ts).all isUpperToken || t ∈ HEADER_PREFIXES)

def COLLECTION_KEYS : List Str :=
  ["items".toList, "pods".toList, "results".toList, "data".toList, "nodes".toList,
    "records".toList]

def listLength : Json → Option Nat
  | .arr items => some items.length
  | _ => none

def largest (best : Option Nat) (v : Json) : Option Nat :=
  match listLength v, best with
  | none, _ => best
  | some n, none => some n
  | some n, some b => if n > b then some n else some b

def collection_count (pairs : List (Str × Json)) : Option Nat :=
  match COLLECTION_KEYS.findSome? (fun k => (Json.get pairs k).bind listLength) with
  | some n => some n
  | none => (pairs.map Prod.snd).foldl largest none

def array_count (py : Runtime) (stripped : Str) : Option Nat :=
  if startswith stripped "[".toList then
    match loads py stripped with
    | .ok v => listLength v
    | .error _ => none
  else none

def object_count (py : Runtime) (stripped : Str) : Option Nat :=
  if startswith stripped "\x7b".toList then
    match loads py stripped with
    | .ok (.obj pairs) => (collection_count pairs).filter (fun n => 0 < n)
    | _ => none
  else none

def non_empty_lines (text : Str) : List Str :=
  (splitlines text).filter (fun ln => !(strip ln).isEmpty)

def row_count (text : Str) : Option Nat :=
  match non_empty_lines text with
  | [] => none
  | [_] => none
  | first :: rest =>
    let data_rows := (first :: rest).length - if is_table_header (strip first) then 1 else 0
    if 0 < data_rows then some data_rows else none

def count_items (py : Runtime) (text : Str) : Option Nat :=
  let stripped := strip text
  if stripped.isEmpty then none
  else (array_count py stripped).or ((object_count py stripped).or (row_count text))

def clip (limit keep : Nat) (s : Str) : Str :=
  if limit < s.length then s.take keep ++ "...".toList else s

def sample_values (items : List Json) : Str :=
  join "; ".toList ((items.take 3).map (fun item => clip 80 77 (dumps false item)))

def firstList (pairs : List (Str × Json)) : Option (List Json) :=
  pairs.findSome? (fun kv => match kv.2 with
    | .arr (x :: xs) => some (x :: xs)
    | _ => none)

def first_lines (text : Str) : Str :=
  let lines := ((splitlines text).map strip).filter (fun ln => !ln.isEmpty)
  join "; ".toList (lines.take 3)

def sample_lines (text : Str) : Str := clip 240 237 (first_lines text)

def extract_sample (py : Runtime) (text : Str) : Str :=
  if text.isEmpty then []
  else
    let parsed := if startswith text "[".toList || startswith text "\x7b".toList then
      (loads py text).toOption else none
    match parsed with
    | some (.arr (x :: xs)) => sample_values (x :: xs)
    | some (.obj pairs) =>
      match firstList pairs with
      | some items => sample_values items
      | none => sample_lines text
    | _ => sample_lines text

def extract_top_keys (py : Runtime) (text : Str) : Str :=
  if startswith text "\x7b".toList then
    match loads py text with
    | .ok (.obj pairs) => join ",".toList ((pairs.map Prod.fst).take 5)
    | _ => []
  else []

def shape (py : Runtime) (result_text : Str) : Str :=
  match count_items py result_text with
  | some n => strNat n ++ " items".toList
  | none => strNat (strip result_text).length ++ " chars".toList

/-- The parts of a context summary, in order. -/
def summary_parts (py : Runtime) (tool_name : Str) (tool_args : Json) (result_text : Str) :
    List Str :=
  let sample := extract_sample py (strip result_text)
  let keys := extract_top_keys py (strip result_text)
  ["[context-trimmed] ".toList ++ tool_name,
    "args:".toList ++ clip 200 197 (dumps false tool_args),
    "shape:".toList ++ shape py result_text] ++
  (if sample.isEmpty then [] else ["sample:".toList ++ sample]) ++
  (if keys.isEmpty then [] else ["keys:".toList ++ keys])

def summarize_for_context (py : Runtime) (tool_name : Str) (tool_args : Json)
    (result_text : Str) : Str :=
  join " | ".toList (summary_parts py tool_name tool_args result_text)

def Block.isToolResult : Block → Bool
  | toolResult _ => true
  | _ => false

def Message.bearsToolResult (m : Message) : Bool :=
  m.role = .user && m.content.any Block.isToolResult

/-- `toolResult`-bearing user messages, the first and the last two excluded. -/
def tool_result_indices (messages : List Message) : List Nat :=
  (List.range (messages.length - 2)).filter
    (fun i => 1 ≤ i && (messages[i]?).any Message.bearsToolResult)

def Block.namedUse (tool_use_id : Str) : Block → Option (Str × Json)
  | toolUse u => if u.toolUseId = tool_use_id then some (u.name, u.input) else none
  | _ => none

def unknown_use : Str × Json := ("unknown".toList, .obj [])

/-- Only the nearest preceding assistant message is searched. -/
def find_paired_tool_use (messages : List Message) (tool_result_idx : Nat) (tool_use_id : Str) :
    Str × Json :=
  if tool_use_id.isEmpty then unknown_use
  else
    match (messages.take tool_result_idx).reverse.find? (fun m => m.role = .assistant) with
    | none => unknown_use
    | some m => (m.content.findSome? (Block.namedUse tool_use_id)).getD unknown_use

def trim_item (py : Runtime) (use : Str × Json) : ResultItem → ResultItem
  | .text t => .text (summarize_for_context py use.1 use.2 t)
  | .other => .other

def trim_result (py : Runtime) (use : Str × Json) (r : ToolResult) : ToolResult :=
  { r with content := r.content.map (trim_item py use) }

def trim_block (py : Runtime) (paired : Str → Str × Json) : Block → Block
  | .toolResult r => .toolResult (trim_result py (paired r.toolUseId) r)
  | b => b

def trim_message (py : Runtime) (messages : List Message) (idx : Nat) (m : Message) : Message :=
  { m with content := m.content.map (trim_block py (find_paired_tool_use messages idx)) }

def indices_to_trim (messages : List Message) (keep_last_n : Int) : List Nat :=
  let indices := tool_result_indices messages
  indices.take (indices.length - (max keep_last_n 1).toNat)

def trim_message_history (py : Runtime) (cfg : LoopConfig) (messages : List Message)
    (keep_last_n : Int) : List Message :=
  if !cfg.CONTEXT_TRIM_ENABLED then messages
  else (indices_to_trim messages keep_last_n).foldl
    (fun ms idx => ms.modify idx (trim_message py ms idx)) messages

/-- A column header begins with a capital. -/
theorem no_header (c : Char) (rest : Str) (hspace : isspace c = false)
    (hupper : c.isUpper = false) : is_table_header (c :: rest) = false := by
  have hprefixes : ∀ t ∈ HEADER_PREFIXES, t.head?.all Char.isUpper = true := by decide
  obtain ⟨word, words, hwords, more, rfl⟩ := wordsFrom_acc rest [c] (by simp)
  have hsplit : split (c :: rest) = ([c].reverse ++ more) :: words := by
    rw [← hwords, split, wordsFrom, hspace, if_neg (by simp)]
  have hnot : ¬ ([c].reverse ++ more) ∈ HEADER_PREFIXES := by
    intro hmem
    have hcapital : c.isUpper = true := hprefixes _ hmem
    rw [hcapital] at hupper
    cases hupper
  unfold is_table_header
  rw [hsplit]
  simp only [List.reverse_singleton, List.singleton_append] at hnot ⊢
  simp [isUpperToken, hupper, hnot]

/-- The rows of a text that begins with a mark are its lines that are not blank. -/
theorem row_count_marked (c : Char) (rest : Str) (hspace : isspace c = false)
    (hupper : c.isUpper = false) :
    row_count (c :: rest) =
      if 1 < (non_empty_lines (c :: rest)).length then
        some (non_empty_lines (c :: rest)).length
      else none := by
  obtain ⟨line, lines, hlines⟩ := splitlines_head c rest (not_break_of_not_space c hspace)
  have hline : strip (c :: line) = c :: rstrip line :=
    strip_append [c] line (by simp) (by simpa using hspace) (by simpa using hspace)
  have hfirst : non_empty_lines (c :: rest) =
      (c :: line) :: lines.filter (fun ln => !(strip ln).isEmpty) := by
    rw [non_empty_lines, hlines, List.filter_cons_of_pos (by simp [hline])]
  rw [row_count, hfirst]
  cases hrest : lines.filter (fun ln => !(strip ln).isEmpty) with
  | nil => rfl
  | cons second more =>
    simp only [hline, no_header c _ hspace hupper, Bool.false_eq_true, if_false, List.length_cons]
    rw [if_pos (by omega), if_pos (by omega)]
    rfl

end AigentSquad.Truncation
