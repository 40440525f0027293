import AigentSquad.Effects
import AigentSquad.PyRepr

/-!
# Trimming messages of any shape

`trim_message_history` on messages as they come, malformed ones included. It
rewrites them in place and may stop with an exception half way, so that each step
gives what it leaves behind beside the exception. No two messages share a dict.
-/

set_option autoImplicit false

namespace AigentSquad.RawTrimming
open AigentSquad.PyText AigentSquad.PyJson AigentSquad.PyRepr AigentSquad.Effects
open AigentSquad.Truncation (LoopConfig summarize_for_context)

/-- What a step leaves behind, and the exception it stopped with. -/
abbrev Done (α : Type) := α × Option Exn

/-- A loop over a list, each item changed in place. -/
def each {α : Type} (f : α → Done α) : List α → Done (List α)
  | [] => ([], none)
  | x :: xs =>
    match (f x).2 with
    | some e => ((f x).1 :: xs, some e)
    | none => ((f x).1 :: (each f xs).1, (each f xs).2)

/-- `d[key] = v` for a key of the dict -/
def assign (key : Str) (v : Json) : List (Str × Json) → List (Str × Json)
  | [] => []
  | (k, w) :: kvs => if k = key then (k, v) :: kvs else (k, w) :: assign key v kvs

def is_text (s : Str) : Option Json → Bool
  | some (.str t) => t = s
  | _ => false

/-- A truthy `toolResult`. -/
def result_block : Json → Bool
  | .obj pairs => (Json.get pairs "toolResult".toList).any Json.truthy
  | _ => false

def bears_tool_result : Json → Bool
  | .obj pairs =>
    is_text "user".toList (Json.get pairs "role".toList) &&
      match Json.get pairs "content".toList with
      | some (.arr blocks) => blocks.any result_block
      | _ => false
  | _ => false

def tool_result_indices (messages : List Json) : Except Exn (List Nat) :=
  if ((messages.take (messages.length - 2)).drop 1).all Json.isObject then
    .ok ((List.range (messages.length - 2)).filter
      (fun i => 1 ≤ i && (messages[i]?).any bears_tool_result))
  else .error .AttributeError

/-- The items of a `for` loop, as far as they can be dicts. -/
def iterated : Json → Except Exn (List Json)
  | .arr items => .ok items
  | .obj _ => .ok []
  | .str _ => .ok []
  | _ => .error .TypeError

def unknown_use : Json × Json := (.str "unknown".toList, .obj [])

section Trim
-- `==` on two values, of which only strings have to be compared as such
variable (equal : Json → Json → Bool)

def used (tool_use_id : Json) (use : List (Str × Json)) : Option (Json × Json) :=
  if equal ((Json.get use "toolUseId".toList).getD .null) tool_use_id then
    some ((Json.get use "name".toList).getD (.str "unknown".toList),
      (Json.get use "input".toList).getD (.obj []))
  else none

/-- The first block with the use; a `toolUse` that is no dict has no `get`. -/
def find_in_blocks (tool_use_id : Json) : List Json → Except Exn (Json × Json)
  | [] => .ok unknown_use
  | .obj pairs :: blocks =>
    match Json.get pairs "toolUse".toList with
    | some (.obj use) =>
      if use.isEmpty then find_in_blocks tool_use_id blocks
      else
        match used equal tool_use_id use with
        | some found => .ok found
        | none => find_in_blocks tool_use_id blocks
    | some v => if v.truthy then .error .AttributeError else find_in_blocks tool_use_id blocks
    | none => find_in_blocks tool_use_id blocks
  | _ :: blocks => find_in_blocks tool_use_id blocks

/-- Backwards through the messages before the result, up to an assistant one. -/
def find_before (tool_use_id : Json) : List Json → Except Exn (Json × Json)
  | [] => .ok unknown_use
  | .obj pairs :: before =>
    if is_text "assistant".toList (Json.get pairs "role".toList) then
      match iterated ((Json.get pairs "content".toList).getD (.arr [])) with
      | .ok blocks => find_in_blocks equal tool_use_id blocks
      | .error e => .error e
    else find_before tool_use_id before
  | _ :: _ => .error .AttributeError

def find_paired_tool_use (messages : List Json) (tool_result_idx : Nat) (tool_use_id : Json) :
    Except Exn (Json × Json) :=
  if !tool_use_id.truthy then .ok unknown_use
  else find_before equal tool_use_id (messages.take tool_result_idx).reverse

variable (py : Runtime)

def trim_item (use : Json × Json) : Json → Done Json
  | .obj pairs =>
    match Json.get pairs "text".toList with
    | none => (.obj pairs, none)
    | some (.str text) =>
      (.obj (assign "text".toList
        (.str (summarize_for_context py (str py use.1) use.2 text)) pairs), none)
    | some _ => (.obj pairs, some .AttributeError)
  | v => (v, none)

def trim_result (messages : List Json) (idx : Nat) : Json → Done Json
  | .obj pairs =>
    match find_paired_tool_use equal messages idx
        ((Json.get pairs "toolUseId".toList).getD (.str [])) with
    | .error e => (.obj pairs, some e)
    | .ok use =>
      match Json.get pairs "content".toList with
      | some (.arr items) =>
        (.obj (assign "content".toList (.arr (each (trim_item py use) items).1) pairs),
          (each (trim_item py use) items).2)
      | _ => (.obj pairs, none)
  | v => (v, some .AttributeError)

def trim_block (messages : List Json) (idx : Nat) : Json → Done Json
  | .obj pairs =>
    match Json.get pairs "toolResult".toList with
    | none => (.obj pairs, none)
    | some .null => (.obj pairs, none)
    | some result =>
      (.obj (assign "toolResult".toList (trim_result equal py messages idx result).1 pairs),
        (trim_result equal py messages idx result).2)
  | v => (v, none)

def trim_message (messages : List Json) (idx : Nat) : Json → Done Json
  | .obj pairs =>
    match Json.get pairs "content".toList with
    | some (.arr blocks) =>
      (.obj (assign "content".toList (.arr (each (trim_block equal py messages idx) blocks).1) pairs),
        (each (trim_block equal py messages idx) blocks).2)
    | _ => (.obj pairs, none)
  | v => (v, some .AttributeError)

/-- The message of an index, with the tool uses looked up in the list so far. -/
def trim_at (messages : List Json) (idx : Nat) : Done (List Json) :=
  match messages[idx]? with
  | none => (messages, none)
  | some m =>
    (messages.set idx (trim_message equal py messages idx m).1,
      (trim_message equal py messages idx m).2)

def trim_all : List Nat → List Json → Done (List Json)
  | [], messages => (messages, none)
  | idx :: idxs, messages =>
    match (trim_at equal py messages idx).2 with
    | some e => ((trim_at equal py messages idx).1, some e)
    | none => trim_all idxs (trim_at equal py messages idx).1

/-- `len` -/
def size : Json → Except Exn Nat
  | .str s => .ok s.length
  | .arr items => .ok items.length
  | .obj pairs => .ok pairs.length
  | _ => .error .TypeError

def text_size : Json → Except Exn Nat
  | .obj pairs =>
    match Json.get pairs "text".toList with
    | some v => size v
    | none => .ok 0
  | _ => .ok 0

def total : List (Except Exn Nat) → Except Exn Nat
  | [] => .ok 0
  | n :: ns => do
    let n ← n
    let rest ← total ns
    pure (n + rest)

def result_size : Json → Except Exn Nat
  | .obj pairs =>
    match Json.get pairs "toolResult".toList with
    | some (.obj result) => do
      let items ← iterated ((Json.get result "content".toList).getD (.arr []))
      total (items.map text_size)
    | _ => .ok 0
  | _ => .ok 0

def message_size : Json → Except Exn Nat
  | .obj pairs =>
    match Json.get pairs "content".toList with
    | some (.arr blocks) => total (blocks.flatMap (fun b => [text_size b, result_size b]))
    | _ => .ok 0
  | _ => .error .AttributeError

/-- `_warn_if_context_large`, which logs at most; the exception of measuring. -/
def warn_if_context_large (messages : List Json) : Option Exn :=
  match total (messages.map message_size) with
  | .ok _ => none
  | .error e => some e

def trim_message_history (cfg : LoopConfig) (messages : List Json) (keep_last_n : Int) :
    Done (List Json) :=
  if !cfg.CONTEXT_TRIM_ENABLED then (messages, none)
  else
    match tool_result_indices messages with
    | .error e => (messages, some e)
    | .ok indices =>
      let effective_n := (max keep_last_n 1).toNat
      if indices.length ≤ effective_n then (messages, none)
      else
        let trimmed := trim_all equal py (indices.take (indices.length - effective_n)) messages
        match trimmed.2 with
        | some e => (trimmed.1, some e)
        | none => (trimmed.1, warn_if_context_large trimmed.1)

end Trim

/-! ## What trimming may change -/

def at_key (key : Str) (f : Json → Json) (pairs : List (Str × Json)) : List (Str × Json) :=
  pairs.map (fun kv => if kv.1 = key then (kv.1, f kv.2) else kv)

def in_object (key : Str) (f : Json → Json) : Json → Json
  | .obj pairs => .obj (at_key key f pairs)
  | v => v

def in_list (f : Json → Json) : Json → Json
  | .arr items => .arr (items.map f)
  | v => v

/-- A message without the texts in the content of its tool results. -/
def blank_item : Json → Json := in_object "text".toList (fun _ => .null)

def blank_result : Json → Json := in_object "content".toList (in_list blank_item)

def blank_block : Json → Json := in_object "toolResult".toList blank_result

def blank_message : Json → Json := in_object "content".toList (in_list blank_block)

/-- The tool result turns between a message and the last two. -/
def later_turns (messages : List Json) (i : Nat) : List Nat :=
  (List.range (messages.length - 2)).filter
    (fun j => decide (i < j) && (messages[j]?).any bears_tool_result)

/-- What a call changes is text inside tool results, in turns with enough turns behind. -/
structure Framed (keep_last_n : Int) (before after : List Json) : Prop where
  count : after.length = before.length
  texts_only : after.map blank_message = before.map blank_message
  first : after[0]? = before[0]?
  last_two : ∀ i, before.length ≤ i + 2 → after[i]? = before[i]?
  others : ∀ i : Nat, (before[i]?).any bears_tool_result = false → after[i]? = before[i]?
  window : ∀ i : Nat, ((later_turns before i).length : Int) < max keep_last_n 1 → after[i]? = before[i]?

theorem Framed.refl (keep_last_n : Int) (messages : List Json) :
    Framed keep_last_n messages messages :=
  ⟨rfl, rfl, rfl, fun _ _ => rfl, fun _ _ => rfl, fun _ _ => rfl⟩

/-! ## Each step keeps what is not text -/

theorem each_map {α β : Type} (f : α → Done α) (g : α → β) (hf : ∀ x, g (f x).1 = g x)
    (xs : List α) : (each f xs).1.map g = xs.map g := by
  induction xs with
  | nil => rfl
  | cons x xs ih =>
    unfold each
    split
    · rw [List.map_cons, List.map_cons, hf x]
    · rw [List.map_cons, List.map_cons, hf x, ih]

/-- Assigning what `f` does not tell from the old value. -/
theorem at_key_assign (key : Str) (f : Json → Json) (v w : Json) (pairs : List (Str × Json))
    (hget : Json.get pairs key = some w) (h : f v = f w) :
    at_key key f (assign key v pairs) = at_key key f pairs := by
  induction pairs with
  | nil => rfl
  | cons kv pairs ih =>
    obtain ⟨k, u⟩ := kv
    by_cases hk : k = key
    · have hw : u = w := by simpa [Json.get, hk] using hget
      simp [assign, at_key, hk, h, hw]
    · have hrest : Json.get pairs key = some w := by simpa [Json.get, hk] using hget
      rw [assign, if_neg hk, at_key, List.map_cons, if_neg hk, at_key, List.map_cons, if_neg hk]
      exact congrArg (List.cons (k, u)) (ih hrest)

theorem in_object_assign (key : Str) (f : Json → Json) (v w : Json) (pairs : List (Str × Json))
    (hget : Json.get pairs key = some w) (h : f v = f w) :
    in_object key f (.obj (assign key v pairs)) = in_object key f (.obj pairs) :=
  congrArg Json.obj (at_key_assign key f v w pairs hget h)

section Frame
variable (equal : Json → Json → Bool) (py : Runtime) (messages : List Json) (idx : Nat)

theorem trim_item_blank (use : Json × Json) (v : Json) :
    blank_item (trim_item py use v).1 = blank_item v := by
  unfold trim_item
  split
  · split
    · rfl
    · next hget => exact in_object_assign _ _ _ _ _ hget rfl
    · rfl
  · rfl

theorem in_list_each (f : Json → Done Json) (g : Json → Json) (hf : ∀ x, g (f x).1 = g x)
    (items : List Json) : in_list g (.arr (each f items).1) = in_list g (.arr items) :=
  congrArg Json.arr (each_map f g hf items)

theorem trim_result_blank (v : Json) :
    blank_result (trim_result equal py messages idx v).1 = blank_result v := by
  unfold trim_result
  split
  · split
    · rfl
    · next use _ =>
      split
      · next items hget =>
        exact in_object_assign _ _ _ _ _ hget
          (in_list_each _ _ (trim_item_blank py use) items)
      · rfl
  · rfl

theorem trim_block_blank (v : Json) :
    blank_block (trim_block equal py messages idx v).1 = blank_block v := by
  unfold trim_block
  split
  · split
    · rfl
    · rfl
    · next result _ hget =>
      exact in_object_assign _ _ _ _ _ hget (trim_result_blank equal py messages idx result)
  · rfl

theorem trim_message_blank (v : Json) :
    blank_message (trim_message equal py messages idx v).1 = blank_message v := by
  unfold trim_message
  split
  · split
    · next blocks hget =>
      exact in_object_assign _ _ _ _ _ hget
        (in_list_each _ _ (trim_block_blank equal py messages idx) blocks)
    · rfl
  · rfl

/-- One index: the other messages stay, and this one but for its texts. -/
theorem trim_at_frame :
    (trim_at equal py messages idx).1.length = messages.length ∧
      (trim_at equal py messages idx).1.map blank_message = messages.map blank_message ∧
      ∀ j, j ≠ idx → (trim_at equal py messages idx).1[j]? = messages[j]? := by
  unfold trim_at
  split
  · exact ⟨rfl, rfl, fun _ _ => rfl⟩
  · next m hm =>
    refine ⟨List.length_set, ?_, fun j hj => List.getElem?_set_ne (Ne.symm hj)⟩
    rw [List.map_set, trim_message_blank]
    apply List.ext_getElem?
    intro j
    rw [List.getElem?_set, List.getElem?_map]
    split
    · next hj =>
      subst hj
      have hlength := (List.getElem?_eq_some_iff.mp hm).1
      rw [if_pos (by simpa using hlength), hm]
      rfl
    · rfl

theorem trim_all_frame (idxs : List Nat) :
    (trim_all equal py idxs messages).1.length = messages.length ∧
      (trim_all equal py idxs messages).1.map blank_message = messages.map blank_message ∧
      ∀ j, j ∉ idxs → (trim_all equal py idxs messages).1[j]? = messages[j]? := by
  induction idxs generalizing messages with
  | nil => exact ⟨rfl, rfl, fun _ _ => rfl⟩
  | cons idx idxs ih =>
    obtain ⟨hcount, hblank, hother⟩ := trim_at_frame equal py messages idx
    unfold trim_all
    split
    · exact ⟨hcount, hblank, fun j hj => hother j (fun h => hj (h ▸ List.mem_cons_self))⟩
    · obtain ⟨hcount', hblank', hother'⟩ := ih (trim_at equal py messages idx).1
      refine ⟨hcount'.trans hcount, hblank'.trans hblank, fun j hj => ?_⟩
      rw [hother' j (fun h => hj (List.mem_cons_of_mem _ h))]
      exact hother j (fun h => hj (h ▸ List.mem_cons_self))

end Frame

/-! ## The kept window -/

/-- What stands `n` places before the end of an ascending list has `n` behind it. -/
theorem ascending_behind (L : List Nat) (hL : L.Pairwise (· < ·)) (n i : Nat) (hn : n ≤ L.length)
    (hi : i ∈ L.take (L.length - n)) : n ≤ (L.filter (fun j => i < j)).length := by
  have hsplit := List.take_append_drop (L.length - n) L
  have hbehind : ∀ j ∈ L.drop (L.length - n), i < j := by
    rw [← hsplit, List.pairwise_append] at hL
    exact fun j hj => hL.2.2 i hi j hj
  have hall : (L.drop (L.length - n)).filter (fun j => i < j) = L.drop (L.length - n) :=
    List.filter_eq_self.mpr (fun j hj => decide_eq_true (hbehind j hj))
  have hlength : (L.drop (L.length - n)).length = n := by
    rw [List.length_drop]
    omega
  calc n = ((L.drop (L.length - n)).filter (fun j => i < j)).length := by rw [hall, hlength]
    _ ≤ (L.filter (fun j => i < j)).length :=
      ((List.drop_sublist _ L).filter _).length_le

theorem indices_cases (messages : List Json) (indices : List Nat)
    (h : tool_result_indices messages = .ok indices) :
    indices = (List.range (messages.length - 2)).filter
      (fun i => 1 ≤ i && (messages[i]?).any bears_tool_result) := by
  unfold tool_result_indices at h
  split at h
  · cases h
    rfl
  · cases h

theorem trimmed_index (messages : List Json) (indices : List Nat) (n i : Nat)
    (h : tool_result_indices messages = .ok indices) (hn : n ≤ indices.length)
    (hi : i ∈ indices.take (indices.length - n)) :
    1 ≤ i ∧ i < messages.length - 2 ∧ (messages[i]?).any bears_tool_result = true ∧
      n ≤ (later_turns messages i).length := by
  have hindices := indices_cases messages indices h
  have hmem := List.mem_of_mem_take hi
  rw [hindices, List.mem_filter, List.mem_range, Bool.and_eq_true, decide_eq_true_eq] at hmem
  have hascending : indices.Pairwise (· < ·) := by
    rw [hindices]
    exact List.pairwise_lt_range.filter _
  have hbehind := ascending_behind indices hascending n i hn hi
  have hlater : indices.filter (fun j => i < j) = later_turns messages i := by
    rw [hindices, List.filter_filter, later_turns]
    apply List.filter_congr
    intro j _
    by_cases hj : i < j
    · have hpos : 1 ≤ j := by omega
      simp [hj, hpos]
    · simp [hj]
  rw [hlater] at hbehind
  exact ⟨hmem.2.1, hmem.1, hmem.2.2, hbehind⟩

/-- Whatever the messages and however the call ends, it changes nothing but texts
inside the tool results of turns with enough turns behind them. -/
theorem trim_framed (equal : Json → Json → Bool) (py : Runtime) (cfg : LoopConfig)
    (messages : List Json) (keep_last_n : Int) :
    Framed keep_last_n messages (trim_message_history equal py cfg messages keep_last_n).1 := by
  unfold trim_message_history
  split
  · exact .refl _ _
  · split
    · exact .refl _ _
    · next indices hindices =>
      extract_lets effective_n trimmed
      split
      · exact .refl _ _
      · next hlong =>
        have hfinal : (match trimmed.2 with
            | some e => (trimmed.1, some e)
            | none => (trimmed.1, warn_if_context_large trimmed.1)).1 = trimmed.1 := by
          split
          · rfl
          · rfl
        rw [hfinal]
        obtain ⟨hcount, hblank, hother⟩ := trim_all_frame equal py messages
          (indices.take (indices.length - effective_n))
        have hindex := fun i => trimmed_index messages indices effective_n i hindices (by omega)
        refine ⟨hcount, hblank, ?_, ?_, ?_, ?_⟩
        · exact hother 0 (fun h => absurd (hindex 0 h).1 (by omega))
        · exact fun i hi => hother i (fun h => absurd (hindex i h).2.1 (by omega))
        · intro i hi
          exact hother i (fun h => by simp [(hindex i h).2.2.1] at hi)
        · intro i hi
          apply hother i
          intro h
          have hbehind := (hindex i h).2.2.2
          simp only [effective_n] at hbehind
          omega

/-! ## The messages of the loops -/

section Typed
open Truncation (ToolUse ToolResult ResultItem Block Message)

def raw_item : ResultItem → Json
  | .text t => .obj [("text".toList, .str t)]
  | .other => .obj [("json".toList, .obj [])]

def raw_use (u : ToolUse) : Json :=
  .obj [("toolUseId".toList, .str u.toolUseId), ("name".toList, .str u.name),
    ("input".toList, u.input)]

def raw_result (r : ToolResult) : Json :=
  .obj ([("toolUseId".toList, .str r.toolUseId), ("content".toList, .arr (r.content.map raw_item))] ++
    r.status.toList.map (fun status => ("status".toList, .str status)))

def raw_block : Block → Json
  | .text t => .obj [("text".toList, .str t)]
  | .toolUse u => .obj [("toolUse".toList, raw_use u)]
  | .toolResult r => .obj [("toolResult".toList, raw_result r)]

def raw_role : Truncation.Role → Str
  | .user => "user".toList
  | .assistant => "assistant".toList

def raw_message (m : Message) : Json :=
  .obj [("role".toList, .str (raw_role m.role)), ("content".toList, .arr (m.content.map raw_block))]

theorem each_map_pure {α β : Type} (f : β → Done β) (enc : α → β) (g : α → α)
    (hf : ∀ x, f (enc x) = (enc (g x), none)) (xs : List α) :
    each f (xs.map enc) = ((xs.map g).map enc, none) := by
  induction xs with
  | nil => rfl
  | cons x xs ih =>
    rw [List.map_cons, each, hf x, ih]
    rfl

theorem bears_raw (m : Message) : bears_tool_result (raw_message m) = m.bearsToolResult := by
  have hblock : ∀ b, result_block (raw_block b) = b.isToolResult := by
    intro b
    cases b with
    | text t => rfl
    | toolUse u => rfl
    | toolResult r => rfl
  obtain ⟨role, content⟩ := m
  cases role with
  | assistant => rfl
  | user =>
    change (content.map raw_block).any result_block = content.any Block.isToolResult
    rw [List.any_map]
    exact congrArg content.any (funext hblock)

theorem indices_raw (messages : List Message) :
    tool_result_indices (messages.map raw_message) =
      .ok (Truncation.tool_result_indices messages) := by
  have hbears : ∀ i : Nat, ((messages.map raw_message)[i]?).any bears_tool_result =
      (messages[i]?).any Message.bearsToolResult := by
    intro i
    rw [List.getElem?_map]
    cases messages[i]? with
    | none => rfl
    | some m => exact bears_raw m
  have hobjects : (((messages.map raw_message).take ((messages.map raw_message).length - 2)).drop
      1).all Json.isObject = true := by
    rw [List.all_eq_true]
    intro v hv
    obtain ⟨m, _, rfl⟩ := List.mem_map.mp (List.mem_of_mem_take (List.mem_of_mem_drop hv))
    rfl
  unfold tool_result_indices Truncation.tool_result_indices
  rw [if_pos hobjects, List.length_map]
  simp only [hbears]

theorem total_ok (sizes : List (Except Exn Nat)) (h : ∀ n ∈ sizes, ∃ k, n = .ok k) :
    ∃ k, total sizes = .ok k := by
  induction sizes with
  | nil => exact ⟨0, rfl⟩
  | cons n sizes ih =>
    obtain ⟨k, rfl⟩ := h n List.mem_cons_self
    obtain ⟨rest, hrest⟩ := ih (fun n hn => h n (List.mem_cons_of_mem _ hn))
    exact ⟨k + rest, by rw [total, hrest]; rfl⟩

theorem message_size_raw (m : Message) : ∃ k, message_size (raw_message m) = .ok k := by
  change ∃ k, total ((m.content.map raw_block).flatMap (fun b => [text_size b, result_size b])) =
    .ok k
  apply total_ok
  intro n hn
  obtain ⟨b, hb, hn⟩ := List.mem_flatMap.mp hn
  obtain ⟨b, _, rfl⟩ := List.mem_map.mp hb
  simp only [List.mem_cons, List.not_mem_nil, or_false] at hn
  cases b with
  | text t =>
    rcases hn with rfl | rfl
    · exact ⟨t.length, rfl⟩
    · exact ⟨0, rfl⟩
  | toolUse u =>
    rcases hn with rfl | rfl
    · exact ⟨0, rfl⟩
    · exact ⟨0, rfl⟩
  | toolResult r =>
    rcases hn with rfl | rfl
    · exact ⟨0, rfl⟩
    · change ∃ k, total ((r.content.map raw_item).map text_size) = .ok k
      apply total_ok
      intro n hn
      rw [List.map_map] at hn
      obtain ⟨item, _, rfl⟩ := List.mem_map.mp hn
      cases item with
      | text t => exact ⟨t.length, rfl⟩
      | other => exact ⟨0, rfl⟩

theorem warn_raw (messages : List Message) :
    warn_if_context_large (messages.map raw_message) = none := by
  have hsizes : ∀ n ∈ (messages.map raw_message).map message_size, ∃ k, n = .ok k := by
    intro n hn
    rw [List.map_map] at hn
    obtain ⟨m, _, rfl⟩ := List.mem_map.mp hn
    exact message_size_raw m
  obtain ⟨k, hk⟩ := total_ok _ hsizes
  rw [warn_if_context_large, hk]

variable (equal : Json → Json → Bool) (heq : ∀ a b, equal (.str a) (.str b) = decide (a = b))
variable (py : Runtime)

theorem trim_item_raw (use : Str × Json) (item : ResultItem) :
    trim_item py (.str use.1, use.2) (raw_item item) =
      (raw_item (Truncation.trim_item py use item), none) := by
  cases item with
  | text t => rfl
  | other => rfl

include heq

theorem find_in_blocks_raw (id : Str) (blocks : List Block) :
    find_in_blocks equal (.str id) (blocks.map raw_block) =
      .ok (let use := (blocks.findSome? (Block.namedUse id)).getD Truncation.unknown_use
        (.str use.1, use.2)) := by
  induction blocks with
  | nil => rfl
  | cons b blocks ih =>
    cases b with
    | text t => exact ih
    | toolResult r => exact ih
    | toolUse u =>
      have hused : used equal (.str id) [("toolUseId".toList, .str u.toolUseId),
          ("name".toList, .str u.name), ("input".toList, u.input)] =
          if u.toolUseId = id then some (.str u.name, u.input) else none := by
        have hsame := heq u.toolUseId id
        by_cases hid : u.toolUseId = id
        · rw [if_pos hid]
          exact if_pos (hsame.trans (decide_eq_true hid))
        · rw [if_neg hid]
          exact if_neg (ne_true_of_eq_false (hsame.trans (decide_eq_false hid)))
      change (match used equal (.str id) [("toolUseId".toList, .str u.toolUseId),
          ("name".toList, .str u.name), ("input".toList, u.input)] with
        | some found => Except.ok found
        | none => find_in_blocks equal (.str id) (blocks.map raw_block)) = _
      rw [hused, List.findSome?_cons, Block.namedUse]
      by_cases hid : u.toolUseId = id
      · rw [if_pos hid, if_pos hid]
        rfl
      · rw [if_neg hid, if_neg hid]
        exact ih

theorem find_before_raw (id : Str) (before : List Message) :
    find_before equal (.str id) (before.map raw_message) =
      .ok (let use := match before.find? (fun m => m.role = .assistant) with
          | none => Truncation.unknown_use
          | some m => (m.content.findSome? (Block.namedUse id)).getD Truncation.unknown_use
        (.str use.1, use.2)) := by
  induction before with
  | nil => rfl
  | cons m before ih =>
    obtain ⟨role, content⟩ := m
    cases role with
    | user => exact ih
    | assistant => exact find_in_blocks_raw equal heq id content

theorem find_paired_raw (messages : List Message) (idx : Nat) (id : Str) :
    find_paired_tool_use equal (messages.map raw_message) idx (.str id) =
      .ok (let use := Truncation.find_paired_tool_use messages idx id
        (.str use.1, use.2)) := by
  have hbefore := find_before_raw equal heq id (messages.take idx).reverse
  rw [List.map_reverse, List.map_take] at hbefore
  unfold find_paired_tool_use Truncation.find_paired_tool_use
  cases id with
  | nil => rfl
  | cons c cs => exact hbefore

theorem trim_result_raw (messages : List Message) (idx : Nat) (r : ToolResult) :
    trim_result equal py (messages.map raw_message) idx (raw_result r) =
      (raw_result (Truncation.trim_result py
        (Truncation.find_paired_tool_use messages idx r.toolUseId) r), none) := by
  have hpaired := find_paired_raw equal heq messages idx r.toolUseId
  have hitems := each_map_pure _ raw_item _
    (trim_item_raw py (Truncation.find_paired_tool_use messages idx r.toolUseId)) r.content
  change (match find_paired_tool_use equal (messages.map raw_message) idx (.str r.toolUseId) with
    | .error e => (raw_result r, some e)
    | .ok use =>
      (.obj (assign "content".toList (.arr (each (trim_item py use) (r.content.map raw_item)).1)
        ([("toolUseId".toList, Json.str r.toolUseId),
            ("content".toList, Json.arr (r.content.map raw_item))] ++
          r.status.toList.map (fun status => ("status".toList, Json.str status)))),
        (each (trim_item py use) (r.content.map raw_item)).2)) = _
  rw [hpaired]
  simp only [hitems]
  rfl

theorem trim_block_raw (messages : List Message) (idx : Nat) (b : Block) :
    trim_block equal py (messages.map raw_message) idx (raw_block b) =
      (raw_block (Truncation.trim_block py (Truncation.find_paired_tool_use messages idx) b),
        none) := by
  cases b with
  | text t => rfl
  | toolUse u => rfl
  | toolResult r =>
    have hresult := trim_result_raw equal heq py messages idx r
    change (Json.obj (assign "toolResult".toList (trim_result equal py (messages.map raw_message)
        idx (raw_result r)).1 [("toolResult".toList, raw_result r)]),
      (trim_result equal py (messages.map raw_message) idx (raw_result r)).2) = _
    rw [hresult]
    rfl

theorem trim_message_raw (messages : List Message) (idx : Nat) (m : Message) :
    trim_message equal py (messages.map raw_message) idx (raw_message m) =
      (raw_message (Truncation.trim_message py messages idx m), none) := by
  have hblocks := each_map_pure (trim_block equal py (messages.map raw_message) idx) raw_block _
    (trim_block_raw equal heq py messages idx) m.content
  change (Json.obj (assign "content".toList (.arr (each (trim_block equal py
      (messages.map raw_message) idx) (m.content.map raw_block)).1)
        [("role".toList, .str (raw_role m.role)),
          ("content".toList, .arr (m.content.map raw_block))]),
    (each (trim_block equal py (messages.map raw_message) idx) (m.content.map raw_block)).2) = _
  rw [hblocks]
  rfl

theorem trim_at_raw (messages : List Message) (idx : Nat) :
    trim_at equal py (messages.map raw_message) idx =
      ((messages.modify idx (Truncation.trim_message py messages idx)).map raw_message, none) := by
  unfold trim_at
  rw [List.getElem?_map]
  cases hm : messages[idx]? with
  | none =>
    rw [List.modify_eq_self (List.getElem?_eq_none_iff.mp hm)]
    rfl
  | some m =>
    simp only [Option.map_some, trim_message_raw equal heq py messages idx m]
    rw [List.modify_eq_set_getElem?, hm, ← List.map_set]
    rfl

theorem trim_all_raw (idxs : List Nat) (messages : List Message) :
    trim_all equal py idxs (messages.map raw_message) =
      ((idxs.foldl (fun ms idx => ms.modify idx (Truncation.trim_message py ms idx)) messages).map
        raw_message, none) := by
  induction idxs generalizing messages with
  | nil => rfl
  | cons idx idxs ih =>
    rw [trim_all, trim_at_raw equal heq py messages idx, List.foldl_cons]
    exact ih _

end Typed

/-- On the messages of the loops the raw trimming is the typed one and raises nothing. -/
theorem trim_raw (equal : Json → Json → Bool)
    (heq : ∀ a b, equal (.str a) (.str b) = decide (a = b)) (py : Runtime) (cfg : LoopConfig)
    (messages : List Truncation.Message) (keep_last_n : Int) :
    trim_message_history equal py cfg (messages.map raw_message) keep_last_n =
      ((Truncation.trim_message_history py cfg messages keep_last_n).map raw_message, none) := by
  unfold trim_message_history Truncation.trim_message_history Truncation.indices_to_trim
  split
  · rfl
  · rw [indices_raw]
    simp only [trim_all_raw equal heq py, warn_raw]
    split
    · next hshort =>
      rw [Nat.sub_eq_zero_of_le hshort, List.take_zero]
      rfl
    · rfl

end AigentSquad.RawTrimming
