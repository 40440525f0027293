import Mathlib.Data.List.Forall2
import AigentSquad.AgenticLoop

/-!
# Replaying the model's own turns

`_parse_converse_content` reads the blocks of a response and
`_to_converse_assistant_blocks` writes them back for the next call. What comes
back is the turn of the model when its blocks are texts and tool uses and hold
nothing else.
-/

set_option autoImplicit false

namespace AigentSquad.TurnReplay
open AigentSquad.PyText AigentSquad.PyJson AigentSquad.Truncation AigentSquad.Effects

/-- The same value, its dictionaries up to the order of their keys. -/
inductive SameValue : Json → Json → Prop
  | refl (j : Json) : SameValue j j
  | arr {xs ys : List Json} (h : List.Forall₂ SameValue xs ys) : SameValue (.arr xs) (.arr ys)
  | obj {ps qs : List (Str × Json)}
      (h : ∀ k, Option.Rel SameValue (Json.get ps k) (Json.get qs k)) :
      SameValue (.obj ps) (.obj qs)

/-- A block of the Converse API, a dictionary. -/
abbrev RawBlock := List (Str × Json)

/-- The uniform structure between reading and writing. -/
inductive UniformBlock where
  | text (text : Json)
  | tool_use (toolUseId name input : Json)
  | unknown (raw : RawBlock)

def parse_block (block : RawBlock) : Except Exn UniformBlock :=
  match Json.get block "text".toList with
  | some text => .ok (.text text)
  | none =>
    match Json.get block "toolUse".toList with
    | some (.obj tu) =>
      .ok (.tool_use ((Json.get tu "toolUseId".toList).getD (.str []))
        ((Json.get tu "name".toList).getD (.str []))
        ((Json.get tu "input".toList).getD (.obj [])))
    | some _ => .error .AttributeError
    | none => .ok (.unknown block)

def parse_converse_content : List RawBlock → Except Exn (List UniformBlock)
  | [] => .ok []
  | block :: blocks => do
    let parsed ← parse_block block
    let rest ← parse_converse_content blocks
    pure (parsed :: rest)

def assistant_block : UniformBlock → Option RawBlock
  | .text text => some [("text".toList, text)]
  | .tool_use toolUseId name input =>
    some [("toolUse".toList, .obj [("toolUseId".toList, toolUseId), ("name".toList, name),
      ("input".toList, input)])]
  | .unknown _ => none

def to_converse_assistant_blocks (content_blocks : List UniformBlock) : List RawBlock :=
  content_blocks.filterMap assistant_block

/-! ## The blocks of the loop -/

def uniform : ContentBlock → UniformBlock
  | .text t => .text (.str t)
  | .tool_use u => .tool_use (.str u.toolUseId) (.str u.name) u.input
  | .reasoning _ => .unknown []
  | .unknown _ => .unknown []

def message_block : Block → RawBlock
  | .text t => [("text".toList, .str t)]
  | .toolUse u => [("toolUse".toList, .obj [("toolUseId".toList, .str u.toolUseId),
      ("name".toList, .str u.name), ("input".toList, u.input)])]
  | .toolResult _ => []

/-- The loop appends what is written here. -/
theorem loop_writes (content_blocks : List ContentBlock) :
    to_converse_assistant_blocks (content_blocks.map uniform) =
      (AgenticLoop.to_converse_assistant_blocks content_blocks).map message_block := by
  rw [to_converse_assistant_blocks, AgenticLoop.to_converse_assistant_blocks, List.filterMap_map,
    List.map_filterMap]
  refine List.filterMap_congr (fun block _ => ?_)
  cases block <;> rfl

/-! ## The round trip -/

/-- What the next call carries is the turn of the model. -/
def Replayed (blocks : List RawBlock) : Prop :=
  ∃ content, parse_converse_content blocks = .ok content ∧
    List.Forall₂ (fun b c => SameValue (.obj b) (.obj c)) (to_converse_assistant_blocks content)
      blocks

def keysAre (pairs : List (Str × Json)) (keys : List Str) : Prop :=
  ∀ k, (Json.get pairs k).isSome = true ↔ k ∈ keys

inductive Known (block : RawBlock) : Prop
  | text (h : keysAre block ["text".toList])
  | tool_use (tu : List (Str × Json)) (h : keysAre block ["toolUse".toList])
      (hget : Json.get block "toolUse".toList = some (.obj tu))
      (hkeys : keysAre tu ["toolUseId".toList, "name".toList, "input".toList])

/-- What becomes of one block. -/
def replayed_block (block : RawBlock) : Option RawBlock :=
  (parse_block block).toOption.bind assistant_block

theorem same_obj_iff (ps qs : List (Str × Json)) :
    SameValue (.obj ps) (.obj qs) ↔ ∀ k, Option.Rel SameValue (Json.get ps k) (Json.get qs k) := by
  constructor
  · intro h
    cases h with
    | refl =>
      intro k
      cases Json.get ps k with
      | none => exact .none
      | some v => exact .some (.refl v)
    | obj h => exact h
  · exact .obj

theorem same_keys (ps qs : List (Str × Json)) (h : SameValue (.obj ps) (.obj qs)) (k : Str) :
    (Json.get qs k).isSome = (Json.get ps k).isSome := by
  have hk := (same_obj_iff ps qs).mp h k
  generalize Json.get ps k = v at hk
  generalize Json.get qs k = w at hk
  cases hk <;> rfl

theorem keysAre_get (pairs : List (Str × Json)) (keys : List Str) (h : keysAre pairs keys)
    (k : Str) (hk : k ∉ keys) : Json.get pairs k = none := by
  have hnot : ¬ (Json.get pairs k).isSome = true := fun hsome => hk ((h k).mp hsome)
  simpa using hnot

theorem get_one (k j : Str) (v : Json) : Json.get [(k, v)] j = if k = j then some v else none := by
  by_cases h : k = j <;> simp [Json.get, h]

theorem keysAre_one (k : Str) (v : Json) : keysAre [(k, v)] [k] := by
  intro j
  rw [get_one]
  by_cases h : k = j
  · simp [h]
  · simp [h, Ne.symm h]

/-- A dictionary of one key and the same value under it. -/
theorem same_one (k : Str) (v : Json) (block : RawBlock) :
    SameValue (.obj [(k, v)]) (.obj block) ↔
      keysAre block [k] ∧ ∃ w, Json.get block k = some w ∧ SameValue v w := by
  constructor
  · intro h
    constructor
    · intro j
      rw [same_keys _ _ h j]
      exact keysAre_one k v j
    · have hk := (same_obj_iff _ _).mp h k
      rw [get_one, if_pos rfl] at hk
      cases hw : Json.get block k with
      | none =>
        rw [hw] at hk
        cases hk
      | some w =>
        rw [hw] at hk
        cases hk with
        | some hsame => exact ⟨w, rfl, hsame⟩
  · rintro ⟨hkeys, w, hw, hsame⟩
    rw [same_obj_iff]
    intro j
    rw [get_one]
    by_cases hj : k = j
    · subst hj
      rw [if_pos rfl, hw]
      exact .some hsame
    · rw [if_neg hj, keysAre_get block [k] hkeys j (by simp [Ne.symm hj])]
      exact .none

theorem get_three (i n x k : Str) (a b c : Json) : Json.get [(i, a), (n, b), (x, c)] k =
    if i = k then some a else if n = k then some b else if x = k then some c else none := by
  by_cases hi : i = k
  · simp [Json.get, hi]
  · by_cases hn : n = k
    · simp [Json.get, hi, hn]
    · by_cases hx : x = k <;> simp [Json.get, hi, hn, hx]

/-- Three fields written as they are read are the dictionary itself when it has
these and no others. -/
theorem same_fields (i n x : Str) (d e f : Json) (tu : List (Str × Json)) :
    SameValue (.obj [(i, (Json.get tu i).getD d), (n, (Json.get tu n).getD e),
        (x, (Json.get tu x).getD f)]) (.obj tu) ↔ keysAre tu [i, n, x] := by
  have hfield : ∀ (k : Str) (d : Json), (Json.get tu k).isSome = true →
      Option.Rel SameValue (some ((Json.get tu k).getD d)) (Json.get tu k) := by
    intro k d hsome
    obtain ⟨v, hv⟩ := Option.isSome_iff_exists.mp hsome
    rw [hv]
    exact .some (.refl v)
  constructor
  · intro h k
    rw [same_keys _ _ h k, get_three]
    by_cases hi : i = k
    · simp [hi]
    · by_cases hn : n = k
      · simp [hi, hn]
      · by_cases hx : x = k
        · simp [hi, hn, hx]
        · simp [hi, hn, hx, Ne.symm hi, Ne.symm hn, Ne.symm hx]
  · intro hkeys
    rw [same_obj_iff]
    intro k
    rw [get_three]
    by_cases hi : i = k
    · rw [if_pos hi, hi]
      exact hfield k d ((hkeys k).mpr (by simp [hi]))
    · by_cases hn : n = k
      · rw [if_neg hi, if_pos hn, hn]
        exact hfield k e ((hkeys k).mpr (by simp [hn]))
      · by_cases hx : x = k
        · rw [if_neg hi, if_neg hn, if_pos hx, hx]
          exact hfield k f ((hkeys k).mpr (by simp [hx]))
        · rw [if_neg hi, if_neg hn, if_neg hx,
            keysAre_get tu _ hkeys k (by simp [Ne.symm hi, Ne.symm hn, Ne.symm hx])]
          exact .none

/-- A block without text that is read back holds the three fields of a tool use. -/
theorem known_use (block : RawBlock) (h : Known block)
    (htext : Json.get block "text".toList = none) :
    ∃ tu, keysAre block ["toolUse".toList] ∧ Json.get block "toolUse".toList = some (.obj tu) ∧
      keysAre tu ["toolUseId".toList, "name".toList, "input".toList] := by
  cases h with
  | text h =>
    have hsome := (h "text".toList).mpr List.mem_cons_self
    rw [htext] at hsome
    cases hsome
  | tool_use tu h hget hkeys => exact ⟨tu, h, hget, hkeys⟩

theorem replayed_block_iff (block : RawBlock) :
    (∃ out, replayed_block block = some out ∧ SameValue (.obj out) (.obj block)) ↔
      Known block := by
  unfold replayed_block parse_block
  cases htext : Json.get block "text".toList with
  | some text =>
    simp only [Except.toOption, Option.bind_some, assistant_block, Option.some.injEq,
      exists_eq_left', same_one, htext]
    constructor
    · exact fun h => .text h.1
    · intro h
      refine ⟨?_, .refl text⟩
      cases h with
      | text h => exact h
      | tool_use tu h _ _ =>
        rw [keysAre_get block _ h "text".toList (by decide)] at htext
        cases htext
  | none =>
    cases huse : Json.get block "toolUse".toList with
    | none =>
      refine iff_of_false (fun h => ?_) (fun h => ?_)
      · obtain ⟨out, hout, _⟩ := h
        cases hout
      · obtain ⟨tu, _, hget, _⟩ := known_use block h htext
        rw [huse] at hget
        cases hget
    | some use =>
      cases use with
      | obj tu =>
        simp only [Except.toOption, Option.bind_some, assistant_block, Option.some.injEq,
          exists_eq_left', same_one, huse, same_fields]
        constructor
        · rintro ⟨hkeys, hfields⟩
          exact .tool_use tu hkeys huse hfields
        · intro h
          obtain ⟨tu', hkeys, hget, hfields⟩ := known_use block h htext
          rw [huse, Option.some.injEq, Json.obj.injEq] at hget
          exact ⟨hkeys, hget ▸ hfields⟩
      | _ =>
        refine iff_of_false (fun h => ?_) (fun h => ?_)
        · obtain ⟨out, hout, _⟩ := h
          cases hout
        · obtain ⟨tu, _, hget, _⟩ := known_use block h htext
          rw [huse] at hget
          cases hget

theorem parse_cons (block : RawBlock) (blocks : List RawBlock) (content : List UniformBlock) :
    parse_converse_content (block :: blocks) = .ok content ↔
      ∃ parsed rest, parse_block block = .ok parsed ∧ parse_converse_content blocks = .ok rest ∧
        content = parsed :: rest := by
  rw [parse_converse_content]
  cases parse_block block with
  | error e => simp [bind, Except.bind]
  | ok parsed =>
    cases parse_converse_content blocks with
    | error e => simp [bind, Except.bind]
    | ok rest => simp [bind, Except.bind, pure, Except.pure, eq_comm]

theorem parse_length (blocks : List RawBlock) (content : List UniformBlock)
    (h : parse_converse_content blocks = .ok content) : content.length = blocks.length := by
  induction blocks generalizing content with
  | nil =>
    cases h
    rfl
  | cons block blocks ih =>
    obtain ⟨parsed, rest, _, hrest, rfl⟩ := (parse_cons block blocks content).mp h
    rw [List.length_cons, List.length_cons, ih rest hrest]

/-- Nothing is dropped, so each block is written back in its place. -/
theorem replayed_cons (block : RawBlock) (blocks : List RawBlock) :
    Replayed (block :: blocks) ↔ (∃ out, replayed_block block = some out ∧
      SameValue (.obj out) (.obj block)) ∧ Replayed blocks := by
  constructor
  · rintro ⟨content, hparse, hsame⟩
    obtain ⟨parsed, rest, hblock, hrest, rfl⟩ := (parse_cons block blocks content).mp hparse
    cases hout : assistant_block parsed with
    | none =>
      have hlong := hsame.length_eq
      have hshort := List.length_filterMap_le assistant_block rest
      rw [to_converse_assistant_blocks, List.filterMap_cons_none hout, List.length_cons,
        ← parse_length blocks rest hrest] at hlong
      omega
    | some out =>
      rw [to_converse_assistant_blocks, List.filterMap_cons_some hout] at hsame
      obtain ⟨hhead, htail⟩ := List.forall₂_cons.mp hsame
      refine ⟨⟨out, ?_, hhead⟩, rest, hrest, htail⟩
      rw [replayed_block, hblock]
      exact hout
  · rintro ⟨⟨out, hout, hsame⟩, rest, hrest, htail⟩
    cases hblock : parse_block block with
    | error e =>
      rw [replayed_block, hblock] at hout
      cases hout
    | ok parsed =>
      rw [replayed_block, hblock] at hout
      change assistant_block parsed = some out at hout
      refine ⟨parsed :: rest, (parse_cons _ _ _).mpr ⟨parsed, rest, hblock, hrest, rfl⟩, ?_⟩
      rw [to_converse_assistant_blocks, List.filterMap_cons_some hout]
      exact List.forall₂_cons.mpr ⟨hsame, htail⟩

/-- A turn is replayed exactly when it consists of texts and plain tool uses. -/
theorem replayed_iff (blocks : List RawBlock) :
    Replayed blocks ↔ ∀ block ∈ blocks, Known block := by
  induction blocks with
  | nil =>
    exact iff_of_true ⟨[], rfl, .nil⟩ (List.forall_mem_nil _)
  | cons block blocks ih =>
    rw [replayed_cons, replayed_block_iff, ih, List.forall_mem_cons]

/-- A turn that thinks before it calls its tool. -/
def thinkingTurn : List RawBlock :=
  [[("reasoningContent".toList, .obj [("reasoningText".toList,
      .obj [("text".toList, .str "List the pods first.".toList),
        ("signature".toList, .str "c2ln".toList)])])],
    [("toolUse".toList, .obj [("toolUseId".toList, .str "t1".toList),
      ("name".toList, .str "pods_list".toList), ("input".toList, .obj [])])]]

theorem thinking_dropped : ¬ Replayed thinkingTurn := by
  rintro ⟨content, hparse, hsame⟩
  cases hparse
  have hlength := hsame.length_eq
  exact absurd hlength (by decide)

end AigentSquad.TurnReplay
