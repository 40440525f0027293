import AigentSquad.Truncation

/-!
# What trimming does to each message

`trim_message_history` rewrites its messages one index after another and looks
up tool uses in the list rewritten so far. Only assistant messages are looked
up and only user messages are rewritten, so each index can be read on its own.
-/

set_option autoImplicit false

namespace AigentSquad.Trimming
open AigentSquad.PyText AigentSquad.PyJson AigentSquad.Truncation

/-- What a tool use lookup sees of a message. -/
def spoken (m : Message) : Option (List Block) :=
  if m.role = .assistant then some m.content else none

theorem find_spoken (ms : List Message) :
    (ms.find? (fun m => m.role = .assistant)).map Message.content =
      (ms.map spoken).findSome? id := by
  induction ms with
  | nil => rfl
  | cons m ms ih =>
    by_cases hm : m.role = .assistant
    · simp [spoken, hm]
    · simpa [spoken, hm] using ih

theorem find_paired_of_spoken (ms ns : List Message) (idx : Nat) (id : Str)
    (h : ms.map spoken = ns.map spoken) :
    find_paired_tool_use ms idx id = find_paired_tool_use ns idx id := by
  have hfind := find_spoken (ms.take idx).reverse
  rw [List.map_reverse, List.map_take, h, ← List.map_take, ← List.map_reverse, ← find_spoken]
    at hfind
  unfold find_paired_tool_use
  cases hm : (ms.take idx).reverse.find? (fun m => m.role = .assistant) <;>
    cases hn : (ns.take idx).reverse.find? (fun m => m.role = .assistant) <;>
    simp_all

theorem trim_message_of_spoken (py : Runtime) (ms ns : List Message) (idx : Nat) (m : Message)
    (h : ms.map spoken = ns.map spoken) : trim_message py ms idx m = trim_message py ns idx m := by
  have hpaired := funext (fun id => find_paired_of_spoken ms ns idx id h)
  rw [trim_message, hpaired, trim_message]

theorem trim_message_append (py : Runtime) (ms ns : List Message) (idx : Nat) (m : Message)
    (h : idx ≤ ms.length) : trim_message py (ms ++ ns) idx m = trim_message py ms idx m := by
  have hpaired : find_paired_tool_use (ms ++ ns) idx = find_paired_tool_use ms idx := by
    funext id
    rw [find_paired_tool_use, List.take_append_of_le_length h, find_paired_tool_use]
  rw [trim_message, hpaired, trim_message]

theorem trim_message_role (py : Runtime) (ms : List Message) (idx : Nat) (m : Message) :
    (trim_message py ms idx m).role = m.role := rfl

theorem trim_message_bears (py : Runtime) (ms : List Message) (idx : Nat) (m : Message) :
    (trim_message py ms idx m).bearsToolResult = m.bearsToolResult := by
  have hblock : ∀ paired b, Block.isToolResult (trim_block py paired b) = Block.isToolResult b := by
    intro paired b
    cases b <;> rfl
  simp only [Message.bearsToolResult, trim_message, List.any_map, Function.comp_def, hblock]
  rfl

theorem spoken_modify (py : Runtime) (ms ns : List Message) (idx : Nat)
    (hrole : ∀ m, ns[idx]? = some m → m.role = .user) :
    (ns.modify idx (trim_message py ms idx)).map spoken = ns.map spoken := by
  apply List.ext_getElem?
  intro j
  rw [List.getElem?_map, List.getElem?_map, List.getElem?_modify]
  by_cases hj : idx = j
  · subst hj
    cases hm : ns[idx]? with
    | none => rfl
    | some m => simp [spoken, trim_message_role, hrole m hm]
  · simp [hj]

theorem fold_get (py : Runtime) (ms : List Message) (idxs : List Nat) (ns : List Message)
    (hnodup : idxs.Nodup) (hns : ns.map spoken = ms.map spoken)
    (hrole : ∀ i ∈ idxs, ∀ m, ns[i]? = some m → m.role = .user) (j : Nat) :
    (idxs.foldl (fun ms idx => ms.modify idx (trim_message py ms idx)) ns)[j]? =
      if j ∈ idxs then (ns[j]?).map (trim_message py ms j) else ns[j]? := by
  induction idxs generalizing ns with
  | nil => simp
  | cons i idxs ih =>
    have hi : i ∉ idxs := (List.nodup_cons.mp hnodup).1
    have hmod : ∀ k, k ≠ i → (ns.modify i (trim_message py ns i))[k]? = ns[k]? := by
      intro k hk
      rw [List.getElem?_modify_ne _ _ (Ne.symm hk)]
    rw [List.foldl_cons, ih _ (List.nodup_cons.mp hnodup).2]
    · by_cases hj : j = i
      · subst hj
        rw [if_neg hi, if_pos (by simp), List.getElem?_modify_eq]
        exact congrArg (fun f => f <$> ns[j]?)
          (funext (fun m => trim_message_of_spoken py ns ms j m hns))
      · rw [hmod j hj]
        simp [hj]
    · rw [spoken_modify py ns ns i (hrole i (by simp)), hns]
    · intro k hk m hm
      rw [hmod k (fun he => hi (he ▸ hk))] at hm
      exact hrole k (by simp [hk]) m hm

theorem mem_tool_result_indices (ms : List Message) (i : Nat) :
    i ∈ tool_result_indices ms ↔
      i < ms.length - 2 ∧ 1 ≤ i ∧ ∃ m, ms[i]? = some m ∧ m.bearsToolResult = true := by
  simp [tool_result_indices, Option.any_eq_true]

theorem indices_to_trim_subset (ms : List Message) (keep_last_n : Int) (i : Nat)
    (h : i ∈ indices_to_trim ms keep_last_n) : i ∈ tool_result_indices ms :=
  List.mem_of_mem_take h

theorem indices_to_trim_nodup (ms : List Message) (keep_last_n : Int) :
    (indices_to_trim ms keep_last_n).Nodup :=
  (List.nodup_range.filter _).sublist (List.take_sublist _ _)

theorem bears_user (m : Message) (h : m.bearsToolResult = true) : m.role = .user := by
  simp only [Message.bearsToolResult, Bool.and_eq_true, decide_eq_true_eq] at h
  exact h.1

theorem trim_get (py : Runtime) (cfg : LoopConfig) (ms : List Message) (keep_last_n : Int)
    (j : Nat) :
    (trim_message_history py cfg ms keep_last_n)[j]? =
      if cfg.CONTEXT_TRIM_ENABLED = true ∧ j ∈ indices_to_trim ms keep_last_n then
        (ms[j]?).map (trim_message py ms j) else ms[j]? := by
  unfold trim_message_history
  cases cfg.CONTEXT_TRIM_ENABLED with
  | false => simp
  | true =>
    rw [if_neg (by simp), fold_get py ms _ ms (indices_to_trim_nodup ms keep_last_n) rfl]
    · simp
    · intro i hi m hm
      obtain ⟨_, _, m', hm', hbears⟩ :=
        (mem_tool_result_indices ms i).mp (indices_to_trim_subset ms _ i hi)
      obtain rfl : m' = m := by simpa [hm'] using hm
      exact bears_user m' hbears

/-- Trimming leaves what a tool use lookup sees and which messages bear results. -/
theorem trim_get_spoken (py : Runtime) (cfg : LoopConfig) (ms : List Message) (keep_last_n : Int)
    (j : Nat) :
    ((trim_message_history py cfg ms keep_last_n)[j]?).map spoken = (ms[j]?).map spoken ∧
      ((trim_message_history py cfg ms keep_last_n)[j]?).map Message.bearsToolResult =
        (ms[j]?).map Message.bearsToolResult := by
  rw [trim_get]
  split
  · next h =>
    obtain ⟨_, _, m, hm, hbears⟩ :=
      (mem_tool_result_indices ms j).mp (indices_to_trim_subset ms _ j h.2)
    have hrole : m.role = .user := by
      exact bears_user m hbears
    simp [hm, spoken, trim_message_role, hrole, trim_message_bears]
  · exact ⟨rfl, rfl⟩

theorem trim_length (py : Runtime) (cfg : LoopConfig) (ms : List Message) (keep_last_n : Int) :
    (trim_message_history py cfg ms keep_last_n).length = ms.length := by
  unfold trim_message_history
  split
  · rfl
  · generalize indices_to_trim ms keep_last_n = idxs
    induction idxs generalizing ms with
    | nil => rfl
    | cons i idxs ih => rw [List.foldl_cons, ih, List.length_modify]

theorem trim_spoken (py : Runtime) (cfg : LoopConfig) (ms : List Message) (keep_last_n : Int) :
    (trim_message_history py cfg ms keep_last_n).map spoken = ms.map spoken := by
  apply List.ext_getElem?
  intro j
  rw [List.getElem?_map, List.getElem?_map, (trim_get_spoken py cfg ms keep_last_n j).1]

theorem trim_indices (py : Runtime) (cfg : LoopConfig) (ms : List Message) (keep_last_n n : Int) :
    indices_to_trim (trim_message_history py cfg ms keep_last_n) n = indices_to_trim ms n := by
  have hbears : ∀ (l : List Message) (i : Nat),
      (l[i]?).any Message.bearsToolResult = (((l[i]?).map Message.bearsToolResult).any id) := by
    intro l i
    cases l[i]? <;> rfl
  have hindices : tool_result_indices (trim_message_history py cfg ms keep_last_n) =
      tool_result_indices ms := by
    rw [tool_result_indices, tool_result_indices, trim_length]
    refine List.filter_congr (fun i _ => ?_)
    rw [hbears, hbears, (trim_get_spoken py cfg ms keep_last_n i).2]
  rw [indices_to_trim, indices_to_trim, hindices]

theorem trim_last (py : Runtime) (cfg : LoopConfig) (ms : List Message) (keep_last_n : Int) :
    (trim_message_history py cfg ms keep_last_n).getLast? = ms.getLast? := by
  rw [List.getLast?_eq_getElem?, List.getLast?_eq_getElem?, trim_length, trim_get, if_neg]
  rintro ⟨_, hlast⟩
  have := ((mem_tool_result_indices ms _).mp (indices_to_trim_subset ms _ _ hlast)).1
  omega

end AigentSquad.Trimming
