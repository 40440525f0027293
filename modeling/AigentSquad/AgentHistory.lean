import AigentSquad.ChatHistory

/-!
# What an agent reads back

`fetch_chat` takes the last items whose sort key begins with the agent's name,
other agents' among them. It reads the agent's own latest messages exactly when
enough of them stand above the others'.
-/

set_option autoImplicit false

namespace AigentSquad.AgentHistory
open AigentSquad.PyText AigentSquad.SortedSuffix AigentSquad.ChatStorage AigentSquad.ChatHistory

def saved_for (agent_id : Str) (history : List Turn) : List Turn :=
  (kept history).filter (fun m => m.agent_id = agent_id)

/-- The agent's latest messages in the order of their times. -/
def most_recent (agent_id : Str) (max_messages : ℕ) (history : List Turn) :
    List ConversationMessage :=
  let messages := sorted (fun m => m.now.fields) (saved_for agent_id history)
  (messages.drop (messages.length - max_messages)).map Turn.stored

theorem key_kept (history : List Turn) :
    ∀ m ∈ history, ∃ x ∈ kept history, x.sk = m.sk := by
  induction history with
  | nil => exact fun m hm => nomatch hm
  | cons m history ih =>
    intro x hx
    by_cases hlater : m.sk ∈ history.map Turn.sk
    · rw [kept, if_pos hlater]
      rcases List.mem_cons.mp hx with rfl | hx
      · obtain ⟨y, hy, hsame⟩ := List.mem_map.mp hlater
        rw [← hsame]
        exact ih y hy
      · exact ih x hx
    · rw [kept, if_neg hlater]
      rcases List.mem_cons.mp hx with rfl | hx
      · exact ⟨x, List.mem_cons_self, rfl⟩
      · obtain ⟨y, hy, hsame⟩ := ih x hx
        exact ⟨y, List.mem_cons_of_mem m hy, hsame⟩

theorem kept_keys (history : List Turn) : ((kept history).map Turn.sk).Nodup := by
  induction history with
  | nil => exact List.nodup_nil
  | cons m history ih =>
    rw [kept]
    split
    · exact ih
    · next hlater =>
      rw [List.map_cons, List.nodup_cons]
      refine ⟨?_, ih⟩
      intro hmem
      obtain ⟨x, hx, hsame⟩ := List.mem_map.mp hmem
      exact hlater (List.mem_map.mpr ⟨x, mem_kept history x hx, hsame⟩)

/-! ## The order of one agent's items -/

theorem fields_injective (s t : UtcTime) (h : s.fields = t.fields) : s = t := by
  obtain ⟨⟩ := s
  obtain ⟨⟩ := t
  simpa [UtcTime.fields] using h

/-- One agent's items stand in the order of their times. -/
theorem sorted_by_time (agent_id : Str) (history : List Turn) :
    sorted Turn.sk (saved_for agent_id history) =
      sorted (fun m => m.now.fields) (saved_for agent_id history) := by
  have hkeys : ((saved_for agent_id history).map Turn.sk).Nodup :=
    (kept_keys history).sublist (List.filter_sublist.map Turn.sk)
  apply sorted_unique Turn.sk hkeys (sorted_perm _ _)
  refine (sorted_pairwise (fun m : Turn => m.now.fields) _).imp_of_mem ?_
  intro x y hx hy hxy
  have hagent : ∀ m ∈ sorted (fun m : Turn => m.now.fields) (saved_for agent_id history),
      m.agent_id = agent_id := by
    intro m hm
    have hmem := (sorted_perm _ _).mem_iff.mp hm
    exact of_decide_eq_true (List.mem_filter.mp hmem).2
  rcases lt_or_eq_of_le hxy with hlt | heq
  · exact le_of_lt (sk_lt x y ((hagent x hx).trans (hagent y hy).symm) hlt)
  · rw [Turn.sk, Turn.sk, fields_injective _ _ heq, hagent x hx, hagent y hy]

/-! ## What the key condition selects -/

def selected (agent_id : Str) (history : List Turn) : List Turn :=
  sorted Turn.sk ((kept history).filter (fun m => startswith m.sk agent_id))

theorem filtered_keys (history : List Turn) (p : Turn → Bool) :
    (((kept history).filter p).map Turn.sk).Nodup :=
  (kept_keys history).sublist (List.filter_sublist.map Turn.sk)

theorem fetch_chat_selected (c : Conversation) (t : Table) (history : List Turn) (agent_id : Str)
    (max_messages : ℕ) (hfresh : ∀ i ∈ t.items, i.pk ≠ c.pk) :
    fetch_chat true (save_all c t history) c agent_id max_messages =
      ((selected agent_id history).drop
        ((selected agent_id history).length - max_messages)).map Turn.stored := by
  have hitems : (under c.pk (save_all c t history)).filter (fun i => startswith i.sk agent_id) =
      ((kept history).filter (fun m => startswith m.sk agent_id)).map (Turn.item c) := by
    rw [under_kept c t history hfresh, List.filter_map]
    rfl
  have hsorted : ∀ l : List Turn,
      sorted Item.sk (l.map (Turn.item c)) = (sorted Turn.sk l).map (Turn.item c) :=
    fun l => (List.map_insertionSort _ _ (Turn.item c) l (fun _ _ _ _ => Iff.rfl)).symm
  rw [fetch_chat_under, if_pos rfl, hitems, hsorted, drop_sub_length, List.length_map,
    ← List.map_drop, List.map_map]
  rfl

/-- The agent's own messages are selected. -/
theorem saved_for_selected (agent_id : Str) (history : List Turn) :
    sorted Turn.sk (saved_for agent_id history) =
      (selected agent_id history).filter (fun m => m.agent_id = agent_id) := by
  rw [selected, sorted_filter Turn.sk (filtered_keys history _), List.filter_filter, saved_for]
  congr 1
  refine List.filter_congr (fun m _ => ?_)
  by_cases hm : m.agent_id = agent_id
  · have hprefix : startswith m.sk agent_id = true := by
      rw [startswith, List.isPrefixOf_iff_prefix, ← hm]
      exact List.prefix_append _ _
    simp [hm, hprefix]
  · simp [hm]

theorem fetch_own_iff (c : Conversation) (t : Table) (history : List Turn) (agent_id : Str)
    (max_messages : ℕ) (hfresh : ∀ i ∈ t.items, i.pk ≠ c.pk) :
    fetch_chat true (save_all c t history) c agent_id max_messages =
        most_recent agent_id max_messages history ↔
      ∀ m ∈ (selected agent_id history).drop
        ((selected agent_id history).length - max_messages),
          decide (m.agent_id = agent_id) = true := by
  rw [fetch_chat_selected c t history agent_id max_messages hfresh, most_recent,
    ← sorted_by_time, saved_for_selected]
  constructor
  · intro hsame m hm
    have hstored := List.mem_map_of_mem (f := Turn.stored) hm
    rw [hsame] at hstored
    obtain ⟨x, hx, hxm⟩ := List.mem_map.mp hstored
    have hagent := (List.mem_filter.mp (List.mem_of_mem_drop hx)).2
    have hids := congrArg ConversationMessage.agent_id hxm
    simp only [Turn.stored, Option.some.injEq] at hids
    rwa [← hids]
  · intro hall
    rw [last_of_filter _ _ _ hall]

theorem count_above (agent_id : Str) (history : List Turn) (key : Str) :
    (selected agent_id history).countP
        (fun x => decide (x.agent_id = agent_id) && decide (key < x.sk)) =
      (saved_for agent_id history).countP (fun x => decide (key < x.sk)) := by
  rw [← (sorted_perm Turn.sk (saved_for agent_id history)).countP_eq, saved_for_selected,
    List.countP_filter]
  exact List.countP_congr (fun x _ => by rw [Bool.and_comm])

/-- The agent's latest messages come back exactly when that many of them have a sort key
above that of each message of another agent whose sort key begins with the name. -/
theorem fetch_chat_recent_iff (c : Conversation) (t : Table) (history : List Turn)
    (agent_id : Str) (max_messages : ℕ) (hfresh : ∀ i ∈ t.items, i.pk ≠ c.pk) :
    fetch_chat true (save_all c t history) c agent_id max_messages =
        most_recent agent_id max_messages history ↔
      ∀ m ∈ history, m.agent_id ≠ agent_id → startswith m.sk agent_id = true →
        max_messages ≤ (saved_for agent_id history).countP (fun x => decide (m.sk < x.sk)) := by
  have hstrict := sorted_strict Turn.sk
    (filtered_keys history (fun m => startswith m.sk agent_id))
  have hselected : ∀ m, m ∈ selected agent_id history ↔
      m ∈ kept history ∧ startswith m.sk agent_id = true := by
    intro m
    rw [selected, (sorted_perm _ _).mem_iff, List.mem_filter]
  rw [fetch_own_iff c t history agent_id max_messages hfresh, selected,
    last_all_iff Turn.sk hstrict, ← selected]
  simp only [count_above, hselected, decide_eq_false_iff_not]
  constructor
  · intro h m hm hother hprefix
    obtain ⟨x, hx, hsame⟩ := key_kept history m hm
    have hagent := (sk_injective _ _ _ _ hsame).1
    rw [← hsame]
    exact h x ⟨hx, by rwa [hsame]⟩ (by rwa [hagent])
  · rintro h m ⟨hm, hprefix⟩ hother
    exact h m (mem_kept history m hm) hother hprefix

/-- Where the agent's messages were saved in increasing time, its latest are the last saved. -/
theorem most_recent_of_increasing (agent_id : Str) (max_messages : ℕ) (history : List Turn)
    (htime : (history.filter (fun m => m.agent_id = agent_id)).Pairwise
      (fun m n => m.now < n.now)) :
    most_recent agent_id max_messages history =
      ((history.filter (fun m => m.agent_id = agent_id)).drop
        ((history.filter (fun m => m.agent_id = agent_id)).length - max_messages)).map
          Turn.stored := by
  have hall : saved_for agent_id history = history.filter (fun m => m.agent_id = agent_id) := by
    rw [saved_for]
    induction history with
    | nil => rfl
    | cons m history ih =>
      by_cases hm : m.agent_id = agent_id
      · rw [List.filter_cons_of_pos (by simpa using hm), List.pairwise_cons] at htime
        have hlast : m.sk ∉ history.map Turn.sk := by
          intro hlater
          obtain ⟨x, hx, hsame⟩ := List.mem_map.mp hlater
          obtain ⟨hagent, hnow⟩ := sk_injective _ _ _ _ hsame
          have hlt := htime.1 x (List.mem_filter.mpr ⟨hx, by simp [hagent, hm]⟩)
          exact sk_ne m x hlt hsame.symm
        rw [kept, if_neg hlast, List.filter_cons_of_pos (by simpa using hm),
          List.filter_cons_of_pos (by simpa using hm), ih htime.2]
      · rw [List.filter_cons_of_neg (by simpa using hm)] at htime
        rw [List.filter_cons_of_neg (by simpa using hm), ← ih htime, kept]
        split
        · rfl
        · rw [List.filter_cons_of_neg (by simpa using hm)]
  have hordered : (saved_for agent_id history).Pairwise
      (fun m n => m.now.fields ≤ n.now.fields) := by
    rw [hall]
    exact htime.imp (fun h => le_of_lt h)
  rw [most_recent, sorted_of_pairwise _ hordered, hall]

/-! ## Names that begin alike -/

def aws_turn (agent_id : Str) (now : UtcTime) : Turn :=
  ⟨agent_id, now, ⟨"user".toList, "costs".toList, now.isoformat, none⟩⟩

theorem other_name_unread :
    fetch_chat true (save_all ⟨"u".toList, "s".toList⟩ Table.empty
        [aws_turn "aws".toList noon, aws_turn "kubernetes".toList later])
        ⟨"u".toList, "s".toList⟩ "aws".toList 20 =
      most_recent "aws".toList 20 [aws_turn "aws".toList noon, aws_turn "kubernetes".toList later] :=
  (fetch_chat_recent_iff _ _ _ _ _ (fun _ hi => absurd hi List.not_mem_nil)).mpr (by decide)

/-- The only message of `aws` is not returned, the one of `aws-cost` is. -/
theorem longer_name_read :
    ¬ ∀ (c : Conversation) (t : Table) (history : List Turn) (agent_id : Str) (max_messages : ℕ),
      (∀ i ∈ t.items, i.pk ≠ c.pk) →
        fetch_chat true (save_all c t history) c agent_id max_messages =
          most_recent agent_id max_messages history := by
  intro h
  have hread := h ⟨"u".toList, "s".toList⟩ Table.empty
    [aws_turn "aws".toList noon, aws_turn "aws-cost".toList later] "aws".toList 1
    (fun _ hi => absurd hi List.not_mem_nil)
  exact absurd hread (by decide)

end AigentSquad.AgentHistory
