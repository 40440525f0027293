import AigentSquad.ChatStorage

/-!
# What a conversation reads back

Two conversations are kept apart exactly when their partition keys differ, and
the keys of two conversations are equal exactly when a `#` of one of their
strings can be moved to the other. The latest messages come back in the order of
the saves exactly when the sort keys, which begin with the agent, rise with
time.
-/

set_option autoImplicit false

namespace AigentSquad.ChatHistory
open AigentSquad.PyText AigentSquad.SortedSuffix AigentSquad.ChatStorage

structure Turn where
  agent_id : Str
  now : UtcTime
  message : ConversationMessage
deriving DecidableEq

structure Save extends Turn where
  carried_out : Bool
  conversation : Conversation
deriving DecidableEq

/-- The message as the table keeps it. -/
def Turn.stored (m : Turn) : ConversationMessage := { m.message with agent_id := some m.agent_id }

def Turn.sk (m : Turn) : Str := ChatStorage.sk m.agent_id m.now

def Turn.item (c : Conversation) (m : Turn) : Item := ChatStorage.item c m.agent_id m.now m.message

def Save.run (t : Table) (s : Save) : Table :=
  save_chat_message s.carried_out t s.conversation s.agent_id s.now s.message

def after (saves : List Save) : Table := saves.foldl Save.run Table.empty

/-- The saves of one conversation, all carried out. -/
def save_all (c : Conversation) (t : Table) (history : List Turn) : Table :=
  history.foldl (fun t m => save_chat_message true t c m.agent_id m.now m.message) t

/-! ## The items of a partition -/

def under (pk : Str) (t : Table) : List Item := t.items.filter (fun i => i.pk = pk)

theorem put_item_elsewhere (pk : Str) (t : Table) (i : Item) (h : i.pk ≠ pk) :
    under pk (t.put_item i) = under pk t := by
  have hlast : [i].filter (fun x => x.pk = pk) = [] := by simp [h]
  rw [under, Table.put_item, List.filter_append, hlast, List.append_nil, List.filter_filter]
  apply List.filter_congr
  intro x hx
  by_cases hpk : x.pk = pk
  · have hkey : x.key ≠ i.key := fun he => h ((congrArg Prod.fst he).symm.trans hpk)
    simp [hpk, hkey]
  · simp [hpk]

theorem put_item_here (pk : Str) (t : Table) (i : Item) (h : i.pk = pk) :
    under pk (t.put_item i) = (under pk t).filter (fun x => x.sk ≠ i.sk) ++ [i] := by
  subst h
  have hlast : [i].filter (fun x => x.pk = i.pk) = [i] := by simp
  rw [under, Table.put_item, List.filter_append, hlast, under, List.filter_filter,
    List.filter_filter]
  congr 1
  apply List.filter_congr
  intro x hx
  by_cases hpk : x.pk = i.pk
  · simp [Item.key, hpk]
  · simp [hpk]

theorem fetch_chat_under (answered : Bool) (t : Table) (c : Conversation) (agent_id : Str)
    (max_messages : ℕ) : fetch_chat answered t c agent_id max_messages =
      if answered then ((((sorted Item.sk ((under c.pk t).filter
        (fun i => startswith i.sk agent_id))).reverse).take max_messages).reverse).map Item.message
      else [] := by
  rw [fetch_chat, Table.query, under, List.filter_filter]
  simp only [Bool.and_comm]

theorem fetch_all_under (answered : Bool) (t : Table) (c : Conversation) (max_messages : ℕ) :
    fetch_all_chats answered t c max_messages =
      if answered then ((((sorted Item.sk (under c.pk t)).reverse).take max_messages).reverse).map
        Item.message
      else [] := rfl

theorem run_elsewhere (pk : Str) (t : Table) (s : Save) (h : s.conversation.pk ≠ pk) :
    under pk (s.run t) = under pk t := by
  unfold Save.run save_chat_message
  split
  · exact put_item_elsewhere pk t _ h
  · rfl

theorem run_congr (pk : Str) (t u : Table) (s : Save) (h : under pk t = under pk u) :
    under pk (s.run t) = under pk (s.run u) := by
  by_cases hpk : s.conversation.pk = pk
  · unfold Save.run save_chat_message
    split
    · rw [put_item_here pk t _ hpk, put_item_here pk u _ hpk, h]
    · exact h
  · rw [run_elsewhere pk t s hpk, run_elsewhere pk u s hpk, h]

/-- Saves under other keys leave no trace in a partition. -/
theorem under_filter (pk : Str) (p : Save → Bool) (saves : List Save)
    (h : ∀ s ∈ saves, s.conversation.pk = pk → p s = true) (t u : Table)
    (htu : under pk t = under pk u) :
    under pk (saves.foldl Save.run t) = under pk ((saves.filter p).foldl Save.run u) := by
  induction saves generalizing t u with
  | nil => exact htu
  | cons s saves ih =>
    have hrest := fun s' hs' => h s' (List.mem_cons_of_mem s hs')
    cases hp : p s with
    | true =>
      rw [List.filter_cons_of_pos hp, List.foldl_cons, List.foldl_cons]
      exact ih hrest _ _ (run_congr pk t u s htu)
    | false =>
      have hpk : s.conversation.pk ≠ pk := by
        intro hpk
        rw [h s List.mem_cons_self hpk] at hp
        cases hp
      rw [List.filter_cons_of_neg (by rw [hp]; decide), List.foldl_cons]
      exact ih hrest _ _ ((run_elsewhere pk t s hpk).trans htu)

/-- Every item of a partition was saved under a conversation with its key. -/
theorem under_saved (pk : Str) (saves : List Save) (t : Table) (i : Item)
    (hi : i ∈ under pk (saves.foldl Save.run t)) :
    i ∈ under pk t ∨ ∃ s ∈ saves, s.conversation.pk = pk ∧ i = s.toTurn.item s.conversation := by
  induction saves generalizing t with
  | nil => exact .inl hi
  | cons s saves ih =>
    rcases ih (s.run t) hi with hrun | ⟨s', hs', hsaved⟩
    · by_cases hpk : s.conversation.pk = pk
      · unfold Save.run save_chat_message at hrun
        split at hrun
        · rw [put_item_here pk t _ hpk] at hrun
          rcases List.mem_append.mp hrun with hold | hnew
          · exact .inl (List.mem_filter.mp hold).1
          · exact .inr ⟨s, List.mem_cons_self, hpk, List.mem_singleton.mp hnew⟩
        · exact .inl hrun
      · rw [run_elsewhere pk t s hpk] at hrun
        exact .inl hrun
    · exact .inr ⟨s', List.mem_cons_of_mem s hs', hsaved⟩

/-! ## Two conversations -/

/-- Nothing that `p` reads was saved under `q`, and without the saves under `q`
it reads the same. -/
def Isolated (p q : Conversation) : Prop :=
  ∀ (saves : List Save) (answered : Bool) (agent_id : Str) (max_messages : ℕ),
    (∀ m ∈ fetch_chat answered (after saves) p agent_id max_messages,
      ∃ s ∈ saves, s.conversation ≠ q ∧ m = s.stored) ∧
    (∀ m ∈ fetch_all_chats answered (after saves) p max_messages,
      ∃ s ∈ saves, s.conversation ≠ q ∧ m = s.stored) ∧
    fetch_chat answered (after saves) p agent_id max_messages =
      fetch_chat answered (after (saves.filter (fun s => s.conversation ≠ q))) p agent_id
        max_messages ∧
    fetch_all_chats answered (after saves) p max_messages =
      fetch_all_chats answered (after (saves.filter (fun s => s.conversation ≠ q))) p max_messages

/-- The user of `q` is that of `p`, a `#` and more; the session of `p` has that
more before it. -/
def Shifted (p q : Conversation) : Prop :=
  ∃ w, q.user_id = p.user_id ++ '#' :: w ∧ p.session_id = w ++ '#' :: q.session_id

theorem pk_of_shifted (p q : Conversation) (h : Shifted p q) : p.pk = q.pk := by
  obtain ⟨w, huser, hsession⟩ := h
  rw [Conversation.pk, Conversation.pk, huser, hsession, List.append_assoc]
  rfl

theorem pk_eq_iff (p q : Conversation) :
    p.pk = q.pk ↔ p = q ∨ Shifted p q ∨ Shifted q p := by
  constructor
  · intro h
    rcases List.append_eq_append_iff.mp h with ⟨w, hb, hw⟩ | ⟨w, ha, hw⟩
    · rcases hash_moved _ _ _ _ w hb hw with hsame | hshifted
      · exact .inl (Conversation.ext hsame.1 hsame.2)
      · exact .inr (.inl hshifted)
    · rcases hash_moved _ _ _ _ w ha hw with hsame | hshifted
      · exact .inl (Conversation.ext hsame.1.symm hsame.2.symm)
      · exact .inr (.inr hshifted)
  · rintro (rfl | h | h)
    · rfl
    · exact pk_of_shifted p q h
    · exact (pk_of_shifted q p h).symm

theorem isolated_of_keys (p q : Conversation) (h : p.pk ≠ q.pk) : Isolated p q := by
  intro saves answered agent_id max_messages
  have hsource : ∀ i ∈ under p.pk (after saves),
      ∃ s ∈ saves, s.conversation ≠ q ∧ i.message = s.stored := by
    intro i hi
    rcases under_saved p.pk saves Table.empty i hi with hempty | ⟨s, hs, hpk, rfl⟩
    · cases hempty
    · exact ⟨s, hs, fun hq => h (hpk.symm.trans (congrArg Conversation.pk hq)), rfl⟩
  have hsame : under p.pk (after saves) =
      under p.pk (after (saves.filter (fun s => s.conversation ≠ q))) := by
    apply under_filter p.pk _ saves _ _ _ rfl
    intro s hs hpk
    exact decide_eq_true (fun hq => h (hpk.symm.trans (congrArg Conversation.pk hq)))
  constructor
  · intro m hm
    rw [fetch_chat_under] at hm
    split at hm
    · obtain ⟨i, hi, rfl⟩ := List.mem_map.mp hm
      have hsorted := List.mem_of_mem_take (List.mem_reverse.mp hi)
      have hfiltered := (sorted_perm Item.sk _).mem_iff.mp (List.mem_reverse.mp hsorted)
      exact hsource i (List.mem_filter.mp hfiltered).1
    · cases hm
  · constructor
    · intro m hm
      rw [fetch_all_under] at hm
      split at hm
      · obtain ⟨i, hi, rfl⟩ := List.mem_map.mp hm
        have hsorted := List.mem_of_mem_take (List.mem_reverse.mp hi)
        exact hsource i ((sorted_perm Item.sk _).mem_iff.mp (List.mem_reverse.mp hsorted))
      · cases hm
    · constructor
      · rw [fetch_chat_under, fetch_chat_under, hsame]
      · rw [fetch_all_under, fetch_all_under, hsame]

theorem after_one (s : Save) (h : s.carried_out = true) :
    (after [s]).items = [s.toTurn.item s.conversation] := by
  simp only [after, List.foldl_cons, List.foldl_nil, Save.run, save_chat_message, h, if_true]
  rfl

def noon : UtcTime where
  year := 2026
  month := 5
  day := 4
  hour := 12
  minute := 0
  second := 0
  microsecond := 0
  year_range := by decide
  month_range := by decide
  day_range := by decide
  hour_range := by decide
  minute_range := by decide
  second_range := by decide
  microsecond_range := by decide

def later : UtcTime := { noon with hour := 13, hour_range := by decide }

def noon_save (c : Conversation) (content : Str) : Save where
  agent_id := "kubernetes".toList
  now := noon
  message := ⟨"user".toList, content, noon.isoformat, none⟩
  carried_out := true
  conversation := c

theorem shared_key_read (p q : Conversation) (h : p.pk = q.pk) (content : Str) :
    fetch_all_chats true (after [noon_save q content]) p 50 =
      [(noon_save q content).stored] := by
  have hunder : under p.pk (after [noon_save q content]) =
      [(noon_save q content).toTurn.item q] := by
    rw [under, after_one _ rfl]
    exact List.filter_cons_of_pos (decide_eq_true h.symm)
  rw [fetch_all_under, hunder, if_pos rfl, sorted_singleton]
  rfl

theorem isolated_iff_keys (p q : Conversation) : Isolated p q ↔ p.pk ≠ q.pk := by
  constructor
  · intro h hpk
    have hsame := (h [noon_save q []] true [] 50).2.2.2
    have hnone : [noon_save q []].filter (fun s => s.conversation ≠ q) = [] :=
      List.filter_cons_of_neg (fun hne => of_decide_eq_true hne rfl)
    have hnothing : fetch_all_chats true (after []) p 50 = [] := rfl
    rw [shared_key_read p q hpk, hnone, hnothing] at hsame
    exact List.cons_ne_nil _ _ hsame
  · exact isolated_of_keys p q

/-- A conversation is kept apart from another one exactly when neither is the
other with a `#` moved between the user and the session. -/
theorem isolated_iff (p q : Conversation) :
    Isolated p q ↔ p ≠ q ∧ ¬ Shifted p q ∧ ¬ Shifted q p := by
  rw [isolated_iff_keys, Ne, pk_eq_iff, not_or, not_or]

theorem isolated_of_plain_users (p q : Conversation) (hne : p ≠ q) (hp : '#' ∉ p.user_id)
    (hq : '#' ∉ q.user_id) : Isolated p q := by
  rw [isolated_iff_keys, Ne, pk_eq_iff]
  rintro (heq | ⟨w, huser, -⟩ | ⟨w, huser, -⟩)
  · exact hne heq
  · apply hq
    rw [huser]
    exact List.mem_append_right _ List.mem_cons_self
  · apply hp
    rw [huser]
    exact List.mem_append_right _ List.mem_cons_self

/-- The user `a#b` in the session `c` reads what `a` said in the session `b#c`. -/
theorem other_user_read :
    let p : Conversation := ⟨"a#b".toList, "c".toList⟩
    let q : Conversation := ⟨"a".toList, "b#c".toList⟩
    p ≠ q ∧ fetch_all_chats true (after [noon_save q "secret".toList]) p 50 =
      [(noon_save q "secret".toList).stored] := by
  constructor
  · decide
  · exact shared_key_read _ _ (by decide) _

/-! ## The latest messages -/

theorem sk_lt (m n : Turn) (hagent : m.agent_id = n.agent_id) (h : m.now < n.now) :
    m.sk < n.sk := by
  rw [Turn.sk, Turn.sk, hagent]
  exact List.append_left_lt (List.cons_lt_cons_iff.mpr (.inr ⟨rfl, isoformat_lt _ _ h⟩))

theorem sk_ne (m n : Turn) (h : m.now < n.now) : m.sk ≠ n.sk := by
  intro hsk
  have hiso := isoformat_lt _ _ h
  rw [(sk_injective _ _ _ _ hsk).2] at hiso
  exact lt_irrefl _ hiso

/-- A later save under the same key replaces the item. -/
def kept : List Turn → List Turn
  | [] => []
  | m :: history =>
    if m.sk ∈ history.map Turn.sk then kept history else m :: kept history

theorem mem_kept (history : List Turn) : ∀ m ∈ kept history, m ∈ history := by
  induction history with
  | nil => exact fun m hm => hm
  | cons m history ih =>
    intro x hx
    rw [kept] at hx
    split at hx
    · exact List.mem_cons_of_mem m (ih x hx)
    · rcases List.mem_cons.mp hx with rfl | hx
      · exact List.mem_cons_self
      · exact List.mem_cons_of_mem m (ih x hx)

theorem kept_concat (history : List Turn) (m : Turn) :
    kept (history ++ [m]) = (kept history).filter (fun x => x.sk ≠ m.sk) ++ [m] := by
  induction history with
  | nil => simp [kept]
  | cons x history ih =>
    rw [List.cons_append, kept, ih, kept]
    by_cases hsame : x.sk = m.sk
    · by_cases hlater : x.sk ∈ history.map Turn.sk
      · rw [if_pos (by simp [hsame]), if_pos hlater]
      · rw [if_pos (by simp [hsame]), if_neg hlater, List.filter_cons_of_neg (by simp [hsame])]
    · by_cases hlater : x.sk ∈ history.map Turn.sk
      · rw [if_pos (by simpa using Or.inl (by simpa using hlater)), if_pos hlater]
      · rw [if_neg (by simpa [hsame] using hlater), if_neg hlater,
          List.filter_cons_of_pos (by simpa using hsame), List.cons_append]

/-- The items of the session are the last saves under their keys. -/
theorem under_kept (c : Conversation) (t : Table) (history : List Turn)
    (hfresh : ∀ i ∈ t.items, i.pk ≠ c.pk) :
    under c.pk (save_all c t history) = (kept history).map (Turn.item c) := by
  induction history using List.reverseRecOn with
  | nil => exact List.filter_eq_nil_iff.mpr (fun i hi hpk => hfresh i hi (of_decide_eq_true hpk))
  | append_singleton history m ih =>
    have hfold : save_all c t (history ++ [m]) = (save_all c t history).put_item (m.item c) := by
      rw [save_all, List.foldl_append]
      rfl
    rw [hfold, put_item_here c.pk _ (m.item c) rfl, ih, kept_concat, List.map_append,
      List.filter_map]
    rfl

theorem kept_of_distinct (history : List Turn) (h : (history.map Turn.sk).Nodup) :
    kept history = history := by
  induction history with
  | nil => rfl
  | cons m history ih =>
    rw [List.map_cons, List.nodup_cons] at h
    rw [kept, if_neg h.1, ih h.2]

/-- Saves in increasing time leave their items, in order, in a partition that had
none. -/
theorem under_save_all (c : Conversation) (t : Table) (history : List Turn)
    (hfresh : ∀ i ∈ t.items, i.pk ≠ c.pk)
    (htime : history.Pairwise (fun m n => m.now < n.now)) :
    under c.pk (save_all c t history) = history.map (Turn.item c) := by
  have hkeys : (history.map Turn.sk).Nodup :=
    List.pairwise_map.mpr (htime.imp (fun h => sk_ne _ _ h))
  rw [under_kept c t history hfresh, kept_of_distinct history hkeys]

theorem greatest_of_items (c : Conversation) (n : ℕ) (history : List Turn) :
    GreatestLast Item.sk n (history.map (Turn.item c)) ↔ GreatestLast Turn.sk n history := by
  unfold GreatestLast
  rw [← List.map_drop, ← List.map_take, List.pairwise_map]
  simp only [List.forall_mem_map]
  rfl

/-- The latest messages come back in the order of the saves exactly when each of
them has a sort key above those of all earlier messages. -/
theorem fetch_all_recent_iff (c : Conversation) (t : Table) (history : List Turn)
    (max_messages : ℕ) (hfresh : ∀ i ∈ t.items, i.pk ≠ c.pk)
    (htime : history.Pairwise (fun m n => m.now < n.now)) :
    fetch_all_chats true (save_all c t history) c max_messages =
        (history.drop (history.length - max_messages)).map Turn.stored ↔
      GreatestLast Turn.sk (history.length - max_messages) history := by
  have hunder := under_save_all c t history hfresh htime
  have hfetch : fetch_all_chats true (save_all c t history) c max_messages =
      ((sorted Item.sk (history.map (Turn.item c))).drop (history.length - max_messages)).map
        Item.message := by
    rw [fetch_all_under, if_pos rfl, hunder, drop_sub_length, (sorted_perm Item.sk _).length_eq,
      List.length_map]
  have hstored : (history.drop (history.length - max_messages)).map Turn.stored =
      ((history.map (Turn.item c)).drop (history.length - max_messages)).map Item.message := by
    rw [← List.map_drop, List.map_map]
    rfl
  have hkeys : ((history.map (Turn.item c)).map Item.sk).Nodup := by
    rw [List.map_map]
    exact List.pairwise_map.mpr (htime.imp (fun h => sk_ne _ _ h))
  have hagents : (history.map (Turn.item c)).Pairwise
      (fun i j => i.agent_id = j.agent_id → i.sk < j.sk) := by
    apply List.pairwise_map.mpr
    exact htime.imp (fun hmn hagent => sk_lt _ _ hagent hmn)
  rw [hfetch, hstored, ← greatest_of_items c, ← sorted_drop_iff Item.sk hkeys]
  constructor
  · intro h
    apply sorted_drop_of_tags Item.sk Item.agent_id hkeys hagents
    have hnames := congrArg (List.map ConversationMessage.agent_id) h
    rw [List.map_map, List.map_map] at hnames
    have hsome := congrArg (List.filterMap id) hnames
    simpa [List.filterMap_map, Function.comp_def, Item.message] using hsome
  · exact congrArg _

/-- Two messages, the earlier one of `kubernetes`. -/
def two_agents : List Turn :=
  [⟨"kubernetes".toList, noon, ⟨"user".toList, "pods".toList, noon.isoformat, none⟩⟩,
    ⟨"aws".toList, later, ⟨"user".toList, "costs".toList, later.isoformat, none⟩⟩]

/-- They come back the other way round, and the latest one alone is the earlier. -/
theorem two_agents_out_of_order :
    let c : Conversation := ⟨"u".toList, "s".toList⟩
    let t := save_all c Table.empty two_agents
    two_agents.Pairwise (fun m n => m.now < n.now) ∧
      fetch_all_chats true t c 50 = (two_agents.map Turn.stored).reverse ∧
      fetch_all_chats true t c 1 = (two_agents.take 1).map Turn.stored := by
  decide

theorem two_agents_recent_iff :
    fetch_all_chats true (save_all ⟨"u".toList, "s".toList⟩ Table.empty two_agents)
        ⟨"u".toList, "s".toList⟩ 1 = (two_agents.drop 1).map Turn.stored ↔
      GreatestLast Turn.sk 1 two_agents :=
  fetch_all_recent_iff ⟨"u".toList, "s".toList⟩ Table.empty two_agents 1
    (fun _ hi => absurd hi List.not_mem_nil) (by decide)

/-- With one agent the sort keys rise with time. -/
theorem one_agent_recent (agent_id : Str) (n : ℕ) (history : List Turn)
    (hagent : ∀ m ∈ history, m.agent_id = agent_id)
    (htime : history.Pairwise (fun m n => m.now < n.now)) : GreatestLast Turn.sk n history := by
  have hsk : history.Pairwise (fun m n => m.sk < n.sk) :=
    htime.imp_of_mem (fun hm hn hmn => sk_lt _ _ ((hagent _ hm).trans (hagent _ hn).symm) hmn)
  constructor
  · exact hsk.sublist (List.drop_sublist n history)
  · rw [← List.take_append_drop n history, List.pairwise_append] at hsk
    exact hsk.2.2

end AigentSquad.ChatHistory
