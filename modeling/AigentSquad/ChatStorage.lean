import AigentSquad.PyText
import AigentSquad.SortedSuffix
import Mathlib.Data.Char

/-!
# The conversation table

`ChatStorage` over a table whose items are found by partition key and kept in
the order of the sort key. The partition key is made of the user and the
session, the sort key of the agent and the moment of the save. A call the table
does not carry out is dropped, a query it does not answer gives no messages.
-/

set_option autoImplicit false

namespace AigentSquad.ChatStorage
open AigentSquad.PyText AigentSquad.SortedSuffix

/-! ## Moments -/

def isLeap (year : ℕ) : Bool := year % 4 = 0 && (year % 100 ≠ 0 || year % 400 = 0)

def daysInMonth (year month : ℕ) : ℕ :=
  if month = 2 then (if isLeap year then 29 else 28)
  else if month ∈ [4, 6, 9, 11] then 30 else 31

/-- A `datetime` in UTC from which a day ahead is a `datetime` too, as the `ttl`
of an item needs. -/
structure UtcTime where
  year : ℕ
  month : ℕ
  day : ℕ
  hour : ℕ
  minute : ℕ
  second : ℕ
  microsecond : ℕ
  year_range : 1 ≤ year ∧ year < 9999
  month_range : 1 ≤ month ∧ month ≤ 12
  day_range : 1 ≤ day ∧ day ≤ daysInMonth year month
  hour_range : hour < 24
  minute_range : minute < 60
  second_range : second < 60
  microsecond_range : microsecond < 1000000
deriving DecidableEq

/-- `datetime` compares these in order. -/
def UtcTime.fields (t : UtcTime) : List ℕ :=
  [t.year, t.month, t.day, t.hour, t.minute, t.second, t.microsecond]

instance : LT UtcTime := ⟨fun s t => s.fields < t.fields⟩

instance : DecidableRel ((· < ·) : UtcTime → UtcTime → Prop) :=
  fun s t => inferInstanceAs (Decidable (s.fields < t.fields))

/-- `%0wd` -/
def pad : ℕ → ℕ → Str
  | 0, _ => []
  | w + 1, n => Nat.digitChar (n / 10 ^ w) :: pad w (n % 10 ^ w)

/-- The fraction is left out where there is none. -/
def fraction (microsecond : ℕ) : Str :=
  if microsecond = 0 then [] else '.' :: pad 6 microsecond

def offset : Str := "+00:00".toList

def UtcTime.isoformat (t : UtcTime) : Str :=
  pad 4 t.year ++ '-' :: (pad 2 t.month ++ '-' :: (pad 2 t.day ++ 'T' ::
    (pad 2 t.hour ++ ':' :: (pad 2 t.minute ++ ':' :: (pad 2 t.second ++
      (fraction t.microsecond ++ offset))))))

/-! ## The table -/

structure Item where
  pk : Str
  sk : Str
  user_id : Str
  session_id : Str
  agent_id : Str
  role : Str
  content : Str
  timestamp : Str
deriving DecidableEq

def Item.key (i : Item) : Str × Str := (i.pk, i.sk)

/-- One item at most under a key. -/
structure Table where
  items : List Item
  distinct : (items.map Item.key).Nodup

def Table.empty : Table := ⟨[], List.nodup_nil⟩

def Table.put_item (t : Table) (i : Item) : Table where
  items := t.items.filter (fun x => x.key ≠ i.key) ++ [i]
  distinct := by
    rw [List.map_append, List.nodup_append]
    constructor
    · exact t.distinct.sublist (List.filter_sublist.map Item.key)
    · constructor
      · exact List.nodup_singleton i.key
      · intro a ha b hb hab
        obtain ⟨x, hx, rfl⟩ := List.mem_map.mp ha
        have hne := of_decide_eq_true (List.mem_filter.mp hx).2
        exact hne (hab.trans (List.mem_singleton.mp hb))

/-- `ScanIndexForward=False`: the greatest sort key first. -/
def Table.query (t : Table) (condition : Item → Bool) (limit : ℕ) : List Item :=
  ((sorted Item.sk (t.items.filter condition)).reverse).take limit

/-! ## Messages -/

structure ConversationMessage where
  role : Str
  content : Str
  timestamp : Str
  agent_id : Option Str
deriving DecidableEq

/-- The two strings that name a conversation. -/
@[ext] structure Conversation where
  user_id : Str
  session_id : Str
deriving DecidableEq

def Conversation.pk (c : Conversation) : Str := c.user_id ++ '#' :: c.session_id

def sk (agent_id : Str) (now : UtcTime) : Str := agent_id ++ '#' :: now.isoformat

def item (c : Conversation) (agent_id : Str) (now : UtcTime) (message : ConversationMessage) :
    Item where
  pk := c.pk
  sk := sk agent_id now
  user_id := c.user_id
  session_id := c.session_id
  agent_id := agent_id
  role := message.role
  content := message.content
  timestamp := message.timestamp

def Item.message (i : Item) : ConversationMessage :=
  ⟨i.role, i.content, i.timestamp, some i.agent_id⟩

def save_chat_message (carried_out : Bool) (t : Table) (c : Conversation) (agent_id : Str)
    (now : UtcTime) (message : ConversationMessage) : Table :=
  if carried_out then t.put_item (item c agent_id now message) else t

def fetch_chat (answered : Bool) (t : Table) (c : Conversation) (agent_id : Str)
    (max_messages : ℕ) : List ConversationMessage :=
  if answered then
    ((t.query (fun i => i.pk = c.pk && startswith i.sk agent_id) max_messages).reverse).map
      Item.message
  else []

def fetch_all_chats (answered : Bool) (t : Table) (c : Conversation) (max_messages : ℕ) :
    List ConversationMessage :=
  if answered then
    ((t.query (fun i => i.pk = c.pk) max_messages).reverse).map Item.message
  else []

/-! ## Keys -/

theorem pad_length (w n : ℕ) : (pad w n).length = w := by
  induction w generalizing n with
  | zero => rfl
  | succ w ih => rw [pad, List.length_cons, ih]

theorem digit_lt (a b : ℕ) (hab : a < b) (hb : b < 10) : Nat.digitChar a < Nat.digitChar b := by
  have hdigits : ∀ b < 10, ∀ a < b, Nat.digitChar a < Nat.digitChar b := by decide
  exact hdigits b hb a hab

theorem digit_ne (n : ℕ) (hn : n < 10) : Nat.digitChar n ≠ '#' := by
  have hdigits : ∀ n < 10, Nat.digitChar n ≠ '#' := by decide
  exact hdigits n hn

theorem lt_append {a b : Str} (x y : Str) (hlength : a.length = b.length) (h : a < b) :
    a ++ x < b ++ y := by
  induction a generalizing b with
  | nil =>
    cases b with
    | nil => exact absurd h (lt_irrefl _)
    | cons d b => cases hlength
  | cons c a ih =>
    cases b with
    | nil => cases hlength
    | cons d b =>
      rcases List.cons_lt_cons_iff.mp h with hcd | ⟨rfl, hab⟩
      · exact List.cons_lt_cons_iff.mpr (.inl hcd)
      · exact List.cons_lt_cons_iff.mpr (.inr ⟨rfl, ih (Nat.succ.inj hlength) hab⟩)

theorem pad_lt (w n m : ℕ) (hnm : n < m) (hm : m < 10 ^ w) : pad w n < pad w m := by
  induction w generalizing n m with
  | zero => omega
  | succ w ih =>
    have hpos : 0 < 10 ^ w := Nat.pow_pos (by decide)
    apply List.cons_lt_cons_iff.mpr
    rcases (Nat.div_le_div_right hnm.le : n / 10 ^ w ≤ m / 10 ^ w).lt_or_eq with hlt | heq
    · left
      exact digit_lt _ _ hlt ((Nat.div_lt_iff_lt_mul hpos).mpr (by rwa [Nat.pow_succ'] at hm))
    · right
      constructor
      · rw [heq]
      · apply ih _ _ _ (Nat.mod_lt _ hpos)
        have hn := Nat.div_add_mod n (10 ^ w)
        have hm := Nat.div_add_mod m (10 ^ w)
        rw [heq] at hn
        omega

theorem pad_no_hash (w n : ℕ) (hn : n < 10 ^ w) : '#' ∉ pad w n := by
  induction w generalizing n with
  | zero => exact List.not_mem_nil
  | succ w ih =>
    have hpos : 0 < 10 ^ w := Nat.pow_pos (by decide)
    rw [pad, List.mem_cons, not_or]
    constructor
    · exact (digit_ne _ ((Nat.div_lt_iff_lt_mul hpos).mpr (by rwa [Nat.pow_succ'] at hn))).symm
    · exact ih _ (Nat.mod_lt _ hpos)

/-- Fixed width fields order as their numbers, then what follows them. -/
theorem field_lt (w n m : ℕ) (x y : Str) (hm : m < 10 ^ w) (h : n < m ∨ n = m ∧ x < y) :
    pad w n ++ x < pad w m ++ y := by
  rcases h with hnm | ⟨rfl, hxy⟩
  · exact lt_append x y (by rw [pad_length, pad_length]) (pad_lt w n m hnm hm)
  · exact List.append_left_lt hxy

theorem separated_lt (c : Char) {p : Prop} {n m : ℕ} {x y : Str} (h : n < m ∨ n = m ∧ p)
    (hp : p → x < y) : n < m ∨ n = m ∧ c :: x < c :: y :=
  h.imp id (fun ⟨he, ht⟩ => ⟨he, List.cons_lt_cons_iff.mpr (.inr ⟨rfl, hp ht⟩)⟩)

theorem fraction_lt (n m : ℕ) (hnm : n < m) (hm : m < 1000000) :
    fraction n ++ offset < fraction m ++ offset := by
  rw [fraction, fraction, if_neg (by omega : ¬ m = 0)]
  split
  · exact List.cons_lt_cons_iff.mpr (.inl (by decide))
  · exact List.cons_lt_cons_iff.mpr (.inr ⟨rfl, field_lt 6 n m _ _ hm (.inl hnm)⟩)

theorem days_bound (year month : ℕ) : daysInMonth year month ≤ 31 := by
  unfold daysInMonth
  split
  · split <;> omega
  · split <;> omega

/-- Later moments read later. -/
theorem isoformat_lt (s t : UtcTime) (h : s < t) : s.isoformat < t.isoformat := by
  have hfields : s.fields < t.fields := h
  simp only [UtcTime.fields, List.cons_lt_cons_iff, List.lt_irrefl, and_false, or_false]
    at hfields
  have hyear := t.year_range
  have hmonth := t.month_range
  have hday := t.day_range.2.trans (days_bound t.year t.month)
  apply field_lt 4 _ _ _ _ (by omega)
  apply separated_lt '-' hfields
  intro hfields
  apply field_lt 2 _ _ _ _ (by omega)
  apply separated_lt '-' hfields
  intro hfields
  apply field_lt 2 _ _ _ _ (by omega)
  apply separated_lt 'T' hfields
  intro hfields
  apply field_lt 2 _ _ _ _ (t.hour_range.trans (by decide))
  apply separated_lt ':' hfields
  intro hfields
  apply field_lt 2 _ _ _ _ (t.minute_range.trans (by decide))
  apply separated_lt ':' hfields
  intro hfields
  apply field_lt 2 _ _ _ _ (t.second_range.trans (by decide))
  exact hfields.imp id (fun ⟨he, hlast⟩ => ⟨he, fraction_lt _ _ hlast t.microsecond_range⟩)

theorem isoformat_no_hash (t : UtcTime) : '#' ∉ t.isoformat := by
  have hyear := pad_no_hash 4 t.year (by have := t.year_range; omega)
  have hmonth := pad_no_hash 2 t.month (by have := t.month_range; omega)
  have hday := pad_no_hash 2 t.day
    (by have := t.day_range.2.trans (days_bound t.year t.month); omega)
  have hhour := pad_no_hash 2 t.hour (t.hour_range.trans (by decide))
  have hminute := pad_no_hash 2 t.minute (t.minute_range.trans (by decide))
  have hsecond := pad_no_hash 2 t.second (t.second_range.trans (by decide))
  have hmicrosecond := pad_no_hash 6 t.microsecond t.microsecond_range
  have hfraction : '#' ∉ fraction t.microsecond := by
    unfold fraction
    split
    · exact List.not_mem_nil
    · simpa using hmicrosecond
  have hoffset : '#' ∉ offset := by decide
  have hmarks : '#' ≠ '-' ∧ '#' ≠ 'T' ∧ '#' ≠ ':' := by decide
  simp only [UtcTime.isoformat, List.mem_append, List.mem_cons, hyear, hmonth, hday, hhour, hminute,
    hsecond, hfraction, hoffset, hmarks, or_self, not_false_eq_true]

/-- Two strings around a `#` that read the same are the same, or a `#` of one
string is part of the other. -/
theorem hash_moved (a b x y w : Str) (hb : b = a ++ w) (hw : '#' :: x = w ++ '#' :: y) :
    a = b ∧ x = y ∨ ∃ v, b = a ++ '#' :: v ∧ x = v ++ '#' :: y := by
  cases w with
  | nil => exact .inl ⟨by rw [hb, List.append_nil], (List.cons.inj hw).2⟩
  | cons d v =>
    obtain ⟨hd, hx⟩ := List.cons.inj hw
    exact .inr ⟨v, by rw [hb, hd], hx⟩

theorem last_hash (a b x y : Str) (hx : '#' ∉ x) (hy : '#' ∉ y)
    (h : a ++ '#' :: x = b ++ '#' :: y) : a = b ∧ x = y := by
  rcases List.append_eq_append_iff.mp h with ⟨w, hb, hw⟩ | ⟨w, ha, hw⟩
  · rcases hash_moved a b x y w hb hw with hsame | ⟨v, -, rfl⟩
    · exact hsame
    · exact absurd (List.mem_append_right v List.mem_cons_self) hx
  · rcases hash_moved b a y x w ha hw with hsame | ⟨v, -, rfl⟩
    · exact ⟨hsame.1.symm, hsame.2.symm⟩
    · exact absurd (List.mem_append_right v List.mem_cons_self) hy

/-- A sort key tells the agent and the moment as it reads. -/
theorem sk_injective (a b : Str) (s t : UtcTime) (h : sk a s = sk b t) :
    a = b ∧ s.isoformat = t.isoformat :=
  last_hash a b _ _ (isoformat_no_hash s) (isoformat_no_hash t) h

end AigentSquad.ChatStorage
