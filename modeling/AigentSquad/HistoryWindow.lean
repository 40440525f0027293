import AigentSquad.GenericAgent
import AigentSquad.LongestSuffix

/-!
# The history that fits

`truncate_history_by_tokens` walks from the newest message back. What it keeps
is the longest suffix within the budget, by an estimate that divides by more
characters than a token has.
-/

set_option autoImplicit false

namespace AigentSquad.HistoryWindow
open AigentSquad.PyText AigentSquad.Effects AigentSquad.GenericAgent AigentSquad.LongestSuffix

def cost (m : ConversationMessage) : ℕ := estimate_tokens m.content + 4

/-- The loop with `i` messages still to look at: where it keeps from, and the total. -/
def walk (msg_tokens : List ℕ) (max_tokens : ℤ) : ℕ → ℕ → ℕ × ℕ
  | 0, total => (0, total)
  | i + 1, total =>
    let tokens := msg_tokens.getD i 0
    if max_tokens < (total + tokens : ℕ) then (i + 1, total)
    else walk msg_tokens max_tokens i (total + tokens)

/-- `truncate_history_by_tokens` with the default of the settings. -/
def truncate_with_total (history_max_tokens : ℤ) (messages : List ConversationMessage)
    (max_tokens : Option ℤ) : List ConversationMessage × ℕ :=
  if messages.isEmpty then ([], 0)
  else
    let kept := walk (messages.map cost) (max_tokens.getD history_max_tokens) messages.length 0
    (messages.drop kept.1, kept.2)

theorem drop_step (messages : List ConversationMessage) (i : ℕ) (hi : i < messages.length) :
    messages.drop i = messages[i] :: messages.drop (i + 1) :=
  List.drop_eq_getElem_cons hi

theorem tokens_at (messages : List ConversationMessage) (i : ℕ) (hi : i < messages.length) :
    (messages.map cost).getD i 0 = cost messages[i] := by
  simp [List.getD_eq_getElem?_getD, hi]

/-- The walk stops where all is kept or the next message does not fit. -/
theorem walk_longest (messages : List ConversationMessage) (max_tokens i : ℕ)
    (hi : i ≤ messages.length) (hfits : total cost (messages.drop i) ≤ max_tokens) :
    let kept := walk (messages.map cost) max_tokens i (total cost (messages.drop i))
    Longest cost max_tokens messages (messages.drop kept.1) ∧
      kept.2 = total cost (messages.drop kept.1) := by
  induction i with
  | zero =>
    refine ⟨longest_of_stop cost (List.drop_suffix 0 messages) hfits (.inl rfl), rfl⟩
  | succ i ih =>
    have hdrop := drop_step messages i (by omega)
    have htotal : total cost (messages.drop i) =
        total cost (messages.drop (i + 1)) + cost messages[i] := by
      rw [hdrop, total_cons, Nat.add_comm]
    rw [walk, tokens_at messages i (by omega)]
    by_cases hover : max_tokens < total cost (messages.drop (i + 1)) + cost messages[i]
    · rw [if_pos (by exact_mod_cast hover)]
      refine ⟨longest_of_stop cost (List.drop_suffix _ messages) hfits (.inr ⟨messages[i], ?_, ?_⟩),
        rfl⟩
      · rw [← hdrop]
        exact List.drop_suffix i messages
      · rwa [Nat.add_comm]
    · rw [if_neg (by exact_mod_cast hover), ← htotal]
      exact ih (by omega) (by omega)

theorem truncate_walk (history_max_tokens : ℤ) (messages : List ConversationMessage)
    (max_tokens : ℤ) :
    truncate_with_total history_max_tokens messages (some max_tokens) =
      let kept := walk (messages.map cost) max_tokens messages.length 0
      (messages.drop kept.1, kept.2) := by
  cases messages <;> rfl

theorem walk_all (messages : List ConversationMessage) (max_tokens : ℕ) :
    let kept := walk (messages.map cost) max_tokens messages.length 0
    Longest cost max_tokens messages (messages.drop kept.1) ∧
      kept.2 = total cost (messages.drop kept.1) := by
  have hwalk := walk_longest messages max_tokens messages.length le_rfl
  rw [List.drop_length] at hwalk
  exact hwalk (Nat.zero_le _)

/-- What is kept is the longest suffix within the budget, with its cost. -/
theorem truncation_longest (history_max_tokens : ℤ) (messages : List ConversationMessage)
    (max_tokens : ℕ) :
    let truncated := truncate_with_total history_max_tokens messages (some max_tokens)
    Longest cost max_tokens messages truncated.1 ∧ truncated.2 = total cost truncated.1 := by
  rw [truncate_walk]
  exact walk_all messages max_tokens

/-! ## The history of a prompt -/

theorem walk_recent (messages : List ConversationMessage) (max_tokens : ℤ) (i total : ℕ)
    (hi : i ≤ messages.length) :
    messages.drop (walk (messages.map cost) max_tokens i total).1 =
      (recent max_tokens total (messages.take i).reverse).reverse ++ messages.drop i := by
  induction i generalizing total with
  | zero => rfl
  | succ i ih =>
    have htake : (messages.take (i + 1)).reverse = messages[i] :: (messages.take i).reverse := by
      rw [List.take_succ_eq_append_getElem hi, List.reverse_append, List.reverse_singleton,
        List.singleton_append]
    rw [walk, tokens_at messages i hi, htake]
    change _ = (if max_tokens < (total + cost messages[i] : ℕ) then []
      else messages[i] :: recent max_tokens (total + cost messages[i])
        (messages.take i).reverse).reverse ++ _
    by_cases hover : max_tokens < (total + cost messages[i] : ℕ)
    · rw [if_pos hover, if_pos hover]
      rfl
    · rw [if_neg hover, if_neg hover, ih _ (by omega), drop_step messages i hi,
        List.reverse_cons, List.append_assoc, List.singleton_append]

/-- The agent's prompt holds the same messages. -/
theorem truncation_same (history_max_tokens : ℤ) (messages : List ConversationMessage)
    (max_tokens : ℤ) :
    (truncate_with_total history_max_tokens messages (some max_tokens)).1 =
      truncate_history_by_tokens messages max_tokens := by
  have hwalk := walk_recent messages max_tokens messages.length 0 le_rfl
  rw [List.take_length, List.drop_length, List.append_nil] at hwalk
  rw [truncate_walk]
  exact hwalk

/-! ## Tokens of three and a half characters -/

/-- `len(text) / 3.5`, rounded down -/
def rate_tokens (text : Str) : ℕ := 2 * text.length / 7

/-- The lengths at which the estimate is not below that rate. -/
def Covered (length : ℕ) : Prop := length ≤ 6 ∨ length ∈ [8, 9, 10, 12, 13, 16, 17, 20, 24]

theorem estimate_covers_iff (text : Str) :
    rate_tokens text ≤ estimate_tokens text ↔ Covered text.length := by
  have hestimate : estimate_tokens text = if text.length = 0 then 0 else max 1 (text.length / 4) := by
    rw [estimate_tokens]
    cases text <;> rfl
  simp only [rate_tokens, hestimate, Covered, List.mem_cons, List.not_mem_nil, or_false]
  split
  · omega
  · omega

/-- Estimates that are never below the rate keep accepted histories within the budget at that
rate; and they are never below it exactly for texts of these lengths. -/
theorem estimates_conservative_iff (texts : Str → Prop) :
    ((∀ text, texts text → rate_tokens text ≤ estimate_tokens text) ∧
      ∀ (history_max_tokens : ℤ) (messages : List ConversationMessage) (max_tokens : ℕ),
        (∀ m ∈ messages, texts m.content) →
          total (fun m => rate_tokens m.content + 4)
            (truncate_with_total history_max_tokens messages (some max_tokens)).1 ≤ max_tokens) ↔
      ∀ text, texts text → Covered text.length := by
  constructor
  · rintro ⟨hestimate, _⟩ text htext
    exact (estimate_covers_iff text).mp (hestimate text htext)
  · intro hcovered
    have hestimate : ∀ text, texts text → rate_tokens text ≤ estimate_tokens text :=
      fun text htext => (estimate_covers_iff text).mpr (hcovered text htext)
    refine ⟨hestimate, ?_⟩
    intro history_max_tokens messages max_tokens hmessages
    rw [truncate_walk]
    have hlongest := (walk_all messages max_tokens).1
    refine le_trans (total_mono _ ?_) hlongest.fits
    intro m hm
    have hrate := hestimate m.content (hmessages m (hlongest.suffix.subset hm))
    rw [cost]
    omega

/-- Two tokens at that rate, one by the estimate, and a history over its budget. -/
theorem seven_characters_underestimated :
    ¬ ((∀ text : Str, rate_tokens text ≤ estimate_tokens text) ∧
      ∀ (history_max_tokens : ℤ) (messages : List ConversationMessage) (max_tokens : ℕ),
        total (fun m => rate_tokens m.content + 4)
          (truncate_with_total history_max_tokens messages (some max_tokens)).1 ≤ max_tokens) := by
  rintro ⟨h, _⟩
  exact absurd (h "seven c".toList) (by decide)

end AigentSquad.HistoryWindow
