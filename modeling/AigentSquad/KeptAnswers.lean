import AigentSquad.EvidenceExchange

/-!
# What becomes of an agent's answer

An answer that holds no list is kept as a whole. One that does is replaced by the
objects of the list, and there may be none.
-/

set_option autoImplicit false

namespace AigentSquad.KeptAnswers
open AigentSquad.PyText AigentSquad.PyJson AigentSquad.Investigation
open AigentSquad.EvidenceExchange AigentSquad.Effects

/-! ### What the first character decides -/

theorem scanItems_array (py : Runtime) (n : ℕ) (acc : List Json) (s : Str) (v : Json) (rest : Str)
    (h : scanItems py n acc s = .ok (v, rest)) : ∃ items, v = .arr items := by
  induction n generalizing acc s with
  | zero => cases h
  | succ n ih =>
    rw [scanItems] at h
    split at h
    · cases h
    · split at h
      · cases h
        exact ⟨_, rfl⟩
      · exact ih _ _ h
      · cases h

theorem scanPairs_object (py : Runtime) (n : ℕ) (acc : List (Str × Json)) (s : Str) (v : Json)
    (rest : Str) (h : scanPairs py n acc s = .ok (v, rest)) : ∃ pairs, v = .obj pairs := by
  induction n generalizing acc s with
  | zero => cases h
  | succ n ih =>
    rw [scanPairs.eq_def] at h
    dsimp only at h
    split at h
    · split at h
      · cases h
      · split at h
        · split at h
          · cases h
          · split at h
            · cases h
              exact ⟨_, rfl⟩
            · exact ih _ _ h
            · cases h
        · cases h
    · cases h

theorem loads_bracket (py : Runtime) (s : Str) (v : Json) (h : loads py ('[' :: s) = .ok v) :
    ∃ items, v = .arr items := by
  have hskip : skipWhitespace ('[' :: s) = '[' :: s := rfl
  rw [loads, if_neg (by simp), hskip] at h
  split at h
  · cases h
  · next w rest hscan =>
    have hw : ∃ items, w = .arr items := by
      rw [scanOnce] at hscan
      split at hscan
      · cases hscan
        exact ⟨_, rfl⟩
      · exact scanItems_array py _ _ _ _ _ hscan
    split at h
    · cases h
      exact hw
    · cases h

theorem loads_brace (py : Runtime) (s : Str) (v : Json) (h : loads py ('\x7b' :: s) = .ok v) :
    ∃ pairs, v = .obj pairs := by
  have hskip : skipWhitespace ('\x7b' :: s) = '\x7b' :: s := rfl
  rw [loads, if_neg (by simp), hskip] at h
  split at h
  · cases h
  · next w rest hscan =>
    have hw : ∃ pairs, w = .obj pairs := by
      rw [scanOnce] at hscan
      split at hscan
      · cases hscan
        exact ⟨_, rfl⟩
      · exact scanPairs_object py _ _ _ _ _ hscan
    split at h
    · cases h
      exact hw
    · cases h

/-! ### The slice -/

theorem slice_head (c : Char) (s : Str) (start stop : ℕ) (h : find c s = some start)
    (hle : start ≤ stop) : ∃ rest, slice s start stop = c :: rest := by
  obtain ⟨hlt, hc, _⟩ := List.findIdx?_eq_some_iff_getElem.mp h
  have hlen : start < (s.take (stop + 1)).length := by
    rw [List.length_take]
    omega
  refine ⟨(s.take (stop + 1)).drop (start + 1), ?_⟩
  rw [slice, List.drop_eq_getElem_cons hlen, List.getElem_take]
  rw [of_decide_eq_true hc]

theorem bracketed_head (s list : Str) (h : bracketed s = some list) :
    ∃ rest, list = '[' :: rest := by
  unfold bracketed at h
  split at h
  · next start stop hstart _ =>
    split at h
    · next hlt =>
      cases h
      exact slice_head '[' s start stop hstart (Nat.le_of_lt hlt)
    · cases h
  · cases h

/-! ### No answer is dropped -/

/-- Something of the answer goes into the evidence. -/
def Kept (py : Runtime) (text source_agent : Str) : Prop :=
  ∃ items, parse_evidence py text source_agent = .ok items ∧ items ≠ []

/-- Where the answer holds a JSON list, an object stands in it. -/
def ListsAnObject (py : Runtime) (text : Str) : Prop :=
  ∀ list, bracketed (strip text) = some list →
    loads py list = .error .JSONDecodeError ∨
      ∃ items, loads py list = .ok (.arr items) ∧ ∃ item ∈ items, item.isObject = true

theorem item_evidence_isSome (source_agent : Str) (item : Json) :
    (item_evidence source_agent item).isSome = item.isObject := by
  cases item <;> rfl

theorem no_items_iff (source_agent : Str) (items : List Json) :
    items.filterMap (item_evidence source_agent) ≠ [] ↔ ∃ item ∈ items, item.isObject = true := by
  rw [Ne, List.filterMap_eq_nil_iff]
  push Not
  refine exists_congr (fun item => and_congr_right (fun _ => ?_))
  rw [← item_evidence_isSome source_agent, Option.isSome_iff_ne_none]

def footnoted : Str := "The node ran out of memory at 10:02 [1].".toList

end AigentSquad.KeptAnswers
