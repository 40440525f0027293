import AigentSquad.CaseFolding
import AigentSquad.ResponseQuality
import AigentSquad.Trimming

/-!
# Claims and the evidence for them

The evidence of an agentic answer is the text of the tool results in its
messages. A claim has no separator of the summaries in it and a character their
own words lack, so a summary states a claim only inside one of its parts.
-/

set_option autoImplicit false

namespace AigentSquad.Evidence
open AigentSquad.PyText AigentSquad.PyJson AigentSquad.Truncation AigentSquad.Trimming
open AigentSquad.Regex AigentSquad.ResponseQuality AigentSquad.CaseFolding

def item_text : ResultItem → Option Str
  | .text t => some t
  | .other => none

/-- The texts of a block, each with the tool use it answers. -/
def block_items : Block → List (Str × Str)
  | .toolResult r => (r.content.filterMap item_text).map (fun t => (r.toolUseId, t))
  | _ => []

def result_items (m : Message) : List (Str × Str) := m.content.flatMap block_items

def result_texts (m : Message) : List Str := (result_items m).map Prod.snd

def evidence_texts (m : Message) : List Str :=
  if m.role ≠ .user then [] else (result_texts m).filter (fun t => !t.isEmpty)

def extract_tool_result_text (messages : List Message) : Str :=
  join "\n".toList (messages.flatMap evidence_texts)

/-- What separates the parts of a summary, of a sample and of the evidence, and
what the texts of a run begin with. -/
def separators : Str := [' ', '|', '\n', ';', '<', '[']

/-- One of these is in every claim. -/
def marks : Str := ['-', '$', 'n', 'N']

theorem ignoreCase_free (ok : Char → Bool) (h : ∀ d ∈ separators, ok d = false) :
    ∀ d ∈ separators, ignoreCase ok d = false := by
  have hfold : ∀ d ∈ separators, foldCase d = d := by decide
  intro d hd
  rw [ignoreCase, hfold d hd, h d hd]

theorem set_free (ok : Char → Bool) (h : ∀ d ∈ separators, ok d = false) :
    (Rx.set ok).Over (· ∉ separators) := by
  intro c hc hmem
  rw [h c hmem] at hc
  cases hc

theorem lit_free (s : Str) (h : ∀ d ∈ separators, d ∉ s) : (lit s).Over (· ∉ separators) :=
  over_lit _ s (fun c hc hmem => h c hmem hc)

theorem litIgnoreCase_free (s : Str) (h : ∀ d ∈ separators, d ∉ s) :
    (litIgnoreCase s).Over (· ∉ separators) := by
  induction s with
  | nil => trivial
  | cons c s ih =>
    refine ⟨set_free _ (ignoreCase_free _ (fun d hd => decide_eq_false ?_)),
      ih (fun d hd hmem => h d hd (by simp [hmem]))⟩
    rintro rfl
    exact h d hd (by simp)

theorem digit_free (py : Runtime) : ∀ d ∈ separators, digit py d = false := by
  have hascii : ∀ d ∈ separators, isAscii d = true ∧ d.isDigit = false := by decide
  intro d hd
  simp [digit, py.decimal_ascii d (hascii d hd).1, (hascii d hd).2]

theorem word_free (py : Runtime) : ∀ d ∈ separators, py.word d = false := by
  have hascii : ∀ d ∈ separators, isAscii d = true ∧ (d.isAlphanum || d == '_') = false := by decide
  intro d hd
  rw [py.word_ascii d (hascii d hd).1, (hascii d hd).2]

theorem resource_id_free : resource_id.Over (· ∉ separators) := by
  refine over_seqs _ _ (fun r hr => ?_)
  simp only [List.mem_cons, List.not_mem_nil, or_false] at hr
  rcases hr with rfl | rfl | rfl | rfl | rfl
  · trivial
  · refine over_alts _ _ _ (litIgnoreCase_free _ (by decide)) (fun s hs => ?_)
    obtain ⟨word, hword, rfl⟩ := List.mem_map.mp hs
    refine litIgnoreCase_free _ ?_
    clear hs
    revert word
    decide
  · exact lit_free _ (by decide)
  · exact set_free _ (ignoreCase_free hexDigit (by decide))
  · trivial

theorem arn_free (py : Runtime) : (arn py).Over (· ∉ separators) := by
  have hslug : ∀ d ∈ separators, ignoreCase slugChar d = false :=
    ignoreCase_free slugChar (by decide)
  have hpunct : ∀ d ∈ separators, oneOf ['-', '/', ':', '.', '*'] d = false := by decide
  refine over_seqs _ _ (fun r hr => ?_)
  simp only [List.mem_cons, List.not_mem_nil, or_false] at hr
  rcases hr with rfl | rfl | rfl | rfl | rfl | rfl | rfl | rfl
  · exact litIgnoreCase_free _ (by decide)
  · exact set_free _ hslug
  · exact lit_free _ (by decide)
  · exact set_free _ hslug
  · exact lit_free _ (by decide)
  · exact set_free _ (digit_free py)
  · exact lit_free _ (by decide)
  · exact set_free _ (ignoreCase_free _ (fun d hd => by rw [word_free py d hd, hpunct d hd]; rfl))

theorem numeric_free (py : Runtime) : (NUMERIC_CLAIM_PATTERN py).Over (· ∉ separators) := by
  refine over_seqs _ _ (fun r hr => ?_)
  simp only [List.mem_cons, List.not_mem_nil, or_false] at hr
  rcases hr with rfl | rfl | rfl | rfl | rfl | rfl
  · exact lit_free _ (by decide)
  · exact set_free _ (digit_free py)
  · exact ⟨lit_free _ (by decide), set_free _ (digit_free py)⟩
  · exact lit_free _ (by decide)
  · exact set_free _ (digit_free py)
  · trivial

theorem resource_id_marked : resource_id.Needs (· ∈ marks) := by
  refine needs_seqs _ _ (lit "-".toList) (by simp) (.inl (fun c hc => ?_))
  rw [of_decide_eq_true hc]
  decide

theorem foldCase_n (c : Char) (h : foldCase c = 'n') : c ∈ marks := by
  unfold foldCase at h
  split at h
  · cases h
  · split at h
    · cases h
    · split at h
      · cases h
      · by_cases hupper : c.isUpper = true
        · have hval : c.val + ('a'.val - 'A'.val) = 'n'.val := by
            rw [← toLower_of_upper c hupper, h]
          have hc : c = 'N' := Char.ext (by
            have : c.val = 'n'.val - ('a'.val - 'A'.val) := by
              rw [← hval, UInt32.add_sub_cancel]
            rw [this]
            decide)
          simp [marks, hc]
        · rw [toLower_of_not_upper c (by simpa using hupper)] at h
          simp [marks, h]

theorem arn_marked (py : Runtime) : (arn py).Needs (· ∈ marks) := by
  refine needs_seqs _ _ (litIgnoreCase "arn:aws:".toList) (by simp)
    (.inr (.inr (.inl (fun c hc => foldCase_n c (of_decide_eq_true hc)))))

theorem numeric_marked (py : Runtime) : (NUMERIC_CLAIM_PATTERN py).Needs (· ∈ marks) := by
  refine needs_seqs _ _ (lit "$".toList) (by simp) (.inl (fun c hc => ?_))
  rw [of_decide_eq_true hc]
  decide

/-- What a claim looks like in a folded text. -/
structure Claimed (w : Str) : Prop where
  free : ∀ c ∈ separators, c ∉ w
  marked : ∃ c ∈ marks, c ∈ w

theorem Claimed.ne_nil {w : Str} (h : Claimed w) : w ≠ [] := by
  obtain ⟨c, _, hc⟩ := h.marked
  exact List.ne_nil_of_mem hc

theorem claimed_fold {py : Runtime} {fold : Str → Str} {steady : Str → Prop}
    (hf : Folding py fold steady) (r : Rx) (hfree : r.Over (· ∉ separators))
    (hmarked : r.Needs (· ∈ marks)) (w : Str) (h : r.Accepts w) : Claimed (fold w) := by
  constructor
  · have hascii : ∀ c ∈ separators, isAscii c = true ∧ c.isLower = false := by decide
    intro c hc hmem
    exact accepts_over _ r hfree w h c (hf.mem w c (hascii c hc).1 (hascii c hc).2 hmem) hc
  · have hascii : ∀ c ∈ marks, isAscii c = true ∧ c.toLower ∈ marks := by decide
    obtain ⟨c, hc, hmark⟩ := accepts_needs _ r hmarked w h
    rcases hf.keeps w c hc (hascii c hmark).1 with hin | hin
    · exact ⟨c, hmark, hin⟩
    · exact ⟨c.toLower, (hascii c hmark).2, hin⟩

theorem resource_claimed (py : Runtime) (response w : Str)
    (h : w ∈ findall py.word (RESOURCE_ID_PATTERN py) response) : Claimed (lower py w) :=
  claimed_fold (lower_folding py) (RESOURCE_ID_PATTERN py) ⟨resource_id_free, arn_free py⟩
    ⟨resource_id_marked, arn_marked py⟩ w (findall_spec _ _ _ _ h).2.1

theorem numeric_claimed (py : Runtime) (response w : Str)
    (h : w ∈ findall py.word (NUMERIC_CLAIM_PATTERN py) response) : Claimed w :=
  claimed_fold (id_folding py) (NUMERIC_CLAIM_PATTERN py) (numeric_free py) (numeric_marked py) w
    (findall_spec _ _ _ _ h).2.1

/-- A dollar figure ends in a digit. -/
theorem numeric_last (py : Runtime) (response w : Str)
    (h : w ∈ findall py.word (NUMERIC_CLAIM_PATTERN py) response) : w.getLast? ≠ some '.' := by
  obtain ⟨_, _, rfl, _, _, _, rfl, _, _, _, rfl, _, _, _, rfl, _, _, _, rfl,
    ⟨us, rfl, hlen, hus⟩, _, _, rfl, rfl, rfl⟩ := (findall_spec _ _ _ _ h).2.1
  obtain ⟨us, u, rfl⟩ := (List.eq_nil_or_concat us).resolve_left (by rintro rfl; simp at hlen)
  obtain ⟨c, hc, rfl⟩ := hus u (by simp)
  have hdot : digit py '.' = false := by
    rw [digit, py.decimal_ascii '.' (by decide)]
    rfl
  have hend : (us.concat [c]).flatten.getLast? = some c := by simp
  simp only [List.append_nil, List.getLast?_append, hend, Option.some_or, ne_eq, Option.some.injEq]
  rintro rfl
  rw [hdot] at hc
  cases hc

/-- A claim is in the evidence only if it is in one of the texts. -/
theorem claim_in_evidence {py : Runtime} {fold : Str → Str} {steady : Str → Prop}
    (hf : Folding py fold steady) (w : Str) (hw : Claimed w) (messages : List Message)
    (h : w <:+: fold (extract_tool_result_text messages)) :
    ∃ m ∈ messages, ∃ t ∈ result_texts m, w <:+: fold t := by
  have hbreak : ∀ c ∈ "\n".toList, Boundary py c ∧ c ∉ w := by
    intro c hc
    obtain rfl : c = '\n' := by simpa using hc
    exact ⟨boundary_of_space py '\n' (by decide), hw.free '\n' (by decide)⟩
  obtain ⟨t, ht, hin⟩ := (hf.infix_join w _ _ hw.ne_nil hbreak (by decide)).mp h
  obtain ⟨m, hm, ht⟩ := List.mem_flatMap.mp ht
  unfold evidence_texts at ht
  split at ht
  · cases ht
  · exact ⟨m, hm, t, List.mem_of_mem_filter ht, hin⟩

end AigentSquad.Evidence
