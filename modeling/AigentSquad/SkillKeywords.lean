import AigentSquad.CaseFolding
import AigentSquad.FoundMatches

/-!
# Keywords of a skill

`Skill.matches` looks a keyword up among the words of the query, and a word is
made of ASCII letters and digits. A keyword with any other character is looked
up as it is and is never among them.
-/

set_option autoImplicit false

namespace AigentSquad.SkillKeywords
open AigentSquad.PyText AigentSquad.Regex AigentSquad.CaseFolding AigentSquad.FoundMatches

structure Skill where
  name : Str
  description : Str
  keywords : List Str
  body : Str

/-- `[a-z0-9]` -/
def word_char (c : Char) : Bool := c.isLower || c.isDigit

/-- `[a-z0-9]+` -/
def WORD_RE : Rx := plus (.set word_char)

/-- The turn of one keyword in the loop of `matches`, `q` being the lowered query. -/
def found (py : Runtime) (q kw : Str) : Bool :=
  let k := strip (lower py kw)
  if k.isEmpty then false
  else if isIn [' '] k then isIn k q
  else k ∈ findall py.word WORD_RE q

def Skill.matches (py : Runtime) (skill : Skill) (query : Str) : Bool :=
  if skill.keywords.isEmpty then false
  else skill.keywords.any (found py (lower py query))

section Words
variable (py : Runtime)

theorem space_not_word_char (c : Char) (h : isspace c = true) : word_char c = false := by
  rw [word_char, Bool.or_eq_false_iff]
  have hletter := space_not_letter c h
  rw [isAlpha_eq, Bool.or_eq_false_iff] at hletter
  exact ⟨hletter.2, space_not_digit c h⟩

theorem matches_iff (skill : Skill) (query : Str) :
    skill.matches py query = true ↔ ∃ kw ∈ skill.keywords, found py (lower py query) kw = true := by
  cases hkeywords : skill.keywords with
  | nil => simp [Skill.matches, hkeywords]
  | cons kw kws => simp [Skill.matches, hkeywords]

/-- The words of a text are its longest runs of letters and digits. -/
theorem mem_words (s w : Str) :
    w ∈ findall py.word WORD_RE s ↔ 1 ≤ w.length ∧ MaximalRun word_char s w :=
  mem_findall_runs py.word word_char 1 Nat.one_pos s w

/-- A run of letters and digits between blanks is as long as it can be. -/
theorem maximal_of_delimited (s w : Str) (h : Delimited w s)
    (hw : ∀ c ∈ w, word_char c = true) : MaximalRun word_char s w := by
  obtain ⟨a, b, htext, ha, hb⟩ := h
  refine ⟨a, b, by rw [htext, List.append_assoc], hw, ?_, ?_⟩
  · exact fun c hc => space_not_word_char c (ha c hc)
  · exact fun c hc => space_not_word_char c (hb c hc)

/-- The keyword stands in the query between blanks or the ends, in any case of its letters. -/
def Names (kw query : Str) : Prop := ∃ w, lower py w = lower py kw ∧ Delimited w query

/-- What the keyword is looked up as is a word. -/
def IsWord (kw : Str) : Prop :=
  strip (lower py kw) ≠ [] ∧ ∀ c ∈ strip (lower py kw), word_char c = true

theorem found_of_word (kw query : Str) (hkw : IsWord py kw) (h : Names py kw query) :
    found py (lower py query) kw = true := by
  obtain ⟨hne, hall⟩ := hkw
  obtain ⟨w, hlower, hdelimited⟩ := h
  have hstands : Delimited (strip (lower py kw)) (lower py query) := by
    have hw := (lower_folding py).delimited_fold w query hdelimited
    rw [hlower] at hw
    exact (strip_delimited (lower py kw)).trans hw
  have hblank : isIn [' '] (strip (lower py kw)) = false := by
    rw [isIn, decide_eq_false_iff_not, List.singleton_infix_iff]
    intro hin
    exact absurd (hall ' ' hin) (by decide)
  have hword : strip (lower py kw) ∈ findall py.word WORD_RE (lower py query) :=
    (mem_words py _ _).mpr
      ⟨List.length_pos_iff.mpr hne, maximal_of_delimited _ _ hstands hall⟩
  simp [found, hne, hblank, hword]

/-- A keyword without blanks is found as a word or not at all. -/
theorem word_of_found (kw q : Str) (hkw : ∀ c ∈ kw, isspace c = false)
    (h : found py q kw = true) : IsWord py kw := by
  have hblank : isIn [' '] (strip (lower py kw)) = false := by
    rw [isIn, decide_eq_false_iff_not, List.singleton_infix_iff]
    intro hin
    have hmem := mem_of_mem_lower py kw ' ' rfl rfl (mem_of_mem_strip _ _ hin)
    exact absurd (hkw ' ' hmem) (by decide)
  rw [found, hblank] at h
  by_cases hne : strip (lower py kw) = []
  · simp [hne] at h
  · have hword : strip (lower py kw) ∈ findall py.word WORD_RE q := by
      simpa [hne] using h
    obtain ⟨_, _, _, _, hall, _⟩ := (mem_words py _ _).mp hword
    exact ⟨hne, hall⟩

end Words

/-- Where a keyword stands between blanks, every skill that has it matches, if and only if it
is a word of ASCII letters and digits. -/
theorem keyword_matches_iff (py : Runtime) (kw query : Str) (hkw : ∀ c ∈ kw, isspace c = false)
    (hnames : Names py kw query) :
    (∀ skill : Skill, kw ∈ skill.keywords → skill.matches py query = true) ↔ IsWord py kw := by
  constructor
  · intro hmatches
    have halone := hmatches ⟨[], [], [kw], []⟩ List.mem_cons_self
    obtain ⟨kw', hmem, hfound⟩ := (matches_iff py _ query).mp halone
    obtain rfl := List.mem_singleton.mp hmem
    exact word_of_found py kw' _ hkw hfound
  · intro hword skill hmem
    exact (matches_iff py skill query).mpr ⟨kw, hmem, found_of_word py kw query hword hnames⟩

/-- A skill with one keyword and nothing else. -/
def skill_of (kw : Str) : Skill := ⟨[], [], [kw], []⟩

theorem word_in_other_case :
    (skill_of "OOMKilled".toList).matches asciiRuntime "pod oomKILLED again".toList = true := by
  have hnames : Names asciiRuntime "OOMKilled".toList "pod oomKILLED again".toList :=
    ⟨"oomKILLED".toList, by decide, "pod ".toList, " again".toList, by decide,
      fun c hc => Option.some.inj hc ▸ rfl, fun c hc => Option.some.inj hc ▸ rfl⟩
  have hword : IsWord asciiRuntime "OOMKilled".toList := ⟨by decide, by decide⟩
  exact (keyword_matches_iff asciiRuntime _ _ (by decide) hnames).mpr hword
    (skill_of "OOMKilled".toList) (List.mem_singleton_self _)

theorem hyphenated_unmatched :
    ¬ ∀ (py : Runtime) (kw query : Str), (∀ c ∈ kw, isspace c = false) → Names py kw query →
      ∀ skill : Skill, kw ∈ skill.keywords → skill.matches py query = true := by
  intro h
  have hmatches := h asciiRuntime "cert-manager".toList "cert-manager".toList (by decide)
    ⟨_, rfl, [], [], rfl, by simp, by simp⟩ (skill_of "cert-manager".toList) List.mem_cons_self
  revert hmatches
  decide

/-! ## The skills of an agent -/

/-- `selected[:max_skills]` -/
def upto (max_skills : ℤ) (selected : List Skill) : List Skill :=
  selected.take (if 0 ≤ max_skills then max_skills.toNat
    else selected.length - max_skills.natAbs)

/-- `SkillRegistry.select`; `max_skills` is `AIGENT_MAX_SKILLS_PER_TURN`. -/
def select (py : Runtime) (skills : Str → Option Skill) (max_skills : ℤ) (allowed : List Str)
    (query : Str) : List Skill :=
  let selected := allowed.filterMap (fun name =>
    (skills name).filter (fun skill => skill.matches py query))
  if max_skills < selected.length then upto max_skills selected else selected

theorem select_matches (py : Runtime) (skills : Str → Option Skill) (max_skills : ℤ)
    (allowed : List Str) (query : Str) :
    ∀ skill ∈ select py skills max_skills allowed query, skill.matches py query = true := by
  have hall : ∀ skill ∈ allowed.filterMap (fun name =>
      (skills name).filter (fun skill => skill.matches py query)),
      skill.matches py query = true := by
    intro skill hmem
    obtain ⟨name, _, hname⟩ := List.mem_filterMap.mp hmem
    exact (Option.filter_eq_some_iff.mp hname).2
  intro skill hmem
  rw [select] at hmem
  split at hmem
  · exact hall skill (List.mem_of_mem_take hmem)
  · exact hall skill hmem

/-- A selected skill has a keyword that is a word or has a blank in it. -/
theorem selected_has_word (py : Runtime) (skills : Str → Option Skill) (max_skills : ℤ)
    (allowed : List Str) (query : Str) (skill : Skill)
    (h : skill ∈ select py skills max_skills allowed query) :
    ∃ kw ∈ skill.keywords, IsWord py kw ∨ ∃ c ∈ kw, isspace c = true := by
  obtain ⟨kw, hmem, hfound⟩ := (matches_iff py skill query).mp
    (select_matches py skills max_skills allowed query skill h)
  refine ⟨kw, hmem, ?_⟩
  by_cases hblank : ∃ c ∈ kw, isspace c = true
  · exact .inr hblank
  · exact .inl (word_of_found py kw _ (by simpa using hblank) hfound)

end AigentSquad.SkillKeywords
