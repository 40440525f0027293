import AigentSquad.Redactor
import AigentSquad.Substitution

/-!
# The texts of secrets

The texts each pattern of the redactor reads, what the replacements have in
common, and that no replacement holds a text of a pattern.
-/

set_option autoImplicit false

namespace AigentSquad.SecretTexts
open AigentSquad.PyText AigentSquad.Regex AigentSquad.Substitution AigentSquad.Redactor

/-! ## What the patterns read -/

/-- `before`, then between `lo` and `hi` characters of a set. -/
def KeyText (before : Str) (ok : Char → Bool) (lo : ℕ) (hi : Option ℕ) (w : Str) : Prop :=
  ∃ body, w = before ++ body ∧ lo ≤ body.length ∧ AtMost hi body.length ∧
    ∀ c ∈ body, ok c = true

theorem token_describes (word : Char → Bool) (before : Str) (ok : Char → Bool) (lo : ℕ)
    (hi : Option ℕ) (hlo : ∀ h, hi = some h → lo ≤ h) (hne : before ≠ []) :
    Describes word (token before ok lo hi) true (KeyText before ok lo hi) where
  ends_iff := by
    intro p q
    simp only [token, seqs, List.foldr_cons, List.foldr_nil, mem_ends_seq, mem_ends_boundary,
      mem_ends_lit, mem_ends_rep_set word ok lo hi hlo, mem_ends_empty]
    constructor
    · rintro ⟨_, ⟨rfl, hstart⟩, m, hm, _, ⟨body, hbody, hrest⟩, _, ⟨rfl, hend⟩, rfl⟩
      exact ⟨before ++ body, ⟨body, rfl, hrest⟩, hm.trans hbody, fun _ => ⟨hstart, hend⟩⟩
    · rintro ⟨_, ⟨body, rfl, hrest⟩, hread, hbounds⟩
      obtain ⟨m, hm, hbody⟩ := (reads_append p q before body).mp hread
      obtain ⟨hstart, hend⟩ := hbounds trivial
      exact ⟨p, ⟨rfl, hstart⟩, m, hm, q, ⟨body, hbody, hrest⟩, q, ⟨rfl, hend⟩, rfl⟩
  nonempty := by
    rintro ⟨body, hnil, _⟩
    exact hne (List.append_eq_nil_iff.mp hnil.symm).1

def local_char (py : Runtime) (c : Char) : Bool := py.word c || oneOf ['.', '+', '-'] c

def domain_char (py : Runtime) (c : Char) : Bool := py.word c || c = '-'

def tail_char (py : Runtime) (c : Char) : Bool := py.word c || oneOf ['.', '-'] c

structure EmailText (py : Runtime) (w : Str) : Prop where
  parts : ∃ l d t : Str, w = l ++ (['@'] ++ (d ++ (['.'] ++ t))) ∧ l ≠ [] ∧ d ≠ [] ∧ t ≠ [] ∧
    (∀ c ∈ l, local_char py c = true) ∧ (∀ c ∈ d, domain_char py c = true) ∧
    ∀ c ∈ t, tail_char py c = true

theorem email_describes (py : Runtime) :
    Describes py.word (email py) true (EmailText py) where
  ends_iff := by
    intro p q
    simp only [email, seqs, List.foldr_cons, List.foldr_nil, mem_ends_seq, mem_ends_boundary,
      mem_ends_lit, mem_ends_plus_set, mem_ends_empty]
    constructor
    · rintro ⟨_, ⟨rfl, hstart⟩, m₁, ⟨l, hl, h₁, hlocal⟩, m₂, h₂, m₃, ⟨d, hd, h₃, hdomain⟩, m₄, h₄,
        _, ⟨t, ht, h₅, htail⟩, _, ⟨rfl, hend⟩, rfl⟩
      exact ⟨_, ⟨l, d, t, rfl, hl, hd, ht, hlocal, hdomain, htail⟩,
        h₁.trans (h₂.trans (h₃.trans (h₄.trans h₅))), fun _ => ⟨hstart, hend⟩⟩
    · rintro ⟨_, ⟨l, d, t, rfl, hl, hd, ht, hlocal, hdomain, htail⟩, hread, hbounds⟩
      obtain ⟨m₁, h₁, hread⟩ := (reads_append _ _ _ _).mp hread
      obtain ⟨m₂, h₂, hread⟩ := (reads_append _ _ _ _).mp hread
      obtain ⟨m₃, h₃, hread⟩ := (reads_append _ _ _ _).mp hread
      obtain ⟨m₄, h₄, h₅⟩ := (reads_append _ _ _ _).mp hread
      obtain ⟨hstart, hend⟩ := hbounds trivial
      exact ⟨p, ⟨rfl, hstart⟩, m₁, ⟨l, hl, h₁, hlocal⟩, m₂, h₂, m₃, ⟨d, hd, h₃, hdomain⟩, m₄, h₄,
        q, ⟨t, ht, h₅, htail⟩, q, ⟨rfl, hend⟩, rfl⟩
  nonempty := by
    rintro ⟨l, d, t, hnil, hl, _⟩
    exact hl (List.append_eq_nil_iff.mp hnil.symm).1

def bearer_char (c : Char) : Bool :=
  ignoreCase (fun d => d.isAlphanum || oneOf ['_', '.', '-'] d) c

structure BearerText (w : Str) : Prop where
  parts : ∃ b s t : Str, w = b ++ (s ++ t) ∧ b.map foldCase = "bearer".toList ∧ s ≠ [] ∧ t ≠ [] ∧
    (∀ c ∈ s, isspace c = true) ∧ ∀ c ∈ t, bearer_char c = true

theorem bearer_describes (word : Char → Bool) : Describes word bearer false BearerText where
  ends_iff := by
    intro p q
    simp only [bearer, seqs, List.foldr_cons, List.foldr_nil, mem_ends_seq,
      mem_ends_litIgnoreCase, mem_ends_plus_set, mem_ends_empty]
    constructor
    · rintro ⟨m₁, ⟨b, hb, h₁⟩, m₂, ⟨s, hs, h₂, hspace⟩, _, ⟨t, ht, h₃, htoken⟩, rfl⟩
      exact ⟨_, ⟨b, s, t, rfl, hb, hs, ht, hspace, htoken⟩, h₁.trans (h₂.trans h₃),
        fun h => nomatch h⟩
    · rintro ⟨_, ⟨b, s, t, rfl, hb, hs, ht, hspace, htoken⟩, hread, _⟩
      obtain ⟨m₁, h₁, hread⟩ := (reads_append _ _ _ _).mp hread
      obtain ⟨m₂, h₂, h₃⟩ := (reads_append _ _ _ _).mp hread
      exact ⟨m₁, ⟨b, hb, h₁⟩, m₂, ⟨s, hs, h₂, hspace⟩, q, ⟨t, ht, h₃, htoken⟩, rfl⟩
  nonempty := by
    rintro ⟨b, s, t, hnil, hb, _⟩
    have hempty : b = [] := (List.append_eq_nil_iff.mp hnil.symm).1
    rw [hempty] at hb
    cases hb

/-! ## Texts that no replacement completes -/

def key_char (c : Char) : Bool := c.isAlphanum || oneOf ['_', '-'] c

/-- A key of twenty or more letters, digits, underscores and hyphens. -/
structure IsKey (before : Str) (ok : Char → Bool) (lo : ℕ) : Prop where
  before_char : ∀ c ∈ before, key_char c = true
  ok_char : ∀ c, ok c = true → key_char c = true
  long : 20 ≤ before.length + lo

theorem key_chars {before : Str} {ok : Char → Bool} {lo : ℕ} {hi : Option ℕ}
    (hk : IsKey before ok lo) {w : Str} (hw : KeyText before ok lo hi w) :
    (∀ c ∈ w, key_char c = true) ∧ 20 ≤ w.length := by
  obtain ⟨body, rfl, hlo, _, hall⟩ := hw
  constructor
  · intro c hc
    rcases List.mem_append.mp hc with hc | hc
    · exact hk.before_char c hc
    · exact hk.ok_char c (hall c hc)
  · have hlong := hk.long
    rw [List.length_append]
    omega

/-- A replacement of fewer than twenty such characters holds no key. -/
theorem key_avoids {before : Str} {ok : Char → Bool} {lo : ℕ} {hi : Option ℕ}
    (hk : IsKey before ok lo) {repl : Str} (hrepl : repl.countP key_char < 20) (w : Str)
    (hw : KeyText before ok lo hi w) : '<' ∉ w ∧ '>' ∉ w ∧ ¬ w <:+: repl := by
  obtain ⟨hchars, hlong⟩ := key_chars hk hw
  refine ⟨fun h => absurd (hchars _ h) (by decide), fun h => absurd (hchars _ h) (by decide), ?_⟩
  intro hin
  have hcount := hin.sublist.countP_le (p := key_char)
  rw [List.countP_eq_length.mpr hchars] at hcount
  omega

theorem email_chars (py : Runtime) (w : Str) (hw : EmailText py w) :
    ∀ c ∈ w, py.word c = true ∨ c ∈ ['.', '+', '-', '@'] := by
  obtain ⟨l, d, t, rfl, _, _, _, hlocal, hdomain, htail⟩ := hw.parts
  intro c hc
  simp only [List.mem_append, List.mem_singleton] at hc
  rcases hc with hc | rfl | hc | rfl | hc
  · have hchar := hlocal c hc
    simp only [local_char, oneOf, Bool.or_eq_true, decide_eq_true_eq] at hchar
    exact hchar.imp_right (fun h => (by decide : ['.', '+', '-'] ⊆ ['.', '+', '-', '@']) h)
  · exact .inr (by decide)
  · have hchar := hdomain c hc
    simp only [domain_char, Bool.or_eq_true, decide_eq_true_eq] at hchar
    rcases hchar with hchar | rfl
    · exact .inl hchar
    · exact .inr (by decide)
  · exact .inr (by decide)
  · have hchar := htail c hc
    simp only [tail_char, oneOf, Bool.or_eq_true, decide_eq_true_eq] at hchar
    exact hchar.imp_right (fun h => (by decide : ['.', '-'] ⊆ ['.', '+', '-', '@']) h)

theorem email_not_mem (py : Runtime) (w : Str) (hw : EmailText py w) (c : Char)
    (hc : c ∈ ['<', '>', ' ']) : c ∉ w := by
  have hmark : ∀ d ∈ ['<', '>', ' '], isAscii d = true ∧ (d.isAlphanum || d == '_') = false ∧
      d ∉ ['.', '+', '-', '@'] := by decide
  obtain ⟨hascii, hword, hout⟩ := hmark c hc
  intro hmem
  rcases email_chars py w hw c hmem with h | h
  · rw [py.word_ascii c hascii, hword] at h
    cases h
  · exact hout h

theorem email_avoids (py : Runtime) {repl : Str} (hrepl : '@' ∉ repl) (w : Str)
    (hw : EmailText py w) : '<' ∉ w ∧ '>' ∉ w ∧ ¬ w <:+: repl := by
  refine ⟨email_not_mem py w hw '<' (by decide), email_not_mem py w hw '>' (by decide), ?_⟩
  obtain ⟨l, d, t, rfl, _⟩ := hw.parts
  exact fun hin => hrepl (hin.subset (by simp))

theorem bearer_not_mem (w : Str) (hw : BearerText w) (c : Char) (hc : c ∈ ['<', '>']) : c ∉ w := by
  obtain ⟨b, s, t, rfl, hb, _, _, hspace, htoken⟩ := hw.parts
  have hmark : ∀ d ∈ ['<', '>'], foldCase d ∉ "bearer".toList ∧ isspace d = false ∧
      bearer_char d = false := by decide
  obtain ⟨hfold, hnospace, hnotoken⟩ := hmark c hc
  intro hmem
  rcases List.mem_append.mp hmem with h | h
  · exact hfold (hb ▸ List.mem_map_of_mem h)
  · rcases List.mem_append.mp h with h | h
    · rw [hspace c h] at hnospace
      cases hnospace
    · rw [htoken c h] at hnotoken
      cases hnotoken

theorem bearer_avoids {repl : Str} (hrepl : ∀ c ∈ repl, isspace c = false) (w : Str)
    (hw : BearerText w) : '<' ∉ w ∧ '>' ∉ w ∧ ¬ w <:+: repl := by
  refine ⟨bearer_not_mem w hw '<' (by decide), bearer_not_mem w hw '>' (by decide), ?_⟩
  intro hin
  obtain ⟨b, s, t, rfl, _, hs, _, hspace, _⟩ := hw.parts
  obtain ⟨c, hc⟩ := List.exists_mem_of_ne_nil s hs
  have hblank := hrepl c (hin.subset (by simp [hc]))
  rw [hspace c hc] at hblank
  cases hblank

/-! ## The patterns -/

def bearer_repl : Str := "Bearer <redacted:token>".toList

/-- The replacement of a pattern with word boundaries. -/
structure Marker (repl : Str) : Prop where
  head : repl.head? = some '<'
  last : repl.getLast? = some '>'
  no_at : '@' ∉ repl
  few : repl.countP key_char < 20
  no_blank : ∀ c ∈ repl, isspace c = false

theorem Marker.ne_nil {repl : Str} (h : Marker repl) : repl ≠ [] := by
  rintro rfl
  cases h.head

/-- How a key relates to the replacement `Bearer`: it begins with a letter of bearer
tokens, its fixed part has no `B`, and its body takes every letter or no `e`. -/
structure BearerSafe (before : Str) (ok : Char → Bool) : Prop where
  head : ∃ c rest, before = c :: rest ∧ c.isAlpha = true ∧ bearer_char c = true
  no_b : 'B' ∉ before
  body : (∀ c, c.isAlpha = true → ok c = true) ∨ ok 'e' = false

theorem key_described {before : Str} {ok : Char → Bool} {lo : ℕ} {hi : Option ℕ}
    (word : Char → Bool) (hlohi : ∀ h, hi = some h → lo ≤ h) (hsafe : BearerSafe before ok) :
    Describes word (token before ok lo hi) true (KeyText before ok lo hi) := by
  obtain ⟨c, rest, hbefore, _⟩ := hsafe.head
  exact token_describes word before ok lo hi hlohi (by rw [hbefore]; exact List.cons_ne_nil c rest)

/-- A key pattern with its replacement. -/
structure KeyPattern (before : Str) (ok : Char → Bool) (lo : ℕ) (hi : Option ℕ) (repl : Str) :
    Prop where
  bounds : ∀ h, hi = some h → lo ≤ h
  key : IsKey before ok lo
  safe : BearerSafe before ok
  marker : Marker repl

theorem KeyPattern.describes {before : Str} {ok : Char → Bool} {lo : ℕ} {hi : Option ℕ}
    {repl : Str} (h : KeyPattern before ok lo hi repl) (word : Char → Bool) :
    Describes word (token before ok lo hi) true (KeyText before ok lo hi) :=
  key_described word h.bounds h.safe

theorem aws_pattern (before : Str) (hbefore : before = "AKIA".toList ∨ before = "ASIA".toList) :
    KeyPattern before upper_or_digit 16 (some 16) "<redacted:aws-key>".toList where
  bounds := fun _ heq => Nat.le_of_eq (Option.some.inj heq)
  key := by
    refine ⟨?_, ?_, ?_⟩
    · rcases hbefore with rfl | rfl <;> decide
    · intro c hc
      simp only [upper_or_digit, Bool.or_eq_true] at hc
      rcases hc with hc | hc <;> simp [key_char, Char.isAlphanum, isAlpha_eq, hc]
    · rcases hbefore with rfl | rfl <;> decide
  safe := by
    refine ⟨?_, ?_, .inr (by decide)⟩
    · rcases hbefore with rfl | rfl
      · exact ⟨'A', "KIA".toList, rfl, by decide, by decide⟩
      · exact ⟨'A', "SIA".toList, rfl, by decide, by decide⟩
    · rcases hbefore with rfl | rfl <;> decide
  marker := ⟨rfl, rfl, by decide, by decide, by decide⟩

theorem alpha_alphanum (c : Char) (hc : c.isAlpha = true) : c.isAlphanum = true := by
  simp [Char.isAlphanum, hc]

theorem key_of_alphanum (c : Char) (hc : c.isAlphanum = true) : key_char c = true := by
  simp [key_char, hc]

theorem key_of_alpha (c : Char) (hc : c.isAlpha = true) : key_char c = true :=
  key_of_alphanum c (alpha_alphanum c hc)

theorem github_pattern :
    KeyPattern "ghp_".toList Char.isAlphanum 36 (some 36) "<redacted:github-pat>".toList where
  bounds := fun _ heq => Nat.le_of_eq (Option.some.inj heq)
  key := ⟨by decide, key_of_alphanum, by decide⟩
  safe := ⟨⟨'g', "hp_".toList, rfl, by decide, by decide⟩, by decide, .inl alpha_alphanum⟩
  marker := ⟨rfl, rfl, by decide, by decide, by decide⟩

theorem gitlab_pattern :
    KeyPattern "glpat-".toList key_char 20 none "<redacted:gitlab-pat>".toList where
  bounds := fun _ heq => nomatch heq
  key := ⟨by decide, fun _ h => h, by decide⟩
  safe := ⟨⟨'g', "lpat-".toList, rfl, by decide, by decide⟩, by decide, .inl key_of_alpha⟩
  marker := ⟨rfl, rfl, by decide, by decide, by decide⟩

theorem openai_pattern :
    KeyPattern "sk-".toList Char.isAlphanum 20 none "<redacted:openai-key>".toList where
  bounds := fun _ heq => nomatch heq
  key := ⟨by decide, key_of_alphanum, by decide⟩
  safe := ⟨⟨'s', "k-".toList, rfl, by decide, by decide⟩, by decide, .inl alpha_alphanum⟩
  marker := ⟨rfl, rfl, by decide, by decide, by decide⟩

theorem email_marker : Marker "<redacted:email>".toList :=
  ⟨rfl, rfl, by decide, by decide, by decide⟩

/-- The kinds of pattern. -/
inductive Kind (py : Runtime) : Rx × Str → Prop
  | email (repl : Str) : Marker repl → Kind py (email py, repl)
  | key (before : Str) (ok : Char → Bool) (lo : ℕ) (hi : Option ℕ) (repl : Str) :
      KeyPattern before ok lo hi repl → Kind py (token before ok lo hi, repl)
  | bearer : Kind py (bearer, bearer_repl)

theorem kind_of_pattern (py : Runtime) : ∀ p ∈ PATTERNS py, Kind py p := by
  intro p hp
  simp only [PATTERNS, List.mem_cons, List.not_mem_nil, or_false] at hp
  rcases hp with rfl | rfl | rfl | rfl | rfl | rfl | rfl
  · exact .email _ email_marker
  · exact .key _ _ _ _ _ (aws_pattern "AKIA".toList (.inl rfl))
  · exact .key _ _ _ _ _ (aws_pattern "ASIA".toList (.inr rfl))
  · exact .key _ _ _ _ _ github_pattern
  · exact .key _ _ _ _ _ gitlab_pattern
  · exact .bearer
  · exact .key _ _ _ _ _ openai_pattern

end AigentSquad.SecretTexts
