import AigentSquad.CanaryRedaction
import AigentSquad.InputScanner
import AigentSquad.Provenance

/-!
# Digits with invisible separators

The digits of a token with blanks, dashes, dots and zero-width characters between
them. The fuzzy pattern can only match such a text as a whole, and does so where
every character between the digits is one of its own separators.
-/

set_option autoImplicit false

namespace AigentSquad.CanaryObfuscation
open AigentSquad.PyText AigentSquad.Regex AigentSquad.Substitution AigentSquad.Provenance
open AigentSquad.Canary AigentSquad.CanaryRedaction AigentSquad.InputScanner

/-- A blank, a dash, a dot or what the input scanner strips as zero-width. -/
def inserted (c : Char) : Bool := isspace c || oneOf ['-', '_', '.'] c || zero_width c

/-- The digits with inserted characters between them. -/
def Obfuscated (hex text : Str) : Prop := Spread (fun c d => d = c) (inserted · = true) hex text

/-! ## Letters and separators -/

section Spread
variable {letter letter' : Char → Char → Prop} {sep sep' : Char → Prop}

theorem spread_mono (s w : Str) (h : Spread letter sep s w)
    (hletter : ∀ c d, letter c d → letter' c d) (hsep : ∀ y ∈ w, sep y → sep' y) :
    Spread letter' sep' s w := by
  induction s using spread.induct generalizing w with
  | case1 => exact h
  | case2 c =>
    obtain ⟨d, rfl, hd⟩ := h
    exact ⟨d, rfl, hletter c d hd⟩
  | case3 c d s ih =>
    obtain ⟨x, gap, u, rfl, hx, hgap, hu⟩ := h
    refine ⟨x, gap, u, rfl, hletter c x hx, ?_, ih u hu ?_⟩
    · intro y hy
      exact hsep y (by simp [hy]) (hgap y hy)
    · intro y hy
      exact hsep y (by simp [hy])

/-- As many letters of a class stand in the text as the text spells. -/
theorem spread_count (H : Char → Bool) (s w : Str) (h : Spread letter sep s w)
    (hletter : ∀ c ∈ s, ∀ d, letter c d → H d = true) (hsep : ∀ y, sep y → H y = false) :
    w.countP H = s.length := by
  induction s using spread.induct generalizing w with
  | case1 =>
    obtain rfl := h
    rfl
  | case2 c =>
    obtain ⟨d, rfl, hd⟩ := h
    simp [hletter c List.mem_cons_self d hd]
  | case3 c d s ih =>
    obtain ⟨x, gap, u, rfl, hx, hgap, hu⟩ := h
    have hgaps : gap.countP H = 0 := by
      rw [List.countP_eq_zero]
      intro y hy
      simp [hsep y (hgap y hy)]
    rw [List.countP_cons_of_pos (hletter c List.mem_cons_self x hx), List.countP_append, hgaps,
      ih u hu (fun e he => hletter e (List.mem_cons_of_mem c he)), Nat.zero_add]
    rfl

/-- The text begins and ends with a letter. -/
theorem spread_outer (s w : Str) (h : Spread letter sep s w) (hs : s ≠ []) :
    (∃ c ∈ s, ∃ x t, letter c x ∧ w = x :: t) ∧ ∃ c ∈ s, ∃ t x, letter c x ∧ w = t ++ [x] := by
  induction s using spread.induct generalizing w with
  | case1 => exact absurd rfl hs
  | case2 c =>
    obtain ⟨d, rfl, hd⟩ := h
    exact ⟨⟨c, List.mem_cons_self, d, [], hd, rfl⟩, c, List.mem_cons_self, [], d, hd, rfl⟩
  | case3 c d s ih =>
    obtain ⟨x, gap, u, rfl, hx, hgap, hu⟩ := h
    obtain ⟨_, e, he, t, y, hy, rfl⟩ := ih u hu (List.cons_ne_nil d s)
    exact ⟨⟨c, List.mem_cons_self, x, gap ++ (t ++ [y]), hx, rfl⟩, e, List.mem_cons_of_mem c he,
      x :: (gap ++ t), y, hy, by simp⟩

end Spread

/-- A hexadecimal digit, case ignored. -/
def hex_like (c : Char) : Bool := decide (foldCase c ∈ "0123456789abcdef".toList)

theorem hex_like_mem (c : Char) (h : hex_like c = true) : c ∈ hex_digits := by
  have table : ∀ n : Fin 26, hex_like (Char.ofNat (n + 65)) = true →
      Char.ofNat (n + 65) ∈ hex_digits := by decide
  have hlower : ∀ d ∈ "0123456789abcdef".toList, d ∈ hex_digits := by decide
  have hfold : foldCase c ∈ "0123456789abcdef".toList := of_decide_eq_true h
  unfold foldCase at hfold
  split at hfold
  · exact absurd hfold (by decide)
  · split at hfold
    · exact absurd hfold (by decide)
    · split at hfold
      · exact absurd hfold (by decide)
      · by_cases hupper : c.isUpper = true
        · rw [isUpper_eq, decide_eq_true_eq] at hupper
          simp only [ge_iff_le, UInt32.le_iff_toNat_le, Char.reduceVal,
            UInt32.reduceToNat] at hupper
          have hrange : 65 ≤ c.toNat ∧ c.toNat ≤ 90 := hupper
          have hmem := table ⟨c.toNat - 65, by omega⟩
          simp only [Nat.sub_add_cancel hrange.1, Char.ofNat_toNat] at hmem
          exact hmem h
        · rw [toLower_of_not_upper c (Bool.eq_false_iff.mpr hupper)] at hfold
          exact hlower c hfold

theorem same_hex_like (c d : Char) (hc : c ∈ hex_digits) (h : SameLetter c d) :
    hex_like d = true := by
  have hlist : ∀ c ∈ hex_digits, foldCase c ∈ "0123456789abcdef".toList := by decide
  rw [hex_like, decide_eq_true_eq, h]
  exact hlist c hc

theorem sep_not_hex (c : Char) (h : sep_char c = true) : hex_like c = false := by
  have hlist : ∀ c ∈ hex_digits, sep_char c = false := by decide
  by_contra hhex
  rw [hlist c (hex_like_mem c (by simpa using hhex))] at h
  cases h

theorem inserted_not_hex (c : Char) (h : inserted c = true) : hex_like c = false := by
  have hlist : ∀ c ∈ hex_digits, inserted c = false := by decide
  by_contra hhex
  rw [hlist c (hex_like_mem c (by simpa using hhex))] at h
  cases h

/-- U+200B alone is both zero-width and a separator of the pattern. -/
theorem zero_width_sep (c : Char) (hzero : zero_width c = true) (hsep : sep_char c = true) :
    c = Char.ofNat 0x200b := by
  have hcodes : c.toNat ∈ [0x200b, 0x200c, 0x200d, 0xfeff, 0x2060, 0x180e, 0x00ad, 0x202a, 0x202b,
      0x202c, 0x202d, 0x202e, 0x2066, 0x2067, 0x2068, 0x2069] := by
    simp only [zero_width, Bool.or_eq_true, Bool.and_eq_true, decide_eq_true_eq, List.mem_cons,
      List.not_mem_nil, or_false] at hzero ⊢
    omega
  have hlist : ∀ n ∈ [0x200b, 0x200c, 0x200d, 0xfeff, 0x2060, 0x180e, 0x00ad, 0x202a, 0x202b,
      0x202c, 0x202d, 0x202e, 0x2066, 0x2067, 0x2068, 0x2069],
      sep_char (Char.ofNat n) = true → n = 0x200b := by decide
  have hc : Char.ofNat c.toNat = c := Char.ofNat_toNat c
  rw [← hc, hlist c.toNat hcodes (by rwa [hc])]

/-! ## A match is the whole text -/

section Whole
variable (py : Runtime) {hex text : Str}

theorem fuzzy_count {digits w : Str} (hlen : digits.length = 32)
    (hdigits : ∀ c ∈ digits, c ∈ hex_digits) (h : FuzzyText digits w) :
    w.countP hex_like = 32 := by
  rw [← hlen]
  exact spread_count hex_like digits w h (fun c hc d hd => same_hex_like c d (hdigits c hc) hd)
    sep_not_hex

theorem obfuscated_count (hlen : hex.length = 32) (hhex : ∀ c ∈ hex, c ∈ hex_digits)
    (h : Obfuscated hex text) : text.countP hex_like = 32 := by
  rw [← hlen]
  exact spread_count hex_like hex text h
    (fun c hc d hd => hd ▸ same_hex_like c c (hhex c hc) rfl) inserted_not_hex

/-- What holds all hexadecimal digits of the text is the text. -/
theorem whole_of_count (hlen : hex.length = 32) (hhex : ∀ c ∈ hex, c ∈ hex_digits)
    (h : Obfuscated hex text) (u w v : Str) (huv : text = u ++ (w ++ v))
    (hw : w.countP hex_like = 32) : u = [] ∧ v = [] := by
  have hne : hex ≠ [] := List.ne_nil_of_length_pos (by omega)
  have hcount := obfuscated_count hlen hhex h
  rw [huv, List.countP_append, List.countP_append, hw] at hcount
  obtain ⟨⟨c, hc, x, t, hx, hfront⟩, e, he, t', y, hy, hback⟩ := spread_outer hex text h hne
  constructor
  · cases u with
    | nil => rfl
    | cons d u =>
      have hd : d = x := (List.cons.inj (huv.symm.trans hfront)).1
      rw [List.countP_cons_of_pos (by rw [hd, hx]; exact same_hex_like c c (hhex c hc) rfl)]
        at hcount
      omega
  · rcases List.eq_nil_or_concat v with rfl | ⟨v, d, rfl⟩
    · rfl
    · rw [List.concat_eq_append] at huv hcount
      have hlast : u ++ (w ++ v) ++ [d] = t' ++ [y] := by
        rw [← hback, huv]
        simp
      have hd : d = y := (List.append_inj' hlast rfl).2 |> List.cons.inj |>.1
      rw [List.countP_append, List.countP_singleton,
        if_pos (by rw [hd, hy]; exact same_hex_like e e (hhex e he) rfl)] at hcount
      omega

/-- A match of the pattern of any token takes the text from its start to its end. -/
theorem fuzzy_ends_whole {digits : Str} (hdlen : digits.length = 32)
    (hdigits : ∀ c ∈ digits, c ∈ hex_digits) (hlen : hex.length = 32)
    (hhex : ∀ c ∈ hex, c ∈ hex_digits) (h : Obfuscated hex text) (p q : Pos)
    (hp : Substitution.text p = text)
    (hq : q ∈ ends py.word (fuzzy_pattern (CANARY_PREFIX ++ digits)) p) :
    p = ⟨[], text⟩ ∧ q = ⟨text.reverse, []⟩ ∧ FuzzyText digits text := by
  obtain ⟨w, hw, hread, _⟩ := ((fuzzy_describes py.word digits hdlen).ends_iff p q).mp hq
  have hsplit : text = p.before.reverse ++ (w ++ q.after) := by
    rw [← hread.after]
    exact hp.symm
  obtain ⟨hb, ha⟩ := whole_of_count hlen hhex h _ w _ hsplit (fuzzy_count hdlen hdigits hw)
  have hb' : p.before = [] := List.reverse_eq_nil_iff.mp hb
  rw [hb, ha, List.nil_append, List.append_nil] at hsplit
  subst hsplit
  obtain ⟨b, a⟩ := p
  obtain ⟨b', a'⟩ := q
  have hafter := hread.after
  have hbefore := hread.before
  simp only at hb' ha hafter hbefore
  subst hb' ha
  rw [List.append_nil] at hafter hbefore
  rw [hafter, hbefore]
  exact ⟨rfl, rfl, hw⟩

theorem whole_of_leaks {token : Str} (ht : IsToken token) (hlen : hex.length = 32)
    (hhex : ∀ c ∈ hex, c ∈ hex_digits) (h : Obfuscated hex text) (hleak : Leaks py token text) :
    Taken py.word (fuzzy_pattern token) ⟨[], text⟩ ⟨text.reverse, []⟩ ∧
      ∀ c ∈ text, zero_width c = true → c = Char.ofNat 0x200b := by
  obtain ⟨digits, rfl, hdlen, hdigits⟩ := ht
  obtain ⟨p, q, hp, hq⟩ := hleak
  obtain ⟨rfl, rfl, hfuzzy⟩ := fuzzy_ends_whole py hdlen hdigits hlen hhex h p q hp hq
  constructor
  · obtain ⟨q', hq'⟩ := describes_taken py.word (fuzzy_describes py.word digits hdlen) hq
    obtain ⟨_, rfl, _⟩ := fuzzy_ends_whole py hdlen hdigits hlen hhex h _ q' hp
      (taken_mem py.word _ _ q' hq')
    exact hq'
  · intro c hc hzero
    rcases spread_chars digits text hfuzzy c hc with ⟨d, hd, hsame⟩ | hsep
    · have hnot := inserted_not_hex c (by simp [inserted, hzero])
      rw [same_hex_like d c (hdigits d hd) hsame] at hnot
      cases hnot
    · exact zero_width_sep c hzero hsep

/-- Only the mark is left of such a text. -/
theorem cleaned_whole {token : Str}
    (h : Taken py.word (fuzzy_pattern token) ⟨[], text⟩ ⟨text.reverse, []⟩) :
    cleaned py token text = redacted_mark := by
  have hfirst : sub py.word (fuzzy_pattern token) redacted_mark text = redacted_mark := by
    rw [sub, subFrom_taken py.word _ redacted_mark _ _ _ h, subFrom_end, List.append_nil]
  have hnone : ¬ Occurs py.word fuzzy_prefix_pattern redacted_mark := by
    rintro ⟨p, q, hp, hq⟩
    obtain ⟨w, ⟨letters, gap, mark, rfl, hletters, _, hmark⟩, hread, _⟩ :=
      ((prefix_describes py.word).ends_iff p q).mp hq
    have hcnry := spread_length _ _ hletters
    have hten := congrArg List.length hmark
    have hlen := congrArg List.length hp
    rw [Substitution.text, hread.after] at hlen
    simp only [List.length_append, List.length_map] at hlen hten
    rw [show redacted_mark.length = 10 from rfl] at hlen hten
    rw [show ("cnry".toList).length = 4 from rfl] at hcnry
    omega
  rw [cleaned, hfirst, (sub_of_no_match py.word _ redacted_mark redacted_mark hnone).1]

theorem mark_clean {token : Str} (ht : IsToken token) : ¬ Leaks py token redacted_mark := by
  obtain ⟨digits, rfl, hdlen, _⟩ := ht
  rintro ⟨p, q, hp, hq⟩
  obtain ⟨w, hw, hread, _⟩ := ((fuzzy_describes py.word digits hdlen).ends_iff p q).mp hq
  have hlong := spread_length digits w hw
  have hlen := congrArg List.length hp
  rw [Substitution.text, hread.after] at hlen
  simp only [List.length_append] at hlen
  rw [show redacted_mark.length = 10 from rfl] at hlen
  omega

theorem detected_whole (tokens : List Str) (htokens : ∀ t ∈ tokens, IsToken t)
    (hlen : hex.length = 32) (hhex : ∀ c ∈ hex, c ∈ hex_digits) (h : Obfuscated hex text)
    (hleak : ∃ t ∈ tokens, Leaks py t text) : detected py tokens text = (true, redacted_mark) := by
  induction tokens with
  | nil =>
    obtain ⟨t, ht, _⟩ := hleak
    cases ht
  | cons t tokens ih =>
    have hrest : ∀ u ∈ tokens, IsToken u := fun u hu => htokens u (List.mem_cons_of_mem t hu)
    have ht := htokens t List.mem_cons_self
    rw [detected, List.foldl_cons]
    by_cases hone : Leaks py t text
    · obtain ⟨htaken, _⟩ := whole_of_leaks py ht hlen hhex h hone
      rw [redact_leaking py _ hone, cleaned_whole py htaken]
      exact fold_clean py tokens hrest _ (fun u hu => mark_clean py (hrest u hu))
    · rw [redact_clean py ht _ hone]
      refine ih hrest ?_
      obtain ⟨u, hu, hin⟩ := hleak
      rcases List.mem_cons.mp hu with rfl | hu
      · exact absurd hin hone
      · exact ⟨u, hu, hin⟩

end Whole

/-- The digits of a token with inserted characters between them are reported and removed
exactly where no zero-width character but U+200B was inserted. -/
theorem obfuscated_token_redacted_iff (py : Runtime) (tokens : List Str)
    (htokens : ∀ t ∈ tokens, IsToken t) (hex text : Str) (hmem : CANARY_PREFIX ++ hex ∈ tokens)
    (h : Obfuscated hex text) :
    detected py tokens text = (true, redacted_mark) ↔
      ∀ c ∈ text, zero_width c = true → c = Char.ofNat 0x200b := by
  obtain ⟨digits, hdigits, hlen, hhex⟩ := htokens _ hmem
  obtain rfl := List.append_cancel_left hdigits
  constructor
  · intro hfound c hc hzero
    have hleak := (detected_leak py tokens htokens text).mp (congrArg Prod.fst hfound)
    obtain ⟨t, ht, hin⟩ := hleak
    exact (whole_of_leaks py (htokens t ht) hlen hhex h hin).2 c hc hzero
  · intro hplain
    have hfuzzy : FuzzyText hex text := by
      refine spread_mono hex text h (fun c d hd => congrArg foldCase hd) ?_
      intro y hy hins
      simp only [inserted, Bool.or_eq_true] at hins
      rcases hins with (hspace | hdash) | hzero
      · simp [sep_char, hspace]
      · simp only [oneOf, List.mem_cons, List.not_mem_nil, or_false, decide_eq_true_eq] at hdash
        rcases hdash with rfl | rfl | rfl <;> decide
      · rw [hplain y hy hzero]
        decide
    have hread : Reads ⟨[], text⟩ text ⟨text.reverse, []⟩ := ⟨by simp, by simp⟩
    have hleak : Leaks py (CANARY_PREFIX ++ hex) text :=
      ⟨⟨[], text⟩, ⟨text.reverse, []⟩, rfl, ((fuzzy_describes py.word hex hlen).ends_iff _ _).mpr
        ⟨text, hfuzzy, hread, by simp⟩⟩
    exact detected_whole py tokens htokens hlen hhex h ⟨_, hmem, hleak⟩

theorem obfuscated_intersperse (c : Char) (hc : inserted c = true) (hex : Str) :
    Obfuscated hex (hex.intersperse c) := by
  induction hex using spread.induct with
  | case1 => rfl
  | case2 d => exact ⟨d, rfl, rfl⟩
  | case3 d e s ih =>
    rw [List.intersperse_cons_cons]
    exact ⟨d, [c], _, rfl, rfl, by simpa using hc, ih⟩

def sampleDigits : Str := "00112233445566778899aabbccddeeff".toList

/-- The digits of the sample token, one character between any two. -/
def joined (c : Char) : Str := sampleDigits.intersperse c

theorem zero_width_joined_redacted :
    detected asciiRuntime [sampleToken] (joined (Char.ofNat 0x200b)) = (true, redacted_mark) :=
  (obfuscated_token_redacted_iff asciiRuntime [sampleToken] sampleToken_isToken sampleDigits
    (joined (Char.ofNat 0x200b)) (by decide) (obfuscated_intersperse _ (by decide) _)).mpr
    (by decide)

/-- Joined by U+200C the digits pass. -/
theorem non_joiner_passes :
    IsToken sampleToken ∧ Obfuscated sampleDigits (joined (Char.ofNat 0x200c)) ∧
      detected asciiRuntime [sampleToken] (joined (Char.ofNat 0x200c)) =
        (false, joined (Char.ofNat 0x200c)) := by
  have hobfuscated : Obfuscated sampleDigits (joined (Char.ofNat 0x200c)) :=
    obfuscated_intersperse _ (by decide) _
  refine ⟨sampleToken_isToken _ List.mem_cons_self, hobfuscated, ?_⟩
  refine fold_clean asciiRuntime [sampleToken] sampleToken_isToken (false, _) ?_
  intro t ht hleak
  have honly := (whole_of_leaks asciiRuntime (sampleToken_isToken t ht) (by decide) (by decide)
    hobfuscated hleak).2
  exact absurd (honly (Char.ofNat 0x200c) (by decide) (by decide)) (by decide)

end AigentSquad.CanaryObfuscation
