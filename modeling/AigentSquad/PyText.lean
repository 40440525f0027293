import Mathlib.Data.List.Basic
import Mathlib.Data.List.Infix
import Mathlib.Data.Rat.Floor

/-!
# Text

Python strings as lists of code points, with the string methods whose result
does not depend on the Unicode case tables. Whitespace and line boundaries are
the sets the language fixes. Floats are exact rationals; `fixed` is their
`:.nf` rendering. `Runtime` carries the Unicode tables, with what they say of
ASCII.
-/

set_option autoImplicit false

namespace AigentSquad.PyText

abbrev Str := List Char

/-- A bounded statement is decided by its list, not by going through all characters. -/
instance (priority := 2000) decidable_mem (s : Str) (p : Char → Prop) [DecidablePred p] :
    Decidable (∀ c ∈ s, p c) := List.decidableBAll p s

instance lawful_text : LawfulBEq Str := inferInstance

def isspace (c : Char) : Bool :=
  c.val ∈ [0x09, 0x0A, 0x0B, 0x0C, 0x0D, 0x1C, 0x1D, 0x1E, 0x1F, 0x20, 0x85, 0xA0, 0x1680,
    0x2028, 0x2029, 0x202F, 0x205F, 0x3000] || (0x2000 ≤ c.val && c.val ≤ 0x200A)

def isLineBreak (c : Char) : Bool :=
  c.val ∈ [0x0A, 0x0B, 0x0C, 0x0D, 0x1C, 0x1D, 0x1E, 0x85, 0x2028, 0x2029]

def lstrip (s : Str) : Str := s.dropWhile isspace

def rstrip (s : Str) : Str := (s.reverse.dropWhile isspace).reverse

def strip (s : Str) : Str := rstrip (lstrip s)

/-- `cr` tells that the previous character was a carriage return, so that
`\r\n` is one boundary; `acc` is the current line, reversed. -/
def linesFrom : Bool → Str → Str → List Str
  | _, acc, [] => if acc.isEmpty then [] else [acc.reverse]
  | cr, acc, c :: cs =>
    if cr && c == '\n' then linesFrom false [] cs
    else if isLineBreak c then acc.reverse :: linesFrom (c == '\r') [] cs
    else linesFrom false (c :: acc) cs

def splitlines (s : Str) : List Str := linesFrom false [] s

def wordsFrom : Str → Str → List Str
  | acc, [] => if acc.isEmpty then [] else [acc.reverse]
  | acc, c :: cs =>
    if isspace c then
      if acc.isEmpty then wordsFrom [] cs else acc.reverse :: wordsFrom [] cs
    else wordsFrom (c :: acc) cs

def split (s : Str) : List Str := wordsFrom [] s

def join (sep : Str) : List Str → Str
  | [] => []
  | [x] => x
  | x :: y :: ys => x ++ sep ++ join sep (y :: ys)

/-- `needle in hay` -/
def isIn (needle hay : Str) : Bool := decide (needle <:+: hay)

def startswith (s p : Str) : Bool := p.isPrefixOf s

def strNat (n : Nat) : Str := Nat.toDigits 10 n

def strInt (i : Int) : Str :=
  match i with
  | .ofNat n => strNat n
  | .negSucc n => '-' :: strNat (n + 1)

def roundHalfEven (q : ℚ) : Int :=
  let d := q - ⌊q⌋
  if d < 1 / 2 then ⌊q⌋
  else if 1 / 2 < d then ⌊q⌋ + 1
  else if ⌊q⌋ % 2 = 0 then ⌊q⌋ else ⌊q⌋ + 1

def fixed (digits : Nat) (q : ℚ) : Str :=
  let k := (roundHalfEven ((if q < 0 then -q else q) * 10 ^ digits)).toNat
  let frac := strNat (k % 10 ^ digits)
  let body := if digits = 0 then strNat k
    else strNat (k / 10 ^ digits) ++ '.' :: (List.replicate (digits - frac.length) '0' ++ frac)
  if q < 0 then '-' :: body else body

def isAscii (c : Char) : Bool := c.toNat < 128

/-- The character tables of the interpreter and its float printing. -/
structure Runtime where
  /-- how `json` prints the float read from a numeral -/
  float_repr : Str → Str
  lower : Char → Str
  cased : Char → Bool
  case_ignorable : Char → Bool
  /-- `\w` -/
  word : Char → Bool
  /-- the value of a decimal digit -/
  decimal : Char → Option Nat
  printable : Char → Bool
  lower_ascii : ∀ c, isAscii c → lower c = [c.toLower]
  /-- outside the letters no character lowers to an ASCII one but itself -/
  lower_only : ∀ c d, d ∈ lower c → isAscii d → d.isLower = false → d = c
  cased_ascii : ∀ c, isAscii c → cased c = c.isAlpha
  case_ignorable_ascii : ∀ c, isAscii c →
    case_ignorable c = decide (c ∈ ['\'', '.', ':', '^', '`'])
  word_ascii : ∀ c, isAscii c → word c = (c.isAlphanum || c == '_')
  decimal_ascii : ∀ c, isAscii c →
    decimal c = if c.isDigit then some (c.toNat - '0'.toNat) else none
  printable_ascii : ∀ c, isAscii c → printable c = decide (' ' ≤ c ∧ c ≤ '~')
  space_caseless : ∀ c, isspace c → cased c = false ∧ case_ignorable c = false ∧ lower c = [c]

/-- `\d` -/
def digit (py : Runtime) : Char → Bool := fun c => (py.decimal c).isSome

/-- A capital sigma after a cased letter and before none, ignorables skipped. -/
def finalSigma (py : Runtime) (before after : Str) : Bool :=
  (before.dropWhile py.case_ignorable).head?.any py.cased &&
    !(after.dropWhile py.case_ignorable).head?.any py.cased

def lowerFrom (py : Runtime) : Str → Str → Str
  | _, [] => []
  | before, c :: cs =>
    (if c = 'Σ' then (if finalSigma py before cs then ['ς'] else ['σ']) else py.lower c) ++
      lowerFrom py (c :: before) cs

/-- `str.lower` -/
def lower (py : Runtime) (s : Str) : Str := lowerFrom py [] s

theorem strNat_digits (n : Nat) : ∀ c ∈ strNat n, c.isDigit = true :=
  fun _ hc => Nat.isDigit_of_mem_toDigits (by decide) (by decide) hc

theorem strNat_injective (n m : Nat) (h : strNat n = strNat m) : n = m := by
  have hread := congrArg (fun ds => Nat.ofDigitChars 10 ds 0) h
  simpa [strNat] using hread

theorem rstrip_append (p s : Str) (hne : p ≠ [])
    (hlast : ∀ c ∈ p.getLast?, isspace c = false) : rstrip (p ++ s) = p ++ rstrip s := by
  obtain ⟨p, c, rfl⟩ := List.eq_nil_or_concat p |>.resolve_left hne
  have hc : isspace c = false := hlast c (by simp)
  rw [rstrip, rstrip, List.reverse_append, List.dropWhile_append]
  split
  · next hempty => simp [List.isEmpty_iff.mp hempty, hc]
  · simp

/-- Stripping leaves alone what starts and ends in no space. -/
theorem strip_append (p s : Str) (hne : p ≠ []) (hfirst : ∀ c ∈ p.head?, isspace c = false)
    (hlast : ∀ c ∈ p.getLast?, isspace c = false) : strip (p ++ s) = p ++ rstrip s := by
  have hleft : lstrip (p ++ s) = p ++ s := by
    obtain ⟨c, p, rfl⟩ := List.exists_cons_of_ne_nil hne
    simp [lstrip, hfirst c rfl]
  rw [strip, hleft, rstrip_append p s hne hlast]

theorem lstrip_head (s : Str) : ∀ c ∈ (lstrip s).head?, isspace c = false := by
  intro c hc
  have hnot := List.head?_dropWhile_not isspace s
  rw [Option.mem_def, lstrip] at hc
  rw [hc] at hnot
  simpa using hnot

theorem rstrip_last (s : Str) : ∀ c ∈ (rstrip s).getLast?, isspace c = false := by
  intro c hc
  rw [rstrip, List.getLast?_reverse] at hc
  exact lstrip_head s.reverse c hc

theorem rstrip_prefix (s : Str) : rstrip s <+: s := by
  have h := List.dropWhile_suffix isspace (l := s.reverse)
  rw [← List.reverse_prefix, List.reverse_reverse] at h
  exact h

theorem strip_head (s : Str) : ∀ c ∈ (strip s).head?, isspace c = false := by
  intro c hc
  obtain ⟨t, ht⟩ := List.head?_eq_some_iff.mp hc
  obtain ⟨u, hu⟩ := rstrip_prefix (lstrip s)
  rw [strip] at ht
  refine lstrip_head s c ?_
  rw [← hu, ht]
  rfl

/-- No space stands at an end. -/
theorem strip_eq_self_iff (s : Str) :
    strip s = s ↔ (∀ c ∈ s.head?, isspace c = false) ∧ ∀ c ∈ s.getLast?, isspace c = false := by
  constructor
  · intro h
    rw [← h]
    exact ⟨strip_head s, rstrip_last _⟩
  · rintro ⟨hhead, hlast⟩
    by_cases hs : s = []
    · subst hs
      rfl
    · have h := strip_append s [] hs hhead hlast
      rwa [List.append_nil, show rstrip [] = [] from rfl, List.append_nil] at h

theorem strip_strip (s : Str) : strip (strip s) = strip s :=
  (strip_eq_self_iff _).mpr ⟨strip_head s, rstrip_last _⟩

theorem mem_of_mem_strip (s : Str) (c : Char) (h : c ∈ strip s) : c ∈ s :=
  (List.dropWhile_suffix isspace).subset (( rstrip_prefix (lstrip s)).subset h)

/-- A text's first character, if no space, begins its first line. -/
theorem isspace_of_isLineBreak (c : Char) (h : isLineBreak c = true) : isspace c = true := by
  simp only [isLineBreak, List.mem_cons, List.not_mem_nil, or_false, decide_eq_true_eq] at h
  simp only [isspace, List.mem_cons, List.not_mem_nil, or_false, Bool.or_eq_true,
    decide_eq_true_eq]
  tauto

theorem not_break_of_not_space (c : Char) (h : isspace c = false) : isLineBreak c = false := by
  by_contra hbreak
  rw [isspace_of_isLineBreak c (by simpa using hbreak)] at h
  cases h

theorem linesFrom_head (c : Char) (s acc : Str) (h : acc.getLast? = some c) :
    ∃ line lines, linesFrom false acc s = (c :: line) :: lines := by
  have hrev : ∃ line, acc.reverse = c :: line := by
    rw [← List.head?_reverse] at h
    exact List.head?_eq_some_iff.mp h
  obtain ⟨line, hline⟩ := hrev
  induction s generalizing acc line with
  | nil =>
    have hne : acc ≠ [] := by
      rintro rfl
      cases h
    exact ⟨line, [], by simp [linesFrom, hne, hline]⟩
  | cons d s ih =>
    simp only [linesFrom, Bool.false_and, Bool.false_eq_true, if_false]
    split
    · exact ⟨line, _, by rw [hline]⟩
    · refine ih (d :: acc) ?_ (line ++ [d]) (by simp [hline])
      rw [List.getLast?_cons, h]
      rfl

theorem splitlines_head (c : Char) (s : Str) (hc : isLineBreak c = false) :
    ∃ line lines, splitlines (c :: s) = (c :: line) :: lines := by
  have h := linesFrom_head c s [c] rfl
  rwa [splitlines, linesFrom, if_neg (by simp), if_neg (by simp [hc])]

theorem wordsFrom_acc (s acc : Str) (hacc : acc ≠ []) :
    ∃ word words, wordsFrom acc s = word :: words ∧ acc.reverse <+: word := by
  induction s generalizing acc with
  | nil => exact ⟨acc.reverse, [], by simp [wordsFrom, hacc], List.prefix_rfl⟩
  | cons c s ih =>
    by_cases hc : isspace c = true
    · exact ⟨acc.reverse, wordsFrom [] s, by simp [wordsFrom, hc, hacc], List.prefix_rfl⟩
    · obtain ⟨word, words, hwords, hpre⟩ := ih (c :: acc) (by simp)
      refine ⟨word, words, by simpa [wordsFrom, hc] using hwords, ?_⟩
      rw [List.reverse_cons] at hpre
      exact (List.prefix_append _ _).trans hpre

@[simp] theorem isIn_iff (needle hay : Str) : isIn needle hay = true ↔ needle <:+: hay := by
  simp [isIn]

@[simp] theorem join_nil (sep : Str) : join sep [] = [] := rfl

@[simp] theorem join_one (sep x : Str) : join sep [x] = x := rfl

theorem join_cons_cons (sep x y : Str) (ys : List Str) :
    join sep (x :: y :: ys) = x ++ sep ++ join sep (y :: ys) := rfl

theorem join_cons (sep x : Str) (xs : List Str) (h : xs ≠ []) :
    join sep (x :: xs) = x ++ sep ++ join sep xs := by
  cases xs with
  | nil => exact absurd rfl h
  | cons y ys => rfl

theorem join_eq_intercalate (sep : Str) (xs : List Str) : join sep xs = sep.intercalate xs := by
  induction xs with
  | nil => rfl
  | cons x xs ih =>
    cases xs with
    | nil => simp
    | cons y ys =>
      rw [join_cons_cons, ih]
      simp [List.intercalate]

/-- A text without `stop` that occurs in a concatenation around `stop` occurs
on one side of it. -/
theorem infix_around_stop (w a b : Str) (stop : Char) (h : stop ∉ w) :
    w <:+: a ++ stop :: b ↔ w <:+: a ∨ w <:+: b := by
  constructor
  · intro hw
    rcases List.infix_append_iff.mp hw with ha | hb | ⟨u, v, rfl, hu, hv⟩
    · exact .inl ha
    · rcases List.infix_cons_iff.mp hb with hp | hb
      · rcases List.prefix_cons_iff.mp hp with rfl | ⟨t, rfl, _⟩
        · exact .inl (List.nil_infix)
        · simp at h
      · exact .inr hb
    · rcases List.prefix_cons_iff.mp hv with rfl | ⟨t, rfl, _⟩
      · exact .inl (by simpa using hu.isInfix)
      · simp at h
  · rintro (ha | hb)
    · exact List.infix_append_of_infix_left ha
    · exact List.infix_append_of_infix_right (List.infix_cons hb)

theorem infix_after_sep (w sep b : Str) (hw : w ≠ []) (h : ∀ c ∈ sep, c ∉ w) :
    w <:+: sep ++ b ↔ w <:+: b := by
  induction sep with
  | nil => simp
  | cons c sep ih =>
    have hc := infix_around_stop w [] (sep ++ b) c (h c (by simp))
    rw [List.nil_append] at hc
    rw [List.cons_append, hc, ih (fun d hd => h d (by simp [hd]))]
    simp [hw]

/-- A nonempty text that shares no character with the separator occurs in a
join only inside one of the parts. -/
theorem infix_join_iff (w sep : Str) (xs : List Str) (hw : w ≠ []) (hs : sep ≠ [])
    (h : ∀ c ∈ sep, c ∉ w) : w <:+: join sep xs ↔ ∃ x ∈ xs, w <:+: x := by
  obtain ⟨c, cs, rfl⟩ := List.exists_cons_of_ne_nil hs
  induction xs with
  | nil => simp [hw]
  | cons x xs ih =>
    by_cases hx : xs = []
    · subst hx
      simp
    · rw [join_cons _ _ _ hx, List.append_assoc, List.cons_append,
        infix_around_stop w x _ c (h c (by simp)),
        infix_after_sep w cs _ hw (fun d hd => h d (by simp [hd])), ih]
      simp

/-- A character at which lower-casing a text splits. -/
structure Boundary (py : Runtime) (c : Char) : Prop where
  not_sigma : c ≠ 'Σ'
  not_cased : py.cased c = false
  not_ignorable : py.case_ignorable c = false
  fixed : py.lower c = [c]

theorem isAlpha_eq (c : Char) : c.isAlpha = (c.isUpper || c.isLower) := rfl

theorem isUpper_eq (c : Char) :
    c.isUpper = decide (c.val ≥ 'A'.val ∧ c.val ≤ 'Z'.val) := rfl

theorem isLower_eq (c : Char) :
    c.isLower = (decide (c.val ≥ 'a'.val) && decide (c.val ≤ 'z'.val)) := rfl

theorem toLower_of_not_upper (c : Char) (h : c.isUpper = false) : c.toLower = c := by
  rw [isUpper_eq, decide_eq_false_iff_not] at h
  exact dif_neg h

theorem toLower_of_upper (c : Char) (h : c.isUpper = true) :
    c.toLower.val = c.val + ('a'.val - 'A'.val) := by
  rw [isUpper_eq, decide_eq_true_eq] at h
  exact congrArg Char.val (dif_pos h)

theorem not_upper_of_not_letter (c : Char) (h : c.isAlpha = false) : c.isUpper = false := by
  rw [isAlpha_eq, Bool.or_eq_false_iff] at h
  exact h.1

theorem boundary_of_ascii (py : Runtime) (c : Char) (ha : isAscii c)
    (hletter : c.isAlpha = false) (hi : c ∉ ['\'', '.', ':', '^', '`']) : Boundary py c where
  not_sigma := by
    rintro rfl
    simp [isAscii] at ha
  not_cased := by rw [py.cased_ascii c ha, hletter]
  not_ignorable := by rw [py.case_ignorable_ascii c ha, decide_eq_false hi]
  fixed := by
    rw [py.lower_ascii c ha, toLower_of_not_upper c (not_upper_of_not_letter c hletter)]

theorem boundary_of_space (py : Runtime) (c : Char) (h : isspace c = true) : Boundary py c where
  not_sigma := by
    rintro rfl
    exact absurd h (by decide)
  not_cased := (py.space_caseless c h).1
  not_ignorable := (py.space_caseless c h).2.1
  fixed := (py.space_caseless c h).2.2

/-- Skipping `p` from the left, a `q` is met before the stop or not at all. -/
theorem seen_before_stop (p q : Char → Bool) (c : Char) (u v : Str) (hp : p c = false)
    (hq : q c = false) :
    ((u ++ c :: v).dropWhile p).head?.any q = (u.dropWhile p).head?.any q := by
  induction u with
  | nil => simp [hp, hq]
  | cons d u ih =>
    cases hd : p d with
    | true => simpa [hd] using ih
    | false => simp [hd]

theorem lowerFrom_before (py : Runtime) (c : Char) (hc : Boundary py c) (s u v : Str) :
    lowerFrom py (u ++ c :: v) s = lowerFrom py u s := by
  induction s generalizing u with
  | nil => rfl
  | cons d s ih =>
    have hf : finalSigma py (u ++ c :: v) s = finalSigma py u s := by
      rw [finalSigma, finalSigma,
        seen_before_stop _ _ c u v hc.not_ignorable hc.not_cased]
    have hi := ih (d :: u)
    rw [List.cons_append] at hi
    rw [lowerFrom, lowerFrom, hf, hi]

theorem lowerFrom_stop (py : Runtime) (c : Char) (hc : Boundary py c) (a b before : Str) :
    lowerFrom py before (a ++ c :: b) = lowerFrom py before a ++ c :: lowerFrom py [] b := by
  induction a generalizing before with
  | nil =>
    have hb := lowerFrom_before py c hc b [] before
    rw [List.nil_append] at hb
    simp [lowerFrom, hc.not_sigma, hc.fixed, hb]
  | cons d a ih =>
    have hf : finalSigma py before (a ++ c :: b) = finalSigma py before a := by
      rw [finalSigma, finalSigma,
        seen_before_stop _ _ c a b hc.not_ignorable hc.not_cased]
    rw [List.cons_append, lowerFrom, lowerFrom, hf, ih, List.append_assoc]

/-- An ASCII character that is no lower-case letter is in a lowered text only
if it is in the text. -/
theorem mem_of_mem_lower (py : Runtime) (s : Str) (d : Char) (ha : isAscii d)
    (hl : d.isLower = false) (h : d ∈ lower py s) : d ∈ s := by
  have go : ∀ (s before : Str), d ∈ lowerFrom py before s → d ∈ s := by
    intro s
    induction s with
    | nil => exact fun _ h => h
    | cons c s ih =>
      intro before h
      rw [lowerFrom, List.mem_append] at h
      rcases h with h | h
      · by_cases hc : c = 'Σ'
        · exfalso
          rw [if_pos hc] at h
          split at h
          · rw [List.mem_singleton.mp h] at ha
            simp [isAscii] at ha
          · rw [List.mem_singleton.mp h] at ha
            simp [isAscii] at ha
        · rw [if_neg hc] at h
          exact List.mem_cons.mpr (.inl (py.lower_only c d h ha hl))
      · exact List.mem_cons_of_mem c (ih _ h)
  exact go s [] h

theorem toLower_ascii (c : Char) (ha : isAscii c) (h : c.toLower.isLower = false) :
    c.toLower = c := by
  have table : ∀ n : Fin 128, (Char.ofNat n).toLower.isLower = false →
      (Char.ofNat n).toLower = Char.ofNat n := by decide
  have hc := table ⟨c.toNat, by simpa [isAscii] using ha⟩
  simp only [Char.ofNat_toNat] at hc
  exact hc h

/-- No space is among the printing characters of ASCII. -/
theorem space_code (c : Char) (h : isspace c = true) : c.val.toNat ≤ 32 ∨ 133 ≤ c.val.toNat := by
  simp only [isspace, List.mem_cons, List.not_mem_nil, or_false, Bool.or_eq_true,
    decide_eq_true_eq, Bool.and_eq_true, UInt32.le_iff_toNat_le, ← UInt32.toNat_inj] at h
  simp only [UInt32.reduceToNat] at h
  omega

theorem space_not_letter (c : Char) (h : isspace c = true) : c.isAlpha = false := by
  by_contra hletter
  have hrange : (65 ≤ c.val.toNat ∧ c.val.toNat ≤ 90) ∨ (97 ≤ c.val.toNat ∧ c.val.toNat ≤ 122) := by
    simp only [isAlpha_eq, isUpper_eq, isLower_eq, Bool.not_eq_false, Bool.or_eq_true, Bool.and_eq_true,
      decide_eq_true_eq, UInt32.le_iff_toNat_le, ge_iff_le] at hletter
    simpa using hletter
  have hcode := space_code c h
  omega

theorem space_not_digit (c : Char) (h : isspace c = true) : c.isDigit = false := by
  by_contra hdigit
  have hrange : 48 ≤ c.val.toNat ∧ c.val.toNat ≤ 57 := by
    simpa [Char.isDigit, UInt32.le_iff_toNat_le] using hdigit
  have hcode := space_code c h
  omega

/-- The tables of a runtime that knows ASCII only. -/
def asciiRuntime : Runtime where
  float_repr := id
  lower c := if isAscii c then [c.toLower] else [c]
  cased c := isAscii c && c.isAlpha
  case_ignorable c := c ∈ ['\'', '.', ':', '^', '`']
  word c := isAscii c && (c.isAlphanum || c == '_')
  decimal c := if isAscii c && c.isDigit then some (c.toNat - '0'.toNat) else none
  printable c := isAscii c && decide (' ' ≤ c ∧ c ≤ '~')
  lower_ascii c h := by simp [h]
  lower_only c d h ha hl := by
    split at h
    · next hc =>
      rw [List.mem_singleton] at h
      subst h
      exact toLower_ascii c hc hl
    · simpa using h
  cased_ascii c h := by simp [h]
  case_ignorable_ascii c h := rfl
  word_ascii c h := by simp [h]
  decimal_ascii c h := by simp [h]
  printable_ascii c h := by simp [h]
  space_caseless c h := by
    have hletter := space_not_letter c h
    refine ⟨by simp [hletter], ?_, ?_⟩
    · refine decide_eq_false (fun hmem => ?_)
      simp only [List.mem_cons, List.not_mem_nil, or_false] at hmem
      rcases hmem with rfl | rfl | rfl | rfl | rfl <;> exact absurd h (by decide)
    · have hlower := toLower_of_not_upper c (not_upper_of_not_letter c hletter)
      simp [hlower]

end AigentSquad.PyText
