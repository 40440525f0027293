import AigentSquad.PyJson

/-!
# Reading strings and numbers

`json.loads` on what `json.dumps` writes of a string, with either setting of
`ensure_ascii`, and on numerals in front of whatever may follow a value.
-/

set_option autoImplicit false

namespace AigentSquad.PyJson
open AigentSquad.PyText

theorem hexValue_digitChar : ∀ k < 16, hexValue (Nat.digitChar k) = some k := by decide

theorem hex4_eq (n : Nat) (h : n < 0x10000) :
    hex4 n = [Nat.digitChar (n / 4096), Nat.digitChar (n / 256 % 16),
      Nat.digitChar (n / 16 % 16), Nat.digitChar (n % 16)] := by
  have hstep : ∀ m, 16 ≤ m → Nat.toDigits 16 m = Nat.toDigits 16 (m / 16) ++
      [Nat.digitChar (m % 16)] := fun m hm => Nat.toDigits_of_base_le (by decide) hm
  have hlast : ∀ m, m < 16 → Nat.toDigits 16 m = [Nat.digitChar m] :=
    fun m hm => Nat.toDigits_of_lt_base hm
  have hzero : Nat.digitChar 0 = '0' := rfl
  unfold hex4
  by_cases h1 : n < 16
  · rw [hlast n h1, show n / 4096 = 0 by omega, show n / 256 % 16 = 0 by omega,
      show n / 16 % 16 = 0 by omega, show n % 16 = n by omega, hzero]
    rfl
  · rw [hstep n (by omega)]
    by_cases h2 : n < 256
    · rw [hlast (n / 16) (by omega), show n / 4096 = 0 by omega, show n / 256 % 16 = 0 by omega,
        show n / 16 % 16 = n / 16 by omega, hzero]
      rfl
    · rw [hstep (n / 16) (by omega), Nat.div_div_eq_div_mul]
      by_cases h3 : n < 4096
      · rw [hlast (n / (16 * 16)) (by omega), show n / 4096 = 0 by omega,
          show n / 256 % 16 = n / (16 * 16) by omega, hzero]
        rfl
      · rw [hstep (n / (16 * 16)) (by omega), Nat.div_div_eq_div_mul,
          hlast (n / (16 * 16 * 16)) (by omega)]
        rfl

theorem hexValue4_hex4 (n : Nat) (h : n < 0x10000) :
    ∃ a b c d, hex4 n = [a, b, c, d] ∧ hexValue4 a b c d = some n := by
  refine ⟨_, _, _, _, hex4_eq n h, ?_⟩
  simp only [hexValue4, hexValue_digitChar (n / 4096) (by omega),
    hexValue_digitChar (n / 256 % 16) (by omega), hexValue_digitChar (n / 16 % 16) (by omega),
    hexValue_digitChar (n % 16) (by omega), Option.pure_def, Option.bind_eq_bind,
    Option.bind_some, Option.some.injEq]
  omega

/-- An escape of one character. -/
theorem scanString_simple (n : Nat) (acc t : Str) (c e : Char)
    (h : (c, e) ∈ [('"', '"'), ('\\', '\\'), ('n', '\n'), ('r', '\r'), ('t', '\t'),
      ('f', Char.ofNat 0x0c), ('b', Char.ofNat 0x08)]) :
    scanString (n + 1) acc ('\\' :: c :: t) = scanString n (e :: acc) t := by
  simp only [List.mem_cons, Prod.mk.injEq, List.not_mem_nil, or_false] at h
  rcases h with ⟨rfl, rfl⟩ | ⟨rfl, rfl⟩ | ⟨rfl, rfl⟩ | ⟨rfl, rfl⟩ | ⟨rfl, rfl⟩ | ⟨rfl, rfl⟩ |
    ⟨rfl, rfl⟩ <;> rfl

theorem scanString_plain (n : Nat) (acc t : Str) (c : Char) (hq : c ≠ '"') (hb : c ≠ '\\')
    (hs : ¬ c.toNat < 0x20) : scanString (n + 1) acc (c :: t) = scanString n (c :: acc) t := by
  rw [scanString]
  · rw [if_neg (not_or.mpr ⟨hb, hs⟩)]
  all_goals simp_all

theorem valid_char (c : Char) : c.toNat < 0xd800 ∨ (0xdfff < c.toNat ∧ c.toNat < 0x110000) := by
  have := c.valid
  simp only [UInt32.isValidChar, Nat.isValidChar] at this
  exact this

theorem scanString_unicode (n : Nat) (acc t : Str) (c : Char) :
    scanString (n + 1) acc (unicodeEscape c.toNat ++ t) = scanString n (c :: acc) t := by
  have hvalid := valid_char c
  unfold unicodeEscape
  by_cases hsmall : c.toNat < 0x10000
  · obtain ⟨a, b, d, e, hhex, hvalue⟩ := hexValue4_hex4 c.toNat hsmall
    rw [if_pos hsmall, hhex]
    change scanString (n + 1) acc ('\\' :: 'u' :: a :: b :: d :: e :: t) = _
    have hhigh : ¬ (0xd800 ≤ c.toNat ∧ c.toNat ≤ 0xdbff) := by omega
    have hcode : codePoint c.toNat = c := by
      rw [codePoint, if_neg (by omega), Char.ofNat_toNat]
    simp [scanString, hvalue, hhigh, hcode]
  · obtain ⟨a, b, d, e, hhigh, hhighValue⟩ :=
      hexValue4_hex4 (0xd800 + (c.toNat - 0x10000) / 0x400) (by omega)
    obtain ⟨a', b', d', e', hlow, hlowValue⟩ :=
      hexValue4_hex4 (0xdc00 + (c.toNat - 0x10000) % 0x400) (by omega)
    rw [if_neg hsmall]
    simp only [hhigh, hlow]
    change scanString (n + 1) acc ('\\' :: 'u' :: a :: b :: d :: e :: '\\' :: 'u' :: a' :: b' ::
      d' :: e' :: t) = _
    have hrange : 0xd800 ≤ 0xd800 + (c.toNat - 0x10000) / 0x400 ∧
        0xd800 + (c.toNat - 0x10000) / 0x400 ≤ 0xdbff := by omega
    have hsurrogate : lowSurrogate ('\\' :: 'u' :: a' :: b' :: d' :: e' :: t) =
        some (0xdc00 + (c.toNat - 0x10000) % 0x400, t) := by
      have hlowRange : 0xdc00 ≤ 0xdc00 + (c.toNat - 0x10000) % 0x400 ∧
          0xdc00 + (c.toNat - 0x10000) % 0x400 ≤ 0xdfff := by omega
      simp only [lowSurrogate, hlowValue]
      rw [if_pos hlowRange]
    have hback : 0x10000 + (0xd800 + (c.toNat - 0x10000) / 0x400 - 0xd800) * 0x400 +
        (0xdc00 + (c.toNat - 0x10000) % 0x400 - 0xdc00) = c.toNat := by omega
    rw [scanString]
    simp only [hhighValue]
    rw [if_pos hrange, hsurrogate]
    simp only [hback, Char.ofNat_toNat]

theorem scanString_escape (ea : Bool) (n : Nat) (acc t : Str) (c : Char) :
    scanString (n + 1) acc (escape ea c ++ t) = scanString n (c :: acc) t := by
  unfold escape
  by_cases hq : c = '"'
  · subst hq
    exact scanString_simple n acc t '"' '"' (by simp)
  by_cases hb : c = '\\'
  · subst hb
    exact scanString_simple n acc t '\\' '\\' (by simp)
  by_cases hn : c = '\n'
  · subst hn
    exact scanString_simple n acc t 'n' '\n' (by simp)
  by_cases hr : c = '\r'
  · subst hr
    exact scanString_simple n acc t 'r' '\r' (by simp)
  by_cases ht : c = '\t'
  · subst ht
    exact scanString_simple n acc t 't' '\t' (by simp)
  rw [if_neg hq, if_neg hb, if_neg hn, if_neg hr, if_neg ht]
  by_cases hf : c.toNat = 0x0c
  · have hc : c = Char.ofNat 0x0c := by rw [← hf, Char.ofNat_toNat]
    rw [if_pos hf, hc]
    exact scanString_simple n acc t 'f' _ (by simp)
  by_cases hbs : c.toNat = 0x08
  · have hc : c = Char.ofNat 0x08 := by rw [← hbs, Char.ofNat_toNat]
    rw [if_neg hf, if_pos hbs, hc]
    exact scanString_simple n acc t 'b' _ (by simp)
  rw [if_neg hf, if_neg hbs]
  by_cases hu : (decide (c.toNat < 0x20) || (ea && decide (0x7e < c.toNat))) = true
  · rw [if_pos hu]
    exact scanString_unicode n acc t c
  · rw [if_neg hu]
    exact scanString_plain n acc t c hq hb (by simp at hu; omega)

theorem scanString_quoted (ea : Bool) (s acc rest : Str) (n : Nat) (h : s.length < n) :
    scanString n acc (s.flatMap (escape ea) ++ '"' :: rest) = .ok (acc.reverse ++ s, rest) := by
  induction s generalizing n acc with
  | nil =>
    cases n with
    | zero => cases h
    | succ n => simp [scanString]
  | cons c s ih =>
    cases n with
    | zero => cases h
    | succ n =>
      rw [List.flatMap_cons, List.append_assoc, scanString_escape,
        ih (c :: acc) n (by simpa using h)]
      simp

theorem escape_ne_nil (ea : Bool) (c : Char) : escape ea c ≠ [] := by
  intro h
  have hscan := scanString_escape ea 1 [] ['"'] c
  rw [h] at hscan
  simp [scanString] at hscan

theorem length_quoted (ea : Bool) (s : Str) : s.length ≤ (s.flatMap (escape ea)).length := by
  induction s with
  | nil => simp
  | cons c s ih =>
    have hpos := List.length_pos_iff.mpr (escape_ne_nil ea c)
    simp only [List.flatMap_cons, List.length_append, List.length_cons]
    omega

/-- The scan of a quoted text, with the fuel its callers give. -/
theorem scanString_quote (ea : Bool) (s rest : Str) :
    scanString ((s.flatMap (escape ea) ++ '"' :: rest).length + 1) []
      (s.flatMap (escape ea) ++ '"' :: rest) = .ok (s, rest) := by
  have hlength := length_quoted ea s
  have hscan := scanString_quoted ea s [] rest
    ((s.flatMap (escape ea) ++ '"' :: rest).length + 1)
    (by simp only [List.length_append, List.length_cons]; omega)
  simpa using hscan

theorem quote_append (ea : Bool) (s rest : Str) :
    quote ea s ++ rest = '"' :: (s.flatMap (escape ea) ++ '"' :: rest) := by
  simp [quote]

theorem scanOnce_quote (py : Runtime) (ea : Bool) (n : Nat) (s rest : Str) :
    scanOnce py (n + 1) (quote ea s ++ rest) = .ok (.str s, rest) := by
  rw [quote_append, scanOnce]
  simp only [scanString_quote]

/-! ## Numbers -/

def isBlank (c : Char) : Bool := c ∈ [' ', '\t', '\n', '\r']

/-- What follows a value: nothing, whitespace, a comma or a closing bracket. -/
def Stops (rest : Str) : Prop := ∀ c ∈ rest.head?, isBlank c = true ∨ c ∈ [',', ']', '\x7d']

theorem Stops.not_numeral {rest : Str} (h : Stops rest) :
    ∀ c ∈ rest.head?, c.isDigit = false ∧ c ∉ ['.', 'e', 'E', '+', '-'] := by
  intro c hc
  have hclosed := h c hc
  simp only [isBlank, List.mem_cons, List.not_mem_nil, or_false, decide_eq_true_eq] at hclosed
  rcases hclosed with (rfl | rfl | rfl | rfl) | (rfl | rfl | rfl) <;> decide

theorem digits_append (s rest : Str) (h : Stops rest) : digits (s ++ rest) = digits s := by
  have hrest : rest.takeWhile Char.isDigit = [] := by
    cases rest with
    | nil => rfl
    | cons c rest => rw [List.takeWhile_cons_of_neg (by simp [(h.not_numeral c rfl).1])]
  unfold digits
  rw [List.takeWhile_append, hrest, List.append_nil]
  split
  · next hlength => exact ((List.takeWhile_prefix _).eq_of_length hlength).symm
  · rfl

theorem integerPart_eq (s : Str) :
    integerPart s = if s.head? = some '0' then ['0'] else digits s := by
  unfold integerPart
  split
  · next t => simp
  · next hne =>
    rw [if_neg]
    intro hhead
    cases s with
    | nil => cases hhead
    | cons c t =>
      rw [List.head?_cons, Option.some.injEq] at hhead
      exact hne t (by rw [hhead])

theorem integerPart_append (s rest : Str) (h : Stops rest) :
    integerPart (s ++ rest) = integerPart s := by
  rw [integerPart_eq, integerPart_eq, digits_append s rest h]
  cases s with
  | nil =>
    rw [List.nil_append, if_neg, if_neg (by simp)]
    intro hhead
    exact absurd (h.not_numeral '0' (by rw [hhead]; rfl)).1 (by decide)
  | cons c t => rfl

theorem fraction_append (s rest : Str) (h : Stops rest) : fraction (s ++ rest) = fraction s := by
  cases s with
  | nil =>
    rw [List.nil_append]
    unfold fraction
    split
    · next t => exact absurd (h.not_numeral '.' rfl).2 (by decide)
    · rfl
  | cons c t =>
    by_cases hc : c = '.'
    · subst hc
      simp only [List.cons_append, fraction, digits_append t rest h]
    · simp [fraction, hc]

/-- The sign of an exponent. -/
def exponentSign (s : Str) : Str :=
  if s.head? = some '+' ∨ s.head? = some '-' then s.take 1 else []

theorem exponent_cons (e : Char) (s : Str) :
    exponent (e :: s) =
      if e = 'e' ∨ e = 'E' then
        if (digits (s.drop (exponentSign s).length)).isEmpty then []
        else e :: (exponentSign s ++ digits (s.drop (exponentSign s).length))
      else [] := by
  cases s with
  | nil => rfl
  | cons c t =>
    by_cases hp : c = '+'
    · subst hp
      rfl
    · by_cases hm : c = '-'
      · subst hm
        rfl
      · simp [exponent, exponentSign, hp, hm]

theorem exponentSign_prefix (s : Str) : exponentSign s <+: s := by
  unfold exponentSign
  split
  · exact List.take_prefix 1 s
  · exact List.nil_prefix

theorem exponentSign_append (s rest : Str) (h : Stops rest) :
    exponentSign (s ++ rest) = exponentSign s := by
  cases s with
  | nil =>
    rw [List.nil_append, exponentSign, if_neg, exponentSign, if_neg (by simp)]
    rintro (hhead | hhead)
    · exact absurd (h.not_numeral '+' (by rw [hhead]; rfl)).2 (by decide)
    · exact absurd (h.not_numeral '-' (by rw [hhead]; rfl)).2 (by decide)
  | cons c t => rfl

theorem drop_past {p s : Str} (h : p <+: s) (rest : Str) :
    (s ++ rest).drop p.length = s.drop p.length ++ rest :=
  List.drop_append_of_le_length h.length_le

theorem exponent_append (s rest : Str) (h : Stops rest) : exponent (s ++ rest) = exponent s := by
  cases s with
  | nil =>
    cases rest with
    | nil => rfl
    | cons c rest =>
      have hc := (h.not_numeral c rfl).2
      rw [List.nil_append, exponent_cons, if_neg]
      · rfl
      · rintro (rfl | rfl)
        · exact absurd hc (by decide)
        · exact absurd hc (by decide)
  | cons e t =>
    rw [List.cons_append, exponent_cons, exponent_cons, exponentSign_append t rest h,
      drop_past ( exponentSign_prefix t), digits_append _ rest h]

theorem integerPart_prefix (s : Str) : integerPart s <+: s := by
  unfold integerPart
  split
  · exact ⟨_, rfl⟩
  · exact List.takeWhile_prefix _

theorem fraction_prefix (s : Str) : fraction s <+: s := by
  unfold fraction
  split
  · next t =>
    split
    · exact List.nil_prefix
    · exact (List.prefix_cons_inj '.').mpr (List.takeWhile_prefix _)
  · exact List.nil_prefix

theorem prefix_and_then {p q s : Str} (hp : p <+: s) (hq : q <+: s.drop p.length) :
    p ++ q <+: s := by
  obtain ⟨u, rfl⟩ := hp
  rw [List.drop_left] at hq
  exact (List.prefix_append_right_inj p).mpr hq

theorem exponent_prefix (s : Str) : exponent s <+: s := by
  cases s with
  | nil => exact List.nil_prefix
  | cons e t =>
    rw [exponent_cons]
    split
    · split
      · exact List.nil_prefix
      · exact (List.prefix_cons_inj e).mpr
          (prefix_and_then ( exponentSign_prefix t) (List.takeWhile_prefix _))
    · exact List.nil_prefix

theorem scanNumber_nonempty (py : Runtime) (s tail : Str) (v : Json)
    (h : scanNumber py s = .ok (v, tail)) : s ≠ [] := by
  rintro rfl
  cases h

/-- A numeral ends where the text in front of the stop ends. -/
theorem scanNumber_append (py : Runtime) (s rest tail : Str) (v : Json) (h : Stops rest)
    (hs : scanNumber py s = .ok (v, tail)) : scanNumber py (s ++ rest) = .ok (v, tail ++ rest) := by
  have hhead : (s ++ rest).head? = s.head? :=
    List.head?_append_of_ne_nil _ (scanNumber_nonempty py s tail v hs)
  have hsign : (if s.head? = some '-' then ['-'] else []) <+: s := by
    cases s with
    | nil => exact List.nil_prefix
    | cons c t =>
      by_cases hc : c = '-'
      · subst hc
        exact ⟨t, rfl⟩
      · simp [hc]
  unfold scanNumber at hs ⊢
  extract_lets sign body whole afterWhole frac afterFrac exp rest₁ at hs
  simp only [hhead, drop_past hsign, integerPart_append _ rest h, fraction_append _ rest h,
    exponent_append _ rest h, drop_past ( integerPart_prefix _), drop_past ( fraction_prefix _),
    drop_past ( exponent_prefix _)]
  split at hs
  · cases hs
  · next hwhole =>
    rw [if_neg hwhole]
    split at hs
    · next hint =>
      rw [if_pos hint]
      split at hs
      · cases hs
      · next hlimit =>
        rw [if_neg hlimit]
        simp only [Except.ok.injEq, Prod.mk.injEq] at hs ⊢
        exact ⟨hs.1, congrArg (· ++ rest) hs.2⟩
    · next hfloat =>
      rw [if_neg hfloat]
      simp only [Except.ok.injEq, Prod.mk.injEq] at hs ⊢
      exact ⟨hs.1, congrArg (· ++ rest) hs.2⟩

/-- Only zero is printed with a zero in front. -/
theorem strNat_head (n : Nat) (h : (strNat n).head? = some '0') : n = 0 := by
  induction n using Nat.base_induction 10 (by decide) with
  | single m hm =>
    rw [strNat, Nat.toDigits_of_lt_base hm, List.head?_cons, Option.some.injEq] at h
    revert m
    decide
  | digit m k hk hm ih =>
    rw [strNat, ← Nat.toDigits_append_toDigits (by decide) hm hk,
      List.head?_append_of_ne_nil _ Nat.toDigits_ne_nil] at h
    exact absurd (ih h) (by omega)

theorem strNat_ne_nil (n : Nat) : strNat n ≠ [] := Nat.toDigits_ne_nil

theorem digits_strNat (n : Nat) : digits (strNat n) = strNat n := by
  have hall : (strNat n ++ []).takeWhile Char.isDigit = strNat n ++ [].takeWhile Char.isDigit :=
    List.takeWhile_append_of_pos (strNat_digits n)
  rwa [List.append_nil, List.takeWhile_nil, List.append_nil] at hall

theorem integerPart_strNat (n : Nat) : integerPart (strNat n) = strNat n := by
  rw [integerPart_eq]
  split
  · next hzero =>
    rw [strNat_head n hzero]
    rfl
  · exact digits_strNat n

theorem numeralValue_strNat (n : Nat) : numeralValue (strNat n) = n := by
  have hfold : ∀ (ds : Str) (m : Nat), ds.foldl (fun n c => n * 10 + (c.toNat - '0'.toNat)) m =
      Nat.ofDigitChars 10 ds m := by
    intro ds
    induction ds with
    | nil => intro m; simp
    | cons c ds ih =>
      intro m
      rw [List.foldl_cons, Nat.ofDigitChars_cons, ih, Nat.mul_comm]
  rw [numeralValue, hfold, strNat, Nat.ofDigitChars_ten_toDigits]

/-- The numbers of digits that `int` reads and prints. -/
def DigitLimit (i : Int) : Prop := (strNat i.natAbs).length ≤ 4300

theorem scanNumber_strNat (py : Runtime) (n : Nat) (h : (strNat n).length ≤ 4300) :
    scanNumber py (strNat n) = .ok (.int n, []) ∧
      scanNumber py ('-' :: strNat n) = .ok (.int (-n), []) := by
  have hsign : (strNat n).head? ≠ some '-' := by
    cases hn : strNat n with
    | nil => simp
    | cons c ds =>
      intro hc
      rw [List.head?_cons, Option.some.injEq] at hc
      have hdigit := strNat_digits n c (by rw [hn]; exact List.mem_cons_self)
      rw [hc] at hdigit
      cases hdigit
  have hne : (strNat n).isEmpty = false := by simp [strNat_ne_nil]
  constructor
  · simp [scanNumber, hsign, integerPart_strNat, hne, fraction, exponent, numeralValue_strNat,
      Nat.not_lt.mpr h]
  · simp [scanNumber, integerPart_strNat, hne, fraction, exponent, numeralValue_strNat,
      Nat.not_lt.mpr h]

theorem scanNumber_int (py : Runtime) (i : Int) (h : DigitLimit i) :
    scanNumber py (strInt i) = .ok (.int i, []) := by
  cases i with
  | ofNat n => exact (scanNumber_strNat py n h).1
  | negSucc n => exact (scanNumber_strNat py (n + 1) h).2

/-- A numeral begins with its sign or a digit, and is no constant. -/
theorem scanNumber_front (py : Runtime) (s tail : Str) (v : Json)
    (h : scanNumber py s = .ok (v, tail)) :
    (∃ c t, s = c :: t ∧ c.isDigit = true) ∨ ∃ c t, s = '-' :: c :: t ∧ c.isDigit = true := by
  have hwhole : ∀ t : Str, (integerPart t).isEmpty = false → ∃ c u, t = c :: u ∧
      c.isDigit = true := by
    intro t ht
    cases t with
    | nil => cases ht
    | cons c u =>
      refine ⟨c, u, rfl, ?_⟩
      by_contra hc
      rw [integerPart_eq, if_neg, digits, List.takeWhile_cons_of_neg hc] at ht
      · cases ht
      · rintro hzero
        rw [List.head?_cons, Option.some.injEq] at hzero
        exact hc (by rw [hzero]; rfl)
  cases s with
  | nil => cases h
  | cons c t =>
    by_cases hc : c = '-'
    · subst hc
      right
      obtain ⟨d, u, rfl, hd⟩ := hwhole t (by
        by_contra hempty
        simp [scanNumber, Bool.not_eq_false _ ▸ hempty] at h)
      exact ⟨d, u, rfl, hd⟩
    · left
      obtain ⟨d, u, heq, hd⟩ := hwhole (c :: t) (by
        by_contra hempty
        simp [scanNumber, hc, Bool.not_eq_false _ ▸ hempty] at h)
      exact ⟨d, u, heq, hd⟩

end AigentSquad.PyJson
