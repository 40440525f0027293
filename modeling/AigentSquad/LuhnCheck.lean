import AigentSquad.CheckDigits
import AigentSquad.OutputFilter

/-!
# The Luhn check

`_luhn_valid` counts places from the left and takes the parity of the length
into account. On card numbers that is the definition from the right, and no
valid number stays valid when one digit is changed.
-/

set_option autoImplicit false

namespace AigentSquad.LuhnCheck
open AigentSquad.PyText AigentSquad.CheckDigits AigentSquad.OutputFilter

def digits (py : Runtime) (candidate : Str) : List ℕ := candidate.filterMap py.decimal

/-- Counted from the right, every second digit doubled, the sum is divisible by ten. -/
def LuhnNumber (ds : List ℕ) : Prop := from_right ds.reverse % 10 = 0

/-- The digits of a candidate are ASCII, as many as a card number has. -/
structure CardDigits (py : Runtime) (candidate : Str) : Prop where
  ascii : ∀ c ∈ candidate, digit py c = true → c.isDigit = true
  count : 13 ≤ candidate.countP (digit py) ∧ candidate.countP (digit py) ≤ 19

/-- The loop doubles where an odd number of digits is left behind. -/
theorem luhn_sum_from_left (i : ℕ) (ds : List ℕ) (hds : ∀ d ∈ ds, d ≤ 9) :
    luhn_sum ((i + ds.length) % 2) i ds = from_left ds := by
  induction ds generalizing i with
  | nil => rfl
  | cons d ds ih =>
    have hd : d ≤ 9 := hds d List.mem_cons_self
    have hrest := ih (i + 1) (fun e he => hds e (List.mem_cons_of_mem d he))
    have hlength : i + (d :: ds).length = i + 1 + ds.length := by
      rw [List.length_cons]
      omega
    rw [hlength, luhn_sum, hrest, from_left]
    congr 1
    unfold weight doubled
    split_ifs <;> omega

theorem decimal_digit (py : Runtime) (c : Char) (hc : c.isDigit = true) :
    ∃ d, py.decimal c = some d ∧ d ≤ 9 ∧ c.toNat = '0'.toNat + d := by
  have hrange : 48 ≤ c.toNat ∧ c.toNat ≤ 57 := by
    simpa [Char.isDigit, UInt32.le_iff_toNat_le] using hc
  have hzero : '0'.toNat = 48 := rfl
  have hascii : isAscii c = true := by
    simp only [isAscii, decide_eq_true_eq]
    omega
  refine ⟨c.toNat - '0'.toNat, ?_, by omega, by omega⟩
  rw [py.decimal_ascii c hascii, if_pos hc]

theorem digits_le (py : Runtime) (candidate : Str)
    (hascii : ∀ c ∈ candidate, digit py c = true → c.isDigit = true) :
    ∀ d ∈ digits py candidate, d ≤ 9 := by
  intro d hd
  obtain ⟨c, hc, hdecimal⟩ := List.mem_filterMap.mp hd
  have hdigit : digit py c = true := by simp [digit, hdecimal]
  obtain ⟨e, he, hle, _⟩ := decimal_digit py c (hascii c hc hdigit)
  rw [hdecimal, Option.some.injEq] at he
  rwa [he]

theorem luhn_valid_iff (py : Runtime) (candidate : Str)
    (hascii : ∀ c ∈ candidate, digit py c = true → c.isDigit = true) :
    luhn_valid py candidate = true ↔
      (13 ≤ candidate.countP (digit py) ∧ candidate.countP (digit py) ≤ 19) ∧
        from_left (digits py candidate) % 10 = 0 := by
  have hlength : (digits py candidate).length = candidate.countP (digit py) :=
    List.length_filterMap_eq_countP
  have hsum := luhn_sum_from_left 0 (digits py candidate) (digits_le py candidate hascii)
  rw [Nat.zero_add] at hsum
  change (if 13 ≤ (digits py candidate).length ∧ (digits py candidate).length ≤ 19 then
    decide (luhn_sum ((digits py candidate).length % 2) 0 (digits py candidate) % 10 = 0)
    else false) = true ↔ _
  rw [hsum, hlength]
  split
  · next hcount => simp [hcount]
  · next hcount => simp [hcount]

/-- Another digit in the place of one. -/
theorem replaced_ascii (py : Runtime) (before behind : Str) (c c' : Char)
    (hascii : ∀ d ∈ before ++ c :: behind, digit py d = true → d.isDigit = true)
    (hc' : c'.isDigit = true) :
    ∀ d ∈ before ++ c' :: behind, digit py d = true → d.isDigit = true := by
  intro d hd hdigit
  simp only [List.mem_append, List.mem_cons] at hascii hd
  rcases hd with hd | rfl | hd
  · exact hascii d (.inl hd) hdigit
  · exact hc'
  · exact hascii d (.inr (.inr hd)) hdigit

/-- On card numbers the check is the one counted from the right, and no valid number stays
valid when one digit becomes another. -/
theorem luhn_valid_luhn (py : Runtime) (candidate : Str) (h : CardDigits py candidate) :
    (luhn_valid py candidate = true ↔ LuhnNumber (digits py candidate)) ∧
      (luhn_valid py candidate = true → ∀ before c behind c',
        candidate = before ++ c :: behind → c.isDigit = true → c'.isDigit = true → c' ≠ c →
          luhn_valid py (before ++ c' :: behind) = false) := by
  constructor
  · rw [luhn_valid_iff py candidate h.ascii, and_iff_right h.count, LuhnNumber, from_right_reverse]
  · rintro hvalid before c behind c' rfl hc hc' hne
    obtain ⟨d, hd, hd9, hcode⟩ := decimal_digit py c hc
    obtain ⟨d', hd', hd9', hcode'⟩ := decimal_digit py c' hc'
    have hdigits : ∀ e, digits py (before ++ e :: behind) =
        digits py before ++ digits py (e :: behind) := fun e => List.filterMap_append
    have hsum := ((luhn_valid_iff py _ h.ascii).mp hvalid).2
    have hdiffer : d ≠ d' := by
      rintro rfl
      exact hne (Char.toNat_inj.mp (hcode'.trans hcode.symm))
    rw [← Bool.not_eq_true, luhn_valid_iff py _ (replaced_ascii py before behind c c' h.ascii hc')]
    rintro ⟨_, hsum'⟩
    rw [hdigits, digits, digits, List.filterMap_cons_some hd] at hsum
    rw [hdigits, digits, digits, List.filterMap_cons_some hd'] at hsum'
    exact single_digit_detected _ _ d d' hd9 hd9' hdiffer hsum hsum'

/-- A number with blanks in it, and the same with its last digit changed. -/
theorem test_number_checked :
    LuhnNumber (digits asciiRuntime "4111 1111 1111 1111".toList) ∧
      luhn_valid asciiRuntime "4111 1111 1111 1112".toList = false := by
  have hcard : CardDigits asciiRuntime "4111 1111 1111 1111".toList := ⟨by decide, by decide⟩
  have hvalid : luhn_valid asciiRuntime "4111 1111 1111 1111".toList = true := by rfl
  have hluhn := luhn_valid_luhn asciiRuntime "4111 1111 1111 1111".toList hcard
  exact ⟨hluhn.1.mp hvalid,
    hluhn.2 hvalid "4111 1111 1111 111".toList '1' [] '2' rfl (by decide) (by decide) (by decide)⟩

end AigentSquad.LuhnCheck
