import AigentSquad.ChatStorage
import Mathlib.Data.Rat.Defs
import Mathlib.Algebra.Order.Field.Rat
import Mathlib.Tactic.Linarith
import Mathlib.Tactic.NormNum

/-!
# The instants that ISO 8601 texts denote

A date, a time of day and its distance from UTC, with any number of decimals.
The texts `isoformat` writes denote the moments they were made from, in order.
-/

set_option autoImplicit false

namespace AigentSquad.Instants
open AigentSquad.PyText AigentSquad.ChatStorage

/-! ### The calendar -/

def daysInYear (year : ℕ) : ℕ := if isLeap year then 366 else 365

/-- The days before a year, from the year zero on. -/
def yearStart (year : ℕ) : ℕ :=
  365 * year + (year + 3) / 4 + (year + 399) / 400 - (year + 99) / 100

def monthStart (year : ℕ) : ℕ → ℕ
  | 0 => 0
  | 1 => 0
  | month + 2 => monthStart year (month + 1) + daysInMonth year (month + 1)

def dayNumber (year month day : ℕ) : ℕ := yearStart year + monthStart year month + day

theorem multiples_succ (k n : ℕ) (hk : 0 < k) :
    (n + 1 + (k - 1)) / k = (n + (k - 1)) / k + if n % k = 0 then 1 else 0 := by
  have hn := Nat.div_add_mod n k
  have hmod := Nat.mod_lt n hk
  split
  · next hzero =>
    have hleft : n + 1 + (k - 1) = k * (n / k + 1) := by rw [Nat.mul_add, Nat.mul_one]; omega
    have hright : n + (k - 1) = k * (n / k) + (k - 1) := by omega
    rw [hleft, hright, Nat.mul_div_cancel_left _ hk, Nat.mul_add_div hk,
      Nat.div_eq_of_lt (by omega : k - 1 < k), Nat.add_zero]
  · next hpos =>
    have hleft : n + 1 + (k - 1) = k * (n / k + 1) + n % k := by
      rw [Nat.mul_add, Nat.mul_one]
      omega
    have hright : n + (k - 1) = k * (n / k + 1) + (n % k - 1) := by
      rw [Nat.mul_add, Nat.mul_one]
      omega
    rw [hleft, hright, Nat.mul_add_div hk, Nat.mul_add_div hk, Nat.div_eq_of_lt hmod,
      Nat.div_eq_of_lt (by omega : n % k - 1 < k)]

theorem yearStart_succ (year : ℕ) : yearStart (year + 1) = yearStart year + daysInYear year := by
  have hfew : (year + 99) / 100 ≤ year := by omega
  have h4 := multiples_succ 4 year (by decide)
  have h100 := multiples_succ 100 year (by decide)
  have h400 := multiples_succ 400 year (by decide)
  have h : daysInYear year + (if year % 100 = 0 then 1 else 0) =
      365 + (if year % 4 = 0 then 1 else 0) + if year % 400 = 0 then 1 else 0 := by
    simp only [daysInYear, isLeap, Bool.and_eq_true, Bool.or_eq_true, decide_eq_true_eq, ne_eq]
    split_ifs <;> omega
  unfold yearStart
  simp only [Nat.add_one_sub_one] at h4 h100 h400
  omega

theorem yearStart_mono {year year' : ℕ} (h : year ≤ year') : yearStart year ≤ yearStart year' :=
  monotone_nat_of_le_succ (fun y => by rw [yearStart_succ]; exact Nat.le_add_right _ _) h

theorem monthStart_succ (year month : ℕ) (h : 1 ≤ month) :
    monthStart year (month + 1) = monthStart year month + daysInMonth year month := by
  obtain ⟨month, rfl⟩ := Nat.exists_eq_add_of_le' h
  rfl

theorem monthStart_mono (year : ℕ) {month month' : ℕ} (h : month ≤ month') :
    monthStart year month ≤ monthStart year month' := by
  refine monotone_nat_of_le_succ (fun m => ?_) h
  rcases Nat.eq_zero_or_pos m with rfl | hm
  · exact Nat.zero_le _
  · rw [monthStart_succ year m hm]
    exact Nat.le_add_right _ _

theorem monthStart_year (year : ℕ) : monthStart year 13 = daysInYear year := by
  have hmonths : monthStart year 13 = 0 + 31 + daysInMonth year 2 + 31 + 30 + 31 + 30 + 31 + 31 +
      30 + 31 + 30 + 31 := rfl
  rw [hmonths, daysInMonth, if_pos rfl, daysInYear]
  split <;> rfl

/-- A day of a month comes before the next month begins. -/
theorem dayNumber_le (year month day : ℕ) (hmonth : 1 ≤ month ∧ month ≤ 12)
    (hday : day ≤ daysInMonth year month) : dayNumber year month day ≤ yearStart (year + 1) := by
  have hnext := monthStart_mono year (by omega : month + 1 ≤ 13)
  rw [monthStart_succ year month hmonth.1, monthStart_year] at hnext
  rw [dayNumber, yearStart_succ]
  omega

theorem dayNumber_lt (s t : UtcTime)
    (h : s.year < t.year ∨ s.year = t.year ∧ (s.month < t.month ∨ s.month = t.month ∧
      s.day < t.day)) :
    dayNumber s.year s.month s.day < dayNumber t.year t.month t.day := by
  have hday := t.day_range.1
  rcases h with hyear | ⟨hyear, hmonth | ⟨hmonth, hlast⟩⟩
  · have hle := dayNumber_le s.year s.month s.day s.month_range s.day_range.2
    have hstart : yearStart (s.year + 1) ≤ yearStart t.year := yearStart_mono hyear
    unfold dayNumber at hle ⊢
    omega
  · have hnext := monthStart_mono s.year hmonth
    rw [Nat.succ_eq_add_one, monthStart_succ s.year s.month s.month_range.1] at hnext
    have hlast := s.day_range.2
    rw [dayNumber, dayNumber, ← hyear]
    omega
  · rw [dayNumber, dayNumber, ← hyear, ← hmonth]
    omega

/-- The seconds since the year zero began. -/
def clock (year month day hour minute second : ℕ) : ℕ :=
  86400 * dayNumber year month day + 3600 * hour + 60 * minute + second

/-! ### Reading -/

/-- A number of `w` digits and what follows it. -/
def number : ℕ → Str → Option (ℕ × Str)
  | 0, s => some (0, s)
  | _ + 1, [] => none
  | w + 1, c :: s =>
    if c.isDigit then (number w s).map (fun r => ((c.toNat - 48) * 10 ^ w + r.1, r.2)) else none

def mark (c : Char) : Str → Option Str
  | [] => none
  | d :: s => if d = c then some s else none

/-- `Z`, or hours and minutes ahead of UTC or behind it. In minutes. -/
def utcOffset : Str → Option ℤ
  | ['Z'] => some 0
  | '+' :: s => ahead s
  | '-' :: s => (ahead s).map (fun minutes => -minutes)
  | _ => none
where
  ahead (s : Str) : Option ℤ := do
    let (hours, s) ← number 2 s
    let s ← mark ':' s
    let (minutes, s) ← number 2 s
    if s = [] ∧ hours < 24 ∧ minutes < 60 then some (60 * hours + minutes) else none

def decimals (s : Str) : Option (ℚ × Str) :=
  let w := (s.takeWhile Char.isDigit).length
  if w = 0 then none else (number w s).map (fun r => (r.1 / 10 ^ w, r.2))

/-- Any number of decimals, or none. -/
def secondFraction : Str → Option (ℚ × Str)
  | '.' :: s => decimals s
  | s => some (0, s)

/-- Seconds may be left out. -/
def seconds : Str → Option (ℕ × ℚ × Str)
  | ':' :: s => do
    let (second, s) ← number 2 s
    let (fraction, s) ← secondFraction s
    some (second, fraction, s)
  | s => some (0, 0, s)

/-- The instant a text denotes, in seconds since the year zero began in UTC. -/
def iso8601 (s : Str) : Option ℚ := do
  let (year, s) ← number 4 s
  let s ← mark '-' s
  let (month, s) ← number 2 s
  let s ← mark '-' s
  let (day, s) ← number 2 s
  let s ← mark 'T' s
  let (hour, s) ← number 2 s
  let s ← mark ':' s
  let (minute, s) ← number 2 s
  let (second, fraction, s) ← seconds s
  let offset ← utcOffset s
  if 1 ≤ month ∧ month ≤ 12 ∧ 1 ≤ day ∧ day ≤ daysInMonth year month ∧
      hour < 24 ∧ minute < 60 ∧ second ≤ 60 then
    some (clock year month day hour minute second + fraction - 60 * offset)
  else none

/-! ### What `isoformat` writes -/

theorem digit_reads (n : ℕ) (h : n < 10) :
    (Nat.digitChar n).isDigit = true ∧ (Nat.digitChar n).toNat - 48 = n := by
  have hdigits : ∀ n < 10, (Nat.digitChar n).isDigit = true ∧
      (Nat.digitChar n).toNat - 48 = n := by decide
  exact hdigits n h

theorem number_pad (w n : ℕ) (s : Str) (h : n < 10 ^ w) :
    number w (pad w n ++ s) = some (n, s) := by
  induction w generalizing n with
  | zero =>
    rw [Nat.pow_zero, Nat.lt_one_iff] at h
    subst h
    rfl
  | succ w ih =>
    have hpos : 0 < 10 ^ w := Nat.pow_pos (by decide)
    obtain ⟨hdigit, hvalue⟩ := digit_reads (n / 10 ^ w)
      ((Nat.div_lt_iff_lt_mul hpos).mpr (by rwa [Nat.pow_succ'] at h))
    rw [pad, List.cons_append, number, if_pos hdigit, ih _ (Nat.mod_lt _ hpos), Option.map_some,
      hvalue, Nat.div_add_mod']

theorem mark_cons (c : Char) (s : Str) : mark c (c :: s) = some s := if_pos rfl

theorem pad_digits (w n : ℕ) (h : n < 10 ^ w) : ∀ c ∈ pad w n, c.isDigit = true := by
  induction w generalizing n with
  | zero => simp [pad]
  | succ w ih =>
    have hpos : 0 < 10 ^ w := Nat.pow_pos (by decide)
    intro c hc
    rcases List.mem_cons.mp hc with rfl | hc
    · exact (digit_reads (n / 10 ^ w)
        ((Nat.div_lt_iff_lt_mul hpos).mpr (by rwa [Nat.pow_succ'] at h))).1
    · exact ih _ (Nat.mod_lt _ hpos) c hc

theorem decimals_pad (w n : ℕ) (s : Str) (hw : w ≠ 0) (h : n < 10 ^ w)
    (hs : ∀ c ∈ s.head?, c.isDigit = false) :
    decimals (pad w n ++ s) = some ((n : ℚ) / 10 ^ w, s) := by
  have hnone : s.takeWhile Char.isDigit = [] := by
    cases s with
    | nil => rfl
    | cons c s => rw [List.takeWhile_cons, hs c rfl, if_neg Bool.false_ne_true]
  have hdigits : (pad w n ++ s).takeWhile Char.isDigit = pad w n := by
    rw [List.takeWhile_append_of_pos (pad_digits w n h), hnone, List.append_nil]
  rw [decimals, hdigits, pad_length, if_neg hw, number_pad w n s h, Option.map_some]

theorem secondFraction_isoformat (microsecond : ℕ) (h : microsecond < 10 ^ 6) :
    secondFraction (ChatStorage.fraction microsecond ++ offset) =
      some ((microsecond : ℚ) / 10 ^ 6, offset) := by
  have hsign : ∀ c ∈ offset.head?, c.isDigit = false := by
    intro c hc
    have hhead : offset.head? = some '+' := rfl
    rw [hhead, Option.mem_some_iff] at hc
    rw [← hc]
    rfl
  unfold ChatStorage.fraction
  split
  · next hzero =>
    rw [hzero, Nat.cast_zero, zero_div]
    rfl
  · exact decimals_pad 6 microsecond offset (by decide) h hsign

/-- The moment of a `datetime` in UTC, in seconds since the year zero began. -/
def moment (t : UtcTime) : ℚ :=
  clock t.year t.month t.day t.hour t.minute t.second + t.microsecond / 10 ^ 6

theorem seconds_isoformat (second microsecond : ℕ) (hs : second < 60)
    (hm : microsecond < 10 ^ 6) :
    seconds (':' :: (pad 2 second ++ (ChatStorage.fraction microsecond ++ offset))) =
      some (second, (microsecond : ℚ) / 10 ^ 6, offset) := by
  rw [seconds, number_pad 2 second _ (hs.trans (by decide)), Option.bind_eq_bind,
    Option.bind_some]
  dsimp only
  rw [secondFraction_isoformat microsecond hm]
  rfl

theorem number_bind {β : Type} (w n : ℕ) (s : Str) (f : ℕ × Str → Option β) (h : n < 10 ^ w) :
    (number w (pad w n ++ s) >>= f) = f (n, s) := by
  rw [number_pad w n s h]
  rfl

theorem mark_bind {β : Type} (c : Char) (s : Str) (f : Str → Option β) :
    (mark c (c :: s) >>= f) = f s := by
  rw [mark_cons]
  rfl

theorem iso8601_isoformat (t : UtcTime) : iso8601 t.isoformat = some (moment t) := by
  have hmonth := t.month_range
  have hday := t.day_range
  have hbound := hday.2.trans (days_bound t.year t.month)
  have hyear : t.year < 10 ^ 4 := by
    have := t.year_range
    omega
  have hsecond := t.second_range
  have hoffset : utcOffset offset = some 0 := by decide
  rw [iso8601, UtcTime.isoformat, number_bind 4 _ _ _ hyear]
  dsimp only
  rw [mark_bind, number_bind 2 t.month _ _ (by omega)]
  dsimp only
  rw [mark_bind, number_bind 2 t.day _ _ (by omega)]
  dsimp only
  rw [mark_bind, number_bind 2 t.hour _ _ (t.hour_range.trans (by decide))]
  dsimp only
  rw [mark_bind, number_bind 2 t.minute _ _ (t.minute_range.trans (by decide)),
    seconds_isoformat t.second t.microsecond hsecond t.microsecond_range]
  dsimp only [Option.bind_eq_bind, Option.bind_some]
  rw [hoffset]
  dsimp only [Option.bind_some]
  rw [if_pos ⟨hmonth.1, hmonth.2, hday.1, hday.2, t.hour_range, t.minute_range, hsecond.le⟩]
  simp [moment]

/-- The order of two moments is that of their days, then of the time of day. -/
theorem days_or_time (s t : UtcTime) (h : s < t) :
    dayNumber s.year s.month s.day < dayNumber t.year t.month t.day ∨
      dayNumber s.year s.month s.day = dayNumber t.year t.month t.day ∧
        [s.hour, s.minute, s.second, s.microsecond] <
          [t.hour, t.minute, t.second, t.microsecond] := by
  have hfields : s.fields < t.fields := h
  rw [UtcTime.fields, UtcTime.fields, List.cons_lt_cons_iff, List.cons_lt_cons_iff,
    List.cons_lt_cons_iff] at hfields
  rcases hfields with hyear | ⟨hyear, hmonth | ⟨hmonth, hday | ⟨hday, htime⟩⟩⟩
  · exact .inl (dayNumber_lt s t (.inl hyear))
  · exact .inl (dayNumber_lt s t (.inr ⟨hyear, .inl hmonth⟩))
  · exact .inl (dayNumber_lt s t (.inr ⟨hyear, .inr ⟨hmonth, hday⟩⟩))
  · exact .inr ⟨by rw [hyear, hmonth, hday], htime⟩

theorem clock_lt (s t : UtcTime) (h : s < t) :
    clock s.year s.month s.day s.hour s.minute s.second <
        clock t.year t.month t.day t.hour t.minute t.second ∨
      clock s.year s.month s.day s.hour s.minute s.second =
        clock t.year t.month t.day t.hour t.minute t.second ∧ s.microsecond < t.microsecond := by
  have hhour := s.hour_range
  have hminute := s.minute_range
  have hsecond := s.second_range
  unfold clock
  rcases days_or_time s t h with hdays | ⟨hdays, htime⟩
  · omega
  · simp only [List.cons_lt_cons_iff, List.lt_irrefl, and_false, or_false] at htime
    omega

/-- Later moments are later instants. -/
theorem moment_lt (s t : UtcTime) (h : s < t) : moment s < moment t := by
  have hs : (s.microsecond : ℚ) < 10 ^ 6 := by exact_mod_cast s.microsecond_range
  have ht : (0 : ℚ) ≤ t.microsecond := Nat.cast_nonneg _
  unfold moment
  rcases clock_lt s t h with hclock | ⟨hclock, hlast⟩
  · have hle : (clock s.year s.month s.day s.hour s.minute s.second : ℚ) + 1 ≤
        clock t.year t.month t.day t.hour t.minute t.second := by exact_mod_cast hclock
    linarith
  · have hlt : (s.microsecond : ℚ) < t.microsecond := by exact_mod_cast hlast
    rw [hclock]
    linarith

end AigentSquad.Instants
