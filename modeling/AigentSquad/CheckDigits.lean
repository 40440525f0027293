import Mathlib.Data.List.Induction

/-!
# Sums of digits weighed from the right

Every second digit counted from the right is doubled, and the digits of a
doubled one are added. The same sum is read from the left, where what stands
behind a digit tells its place, and any single digit can be told from it.
Nothing here names a particular program.
-/

set_option autoImplicit false

namespace AigentSquad.CheckDigits

/-- The two digits of twice a digit, added. -/
def doubled (d : ℕ) : ℕ := 2 * d / 10 + 2 * d % 10

/-- The sum of digits listed from the right. -/
def from_right : List ℕ → ℕ
  | [] => 0
  | [d] => d
  | d :: e :: ds => d + doubled e + from_right ds

/-- What a digit adds with this many digits to its right. -/
def weight (behind d : ℕ) : ℕ := if behind % 2 = 1 then doubled d else d

/-- The sum of digits listed from the left. -/
def from_left : List ℕ → ℕ
  | [] => 0
  | d :: ds => weight ds.length d + from_left ds

theorem from_right_concat (ds : List ℕ) (d : ℕ) :
    from_right (ds ++ [d]) = from_right ds + weight ds.length d := by
  induction ds using List.twoStepInduction with
  | nil => simp [from_right, weight]
  | singleton e => simp [from_right, weight]
  | cons_cons e f ds ih _ =>
    have hparity : weight (e :: f :: ds).length d = weight ds.length d := by
      have htwo : (ds.length + 1 + 1) % 2 = ds.length % 2 := by omega
      simp only [weight, List.length_cons, htwo]
    rw [List.cons_append, List.cons_append, from_right, ih, from_right, hparity]
    omega

theorem from_right_reverse (ds : List ℕ) : from_right ds.reverse = from_left ds := by
  induction ds with
  | nil => rfl
  | cons d ds ih =>
    rw [List.reverse_cons, from_right_concat, ih, List.length_reverse, from_left, Nat.add_comm]

/-- One digit adds its weight to what the others make. -/
theorem from_left_split (before behind : List ℕ) :
    ∃ others, ∀ d, from_left (before ++ d :: behind) = weight behind.length d + others := by
  induction before with
  | nil => exact ⟨from_left behind, fun d => rfl⟩
  | cons e before ih =>
    obtain ⟨others, hothers⟩ := ih
    refine ⟨weight (before.length + (behind.length + 1)) e + others, fun d => ?_⟩
    rw [List.cons_append, from_left, hothers d, List.length_append, List.length_cons]
    omega

/-- Different digits have different weights, and none reaches ten. -/
theorem weight_injective (behind d e : ℕ) (hd : d ≤ 9) (he : e ≤ 9)
    (h : weight behind d % 10 = weight behind e % 10) : d = e := by
  unfold weight doubled at h
  split at h
  · omega
  · omega

/-- No two numbers that differ in one digit both have a sum divisible by ten. -/
theorem single_digit_detected (before behind : List ℕ) (d e : ℕ) (hd : d ≤ 9) (he : e ≤ 9)
    (hne : d ≠ e) (h : from_left (before ++ d :: behind) % 10 = 0) :
    from_left (before ++ e :: behind) % 10 ≠ 0 := by
  obtain ⟨others, hothers⟩ := from_left_split before behind
  intro h'
  rw [hothers] at h h'
  exact hne (weight_injective behind.length d e hd he (by omega))

end AigentSquad.CheckDigits
