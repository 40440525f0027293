import Mathlib.Algebra.Order.BigOperators.Group.List
import Mathlib.Algebra.GroupWithZero.Nat
import Mathlib.Algebra.Order.Group.Nat
import Mathlib.Data.List.Infix

/-!
# The longest suffix within a budget

A suffix that fits while the next longer one does not is the longest that fits:
costs only add up. Nothing here names a particular program.
-/

set_option autoImplicit false

namespace AigentSquad.LongestSuffix

variable {α : Type} (cost : α → ℕ)

def total (l : List α) : ℕ := (l.map cost).sum

theorem total_cons (x : α) (l : List α) : total cost (x :: l) = cost x + total cost l := by
  simp [total]

theorem total_append (l m : List α) : total cost (l ++ m) = total cost l + total cost m := by
  simp [total]

theorem total_suffix {l m : List α} (h : l <:+ m) : total cost l ≤ total cost m := by
  obtain ⟨front, rfl⟩ := h
  rw [total_append]
  omega

theorem total_mono {f g : α → ℕ} (l : List α) (h : ∀ x ∈ l, f x ≤ g x) : total f l ≤ total g l :=
  List.sum_le_sum h

/-- `s` is the longest suffix of `l` that costs at most `budget`. -/
structure Longest (budget : ℕ) (l s : List α) : Prop where
  suffix : s <:+ l
  fits : total cost s ≤ budget
  longest : ∀ t, t <:+ l → total cost t ≤ budget → t <:+ s

/-- Either nothing is left out, or the next entry does not fit. -/
theorem longest_of_stop {budget : ℕ} {l s : List α} (hs : s <:+ l)
    (hfits : total cost s ≤ budget)
    (hstop : s = l ∨ ∃ x, x :: s <:+ l ∧ budget < cost x + total cost s) :
    Longest cost budget l s := by
  refine ⟨hs, hfits, ?_⟩
  intro t ht htotal
  rcases hstop with rfl | ⟨x, hx, hover⟩
  · exact ht
  · rcases List.suffix_or_suffix_of_suffix ht hx with hshort | hlong
    · rcases List.suffix_cons_iff.mp hshort with rfl | hshort
      · rw [total_cons] at htotal
        omega
      · exact hshort
    · have hle := total_suffix cost hlong
      rw [total_cons] at hle
      omega

end AigentSquad.LongestSuffix
