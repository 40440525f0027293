import Mathlib.Order.WellFounded

/-!
# Recursion with bounded depth

A recursive function as its body with the recursive calls left open, and its
runs in which calls are nested up to a depth. If the body asks only for certain
calls and these cannot be followed for ever, every call returns. Nothing here
names a particular program.
-/

set_option autoImplicit false

namespace AigentSquad.OpenRecursion

variable {α β : Type} (body : (α → Option β) → α → Option β)

/-- The runs nested at most so deep; none where that does not suffice. -/
def within : ℕ → α → Option β
  | 0, _ => none
  | depth + 1, x => body (within depth) x

/-- The body asks for no call but those listed. -/
def Asks (calls : α → List α) : Prop :=
  ∀ f g x, (∀ y ∈ calls x, f y = g y) → body f x = body g x

variable {body} {calls : α → List α}

/-- A depth at which each of finitely many calls has settled. -/
theorem settled_together {P : α → ℕ → Prop} (xs : List α)
    (h : ∀ x ∈ xs, ∃ depth, ∀ more, depth ≤ more → P x more) :
    ∃ depth, ∀ more, depth ≤ more → ∀ x ∈ xs, P x more := by
  induction xs with
  | nil => exact ⟨0, by simp⟩
  | cons x xs ih =>
    obtain ⟨n, hn⟩ := h x List.mem_cons_self
    obtain ⟨m, hm⟩ := ih fun y hy => h y (List.mem_cons_of_mem x hy)
    refine ⟨max n m, fun more hmore => List.forall_mem_cons.mpr ⟨?_, ?_⟩⟩
    · exact hn more (le_trans (le_max_left n m) hmore)
    · exact hm more (le_trans (le_max_right n m) hmore)

/-- Every call returns, and it returns what a function that answers like the body says. -/
theorem within_eq (hasks : Asks body calls) (hwf : WellFounded (fun y x => y ∈ calls x))
    (f : α → β) (hf : ∀ x, body (fun y => some (f y)) x = some (f x)) (x : α) :
    ∃ depth, ∀ more, depth ≤ more → within body more x = some (f x) := by
  induction x using hwf.induction with
  | _ x ih =>
    obtain ⟨depth, hdepth⟩ := settled_together (calls x) ih
    refine ⟨depth + 1, fun more hmore => ?_⟩
    obtain ⟨more, rfl⟩ := Nat.exists_eq_add_of_le' hmore
    rw [← Nat.add_assoc, within, ← hf x]
    exact hasks _ _ x fun y hy => hdepth _ (Nat.le_add_left _ _) y hy

/-- Calls that lower a pair of numbers cannot be followed for ever. -/
theorem wellFounded_of_rank (rank : α → ℕ × ℕ)
    (h : ∀ x, ∀ y ∈ calls x,
      (rank y).1 < (rank x).1 ∨ (rank y).1 = (rank x).1 ∧ (rank y).2 < (rank x).2) :
    WellFounded (fun y x => y ∈ calls x) := by
  refine Subrelation.wf (r := InvImage (Prod.Lex (· < ·) (· < ·)) rank) ?_
    (InvImage.wf rank (Prod.lex ⟨_, wellFounded_lt⟩ ⟨_, wellFounded_lt⟩).wf)
  intro y x hy
  rw [InvImage, Prod.lex_def]
  exact h x y hy

end AigentSquad.OpenRecursion
