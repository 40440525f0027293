import AigentSquad.DisjointSets

/-!
# Climbs that end

The loops of `find` and `union` without a bound on their steps: a relation that
holds of a call and its result only if the loop ends.
-/

set_option autoImplicit false

namespace AigentSquad.PathHalving
open AigentSquad.DisjointSets

variable {α : Type} [DecidableEq α]

/-- `while parent[x] != x`: the pointers it leaves and the root it ends at. -/
inductive Climbs : Parents α → α → Parents α → α → Prop
  | root (parent : Parents α) (x : α) (h : parent x = x) : Climbs parent x parent x
  | halve (parent parent' : Parents α) (x r : α) (h : parent x ≠ x)
      (rest : Climbs (Function.update parent x (parent (parent x))) (parent (parent x)) parent' r) :
      Climbs parent x parent' r

inductive Unites (parent : Parents α) (x y : α) : Parents α → Prop
  | mk (p q : Parents α) (rx ry : α) (hx : Climbs parent x p rx) (hy : Climbs p y q ry) :
      Unites parent x y (if rx = ry then q else Function.update q rx ry)

inductive UnitesAll : Parents α → List (α × α) → Parents α → Prop
  | nil (parent : Parents α) : UnitesAll parent [] parent
  | cons (parent p q : Parents α) (x y : α) (pairs : List (α × α)) (first : Unites parent x y p)
      (rest : UnitesAll p pairs q) : UnitesAll parent ((x, y) :: pairs) q

inductive FindsAll : Parents α → List α → List α → Prop
  | nil (parent : Parents α) : FindsAll parent [] []
  | cons (parent p : Parents α) (x r : α) (xs rs : List α) (first : Climbs parent x p r)
      (rest : FindsAll p xs rs) : FindsAll parent (x :: xs) (r :: rs)

/-! ### One result -/

theorem Climbs.unique {parent p p' : Parents α} {x r r' : α} (h : Climbs parent x p r)
    (h' : Climbs parent x p' r') : p = p' ∧ r = r' := by
  induction h with
  | root parent x hx =>
    cases h' with
    | root _ _ _ => exact ⟨rfl, rfl⟩
    | halve _ _ _ _ hne _ => exact absurd hx hne
  | halve parent parent' x r hne _ ih =>
    cases h' with
    | root _ _ hx => exact absurd hx hne
    | halve _ _ _ _ _ rest => exact ih rest

theorem Unites.unique {parent p p' : Parents α} {x y : α} (h : Unites parent x y p)
    (h' : Unites parent x y p') : p = p' := by
  obtain ⟨p, q, rx, ry, hx, hy⟩ := h
  obtain ⟨p', q', rx', ry', hx', hy'⟩ := h'
  obtain ⟨rfl, rfl⟩ := hx.unique hx'
  obtain ⟨rfl, rfl⟩ := hy.unique hy'
  rfl

theorem UnitesAll.unique {parent p p' : Parents α} {pairs : List (α × α)}
    (h : UnitesAll parent pairs p) (h' : UnitesAll parent pairs p') : p = p' := by
  induction h with
  | nil parent =>
    cases h'
    rfl
  | cons parent p q x y pairs first _ ih =>
    cases h' with
    | cons _ p' _ _ _ _ first' rest' =>
      obtain rfl := first.unique first'
      exact ih rest'

theorem FindsAll.unique {parent : Parents α} {xs rs rs' : List α} (h : FindsAll parent xs rs)
    (h' : FindsAll parent xs rs') : rs = rs' := by
  induction h generalizing rs' with
  | nil parent =>
    cases h'
    rfl
  | cons parent p x r xs rs first _ ih =>
    cases h' with
    | cons _ p' _ r' _ rs' first' rest' =>
      obtain ⟨rfl, rfl⟩ := first.unique first'
      rw [ih rest']

/-! ### In a forest every climb ends -/

variable {parent : Parents α} {rep : α → α} {height : α → ℕ} {bound : ℕ}

theorem forest_climbs (h : Forest parent rep height bound) (fuel : ℕ) (x : α)
    (hfuel : bound < height x + fuel) :
    Climbs parent x (find fuel parent x).1 (find fuel parent x).2 := by
  induction fuel generalizing parent x with
  | zero =>
    have := h.low x
    omega
  | succ fuel ih =>
    by_cases hx : parent x = x
    · rw [find, if_pos hx]
      exact .root parent x hx
    · have hup := h.up x hx
      have hclimb := h.climb (parent x)
      have hrest := ih (h.halve x hx) (parent (parent x)) (by omega)
      rw [find, if_neg hx]
      simp only [Function.update_self]
      exact .halve _ _ _ _ hx hrest

theorem forest_unites (h : Forest parent rep height bound) (fuel : ℕ) (hfuel : bound < fuel)
    (x y : α) : Unites parent x y (union fuel parent x y) := by
  have hx := forest_climbs h fuel x (by omega)
  have hy := forest_climbs (h.find fuel x (by omega)).2 fuel y (by omega)
  exact .mk _ _ _ _ hx hy

theorem forest_unitesAll (h : Forest parent rep height bound) (fuel : ℕ) (pairs : List (α × α))
    (hfuel : bound + pairs.length ≤ fuel) :
    UnitesAll parent pairs (unions fuel parent pairs) := by
  induction pairs generalizing parent rep height bound with
  | nil => exact .nil parent
  | cons xy pairs ih =>
    obtain ⟨x, y⟩ := xy
    rw [List.length_cons] at hfuel
    obtain ⟨height', hunion⟩ := h.union fuel (by omega) x y
    exact .cons _ _ _ x y pairs (forest_unites h fuel (by omega) x y) (ih hunion (by omega))

theorem forest_findsAll (h : Forest parent rep height bound) (fuel : ℕ) (hfuel : bound < fuel)
    (xs : List α) : FindsAll parent xs (roots fuel parent xs) := by
  induction xs generalizing parent with
  | nil => exact .nil parent
  | cons x xs ih =>
    have hrest := ih (h.find fuel x (by omega)).2
    exact .cons _ _ x _ xs _ (forest_climbs h fuel x (by omega)) hrest

end AigentSquad.PathHalving
