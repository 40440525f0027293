import AigentSquad.Components
import Mathlib.Data.Finset.Dedup
import Mathlib.Data.List.Dedup
import Mathlib.Logic.Function.Basic

/-!
# Disjoint sets

A forest of parent pointers. `find` halves the path it climbs, `union` hangs one
root under the other. The fuel bounds the climb; it suffices as long as it
exceeds the number of unions made so far.
-/

set_option autoImplicit false

namespace AigentSquad.DisjointSets
open AigentSquad.Components

variable {α : Type} [DecidableEq α]

abbrev Parents (α : Type) := α → α

def find : Nat → Parents α → α → Parents α × α
  | 0, parent, x => (parent, x)
  | fuel + 1, parent, x =>
    if parent x = x then (parent, x)
    else
      let halved := Function.update parent x (parent (parent x))
      find fuel halved (halved x)

def union (fuel : Nat) (parent : Parents α) (x y : α) : Parents α :=
  let fx := find fuel parent x
  let fy := find fuel fx.1 y
  if fx.2 = fy.2 then fy.1 else Function.update fy.1 fx.2 fy.2

def unions (fuel : Nat) (parent : Parents α) (pairs : List (α × α)) : Parents α :=
  pairs.foldl (fun p xy => union fuel p xy.1 xy.2) parent

/-- The roots of a list of elements, found one after the other. -/
def roots (fuel : Nat) : Parents α → List α → List α
  | _, [] => []
  | parent, x :: xs => (find fuel parent x).2 :: roots fuel (find fuel parent x).1 xs

/-- `rep` names the root above each element; `height` grows on the way up. -/
structure Forest (parent : Parents α) (rep : α → α) (height : α → ℕ) (bound : ℕ) : Prop where
  up : ∀ x, parent x ≠ x → height x < height (parent x)
  low : ∀ x, height x ≤ bound
  same : ∀ x, rep (parent x) = rep x
  self : ∀ x, parent x = x → rep x = x

omit [DecidableEq α] in
theorem forest_id : Forest (id : Parents α) id (fun _ => 0) 0 :=
  ⟨fun _ h => absurd rfl h, fun _ => Nat.le_refl 0, fun _ => rfl, fun _ _ => rfl⟩

section Step
variable {parent : Parents α} {rep : α → α} {height : α → ℕ} {bound : ℕ}

omit [DecidableEq α] in
theorem Forest.climb (h : Forest parent rep height bound) (x : α) :
    height x ≤ height (parent x) := by
  by_cases hx : parent x = x
  · rw [hx]
  · exact Nat.le_of_lt (h.up x hx)

theorem Forest.halve (h : Forest parent rep height bound) (x : α) (hx : parent x ≠ x) :
    Forest (Function.update parent x (parent (parent x))) rep height bound := by
  have htwo : height x < height (parent (parent x)) :=
    Nat.lt_of_lt_of_le (h.up x hx) (h.climb (parent x))
  constructor
  · intro z hz
    by_cases hzx : z = x
    · subst hzx
      simpa using htwo
    · rw [Function.update_of_ne hzx] at hz ⊢
      exact h.up z hz
  · exact h.low
  · intro z
    by_cases hzx : z = x
    · subst hzx
      rw [Function.update_self, h.same, h.same]
    · rw [Function.update_of_ne hzx]
      exact h.same z
  · intro z hz
    by_cases hzx : z = x
    · subst hzx
      rw [Function.update_self] at hz
      rw [hz] at htwo
      omega
    · rw [Function.update_of_ne hzx] at hz
      exact h.self z hz

/-- With enough fuel `find` ends at the root, and the forest stays as it was. -/
theorem Forest.find (h : Forest parent rep height bound) (fuel : ℕ) (x : α)
    (hfuel : bound < height x + fuel) :
    (find fuel parent x).2 = rep x ∧ Forest (find fuel parent x).1 rep height bound := by
  induction fuel generalizing parent x with
  | zero =>
    have := h.low x
    omega
  | succ fuel ih =>
    by_cases hx : parent x = x
    · rw [DisjointSets.find, if_pos hx]
      exact ⟨(h.self x hx).symm, h⟩
    · rw [DisjointSets.find, if_neg hx]
      have hhalved := h.halve x hx
      have hup := h.up x hx
      have hclimb := h.climb (parent x)
      have hfound := ih hhalved (parent (parent x)) (by omega)
      rw [h.same, h.same] at hfound
      simpa using hfound

omit [DecidableEq α] in
theorem Forest.weaken (h : Forest parent rep height bound) {more : ℕ} (hm : bound ≤ more) :
    Forest parent rep height more :=
  ⟨h.up, fun x => Nat.le_trans (h.low x) hm, h.same, h.self⟩

theorem Forest.hang (h : Forest parent rep height bound) (r s : α) (hr : parent r = r)
    (hs : parent s = s) (hrs : r ≠ s) :
    Forest (Function.update parent r s) (fun z => if rep z = r then s else rep z)
      (Function.update height s (max (height s) (height r + 1))) (bound + 1) := by
  have hsr : s ≠ r := fun e => hrs e.symm
  have hreps : rep s = s := h.self s hs
  have hrepr : rep r = r := h.self r hr
  have hmono : ∀ z, height z ≤ Function.update height s (max (height s) (height r + 1)) z := by
    intro z
    by_cases hz : z = s
    · subst hz
      simp
    · rw [Function.update_of_ne hz]
  constructor
  · intro z hz
    by_cases hzr : z = r
    · subst hzr
      rw [Function.update_self, Function.update_self, Function.update_of_ne hrs]
      omega
    · rw [Function.update_of_ne hzr] at hz ⊢
      have hzs : z ≠ s := fun e => hz (e ▸ hs)
      rw [Function.update_of_ne hzs]
      exact Nat.lt_of_lt_of_le (h.up z hz) (hmono _)
  · intro z
    have hlow := h.low z
    by_cases hz : z = s
    · subst hz
      have hlowr := h.low r
      rw [Function.update_self]
      omega
    · rw [Function.update_of_ne hz]
      omega
  · intro z
    by_cases hzr : z = r
    · subst hzr
      rw [Function.update_self, hreps, hrepr, if_neg hsr, if_pos rfl]
    · rw [Function.update_of_ne hzr, h.same]
  · intro z hz
    by_cases hzr : z = r
    · subst hzr
      rw [Function.update_self] at hz
      exact absurd hz hsr
    · rw [Function.update_of_ne hzr] at hz
      rw [h.self z hz, if_neg hzr]

omit [DecidableEq α] in
theorem Forest.root (h : Forest parent rep height bound) (x : α) : parent (rep x) = rep x := by
  have climb : ∀ n z, bound < height z + n → parent (rep z) = rep z := by
    intro n
    induction n with
    | zero =>
      intro z hz
      have := h.low z
      omega
    | succ n ih =>
      intro z hz
      by_cases hr : parent z = z
      · rw [h.self z hr, hr]
      · have hup := h.up z hr
        rw [← h.same]
        exact ih (parent z) (by omega)
  exact climb (bound + 1) x (by omega)

/-- The elements `rep` names alike after `x` and `y` are joined. -/
def joined (rep : α → α) (x y : α) (z : α) : α := if rep z = rep x then rep y else rep z

theorem Forest.union (h : Forest parent rep height bound) (fuel : ℕ) (hfuel : bound < fuel)
    (x y : α) : ∃ height', Forest (union fuel parent x y) (joined rep x y) height' (bound + 1) := by
  obtain ⟨hx, hfx⟩ := h.find fuel x (by omega)
  obtain ⟨hy, hfy⟩ := hfx.find fuel y (by omega)
  rw [DisjointSets.union]
  simp only [hx, hy]
  by_cases hxy : rep x = rep y
  · have hrep : joined rep x y = rep := by
      funext z
      by_cases hz : rep z = rep x
      · rw [joined, if_pos hz, hz, hxy]
      · rw [joined, if_neg hz]
    rw [if_pos hxy, hrep]
    exact ⟨height, hfy.weaken (Nat.le_succ bound)⟩
  · rw [if_neg hxy]
    exact ⟨_, hfy.hang (rep x) (rep y) (hfy.root x) (hfy.root y) hxy⟩

end Step

theorem joined_eq_iff (rep : α → α) (x y a b : α) :
    joined rep x y a = joined rep x y b ↔
      rep a = rep b ∨ (rep a = rep x ∧ rep b = rep y) ∨ (rep a = rep y ∧ rep b = rep x) := by
  unfold joined
  by_cases ha : rep a = rep x <;> by_cases hb : rep b = rep x
  · simp [ha, hb]
  · rw [if_pos ha, if_neg hb]
    constructor
    · exact fun h => .inr (.inl ⟨ha, h.symm⟩)
    · rintro (h | ⟨_, h⟩ | ⟨_, h⟩)
      · exact absurd (h.symm.trans ha) hb
      · exact h.symm
      · exact absurd h hb
  · rw [if_neg ha, if_pos hb]
    constructor
    · exact fun h => .inr (.inr ⟨h, hb⟩)
    · rintro (h | ⟨h, _⟩ | ⟨h, _⟩)
      · exact absurd (h.trans hb) ha
      · exact absurd h ha
      · exact h
  · simp [ha, hb]

/-- Elements already together, or to be joined. -/
def Together (rep : α → α) (pairs : List (α × α)) (a b : α) : Prop :=
  rep a = rep b ∨ (a, b) ∈ pairs

omit [DecidableEq α] in
theorem eqvGen_le {r s : α → α → Prop} (h : ∀ a b, r a b → Relation.EqvGen s a b) {a b : α}
    (hab : Relation.EqvGen r a b) : Relation.EqvGen s a b :=
  (Relation.EqvGen.is_equivalence s).eqvGen_iff.mp (Relation.EqvGen.mono h _ _ hab)

theorem together_cons (rep : α → α) (x y : α) (pairs : List (α × α)) (a b : α) :
    Relation.EqvGen (Together (joined rep x y) pairs) a b ↔
      Relation.EqvGen (Together rep ((x, y) :: pairs)) a b := by
  have hxy : Relation.EqvGen (Together rep ((x, y) :: pairs)) x y :=
    .rel _ _ (.inr List.mem_cons_self)
  have hsame : ∀ a b, rep a = rep b → Relation.EqvGen (Together rep ((x, y) :: pairs)) a b :=
    fun a b h => .rel _ _ (.inl h)
  constructor
  · refine eqvGen_le (fun a b h => ?_)
    rcases h with h | h
    · rcases (joined_eq_iff rep x y a b).mp h with h | ⟨ha, hb⟩ | ⟨ha, hb⟩
      · exact hsame a b h
      · exact .trans _ _ _ (hsame a x ha) (.trans _ _ _ hxy (hsame y b hb.symm))
      · exact .trans _ _ _ (hsame a y ha) (.trans _ _ _ (.symm _ _ hxy) (hsame x b hb.symm))
    · exact .rel _ _ (.inr (List.mem_cons_of_mem _ h))
  · refine eqvGen_le (fun a b h => ?_)
    rcases h with h | h
    · exact .rel _ _ (.inl ((joined_eq_iff rep x y a b).mpr (.inl h)))
    · rcases List.mem_cons.mp h with h | h
      · obtain ⟨rfl, rfl⟩ := Prod.mk.injEq .. ▸ h
        exact .rel _ _ (.inl ((joined_eq_iff rep _ _ _ _).mpr (.inr (.inl ⟨rfl, rfl⟩))))
      · exact .rel _ _ (.inr h)

/-- A run of unions joins exactly what its pairs connect. -/
theorem unions_spec (fuel : ℕ) (pairs : List (α × α)) {parent : Parents α} {rep : α → α}
    {height : α → ℕ} {bound : ℕ} (h : Forest parent rep height bound)
    (hfuel : bound + pairs.length ≤ fuel) :
    ∃ rep' height', Forest (unions fuel parent pairs) rep' height' (bound + pairs.length) ∧
      ∀ a b, rep' a = rep' b ↔ Relation.EqvGen (Together rep pairs) a b := by
  induction pairs generalizing parent rep height bound with
  | nil =>
    have hker : Equivalence (Together rep []) := by
      refine ⟨fun a => .inl rfl, fun h => ?_, fun h k => ?_⟩
      · exact .inl (h.resolve_right (by simp)).symm
      · exact .inl ((h.resolve_right (by simp)).trans (k.resolve_right (by simp)))
    exact ⟨rep, height, h, fun a b => by simp [hker.eqvGen_iff, Together]⟩
  | cons xy pairs ih =>
    obtain ⟨x, y⟩ := xy
    rw [List.length_cons] at hfuel ⊢
    obtain ⟨height₁, h₁⟩ := h.union fuel (by omega) x y
    obtain ⟨rep', height', h', hrep⟩ := ih h₁ (by omega)
    refine ⟨rep', height', ?_, fun a b => (hrep a b).trans (together_cons rep x y pairs a b)⟩
    rw [show bound + (pairs.length + 1) = bound + 1 + pairs.length by omega]
    exact h'

theorem roots_eq (fuel : ℕ) (xs : List α) {parent : Parents α} {rep : α → α} {height : α → ℕ}
    {bound : ℕ} (h : Forest parent rep height bound) (hfuel : bound < fuel) :
    roots fuel parent xs = xs.map rep := by
  induction xs generalizing parent with
  | nil => rfl
  | cons x xs ih =>
    obtain ⟨hx, hf⟩ := h.find fuel x (by omega)
    rw [roots, hx, ih hf, List.map_cons]

/-- Counting the distinct roots after the unions counts the components. -/
theorem roots_components (fuel : ℕ) (pairs : List (α × α)) (xs : List α)
    (hfuel : pairs.length < fuel) (hpairs : ∀ p ∈ pairs, p.1 ∈ xs ∧ p.2 ∈ xs) :
    (roots fuel (unions fuel id pairs) xs).dedup.length =
      components (fun a b => (a, b) ∈ pairs) xs.toFinset := by
  obtain ⟨rep, height, h, hrep⟩ := unions_spec fuel pairs forest_id (by omega)
  have himage : (xs.map rep).toFinset = xs.toFinset.image rep := by
    ext z
    simp
  rw [roots_eq fuel xs h (by omega), ← List.card_toFinset, himage]
  refine components_eq_card _ _ rep (fun a _ b _ => (hrep a b).trans ?_)
  constructor
  · refine eqvGen_le (fun a b hab => ?_)
    rcases hab with rfl | hab
    · exact .refl _
    · obtain ⟨ha, hb⟩ := hpairs _ hab
      exact .rel _ _ ⟨List.mem_toFinset.mpr ha, List.mem_toFinset.mpr hb, hab⟩
  · exact eqvGen_le (fun a b hab => .rel _ _ (.inr hab.2.2))

end AigentSquad.DisjointSets
