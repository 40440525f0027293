import Mathlib.Logic.Function.Basic
import Mathlib.Order.Lattice

/-!
# A store whose entries expire

Every entry has a deadline and is gone for readers once the clock is past it.
Writing when absent and deleting when equal are single commands.
-/

set_option autoImplicit false

namespace AigentSquad.ExpiringStore

structure Entry (V T : Type) where
  value : V
  deadline : T
deriving DecidableEq

abbrev Store (K V T : Type) := K → Option (Entry V T)

variable {K V T : Type}

section Writing
variable [DecidableEq K]

def write (s : Store K V T) (k : K) (v : V) (deadline : T) : Store K V T :=
  Function.update s k (some ⟨v, deadline⟩)

@[simp] theorem write_same (s : Store K V T) (k : K) (v : V) (d : T) :
    write s k v d k = some ⟨v, d⟩ := by
  simp [write]

theorem write_other (s : Store K V T) (j k : K) (v : V) (d : T) (h : j ≠ k) :
    write s k v d j = s j := by
  simp [write, h]

end Writing

variable [LinearOrder T]

def get (s : Store K V T) (now : T) (k : K) : Option V :=
  match s k with
  | none => none
  | some e => if now ≤ e.deadline then some e.value else none

theorem get_eq_some (s : Store K V T) (now : T) (k : K) (v : V) :
    get s now k = some v ↔ ∃ d, s k = some ⟨v, d⟩ ∧ now ≤ d := by
  unfold get
  constructor
  · intro h
    cases hk : s k with
    | none => simp [hk] at h
    | some e =>
      rw [hk] at h
      by_cases hd : now ≤ e.deadline
      · simp only [hd, ↓reduceIte, Option.some.injEq] at h
        exact ⟨e.deadline, by rw [← h], hd⟩
      · simp [hd] at h
  · rintro ⟨d, hk, hd⟩
    simp [hk, hd]

theorem get_eq_none (s : Store K V T) (now : T) (k : K) :
    get s now k = none ↔ ∀ e, s k = some e → e.deadline < now := by
  unfold get
  cases s k with
  | none => simp
  | some e => simp

/-- Time only takes entries away. -/
theorem get_of_later (s : Store K V T) (now later : T) (k : K) (v : V) (hle : now ≤ later)
    (h : get s later k = some v) : get s now k = some v := by
  obtain ⟨d, hk, hd⟩ := (get_eq_some s later k v).mp h
  exact (get_eq_some s now k v).mpr ⟨d, hk, le_trans hle hd⟩

variable [DecidableEq K]

def set_nx (s : Store K V T) (now : T) (k : K) (v : V) (deadline : T) : Store K V T :=
  match get s now k with
  | none => write s k v deadline
  | some _ => s

def delete_if (s : Store K V T) (now : T) (k : K) (v : V) [DecidableEq V] : Store K V T :=
  if get s now k = some v then Function.update s k none else s

theorem get_write_same (s : Store K V T) (now : T) (k : K) (v : V) (d : T) (hd : now ≤ d) :
    get (write s k v d) now k = some v :=
  (get_eq_some _ now k v).mpr ⟨d, write_same s k v d, hd⟩

theorem set_nx_of_absent (s : Store K V T) (now : T) (k : K) (v : V) (d : T)
    (h : get s now k = none) : set_nx s now k v d = write s k v d := by
  simp [set_nx, h]

/-- An entry that is still there is not overwritten. -/
theorem set_nx_keeps (s : Store K V T) (now : T) (j k : K) (v : V) (d : T) (e : Entry V T)
    (hj : s j = some e) (hlive : now ≤ e.deadline) : set_nx s now k v d j = some e := by
  unfold set_nx
  cases hk : get s now k with
  | some _ => exact hj
  | none =>
    have hne : j ≠ k := by
      intro h
      subst h
      exact absurd ((get_eq_none s now j).mp hk e hj) (not_lt.mpr hlive)
    simp only [write_other s j k v d hne, hj]

/-- Only an entry with the given value is deleted. -/
theorem delete_if_keeps [DecidableEq V] (s : Store K V T) (now : T) (j k : K) (v : V)
    (e : Entry V T) (hj : s j = some e) (hv : e.value ≠ v) : delete_if s now k v j = some e := by
  unfold delete_if
  by_cases hk : get s now k = some v
  · obtain ⟨d, hd, _⟩ := (get_eq_some s now k v).mp hk
    have hne : j ≠ k := by
      intro h
      subst h
      rw [hj, Option.some.injEq] at hd
      exact hv (by rw [hd])
    simp [hk, hne, hj]
  · simp [hk, hj]

end AigentSquad.ExpiringStore
