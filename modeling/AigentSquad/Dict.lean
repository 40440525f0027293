import Mathlib.Data.List.Nodup
import Mathlib.Data.List.Perm.Subperm

/-!
# Ordered dictionaries

A dictionary as the list of its entries in insertion order. Writing a key that
is present replaces its value in place.
-/

set_option autoImplicit false

namespace AigentSquad.Dict

variable {K V : Type} [DecidableEq K]

abbrev Entries (K V : Type) := List (K × V)

def get (d : Entries K V) (k : K) : Option V := (d.find? (fun e => e.1 = k)).map Prod.snd

def has (d : Entries K V) (k : K) : Bool := d.any (fun e => e.1 = k)

def put (d : Entries K V) (k : K) (v : V) : Entries K V :=
  if has d k then d.map (fun e => if e.1 = k then (k, v) else e) else d ++ [(k, v)]

def erase (d : Entries K V) (k : K) : Entries K V := d.filter (fun e => e.1 ≠ k)

def update (d e : Entries K V) : Entries K V := e.foldl (fun d kv => put d kv.1 kv.2) d

@[simp] theorem get_nil (k : K) : get ([] : Entries K V) k = none := rfl

theorem get_cons (k j : K) (v : V) (d : Entries K V) :
    get ((k, v) :: d) j = if k = j then some v else get d j := by
  by_cases h : k = j
  · simp [get, h]
  · simp [get, h]

theorem has_iff_get (d : Entries K V) (k : K) : has d k = true ↔ ∃ v, get d k = some v := by
  induction d with
  | nil => simp [has]
  | cons e d ih =>
    obtain ⟨j, w⟩ := e
    rw [get_cons]
    by_cases h : j = k
    · simp [has, h]
    · simpa [has, h] using ih

theorem get_append_none (d e : Entries K V) (k : K) (h : has d k = false) :
    get (d ++ e) k = get e k := by
  induction d with
  | nil => rfl
  | cons p d ih =>
    obtain ⟨j, w⟩ := p
    have hj : j ≠ k := by
      rintro rfl
      simp [has] at h
    rw [List.cons_append, get_cons, if_neg hj]
    exact ih (by simpa [has, hj] using h)

theorem get_append_single (d : Entries K V) (k j : K) (v : V) (h : j ≠ k) :
    get (d ++ [(k, v)]) j = get d j := by
  induction d with
  | nil => simp [get_cons, h.symm]
  | cons p d ih =>
    obtain ⟨i, w⟩ := p
    rw [List.cons_append, get_cons, get_cons, ih]

theorem get_map_same (d : Entries K V) (k : K) (v : V) (h : has d k = true) :
    get (d.map (fun e => if e.1 = k then (k, v) else e)) k = some v := by
  induction d with
  | nil => cases h
  | cons p d ih =>
    obtain ⟨i, w⟩ := p
    by_cases hi : i = k
    · simp [hi, get_cons]
    · have htail : has d k = true := by simpa [has, hi] using h
      simpa [hi, get_cons] using ih htail

theorem get_map_other (d : Entries K V) (k j : K) (v : V) (h : j ≠ k) :
    get (d.map (fun e => if e.1 = k then (k, v) else e)) j = get d j := by
  induction d with
  | nil => rfl
  | cons p d ih =>
    obtain ⟨i, w⟩ := p
    by_cases hi : i = k
    · have hj : i ≠ j := fun hij => h (hij.symm.trans hi)
      simpa [hi, get_cons, h.symm] using ih
    · by_cases hj : i = j
      · simp [hj, get_cons, h]
      · simpa [hi, hj, get_cons] using ih

@[simp] theorem get_put_same (d : Entries K V) (k : K) (v : V) : get (put d k v) k = some v := by
  unfold put
  by_cases h : has d k = true
  · rw [if_pos h]
    exact get_map_same d k v h
  · rw [if_neg h, get_append_none d _ k (by simpa using h), get_cons, if_pos rfl]

theorem get_put_other (d : Entries K V) (k j : K) (v : V) (h : j ≠ k) :
    get (put d k v) j = get d j := by
  unfold put
  by_cases hk : has d k = true
  · rw [if_pos hk]
    exact get_map_other d k j v h
  · rw [if_neg hk]
    exact get_append_single d k j v h

theorem mem_of_get (d : Entries K V) (k : K) (v : V) (h : get d k = some v) : (k, v) ∈ d := by
  induction d with
  | nil => cases h
  | cons p d ih =>
    obtain ⟨j, w⟩ := p
    rw [get_cons] at h
    by_cases hj : j = k
    · rw [if_pos hj, Option.some.injEq] at h
      simp [hj, h]
    · rw [if_neg hj] at h
      exact List.mem_cons_of_mem _ (ih h)

/-- The first of `f start, f (start + 1), …` that is no key, among `fuel` tried. -/
def freeFrom (d : Entries K V) (f : Nat → K) : Nat → Nat → Nat
  | 0, start => start
  | fuel + 1, start => if has d (f start) then freeFrom d f fuel (start + 1) else start

theorem freeFrom_taken (d : Entries K V) (f : Nat → K) (fuel start : Nat)
    (h : has d (f (freeFrom d f fuel start)) = true) :
    ∀ i, i ≤ fuel → has d (f (start + i)) = true := by
  induction fuel generalizing start with
  | zero =>
    intro i hi
    have hzero : i = 0 := by omega
    rw [hzero]
    exact h
  | succ fuel ih =>
    intro i hi
    rw [freeFrom] at h
    by_cases hs : has d (f start) = true
    · rw [if_pos hs] at h
      cases i with
      | zero => exact hs
      | succ i =>
        have hnext := ih (start + 1) h i (by omega)
        rwa [show start + 1 + i = start + (i + 1) by omega] at hnext
    · rw [if_neg hs] at h
      exact absurd h hs

/-- Names that are all different run out of keys to clash with. -/
theorem freeFrom_free (d : Entries K V) (f : Nat → K) (hf : ∀ i j, f i = f j → i = j) (start : Nat) :
    has d (f (freeFrom d f d.length start)) = false := by
  by_contra hcon
  have htaken := freeFrom_taken d f d.length start (by simpa using hcon)
  have hsub : ((List.range (d.length + 1)).map (fun i => f (start + i))) ⊆ d.map Prod.fst := by
    intro k hk
    obtain ⟨i, hi, rfl⟩ := List.mem_map.mp hk
    obtain ⟨v, hv⟩ := (has_iff_get d _).mp (htaken i (by have := List.mem_range.mp hi; omega))
    exact List.mem_map.mpr ⟨_, mem_of_get d _ v hv, rfl⟩
  have hnodup : ((List.range (d.length + 1)).map (fun i => f (start + i))).Nodup := by
    refine List.Nodup.map ?_ List.nodup_range
    intro i j hij
    have := hf _ _ hij
    omega
  have hle := (hnodup.subperm hsub).length_le
  simp only [List.length_map, List.length_range] at hle
  omega

end AigentSquad.Dict
