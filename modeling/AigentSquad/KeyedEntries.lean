import AigentSquad.Dict
import Mathlib.Data.List.Forall2
import Mathlib.Data.Option.Basic

/-!
# Entries related key by key

Two dictionaries with the same keys in the same order, their values related.
The results of a pass over a dictionary, and of a pass after it, are stated so.
Nothing here names a particular program.
-/

set_option autoImplicit false

namespace AigentSquad.KeyedEntries
open AigentSquad.Dict

variable {K V W X ε α β : Type}

def Keyed (R : K → V → W → Prop) (d : Entries K V) (e : Entries K W) : Prop :=
  List.Forall₂ (fun p r => r.1 = p.1 ∧ R p.1 p.2 r.2) d e

@[simp] theorem keyed_nil (R : K → V → W → Prop) : Keyed R [] [] := List.Forall₂.nil

theorem keyed_nil_left (R : K → V → W → Prop) (e : Entries K W) : Keyed R [] e ↔ e = [] :=
  List.forall₂_nil_left_iff

theorem keyed_cons (R : K → V → W → Prop) (k : K) (v : V) (d : Entries K V) (e : Entries K W) :
    Keyed R ((k, v) :: d) e ↔ ∃ w rest, R k v w ∧ Keyed R d rest ∧ e = (k, w) :: rest := by
  unfold Keyed
  rw [List.forall₂_cons_left_iff]
  constructor
  · rintro ⟨⟨j, w⟩, rest, ⟨rfl, hw⟩, hrest, rfl⟩
    exact ⟨w, rest, hw, hrest, rfl⟩
  · rintro ⟨w, rest, hw, hrest, rfl⟩
    exact ⟨(k, w), rest, ⟨rfl, hw⟩, hrest, rfl⟩

theorem Keyed.mono {R S : K → V → W → Prop} {d : Entries K V} {e : Entries K W}
    (hRS : ∀ k v w, (k, v) ∈ d → R k v w → S k v w) (h : Keyed R d e) : Keyed S d e := by
  induction h with
  | nil => exact keyed_nil S
  | @cons p r d e hp _ ih =>
    refine List.Forall₂.cons ⟨hp.1, hRS _ _ _ (by simp) hp.2⟩ (ih ?_)
    intro k v w hmem
    exact hRS k v w (List.mem_cons_of_mem p hmem)

/-- One pass after another. -/
theorem keyed_comp (R : K → V → W → Prop) (S : K → W → X → Prop) (d : Entries K V)
    (f : Entries K X) :
    (∃ e, Keyed R d e ∧ Keyed S e f) ↔ Keyed (fun k v x => ∃ w, R k v w ∧ S k w x) d f := by
  induction d generalizing f with
  | nil =>
    rw [keyed_nil_left]
    constructor
    · rintro ⟨e, he, hf⟩
      rw [(keyed_nil_left R e).mp he] at hf
      exact (keyed_nil_left S f).mp hf
    · rintro rfl
      exact ⟨[], keyed_nil R, keyed_nil S⟩
  | cons p d ih =>
    obtain ⟨k, v⟩ := p
    rw [keyed_cons]
    constructor
    · rintro ⟨e, he, hf⟩
      obtain ⟨w, rest, hw, hrest, rfl⟩ := (keyed_cons R k v d e).mp he
      obtain ⟨x, last, hx, hlast, rfl⟩ := (keyed_cons S k w rest f).mp hf
      exact ⟨x, last, ⟨w, hw, hx⟩, (ih last).mp ⟨rest, hrest, hlast⟩, rfl⟩
    · rintro ⟨x, last, ⟨w, hw, hx⟩, hlast, rfl⟩
      obtain ⟨rest, hrest, hlast⟩ := (ih last).mpr hlast
      exact ⟨(k, w) :: rest, (keyed_cons R k v d _).mpr ⟨w, rest, hw, hrest, rfl⟩,
        (keyed_cons S k w rest _).mpr ⟨x, last, hx, hlast, rfl⟩⟩

theorem Keyed.filter {R : K → V → W → Prop} {d : Entries K V} {e : Entries K W} (q : K → Bool)
    (h : Keyed R d e) :
    Keyed R (d.filter (fun p => q p.1)) (e.filter (fun r => q r.1)) := by
  induction h with
  | nil => exact keyed_nil R
  | @cons p r d e hp _ ih =>
    simp only [List.filter_cons, hp.1]
    by_cases hq : q p.1 = true
    · rw [if_pos hq, if_pos hq]
      exact List.Forall₂.cons hp ih
    · rw [if_neg hq, if_neg hq]
      exact ih

theorem get_filter [DecidableEq K] (d : Entries K V) (q : K → Bool) (k : K) (h : q k = true) :
    Dict.get (d.filter (fun p => q p.1)) k = Dict.get d k := by
  induction d with
  | nil => rfl
  | cons p d ih =>
    obtain ⟨j, v⟩ := p
    rw [get_cons, List.filter_cons]
    by_cases hj : j = k
    · rw [if_pos hj, if_pos (hj ▸ h), get_cons, if_pos hj]
    · rw [if_neg hj, ← ih]
      split_ifs
      · rw [get_cons, if_neg hj]
      · rfl

/-- A key is found on both sides or on neither. -/
theorem Keyed.get [DecidableEq K] {R : K → V → W → Prop} {d : Entries K V} {e : Entries K W}
    (h : Keyed R d e) (k : K) : Option.Rel (R k) (get d k) (get e k) := by
  induction h with
  | nil => exact Option.Rel.none
  | @cons p r d e hp _ ih =>
    obtain ⟨j, v⟩ := p
    obtain ⟨i, w⟩ := r
    obtain ⟨rfl, hw⟩ := hp
    rw [get_cons, get_cons]
    by_cases hk : i = k
    · rw [if_pos hk, if_pos hk]
      exact Option.Rel.some (hk ▸ hw)
    · rw [if_neg hk, if_neg hk]
      exact ih

theorem rel_some_left {R : V → W → Prop} {a : Option V} {b : Option W} (h : Option.Rel R a b)
    {v : V} (hv : a = some v) : ∃ w, b = some w ∧ R v w := by
  cases h with
  | some hR =>
    cases hv
    exact ⟨_, rfl, hR⟩
  | none => cases hv

theorem rel_some_right {R : V → W → Prop} {a : Option V} {b : Option W} (h : Option.Rel R a b)
    {w : W} (hw : b = some w) : ∃ v, a = some v ∧ R v w := by
  cases h with
  | some hR =>
    cases hw
    exact ⟨_, rfl, hR⟩
  | none => cases hw

theorem rel_none {R : V → W → Prop} {a : Option V} {b : Option W} (h : Option.Rel R a b)
    (ha : a = none) : b = none := by
  cases h with
  | some _ => cases ha
  | none => rfl

theorem Keyed.get_some [DecidableEq K] {R : K → V → W → Prop} {d : Entries K V}
    {e : Entries K W} (h : Keyed R d e) {k : K} {v : V} (hv : Dict.get d k = some v) :
    ∃ w, Dict.get e k = some w ∧ R k v w :=
  rel_some_left (h.get k) hv

theorem Keyed.get_right [DecidableEq K] {R : K → V → W → Prop} {d : Entries K V}
    {e : Entries K W} (h : Keyed R d e) {k : K} {w : W} (hw : Dict.get e k = some w) :
    ∃ v, Dict.get d k = some v ∧ R k v w :=
  rel_some_right (h.get k) hw

theorem Keyed.get_none [DecidableEq K] {R : K → V → W → Prop} {d : Entries K V}
    {e : Entries K W} (h : Keyed R d e) {k : K} (hv : Dict.get d k = none) :
    Dict.get e k = none :=
  rel_none (h.get k) hv

theorem Keyed.mem_left {R : K → V → W → Prop} {d : Entries K V} {e : Entries K W}
    (h : Keyed R d e) {k : K} {v : V} (hv : (k, v) ∈ d) : ∃ w, (k, w) ∈ e ∧ R k v w := by
  induction h with
  | nil => simp at hv
  | @cons p r d e hp _ ih =>
    rcases List.mem_cons.mp hv with rfl | hv
    · exact ⟨r.2, List.mem_cons.mpr (Or.inl (Prod.ext hp.1.symm rfl)), hp.2⟩
    · obtain ⟨w, hw, hR⟩ := ih hv
      exact ⟨w, List.mem_cons_of_mem r hw, hR⟩

theorem Keyed.mem_right {R : K → V → W → Prop} {d : Entries K V} {e : Entries K W}
    (h : Keyed R d e) {k : K} {w : W} (hw : (k, w) ∈ e) : ∃ v, (k, v) ∈ d ∧ R k v w := by
  induction h with
  | nil => simp at hw
  | @cons p r d e hp _ ih =>
    rcases List.mem_cons.mp hw with rfl | hw
    · obtain ⟨j, v⟩ := p
      obtain ⟨rfl, hR⟩ := hp
      exact ⟨v, by simp, hR⟩
    · obtain ⟨v, hv, hR⟩ := ih hw
      exact ⟨v, List.mem_cons_of_mem p hv, hR⟩

/-- A pass that takes every value takes the dictionary. -/
theorem keyed_exists (R : K → V → W → Prop) (d : Entries K V) :
    (∃ e, Keyed R d e) ↔ ∀ k v, (k, v) ∈ d → ∃ w, R k v w := by
  constructor
  · rintro ⟨e, h⟩ k v hv
    obtain ⟨w, _, hR⟩ := h.mem_left hv
    exact ⟨w, hR⟩
  · intro h
    induction d with
    | nil => exact ⟨[], keyed_nil R⟩
    | cons p d ih =>
      obtain ⟨k, v⟩ := p
      obtain ⟨w, hw⟩ := h k v (by simp)
      obtain ⟨rest, hrest⟩ := ih (fun j u hu => h j u (List.mem_cons_of_mem _ hu))
      exact ⟨(k, w) :: rest, (keyed_cons R k v d _).mpr ⟨w, rest, hw, hrest, rfl⟩⟩

/-- A step of a traversal that stops at the first exception. -/
theorem traversed_cons {x : Except ε α} {y : Except ε (List β)} {f : α → β} {out : List β} :
    (x >>= fun a => y >>= fun rest => pure (f a :: rest)) = .ok out ↔
      ∃ a rest, x = .ok a ∧ y = .ok rest ∧ out = f a :: rest := by
  cases x with
  | error e => simp [bind, Except.bind]
  | ok a =>
    cases y with
    | error e => simp [bind, Except.bind]
    | ok rest => simp [bind, Except.bind, pure, Except.pure, eq_comm]

end AigentSquad.KeyedEntries
