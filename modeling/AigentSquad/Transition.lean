import Mathlib.Data.List.Basic

/-!
# Labelled runs

A machine is a partial step function on states and labels. A label the state
does not enable has no successor. `exec` is a whole run, `Along` is a condition
met at every step a run takes, and the invariant rules lift one step to a run.
-/

set_option autoImplicit false

namespace AigentSquad.Transition

variable {S L : Type}

def exec (step : S → L → Option S) : S → List L → Option S
  | s, [] => some s
  | s, l :: ls => (step s l).bind (fun t => exec step t ls)

@[simp] theorem exec_nil (step : S → L → Option S) (s : S) : exec step s [] = some s := rfl

@[simp] theorem exec_cons (step : S → L → Option S) (s : S) (l : L) (ls : List L) :
    exec step s (l :: ls) = (step s l).bind (fun t => exec step t ls) := rfl

def Along (step : S → L → Option S) (P : S → L → Prop) : S → List L → Prop
  | _, [] => True
  | s, l :: ls => P s l ∧ ∀ t, step s l = some t → Along step P t ls

instance decidableAlong (step : S → L → Option S) (P : S → L → Prop)
    [∀ s l, Decidable (P s l)] : (s : S) → (ls : List L) → Decidable (Along step P s ls)
  | _, [] => inferInstanceAs (Decidable True)
  | s, l :: ls =>
    match h : step s l with
    | none => decidable_of_iff (P s l) (by simp [Along, h])
    | some t =>
      have := decidableAlong step P t ls
      decidable_of_iff (P s l ∧ Along step P t ls) (by simp [Along, h])

theorem along_append (step : S → L → Option S) (P : S → L → Prop) (s : S) (ls ms : List L) :
    Along step P s (ls ++ ms) ↔
      Along step P s ls ∧ ∀ t, exec step s ls = some t → Along step P t ms := by
  induction ls generalizing s with
  | nil => simp [Along]
  | cons l ls ih =>
    simp only [List.cons_append, Along, ih, exec_cons]
    cases step s l with
    | none => simp
    | some t => simp [and_assoc]

theorem along_of_mem {step : S → L → Option S} {P : S → L → Prop} (s : S) (ls : List L)
    (h : ∀ t, ∀ l ∈ ls, P t l) : Along step P s ls := by
  induction ls generalizing s with
  | nil => trivial
  | cons l ls ih =>
    constructor
    · exact h s l List.mem_cons_self
    · exact fun t _ => ih t (fun u m hm => h u m (List.mem_cons_of_mem l hm))

theorem along_of_forall {step : S → L → Option S} {P : S → L → Prop} (h : ∀ s l, P s l) (s : S)
    (ls : List L) : Along step P s ls :=
  along_of_mem s ls (fun t l _ => h t l)

theorem Along.mono {step : S → L → Option S} {P Q : S → L → Prop} (hpq : ∀ s l, P s l → Q s l)
    {s : S} {ls : List L} (h : Along step P s ls) : Along step Q s ls := by
  induction ls generalizing s with
  | nil => trivial
  | cons l ls ih => exact ⟨hpq s l h.1, fun t ht => ih (h.2 t ht)⟩

theorem Along.and {step : S → L → Option S} {P Q : S → L → Prop} {s : S} {ls : List L}
    (hp : Along step P s ls) (hq : Along step Q s ls) :
    Along step (fun s l => P s l ∧ Q s l) s ls := by
  induction ls generalizing s with
  | nil => trivial
  | cons l ls ih => exact ⟨⟨hp.1, hq.1⟩, fun t ht => ih (hp.2 t ht) (hq.2 t ht)⟩

/-- Run rule: an invariant kept by every step that meets the condition holds
at the end of every run whose steps meet it. -/
theorem exec_invariant {step : S → L → Option S} {P : S → L → Prop} {I : S → Prop}
    (hstep : ∀ s l t, step s l = some t → P s l → I s → I t)
    {s t : S} {ls : List L} (hs : I s) (ha : Along step P s ls)
    (h : exec step s ls = some t) : I t := by
  induction ls generalizing s with
  | nil =>
    simp only [exec_nil, Option.some.injEq] at h
    exact h ▸ hs
  | cons l ls ih =>
    simp only [exec_cons, Option.bind_eq_some_iff] at h
    obtain ⟨u, hu, h⟩ := h
    exact ih (hstep s l u hu ha.1 hs) (ha.2 u hu) h

/-- Every state a run passes through is the end of one of its prefixes. -/
def Throughout (step : S → L → Option S) (G : S → Prop) (s : S) (ls : List L) : Prop :=
  ∀ pre suf t, ls = pre ++ suf → exec step s pre = some t → G t

theorem throughout_of_invariant {step : S → L → Option S} {P : S → L → Prop}
    {I G : S → Prop} (hstep : ∀ s l t, step s l = some t → P s l → I s → I t)
    (hgood : ∀ s, I s → G s) {s : S} {ls : List L} (hs : I s)
    (ha : Along step P s ls) : Throughout step G s ls := by
  intro pre suf t hsplit ht
  subst hsplit
  exact hgood t (exec_invariant hstep hs ((along_append step P s pre suf).mp ha).1 ht)

theorem throughout_nil (step : S → L → Option S) (G : S → Prop) (s : S) :
    Throughout step G s [] ↔ G s := by
  constructor
  · intro h
    exact h [] [] s rfl rfl
  · intro h pre suf t hsplit ht
    have hpre : pre = [] := (List.append_eq_nil_iff.mp hsplit.symm).1
    subst hpre
    simp only [exec_nil, Option.some.injEq] at ht
    exact ht ▸ h

theorem throughout_cons (step : S → L → Option S) (G : S → Prop) (s : S) (l : L)
    (ls : List L) :
    Throughout step G s (l :: ls) ↔
      G s ∧ ∀ t, step s l = some t → Throughout step G t ls := by
  constructor
  · intro h
    constructor
    · exact h [] (l :: ls) s rfl rfl
    · intro t ht pre suf u hsplit hu
      apply h (l :: pre) suf u
      · rw [hsplit, List.cons_append]
      · rw [exec_cons, ht, Option.bind_some, hu]
  · intro h pre suf t hsplit ht
    cases pre with
    | nil =>
      simp only [exec_nil, Option.some.injEq] at ht
      exact ht ▸ h.1
    | cons m pre =>
      simp only [List.cons_append, List.cons.injEq] at hsplit
      obtain ⟨rfl, hsplit⟩ := hsplit
      simp only [exec_cons, Option.bind_eq_some_iff] at ht
      obtain ⟨u, hu, ht⟩ := ht
      exact h.2 u hu pre suf t hsplit ht

theorem along_cons_of_step {step : S → L → Option S} {P : S → L → Prop} {s t : S} {l : L}
    {ls : List L} (h : step s l = some t) :
    Along step P s (l :: ls) ↔ P s l ∧ Along step P t ls := by
  simp [Along, h]

/-- What an invariant gives for every step holds along a run. -/
theorem along_of_invariant {step : S → L → Option S} {P Q : S → L → Prop} {I : S → Prop}
    (hstep : ∀ s l t, step s l = some t → P s l → I s → I t)
    (hgood : ∀ s l, P s l → I s → Q s l) {s : S} {ls : List L} (hs : I s)
    (ha : Along step P s ls) : Along step Q s ls := by
  induction ls generalizing s with
  | nil => trivial
  | cons l ls ih =>
    constructor
    · exact hgood s l ha.1 hs
    · exact fun t ht => ih (hstep s l t ht ha.1 hs) (ha.2 t ht)

/-- Two step conditions that agree under an invariant agree along a run. -/
theorem along_congr {step : S → L → Option S} {P Q R : S → L → Prop} {I : S → Prop}
    (hstep : ∀ s l t, step s l = some t → P s l → I s → I t)
    (hiff : ∀ s l, P s l → I s → (Q s l ↔ R s l)) {s : S} {ls : List L} (hs : I s)
    (ha : Along step P s ls) : Along step Q s ls ↔ Along step R s ls := by
  induction ls generalizing s with
  | nil => exact Iff.rfl
  | cons l ls ih =>
    have hrest : ∀ t, step s l = some t → (Along step Q t ls ↔ Along step R t ls) :=
      fun t ht => ih (hstep s l t ht ha.1 hs) (ha.2 t ht)
    have hhead : Q s l ↔ R s l := hiff s l ha.1 hs
    constructor
    · intro h
      exact ⟨hhead.mp h.1, fun t ht => (hrest t ht).mp (h.2 t ht)⟩
    · intro h
      exact ⟨hhead.mpr h.1, fun t ht => (hrest t ht).mpr (h.2 t ht)⟩

/-- Where a step from a good state is again good exactly on a condition, a run
stays good exactly while its steps meet it. -/
theorem throughout_iff_along {step : S → L → Option S} {P Q : S → L → Prop}
    {I G : S → Prop} (hstep : ∀ s l t, step s l = some t → P s l → I s → I t)
    (hiff : ∀ s l, P s l → I s → G s → ((∀ t, step s l = some t → G t) ↔ Q s l))
    {s : S} {ls : List L} (hs : I s) (hg : G s) (ha : Along step P s ls) :
    Throughout step G s ls ↔ Along step Q s ls := by
  induction ls generalizing s with
  | nil => simp [throughout_nil, hg, Along]
  | cons l ls ih =>
    rw [throughout_cons]
    constructor
    · intro h
      have hnext : ∀ t, step s l = some t → G t := by
        intro t ht
        have := h.2 t ht
        exact this [] ls t rfl rfl
      constructor
      · exact (hiff s l ha.1 hs hg).mp hnext
      · intro t ht
        exact (ih (hstep s l t ht ha.1 hs) (hnext t ht) (ha.2 t ht)).mp (h.2 t ht)
    · intro h
      have hnext := (hiff s l ha.1 hs hg).mpr h.1
      constructor
      · exact hg
      · intro t ht
        exact (ih (hstep s l t ht ha.1 hs) (hnext t ht) (ha.2 t ht)).mpr (h.2 t ht)

end AigentSquad.Transition
