import Mathlib.Data.List.Infix

/-!
# First occurrences of a delimiter

A text is cut at the first occurrence of a delimiter: nothing before the end of
that occurrence holds another one. Nothing here names a particular program.
-/

set_option autoImplicit false

namespace AigentSquad.Delimiter

variable {α : Type}

/-- `a` stands before the first occurrence of `m` in `a ++ m`. -/
def FirstAfter (m a : List α) : Prop := ¬ m <:+: (a ++ m).dropLast

theorem firstAfter_nil (m : List α) (hm : m ≠ []) : FirstAfter m [] := by
  intro h
  have hlength := h.length_le
  have hpos := List.length_pos_of_ne_nil hm
  rw [List.nil_append, List.length_dropLast] at hlength
  omega

theorem dropLast_cons_append (c : α) (a m : List α) (hm : m ≠ []) :
    ((c :: a) ++ m).dropLast = c :: (a ++ m).dropLast := by
  rw [List.cons_append, List.dropLast_cons_of_ne_nil]
  exact List.append_ne_nil_of_right_ne_nil a hm

theorem firstAfter_cons (c : α) (a m : List α) (hm : m ≠ []) :
    FirstAfter m (c :: a) ↔ ¬ m <+: c :: (a ++ m).dropLast ∧ FirstAfter m a := by
  rw [FirstAfter, dropLast_cons_append c a m hm, List.infix_cons_iff, not_or]
  rfl

/-- A delimiter that begins a text before its first occurrence is found there. -/
theorem prefix_dropLast (m x s : List α) (hx : x ≠ []) (h : m <+: x ++ m ++ s) :
    m <+: (x ++ m).dropLast := by
  have hbefore : (x ++ m).dropLast <+: x ++ m ++ s :=
    (List.dropLast_prefix _).trans (List.prefix_append _ _)
  apply List.prefix_of_prefix_length_le h hbefore
  have hpos := List.length_pos_of_ne_nil hx
  rw [List.length_dropLast, List.length_append]
  omega

theorem nil_of_prefix (m a b : List α) (h : m <+: a ++ m ++ b) (hfirst : FirstAfter m a) :
    a = [] := by
  by_contra ha
  exact hfirst (prefix_dropLast m a b ha h).isInfix

/-- A delimiter whose first entry is nowhere else in it does not overlap itself. -/
theorem firstAfter_iff (c : α) (m a : List α) (hc : c ∉ m) :
    FirstAfter (c :: m) a ↔ ¬ c :: m <:+: a := by
  rw [FirstAfter, List.dropLast_append_of_ne_nil (List.cons_ne_nil c m), not_iff_not]
  constructor
  · intro h
    rcases List.infix_append_iff.mp h with ha | hm | ⟨u, v, huv, hu, hv⟩
    · exact ha
    · have hlength := hm.length_le
      rw [List.length_dropLast, List.length_cons] at hlength
      omega
    · cases v with
      | nil =>
        rw [huv, List.append_nil]
        exact hu.isInfix
      | cons d v =>
        cases u with
        | nil =>
          have hlength := hv.length_le
          rw [← List.nil_append (d :: v), ← huv, List.length_dropLast, List.length_cons] at hlength
          omega
        | cons e u =>
          obtain ⟨rfl, hm⟩ := List.cons.inj huv
          have hd : d = c := by
            obtain ⟨t, ht⟩ := hv.trans (List.dropLast_prefix _)
            exact (List.cons.inj ht).1
          rw [hm, hd] at hc
          exact absurd (List.mem_append_right u List.mem_cons_self) hc
  · exact List.infix_append_of_infix_left

section Cut
variable [DecidableEq α]

/-- What stands before and after the first occurrence of the delimiter. -/
def cut (m : List α) : List α → Option (List α × List α)
  | [] => if m = [] then some ([], []) else none
  | c :: s =>
    if m.isPrefixOf (c :: s) then some ([], (c :: s).drop m.length)
    else (cut m s).map (fun p => (c :: p.1, p.2))

theorem prefix_of_append {m s : List α} (h : m.isPrefixOf s = true) :
    s = m ++ s.drop m.length := by
  obtain ⟨t, rfl⟩ := List.isPrefixOf_iff_prefix.mp h
  rw [List.drop_left]

/-- The cut is at the first occurrence. -/
theorem cut_iff (m s a b : List α) (hm : m ≠ []) :
    cut m s = some (a, b) ↔ s = a ++ m ++ b ∧ FirstAfter m a := by
  induction s generalizing a with
  | nil =>
    rw [cut, if_neg hm]
    constructor
    · intro h
      cases h
    · rintro ⟨h, -⟩
      exact absurd (List.append_eq_nil_iff.mp (List.append_eq_nil_iff.mp h.symm).1).2 hm
  | cons c s ih =>
    rw [cut]
    by_cases hprefix : m.isPrefixOf (c :: s) = true
    · rw [if_pos hprefix, Option.some.injEq, Prod.mk.injEq]
      have hs := prefix_of_append hprefix
      constructor
      · rintro ⟨rfl, rfl⟩
        exact ⟨hs, firstAfter_nil m hm⟩
      · rintro ⟨heq, hfirst⟩
        have hnil : a = [] :=
          nil_of_prefix m a b (heq ▸ List.isPrefixOf_iff_prefix.mp hprefix) hfirst
        subst hnil
        exact ⟨rfl, List.append_cancel_left (hs.symm.trans heq)⟩
    · rw [if_neg hprefix, Option.map_eq_some_iff]
      constructor
      · rintro ⟨⟨x, y⟩, hcut, heq⟩
        obtain ⟨rfl, rfl⟩ := Prod.mk.inj heq
        obtain ⟨rfl, hfirst⟩ := (ih x).mp hcut
        refine ⟨rfl, (firstAfter_cons c x m hm).mpr ⟨?_, hfirst⟩⟩
        intro hbegin
        apply hprefix
        apply List.isPrefixOf_iff_prefix.mpr
        apply hbegin.trans
        rw [← dropLast_cons_append c x m hm]
        exact (List.dropLast_prefix _).trans (List.prefix_append _ _)
      · rintro ⟨heq, hfirst⟩
        cases a with
        | nil =>
          apply absurd _ hprefix
          apply List.isPrefixOf_iff_prefix.mpr
          rw [heq, List.nil_append]
          exact List.prefix_append m b
        | cons d a =>
          obtain ⟨rfl, rfl⟩ := List.cons.inj heq
          exact ⟨(a, b), (ih a).mpr ⟨rfl, ((firstAfter_cons c a m hm).mp hfirst).2⟩, rfl⟩

theorem cut_none_iff (m s : List α) (hm : m ≠ []) : cut m s = none ↔ ¬ m <:+: s := by
  induction s with
  | nil =>
    rw [cut, if_neg hm, List.infix_nil]
    exact ⟨fun _ => hm, fun _ => rfl⟩
  | cons c s ih =>
    rw [cut, List.infix_cons_iff, not_or]
    by_cases hprefix : m.isPrefixOf (c :: s) = true
    · rw [if_pos hprefix]
      constructor
      · intro h
        cases h
      · exact fun h => absurd (List.isPrefixOf_iff_prefix.mp hprefix) h.1
    · rw [if_neg hprefix, Option.map_eq_none_iff, ih]
      exact ⟨fun h => ⟨fun hp => hprefix (List.isPrefixOf_iff_prefix.mpr hp), h⟩, fun h => h.2⟩

/-- What follows a first occurrence is not the whole text. -/
theorem cut_whole_iff (m s : List α) (hm : m ≠ []) :
    (∀ x y, cut m s = some (x, y) → y = s) ↔ ¬ m <:+: s := by
  rw [← cut_none_iff m s hm]
  constructor
  · intro h
    cases hcut : cut m s with
    | none => rfl
    | some p =>
      have hlength := congrArg List.length ((cut_iff m s p.1 p.2 hm).mp hcut).1
      rw [h p.1 p.2 hcut, List.length_append, List.length_append] at hlength
      have := List.length_pos_of_ne_nil hm
      omega
  · intro h x y hcut
    rw [h] at hcut
    cases hcut

/-- What follows the first occurrence of the delimiter, where there is one, is
`b`, if the delimiter stands at the end of `t` or `b` is empty. -/
theorem cut_rest_iff (m t b : List α) (hm : m ≠ []) (ht : t ≠ []) (hend : m <:+ t ∨ b = []) :
    (∀ x y, cut m (t ++ b) = some (x, y) → y = b) ↔ ¬ m <:+: t.dropLast := by
  constructor
  · rintro h ⟨u, v, huv⟩
    have hlast : t = u ++ m ++ v ++ [t.getLast ht] := by
      rw [huv, List.dropLast_append_getLast]
    cases hcut : cut m (t ++ b) with
    | none =>
      apply (cut_none_iff m (t ++ b) hm).mp hcut
      rw [hlast]
      exact ⟨u, v ++ [t.getLast ht] ++ b, by simp only [List.append_assoc]⟩
    | some p =>
      obtain ⟨x, y⟩ := p
      have hy := h x y hcut
      obtain ⟨hsplit, hfirst⟩ := (cut_iff m (t ++ b) x y hm).mp hcut
      rw [hy] at hsplit
      have hwhole : t = x ++ m := List.append_cancel_right hsplit
      apply hfirst
      rw [← hwhole, ← huv]
      exact ⟨u, v, rfl⟩
  · intro hfree x y hcut
    obtain ⟨hsplit, hfirst⟩ := (cut_iff m (t ++ b) x y hm).mp hcut
    rcases List.append_eq_append_iff.mp hsplit with ⟨w, hw, hb⟩ | ⟨w, hw, hy⟩
    · cases w with
      | nil => exact hb.symm
      | cons d w =>
        rcases hend with hsuffix | rfl
        · apply absurd _ hfirst
          apply (hsuffix.isInfix).trans
          rw [hw, List.dropLast_append_of_ne_nil (List.cons_ne_nil d w)]
          exact (List.prefix_append t _).isInfix
        · cases hb
    · cases w with
      | nil => exact hy
      | cons d w =>
        apply absurd _ hfree
        rw [hw, List.dropLast_append_of_ne_nil (List.cons_ne_nil d w)]
        exact ⟨x, (d :: w).dropLast, rfl⟩

/-- What stands before, inside and after the first opening delimiter and the
first closing one after it. -/
def enclosed (o c s : List α) : Option (List α × List α × List α) :=
  (cut o s).bind (fun p => (cut c p.2).map (fun q => (p.1, q.1, q.2)))

theorem enclosed_iff (o c s before inside after : List α) (ho : o ≠ []) (hc : c ≠ []) :
    enclosed o c s = some (before, inside, after) ↔
      s = before ++ o ++ (inside ++ c ++ after) ∧ FirstAfter o before ∧ FirstAfter c inside := by
  rw [enclosed, Option.bind_eq_some_iff]
  constructor
  · rintro ⟨⟨x, y⟩, hcut, hrest⟩
    obtain ⟨⟨z, w⟩, hcut', heq⟩ := Option.map_eq_some_iff.mp hrest
    obtain ⟨rfl, rfl, rfl⟩ := heq
    obtain ⟨rfl, hopening⟩ := (cut_iff o s x y ho).mp hcut
    obtain ⟨rfl, hclosing⟩ := (cut_iff c y z w hc).mp hcut'
    exact ⟨rfl, hopening, hclosing⟩
  · rintro ⟨rfl, hopening, hclosing⟩
    have hcut := (cut_iff o _ before (inside ++ c ++ after) ho).mpr ⟨rfl, hopening⟩
    have hcut' := (cut_iff c _ inside after hc).mpr ⟨rfl, hclosing⟩
    exact ⟨_, hcut, Option.map_eq_some_iff.mpr ⟨_, hcut', rfl⟩⟩

end Cut

end AigentSquad.Delimiter
