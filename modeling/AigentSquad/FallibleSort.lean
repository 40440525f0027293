import Mathlib.Data.List.Perm.Basic
import Mathlib.Data.List.Induction

/-!
# Sorting by a comparison that may fail

An insertion sort that stops at the first comparison that fails. Where the
comparison is lawful it fails exactly if two of the items cannot be compared.
-/

set_option autoImplicit false

namespace AigentSquad.FallibleSort

variable {α ε : Type} (lt : α → α → Except ε Bool)

def insert (e : α) : List α → Except ε (List α)
  | [] => .ok [e]
  | f :: fs => do
    if ← lt e f then .ok (e :: f :: fs)
    else
      let rest ← insert e fs
      .ok (f :: rest)

/-- A stable sort. -/
def sort (l : List α) : Except ε (List α) := l.foldlM (fun sorted e => insert lt e sorted) []

def Comparable (a b : α) : Prop := ∃ x, lt a b = .ok x

/-- No item is less than one before it. -/
def Sorted (l : List α) : Prop := l.Pairwise (fun a b => lt b a = .ok false)

/-- A strict weak order on the values of `P` that compare. -/
structure Lawful (P : α → Prop) : Prop where
  symm : ∀ a b, P a → P b → Comparable lt a b → Comparable lt b a
  asymm : ∀ a b, P a → P b → lt a b = .ok true → lt b a = .ok false
  trans : ∀ a b c, P a → P b → P c → lt a b = .ok true → lt c b = .ok false → lt c a = .ok false

theorem Lawful.comap {β : Type} {P : α → Prop} (laws : Lawful lt P) (f : β → α) :
    Lawful (fun a b => lt (f a) (f b)) (fun a => P (f a)) where
  symm a b := laws.symm (f a) (f b)
  asymm a b := laws.asymm (f a) (f b)
  trans a b c := laws.trans (f a) (f b) (f c)

theorem insert_cons (e f : α) (fs out : List α) :
    insert lt e (f :: fs) = .ok out ↔
      lt e f = .ok true ∧ out = e :: f :: fs ∨
        lt e f = .ok false ∧ ∃ rest, insert lt e fs = .ok rest ∧ out = f :: rest := by
  rw [insert]
  cases lt e f with
  | error x => simp [bind, Except.bind]
  | ok less =>
    cases less with
    | true => simp [bind, Except.bind, eq_comm]
    | false =>
      cases insert lt e fs with
      | error x => simp [bind, Except.bind]
      | ok rest => simp [bind, Except.bind, eq_comm]

theorem insert_perm (e : α) (l out : List α) (h : insert lt e l = .ok out) :
    out.Perm (e :: l) := by
  induction l generalizing out with
  | nil =>
    cases h
    exact .refl _
  | cons f fs ih =>
    rcases (insert_cons lt e f fs out).mp h with ⟨_, rfl⟩ | ⟨_, rest, hrest, rfl⟩
    · exact .refl _
    · exact ((ih rest hrest).cons f).trans (.swap e f fs)

theorem sort_concat (l out : List α) (e : α) :
    sort lt (l ++ [e]) = .ok out ↔
      ∃ sorted, sort lt l = .ok sorted ∧ insert lt e sorted = .ok out := by
  have hlast : sort lt (l ++ [e]) = sort lt l >>= insert lt e := by
    simp [sort, List.foldlM_append]
  rw [hlast]
  cases sort lt l with
  | error x => simp [bind, Except.bind]
  | ok sorted => simp [bind, Except.bind]

theorem sort_perm (l out : List α) (h : sort lt l = .ok out) : out.Perm l := by
  induction l using List.reverseRecOn generalizing out with
  | nil =>
    cases h
    exact .refl _
  | append_singleton l e ih =>
    obtain ⟨sorted, hsorted, hout⟩ := (sort_concat lt l out e).mp h
    exact (insert_perm lt e sorted out hout).trans
      (((ih sorted hsorted).cons e).trans (List.perm_append_singleton e l).symm)

section Lawful
variable {lt} {P : α → Prop} (laws : Lawful lt P)
include laws

theorem insert_sorted (e : α) (l out : List α) (he : P e) (hP : ∀ f ∈ l, P f)
    (hl : Sorted lt l) (h : insert lt e l = .ok out) : Sorted lt out := by
  induction l generalizing out with
  | nil =>
    cases h
    exact List.pairwise_singleton _ e
  | cons f fs ih =>
    have hf := hP f List.mem_cons_self
    have hfs : ∀ g ∈ fs, P g := fun g hg => hP g (List.mem_cons_of_mem f hg)
    obtain ⟨hfirst, hrest⟩ := List.pairwise_cons.mp hl
    rcases (insert_cons lt e f fs out).mp h with ⟨hless, rfl⟩ | ⟨hless, rest, hinsert, rfl⟩
    · refine List.pairwise_cons.mpr ⟨?_, hl⟩
      intro g hg
      rcases List.mem_cons.mp hg with rfl | hg
      · exact laws.asymm e g he hf hless
      · exact laws.trans e f g he hf (hfs g hg) hless (hfirst g hg)
    · refine List.pairwise_cons.mpr ⟨?_, ih rest hfs hrest hinsert⟩
      intro g hg
      rcases List.mem_cons.mp ((insert_perm lt e fs rest hinsert).mem_iff.mp hg) with rfl | hg
      · exact hless
      · exact hfirst g hg

theorem insert_ok_iff (e : α) (l : List α) (he : P e) (hP : ∀ f ∈ l, P f) (hl : Sorted lt l) :
    (∃ out, insert lt e l = .ok out) ↔ ∀ f ∈ l, Comparable lt e f := by
  induction l with
  | nil => simp [insert]
  | cons f fs ih =>
    have hf := hP f List.mem_cons_self
    have hfs : ∀ g ∈ fs, P g := fun g hg => hP g (List.mem_cons_of_mem f hg)
    obtain ⟨hfirst, hrest⟩ := List.pairwise_cons.mp hl
    have ih := ih hfs hrest
    simp only [insert_cons, List.forall_mem_cons]
    constructor
    · rintro ⟨out, ⟨hless, _⟩ | ⟨hless, rest, hinsert, _⟩⟩
      · refine ⟨⟨true, hless⟩, fun g hg => ?_⟩
        -- what is not less than `f` is not less than the smaller `e` either
        have hg' := laws.trans e f g he hf (hfs g hg) hless (hfirst g hg)
        exact laws.symm g e (hfs g hg) he ⟨false, hg'⟩
      · exact ⟨⟨false, hless⟩, ih.mp ⟨rest, hinsert⟩⟩
    · rintro ⟨⟨less, hless⟩, hall⟩
      cases less with
      | true => exact ⟨_, .inl ⟨hless, rfl⟩⟩
      | false =>
        obtain ⟨rest, hinsert⟩ := ih.mpr hall
        exact ⟨_, .inr ⟨hless, rest, hinsert, rfl⟩⟩

theorem sort_sorted (l out : List α) (hP : ∀ e ∈ l, P e) (h : sort lt l = .ok out) :
    Sorted lt out := by
  induction l using List.reverseRecOn generalizing out with
  | nil =>
    cases h
    exact List.Pairwise.nil
  | append_singleton l e ih =>
    obtain ⟨sorted, hsorted, hout⟩ := (sort_concat lt l out e).mp h
    have hl : ∀ f ∈ l, P f := fun f hf => hP f (List.mem_append_left _ hf)
    refine insert_sorted laws e sorted out (hP e (by simp)) (fun f hf => ?_)
      (ih sorted hl hsorted) hout
    exact hl f ((sort_perm lt l sorted hsorted).mem_iff.mp hf)

/-- It fails exactly if two items at different places cannot be compared. -/
theorem sort_ok_iff (l : List α) (hP : ∀ e ∈ l, P e) :
    (∃ out, sort lt l = .ok out) ↔ l.Pairwise (Comparable lt) := by
  induction l using List.reverseRecOn with
  | nil => exact ⟨fun _ => .nil, fun _ => ⟨[], rfl⟩⟩
  | append_singleton l e ih =>
    have he : P e := hP e (by simp)
    have hl : ∀ f ∈ l, P f := fun f hf => hP f (List.mem_append_left _ hf)
    have ih := ih hl
    have hlast : ∀ sorted, sort lt l = .ok sorted →
        ((∃ out, insert lt e sorted = .ok out) ↔ ∀ f ∈ l, Comparable lt f e) := by
      intro sorted hsorted
      have hperm := sort_perm lt l sorted hsorted
      rw [insert_ok_iff laws e sorted he (fun f hf => hl f (hperm.mem_iff.mp hf))
        (sort_sorted laws l sorted hl hsorted)]
      constructor
      · exact fun h f hf => laws.symm e f he (hl f hf) (h f (hperm.mem_iff.mpr hf))
      · intro h f hf
        have hf := hperm.mem_iff.mp hf
        exact laws.symm f e (hl f hf) he (h f hf)
    rw [List.pairwise_append]
    simp only [sort_concat, List.pairwise_singleton, List.mem_singleton, forall_eq, true_and]
    constructor
    · rintro ⟨out, sorted, hsorted, hout⟩
      exact ⟨ih.mp ⟨sorted, hsorted⟩, (hlast sorted hsorted).mp ⟨out, hout⟩⟩
    · rintro ⟨hpairs, hall⟩
      obtain ⟨sorted, hsorted⟩ := ih.mpr hpairs
      obtain ⟨out, hout⟩ := (hlast sorted hsorted).mpr hall
      exact ⟨out, sorted, hsorted, hout⟩

end Lawful

end AigentSquad.FallibleSort
