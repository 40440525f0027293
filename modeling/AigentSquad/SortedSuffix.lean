import Mathlib.Data.List.Sort
import Mathlib.Data.List.Lex

/-!
# The greatest entries of a list

The last entries of a list sorted by a key are the last entries of the list
itself exactly when the keys say so. Lists with the same sequence of tags, and
for each tag the same entries, are equal. Nothing here names a particular
program.
-/

set_option autoImplicit false

namespace AigentSquad.SortedSuffix

variable {α β K : Type}

theorem drop_sub_length (l : List α) (k : ℕ) :
    (l.reverse.take k).reverse = l.drop (l.length - k) := by
  rw [List.take_reverse, List.reverse_reverse]

/-- Equal tags and, tag by tag, equal entries. -/
theorem eq_of_tags [DecidableEq β] (tag : α → β) {l m : List α} (htags : l.map tag = m.map tag)
    (hentries : ∀ b, l.filter (fun x => tag x = b) = m.filter (fun x => tag x = b)) : l = m := by
  induction l generalizing m with
  | nil => exact (List.map_eq_nil_iff.mp htags.symm).symm
  | cons x l ih =>
    cases m with
    | nil => cases htags
    | cons y m =>
      obtain ⟨htag, htags⟩ := List.cons.inj htags
      have hhead := hentries (tag x)
      simp only [List.filter_cons, decide_true, if_true, htag.symm, List.cons.injEq] at hhead
      rw [hhead.1, ih htags]
      intro b
      have hb := hentries b
      by_cases hx : tag x = b
      · simpa [List.filter_cons, hx, htag.symm] using (List.cons.inj (by
          simpa [List.filter_cons, hx, htag.symm] using hb)).2
      · simpa [List.filter_cons, hx, htag.symm] using hb

section Sorted
variable [LinearOrder K] (key : α → K)

def sorted (l : List α) : List α := l.insertionSort (fun x y => key x ≤ key y)

theorem sorted_perm (l : List α) : (sorted key l).Perm l := List.perm_insertionSort _ l

theorem sorted_singleton (x : α) : sorted key [x] = [x] := rfl

theorem sorted_pairwise (l : List α) : (sorted key l).Pairwise (fun x y => key x ≤ key y) := by
  have : Std.Total (fun x y : α => key x ≤ key y) := ⟨fun x y => le_total (key x) (key y)⟩
  have : IsTrans α (fun x y : α => key x ≤ key y) := ⟨fun _ _ _ => le_trans⟩
  exact List.pairwise_insertionSort _ l

theorem sorted_of_pairwise {l : List α} (h : l.Pairwise (fun x y => key x ≤ key y)) :
    sorted key l = l := List.Pairwise.insertionSort_eq h

/-- The sorted list is determined by its members, where keys tell them apart. -/
theorem sorted_unique {l m : List α} (hkeys : (l.map key).Nodup) (hperm : m.Perm l)
    (hm : m.Pairwise (fun x y => key x ≤ key y)) : sorted key l = m := by
  have heq : ∀ x y, x ∈ sorted key l → y ∈ m → key x ≤ key y → key y ≤ key x → x = y := by
    intro x y hx hy hxy hyx
    exact List.inj_on_of_nodup_map hkeys ((sorted_perm key l).mem_iff.mp hx)
      (hperm.mem_iff.mp hy) (le_antisymm hxy hyx)
  exact List.Perm.eq_of_pairwise heq (sorted_pairwise key l) hm
    ((sorted_perm key l).trans hperm.symm)

theorem sorted_strict {l : List α} (hkeys : (l.map key).Nodup) :
    (sorted key l).Pairwise (fun x y => key x < key y) := by
  have hnodup : (sorted key l).Pairwise (fun x y => key x ≠ key y) :=
    List.pairwise_map.mp (((sorted_perm key l).map key).nodup_iff.mpr hkeys)
  exact ((sorted_pairwise key l).and hnodup).imp (fun h => lt_of_le_of_ne h.1 h.2)

/-- The last entries are the greatest, in order: their keys increase and are
above all earlier ones. -/
def GreatestLast (n : ℕ) (l : List α) : Prop :=
  (l.drop n).Pairwise (fun x y => key x < key y) ∧
    ∀ x ∈ l.take n, ∀ y ∈ l.drop n, key x < key y

theorem sorted_drop_iff {l : List α} (hkeys : (l.map key).Nodup) (n : ℕ) :
    (sorted key l).drop n = l.drop n ↔ GreatestLast key n l := by
  constructor
  · intro h
    have hstrict := sorted_strict key hkeys
    rw [← List.take_append_drop n (sorted key l), List.pairwise_append, h] at hstrict
    have hperm : ((sorted key l).take n).Perm (l.take n) := by
      have hall := sorted_perm key l
      rw [← List.take_append_drop n (sorted key l), h] at hall
      conv at hall => rhs; rw [← List.take_append_drop n l]
      exact (List.perm_append_right_iff _).mp hall
    constructor
    · exact hstrict.2.1
    · exact fun x hx => hstrict.2.2 x (hperm.mem_iff.mpr hx)
  · rintro ⟨hlast, hcross⟩
    have hm : sorted key l = sorted key (l.take n) ++ l.drop n := by
      apply sorted_unique key hkeys
      · calc sorted key (l.take n) ++ l.drop n
          List.Perm _ (l.take n ++ l.drop n) := (sorted_perm key _).append_right _
          List.Perm _ l := by rw [List.take_append_drop]
      · apply List.pairwise_append.mpr
        refine ⟨sorted_pairwise key _, hlast.imp le_of_lt, ?_⟩
        intro x hx y hy
        exact le_of_lt (hcross x ((sorted_perm key _).mem_iff.mp hx) y hy)
    have hlength : (sorted key (l.take n)).length = min n l.length := by
      rw [(sorted_perm key _).length_eq, List.length_take]
    rw [hm]
    by_cases hn : n ≤ l.length
    · rw [List.drop_append_of_le_length (by omega), List.drop_eq_nil_of_le (by omega),
        List.nil_append]
    · have hnil : l.drop n = [] := List.drop_eq_nil_of_le (by omega)
      rw [hnil, List.append_nil]
      exact List.drop_eq_nil_of_le (by omega)

/-- Sorting and filtering commute, where keys tell the entries apart. -/
theorem sorted_filter {l : List α} (hkeys : (l.map key).Nodup) (p : α → Bool) :
    (sorted key l).filter p = sorted key (l.filter p) := by
  have hkeys' : ((l.filter p).map key).Nodup := hkeys.sublist (List.filter_sublist.map key)
  apply (sorted_unique key hkeys' ((sorted_perm key l).filter _) _).symm
  exact (sorted_pairwise key l).sublist List.filter_sublist

/-- Where the entries of one tag are in order, the sequence of tags tells whether
the last entries are the greatest. -/
theorem sorted_drop_of_tags [DecidableEq β] (tag : α → β) {l : List α}
    (hkeys : (l.map key).Nodup) (htagged : l.Pairwise (fun x y => tag x = tag y → key x < key y))
    (n : ℕ) (htags : ((sorted key l).drop n).map tag = (l.drop n).map tag) :
    (sorted key l).drop n = l.drop n := by
  apply eq_of_tags tag htags
  intro b
  have hsame : (sorted key l).filter (fun x => tag x = b) = l.filter (fun x => tag x = b) := by
    have hordered : (l.filter (fun x => tag x = b)).Pairwise (fun x y => key x ≤ key y) := by
      rw [List.pairwise_filter]
      refine htagged.imp ?_
      intro x y hxy hx hy
      simp only [decide_eq_true_eq] at hx hy
      exact le_of_lt (hxy (hx.trans hy.symm))
    rw [sorted_filter key hkeys, sorted_of_pairwise key hordered]
  have hlength : (((sorted key l).drop n).filter (fun x => tag x = b)).length =
      ((l.drop n).filter (fun x => tag x = b)).length := by
    have hcount := congrArg (List.count b) htags
    simp only [List.count_eq_countP, List.countP_map, Function.comp_def, beq_eq_decide] at hcount
    simpa only [List.countP_eq_length_filter] using hcount
  have hsuffix := (List.drop_suffix n (sorted key l)).filter (fun x => tag x = b)
  rw [hsame] at hsuffix
  exact (List.suffix_of_suffix_length_le hsuffix ((List.drop_suffix n l).filter _)
    (le_of_eq hlength)).eq_of_length hlength

/-- The last entries are all of one kind exactly when that many of the kind stand above
each entry of another one. -/
theorem last_all_iff [DecidableLT K] {l : List α}
    (hl : l.Pairwise (fun x y => key x < key y)) (p : α → Bool) (n : ℕ) :
    (∀ x ∈ l.drop (l.length - n), p x = true) ↔
      ∀ y ∈ l, p y = false → n ≤ l.countP (fun x => p x && decide (key y < key x)) := by
  constructor
  · intro h y hy hno
    have hcut := List.take_append_drop (l.length - n) l
    have hfront : y ∈ l.take (l.length - n) := by
      rw [← hcut] at hy
      rcases List.mem_append.mp hy with hfront | hlast
      · exact hfront
      · rw [h y hlast] at hno
        cases hno
    have hpos := List.length_pos_of_mem hfront
    rw [List.length_take] at hpos
    have habove : ∀ x ∈ l.drop (l.length - n), (p x && decide (key y < key x)) = true := by
      intro x hx
      rw [← hcut, List.pairwise_append] at hl
      simp [h x hx, hl.2.2 y hfront x hx]
    calc n = (l.drop (l.length - n)).length := by
          rw [List.length_drop]
          omega
      _ = (l.drop (l.length - n)).countP (fun x => p x && decide (key y < key x)) :=
          (List.countP_eq_length.mpr habove).symm
      _ ≤ l.countP (fun x => p x && decide (key y < key x)) :=
          (List.drop_sublist _ l).countP_le
  · intro h x hx
    by_contra hno
    obtain ⟨u, v, hdrop⟩ := List.append_of_mem hx
    have hcut : l = (l.take (l.length - n) ++ u) ++ x :: v := by
      rw [List.append_assoc, ← hdrop, List.take_append_drop]
    have hcount := h x (List.mem_of_mem_drop hx) (by simpa using hno)
    have hbelow : (l.take (l.length - n) ++ u).countP (fun y => p y && decide (key x < key y)) =
        0 := by
      rw [List.countP_eq_zero]
      intro y hy habove
      rw [hcut, List.pairwise_append] at hl
      have hyx := hl.2.2 y hy x List.mem_cons_self
      simp only [Bool.and_eq_true, decide_eq_true_eq] at habove
      exact lt_asymm hyx habove.2
    have hlen := congrArg List.length hdrop
    rw [List.length_drop, List.length_append, List.length_cons] at hlen
    have hrest := List.countP_le_length (p := fun y => p y && decide (key x < key y)) (l := v)
    rw [hcut, List.countP_append, hbelow, List.countP_cons] at hcount
    simp only [lt_irrefl, decide_false, Bool.and_false, Bool.false_eq_true, if_false] at hcount
    omega

/-- Entries of one kind that are the last of all are the last of their kind. -/
theorem last_of_filter (l : List α) (p : α → Bool) (n : ℕ)
    (h : ∀ x ∈ l.drop (l.length - n), p x = true) :
    (l.filter p).drop ((l.filter p).length - n) = l.drop (l.length - n) := by
  have hlast : (l.drop (l.length - n)).filter p = l.drop (l.length - n) :=
    List.filter_eq_self.mpr h
  have hsplit : l.filter p = (l.take (l.length - n)).filter p ++ l.drop (l.length - n) := by
    conv_lhs => rw [← List.take_append_drop (l.length - n) l, List.filter_append, hlast]
  have hlen := congrArg List.length hsplit
  rw [List.length_append, List.length_drop] at hlen
  by_cases hn : n ≤ l.length
  · rw [hlen, hsplit]
    exact List.drop_left' (by omega)
  · have hzero : l.length - n = 0 := by omega
    rw [hzero, List.take_zero, List.filter_nil, List.nil_append, List.drop_zero] at hsplit
    rw [hsplit, hzero]

end Sorted

end AigentSquad.SortedSuffix
