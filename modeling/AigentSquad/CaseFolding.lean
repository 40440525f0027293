import AigentSquad.PyText
import Mathlib.Data.List.TakeWhile

/-!
# Searching a folded text

A needle is looked up in a text after both are folded, by nothing or to lower
case. What is needed of a fold: it works piecewise around a character no case
rule crosses, and cutting a text short shows no needle that was not there.
-/

set_option autoImplicit false

namespace AigentSquad.CaseFolding
open AigentSquad.PyText

/-- `piece` stands in `text` between spaces or the ends. -/
def Delimited (piece text : Str) : Prop :=
  ∃ a b, text = a ++ piece ++ b ∧ (∀ c ∈ a.getLast?, isspace c = true) ∧
    ∀ c ∈ b.head?, isspace c = true

theorem Delimited.trans {x y z : Str} (h : Delimited x y) (k : Delimited y z) :
    Delimited x z := by
  obtain ⟨a, b, rfl, ha, hb⟩ := h
  obtain ⟨a', b', rfl, ha', hb'⟩ := k
  refine ⟨a' ++ a, b ++ b', by simp, ?_, ?_⟩
  · cases a using List.reverseRecOn with
    | nil => simpa using ha'
    | append_singleton a c => simpa using ha c
  · cases b with
    | nil => simpa using hb'
    | cons c b => simpa using hb c

theorem lstrip_delimited (s : Str) : Delimited (lstrip s) s := by
  refine ⟨s.takeWhile isspace, [], by simp [lstrip], ?_, by simp⟩
  intro c hc
  exact List.mem_takeWhile_imp (List.mem_of_getLast? hc)

theorem rstrip_delimited (s : Str) : Delimited (rstrip s) s := by
  refine ⟨[], (s.reverse.takeWhile isspace).reverse, ?_, by simp, ?_⟩
  · rw [rstrip, List.nil_append, ← List.reverse_append, List.takeWhile_append_dropWhile,
      List.reverse_reverse]
  · intro c hc
    rw [List.head?_reverse] at hc
    exact List.mem_takeWhile_imp (List.mem_of_getLast? hc)

theorem strip_delimited (s : Str) : Delimited (strip s) s :=
  (rstrip_delimited (lstrip s)).trans (lstrip_delimited s)

/-- A line of the rest of a text, where `acc` is the line read so far. -/
theorem linesFrom_delimited (s acc line : Str) (cr : Bool) (h : line ∈ linesFrom cr acc s) :
    Delimited line (acc.reverse ++ s) := by
  induction s generalizing cr acc with
  | nil =>
    unfold linesFrom at h
    split at h
    · cases h
    · rw [List.mem_singleton.mp h]
      exact ⟨[], [], by simp, by simp, by simp⟩
  | cons c s ih =>
    -- the rest of the text starts a new line after the break `c`
    have hnext : isspace c = true → ∀ cr, line ∈ linesFrom cr [] s →
        Delimited line (acc.reverse ++ c :: s) := by
      intro hc cr hin
      refine (ih [] cr hin).trans ⟨acc.reverse ++ [c], [], by simp, ?_, by simp⟩
      simpa using hc
    unfold linesFrom at h
    split at h
    · next hcr =>
      simp only [Bool.and_eq_true, beq_iff_eq] at hcr
      exact hnext (by rw [hcr.2]; decide) false h
    · split at h
      · next hbreak =>
        have hc := isspace_of_isLineBreak c hbreak
        rcases List.mem_cons.mp h with rfl | h
        · exact ⟨[], c :: s, by simp, by simp, by simpa using hc⟩
        · exact hnext hc _ h
      · simpa using ih (c :: acc) false h

theorem splitlines_delimited (s line : Str) (h : line ∈ splitlines s) : Delimited line s :=
  linesFrom_delimited s [] line false h

def dots : Str := "...".toList

/-- What a search in folded text relies on. `steady` tells which needles cannot
appear by cutting a text short and marking the cut with dots. -/
structure Folding (py : Runtime) (fold : Str → Str) (steady : Str → Prop) : Prop where
  nil : fold [] = []
  stop : ∀ c, Boundary py c → ∀ a b, fold (a ++ c :: b) = fold a ++ c :: fold b
  plain : ∀ s, (∀ c ∈ s, isAscii c = true ∧ c.toLower = c) → fold s = s
  mem : ∀ s d, isAscii d = true → d.isLower = false → d ∈ fold s → d ∈ s
  keeps : ∀ s c, c ∈ s → isAscii c = true → c ∈ fold s ∨ c.toLower ∈ fold s
  cut : ∀ w a b, steady w → w <:+: fold (a ++ dots) → w <:+: fold (a ++ b)

variable {py : Runtime} {fold : Str → Str} {steady : Str → Prop}

theorem Folding.sep (hf : Folding py fold steady) (a sep b : Str) (hs : ∀ c ∈ sep, Boundary py c)
    (hne : sep ≠ []) : fold (a ++ sep ++ b) = fold a ++ sep ++ fold b := by
  have rest : ∀ ds : Str, (∀ d ∈ ds, Boundary py d) → fold (ds ++ b) = ds ++ fold b := by
    intro ds hd
    induction ds with
    | nil => rfl
    | cons d ds ih =>
      have hstop := hf.stop d (hd d (by simp)) [] (ds ++ b)
      rw [hf.nil, List.nil_append, List.nil_append] at hstop
      rw [List.cons_append, hstop, ih (fun e he => hd e (by simp [he])), List.cons_append]
  obtain ⟨c, cs, rfl⟩ := List.exists_cons_of_ne_nil hne
  rw [List.append_assoc, List.cons_append, hf.stop c (hs c (by simp)),
    rest cs (fun d hd => hs d (by simp [hd]))]
  simp

theorem Folding.join (hf : Folding py fold steady) (sep : Str) (xs : List Str)
    (hs : ∀ c ∈ sep, Boundary py c) (hne : sep ≠ []) :
    fold (join sep xs) = PyText.join sep (xs.map fold) := by
  induction xs with
  | nil => exact hf.nil
  | cons x xs ih =>
    by_cases hx : xs = []
    · subst hx
      rfl
    · rw [join_cons sep x xs hx, hf.sep x sep _ hs hne, ih, List.map_cons,
        join_cons sep _ _ (by simpa using hx)]

/-- A needle is in a folded join only inside one of the folded parts. -/
theorem Folding.infix_join (hf : Folding py fold steady) (w sep : Str) (xs : List Str)
    (hw : w ≠ []) (hs : ∀ c ∈ sep, Boundary py c ∧ c ∉ w) (hne : sep ≠ []) :
    w <:+: fold (PyText.join sep xs) ↔ ∃ x ∈ xs, w <:+: fold x := by
  rw [hf.join sep xs (fun c hc => (hs c hc).1) hne,
    infix_join_iff w sep _ hw hne (fun c hc => (hs c hc).2)]
  simp

/-- What stands between blanks is folded by itself. -/
theorem Folding.delimited_fold (hf : Folding py fold steady) (piece text : Str)
    (h : Delimited piece text) : Delimited (fold piece) (fold text) := by
  obtain ⟨a, b, rfl, ha, hb⟩ := h
  have hright : ∃ b', fold (piece ++ b) = fold piece ++ b' ∧ ∀ c ∈ b'.head?, isspace c = true := by
    cases b with
    | nil => exact ⟨[], by simp, by simp⟩
    | cons c b => exact ⟨_, hf.stop c (boundary_of_space py c (hb c rfl)) piece b, hb⟩
  obtain ⟨b', hfold, hb'⟩ := hright
  cases a using List.reverseRecOn with
  | nil => exact ⟨[], b', by simpa using hfold, by simp, hb'⟩
  | append_singleton a c =>
    have hc := ha c (by simp)
    refine ⟨fold a ++ [c], b', ?_, by simpa using hc, hb'⟩
    rw [List.append_assoc, List.append_assoc, List.singleton_append,
      hf.stop c (boundary_of_space py c hc), hfold]
    simp

theorem Folding.delimited (hf : Folding py fold steady) (w piece text : Str)
    (h : Delimited piece text) (hw : w <:+: fold piece) : w <:+: fold text := by
  obtain ⟨a, b, htext, _⟩ := hf.delimited_fold piece text h
  exact hw.trans ⟨a, b, htext.symm⟩

theorem infix_before_dots (w a : Str) (hlast : w.getLast? ≠ some '.') (h : w <:+: a ++ dots) :
    w <:+: a := by
  have hone : ∀ x : Str, w <:+: x ++ ['.'] → w <:+: x := by
    intro x hx
    rcases List.infix_concat_iff.mp hx with hs | hi
    · rcases List.suffix_concat_iff.mp hs with rfl | ⟨t, rfl, _⟩
      · exact List.nil_infix
      · simp at hlast
    · exact hi
  refine hone _ (hone _ (hone _ ?_))
  simpa [dots] using h

theorem id_folding (py : Runtime) : Folding py id (fun w => w.getLast? ≠ some '.') where
  nil := rfl
  stop _ _ _ _ := rfl
  plain _ _ := rfl
  mem _ _ _ _ h := h
  keeps _ _ h _ := .inl h
  cut w a _ hw h := List.infix_append_of_infix_left (infix_before_dots w a hw h)

/-- Lower case with one small sigma for both. -/
def oneSigma (c : Char) : Char := if c = 'ς' then 'σ' else c

def lowerEach (py : Runtime) (s : Str) : Str :=
  (s.flatMap (fun c => if c = 'Σ' then ['σ'] else py.lower c)).map oneSigma

theorem lower_oneSigma (py : Runtime) (s : Str) : (lower py s).map oneSigma = lowerEach py s := by
  have go : ∀ (s before : Str), (lowerFrom py before s).map oneSigma = lowerEach py s := by
    intro s
    induction s with
    | nil => exact fun _ => rfl
    | cons c s ih =>
      intro before
      rw [lowerFrom, List.map_append, ih, lowerEach, lowerEach, List.flatMap_cons, List.map_append]
      congr 1
      split
      · split <;> rfl
      · rfl
  exact go s []

theorem lowerEach_append (py : Runtime) (a b : Str) :
    lowerEach py (a ++ b) = lowerEach py a ++ lowerEach py b := by
  simp [lowerEach]

theorem lower_ascii (py : Runtime) (s : Str) (h : ∀ c ∈ s, isAscii c = true) :
    lower py s = s.map Char.toLower := by
  have go : ∀ (s before : Str), (∀ c ∈ s, isAscii c = true) →
      lowerFrom py before s = s.map Char.toLower := by
    intro s
    induction s with
    | nil => exact fun _ _ => rfl
    | cons c s ih =>
      intro before h
      obtain ⟨ha, hs⟩ := List.forall_mem_cons.mp h
      have hsigma : c ≠ 'Σ' := by
        rintro rfl
        simp [isAscii] at ha
      rw [lowerFrom, if_neg hsigma, py.lower_ascii c ha, ih _ hs]
      rfl
  exact go s [] h

theorem lower_plain (py : Runtime) (s : Str) (h : ∀ c ∈ s, isAscii c = true ∧ c.toLower = c) :
    lower py s = s := by
  rw [lower_ascii py s (fun c hc => (h c hc).1), List.map_congr_left (fun c hc => (h c hc).2),
    List.map_id']

theorem mem_lower_of_mem (py : Runtime) (s : Str) (c : Char) (hc : c ∈ s) (ha : isAscii c = true) :
    c.toLower ∈ lower py s := by
  have go : ∀ (s before : Str), c ∈ s → c.toLower ∈ lowerFrom py before s := by
    intro s
    induction s with
    | nil => exact fun _ h => absurd h (by simp)
    | cons d s ih =>
      intro before h
      rw [lowerFrom, List.mem_append]
      rcases List.mem_cons.mp h with rfl | h
      · have hsigma : c ≠ 'Σ' := by
          rintro rfl
          simp [isAscii] at ha
        exact .inl (by rw [if_neg hsigma, py.lower_ascii c ha]; simp)
      · exact .inr (ih _ h)
  exact go s [] hc

/-- A needle that does not hinge on the sigma rule and does not end in a dot. -/
def SteadyLower (w : Str) : Prop := w.getLast? ≠ some '.' ∧ 'σ' ∉ w ∧ 'ς' ∉ w

instance : DecidablePred SteadyLower := fun _ => inferInstanceAs (Decidable (_ ∧ _))

theorem infix_oneSigma (w s : Str) (hw : 'σ' ∉ w ∧ 'ς' ∉ w) :
    w <:+: s.map oneSigma ↔ w <:+: s := by
  constructor
  · rintro ⟨a, b, h⟩
    obtain ⟨ab, b', rfl, hab, rfl⟩ := List.map_eq_append_iff.mp h.symm
    obtain ⟨a', w', rfl, rfl, rfl⟩ := List.map_eq_append_iff.mp hab
    have hfix : ∀ c ∈ w', oneSigma c = c := by
      intro c hc
      by_cases heq : c = 'ς'
      · subst heq
        exact absurd (List.mem_map_of_mem hc) hw.1
      · exact if_neg heq
    rw [List.map_congr_left hfix, List.map_id']
    exact ⟨a', b', rfl⟩
  · intro h
    have hfix : ∀ c ∈ w, oneSigma c = c := by
      intro c hc
      exact if_neg (fun heq : c = 'ς' => hw.2 (heq ▸ hc))
    have hmap := h.map oneSigma
    rwa [List.map_congr_left hfix, List.map_id'] at hmap

theorem lower_folding (py : Runtime) : Folding py (lower py) SteadyLower where
  nil := rfl
  stop c hc a b := lowerFrom_stop py c hc a b []
  plain := lower_plain py
  mem s d ha hl h := mem_of_mem_lower py s d ha hl h
  keeps s c hc ha := .inr (mem_lower_of_mem py s c hc ha)
  cut w a b hw h := by
    have hdots : lowerEach py dots = dots := by
      rw [← lower_oneSigma, lower_plain py dots (by decide)]
      rfl
    rw [← infix_oneSigma w _ hw.2, lower_oneSigma, lowerEach_append, hdots] at h
    rw [← infix_oneSigma w _ hw.2, lower_oneSigma, lowerEach_append]
    exact List.infix_append_of_infix_left (infix_before_dots w _ hw.1 h)

end AigentSquad.CaseFolding
