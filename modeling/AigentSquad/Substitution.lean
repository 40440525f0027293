import AigentSquad.Regex

/-!
# What a substitution leaves

Where an expression matches, said by the text it reads; and where a piece of the
output of `sub` comes from. A piece that neither meets the end of the
replacement nor stands inside it begins at a character that was kept, and runs on
through kept characters, perhaps into the front of the next replacement.
-/

set_option autoImplicit false

namespace AigentSquad.Substitution
open AigentSquad.PyText AigentSquad.Regex

/-! ## The texts an expression reads -/

/-- The text `p` is a point of. -/
def text (p : Pos) : Str := p.before.reverse ++ p.after

theorem reads_text {p q : Pos} {w : Str} (h : Reads p w q) : text q = text p := by
  simp [text, h.before, h.after]

theorem reads_nil (p q : Pos) : Reads p [] q ↔ q = p := by
  constructor
  · intro h
    obtain ⟨b, a⟩ := p
    obtain ⟨b', a'⟩ := q
    have hb : b' = b := h.before
    have ha : a = a' := h.after
    rw [hb, ha]
  · rintro rfl
    exact .refl q

theorem reads_append (p q : Pos) (u v : Str) :
    Reads p (u ++ v) q ↔ ∃ m, Reads p u m ∧ Reads m v q := by
  constructor
  · intro h
    refine ⟨⟨u.reverse ++ p.before, v ++ q.after⟩, ⟨rfl, ?_⟩, ⟨?_, rfl⟩⟩
    · rw [h.after, List.append_assoc]
    · rw [h.before]
      simp
  · rintro ⟨m, hu, hv⟩
    exact hu.trans hv

/-- What is read and where it starts determine where it ends. -/
theorem reads_unique {p q r : Pos} {u v : Str} (h : Reads p u q) (k : Reads p v r)
    (hlen : u.length = v.length) : u = v ∧ q = r := by
  have happend : u ++ q.after = v ++ r.after := h.after.symm.trans k.after
  obtain ⟨rfl, hafter⟩ := List.append_inj happend hlen
  refine ⟨rfl, ?_⟩
  obtain ⟨b, a⟩ := q
  obtain ⟨b', a'⟩ := r
  have hb : b = b' := h.before.trans k.before.symm
  have ha : a = a' := hafter
  rw [hb, ha]

section Ends
variable (word : Char → Bool)

theorem mem_ends_seq (r s : Rx) (p q : Pos) :
    q ∈ ends word (.seq r s) p ↔ ∃ m, m ∈ ends word r p ∧ q ∈ ends word s m := by
  simp [ends]

theorem mem_step (ok : Char → Bool) (p q : Pos) :
    q ∈ p.step ok ↔ ∃ c, ok c = true ∧ Reads p [c] q := by
  constructor
  · exact step_reads p q ok
  · rintro ⟨c, hc, h⟩
    obtain ⟨b, a⟩ := p
    obtain ⟨b', a'⟩ := q
    have hb : b' = c :: b := h.before
    have ha : a = c :: a' := h.after
    subst hb ha
    simp [Pos.step, hc]

theorem mem_ends_empty (p q : Pos) : q ∈ ends word .empty p ↔ q = p := by
  simp [ends]

theorem mem_ends_boundary (p q : Pos) :
    q ∈ ends word .boundary p ↔ q = p ∧ atBoundary word p = true := by
  simp only [ends]
  split
  · next h => simp [h]
  · next h => simp [h]

theorem mem_ends_lit (s : Str) (p q : Pos) : q ∈ ends word (lit s) p ↔ Reads p s q := by
  induction s generalizing p with
  | nil => rw [reads_nil]; exact mem_ends_empty word p q
  | cons c s ih =>
    rw [show lit (c :: s) = .seq (.set (fun d => d = c)) (lit s) from rfl, mem_ends_seq]
    rw [show c :: s = [c] ++ s from rfl, reads_append]
    simp only [ends, mem_step, ih]
    constructor
    · rintro ⟨m, ⟨d, hd, hm⟩, hq⟩
      rw [of_decide_eq_true hd] at hm
      exact ⟨m, hm, hq⟩
    · rintro ⟨m, hm, hq⟩
      exact ⟨m, ⟨c, decide_eq_true rfl, hm⟩, hq⟩

/-- The ends of a literal without regard to case. -/
theorem mem_ends_litIgnoreCase (s : Str) (p q : Pos) :
    q ∈ ends word (litIgnoreCase s) p ↔ ∃ b : Str, b.map foldCase = s ∧ Reads p b q := by
  induction s generalizing p with
  | nil =>
    rw [show litIgnoreCase [] = .empty from rfl, mem_ends_empty]
    constructor
    · rintro rfl
      exact ⟨[], rfl, .refl q⟩
    · rintro ⟨b, hb, hq⟩
      rw [List.map_eq_nil_iff.mp hb] at hq
      exact (reads_nil p q).mp hq
  | cons c s ih =>
    rw [show litIgnoreCase (c :: s) =
      .seq (.set (ignoreCase (fun d => d = c))) (litIgnoreCase s) from rfl, mem_ends_seq]
    simp only [ends, mem_step, ih]
    constructor
    · rintro ⟨m, ⟨d, hd, hm⟩, b, hb, hq⟩
      refine ⟨d :: b, ?_, hm.trans hq⟩
      rw [List.map_cons, hb, of_decide_eq_true hd]
    · rintro ⟨b, hb, hq⟩
      obtain ⟨d, b', rfl, hd, hb'⟩ := List.map_eq_cons_iff.mp hb
      obtain ⟨m, hm, hrest⟩ := (reads_append p q [d] b').mp hq
      exact ⟨m, ⟨d, decide_eq_true hd, hm⟩, b', hb', hrest⟩

/-- A set repeated between `lo` and `n` times. -/
theorem mem_reps_set (ok : Char → Bool) (lo n : ℕ) (p q : Pos) (hlo : lo ≤ n) :
    q ∈ reps (fun m => m.step ok) lo n p ↔
      ∃ body : Str, Reads p body q ∧ lo ≤ body.length ∧ body.length ≤ n ∧
        ∀ c ∈ body, ok c = true := by
  induction n generalizing lo p with
  | zero =>
    rw [Nat.le_zero.mp hlo]
    simp only [reps, ↓reduceIte, List.mem_singleton]
    constructor
    · rintro rfl
      exact ⟨[], .refl q, Nat.le_refl _, Nat.le_refl _, List.forall_mem_nil _⟩
    · rintro ⟨body, hread, _, hlen, _⟩
      rw [List.length_eq_zero_iff.mp (Nat.le_zero.mp hlen)] at hread
      exact (reads_nil p q).mp hread
  | succ n ih =>
    simp only [reps, List.mem_append, List.mem_flatMap, mem_step]
    constructor
    · rintro (⟨m, ⟨c, hc, hm⟩, hq⟩ | hstop)
      · obtain ⟨body, hread, hlow, hlen, hall⟩ := (ih (lo - 1) m (by omega)).mp hq
        refine ⟨c :: body, hm.trans hread, ?_, ?_, List.forall_mem_cons.mpr ⟨hc, hall⟩⟩
        · rw [List.length_cons]
          omega
        · rw [List.length_cons]
          omega
      · split at hstop
        · next hzero =>
          rw [List.mem_singleton] at hstop
          subst hstop
          exact ⟨[], .refl q, Nat.le_of_eq hzero, Nat.zero_le _, List.forall_mem_nil _⟩
        · cases hstop
    · rintro ⟨body, hread, hlow, hlen, hall⟩
      cases body with
      | nil =>
        right
        rw [if_pos (Nat.le_zero.mp hlow), List.mem_singleton]
        exact (reads_nil p q).mp hread
      | cons c body =>
        left
        obtain ⟨m, hm, hrest⟩ := (reads_append p q [c] body).mp hread
        rw [List.length_cons] at hlow hlen
        refine ⟨m, ⟨c, hall c List.mem_cons_self, hm⟩, ?_⟩
        exact (ih (lo - 1) m (by omega)).mpr
          ⟨body, hrest, by omega, by omega, fun d hd => hall d (List.mem_cons_of_mem c hd)⟩

/-- How many rounds a repetition may take. -/
def AtMost (hi : Option ℕ) (n : ℕ) : Prop := ∀ h, hi = some h → n ≤ h

theorem mem_ends_rep_set (ok : Char → Bool) (lo : ℕ) (hi : Option ℕ)
    (hlo : ∀ h, hi = some h → lo ≤ h) (p q : Pos) :
    q ∈ ends word (.rep (.set ok) lo hi) p ↔
      ∃ body : Str, Reads p body q ∧ lo ≤ body.length ∧ AtMost hi body.length ∧
        ∀ c ∈ body, ok c = true := by
  have hends : ends word (.rep (.set ok) lo hi) p =
      reps (fun m => m.step ok) lo (hi.getD (lo + p.after.length)) p := rfl
  cases hi with
  | some h =>
    rw [hends, Option.getD_some, mem_reps_set ok lo h p q (hlo h rfl)]
    constructor
    · rintro ⟨body, hread, hlow, hlen, hall⟩
      refine ⟨body, hread, hlow, ?_, hall⟩
      rintro _ ⟨⟩
      exact hlen
    · rintro ⟨body, hread, hlow, hmost, hall⟩
      exact ⟨body, hread, hlow, hmost h rfl, hall⟩
  | none =>
    rw [hends, Option.getD_none, mem_reps_set ok lo _ p q (Nat.le_add_right _ _)]
    constructor
    · rintro ⟨body, hread, hlow, _, hall⟩
      refine ⟨body, hread, hlow, ?_, hall⟩
      rintro _ ⟨⟩
    · rintro ⟨body, hread, hlow, _, hall⟩
      have hlen := congrArg List.length hread.after
      rw [List.length_append] at hlen
      exact ⟨body, hread, hlow, by omega, hall⟩

theorem mem_ends_plus_set (ok : Char → Bool) (p q : Pos) :
    q ∈ ends word (plus (.set ok)) p ↔
      ∃ body : Str, body ≠ [] ∧ Reads p body q ∧ ∀ c ∈ body, ok c = true := by
  rw [plus, mem_ends_rep_set word ok 1 none (fun _ h => nomatch h)]
  constructor
  · rintro ⟨body, hread, hlen, _, hall⟩
    exact ⟨body, List.length_pos_iff.mp hlen, hread, hall⟩
  · rintro ⟨body, hne, hread, hall⟩
    exact ⟨body, hread, List.length_pos_iff.mpr hne, (fun _ h => nomatch h), hall⟩

/-- An unbounded repetition prefers the longest run. -/
theorem reps_head (ok : Char → Bool) (lo n : ℕ) (p q : Pos) (hn : p.after.length ≤ n)
    (h : (reps (fun m => m.step ok) lo n p).head? = some q) :
    ∀ c, q.after.head? = some c → ok c = false := by
  induction n generalizing lo p with
  | zero =>
    simp only [reps] at h
    split at h
    · rw [List.head?_cons, Option.some.injEq] at h
      subst h
      rw [List.length_eq_zero_iff.mp (Nat.le_zero.mp hn)]
      intro c hc
      cases hc
    · cases h
  | succ n ih =>
    obtain ⟨b, a⟩ := p
    have hstop : ∀ stop : List Pos, (if lo = 0 then [(⟨b, a⟩ : Pos)] else []) = stop →
        stop.head? = some q → q = ⟨b, a⟩ := by
      rintro _ rfl hq
      split at hq
      · rw [List.head?_cons, Option.some.injEq] at hq
        exact hq.symm
      · cases hq
    simp only [reps] at h
    cases a with
    | nil =>
      rw [hstop _ rfl (by simpa [Pos.step] using h)]
      intro c hc
      cases hc
    | cons d ds =>
      by_cases hd : ok d = true
      · have hstep : (⟨b, d :: ds⟩ : Pos).step ok = [⟨d :: b, ds⟩] := by simp [Pos.step, hd]
        simp only [hstep, List.flatMap_cons, List.flatMap_nil, List.append_nil] at h
        have hlen : ds.length ≤ n := Nat.le_of_succ_le_succ hn
        cases hrest : (reps (fun m => m.step ok) (lo - 1) n ⟨d :: b, ds⟩).head? with
        | some q' =>
          rw [List.head?_append, hrest, Option.some_or, Option.some.injEq] at h
          subst h
          exact ih (lo - 1) ⟨d :: b, ds⟩ hlen hrest
        | none =>
          -- one round more is always possible once none is needed
          have hempty := List.head?_eq_none_iff.mp hrest
          have hzero : lo ≠ 0 := by
            rintro rfl
            have hmem := (mem_reps_set ok 0 n ⟨d :: b, ds⟩ ⟨d :: b, ds⟩ (Nat.zero_le n)).mpr
              ⟨[], .refl _, Nat.le_refl _, Nat.zero_le _, List.forall_mem_nil _⟩
            rw [show 0 - 1 = 0 from rfl] at hempty
            rw [hempty] at hmem
            cases hmem
          rw [hempty, if_neg hzero] at h
          cases h
      · rw [hstop _ rfl (by simpa [Pos.step, hd] using h)]
        intro c hc
        rw [List.head?_cons, Option.some.injEq] at hc
        exact hc ▸ Bool.eq_false_iff.mpr hd

theorem head_rep_set (ok : Char → Bool) (lo : ℕ) (p q : Pos)
    (h : (ends word (.rep (.set ok) lo none) p).head? = some q) :
    ∀ c, q.after.head? = some c → ok c = false :=
  reps_head ok lo _ p q (Nat.le_add_left _ _) h

theorem head_ends_seq (r s : Rx) (p q : Pos) (h : (ends word (.seq r s) p).head? = some q) :
    ∃ m, m ∈ ends word r p ∧ (ends word s m).head? = some q := by
  rw [ends, List.head?_flatMap] at h
  exact List.exists_of_findSome?_eq_some h

/-! ## Where an expression matches -/

/-- The expression matches somewhere in the text. -/
def Occurs (r : Rx) (s : Str) : Prop := ∃ p q, text p = s ∧ q ∈ ends word r p

theorem matchAt_eq_none (r : Rx) (p : Pos) : matchAt word r p = none ↔ ends word r p = [] := by
  rw [matchAt, Option.map_eq_none_iff, List.head?_eq_none_iff]

theorem searchFrom_eq_none (r : Rx) (before s : Str) :
    searchFrom word r before s = none ↔
      ∀ u v, s = u ++ v → ends word r ⟨u.reverse ++ before, v⟩ = [] := by
  induction s generalizing before with
  | nil =>
    rw [searchFrom, matchAt_eq_none]
    constructor
    · intro h u v huv
      obtain ⟨rfl, rfl⟩ := List.append_eq_nil_iff.mp huv.symm
      exact h
    · intro h
      exact h [] [] rfl
  | cons c s ih =>
    rw [searchFrom]
    constructor
    · intro h u v huv
      split at h
      · cases h
      · next hnone =>
        cases u with
        | nil =>
          subst huv
          exact (matchAt_eq_none word r _).mp hnone
        | cons d u =>
          rw [List.cons_append, List.cons.injEq] at huv
          obtain ⟨rfl, rfl⟩ := huv
          have hrest := (ih (c :: before)).mp h u v rfl
          simpa using hrest
    · intro h
      have hnone : matchAt word r ⟨before, c :: s⟩ = none :=
        (matchAt_eq_none word r _).mpr (h [] (c :: s) rfl)
      rw [hnone]
      apply (ih (c :: before)).mpr
      intro u v huv
      have hrest := h (c :: u) v (by rw [huv, List.cons_append])
      simpa using hrest

theorem search_eq_none (r : Rx) (s : Str) : search word r s = none ↔ ¬ Occurs word r s := by
  rw [search, searchFrom_eq_none]
  constructor
  · rintro h ⟨⟨b, a⟩, q, htext, hq⟩
    have hnil := h b.reverse a htext.symm
    rw [List.reverse_reverse, List.append_nil] at hnil
    rw [hnil] at hq
    cases hq
  · intro h u v huv
    apply List.eq_nil_iff_forall_not_mem.mpr
    intro q hq
    refine h ⟨_, q, ?_, hq⟩
    simp [text, huv]

/-- A substitution takes the match from `p` to `q`. -/
def Taken (r : Rx) (p q : Pos) : Prop :=
  ∃ c m, matchAt word r p = some (c :: m) ∧ Reads p (c :: m) q

theorem matchAt_end (r : Rx) (p : Pos) (m : Str) (h : matchAt word r p = some m) :
    ∃ q, (ends word r p).head? = some q ∧ Reads p m q := by
  obtain ⟨q, hq, rfl⟩ := Option.map_eq_some_iff.mp h
  obtain ⟨w, hw, _⟩ := ends_accepts word r p q (List.mem_of_mem_head? hq)
  have htake : p.after.take (p.after.length - q.after.length) = w := by
    rw [hw.after]
    simp
  rw [htake]
  exact ⟨q, hq, hw⟩

/-- The match that is taken and where it ends. -/
theorem taken_match (r : Rx) (p q : Pos) (h : Taken word r p q) :
    ∃ c m, matchAt word r p = some (c :: m) ∧
      q = ⟨(c :: m).reverse ++ p.before, p.after.drop (m.length + 1)⟩ := by
  obtain ⟨c, m, hm, hread⟩ := h
  obtain ⟨b, a⟩ := q
  have hb : b = (c :: m).reverse ++ p.before := hread.before
  have ha : p.after = c :: m ++ a := hread.after
  have hdrop : p.after.drop (m.length + 1) = a := by
    rw [ha]
    simp
  exact ⟨c, m, hm, by rw [hb, hdrop]⟩

theorem not_taken_match (r : Rx) (p : Pos) (h : ∀ q, ¬ Taken word r p q) (c : Char) (m : Str) :
    matchAt word r p ≠ some (c :: m) := by
  intro hm
  obtain ⟨q, _, hread⟩ := matchAt_end word r p _ hm
  exact h q ⟨c, m, hm, hread⟩

theorem taken_head (r : Rx) (p q : Pos) (h : Taken word r p q) :
    (ends word r p).head? = some q := by
  obtain ⟨c, m, hm, hread⟩ := h
  obtain ⟨q', hq', hread'⟩ := matchAt_end word r p _ hm
  rw [(reads_unique hread hread' rfl).2]
  exact hq'

theorem taken_mem (r : Rx) (p q : Pos) (h : Taken word r p q) : q ∈ ends word r p :=
  List.mem_of_mem_head? (taken_head word r p q h)

/-- Where an expression that reads no empty text matches, a match is taken. -/
theorem taken_of_mem (r : Rx) (p q : Pos) (hr : p ∉ ends word r p) (h : q ∈ ends word r p) :
    ∃ q', Taken word r p q' := by
  cases hm : matchAt word r p with
  | none =>
    rw [(matchAt_eq_none word r p).mp hm] at h
    cases h
  | some m =>
    cases m with
    | nil =>
      obtain ⟨q', hq', hread⟩ := matchAt_end word r p [] hm
      rw [(reads_nil p q').mp hread] at hq'
      exact absurd (List.mem_of_mem_head? hq') hr
    | cons c m =>
      obtain ⟨q', _, hread⟩ := matchAt_end word r p _ hm
      exact ⟨q', c, m, hm, hread⟩

section Sub
variable (r : Rx) (repl : Str)

theorem subFrom_taken (n : ℕ) (p q : Pos) (h : Taken word r p q) :
    subFrom word r repl (n + 1) p = repl ++ subFrom word r repl n q := by
  obtain ⟨c, m, hm, rfl⟩ := taken_match word r p q h
  simp only [subFrom, hm]

theorem subFrom_kept (n : ℕ) (b : Str) (d : Char) (ds : Str)
    (h : ∀ q, ¬ Taken word r ⟨b, d :: ds⟩ q) :
    subFrom word r repl (n + 1) ⟨b, d :: ds⟩ = d :: subFrom word r repl n ⟨d :: b, ds⟩ := by
  rw [subFrom]
  split
  · next c m hm => exact absurd hm (not_taken_match word r _ h c m)
  · rfl

theorem subFrom_end (n : ℕ) (b : Str) : subFrom word r repl n ⟨b, []⟩ = [] := by
  cases n with
  | zero => rfl
  | succ n =>
    rw [subFrom]
    split
    · next c m hm =>
      obtain ⟨hread, _⟩ := matchAt_prefix word r _ _ hm
      cases List.prefix_nil.mp hread
    · rfl

/-- The output `k ++ l ++ v` at `p`: after `k` the text goes on as the output does,
or a match is taken whose replacement begins with `l`. -/
def Leaves (p : Pos) (k l v : Str) : Prop :=
  ∃ q, Reads p k q ∧
    ((l = [] ∧ v.head? = q.after.head?) ∨
      ∃ q' t v', Taken word r q q' ∧ repl = l ++ t ∧ v = t ++ v')

theorem sub_prefix (last : Char) (hlast : last ∈ repl) (n : ℕ) (p : Pos) (w v : Str)
    (hn : p.after.length < n) (hw : last ∉ w) (hout : subFrom word r repl n p = w ++ v) :
    ∃ k l, w = k ++ l ∧ Leaves word r repl p k l v := by
  induction n generalizing p w with
  | zero => exact absurd hn (Nat.not_lt_zero _)
  | succ n ih =>
    by_cases htaken : ∃ q, Taken word r p q
    · obtain ⟨q, hq⟩ := htaken
      rw [subFrom_taken word r repl n p q hq] at hout
      rcases List.append_eq_append_iff.mp hout with ⟨t, rfl, _⟩ | ⟨t, ht, hv⟩
      · exact absurd (List.mem_append_left t hlast) hw
      · exact ⟨[], w, rfl, p, .refl p, .inr ⟨q, t, _, hq, ht, hv⟩⟩
    · have hnot : ∀ q, ¬ Taken word r p q := fun q hq => htaken ⟨q, hq⟩
      obtain ⟨b, a⟩ := p
      cases a with
      | nil =>
        rw [subFrom_end] at hout
        obtain ⟨rfl, rfl⟩ := List.append_eq_nil_iff.mp hout.symm
        exact ⟨[], [], rfl, _, .refl _, .inl ⟨rfl, rfl⟩⟩
      | cons d ds =>
        rw [subFrom_kept word r repl n b d ds hnot] at hout
        cases w with
        | nil =>
          refine ⟨[], [], rfl, _, .refl _, .inl ⟨rfl, ?_⟩⟩
          rw [List.nil_append] at hout
          rw [← hout]
          rfl
        | cons c w =>
          rw [List.cons_append, List.cons.injEq] at hout
          obtain ⟨rfl, hrest⟩ := hout
          have hlen : ds.length < n := Nat.lt_of_succ_lt_succ hn
          obtain ⟨k, l, rfl, q, hread, hleaves⟩ := ih ⟨d :: b, ds⟩ w hlen
            (fun h => hw (List.mem_cons_of_mem d h)) hrest
          have hfirst : Reads ⟨b, d :: ds⟩ [d] ⟨d :: b, ds⟩ := ⟨rfl, rfl⟩
          exact ⟨d :: k, l, rfl, q, hfirst.trans hread, hleaves⟩

/-- What stands before `p` in the output: the same as in the text, or the end of
the replacement of a match. -/
def Link (last : Char) (o : Option Char) (p : Pos) : Prop :=
  o = p.before.head? ∨ (o = some last ∧ ∃ p', Taken word r p' p)

/-- The piece `k ++ l` of the output, `v` behind it, comes from the point `p`. -/
structure Traced (last : Char) (s : Str) (o : Option Char) (k l v : Str) (p : Pos) : Prop where
  text : text p = s
  kept : ∀ q, ¬ Taken word r p q
  link : Link word r last o p
  leaves : Leaves word r repl p k l v

theorem sub_trace (last : Char) (hlast : repl.getLast? = some last) (n : ℕ) (p : Pos)
    (pre u w v : Str) (hn : p.after.length < n) (hw : last ∉ w) (hin : ¬ w <:+: repl)
    (hlink : Link word r last pre.getLast? p)
    (hout : subFrom word r repl n p = u ++ (w ++ v)) :
    ∃ p' k l, w = k ++ l ∧ k ≠ [] ∧
      Traced word r repl last (text p) (pre ++ u).getLast? k l v p' := by
  have hmem : last ∈ repl := List.mem_of_getLast? hlast
  have hne : w ≠ [] := by
    rintro rfl
    exact hin (List.nil_infix)
  induction n generalizing p pre u with
  | zero => exact absurd hn (Nat.not_lt_zero _)
  | succ n ih =>
    by_cases htaken : ∃ q, Taken word r p q
    · obtain ⟨q, hq⟩ := htaken
      have hread : ∃ c m, Reads p (c :: m) q := ⟨_, _, hq.choose_spec.choose_spec.2⟩
      obtain ⟨c, m, hread⟩ := hread
      have hlen := congrArg List.length hread.after
      rw [List.length_append, List.length_cons] at hlen
      rw [subFrom_taken word r repl n p q hq] at hout
      -- the piece stands behind the replacement
      have hbehind : ∃ t, u = repl ++ t ∧ subFrom word r repl n q = t ++ (w ++ v) := by
        rcases List.append_eq_append_iff.mp hout with ⟨t, hu, hrest⟩ | ⟨t, hrepl, hrest⟩
        · exact ⟨t, hu, hrest⟩
        · rcases List.append_eq_append_iff.mp hrest with ⟨t', rfl, _⟩ | ⟨t', hwt, hrest'⟩
          · exact absurd ⟨u, t', by rw [hrepl, List.append_assoc]⟩ hin
          · cases t with
            | nil =>
              rw [List.append_nil] at hrepl
              rw [List.nil_append] at hwt
              exact ⟨[], by rw [hrepl, List.append_nil], by rw [hwt]; exact hrest'⟩
            | cons d t =>
              have htail : last ∈ d :: t := by
                rw [hrepl, List.getLast?_append] at hlast
                obtain ⟨x, hx⟩ := Option.isSome_iff_exists.mp
                  (List.getLast?_isSome.mpr (List.cons_ne_nil d t))
                rw [hx, Option.some_or, Option.some.injEq] at hlast
                exact hlast ▸ List.mem_of_getLast? hx
              exact absurd (hwt ▸ List.mem_append_left t' htail) hw
      obtain ⟨t, rfl, hrest⟩ := hbehind
      have hlink' : Link word r last (pre ++ repl).getLast? q := by
        right
        rw [List.getLast?_append, hlast]
        exact ⟨rfl, p, hq⟩
      have hnext := ih q (pre ++ repl) t (by omega) hlink' hrest
      rwa [reads_text hread, List.append_assoc] at hnext
    · have hnot : ∀ q, ¬ Taken word r p q := fun q hq => htaken ⟨q, hq⟩
      cases u with
      | nil =>
        obtain ⟨k, l, hkl, hleaves⟩ := sub_prefix word r repl last hmem (n + 1) p w v hn hw hout
        refine ⟨p, k, l, hkl, ?_, rfl, hnot, ?_, hleaves⟩
        · rintro rfl
          obtain ⟨q, hq, ⟨rfl, _⟩ | ⟨q', _, _, hq', _⟩⟩ := hleaves
          · exact hne hkl
          · rw [(reads_nil p q).mp hq] at hq'
            exact hnot q' hq'
        · rwa [List.append_nil]
      | cons c u =>
        obtain ⟨b, a⟩ := p
        cases a with
        | nil =>
          rw [subFrom_end] at hout
          cases hout
        | cons d ds =>
          rw [subFrom_kept word r repl n b d ds hnot, List.cons_append, List.cons.injEq] at hout
          obtain ⟨rfl, hrest⟩ := hout
          have hlink' : Link word r last (pre ++ [d]).getLast? ⟨d :: b, ds⟩ := by
            left
            simp
          have hnext := ih ⟨d :: b, ds⟩ (pre ++ [d]) u (Nat.lt_of_succ_lt_succ hn) hlink' hrest
          have htext : text ⟨d :: b, ds⟩ = text ⟨b, d :: ds⟩ := by simp [text]
          rwa [htext, List.append_assoc] at hnext

theorem sub_traced (last : Char) (hlast : repl.getLast? = some last) (s u w v : Str)
    (hw : last ∉ w) (hin : ¬ w <:+: repl) (hout : sub word r repl s = u ++ (w ++ v)) :
    ∃ p k l, w = k ++ l ∧ k ≠ [] ∧ Traced word r repl last s u.getLast? k l v p := by
  have hstart : Link word r last ([] : Str).getLast? ⟨[], s⟩ := .inl rfl
  have htrace := sub_trace word r repl last hlast (s.length + 1) ⟨[], s⟩ [] u w v
    (Nat.lt_succ_self _) hw hin hstart hout
  rwa [List.nil_append] at htrace

end Sub

/-! ## Expressions told by their texts -/

/-- The expression reads the texts of `L`, from one word boundary to another if it
is `bounded`. -/
structure Describes (r : Rx) (bounded : Bool) (L : Str → Prop) : Prop where
  ends_iff : ∀ p q, q ∈ ends word r p ↔ ∃ w, L w ∧ Reads p w q ∧
    (bounded = true → atBoundary word p = true ∧ atBoundary word q = true)
  nonempty : ¬ L []

theorem describes_taken {r : Rx} {bounded : Bool} {L : Str → Prop}
    (hr : Describes word r bounded L) {p q : Pos} (h : q ∈ ends word r p) :
    ∃ q', Taken word r p q' := by
  apply taken_of_mem word r p q ?_ h
  intro hp
  obtain ⟨w, hw, hread, _⟩ := (hr.ends_iff p p).mp hp
  have hlen := congrArg List.length hread.after
  rw [List.length_append] at hlen
  have hnil : w = [] := List.length_eq_zero_iff.mp (by omega)
  exact hr.nonempty (hnil ▸ hw)

/-- An end of a bounded expression, or its start, is a word boundary. -/
theorem taken_boundaries {r : Rx} {L : Str → Prop} (hr : Describes word r true L) {p q : Pos}
    (h : Taken word r p q) : atBoundary word p = true ∧ atBoundary word q = true := by
  obtain ⟨_, _, _, hbounds⟩ := (hr.ends_iff p q).mp (taken_mem word r p q h)
  exact hbounds rfl

theorem head_of_reads {p q : Pos} {w : Str} (h : Reads p w q) (hw : w ≠ []) :
    p.after.head? = w.head? ∧ q.before.head? = w.getLast? := by
  constructor
  · rw [h.after, List.head?_append_of_ne_nil _ hw]
  · rw [h.before, List.head?_append_of_ne_nil _ (List.reverse_ne_nil_iff.mpr hw),
      List.head?_reverse]

/-- The replacement of an expression brings no new match, neither of it nor of another
expression whose texts have nothing to do with it, if it is bounded where that one is. -/
theorem occurs_of_sub {x y : Rx} {bounded guarded : Bool} {L M : Str → Prop} {repl : Str}
    {first last : Char} (hx : Describes word x bounded L) (hy : Describes word y guarded M)
    (hguarded : bounded = true → guarded = true) (hfirst : repl.head? = some first) (hlast : repl.getLast? = some last)
    (havoid : ∀ w, L w → first ∉ w ∧ last ∉ w ∧ ¬ w <:+: repl) (s : Str)
    (h : Occurs word x (sub word y repl s)) :
    ∃ p q, text p = s ∧ q ∈ ends word x p ∧ ∀ q', ¬ Taken word y p q' := by
  obtain ⟨p, q, htext, hq⟩ := h
  obtain ⟨w, hw, hread, hbounds⟩ := (hx.ends_iff p q).mp hq
  obtain ⟨hno_first, hno_last, hin⟩ := havoid w hw
  have hne : w ≠ [] := fun hnil => hx.nonempty (hnil ▸ hw)
  have hout : sub word y repl s = p.before.reverse ++ (w ++ q.after) := by
    rw [← htext, text, hread.after]
  obtain ⟨p', k, l, hkl, _, htrace⟩ :=
    sub_traced word y repl last hlast s _ w q.after hno_last hin hout
  obtain ⟨q', hread', hgoes⟩ := htrace.leaves
  have hl : l = [] := by
    rcases hgoes with ⟨hl, _⟩ | ⟨_, t, _, _, hrepl, _⟩
    · exact hl
    · cases l with
      | nil => rfl
      | cons c l =>
        rw [hrepl, List.cons_append, List.head?_cons, Option.some.injEq] at hfirst
        subst hkl hfirst
        exact absurd (List.mem_append_right k List.mem_cons_self) hno_first
  rw [hl, List.append_nil] at hkl
  subst hkl
  refine ⟨p', q', htrace.text, (hx.ends_iff p' q').mpr ⟨w, hw, hread', ?_⟩, htrace.kept⟩
  intro hbounded
  obtain rfl := hguarded hbounded
  obtain ⟨hstart, hend⟩ := hbounds hbounded
  obtain ⟨hhead, hlast_of⟩ := head_of_reads hread hne
  obtain ⟨hhead', hlast_of'⟩ := head_of_reads hread' hne
  constructor
  · rcases htrace.link with hsame | ⟨_, p₀, htaken⟩
    · rw [List.getLast?_reverse] at hsame
      rw [atBoundary, ← hsame, hhead', ← hhead]
      exact hstart
    · exact (taken_boundaries word hy htaken).2
  · rcases hgoes with ⟨_, hsame⟩ | ⟨_, _, _, htaken, _⟩
    · rw [atBoundary, hlast_of', ← hlast_of, ← hsame]
      exact hend
    · exact (taken_boundaries word hy htaken).1

theorem sub_own {y : Rx} {guarded : Bool} {M : Str → Prop} {repl : Str} {first last : Char}
    (hy : Describes word y guarded M) (hfirst : repl.head? = some first)
    (hlast : repl.getLast? = some last)
    (havoid : ∀ w, M w → first ∉ w ∧ last ∉ w ∧ ¬ w <:+: repl) (s : Str) :
    ¬ Occurs word y (sub word y repl s) := by
  intro h
  obtain ⟨p, q, _, hq, hnot⟩ := occurs_of_sub word hy hy id hfirst hlast havoid s h
  obtain ⟨q', htaken⟩ := describes_taken word hy hq
  exact hnot q' htaken

end Ends

end AigentSquad.Substitution
