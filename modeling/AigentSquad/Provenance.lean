import AigentSquad.Substitution

/-!
# Where an output comes from

Each character of what a substitution returns was kept from the text or belongs
to a replacement. Through several substitutions a character of the text stays or
is lost.
-/

set_option autoImplicit false

namespace AigentSquad.Provenance
open AigentSquad.PyText AigentSquad.Regex AigentSquad.Substitution

/-- The point of a text before its character at `i`. -/
def point (s : Str) (i : ℕ) : Pos := ⟨(s.take i).reverse, s.drop i⟩

theorem text_point (s : Str) (i : ℕ) : text (point s i) = s := by
  rw [text, point, List.reverse_reverse, List.take_append_drop]

theorem point_append (a b : Str) : point (a ++ b) a.length = ⟨a.reverse, b⟩ := by
  rw [point, List.take_left, List.drop_left]

theorem point_of_text (p : Pos) : point (text p) p.before.length = p := by
  rw [← List.length_reverse, text, point_append, List.reverse_reverse]

section Sub
variable (word : Char → Bool) (r : Rx) (repl : Str)

/-- For each character of `subFrom` where it stood in the text, none for a
character of the replacement. -/
def originsFrom : ℕ → Pos → List (Option ℕ)
  | 0, _ => []
  | n + 1, p =>
    match matchAt word r p with
    | some (c :: m) =>
      repl.map (fun _ => none) ++
        originsFrom n ⟨(c :: m).reverse ++ p.before, p.after.drop (m.length + 1)⟩
    | _ =>
      match p.after with
      | [] => []
      | d :: ds => some p.before.length :: originsFrom n ⟨d :: p.before, ds⟩

def subOrigins (s : Str) : List (Option ℕ) := originsFrom word r repl (s.length + 1) ⟨[], s⟩

theorem originsFrom_taken (n : ℕ) (p q : Pos) (h : Taken word r p q) :
    originsFrom word r repl (n + 1) p =
      repl.map (fun _ => none) ++ originsFrom word r repl n q := by
  obtain ⟨c, m, hm, rfl⟩ := taken_match word r p q h
  simp only [originsFrom, hm]

theorem originsFrom_kept (n : ℕ) (b : Str) (d : Char) (ds : Str)
    (h : ∀ q, ¬ Taken word r ⟨b, d :: ds⟩ q) :
    originsFrom word r repl (n + 1) ⟨b, d :: ds⟩ =
      some b.length :: originsFrom word r repl n ⟨d :: b, ds⟩ := by
  rw [originsFrom]
  split
  · next c m hm => exact absurd hm (not_taken_match word r _ h c m)
  · rfl

theorem originsFrom_end (n : ℕ) (b : Str) : originsFrom word r repl n ⟨b, []⟩ = [] := by
  cases n with
  | zero => rfl
  | succ n =>
    rw [originsFrom]
    split
    · next c m hm =>
      obtain ⟨hread, _⟩ := matchAt_prefix word r _ _ hm
      cases List.prefix_nil.mp hread
    · rfl

/-- The character behind `p` is kept and stands behind `p'` in the output. -/
structure Stays (last : Char) (p p' : Pos) : Prop where
  output : text p' = sub word r repl (text p)
  kept : ∀ q, ¬ Taken word r p q
  link : Link word r last p'.before.head? p
  goes_on : ∃ n, p.after.length < n ∧ p'.after = subFrom word r repl n p

theorem originsFrom_stays (last : Char) (hlast : repl.getLast? = some last) (n : ℕ) (p : Pos)
    (pre : Str) (i j : ℕ) (hn : p.after.length < n)
    (hlink : Link word r last pre.getLast? p)
    (hout : sub word r repl (text p) = pre ++ subFrom word r repl n p)
    (h : (originsFrom word r repl n p)[j]? = some (some i)) :
    Stays word r repl last (point (text p) i) (point (sub word r repl (text p)) (pre.length + j)) := by
  induction n generalizing p pre j with
  | zero => exact absurd hn (Nat.not_lt_zero _)
  | succ n ih =>
    by_cases htaken : ∃ q, Taken word r p q
    · obtain ⟨q, hq⟩ := htaken
      obtain ⟨c, m, _, hread⟩ := id hq
      have hlen := congrArg List.length hread.after
      rw [List.length_append, List.length_cons] at hlen
      rw [originsFrom_taken word r repl n p q hq] at h
      rw [subFrom_taken word r repl n p q hq, ← List.append_assoc] at hout
      have hj : repl.length ≤ j := by
        by_contra hless
        rw [List.getElem?_append_left (by rw [List.length_map]; omega), List.getElem?_map] at h
        cases hget : repl[j]? with
        | none =>
          rw [hget] at h
          cases h
        | some d =>
          rw [hget] at h
          cases h
      rw [List.getElem?_append_right (by rw [List.length_map]; exact hj), List.length_map] at h
      have hlink' : Link word r last (pre ++ repl).getLast? q := by
        right
        rw [List.getLast?_append, hlast]
        exact ⟨rfl, p, hq⟩
      rw [← reads_text hread] at hout ⊢
      have hnext := ih q (pre ++ repl) (j - repl.length) (by omega) hlink' hout h
      have hindex : (pre ++ repl).length + (j - repl.length) = pre.length + j := by
        rw [List.length_append]
        omega
      rwa [hindex] at hnext
    · have hnot : ∀ q, ¬ Taken word r p q := fun q hq => htaken ⟨q, hq⟩
      obtain ⟨b, a⟩ := p
      cases a with
      | nil =>
        rw [originsFrom_end] at h
        cases h
      | cons d ds =>
        cases j with
        | zero =>
          rw [originsFrom_kept word r repl n b d ds hnot, List.getElem?_cons_zero,
            Option.some.injEq, Option.some.injEq] at h
          have hpoint : point (text ⟨b, d :: ds⟩) i = ⟨b, d :: ds⟩ := by
            rw [← h]
            exact point_of_text ⟨b, d :: ds⟩
          rw [hpoint, Nat.add_zero]
          refine ⟨text_point _ _, hnot, ?_, n + 1, hn, ?_⟩
          · rw [hout, point_append, List.head?_reverse]
            exact hlink
          · rw [hout, point_append]
        | succ j =>
          rw [originsFrom_kept word r repl n b d ds hnot, List.getElem?_cons_succ] at h
          rw [subFrom_kept word r repl n b d ds hnot, List.append_cons] at hout
          have htext : text ⟨d :: b, ds⟩ = text ⟨b, d :: ds⟩ := by simp [text]
          have hlink' : Link word r last (pre ++ [d]).getLast? ⟨d :: b, ds⟩ := by
            left
            simp
          rw [← htext] at hout ⊢
          have hnext := ih ⟨d :: b, ds⟩ (pre ++ [d]) j (Nat.lt_of_succ_lt_succ hn) hlink' hout h
          have hindex : (pre ++ [d]).length + j = pre.length + (j + 1) := by
            rw [List.length_append, List.length_singleton]
            omega
          rwa [hindex] at hnext

theorem subOrigins_stays (last : Char) (hlast : repl.getLast? = some last) (s : Str) (i j : ℕ)
    (h : (subOrigins word r repl s)[j]? = some (some i)) :
    Stays word r repl last (point s i) (point (sub word r repl s) j) := by
  have hstart : Link word r last ([] : Str).getLast? ⟨[], s⟩ := .inl rfl
  have hstays := originsFrom_stays word r repl last hlast (s.length + 1) ⟨[], s⟩ [] i j
    (Nat.lt_succ_self _) hstart rfl h
  simpa [text] using hstays

/-- Where nothing matches a substitution changes nothing. -/
theorem subFrom_of_no_match (n : ℕ) (p : Pos) (hn : p.after.length < n)
    (h : ¬ Occurs word r (text p)) :
    subFrom word r repl n p = p.after ∧ ∀ i < p.after.length,
      (originsFrom word r repl n p)[i]? = some (some (p.before.length + i)) := by
  induction n generalizing p with
  | zero => exact absurd hn (Nat.not_lt_zero _)
  | succ n ih =>
    have hnot : ∀ q, ¬ Taken word r p q := fun q hq => h ⟨p, q, rfl, taken_mem word r p q hq⟩
    obtain ⟨b, a⟩ := p
    cases a with
    | nil => exact ⟨subFrom_end word r repl _ b, fun i hi => absurd hi (Nat.not_lt_zero i)⟩
    | cons d ds =>
      have htext : text ⟨d :: b, ds⟩ = text ⟨b, d :: ds⟩ := by simp [text]
      obtain ⟨hsame, horigins⟩ :=
        ih ⟨d :: b, ds⟩ (Nat.lt_of_succ_lt_succ hn) (htext ▸ h)
      rw [subFrom_kept word r repl n b d ds hnot, originsFrom_kept word r repl n b d ds hnot, hsame]
      refine ⟨rfl, ?_⟩
      intro i hi
      cases i with
      | zero => rfl
      | succ i =>
        rw [List.getElem?_cons_succ, horigins i (Nat.lt_of_succ_lt_succ hi), List.length_cons,
          Nat.add_right_comm, Nat.add_assoc]

theorem sub_of_no_match (s : Str) (h : ¬ Occurs word r s) :
    sub word r repl s = s ∧ ∀ i < s.length, (subOrigins word r repl s)[i]? = some (some i) := by
  have hall := subFrom_of_no_match word r repl (s.length + 1) ⟨[], s⟩ (Nat.lt_succ_self _) h
  simpa [sub, subOrigins] using hall

end Sub

/-! ## One substitution after another -/

section Chain
variable (word : Char → Bool)

def subs (ps : List (Rx × Str)) (s : Str) : Str := ps.foldl (fun t p => sub word p.1 p.2 t) s

/-- For each character of `subs` where it stood in the text. -/
def origins : List (Rx × Str) → Str → List (Option ℕ)
  | [], s => (List.range s.length).map some
  | p :: ps, s =>
    (origins ps (sub word p.1 p.2 s)).map
      (fun o => o.bind (fun j => (subOrigins word p.1 p.2 s)[j]?.join))

theorem length_origins (ps : List (Rx × Str)) (s : Str) :
    (origins word ps s).length = (subs word ps s).length := by
  induction ps generalizing s with
  | nil => simp [origins, subs]
  | cons p ps ih =>
    rw [origins, List.length_map, ih]
    rfl

/-- The character behind `p` is kept by every substitution. -/
def Passes (last : Char) : List (Rx × Str) → Pos → Pos → Prop
  | [], p, p' => p' = p
  | y :: ys, p, p' => ∃ m, Stays word y.1 y.2 last p m ∧ Passes last ys m p'

theorem passes_append (last : Char) (xs ys : List (Rx × Str)) (p p' : Pos) :
    Passes word last (xs ++ ys) p p' ↔
      ∃ m, Passes word last xs p m ∧ Passes word last ys m p' := by
  induction xs generalizing p with
  | nil => simp [Passes]
  | cons x xs ih =>
    simp only [List.cons_append, Passes, ih]
    constructor
    · rintro ⟨m, hm, k, hk, hrest⟩
      exact ⟨k, ⟨m, hm, hk⟩, hrest⟩
    · rintro ⟨k, ⟨m, hm, hk⟩, hrest⟩
      exact ⟨m, hm, k, hk, hrest⟩

theorem origins_passes (last : Char) (ps : List (Rx × Str))
    (hps : ∀ p ∈ ps, p.2.getLast? = some last) (s : Str) (i j : ℕ)
    (h : (origins word ps s)[j]? = some (some i)) :
    Passes word last ps (point s i) (point (subs word ps s) j) := by
  induction ps generalizing s i with
  | nil =>
    rw [origins, List.getElem?_map, Option.map_eq_some_iff] at h
    obtain ⟨k, hk, hki⟩ := h
    obtain ⟨_, hrange⟩ := List.getElem?_eq_some_iff.mp hk
    rw [List.getElem_range] at hrange
    cases hki
    rw [hrange]
    rfl
  | cons p ps ih =>
    obtain ⟨hp, hps⟩ := List.forall_mem_cons.mp hps
    rw [origins, List.getElem?_map, Option.map_eq_some_iff] at h
    obtain ⟨o, ho, hbind⟩ := h
    obtain ⟨k, rfl, hk⟩ := Option.bind_eq_some_iff.mp hbind
    have hstay := subOrigins_stays word p.1 p.2 last hp s i k (Option.join_eq_some_iff.mp hk)
    exact ⟨_, hstay, ih hps _ k ho⟩

theorem subs_of_no_match (ps : List (Rx × Str)) (s : Str)
    (h : ∀ p ∈ ps, search word p.1 s = none) :
    subs word ps s = s ∧ ∀ i < s.length, (origins word ps s)[i]? = some (some i) := by
  induction ps with
  | nil =>
    refine ⟨rfl, ?_⟩
    intro i hi
    rw [origins, List.getElem?_map, List.getElem?_range hi]
    rfl
  | cons p ps ih =>
    obtain ⟨hp, hps⟩ := List.forall_mem_cons.mp h
    obtain ⟨hsub, hkept⟩ := sub_of_no_match word p.1 p.2 s ((search_eq_none word p.1 s).mp hp)
    obtain ⟨hsubs, horigins⟩ := ih hps
    constructor
    · rw [subs, List.foldl_cons, hsub]
      exact hsubs
    · intro i hi
      rw [origins, hsub, List.getElem?_map, horigins i hi, Option.map_some, Option.bind_some,
        hkept i hi]
      rfl

end Chain

end AigentSquad.Provenance
