import AigentSquad.Substitution
import Mathlib.Logic.Relation

/-!
# What a search finds

The points `findall` tries, its matches said by these points, and two kinds of
expressions it is simple for: one whose texts begin with a character they do not
hold again, and a repeated set.
-/

set_option autoImplicit false

namespace AigentSquad.FoundMatches
open AigentSquad.PyText AigentSquad.Regex AigentSquad.Substitution Relation

/-- Where a reading starts and ends determines what is read. -/
theorem reads_between {p q : Pos} {u v : Str} (h : Reads p u q) (k : Reads p v q) : u = v := by
  have hu := congrArg List.length h.after
  have hv := congrArg List.length k.after
  rw [List.length_append] at hu hv
  exact (reads_unique h k (by omega)).1

section Search
variable (word : Char → Bool) (r : Rx)

/-- One move of a search: past the match taken here, or past one character. -/
def Next (p q : Pos) : Prop :=
  Taken word r p q ∨ ((∀ q', ¬ Taken word r p q') ∧ ∃ d, Reads p [d] q)

/-- A point of `s` at which a search tries the expression. -/
def Tried (s : Str) (p : Pos) : Prop := ReflTransGen (Next word r) ⟨[], s⟩ p

theorem taken_unique {p q q' : Pos} (h : Taken word r p q) (h' : Taken word r p q') : q = q' :=
  Option.some.inj ((taken_head word r p q h).symm.trans (taken_head word r p q' h'))

theorem taken_reads {p q : Pos} (h : Taken word r p q) : ∃ c m, Reads p (c :: m) q := by
  obtain ⟨c, m, _, hread⟩ := h
  exact ⟨c, m, hread⟩

theorem next_reads {p q : Pos} (h : Next word r p q) : ∃ c m, Reads p (c :: m) q := by
  rcases h with h | ⟨_, d, h⟩
  · exact taken_reads word r h
  · exact ⟨d, [], h⟩

theorem next_unique {p q q' : Pos} (h : Next word r p q) (h' : Next word r p q') : q = q' := by
  rcases h with h | ⟨hnot, d, hd⟩
  · rcases h' with h' | ⟨hnot, _⟩
    · exact taken_unique word r h h'
    · exact absurd h (hnot q)
  · rcases h' with h' | ⟨_, d', hd'⟩
    · exact absurd h' (hnot q')
    · exact (reads_unique hd hd' rfl).2

theorem tried_text (s : Str) (p : Pos) (h : Tried word r s p) : text p = s := by
  induction h with
  | refl => rfl
  | tail _ hnext ih =>
    obtain ⟨_, _, hread⟩ := next_reads word r hnext
    rw [reads_text hread, ih]

theorem findallFrom_taken (n : ℕ) (p q : Pos) (m : Str) (h : Taken word r p q)
    (hm : Reads p m q) : findallFrom word r (n + 1) p = m :: findallFrom word r n q := by
  obtain ⟨c, k, hk, hread⟩ := h
  obtain rfl := reads_between hm hread
  obtain ⟨c', k', hk', rfl⟩ := taken_match word r p q ⟨c, k, hk, hread⟩
  obtain ⟨rfl, rfl⟩ := List.cons.inj (Option.some.inj (hk'.symm.trans hk))
  simp only [findallFrom, hk]

theorem findallFrom_kept (n : ℕ) (b : Str) (d : Char) (ds : Str)
    (h : ∀ q, ¬ Taken word r ⟨b, d :: ds⟩ q) :
    findallFrom word r (n + 1) ⟨b, d :: ds⟩ = findallFrom word r n ⟨d :: b, ds⟩ := by
  rw [findallFrom]
  split
  · next c m hm => exact absurd hm (not_taken_match word r _ h c m)
  · rfl

theorem findallFrom_end (n : ℕ) (b : Str) : findallFrom word r n ⟨b, []⟩ = [] := by
  cases n with
  | zero => rfl
  | succ n =>
    rw [findallFrom]
    split
    · next c m hm =>
      obtain ⟨hread, _⟩ := matchAt_prefix word r _ _ hm
      cases List.prefix_nil.mp hread
    · rfl

theorem next_shorter {p q : Pos} (h : Next word r p q) : q.after.length < p.after.length := by
  obtain ⟨c, m, hread⟩ := next_reads word r h
  have hlen := congrArg List.length hread.after
  rw [List.length_append, List.length_cons] at hlen
  omega

theorem mem_findallFrom (n : ℕ) (p : Pos) (hn : p.after.length < n) (m : Str) :
    m ∈ findallFrom word r n p ↔
      ∃ p' q, ReflTransGen (Next word r) p p' ∧ Taken word r p' q ∧ Reads p' m q := by
  induction n generalizing p with
  | zero => exact absurd hn (Nat.not_lt_zero _)
  | succ n ih =>
    by_cases htaken : ∃ q, Taken word r p q
    · obtain ⟨q, hq⟩ := htaken
      have hnext : Next word r p q := .inl hq
      have hlen := next_shorter word r hnext
      obtain ⟨c, k, hread⟩ := taken_reads word r hq
      rw [findallFrom_taken word r n p q _ hq hread, List.mem_cons, ih q (by omega)]
      constructor
      · rintro (rfl | ⟨p', q', hp', htaken', hread'⟩)
        · exact ⟨p, q, .refl, hq, hread⟩
        · exact ⟨p', q', .head hnext hp', htaken', hread'⟩
      · rintro ⟨p', q', hp', htaken', hread'⟩
        rcases hp'.cases_head with rfl | ⟨p₁, hfirst, hrest⟩
        · left
          obtain rfl := taken_unique word r hq htaken'
          exact reads_between hread' hread
        · right
          obtain rfl := next_unique word r hnext hfirst
          exact ⟨p', q', hrest, htaken', hread'⟩
    · have hnot : ∀ q, ¬ Taken word r p q := fun q hq => htaken ⟨q, hq⟩
      obtain ⟨b, a⟩ := p
      cases a with
      | nil =>
        rw [findallFrom_end]
        refine iff_of_false List.not_mem_nil ?_
        rintro ⟨p', q', hp', htaken', _⟩
        rcases hp'.cases_head with rfl | ⟨p₁, hfirst, _⟩
        · exact hnot q' htaken'
        · exact absurd (next_shorter word r hfirst) (Nat.not_lt_zero _)
      | cons d ds =>
        have hnext : Next word r ⟨b, d :: ds⟩ ⟨d :: b, ds⟩ := .inr ⟨hnot, d, rfl, rfl⟩
        rw [findallFrom_kept word r n b d ds hnot, ih _ (Nat.lt_of_succ_lt_succ hn)]
        constructor
        · rintro ⟨p', q', hp', htaken', hread'⟩
          exact ⟨p', q', .head hnext hp', htaken', hread'⟩
        · rintro ⟨p', q', hp', htaken', hread'⟩
          rcases hp'.cases_head with rfl | ⟨p₁, hfirst, hrest⟩
          · exact absurd htaken' (hnot q')
          · obtain rfl := next_unique word r hnext hfirst
            exact ⟨p', q', hrest, htaken', hread'⟩

/-- A search finds what is taken at the points it tries. -/
theorem mem_findall (s m : Str) :
    m ∈ findall word r s ↔
      ∃ p q, Tried word r s p ∧ Taken word r p q ∧ Reads p m q :=
  mem_findallFrom word r _ _ (Nat.lt_succ_self _) m

/-- A match taken before the point `p` reaches past it. -/
def Covered (s : Str) (p : Pos) : Prop :=
  ∃ a q u v, Tried word r s a ∧ Taken word r a q ∧ Reads a u p ∧ Reads p v q ∧ u ≠ [] ∧ v ≠ []

theorem tried_or_covered (s b a : Str) (h : text ⟨b, a⟩ = s) :
    Tried word r s ⟨b, a⟩ ∨ Covered word r s ⟨b, a⟩ := by
  induction b generalizing a with
  | nil =>
    left
    rw [← h]
    exact .refl
  | cons d b ih =>
    have hstep : Reads ⟨b, d :: a⟩ [d] ⟨d :: b, a⟩ := ⟨rfl, rfl⟩
    -- a match that reaches past the point before ends here or covers this point too
    have beyond : ∀ p q u v, Tried word r s p → Taken word r p q → Reads p u ⟨b, d :: a⟩ →
        Reads ⟨b, d :: a⟩ v q → v ≠ [] →
        Tried word r s ⟨d :: b, a⟩ ∨ Covered word r s ⟨d :: b, a⟩ := by
      intro p q u v htried htaken hu hv hne
      obtain ⟨c, v, rfl⟩ := List.exists_cons_of_ne_nil hne
      obtain ⟨m, hm, hrest⟩ := (reads_append _ _ [c] v).mp hv
      obtain ⟨_, rfl⟩ := reads_unique hm hstep rfl
      cases v with
      | nil =>
        obtain rfl := (reads_nil _ q).mp hrest
        exact .inl (htried.tail (.inl htaken))
      | cons e v =>
        exact .inr ⟨p, q, u ++ [d], e :: v, htried, htaken, hu.trans hstep, hrest, by simp, by simp⟩
    rcases ih (d :: a) (by rw [← h, reads_text hstep]) with htried | hcovered
    · by_cases hhere : ∃ q, Taken word r ⟨b, d :: a⟩ q
      · obtain ⟨q, hq⟩ := hhere
        obtain ⟨c, m, hread⟩ := taken_reads word r hq
        exact beyond _ q [] _ htried hq (.refl _) hread (by simp)
      · exact .inl (htried.tail (.inr ⟨fun q hq => hhere ⟨q, hq⟩, d, hstep⟩))
    · obtain ⟨p, q, u, v, htried, htaken, hpu, hqv, _, hv⟩ := hcovered
      exact beyond p q u v htried htaken hpu hqv hv

theorem path_shorter {p q : Pos} (h : ReflTransGen (Next word r) p q) :
    q.after.length ≤ p.after.length := by
  induction h with
  | refl => exact Nat.le_refl _
  | tail _ hnext ih => exact (next_shorter word r hnext).le.trans ih

/-- A search tries the points that no match reaches past. -/
theorem tried_iff (s : Str) (p : Pos) (h : text p = s) :
    Tried word r s p ↔ ¬ Covered word r s p := by
  constructor
  · rintro htried ⟨a, q, u, v, ha, htaken, hu, hv, hune, hvne⟩
    have hleft := congrArg List.length hu.after
    have hright := congrArg List.length hv.after
    have hu₀ := List.length_pos_iff.mpr hune
    have hv₀ := List.length_pos_iff.mpr hvne
    rw [List.length_append] at hleft hright
    have hunique : Relator.RightUnique (Next word r) := fun _ _ _ => next_unique word r
    rcases ReflTransGen.total_of_right_unique hunique ha htried with hpath | hpath
    · rcases hpath.cases_head with rfl | ⟨p₁, hfirst, hrest⟩
      · omega
      · obtain rfl := next_unique word r (.inl htaken) hfirst
        have hlen := path_shorter word r hrest
        omega
    · have hlen := path_shorter word r hpath
      omega
  · exact (tried_or_covered word r s p.before p.after h).resolve_right

/-- Where every match begins with a character it does not hold again, a search
tries every point that has this character next. -/
theorem tried_of_first (first : Char)
    (hfirst : ∀ p q w, q ∈ ends word r p → Reads p w q → ∃ t, w = first :: t ∧ first ∉ t)
    (s : Str) (p : Pos) (hp : text p = s) (hnext : p.after.head? = some first) :
    Tried word r s p := by
  obtain ⟨b, a⟩ := p
  rcases tried_or_covered word r s b a hp with htried | hcovered
  · exact htried
  · obtain ⟨p, q, u, v, _, htaken, hu, hv, hune, hvne⟩ := hcovered
    obtain ⟨t, ht, hnot⟩ := hfirst p q (u ++ v) (taken_mem word r p q htaken) (hu.trans hv)
    obtain ⟨c, u, rfl⟩ := List.exists_cons_of_ne_nil hune
    obtain ⟨d, v, rfl⟩ := List.exists_cons_of_ne_nil hvne
    rw [List.cons_append, List.cons.injEq] at ht
    have hd : first = d := by
      rw [hv.after] at hnext
      exact (Option.some.inj hnext).symm
    subst hd
    exact absurd (ht.2 ▸ List.mem_append_right u List.mem_cons_self) hnot

end Search

theorem mem_ends_alts (word : Char → Bool) (r : Rx) (rs : List Rx) (p q : Pos) :
    q ∈ ends word (alts r rs) p ↔ ∃ s ∈ r :: rs, q ∈ ends word s p := by
  induction rs generalizing r with
  | nil => simp [alts]
  | cons s rs ih =>
    rw [alts, List.foldl_cons, ← alts, ih]
    simp only [List.mem_cons, exists_eq_or_imp, ends, List.mem_append, or_assoc]

/-! ## Repeated expressions -/

section Rounds
variable (word : Char → Bool) {r : Rx} {L : Str → Prop}

theorem reps_of_rounds (hr : ∀ p q, q ∈ ends word r p ↔ ∃ w, L w ∧ Reads p w q) (lo n : ℕ)
    (us : List Str) (p q : Pos) (hread : Reads p us.flatten q) (hlo : lo ≤ us.length)
    (hn : us.length ≤ n) (hall : ∀ u ∈ us, L u) : q ∈ reps (ends word r) lo n p := by
  induction us generalizing lo n p with
  | nil =>
    obtain rfl := (reads_nil p q).mp hread
    obtain rfl := Nat.le_zero.mp hlo
    cases n with
    | zero => simp [reps]
    | succ n => simp [reps]
  | cons u us ih =>
    cases n with
    | zero => exact absurd hn (Nat.not_succ_le_zero _)
    | succ n =>
      rw [List.flatten_cons, reads_append] at hread
      obtain ⟨m, hm, hrest⟩ := hread
      rw [List.length_cons] at hlo hn
      simp only [reps, List.mem_append, List.mem_flatMap]
      left
      exact ⟨m, (hr p m).mpr ⟨u, hall u List.mem_cons_self, hm⟩,
        ih (lo - 1) n m hrest (by omega) (by omega) (fun v hv => hall v (List.mem_cons_of_mem u hv))⟩

theorem length_le_flatten (hne : ¬ L []) (us : List Str) (hall : ∀ u ∈ us, L u) :
    us.length ≤ us.flatten.length := by
  induction us with
  | nil => exact Nat.le_refl _
  | cons u us ih =>
    have hu : u ≠ [] := fun h => hne (h ▸ hall u List.mem_cons_self)
    have hpos := List.length_pos_iff.mpr hu
    have hrest := ih (fun v hv => hall v (List.mem_cons_of_mem u hv))
    rw [List.flatten_cons, List.length_append, List.length_cons]
    omega

/-- What an unbounded repetition reads are the rounds its expression reads. -/
theorem mem_ends_rep (hr : ∀ p q, q ∈ ends word r p ↔ ∃ w, L w ∧ Reads p w q) (hne : ¬ L [])
    (lo : ℕ) (p q : Pos) : q ∈ ends word (.rep r lo none) p ↔
      ∃ us : List Str, Reads p us.flatten q ∧ lo ≤ us.length ∧ ∀ u ∈ us, L u := by
  have hends : ends word (.rep r lo none) p = reps (ends word r) lo (lo + p.after.length) p := rfl
  rw [hends]
  constructor
  · intro h
    refine reps_accepts (ends word r) L ?_ lo _ p q h
    intro p q h
    obtain ⟨w, hw, hread⟩ := (hr p q).mp h
    exact ⟨w, hread, hw⟩
  · rintro ⟨us, hread, hlo, hall⟩
    refine reps_of_rounds word hr lo _ us p q hread hlo ?_ hall
    have hlen := congrArg List.length hread.after
    have hrounds := length_le_flatten hne us hall
    rw [List.length_append] at hlen
    omega

end Rounds

/-! ## Repeated sets -/

section Runs
variable (word : Char → Bool) (ok : Char → Bool)

/-- `m` is a run of the set in `s`, as long as it can be on both sides. -/
def MaximalRun (s m : Str) : Prop :=
  ∃ b a, s = b ++ (m ++ a) ∧ (∀ c ∈ m, ok c = true) ∧
    (∀ c, b.getLast? = some c → ok c = false) ∧ ∀ c, a.head? = some c → ok c = false

theorem run_taken (lo : ℕ) (p q : Pos) (h : Taken word (.rep (.set ok) lo none) p q) :
    ∃ m, Reads p m q ∧ lo ≤ m.length ∧ (∀ c ∈ m, ok c = true) ∧
      ∀ c, q.after.head? = some c → ok c = false := by
  obtain ⟨m, hread, hlo, _, hall⟩ :=
    (mem_ends_rep_set word ok lo none (fun _ h => nomatch h) p q).mp (taken_mem word _ p q h)
  exact ⟨m, hread, hlo, hall, head_rep_set word ok lo p q (taken_head word _ p q h)⟩

theorem takeWhile_run (m a : Str) (hall : ∀ c ∈ m, ok c = true)
    (hstop : ∀ c, a.head? = some c → ok c = false) : (m ++ a).takeWhile ok = m := by
  rw [List.takeWhile_append_of_pos hall]
  cases a with
  | nil => simp
  | cons c a => simp [hstop c rfl]

/-- Runs up to a character outside the set end together. -/
theorem run_split (u u' v v' : Str) (x : Char) (hu : ∀ c ∈ u, ok c = true)
    (hu' : ∀ c ∈ u', ok c = true) (hx : ok x = false) (h : u ++ x :: v = u' ++ x :: v') :
    u = u' ∧ v = v' := by
  have hstop : ∀ t : Str, ∀ c, (x :: t).head? = some c → ok c = false := by
    intro t c hc
    rwa [← Option.some.inj hc]
  have huu : u = u' := by
    rw [← takeWhile_run ok u _ hu (hstop v), ← takeWhile_run ok u' _ hu' (hstop v'), h]
  subst huu
  exact ⟨rfl, (List.cons.inj (List.append_cancel_left h)).2⟩

/-- Two runs from one point that are as long as they can be are the same. -/
theorem run_unique {p q q' : Pos} {m m' : Str} (h : Reads p m q) (h' : Reads p m' q')
    (hall : ∀ c ∈ m, ok c = true) (hall' : ∀ c ∈ m', ok c = true)
    (hstop : ∀ c, q.after.head? = some c → ok c = false)
    (hstop' : ∀ c, q'.after.head? = some c → ok c = false) : m = m' := by
  rw [← takeWhile_run ok m q.after hall hstop, ← takeWhile_run ok m' q'.after hall' hstop',
    ← h.after, ← h'.after]

theorem taken_of_run (lo : ℕ) (hlo : 0 < lo) (p q : Pos) (m : Str) (hread : Reads p m q)
    (hlen : lo ≤ m.length) (hall : ∀ c ∈ m, ok c = true) :
    ∃ q', Taken word (.rep (.set ok) lo none) p q' := by
  have hends : q ∈ ends word (.rep (.set ok) lo none) p :=
    (mem_ends_rep_set word ok lo none (fun _ h => nomatch h) p q).mpr
      ⟨m, hread, hlen, (fun _ h => nomatch h), hall⟩
  refine taken_of_mem word _ p q ?_ hends
  intro hself
  obtain ⟨w, hw, hwlen, _⟩ :=
    (mem_ends_rep_set word ok lo none (fun _ h => nomatch h) p p).mp hself
  have hzero := congrArg List.length hw.after
  rw [List.length_append] at hzero
  omega

/-- The character before a match is outside the set. -/
theorem tried_run_start (lo : ℕ) (hlo : 0 < lo) (s : Str) (p q : Pos) (m : Str)
    (htried : Tried word (.rep (.set ok) lo none) s p) (hread : Reads p m q)
    (hlen : lo ≤ m.length) (hall : ∀ c ∈ m, ok c = true) :
    ∀ c, p.before.head? = some c → ok c = false := by
  rcases htried.cases_tail with rfl | ⟨p₀, _, hnext⟩
  · intro c hc
    cases hc
  · rcases hnext with htaken | ⟨hnot, d, hd⟩
    · -- a run is never followed by a character of the set
      obtain ⟨_, _, _, _, hstop⟩ := run_taken word ok lo p₀ p htaken
      obtain ⟨e, m, rfl⟩ : ∃ e t, m = e :: t :=
        List.exists_cons_of_ne_nil (List.ne_nil_of_length_pos (by omega))
      have he := hstop e (by rw [hread.after]; rfl)
      rw [hall e List.mem_cons_self] at he
      cases he
    · intro c hc
      rw [hd.before, List.reverse_singleton, List.singleton_append, List.head?_cons,
        Option.some.injEq] at hc
      subst hc
      by_contra hok
      have hrun : ∀ c ∈ d :: m, ok c = true :=
        List.forall_mem_cons.mpr ⟨by simpa using hok, hall⟩
      obtain ⟨q', hq'⟩ := taken_of_run word ok lo hlo p₀ q (d :: m) (hd.trans hread)
        (by rw [List.length_cons]; omega) hrun
      exact hnot q' hq'

/-- What a search for a long run of a set finds are the long maximal runs. -/
theorem mem_findall_runs (lo : ℕ) (hlo : 0 < lo) (s m : Str) :
    m ∈ findall word (.rep (.set ok) lo none) s ↔ lo ≤ m.length ∧ MaximalRun ok s m := by
  rw [mem_findall]
  constructor
  · rintro ⟨p, q, htried, htaken, hread⟩
    obtain ⟨w, hw, hlen, hall, hstop⟩ := run_taken word ok lo p q htaken
    obtain rfl := reads_between hread hw
    have hstart := tried_run_start word ok lo hlo s p q m htried hread hlen hall
    refine ⟨hlen, p.before.reverse, q.after, ?_, hall, ?_, hstop⟩
    · rw [← hread.after]
      exact (tried_text word _ s p htried).symm
    · rwa [List.getLast?_reverse]
  · rintro ⟨hlen, b, a, hs, hall, hstart, hstop⟩
    have hread : Reads ⟨b.reverse, m ++ a⟩ m ⟨m.reverse ++ b.reverse, a⟩ := ⟨rfl, rfl⟩
    have htext : text ⟨b.reverse, m ++ a⟩ = s := by
      rw [hs, text, List.reverse_reverse]
    have htried : Tried word (.rep (.set ok) lo none) s ⟨b.reverse, m ++ a⟩ := by
      rcases tried_or_covered word _ s _ _ htext with htried | hcovered
      · exact htried
      · obtain ⟨p, q, u, v, _, htaken, hu, hv, hune, _⟩ := hcovered
        obtain ⟨w, hw, _, hok, _⟩ := run_taken word ok lo p q htaken
        obtain rfl := reads_between hw (hu.trans hv)
        obtain ⟨hhead, hlast⟩ := head_of_reads hu hune
        rw [List.head?_reverse] at hlast
        obtain ⟨c, hc⟩ := Option.isSome_iff_exists.mp (List.getLast?_isSome.mpr hune)
        have hno := hstart c (hlast.trans hc)
        rw [hok c (List.mem_append_left v (List.mem_of_getLast? hc))] at hno
        cases hno
    obtain ⟨q', hq'⟩ := taken_of_run word ok lo hlo _ _ m hread hlen hall
    obtain ⟨w, hw, _, hall', hstop'⟩ := run_taken word ok lo _ q' hq'
    obtain rfl := run_unique ok hread hw hall hall' hstop hstop'
    exact ⟨_, q', htried, hq', hw⟩

end Runs

end AigentSquad.FoundMatches
