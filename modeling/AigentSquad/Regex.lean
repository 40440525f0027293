import AigentSquad.PyText

/-!
# Backtracking regular expressions

Character sets, sequence, ordered choice, greedy repetition and word boundary.
`ends` lists the positions a match can stop at, the preferred one first, so
`search` and `findall` return what a backtracking matcher returns. A repeated
expression is meant to consume at every round.
-/

set_option autoImplicit false

namespace AigentSquad.Regex
open AigentSquad.PyText

inductive Rx where
  | empty
  | set (p : Char → Bool)
  | seq (r s : Rx)
  | alt (r s : Rx)
  | rep (r : Rx) (lo : Nat) (hi : Option Nat)
  | boundary

/-- A point of a text: what precedes it, nearest first, and what follows. -/
structure Pos where
  before : Str
  after : Str
deriving DecidableEq, Repr

def lit (s : Str) : Rx := s.foldr (fun c r => .seq (.set (fun d => d = c)) r) .empty

/-- Characters that match an ASCII letter under `re.IGNORECASE`, folded to it. -/
def foldCase (c : Char) : Char :=
  if c = 'ſ' then 's'
  else if c.toNat = 0x212a then 'k'
  else if c = 'İ' ∨ c = 'ı' then 'i'
  else c.toLower

def ignoreCase (ok : Char → Bool) : Char → Bool := fun c => ok (foldCase c)

/-- A literal with its letters in lower case, under `re.IGNORECASE`. -/
def litIgnoreCase (s : Str) : Rx :=
  s.foldr (fun c r => .seq (.set (ignoreCase (fun d => d = c))) r) .empty

def opt (r : Rx) : Rx := .rep r 0 (some 1)

def star (r : Rx) : Rx := .rep r 0 none

def plus (r : Rx) : Rx := .rep r 1 none

def times (r : Rx) (n : Nat) : Rx := .rep r n (some n)

def seqs (rs : List Rx) : Rx := rs.foldr .seq .empty

def alts (r : Rx) (rs : List Rx) : Rx := rs.foldl .alt r

def oneOf (cs : Str) : Char → Bool := fun c => c ∈ cs

def Pos.step (p : Pos) (ok : Char → Bool) : List Pos :=
  match p.after with
  | [] => []
  | c :: cs => if ok c then [⟨c :: p.before, cs⟩] else []

def atBoundary (word : Char → Bool) (p : Pos) : Bool :=
  p.before.head?.any word != p.after.head?.any word

/-- Between `lo` and `fuel` rounds, more rounds preferred. -/
def reps (f : Pos → List Pos) : Nat → Nat → Pos → List Pos
  | lo, 0, p => if lo = 0 then [p] else []
  | lo, n + 1, p => (f p).flatMap (reps f (lo - 1) n) ++ if lo = 0 then [p] else []

def ends (word : Char → Bool) : Rx → Pos → List Pos
  | .empty, p => [p]
  | .set ok, p => p.step ok
  | .seq r s, p => (ends word r p).flatMap (ends word s)
  | .alt r s, p => ends word r p ++ ends word s p
  | .rep r lo hi, p => reps (ends word r) lo (hi.getD (lo + p.after.length)) p
  | .boundary, p => if atBoundary word p then [p] else []

def matchAt (word : Char → Bool) (r : Rx) (p : Pos) : Option Str :=
  (ends word r p).head?.map (fun q => p.after.take (p.after.length - q.after.length))

def searchFrom (word : Char → Bool) (r : Rx) : Str → Str → Option Str
  | before, [] => matchAt word r ⟨before, []⟩
  | before, c :: cs =>
    match matchAt word r ⟨before, c :: cs⟩ with
    | some m => some m
    | none => searchFrom word r (c :: before) cs

def search (word : Char → Bool) (r : Rx) (s : Str) : Option Str := searchFrom word r [] s

/-- Consuming matches from left to right, each search resuming where the last
match ended; `n` bounds the number of attempts. -/
def findallFrom (word : Char → Bool) (r : Rx) : Nat → Pos → List Str
  | 0, _ => []
  | n + 1, p =>
    match matchAt word r p with
    | some (c :: m) =>
      (c :: m) :: findallFrom word r n ⟨(c :: m).reverse ++ p.before, p.after.drop (m.length + 1)⟩
    | _ =>
      match p.after with
      | [] => []
      | d :: ds => findallFrom word r n ⟨d :: p.before, ds⟩

def findall (word : Char → Bool) (r : Rx) (s : Str) : List Str :=
  findallFrom word r (s.length + 1) ⟨[], s⟩

/-- `re.sub` by a fixed text, for an expression that matches no empty text. -/
def subFrom (word : Char → Bool) (r : Rx) (repl : Str) : Nat → Pos → Str
  | 0, p => p.after
  | n + 1, p =>
    match matchAt word r p with
    | some (c :: m) =>
      repl ++ subFrom word r repl n ⟨(c :: m).reverse ++ p.before, p.after.drop (m.length + 1)⟩
    | _ =>
      match p.after with
      | [] => []
      | d :: ds => d :: subFrom word r repl n ⟨d :: p.before, ds⟩

def sub (word : Char → Bool) (r : Rx) (repl s : Str) : Str :=
  subFrom word r repl (s.length + 1) ⟨[], s⟩

/-- The texts an expression describes, word boundaries and the order of
choices aside. -/
def Rx.Accepts : Rx → Str → Prop
  | .empty, w => w = []
  | .set ok, w => ∃ c, ok c = true ∧ w = [c]
  | .seq r s, w => ∃ u v, w = u ++ v ∧ r.Accepts u ∧ s.Accepts v
  | .alt r s, w => r.Accepts w ∨ s.Accepts w
  | .rep r lo _, w => ∃ us : List Str, w = us.flatten ∧ lo ≤ us.length ∧ ∀ u ∈ us, r.Accepts u
  | .boundary, w => w = []

/-- Every set of the expression is inside `P`. -/
def Rx.Over (P : Char → Prop) : Rx → Prop
  | .empty => True
  | .set ok => ∀ c, ok c = true → P c
  | .seq r s => r.Over P ∧ s.Over P
  | .alt r s => r.Over P ∧ s.Over P
  | .rep r _ _ => r.Over P
  | .boundary => True

/-- Every text of the expression has a character in `P`. -/
def Rx.Needs (P : Char → Prop) : Rx → Prop
  | .empty => False
  | .set ok => ∀ c, ok c = true → P c
  | .seq r s => r.Needs P ∨ s.Needs P
  | .alt r s => r.Needs P ∧ s.Needs P
  | .rep r lo _ => 0 < lo ∧ r.Needs P
  | .boundary => False

theorem accepts_over (P : Char → Prop) (r : Rx) (hr : r.Over P) (w : Str) (h : r.Accepts w) :
    ∀ c ∈ w, P c := by
  induction r generalizing w with
  | empty => simp [show w = [] from h]
  | set ok =>
    obtain ⟨c, hc, rfl⟩ := h
    simpa using hr c hc
  | seq r s ihr ihs =>
    obtain ⟨u, v, rfl, hu, hv⟩ := h
    exact List.forall_mem_append.mpr ⟨ihr hr.1 u hu, ihs hr.2 v hv⟩
  | alt r s ihr ihs => exact h.elim (ihr hr.1 w) (ihs hr.2 w)
  | rep r lo hi ih =>
    obtain ⟨us, rfl, _, hus⟩ := h
    intro c hc
    obtain ⟨u, hu, hcu⟩ := List.mem_flatten.mp hc
    exact ih hr u (hus u hu) c hcu
  | boundary => simp [show w = [] from h]

theorem accepts_needs (P : Char → Prop) (r : Rx) (hr : r.Needs P) (w : Str) (h : r.Accepts w) :
    ∃ c ∈ w, P c := by
  induction r generalizing w with
  | empty => exact absurd hr id
  | set ok =>
    obtain ⟨c, hc, rfl⟩ := h
    exact ⟨c, by simp, hr c hc⟩
  | seq r s ihr ihs =>
    obtain ⟨u, v, rfl, hu, hv⟩ := h
    rcases hr with hr | hr
    · obtain ⟨c, hc, hP⟩ := ihr hr u hu
      exact ⟨c, List.mem_append_left v hc, hP⟩
    · obtain ⟨c, hc, hP⟩ := ihs hr v hv
      exact ⟨c, List.mem_append_right u hc, hP⟩
  | alt r s ihr ihs => exact h.elim (ihr hr.1 w) (ihs hr.2 w)
  | rep r lo hi ih =>
    obtain ⟨us, rfl, hlo, hus⟩ := h
    obtain ⟨u, hu⟩ := List.exists_mem_of_length_pos (Nat.lt_of_lt_of_le hr.1 hlo)
    obtain ⟨c, hc, hP⟩ := ih hr.2 u (hus u hu)
    exact ⟨c, List.mem_flatten.mpr ⟨u, hu, hc⟩, hP⟩
  | boundary => exact absurd hr id

theorem over_seqs (P : Char → Prop) (rs : List Rx) (h : ∀ r ∈ rs, r.Over P) :
    (seqs rs).Over P := by
  induction rs with
  | nil => trivial
  | cons r rs ih => exact ⟨h r (by simp), ih (fun s hs => h s (by simp [hs]))⟩

theorem over_alts (P : Char → Prop) (r : Rx) (rs : List Rx) (hr : r.Over P)
    (h : ∀ s ∈ rs, s.Over P) : (alts r rs).Over P := by
  induction rs generalizing r with
  | nil => exact hr
  | cons s rs ih => exact ih (.alt r s) ⟨hr, h s (by simp)⟩ (fun t ht => h t (by simp [ht]))

theorem over_lit (P : Char → Prop) (s : Str) (h : ∀ c ∈ s, P c) : (lit s).Over P := by
  induction s with
  | nil => trivial
  | cons c s ih => exact ⟨fun d hd => of_decide_eq_true hd ▸ h c (by simp), ih (fun d hd => h d (by simp [hd]))⟩

theorem needs_seqs (P : Char → Prop) (rs : List Rx) (r : Rx) (hr : r ∈ rs) (h : r.Needs P) :
    (seqs rs).Needs P := by
  induction rs with
  | nil => cases hr
  | cons s rs ih =>
    rcases List.mem_cons.mp hr with rfl | hr
    · exact .inl h
    · exact .inr (ih hr)

/-- `q` is reached from `p` by reading `w`. -/
structure Reads (p : Pos) (w : Str) (q : Pos) : Prop where
  before : q.before = w.reverse ++ p.before
  after : p.after = w ++ q.after

theorem Reads.refl (p : Pos) : Reads p [] p := ⟨rfl, rfl⟩

theorem Reads.trans {p q r : Pos} {u v : Str} (h : Reads p u q) (k : Reads q v r) :
    Reads p (u ++ v) r :=
  ⟨by rw [k.before, h.before]; simp, by rw [h.after, k.after]; simp⟩

theorem step_reads (p q : Pos) (ok : Char → Bool) (h : q ∈ p.step ok) :
    ∃ c, ok c = true ∧ Reads p [c] q := by
  obtain ⟨b, a⟩ := p
  cases a with
  | nil => simp [Pos.step] at h
  | cons c cs =>
    by_cases hc : ok c = true
    · simp only [Pos.step, hc, if_true, List.mem_singleton] at h
      subst h
      exact ⟨c, hc, rfl, rfl⟩
    · simp [Pos.step, hc] at h

theorem reps_accepts (f : Pos → List Pos) (L : Str → Prop)
    (hf : ∀ p q, q ∈ f p → ∃ w, Reads p w q ∧ L w)
    (lo n : Nat) (p q : Pos) (h : q ∈ reps f lo n p) :
    ∃ us : List Str, Reads p us.flatten q ∧ lo ≤ us.length ∧ ∀ u ∈ us, L u := by
  have stop : ∀ lo p, q ∈ (if lo = 0 then [p] else []) →
      ∃ us : List Str, Reads p us.flatten q ∧ lo ≤ us.length ∧ ∀ u ∈ us, L u := by
    intro lo p h
    split at h
    · next hlo => exact ⟨[], List.mem_singleton.mp h ▸ .refl p, by simp [hlo], by simp⟩
    · cases h
  induction n generalizing lo p with
  | zero => exact stop lo p h
  | succ n ih =>
    simp only [reps, List.mem_append, List.mem_flatMap] at h
    rcases h with ⟨m, hm, hq⟩ | h
    · obtain ⟨u, hu, hL⟩ := hf p m hm
      obtain ⟨us, hus, hlo, hLs⟩ := ih (lo - 1) m hq
      refine ⟨u :: us, hu.trans hus, ?_, List.forall_mem_cons.mpr ⟨hL, hLs⟩⟩
      rw [List.length_cons]
      omega
    · exact stop lo p h

/-- Soundness of `ends`: the text read to an end is one the expression describes. -/
theorem ends_accepts (word : Char → Bool) (r : Rx) (p q : Pos) (h : q ∈ ends word r p) :
    ∃ w, Reads p w q ∧ r.Accepts w := by
  induction r generalizing p q with
  | empty =>
    simp only [ends, List.mem_singleton] at h
    exact ⟨[], h ▸ .refl p, rfl⟩
  | set ok =>
    obtain ⟨c, hc, hread⟩ := step_reads p q ok h
    exact ⟨[c], hread, c, hc, rfl⟩
  | seq r s ihr ihs =>
    simp only [ends, List.mem_flatMap] at h
    obtain ⟨m, hm, hq⟩ := h
    obtain ⟨u, hu, hru⟩ := ihr p m hm
    obtain ⟨v, hv, hsv⟩ := ihs m q hq
    exact ⟨u ++ v, hu.trans hv, u, v, rfl, hru, hsv⟩
  | alt r s ihr ihs =>
    simp only [ends, List.mem_append] at h
    rcases h with h | h
    · obtain ⟨w, hw, hr⟩ := ihr p q h
      exact ⟨w, hw, .inl hr⟩
    · obtain ⟨w, hw, hs⟩ := ihs p q h
      exact ⟨w, hw, .inr hs⟩
  | rep r lo hi ih =>
    obtain ⟨us, hus, hlo, hr⟩ := reps_accepts (ends word r) r.Accepts ih lo _ p q h
    exact ⟨us.flatten, hus, us, rfl, hlo, hr⟩
  | boundary =>
    simp only [ends] at h
    split at h
    · simp only [List.mem_singleton] at h
      exact ⟨[], h ▸ .refl p, rfl⟩
    · cases h

theorem matchAt_prefix (word : Char → Bool) (r : Rx) (p : Pos) (m : Str)
    (h : matchAt word r p = some m) : m <+: p.after ∧ r.Accepts m := by
  simp only [matchAt, Option.map_eq_some_iff] at h
  obtain ⟨q, hq, rfl⟩ := h
  obtain ⟨w, hw, haccepts⟩ := ends_accepts word r p q (List.mem_of_mem_head? hq)
  have htake : p.after.take (p.after.length - q.after.length) = w := by
    rw [hw.after]
    simp
  rw [htake]
  exact ⟨⟨q.after, hw.after.symm⟩, haccepts⟩

theorem findallFrom_spec (word : Char → Bool) (r : Rx) (n : Nat) (p : Pos) (m : Str)
    (h : m ∈ findallFrom word r n p) : m <:+: p.after ∧ r.Accepts m ∧ m ≠ [] := by
  induction n generalizing p with
  | zero => simp [findallFrom] at h
  | succ n ih =>
    simp only [findallFrom] at h
    split at h
    · next c k hk =>
      rcases List.mem_cons.mp h with rfl | h
      · obtain ⟨hpre, haccepts⟩ := matchAt_prefix word r p (c :: k) hk
        exact ⟨hpre.isInfix, haccepts, by simp⟩
      · obtain ⟨hin, haccepts, hne⟩ := ih _ h
        exact ⟨hin.trans (List.drop_suffix _ _).isInfix, haccepts, hne⟩
    · split at h
      · cases h
      · next d ds hd =>
        obtain ⟨hin, haccepts, hne⟩ := ih _ h
        exact ⟨hd ▸ List.infix_cons hin, haccepts, hne⟩

/-- What `findall` returns occurs in the text, is described by the expression
and is not empty. -/
theorem findall_spec (word : Char → Bool) (r : Rx) (s m : Str) (h : m ∈ findall word r s) :
    m <:+: s ∧ r.Accepts m ∧ m ≠ [] :=
  findallFrom_spec word r _ _ m h

theorem searchFrom_spec (word : Char → Bool) (r : Rx) (before s m : Str)
    (h : searchFrom word r before s = some m) : m <:+: s ∧ r.Accepts m := by
  induction s generalizing before with
  | nil =>
    obtain ⟨hpre, haccepts⟩ := matchAt_prefix word r _ m h
    exact ⟨hpre.isInfix, haccepts⟩
  | cons c s ih =>
    simp only [searchFrom] at h
    split at h
    · next k hk =>
      cases h
      obtain ⟨hpre, haccepts⟩ := matchAt_prefix word r _ m hk
      exact ⟨hpre.isInfix, haccepts⟩
    · obtain ⟨hin, haccepts⟩ := ih _ h
      exact ⟨List.infix_cons hin, haccepts⟩

/-- Nothing is found in a text without the characters the expression needs. -/
theorem search_none (word : Char → Bool) (P : Char → Prop) (r : Rx) (s : Str) (hr : r.Needs P)
    (hs : ∀ c ∈ s, ¬ P c) : search word r s = none := by
  cases hsearch : search word r s with
  | none => rfl
  | some m =>
    obtain ⟨hin, haccepts⟩ := searchFrom_spec word r [] s m hsearch
    obtain ⟨c, hc, hP⟩ := accepts_needs P r hr m haccepts
    exact absurd hP (hs c (hin.subset hc))

theorem needs_lit (P : Char → Prop) (s : Str) (c : Char) (hc : c ∈ s) (h : P c) :
    (lit s).Needs P := by
  induction s with
  | nil => cases hc
  | cons d s ih =>
    rcases List.mem_cons.mp hc with rfl | hc
    · exact .inl (fun d hd => of_decide_eq_true hd ▸ h)
    · exact .inr (ih hc)

end AigentSquad.Regex
