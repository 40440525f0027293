import AigentSquad.Interaction

/-!
# Rules for interaction programs

Runs of a program whose exceptions are handled, or collected as values with
`attempt` and `gather`. `AsksOnly P p`: every question `p` can come to ask
meets `P`. `AsksAtMost P n p`: on no run does it ask more than `n` that do.
-/

set_option autoImplicit false

namespace AigentSquad.Postcondition
open AigentSquad.Interaction Prog

variable {E : Type} {A : E → Type} {O X α β : Type}

theorem path_handle (p : Prog E A O X α) (h : X → Prog E A O X α) (tr : List (Event E A O))
    (r : Except X α) :
    Path (p.handle h) tr r ↔ (∃ a, Path p tr (.ok a) ∧ r = .ok a) ∨
      ∃ x tr₁ tr₂, tr = tr₁ ++ tr₂ ∧ Path p tr₁ (.error x) ∧ Path (h x) tr₂ r := by
  induction p generalizing tr with
  | done s =>
    cases s with
    | ok a => simp [handle, and_comm]
    | error x => simp [handle]
  | ask e k ih =>
    simp only [handle, path_ask, ih]
    constructor
    · rintro ⟨a, rest, rfl, ⟨b, hb, rfl⟩ | ⟨x, tr₁, tr₂, rfl, h₁, h₂⟩⟩
      · exact .inl ⟨b, ⟨a, rest, rfl, hb⟩, rfl⟩
      · exact .inr ⟨x, .asked e a :: tr₁, tr₂, rfl, ⟨a, tr₁, rfl, h₁⟩, h₂⟩
    · rintro (⟨b, ⟨a, rest, rfl, hb⟩, rfl⟩ | ⟨x, tr₁, tr₂, rfl, ⟨a, rest, rfl, h₁⟩, h₂⟩)
      · exact ⟨a, rest, rfl, .inl ⟨b, hb, rfl⟩⟩
      · exact ⟨a, rest ++ tr₂, rfl, .inr ⟨x, rest, tr₂, rfl, h₁, h₂⟩⟩
  | emit o p ih =>
    simp only [handle, path_emit, ih]
    constructor
    · rintro ⟨rest, rfl, ⟨b, hb, rfl⟩ | ⟨x, tr₁, tr₂, rfl, h₁, h₂⟩⟩
      · exact .inl ⟨b, ⟨rest, rfl, hb⟩, rfl⟩
      · exact .inr ⟨x, .emitted o :: tr₁, tr₂, rfl, ⟨tr₁, rfl, h₁⟩, h₂⟩
    · rintro (⟨b, ⟨rest, rfl, hb⟩, rfl⟩ | ⟨x, tr₁, tr₂, rfl, ⟨rest, rfl, h₁⟩, h₂⟩)
      · exact ⟨rest, rfl, .inl ⟨b, hb, rfl⟩⟩
      · exact ⟨rest ++ tr₂, rfl, .inr ⟨x, rest, tr₂, rfl, h₁, h₂⟩⟩

/-- The result of a program, exceptions included, as a value. -/
def attempt (p : Prog E A O X α) : Prog E A O X (Except X α) :=
  (p.bind (fun a => .done (.ok (.ok a)))).handle (fun x => .done (.ok (.error x)))

theorem path_attempt (p : Prog E A O X α) (tr : List (Event E A O))
    (r : Except X (Except X α)) :
    Path (attempt p) tr r ↔ ∃ s, r = .ok s ∧ Path p tr s := by
  simp only [attempt, path_handle, path_bind, path_done, reduceCtorEq, and_false, exists_false,
    or_false, Except.error.injEq, exists_eq_right', false_or]
  constructor
  · rintro (⟨s, ⟨a, tr₁, tr₂, rfl, h, rfl, hs⟩, rfl⟩ | ⟨x, tr₁, tr₂, rfl, h, rfl, rfl⟩)
    · simp only [Except.ok.injEq] at hs
      exact ⟨.ok a, by rw [hs], by simpa using h⟩
    · exact ⟨.error x, rfl, by simpa using h⟩
  · rintro ⟨s, rfl, h⟩
    cases s with
    | ok a => exact .inl ⟨.ok a, ⟨a, tr, [], by simp, h, rfl, rfl⟩, rfl⟩
    | error x => exact .inr ⟨x, tr, [], by simp, h, rfl, rfl⟩

/-- Programs run for their results, exceptions included. -/
def gather : List (Prog E A O X α) → Prog E A O X (List (Except X α))
  | [] => .done (.ok [])
  | p :: ps => (attempt p).bind (fun r => (gather ps).bind (fun rs => .done (.ok (r :: rs))))

/-- Every question the program can come to ask is one of `P`. -/
def AsksOnly (P : E → Prop) : Prog E A O X α → Prop
  | .done _ => True
  | .ask e k => P e ∧ ∀ a, AsksOnly P (k a)
  | .emit _ p => AsksOnly P p

theorem AsksOnly.mono {P Q : E → Prop} {p : Prog E A O X α} (hp : AsksOnly P p)
    (hPQ : ∀ e, P e → Q e) : AsksOnly Q p := by
  induction p with
  | done r => trivial
  | ask e k ih => exact ⟨hPQ e hp.1, fun a => ih a (hp.2 a)⟩
  | emit o p ih => exact ih hp

theorem asksOnly_bind (P : E → Prop) (p : Prog E A O X α) (f : α → Prog E A O X β)
    (hp : AsksOnly P p) (hf : ∀ a, AsksOnly P (f a)) : AsksOnly P (p.bind f) := by
  induction p with
  | done r =>
    cases r with
    | ok a => exact hf a
    | error x => trivial
  | ask e k ih => exact ⟨hp.1, fun a => ih a (hp.2 a)⟩
  | emit o p ih => exact ih hp

theorem asksOnly_handle (P : E → Prop) (p : Prog E A O X α) (h : X → Prog E A O X α)
    (hp : AsksOnly P p) (hh : ∀ x, AsksOnly P (h x)) : AsksOnly P (p.handle h) := by
  induction p with
  | done r =>
    cases r with
    | ok a => trivial
    | error x => exact hh x
  | ask e k ih => exact ⟨hp.1, fun a => ih a (hp.2 a)⟩
  | emit o p ih => exact ih hp

theorem asksOnly_attempt (P : E → Prop) (p : Prog E A O X α) (hp : AsksOnly P p) :
    AsksOnly P (attempt p) := by
  apply asksOnly_handle
  · exact asksOnly_bind P p _ hp (fun _ => trivial)
  · exact fun _ => trivial

theorem asksOnly_gather (P : E → Prop) (ps : List (Prog E A O X α))
    (hps : ∀ p ∈ ps, AsksOnly P p) : AsksOnly P (gather ps) := by
  induction ps with
  | nil => trivial
  | cons p ps ih =>
    apply asksOnly_bind
    · exact asksOnly_attempt P p (hps p List.mem_cons_self)
    · intro r
      apply asksOnly_bind
      · exact ih (fun q hq => hps q (List.mem_cons_of_mem p hq))
      · exact fun _ => trivial

theorem asksOnly_path {P : E → Prop} {p : Prog E A O X α} (hp : AsksOnly P p)
    {tr : List (Event E A O)} {r : Except X α} (h : Path p tr r) : ∀ s ∈ asks tr, P s.1 := by
  induction h with
  | done r => simp [asks]
  | ask a _ ih =>
    intro s hs
    rcases List.mem_cons.mp hs with rfl | hs
    · exact hp.1
    · exact ih (hp.2 a) s hs
  | emit _ ih => exact ih hp

theorem asksOnly_step {P : E → Prop} {p q : Prog E A O X α} (hp : AsksOnly P p)
    {reply : (e : E) → A e} {ev : Event E A O} (h : p.step reply = .inl (ev, q)) :
    AsksOnly P q := by
  cases p with
  | done r => cases h
  | ask e k =>
    cases h
    exact hp.2 _
  | emit o p =>
    cases h
    exact hp

/-- The event is a question of `P`. -/
def asks_for (P : E → Bool) : Event E A O → Bool
  | .asked e _ => P e
  | .emitted _ => false

def AsksAtMost (P : E → Bool) : ℕ → Prog E A O X α → Prop
  | _, .done _ => True
  | n, .ask e k => (P e).toNat ≤ n ∧ ∀ a, AsksAtMost P (n - (P e).toNat) (k a)
  | n, .emit _ p => AsksAtMost P n p

theorem asksAtMost_of_none {P : E → Bool} (n : ℕ) {p : Prog E A O X α}
    (hp : AsksOnly (fun e => P e = false) p) : AsksAtMost P n p := by
  induction p with
  | done r => trivial
  | ask e k ih =>
    have hnot : P e = false := hp.1
    simp only [AsksAtMost, hnot, Bool.toNat_false, Nat.sub_zero]
    exact ⟨Nat.zero_le n, fun a => ih a (hp.2 a)⟩
  | emit o p ih => exact ih hp

theorem AsksAtMost.mono {P : E → Bool} {m n : ℕ} (hmn : m ≤ n) {p : Prog E A O X α}
    (hp : AsksAtMost P m p) : AsksAtMost P n p := by
  induction p generalizing m n with
  | done r => trivial
  | ask e k ih =>
    constructor
    · exact Nat.le_trans hp.1 hmn
    · exact fun a => ih a (Nat.sub_le_sub_right hmn _) (hp.2 a)
  | emit o p ih => exact ih hmn hp

theorem asksAtMost_bind {P : E → Bool} {m n : ℕ} {p : Prog E A O X α}
    {f : α → Prog E A O X β} (hp : AsksAtMost P m p) (hf : ∀ a, AsksAtMost P n (f a)) :
    AsksAtMost P (m + n) (p.bind f) := by
  induction p generalizing m with
  | done r =>
    cases r with
    | ok a => exact (hf a).mono (Nat.le_add_left n m)
    | error x => trivial
  | ask e k ih =>
    constructor
    · exact Nat.le_trans hp.1 (Nat.le_add_right m n)
    · intro a
      have hk := ih a (hp.2 a)
      rwa [← Nat.sub_add_comm hp.1] at hk
  | emit o p ih => exact ih hp

/-- The rest is only bounded behind a result that can be reached. -/
theorem asksAtMost_bind_of {P : E → Bool} {m n : ℕ} {p : Prog E A O X α}
    {f : α → Prog E A O X β} (hp : AsksAtMost P m p)
    (hf : ∀ tr a, Path p tr (.ok a) → AsksAtMost P n (f a)) : AsksAtMost P (m + n) (p.bind f) := by
  induction p generalizing m with
  | done r =>
    cases r with
    | ok a => exact (hf [] a (.done _)).mono (Nat.le_add_left n m)
    | error x => trivial
  | ask e k ih =>
    constructor
    · exact Nat.le_trans hp.1 (Nat.le_add_right m n)
    · intro a
      have hk := ih a (hp.2 a) (fun tr b h => hf _ b (.ask a h))
      rwa [← Nat.sub_add_comm hp.1] at hk
  | emit o p ih => exact ih hp (fun tr b h => hf _ b (.emit h))

/-- What comes before asks for none of them. -/
theorem asksAtMost_after {P : E → Bool} {n : ℕ} {p : Prog E A O X α} {f : α → Prog E A O X β}
    (hp : AsksOnly (fun e => P e = false) p) (hf : ∀ a, AsksAtMost P n (f a)) :
    AsksAtMost P n (p.bind f) := by
  have h := asksAtMost_bind (asksAtMost_of_none 0 hp) hf
  rwa [Nat.zero_add] at h

/-- What comes after asks for none of them. -/
theorem asksAtMost_before {P : E → Bool} {n : ℕ} {p : Prog E A O X α} {f : α → Prog E A O X β}
    (hp : AsksAtMost P n p) (hf : ∀ a, AsksOnly (fun e => P e = false) (f a)) :
    AsksAtMost P n (p.bind f) :=
  asksAtMost_bind hp (fun a => asksAtMost_of_none 0 (hf a))

theorem asksAtMost_handle {P : E → Bool} {m n : ℕ} {p : Prog E A O X α}
    {h : X → Prog E A O X α} (hp : AsksAtMost P m p) (hh : ∀ x, AsksAtMost P n (h x)) :
    AsksAtMost P (m + n) (p.handle h) := by
  induction p generalizing m with
  | done r =>
    cases r with
    | ok a => trivial
    | error x => exact (hh x).mono (Nat.le_add_left n m)
  | ask e k ih =>
    constructor
    · exact Nat.le_trans hp.1 (Nat.le_add_right m n)
    · intro a
      have hk := ih a (hp.2 a)
      rwa [← Nat.sub_add_comm hp.1] at hk
  | emit o p ih => exact ih hp

theorem asksAtMost_attempt {P : E → Bool} {n : ℕ} {p : Prog E A O X α} (hp : AsksAtMost P n p) :
    AsksAtMost P n (attempt p) := by
  apply asksAtMost_handle (n := 0)
  · exact asksAtMost_before hp (fun _ => trivial)
  · exact fun _ => trivial

theorem asksAtMost_gather {P : E → Bool} {n : ℕ} {ps : List (Prog E A O X α)}
    (hps : ∀ p ∈ ps, AsksAtMost P n p) : AsksAtMost P (ps.length * n) (gather ps) := by
  induction ps with
  | nil => trivial
  | cons p ps ih =>
    rw [List.length_cons, Nat.succ_mul, Nat.add_comm]
    apply asksAtMost_bind
    · exact asksAtMost_attempt (hps p List.mem_cons_self)
    · intro r
      apply asksAtMost_before
      · exact ih (fun q hq => hps q (List.mem_cons_of_mem p hq))
      · exact fun _ => trivial

/-- Each event uses up what it counts. -/
theorem asksAtMost_step {P : E → Bool} {n : ℕ} {p q : Prog E A O X α} (hp : AsksAtMost P n p)
    {reply : (e : E) → A e} {ev : Event E A O} (h : p.step reply = .inl (ev, q)) :
    (asks_for P ev).toNat ≤ n ∧ AsksAtMost P (n - (asks_for P ev).toNat) q := by
  cases p with
  | done r => cases h
  | ask e k =>
    cases h
    exact ⟨hp.1, hp.2 _⟩
  | emit o p =>
    cases h
    exact ⟨Nat.zero_le n, hp⟩

theorem asksAtMost_path {P : E → Bool} {n : ℕ} {p : Prog E A O X α} (hp : AsksAtMost P n p)
    {tr : List (Event E A O)} {r : Except X α} (h : Path p tr r) :
    tr.countP (asks_for P) ≤ n := by
  induction h generalizing n with
  | done r => exact Nat.zero_le n
  | @ask e k a tr r _ ih =>
    have hone : ∀ b : Bool, (if b = true then 1 else 0) = b.toNat := by decide
    have htail := ih (hp.2 a)
    have hhead := hp.1
    rw [List.countP_cons, hone]
    simp only [asks_for]
    omega
  | emit _ ih =>
    rw [List.countP_cons]
    simpa [asks_for] using ih hp

end AigentSquad.Postcondition
