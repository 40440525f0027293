import Mathlib.Data.List.Basic

/-!
# Finite interaction programs

A program asks its environment questions, emits outputs and ends in a value
or an exception. The answer type depends on the question. A path is one run
against an arbitrary environment; `run` is the run against a given one.
Nothing here names a particular program.
-/

set_option autoImplicit false

namespace AigentSquad.Interaction

inductive Prog (E : Type) (A : E → Type) (O X α : Type) : Type where
  | done (r : Except X α)
  | ask (e : E) (k : A e → Prog E A O X α)
  | emit (o : O) (p : Prog E A O X α)

inductive Event (E : Type) (A : E → Type) (O : Type) : Type where
  | asked (e : E) (a : A e)
  | emitted (o : O)

variable {E : Type} {A : E → Type} {O O' X X' α β γ : Type}

namespace Prog

def bind : Prog E A O X α → (α → Prog E A O X β) → Prog E A O X β
  | done (.ok a), f => f a
  | done (.error x), _ => done (.error x)
  | ask e k, f => ask e (fun a => (k a).bind f)
  | emit o p, f => emit o (p.bind f)

def handle : Prog E A O X α → (X → Prog E A O X α) → Prog E A O X α
  | done (.ok a), _ => done (.ok a)
  | done (.error x), h => h x
  | ask e k, h => ask e (fun a => (k a).handle h)
  | emit o p, h => emit o (p.handle h)

instance : Monad (Prog E A O X) where
  pure a := done (.ok a)
  bind := bind

def throw (x : X) : Prog E A O X α := done (.error x)

def request (e : E) : Prog E A O X (A e) := ask e pure

def yield (o : O) : Prog E A O X Unit := emit o (pure ())

def ofExcept (r : Except X α) : Prog E A O X α := done r

theorem pure_eq (a : α) : (pure a : Prog E A O X α) = done (.ok a) := rfl

@[simp] theorem bind_ok (a : α) (f : α → Prog E A O X β) : (done (.ok a)).bind f = f a := rfl

@[simp] theorem bind_error (x : X) (f : α → Prog E A O X β) :
    (done (.error x)).bind f = done (.error x) := rfl

@[simp] theorem bind_ask (e : E) (k : A e → Prog E A O X α) (f : α → Prog E A O X β) :
    (ask e k).bind f = ask e (fun a => (k a).bind f) := rfl

@[simp] theorem bind_emit (o : O) (p : Prog E A O X α) (f : α → Prog E A O X β) :
    (emit o p).bind f = emit o (p.bind f) := rfl

@[simp] theorem bind_request (e : E) (f : A e → Prog E A O X β) :
    (request e).bind f = ask e f := rfl

@[simp] theorem bind_yield (o : O) (f : Unit → Prog E A O X β) :
    (yield o).bind f = emit o (f ()) := rfl

@[simp] theorem bind_throw (x : X) (f : α → Prog E A O X β) :
    (throw x : Prog E A O X α).bind f = throw x := rfl

theorem bind_assoc (p : Prog E A O X α) (f : α → Prog E A O X β) (g : β → Prog E A O X γ) :
    (p.bind f).bind g = p.bind (fun a => (f a).bind g) := by
  induction p with
  | done r => cases r <;> rfl
  | ask e k ih => simp only [bind_ask, ih]
  | emit o p ih => simp only [bind_emit, ih]

end Prog

open Prog

/-- One complete run: the events in order and how the program ended. -/
inductive Path : Prog E A O X α → List (Event E A O) → Except X α → Prop
  | done (r : Except X α) : Path (.done r) [] r
  | ask {e : E} {k : A e → Prog E A O X α} (a : A e) {tr : List (Event E A O)}
      {r : Except X α} (h : Path (k a) tr r) : Path (.ask e k) (.asked e a :: tr) r
  | emit {o : O} {p : Prog E A O X α} {tr : List (Event E A O)} {r : Except X α}
      (h : Path p tr r) : Path (.emit o p) (.emitted o :: tr) r

@[simp] theorem path_done (s : Except X α) (tr : List (Event E A O)) (r : Except X α) :
    Path (.done s) tr r ↔ tr = [] ∧ r = s := by
  constructor
  · intro h
    cases h
    exact ⟨rfl, rfl⟩
  · rintro ⟨rfl, rfl⟩
    exact .done _

@[simp] theorem path_throw (x : X) (tr : List (Event E A O)) (r : Except X α) :
    Path (throw x) tr r ↔ tr = [] ∧ r = .error x := path_done _ _ _

@[simp] theorem path_ask (e : E) (k : A e → Prog E A O X α) (tr : List (Event E A O))
    (r : Except X α) :
    Path (.ask e k) tr r ↔ ∃ a rest, tr = .asked e a :: rest ∧ Path (k a) rest r := by
  constructor
  · intro h
    cases h with
    | ask a h => exact ⟨a, _, rfl, h⟩
  · rintro ⟨a, rest, rfl, h⟩
    exact .ask a h

@[simp] theorem path_emit (o : O) (p : Prog E A O X α) (tr : List (Event E A O))
    (r : Except X α) :
    Path (.emit o p) tr r ↔ ∃ rest, tr = .emitted o :: rest ∧ Path p rest r := by
  constructor
  · intro h
    cases h with
    | emit h => exact ⟨_, rfl, h⟩
  · rintro ⟨rest, rfl, h⟩
    exact .emit h

/-- A run of a composition either stops with the exception of its first part
or continues the second part from the value of the first. -/
theorem path_bind (p : Prog E A O X α) (f : α → Prog E A O X β) (tr : List (Event E A O))
    (r : Except X β) :
    Path (p.bind f) tr r ↔ (∃ x, Path p tr (.error x) ∧ r = .error x) ∨
      ∃ a tr₁ tr₂, tr = tr₁ ++ tr₂ ∧ Path p tr₁ (.ok a) ∧ Path (f a) tr₂ r := by
  induction p generalizing tr with
  | done s =>
    cases s with
    | ok a => simp
    | error x => simp [and_comm]
  | ask e k ih =>
    simp only [bind_ask, path_ask, ih]
    constructor
    · rintro ⟨a, rest, rfl, ⟨x, h, rfl⟩ | ⟨b, tr₁, tr₂, rfl, h₁, h₂⟩⟩
      · exact .inl ⟨x, ⟨a, rest, rfl, h⟩, rfl⟩
      · exact .inr ⟨b, .asked e a :: tr₁, tr₂, rfl, ⟨a, tr₁, rfl, h₁⟩, h₂⟩
    · rintro (⟨x, ⟨a, rest, rfl, h⟩, rfl⟩ | ⟨b, tr₁, tr₂, rfl, ⟨a, rest, rfl, h₁⟩, h₂⟩)
      · exact ⟨a, rest, rfl, .inl ⟨x, h, rfl⟩⟩
      · exact ⟨a, rest ++ tr₂, rfl, .inr ⟨b, rest, tr₂, rfl, h₁, h₂⟩⟩
  | emit o p ih =>
    simp only [bind_emit, path_emit, ih]
    constructor
    · rintro ⟨rest, rfl, ⟨x, h, rfl⟩ | ⟨b, tr₁, tr₂, rfl, h₁, h₂⟩⟩
      · exact .inl ⟨x, ⟨rest, rfl, h⟩, rfl⟩
      · exact .inr ⟨b, .emitted o :: tr₁, tr₂, rfl, ⟨tr₁, rfl, h₁⟩, h₂⟩
    · rintro (⟨x, ⟨rest, rfl, h⟩, rfl⟩ | ⟨b, tr₁, tr₂, rfl, ⟨rest, rfl, h₁⟩, h₂⟩)
      · exact ⟨rest, rfl, .inl ⟨x, h, rfl⟩⟩
      · exact ⟨rest ++ tr₂, rfl, .inr ⟨b, rest, tr₂, rfl, h₁, h₂⟩⟩

theorem Path.bind_ok {p : Prog E A O X α} {f : α → Prog E A O X β} {a : α}
    {tr₁ tr₂ : List (Event E A O)} {r : Except X β}
    (h₁ : Path p tr₁ (.ok a)) (h₂ : Path (f a) tr₂ r) : Path (p.bind f) (tr₁ ++ tr₂) r :=
  (path_bind p f _ r).mpr (.inr ⟨a, tr₁, tr₂, rfl, h₁, h₂⟩)

theorem Path.map_ok {p : Prog E A O X α} {a : α} {tr : List (Event E A O)} (g : α → β)
    (h : Path p tr (.ok a)) : Path (p.bind (fun x => .done (.ok (g x)))) tr (.ok (g a)) := by
  have hdone : Path (.done (.ok (g a)) : Prog E A O X β) [] (.ok (g a)) := .done _
  simpa using h.bind_ok (show Path ((fun x => .done (.ok (g x))) a) [] _ from hdone)

/-- What returns from a composition returned from its first part. -/
theorem Path.of_bind_ok {p : Prog E A O X α} {f : α → Prog E A O X β} {b : β}
    {tr : List (Event E A O)} (h : Path (p.bind f) tr (.ok b)) :
    ∃ a tr₁ tr₂, tr = tr₁ ++ tr₂ ∧ Path p tr₁ (.ok a) ∧ Path (f a) tr₂ (.ok b) := by
  rcases (path_bind p f tr _).mp h with ⟨x, _, hx⟩ | hok
  · cases hx
  · exact hok

theorem bind_eq_ok {r : Except X α} {f : α → Except X β} {b : β} (h : (r >>= f) = .ok b) :
    ∃ a, r = .ok a ∧ f a = .ok b := by
  cases r with
  | error x => cases h
  | ok a => exact ⟨a, rfl, h⟩

/-- The events determine the run: of two runs neither goes on past the other. -/
theorem Path.unique {p : Prog E A O X α} {t₁ t₂ u v : List (Event E A O)} {r₁ r₂ : Except X α}
    (h₁ : Path p t₁ r₁) (h₂ : Path p t₂ r₂) (h : t₁ ++ u = t₂ ++ v) : t₁ = t₂ ∧ r₁ = r₂ := by
  induction h₁ generalizing t₂ with
  | done r =>
    obtain ⟨rfl, rfl⟩ := (path_done _ _ _).mp h₂
    exact ⟨rfl, rfl⟩
  | ask a _ ih =>
    obtain ⟨b, rest, rfl, hrest⟩ := (path_ask _ _ _ _).mp h₂
    simp only [List.cons_append, List.cons.injEq, Event.asked.injEq, heq_eq_eq, true_and] at h
    obtain ⟨rfl, htail⟩ := h
    obtain ⟨rfl, hr⟩ := ih hrest htail
    exact ⟨rfl, hr⟩
  | emit _ ih =>
    obtain ⟨rest, rfl, hrest⟩ := (path_emit _ _ _ _).mp h₂
    simp only [List.cons_append, List.cons.injEq, true_and] at h
    obtain ⟨rfl, hr⟩ := ih hrest h
    exact ⟨rfl, hr⟩

/-- An environment answers each question from the questions and answers so far. -/
def Env (E : Type) (A : E → Type) : Type := List (Sigma A) → (e : E) → A e

def run (env : Env E A) : List (Sigma A) → Prog E A O X α → List (Event E A O) × Except X α
  | _, .done r => ([], r)
  | h, .ask e k =>
    let out := run env (h ++ [⟨e, env h e⟩]) (k (env h e))
    (.asked e (env h e) :: out.1, out.2)
  | h, .emit o p =>
    let out := run env h p
    (.emitted o :: out.1, out.2)

theorem run_path (env : Env E A) (h : List (Sigma A)) (p : Prog E A O X α) :
    Path p (run env h p).1 (run env h p).2 := by
  induction p generalizing h with
  | done r => exact .done r
  | ask e k ih => exact .ask _ (ih _ _)
  | emit o p ih => exact .emit (ih h)

theorem path_of_run {env : Env E A} {h : List (Sigma A)} {p : Prog E A O X α} {r : Except X α}
    (hr : (run env h p).2 = r) : Path p (run env h p).1 r := by
  rw [← hr]
  exact run_path env h p

theorem run_bind_error (env : Env E A) (h : List (Sigma A)) (p : Prog E A O X α)
    (f : α → Prog E A O X β) (x : X) (hp : (run env h p).2 = .error x) :
    (run env h (p.bind f)).2 = .error x := by
  induction p generalizing h with
  | done r =>
    change r = .error x at hp
    rw [hp]
    rfl
  | ask e k ih => exact ih _ _ hp
  | emit o p ih => exact ih _ hp

/-- After its first part a composition runs on with the questions asked so far. -/
theorem run_bind_ok (env : Env E A) (h : List (Sigma A)) (p : Prog E A O X α)
    (f : α → Prog E A O X β) (a : α) (hp : (run env h p).2 = .ok a) :
    ∃ h', (run env h (p.bind f)).2 = (run env h' (f a)).2 := by
  induction p generalizing h with
  | done r =>
    change r = .ok a at hp
    rw [hp]
    exact ⟨h, rfl⟩
  | ask e k ih => exact ih _ _ hp
  | emit o p ih => exact ih _ hp

/-- One event of a program, answered by `reply`, and what is left of it; or how it ended. -/
def Prog.step (reply : (e : E) → A e) :
    Prog E A O X α → (Event E A O × Prog E A O X α) ⊕ Except X α
  | .done r => .inr r
  | .ask e k => .inl (.asked e (reply e), k (reply e))
  | .emit o p => .inl (.emitted o, p)

theorem path_of_step {reply : (e : E) → A e} {p q : Prog E A O X α} {ev : Event E A O}
    {tr : List (Event E A O)} {r : Except X α} (h : p.step reply = .inl (ev, q))
    (hq : Path q tr r) : Path p (ev :: tr) r := by
  cases p with
  | done s => cases h
  | ask e k =>
    cases h
    exact .ask _ hq
  | emit o p =>
    cases h
    exact .emit hq

theorem path_of_ended {reply : (e : E) → A e} {p : Prog E A O X α} {r : Except X α}
    (h : p.step reply = .inr r) : Path p [] r := by
  cases p with
  | done s =>
    cases h
    exact .done _
  | ask e k => cases h
  | emit o p => cases h

def asks : List (Event E A O) → List (Sigma A)
  | [] => []
  | .asked e a :: tr => ⟨e, a⟩ :: asks tr
  | .emitted _ :: tr => asks tr

def emits : List (Event E A O) → List O
  | [] => []
  | .asked _ _ :: tr => emits tr
  | .emitted o :: tr => o :: emits tr

@[simp] theorem asks_append (s t : List (Event E A O)) : asks (s ++ t) = asks s ++ asks t := by
  induction s with
  | nil => rfl
  | cons e s ih => cases e <;> simp [asks, ih]

@[simp] theorem emits_append (s t : List (Event E A O)) : emits (s ++ t) = emits s ++ emits t := by
  induction s with
  | nil => rfl
  | cons e s ih => cases e <;> simp [emits, ih]

/-- Every answer in a run is one the environment gave. -/
theorem run_answers (env : Env E A) (h : List (Sigma A)) (p : Prog E A O X α) {e : E} {a : A e}
    (hmem : ⟨e, a⟩ ∈ asks (run env h p).1) : ∃ h', a = env h' e := by
  induction p generalizing h with
  | done r => simp [run, asks] at hmem
  | ask f k ih =>
    simp only [run, asks, List.mem_cons] at hmem
    rcases hmem with heq | hmem
    · cases heq
      exact ⟨h, rfl⟩
    · exact ih _ _ hmem
  | emit o p ih => exact ih h hmem

/-- The dialogue gives the answers of the environment. -/
def Follows (env : Env E A) : List (Sigma A) → List (Sigma A) → Prop
  | _, [] => True
  | h, s :: d => s.2 = env h s.1 ∧ Follows env (h ++ [s]) d

theorem run_follows (env : Env E A) (h : List (Sigma A)) (p : Prog E A O X α) :
    Follows env h (asks (run env h p).1) := by
  induction p generalizing h with
  | done r => trivial
  | ask e k ih => exact ⟨rfl, ih _ _⟩
  | emit o p ih => exact ih h

theorem Follows.of_append {env : Env E A} {h c d : List (Sigma A)} (hcd : Follows env h (c ++ d)) :
    Follows env h c := by
  induction c generalizing h with
  | nil => trivial
  | cons s c ih => exact ⟨hcd.1, ih hcd.2⟩

/-- A run that follows the environment is the run in that environment. -/
theorem Path.run_eq {p : Prog E A O X α} {tr : List (Event E A O)} {r : Except X α}
    (hp : Path p tr r) {env : Env E A} {h : List (Sigma A)} (hf : Follows env h (asks tr)) :
    run env h p = (tr, r) := by
  induction hp generalizing h with
  | done r => rfl
  | @ask e k a tr r _ ih =>
    have ha : env h e = a := hf.1.symm
    rw [run, ha, ih hf.2]
  | emit _ ih => rw [run, ih hf]

/-- A run against a server that keeps a state between its answers. -/
def serve {S : Type} (answer : S → (e : E) → A e × S) :
    S → Prog E A O X α → S × List (Event E A O) × Except X α
  | s, .done r => (s, [], r)
  | s, .ask e k =>
    let out := serve answer (answer s e).2 (k (answer s e).1)
    (out.1, .asked e (answer s e).1 :: out.2.1, out.2.2)
  | s, .emit o p =>
    let out := serve answer s p
    (out.1, .emitted o :: out.2.1, out.2.2)

/-- A served composition continues from the value of its first part. -/
theorem serve_bind {S : Type} (answer : S → (e : E) → A e × S) (s s' : S) (p : Prog E A O X α)
    (f : α → Prog E A O X β) (tr : List (Event E A O)) (a : α)
    (h : serve answer s p = (s', tr, .ok a)) :
    serve answer s (p.bind f) =
      ((serve answer s' (f a)).1, tr ++ (serve answer s' (f a)).2.1,
        (serve answer s' (f a)).2.2) := by
  induction p generalizing s tr with
  | done r =>
    cases h
    rfl
  | ask e k ih =>
    simp only [serve, Prod.mk.injEq] at h
    obtain ⟨hs, rfl, hr⟩ := h
    simp only [bind_ask, serve, List.cons_append]
    rw [ih _ _ _ (Prod.ext hs (Prod.ext rfl hr))]
  | emit o p ih =>
    simp only [serve, Prod.mk.injEq] at h
    obtain ⟨hs, rfl, hr⟩ := h
    simp only [bind_emit, serve, List.cons_append]
    rw [ih _ _ (Prod.ext hs (Prod.ext rfl hr))]

/-- Lock-step simulation of a silent program by one that also emits. The
answers considered are those `ok` admits, and `R` relates what is left of the
first program when the second one ends. -/
inductive Sim (ok : (e : E) → A e → Prop) (R : Prog E A O X α → Except X' β → Prop) :
    Prog E A O X α → Prog E A O' X' β → Prop
  | leaf {p : Prog E A O X α} {r : Except X' β} (h : R p r) : Sim ok R p (.done r)
  | ask {e : E} {k : A e → Prog E A O X α} {l : A e → Prog E A O' X' β}
      (h : ∀ a, ok e a → Sim ok R (k a) (l a)) : Sim ok R (.ask e k) (.ask e l)
  | emit {o : O'} {p : Prog E A O X α} {q : Prog E A O' X' β}
      (h : Sim ok R p q) : Sim ok R p (.emit o q)

def Admissible (ok : (e : E) → A e → Prop) (env : Env E A) : Prop := ∀ h e, ok e (env h e)

/-- Run rule of the simulation: in one environment the second program asks
what the first asks, up to the point where it ends. -/
theorem Sim.run_prefix {ok : (e : E) → A e → Prop} {R : Prog E A O X α → Except X' β → Prop}
    {p : Prog E A O X α} {q : Prog E A O' X' β} (h : Sim ok R p q) (env : Env E A)
    (he : Admissible ok env) (hist : List (Sigma A)) :
    ∃ (rest : Prog E A O X α) (pre : List (Event E A O)),
      R rest (run env hist q).2 ∧ asks pre = asks (run env hist q).1 ∧
      (run env hist p).1 = pre ++ (run env (hist ++ asks pre) rest).1 ∧
      (run env hist p).2 = (run env (hist ++ asks pre) rest).2 := by
  induction h generalizing hist with
  | leaf h => exact ⟨_, [], h, rfl, by simp [asks], by simp [asks]⟩
  | @ask e k l _ ih =>
    obtain ⟨rest, pre, hR, hask, htr, hr⟩ := ih (env hist e) (he hist e) (hist ++ [⟨e, env hist e⟩])
    refine ⟨rest, .asked e (env hist e) :: pre, hR, ?_, ?_, ?_⟩
    · simp [run, asks, hask]
    · simpa [run, asks] using htr
    · simpa [run, asks] using hr
  | @emit o p q _ ih =>
    obtain ⟨rest, pre, hR, hask, htr, hr⟩ := ih hist
    exact ⟨rest, pre, hR, by simp [run, asks, hask], htr, hr⟩

/-- Equal endings, or an ending of the second program that is cut short. -/
def Same (cut : X → Prop) (p : Prog E A O X α) (r : Except X α) : Prop :=
  p = .done r ∨ ∃ x, r = .error x ∧ cut x

theorem Sim.bind {ok : (e : E) → A e → Prop} {cut : X → Prop}
    {S : Prog E A O X γ → Except X β → Prop} {p : Prog E A O X α} {q : Prog E A O' X α}
    {f : α → Prog E A O X γ} {g : α → Prog E A O' X β} (h : Sim ok (Same cut) p q)
    (herror : ∀ x, S (.done (.error x)) (.error x)) (hcut : ∀ s x, cut x → S s (.error x))
    (hf : ∀ a, Sim ok S (f a) (g a)) : Sim ok S (p.bind f) (q.bind g) := by
  induction h with
  | @leaf p r h =>
    rcases h with rfl | ⟨x, rfl, hx⟩
    · cases r with
      | ok a => exact hf a
      | error x => exact .leaf (herror x)
    · exact .leaf (hcut _ x hx)
  | ask _ ih => exact .ask ih
  | emit _ ih => exact .emit ih

/-- The program emits nothing. -/
def Silent : Prog E A O X α → Prop
  | .done _ => True
  | .ask _ k => ∀ a, Silent (k a)
  | .emit _ _ => False

theorem silent_bind (p : Prog E A O X α) (f : α → Prog E A O X β) (hp : Silent p)
    (hf : ∀ a, Silent (f a)) : Silent (p.bind f) := by
  induction p with
  | done r =>
    cases r with
    | ok a => exact hf a
    | error x => trivial
  | ask e k ih => exact fun a => ih a (hp a)
  | emit o p _ => exact absurd hp id

theorem silent_sim (ok : (e : E) → A e → Prop) (cut : X → Prop) (p : Prog E A O X α)
    (hp : Silent p) : Sim ok (Same cut) p p := by
  induction p with
  | done r => exact .leaf (.inl rfl)
  | ask e k ih => exact .ask (fun a _ => ih a (hp a))
  | emit o p _ => exact absurd hp id

/-- Run rule for arbitrary answers: what the second program asked, the first
one asks too, and it goes on from `rest`. -/
theorem Sim.path_prefix {ok : (e : E) → A e → Prop} {R : Prog E A O X α → Except X' β → Prop}
    {p : Prog E A O X α} {q : Prog E A O' X' β} (h : Sim ok R p q) {tr : List (Event E A O')}
    {r : Except X' β} (hq : Path q tr r) (hok : ∀ s ∈ asks tr, ok s.1 s.2) :
    ∃ (rest : Prog E A O X α) (pre : List (Event E A O)), R rest r ∧ asks pre = asks tr ∧
      ∀ suf out, Path rest suf out → Path p (pre ++ suf) out := by
  induction h generalizing tr with
  | leaf h =>
    obtain ⟨rfl, rfl⟩ := (path_done _ _ _).mp hq
    exact ⟨_, [], h, rfl, fun _ _ h => h⟩
  | @ask e k l _ ih =>
    obtain ⟨a, tail, rfl, htail⟩ := (path_ask _ _ _ _).mp hq
    obtain ⟨rest, pre, hR, hpre, hp⟩ := ih a (hok ⟨e, a⟩ (by simp [asks])) htail
      (fun s hs => hok s (by simp [asks, hs]))
    exact ⟨rest, .asked e a :: pre, hR, by simp [asks, hpre], fun suf out h => .ask a (hp suf out h)⟩
  | emit _ ih =>
    obtain ⟨tail, rfl, htail⟩ := (path_emit _ _ _ _).mp hq
    obtain ⟨rest, pre, hR, hpre, hp⟩ := ih htail (fun s hs => hok s hs)
    exact ⟨rest, pre, hR, hpre, hp⟩

theorem exists_path [∀ e, Nonempty (A e)] (p : Prog E A O X α) : ∃ tr r, Path p tr r := by
  induction p with
  | done r => exact ⟨[], r, .done r⟩
  | ask e k ih =>
    obtain ⟨a⟩ := (inferInstance : Nonempty (A e))
    obtain ⟨tr, r, h⟩ := ih a
    exact ⟨_, r, .ask a h⟩
  | emit o p ih =>
    obtain ⟨tr, r, h⟩ := ih
    exact ⟨_, r, .emit h⟩

/-- What is left of a program once the events so far have happened. -/
inductive After : Prog E A O X α → List (Event E A O) → Prog E A O X α → Prop
  | nil (p : Prog E A O X α) : After p [] p
  | ask {e : E} {k : A e → Prog E A O X α} (a : A e) {tr : List (Event E A O)}
      {q : Prog E A O X α} (h : After (k a) tr q) : After (.ask e k) (.asked e a :: tr) q
  | emit {o : O} {p q : Prog E A O X α} {tr : List (Event E A O)} (h : After p tr q) :
      After (.emit o p) (.emitted o :: tr) q

theorem after_ask (e : E) (k : A e → Prog E A O X α) (a : A e) (tr : List (Event E A O))
    (q : Prog E A O X α) (h : After (k a) tr q) : After (.ask e k) (.asked e a :: tr) q :=
  .ask a h

theorem After.trans {p q s : Prog E A O X α} {tr₁ tr₂ : List (Event E A O)}
    (h₁ : After p tr₁ q) (h₂ : After q tr₂ s) : After p (tr₁ ++ tr₂) s := by
  induction h₁ with
  | nil _ => exact h₂
  | ask a _ ih => exact .ask a (ih h₂)
  | emit _ ih => exact .emit (ih h₂)

theorem Path.after_bind {p : Prog E A O X α} {a : α} {tr : List (Event E A O)}
    (h : Path p tr (.ok a)) (f : α → Prog E A O X β) : After (p.bind f) tr (f a) := by
  induction p generalizing tr with
  | done s =>
    obtain ⟨rfl, rfl⟩ := (path_done _ _ _).mp h
    exact .nil _
  | ask e k ih =>
    obtain ⟨b, rest, rfl, hrest⟩ := (path_ask _ _ _ _).mp h
    exact .ask b (ih b hrest)
  | emit o p ih =>
    obtain ⟨rest, rfl, hrest⟩ := (path_emit _ _ _ _).mp h
    exact .emit (ih hrest)

/-- A dialogue as the events of a run that emits nothing. -/
def heard (d : List (Sigma A)) : List (Event E A O) := d.map (fun s => .asked s.1 s.2)

@[simp] theorem heard_nil : (heard [] : List (Event E A O)) = [] := rfl

@[simp] theorem heard_cons (s : Sigma A) (d : List (Sigma A)) :
    (heard (s :: d) : List (Event E A O)) = .asked s.1 s.2 :: heard d := rfl

@[simp] theorem heard_append (c d : List (Sigma A)) :
    (heard (c ++ d) : List (Event E A O)) = heard c ++ heard d := List.map_append

@[simp] theorem asks_heard (d : List (Sigma A)) : asks (heard d : List (Event E A O)) = d := by
  induction d with
  | nil => rfl
  | cons s d ih => simp [asks, ih]

@[simp] theorem emits_heard (d : List (Sigma A)) : emits (heard d : List (Event E A O)) = [] := by
  induction d with
  | nil => rfl
  | cons s d ih => simp [emits, ih]

/-- Rewriting a run as `rel` allows gives another run with the same ending,
and what follows the run is rewritten on its own. -/
def ClosedUnder (rel : List (Event E A O) → List (Event E A O) → Prop) (p : Prog E A O X α) :
    Prop :=
  ∀ tr r suf tr', Path p tr r → rel (tr ++ suf) tr' →
    ∃ tr₁ suf₁, tr' = tr₁ ++ suf₁ ∧ Path p tr₁ r ∧ rel suf suf₁

/-- The rewriting leaves an event at the head of a run alone. -/
def Keeps (rel : List (Event E A O) → List (Event E A O) → Prop) (e : Event E A O) : Prop :=
  ∀ tr tr', rel (e :: tr) tr' → ∃ tr₁, tr' = e :: tr₁ ∧ rel tr tr₁

section Closure
variable {rel : List (Event E A O) → List (Event E A O) → Prop}

theorem closed_done (r : Except X α) : ClosedUnder rel (.done r : Prog E A O X α) := by
  intro tr s suf tr' hp hrel
  obtain ⟨rfl, rfl⟩ := (path_done _ _ _).mp hp
  exact ⟨[], tr', rfl, .done _, hrel⟩

theorem closed_ask (e : E) (k : A e → Prog E A O X α) (he : ∀ a, Keeps rel (.asked e a))
    (hk : ∀ a, ClosedUnder rel (k a)) : ClosedUnder rel (.ask e k) := by
  intro tr r suf tr' hp hrel
  obtain ⟨a, tail, rfl, htail⟩ := (path_ask _ _ _ _).mp hp
  obtain ⟨tr₁, rfl, hrel₁⟩ := he a _ _ hrel
  obtain ⟨tr₂, suf₁, rfl, hp₂, hsuf⟩ := hk a tail r suf tr₁ htail hrel₁
  exact ⟨_, suf₁, rfl, .ask a hp₂, hsuf⟩

theorem closed_emit (o : O) (p : Prog E A O X α) (ho : Keeps rel (.emitted o))
    (hp : ClosedUnder rel p) : ClosedUnder rel (.emit o p) := by
  intro tr r suf tr' h hrel
  obtain ⟨tail, rfl, htail⟩ := (path_emit _ _ _ _).mp h
  obtain ⟨tr₁, rfl, hrel₁⟩ := ho _ _ hrel
  obtain ⟨tr₂, suf₁, rfl, hp₂, hsuf⟩ := hp tail r suf tr₁ htail hrel₁
  exact ⟨_, suf₁, rfl, .emit hp₂, hsuf⟩

theorem closed_bind (p : Prog E A O X α) (f : α → Prog E A O X β) (hp : ClosedUnder rel p)
    (hf : ∀ a, ClosedUnder rel (f a)) : ClosedUnder rel (p.bind f) := by
  intro tr r suf tr' h hrel
  rcases (path_bind _ _ _ _).mp h with ⟨x, hx, rfl⟩ | ⟨a, s, t, rfl, hs, ht⟩
  · obtain ⟨tr₁, suf₁, rfl, hx₁, hsuf⟩ := hp tr _ suf tr' hx hrel
    exact ⟨tr₁, suf₁, rfl, (path_bind _ _ _ _).mpr (.inl ⟨x, hx₁, rfl⟩), hsuf⟩
  · rw [List.append_assoc] at hrel
    obtain ⟨s₁, rest, rfl, hs₁, hrest⟩ := hp s _ (t ++ suf) tr' hs hrel
    obtain ⟨t₁, suf₁, rfl, ht₁, hsuf⟩ := hf a t r suf rest ht hrest
    exact ⟨s₁ ++ t₁, suf₁, by simp, hs₁.bind_ok ht₁, hsuf⟩

end Closure

end AigentSquad.Interaction
