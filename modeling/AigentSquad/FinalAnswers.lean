import AigentSquad.Postcondition

/-!
# Answers that end a program

A set of answers is final for a program if, wherever one is received, the program
ends in an exception of a given kind. The rules pass this through binds, handlers
and programs that are run for their results.
-/

set_option autoImplicit false

namespace AigentSquad.FinalAnswers
open AigentSquad.Interaction AigentSquad.Postcondition

variable {E O X α β : Type} {A : E → Type} (F : Sigma A → Prop) (B : X → Prop)

/-- An exception of the kind. -/
def Fails (r : Except X α) : Prop := ∃ x, r = .error x ∧ B x

def Received (tr : List (Event E A O)) : Prop := ∃ s ∈ asks tr, F s

def Stops (p : Prog E A O X α) : Prop := ∀ tr r, Path p tr r → Received F tr → Fails B r

/-- However it runs, it fails. -/
def Failing (p : Prog E A O X α) : Prop := ∀ tr r, Path p tr r → Fails B r

/-- No answer to the question is final. -/
def Harmless (e : E) : Prop := ∀ a : A e, ¬ F ⟨e, a⟩

variable {F B}

theorem failing_throw {x : X} (hx : B x) : Failing B (.done (.error x) : Prog E A O X α) := by
  intro tr r h
  obtain ⟨_, rfl⟩ := (path_done _ _ _).mp h
  exact ⟨x, rfl, hx⟩

theorem received_append {s t : List (Event E A O)} :
    Received F (s ++ t) ↔ Received F s ∨ Received F t := by
  simp only [Received, asks_append, List.mem_append, or_and_right, exists_or]

theorem not_received_nil : ¬ Received F ([] : List (Event E A O)) :=
  fun ⟨_, hs, _⟩ => List.not_mem_nil hs

theorem stops_of_harmless {p : Prog E A O X α} (hp : AsksOnly (Harmless F) p) : Stops F B p := by
  intro tr r h hreceived
  obtain ⟨s, hs, hfinal⟩ := hreceived
  exact absurd hfinal (asksOnly_path hp h s hs s.2)

theorem stops_done (r : Except X α) : Stops F B (.done r : Prog E A O X α) :=
  stops_of_harmless trivial

theorem stops_ask {e : E} {k : A e → Prog E A O X α} (hfinal : ∀ a, F ⟨e, a⟩ → Failing B (k a))
    (hk : ∀ a, Stops F B (k a)) : Stops F B (.ask e k) := by
  intro tr r h hreceived
  obtain ⟨a, rest, rfl, hrest⟩ := (path_ask _ _ _ _).mp h
  obtain ⟨s, hs, hs_final⟩ := hreceived
  rcases List.mem_cons.mp hs with rfl | hs
  · exact hfinal a hs_final rest r hrest
  · exact hk a rest r hrest ⟨s, hs, hs_final⟩

/-- What was asked up to `a` is known of the rest. -/
theorem stops_bind_of {p : Prog E A O X α} {f : α → Prog E A O X β} (hp : Stops F B p)
    (hf : ∀ s a, Path p s (.ok a) → Stops F B (f a)) : Stops F B (p.bind f) := by
  intro tr r h hreceived
  rcases (path_bind p f tr r).mp h with ⟨x, hraised, rfl⟩ | ⟨a, s, t, rfl, hok, hrest⟩
  · obtain ⟨y, hy, hb⟩ := hp tr _ hraised hreceived
    cases hy
    exact ⟨x, rfl, hb⟩
  · rcases received_append.mp hreceived with hs | ht
    · obtain ⟨y, hy, _⟩ := hp s _ hok hs
      cases hy
    · exact hf s a hok t r hrest ht

theorem stops_bind {p : Prog E A O X α} {f : α → Prog E A O X β} (hp : Stops F B p)
    (hf : ∀ a, Stops F B (f a)) : Stops F B (p.bind f) := stops_bind_of hp (fun _ a _ => hf a)

theorem stops_emit {o : O} {p : Prog E A O X α} (hp : Stops F B p) : Stops F B (.emit o p) := by
  intro tr r h hreceived
  obtain ⟨rest, rfl, hrest⟩ := (path_emit _ _ _ _).mp h
  exact hp rest r hrest hreceived

/-- A handler lets the exceptions of the kind through. -/
theorem stops_handle {p : Prog E A O X α} {h : X → Prog E A O X α} (hp : Stops F B p)
    (hfinal : ∀ x, B x → Failing B (h x)) (hh : ∀ x, Stops F B (h x)) :
    Stops F B (p.handle h) := by
  intro tr r hpath hreceived
  rcases (path_handle p h tr r).mp hpath with ⟨a, hok, rfl⟩ | ⟨x, s, t, rfl, hraised, hrest⟩
  · obtain ⟨y, hy, _⟩ := hp tr _ hok hreceived
    cases hy
  · rcases received_append.mp hreceived with hs | ht
    · obtain ⟨y, hy, hb⟩ := hp s _ hraised hs
      cases hy
      exact hfinal x hb t r hrest
    · exact hh x t r hrest ht

/-- Run for its result, which is then the exception. -/
theorem stops_attempt {p : Prog E A O X α} {f : Except X α → Prog E A O X β} (hp : Stops F B p)
    (hfinal : ∀ x, B x → Failing B (f (.error x))) (hf : ∀ r, Stops F B (f r)) :
    Stops F B ((attempt p).bind f) := by
  intro tr r h hreceived
  rcases (path_bind _ f tr r).mp h with ⟨x, hraised, rfl⟩ | ⟨a, s, t, rfl, hok, hrest⟩
  · obtain ⟨_, hy, _⟩ := (path_attempt p tr _).mp hraised
    cases hy
  · obtain ⟨_, heq, hpath⟩ := (path_attempt p s _).mp hok
    cases heq
    rcases received_append.mp hreceived with hs | ht
    · obtain ⟨x, rfl, hb⟩ := hp s _ hpath hs
      exact hfinal x hb t r hrest
    · exact hf a t r hrest ht

theorem gather_received {ps : List (Prog E A O X α)} (hps : ∀ p ∈ ps, Stops F B p)
    {tr : List (Event E A O)} {r : Except X (List (Except X α))} (h : Path (gather ps) tr r) :
    ∃ rs, r = .ok rs ∧ (Received F tr → ∃ x, Except.error x ∈ rs ∧ B x) := by
  induction ps generalizing tr r with
  | nil =>
    obtain ⟨rfl, rfl⟩ := (path_done _ _ _).mp h
    exact ⟨[], rfl, fun hreceived => absurd hreceived not_received_nil⟩
  | cons p ps ih =>
    rcases (path_bind _ _ tr r).mp h with ⟨x, hraised, rfl⟩ | ⟨first, s, t, rfl, hfirst, hrest⟩
    · obtain ⟨_, hy, _⟩ := (path_attempt p tr _).mp hraised
      cases hy
    · obtain ⟨_, heq, hpath⟩ := (path_attempt p s _).mp hfirst
      cases heq
      have htail {t : List (Event E A O)} {r : Except X (List (Except X α))}
          (h : Path (gather ps) t r) := ih (fun q hq => hps q (List.mem_cons_of_mem p hq)) h
      rcases (path_bind _ _ t r).mp hrest with
        ⟨x, hraised, rfl⟩ | ⟨others, u, v, rfl, hothers, hend⟩
      · obtain ⟨_, hy, _⟩ := htail hraised
        cases hy
      · obtain ⟨rfl, rfl⟩ := (path_done _ _ _).mp hend
        obtain ⟨rs, hrs, hblocked⟩ := htail hothers
        cases hrs
        refine ⟨_, rfl, fun hreceived => ?_⟩
        rw [List.append_nil] at hreceived
        rcases received_append.mp hreceived with hs | hu
        · obtain ⟨x, hx, hb⟩ := hps p List.mem_cons_self s _ hpath hs
          exact ⟨x, hx ▸ List.mem_cons_self, hb⟩
        · obtain ⟨x, hx, hb⟩ := hblocked hu
          exact ⟨x, List.mem_cons_of_mem first hx, hb⟩

/-- Run for their results, one of which is then the exception. -/
theorem stops_gather {ps : List (Prog E A O X α)} {f : List (Except X α) → Prog E A O X β}
    (hps : ∀ p ∈ ps, Stops F B p)
    (hfinal : ∀ rs, (∃ x, Except.error x ∈ rs ∧ B x) → Failing B (f rs))
    (hf : ∀ rs, Stops F B (f rs)) : Stops F B ((gather ps).bind f) := by
  intro tr r h hreceived
  rcases (path_bind _ f tr r).mp h with ⟨x, hraised, rfl⟩ | ⟨rs, s, t, rfl, hok, hrest⟩
  · obtain ⟨_, hy, _⟩ := gather_received hps hraised
    cases hy
  · obtain ⟨_, heq, hblocked⟩ := gather_received hps hok
    cases heq
    rcases received_append.mp hreceived with hs | ht
    · exact hfinal rs (hblocked hs) t r hrest
    · exact hf rs t r hrest ht

end AigentSquad.FinalAnswers
