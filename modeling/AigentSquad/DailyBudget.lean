import Mathlib.Tactic.Ring
import AigentSquad.Admission

/-!
# The daily budget and what is charged to it

The reserves of one day in the order Redis runs their scripts, then the two
gateway endpoints around them: admission, the two preflight checks, the worker
pool, and the calls to the supervisor. Their outcomes come from outside.
-/

set_option autoImplicit false

namespace AigentSquad.DailyBudget
open AigentSquad.PyText AigentSquad.RemoteStore AigentSquad.Transition
open AigentSquad.Admission

/-- The stored totals beside the costs of the calls allowed so far. -/
structure Ledger where
  budget : Store ℚ
  allowed : List ℚ

def Ledger.total (s : Ledger) (day : Str) : ℚ := (s.budget (budget_key day)).getD 0

def reserve (cfg : Settings) (day : Str) (s : Ledger) (cost : ℚ) : Option Ledger :=
  let out := check_budget cfg s.budget day cost .ok
  some ⟨out.1, if out.2.1 then s.allowed ++ [cost] else s.allowed⟩

def empty : Ledger := ⟨fun _ => none, []⟩

/-- The stored total is what the allowed calls cost, and the cap holds for it. -/
structure Within (cfg : Settings) (day : Str) (s : Ledger) : Prop where
  total : s.total day = s.allowed.sum
  capped : 0 ≤ cfg.daily_budget_usd ∨ s.allowed ≠ [] → s.allowed.sum ≤ cfg.daily_budget_usd

/-- A denied call leaves the total alone and would have gone over the cap. -/
def DeniedRightly (cfg : Settings) (day : Str) (s : Ledger) (cost : ℚ) : Prop :=
  (check_budget cfg s.budget day cost .ok).2.1 = false →
    cfg.daily_budget_usd < s.total day + cost ∧
    ∀ t, reserve cfg day s cost = some t → t.total day = s.total day

theorem check_budget_over (cfg : Settings) (day : Str) (s : Ledger) (cost : ℚ)
    (h : cfg.daily_budget_usd < s.total day + cost) :
    check_budget cfg s.budget day cost .ok =
      (put s.budget (budget_key day) (s.budget (budget_key day)) .ok, false,
        if cfg.daily_budget_usd - s.total day < 0 then 0
        else cfg.daily_budget_usd - s.total day) := by
  unfold Ledger.total at h ⊢
  simp [check_budget, budget_reserve_lua, h]

theorem check_budget_fits (cfg : Settings) (day : Str) (s : Ledger) (cost : ℚ)
    (h : s.total day + cost ≤ cfg.daily_budget_usd) :
    check_budget cfg s.budget day cost .ok =
      (put s.budget (budget_key day) (some (s.total day + cost)) .ok, true,
        cfg.daily_budget_usd - (s.total day + cost)) := by
  have h' : ¬ cfg.daily_budget_usd < s.total day + cost := not_lt.mpr h
  unfold Ledger.total at h' ⊢
  simp [check_budget, budget_reserve_lua, h']

theorem reserve_cases (cfg : Settings) (day : Str) (s t : Ledger) (cost : ℚ)
    (h : reserve cfg day s cost = some t) :
    (cfg.daily_budget_usd < s.total day + cost ∧ t.allowed = s.allowed ∧
      t.total day = s.total day) ∨
    (s.total day + cost ≤ cfg.daily_budget_usd ∧ t.allowed = s.allowed ++ [cost] ∧
      t.total day = s.total day + cost) := by
  rcases lt_or_ge cfg.daily_budget_usd (s.total day + cost) with hover | hfit
  · rw [reserve, check_budget_over cfg day s cost hover, Option.some.injEq] at h
    subst h
    apply Or.inl
    exact ⟨hover, rfl, by simp [Ledger.total, Reply.applied]⟩
  · rw [reserve, check_budget_fits cfg day s cost hfit, Option.some.injEq] at h
    subst h
    apply Or.inr
    exact ⟨hfit, rfl, by simp [Ledger.total, Reply.applied]⟩

theorem reserve_within (cfg : Settings) (day : Str) (s t : Ledger) (cost : ℚ)
    (h : reserve cfg day s cost = some t) (hs : Within cfg day s) : Within cfg day t := by
  obtain ⟨_, hallowed, htotal⟩ | ⟨hfit, hallowed, htotal⟩ := reserve_cases cfg day s t cost h
  · constructor
    · rw [htotal, hallowed, hs.total]
    · rw [hallowed]
      exact hs.capped
  · have hsum : t.allowed.sum = s.total day + cost := by
      rw [hallowed, List.sum_append, List.sum_singleton, hs.total]
    constructor
    · rw [htotal, hsum]
    · intro _
      rw [hsum]
      exact hfit

theorem reserve_denied (cfg : Settings) (day : Str) (s : Ledger) (cost : ℚ) :
    DeniedRightly cfg day s cost := by
  intro hdenied
  rcases lt_or_ge cfg.daily_budget_usd (s.total day + cost) with hover | hfit
  · constructor
    · exact hover
    · intro t ht
      obtain ⟨_, _, htotal⟩ | ⟨hfit, _⟩ := reserve_cases cfg day s t cost ht
      · exact htotal
      · exact absurd hfit (not_le.mpr hover)
  · rw [check_budget_fits cfg day s cost hfit] at hdenied
    cases hdenied

/-- In any order of the reserves of a day, the allowed ones stay within the cap
and only those that would go over it are denied. -/
theorem reserve_exact (cfg : Settings) (day : Str) (costs : List ℚ) :
    Throughout (reserve cfg day) (Within cfg day) empty costs ∧
      Along (reserve cfg day) (DeniedRightly cfg day) empty costs := by
  have hkeep : ∀ s cost t, reserve cfg day s cost = some t → True → Within cfg day s →
      Within cfg day t := fun s cost t h _ hs => reserve_within cfg day s t cost h hs
  have hempty : Within cfg day empty := by
    constructor
    · rfl
    · rintro (hcap | hne)
      · exact hcap
      · exact absurd rfl hne
  constructor
  · exact throughout_of_invariant (P := fun _ _ => True) hkeep (fun _ hs => hs) hempty
      (along_of_forall (fun _ _ => trivial) empty costs)
  · exact along_of_forall (fun s cost => reserve_denied cfg day s cost) empty costs

/-- How a call to the supervisor ends. -/
inductive Outcome where
  | result
  | unavailable
  | status (n : Nat)
  | raised
deriving DecidableEq, Repr

/-- What a request meets behind admission: the pool's capacity at the preflight
and again in `submit`, the readiness probe, and the calls. -/
structure Backend where
  has_capacity : Bool
  is_supervisor_ready : Bool
  submit_capacity : Bool
  process_stream : Outcome
  process : Outcome

/-- An answer of the gateway. `Retry-After` of a busy answer is random. -/
inductive Answer where
  | denied (d : Denied)
  | busy_response (subtype detail : Str)
  | forward_error (status_code : Nat) (type message : Str)
  | result
  | raised

def busy_pool : Answer :=
  .busy_response "service_overloaded".toList "server busy — worker pool at capacity".toList

def not_ready : Answer :=
  .busy_response "backend_unavailable".toList "supervisor backend is not ready".toList

def forward_error (status : Nat) : Answer :=
  if status = 403 then
    .forward_error 403 "guardrail_blocked".toList "Request blocked by security guardrail".toList
  else .forward_error status "backend_error".toList "supervisor error".toList

def processed : Outcome → Answer
  | .result => .result
  | .unavailable =>
    .busy_response "backend_unavailable".toList "supervisor backend unavailable".toList
  | .status n => forward_error n
  | .raised => .raised

/-- What follows admission: the answer, and whether the supervisor was called. -/
def forward (b : Backend) (stream : Bool) : Answer × Bool :=
  if !b.has_capacity then (busy_pool, false)
  else if !b.is_supervisor_ready then (not_ready, false)
  else if stream then
    -- a failed stream falls back to one plain call
    if b.process_stream = .result then (.result, true) else (processed b.process, true)
  else if !b.submit_capacity then (busy_pool, false)
  else (processed b.process, true)

structure Call where
  arrival : Arrival
  stream : Bool
  backend : Backend

/-- `/query` never streams. -/
def Call.streams (c : Call) : Bool :=
  match c.arrival.request with
  | .query _ => false
  | .openai_chat_completions _ _ => c.stream

def handle (cfg : Settings) (s : Admission.State) (c : Call) : Admission.State × Answer × Bool :=
  let out := serve cfg s c.arrival
  match out.2 with
  | some d => (out.1, .denied d, false)
  | none => (out.1, forward c.backend c.streams)

structure Charge where
  day : Str
  estimate : ℚ

/-- The guard's keys beside the requests it let through: those the supervisor
got, and those answered 503 behind it. -/
structure Charged where
  admission : Admission.State
  forwarded : List Charge
  refused : List Charge

def fresh : Charged := ⟨Admission.start, [], []⟩

def charge (c : Call) : Charge := ⟨c.arrival.edge.day, estimate c.arrival⟩

def step (cfg : Settings) (s : Charged) (c : Call) : Option Charged :=
  let out := handle cfg s.admission c
  match out.2.1 with
  | .denied _ => some { s with admission := out.1 }
  | _ =>
    if out.2.2 then
      some { s with admission := out.1, forwarded := s.forwarded ++ [charge c] }
    else some { s with admission := out.1, refused := s.refused ++ [charge c] }

def total (day : Str) (cs : List Charge) : ℚ :=
  ((cs.filter (fun c => c.day = day)).map Charge.estimate).sum

/-- The day's reserve pays for what admission let through, so for the forwarded
requests alone only when none of the day was refused behind it. -/
structure Accounted (s : Charged) : Prop where
  admitted : ∀ day, reserved s.admission day = total day s.forwarded + total day s.refused
  exact : ∀ day, reserved s.admission day = total day s.forwarded ↔
    ∀ c ∈ s.refused, c.day ≠ day

theorem total_snoc (day : Str) (cs : List Charge) (c : Charge) :
    total day (cs ++ [c]) = total day cs + if c.day = day then c.estimate else 0 := by
  unfold total
  by_cases h : c.day = day
  · simp [h]
  · simp [h]

/-- Charges above zero add up to nothing only where there is none. -/
theorem total_pos (day : Str) (cs : List Charge) (h : ∀ c ∈ cs, 0 < c.estimate) :
    0 ≤ total day cs ∧ (total day cs = 0 ↔ ∀ c ∈ cs, c.day ≠ day) := by
  induction cs using List.reverseRecOn with
  | nil => simp [total]
  | append_singleton cs c ih =>
    have hcs := ih (fun d hd => h d (List.mem_append_left [c] hd))
    have hc : 0 < c.estimate := h c (by simp)
    rw [total_snoc]
    by_cases hday : c.day = day
    · rw [if_pos hday]
      constructor
      · linarith [hcs.1]
      · constructor
        · intro hzero
          linarith [hcs.1]
        · exact fun hnone => absurd hday (hnone c (by simp))
    · rw [if_neg hday, add_zero]
      constructor
      · exact hcs.1
      · rw [hcs.2]
        simp [or_imp, forall_and, hday]

theorem forward_admitted (b : Backend) (stream : Bool) (d : Denied) :
    (forward b stream).1 ≠ .denied d := by
  have hprocessed : processed b.process ≠ .denied d := by
    unfold processed forward_error
    split
    · nofun
    · nofun
    · split <;> nofun
    · nofun
  unfold forward busy_pool not_ready
  split
  · nofun
  · split
    · nofun
    · split
      · split
        · nofun
        · exact hprocessed
      · split
        · nofun
        · exact hprocessed

/-- A request admission lets through is charged to one of the lists; one it
refuses is charged to none. -/
theorem step_cases (cfg : Settings) (s t : Charged) (c : Call) (h : step cfg s c = some t) :
    t.admission = (serve cfg s.admission c.arrival).1 ∧
    (((serve cfg s.admission c.arrival).2 ≠ none ∧ t.forwarded = s.forwarded ∧
        t.refused = s.refused) ∨
      ((serve cfg s.admission c.arrival).2 = none ∧
        (t.forwarded = s.forwarded ++ [charge c] ∧ t.refused = s.refused ∨
          t.forwarded = s.forwarded ∧ t.refused = s.refused ++ [charge c]))) := by
  unfold step handle at h
  cases hd : (serve cfg s.admission c.arrival).2 with
  | some d =>
    simp only [hd, Option.some.injEq] at h
    subst h
    exact ⟨rfl, .inl ⟨by simp, rfl, rfl⟩⟩
  | none =>
    simp only [hd] at h
    split at h
    · next d hanswer => exact absurd hanswer (forward_admitted _ _ d)
    · split at h
      · rw [Option.some.injEq] at h
        subst h
        exact ⟨rfl, .inr ⟨rfl, .inl ⟨rfl, rfl⟩⟩⟩
      · rw [Option.some.injEq] at h
        subst h
        exact ⟨rfl, .inr ⟨rfl, .inr ⟨rfl, rfl⟩⟩⟩

/-- The condition under which a request is charged a positive estimate. -/
def Positive (c : Call) : Prop := 0 < c.arrival.request.max_tokens

theorem estimate_pos (c : Call) (h : Positive c) : 0 < (charge c).estimate := by
  have hlower := estimate_lower _ (le_of_lt h)
  rw [smallest_estimate_eq] at hlower
  show 0 < estimate c.arrival
  unfold estimate
  linarith

structure Books (s : Charged) : Prop where
  admitted : ∀ day, reserved s.admission day = total day s.forwarded + total day s.refused
  positive : ∀ c ∈ s.refused, 0 < c.estimate

theorem step_books (cfg : Settings) (s t : Charged) (c : Call)
    (hc : cfg.rate_budget_enabled = true) (hup : RedisUp c.arrival) (hpos : Positive c)
    (h : step cfg s c = some t) (hs : Books s) : Books t := by
  obtain ⟨hadmission, hlists⟩ := step_cases cfg s t c h
  have hserve := serve_cases cfg s.admission c.arrival hc hup
  rcases hlists with ⟨hdenied, hforwarded, hrefused⟩ | ⟨hadmitted, hlists⟩
  · have hkept : ∀ d, reserved t.admission d = reserved s.admission d := by
      rw [hadmission]
      rcases hserve with ⟨_, hkept⟩ | ⟨hnone, _⟩
      · exact hkept
      · exact absurd hnone hdenied
    constructor
    · intro day
      rw [hkept, hforwarded, hrefused, hs.admitted]
    · rw [hrefused]
      exact hs.positive
  · have hadded : ∀ d, reserved t.admission d =
        reserved s.admission d + if (charge c).day = d then (charge c).estimate else 0 := by
      intro d
      rw [hadmission]
      rcases hserve with ⟨hsome, _⟩ | ⟨_, _, _, hadded⟩
      · exact absurd hadmitted hsome
      · rw [hadded]
        by_cases hday : d = c.arrival.edge.day
        · subst hday
          simp [charge]
        · have hday' : ¬ c.arrival.edge.day = d := fun he => hday he.symm
          simp [charge, hday, hday']
    rcases hlists with ⟨hforwarded, hrefused⟩ | ⟨hforwarded, hrefused⟩
    · constructor
      · intro day
        rw [hadded, hforwarded, hrefused, total_snoc, hs.admitted]
        ring
      · rw [hrefused]
        exact hs.positive
    · constructor
      · intro day
        rw [hadded, hforwarded, hrefused, total_snoc, hs.admitted]
        ring
      · intro d hd
        rw [hrefused] at hd
        rcases List.mem_append.mp hd with hd | hd
        · exact hs.positive d hd
        · rw [List.mem_singleton.mp hd]
          exact estimate_pos c hpos

theorem books_accounted (s : Charged) (hs : Books s) : Accounted s := by
  constructor
  · exact hs.admitted
  · intro day
    rw [hs.admitted, ← (total_pos day s.refused hs.positive).2]
    exact add_eq_left

def today : Str := "2026-01-01".toList

def healthy : Backend := ⟨true, true, true, .result, .result⟩

def outage : Backend := ⟨true, false, true, .unavailable, .unavailable⟩

def question (now : ℚ) (b : Backend) : Call :=
  ⟨⟨.query "u1".toList, ⟨now, today, .ok, .ok⟩⟩, false, b⟩

set_option maxRecDepth 100000 in
theorem outage_run : (exec (step defaults) fresh [question 1 outage]).map
    (fun s => (decide (reserved s.admission today = 0), s.forwarded.length)) =
      some (false, 0) := by
  decide +kernel

end AigentSquad.DailyBudget
