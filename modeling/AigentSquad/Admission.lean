import Mathlib.Tactic.Linarith
import Mathlib.Tactic.NormNum
import AigentSquad.RemoteStore
import AigentSquad.Transition

/-!
# Gateway admission

The per-user sliding window, the atomic daily reserve and `_check_admission`
over both, for the requests of the two client entry points. Costs and clock
readings are exact rationals. Redis never expires a day's key within that day,
since every reserve renews its 24 hours.
-/

set_option autoImplicit false

namespace AigentSquad.Admission
open AigentSquad.PyText AigentSquad.RemoteStore AigentSquad.Transition

structure Settings where
  rate_budget_enabled : Bool
  rate_limit_per_minute : Int
  daily_budget_usd : ℚ

def pricing (model : Str) : ℚ × ℚ := if model = "haiku".toList then (1, 5) else (3, 15)

def estimate_cost (input_tokens max_output_tokens : Int) (model : Str) : ℚ :=
  (input_tokens * (pricing model).1 + max_output_tokens * (pricing model).2) / 1000000

/-- The reserve script: what the key holds afterwards, and the answer. -/
def budget_reserve_lua (stored : Option ℚ) (cost cap : ℚ) : Option ℚ × Bool × ℚ :=
  let current := stored.getD 0
  if current + cost > cap then
    let rem := cap - current
    (stored, false, if rem < 0 then 0 else rem)
  else (some (current + cost), true, cap - (current + cost))

/-- Sorted sets whose members are the printed scores, so one entry a score. -/
abbrev Window := List ℚ

def zremrangebyscore (z : Window) (lo hi : ℚ) : Window := z.filter (fun x => !(lo ≤ x && x ≤ hi))

def zadd (z : Window) (score : ℚ) : Window := if score ∈ z then z else z ++ [score]

structure State where
  rate : Store Window
  budget : Store ℚ

def rate_key (user_id : Str) : Str := "rate:user:".toList ++ user_id

def budget_key (day : Str) : Str := "budget:global:".toList ++ day

theorem budget_key_injective (a b : Str) (h : budget_key a = budget_key b) : a = b :=
  List.append_cancel_left h

def check_rate (cfg : Settings) (rate : Store Window) (user_id : Str) (now : ℚ) (reply : Reply) :
    Store Window × Bool × Int :=
  let kept := zremrangebyscore ((rate (rate_key user_id)).getD []) 0 (now - 60)
  let rate' := put rate (rate_key user_id) (some (zadd kept now)) reply
  if reply ≠ .ok then (rate', true, cfg.rate_limit_per_minute)
  else if (kept.length : Int) ≥ cfg.rate_limit_per_minute then (rate', false, 0)
  else (rate', true, cfg.rate_limit_per_minute - kept.length - 1)

def check_budget (cfg : Settings) (budget : Store ℚ) (day : Str) (estimated_cost_usd : ℚ)
    (reply : Reply) : Store ℚ × Bool × ℚ :=
  let out := budget_reserve_lua (budget (budget_key day)) estimated_cost_usd cfg.daily_budget_usd
  let budget' := put budget (budget_key day) out.1 reply
  if reply ≠ .ok then (budget', true, cfg.daily_budget_usd) else (budget', out.2)

structure Denied where
  status_code : Nat
  type : Str
  message : Str
  headers : List (Str × Str)
deriving DecidableEq, Repr

def rate_limited : Denied where
  status_code := 429
  type := "rate_limited".toList
  message := "per-user rate limit exceeded".toList
  headers := [("X-RateLimit-Remaining".toList, "0".toList), ("Retry-After".toList, "60".toList)]

def budget_exhausted (budget_remaining : ℚ) : Denied where
  status_code := 503
  type := "budget_exhausted".toList
  message := "daily budget exhausted".toList
  headers := [("X-Budget-Remaining-USD".toList, fixed 4 budget_remaining),
    ("Retry-After".toList, "3600".toList)]

/-- Clock readings and Redis replies one admission meets. -/
structure Edge where
  now : ℚ
  day : Str
  rate_reply : Reply
  budget_reply : Reply

def check_admission (cfg : Settings) (s : State) (e : Edge) (user_id : Str) (max_tokens : Int) :
    State × Option Denied :=
  if !cfg.rate_budget_enabled then (s, none)
  else
    let r := check_rate cfg s.rate user_id e.now e.rate_reply
    if !r.2.1 then ({ s with rate := r.1 }, some rate_limited)
    else
      let est := estimate_cost 1000 max_tokens "sonnet".toList
      let b := check_budget cfg s.budget e.day est e.budget_reply
      if !b.2.1 then (⟨r.1, b.1⟩, some (budget_exhausted b.2.2)) else (⟨r.1, b.1⟩, none)

/-- What admission reads of `/query` and `/v1/chat/completions` bodies. -/
inductive Request where
  | query (user_id : Str)
  | openai_chat_completions (max_tokens : Option Int) (user : Option Str)
deriving DecidableEq, Repr

def Request.user_id : Request → Str
  | query user_id => user_id
  | openai_chat_completions _ user =>
    match user with
    | none => "librechat".toList
    | some u => if u = [] then "librechat".toList else u

/-- `request.max_tokens or 4096` -/
def Request.max_tokens : Request → Int
  | query _ => 4096
  | openai_chat_completions max_tokens _ =>
    match max_tokens with
    | none => 4096
    | some n => if n = 0 then 4096 else n

structure Arrival where
  request : Request
  edge : Edge

def serve (cfg : Settings) (s : State) (a : Arrival) : State × Option Denied :=
  check_admission cfg s a.edge a.request.user_id a.request.max_tokens

def step (cfg : Settings) (s : State) (a : Arrival) : Option State := some (serve cfg s a).1

def start : State := ⟨fun _ => none, fun _ => none⟩

def reserved (s : State) (day : Str) : ℚ := (s.budget (budget_key day)).getD 0

def admitted (cfg : Settings) (day : Str) : State → List Arrival → Nat
  | _, [] => 0
  | s, a :: as =>
    (if (serve cfg s a).2 = none ∧ a.edge.day = day then 1 else 0) +
      admitted cfg day (serve cfg s a).1 as

/-- The estimate of a request without output: its input part. -/
def smallest_estimate : ℚ := estimate_cost 1000 0 "sonnet".toList

def RedisUp (a : Arrival) : Prop := a.edge.rate_reply = .ok ∧ a.edge.budget_reply = .ok

instance (a : Arrival) : Decidable (RedisUp a) := by unfold RedisUp; infer_instance

/-- No admission hands budget back, and a day's budget pays for every admitted
request of the day. -/
structure OnlyGrows (cfg : Settings) (as : List Arrival) : Prop where
  grows : ∀ pre a suf s, as = pre ++ a :: suf → exec (step cfg) start pre = some s →
    ∀ day, reserved s day ≤ reserved (serve cfg s a).1 day
  bounded : ∀ day, admitted cfg day start as = 0 ∨
    admitted cfg day start as * smallest_estimate ≤ cfg.daily_budget_usd

@[simp] theorem pricing_sonnet : pricing "sonnet".toList = (3, 15) := rfl

theorem smallest_estimate_eq : smallest_estimate = 3 / 1000 := by
  norm_num [smallest_estimate, estimate_cost]

theorem estimate_lower (n : Int) (h : 0 ≤ n) :
    smallest_estimate ≤ estimate_cost 1000 n "sonnet".toList := by
  have hn : (0 : ℚ) ≤ n := by exact_mod_cast h
  rw [smallest_estimate_eq, estimate_cost, pricing_sonnet, le_div_iff₀ (by norm_num)]
  push_cast
  linarith

theorem put_reserved (budget : Store ℚ) (rate : Store Window) (day d : Str) (v : Option ℚ) :
    reserved ⟨rate, put budget (budget_key day) v .ok⟩ d =
      if d = day then v.getD 0 else (budget (budget_key d)).getD 0 := by
  by_cases hd : d = day
  · subst hd
    simp [reserved, Reply.applied]
  · have hk : budget_key d ≠ budget_key day := fun h => hd (budget_key_injective d day h)
    simp [reserved, hd, put_other budget _ _ _ _ hk]

/-- The request gets past the rate check of its user. -/
def passes_rate (cfg : Settings) (s : State) (a : Arrival) : Bool :=
  (check_rate cfg s.rate a.request.user_id a.edge.now a.edge.rate_reply).2.1

def estimate (a : Arrival) : ℚ := estimate_cost 1000 a.request.max_tokens "sonnet".toList

/-- With Redis up an arrival is refused and reserves nothing, or it passed the
rate check, is admitted, and its estimate joins the day's total within the budget. -/
theorem serve_cases (cfg : Settings) (s : State) (a : Arrival)
    (hc : cfg.rate_budget_enabled = true) (hup : RedisUp a) :
    ((serve cfg s a).2 ≠ none ∧ ∀ d, reserved (serve cfg s a).1 d = reserved s d) ∨
    ((serve cfg s a).2 = none ∧ passes_rate cfg s a = true ∧
      reserved s a.edge.day + estimate a ≤ cfg.daily_budget_usd ∧
      ∀ d, reserved (serve cfg s a).1 d =
        if d = a.edge.day then reserved s a.edge.day + estimate a else reserved s d) := by
  obtain ⟨hr, hb⟩ := hup
  have hserve : serve cfg s a =
      if !passes_rate cfg s a then ({ s with rate :=
        (check_rate cfg s.rate a.request.user_id a.edge.now a.edge.rate_reply).1 },
          some rate_limited)
      else
        let rate := (check_rate cfg s.rate a.request.user_id a.edge.now a.edge.rate_reply).1
        let b := check_budget cfg s.budget a.edge.day (estimate a) .ok
        if !b.2.1 then (⟨rate, b.1⟩, some (budget_exhausted b.2.2)) else (⟨rate, b.1⟩, none) := by
    simp [serve, check_admission, hc, hb, passes_rate, estimate]
  rw [hserve]
  cases hp : passes_rate cfg s a with
  | false => exact .inl ⟨by simp, fun d => rfl⟩
  | true =>
    by_cases hfit : cfg.daily_budget_usd < reserved s a.edge.day + estimate a
    · left
      have hfit' : cfg.daily_budget_usd < (s.budget (budget_key a.edge.day)).getD 0 + estimate a :=
        hfit
      simp only [check_budget, budget_reserve_lua, hfit', if_true, ne_eq, not_true,
        if_false, Bool.not_true, Bool.not_false, Bool.false_eq_true]
      refine ⟨by simp, fun d => ?_⟩
      rw [put_reserved]
      split
      · next hd => rw [hd, reserved]
      · rfl
    · right
      have hfit' : ¬ cfg.daily_budget_usd <
          (s.budget (budget_key a.edge.day)).getD 0 + estimate a := hfit
      simp only [check_budget, budget_reserve_lua, hfit', if_false, ne_eq, not_true,
        Bool.not_true, Bool.false_eq_true, true_and]
      refine ⟨not_lt.mp hfit, fun d => ?_⟩
      rw [put_reserved]
      rfl

/-- A request that can reach the reserve names no negative output bound. -/
def NonNegativeBound (cfg : Settings) (s : State) (a : Arrival) : Prop :=
  passes_rate cfg s a = true → 0 ≤ a.request.max_tokens

theorem serve_grows (cfg : Settings) (s : State) (a : Arrival)
    (hc : cfg.rate_budget_enabled = true) (hup : RedisUp a) (hb : NonNegativeBound cfg s a)
    (day : Str) : reserved s day ≤ reserved (serve cfg s a).1 day := by
  rcases serve_cases cfg s a hc hup with ⟨_, h⟩ | ⟨_, hp, _, h⟩
  · rw [h]
  · rw [h]
    split
    · next hd =>
      have he : smallest_estimate ≤ estimate a := estimate_lower _ (hb hp)
      rw [smallest_estimate_eq] at he
      rw [hd]
      linarith
    · exact le_refl _

/-- `n` admissions of the day so far are paid for, and their total is within
the budget once there is one. -/
def Paid (cfg : Settings) (day : Str) (n : Nat) (s : State) : Prop :=
  n * smallest_estimate ≤ reserved s day ∧ (n = 0 ∨ reserved s day ≤ cfg.daily_budget_usd)

theorem serve_paid (cfg : Settings) (s : State) (a : Arrival) (day : Str) (n : Nat)
    (hc : cfg.rate_budget_enabled = true) (hup : RedisUp a) (hb : NonNegativeBound cfg s a)
    (hs : Paid cfg day n s) :
    Paid cfg day (n + if (serve cfg s a).2 = none ∧ a.edge.day = day then 1 else 0)
      (serve cfg s a).1 := by
  obtain ⟨hpay, hfit⟩ := hs
  rcases serve_cases cfg s a hc hup with ⟨hd, h⟩ | ⟨hd, hp, hle, h⟩
  · simpa [Paid, hd, h] using And.intro hpay hfit
  · have he : smallest_estimate ≤ estimate a := estimate_lower _ (hb hp)
    by_cases hday : a.edge.day = day
    · subst hday
      refine ⟨?_, .inr ?_⟩
      · rw [h]
        simp only [hd, and_self, if_true]
        push_cast
        linarith
      · rw [h]
        simpa using hle
    · have hday' : day ≠ a.edge.day := fun hx => hday hx.symm
      simpa [Paid, hd, h, hday, hday'] using And.intro hpay hfit

theorem run_paid (cfg : Settings) (day : Str) (as : List Arrival) (s : State) (n : Nat)
    (hc : cfg.rate_budget_enabled = true)
    (ha : Along (step cfg) (fun s a => RedisUp a ∧ NonNegativeBound cfg s a) s as)
    (hs : Paid cfg day n s) : ∃ t, Paid cfg day (n + admitted cfg day s as) t := by
  induction as generalizing s n with
  | nil => exact ⟨s, by simpa [admitted] using hs⟩
  | cons a as ih =>
    obtain ⟨⟨hup, hb⟩, hrest⟩ := ha
    have hnext := serve_paid cfg s a day n hc hup hb hs
    obtain ⟨t, ht⟩ := ih (serve cfg s a).1 _ (hrest _ rfl) hnext
    exact ⟨t, by rwa [admitted, ← Nat.add_assoc]⟩

/-- Along runs with the guard enabled and Redis up, in which no request that
passes the rate check carries a negative `max_tokens`, the daily total only
grows and bounds the admissions of the day. -/
theorem only_grows (cfg : Settings) (as : List Arrival) (hc : cfg.rate_budget_enabled = true)
    (hup : Along (step cfg) (fun _ a => RedisUp a) start as)
    (hb : Along (step cfg) (NonNegativeBound cfg) start as) : OnlyGrows cfg as := by
  have ha := hup.and hb
  constructor
  · intro pre a suf s hsplit hs day
    subst hsplit
    obtain ⟨_, hrest⟩ := (along_append (step cfg) _ start pre (a :: suf)).mp ha
    obtain ⟨⟨hu, hn⟩, _⟩ := hrest s hs
    exact serve_grows cfg s a hc hu hn day
  · intro day
    have h0 : Paid cfg day 0 start := by simp [Paid, reserved, start]
    obtain ⟨t, hpay, hfit⟩ := run_paid cfg day as start 0 hc ha h0
    rw [Nat.zero_add] at hpay hfit
    rcases hfit with hz | hle
    · exact .inl hz
    · exact .inr (hpay.trans hle)

def defaults : Settings := ⟨true, 60, 50⟩

def arrival (n : Option Int) (now : ℚ) : Arrival :=
  ⟨.openai_chat_completions n none, ⟨now, "2026-01-01".toList, .ok, .ok⟩⟩

theorem two_chats_only_grow : OnlyGrows defaults [arrival none 1, arrival (some 16) 2] := by
  apply only_grows
  · rfl
  · exact ⟨⟨rfl, rfl⟩, fun _ _ => ⟨⟨rfl, rfl⟩, fun _ _ => trivial⟩⟩
  · exact ⟨fun _ => by decide, fun _ _ => ⟨fun _ => by decide, fun _ _ => trivial⟩⟩

def refund : Arrival := arrival (some (-1000000)) 1

theorem refund_reserved : reserved (serve defaults start refund).1 "2026-01-01".toList < 0 := by
  norm_num [serve, check_admission, check_rate, check_budget, budget_reserve_lua, defaults,
    refund, arrival, Request.max_tokens, estimate_cost, start, reserved, zremrangebyscore,
    Reply.applied]

/-- A negative `max_tokens` hands budget back. -/
theorem negative_bound_refunds : ¬ ∀ cfg as, cfg.rate_budget_enabled = true →
    Along (step cfg) (fun _ a => RedisUp a) start as → OnlyGrows cfg as := by
  intro h
  have hlaw : OnlyGrows defaults [refund] :=
    h defaults [refund] rfl ⟨⟨rfl, rfl⟩, fun _ _ => trivial⟩
  have hx := hlaw.grows [] refund [] start (by simp) (by simp) "2026-01-01".toList
  have h0 : reserved start "2026-01-01".toList = 0 := by simp [reserved, start]
  rw [h0] at hx
  exact absurd refund_reserved (not_lt.mpr hx)

end AigentSquad.Admission
