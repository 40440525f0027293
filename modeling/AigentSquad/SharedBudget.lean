import AigentSquad.TokenBudget

/-!
# One token budget for all replicas

Calls of many replicas' trackers over one Redis that answers every command and
lets no key expire. A call is invoked, sends its Redis command and finishes; a
run is one interleaving of these steps. The log lists the calls in the order of
their commands, and every answer is the one a single ledger gives at that point.
-/

set_option autoImplicit false

namespace AigentSquad.SharedBudget
open AigentSquad.PyText AigentSquad.RemoteStore AigentSquad.Transition
open AigentSquad.TokenBudget (Tracker Redis TokenBudgetExceeded key incrby delete)

variable {R : Type}

inductive Op where
  | record_usage (session_id : Str) (input_tokens output_tokens : Int)
  | check_budget (session_id : Str)
  | get_usage (session_id : Str)
  | reset (session_id : Str)
deriving DecidableEq

inductive Answer where
  | done
  | usage (n : Int)
  | checked (out : Except TokenBudgetExceeded Unit)

inductive Phase where
  | called
  | sent (answer : Answer)
  | returned (answer : Answer)

structure Call (R : Type) where
  replica : R
  op : Op
  phase : Phase

/-- What a call does to Redis: INCRBY, DELETE, or a GET that changes nothing. -/
def command : Op → Redis → Redis
  | .record_usage sid inp out, redis => incrby redis (key sid) (inp + out) .ok
  | .reset sid, redis => delete redis (key sid) .ok
  | .check_budget _, redis => redis
  | .get_usage _, redis => redis

/-- What a call does to its own tracker once Redis has answered. -/
def settle : Op → Tracker → Tracker
  | .reset sid, t => t.set sid none
  | _, t => t

def answer (t : Tracker) (redis : Redis) : Op → Answer
  | .get_usage sid => .usage (TokenBudget.get_usage t redis sid .ok)
  | .check_budget sid => .checked (TokenBudget.check_budget t redis sid .ok)
  | .record_usage _ _ _ => .done
  | .reset _ => .done

structure State (R : Type) where
  redis : Redis
  trackers : R → Tracker
  calls : ℕ → Option (Call R)
  log : List (ℕ × Op)

inductive Label (R : Type) where
  | invoke (id : ℕ) (replica : R) (op : Op)
  | send (id : ℕ)
  | finish (id : ℕ)

def start (max_tokens_per_session : R → Int) : State R where
  redis := fun _ => none
  trackers := fun r => ⟨max_tokens_per_session r, true, fun _ => none⟩
  calls := fun _ => none
  log := []

def State.put (s : State R) (id : ℕ) (c : Call R) : State R :=
  { s with calls := Function.update s.calls id (some c) }

def step [DecidableEq R] (s : State R) : Label R → Option (State R)
  | .invoke id r op =>
    match s.calls id with
    | none => some (s.put id ⟨r, op, .called⟩)
    | some _ => none
  | .send id =>
    match s.calls id with
    | some ⟨r, op, .called⟩ =>
      some { s.put id ⟨r, op, .sent (answer (s.trackers r) s.redis op)⟩ with
        redis := command op s.redis
        log := s.log ++ [(id, op)] }
    | _ => none
  | .finish id =>
    match s.calls id with
    | some ⟨r, op, .sent a⟩ =>
      some { s.put id ⟨r, op, .returned a⟩ with
        trackers := Function.update s.trackers r (settle op (s.trackers r)) }
    | _ => none

/-- A call that nothing interrupts is the tracker's own function. -/
theorem record_usage_commands (t : Tracker) (redis : Redis) (sid : Str) (inp out : Int)
    (ht : t.redis_backed = true) :
    TokenBudget.record_usage t redis sid inp out .ok .ok =
      (settle (.record_usage sid inp out) t, command (.record_usage sid inp out) redis) := by
  simp [TokenBudget.record_usage, ht, settle, command]

theorem reset_commands (t : Tracker) (redis : Redis) (sid : Str) (ht : t.redis_backed = true) :
    TokenBudget.reset t redis sid .ok = (settle (.reset sid) t, command (.reset sid) redis) := by
  simp [TokenBudget.reset, ht, settle, command]

/-- The tokens a call records for the session. -/
def tokens (session_id : Str) : Op → Int
  | .record_usage sid inp out => if sid = session_id then inp + out else 0
  | _ => 0

/-- All tokens recorded for the session since its last reset. -/
def recorded (session_id : Str) (log : List (ℕ × Op)) : Int :=
  ((log.reverse.takeWhile (fun e => e.2 ≠ .reset session_id)).map
    (fun e => tokens session_id e.2)).sum

theorem recorded_snoc (session_id : Str) (log : List (ℕ × Op)) (id : ℕ) (op : Op) :
    recorded session_id (log ++ [(id, op)]) =
      if op = .reset session_id then 0 else tokens session_id op + recorded session_id log := by
  unfold recorded
  rw [List.reverse_append, List.reverse_singleton, List.singleton_append, List.takeWhile_cons]
  by_cases h : op = .reset session_id
  · simp [h]
  · simp [h]

/-- The answer of one ledger with the calls before it. -/
def expected (limit : Int) (before : List (ℕ × Op)) : Op → Answer
  | .get_usage sid => .usage (recorded sid before)
  | .check_budget sid =>
    .checked (if limit ≤ recorded sid before then .error ⟨sid, recorded sid before, limit⟩
      else .ok ())
  | .record_usage _ _ _ => .done
  | .reset _ => .done

/-- The call stands once in the log, and was answered from the calls before it. -/
def Logged (s : State R) (id : ℕ) (c : Call R) (a : Answer) : Prop :=
  ∃ before after, s.log = before ++ (id, c.op) :: after ∧
    (∀ e ∈ before ++ after, e.1 ≠ id) ∧
    a = expected (s.trackers c.replica).max_tokens_per_session before c.op

/-- Every replica sees the recorded tokens, refuses at its cap and not below,
and has answered each call so at the place of its command. -/
structure Exact (s : State R) : Prop where
  usage : ∀ r sid, TokenBudget.get_usage (s.trackers r) s.redis sid .ok = recorded sid s.log
  refusal : ∀ r sid, (∃ e, TokenBudget.check_budget (s.trackers r) s.redis sid .ok = .error e) ↔
    (s.trackers r).max_tokens_per_session ≤ recorded sid s.log
  called : ∀ id c, s.calls id = some c → c.phase = .called → ∀ e ∈ s.log, e.1 ≠ id
  answered : ∀ id c a, s.calls id = some c → c.phase = .sent a ∨ c.phase = .returned a →
    Logged s id c a

structure Linear (s : State R) : Prop where
  backed : ∀ r, (s.trackers r).redis_backed = true
  counter : ∀ sid, (s.redis (key sid)).getD 0 = recorded sid s.log
  known : ∀ e ∈ s.log, s.calls e.1 ≠ none
  called : ∀ id c, s.calls id = some c → c.phase = .called → ∀ e ∈ s.log, e.1 ≠ id
  answered : ∀ id c a, s.calls id = some c → c.phase = .sent a ∨ c.phase = .returned a →
    Logged s id c a

theorem step_cases [DecidableEq R] (s t : State R) (l : Label R) (h : step s l = some t) :
    (∃ id r op, s.calls id = none ∧ t = s.put id ⟨r, op, .called⟩) ∨
    (∃ id r op, s.calls id = some ⟨r, op, .called⟩ ∧
      t = { s.put id ⟨r, op, .sent (answer (s.trackers r) s.redis op)⟩ with
        redis := command op s.redis
        log := s.log ++ [(id, op)] }) ∨
    ∃ id r op a, s.calls id = some ⟨r, op, .sent a⟩ ∧
      t = { s.put id ⟨r, op, .returned a⟩ with
        trackers := Function.update s.trackers r (settle op (s.trackers r)) } := by
  cases l with
  | invoke id r op =>
    simp only [step] at h
    split at h
    · next hnone => exact .inl ⟨id, r, op, hnone, (Option.some.inj h).symm⟩
    · cases h
  | send id =>
    simp only [step] at h
    split at h
    · next r op hcall => exact .inr (.inl ⟨id, r, op, hcall, (Option.some.inj h).symm⟩)
    · cases h
  | finish id =>
    simp only [step] at h
    split at h
    · next r op a hcall => exact .inr (.inr ⟨id, r, op, a, hcall, (Option.some.inj h).symm⟩)
    · cases h

theorem settle_config (op : Op) (t : Tracker) :
    (settle op t).redis_backed = t.redis_backed ∧
      (settle op t).max_tokens_per_session = t.max_tokens_per_session := by
  cases op <;> exact ⟨rfl, rfl⟩

theorem command_counter (op : Op) (redis : Redis) (sid : Str) :
    (command op redis (key sid)).getD 0 =
      if op = .reset sid then 0 else tokens sid op + (redis (key sid)).getD 0 := by
  cases op with
  | record_usage other inp out =>
    simp only [command, tokens, reduceCtorEq, if_false]
    by_cases h : other = sid
    · rw [h, TokenBudget.incrby_same]
      simp [Reply.applied, add_comm]
    · rw [TokenBudget.incrby_other redis other sid (inp + out) .ok h]
      simp [h]
  | reset other =>
    simp only [command, tokens, Op.reset.injEq]
    by_cases h : other = sid
    · rw [h, TokenBudget.delete_same]
      simp [Reply.applied]
    · rw [TokenBudget.delete_other redis other sid .ok h]
      simp [h]
  | check_budget other => simp [command, tokens]
  | get_usage other => simp [command, tokens]

theorem answer_expected (s : State R) (hs : Linear s) (r : R) (op : Op) :
    answer (s.trackers r) s.redis op =
      expected (s.trackers r).max_tokens_per_session s.log op := by
  cases op with
  | record_usage sid inp out => rfl
  | reset sid => rfl
  | get_usage sid =>
    simp [answer, expected, TokenBudget.get_usage, hs.backed r, hs.counter sid]
  | check_budget sid =>
    simp [answer, expected, TokenBudget.check_budget, hs.backed r, hs.counter sid]

theorem start_linear (limits : R → Int) : Linear (start limits) := by
  constructor
  · exact fun _ => rfl
  · exact fun _ => rfl
  · exact fun e he => absurd he List.not_mem_nil
  · intro id c h
    cases h
  · intro id c a h
    cases h

/-- A logged call stays logged while others add themselves behind it. -/
theorem logged_snoc (s t : State R) (id other : ℕ) (op : Op) (c : Call R) (a : Answer)
    (hlog : t.log = s.log ++ [(other, op)]) (hne : other ≠ id)
    (hmax : (t.trackers c.replica).max_tokens_per_session =
      (s.trackers c.replica).max_tokens_per_session)
    (h : Logged s id c a) : Logged t id c a := by
  obtain ⟨before, after, hsplit, honce, ha⟩ := h
  refine ⟨before, after ++ [(other, op)], ?_, ?_, ?_⟩
  · rw [hlog, hsplit, List.append_assoc, List.cons_append]
  · intro e he
    rw [← List.append_assoc, List.mem_append] at he
    rcases he with he | he
    · exact honce e he
    · rw [List.mem_singleton.mp he]
      exact hne
  · rw [hmax]
    exact ha

theorem logged_same (s t : State R) (id : ℕ) (c d : Call R) (a : Answer) (hlog : t.log = s.log)
    (hop : d.op = c.op)
    (hmax : (t.trackers d.replica).max_tokens_per_session =
      (s.trackers c.replica).max_tokens_per_session)
    (h : Logged s id c a) : Logged t id d a := by
  obtain ⟨before, after, hsplit, honce, ha⟩ := h
  refine ⟨before, after, ?_, honce, ?_⟩
  · rw [hlog, hop, hsplit]
  · rw [hmax, hop, ha]

theorem invoke_linear (s : State R) (hs : Linear s) (id : ℕ) (r : R) (op : Op)
    (hnone : s.calls id = none) : Linear (s.put id ⟨r, op, .called⟩) := by
  constructor
  · exact hs.backed
  · exact hs.counter
  · intro e he
    by_cases h : e.1 = id
    · simp [State.put, h]
    · simp only [State.put, Function.update_of_ne h]
      exact hs.known e he
  · intro id' c hc hphase
    by_cases h : id' = id
    · intro e he heq
      exact hs.known e he (by rw [heq, h, hnone])
    · simp only [State.put, Function.update_of_ne h] at hc
      exact hs.called id' c hc hphase
  · intro id' c a hc hphase
    by_cases h : id' = id
    · subst h
      simp only [State.put, Function.update_self, Option.some.injEq] at hc
      subst hc
      rcases hphase with hphase | hphase <;> cases hphase
    · simp only [State.put, Function.update_of_ne h] at hc
      exact logged_same s _ id' c c a rfl rfl rfl (hs.answered id' c a hc hphase)

theorem send_linear (s : State R) (hs : Linear s) (id : ℕ) (r : R) (op : Op)
    (hcall : s.calls id = some ⟨r, op, .called⟩) :
    Linear { s.put id ⟨r, op, .sent (answer (s.trackers r) s.redis op)⟩ with
      redis := command op s.redis
      log := s.log ++ [(id, op)] } := by
  have hfresh : ∀ e ∈ s.log, e.1 ≠ id := hs.called id ⟨r, op, .called⟩ hcall rfl
  constructor
  · exact hs.backed
  · intro sid
    show (command op s.redis (key sid)).getD 0 = recorded sid (s.log ++ [(id, op)])
    rw [command_counter, recorded_snoc, hs.counter sid]
  · intro e he
    by_cases h : e.1 = id
    · simp [State.put, h]
    · simp only [State.put, Function.update_of_ne h]
      rcases List.mem_append.mp he with he | he
      · exact hs.known e he
      · exact absurd (by rw [List.mem_singleton.mp he]) h
  · intro id' c hc hphase e he heq
    by_cases h : id' = id
    · subst h
      simp only [State.put, Function.update_self, Option.some.injEq] at hc
      rw [← hc] at hphase
      cases hphase
    · simp only [State.put, Function.update_of_ne h] at hc
      rcases List.mem_append.mp he with he | he
      · exact hs.called id' c hc hphase e he heq
      · rw [List.mem_singleton.mp he] at heq
        exact h heq.symm
  · intro id' c a hc hphase
    by_cases h : id' = id
    · subst h
      simp only [State.put, Function.update_self, Option.some.injEq] at hc
      subst hc
      have ha : answer (s.trackers r) s.redis op = a := by
        rcases hphase with hphase | hphase
        · exact Phase.sent.inj hphase
        · cases hphase
      refine ⟨s.log, [], rfl, ?_, ?_⟩
      · rw [List.append_nil]
        exact hfresh
      · rw [← ha]
        exact answer_expected s hs r op
    · simp only [State.put, Function.update_of_ne h] at hc
      exact logged_snoc s _ id' id op c a rfl (Ne.symm h) rfl (hs.answered id' c a hc hphase)

theorem finish_linear [DecidableEq R] (s : State R) (hs : Linear s) (id : ℕ) (r : R) (op : Op)
    (a : Answer) (hcall : s.calls id = some ⟨r, op, .sent a⟩) :
    Linear { s.put id ⟨r, op, .returned a⟩ with
      trackers := Function.update s.trackers r (settle op (s.trackers r)) } := by
  have hconfig : ∀ q,
      (Function.update s.trackers r (settle op (s.trackers r)) q).redis_backed =
        (s.trackers q).redis_backed ∧
      (Function.update s.trackers r (settle op (s.trackers r)) q).max_tokens_per_session =
        (s.trackers q).max_tokens_per_session := by
    intro q
    by_cases h : q = r
    · rw [h, Function.update_self]
      exact settle_config op (s.trackers r)
    · rw [Function.update_of_ne h]
      exact ⟨rfl, rfl⟩
  constructor
  · exact fun q => (hconfig q).1.trans (hs.backed q)
  · exact hs.counter
  · intro e he
    by_cases h : e.1 = id
    · simp [State.put, h]
    · simp only [State.put, Function.update_of_ne h]
      exact hs.known e he
  · intro id' c hc hphase
    by_cases h : id' = id
    · subst h
      simp only [State.put, Function.update_self, Option.some.injEq] at hc
      rw [← hc] at hphase
      cases hphase
    · simp only [State.put, Function.update_of_ne h] at hc
      exact hs.called id' c hc hphase
  · intro id' c b hc hphase
    by_cases h : id' = id
    · subst h
      simp only [State.put, Function.update_self, Option.some.injEq] at hc
      subst hc
      have hb : a = b := by
        rcases hphase with hphase | hphase
        · cases hphase
        · exact Phase.returned.inj hphase
      subst hb
      exact logged_same s _ id' ⟨r, op, .sent a⟩ _ a rfl rfl (hconfig r).2
        (hs.answered id' _ a hcall (.inl rfl))
    · simp only [State.put, Function.update_of_ne h] at hc
      exact logged_same s _ id' c c b rfl rfl (hconfig c.replica).2
        (hs.answered id' c b hc hphase)

theorem linear_exact (s : State R) (hs : Linear s) : Exact s := by
  constructor
  · intro r sid
    simp [TokenBudget.get_usage, hs.backed r, hs.counter sid]
  · intro r sid
    rw [TokenBudget.check_budget_refuses _ _ _ _ (hs.backed r), hs.counter sid]
    simp
  · exact hs.called
  · exact hs.answered

section
variable [DecidableEq R]

theorem step_linear (s : State R) (l : Label R) (t : State R) (h : step s l = some t)
    (hs : Linear s) : Linear t := by
  obtain ⟨id, r, op, hnone, rfl⟩ | ⟨id, r, op, hcall, rfl⟩ | ⟨id, r, op, a, hcall, rfl⟩ :=
    step_cases s t l h
  · exact invoke_linear s hs id r op hnone
  · exact send_linear s hs id r op hcall
  · exact finish_linear s hs id r op a hcall

theorem step_log (s : State R) (l : Label R) (t : State R) (h : step s l = some t) :
    s.log <+: t.log := by
  obtain ⟨id, r, op, _, rfl⟩ | ⟨id, r, op, _, rfl⟩ | ⟨id, r, op, a, _, rfl⟩ :=
    step_cases s t l h
  · exact List.prefix_refl s.log
  · exact List.prefix_append s.log [(id, op)]
  · exact List.prefix_refl s.log

/-- The log only grows at its end, so it keeps the calls' order in time. -/
def KeepsOrder (s : State R) (ls : List (Label R)) : Prop :=
  ∀ pre suf t u, ls = pre ++ suf → exec step s pre = some t → exec step t suf = some u →
    t.log <+: u.log

theorem exec_log (s t : State R) (ls : List (Label R)) (h : exec step s ls = some t) :
    s.log <+: t.log := by
  apply exec_invariant (P := fun _ _ => True) (I := fun u => s.log <+: u.log) _ _ _ h
  · exact fun u l v huv _ hu => hu.trans (step_log u l v huv)
  · exact List.prefix_refl s.log
  · exact along_of_forall (fun _ _ => trivial) s ls

/-- Whatever the interleaving, all replicas see the tokens recorded since the
session's last reset, and the cap holds exactly for them. -/
theorem shared_budget_exact (max_tokens_per_session : R → Int) (ls : List (Label R)) :
    Throughout step Exact (start max_tokens_per_session) ls ∧
      KeepsOrder (start max_tokens_per_session) ls := by
  constructor
  · have hkeep : ∀ (s : State R) l t, step s l = some t → True → Linear s → Linear t :=
      fun s l t h _ hs => step_linear s l t h hs
    exact throughout_of_invariant (P := fun _ _ => True) hkeep linear_exact
      (start_linear max_tokens_per_session) (along_of_forall (fun _ _ => trivial) _ ls)
  · exact fun _ suf t u _ _ hu => exec_log t u suf hu

end

end AigentSquad.SharedBudget
