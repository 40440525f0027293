import AigentSquad.CircuitBreaker

/-!
# The circuit breaker when Redis forgets or fails

Two promises of a breaker over Redis. A probe that fails opens the breaker
again, which needs the failure counter: its key was last refreshed by the
failures before the trip, the state's key by the probe. And no call raises when
Redis fails, which holds of the commands whose failure is not logged.
-/

set_option autoImplicit false

namespace AigentSquad.BreakerOverRedis
open AigentSquad.CircuitBreaker AigentSquad.RemoteStore AigentSquad.Transition

/-- A failure recorded in HALF_OPEN makes the breaker OPEN. -/
def Reopens (s : Shared) : Label → Prop
  | .record_failure now r =>
    state s .ok = .ok .HALF_OPEN → state (record_failure s now r).1 .ok = .ok .OPEN
  | _ => True

/-- A failure recorded in HALF_OPEN finds the counter one below the threshold or
higher, and Redis answers the increment and carries out the write. -/
def CounterStands (s : Shared) : Label → Prop
  | .record_failure _ r => state s .ok = .ok .HALF_OPEN →
    r.incr_failures = .ok ∧ s.breaker.failure_threshold ≤ value s.keys.failures 0 + 1 ∧
      r.set_state.applied = true ∧ 0 < s.breaker.ttl
  | _ => True

instance (s : Shared) (l : Label) : Decidable (Reopens s l) :=
  match l with
  | .record_failure now r => inferInstanceAs (Decidable
      (state s .ok = .ok .HALF_OPEN → state (record_failure s now r).1 .ok = .ok .OPEN))
  | .can_execute _ _ => instDecidableTrue
  | .record_success _ => instDecidableTrue
  | .is_open _ => instDecidableTrue
  | .elapse _ => instDecidableTrue
  | .elsewhere _ => instDecidableTrue

theorem state_redis (s : Shared) (hredis : s.breaker.redis_backed = true) :
    state s .ok = .ok (value s.keys.state .CLOSED) := by
  rw [state, if_pos hredis, if_pos rfl]

/-- Over Redis a failure writes the state only past the threshold. -/
theorem record_failure_state (s : Shared) (now : ℚ) (r : Replies)
    (hredis : s.breaker.redis_backed = true) :
    (record_failure s now r).1.keys.state =
      if r.incr_failures = .ok ∧ s.breaker.failure_threshold ≤ value s.keys.failures 0 + 1 then
        setex s r.set_state s.keys.state .OPEN
      else s.keys.state := by
  have hstamped : (set_last_failure_time s now r.set_last_failure_ts).breaker.redis_backed = true :=
    hredis
  unfold record_failure incr_failures
  rw [if_pos hstamped]
  by_cases hincr : r.incr_failures = .ok
  · by_cases hcount : s.breaker.failure_threshold ≤ value s.keys.failures 0 + 1
    · simp only [hincr, hcount, set_last_failure_time, set_state, and_self, if_true]
      rfl
    · simp [hincr, hcount, set_last_failure_time]
  · simp [hincr, set_last_failure_time]

theorem reopens_step (s : Shared) (l : Label) (hredis : s.breaker.redis_backed = true) :
    Reopens s l ↔ CounterStands s l := by
  cases l with
  | record_failure now r =>
    simp only [Reopens, CounterStands]
    apply imp_congr_right
    intro hhalf
    rw [state_redis s hredis, Except.ok.injEq] at hhalf
    rw [state_redis _ ((record_failure_redis_backed s now r).trans hredis),
      record_failure_state s now r hredis, Except.ok.injEq]
    by_cases hcount : r.incr_failures = .ok ∧
        s.breaker.failure_threshold ≤ value s.keys.failures 0 + 1
    · rw [if_pos hcount, setex, hredis, Bool.true_and]
      by_cases hset : r.set_state.applied = true ∧ 0 < s.breaker.ttl
      · simp only [hset.1, hset.2, decide_true, Bool.and_self, if_true, and_true]
        exact iff_of_true rfl hcount
      · have hset' : ¬ (r.set_state.applied && decide (0 < s.breaker.ttl)) = true := by
          simpa using hset
        rw [if_neg hset', hhalf]
        constructor
        · intro h
          cases h
        · exact fun h => absurd h.2.2 hset
    · rw [if_neg hcount, hhalf]
      constructor
      · intro h
        cases h
      · intro h
        exact absurd ⟨h.1, h.2.1⟩ hcount
  | _ => exact Iff.rfl

/-- Whatever the timing of calls, expiries and other replicas, every failed probe
opens the breaker again exactly while the counter stands. -/
theorem failed_probe_reopens_iff (failure_threshold : Int) (recovery_timeout : ℚ)
    (ls : List Label) :
    Along step Reopens (start failure_threshold recovery_timeout true) ls ↔
      Along step CounterStands (start failure_threshold recovery_timeout true) ls := by
  apply along_congr (P := fun _ _ => True) (I := fun s => s.breaker.redis_backed = true)
  · exact fun s l t h _ hs => (step_redis_backed s l t h).trans hs
  · exact fun s l _ hs => reopens_step s l hs
  · rfl
  · exact along_of_forall (fun _ _ => trivial) _ ls

/-- Five failures, a probe a second before the counter expires, its failure a
second after. -/
def late_probe : List Label :=
  List.replicate 5 (.record_failure 0 up) ++
    [.elapse 59, .can_execute 59 up, .elapse 2, .record_failure 61 up]

set_option maxRecDepth 100000 in
theorem late_probe_stays_half_open : ¬ Along step Reopens (start 5 30 true) late_probe := by
  decide +kernel

/-- What a call answers: a truth value, nothing, or an exception. -/
def answer (s : Shared) : Label → Except Raised (Option Bool)
  | .can_execute now r => (can_execute s now r).2.map some
  | .record_success r => (record_success s r).2.map (fun _ => none)
  | .record_failure now r => (record_failure s now r).2.map (fun _ => none)
  | .is_open r => (is_open s r).map some
  | .elapse _ => .ok none
  | .elsewhere _ => .ok none

/-- The breaker with its memory alone. -/
def in_memory (s : Shared) : Shared :=
  { s with breaker := { s.breaker with redis_backed := false } }

def Unanswered (r : Replies) : Prop :=
  r.get_state ≠ .ok ∧ r.get_last_failure_ts ≠ .ok ∧ r.set_state ≠ .ok ∧ r.incr_failures ≠ .ok ∧
    r.set_last_failure_ts ≠ .ok ∧ r.reset_failures ≠ .ok

/-- Redis is down while the call runs. -/
def Down : Label → Prop
  | .can_execute _ r => Unanswered r
  | .record_success r => Unanswered r
  | .record_failure _ r => Unanswered r
  | .is_open r => Unanswered r
  | .elapse _ => False
  | .elsewhere _ => False

/-- The call does not raise, and with Redis down it does what it does in memory. -/
structure FailsOpen (s : Shared) (l : Label) : Prop where
  answers : ∃ a, answer s l = .ok a
  in_memory : Down l → answer s l = answer (in_memory s) l ∧
    ∀ t u, step s l = some t → step (in_memory s) l = some u →
      (in_memory t).breaker = u.breaker

/-- The state is written and the write acknowledged. -/
def Written (s : Shared) (r : Replies) : Prop := r.set_state = .ok ∧ 0 < s.breaker.ttl

/-- The commands whose failure is logged are answered, as far as the call sends them. -/
def LoggedAnswered (s : Shared) (l : Label) : Prop :=
  s.breaker.redis_backed = true →
    match l with
    | .can_execute now r => r.get_state = .ok ∧
      (value s.keys.state .CLOSED = .OPEN ∧
        s.breaker.recovery_timeout ≤ now - last_failure_time s r.get_last_failure_ts →
          Written s r)
    | .record_success r => r.get_state = .ok ∧ Written s r
    | .record_failure _ r => r.incr_failures = .ok ∧
      (s.breaker.failure_threshold ≤ value s.keys.failures 0 + 1 → Written s r)
    | .is_open r => r.get_state = .ok
    | _ => True

theorem map_answers {α β : Type} (x : Except Raised α) (f : α → β) :
    (∃ b, x.map f = .ok b) ↔ ∃ a, x = .ok a := by
  cases x with
  | error e => simp [Except.map]
  | ok a => simp [Except.map]

theorem set_state_answers (s : Shared) (r : Replies) (hredis : s.breaker.redis_backed = true) :
    (∃ a, set_state_raises s r.set_state = .ok a) ↔ Written s r := by
  unfold set_state_raises Written
  by_cases h : r.set_state = .ok ∧ 0 < s.breaker.ttl
  · simp [hredis, h]
  · have h' : ¬ (decide (r.set_state = .ok) && decide (0 < s.breaker.ttl)) = true := by
      simpa using h
    simp [hredis, h, h']

theorem state_unanswered (s : Shared) (get : Reply) (hredis : s.breaker.redis_backed = true)
    (hget : get ≠ .ok) : state s get = .error .KeyError := by
  rw [state, if_pos hredis, if_neg hget]

theorem can_execute_answers (s : Shared) (now : ℚ) (r : Replies)
    (hredis : s.breaker.redis_backed = true) :
    (∃ a, (can_execute s now r).2 = .ok a) ↔
      r.get_state = .ok ∧ (value s.keys.state .CLOSED = .OPEN ∧
        s.breaker.recovery_timeout ≤ now - last_failure_time s r.get_last_failure_ts →
          Written s r) := by
  unfold can_execute
  by_cases hget : r.get_state = .ok
  · rw [hget, state_redis s hredis]
    cases hstate : value s.keys.state .CLOSED with
    | CLOSED => simp
    | HALF_OPEN => simp
    | OPEN =>
      by_cases htime : s.breaker.recovery_timeout ≤
          now - last_failure_time s r.get_last_failure_ts
      · simp only [htime, if_true, map_answers, set_state_answers s r hredis]
        simp
      · simp [htime]
  · rw [state_unanswered s _ hredis hget]
    simp [hget]

theorem record_success_answers (s : Shared) (r : Replies)
    (hredis : s.breaker.redis_backed = true) :
    (∃ a, (record_success s r).2 = .ok a) ↔ r.get_state = .ok ∧ Written s r := by
  unfold record_success
  by_cases hget : r.get_state = .ok
  · rw [hget, state_redis s hredis]
    simp only [set_state_answers s r hredis, true_and]
  · rw [state_unanswered s _ hredis hget]
    simp [hget]

theorem record_failure_answers (s : Shared) (now : ℚ) (r : Replies)
    (hredis : s.breaker.redis_backed = true) :
    (∃ a, (record_failure s now r).2 = .ok a) ↔
      r.incr_failures = .ok ∧
        (s.breaker.failure_threshold ≤ value s.keys.failures 0 + 1 → Written s r) := by
  have hstamped : (set_last_failure_time s now r.set_last_failure_ts).breaker.redis_backed = true :=
    hredis
  unfold record_failure incr_failures
  rw [if_pos hstamped]
  by_cases hincr : r.incr_failures = .ok
  · by_cases hcount : s.breaker.failure_threshold ≤ value s.keys.failures 0 + 1
    · simp only [hincr, if_true, set_last_failure_time, hcount, set_state_answers s r hredis]
      simp
    · simp [hincr, set_last_failure_time, hcount]
  · simp [hincr]

theorem is_open_answers (s : Shared) (r : Replies) (hredis : s.breaker.redis_backed = true) :
    (∃ a, is_open s r = .ok a) ↔ r.get_state = .ok := by
  rw [is_open, map_answers]
  by_cases hget : r.get_state = .ok
  · simp [hget, state_redis s hredis]
  · simp [hget, state_unanswered s _ hredis hget]

/-- Over Redis a call raises unless what it logs is answered. -/
theorem answers_iff (s : Shared) (l : Label) (hredis : s.breaker.redis_backed = true) :
    (∃ a, answer s l = .ok a) ↔ LoggedAnswered s l := by
  cases l with
  | can_execute now r =>
    simp only [answer, map_answers, LoggedAnswered, hredis, true_imp_iff]
    exact can_execute_answers s now r hredis
  | record_success r =>
    simp only [answer, map_answers, LoggedAnswered, hredis, true_imp_iff]
    exact record_success_answers s r hredis
  | record_failure now r =>
    simp only [answer, map_answers, LoggedAnswered, hredis, true_imp_iff]
    exact record_failure_answers s now r hredis
  | is_open r =>
    simp only [answer, map_answers, LoggedAnswered, hredis, true_imp_iff]
    exact is_open_answers s r hredis
  | elapse d => simp [answer, LoggedAnswered]
  | elsewhere keys => simp [answer, LoggedAnswered]

/-- Every call sends a command whose failure it logs. -/
theorem not_down (s : Shared) (l : Label) (hredis : s.breaker.redis_backed = true)
    (hl : LoggedAnswered s l) : ¬ Down l := by
  have hl' := hl hredis
  cases l with
  | can_execute now r => exact fun hdown => hdown.1 hl'.1
  | record_success r => exact fun hdown => hdown.1 hl'.1
  | record_failure now r => exact fun hdown => hdown.2.2.2.1 hl'.1
  | is_open r => exact fun hdown => hdown.1 hl'
  | elapse d => exact id
  | elsewhere keys => exact id

theorem in_memory_self (s : Shared) (hlocal : s.breaker.redis_backed = false) :
    in_memory s = s := by
  unfold in_memory
  rw [← hlocal]

/-- In memory nothing is sent, so nothing raises. -/
theorem answers_in_memory (s : Shared) (l : Label) (hlocal : s.breaker.redis_backed = false) :
    ∃ a, answer s l = .ok a := by
  have hstate : ∀ get, state s get = .ok s.breaker.mem_state := by
    intro get
    rw [state, if_neg (by simp [hlocal])]
  have hset : ∀ set, set_state_raises s set = .ok () := by
    intro set
    rw [set_state_raises, if_neg (by simp [hlocal])]
  cases l with
  | can_execute now r =>
    rw [answer, map_answers, can_execute, hstate, hset]
    cases s.breaker.mem_state with
    | CLOSED => exact ⟨true, rfl⟩
    | HALF_OPEN => exact ⟨true, rfl⟩
    | OPEN =>
      dsimp only
      split
      · exact ⟨true, rfl⟩
      · exact ⟨false, rfl⟩
  | record_success r =>
    rw [answer, map_answers, record_success, hstate, hset]
    exact ⟨(), rfl⟩
  | record_failure now r =>
    have hstamped : ¬ (set_last_failure_time s now r.set_last_failure_ts).breaker.redis_backed =
        true := by
      rw [show (set_last_failure_time s now r.set_last_failure_ts).breaker.redis_backed = false
        from hlocal]
      decide
    rw [answer, map_answers, record_failure, incr_failures, if_neg hstamped]
    dsimp only
    split
    · exact ⟨(), hset _⟩
    · exact ⟨(), rfl⟩
  | is_open r =>
    rw [answer, map_answers, is_open, hstate]
    exact ⟨_, rfl⟩
  | elapse d => exact ⟨none, rfl⟩
  | elsewhere keys => exact ⟨none, rfl⟩

theorem fails_open_step (s : Shared) (l : Label) : FailsOpen s l ↔ LoggedAnswered s l := by
  cases hredis : s.breaker.redis_backed with
  | true =>
    constructor
    · exact fun h => (answers_iff s l hredis).mp h.answers
    · intro h
      exact ⟨(answers_iff s l hredis).mpr h, fun hdown => absurd hdown (not_down s l hredis h)⟩
  | false =>
    have hquiet : LoggedAnswered s l := fun h => absurd (hredis.symm.trans h) (by decide)
    apply iff_of_true _ hquiet
    constructor
    · exact answers_in_memory s l hredis
    · intro _
      rw [in_memory_self s hredis]
      constructor
      · rfl
      · intro t u ht hu
        rw [ht, Option.some.injEq] at hu
        rw [in_memory_self t ((step_redis_backed s l t ht).trans hredis), hu]

/-- Calls fail open, whatever fails in Redis, exactly while every command whose
failure is logged is answered. -/
theorem fails_open_iff (failure_threshold : Int) (recovery_timeout : ℚ) (redis_backed : Bool)
    (ls : List Label) :
    Along step FailsOpen (start failure_threshold recovery_timeout redis_backed) ls ↔
      Along step LoggedAnswered (start failure_threshold recovery_timeout redis_backed) ls := by
  constructor
  · exact fun h => h.mono (fun s l => (fails_open_step s l).mp)
  · exact fun h => h.mono (fun s l => (fails_open_step s l).mpr)

def down : Replies := ⟨.failed, .failed, .failed, .failed, .failed, .failed⟩

/-- With Redis down the first call of a new breaker raises. -/
theorem outage_raises : ¬ Along step FailsOpen (start 5 30 true) [.can_execute 0 down] := by
  intro h
  obtain ⟨a, ha⟩ := h.1.answers
  cases ha

end AigentSquad.BreakerOverRedis
