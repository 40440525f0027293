import Mathlib.Algebra.Order.Field.Rat
import Mathlib.Data.NNRat.Defs
import Mathlib.Data.Rat.Cast.Order
import AigentSquad.RemoteStore
import AigentSquad.Transition

/-!
# The circuit breaker

`CircuitBreaker` in memory or over Redis. A Redis command may fail, and the keys
expire or are written elsewhere. Where the failure of a command is logged the
call raises: the warning's `extra` has a key `name`, and so has every log record.
Calls on one breaker do not interrupt each other.
-/

set_option autoImplicit false

namespace AigentSquad.CircuitBreaker
open AigentSquad.RemoteStore AigentSquad.Transition

inductive CircuitState where
  | CLOSED
  | OPEN
  | HALF_OPEN
deriving DecidableEq, Repr

/-- `logging` refuses an `extra` that would overwrite a key of the record. -/
inductive Raised where
  | KeyError
deriving DecidableEq, Repr

structure Breaker where
  failure_threshold : Int
  recovery_timeout : ℚ
  redis_backed : Bool
  mem_state : CircuitState := .CLOSED
  mem_failure_count : Int := 0
  mem_last_failure_time : ℚ := 0

/-- `int(recovery_timeout * 2)` -/
def Breaker.ttl (b : Breaker) : Int :=
  (b.recovery_timeout * 2).num.tdiv (b.recovery_timeout * 2).den

structure Entry (V : Type) where
  value : V
  expires : ℚ
deriving DecidableEq

/-- `cb:{name}:state`, `cb:{name}:failures` and `cb:{name}:last_failure_ts` -/
structure Keys where
  state : Option (Entry CircuitState)
  failures : Option (Entry Int)
  last_failure_ts : Option (Entry ℚ)
deriving DecidableEq

structure Shared where
  breaker : Breaker
  keys : Keys
  /-- the time by which Redis expires keys -/
  clock : ℚ

/-- The fate of each command a call may send. -/
structure Replies where
  get_state : Reply
  get_last_failure_ts : Reply
  set_state : Reply
  incr_failures : Reply
  set_last_failure_ts : Reply
  reset_failures : Reply
deriving DecidableEq

def up : Replies := ⟨.ok, .ok, .ok, .ok, .ok, .ok⟩

def value {V : Type} (key : Option (Entry V)) (missing : V) : V :=
  (key.map Entry.value).getD missing

/-- What a key holds after `SETEX`, which takes no time to live below one second. -/
def setex {V : Type} (s : Shared) (reply : Reply) (old : Option (Entry V)) (v : V) :
    Option (Entry V) :=
  if s.breaker.redis_backed && reply.applied && decide (0 < s.breaker.ttl) then
    some ⟨v, s.clock + s.breaker.ttl⟩
  else old

def state (s : Shared) (get : Reply) : Except Raised CircuitState :=
  if s.breaker.redis_backed then
    if get = .ok then .ok (value s.keys.state .CLOSED) else .error .KeyError
  else .ok s.breaker.mem_state

/-- Read from Redis, silently from memory without an answer. -/
def last_failure_time (s : Shared) (get : Reply) : ℚ :=
  if s.breaker.redis_backed && decide (get = .ok) then value s.keys.last_failure_ts 0
  else s.breaker.mem_last_failure_time

def set_state (s : Shared) (value : CircuitState) (set : Reply) : Shared where
  breaker := { s.breaker with mem_state := value }
  keys := { s.keys with state := setex s set s.keys.state value }
  clock := s.clock

/-- Whether the write of the state is logged as failed. -/
def set_state_raises (s : Shared) (set : Reply) : Except Raised Unit :=
  if s.breaker.redis_backed && !(decide (set = .ok) && decide (0 < s.breaker.ttl)) then
    .error .KeyError
  else .ok ()

def set_last_failure_time (s : Shared) (value : ℚ) (set : Reply) : Shared where
  breaker := { s.breaker with mem_last_failure_time := value }
  keys := { s.keys with last_failure_ts := setex s set s.keys.last_failure_ts value }
  clock := s.clock

def reset_failures (s : Shared) (del : Reply) : Shared where
  breaker := { s.breaker with mem_failure_count := 0 }
  keys :=
    { s.keys with
      failures := if s.breaker.redis_backed && del.applied then none else s.keys.failures }
  clock := s.clock

/-- `INCR` and `EXPIRE`, which deletes the key for a time to live below one second. -/
def incremented (s : Shared) (incr : Reply) : Option (Entry Int) :=
  if !incr.applied then s.keys.failures
  else if 0 < s.breaker.ttl then
    some ⟨value s.keys.failures 0 + 1, s.clock + s.breaker.ttl⟩
  else none

/-- The new count, taken in memory where there is no Redis. -/
def incr_failures (s : Shared) (incr : Reply) : Shared × Except Raised Int :=
  if s.breaker.redis_backed then
    ({ s with keys := { s.keys with failures := incremented s incr } },
      if incr = .ok then .ok (value s.keys.failures 0 + 1) else .error .KeyError)
  else
    ({ s with breaker := { s.breaker with mem_failure_count := s.breaker.mem_failure_count + 1 } },
      .ok (s.breaker.mem_failure_count + 1))

def can_execute (s : Shared) (now : ℚ) (r : Replies) : Shared × Except Raised Bool :=
  match state s r.get_state with
  | .error e => (s, .error e)
  | .ok .CLOSED => (s, .ok true)
  | .ok .OPEN =>
    if s.breaker.recovery_timeout ≤ now - last_failure_time s r.get_last_failure_ts then
      (set_state s .HALF_OPEN r.set_state, (set_state_raises s r.set_state).map (fun _ => true))
    else (s, .ok false)
  | .ok .HALF_OPEN => (s, .ok true)

def record_success (s : Shared) (r : Replies) : Shared × Except Raised Unit :=
  match state s r.get_state with
  | .error e => (s, .error e)
  | .ok _ =>
    (set_state (reset_failures s r.reset_failures) .CLOSED r.set_state,
      set_state_raises s r.set_state)

def record_failure (s : Shared) (now : ℚ) (r : Replies) : Shared × Except Raised Unit :=
  let counted := incr_failures (set_last_failure_time s now r.set_last_failure_ts) r.incr_failures
  match counted.2 with
  | .error e => (counted.1, .error e)
  | .ok new_count =>
    if s.breaker.failure_threshold ≤ new_count then
      (set_state counted.1 .OPEN r.set_state, set_state_raises s r.set_state)
    else (counted.1, .ok ())

def is_open (s : Shared) (r : Replies) : Except Raised Bool :=
  (state s r.get_state).map (fun current => decide (current = .OPEN))

/-- What is left of a key when the clock reads `clock`. -/
def unexpired {V : Type} (clock : ℚ) (key : Option (Entry V)) : Option (Entry V) :=
  key.filter (fun e => clock ≤ e.expires)

def elapse (s : Shared) (d : ℚ≥0) : Shared where
  breaker := s.breaker
  keys :=
    { state := unexpired (s.clock + d) s.keys.state
      failures := unexpired (s.clock + d) s.keys.failures
      last_failure_ts := unexpired (s.clock + d) s.keys.last_failure_ts }
  clock := s.clock + d

inductive Label where
  | can_execute (now : ℚ) (r : Replies)
  | record_success (r : Replies)
  | record_failure (now : ℚ) (r : Replies)
  | is_open (r : Replies)
  | elapse (d : ℚ≥0)
  /-- keys that another replica wrote or removed -/
  | elsewhere (keys : Keys)

def step (s : Shared) : Label → Option Shared
  | .can_execute now r => some (can_execute s now r).1
  | .record_success r => some (record_success s r).1
  | .record_failure now r => some (record_failure s now r).1
  | .is_open _ => some s
  | .elapse d => some (elapse s d)
  | .elsewhere keys => if s.breaker.redis_backed then some { s with keys := keys } else none

/-- A breaker as it is built. -/
def start (failure_threshold : Int) (recovery_timeout : ℚ) (redis_backed : Bool) : Shared where
  breaker :=
    { failure_threshold := failure_threshold
      recovery_timeout := recovery_timeout
      redis_backed := redis_backed }
  keys := ⟨none, none, none⟩
  clock := 0

/-- The commands of a call get through. -/
def Heard (s : Shared) (r : Replies) : Prop := r = up ∧ 0 < s.breaker.ttl

instance (s : Shared) (r : Replies) : Decidable (Heard s r) := instDecidableAnd

/-- Over Redis: the commands get through, no key expires and nothing else
touches the keys. -/
def Alone (s : Shared) (l : Label) : Prop :=
  s.breaker.redis_backed = true →
    match l with
    | .can_execute _ r => Heard s r
    | .record_success r => Heard s r
    | .record_failure _ r => Heard s r
    | .is_open _ => True
    | .elapse d => (elapse s d).keys = s.keys
    | .elsewhere _ => False

instance (s : Shared) (l : Label) : Decidable (Alone s l) := by
  unfold Alone
  cases l <;> infer_instance

/-- The failures counted so far, where they are counted. -/
def failures (s : Shared) : Int :=
  if s.breaker.redis_backed then value s.keys.failures 0 else s.breaker.mem_failure_count

/-- Redis and memory tell the same, and a breaker that is not closed has
reached its threshold. -/
structure Synced (s : Shared) : Prop where
  state : s.breaker.redis_backed = true → value s.keys.state .CLOSED = s.breaker.mem_state
  last_failure_ts : s.breaker.redis_backed = true →
    value s.keys.last_failure_ts 0 = s.breaker.mem_last_failure_time
  tripped : s.breaker.mem_state ≠ .CLOSED → s.breaker.failure_threshold ≤ failures s

theorem start_synced (failure_threshold : Int) (recovery_timeout : ℚ) (redis_backed : Bool) :
    Synced (start failure_threshold recovery_timeout redis_backed) := by
  constructor
  · exact fun _ => rfl
  · exact fun _ => rfl
  · exact fun h => absurd rfl h

theorem setex_heard {V : Type} (s : Shared) (reply : Reply) (old : Option (Entry V)) (v missing : V)
    (hredis : s.breaker.redis_backed = true) (hreply : reply = .ok) (httl : 0 < s.breaker.ttl) :
    value (setex s reply old v) missing = v := by
  simp [setex, hredis, hreply, Reply.applied, httl, value]

/-- What is read is what memory has. -/
theorem state_eq (s : Shared) (hs : Synced s) (r : Replies)
    (hr : s.breaker.redis_backed = true → Heard s r) :
    state s r.get_state = .ok s.breaker.mem_state := by
  unfold state
  split
  · next hredis =>
    rw [if_pos (by rw [(hr hredis).1]; rfl), hs.state hredis]
  · rfl

theorem last_failure_time_eq (s : Shared) (hs : Synced s) (get : Reply) :
    last_failure_time s get = s.breaker.mem_last_failure_time := by
  unfold last_failure_time
  split
  · next h => exact hs.last_failure_ts (Bool.and_eq_true _ _ ▸ h).1
  · rfl

theorem set_state_answered (s : Shared) (r : Replies)
    (hr : s.breaker.redis_backed = true → Heard s r) :
    set_state_raises s r.set_state = .ok () := by
  unfold set_state_raises
  cases hredis : s.breaker.redis_backed with
  | false => rfl
  | true => simp [(hr hredis).1, (hr hredis).2, up]

theorem can_execute_cases (s : Shared) (hs : Synced s) (now : ℚ) (r : Replies)
    (hr : s.breaker.redis_backed = true → Heard s r) :
    (s.breaker.mem_state ≠ .OPEN ∧ can_execute s now r = (s, .ok true)) ∨
    (s.breaker.mem_state = .OPEN ∧
      s.breaker.recovery_timeout ≤ now - s.breaker.mem_last_failure_time ∧
      can_execute s now r = (set_state s .HALF_OPEN r.set_state, .ok true)) ∨
    (s.breaker.mem_state = .OPEN ∧
      ¬ s.breaker.recovery_timeout ≤ now - s.breaker.mem_last_failure_time ∧
      can_execute s now r = (s, .ok false)) := by
  unfold can_execute
  rw [state_eq s hs r hr, last_failure_time_eq s hs, set_state_answered s r hr]
  cases hstate : s.breaker.mem_state with
  | CLOSED => exact .inl ⟨by decide, rfl⟩
  | HALF_OPEN => exact .inl ⟨by decide, rfl⟩
  | OPEN =>
    by_cases htime : s.breaker.recovery_timeout ≤ now - s.breaker.mem_last_failure_time
    · exact .inr (.inl ⟨rfl, htime, if_pos htime⟩)
    · exact .inr (.inr ⟨rfl, htime, if_neg htime⟩)

theorem set_state_synced (s : Shared) (hs : Synced s) (value : CircuitState) (r : Replies)
    (hr : s.breaker.redis_backed = true → Heard s r)
    (htrip : value ≠ .CLOSED → s.breaker.failure_threshold ≤ failures s) :
    Synced (set_state s value r.set_state) := by
  constructor
  · intro hredis
    obtain ⟨hup, httl⟩ := hr hredis
    exact setex_heard s _ _ _ _ hredis (by rw [hup]; rfl) httl
  · exact hs.last_failure_ts
  · exact htrip

theorem set_last_failure_time_synced (s : Shared) (hs : Synced s) (now : ℚ) (r : Replies)
    (hr : s.breaker.redis_backed = true → Heard s r) :
    Synced (set_last_failure_time s now r.set_last_failure_ts) := by
  constructor
  · exact hs.state
  · intro hredis
    obtain ⟨hup, httl⟩ := hr hredis
    exact setex_heard s _ _ _ _ hredis (by rw [hup]; rfl) httl
  · exact hs.tripped

/-- The counter and the answer move together, nothing else moves. -/
theorem incr_failures_counts (s : Shared) (r : Replies)
    (hr : s.breaker.redis_backed = true → Heard s r) :
    (incr_failures s r.incr_failures).2 = .ok (failures s + 1) ∧
    failures (incr_failures s r.incr_failures).1 = failures s + 1 := by
  unfold incr_failures failures
  cases hredis : s.breaker.redis_backed with
  | false => simp [hredis]
  | true =>
    obtain ⟨hup, httl⟩ := hr hredis
    simp [hredis, hup, httl, up, incremented, Reply.applied, value]

theorem incr_failures_breaker (s : Shared) (incr : Reply) :
    (incr_failures s incr).1.breaker =
      { s.breaker with
        mem_failure_count := (incr_failures s incr).1.breaker.mem_failure_count } := by
  unfold incr_failures
  split <;> rfl

theorem incr_failures_keys (s : Shared) (incr : Reply) :
    (incr_failures s incr).1.keys =
      { s.keys with failures := (incr_failures s incr).1.keys.failures } := by
  unfold incr_failures
  split <;> rfl

theorem incr_failures_synced (s : Shared) (hs : Synced s) (r : Replies)
    (hr : s.breaker.redis_backed = true → Heard s r) :
    Synced (incr_failures s r.incr_failures).1 := by
  constructor
  · rw [incr_failures_breaker, incr_failures_keys]
    exact hs.state
  · rw [incr_failures_breaker, incr_failures_keys]
    exact hs.last_failure_ts
  · rw [(incr_failures_counts s r hr).2, incr_failures_breaker]
    intro h
    exact Int.le_add_one (hs.tripped h)

theorem record_success_eq (s : Shared) (hs : Synced s) (r : Replies)
    (hr : s.breaker.redis_backed = true → Heard s r) :
    record_success s r =
      (set_state (reset_failures s r.reset_failures) .CLOSED r.set_state, .ok ()) := by
  unfold record_success
  rw [state_eq s hs r hr, set_state_answered s r hr]

theorem record_success_closes (s : Shared) (hs : Synced s) (r : Replies)
    (hr : s.breaker.redis_backed = true → Heard s r) :
    (record_success s r).1.breaker.mem_state = .CLOSED := by
  rw [record_success_eq s hs r hr]
  rfl

theorem record_success_synced (s : Shared) (hs : Synced s) (r : Replies)
    (hr : s.breaker.redis_backed = true → Heard s r) : Synced (record_success s r).1 := by
  rw [record_success_eq s hs r hr]
  constructor
  · intro hredis
    obtain ⟨hup, httl⟩ := hr hredis
    exact setex_heard _ _ _ _ _ hredis (by rw [hup]; rfl) httl
  · exact hs.last_failure_ts
  · exact fun h => absurd rfl h

/-- The stamped breaker, still in step with Redis, counts one failure more. -/
theorem record_failure_eq (s : Shared) (now : ℚ) (r : Replies)
    (hr : s.breaker.redis_backed = true → Heard s r) :
    record_failure s now r =
      (let t := (incr_failures (set_last_failure_time s now r.set_last_failure_ts)
          r.incr_failures).1
        if s.breaker.failure_threshold ≤ failures s + 1 then set_state t .OPEN r.set_state else t,
        .ok ()) := by
  have hcount := (incr_failures_counts (set_last_failure_time s now r.set_last_failure_ts) r hr).1
  change _ = Except.ok (failures s + 1) at hcount
  unfold record_failure
  dsimp only
  rw [hcount]
  dsimp only
  split
  · rw [set_state_answered s r hr]
  · rfl

theorem record_failure_breaker (s : Shared) (now : ℚ) (r : Replies)
    (hr : s.breaker.redis_backed = true → Heard s r) :
    (record_failure s now r).1.breaker =
      { s.breaker with
        mem_state :=
          if s.breaker.failure_threshold ≤ failures s + 1 then .OPEN else s.breaker.mem_state
        mem_failure_count := (record_failure s now r).1.breaker.mem_failure_count
        mem_last_failure_time := now } := by
  have hbreaker := incr_failures_breaker (set_last_failure_time s now r.set_last_failure_ts)
    r.incr_failures
  rw [record_failure_eq s now r hr]
  by_cases htrip : s.breaker.failure_threshold ≤ failures s + 1
  · simp only [htrip, if_true, set_state]
    rw [hbreaker]
    rfl
  · simp only [htrip, if_false]
    rw [hbreaker]
    rfl

theorem record_failure_in_memory (s : Shared) (now : ℚ) (r : Replies)
    (hlocal : s.breaker.redis_backed = false) :
    (record_failure s now r).1.breaker.mem_failure_count = s.breaker.mem_failure_count + 1 := by
  have hr : s.breaker.redis_backed = true → Heard s r :=
    fun hredis => absurd (hlocal.symm.trans hredis) (by decide)
  have hstamped : ¬ (set_last_failure_time s now r.set_last_failure_ts).breaker.redis_backed =
      true := by
    rw [show (set_last_failure_time s now r.set_last_failure_ts).breaker.redis_backed = false
      from hlocal]
    decide
  rw [record_failure_eq s now r hr, incr_failures, if_neg hstamped]
  dsimp only
  split
  · rfl
  · rfl

theorem record_failure_synced (s : Shared) (hs : Synced s) (now : ℚ) (r : Replies)
    (hr : s.breaker.redis_backed = true → Heard s r) : Synced (record_failure s now r).1 := by
  have hstamped : Synced (set_last_failure_time s now r.set_last_failure_ts) :=
    set_last_failure_time_synced s hs now r hr
  have hcounted := incr_failures_synced _ hstamped r hr
  have hcount := (incr_failures_counts (set_last_failure_time s now r.set_last_failure_ts) r hr).2
  rw [record_failure_eq s now r hr]
  dsimp only
  split
  · next h =>
    apply set_state_synced _ hcounted
    · rw [Heard, incr_failures_breaker]
      exact hr
    · rw [incr_failures_breaker, hcount]
      exact fun _ => h
  · exact hcounted

theorem elapse_synced (s : Shared) (hs : Synced s) (d : ℚ≥0)
    (hd : s.breaker.redis_backed = true → (elapse s d).keys = s.keys) : Synced (elapse s d) := by
  have hfailures : failures (elapse s d) = failures s := by
    unfold failures
    cases hredis : s.breaker.redis_backed with
    | false => rw [show (elapse s d).breaker.redis_backed = false from hredis]; rfl
    | true =>
      rw [show (elapse s d).breaker.redis_backed = true from hredis, hd hredis, if_pos rfl,
        if_pos rfl]
  constructor
  · exact fun hredis => (hd hredis) ▸ hs.state hredis
  · exact fun hredis => (hd hredis) ▸ hs.last_failure_ts hredis
  · rw [hfailures]
    exact hs.tripped

theorem record_failure_redis_backed (s : Shared) (now : ℚ) (r : Replies) :
    (record_failure s now r).1.breaker.redis_backed = s.breaker.redis_backed := by
  have hbreaker := incr_failures_breaker (set_last_failure_time s now r.set_last_failure_ts)
    r.incr_failures
  have hcounted : (incr_failures (set_last_failure_time s now r.set_last_failure_ts)
      r.incr_failures).1.breaker.redis_backed = s.breaker.redis_backed := by
    rw [hbreaker]
    rfl
  unfold record_failure
  dsimp only
  split
  · exact hcounted
  · split
    · exact hcounted
    · exact hcounted

theorem step_redis_backed (s : Shared) (l : Label) (t : Shared) (h : step s l = some t) :
    t.breaker.redis_backed = s.breaker.redis_backed := by
  cases l with
  | can_execute now r =>
    simp only [step, Option.some.injEq] at h
    subst h
    unfold can_execute
    split
    · rfl
    · rfl
    · split <;> rfl
    · rfl
  | record_success r =>
    simp only [step, Option.some.injEq] at h
    subst h
    unfold record_success
    split <;> rfl
  | record_failure now r =>
    simp only [step, Option.some.injEq] at h
    exact h ▸ record_failure_redis_backed s now r
  | is_open r =>
    simp only [step, Option.some.injEq] at h
    exact h ▸ rfl
  | elapse d =>
    simp only [step, Option.some.injEq] at h
    exact h ▸ rfl
  | elsewhere keys =>
    simp only [step] at h
    split at h
    · simp only [Option.some.injEq] at h
      exact h ▸ rfl
    · cases h

end AigentSquad.CircuitBreaker
