import AigentSquad.CircuitBreaker
import Mathlib.Tactic.Linarith

/-!
# One circuit breaker for all replicas

Calls of many replicas' breakers over one Redis. A call sends its commands one by
one, those of other calls may come between any two of them, and every replica
reads its own clock.
-/

set_option autoImplicit false

namespace AigentSquad.SharedBreaker
open AigentSquad.RemoteStore AigentSquad.Transition AigentSquad.CircuitBreaker

inductive Op where
  | can_execute
  | record_success
  | record_failure
deriving DecidableEq

inductive Answer where
  | allowed
  /-- with the reading of the clock it was refused at -/
  | refused (now : ℚ)
  | recorded
  | raised
deriving DecidableEq

/-- Where a call stands: the last command it was answered. -/
inductive Phase where
  | called
  /-- `can_execute` has read `OPEN` -/
  | opened
  /-- and the recovery timeout is over -/
  | waited
  /-- `record_success` has read the state -/
  | resetting
  | closing
  /-- `record_failure` has written the time -/
  | counting
  | tripping
  | returned (answer : Answer)
deriving DecidableEq

def Phase.over : Phase → Bool
  | .returned _ => true
  | _ => false

/-- The answer after a write of the state, whose failure raises. -/
def written (t : Shared) (reply : Reply) (answer : Answer) : Answer :=
  match set_state_raises t reply with
  | .ok _ => answer
  | .error _ => .raised

/-- The first command of a call. -/
def first (t : Shared) (now : ℚ) (reply : Reply) : Op → Shared × Phase
  | .can_execute =>
    match CircuitBreaker.state t reply with
    | .error _ => (t, .returned .raised)
    | .ok .OPEN => (t, .opened)
    | .ok _ => (t, .returned .allowed)
  | .record_success =>
    match CircuitBreaker.state t reply with
    | .error _ => (t, .returned .raised)
    | .ok _ => (t, .resetting)
  | .record_failure => (set_last_failure_time t now reply, .counting)

/-- `INCR` -/
def count (t : Shared) (reply : Reply) : Shared × Phase :=
  let counted := incr_failures t reply
  (counted.1, match counted.2 with
    | .error _ => .returned .raised
    | .ok new_count =>
      if t.breaker.failure_threshold ≤ new_count then .tripping else .returned .recorded)

/-- The next command of a call; `now` is what it reads off the clock. -/
def advance (t : Shared) (now : ℚ) (reply : Reply) (op : Op) : Phase → Option (Shared × Phase)
  | .called => some (first t now reply op)
  | .opened =>
    some (t, if t.breaker.recovery_timeout ≤ now - last_failure_time t reply then .waited
      else .returned (.refused now))
  | .waited => some (set_state t .HALF_OPEN reply, .returned (written t reply .allowed))
  | .resetting => some (reset_failures t reply, .closing)
  | .closing => some (set_state t .CLOSED reply, .returned (written t reply .recorded))
  | .counting => some (count t reply)
  | .tripping => some (set_state t .OPEN reply, .returned (written t reply .recorded))
  | .returned _ => none

/-! ## Calls that nothing interrupts -/

/-- The commands of a call in a row, as far as there are replies for them. -/
def commands (now : ℚ) (op : Op) : Shared × Phase → List Reply → Shared × Phase
  | c, [] => c
  | c, reply :: replies =>
    match advance c.1 now reply op c.2 with
    | none => c
    | some next => commands now op next replies

def answered (now : ℚ) : Except Raised Bool → Answer
  | .ok true => .allowed
  | .ok false => .refused now
  | .error _ => .raised

def acknowledged : Except Raised Unit → Answer
  | .ok _ => .recorded
  | .error _ => .raised

theorem written_map (t : Shared) (now : ℚ) (reply : Reply) :
    written t reply .allowed = answered now ((set_state_raises t reply).map (fun _ => true)) := by
  unfold written
  cases set_state_raises t reply <;> rfl

theorem written_recorded (t : Shared) (reply : Reply) :
    written t reply .recorded = acknowledged (set_state_raises t reply) := by
  unfold written
  cases set_state_raises t reply <;> rfl

theorem can_execute_commands (t : Shared) (now : ℚ) (r : Replies) :
    commands now .can_execute (t, .called) [r.get_state, r.get_last_failure_ts, r.set_state] =
      ((can_execute t now r).1, .returned (answered now (can_execute t now r).2)) := by
  unfold can_execute
  cases hstate : CircuitBreaker.state t r.get_state with
  | error e => simp [commands, advance, first, hstate, answered]
  | ok current =>
    cases current with
    | CLOSED => simp [commands, advance, first, hstate, answered]
    | HALF_OPEN => simp [commands, advance, first, hstate, answered]
    | OPEN =>
      by_cases hwaited :
          t.breaker.recovery_timeout ≤ now - last_failure_time t r.get_last_failure_ts
      · simp [commands, advance, first, hstate, hwaited, written_map t now]
      · simp [commands, advance, first, hstate, hwaited, answered]

theorem record_success_commands (t : Shared) (now : ℚ) (r : Replies) :
    commands now .record_success (t, .called) [r.get_state, r.reset_failures, r.set_state] =
      ((record_success t r).1, .returned (acknowledged (record_success t r).2)) := by
  unfold record_success
  cases hstate : CircuitBreaker.state t r.get_state with
  | error e => simp [commands, advance, first, hstate, acknowledged]
  | ok current =>
    have hraises : set_state_raises (reset_failures t r.reset_failures) r.set_state =
        set_state_raises t r.set_state := rfl
    simp [commands, advance, first, hstate, written_recorded, hraises]

/-- Counting leaves what the answer to a write depends on. -/
theorem count_raises (t : Shared) (incr set : Reply) :
    set_state_raises (incr_failures t incr).1 set = set_state_raises t set := by
  unfold set_state_raises Breaker.ttl
  rw [incr_failures_breaker]

theorem record_failure_commands (t : Shared) (now : ℚ) (r : Replies) :
    commands now .record_failure (t, .called)
        [r.set_last_failure_ts, r.incr_failures, r.set_state] =
      ((record_failure t now r).1, .returned (acknowledged (record_failure t now r).2)) := by
  have hraises := count_raises (set_last_failure_time t now r.set_last_failure_ts)
    r.incr_failures r.set_state
  unfold record_failure
  simp only [commands, advance, first, count]
  cases (incr_failures (set_last_failure_time t now r.set_last_failure_ts) r.incr_failures).2 with
  | error e => rfl
  | ok new_count =>
    by_cases htrip : t.breaker.failure_threshold ≤ new_count
    · have htrip' : (set_last_failure_time t now r.set_last_failure_ts).breaker.failure_threshold ≤
          new_count := htrip
      simp only [if_pos htrip, if_pos htrip', written_recorded, hraises]
      rfl
    · have htrip' : ¬ (set_last_failure_time t now
          r.set_last_failure_ts).breaker.failure_threshold ≤ new_count := htrip
      simp only [if_neg htrip, if_neg htrip']
      rfl

/-! ## Runs -/

structure Call (R : Type) where
  replica : R
  op : Op
  phase : Phase
  /-- whether as many failures as the threshold had been recorded before the call -/
  late : Bool

structure State (R : Type) where
  replicas : R → Breaker
  keys : Keys
  /-- the time by which Redis expires keys -/
  clock : ℚ
  calls : ℕ → Option (Call R)
  /-- what the calls of `record_failure` read off their clocks -/
  failed : List ℚ
  /-- the failures counted -/
  counted : ℕ
  /-- the calls of `record_failure` that have returned -/
  recorded : ℕ

inductive Label (R : Type) where
  | call (id : ℕ) (replica : R) (op : Op)
  | command (id : ℕ) (now : ℚ) (reply : Reply)
  | elapse (d : ℚ≥0)

section Machine
variable {R : Type}

/-- Replicas that all start from one breaker. -/
def start (s : Shared) : State R where
  replicas := fun _ => s.breaker
  keys := s.keys
  clock := s.clock
  calls := fun _ => none
  failed := []
  counted := 0
  recorded := 0

/-- The breaker as a replica sees it. -/
def State.seen (s : State R) (replica : R) : Shared := ⟨s.replicas replica, s.keys, s.clock⟩

variable [DecidableEq R]

def State.commanded (s : State R) (id : ℕ) (c : Call R) (now : ℚ) (next : Shared × Phase) :
    State R where
  replicas := Function.update s.replicas c.replica next.1.breaker
  keys := next.1.keys
  clock := s.clock
  calls := Function.update s.calls id (some { c with phase := next.2 })
  failed := if c.op = .record_failure ∧ c.phase = .called then now :: s.failed else s.failed
  counted := if c.phase = .counting then s.counted + 1 else s.counted
  recorded :=
    if c.op = .record_failure ∧ next.2.over = true then s.recorded + 1 else s.recorded

def step (s : State R) : Label R → Option (State R)
  | .call id replica op =>
    match s.calls id with
    | some _ => none
    | none => some { s with
        calls := Function.update s.calls id (some
          { replica := replica
            op := op
            phase := .called
            late := decide ((s.replicas replica).failure_threshold ≤ s.recorded) }) }
  | .command id now reply =>
    match s.calls id with
    | none => none
    | some c =>
      (advance (s.seen c.replica) now reply c.op c.phase).map (s.commanded id c now)
  | .elapse d =>
    some { s with
      keys :=
        { state := unexpired (s.clock + d) s.keys.state
          failures := unexpired (s.clock + d) s.keys.failures
          last_failure_ts := unexpired (s.clock + d) s.keys.last_failure_ts }
      clock := s.clock + d }

/-- One case per label. -/
inductive Moved (s : State R) : Label R → State R → Prop
  | call (id : ℕ) (replica : R) (op : Op) (h : s.calls id = none) :
      Moved s (.call id replica op) { s with
        calls := Function.update s.calls id (some
          { replica := replica
            op := op
            phase := .called
            late := decide ((s.replicas replica).failure_threshold ≤ s.recorded) }) }
  | command (id : ℕ) (now : ℚ) (reply : Reply) (c : Call R) (next : Shared × Phase)
      (h : s.calls id = some c)
      (hnext : advance (s.seen c.replica) now reply c.op c.phase = some next) :
      Moved s (.command id now reply) (s.commanded id c now next)
  | elapse (d : ℚ≥0) :
      Moved s (.elapse d) { s with
        keys :=
          { state := unexpired (s.clock + d) s.keys.state
            failures := unexpired (s.clock + d) s.keys.failures
            last_failure_ts := unexpired (s.clock + d) s.keys.last_failure_ts }
        clock := s.clock + d }

theorem moved_of_step (s t : State R) (l : Label R) (h : step s l = some t) : Moved s l t := by
  cases l with
  | call id replica op =>
    simp only [step] at h
    split at h
    · cases h
    · next hfree =>
      cases h
      exact .call id replica op hfree
  | command id now reply =>
    simp only [step] at h
    split at h
    · cases h
    · next c hc =>
      obtain ⟨next, hnext, rfl⟩ := Option.map_eq_some_iff.mp h
      exact .command id now reply c next hc hnext
  | elapse d =>
    cases h
    exact .elapse d

end Machine

/-! ## Recovery -/

section Recovery

theorem incr_failures_config (t : Shared) (reply : Reply) :
    (incr_failures t reply).1.breaker.recovery_timeout = t.breaker.recovery_timeout ∧
      (incr_failures t reply).1.breaker.mem_last_failure_time = t.breaker.mem_last_failure_time ∧
      (incr_failures t reply).1.keys.last_failure_ts = t.keys.last_failure_ts := by
  rw [incr_failures_breaker, incr_failures_keys]
  exact ⟨rfl, rfl, rfl⟩

/-- The last failure's time is written by `record_failure` alone. -/
theorem advance_last_failure (t : Shared) (now : ℚ) (reply : Reply) (op : Op) (phase : Phase)
    (next : Shared × Phase) (h : advance t now reply op phase = some next) :
    next.1.breaker.recovery_timeout = t.breaker.recovery_timeout ∧
      ((next.1.breaker.mem_last_failure_time = t.breaker.mem_last_failure_time ∧
          next.1.keys.last_failure_ts = t.keys.last_failure_ts) ∨
        (op = .record_failure ∧ phase = .called ∧
          next.1 = set_last_failure_time t now reply)) := by
  cases phase with
  | called =>
    cases h
    cases op with
    | can_execute =>
      unfold first
      dsimp only
      split <;> exact ⟨rfl, .inl ⟨rfl, rfl⟩⟩
    | record_success =>
      unfold first
      dsimp only
      split <;> exact ⟨rfl, .inl ⟨rfl, rfl⟩⟩
    | record_failure => exact ⟨rfl, .inr ⟨rfl, rfl, rfl⟩⟩
  | counting =>
    cases h
    obtain ⟨htimeout, hmem, hkey⟩ := incr_failures_config t reply
    exact ⟨htimeout, .inl ⟨hmem, hkey⟩⟩
  | returned answer => cases h
  | _ =>
    cases h
    exact ⟨rfl, .inl ⟨rfl, rfl⟩⟩

/-- A call is refused at its second command, for the time it reads there. -/
theorem advance_refused (t : Shared) (now before : ℚ) (reply : Reply) (op : Op) (phase : Phase)
    (next : Shared × Phase) (h : advance t now reply op phase = some next)
    (hrefused : next.2 = .returned (.refused before)) :
    before = now ∧ now - last_failure_time t reply < t.breaker.recovery_timeout := by
  have hwritten : ∀ answer : Answer, (∀ time, answer ≠ .refused time) →
      ∀ time, written t reply answer ≠ .refused time := by
    intro answer hanswer time
    unfold written
    split
    · exact hanswer time
    · exact nofun
  cases phase with
  | called =>
    cases h
    cases op with
    | record_failure => cases hrefused
    | _ =>
      unfold first at hrefused
      dsimp only at hrefused
      split at hrefused <;> cases hrefused
  | opened =>
    cases h
    dsimp only at hrefused
    split at hrefused
    · cases hrefused
    · next hsoon =>
      cases hrefused
      exact ⟨rfl, not_le.mp hsoon⟩
  | waited | closing | tripping =>
    cases h
    exact absurd (Phase.returned.inj hrefused) (hwritten _ (fun _ h => by cases h) before)
  | resetting => cases h; cases hrefused
  | counting =>
    cases h
    unfold count at hrefused
    dsimp only at hrefused
    split at hrefused
    · cases hrefused
    · split at hrefused <;> cases hrefused
  | returned answer => cases h

variable {R : Type} [DecidableEq R] (recovery_timeout : ℚ)

/-- Zero, or the time of a failure recorded so far. -/
def Dated (failed : List ℚ) (time : ℚ) : Prop := time = 0 ∨ time ∈ failed

theorem Dated.mono {failed later : List ℚ} {time : ℚ} (h : Dated failed time)
    (hsub : failed ⊆ later) : Dated later time :=
  h.imp_right (fun hmem => hsub hmem)

/-- A failure not longer ago than the recovery timeout. -/
def Recent (failed : List ℚ) (now : ℚ) : Prop :=
  ∃ time, Dated failed time ∧ now < time + recovery_timeout

/-- Every refusal is of a call that found a recent failure. -/
def RefusedRecently (s : State R) : Prop :=
  ∀ id c now, s.calls id = some c → c.phase = .returned (.refused now) →
    Recent recovery_timeout s.failed now

structure Timed (s : State R) : Prop where
  timeout : ∀ r, (s.replicas r).recovery_timeout = recovery_timeout
  memory : ∀ r, Dated s.failed (s.replicas r).mem_last_failure_time
  key : Dated s.failed (value s.keys.last_failure_ts 0)
  refused : RefusedRecently recovery_timeout s

theorem value_unexpired {V : Type} (clock : ℚ) (key : Option (Entry V)) (missing : V) :
    value (unexpired clock key) missing = missing ∨
      value (unexpired clock key) missing = value key missing := by
  unfold unexpired
  cases key with
  | none => exact .inl rfl
  | some e =>
    by_cases hlive : clock ≤ e.expires
    · exact .inr (by rw [Option.filter_some, if_pos (decide_eq_true hlive)])
    · exact .inl (by rw [Option.filter_some, if_neg (by simpa using hlive)]; rfl)

theorem last_failure_time_dated (t : Shared) (reply : Reply) (failed : List ℚ)
    (hmemory : Dated failed t.breaker.mem_last_failure_time)
    (hkey : Dated failed (value t.keys.last_failure_ts 0)) :
    Dated failed (last_failure_time t reply) := by
  unfold last_failure_time
  split
  · exact hkey
  · exact hmemory

theorem value_setex {V : Type} (t : Shared) (reply : Reply) (old : Option (Entry V))
    (v missing : V) : value (setex t reply old v) missing = value old missing ∨
      value (setex t reply old v) missing = v := by
  unfold setex
  split
  · exact .inr rfl
  · exact .inl rfl

theorem commanded_timed (s : State R) (hs : Timed recovery_timeout s) (id : ℕ) (now : ℚ)
    (reply : Reply) (c : Call R) (next : Shared × Phase)
    (hnext : advance (s.seen c.replica) now reply c.op c.phase = some next) :
    Timed recovery_timeout (s.commanded id c now next) := by
  have hgrow : s.failed ⊆ (s.commanded id c now next).failed := by
    unfold State.commanded
    dsimp only
    split
    · exact List.subset_cons_self now s.failed
    · exact List.Subset.refl _
  obtain ⟨htimeout, hlast⟩ := advance_last_failure _ _ _ _ _ _ hnext
  have hdated : Dated (s.commanded id c now next).failed next.1.breaker.mem_last_failure_time ∧
      Dated (s.commanded id c now next).failed (value next.1.keys.last_failure_ts 0) := by
    rcases hlast with ⟨hmem, hkey⟩ | ⟨hop, hphase, hset⟩
    · rw [hmem, hkey]
      exact ⟨(hs.memory c.replica).mono hgrow, hs.key.mono hgrow⟩
    · have hnow : now ∈ (s.commanded id c now next).failed := by
        unfold State.commanded
        dsimp only
        rw [if_pos ⟨hop, hphase⟩]
        exact List.mem_cons_self
      rw [hset]
      refine ⟨.inr hnow, ?_⟩
      rcases value_setex (s.seen c.replica) reply s.keys.last_failure_ts now 0 with hold | hnew
      · exact hold ▸ hs.key.mono hgrow
      · have hwritten : value (set_last_failure_time (s.seen c.replica) now
            reply).keys.last_failure_ts 0 = now := hnew
        rw [hwritten]
        exact .inr hnow
  constructor
  · intro r
    by_cases hr : r = c.replica
    · subst hr
      dsimp only [State.commanded]
      rw [Function.update_self, htimeout]
      exact hs.timeout c.replica
    · dsimp only [State.commanded]
      rw [Function.update_of_ne hr]
      exact hs.timeout r
  · intro r
    by_cases hr : r = c.replica
    · subst hr
      have hself : (s.commanded id c now next).replicas c.replica = next.1.breaker :=
        Function.update_self _ _ _
      rw [hself]
      exact hdated.1
    · have hother : (s.commanded id c now next).replicas r = s.replicas r :=
        Function.update_of_ne hr _ _
      rw [hother]
      exact (hs.memory r).mono hgrow
  · exact hdated.2
  · intro other d before hd hrefused
    by_cases hid : other = id
    · subst hid
      dsimp only [State.commanded] at hd
      rw [Function.update_self, Option.some.injEq] at hd
      subst hd
      obtain ⟨rfl, hsoon⟩ := advance_refused _ _ _ _ _ _ _ hnext hrefused
      refine ⟨_, (last_failure_time_dated (s.seen c.replica) reply s.failed
        (hs.memory c.replica) hs.key).mono hgrow, ?_⟩
      rw [show (s.seen c.replica).breaker.recovery_timeout = recovery_timeout from
        hs.timeout c.replica] at hsoon
      linarith
    · dsimp only [State.commanded] at hd
      rw [Function.update_of_ne hid] at hd
      obtain ⟨time, hdate, hsoon⟩ := hs.refused other d before hd hrefused
      exact ⟨time, hdate.mono hgrow, hsoon⟩

theorem moved_timed (s t : State R) (l : Label R) (hs : Timed recovery_timeout s)
    (h : Moved s l t) : Timed recovery_timeout t := by
  cases h with
  | call id replica op hfree =>
    refine ⟨hs.timeout, hs.memory, hs.key, ?_⟩
    intro other d now hd hrefused
    by_cases hid : other = id
    · subst hid
      dsimp only at hd
      rw [Function.update_self, Option.some.injEq] at hd
      subst hd
      cases hrefused
    · dsimp only at hd
      rw [Function.update_of_ne hid] at hd
      exact hs.refused other d now hd hrefused
  | command id now reply c next hc hnext =>
    exact commanded_timed recovery_timeout s hs id now reply c next hnext
  | elapse d =>
    refine ⟨hs.timeout, hs.memory, ?_, hs.refused⟩
    rcases value_unexpired (s.clock + d) s.keys.last_failure_ts (0 : ℚ) with hgone | hkept
    · exact .inl hgone
    · exact hkept ▸ hs.key

/-- In every interleaving, whatever Redis fails to answer or lets expire: once the
recovery timeout has passed since every failure recorded, no call is refused. -/
theorem refused_recently (failure_threshold : Int) (redis_backed : Bool) (ls : List (Label R)) :
    Throughout step (RefusedRecently recovery_timeout)
      (start (CircuitBreaker.start failure_threshold recovery_timeout redis_backed) : State R)
      ls := by
  have hkeep : ∀ (s : State R) l t, step s l = some t → True → Timed recovery_timeout s →
      Timed recovery_timeout t :=
    fun s l t hstep _ hs => moved_timed recovery_timeout s t l hs (moved_of_step s t l hstep)
  have hstart : Timed recovery_timeout
      (start (CircuitBreaker.start failure_threshold recovery_timeout redis_backed) : State R) :=
    ⟨fun _ => rfl, fun _ => .inl rfl, .inl rfl, fun _ _ _ h => by cases h⟩
  exact throughout_of_invariant hkeep (fun s hs => hs.refused) hstart
    (along_of_forall (fun _ _ => trivial) _ ls)

end Recovery

/-! ## At the threshold -/

section Threshold
variable (o : Shared)

/-- A closed breaker over Redis. -/
structure Closed : Prop where
  redis : o.breaker.redis_backed = true
  threshold_pos : 0 < o.breaker.failure_threshold
  ttl_pos : 0 < o.breaker.ttl
  state : value o.keys.state .CLOSED = .CLOSED
  count : 0 ≤ value o.keys.failures 0

variable {R : Type} (since : ℚ)

/-- Redis answers, no call succeeds, and neither the clocks of the replicas pass the
recovery timeout nor that of Redis the time to live of a key. -/
def Failing (s : State R) : Label R → Prop
  | .call _ _ op => op ≠ .record_success
  | .command _ now reply => reply = .ok ∧ since ≤ now ∧ now < since + o.breaker.recovery_timeout
  | .elapse d => s.clock + d ≤ o.clock + o.breaker.ttl

/-- A key that stays until the end. -/
def Kept {V : Type} (key : Option (Entry V)) (P : V → Prop) : Prop :=
  ∃ e, key = some e ∧ P e.value ∧ o.clock + o.breaker.ttl ≤ e.expires

theorem Kept.unexpired_eq {V : Type} {o : Shared} {key : Option (Entry V)} {P : V → Prop}
    (h : Kept o key P) (clock : ℚ) (hclock : clock ≤ o.clock + o.breaker.ttl) :
    unexpired clock key = key := by
  obtain ⟨e, rfl, _, hexpires⟩ := h
  rw [CircuitBreaker.unexpired, Option.filter_some,
    if_pos (decide_eq_true (hclock.trans hexpires))]

theorem Kept.unexpired {V : Type} {o : Shared} {key : Option (Entry V)} {P : V → Prop}
    (h : Kept o key P) (clock : ℚ) (hclock : clock ≤ o.clock + o.breaker.ttl) :
    Kept o (unexpired clock key) P := by
  rw [h.unexpired_eq clock hclock]
  exact h

theorem Kept.value {V : Type} {o : Shared} {key : Option (Entry V)} {P : V → Prop}
    (h : Kept o key P) (missing : V) : P (CircuitBreaker.value key missing) := by
  obtain ⟨e, rfl, hvalue, _⟩ := h
  exact hvalue

/-- The threshold is reached and the breaker open. -/
structure Tripped (s : State R) : Prop where
  state : Kept o s.keys.state (· = .OPEN)
  failed : Kept o s.keys.last_failure_ts (since ≤ ·)
  reached : o.breaker.failure_threshold ≤ value o.keys.failures 0 + s.counted

/-- What holds of a call, by where it stands. -/
def Progress (s : State R) (op : Op) (late : Bool) : Phase → Prop
  | .called => op ≠ .record_success
  | .opened => op = .can_execute ∧ Tripped o since s
  | .counting => op = .record_failure ∧ Kept o s.keys.last_failure_ts (since ≤ ·)
  | .tripping =>
    op = .record_failure ∧ Kept o s.keys.last_failure_ts (since ≤ ·) ∧
      o.breaker.failure_threshold ≤ value o.keys.failures 0 + s.counted
  | .waited | .resetting | .closing => False
  | .returned .allowed => late = false
  | .returned (.refused _) => Tripped o since s
  | .returned .recorded => op = .record_failure
  | .returned .raised => False

structure Sound (s : State R) (c : Call R) : Prop where
  late : c.late = true → Tripped o since s
  progress : Progress o since s c.op c.late c.phase

/-- The setting of a replica's breaker is that of the first. -/
def Configured (t : Shared) : Prop :=
  t.breaker.redis_backed = true ∧ t.breaker.failure_threshold = o.breaker.failure_threshold ∧
    t.breaker.recovery_timeout = o.breaker.recovery_timeout

structure Watched (s : State R) : Prop where
  config : ∀ r, Configured o (s.seen r)
  clock : o.clock ≤ s.clock
  counted : (s.counted : Int) ≤ value s.keys.failures 0 ∧
    value s.keys.failures 0 ≤ value o.keys.failures 0 + s.counted
  kept : 0 < s.counted → Kept o s.keys.failures (fun _ => True)
  state : (value s.keys.state .CLOSED = .CLOSED ∧ s.recorded ≤ s.counted ∧
    (s.recorded : Int) < o.breaker.failure_threshold) ∨ Tripped o since s
  calls : ∀ id c, s.calls id = some c → Sound o since s c

variable {o since}

theorem start_watched (ho : Closed o) : Watched o since (start o : State R) where
  config := fun _ => ⟨ho.redis, rfl, rfl⟩
  clock := le_refl _
  counted := ⟨ho.count, le_of_eq (add_zero _).symm⟩
  kept := fun h => absurd h (lt_irrefl _)
  state := .inl ⟨ho.state, le_refl _, ho.threshold_pos⟩
  calls := fun _ _ h => by cases h

/-- A call stays sound while nothing it rests on is lost. -/
theorem Sound.mono {s t : State R} {c : Call R} (h : Sound o since s c)
    (htripped : Tripped o since s → Tripped o since t)
    (hfailed : Kept o s.keys.last_failure_ts (since ≤ ·) →
      Kept o t.keys.last_failure_ts (since ≤ ·))
    (hcounted : s.counted ≤ t.counted) : Sound o since t c := by
  refine ⟨fun hlate => htripped (h.late hlate), ?_⟩
  have hprogress := h.progress
  cases hphase : c.phase with
  | called => rwa [hphase] at hprogress
  | opened =>
    rw [hphase] at hprogress
    exact ⟨hprogress.1, htripped hprogress.2⟩
  | counting =>
    rw [hphase] at hprogress
    exact ⟨hprogress.1, hfailed hprogress.2⟩
  | tripping =>
    rw [hphase] at hprogress
    refine ⟨hprogress.1, hfailed hprogress.2.1, hprogress.2.2.trans ?_⟩
    exact add_le_add_right (Int.ofNat_le.mpr hcounted) _
  | waited | resetting | closing =>
    rw [hphase] at hprogress
    exact hprogress
  | returned answer =>
    rw [hphase] at hprogress
    cases answer with
    | refused now => exact htripped hprogress
    | _ => exact hprogress

theorem Configured.ttl {t : Shared} (h : Configured o t) : t.breaker.ttl = o.breaker.ttl := by
  unfold Breaker.ttl
  rw [h.2.2]

theorem setex_kept {V : Type} (ho : Closed o) {t : Shared} (ht : Configured o t)
    (hclock : o.clock ≤ t.clock) (old : Option (Entry V)) (v : V) (P : V → Prop) (hv : P v) :
    Kept o (setex t .ok old v) P := by
  have hset : setex t .ok old v = some ⟨v, t.clock + t.breaker.ttl⟩ := by
    unfold setex
    rw [if_pos]
    simpa [ht.1, ht.ttl, Reply.applied] using ho.ttl_pos
  rw [hset]
  refine ⟨_, rfl, hv, ?_⟩
  rw [ht.ttl]
  exact add_le_add_left hclock _

theorem written_ok (ho : Closed o) {t : Shared} (ht : Configured o t) (answer : Answer) :
    written t .ok answer = answer := by
  have hwritten : set_state_raises t .ok = .ok () := by
    unfold set_state_raises
    rw [if_neg]
    simpa [ht.1, ht.ttl] using ho.ttl_pos
  rw [written, hwritten]

theorem state_ok {t : Shared} (ht : Configured o t) :
    CircuitBreaker.state t .ok = .ok (value t.keys.state .CLOSED) := by
  rw [CircuitBreaker.state, if_pos ht.1, if_pos rfl]

theorem count_ok (ho : Closed o) {t : Shared} (ht : Configured o t) :
    count t .ok =
      ({ t with keys := { t.keys with
          failures := some ⟨value t.keys.failures 0 + 1, t.clock + t.breaker.ttl⟩ } },
        if o.breaker.failure_threshold ≤ value t.keys.failures 0 + 1 then .tripping
        else .returned .recorded) := by
  have httl : 0 < t.breaker.ttl := by
    rw [ht.ttl]
    exact ho.ttl_pos
  have hincr : incr_failures t .ok =
      ({ t with keys := { t.keys with
          failures := some ⟨value t.keys.failures 0 + 1, t.clock + t.breaker.ttl⟩ } },
        .ok (value t.keys.failures 0 + 1)) := by
    unfold incr_failures incremented
    rw [if_pos ht.1, if_neg (by decide), if_pos httl, if_pos rfl]
  unfold count
  rw [hincr]
  dsimp only
  rw [ht.2.1]

variable [DecidableEq R]

theorem commanded_watched {s : State R} (hs : Watched o since s) (id : ℕ) (c : Call R) (now : ℚ)
    (next : Shared × Phase) (hc : s.calls id = some c) (hconfig : Configured o next.1)
    (hcounted : ((s.commanded id c now next).counted : Int) ≤ value next.1.keys.failures 0 ∧
      value next.1.keys.failures 0 ≤
        value o.keys.failures 0 + (s.commanded id c now next).counted)
    (hkept : 0 < (s.commanded id c now next).counted →
      Kept o next.1.keys.failures (fun _ => True))
    (hstate : (value next.1.keys.state .CLOSED = .CLOSED ∧
        (s.commanded id c now next).recorded ≤ (s.commanded id c now next).counted ∧
        ((s.commanded id c now next).recorded : Int) < o.breaker.failure_threshold) ∨
      Tripped o since (s.commanded id c now next))
    (htripped : Tripped o since s → Tripped o since (s.commanded id c now next))
    (hfailed : Kept o s.keys.last_failure_ts (since ≤ ·) →
      Kept o next.1.keys.last_failure_ts (since ≤ ·))
    (hprogress : Progress o since (s.commanded id c now next) c.op c.late next.2) :
    Watched o since (s.commanded id c now next) := by
  have hle : s.counted ≤ (s.commanded id c now next).counted := by
    unfold State.commanded
    dsimp only
    split <;> omega
  refine ⟨?_, hs.clock, hcounted, hkept, hstate, ?_⟩
  · intro r
    unfold Configured State.seen State.commanded
    dsimp only
    by_cases hr : r = c.replica
    · rw [hr, Function.update_self]
      exact hconfig
    · rw [Function.update_of_ne hr]
      exact hs.config r
  · intro other d hd
    by_cases hid : other = id
    · subst hid
      dsimp only [State.commanded] at hd
      rw [Function.update_self, Option.some.injEq] at hd
      subst hd
      exact ⟨fun hlate => htripped ((hs.calls other c hc).late hlate), hprogress⟩
    · dsimp only [State.commanded] at hd
      rw [Function.update_of_ne hid] at hd
      exact (hs.calls other d hd).mono htripped hfailed hle

/-- A command that only reads. -/
theorem read_watched {s : State R} (hs : Watched o since s) (id : ℕ) (c : Call R) (now : ℚ)
    (phase : Phase) (hc : s.calls id = some c) (hop : c.op ≠ .record_failure)
    (hphase : c.phase ≠ .counting)
    (hprogress : Progress o since s c.op c.late phase) :
    Watched o since (s.commanded id c now (s.seen c.replica, phase)) := by
  have hcounted : (s.commanded id c now (s.seen c.replica, phase)).counted = s.counted :=
    if_neg hphase
  have hrecorded : (s.commanded id c now (s.seen c.replica, phase)).recorded = s.recorded :=
    if_neg (fun h => hop h.1)
  have htripped : Tripped o since s →
      Tripped o since (s.commanded id c now (s.seen c.replica, phase)) :=
    fun h => ⟨h.state, h.failed, hcounted.symm ▸ h.reached⟩
  apply commanded_watched hs id c now _ hc (hs.config c.replica)
  · rw [hcounted]
    exact hs.counted
  · rw [hcounted]
    exact hs.kept
  · rw [hcounted, hrecorded]
    exact hs.state.imp_right htripped
  · exact htripped
  · exact fun h => h
  · have hsound : Sound o since s { c with phase := phase } :=
      ⟨(hs.calls id c hc).late, hprogress⟩
    exact (hsound.mono htripped (fun h => h) hcounted.ge).progress

theorem first_watched (ho : Closed o) {s : State R} (hs : Watched o since s) (id : ℕ) (c : Call R)
    (now : ℚ) (hc : s.calls id = some c) (hphase : c.phase = .called) (hnow : since ≤ now) :
    Watched o since (s.commanded id c now (first (s.seen c.replica) now .ok c.op)) := by
  have hsound := hs.calls id c hc
  have hprogress := hsound.progress
  rw [hphase] at hprogress
  have hcalled : c.phase ≠ .counting := by
    rw [hphase]
    decide
  cases hop : c.op with
  | record_success => exact absurd hop hprogress
  | can_execute =>
    have hread : c.op ≠ .record_failure := by
      rw [hop]
      decide
    by_cases htripped : Tripped o since s
    · have hopen : first (s.seen c.replica) now .ok .can_execute = (s.seen c.replica, .opened) := by
        unfold first
        dsimp only
        rw [state_ok (hs.config c.replica),
          show value (s.seen c.replica).keys.state .CLOSED = .OPEN from htripped.state.value _]
      rw [hopen]
      exact read_watched hs id c now _ hc hread hcalled ⟨hop, htripped⟩
    · have hclosed := (hs.state.resolve_right htripped).1
      have hallowed : first (s.seen c.replica) now .ok .can_execute =
          (s.seen c.replica, .returned .allowed) := by
        unfold first
        dsimp only
        rw [state_ok (hs.config c.replica),
          show value (s.seen c.replica).keys.state .CLOSED = .CLOSED from hclosed]
      rw [hallowed]
      refine read_watched hs id c now _ hc hread hcalled ?_
      exact Bool.eq_false_iff.mpr (fun hlate => htripped (hsound.late hlate))
  | record_failure =>
    have hkey : Kept o (set_last_failure_time (s.seen c.replica) now .ok).keys.last_failure_ts
        (since ≤ ·) :=
      setex_kept ho (hs.config c.replica) hs.clock _ now _ hnow
    have hcounted : (s.commanded id c now (first (s.seen c.replica) now .ok
        .record_failure)).counted = s.counted := if_neg hcalled
    have hrecorded : (s.commanded id c now (first (s.seen c.replica) now .ok
        .record_failure)).recorded = s.recorded := if_neg (fun h => Bool.false_ne_true h.2)
    have htripped : Tripped o since s → Tripped o since (s.commanded id c now
        (first (s.seen c.replica) now .ok .record_failure)) :=
      fun h => ⟨h.state, hkey, hcounted.symm ▸ h.reached⟩
    apply commanded_watched hs id c now _ hc (hs.config c.replica)
    · rw [hcounted]
      exact hs.counted
    · rw [hcounted]
      exact hs.kept
    · rw [hcounted, hrecorded]
      exact hs.state.imp_right htripped
    · exact htripped
    · exact fun _ => hkey
    · exact ⟨hop, hkey⟩

theorem counting_watched (ho : Closed o) {s : State R} (hs : Watched o since s) (id : ℕ)
    (c : Call R) (now : ℚ) (hc : s.calls id = some c) (hphase : c.phase = .counting) :
    Watched o since (s.commanded id c now (count (s.seen c.replica) .ok)) := by
  have hprogress := (hs.calls id c hc).progress
  rw [hphase] at hprogress
  obtain ⟨hop, hkey⟩ := hprogress
  rw [count_ok ho (hs.config c.replica)]
  generalize hnext : (if o.breaker.failure_threshold ≤
    value (s.seen c.replica).keys.failures 0 + 1 then Phase.tripping
    else Phase.returned .recorded) = phase
  have hcounted : ∀ next, (s.commanded id c now next).counted = s.counted + 1 :=
    fun _ => if_pos hphase
  have hvalue : value (s.seen c.replica).keys.failures 0 = value s.keys.failures 0 := rfl
  obtain ⟨hlow, hhigh⟩ := hs.counted
  have hrecorded : ∀ t, (s.commanded id c now (t, phase)).recorded = s.recorded ∨
      ((s.commanded id c now (t, phase)).recorded = s.recorded + 1 ∧
        value s.keys.failures 0 + 1 < o.breaker.failure_threshold) := by
    intro t
    by_cases hreached : o.breaker.failure_threshold ≤
        value (s.seen c.replica).keys.failures 0 + 1
    · rw [if_pos hreached] at hnext
      exact .inl (if_neg (fun h => by rw [← hnext] at h; exact Bool.false_ne_true h.2))
    · rw [if_neg hreached] at hnext
      exact .inr ⟨if_pos ⟨hop, by rw [← hnext]; rfl⟩, not_le.mp hreached⟩
  have htripped : ∀ phase', Tripped o since s → Tripped o since (s.commanded id c now
      ({ s.seen c.replica with keys := { s.keys with
          failures := some ⟨value s.keys.failures 0 + 1,
            s.clock + (s.seen c.replica).breaker.ttl⟩ } }, phase')) := by
    intro phase' h
    refine ⟨h.state, h.failed, h.reached.trans ?_⟩
    rw [hcounted]
    push_cast
    omega
  apply commanded_watched hs id c now _ hc (hs.config c.replica)
  · rw [hcounted]
    constructor
    · show ((s.counted + 1 : ℕ) : Int) ≤ value s.keys.failures 0 + 1
      push_cast
      omega
    · show value s.keys.failures 0 + 1 ≤ value o.keys.failures 0 + ((s.counted + 1 : ℕ) : Int)
      push_cast
      omega
  · intro _
    refine ⟨_, rfl, trivial, ?_⟩
    rw [(hs.config c.replica).ttl]
    exact add_le_add_left hs.clock _
  · rcases hs.state with ⟨hclosed, hle, hlt⟩ | htrip
    · refine .inl ⟨hclosed, ?_⟩
      rw [hcounted]
      rcases hrecorded _ with hsame | ⟨hmore, hbelow⟩
      · rw [hsame]
        exact ⟨hle.trans (Nat.le_succ _), hlt⟩
      · rw [hmore]
        push_cast
        omega
    · exact .inr (htripped phase htrip)
  · exact htripped phase
  · exact fun h => h
  · by_cases hreached : o.breaker.failure_threshold ≤
        value (s.seen c.replica).keys.failures 0 + 1
    · rw [if_pos hreached] at hnext
      rw [← hnext]
      refine ⟨hop, hkey, hreached.trans ?_⟩
      rw [hcounted]
      push_cast
      omega
    · rw [if_neg hreached] at hnext
      rw [← hnext]
      exact hop

theorem tripping_watched (ho : Closed o) {s : State R} (hs : Watched o since s) (id : ℕ)
    (c : Call R) (now : ℚ) (hc : s.calls id = some c) (hphase : c.phase = .tripping) :
    Watched o since (s.commanded id c now
      (set_state (s.seen c.replica) .OPEN .ok, .returned .recorded)) := by
  have hprogress := (hs.calls id c hc).progress
  rw [hphase] at hprogress
  obtain ⟨hop, hkey, hreached⟩ := hprogress
  have hcounted : ∀ next, (s.commanded id c now next).counted = s.counted := by
    intro next
    exact if_neg (by rw [hphase]; decide)
  have htripped : Tripped o since (s.commanded id c now
      (set_state (s.seen c.replica) .OPEN .ok, .returned .recorded)) := by
    refine ⟨setex_kept ho (hs.config c.replica) hs.clock _ _ _ rfl, hkey, ?_⟩
    rw [hcounted]
    exact hreached
  apply commanded_watched hs id c now _ hc (hs.config c.replica)
  · rw [hcounted]
    exact hs.counted
  · rw [hcounted]
    exact hs.kept
  · exact .inr htripped
  · exact fun _ => htripped
  · exact fun h => h
  · exact hop

/-- An open breaker refuses while no clock has passed the recovery timeout. -/
theorem opened_watched {s : State R} (hs : Watched o since s) (id : ℕ) (c : Call R) (now : ℚ)
    (hc : s.calls id = some c) (hphase : c.phase = .opened)
    (hnow : now < since + o.breaker.recovery_timeout) :
    Watched o since (s.commanded id c now (s.seen c.replica,
      if (s.seen c.replica).breaker.recovery_timeout ≤
        now - last_failure_time (s.seen c.replica) .ok then .waited
      else .returned (.refused now))) := by
  have hprogress := (hs.calls id c hc).progress
  rw [hphase] at hprogress
  obtain ⟨hop, htripped⟩ := hprogress
  have htime : last_failure_time (s.seen c.replica) .ok = value s.keys.last_failure_ts 0 := by
    unfold last_failure_time
    exact if_pos (by rw [(hs.config c.replica).1]; rfl)
  have hsince : since ≤ value s.keys.last_failure_ts 0 := htripped.failed.value 0
  have hsoon : ¬ (s.seen c.replica).breaker.recovery_timeout ≤
      now - last_failure_time (s.seen c.replica) .ok := by
    rw [(hs.config c.replica).2.2, htime]
    intro hwaited
    linarith
  rw [if_neg hsoon]
  exact read_watched hs id c now _ hc (by rw [hop]; decide) (by rw [hphase]; decide) htripped

theorem elapse_watched (ho : Closed o) {s t : State R} (hs : Watched o since s) (d : ℚ≥0)
    (hd : s.clock + d ≤ o.clock + o.breaker.ttl)
    (ht : step s (.elapse d) = some t) : Watched o since t := by
  cases ht
  have hlater : (0 : ℚ) ≤ d := d.coe_nonneg
  have htripped : Tripped o since s → Tripped o since { s with
      keys :=
        { state := unexpired (s.clock + d) s.keys.state
          failures := unexpired (s.clock + d) s.keys.failures
          last_failure_ts := unexpired (s.clock + d) s.keys.last_failure_ts }
      clock := s.clock + d } :=
    fun h => ⟨h.state.unexpired _ hd, h.failed.unexpired _ hd, h.reached⟩
  refine ⟨hs.config, hs.clock.trans (le_add_of_nonneg_right hlater), ?_, ?_, ?_, ?_⟩
  · dsimp only
    rcases Nat.eq_zero_or_pos s.counted with hzero | hpos
    · have hcount := ho.count
      have hboth := hs.counted
      rw [hzero] at hboth ⊢
      rcases value_unexpired (s.clock + d) s.keys.failures (0 : Int) with hgone | hstays
      · rw [hgone]
        exact ⟨le_refl _, hcount.trans (le_of_eq (add_zero _).symm)⟩
      · rwa [hstays]
    · rw [(hs.kept hpos).unexpired_eq _ hd]
      exact hs.counted
  · exact fun hpos => (hs.kept hpos).unexpired _ hd
  · rcases hs.state with ⟨hclosed, hrest⟩ | htrip
    · refine .inl ⟨?_, hrest⟩
      rcases value_unexpired (s.clock + d) s.keys.state CircuitState.CLOSED with hgone | hstays
      · exact hgone
      · exact hstays.trans hclosed
    · exact .inr (htripped htrip)
  · exact fun id c hc =>
      (hs.calls id c hc).mono htripped (fun h => h.unexpired _ hd) (le_refl _)

theorem moved_watched (ho : Closed o) {s t : State R} {l : Label R} (hs : Watched o since s)
    (hl : Failing o since s l) (h : Moved s l t) : Watched o since t := by
  cases h with
  | call id replica op hfree =>
    refine ⟨hs.config, hs.clock, hs.counted, hs.kept,
      hs.state.imp_right (fun h => ⟨h.state, h.failed, h.reached⟩), ?_⟩
    intro other d hd
    by_cases hid : other = id
    · subst hid
      dsimp only at hd
      rw [Function.update_self, Option.some.injEq] at hd
      subst hd
      refine ⟨?_, hl⟩
      intro hlate
      have hreached := of_decide_eq_true hlate
      rw [show (s.replicas replica).failure_threshold = o.breaker.failure_threshold from
        (hs.config replica).2.1] at hreached
      rcases hs.state with ⟨_, _, hbelow⟩ | htripped
      · omega
      · exact ⟨htripped.state, htripped.failed, htripped.reached⟩
    · dsimp only at hd
      rw [Function.update_of_ne hid] at hd
      exact (hs.calls other d hd).mono (fun h => ⟨h.state, h.failed, h.reached⟩) (fun h => h)
        (le_refl _)
  | command id now reply c next hc hnext =>
    obtain ⟨rfl, hsince, hbefore⟩ := hl
    have hprogress := (hs.calls id c hc).progress
    cases hphase : c.phase with
    | called =>
      rw [hphase] at hnext
      cases hnext
      exact first_watched ho hs id c now hc hphase hsince
    | opened =>
      rw [hphase] at hnext
      cases hnext
      exact opened_watched hs id c now hc hphase hbefore
    | counting =>
      rw [hphase] at hnext
      cases hnext
      exact counting_watched ho hs id c now hc hphase
    | tripping =>
      rw [hphase] at hnext
      cases hnext
      rw [written_ok ho (hs.config c.replica)]
      exact tripping_watched ho hs id c now hc hphase
    | waited | resetting | closing =>
      rw [hphase] at hprogress
      exact hprogress.elim
    | returned answer =>
      rw [hphase] at hnext
      cases hnext
  | elapse d => exact elapse_watched ho hs d hl rfl

variable (o)

/-- No call is refused before as many failures as the threshold are counted, and every
call made once so many have been recorded is refused. -/
def OpensAtThreshold (s : State R) : Prop :=
  ∀ id c, s.calls id = some c →
    (∀ now, c.phase = .returned (.refused now) →
      o.breaker.failure_threshold ≤ value o.keys.failures 0 + s.counted) ∧
    (c.op = .can_execute → c.late = true → ∀ answer, c.phase = .returned answer →
      ∃ now, answer = .refused now)

/-- Failures on any replicas, in any order of their commands, open the breaker for all
of them, and only when they reach the threshold. -/
theorem opens_at_threshold (ho : Closed o) (since : ℚ) (ls : List (Label R))
    (hl : Along step (Failing o since) (start o) ls) :
    Throughout step (OpensAtThreshold o) (start o : State R) ls := by
  have hkeep : ∀ (s : State R) l t, step s l = some t → Failing o since s l →
      Watched o since s → Watched o since t :=
    fun s l t hstep hl hs => moved_watched ho hs hl (moved_of_step s t l hstep)
  have hgood : ∀ s : State R, Watched o since s → OpensAtThreshold o s := by
    intro s hs id c hc
    have hsound := hs.calls id c hc
    constructor
    · intro now hrefused
      have hprogress := hsound.progress
      rw [hrefused] at hprogress
      exact hprogress.reached
    · intro hop hlate answer hanswer
      have hprogress := hsound.progress
      rw [hanswer] at hprogress
      cases answer with
      | refused now => exact ⟨now, rfl⟩
      | allowed => exact absurd (hprogress.symm.trans hlate) Bool.false_ne_true
      | recorded =>
        rw [hop] at hprogress
        cases hprogress
      | raised => exact hprogress.elim
  exact throughout_of_invariant hkeep hgood (start_watched ho) hl

end Threshold

instance decidableFailing (o : Shared) (since : ℚ) (s : State Bool) :
    (l : Label Bool) → Decidable (Failing o since s l)
  | .call _ _ op => inferInstanceAs (Decidable (op ≠ .record_success))
  | .command _ now reply => inferInstanceAs (Decidable
      (reply = .ok ∧ since ≤ now ∧ now < since + o.breaker.recovery_timeout))
  | .elapse d => inferInstanceAs (Decidable (s.clock + d ≤ o.clock + o.breaker.ttl))

/-- Two replicas fail at once; a call of each is under way when the breaker opens. -/
def two_failures : List (Label Bool) :=
  [.call 0 false .record_failure, .call 1 true .record_failure, .command 0 10 .ok,
    .command 1 11 .ok, .command 1 11 .ok, .call 2 true .can_execute, .command 2 12 .ok,
    .command 0 12 .ok, .command 0 12 .ok, .elapse 5, .call 3 true .can_execute,
    .command 3 17 .ok, .command 3 17 .ok]

theorem opens_at_threshold_two_failures :
    Throughout step (OpensAtThreshold (CircuitBreaker.start 2 30 true)) (start
      (CircuitBreaker.start 2 30 true)) two_failures :=
  opens_at_threshold (CircuitBreaker.start 2 30 true)
    ⟨rfl, by decide, by decide +kernel, rfl, le_refl _⟩ 10 two_failures (by decide +kernel)

end AigentSquad.SharedBreaker
