import AigentSquad.WorkerPool
import AigentSquad.ExpiringStore
import AigentSquad.RemoteStore
import Mathlib.Data.NNRat.Defs
import Mathlib.Data.Rat.Cast.Order
import Mathlib.Tactic.Linarith

/-!
# Cancelling a job

A request to cancel leaves a flag in Redis, and the polling task of the job
looks for it. Requests, polls, the jobs of the pool and the clock take their
steps in any order; between the check of a request and its `SET` the job may be
over, and a command may fail.
-/

set_option autoImplicit false

namespace AigentSquad.JobCancellation
open AigentSquad.PyText AigentSquad.Transition AigentSquad.RemoteStore AigentSquad.WorkerPool

/-- `_poll_cancel` of one job: asleep until its next turn, or over. -/
inductive Poller where
  | due (wake : ℚ)
  | stopped
deriving DecidableEq

structure Config where
  cancel_poll_interval : ℚ
  /-- whether the pool has a Redis client -/
  redis : Bool

/-- How long a flag is kept. -/
def FLAG_TTL : ℚ := 60

structure State where
  pool : Pool
  clock : ℚ
  /-- `cancel:<job_id>` -/
  flags : ExpiringStore.Store Str Unit ℚ
  pollers : Str → Poller
  /-- requests that have seen their job active -/
  requested : List Str
  /-- the flags set so far, with the time -/
  flagged : List (Str × ℚ)
  /-- the tasks cancelled by their polls, with the time -/
  cancelled : List (Str × ℚ)

def start (max_concurrent : ℕ) : State where
  pool := WorkerPool.start max_concurrent
  clock := 0
  flags := fun _ => none
  pollers := fun _ => .stopped
  requested := []
  flagged := []
  cancelled := []

inductive Label where
  /-- a step of the pool, but for the deletion of a flag -/
  | pool (l : WorkerPool.Label)
  /-- `cancel`, up to its check -/
  | cancel (job_id : Str)
  | set_cancel_flag (job_id : Str) (reply : Reply)
  /-- one turn of the polling task -/
  | poll (job_id : Str) (reply : Reply)
  | clear_cancel_flag (job_id : Str) (reply : Reply)
  | elapse (d : ℚ≥0)

section Machine
variable (cfg : Config)

/-- The pool moves on: a job that became active has a polling task, one that is no
longer active has none. -/
def State.follow (s : State) (pool : Pool) : State :=
  { s with
    pool := pool
    pollers := fun job_id =>
      if job_id ∈ pool.active then
        if job_id ∈ s.pool.active then s.pollers job_id
        else if cfg.redis then .due s.clock
        else .stopped
      else .stopped }

def State.set_cancel_flag (s : State) (job_id : Str) (reply : Reply) : State :=
  let requested := s.requested.erase job_id
  if cfg.redis && reply.applied then
    { s with
      requested := requested
      flags := ExpiringStore.write s.flags job_id () (s.clock + FLAG_TTL)
      flagged := (job_id, s.clock) :: s.flagged }
  else { s with requested := requested }

/-- `task.cancel()`: raised where the job is suspended, by its consumer at a `yield`. -/
def State.cancel_task (s : State) (job_id : Str) : State :=
  let t := match WorkerPool.step s.pool (.job job_id .cancel) with
    | some pool => s.follow cfg pool
    | none => s
  { t with
    pollers := Function.update t.pollers job_id .stopped
    cancelled := (job_id, s.clock) :: s.cancelled }

def State.polled (s : State) (job_id : Str) (reply : Reply) : State :=
  if reply = .ok then
    match ExpiringStore.get s.flags s.clock job_id with
    | some _ => s.cancel_task cfg job_id
    | none =>
      { s with pollers :=
          Function.update s.pollers job_id (.due (s.clock + cfg.cancel_poll_interval)) }
  else { s with pollers := Function.update s.pollers job_id .stopped }

def State.clear_cancel_flag (s : State) (job_id : Str) (reply : Reply) : State :=
  if cfg.redis && reply.applied then { s with flags := Function.update s.flags job_id none } else s

def step (s : State) : Label → Option State
  | .pool (.job _ .flag_cleared) => none
  | .pool l => (WorkerPool.step s.pool l).map (s.follow cfg)
  | .cancel job_id =>
    some (if job_id ∈ s.pool.active then { s with requested := job_id :: s.requested } else s)
  | .set_cancel_flag job_id reply =>
    if job_id ∈ s.requested then some (s.set_cancel_flag cfg job_id reply) else none
  | .poll job_id reply =>
    match s.pollers job_id with
    | .due wake => if wake ≤ s.clock then some (s.polled cfg job_id reply) else none
    | .stopped => none
  | .clear_cancel_flag job_id reply =>
    (WorkerPool.step s.pool (.job job_id .flag_cleared)).map
      (fun pool => (s.follow cfg pool).clear_cancel_flag cfg job_id reply)
  | .elapse d => some { s with clock := s.clock + d }

end Machine

/-! ## Jobs that have started -/

/-- The job has had its permit. -/
def Started (p : Pool) (job_id : Str) : Prop :=
  ∃ job, p.jobs job_id = some job ∧ job.phase.early = false

theorem active_started (p : Pool) (h : Invariant p) (job_id : Str) (hactive : job_id ∈ p.active) :
    Started p job_id := by
  cases hjob : p.jobs job_id with
  | none => exact absurd hactive (h.unknown job_id hjob).1
  | some job =>
    have hholds := (h.entered job_id job hjob).active.mp hactive
    refine ⟨job, hjob, ?_⟩
    cases hearly : job.phase.early with
    | false => rfl
    | true => exact absurd hholds (not_holds_of_early _ hearly)

theorem apply_jobs (p : Pool) (job_id : Str) (job : Job) (effect : Effect) :
    (p.apply job_id job effect).jobs = Function.update p.jobs job_id (some job) := by
  cases effect <;> rfl

theorem apply_active (p : Pool) (job_id other : Str) (job : Job) (effect : Effect)
    (h : other ∈ (p.apply job_id job effect).active) : other ∈ p.active := by
  cases effect with
  | leave => exact List.mem_of_mem_erase h
  | _ => exact h

/-- A job that has started is not back where it had not. -/
theorem stepped_started (p q : Pool) (hstep : Stepped p q) (job_id : Str) (h : Started p job_id) :
    Started q job_id := by
  obtain ⟨job, hjob, hlate⟩ := h
  have hput : ∀ (other : Str) (old new : Job), p.jobs other = some old → old.phase.early = true →
      Function.update p.jobs other (some new) job_id = some job := by
    intro other old new hold hearly
    have hne : job_id ≠ other := by
      rintro rfl
      rw [hjob, Option.some.injEq] at hold
      rw [hold, hearly] at hlate
      cases hlate
    rw [Function.update_of_ne hne, hjob]
  cases hstep with
  | refused => exact ⟨job, hjob, hlate⟩
  | submitted other hnew =>
    have hne : job_id ≠ other := by
      rintro rfl
      rw [hjob] at hnew
      cases hnew
    exact ⟨job, (Function.update_of_ne hne _ _).trans hjob, hlate⟩
  | acquired other old hold hwaiting _ =>
    exact ⟨job, hput other old _ hold (by rw [hwaiting]; rfl), hlate⟩
  | handed_over other old hold hwaiting _ =>
    exact ⟨job, hput other old _ hold (by rw [hwaiting]; rfl), hlate⟩
  | granted other old hold hhanded =>
    exact ⟨job, hput other old _ hold (by rw [hhanded]; rfl), hlate⟩
  | ran other old new event effect hold hout =>
    by_cases hne : job_id = other
    · subst hne
      rw [hjob, Option.some.injEq] at hold
      subst hold
      refine ⟨new, by rw [apply_jobs, Function.update_self], ?_⟩
      cases hearly : new.phase.early with
      | false => rfl
      | true => rw [(job_step_phase _ _ _ _ hout).2.2 hearly] at hlate; cases hlate
    · exact ⟨job, by rw [apply_jobs, Function.update_of_ne hne, hjob], hlate⟩

/-- A job that has started is active only if it was before. -/
theorem stepped_active (p q : Pool) (hstep : Stepped p q) (job_id : Str) (h : Started p job_id)
    (hactive : job_id ∈ q.active) : job_id ∈ p.active := by
  obtain ⟨job, hjob, hlate⟩ := h
  have hregistered : ∀ (other : Str) (old : Job), p.jobs other = some old →
      old.phase.early = true → job_id ∈ p.active.insert other → job_id ∈ p.active := by
    intro other old hold hearly hmem
    rcases List.mem_insert_iff.mp hmem with rfl | hmem
    · rw [hjob, Option.some.injEq] at hold
      rw [hold, hearly] at hlate
      cases hlate
    · exact hmem
  cases hstep with
  | refused => exact hactive
  | submitted _ _ => exact hactive
  | acquired other old hold hwaiting _ =>
    exact hregistered other old hold (by rw [hwaiting]; rfl) hactive
  | handed_over _ _ _ _ _ => exact hactive
  | granted other old hold hhanded =>
    exact hregistered other old hold (by rw [hhanded]; rfl) hactive
  | ran other old new event effect hold hout => exact apply_active p other job_id new effect hactive

/-! ## Only on request -/

section Runs
variable (cfg : Config)

/-- A task that its poll cancelled had a flag set for it at most a minute before. -/
def CancelledOnRequest (s : State) : Prop :=
  ∀ job_id p, (job_id, p) ∈ s.cancelled →
    ∃ t, (job_id, t) ∈ s.flagged ∧ t ≤ p ∧ p ≤ t + FLAG_TTL

/-- Every flag was set for a job that had started. -/
structure Requested (s : State) : Prop where
  pool : Invariant s.pool
  requested : ∀ job_id ∈ s.requested, Started s.pool job_id
  flagged : ∀ job_id t, (job_id, t) ∈ s.flagged → Started s.pool job_id ∧ t ≤ s.clock
  flags : ∀ job_id e, s.flags job_id = some e →
    ∃ t, (job_id, t) ∈ s.flagged ∧ e.deadline = t + FLAG_TTL
  on_request : CancelledOnRequest s

theorem start_requested (max_concurrent : ℕ) : Requested (start max_concurrent) where
  pool := start_invariant max_concurrent
  requested := fun _ h => absurd h List.not_mem_nil
  flagged := fun _ _ h => absurd h List.not_mem_nil
  flags := fun _ _ h => by cases h
  on_request := fun _ _ h => absurd h List.not_mem_nil

theorem follow_requested (s : State) (pool : Pool) (hs : Requested s) (h : Stepped s.pool pool) :
    Requested (s.follow cfg pool) where
  pool := stepped_invariant s.pool pool h hs.pool
  requested := fun job_id hmem => stepped_started _ _ h job_id (hs.requested job_id hmem)
  flagged := fun job_id t hmem =>
    ⟨stepped_started _ _ h job_id (hs.flagged job_id t hmem).1, (hs.flagged job_id t hmem).2⟩
  flags := hs.flags
  on_request := hs.on_request

/-- What does not touch pool and clock but the pollers. -/
theorem pollers_requested (s : State) (hs : Requested s) (pollers : Str → Poller) :
    Requested { s with pollers := pollers } where
  pool := hs.pool
  requested := hs.requested
  flagged := hs.flagged
  flags := hs.flags
  on_request := hs.on_request

theorem set_cancel_flag_requested (s : State) (hs : Requested s) (job_id : Str) (reply : Reply)
    (hmem : job_id ∈ s.requested) : Requested (s.set_cancel_flag cfg job_id reply) := by
  have hrest : ∀ other ∈ s.requested.erase job_id, Started s.pool other :=
    fun other hother => hs.requested other (List.mem_of_mem_erase hother)
  unfold State.set_cancel_flag
  dsimp only
  split
  · constructor
    · exact hs.pool
    · exact hrest
    · intro other t hother
      rcases List.mem_cons.mp hother with heq | hold
      · cases heq
        exact ⟨hs.requested _ hmem, le_refl _⟩
      · exact hs.flagged other t hold
    · intro other e he
      by_cases hne : other = job_id
      · subst hne
        dsimp only at he
        rw [ExpiringStore.write_same, Option.some.injEq] at he
        subst he
        exact ⟨s.clock, List.mem_cons_self, rfl⟩
      · dsimp only at he
        rw [ExpiringStore.write_other _ _ _ _ _ hne] at he
        obtain ⟨t, ht, hdeadline⟩ := hs.flags other e he
        exact ⟨t, List.mem_cons_of_mem _ ht, hdeadline⟩
    · intro other p hp
      obtain ⟨t, ht, hbounds⟩ := hs.on_request other p hp
      exact ⟨t, List.mem_cons_of_mem _ ht, hbounds⟩
  · exact ⟨hs.pool, hrest, hs.flagged, hs.flags, hs.on_request⟩

/-- What `task.cancel()` does to the pool is one of its steps, or nothing. -/
theorem cancel_task_cases (s : State) (job_id : Str) :
    ∃ t, (t = s ∨ ∃ pool, Stepped s.pool pool ∧ t = s.follow cfg pool) ∧
      s.cancel_task cfg job_id =
        { t with pollers := Function.update t.pollers job_id .stopped
                 cancelled := (job_id, s.clock) :: s.cancelled } := by
  unfold State.cancel_task
  cases hstep : WorkerPool.step s.pool (.job job_id .cancel) with
  | none => exact ⟨s, .inl rfl, rfl⟩
  | some pool => exact ⟨_, .inr ⟨pool, stepped_of_step _ _ _ hstep, rfl⟩, rfl⟩

theorem cancel_task_requested (s : State) (hs : Requested s) (job_id : Str)
    (h : ExpiringStore.get s.flags s.clock job_id = some ()) :
    Requested (s.cancel_task cfg job_id) := by
  obtain ⟨deadline, hflag, hlive⟩ := (ExpiringStore.get_eq_some _ _ _ _).mp h
  obtain ⟨t, ht, hdeadline⟩ := hs.flags job_id _ hflag
  have hwithin : t ≤ s.clock ∧ s.clock ≤ t + FLAG_TTL :=
    ⟨(hs.flagged job_id t ht).2, hdeadline ▸ hlive⟩
  have hnow : ∀ other p, (other, p) ∈ (job_id, s.clock) :: s.cancelled →
      ∃ t, (other, t) ∈ s.flagged ∧ t ≤ p ∧ p ≤ t + FLAG_TTL := by
    intro other p hp
    rcases List.mem_cons.mp hp with heq | hold
    · cases heq
      exact ⟨t, ht, hwithin⟩
    · exact hs.on_request other p hold
  obtain ⟨u, hu, heq⟩ := cancel_task_cases cfg s job_id
  rw [heq]
  rcases hu with rfl | ⟨pool, hpool, rfl⟩
  · exact ⟨hs.pool, hs.requested, hs.flagged, hs.flags, hnow⟩
  · have hf := follow_requested cfg s pool hs hpool
    exact ⟨hf.pool, hf.requested, hf.flagged, hf.flags, hnow⟩

theorem clear_cancel_flag_requested (s : State) (hs : Requested s) (job_id : Str) (reply : Reply) :
    Requested (s.clear_cancel_flag cfg job_id reply) := by
  unfold State.clear_cancel_flag
  split
  · refine ⟨hs.pool, hs.requested, hs.flagged, ?_, hs.on_request⟩
    intro other e he
    by_cases hne : other = job_id
    · subst hne
      dsimp only at he
      rw [Function.update_self] at he
      cases he
    · dsimp only at he
      rw [Function.update_of_ne hne] at he
      exact hs.flags other e he
  · exact hs

/-- A flag is deleted after the job has left the pool. -/
theorem cleared_inactive (p q : Pool) (h : Invariant p) (job_id : Str)
    (hstep : WorkerPool.step p (.job job_id .flag_cleared) = some q) : job_id ∉ p.active := by
  simp only [WorkerPool.step] at hstep
  split at hstep
  · cases hstep
  · next job hjob =>
    obtain ⟨out, hout, -⟩ := Option.map_eq_some_iff.mp hstep
    obtain ⟨hclearing, -⟩ := Option.ite_none_right_eq_some.mp hout
    intro hactive
    have hholds := (h.entered job_id job hjob).active.mp hactive
    rw [hclearing] at hholds
    exact Bool.false_ne_true hholds

/-- One case per kind of step. -/
inductive Moved (s : State) : Label → State → Prop
  | pool (l : WorkerPool.Label) (pool : Pool) (h : Stepped s.pool pool) :
      Moved s (.pool l) (s.follow cfg pool)
  | refused (job_id : Str) (h : job_id ∉ s.pool.active) : Moved s (.cancel job_id) s
  | requested (job_id : Str) (h : job_id ∈ s.pool.active) :
      Moved s (.cancel job_id) { s with requested := job_id :: s.requested }
  | set_cancel_flag (job_id : Str) (reply : Reply) (h : job_id ∈ s.requested) :
      Moved s (.set_cancel_flag job_id reply) (s.set_cancel_flag cfg job_id reply)
  | poll (job_id : Str) (reply : Reply) (wake : ℚ) (h : s.pollers job_id = .due wake)
      (hwake : wake ≤ s.clock) : Moved s (.poll job_id reply) (s.polled cfg job_id reply)
  | clear_cancel_flag (job_id : Str) (reply : Reply) (pool : Pool) (h : Stepped s.pool pool)
      (hover : job_id ∉ s.pool.active) :
      Moved s (.clear_cancel_flag job_id reply)
        ((s.follow cfg pool).clear_cancel_flag cfg job_id reply)
  | elapse (d : ℚ≥0) : Moved s (.elapse d) { s with clock := s.clock + d }

theorem moved_of_step (s t : State) (l : Label) (hpool : Invariant s.pool)
    (h : step cfg s l = some t) : Moved cfg s l t := by
  cases l with
  | pool l =>
    have hmap : ∃ pool, WorkerPool.step s.pool l = some pool ∧ s.follow cfg pool = t := by
      unfold step at h
      split at h
      · cases h
      · next heq => cases heq; exact Option.map_eq_some_iff.mp h
      all_goals next heq => cases heq
    obtain ⟨pool, hstep, rfl⟩ := hmap
    exact .pool l pool (stepped_of_step _ _ _ hstep)
  | cancel job_id =>
    simp only [step, Option.some.injEq] at h
    subst h
    split
    · next hactive => exact .requested job_id hactive
    · next hactive => exact .refused job_id hactive
  | set_cancel_flag job_id reply =>
    obtain ⟨hmem, heq⟩ := Option.ite_none_right_eq_some.mp h
    cases heq
    exact .set_cancel_flag job_id reply hmem
  | poll job_id reply =>
    simp only [step] at h
    split at h
    · next wake hdue =>
      obtain ⟨hwake, heq⟩ := Option.ite_none_right_eq_some.mp h
      cases heq
      exact .poll job_id reply wake hdue hwake
    · cases h
  | clear_cancel_flag job_id reply =>
    obtain ⟨pool, hstep, rfl⟩ := Option.map_eq_some_iff.mp h
    exact .clear_cancel_flag job_id reply pool (stepped_of_step _ _ _ hstep)
      (cleared_inactive s.pool pool hpool job_id hstep)
  | elapse d =>
    cases h
    exact .elapse d

theorem polled_cases (s : State) (job_id : Str) (reply : Reply) :
    (reply ≠ .ok ∧ s.polled cfg job_id reply =
      { s with pollers := Function.update s.pollers job_id .stopped }) ∨
    (reply = .ok ∧ ExpiringStore.get s.flags s.clock job_id = none ∧
      s.polled cfg job_id reply =
        { s with pollers :=
            Function.update s.pollers job_id (.due (s.clock + cfg.cancel_poll_interval)) }) ∨
    (reply = .ok ∧ ExpiringStore.get s.flags s.clock job_id = some () ∧
      s.polled cfg job_id reply = s.cancel_task cfg job_id) := by
  unfold State.polled
  by_cases hreply : reply = .ok
  · rw [if_pos hreply]
    cases hget : ExpiringStore.get s.flags s.clock job_id with
    | none => exact .inr (.inl ⟨hreply, rfl, rfl⟩)
    | some u => exact .inr (.inr ⟨hreply, rfl, rfl⟩)
  · exact .inl ⟨hreply, if_neg hreply⟩

theorem moved_requested (s t : State) (l : Label) (h : Moved cfg s l t) (hs : Requested s) :
    Requested t := by
  cases h with
  | pool l pool h => exact follow_requested cfg s pool hs h
  | refused job_id h => exact hs
  | requested job_id hactive =>
    refine ⟨hs.pool, ?_, hs.flagged, hs.flags, hs.on_request⟩
    exact List.forall_mem_cons.mpr ⟨active_started s.pool hs.pool job_id hactive, hs.requested⟩
  | set_cancel_flag job_id reply hmem => exact set_cancel_flag_requested cfg s hs job_id reply hmem
  | poll job_id reply wake _ _ =>
    rcases polled_cases cfg s job_id reply with ⟨_, heq⟩ | ⟨_, _, heq⟩ | ⟨_, hget, heq⟩
    · rw [heq]
      exact pollers_requested s hs _
    · rw [heq]
      exact pollers_requested s hs _
    · rw [heq]
      exact cancel_task_requested cfg s hs job_id hget
  | clear_cancel_flag job_id reply pool h hover =>
    exact clear_cancel_flag_requested cfg _ (follow_requested cfg s pool hs h) job_id reply
  | elapse d =>
    refine ⟨hs.pool, hs.requested, ?_, hs.flags, hs.on_request⟩
    intro job_id t ht
    have hd : (0 : ℚ) ≤ d := d.coe_nonneg
    exact ⟨(hs.flagged job_id t ht).1, (hs.flagged job_id t ht).2.trans (le_add_of_nonneg_right hd)⟩

/-- Whatever is requested, polled, lost or over, and in whatever order: a task is
cancelled only if its own job was asked for in the last minute. -/
theorem cancelled_on_request (max_concurrent : ℕ) (ls : List Label) :
    Throughout (step cfg) CancelledOnRequest (start max_concurrent) ls := by
  have hkeep : ∀ s l t, step cfg s l = some t → True → Requested s → Requested t :=
    fun s l t hstep _ hs => moved_requested cfg s t l (moved_of_step cfg s t l hs.pool hstep) hs
  exact throughout_of_invariant hkeep (fun s hs => hs.on_request) (start_requested max_concurrent)
    (along_of_forall (fun _ _ => trivial) _ ls)

/-! ## In time -/

variable (ε : ℚ)

def Poller.OnTime (now : ℚ) : Poller → Prop
  | .due wake => now ≤ wake + ε
  | .stopped => True

/-- No turn of a polling task is more than `ε` late. -/
def OnTime (s : State) : Prop := ∀ job_id ∈ s.pool.active, (s.pollers job_id).OnTime ε s.clock

theorem OnTime.le {ε : ℚ} {s : State} (h : OnTime ε s) {job_id : Str} {wake : ℚ}
    (hactive : job_id ∈ s.pool.active) (hdue : s.pollers job_id = .due wake) :
    s.clock ≤ wake + ε := by
  have hpoller := h job_id hactive
  rw [hdue] at hpoller
  exact hpoller

/-- Redis answers the polls, which are on time. -/
def Attended (s : State) : Label → Prop
  | .poll _ reply => OnTime ε s ∧ reply = .ok
  | _ => OnTime ε s

/-- The task is cancelled in time, or its next turn is in time to see the flag. -/
def InTime (s : State) (job_id : Str) (t : ℚ) : Prop :=
  (∃ p, (job_id, p) ∈ s.cancelled ∧ p ≤ t + cfg.cancel_poll_interval + ε) ∨
  (∃ wake e, s.pollers job_id = .due wake ∧ wake ≤ t + cfg.cancel_poll_interval ∧
    s.flags job_id = some e ∧ t + FLAG_TTL ≤ e.deadline)

structure Watched (s : State) : Prop where
  soon : ∀ job_id wake, s.pollers job_id = .due wake → wake ≤ s.clock + cfg.cancel_poll_interval
  /-- only a poll that cancelled its task stops while the job is active -/
  finished : ∀ job_id ∈ s.pool.active, s.pollers job_id = .stopped →
    ∃ p, (job_id, p) ∈ s.cancelled ∧ p ≤ s.clock
  in_time : ∀ job_id t, (job_id, t) ∈ s.flagged → job_id ∈ s.pool.active → InTime cfg ε s job_id t

theorem start_watched (max_concurrent : ℕ) : Watched cfg ε (start max_concurrent) where
  soon := fun _ _ h => by cases h
  finished := fun _ h => absurd h List.not_mem_nil
  in_time := fun _ _ h => absurd h List.not_mem_nil

/-- The parameters: a poll and its delay fit into the life of a flag. -/
structure Tuned : Prop where
  redis : cfg.redis = true
  interval_nonneg : 0 ≤ cfg.cancel_poll_interval
  delay_nonneg : 0 ≤ ε
  within_ttl : cfg.cancel_poll_interval + ε ≤ FLAG_TTL

theorem follow_watched (s : State) (pool : Pool) (hc : Tuned cfg ε) (hs : Requested s)
    (hw : Watched cfg ε s) (h : Stepped s.pool pool) : Watched cfg ε (s.follow cfg pool) := by
  have hkept : ∀ job_id, job_id ∈ s.pool.active → job_id ∈ pool.active →
      (s.follow cfg pool).pollers job_id = s.pollers job_id := by
    intro job_id hold hnew
    show (if job_id ∈ pool.active then _ else _) = _
    rw [if_pos hnew, if_pos hold]
  constructor
  · intro job_id wake hdue
    simp only [State.follow, hc.redis, if_true] at hdue
    split at hdue
    · split at hdue
      · exact hw.soon job_id wake hdue
      · cases hdue
        exact le_add_of_nonneg_right hc.interval_nonneg
    · cases hdue
  · intro job_id hactive hstopped
    by_cases hold : job_id ∈ s.pool.active
    · exact hw.finished job_id hold ((hkept job_id hold hactive).symm.trans hstopped)
    · simp only [State.follow, hc.redis, if_true] at hstopped hactive
      rw [if_pos hactive, if_neg hold] at hstopped
      cases hstopped
  · intro job_id t ht hactive
    have hold := stepped_active _ _ h job_id (hs.flagged job_id t ht).1 hactive
    rcases hw.in_time job_id t ht hold with hdone | ⟨wake, e, hdue, hrest⟩
    · exact .inl hdone
    · exact .inr ⟨wake, e, (hkept job_id hold hactive).trans hdue, hrest⟩

theorem set_cancel_flag_watched (s : State) (hc : Tuned cfg ε) (hs : Requested s)
    (hw : Watched cfg ε s) (job_id : Str) (reply : Reply) :
    Watched cfg ε (s.set_cancel_flag cfg job_id reply) := by
  unfold State.set_cancel_flag
  dsimp only
  split
  · refine ⟨hw.soon, hw.finished, ?_⟩
    intro other t ht hactive
    rcases List.mem_cons.mp ht with heq | hold
    · cases heq
      cases hpoller : s.pollers job_id with
      | stopped =>
        obtain ⟨p, hp, hle⟩ := hw.finished job_id hactive hpoller
        refine .inl ⟨p, hp, ?_⟩
        linarith [hc.interval_nonneg, hc.delay_nonneg]
      | due wake =>
        exact .inr ⟨wake, _, hpoller, hw.soon job_id wake hpoller,
          ExpiringStore.write_same _ _ _ _, le_refl _⟩
    · rcases hw.in_time other t hold hactive with hdone | ⟨wake, e, hdue, hwake, hflag, hlife⟩
      · exact .inl hdone
      · by_cases hne : other = job_id
        · subst hne
          refine .inr ⟨wake, _, hdue, hwake, ExpiringStore.write_same _ _ _ _, ?_⟩
          dsimp only
          linarith [(hs.flagged other t hold).2]
        · exact .inr ⟨wake, e, hdue, hwake,
            (ExpiringStore.write_other _ _ _ _ _ hne).trans hflag, hlife⟩
  · exact ⟨hw.soon, hw.finished, hw.in_time⟩

/-- A turn that finds no flag: none was set in time for it. -/
theorem slept_watched (s : State) (hc : Tuned cfg ε) (hw : Watched cfg ε s) (job_id : Str)
    (hon : OnTime ε s) (hget : ExpiringStore.get s.flags s.clock job_id = none) :
    Watched cfg ε
      { s with pollers :=
          Function.update s.pollers job_id (.due (s.clock + cfg.cancel_poll_interval)) } := by
  constructor
  · intro other later hother
    by_cases hne : other = job_id
    · subst hne
      dsimp only at hother
      rw [Function.update_self] at hother
      cases hother
      exact le_refl _
    · dsimp only at hother
      rw [Function.update_of_ne hne] at hother
      exact hw.soon other later hother
  · intro other hactive hstopped
    by_cases hne : other = job_id
    · subst hne
      dsimp only at hstopped
      rw [Function.update_self] at hstopped
      cases hstopped
    · dsimp only at hstopped
      rw [Function.update_of_ne hne] at hstopped
      exact hw.finished other hactive hstopped
  · intro other t ht hactive
    rcases hw.in_time other t ht hactive with hdone | ⟨later, e, hother, hsoon, hflag, hlife⟩
    · exact .inl hdone
    · by_cases hne : other = job_id
      · subst hne
        have hexpired := (ExpiringStore.get_eq_none _ _ _).mp hget e hflag
        have hlate := hon.le hactive hother
        have httl := hc.within_ttl
        exfalso
        linarith
      · exact .inr ⟨later, e, (Function.update_of_ne hne _ _).trans hother, hsoon, hflag, hlife⟩

theorem cancel_task_watched (s : State) (hc : Tuned cfg ε) (hs : Requested s)
    (hw : Watched cfg ε s) (job_id : Str) (hon : OnTime ε s) :
    Watched cfg ε (s.cancel_task cfg job_id) := by
  obtain ⟨u, hu, heq⟩ := cancel_task_cases cfg s job_id
  have hu' : Watched cfg ε u ∧ u.cancelled = s.cancelled ∧ u.clock = s.clock ∧
      u.flagged = s.flagged ∧ (job_id ∈ u.pool.active → job_id ∈ s.pool.active ∨
        ¬ Started s.pool job_id) := by
    rcases hu with rfl | ⟨pool, hpool, rfl⟩
    · exact ⟨hw, rfl, rfl, rfl, .inl⟩
    · refine ⟨follow_watched cfg ε s pool hc hs hw hpool, rfl, rfl, rfl, ?_⟩
      intro hactive
      by_cases hstarted : Started s.pool job_id
      · exact .inl (stepped_active _ _ hpool job_id hstarted hactive)
      · exact .inr hstarted
  obtain ⟨hwu, hcancelled, hclock, hflagged, hactive_u⟩ := hu'
  rw [heq, ← hcancelled, ← hclock]
  constructor
  · intro other later hother
    by_cases hne : other = job_id
    · subst hne
      dsimp only at hother
      rw [Function.update_self] at hother
      cases hother
    · dsimp only at hother
      rw [Function.update_of_ne hne] at hother
      exact hwu.soon other later hother
  · intro other hactive hstopped
    by_cases hne : other = job_id
    · subst hne
      exact ⟨u.clock, List.mem_cons_self, le_refl _⟩
    · dsimp only at hstopped
      rw [Function.update_of_ne hne] at hstopped
      obtain ⟨p, hp, hle⟩ := hwu.finished other hactive hstopped
      exact ⟨p, List.mem_cons_of_mem _ hp, hle⟩
  · intro other t ht hactive
    by_cases hne : other = job_id
    · subst hne
      dsimp only at ht hactive
      rw [hflagged] at ht
      have hold : other ∈ s.pool.active :=
        (hactive_u hactive).resolve_right (fun h => h (hs.flagged other t ht).1)
      rcases hw.in_time other t ht hold with ⟨p, hp, hle⟩ | ⟨later, e, hother, hsoon, -, -⟩
      · exact .inl ⟨p, List.mem_cons_of_mem _ (hcancelled ▸ hp), hle⟩
      · have hlate := hon.le hold hother
        exact .inl ⟨u.clock, List.mem_cons_self, by rw [hclock]; linarith⟩
    · rcases hwu.in_time other t ht hactive with ⟨p, hp, hle⟩ | ⟨later, e, hother, hrest⟩
      · exact .inl ⟨p, List.mem_cons_of_mem _ hp, hle⟩
      · exact .inr ⟨later, e, (Function.update_of_ne hne _ _).trans hother, hrest⟩

theorem clear_cancel_flag_watched (s : State) (pool : Pool) (hc : Tuned cfg ε) (hs : Requested s)
    (hw : Watched cfg ε s) (h : Stepped s.pool pool) (job_id : Str) (reply : Reply)
    (hover : job_id ∉ s.pool.active) :
    Watched cfg ε ((s.follow cfg pool).clear_cancel_flag cfg job_id reply) := by
  have hf := follow_watched cfg ε s pool hc hs hw h
  unfold State.clear_cancel_flag
  split
  · refine ⟨hf.soon, hf.finished, ?_⟩
    intro other t ht hactive
    have hne : other ≠ job_id := by
      rintro rfl
      exact hover (stepped_active _ _ h other (hs.flagged other t ht).1 hactive)
    rcases hf.in_time other t ht hactive with hdone | ⟨wake, e, hdue, hwake, hflag, hlife⟩
    · exact .inl hdone
    · exact .inr ⟨wake, e, hdue, hwake, (Function.update_of_ne hne _ _).trans hflag, hlife⟩
  · exact hf

theorem moved_watched (s t : State) (l : Label) (hc : Tuned cfg ε) (hs : Requested s)
    (hw : Watched cfg ε s) (ha : Attended ε s l) (h : Moved cfg s l t) : Watched cfg ε t := by
  cases h with
  | pool l pool h => exact follow_watched cfg ε s pool hc hs hw h
  | refused job_id h => exact hw
  | requested job_id hactive => exact ⟨hw.soon, hw.finished, hw.in_time⟩
  | set_cancel_flag job_id reply hmem => exact set_cancel_flag_watched cfg ε s hc hs hw job_id reply
  | poll job_id reply wake _ _ =>
    rcases polled_cases cfg s job_id reply with ⟨hlost, _⟩ | ⟨_, hget, heq⟩ | ⟨_, _, heq⟩
    · exact absurd ha.2 hlost
    · rw [heq]
      exact slept_watched cfg ε s hc hw job_id ha.1 hget
    · rw [heq]
      exact cancel_task_watched cfg ε s hc hs hw job_id ha.1
  | clear_cancel_flag job_id reply pool h hover =>
    exact clear_cancel_flag_watched cfg ε s pool hc hs hw h job_id reply hover
  | elapse d =>
    have hd : (0 : ℚ) ≤ d := d.coe_nonneg
    refine ⟨?_, ?_, hw.in_time⟩
    · intro job_id wake hdue
      dsimp only
      linarith [hw.soon job_id wake hdue]
    · intro job_id hactive hstopped
      obtain ⟨p, hp, hle⟩ := hw.finished job_id hactive hstopped
      exact ⟨p, hp, hle.trans (le_add_of_nonneg_right hd)⟩

/-- A job that is still active one turn after its flag was set had its task cancelled
by then. -/
def CancelledInTime (s : State) : Prop :=
  OnTime ε s → ∀ job_id t, (job_id, t) ∈ s.flagged → job_id ∈ s.pool.active →
    t + cfg.cancel_poll_interval + ε < s.clock →
    ∃ p, (job_id, p) ∈ s.cancelled ∧ p ≤ t + cfg.cancel_poll_interval + ε

/-- While Redis answers the polls and no turn is more than `ε` late, a request that has
set its flag is carried out within one interval, unless the job is over first. -/
theorem cancelled_in_time (hc : Tuned cfg ε) (max_concurrent : ℕ) (ls : List Label)
    (ha : Along (step cfg) (Attended ε) (start max_concurrent) ls) :
    Throughout (step cfg) (CancelledInTime cfg ε) (start max_concurrent) ls := by
  have hkeep : ∀ s l t, step cfg s l = some t → Attended ε s l →
      Requested s ∧ Watched cfg ε s → Requested t ∧ Watched cfg ε t := by
    intro s l t hstep ha hs
    have hmoved := moved_of_step cfg s t l hs.1.pool hstep
    exact ⟨moved_requested cfg s t l hmoved hs.1, moved_watched cfg ε s t l hc hs.1 hs.2 ha hmoved⟩
  have hgood : ∀ s, Requested s ∧ Watched cfg ε s → CancelledInTime cfg ε s := by
    intro s hs hon job_id t ht hactive hlate
    rcases hs.2.in_time job_id t ht hactive with hdone | ⟨wake, e, hdue, hwake, -, -⟩
    · exact hdone
    · have hsoon := hon.le hactive hdue
      exfalso
      linarith
  exact throughout_of_invariant hkeep hgood
    ⟨start_requested max_concurrent, start_watched cfg ε max_concurrent⟩ ha

end Runs

instance decidablePollerOnTime (ε now : ℚ) : (p : Poller) → Decidable (p.OnTime ε now)
  | .due wake => inferInstanceAs (Decidable (now ≤ wake + ε))
  | .stopped => inferInstanceAs (Decidable True)

instance decidableOnTime (ε : ℚ) (s : State) : Decidable (OnTime ε s) :=
  inferInstanceAs (Decidable (∀ job_id ∈ s.pool.active, (s.pollers job_id).OnTime ε s.clock))

instance decidableAttended (ε : ℚ) (s : State) : (l : Label) → Decidable (Attended ε s l)
  | .poll _ reply => inferInstanceAs (Decidable (OnTime ε s ∧ reply = .ok))
  | .pool _ | .cancel _ | .set_cancel_flag _ _ | .clear_cancel_flag _ _ | .elapse _ =>
    inferInstanceAs (Decidable (OnTime ε s))

/-- The job `a` streams; its flag is set between two turns. -/
def stop_a : List Label :=
  [.pool (.submit ['a']), .pool (.job ['a'] .start), .pool (.acquire ['a']),
    .poll ['a'] .ok, .elapse 1, .cancel ['a'], .set_cancel_flag ['a'] .ok, .elapse 1, .elapse 1,
    .poll ['a'] .ok, .elapse 1, .elapse 1, .elapse 1]

theorem cancelled_in_time_stop_a :
    Throughout (step ⟨2, true⟩) (CancelledInTime ⟨2, true⟩ 1) (start 3) stop_a :=
  cancelled_in_time ⟨2, true⟩ 1 ⟨rfl, by norm_num, by norm_num, by norm_num [FLAG_TTL]⟩ 3 stop_a
    (by decide +kernel)

end AigentSquad.JobCancellation
