import Mathlib.Algebra.Order.Archimedean.Basic
import Mathlib.Algebra.Order.Field.Rat
import Mathlib.Data.NNRat.Defs
import Mathlib.Data.Rat.Floor
import Mathlib.Tactic.Linarith
import AigentSquad.WorkerPool

/-!
# The pool under a clock

Each step of the pool after a wait. A job keeps the moment it took its slot and
the moment it last asked its stream. The first chunk has the first-byte budget,
every later one the idle budget; `job_timeout` is stored and read nowhere.
-/

set_option autoImplicit false

namespace AigentSquad.JobBackstop
open AigentSquad.PyText AigentSquad.Transition AigentSquad.WorkerPool

structure Timeouts where
  max_concurrent : ℕ
  job_timeout : ℚ
  first_byte_timeout : ℚ
  idle_timeout : ℚ

structure Timed where
  pool : Pool
  now : ℚ
  since : Str → ℚ
  asked : Str → ℚ

/-- A step of the pool, `wait` after the step before. -/
structure Tick where
  wait : ℚ≥0
  label : WorkerPool.Label
deriving DecidableEq

def begin (cfg : Timeouts) : Timed :=
  ⟨WorkerPool.start cfg.max_concurrent, 0, fun _ => 0, fun _ => 0⟩

/-- The job that takes its slot. -/
def enters : WorkerPool.Label → Option Str
  | .acquire job_id => some job_id
  | .granted job_id => some job_id
  | _ => none

/-- The job that asks its stream for a chunk. -/
def asks : WorkerPool.Label → Option Str
  | .job job_id .resume => some job_id
  | l => enters l

def mark (moments : Str → ℚ) (job_id : Option Str) (now : ℚ) : Str → ℚ :=
  match job_id with
  | none => moments
  | some job_id => Function.update moments job_id now

def advance (s : Timed) (l : Tick) (pool : Pool) : Timed where
  pool := pool
  now := s.now + l.wait
  since := mark s.since (enters l.label) (s.now + l.wait)
  asked := mark s.asked (asks l.label) (s.now + l.wait)

def step (s : Timed) (l : Tick) : Option Timed :=
  (WorkerPool.step s.pool l.label).map (advance s l)

def Timeouts.budget (cfg : Timeouts) (job : Job) : ℚ :=
  if job.first_byte_seen then cfg.idle_timeout else cfg.first_byte_timeout

/-- No stream is waited for beyond its budget, and consumers and status writes
take no time. -/
def Punctual (cfg : Timeouts) (s : Timed) (l : Tick) : Prop :=
  ∀ job_id ∈ s.pool.active, ∀ job, s.pool.jobs job_id = some job →
    if job.phase = .awaiting then s.now + l.wait - s.asked job_id ≤ max 0 (cfg.budget job)
    else l.wait = 0

/-- No job has had its slot for longer than `job_timeout`. -/
def InTime (cfg : Timeouts) (s : Timed) (l : Tick) : Prop :=
  ∀ job_id ∈ s.pool.active, s.now + l.wait - s.since job_id ≤ cfg.job_timeout

/-! ## Where the budgets are a backstop -/

/-- What a job with a slot has used of its time. -/
structure Used (cfg : Timeouts) (s : Timed) (job_id : Str) (job : Job) : Prop where
  bounded : s.now - s.since job_id ≤ max 0 cfg.first_byte_timeout
  asked : s.asked job_id ≤ s.now
  yielded : job.phase = .yielded → job.first_byte_seen = true
  first : job.phase = .awaiting → job.first_byte_seen = false → s.asked job_id = s.since job_id

structure Timely (cfg : Timeouts) (s : Timed) : Prop where
  pool : Invariant s.pool
  used : ∀ job_id ∈ s.pool.active, ∀ job, s.pool.jobs job_id = some job →
    Used cfg s job_id job

theorem begin_timely (cfg : Timeouts) : Timely cfg (begin cfg) where
  pool := start_invariant cfg.max_concurrent
  used := fun _ h => by cases h

/-- With no time for a chunk but the first, a slot is held for the first budget at most. -/
theorem used_waits (cfg : Timeouts) (hidle : cfg.idle_timeout ≤ 0) (s : Timed) (l : Tick)
    (job_id : Str) (job : Job) (hactive : job_id ∈ s.pool.active)
    (hjob : s.pool.jobs job_id = some job) (hused : Used cfg s job_id job)
    (hp : Punctual cfg s l) : s.now + l.wait - s.since job_id ≤ max 0 cfg.first_byte_timeout := by
  have hwait := hp job_id hactive job hjob
  have hbounded := hused.bounded
  by_cases hphase : job.phase = .awaiting
  · rw [if_pos hphase] at hwait
    cases hseen : job.first_byte_seen with
    | false =>
      rw [hused.first hphase hseen] at hwait
      simpa [Timeouts.budget, hseen] using hwait
    | true =>
      have hzero : max 0 (cfg.budget job) = 0 := by
        rw [Timeouts.budget, hseen]
        exact max_eq_left hidle
      rw [hzero] at hwait
      have hasked := hused.asked
      linarith
  · rw [if_neg hphase] at hwait
    rw [hwait]
    simpa using hbounded

theorem put_jobs_other (p : Pool) (id job_id : Str) (job : Job) (h : job_id ≠ id) :
    (p.put id job).jobs job_id = p.jobs job_id :=
  Function.update_of_ne h _ _

theorem put_jobs_same (p : Pool) (id : Str) (job : Job) : (p.put id job).jobs id = some job :=
  Function.update_self _ _ _

theorem register_cases (p r : Pool) (id job_id : Str) (job job' : Job)
    (hjobs : r.jobs = p.jobs) (hactive : r.active = p.active)
    (hid : job_id ∈ (r.register id job).active)
    (hjob : (r.register id job).jobs job_id = some job') :
    (job_id = id ∧ job'.phase = .awaiting) ∨
      (job_id ≠ id ∧ job_id ∈ p.active ∧ p.jobs job_id = some job') := by
  have hjob' : Function.update r.jobs id
      (some { job with phase := .awaiting, acquired := job.acquired + 1 }) job_id = some job' :=
    hjob
  by_cases hne : job_id = id
  · subst hne
    rw [Function.update_self, Option.some.injEq] at hjob'
    exact .inl ⟨rfl, hjob' ▸ rfl⟩
  · rw [Function.update_of_ne hne, hjobs] at hjob'
    have hmem : job_id ∈ r.active.insert id := hid
    rw [List.mem_insert_iff, hactive] at hmem
    exact .inr ⟨hne, hmem.resolve_left hne, hjob'⟩

/-- A job that is given a slot, and those that already had one. -/
theorem registered_cases (p r : Pool) (l : WorkerPool.Label) (id job_id : Str) (job job' : Job)
    (henters : enters l = some id) (hasks : asks l = some id) (hjobs : r.jobs = p.jobs)
    (hactive : r.active = p.active) (hid : job_id ∈ (r.register id job).active)
    (hjob : (r.register id job).jobs job_id = some job') :
    (enters l = some job_id ∧ asks l = some job_id ∧ job'.phase = .awaiting) ∨
    (job_id ∈ p.active ∧ enters l ≠ some job_id ∧ ∃ job, p.jobs job_id = some job ∧
      ((asks l ≠ some job_id ∧ job' = job) ∨
        ∃ event effect, l = .job job_id event ∧ job.step event = some (job', effect))) := by
  rw [henters, hasks]
  rcases register_cases p r id job_id job job' hjobs hactive hid hjob with
    ⟨rfl, hphase⟩ | ⟨hne, hmem, hold⟩
  · exact .inl ⟨rfl, rfl, hphase⟩
  · have hother : some id ≠ some job_id := fun h => hne (Option.some.inj h).symm
    exact .inr ⟨hmem, hother, job', hold, .inl ⟨hother, rfl⟩⟩

/-- Where an active job comes from. -/
theorem active_cases (p q : Pool) (l : WorkerPool.Label) (job_id : Str) (job' : Job)
    (hp : Invariant p) (h : WorkerPool.step p l = some q) (hid : job_id ∈ q.active)
    (hjob : q.jobs job_id = some job') :
    (enters l = some job_id ∧ asks l = some job_id ∧ job'.phase = .awaiting) ∨
    (job_id ∈ p.active ∧ enters l ≠ some job_id ∧ ∃ job, p.jobs job_id = some job ∧
      ((asks l ≠ some job_id ∧ job' = job) ∨
        ∃ event effect, l = .job job_id event ∧ job.step event = some (job', effect))) := by
  cases l with
  | submit id =>
    simp only [WorkerPool.step] at h
    split at h
    · cases h
    · next hnew =>
      split at h
      · cases h
        have hactive : job_id ∈ p.active := hid
        have hne : job_id ≠ id := by
          rintro rfl
          exact (hp.unknown job_id hnew).1 hactive
        rw [put_jobs_other p id job_id {} hne] at hjob
        exact .inr ⟨hactive, by simp [enters], job', hjob, .inl ⟨by simp [asks, enters], rfl⟩⟩
      · cases h
        exact .inr ⟨hid, by simp [enters], job', hjob, .inl ⟨by simp [asks, enters], rfl⟩⟩
  | acquire id =>
    simp only [WorkerPool.step] at h
    split at h
    · cases h
    · next job hold =>
      obtain ⟨_, h⟩ := Option.ite_none_right_eq_some.mp h
      cases h
      exact registered_cases p _ _ id job_id job job' rfl rfl rfl rfl hid hjob
  | hand_over id =>
    simp only [WorkerPool.step] at h
    split at h
    · cases h
    · next job hold =>
      obtain ⟨⟨hwaiting, _⟩, h⟩ := Option.ite_none_right_eq_some.mp h
      cases h
      have hactive : job_id ∈ p.active := hid
      have hne : job_id ≠ id := by
        rintro rfl
        have hholds := (hp.entered job_id job hold).active.mp hactive
        rw [hwaiting] at hholds
        exact Bool.false_ne_true hholds
      have hjob' : p.jobs job_id = some job' := (put_jobs_other p id job_id _ hne).symm.trans hjob
      exact .inr ⟨hactive, by simp [enters], job', hjob', .inl ⟨by simp [asks, enters], rfl⟩⟩
  | granted id =>
    simp only [WorkerPool.step] at h
    split at h
    · cases h
    · next job hold =>
      obtain ⟨_, h⟩ := Option.ite_none_right_eq_some.mp h
      cases h
      exact registered_cases p _ _ id job_id job job' rfl rfl rfl rfl hid hjob
  | job id event =>
    simp only [WorkerPool.step] at h
    split at h
    · cases h
    · next job hold =>
      obtain ⟨⟨job₁, effect⟩, hstep, rfl⟩ := Option.map_eq_some_iff.mp h
      have hactive : job_id ∈ p.active := by
        cases effect with
        | stay => exact hid
        | leave => exact List.mem_of_mem_erase hid
        | give_back => exact hid
      refine .inr ⟨hactive, by simp [enters], ?_⟩
      have hjobs : (p.apply id job₁ effect).jobs = (p.put id job₁).jobs := by
        cases effect <;> rfl
      rw [hjobs] at hjob
      by_cases hne : job_id = id
      · subst hne
        rw [put_jobs_same, Option.some.injEq] at hjob
        subst hjob
        exact ⟨job, hold, .inr ⟨event, effect, rfl, hstep⟩⟩
      · rw [put_jobs_other p id job_id job₁ hne] at hjob
        have hasks : asks (.job id event) ≠ some job_id := by
          cases event <;> simp [asks, enters, Ne.symm hne]
        exact ⟨job', hjob, .inl ⟨hasks, rfl⟩⟩

theorem mark_same (moments : Str → ℚ) (job_id : Str) (now : ℚ) :
    mark moments (some job_id) now job_id = now := by
  simp [mark]

theorem mark_other (moments : Str → ℚ) (job_id : Str) (id : Option Str) (now : ℚ)
    (h : id ≠ some job_id) : mark moments id now job_id = moments job_id := by
  unfold mark
  split
  · rfl
  · next other =>
    have hne : job_id ≠ other := fun hn => h (by rw [hn])
    simp [hne]

theorem step_timely (cfg : Timeouts) (hidle : cfg.idle_timeout ≤ 0) (s : Timed) (l : Tick)
    (t : Timed) (h : step s l = some t) (hp : Punctual cfg s l) (hs : Timely cfg s) :
    Timely cfg t := by
  obtain ⟨q, hq, rfl⟩ := Option.map_eq_some_iff.mp h
  have hle : s.now ≤ s.now + (l.wait : ℚ) := le_add_of_nonneg_right l.wait.coe_nonneg
  constructor
  · exact stepped_invariant s.pool q (stepped_of_step s.pool q l.label hq) hs.pool
  · intro job_id hid job' hjob'
    rcases active_cases s.pool q l.label job_id job' hs.pool hq hid hjob' with
      ⟨henters, hasks, hphase⟩ | ⟨hactive, henters, job, hjob, hcase⟩
    · have hsince : (advance s l q).since job_id = s.now + l.wait := by
        simp [advance, henters, mark_same]
      have hasked : (advance s l q).asked job_id = s.now + l.wait := by
        simp [advance, hasks, mark_same]
      constructor
      · rw [hsince]
        simp [advance]
      · rw [hasked]
        exact le_refl _
      · exact fun hy => by rw [hphase] at hy; cases hy
      · exact fun _ _ => hasked.trans hsince.symm
    · have hused := hs.used job_id hactive job hjob
      have hwaits := used_waits cfg hidle s l job_id job hactive hjob hused hp
      have hsince : (advance s l q).since job_id = s.since job_id :=
        mark_other s.since job_id (enters l.label) (s.now + l.wait) henters
      rcases hcase with ⟨hasks, rfl⟩ | ⟨event, effect, hlabel, hstep⟩
      · have hasked : (advance s l q).asked job_id = s.asked job_id :=
          mark_other s.asked job_id (asks l.label) (s.now + l.wait) hasks
        constructor
        · rw [hsince]
          exact hwaits
        · rw [hasked]
          exact le_trans hused.asked hle
        · exact hused.yielded
        · rw [hsince, hasked]
          exact hused.first
      · obtain ⟨hawaiting, hyielded, _⟩ := job_step_phase job job' event effect hstep
        constructor
        · rw [hsince]
          exact hwaits
        · by_cases hasks : asks l.label = some job_id
          · simp [advance, hasks, mark_same]
          · rw [show (advance s l q).asked job_id = s.asked job_id from
              mark_other s.asked job_id _ _ hasks]
            exact le_trans hused.asked hle
        · exact hyielded
        · intro hphase hseen
          obtain ⟨hsame, hcome⟩ := hawaiting hphase
          rw [hsame] at hseen
          rcases hcome with ⟨_, hfrom⟩ | ⟨hresume, hfrom⟩
          · rw [hused.yielded hfrom] at hseen
            cases hseen
          · have hasks : asks l.label ≠ some job_id := by
              rw [hlabel]
              cases event <;> simp [asks, enters] at hresume ⊢
            rw [hsince, show (advance s l q).asked job_id = s.asked job_id from
              mark_other s.asked job_id _ _ hasks]
            exact hused.first hfrom hseen

/-- A pool that admits nothing has no active job. -/
theorem none_active (p : Pool) (hp : Invariant p) (hmax : p.max = 0) : p.active = [] := by
  have hpermits := hp.permits
  rw [hmax] at hpermits
  exact List.eq_nil_of_length_eq_zero (by omega)

theorem active_known (p : Pool) (hp : Invariant p) (job_id : Str) (hid : job_id ∈ p.active) :
    ∃ job, p.jobs job_id = some job := by
  cases hjob : p.jobs job_id with
  | none => exact absurd hid (hp.unknown job_id hjob).1
  | some job => exact ⟨job, rfl⟩

/-! ## A stream that drips -/

def dripping : Str := "drip".toList

def job_step (wait : ℚ≥0) (event : Event) : Tick := ⟨wait, .job dripping event⟩

/-- A chunk that takes its whole budget, and a consumer that takes no time. -/
def chunk (wait : ℚ≥0) : List Tick :=
  [job_step wait (.produce "data".toList), job_step 0 .deliver]

def drips (idle : ℚ≥0) : ℕ → List Tick
  | 0 => []
  | n + 1 => job_step 0 .resume :: chunk idle ++ drips idle n

def opening : List Tick :=
  [⟨0, .submit dripping⟩, job_step 0 .start, ⟨0, .acquire dripping⟩]

/-- The only active job is at this point. -/
structure Alone (s : Timed) (job : Job) : Prop where
  active : s.pool.active = [dripping]
  known : s.pool.jobs dripping = some job

theorem opened (cfg : Timeouts) (h : 0 < cfg.max_concurrent) :
    ∃ s, exec step (begin cfg) opening = some s ∧ Along step (Punctual cfg) (begin cfg) opening ∧
      Alone s { phase := .awaiting, acquired := 1 } ∧ s.now = 0 ∧ s.since dripping = 0 ∧
      s.asked dripping = 0 := by
  obtain ⟨max, timeout, first, idle⟩ := cfg
  obtain ⟨k, rfl⟩ : ∃ k, max = k + 1 := Nat.exists_eq_add_one.mpr h
  refine ⟨_, rfl, ?_, ⟨rfl, rfl⟩, by simp [advance, begin, job_step], ?_, ?_⟩
  · refine ⟨fun _ hid => (List.not_mem_nil hid).elim, fun s hs => ?_⟩
    cases hs
    refine ⟨fun _ hid => (List.not_mem_nil hid).elim, fun s hs => ?_⟩
    cases hs
    exact ⟨fun _ hid => (List.not_mem_nil hid).elim, fun _ _ => trivial⟩
  · simp [advance, begin, mark, enters, job_step]
  · simp [advance, begin, mark, enters, asks, job_step]

/-- A step of the only active job, that keeps its slot. -/
theorem alone_step (s : Timed) (wait : ℚ≥0) (event : Event) (job job' : Job) (hs : Alone s job)
    (h : job.step event = some (job', .stay)) :
    ∃ t, step s (job_step wait event) = some t ∧ Alone t job' ∧ t.now = s.now + wait ∧
      t.since dripping = s.since dripping ∧
      t.asked dripping = if event = .resume then s.now + wait else s.asked dripping := by
  refine ⟨advance s (job_step wait event) (s.pool.put dripping job'), ?_, ⟨hs.active, ?_⟩, rfl,
    rfl, ?_⟩
  · simp [step, job_step, WorkerPool.step, hs.known, h, Pool.apply]
  · exact put_jobs_same s.pool dripping job'
  · cases event <;> simp [advance, job_step, asks, enters, mark]

theorem alone_punctual (cfg : Timeouts) (s : Timed) (l : Tick) (job : Job) (hs : Alone s job) :
    Punctual cfg s l ↔ if job.phase = .awaiting
      then s.now + l.wait - s.asked dripping ≤ max 0 (cfg.budget job) else l.wait = 0 := by
  unfold Punctual
  rw [hs.active]
  simp [hs.known]

theorem alone_in_time (cfg : Timeouts) (s : Timed) (l : Tick) (job : Job) (hs : Alone s job) :
    InTime cfg s l ↔ s.now + l.wait - s.since dripping ≤ cfg.job_timeout := by
  unfold InTime
  rw [hs.active]
  simp

/-- A job at its `yield`, past its first byte. -/
structure Yielding (s : Timed) (job : Job) : Prop extends Alone s job where
  phase : job.phase = .yielded
  free : job.in_flight = none
  seen : job.first_byte_seen = true

/-- A chunk asked for at this moment comes at the end of its budget. -/
theorem chunk_run (cfg : Timeouts) (s : Timed) (job : Job) (wait : ℚ≥0) (ls : List Tick)
    (hs : Alone s job) (hphase : job.phase = .awaiting) (hfree : job.in_flight = none)
    (hasked : s.asked dripping = s.now) (hwait : (wait : ℚ) = max 0 (cfg.budget job)) :
    ∃ t job', Yielding t job' ∧ t.now = s.now + wait ∧ t.since dripping = s.since dripping ∧
      (Along step (Punctual cfg) t ls → Along step (Punctual cfg) s (chunk wait ++ ls)) ∧
      (Along step (InTime cfg) s (chunk wait ++ ls) →
        s.now + wait - s.since dripping ≤ cfg.job_timeout ∧ Along step (InTime cfg) t ls) := by
  let job₁ : Job :=
    { job with produced := job.produced ++ ["data".toList], in_flight := some "data".toList }
  let job₂ : Job :=
    { job₁ with phase := .yielded, first_byte_seen := true, in_flight := none
                received := job₁.received ++ ["data".toList] }
  have hproduce : job.step (.produce "data".toList) = some (job₁, .stay) := by
    simp [Job.step, hphase, hfree, job₁]
  have hdeliver : job₁.step .deliver = some (job₂, .stay) := by
    simp [Job.step, hphase, job₁, job₂]
  obtain ⟨u, hu, hu₁, hunow, husince, huasked⟩ := alone_step s wait _ _ _ hs hproduce
  obtain ⟨t, ht, ht₂, htnow, htsince, -⟩ := alone_step u 0 _ _ _ hu₁ hdeliver
  have hnow : t.now = s.now + wait := by
    rw [htnow, hunow]
    simp
  refine ⟨t, job₂, ⟨ht₂, rfl, rfl, rfl⟩, hnow, htsince.trans husince, ?_, ?_⟩
  · intro hrest
    refine (along_cons_of_step hu).mpr ⟨?_, (along_cons_of_step ht).mpr ⟨?_, hrest⟩⟩
    · rw [alone_punctual cfg s _ job hs, if_pos hphase, hasked, ← hwait]
      simp [job_step]
    · rw [alone_punctual cfg u _ job₁ hu₁, if_pos hphase, hunow, huasked, if_neg (by simp),
        hasked, show cfg.budget job₁ = cfg.budget job from rfl, ← hwait]
      simp [job_step]
  · intro hall
    obtain ⟨hfirst, hall⟩ := (along_cons_of_step hu).mp hall
    obtain ⟨-, hall⟩ := (along_cons_of_step ht).mp hall
    exact ⟨(alone_in_time cfg s _ job hs).mp hfirst, hall⟩

/-- Each drip holds the slot for another idle budget. -/
theorem drips_run (cfg : Timeouts) (n : ℕ) (s : Timed) (job : Job) (idle : ℚ≥0)
    (hs : Yielding s job) (hidle : (idle : ℚ) = max 0 cfg.idle_timeout) :
    Along step (Punctual cfg) s (drips idle n) ∧
      (Along step (InTime cfg) s (drips idle n) →
        s.now - s.since dripping ≤ cfg.job_timeout →
        s.now + n * idle - s.since dripping ≤ cfg.job_timeout) := by
  induction n generalizing s job with
  | zero => exact ⟨trivial, fun _ h => by simpa using h⟩
  | succ n ih =>
    have hresume : job.step .resume = some ({ job with phase := .awaiting }, .stay) := by
      simp [Job.step, hs.phase]
    obtain ⟨u, hu, hu₁, hunow, husince, huasked⟩ := alone_step s 0 _ _ _ hs.toAlone hresume
    have hnow : u.now = s.now := by simpa using hunow
    have hasked : u.asked dripping = u.now := by
      rw [huasked, if_pos rfl, hunow]
    have hbudget : (idle : ℚ) = max 0 (cfg.budget { job with phase := .awaiting }) := by
      simp [Timeouts.budget, hs.seen, hidle]
    obtain ⟨t, job', ht, htnow, htsince, hpunctual, htime⟩ :=
      chunk_run cfg u _ idle (drips idle n) hu₁ rfl hs.free hasked hbudget
    obtain ⟨hrest, hlate⟩ := ih t job' ht
    constructor
    · refine (along_cons_of_step hu).mpr ⟨?_, hpunctual hrest⟩
      rw [alone_punctual cfg s _ job hs.toAlone, if_neg (by rw [hs.phase]; exact Phase.noConfusion)]
      rfl
    · intro hall _
      obtain ⟨-, hall⟩ := (along_cons_of_step hu).mp hall
      obtain ⟨hfirst, hall⟩ := htime hall
      have hend := hlate hall (by rw [htnow, htsince]; exact hfirst)
      rw [htnow, htsince, husince, hnow] at hend
      push_cast
      linarith

/-- `n` drips after the first chunk. -/
def dripping_run (cfg : Timeouts) (n : ℕ) : List Tick :=
  opening ++ (chunk cfg.first_byte_timeout.toNNRat ++ drips cfg.idle_timeout.toNNRat n)

theorem dripping_outlasts (cfg : Timeouts) (n : ℕ) (h : 0 < cfg.max_concurrent) :
    Along step (Punctual cfg) (begin cfg) (dripping_run cfg n) ∧
      (Along step (InTime cfg) (begin cfg) (dripping_run cfg n) →
        max 0 cfg.first_byte_timeout + n * max 0 cfg.idle_timeout ≤ cfg.job_timeout) := by
  have hfirst : (cfg.first_byte_timeout.toNNRat : ℚ) = max 0 cfg.first_byte_timeout :=
    max_comm _ _
  have hidle : (cfg.idle_timeout.toNNRat : ℚ) = max 0 cfg.idle_timeout :=
    max_comm _ _
  obtain ⟨s, hs, hopening, halone, hnow, hsince, hasked⟩ := opened cfg h
  obtain ⟨t, job, ht, htnow, htsince, hpunctual, htime⟩ := chunk_run cfg s _
    cfg.first_byte_timeout.toNNRat (drips cfg.idle_timeout.toNNRat n) halone rfl rfl
    (hasked.trans hnow.symm) hfirst
  obtain ⟨hrest, hlate⟩ := drips_run cfg n t job _ ht hidle
  constructor
  · refine (along_append step _ _ opening _).mpr ⟨hopening, fun u hu => ?_⟩
    rw [hs, Option.some.injEq] at hu
    exact hu ▸ hpunctual hrest
  · intro hall
    obtain ⟨hin, hall⟩ := htime (((along_append step _ _ opening _).mp hall).2 s hs)
    have hend := hlate hall (by rw [htnow, htsince]; exact hin)
    rw [htnow, htsince, hnow, hsince, hfirst, hidle] at hend
    linarith

/-- `job_timeout` bounds how long a slot is held, for every stream that keeps its
budgets, exactly where no slot is given or the first budget alone is bounded by it
and there is no idle budget. -/
theorem backstop_iff (cfg : Timeouts) :
    (∀ ls, Along step (Punctual cfg) (begin cfg) ls → Along step (InTime cfg) (begin cfg) ls) ↔
      cfg.max_concurrent = 0 ∨
        (cfg.idle_timeout ≤ 0 ∧ max 0 cfg.first_byte_timeout ≤ cfg.job_timeout) := by
  constructor
  · intro h
    rcases Nat.eq_zero_or_pos cfg.max_concurrent with hzero | hpos
    · exact .inl hzero
    · have hbound : ∀ n : ℕ,
          max 0 cfg.first_byte_timeout + n * max 0 cfg.idle_timeout ≤ cfg.job_timeout := by
        intro n
        obtain ⟨hpunctual, hlate⟩ := dripping_outlasts cfg n hpos
        exact hlate (h _ hpunctual)
      refine .inr ⟨?_, by simpa using hbound 0⟩
      by_contra hidle
      rw [not_le] at hidle
      obtain ⟨n, hn⟩ := exists_nat_gt (cfg.job_timeout / cfg.idle_timeout)
      rw [div_lt_iff₀ hidle] at hn
      have hdrip := hbound n
      rw [max_eq_right hidle.le] at hdrip
      have hfirst := le_max_left 0 cfg.first_byte_timeout
      linarith
  · rintro (hzero | ⟨hidle, hfirst⟩) ls hall
    · have hstart : Invariant (begin cfg).pool ∧ (begin cfg).pool.max = 0 :=
        ⟨start_invariant cfg.max_concurrent, hzero⟩
      apply along_of_invariant (I := fun s => Invariant s.pool ∧ s.pool.max = 0) ?_ ?_ hstart hall
      · intro s l t ht _ hs
        obtain ⟨q, hq, rfl⟩ := Option.map_eq_some_iff.mp ht
        have hstepped := stepped_of_step s.pool q l.label hq
        exact ⟨stepped_invariant s.pool q hstepped hs.1,
          (stepped_max s.pool q hstepped).trans hs.2⟩
      · intro s l _ hs job_id hid
        rw [none_active s.pool hs.1 hs.2] at hid
        cases hid
    · apply along_of_invariant (step_timely cfg hidle) ?_ (begin_timely cfg) hall
      intro s l hp hs job_id hid
      obtain ⟨job, hjob⟩ := active_known s.pool hs.pool job_id hid
      exact le_trans (used_waits cfg hidle s l job_id job hid hjob
        (hs.used job_id hid job hjob) hp) hfirst

/-- The defaults: two chunks after the first, each at the end of its budget. -/
theorem drip_outlasts_default :
    ¬ (∀ ls, Along step (Punctual ⟨20, 150, 90, 35⟩) (begin ⟨20, 150, 90, 35⟩) ls →
      Along step (InTime ⟨20, 150, 90, 35⟩) (begin ⟨20, 150, 90, 35⟩) ls) := by
  intro h
  obtain ⟨hpunctual, hlate⟩ := dripping_outlasts ⟨20, 150, 90, 35⟩ 2 (by decide)
  have hend := hlate (h _ hpunctual)
  norm_num at hend

end AigentSquad.JobBackstop
