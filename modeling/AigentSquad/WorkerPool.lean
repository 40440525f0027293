import AigentSquad.PyText
import AigentSquad.Transition
import Mathlib.Logic.Function.Basic
import Mathlib.Data.List.Nodup

/-!
# The worker pool of the gateway

`WorkerPool` as one machine. Each job is a generator that waits for a permit of
the semaphore, hands the chunks of its backend stream to its consumer, and
leaves through one of its exits. A step of a job runs from one `await` or
`yield` to the next, so what stands between two of them happens at once; a run
is one interleaving of the steps of all jobs. A permit that `release` hands to a
waiter is neither free nor in use until the waiter's `acquire` returns.
-/

set_option autoImplicit false

namespace AigentSquad.WorkerPool
open AigentSquad.PyText AigentSquad.Transition

inductive Status where
  | completed
  | cancelled
  | failed
  | first_byte_timeout
  | idle_timeout
deriving DecidableEq, Repr

/-- Where the generator of a job is suspended. -/
inductive Phase where
  | submitted
  /-- in `acquire` -/
  | waiting
  /-- in `acquire`, with a permit set aside by a `release` -/
  | handed
  /-- in `wait_for(stream.__anext__())` -/
  | awaiting
  /-- at `yield chunk` -/
  | yielded
  /-- in `_update_status` -/
  | updating (status : Status)
  /-- in `_clear_cancel_flag`, the permit released -/
  | clearing
  /-- in `stream.aclose()` -/
  | closing
  | ended
deriving DecidableEq, Repr

structure Job where
  phase : Phase := .submitted
  first_byte_seen : Bool := false
  /-- what the backend stream has given -/
  produced : List Str := []
  /-- the chunk on its way from the stream to the consumer -/
  in_flight : Option Str := none
  received : List Str := []
  /-- the last status the job set -/
  outcome : Option Status := none
  acquired : ℕ := 0
  released : ℕ := 0
deriving DecidableEq

/-- What a step of a job does to the pool. -/
inductive Effect where
  | stay
  /-- the `finally` block: the job is popped and its permit released -/
  | leave
  /-- a cancelled waiter returns the permit that was set aside for it -/
  | give_back
deriving DecidableEq, Repr

inductive Event where
  | start
  | produce (chunk : Str)
  | deliver
  | resume
  | exhaust
  | timeout
  /-- `unreported`: one of the pool's own timeouts, or no `Exception` at all -/
  | backend_error (unreported : Bool)
  /-- by the polling task, or from outside -/
  | cancel
  | close
  | status_updated
  | flag_cleared
  | stream_closed
deriving DecidableEq, Repr

def Job.update_status (job : Job) (status : Status) : Job :=
  { job with phase := .updating status, outcome := some status }

def Job.leave (job : Job) : Job :=
  { job with phase := .clearing, released := job.released + 1 }

/-- `CancelledError` raised where the job is suspended. -/
def Job.cancel (job : Job) : Option (Job × Effect) :=
  match job.phase with
  | .submitted => none
  | .waiting => some ({ job with phase := .ended }, .stay)
  | .handed => some ({ job with phase := .ended }, .give_back)
  | .awaiting => some (job.update_status .cancelled, .stay)
  | .yielded => none
  -- raised in an `except` block: no other handler of the same `try` sees it
  | .updating .cancelled => some (job.leave, .leave)
  | .updating .failed => some (job.leave, .leave)
  | .updating _ => some (job.update_status .cancelled, .stay)
  | .clearing => some ({ job with phase := .ended }, .stay)
  | .closing => some ({ job with phase := .ended }, .stay)
  | .ended => none

def Job.step (job : Job) : Event → Option (Job × Effect)
  | .start =>
    if job.phase = .submitted then some ({ job with phase := .waiting }, .stay) else none
  | .produce chunk =>
    if job.phase = .awaiting ∧ job.in_flight = none then
      some ({ job with produced := job.produced ++ [chunk], in_flight := some chunk }, .stay)
    else none
  | .deliver =>
    match job.in_flight with
    | some chunk =>
      if job.phase = .awaiting then
        some ({ job with phase := .yielded, first_byte_seen := true, in_flight := none,
                         received := job.received ++ [chunk] }, .stay)
      else none
    | none => none
  | .resume =>
    if job.phase = .yielded then some ({ job with phase := .awaiting }, .stay) else none
  | .exhaust =>
    if job.phase = .awaiting ∧ job.in_flight = none then
      some (job.update_status .completed, .stay)
    else none
  | .timeout =>
    if job.phase = .awaiting then
      some (job.update_status (if job.first_byte_seen then .idle_timeout else .first_byte_timeout),
        .stay)
    else none
  | .backend_error unreported =>
    if job.phase = .awaiting then
      if unreported then some (job.leave, .leave) else some (job.update_status .failed, .stay)
    else none
  | .cancel => job.cancel
  | .close =>
    if job.phase = .submitted then some ({ job with phase := .ended }, .stay)
    else if job.phase = .yielded then some (job.leave, .leave)
    else none
  | .status_updated =>
    match job.phase with
    | .updating _ => some (job.leave, .leave)
    | _ => none
  | .flag_cleared =>
    if job.phase = .clearing then some ({ job with phase := .closing }, .stay) else none
  | .stream_closed =>
    if job.phase = .closing then some ({ job with phase := .ended }, .stay) else none

/-! ## The pool -/

structure Pool where
  max : ℕ
  /-- the counter of the semaphore -/
  value : ℕ
  /-- the waiters a permit is set aside for -/
  handed : List Str
  /-- how often `acquire` has returned -/
  acquires : ℕ
  /-- how often `release` was called -/
  releases : ℕ
  active : List Str
  jobs : Str → Option Job

def start (max_concurrent : ℕ) : Pool :=
  ⟨max_concurrent, max_concurrent, [], 0, 0, [], fun _ => none⟩

def Pool.in_use (p : Pool) : ℕ := p.acquires - p.releases

def Pool.available (p : Pool) : ℕ := p.max - p.active.length

def Pool.has_capacity (p : Pool) : Bool := 0 < p.available

def Pool.put (p : Pool) (job_id : Str) (job : Job) : Pool :=
  { p with jobs := Function.update p.jobs job_id (some job) }

/-- `acquire` has returned: the job is active and asks its stream. -/
def Pool.register (p : Pool) (job_id : Str) (job : Job) : Pool :=
  { p.put job_id { job with phase := .awaiting, acquired := job.acquired + 1 } with
    active := p.active.insert job_id, acquires := p.acquires + 1 }

def Pool.apply (p : Pool) (job_id : Str) (job : Job) : Effect → Pool
  | .stay => p.put job_id job
  | .leave => { p.put job_id job with active := p.active.erase job_id, value := p.value + 1,
                                      releases := p.releases + 1 }
  | .give_back => { p.put job_id job with handed := p.handed.erase job_id, value := p.value + 1 }

inductive Label where
  | submit (job_id : Str)
  /-- `acquire` takes a free permit -/
  | acquire (job_id : Str)
  /-- a free permit is set aside for a waiter -/
  | hand_over (job_id : Str)
  /-- `acquire` returns with the permit set aside -/
  | granted (job_id : Str)
  | job (job_id : Str) (event : Event)
deriving DecidableEq, Repr

/-- Job ids are distinct: a second submission of one is no step. A submission
without capacity raises `PoolFullError`. -/
def step (p : Pool) : Label → Option Pool
  | .submit job_id =>
    match p.jobs job_id with
    | some _ => none
    | none => if p.has_capacity then some (p.put job_id {}) else some p
  | .acquire job_id =>
    match p.jobs job_id with
    | none => none
    | some job =>
      if job.phase = .waiting ∧ 0 < p.value then
        some ({ p with value := p.value - 1 }.register job_id job)
      else none
  | .hand_over job_id =>
    match p.jobs job_id with
    | none => none
    | some job =>
      if job.phase = .waiting ∧ 0 < p.value then
        some { p.put job_id { job with phase := .handed } with
               value := p.value - 1, handed := p.handed.insert job_id }
      else none
  | .granted job_id =>
    match p.jobs job_id with
    | none => none
    | some job =>
      if job.phase = .handed then
        some ({ p with handed := p.handed.erase job_id }.register job_id job)
      else none
  | .job job_id event =>
    match p.jobs job_id with
    | none => none
    | some job => (job.step event).map (fun out => p.apply job_id out.1 out.2)

/-! ## A job on its own -/

/-- The job has its permit. -/
def Phase.holds : Phase → Bool
  | .awaiting => true
  | .yielded => true
  | .updating _ => true
  | _ => false

/-- The job has no permit yet. -/
def Phase.early : Phase → Bool
  | .submitted => true
  | .waiting => true
  | .handed => true
  | _ => false

/-- The job has set no status. -/
def Phase.running : Phase → Bool
  | .awaiting => true
  | .yielded => true
  | phase => phase.early

/-- How a job comes to ask its stream and to hold a chunk for its consumer, and that
it is not back where it had no slot yet. -/
theorem job_step_phase (job job' : Job) (event : Event) (effect : Effect)
    (h : job.step event = some (job', effect)) :
    (job'.phase = .awaiting → job'.first_byte_seen = job.first_byte_seen ∧
      (event = .resume ∧ job.phase = .yielded ∨ event ≠ .resume ∧ job.phase = .awaiting)) ∧
    (job'.phase = .yielded → job'.first_byte_seen = true) ∧
    (job'.phase.early = true → job.phase.early = true) := by
  cases event <;> grind [Job.step, Job.cancel, Job.update_status, Job.leave, Phase.early]

structure Kept (job : Job) : Prop where
  flow : job.produced = job.received ++ job.in_flight.toList
  early : job.phase.early → job.acquired = 0 ∧ job.released = 0
  holding : job.phase.holds → job.acquired = 1 ∧ job.released = 0
  past : ¬ job.phase.early → ¬ job.phase.holds → job.released = job.acquired ∧ job.acquired ≤ 1
  running : job.phase.running → job.outcome = none
  completed : job.outcome = some .completed → job.in_flight = none

theorem fresh_kept : Kept {} where
  flow := rfl
  early := fun _ => ⟨rfl, rfl⟩
  holding := fun h => absurd h (by decide)
  past := fun h => absurd rfl h
  running := fun _ => rfl
  completed := fun h => absurd h (by decide)

theorem Kept.received_prefix {job : Job} (h : Kept job) : job.received <+: job.produced := by
  rw [h.flow]
  exact List.prefix_append _ _

theorem Kept.move {job : Job} (h : Kept job) (phase : Phase)
    (hearly : phase.early → job.phase.early) (hholds : phase.holds → job.phase.holds)
    (hover : ¬ phase.early → ¬ phase.holds → job.released = job.acquired ∧ job.acquired ≤ 1)
    (hrunning : phase.running → job.phase.running) : Kept { job with phase := phase } where
  flow := h.flow
  early := fun he => h.early (hearly he)
  holding := fun hp => h.holding (hholds hp)
  past := hover
  running := fun hr => h.running (hrunning hr)
  completed := h.completed

/-- A job without a permit that ends never had one. -/
theorem Kept.abandon {job : Job} (h : Kept job) (hearly : job.phase.early) :
    Kept { job with phase := .ended } := by
  obtain ⟨hacquired, hreleased⟩ := h.early hearly
  apply h.move .ended
  · exact fun he => absurd he (by decide)
  · exact fun hp => absurd hp (by decide)
  · intro _ _
    rw [hacquired, hreleased]
    exact ⟨rfl, Nat.zero_le 1⟩
  · exact fun hr => absurd hr (by decide)

theorem Kept.finally {job : Job} (h : Kept job) (phase : Phase) (hjob : ¬ job.phase.early)
    (hholds : ¬ job.phase.holds) (hphase : phase = .closing ∨ phase = .ended) :
    Kept { job with phase := phase } := by
  apply h.move phase
  · rcases hphase with rfl | rfl <;> exact fun he => absurd he (by decide)
  · rcases hphase with rfl | rfl <;> exact fun hp => absurd hp (by decide)
  · exact fun _ _ => h.past hjob hholds
  · rcases hphase with rfl | rfl <;> exact fun hr => absurd hr (by decide)

theorem Kept.status {job : Job} (h : Kept job) (hholds : job.phase.holds) (status : Status)
    (hcompleted : status = .completed → job.in_flight = none) :
    Kept (job.update_status status) where
  flow := h.flow
  early := fun he => (Bool.false_ne_true he).elim
  holding := fun _ => h.holding hholds
  past := fun _ hp => absurd rfl hp
  running := fun hr => (Bool.false_ne_true hr).elim
  completed := fun hs => hcompleted (Option.some.inj hs)

/-- The `finally` block releases the one permit. -/
theorem Kept.leave {job : Job} (h : Kept job) (hholds : job.phase.holds) : Kept job.leave := by
  obtain ⟨hacquired, hreleased⟩ := h.holding hholds
  constructor
  · exact h.flow
  · exact fun he => (Bool.false_ne_true he).elim
  · exact fun hp => (Bool.false_ne_true hp).elim
  · intro _ _
    show job.released + 1 = job.acquired ∧ job.acquired ≤ 1
    rw [hacquired, hreleased]
    exact ⟨rfl, Nat.le_refl 1⟩
  · exact fun hr => (Bool.false_ne_true hr).elim
  · exact h.completed

/-- A running job may take a chunk from its stream or hand one on. -/
theorem Kept.chunk {job job' : Job} (h : Kept job) (hrunning : job.phase.running)
    (hphase : job.phase.holds) (hphase' : job'.phase = .awaiting ∨ job'.phase = .yielded)
    (hflow : job'.produced = job'.received ++ job'.in_flight.toList)
    (hsame : job'.outcome = job.outcome ∧ job'.acquired = job.acquired ∧
      job'.released = job.released) : Kept job' := by
  obtain ⟨houtcome, hacquired, hreleased⟩ := hsame
  have hnone : job'.outcome = none := houtcome.trans (h.running hrunning)
  constructor
  · exact hflow
  · rcases hphase' with hp | hp <;> rw [hp] <;> exact fun he => absurd he (by decide)
  · intro _
    rw [hacquired, hreleased]
    exact h.holding hphase
  · rcases hphase' with hp | hp <;> rw [hp] <;> exact fun _ hn => absurd rfl hn
  · exact fun _ => hnone
  · intro hs
    rw [hnone] at hs
    cases hs

theorem Kept.produce {job : Job} (h : Kept job) (hp : job.phase = .awaiting)
    (hnone : job.in_flight = none) (chunk : Str) :
    Kept { job with produced := job.produced ++ [chunk], in_flight := some chunk } := by
  have hflow := h.flow
  rw [hnone, Option.toList_none, List.append_nil] at hflow
  refine h.chunk (by rw [hp]; rfl) (by rw [hp]; rfl) (.inl ?_) ?_ ⟨rfl, rfl, rfl⟩
  · exact hp
  · rw [hflow]
    rfl

theorem Kept.deliver {job : Job} (h : Kept job) (hp : job.phase = .awaiting) (chunk : Str)
    (hchunk : job.in_flight = some chunk) :
    Kept { job with phase := .yielded, first_byte_seen := true, in_flight := none,
                    received := job.received ++ [chunk] } := by
  have hflow := h.flow
  rw [hchunk] at hflow
  refine h.chunk (by rw [hp]; rfl) (by rw [hp]; rfl) (.inr rfl) ?_ ⟨rfl, rfl, rfl⟩
  rw [hflow]
  exact (List.append_nil _).symm

/-- `acquire` returns. -/
theorem Kept.register {job : Job} (h : Kept job) (hearly : job.phase.early) :
    Kept { job with phase := .awaiting, acquired := job.acquired + 1 } := by
  obtain ⟨hacquired, hreleased⟩ := h.early hearly
  have hnone : job.outcome = none := by
    apply h.running
    unfold Phase.running
    split
    · rfl
    · rfl
    · exact hearly
  constructor
  · exact h.flow
  · exact fun he => (Bool.false_ne_true he).elim
  · intro _
    show job.acquired + 1 = 1 ∧ job.released = 0
    rw [hacquired]
    exact ⟨rfl, hreleased⟩
  · exact fun _ hn => absurd rfl hn
  · exact fun _ => hnone
  · exact h.completed

/-- What a step of a job keeps, by its effect. -/
def Effect.Sound (job job' : Job) : Effect → Prop
  | .stay => (job'.phase.holds ↔ job.phase.holds) ∧ (job'.phase = .handed ↔ job.phase = .handed)
  | .leave => job.phase.holds ∧ ¬ job'.phase.holds ∧ job'.phase ≠ .handed
  | .give_back => job.phase = .handed ∧ ¬ job'.phase.holds ∧ job'.phase ≠ .handed

theorem leave_sound (job : Job) (h : job.phase.holds) : Effect.leave.Sound job job.leave :=
  ⟨h, Bool.false_ne_true, Phase.noConfusion⟩

/-- The effect `stay`, both phases given. -/
theorem stay_sound (job job' : Job) (phase phase' : Phase) (h : job.phase = phase)
    (h' : job'.phase = phase') (hholds : phase'.holds = phase.holds)
    (hhanded : phase' = .handed ↔ phase = .handed) : Effect.stay.Sound job job' := by
  constructor
  · rw [h, h', hholds]
  · rw [h, h']
    exact hhanded

theorem cancel_kept (job job' : Job) (effect : Effect) (h : job.cancel = some (job', effect))
    (hk : Kept job) : Kept job' ∧ effect.Sound job job' := by
  unfold Job.cancel at h
  split at h
  · cases h
  · next hp =>
    cases h
    constructor
    · exact hk.abandon (by rw [hp]; rfl)
    · exact stay_sound _ _ .waiting .ended hp rfl rfl (by decide)
  · next hp =>
    cases h
    constructor
    · exact hk.abandon (by rw [hp]; rfl)
    · exact ⟨hp, Bool.false_ne_true, Phase.noConfusion⟩
  · next hp =>
    cases h
    constructor
    · exact hk.status (by rw [hp]; rfl) .cancelled Status.noConfusion
    · exact stay_sound _ _ .awaiting (.updating .cancelled) hp rfl rfl (by decide)
  · cases h
  · next hp =>
    cases h
    exact ⟨hk.leave (by rw [hp]; rfl), leave_sound job (by rw [hp]; rfl)⟩
  · next hp =>
    cases h
    exact ⟨hk.leave (by rw [hp]; rfl), leave_sound job (by rw [hp]; rfl)⟩
  · next status _ _ hp =>
    cases h
    constructor
    · exact hk.status (by rw [hp]; rfl) .cancelled Status.noConfusion
    · exact stay_sound _ _ (.updating status) (.updating .cancelled) hp rfl rfl (by simp)
  · next hp =>
    cases h
    constructor
    · exact hk.finally .ended (by rw [hp]; decide) (by rw [hp]; decide) (.inr rfl)
    · exact stay_sound _ _ .clearing .ended hp rfl rfl (by decide)
  · next hp =>
    cases h
    constructor
    · exact hk.finally .ended (by rw [hp]; decide) (by rw [hp]; decide) (.inr rfl)
    · exact stay_sound _ _ .closing .ended hp rfl rfl (by decide)
  · cases h

theorem job_step_kept (job job' : Job) (event : Event) (effect : Effect)
    (h : job.step event = some (job', effect)) (hk : Kept job) :
    Kept job' ∧ effect.Sound job job' := by
  cases event with
  | start =>
    obtain ⟨hp, h⟩ := Option.ite_none_right_eq_some.mp h
    cases h
    constructor
    · exact hk.move .waiting (fun _ => by rw [hp]; rfl) (fun hn => (Bool.false_ne_true hn).elim)
        (fun hn => absurd rfl hn) (fun _ => by rw [hp]; rfl)
    · exact stay_sound _ _ .submitted .waiting hp rfl rfl (by decide)
  | produce chunk =>
    obtain ⟨⟨hp, hnone⟩, h⟩ := Option.ite_none_right_eq_some.mp h
    cases h
    constructor
    · exact hk.produce hp hnone chunk
    · exact stay_sound _ _ .awaiting .awaiting hp hp rfl Iff.rfl
  | deliver =>
    simp only [Job.step] at h
    split at h
    · next chunk hchunk =>
      obtain ⟨hp, h⟩ := Option.ite_none_right_eq_some.mp h
      cases h
      constructor
      · exact hk.deliver hp chunk hchunk
      · exact stay_sound _ _ .awaiting .yielded hp rfl rfl (by decide)
    · cases h
  | resume =>
    obtain ⟨hp, h⟩ := Option.ite_none_right_eq_some.mp h
    cases h
    constructor
    · exact hk.chunk (by rw [hp]; rfl) (by rw [hp]; rfl) (.inl rfl) hk.flow ⟨rfl, rfl, rfl⟩
    · exact stay_sound _ _ .yielded .awaiting hp rfl rfl (by decide)
  | exhaust =>
    obtain ⟨⟨hp, hnone⟩, h⟩ := Option.ite_none_right_eq_some.mp h
    cases h
    constructor
    · exact hk.status (by rw [hp]; rfl) .completed (fun _ => hnone)
    · exact stay_sound _ _ .awaiting (.updating .completed) hp rfl rfl (by decide)
  | timeout =>
    obtain ⟨hp, h⟩ := Option.ite_none_right_eq_some.mp h
    cases h
    constructor
    · apply hk.status (by rw [hp]; rfl)
      split <;> exact Status.noConfusion
    · exact stay_sound _ _ .awaiting (.updating _) hp rfl rfl (by simp)
  | backend_error unreported =>
    obtain ⟨hp, h⟩ := Option.ite_none_right_eq_some.mp h
    split at h
    · cases h
      exact ⟨hk.leave (by rw [hp]; rfl), leave_sound job (by rw [hp]; rfl)⟩
    · cases h
      constructor
      · exact hk.status (by rw [hp]; rfl) .failed Status.noConfusion
      · exact stay_sound _ _ .awaiting (.updating .failed) hp rfl rfl (by decide)
  | cancel => exact cancel_kept job job' effect h hk
  | close =>
    simp only [Job.step] at h
    split at h
    · next hp =>
      cases h
      constructor
      · exact hk.abandon (by rw [hp]; rfl)
      · exact stay_sound _ _ .submitted .ended hp rfl rfl (by decide)
    · obtain ⟨hp, h⟩ := Option.ite_none_right_eq_some.mp h
      cases h
      exact ⟨hk.leave (by rw [hp]; rfl), leave_sound job (by rw [hp]; rfl)⟩
  | status_updated =>
    simp only [Job.step] at h
    split at h
    · next hp =>
      cases h
      exact ⟨hk.leave (by rw [hp]; rfl), leave_sound job (by rw [hp]; rfl)⟩
    · cases h
  | flag_cleared =>
    obtain ⟨hp, h⟩ := Option.ite_none_right_eq_some.mp h
    cases h
    constructor
    · exact hk.finally .closing (by rw [hp]; decide) (by rw [hp]; decide) (.inl rfl)
    · exact stay_sound _ _ .clearing .closing hp rfl rfl (by decide)
  | stream_closed =>
    obtain ⟨hp, h⟩ := Option.ite_none_right_eq_some.mp h
    cases h
    constructor
    · exact hk.finally .ended (by rw [hp]; decide) (by rw [hp]; decide) (.inr rfl)
    · exact stay_sound _ _ .closing .ended hp rfl rfl (by decide)

/-! ## All jobs together -/

/-- The job's entries in the pool are those its phase calls for. -/
structure Entered (p : Pool) (job_id : Str) (job : Job) : Prop where
  kept : Kept job
  active : job_id ∈ p.active ↔ job.phase.holds
  handed : job_id ∈ p.handed ↔ job.phase = .handed

structure Invariant (p : Pool) : Prop where
  permits : p.value + p.handed.length + p.active.length = p.max
  counted : p.acquires = p.releases + p.active.length
  active_nodup : p.active.Nodup
  handed_nodup : p.handed.Nodup
  entered : ∀ job_id job, p.jobs job_id = some job → Entered p job_id job
  unknown : ∀ job_id, p.jobs job_id = none → job_id ∉ p.active ∧ job_id ∉ p.handed

theorem start_invariant (max_concurrent : ℕ) : Invariant (start max_concurrent) where
  permits := rfl
  counted := rfl
  active_nodup := List.nodup_nil
  handed_nodup := List.nodup_nil
  entered := fun _ _ h => by cases h
  unknown := fun _ _ => ⟨List.not_mem_nil, List.not_mem_nil⟩

/-- A step changes one job, and the entries of no other. -/
theorem invariant_update (p q : Pool) (job_id : Str) (job : Job) (h : Invariant p)
    (hjobs : q.jobs = Function.update p.jobs job_id (some job))
    (hactive : ∀ other, other ≠ job_id → (other ∈ q.active ↔ other ∈ p.active))
    (hhanded : ∀ other, other ≠ job_id → (other ∈ q.handed ↔ other ∈ p.handed))
    (hpermits : q.value + q.handed.length + q.active.length = q.max)
    (hcounted : q.acquires = q.releases + q.active.length)
    (hnodup : q.active.Nodup ∧ q.handed.Nodup) (hentered : Entered q job_id job) :
    Invariant q where
  permits := hpermits
  counted := hcounted
  active_nodup := hnodup.1
  handed_nodup := hnodup.2
  entered := by
    intro other job' hother
    by_cases heq : other = job_id
    · subst heq
      rw [hjobs, Function.update_self, Option.some.injEq] at hother
      rw [← hother]
      exact hentered
    · rw [hjobs, Function.update_of_ne heq] at hother
      obtain ⟨hkept, ha, hh⟩ := h.entered other job' hother
      exact ⟨hkept, (hactive other heq).trans ha, (hhanded other heq).trans hh⟩
  unknown := by
    intro other hother
    by_cases heq : other = job_id
    · subst heq
      rw [hjobs, Function.update_self] at hother
      cases hother
    · rw [hjobs, Function.update_of_ne heq] at hother
      obtain ⟨ha, hh⟩ := h.unknown other hother
      exact ⟨fun hm => ha ((hactive other heq).mp hm), fun hm => hh ((hhanded other heq).mp hm)⟩

theorem not_holds_of_early (phase : Phase) (h : phase.early) : ¬ phase.holds := by
  cases phase with
  | submitted => exact Bool.false_ne_true
  | waiting => exact Bool.false_ne_true
  | handed => exact Bool.false_ne_true
  | _ => exact absurd h Bool.false_ne_true

section Steps
variable {p : Pool} {job_id : Str} {job : Job}

theorem submit_invariant (h : Invariant p) (hnew : p.jobs job_id = none) :
    Invariant (p.put job_id {}) := by
  obtain ⟨hactive, hhanded⟩ := h.unknown job_id hnew
  apply invariant_update p (p.put job_id {}) job_id {} h rfl (fun _ _ => Iff.rfl)
    (fun _ _ => Iff.rfl) h.permits h.counted ⟨h.active_nodup, h.handed_nodup⟩
  constructor
  · exact fresh_kept
  · exact ⟨fun hm => absurd hm hactive, fun hp => (Bool.false_ne_true hp).elim⟩
  · exact ⟨fun hm => absurd hm hhanded, fun hp => Phase.noConfusion hp⟩

/-- `acquire` returns in `r`, which differs from `p` by the permit it took. -/
theorem register_invariant (r : Pool) (h : Invariant p) (hjob : p.jobs job_id = some job)
    (hearly : job.phase.early) (hjobs : r.jobs = p.jobs) (hactive : r.active = p.active)
    (hcounts : r.acquires = p.acquires ∧ r.releases = p.releases)
    (hpermits : r.value + r.handed.length + (p.active.length + 1) = r.max)
    (hothers : ∀ other, other ≠ job_id → (other ∈ r.handed ↔ other ∈ p.handed))
    (hnodup : r.handed.Nodup) (hgone : job_id ∉ r.handed) : Invariant (r.register job_id job) := by
  obtain ⟨hkept, hholds, _⟩ := h.entered job_id job hjob
  have hout : job_id ∉ p.active := fun hm => not_holds_of_early _ hearly (hholds.mp hm)
  have hinsert : (r.register job_id job).active = job_id :: p.active := by
    show r.active.insert job_id = _
    rw [hactive, List.insert_of_not_mem hout]
  apply invariant_update p _ job_id { job with phase := .awaiting, acquired := job.acquired + 1 } h
  · show Function.update r.jobs job_id _ = _
    rw [hjobs]
  · intro other hne
    rw [hinsert, List.mem_cons]
    exact or_iff_right hne
  · exact hothers
  · rw [hinsert]
    exact hpermits
  · rw [hinsert]
    show r.acquires + 1 = r.releases + (p.active.length + 1)
    rw [hcounts.1, hcounts.2, h.counted]
    rfl
  · rw [hinsert]
    exact ⟨List.nodup_cons.mpr ⟨hout, h.active_nodup⟩, hnodup⟩
  · constructor
    · exact hkept.register hearly
    · rw [hinsert]
      exact ⟨fun _ => rfl, fun _ => List.mem_cons_self⟩
    · exact ⟨fun hm => absurd hm hgone, fun hp => Phase.noConfusion hp⟩

theorem hand_over_invariant (h : Invariant p) (hjob : p.jobs job_id = some job)
    (hwaiting : job.phase = .waiting) (hfree : 0 < p.value) :
    Invariant { p.put job_id { job with phase := .handed } with
                value := p.value - 1, handed := p.handed.insert job_id } := by
  obtain ⟨hkept, hholds, hhanded⟩ := h.entered job_id job hjob
  have hpermits := h.permits
  have hout : job_id ∉ p.handed := by
    rw [hhanded, hwaiting]
    exact Phase.noConfusion
  have hidle : job_id ∉ p.active := by
    rw [hholds, hwaiting]
    exact Bool.false_ne_true
  rw [List.insert_of_not_mem hout]
  apply invariant_update p _ job_id { job with phase := .handed } h
  · rfl
  · exact fun _ _ => Iff.rfl
  · intro other hne
    rw [List.mem_cons]
    exact or_iff_right hne
  · show p.value - 1 + (p.handed.length + 1) + p.active.length = p.max
    omega
  · exact h.counted
  · exact ⟨h.active_nodup, List.nodup_cons.mpr ⟨hout, h.handed_nodup⟩⟩
  · constructor
    · exact hkept.move .handed (fun _ => by rw [hwaiting]; rfl)
        (fun hp => (Bool.false_ne_true hp).elim) (fun hn => absurd rfl hn)
        (fun _ => by rw [hwaiting]; rfl)
    · exact ⟨fun hm => absurd hm hidle, fun hp => (Bool.false_ne_true hp).elim⟩
    · exact ⟨fun _ => rfl, fun _ => List.mem_cons_self⟩

theorem acquire_invariant (h : Invariant p) (hjob : p.jobs job_id = some job)
    (hwaiting : job.phase = .waiting) (hfree : 0 < p.value) :
    Invariant ({ p with value := p.value - 1 }.register job_id job) := by
  have hpermits := h.permits
  apply register_invariant _ h hjob (by rw [hwaiting]; rfl)
  · rfl
  · rfl
  · exact ⟨rfl, rfl⟩
  · show p.value - 1 + p.handed.length + (p.active.length + 1) = p.max
    omega
  · exact fun _ _ => Iff.rfl
  · exact h.handed_nodup
  · rw [(h.entered job_id job hjob).handed, hwaiting]
    exact Phase.noConfusion

theorem granted_invariant (h : Invariant p) (hjob : p.jobs job_id = some job)
    (hhanded : job.phase = .handed) :
    Invariant ({ p with handed := p.handed.erase job_id }.register job_id job) := by
  have hmem := (h.entered job_id job hjob).handed.mpr hhanded
  have hpermits := h.permits
  have hlength := List.length_erase_of_mem hmem
  have hpos := List.length_pos_of_mem hmem
  apply register_invariant _ h hjob (by rw [hhanded]; rfl)
  · rfl
  · rfl
  · exact ⟨rfl, rfl⟩
  · show p.value + (p.handed.erase job_id).length + (p.active.length + 1) = p.max
    omega
  · exact fun other hne => List.mem_erase_of_ne hne
  · exact h.handed_nodup.erase _
  · exact h.handed_nodup.not_mem_erase

variable {job' : Job}

theorem stay_invariant (h : Invariant p) (hjob : p.jobs job_id = some job) (hkept : Kept job')
    (hsound : Effect.stay.Sound job job') : Invariant (p.apply job_id job' .stay) := by
  obtain ⟨-, hholds, hhanded⟩ := h.entered job_id job hjob
  apply invariant_update p (p.put job_id job') job_id job' h rfl (fun _ _ => Iff.rfl)
    (fun _ _ => Iff.rfl) h.permits h.counted ⟨h.active_nodup, h.handed_nodup⟩
  exact ⟨hkept, hholds.trans hsound.1.symm, hhanded.trans hsound.2.symm⟩

/-- The `finally` block takes the job out and frees its permit. -/
theorem leave_invariant (h : Invariant p) (hjob : p.jobs job_id = some job) (hkept : Kept job')
    (hsound : Effect.leave.Sound job job') : Invariant (p.apply job_id job' .leave) := by
  obtain ⟨-, hholds, hhanded⟩ := h.entered job_id job hjob
  obtain ⟨hin, hout, hwait⟩ := hsound
  have hpermits := h.permits
  have hcounted := h.counted
  have hmem := hholds.mpr hin
  have hidle : job_id ∉ p.handed := by
    intro hm
    rw [hhanded.mp hm] at hin
    exact Bool.false_ne_true hin
  have hlength := List.length_erase_of_mem hmem
  have hpos := List.length_pos_of_mem hmem
  apply invariant_update p _ job_id job' h
  · rfl
  · exact fun other hne => List.mem_erase_of_ne hne
  · exact fun _ _ => Iff.rfl
  · show p.value + 1 + p.handed.length + (p.active.erase job_id).length = p.max
    omega
  · show p.acquires = p.releases + 1 + (p.active.erase job_id).length
    omega
  · exact ⟨h.active_nodup.erase _, h.handed_nodup⟩
  · constructor
    · exact hkept
    · exact ⟨fun hm => absurd hm h.active_nodup.not_mem_erase, fun hp => absurd hp hout⟩
    · exact ⟨fun hm => absurd hm hidle, fun hp => absurd hp hwait⟩

/-- A cancelled waiter frees the permit set aside for it, and was never active. -/
theorem give_back_invariant (h : Invariant p) (hjob : p.jobs job_id = some job)
    (hkept : Kept job') (hsound : Effect.give_back.Sound job job') :
    Invariant (p.apply job_id job' .give_back) := by
  obtain ⟨-, hholds, hhanded⟩ := h.entered job_id job hjob
  obtain ⟨hin, hout, hwait⟩ := hsound
  have hpermits := h.permits
  have hmem := hhanded.mpr hin
  have hidle : job_id ∉ p.active := by
    rw [hholds, hin]
    exact Bool.false_ne_true
  have hlength := List.length_erase_of_mem hmem
  have hpos := List.length_pos_of_mem hmem
  apply invariant_update p _ job_id job' h
  · rfl
  · exact fun _ _ => Iff.rfl
  · exact fun other hne => List.mem_erase_of_ne hne
  · show p.value + 1 + (p.handed.erase job_id).length + p.active.length = p.max
    omega
  · exact h.counted
  · exact ⟨h.active_nodup, h.handed_nodup.erase _⟩
  · constructor
    · exact hkept
    · exact ⟨fun hm => absurd hm hidle, fun hp => absurd hp hout⟩
    · exact ⟨fun hm => absurd hm h.handed_nodup.not_mem_erase, fun hp => absurd hp hwait⟩

theorem apply_invariant (h : Invariant p) (hjob : p.jobs job_id = some job) (effect : Effect)
    (hkept : Kept job') (hsound : effect.Sound job job') :
    Invariant (p.apply job_id job' effect) := by
  cases effect with
  | stay => exact stay_invariant h hjob hkept hsound
  | leave => exact leave_invariant h hjob hkept hsound
  | give_back => exact give_back_invariant h hjob hkept hsound

end Steps

/-- What a step of the pool can do. -/
inductive Stepped (p : Pool) : Pool → Prop
  | refused : Stepped p p
  | submitted (job_id : Str) (hnew : p.jobs job_id = none) : Stepped p (p.put job_id {})
  | acquired (job_id : Str) (job : Job) (hjob : p.jobs job_id = some job)
      (hwaiting : job.phase = .waiting) (hfree : 0 < p.value) :
      Stepped p ({ p with value := p.value - 1 }.register job_id job)
  | handed_over (job_id : Str) (job : Job) (hjob : p.jobs job_id = some job)
      (hwaiting : job.phase = .waiting) (hfree : 0 < p.value) :
      Stepped p { p.put job_id { job with phase := .handed } with
                  value := p.value - 1, handed := p.handed.insert job_id }
  | granted (job_id : Str) (job : Job) (hjob : p.jobs job_id = some job)
      (hhanded : job.phase = .handed) :
      Stepped p ({ p with handed := p.handed.erase job_id }.register job_id job)
  | ran (job_id : Str) (job job' : Job) (event : Event) (effect : Effect)
      (hjob : p.jobs job_id = some job) (hout : job.step event = some (job', effect)) :
      Stepped p (p.apply job_id job' effect)

theorem stepped_of_step (p q : Pool) (l : Label) (hstep : step p l = some q) : Stepped p q := by
  cases l with
  | submit job_id =>
    simp only [step] at hstep
    split at hstep
    · cases hstep
    · next hnew =>
      split at hstep
      · cases hstep
        exact .submitted job_id hnew
      · cases hstep
        exact .refused
  | acquire job_id =>
    simp only [step] at hstep
    split at hstep
    · cases hstep
    · next job hjob =>
      obtain ⟨⟨hwaiting, hfree⟩, hstep⟩ := Option.ite_none_right_eq_some.mp hstep
      cases hstep
      exact .acquired job_id job hjob hwaiting hfree
  | hand_over job_id =>
    simp only [step] at hstep
    split at hstep
    · cases hstep
    · next job hjob =>
      obtain ⟨⟨hwaiting, hfree⟩, hstep⟩ := Option.ite_none_right_eq_some.mp hstep
      cases hstep
      exact .handed_over job_id job hjob hwaiting hfree
  | granted job_id =>
    simp only [step] at hstep
    split at hstep
    · cases hstep
    · next job hjob =>
      obtain ⟨hhanded, hstep⟩ := Option.ite_none_right_eq_some.mp hstep
      cases hstep
      exact .granted job_id job hjob hhanded
  | job job_id event =>
    simp only [step] at hstep
    split at hstep
    · cases hstep
    · next job hjob =>
      obtain ⟨⟨job', effect⟩, hout, rfl⟩ := Option.map_eq_some_iff.mp hstep
      exact .ran job_id job job' event effect hjob hout

theorem stepped_invariant (p q : Pool) (hstep : Stepped p q) (h : Invariant p) : Invariant q := by
  cases hstep with
  | refused => exact h
  | submitted job_id hnew => exact submit_invariant h hnew
  | acquired job_id job hjob hwaiting hfree => exact acquire_invariant h hjob hwaiting hfree
  | handed_over job_id job hjob hwaiting hfree => exact hand_over_invariant h hjob hwaiting hfree
  | granted job_id job hjob hhanded => exact granted_invariant h hjob hhanded
  | ran job_id job job' event effect hjob hout =>
    obtain ⟨hkept, hsound⟩ := job_step_kept job job' event effect hout
      (h.entered job_id job hjob).kept
    exact apply_invariant h hjob effect hkept hsound

theorem stepped_max (p q : Pool) (hstep : Stepped p q) : q.max = p.max := by
  cases hstep with
  | ran job_id job job' event effect hjob hout => cases effect <;> rfl
  | _ => rfl

/-! ## Accounting -/

/-- The permits in use are the active jobs, at most the maximum of them; a job
whose `acquire` has returned releases once, when it is no longer active, and is
not over before; and its consumer has a prefix of what the backend gave, all of
it on completion. -/
structure Accounted (max_concurrent : ℕ) (p : Pool) : Prop where
  in_use : p.in_use = p.active.length
  permits : p.value + p.handed.length + p.in_use = max_concurrent
  bounded : p.in_use ≤ max_concurrent
  active_nodup : p.active.Nodup
  known : ∀ job_id ∈ p.active, ∃ job, p.jobs job_id = some job ∧ job.acquired = 1
  released : ∀ job_id job, p.jobs job_id = some job → job.acquired = 1 →
    (job_id ∈ p.active ∧ job.phase ≠ .ended ∧ job.released = 0) ∨
      (job_id ∉ p.active ∧ job.released = 1)
  unstarted : ∀ job_id job, p.jobs job_id = some job → job.acquired ≠ 1 →
    job_id ∉ p.active ∧ job.acquired = 0 ∧ job.released = 0
  received : ∀ job_id job, p.jobs job_id = some job → job.received <+: job.produced
  completed : ∀ job_id job, p.jobs job_id = some job → job.outcome = some .completed →
    job.received = job.produced

theorem Kept.released {job : Job} (h : Kept job) (hacquired : job.acquired = 1) :
    (job.phase.holds ∧ job.released = 0) ∨ (¬ job.phase.holds ∧ job.released = 1) := by
  by_cases hholds : job.phase.holds
  · exact .inl ⟨hholds, (h.holding hholds).2⟩
  · have hlate : ¬ job.phase.early := by
      intro hearly
      rw [(h.early hearly).1] at hacquired
      exact Nat.zero_ne_one hacquired
    exact .inr ⟨hholds, (h.past hlate hholds).1.trans hacquired⟩

theorem Kept.unstarted {job : Job} (h : Kept job) (hacquired : job.acquired ≠ 1) :
    ¬ job.phase.holds ∧ job.acquired = 0 ∧ job.released = 0 := by
  have hholds : ¬ job.phase.holds := fun hholds => hacquired (h.holding hholds).1
  by_cases hearly : job.phase.early
  · exact ⟨hholds, h.early hearly⟩
  · obtain ⟨hreleased, hle⟩ := h.past hearly hholds
    have hzero : job.acquired = 0 := by omega
    exact ⟨hholds, hzero, hreleased.trans hzero⟩

theorem Kept.all_received {job : Job} (h : Kept job) (hcompleted : job.outcome = some .completed) :
    job.received = job.produced := by
  rw [h.flow, h.completed hcompleted, Option.toList_none, List.append_nil]

theorem accounted_of_invariant (p : Pool) (h : Invariant p) : Accounted p.max p := by
  have hin_use : p.in_use = p.active.length := by
    unfold Pool.in_use
    rw [h.counted]
    exact Nat.add_sub_cancel_left _ _
  have hpermits := h.permits
  rw [← hin_use] at hpermits
  constructor
  · exact hin_use
  · exact hpermits
  · exact hpermits ▸ Nat.le_add_left _ _
  · exact h.active_nodup
  · intro job_id hactive
    cases hjob : p.jobs job_id with
    | none => exact absurd hactive (h.unknown job_id hjob).1
    | some job =>
      have hentered := h.entered job_id job hjob
      exact ⟨job, rfl, (hentered.kept.holding (hentered.active.mp hactive)).1⟩
  · intro job_id job hjob hacquired
    obtain ⟨hkept, hactive, -⟩ := h.entered job_id job hjob
    rcases hkept.released hacquired with ⟨hholds, hreleased⟩ | ⟨hout, hreleased⟩
    · refine .inl ⟨hactive.mpr hholds, ?_, hreleased⟩
      intro hended
      rw [hended] at hholds
      exact Bool.false_ne_true hholds
    · exact .inr ⟨fun hm => hout (hactive.mp hm), hreleased⟩
  · intro job_id job hjob hacquired
    obtain ⟨hkept, hactive, -⟩ := h.entered job_id job hjob
    obtain ⟨hout, hcounts⟩ := hkept.unstarted hacquired
    exact ⟨fun hm => hout (hactive.mp hm), hcounts⟩
  · exact fun job_id job hjob => (h.entered job_id job hjob).kept.received_prefix
  · exact fun job_id job hjob => (h.entered job_id job hjob).kept.all_received

/-- Whatever the jobs, their backends, their consumers and the polling tasks do,
and in whatever order: the slots are accounted for at every moment. -/
theorem slots_accounted (max_concurrent : ℕ) (ls : List Label) :
    Throughout step (Accounted max_concurrent) (start max_concurrent) ls := by
  have hkeep : ∀ p l q, step p l = some q → True → Invariant p ∧ p.max = max_concurrent →
      Invariant q ∧ q.max = max_concurrent := by
    intro p l q hstep _ h
    have hstepped := stepped_of_step p q l hstep
    exact ⟨stepped_invariant p q hstepped h.1, (stepped_max p q hstepped).trans h.2⟩
  have hgood : ∀ p, Invariant p ∧ p.max = max_concurrent → Accounted max_concurrent p := by
    intro p h
    exact h.2 ▸ accounted_of_invariant p h.1
  have hstart : Invariant (start max_concurrent) ∧ (start max_concurrent).max = max_concurrent :=
    ⟨start_invariant max_concurrent, rfl⟩
  exact throughout_of_invariant hkeep hgood hstart (along_of_forall (fun _ _ => trivial) _ ls)

/-- Of two jobs admitted to one slot the second waits, and gets the slot when the
consumer of the first closes. -/
example : (exec step (start 1)
    [.submit ['a'], .submit ['b'], .job ['a'] .start, .acquire ['a'], .job ['b'] .start,
      .job ['a'] (.produce ['1']), .job ['a'] .deliver, .job ['a'] .close, .hand_over ['b'],
      .granted ['b']]).map (fun p => (p.active, p.value, p.in_use))
    = some ([['b']], 0, 1) := by decide

end AigentSquad.WorkerPool
