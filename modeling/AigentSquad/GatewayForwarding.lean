import AigentSquad.WorkerPool
import Mathlib.Data.List.Perm.Subperm

/-!
# What the gateway has under way at the supervisor

The two endpoints of one replica around its worker pool. Every request has its
capacity checked when it arrives. `/query` and `/v1/chat/completions` without
`stream` then go through the pool; with `stream` they are forwarded past it, and
once more if the stream cannot be opened. A job submitted to the pool takes its
slot when its generator is started.
-/

set_option autoImplicit false

namespace AigentSquad.GatewayForwarding
open AigentSquad.PyText AigentSquad.Transition AigentSquad.WorkerPool

inductive Stage where
  /-- past `has_capacity`, in `is_supervisor_ready` -/
  | checked
  | pooled
  /-- `process_stream` is sent, or its body is read -/
  | streaming
  /-- `process` is sent after a failed `process_stream` -/
  | falling_back
  | finished
deriving DecidableEq, Repr

structure Request where
  stream : Bool
  stage : Stage
deriving DecidableEq, Repr

structure Gateway where
  pool : Pool
  requests : Str → Option Request
  /-- the requests forwarded past the pool -/
  streams : List Str
  /-- the jobs the pool has accepted and given no slot yet -/
  accepted : List Str

def start (max_concurrent : ℕ) : Gateway := ⟨WorkerPool.start max_concurrent, fun _ => none, [], []⟩

inductive Label where
  | arrive (id : Str) (stream : Bool)
  | not_ready (id : Str)
  | process_stream (id : Str)
  | stream_failed (id : Str)
  | stream_over (id : Str)
  | pool (l : WorkerPool.Label)
deriving DecidableEq, Repr

def Gateway.put (s : Gateway) (id : Str) (r : Request) : Gateway :=
  { s with requests := Function.update s.requests id (some r) }

/-- The job a step of the pool is about. -/
def subject : WorkerPool.Label → Str
  | .submit job_id => job_id
  | .acquire job_id => job_id
  | .hand_over job_id => job_id
  | .granted job_id => job_id
  | .job job_id _ => job_id

/-- The job is accepted and has no slot yet. -/
def early (p : Pool) (job_id : Str) : Bool := (p.jobs job_id).any (fun job => job.phase.early)

def settle (q : Pool) (accepted : List Str) (job_id : Str) : List Str :=
  if early q job_id then accepted.insert job_id else accepted.erase job_id

/-- Only a request without `stream` that passed its checks is submitted. -/
def submits (s : Gateway) : WorkerPool.Label → Bool
  | .submit id => decide (s.requests id = some ⟨false, .checked⟩)
  | _ => true

def step (s : Gateway) : Label → Option Gateway
  | .arrive id stream =>
    match s.requests id with
    | some _ => none
    | none => some (s.put id ⟨stream, if s.pool.has_capacity then .checked else .finished⟩)
  | .not_ready id =>
    match s.requests id with
    | some ⟨stream, .checked⟩ => some (s.put id ⟨stream, .finished⟩)
    | _ => none
  | .process_stream id =>
    match s.requests id with
    | some ⟨true, .checked⟩ =>
      some { s.put id ⟨true, .streaming⟩ with streams := id :: s.streams }
    | _ => none
  | .stream_failed id =>
    match s.requests id with
    | some ⟨true, .streaming⟩ => some (s.put id ⟨true, .falling_back⟩)
    | _ => none
  | .stream_over id =>
    match s.requests id with
    | some ⟨true, .streaming⟩ => some { s.put id ⟨true, .finished⟩ with streams := s.streams.erase id }
    | some ⟨true, .falling_back⟩ =>
      some { s.put id ⟨true, .finished⟩ with streams := s.streams.erase id }
    | _ => none
  | .pool l =>
    if submits s l then
      (WorkerPool.step s.pool l).map (fun q =>
        { pool := q
          requests := match l with
            | .submit id => Function.update s.requests id (some ⟨false, .pooled⟩)
            | _ => s.requests
          streams := s.streams
          accepted := settle q s.accepted (subject l) })
    else none

/-- The requests forwarded to the supervisor and not yet finished: the jobs with
a slot and the streams past the pool. -/
def Gateway.in_flight (s : Gateway) : ℕ := s.pool.active.length + s.streams.length

/-- At most `max_concurrent` requests are in flight, and where `acquire` is
called there is a permit. -/
structure WithinCapacity (max_concurrent : ℕ) (s : Gateway) : Prop where
  bounded : s.in_flight ≤ max_concurrent
  no_wait : ∀ job_id job, s.pool.jobs job_id = some job → job.phase = .waiting → 0 < s.pool.value

/-- A request is forwarded past the pool, or accepted by it, while there are
fewer than `max_concurrent` in flight or accepted. -/
def HasRoom (max_concurrent : ℕ) (s : Gateway) : Label → Prop
  | .process_stream _ => s.in_flight + s.accepted.length < max_concurrent
  | .pool (.submit _) => s.pool.has_capacity = true →
      s.in_flight + s.accepted.length < max_concurrent
  | _ => True

instance (max_concurrent : ℕ) (s : Gateway) (l : Label) : Decidable (HasRoom max_concurrent s l) :=
  match l with
  | .process_stream _ =>
    inferInstanceAs (Decidable (s.in_flight + s.accepted.length < max_concurrent))
  | .pool (.submit _) =>
    inferInstanceAs (Decidable (s.pool.has_capacity = true →
      s.in_flight + s.accepted.length < max_concurrent))
  | .pool (.acquire _) => inferInstanceAs (Decidable True)
  | .pool (.hand_over _) => inferInstanceAs (Decidable True)
  | .pool (.granted _) => inferInstanceAs (Decidable True)
  | .pool (.job _ _) => inferInstanceAs (Decidable True)
  | .arrive _ _ => inferInstanceAs (Decidable True)
  | .not_ready _ => inferInstanceAs (Decidable True)
  | .stream_failed _ => inferInstanceAs (Decidable True)
  | .stream_over _ => inferInstanceAs (Decidable True)

/-! ## What a step of the pool does to both lists -/

theorem early_of_job (p : Pool) (job_id : Str) (job : Job) (h : p.jobs job_id = some job) :
    early p job_id = job.phase.early := by
  simp [early, h]

/-- The list of the accepted jobs, once each. -/
structure Lists (p : Pool) (accepted : List Str) : Prop where
  nodup : accepted.Nodup
  mem_iff : ∀ job_id, job_id ∈ accepted ↔ early p job_id = true

/-- A step is about one job. -/
theorem jobs_frame (p q : Pool) (l : WorkerPool.Label) (h : WorkerPool.step p l = some q)
    (other : Str) (hne : other ≠ subject l) : q.jobs other = p.jobs other := by
  have hput : ∀ job : Job, (p.put (subject l) job).jobs other = p.jobs other :=
    fun job => Function.update_of_ne hne _ _
  cases l with
  | submit id =>
    simp only [WorkerPool.step] at h
    split at h
    · cases h
    · split at h
      · cases h
        exact hput {}
      · cases h
        rfl
  | acquire id =>
    simp only [WorkerPool.step] at h
    split at h
    · cases h
    · next job _ =>
      obtain ⟨_, h⟩ := Option.ite_none_right_eq_some.mp h
      cases h
      exact hput { job with phase := .awaiting, acquired := job.acquired + 1 }
  | hand_over id =>
    simp only [WorkerPool.step] at h
    split at h
    · cases h
    · next job _ =>
      obtain ⟨_, h⟩ := Option.ite_none_right_eq_some.mp h
      cases h
      exact hput { job with phase := .handed }
  | granted id =>
    simp only [WorkerPool.step] at h
    split at h
    · cases h
    · next job _ =>
      obtain ⟨_, h⟩ := Option.ite_none_right_eq_some.mp h
      cases h
      exact hput { job with phase := .awaiting, acquired := job.acquired + 1 }
  | job id event =>
    simp only [WorkerPool.step] at h
    split at h
    · cases h
    · obtain ⟨⟨job', effect⟩, _, rfl⟩ := Option.map_eq_some_iff.mp h
      have hjobs : (p.apply id job' effect).jobs = (p.put id job').jobs := by
        cases effect <;> rfl
      rw [hjobs]
      exact hput job'

theorem settle_lists (p q : Pool) (accepted : List Str) (job_id : Str) (h : Lists p accepted)
    (hframe : ∀ other, other ≠ job_id → q.jobs other = p.jobs other) :
    Lists q (settle q accepted job_id) := by
  have hother : ∀ other, other ≠ job_id → (other ∈ accepted ↔ early q other = true) := by
    intro other hne
    rw [h.mem_iff, early, early, hframe other hne]
  unfold settle
  split
  · next hearly =>
    constructor
    · exact h.nodup.insert
    · intro other
      rw [List.mem_insert_iff]
      by_cases hne : other = job_id
      · subst hne
        simp [hearly]
      · simp [hne, hother other hne]
  · next hlate =>
    constructor
    · exact h.nodup.erase _
    · intro other
      rw [h.nodup.mem_erase_iff]
      by_cases hne : other = job_id
      · subst hne
        simp [hlate]
      · simp [hne, hother other hne]

theorem length_insert_le (xs : List Str) (x : Str) : (xs.insert x).length ≤ xs.length + 1 := by
  by_cases h : x ∈ xs
  · rw [List.insert_of_mem h]
    exact Nat.le_succ _
  · rw [List.insert_of_not_mem h]
    exact Nat.le_refl _

/-- A job that gets its slot leaves the accepted ones. -/
theorem register_count (p r : Pool) (accepted : List Str) (job_id : Str) (job : Job)
    (h : Lists p accepted) (hjob : p.jobs job_id = some job) (hearly : job.phase.early = true)
    (hactive : r.active = p.active) :
    (r.register job_id job).active.length +
      (settle (r.register job_id job) accepted job_id).length ≤
        p.active.length + accepted.length := by
  have hmem : job_id ∈ accepted := (h.mem_iff job_id).mpr ((early_of_job p _ _ hjob).trans hearly)
  have hlate : early (r.register job_id job) job_id = false := by
    apply early_of_job _ _ { job with phase := .awaiting, acquired := job.acquired + 1 }
    exact Function.update_self _ _ _
  have hinsert : (r.register job_id job).active.length ≤ p.active.length + 1 := by
    rw [← hactive]
    exact length_insert_le r.active job_id
  have herase := List.length_erase_of_mem hmem
  have hpos := List.length_pos_of_mem hmem
  unfold settle
  rw [hlate]
  simp only [Bool.false_eq_true, ↓reduceIte]
  omega

/-- A step that gives no slot, and accepts no new job, adds to neither list. -/
theorem settle_count (p q : Pool) (accepted : List Str) (job_id : Str) (h : Lists p accepted)
    (hearly : early q job_id = true → early p job_id = true)
    (hactive : q.active.length ≤ p.active.length) :
    q.active.length + (settle q accepted job_id).length ≤ p.active.length + accepted.length := by
  unfold settle
  split
  · next hq =>
    rw [List.insert_of_mem ((h.mem_iff job_id).mpr (hearly hq))]
    omega
  · have herase := List.length_erase_le (a := job_id) (l := accepted)
    omega

theorem pool_step_count (p q : Pool) (l : WorkerPool.Label) (accepted : List Str)
    (hstep : WorkerPool.step p l = some q) (h : Lists p accepted)
    (hl : ∀ id, l = .submit id → p.has_capacity = false) :
    q.active.length + (settle q accepted (subject l)).length ≤
      p.active.length + accepted.length := by
  cases l with
  | submit id =>
    simp only [WorkerPool.step] at hstep
    split at hstep
    · cases hstep
    · rw [hl id rfl] at hstep
      cases hstep
      exact settle_count p p accepted id h (fun he => he) (Nat.le_refl _)
  | acquire id =>
    simp only [WorkerPool.step] at hstep
    split at hstep
    · cases hstep
    · next job hjob =>
      obtain ⟨⟨hwaiting, _⟩, hstep⟩ := Option.ite_none_right_eq_some.mp hstep
      cases hstep
      exact register_count p _ accepted id job h hjob (by rw [hwaiting]; rfl) rfl
  | hand_over id =>
    simp only [WorkerPool.step] at hstep
    split at hstep
    · cases hstep
    · next job hjob =>
      obtain ⟨⟨hwaiting, _⟩, hstep⟩ := Option.ite_none_right_eq_some.mp hstep
      cases hstep
      refine settle_count p _ accepted id h (fun _ => ?_) (Nat.le_refl _)
      rw [early_of_job p id job hjob, hwaiting]
      rfl
  | granted id =>
    simp only [WorkerPool.step] at hstep
    split at hstep
    · cases hstep
    · next job hjob =>
      obtain ⟨hhanded, hstep⟩ := Option.ite_none_right_eq_some.mp hstep
      cases hstep
      exact register_count p _ accepted id job h hjob (by rw [hhanded]; rfl) rfl
  | job id event =>
    simp only [WorkerPool.step] at hstep
    split at hstep
    · cases hstep
    · next job hjob =>
      obtain ⟨⟨job', effect⟩, hout, rfl⟩ := Option.map_eq_some_iff.mp hstep
      have hnew : (p.apply id job' effect).jobs id = some job' := by
        cases effect <;> exact Function.update_self _ _ _
      refine settle_count p _ accepted id h (fun hq => ?_) ?_
      · rw [early_of_job _ _ _ hnew] at hq
        rw [early_of_job p id job hjob]
        exact (job_step_phase job job' event effect hout).2.2 hq
      · cases effect with
        | stay => exact Nat.le_refl _
        | leave => exact List.length_erase_le
        | give_back => exact Nat.le_refl _

theorem submit_count (p q : Pool) (id : Str) (accepted : List Str)
    (hstep : WorkerPool.step p (.submit id) = some q) (hcapacity : p.has_capacity = true) :
    q.active.length + (settle q accepted id).length ≤ p.active.length + accepted.length + 1 := by
  simp only [WorkerPool.step, hcapacity, ↓reduceIte] at hstep
  split at hstep
  · cases hstep
  · cases hstep
    have hnew : early (p.put id {}) id = true := by
      apply early_of_job _ _ {}
      exact Function.update_self _ _ _
    have hinsert := length_insert_le accepted id
    unfold settle
    rw [hnew]
    show p.active.length + (accepted.insert id).length ≤ _
    omega

/-! ## Runs -/

structure Kept (max_concurrent : ℕ) (s : Gateway) : Prop where
  pool : Invariant s.pool
  max : s.pool.max = max_concurrent
  lists : Lists s.pool s.accepted
  room : s.in_flight + s.accepted.length ≤ max_concurrent

theorem start_kept (max_concurrent : ℕ) : Kept max_concurrent (start max_concurrent) where
  pool := start_invariant max_concurrent
  max := rfl
  lists := ⟨List.nodup_nil, fun _ => by simp [start, early, WorkerPool.start]⟩
  room := Nat.zero_le _

/-- Who waits is accepted and has no permit set aside, so one more is free. -/
theorem within_of_kept (max_concurrent : ℕ) (s : Gateway) (h : Kept max_concurrent s) :
    WithinCapacity max_concurrent s := by
  obtain ⟨hpool, hmax, hlists, hroom⟩ := h
  constructor
  · exact Nat.le_trans (Nat.le_add_right _ _) hroom
  · intro job_id job hjob hwaiting
    have hin : job_id ∈ s.accepted := by
      rw [hlists.mem_iff, early_of_job _ _ _ hjob, hwaiting]
      rfl
    have hout : job_id ∉ s.pool.handed := by
      rw [(hpool.entered job_id job hjob).handed, hwaiting]
      exact Phase.noConfusion
    have hsub : s.pool.handed ⊆ s.accepted := by
      intro other hother
      rw [hlists.mem_iff]
      cases hjobs : s.pool.jobs other with
      | none => exact absurd hother (hpool.unknown other hjobs).2
      | some job' =>
        rw [early_of_job _ _ _ hjobs, (hpool.entered other job' hjobs).handed.mp hother]
        rfl
    have hle : (job_id :: s.pool.handed).length ≤ s.accepted.length :=
      (List.subperm_of_subset (List.nodup_cons.mpr ⟨hout, hpool.handed_nodup⟩)
        (List.cons_subset.mpr ⟨hin, hsub⟩)).length_le
    have hpermits := hpool.permits
    rw [List.length_cons] at hle
    unfold Gateway.in_flight at hroom
    omega

theorem step_kept (max_concurrent : ℕ) (s : Gateway) (l : Label) (t : Gateway)
    (h : step s l = some t) (hl : HasRoom max_concurrent s l) (hs : Kept max_concurrent s) :
    Kept max_concurrent t := by
  obtain ⟨hpool, hmax, hlists, hroom⟩ := hs
  unfold Gateway.in_flight at hroom
  cases l with
  | arrive id stream =>
    simp only [step] at h
    split at h
    · cases h
    · cases h
      exact ⟨hpool, hmax, hlists, hroom⟩
  | not_ready id =>
    simp only [step] at h
    split at h
    · cases h
      exact ⟨hpool, hmax, hlists, hroom⟩
    · cases h
  | process_stream id =>
    simp only [step] at h
    split at h
    · cases h
      refine ⟨hpool, hmax, hlists, ?_⟩
      have hfree : s.pool.active.length + s.streams.length + s.accepted.length < max_concurrent :=
        hl
      show s.pool.active.length + (s.streams.length + 1) + s.accepted.length ≤ max_concurrent
      omega
    · cases h
  | stream_failed id =>
    simp only [step] at h
    split at h
    · cases h
      exact ⟨hpool, hmax, hlists, hroom⟩
    · cases h
  | stream_over id =>
    have herase := List.length_erase_le (a := id) (l := s.streams)
    have hless : s.pool.active.length + (s.streams.erase id).length + s.accepted.length ≤
        max_concurrent := by
      omega
    simp only [step] at h
    split at h
    · cases h
      exact ⟨hpool, hmax, hlists, hless⟩
    · cases h
      exact ⟨hpool, hmax, hlists, hless⟩
    · cases h
  | pool l =>
    obtain ⟨_, h⟩ := Option.ite_none_right_eq_some.mp h
    obtain ⟨q, hq, rfl⟩ := Option.map_eq_some_iff.mp h
    have hstepped := stepped_of_step s.pool q l hq
    refine ⟨stepped_invariant s.pool q hstepped hpool, (stepped_max s.pool q hstepped).trans hmax,
      settle_lists s.pool q s.accepted (subject l) hlists (jobs_frame s.pool q l hq), ?_⟩
    show q.active.length + s.streams.length + (settle q s.accepted (subject l)).length ≤ _
    by_cases hcapacity : ∃ id, l = .submit id ∧ s.pool.has_capacity = true
    · obtain ⟨id, rfl, hcapacity⟩ := hcapacity
      have hcount := submit_count s.pool q id s.accepted hq hcapacity
      have hfree : s.pool.active.length + s.streams.length + s.accepted.length <
          max_concurrent := hl hcapacity
      simp only [subject]
      omega
    · have hcount := pool_step_count s.pool q l s.accepted hq hlists (fun id hid =>
        Bool.eq_false_iff.mpr (fun hc => hcapacity ⟨id, hid, hc⟩))
      omega

/-- While requests are forwarded and accepted only where there is room for them,
the gateway keeps to `max_concurrent` and no accepted job waits. -/
theorem within_capacity (max_concurrent : ℕ) (ls : List Label)
    (h : Along step (HasRoom max_concurrent) (start max_concurrent) ls) :
    Throughout step (WithinCapacity max_concurrent) (start max_concurrent) ls :=
  throughout_of_invariant (step_kept max_concurrent) (within_of_kept max_concurrent)
    (start_kept max_concurrent) h

/-- One request with `stream` and one without, for two workers. -/
def oneOfEach : List Label :=
  let a := "a".toList
  let b := "b".toList
  [.arrive a true, .arrive b false, .process_stream a, .pool (.submit b), .pool (.job b .start),
    .pool (.acquire b), .stream_failed a, .pool (.job b .exhaust), .pool (.job b .status_updated),
    .stream_over a]

theorem one_of_each_within :
    Throughout step (WithinCapacity 2) (start 2) oneOfEach ∧
      (exec step (start 2) (oneOfEach.take 6)).map Gateway.in_flight = some 2 :=
  ⟨within_capacity 2 oneOfEach (by decide +kernel), by decide +kernel⟩

/-- Two requests with `stream`, for one worker. -/
def twoStreams : List Label :=
  let a := "a".toList
  let b := "b".toList
  [.arrive a true, .arrive b true, .process_stream a, .process_stream b]

theorem two_streams_one_worker :
    ¬ Throughout step (WithinCapacity 1) (start 1) twoStreams := by
  intro h
  have hrun : (exec step (start 1) twoStreams).map Gateway.in_flight = some 2 := by rfl
  obtain ⟨s, hs, hboth⟩ := Option.map_eq_some_iff.mp hrun
  have hbound := (h twoStreams [] s (List.append_nil _).symm hs).bounded
  rw [hboth] at hbound
  exact absurd hbound (by decide)

end AigentSquad.GatewayForwarding
