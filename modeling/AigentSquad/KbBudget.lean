import Mathlib.Algebra.Order.Field.Rat
import Mathlib.Algebra.Order.Floor.Ring
import Mathlib.Data.NNRat.Defs
import Mathlib.Data.Rat.Floor
import Mathlib.Tactic.Linarith
import Mathlib.Tactic.Ring
import AigentSquad.ExpiringStore
import AigentSquad.Transition

/-!
# The monthly budget of the knowledge base

Distillations run as tasks on any number of replicas: `check_budget`, the work,
`record_cost`. Within a replica `record_cost` is not interrupted, but its read
and its write are two commands, each under the month of its own moment. Redis
answers every command.
-/

set_option autoImplicit false

namespace AigentSquad.KbBudget
open AigentSquad.Transition
open AigentSquad.ExpiringStore (Entry Store write)

/-- What `strftime("%Y%m")` says at a moment. No month is longer than 31 days. -/
structure Calendar where
  yyyymm : ℚ → ℤ
  mono : ∀ a b, a ≤ b → yyyymm a ≤ yyyymm b
  within : ∀ a b, a ≤ b → yyyymm a = yyyymm b → b ≤ a + 2678400

def ESTIMATED_COST_PER_DISTILL : ℚ := 27 / 100

inductive Phase where
  | called
  | distilling
  /-- `record_cost` has read the month's total and not yet written it -/
  | recording (current : ℚ)
  | ended

structure Run (R : Type) where
  replica : R
  phase : Phase

variable {R : Type}

/-- Redis has one total a month, under `kb:budget:{yyyymm}`. -/
structure State (R : Type) where
  now : ℚ
  redis : Store ℤ ℚ ℚ
  runs : ℕ → Option (Run R)
  /-- the run whose `record_cost` a replica is in -/
  busy : R → Option ℕ
  /-- the months of the distillations started, and of those that recorded -/
  started : List ℤ
  recorded : List ℤ

def start (now : ℚ) : State R := ⟨now, fun _ => none, fun _ => none, fun _ => none, [], []⟩

inductive Label (R : Type) where
  | distill (id : ℕ) (replica : R)
  | check (id : ℕ)
  | abandon (id : ℕ)
  | read (id : ℕ)
  | write (id : ℕ)
  | elapse (d : ℚ≥0)

/-- `float(cache.get(_key()) or 0.0)` -/
def total (cal : Calendar) (s : State R) : ℚ :=
  (ExpiringStore.get s.redis s.now (cal.yyyymm s.now)).getD 0

def check_budget (cal : Calendar) (budget : ℚ) (s : State R) (estimated_cost : ℚ) : Bool :=
  decide (total cal s + estimated_cost ≤ budget)

def State.put (s : State R) (id : ℕ) (r : Run R) : State R :=
  { s with runs := Function.update s.runs id (some r) }

/-- The run, while its replica is in no `record_cost`. -/
def awake (s : State R) (id : ℕ) : Option (Run R) :=
  match s.runs id with
  | none => none
  | some r => if s.busy r.replica = none then some r else none

/-- The cost of `n` distillations. -/
def cost (n : ℕ) : ℚ := n * ESTIMATED_COST_PER_DISTILL

theorem cost_succ (n : ℕ) : cost (n + 1) = cost n + ESTIMATED_COST_PER_DISTILL := by
  unfold cost
  push_cast
  ring

/-- The month's total is what its distillations have recorded, and those started
in it stay within the budget. -/
structure WithinBudget (cal : Calendar) (budget : ℚ) (s : State R) : Prop where
  kept : total cal s = cost (s.recorded.count (cal.yyyymm s.now))
  capped : cal.yyyymm s.now ∈ s.started → cost (s.started.count (cal.yyyymm s.now)) ≤ budget

/-- A month to come has no entries, and the present one's outlives it. -/
structure Dated (cal : Calendar) (s : State R) : Prop where
  ahead : ∀ m, cal.yyyymm s.now < m → s.redis m = none ∧ m ∉ s.started ∧ m ∉ s.recorded
  outlives : ∀ e, s.redis (cal.yyyymm s.now) = some e →
    ∃ w ≤ s.now, cal.yyyymm w = cal.yyyymm s.now ∧ e.deadline = w + 2678400

theorem start_dated (cal : Calendar) (now : ℚ) : Dated cal (start now : State R) := by
  constructor <;> simp [start]

theorem start_within (cal : Calendar) (budget : ℚ) (now : ℚ) :
    WithinBudget cal budget (start now : State R) := by
  constructor <;> simp [start, total, ExpiringStore.get, cost]

/-- The month's entry is there for as long as the month lasts. -/
theorem total_eq (cal : Calendar) (s : State R) (hs : Dated cal s) :
    total cal s = ((s.redis (cal.yyyymm s.now)).map Entry.value).getD 0 := by
  unfold total ExpiringStore.get
  cases hk : s.redis (cal.yyyymm s.now) with
  | none => rfl
  | some e =>
    obtain ⟨w, hw, hmonth, hdeadline⟩ := hs.outlives e hk
    have hlive : s.now ≤ e.deadline := by
      rw [hdeadline]
      exact cal.within w s.now hw hmonth
    simp [hlive]

theorem elapse_dated (cal : Calendar) (s : State R) (d : ℚ≥0) (hs : Dated cal s) :
    Dated cal { s with now := s.now + d } := by
  have hle : s.now ≤ s.now + (d : ℚ) := le_add_of_nonneg_right d.coe_nonneg
  have hmono := cal.mono _ _ hle
  constructor
  · exact fun m hm => hs.ahead m (lt_of_le_of_lt hmono hm)
  · intro e he
    rcases hmono.eq_or_lt with hsame | hlater
    · simp only [← hsame] at he ⊢
      obtain ⟨w, hw, hmonth, hdeadline⟩ := hs.outlives e he
      exact ⟨w, le_trans hw hle, hmonth, hdeadline⟩
    · have hnone := (hs.ahead _ hlater).1
      rw [hnone] at he
      cases he

theorem elapse_within (cal : Calendar) (budget : ℚ) (s : State R) (d : ℚ≥0) (hs : Dated cal s)
    (hg : WithinBudget cal budget s) : WithinBudget cal budget { s with now := s.now + d } := by
  have hle : s.now ≤ s.now + (d : ℚ) := le_add_of_nonneg_right d.coe_nonneg
  have hnext := elapse_dated cal s d hs
  rcases (cal.mono _ _ hle).eq_or_lt with hsame | hlater
  · constructor
    · rw [total_eq cal _ hnext]
      simp only [← hsame]
      rw [← total_eq cal s hs, hg.kept]
    · simp only [← hsame]
      exact hg.capped
  · obtain ⟨hnone, hstarted, hrecorded⟩ := hs.ahead _ hlater
    constructor
    · rw [total_eq cal _ hnext]
      simp only [hnone, List.count_eq_zero_of_not_mem hrecorded]
      simp [cost]
    · exact fun h => absurd h hstarted

/-- The budget allows a distillation, and its work begins. -/
def grant (cal : Calendar) (s : State R) (id : ℕ) (replica : R) : State R :=
  { s.put id ⟨replica, .distilling⟩ with started := cal.yyyymm s.now :: s.started }

theorem within_congr (cal : Calendar) (budget : ℚ) (s t : State R) (hnow : t.now = s.now)
    (hredis : t.redis = s.redis) (hstarted : t.started = s.started)
    (hrecorded : t.recorded = s.recorded) (hg : WithinBudget cal budget s) :
    WithinBudget cal budget t := by
  constructor
  · simpa only [total, hnow, hredis, hrecorded] using hg.kept
  · simpa only [hnow, hstarted] using hg.capped

theorem started_within_iff (cal : Calendar) (budget : ℚ) (s : State R) (id : ℕ) (replica : R)
    (hg : WithinBudget cal budget s) :
    WithinBudget cal budget (grant cal s id replica) ↔
      cost (s.started.count (cal.yyyymm s.now)) + ESTIMATED_COST_PER_DISTILL ≤ budget := by
  rw [← cost_succ]
  constructor
  · intro h
    simpa [grant, State.put] using h.capped List.mem_cons_self
  · intro h
    constructor
    · exact hg.kept
    · intro _
      simpa [grant, State.put] using h

variable [DecidableEq R]

def record_cost (cal : Calendar) (s : State R) (id : ℕ) (r : Run R) (current cost : ℚ) :
    State R :=
  { s.put id { r with phase := .ended } with
    redis := write s.redis (cal.yyyymm s.now) (current + cost) (s.now + 2678400)
    busy := Function.update s.busy r.replica none
    recorded := cal.yyyymm s.now :: s.recorded }

def step (cal : Calendar) (budget : ℚ) (s : State R) : Label R → Option (State R)
  | .distill id replica =>
    match s.runs id with
    | some _ => none
    | none => if s.busy replica = none then some (s.put id ⟨replica, .called⟩) else none
  | .check id =>
    match awake s id with
    | some ⟨replica, .called⟩ =>
      if check_budget cal budget s ESTIMATED_COST_PER_DISTILL then
        some (grant cal s id replica)
      else some (s.put id ⟨replica, .ended⟩)
    | _ => none
  | .abandon id =>
    -- no drafts, or an exception before the cost is recorded
    match awake s id with
    | some ⟨replica, .distilling⟩ => some (s.put id ⟨replica, .ended⟩)
    | _ => none
  | .read id =>
    match awake s id with
    | some ⟨replica, .distilling⟩ =>
      some { s.put id ⟨replica, .recording (total cal s)⟩ with
        busy := Function.update s.busy replica (some id) }
    | _ => none
  | .write id =>
    match s.runs id with
    | some ⟨replica, .recording current⟩ =>
      some (record_cost cal s id ⟨replica, .recording current⟩ current
        ESTIMATED_COST_PER_DISTILL)
    | _ => none
  | .elapse d => some { s with now := s.now + d }

section RecordCost
variable (cal : Calendar) (s : State R) (id : ℕ) (r : Run R) (current cost : ℚ)

@[simp] theorem record_cost_now : (record_cost cal s id r current cost).now = s.now := rfl

@[simp] theorem record_cost_redis : (record_cost cal s id r current cost).redis =
    write s.redis (cal.yyyymm s.now) (current + cost) (s.now + 2678400) := rfl

@[simp] theorem record_cost_started :
    (record_cost cal s id r current cost).started = s.started := rfl

@[simp] theorem record_cost_recorded :
    (record_cost cal s id r current cost).recorded = cal.yyyymm s.now :: s.recorded := rfl

end RecordCost

/-- Where the total is written, it still is the one that was read. -/
def StillCurrent (cal : Calendar) (s : State R) : Label R → Prop
  | .write id => ∀ replica current, s.runs id = some ⟨replica, .recording current⟩ →
      current = total cal s
  | _ => True

/-- Where a check lets a distillation start, the budget is enough for it and for
all that were started this month. -/
def FitsAll (cal : Calendar) (budget : ℚ) (s : State R) : Label R → Prop
  | .check id => ∀ replica, awake s id = some ⟨replica, .called⟩ →
      check_budget cal budget s ESTIMATED_COST_PER_DISTILL = true →
      cost (s.started.count (cal.yyyymm s.now)) + ESTIMATED_COST_PER_DISTILL ≤ budget
  | _ => True

/-- What a step does to the totals, the clock and the two lists. -/
inductive Effect (cal : Calendar) (budget : ℚ) (s : State R) : Label R → State R → Prop where
  | quiet (l : Label R) (t : State R) (hnow : t.now = s.now) (hredis : t.redis = s.redis)
      (hstarted : t.started = s.started) (hrecorded : t.recorded = s.recorded) :
      Effect cal budget s l t
  | started (id : ℕ) (replica : R) (h : awake s id = some ⟨replica, .called⟩)
      (hok : check_budget cal budget s ESTIMATED_COST_PER_DISTILL = true) :
      Effect cal budget s (.check id) (grant cal s id replica)
  | recorded (id : ℕ) (replica : R) (current : ℚ)
      (h : s.runs id = some ⟨replica, .recording current⟩) :
      Effect cal budget s (.write id)
        (record_cost cal s id ⟨replica, .recording current⟩ current ESTIMATED_COST_PER_DISTILL)
  | elapsed (d : ℚ≥0) : Effect cal budget s (.elapse d) { s with now := s.now + d }

theorem effect_of_step (cal : Calendar) (budget : ℚ) (s : State R) (l : Label R) (t : State R)
    (h : step cal budget s l = some t) : Effect cal budget s l t := by
  cases l with
  | distill id replica =>
    simp only [step] at h
    split at h
    · cases h
    · split at h
      · cases h
        exact .quiet _ _ rfl rfl rfl rfl
      · cases h
  | check id =>
    simp only [step] at h
    split at h
    · next replica hr =>
      split at h
      · next hok =>
        cases h
        exact .started id replica hr hok
      · cases h
        exact .quiet _ _ rfl rfl rfl rfl
    · cases h
  | abandon id =>
    simp only [step] at h
    split at h
    · cases h
      exact .quiet _ _ rfl rfl rfl rfl
    · cases h
  | read id =>
    simp only [step] at h
    split at h
    · cases h
      exact .quiet _ _ rfl rfl rfl rfl
    · cases h
  | write id =>
    simp only [step] at h
    split at h
    · next replica current hr =>
      cases h
      exact .recorded id replica current hr
    · cases h
  | elapse d =>
    simp only [step, Option.some.injEq] at h
    subst h
    exact .elapsed d

theorem step_dated (cal : Calendar) (budget : ℚ) (s : State R) (l : Label R) (t : State R)
    (h : step cal budget s l = some t) (hs : Dated cal s) : Dated cal t := by
  cases effect_of_step cal budget s l t h with
  | quiet _ _ hnow hredis hstarted hrecorded =>
    constructor
    · simpa only [hnow, hredis, hstarted, hrecorded] using hs.ahead
    · simpa only [hnow, hredis] using hs.outlives
  | started id replica _ _ =>
    constructor
    · intro m hm
      obtain ⟨hnone, hstarted, hrecorded⟩ := hs.ahead m hm
      have hne : m ≠ cal.yyyymm s.now := ne_of_gt hm
      exact ⟨hnone, by simp [grant, hne, hstarted], hrecorded⟩
    · exact hs.outlives
  | recorded id replica current _ =>
    constructor
    · intro m hm
      obtain ⟨hnone, hstarted, hrecorded⟩ := hs.ahead m hm
      have hne : m ≠ cal.yyyymm s.now := ne_of_gt hm
      refine ⟨?_, hstarted, by simp [hne, hrecorded]⟩
      rw [record_cost_redis, ExpiringStore.write_other _ _ _ _ _ hne, hnone]
    · intro e he
      rw [record_cost_redis, record_cost_now, ExpiringStore.write_same, Option.some.injEq] at he
      exact ⟨s.now, le_refl _, rfl, by rw [← he]⟩
  | elapsed d => exact elapse_dated cal s d hs

theorem recorded_within_iff (cal : Calendar) (budget : ℚ) (s : State R) (id : ℕ) (r : Run R)
    (current : ℚ) (hg : WithinBudget cal budget s) :
    WithinBudget cal budget (record_cost cal s id r current ESTIMATED_COST_PER_DISTILL) ↔
      current = total cal s := by
  have htotal : total cal (record_cost cal s id r current ESTIMATED_COST_PER_DISTILL) =
      current + ESTIMATED_COST_PER_DISTILL := by
    have hlive : s.now ≤ s.now + 2678400 := by linarith
    unfold total
    rw [record_cost_now, record_cost_redis, ExpiringStore.get_write_same _ _ _ _ _ hlive,
      Option.getD_some]
  constructor
  · intro h
    have hkept := h.kept
    rw [htotal, record_cost_now, record_cost_recorded, List.count_cons_self, cost_succ,
      ← hg.kept] at hkept
    exact add_right_cancel hkept
  · intro h
    constructor
    · rw [htotal, record_cost_now, record_cost_recorded, List.count_cons_self, cost_succ,
        ← hg.kept, h]
    · exact hg.capped

theorem within_step_iff (cal : Calendar) (budget : ℚ) (s : State R) (l : Label R)
    (hs : Dated cal s) (hg : WithinBudget cal budget s) :
    (∀ t, step cal budget s l = some t → WithinBudget cal budget t) ↔
      StillCurrent cal s l ∧ FitsAll cal budget s l := by
  constructor
  · intro h
    constructor
    · cases l with
      | write id =>
        intro replica current hr
        have hstep : step cal budget s (.write id) = some (record_cost cal s id
            ⟨replica, .recording current⟩ current ESTIMATED_COST_PER_DISTILL) := by
          simp [step, hr]
        exact (recorded_within_iff cal budget s id _ current hg).mp (h _ hstep)
      | _ => trivial
    · cases l with
      | check id =>
        intro replica hr hok
        have hstep : step cal budget s (.check id) = some (grant cal s id replica) := by
          simp [step, hr, hok]
        exact (started_within_iff cal budget s id replica hg).mp (h _ hstep)
      | _ => trivial
  · rintro ⟨hcurrent, hfits⟩ t ht
    cases effect_of_step cal budget s l t ht with
    | quiet _ _ hnow hredis hstarted hrecorded =>
      exact within_congr cal budget s t hnow hredis hstarted hrecorded hg
    | started id replica hr hok =>
      exact (started_within_iff cal budget s id replica hg).mpr (hfits replica hr hok)
    | recorded id replica current hr =>
      exact (recorded_within_iff cal budget s id _ current hg).mpr (hcurrent replica current hr)
    | elapsed d => exact elapse_within cal budget s d hs hg

/-- Months of 31 days each. -/
def evenMonths : Calendar where
  yyyymm := fun t => ⌊t / 2678400⌋
  mono := by
    intro a b h
    apply Int.floor_le_floor
    linarith
  within := by
    intro a b _ h
    have hlt := Int.abs_sub_lt_one_of_floor_eq_floor h
    rw [abs_sub_lt_iff] at hlt
    linarith [hlt.2]

/-- Two replicas read the total before either has written it. -/
def bothRead : List (Label Bool) :=
  [.distill 0 false, .distill 1 true, .check 0, .check 1, .read 0, .read 1, .write 0, .write 1]

end AigentSquad.KbBudget
