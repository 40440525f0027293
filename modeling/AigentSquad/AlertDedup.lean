import AigentSquad.EntryPoints
import AigentSquad.ExpiringStore

/-!
# Alert deduplication over replicas

`handle_alert_payload` goes through the alerts of a delivery. Within a replica
`is_duplicate` is not interrupted, but its read and its write are two commands,
and between them other replicas go on. The mark expires by Redis' clock.
-/

set_option autoImplicit false

namespace AigentSquad.AlertDedup
open AigentSquad.PyText AigentSquad.Dict AigentSquad.Transition AigentSquad.EntryPoints
open AigentSquad.RemoteStore (Reply)
open AigentSquad.ExpiringStore (Entry Store write)

variable {R : Type}

structure AlertmanagerPayload where
  commonLabels : Entries Str Str
  alerts : List AlertmanagerAlert

inductive Phase where
  | next
  /-- `is_duplicate` has found no mark and has not written one -/
  | unmarked
  | investigating
deriving DecidableEq

/-- A running `handle_alert_payload`. The first of the alerts is the one at hand. -/
structure Delivery (R : Type) where
  replica : R
  commonLabels : Entries Str Str
  alerts : List AlertmanagerAlert
  phase : Phase := .next
  triggered : ℕ := 0
  deduped : ℕ := 0
  skipped_resolved : ℕ := 0

structure Started where
  fingerprint : Str
  symptom : Str
  time : ℚ
  /-- until when the mark lives that was written for it -/
  marked_until : Option ℚ

structure State (R : Type) where
  now : ℚ
  redis : Store Str Str ℚ
  deliveries : ℕ → Option (Delivery R)
  /-- the delivery whose `is_duplicate` a replica is in -/
  checking : R → Option ℕ
  /-- the investigations started, the last one first -/
  started : List Started

def start (now : ℚ) : State R := ⟨now, fun _ => none, fun _ => none, fun _ => none, []⟩

inductive Label (R : Type) where
  | deliver (id : ℕ) (replica : R) (payload : AlertmanagerPayload)
  | skip (id : ℕ)
  | get (id : ℕ) (reply : Reply)
  | set (id : ℕ) (reply : Reply)
  | investigated (id : ℕ) (produced : Bool)
  | elapse (d : ℚ≥0)

/-- The key of the mark, in the namespace `alerts`. -/
def mark_key (fingerprint : Str) : Str := "alerts:alert:fp:".toList ++ fingerprint

theorem mark_key_injective (a b : Str) (h : mark_key a = mark_key b) : a = b :=
  List.append_cancel_left h

/-- `cache.get`, fail-open: without an answer there is no value. -/
def cache_get (s : State R) (k : Str) (reply : Reply) : Option Str :=
  if reply = .ok then ExpiringStore.get s.redis s.now k else none

/-- `SETEX` takes no time to live below one second. -/
def written (ttl : Int) (reply : Reply) : Bool := reply.applied && decide (0 < ttl)

def cache_set (ttl : Int) (s : State R) (k v : Str) (reply : Reply) : Store Str Str ℚ :=
  if written ttl reply then write s.redis k v (s.now + ttl) else s.redis

def State.put (s : State R) (id : ℕ) (d : Delivery R) : State R :=
  { s with deliveries := Function.update s.deliveries id (some d) }

/-- The marks in Redis are those of the investigations started. -/
structure Recorded (ttl : Int) (s : State R) : Prop where
  past : ∀ st ∈ s.started, st.time ≤ s.now
  lifetime : ∀ st ∈ s.started, ∀ u, st.marked_until = some u → 0 < ttl ∧ u = st.time + ttl
  kept : ∀ st ∈ s.started, ∀ u, st.marked_until = some u → s.now ≤ u →
    ∃ v e, s.redis (mark_key st.fingerprint) = some ⟨v, e⟩ ∧ u ≤ e
  origin : ∀ fp e, s.redis (mark_key fp) = some e →
    ∃ st ∈ s.started, st.fingerprint = fp ∧ st.marked_until = some e.deadline

theorem start_recorded (ttl : Int) (now : ℚ) : Recorded ttl (start now : State R) := by
  constructor <;> simp [start]

theorem quiet_recorded (ttl : Int) (s t : State R) (hnow : t.now = s.now)
    (hredis : t.redis = s.redis) (hstarted : t.started = s.started) (hs : Recorded ttl s) :
    Recorded ttl t := by
  obtain ⟨hpast, hlife, hkept, horigin⟩ := hs
  constructor
  · simpa only [hstarted, hnow] using hpast
  · simpa only [hstarted] using hlife
  · simpa only [hstarted, hnow, hredis] using hkept
  · simpa only [hstarted, hredis] using horigin

theorem elapse_recorded (ttl : Int) (s : State R) (d : ℚ≥0) (hs : Recorded ttl s) :
    Recorded ttl { s with now := s.now + d } := by
  have hle : s.now ≤ s.now + (d : ℚ) := le_add_of_nonneg_right d.coe_nonneg
  constructor
  · exact fun st hst => le_trans (hs.past st hst) hle
  · exact hs.lifetime
  · exact fun st hst u hu hnow => hs.kept st hst u hu (le_trans hle hnow)
  · exact hs.origin

/-- An investigation of the fingerprint was started whose mark still lives. -/
def Marked (s : State R) (fingerprint : Str) : Prop :=
  ∃ st ∈ s.started, st.fingerprint = fingerprint ∧
    ∃ u, st.marked_until = some u ∧ s.now ≤ u

theorem get_mark_iff (ttl : Int) (s : State R) (fingerprint : Str) (hs : Recorded ttl s) :
    (ExpiringStore.get s.redis s.now (mark_key fingerprint)).isSome = true ↔
      Marked s fingerprint := by
  rw [Option.isSome_iff_exists]
  constructor
  · rintro ⟨v, hv⟩
    obtain ⟨e, he, hnow⟩ := (ExpiringStore.get_eq_some _ _ _ _).mp hv
    obtain ⟨st, hst, hfp, hu⟩ := hs.origin fingerprint ⟨v, e⟩ he
    exact ⟨st, hst, hfp, e, hu, hnow⟩
  · rintro ⟨st, hst, rfl, u, hu, hnow⟩
    obtain ⟨v, e, he, hle⟩ := hs.kept st hst u hu hnow
    exact ⟨v, (ExpiringStore.get_eq_some _ _ _ _).mpr ⟨e, he, le_trans hnow hle⟩⟩

/-- With Redis up every investigation has left its mark. -/
structure Answered (ttl : Int) (s : State R) : Prop where
  recorded : Recorded ttl s
  marked : 0 < ttl → ∀ st ∈ s.started, st.marked_until = some (st.time + ttl)

/-- With every mark left, a fingerprint has none exactly when its last window is over. -/
theorem unmarked_iff (ttl : Int) (s : State R) (fingerprint : Str) (hs : Answered ttl s)
    (hpos : 0 < ttl) :
    ExpiringStore.get s.redis s.now (mark_key fingerprint) = none ↔
      ∀ st ∈ s.started, fingerprint = st.fingerprint → st.time + ttl < s.now := by
  have hiff := get_mark_iff ttl s fingerprint hs.recorded
  rw [← Option.not_isSome_iff_eq_none, hiff]
  constructor
  · intro h st hst hfp
    by_contra hlt
    exact h ⟨st, hst, hfp.symm, _, hs.marked hpos st hst, not_lt.mp hlt⟩
  · rintro h ⟨st, hst, hfp, u, hu, hnow⟩
    rw [hs.marked hpos st hst, Option.some.injEq] at hu
    subst hu
    exact absurd (h st hst hfp.symm) (not_lt.mpr hnow)

theorem no_window_unmarked (ttl : Int) (s : State R) (fingerprint : Str) (hs : Recorded ttl s)
    (hpos : ¬ 0 < ttl) : ExpiringStore.get s.redis s.now (mark_key fingerprint) = none := by
  rw [← Option.not_isSome_iff_eq_none, get_mark_iff ttl s fingerprint hs]
  rintro ⟨st, hst, _, u, hu, _⟩
  exact hpos (hs.lifetime st hst u hu).1

theorem cache_get_iff (ttl : Int) (s : State R) (fingerprint : Str) (reply : Reply)
    (hs : Recorded ttl s) :
    (cache_get s (mark_key fingerprint) reply).isSome = true ↔
      reply = .ok ∧ Marked s fingerprint := by
  unfold cache_get
  by_cases hreply : reply = .ok
  · simp only [hreply, ↓reduceIte, true_and]
    exact get_mark_iff ttl s fingerprint hs
  · simp [hreply]

/-- The delivery and its alert at hand, while its replica is in no `is_duplicate`. -/
def at_hand (s : State R) (id : ℕ) :
    Option (Delivery R × AlertmanagerAlert × List AlertmanagerAlert) :=
  match s.deliveries id with
  | none => none
  | some d =>
    if s.checking d.replica = none then
      match d.alerts with
      | [] => none
      | alert :: rest => some (d, alert, rest)
    else none

theorem at_hand_spec (s : State R) (id : ℕ) (d : Delivery R) (alert : AlertmanagerAlert)
    (rest : List AlertmanagerAlert) (h : at_hand s id = some (d, alert, rest)) :
    s.deliveries id = some d ∧ s.checking d.replica = none ∧ d.alerts = alert :: rest := by
  unfold at_hand at h
  split at h
  · cases h
  · next e he =>
    split at h
    · next hc =>
      split at h
      · cases h
      · next a as ha =>
        simp only [Option.some.injEq, Prod.mk.injEq] at h
        obtain ⟨rfl, rfl, rfl⟩ := h
        exact ⟨he, hc, ha⟩
    · cases h

variable [DecidableEq R]

/-- The read of `is_duplicate`: a mark ends it, without one the write follows. -/
def check (s : State R) (id : ℕ) (d : Delivery R) (alert : AlertmanagerAlert)
    (rest : List AlertmanagerAlert) (reply : Reply) : State R :=
  match cache_get s (mark_key alert.fingerprint) reply with
  | some _ => s.put id { d with alerts := rest, deduped := d.deduped + 1 }
  | none =>
    { s.put id { d with phase := .unmarked } with
      checking := Function.update s.checking d.replica (some id) }

/-- The write of `is_duplicate`, and the investigation it lets start. -/
def mark (ttl : Int) (s : State R) (id : ℕ) (d : Delivery R) (alert : AlertmanagerAlert)
    (reply : Reply) : State R :=
  { s.put id { d with phase := .investigating } with
    redis := cache_set ttl s (mark_key alert.fingerprint) "1".toList reply
    checking := Function.update s.checking d.replica none
    started :=
      { fingerprint := alert.fingerprint
        symptom := alert_to_symptom alert d.commonLabels
        time := s.now
        marked_until := if written ttl reply then some (s.now + ttl) else none } :: s.started }

def step (ttl : Int) (s : State R) : Label R → Option (State R)
  | .deliver id replica payload =>
    match s.deliveries id with
    | some _ => none
    | none =>
      if s.checking replica = none then
        some (s.put id
          { replica := replica, commonLabels := payload.commonLabels, alerts := payload.alerts })
      else none
  | .skip id =>
    match at_hand s id with
    | none => none
    | some (d, alert, rest) =>
      if d.phase = .next ∧ alert.status = "resolved".toList then
        some (s.put id { d with alerts := rest, skipped_resolved := d.skipped_resolved + 1 })
      else none
  | .get id reply =>
    match at_hand s id with
    | none => none
    | some (d, alert, rest) =>
      if d.phase = .next ∧ alert.status ≠ "resolved".toList then
        some (check s id d alert rest reply)
      else none
  | .set id reply =>
    match s.deliveries id with
    | none => none
    | some d =>
      match d.phase, d.alerts with
      | .unmarked, alert :: _ => some (mark ttl s id d alert reply)
      | _, _ => none
  | .investigated id produced =>
    match at_hand s id with
    | none => none
    | some (d, _, rest) =>
      if d.phase = .investigating then
        -- a failure is logged and the loop goes on
        let triggered := if produced then d.triggered + 1 else d.triggered
        some (s.put id { d with alerts := rest, phase := .next, triggered := triggered })
      else none
  | .elapse d => some { s with now := s.now + d }

/-- What a step does to Redis, the clock and the investigations started. -/
inductive Effect (ttl : Int) (s : State R) : Label R → State R → Prop where
  | quiet (l : Label R) (t : State R) (hnow : t.now = s.now) (hredis : t.redis = s.redis)
      (hstarted : t.started = s.started) : Effect ttl s l t
  | marked (id : ℕ) (d : Delivery R) (alert : AlertmanagerAlert) (rest : List AlertmanagerAlert)
      (reply : Reply) (hd : s.deliveries id = some d) (ha : d.alerts = alert :: rest)
      (hphase : d.phase = .unmarked) :
      Effect ttl s (.set id reply) (mark ttl s id d alert reply)
  | elapsed (d : ℚ≥0) : Effect ttl s (.elapse d) { s with now := s.now + d }

theorem effect_of_step (ttl : Int) (s : State R) (l : Label R) (t : State R)
    (h : step ttl s l = some t) : Effect ttl s l t := by
  cases l with
  | deliver id replica payload =>
    simp only [step] at h
    split at h
    · cases h
    · split at h
      · cases h
        exact .quiet _ _ rfl rfl rfl
      · cases h
  | skip id =>
    simp only [step] at h
    split at h
    · cases h
    · split at h
      · cases h
        exact .quiet _ _ rfl rfl rfl
      · cases h
  | get id reply =>
    simp only [step] at h
    split at h
    · cases h
    · split at h
      · cases h
        unfold check
        split <;> exact .quiet _ _ rfl rfl rfl
      · cases h
  | set id reply =>
    simp only [step] at h
    split at h
    · cases h
    · next d hd =>
      split at h
      · next alert rest hphase ha =>
        cases h
        exact .marked id d alert rest reply hd ha hphase
      · cases h
  | investigated id produced =>
    simp only [step] at h
    split at h
    · cases h
    · split at h
      · cases h
        exact .quiet _ _ rfl rfl rfl
      · cases h
  | elapse d =>
    simp only [step, Option.some.injEq] at h
    subst h
    exact .elapsed d

theorem written_pos (ttl : Int) (reply : Reply) (h : written ttl reply = true) : 0 < ttl := by
  simp only [written, Bool.and_eq_true, decide_eq_true_eq] at h
  exact h.2

theorem mark_recorded (ttl : Int) (s : State R) (id : ℕ) (d : Delivery R)
    (alert : AlertmanagerAlert) (reply : Reply) (hs : Recorded ttl s) :
    Recorded ttl (mark ttl s id d alert reply) := by
  constructor
  · intro st hst
    rcases List.mem_cons.mp hst with rfl | hst
    · exact le_refl s.now
    · exact hs.past st hst
  · intro st hst u hu
    rcases List.mem_cons.mp hst with rfl | hst
    · simp only [Option.ite_none_right_eq_some, Option.some.injEq] at hu
      exact ⟨written_pos ttl reply hu.1, hu.2.symm⟩
    · exact hs.lifetime st hst u hu
  · intro st hst u hu hnow
    simp only [mark, cache_set]
    by_cases hw : written ttl reply = true
    · simp only [hw, ↓reduceIte]
      by_cases hfp : st.fingerprint = alert.fingerprint
      · refine ⟨"1".toList, s.now + ttl, by rw [hfp, ExpiringStore.write_same], ?_⟩
        rcases List.mem_cons.mp hst with rfl | hst
        · simp only [hw, ↓reduceIte, Option.some.injEq] at hu
          exact hu.ge
        · -- an older mark is only replaced by one that lives longer
          rw [(hs.lifetime st hst u hu).2]
          exact add_le_add_left (hs.past st hst) _
      · have hne : mark_key st.fingerprint ≠ mark_key alert.fingerprint :=
          fun h => hfp (mark_key_injective _ _ h)
        rw [ExpiringStore.write_other _ _ _ _ _ hne]
        rcases List.mem_cons.mp hst with rfl | hst
        · exact absurd rfl hfp
        · exact hs.kept st hst u hu hnow
    · simp only [hw]
      rcases List.mem_cons.mp hst with rfl | hst
      · simp [hw] at hu
      · exact hs.kept st hst u hu hnow
  · intro fp e he
    simp only [mark, cache_set] at he
    by_cases hw : written ttl reply = true
    · simp only [hw, ↓reduceIte] at he
      by_cases hfp : fp = alert.fingerprint
      · subst hfp
        rw [ExpiringStore.write_same, Option.some.injEq] at he
        exact ⟨_, List.mem_cons_self, rfl, by simp [hw, ← he]⟩
      · have hne : mark_key fp ≠ mark_key alert.fingerprint :=
          fun h => hfp (mark_key_injective _ _ h)
        rw [ExpiringStore.write_other _ _ _ _ _ hne] at he
        obtain ⟨st, hst, h⟩ := hs.origin fp e he
        exact ⟨st, List.mem_cons_of_mem _ hst, h⟩
    · simp only [hw] at he
      obtain ⟨st, hst, h⟩ := hs.origin fp e he
      exact ⟨st, List.mem_cons_of_mem _ hst, h⟩

theorem step_recorded (ttl : Int) (s : State R) (l : Label R) (t : State R)
    (h : step ttl s l = some t) (hs : Recorded ttl s) : Recorded ttl t := by
  cases effect_of_step ttl s l t h with
  | quiet _ _ hnow hredis hstarted => exact quiet_recorded ttl s t hnow hredis hstarted hs
  | marked id d alert rest reply _ _ _ => exact mark_recorded ttl s id d alert reply hs
  | elapsed d => exact elapse_recorded ttl s d hs

/-- Redis answers every command. -/
def RedisUp : Label R → Prop
  | .get _ reply => reply = .ok
  | .set _ reply => reply = .ok
  | _ => True

/-- Investigations of one fingerprint start more than the window apart. -/
def SingleStart (ttl : Int) (s : State R) : Prop :=
  0 < ttl → s.started.Pairwise (fun (later earlier : Started) =>
    later.fingerprint = earlier.fingerprint → earlier.time + ttl < later.time)

/-- Where `is_duplicate` writes its mark, Redis still has none. -/
def StillUnmarked (s : State R) : Label R → Prop
  | .set id _ => ∀ d alert rest, s.deliveries id = some d → d.phase = .unmarked →
      d.alerts = alert :: rest →
      ExpiringStore.get s.redis s.now (mark_key alert.fingerprint) = none
  | _ => True

theorem step_answered (ttl : Int) (s : State R) (l : Label R) (t : State R)
    (h : step ttl s l = some t) (hup : RedisUp l) (hs : Answered ttl s) : Answered ttl t := by
  constructor
  · exact step_recorded ttl s l t h hs.recorded
  · intro hpos st hst
    cases effect_of_step ttl s l t h with
    | quiet _ _ _ _ hstarted => exact hs.marked hpos st (hstarted ▸ hst)
    | marked id d alert rest reply _ _ _ =>
      rcases List.mem_cons.mp hst with rfl | hst
      · have hreply : reply = .ok := hup
        subst hreply
        simp [written, Reply.applied, hpos]
      · exact hs.marked hpos st hst
    | elapsed d => exact hs.marked hpos st hst

theorem single_start_step (ttl : Int) (s : State R) (l : Label R) (hs : Answered ttl s)
    (hg : SingleStart ttl s) :
    (∀ t, step ttl s l = some t → SingleStart ttl t) ↔ StillUnmarked s l := by
  constructor
  · intro h
    cases l with
    | set id reply =>
      intro d alert rest hd hphase ha
      by_cases hpos : 0 < ttl
      · have hstep : step ttl s (.set id reply) = some (mark ttl s id d alert reply) := by
          simp [step, hd, hphase, ha]
        have hnew := List.pairwise_cons.mp (h _ hstep hpos)
        exact (unmarked_iff ttl s alert.fingerprint hs hpos).mpr hnew.1
      · exact no_window_unmarked ttl s alert.fingerprint hs.recorded hpos
    | _ => trivial
  · intro h t ht hpos
    cases effect_of_step ttl s l t ht with
    | quiet _ _ _ _ hstarted => exact hstarted ▸ hg hpos
    | marked id d alert rest reply hd ha hphase =>
      have habsent := h d alert rest hd hphase ha
      exact List.pairwise_cons.mpr
        ⟨(unmarked_iff ttl s alert.fingerprint hs hpos).mp habsent, hg hpos⟩
    | elapsed d => exact hg hpos

/-- Redis up, investigations of a fingerprint start more than the window apart
exactly when no mark is written over a living one. -/
theorem single_start_iff (ttl : Int) (now : ℚ) (ls : List (Label R)) (hup : ∀ l ∈ ls, RedisUp l) :
    Throughout (step ttl) (SingleStart ttl) (start now) ls ↔
      Along (step ttl) StillUnmarked (start now) ls := by
  have hs : Answered ttl (start now : State R) := ⟨start_recorded ttl now, by simp [start]⟩
  have hg : SingleStart ttl (start now : State R) := by simp [SingleStart, start]
  have ha : Along (step ttl) (fun _ l => RedisUp l) (start now : State R) ls :=
    along_of_mem (start now) ls (fun _ l hl => hup l hl)
  exact throughout_iff_along (fun s l t h hl hs => step_answered ttl s l t h hl hs)
    (fun s l _ hs hg => single_start_step ttl s l hs hg) hs hg ha

/-- Two replicas receive the same alert, read before either has written. -/
def bothRead : List (Label Bool) :=
  let payload : AlertmanagerPayload := ⟨[], [podDown]⟩
  [.deliver 0 false payload, .deliver 1 true payload, .get 0 .ok, .get 1 .ok, .set 0 .ok,
    .set 1 .ok]

theorem both_read_iff :
    Throughout (step 3600) (SingleStart 3600) (start 0) bothRead ↔
      Along (step 3600) StillUnmarked (start 0) bothRead :=
  single_start_iff 3600 0 bothRead (by simp [bothRead, RedisUp])

theorem both_read_investigated :
    ¬ Throughout (step 3600) (SingleStart 3600) (start 0) bothRead := by
  intro h
  have hrun : ∃ s, exec (step 3600) (start 0) bothRead = some s ∧
      s.started.map (fun st => (st.fingerprint, st.time)) =
        [("f1".toList, 0), ("f1".toList, 0)] := ⟨_, rfl, by decide⟩
  obtain ⟨s, hs, htwice⟩ := hrun
  have hend : s.started.Pairwise (fun (later earlier : Started) =>
      later.fingerprint = earlier.fingerprint → earlier.time + 3600 < later.time) :=
    h bothRead [] s (List.append_nil _).symm hs (by decide)
  have hpairs : (s.started.map (fun st => (st.fingerprint, st.time))).Pairwise
      (fun later earlier => later.1 = earlier.1 → earlier.2 + 3600 < later.2) :=
    List.pairwise_map.mpr hend
  rw [htwice] at hpairs
  exact absurd hpairs (by decide +kernel)

section Replica

/-- On a single replica the delivery that has found no mark is the one being checked. -/
def Settled (s : State Unit) : Prop :=
  ∀ id d, s.deliveries id = some d → d.phase = .unmarked →
    s.checking () = some id ∧ ∀ alert rest, d.alerts = alert :: rest →
      ExpiringStore.get s.redis s.now (mark_key alert.fingerprint) = none

theorem put_settled (s : State Unit) (id : ℕ) (d : Delivery Unit) (hs : Settled s)
    (hd : d.phase ≠ .unmarked) : Settled (s.put id d) := by
  intro other e he hphase
  by_cases h : other = id
  · subst h
    simp only [State.put, Function.update_self, Option.some.injEq] at he
    exact absurd hphase (he ▸ hd)
  · simp only [State.put, Function.update_of_ne h] at he
    exact hs other e he hphase

theorem check_settled (s : State Unit) (id : ℕ) (d : Delivery Unit) (alert : AlertmanagerAlert)
    (rest : List AlertmanagerAlert) (hs : Settled s) (hd : s.checking d.replica = none)
    (ha : d.alerts = alert :: rest) (hphase : d.phase = .next) :
    Settled (check s id d alert rest .ok) := by
  unfold check
  split
  · exact put_settled s id _ hs (by simp [hphase])
  · next hnone =>
    intro other e he hunmarked
    by_cases h : other = id
    · subst h
      simp only [State.put, Function.update_self, Option.some.injEq] at he
      subst he
      constructor
      · simp
      · intro a as has
        simp only [ha, List.cons.injEq] at has
        obtain ⟨rfl, rfl⟩ := has
        simp only [cache_get, ↓reduceIte] at hnone
        exact hnone
    · simp only [State.put, Function.update_of_ne h] at he
      have hother := (hs other e he hunmarked).1
      rw [hd] at hother
      cases hother

theorem mark_settled (ttl : Int) (s : State Unit) (id : ℕ) (d : Delivery Unit)
    (alert : AlertmanagerAlert) (reply : Reply) (hs : Settled s)
    (hd : s.deliveries id = some d) (hphase : d.phase = .unmarked) :
    Settled (mark ttl s id d alert reply) := by
  intro other e he hunmarked
  by_cases h : other = id
  · subst h
    simp only [mark, State.put, Function.update_self, Option.some.injEq] at he
    subst he
    cases hunmarked
  · simp only [mark, State.put, Function.update_of_ne h] at he
    have hid := (hs id d hd hphase).1
    have hother := (hs other e he hunmarked).1
    rw [hid, Option.some.injEq] at hother
    exact absurd hother.symm h

theorem step_settled (ttl : Int) (s : State Unit) (l : Label Unit) (t : State Unit)
    (h : step ttl s l = some t) (hup : RedisUp l) (hs : Settled s) : Settled t := by
  cases l with
  | deliver id replica payload =>
    simp only [step] at h
    split at h
    · cases h
    · split at h
      · cases h
        exact put_settled s id _ hs (by simp)
      · cases h
  | skip id =>
    simp only [step] at h
    split at h
    · cases h
    · split at h
      · next hguard =>
        cases h
        exact put_settled s id _ hs (by simp [hguard.1])
      · cases h
  | get id reply =>
    have hreply : reply = .ok := hup
    subst hreply
    simp only [step] at h
    split at h
    · cases h
    · next d alert rest hhand =>
      obtain ⟨_, hc, ha⟩ := at_hand_spec s id d alert rest hhand
      split at h
      · next hguard =>
        cases h
        exact check_settled s id d alert rest hs hc ha hguard.1
      · cases h
  | set id reply =>
    simp only [step] at h
    split at h
    · cases h
    · next d hd =>
      split at h
      · next alert rest hphase ha =>
        cases h
        exact mark_settled ttl s id d alert reply hs hd hphase
      · cases h
  | investigated id produced =>
    simp only [step] at h
    split at h
    · cases h
    · split at h
      · cases h
        exact put_settled s id _ hs (by simp)
      · cases h
  | elapse d =>
    simp only [step, Option.some.injEq] at h
    subst h
    intro id e he hunmarked
    obtain ⟨hc, habsent⟩ := hs id e he hunmarked
    refine ⟨hc, fun alert rest ha => ?_⟩
    have hle : s.now ≤ s.now + (d : ℚ) := le_add_of_nonneg_right d.coe_nonneg
    rw [Option.eq_none_iff_forall_ne_some]
    intro v hv
    have hbefore := ExpiringStore.get_of_later _ _ _ _ _ hle hv
    rw [habsent alert rest ha] at hbefore
    cases hbefore

/-- A single replica never starts two investigations of a fingerprint in one window. -/
theorem single_replica (ttl : Int) (now : ℚ) (ls : List (Label Unit))
    (hup : ∀ l ∈ ls, RedisUp l) : Throughout (step ttl) (SingleStart ttl) (start now) ls := by
  have hsettled : Settled (start now) := by
    intro id d hd
    simp [start] at hd
  have ha : Along (step ttl) (fun _ l => RedisUp l) (start now) ls :=
    along_of_mem (start now) ls (fun _ l hl => hup l hl)
  have hstill : Along (step ttl) StillUnmarked (start now) ls := by
    apply along_of_invariant (step_settled ttl) ?_ hsettled ha
    intro s l _ hs
    cases l with
    | set id reply => exact fun d alert rest hd hphase ha => (hs id d hd hphase).2 alert rest ha
    | _ => trivial
  exact (single_start_iff ttl now ls hup).mpr hstill

end Replica

/-- A check counts a duplicate exactly where it is answered and a mark lives, and
otherwise the investigation starts. -/
def Decided (ttl : Int) (s : State R) : Label R → Prop
  | .get id reply => ∀ t d alert rest, step ttl s (.get id reply) = some t →
      s.deliveries id = some d → d.alerts = alert :: rest →
      (reply = .ok ∧ Marked s alert.fingerprint →
        t = s.put id { d with alerts := rest, deduped := d.deduped + 1 }) ∧
      (¬(reply = .ok ∧ Marked s alert.fingerprint) →
        ∀ set_reply, ∃ u st, step ttl t (.set id set_reply) = some u ∧
          u.started = st :: s.started ∧ st.fingerprint = alert.fingerprint ∧
          st.symptom = alert_to_symptom alert d.commonLabels ∧
          st.marked_until = if written ttl set_reply then some (s.now + ttl) else none)
  | _ => True

theorem decided_of_recorded (ttl : Int) (s : State R) (l : Label R) (hs : Recorded ttl s) :
    Decided ttl s l := by
  cases l with
  | get id reply =>
    intro t d alert rest ht hd ha
    have hiff := cache_get_iff ttl s alert.fingerprint reply hs
    have hcheck : t = check s id d alert rest reply := by
      simp only [step] at ht
      split at ht
      · cases ht
      · next e a as hhand =>
        obtain ⟨he, _, has⟩ := at_hand_spec s id e a as hhand
        rw [hd, Option.some.injEq] at he
        subst he
        rw [ha, List.cons.injEq] at has
        obtain ⟨rfl, rfl⟩ := has
        split at ht
        · cases ht
          rfl
        · cases ht
    subst hcheck
    constructor
    · intro hmarked
      obtain ⟨v, hv⟩ := Option.isSome_iff_exists.mp (hiff.mpr hmarked)
      simp [check, hv]
    · intro hnot set_reply
      have hnone : cache_get s (mark_key alert.fingerprint) reply = none :=
        Option.not_isSome_iff_eq_none.mp (fun h => hnot (hiff.mp h))
      let searched : State R :=
        { s.put id { d with phase := .unmarked } with
          checking := Function.update s.checking d.replica (some id) }
      have hcheck : check s id d alert rest reply = searched := by simp [check, hnone, searched]
      rw [hcheck]
      refine ⟨mark ttl searched id { d with phase := .unmarked } alert set_reply, _, ?_, rfl, rfl,
        rfl, rfl⟩
      simp [searched, step, State.put, ha]
  | _ => trivial

/-- Whether an alert is investigated again depends on the mark alone, whatever
became of the investigation it was written for. -/
theorem mark_decides (ttl : Int) (now : ℚ) (ls : List (Label R)) :
    Along (step ttl) (Decided ttl) (start now) ls := by
  have hall : Along (step ttl) (fun _ _ => True) (start now : State R) ls :=
    along_of_forall (fun _ _ => trivial) (start now) ls
  exact along_of_invariant (fun s l t h _ hs => step_recorded ttl s l t h hs)
    (fun s l _ hs => decided_of_recorded ttl s l hs) (start_recorded ttl now) hall

/-- The investigation of an alert fails and the alert is delivered again. -/
def failedThenRedelivered : List (Label Unit) :=
  let payload : AlertmanagerPayload := ⟨[], [podDown]⟩
  [.deliver 0 () payload, .get 0 .ok, .set 0 .ok, .investigated 0 false, .elapse 300,
    .deliver 1 () payload, .get 1 .ok]

theorem failed_alert_is_duplicate :
    (exec (step 3600) (start 0) failedThenRedelivered).map
        (fun s => (s.started.length, (s.deliveries 0).map Delivery.triggered)) =
      some (1, some 0) ∧
    (exec (step 3600) (start 0) failedThenRedelivered).bind
        (fun s => (s.deliveries 1).map (fun d => (d.deduped, d.alerts.length))) =
      some (1, 0) := by
  decide +kernel

end AigentSquad.AlertDedup
