import AigentSquad.CircuitBreaker

/-!
# How a tripped breaker recovers

A breaker is watched through a run of calls in any order. The watcher counts the
calls let through since the breaker turned HALF_OPEN, until an outcome is
recorded, and keeps the clock reading of the last recorded failure.
-/

set_option autoImplicit false

namespace AigentSquad.BreakerRecovery
open AigentSquad.CircuitBreaker AigentSquad.RemoteStore AigentSquad.Transition

structure Watched where
  shared : Shared
  probes : Option ℕ
  last_failure : Option ℚ

def Watched.state (w : Watched) : CircuitState := w.shared.breaker.mem_state

def probes (w : Watched) : Label → Option ℕ
  | .can_execute now r =>
    let out := can_execute w.shared now r
    if w.state ≠ .HALF_OPEN ∧ out.1.breaker.mem_state = .HALF_OPEN then some 1
    else if out.2 = .ok true then w.probes.map (· + 1)
    else w.probes
  | .record_success _ => none
  | .record_failure _ _ => none
  | _ => w.probes

def last_failure (w : Watched) : Label → Option ℚ
  | .record_failure now _ => some now
  | _ => w.last_failure

def watch (w : Watched) (l : Label) : Option Watched :=
  (step w.shared l).map (fun t => ⟨t, probes w l, last_failure w l⟩)

def watched (failure_threshold : Int) (recovery_timeout : ℚ) (redis_backed : Bool) : Watched :=
  ⟨start failure_threshold recovery_timeout redis_backed, none, none⟩

/-- Since the breaker turned HALF_OPEN at most one call was let through. -/
def OneProbe (w : Watched) : Prop := ∀ n ∈ w.probes, n ≤ 1

/-- No call asks a HALF_OPEN breaker whether it may go ahead. -/
def NoSecondCaller (w : Watched) : Label → Prop
  | .can_execute _ _ => w.state ≠ .HALF_OPEN
  | _ => True

/-- An OPEN breaker is left only by a call that comes late enough. -/
def LeavesLate (w : Watched) (l : Label) : Prop :=
  ∀ t, watch w l = some t → w.state = .OPEN → t.state ≠ .OPEN →
    ∃ now r f, l = .can_execute now r ∧ w.last_failure = some f ∧
      w.shared.breaker.recovery_timeout ≤ now - f

/-- No success is recorded while the breaker is OPEN. -/
def NoLateSuccess (w : Watched) : Label → Prop
  | .record_success _ => w.state ≠ .OPEN
  | _ => True

instance (w : Watched) (l : Label) : Decidable (NoSecondCaller w l) :=
  match l with
  | .can_execute _ _ => inferInstanceAs (Decidable (w.state ≠ .HALF_OPEN))
  | .record_success _ => instDecidableTrue
  | .record_failure _ _ => instDecidableTrue
  | .is_open _ => instDecidableTrue
  | .elapse _ => instDecidableTrue
  | .elsewhere _ => instDecidableTrue

instance (w : Watched) (l : Label) : Decidable (NoLateSuccess w l) :=
  match l with
  | .record_success _ => inferInstanceAs (Decidable (w.state ≠ .OPEN))
  | .can_execute _ _ => instDecidableTrue
  | .record_failure _ _ => instDecidableTrue
  | .is_open _ => instDecidableTrue
  | .elapse _ => instDecidableTrue
  | .elsewhere _ => instDecidableTrue

structure Tracks (w : Watched) : Prop where
  synced : Synced w.shared
  probed : w.state = .HALF_OPEN ↔ w.probes.isSome
  counted : ∀ n ∈ w.probes, 1 ≤ n
  stamped : w.state ≠ .CLOSED → w.last_failure = some w.shared.breaker.mem_last_failure_time

theorem watched_tracks (failure_threshold : Int) (recovery_timeout : ℚ) (redis_backed : Bool) :
    Tracks (watched failure_threshold recovery_timeout redis_backed) := by
  constructor
  · exact start_synced failure_threshold recovery_timeout redis_backed
  · simp [watched, Watched.state, start]
  · intro n hn
    cases hn
  · exact fun h => absurd rfl h

/-- What a `can_execute` does to the watcher, by the state it finds. -/
theorem can_execute_watched (w : Watched) (hw : Tracks w) (now : ℚ) (r : Replies)
    (hr : w.shared.breaker.redis_backed = true → Heard w.shared r) :
    (w.state ≠ .OPEN ∧ watch w (.can_execute now r) =
      some { w with probes := w.probes.map (· + 1) }) ∨
    (w.state = .OPEN ∧
      w.shared.breaker.recovery_timeout ≤ now - w.shared.breaker.mem_last_failure_time ∧
      watch w (.can_execute now r) =
        some { w with shared := set_state w.shared .HALF_OPEN r.set_state, probes := some 1 }) ∨
    (w.state = .OPEN ∧ watch w (.can_execute now r) = some w) := by
  obtain ⟨hstate, h⟩ | ⟨hstate, htime, h⟩ | ⟨hstate, _, h⟩ :=
    can_execute_cases w.shared hw.synced now r hr
  · apply Or.inl
    have hstay : ¬ (w.state ≠ .HALF_OPEN ∧ w.shared.breaker.mem_state = .HALF_OPEN) :=
      fun h => h.1 h.2
    exact ⟨hstate, by simp [watch, step, probes, last_failure, h, hstay]⟩
  · apply Or.inr
    apply Or.inl
    have hopen : w.state = .OPEN := hstate
    exact ⟨hstate, htime, by simp [watch, step, probes, last_failure, h, hopen, set_state]⟩
  · apply Or.inr
    apply Or.inr
    have hopen : w.state = .OPEN := hstate
    exact ⟨hstate, by simp [watch, step, probes, last_failure, h, hstate]⟩

/-- A failure never leaves the breaker half open. -/
theorem record_failure_settles (s : Shared) (hs : Synced s) (now : ℚ) (r : Replies)
    (hr : s.breaker.redis_backed = true → Heard s r) :
    (record_failure s now r).1.breaker.mem_state ≠ .HALF_OPEN := by
  rw [record_failure_breaker s now r hr]
  dsimp only
  split
  · decide
  · next hbelow =>
    intro hhalf
    have htripped := hs.tripped (by rw [hhalf]; decide)
    exact hbelow (Int.le_add_one htripped)

/-- One more caller is let through. -/
theorem Tracks.caller {w : Watched} (hw : Tracks w) :
    Tracks { w with probes := w.probes.map (· + 1) } := by
  constructor
  · exact hw.synced
  · show w.state = .HALF_OPEN ↔ (w.probes.map (· + 1)).isSome
    rw [Option.isSome_map]
    exact hw.probed
  · intro n hn
    simp only [Option.mem_def, Option.map_eq_some_iff] at hn
    obtain ⟨m, _, rfl⟩ := hn
    omega
  · exact hw.stamped

/-- The late caller of an open breaker is its probe. -/
theorem Tracks.probe {w : Watched} (hw : Tracks w) (hopen : w.state = .OPEN) (r : Replies)
    (hr : w.shared.breaker.redis_backed = true → Heard w.shared r) :
    Tracks { w with shared := set_state w.shared .HALF_OPEN r.set_state, probes := some 1 } := by
  have hnot : w.state ≠ .CLOSED := by simp [hopen]
  constructor
  · exact set_state_synced w.shared hw.synced _ r hr (fun _ => hw.synced.tripped hnot)
  · simp [Watched.state, set_state]
  · intro n hn
    cases hn
    exact le_refl 1
  · exact fun _ => hw.stamped hnot

theorem watch_tracks (w : Watched) (l : Label) (t : Watched) (h : watch w l = some t)
    (hl : Alone w.shared l) (hw : Tracks w) : Tracks t := by
  cases l with
  | can_execute now r =>
    obtain ⟨_, h'⟩ | ⟨hopen, _, h'⟩ | ⟨_, h'⟩ := can_execute_watched w hw now r hl
    · rw [h', Option.some.injEq] at h
      exact h ▸ hw.caller
    · rw [h', Option.some.injEq] at h
      exact h ▸ hw.probe hopen r hl
    · rw [h', Option.some.injEq] at h
      exact h ▸ hw
  | record_success r =>
    simp only [watch, step, Option.map_some, Option.some.injEq] at h
    subst h
    constructor
    · exact record_success_synced w.shared hw.synced r hl
    · simp [Watched.state, record_success_closes w.shared hw.synced r hl, probes]
    · intro n hn
      cases hn
    · exact fun h => absurd (record_success_closes w.shared hw.synced r hl) h
  | record_failure now r =>
    simp only [watch, step, Option.map_some, Option.some.injEq] at h
    subst h
    have hbreaker := record_failure_breaker w.shared now r hl
    constructor
    · exact record_failure_synced w.shared hw.synced now r hl
    · simp [Watched.state, probes, record_failure_settles w.shared hw.synced now r hl]
    · intro n hn
      cases hn
    · intro _
      show some now = some (record_failure w.shared now r).1.breaker.mem_last_failure_time
      rw [hbreaker]
  | is_open r =>
    simp only [watch, step, Option.map_some, Option.some.injEq] at h
    exact h ▸ hw
  | elapse d =>
    simp only [watch, step, Option.map_some, Option.some.injEq] at h
    subst h
    exact ⟨elapse_synced w.shared hw.synced d hl, hw.probed, hw.counted, hw.stamped⟩
  | elsewhere keys =>
    simp only [watch, step] at h
    split at h
    · next hredis => exact (hl hredis).elim
    · cases h

/-- One more caller is one too many where there is a probe. -/
theorem caller_one_probe (w : Watched) (hw : Tracks w) :
    OneProbe { w with probes := w.probes.map (· + 1) } ↔ w.state ≠ .HALF_OPEN := by
  rw [Ne, hw.probed, Option.not_isSome_iff_eq_none]
  constructor
  · intro hone
    by_contra hsome
    obtain ⟨n, hn⟩ := Option.ne_none_iff_exists'.mp hsome
    have hpos : 1 ≤ n := hw.counted n hn
    have hnext : n + 1 ≤ 1 := hone (n + 1) (by simp [hn])
    omega
  · intro hnone n hn
    simp [hnone] at hn

theorem one_probe_step (w : Watched) (l : Label) (hl : Alone w.shared l) (hw : Tracks w)
    (hone : OneProbe w) :
    (∀ t, watch w l = some t → OneProbe t) ↔ NoSecondCaller w l := by
  cases l with
  | can_execute now r =>
    obtain ⟨hstate, h⟩ | ⟨hstate, _, h⟩ | ⟨hstate, h⟩ := can_execute_watched w hw now r hl
    · rw [NoSecondCaller, ← caller_one_probe w hw, h]
      constructor
      · exact fun hnext => hnext _ rfl
      · intro hnext t ht
        cases ht
        exact hnext
    · have hnot : NoSecondCaller w (.can_execute now r) := by simp [NoSecondCaller, hstate]
      apply iff_of_true _ hnot
      intro t ht n hn
      rw [h, Option.some.injEq] at ht
      subst ht
      cases hn
      exact le_refl 1
    · have hnot : NoSecondCaller w (.can_execute now r) := by simp [NoSecondCaller, hstate]
      apply iff_of_true _ hnot
      intro t ht
      rw [h, Option.some.injEq] at ht
      exact ht ▸ hone
  | record_success r =>
    apply iff_of_true _ trivial
    intro t ht n hn
    simp only [watch, step, Option.map_some, Option.some.injEq] at ht
    subst ht
    cases hn
  | record_failure now r =>
    apply iff_of_true _ trivial
    intro t ht n hn
    simp only [watch, step, Option.map_some, Option.some.injEq] at ht
    subst ht
    cases hn
  | is_open r | elapse d | elsewhere keys =>
    apply iff_of_true _ trivial
    intro t ht
    simp only [watch, Option.map_eq_some_iff] at ht
    obtain ⟨_, _, rfl⟩ := ht
    exact hone

/-- Between its turn to HALF_OPEN and an outcome a breaker lets one call through
exactly while no call asks it in that time. -/
theorem one_probe_iff (failure_threshold : Int) (recovery_timeout : ℚ) (redis_backed : Bool)
    (ls : List Label)
    (halone : Along watch (fun w l => Alone w.shared l)
      (watched failure_threshold recovery_timeout redis_backed) ls) :
    Throughout watch OneProbe (watched failure_threshold recovery_timeout redis_backed) ls ↔
      Along watch NoSecondCaller (watched failure_threshold recovery_timeout redis_backed) ls := by
  apply throughout_iff_along (P := fun w l => Alone w.shared l) (I := Tracks)
  · exact fun w l t h hl hw => watch_tracks w l t h hl hw
  · exact fun w l hl hw hone => one_probe_step w l hl hw hone
  · exact watched_tracks failure_threshold recovery_timeout redis_backed
  · intro n hn
    cases hn
  · exact halone

/-- Two failures trip the breaker, one late call probes, its success closes it. -/
def recovery : List Label :=
  [.can_execute 0 up, .record_failure 1 up, .record_failure 2 up, .can_execute 20 up,
    .can_execute 32 up, .record_success up, .can_execute 33 up, .can_execute 33 up]

set_option maxRecDepth 100000 in
theorem one_probe_recovery : Throughout watch OneProbe (watched 2 30 true) recovery :=
  (one_probe_iff 2 30 true recovery (by decide +kernel)).mpr (by decide +kernel)

def tripped (n : ℕ) : List Label := List.replicate n (.record_failure 0 up)

set_option maxRecDepth 100000 in
/-- Two requests at the timeout both get through the Bedrock breaker. -/
theorem two_probes :
    ¬ Throughout watch OneProbe (watched 5 30 false)
      (tripped 5 ++ [.can_execute 30 up, .can_execute 30 up]) := by
  intro h
  have hrun : (exec watch (watched 5 30 false)
      (tripped 5 ++ [.can_execute 30 up, .can_execute 30 up])).map Watched.probes =
        some (some 2) := by
    decide +kernel
  obtain ⟨t, ht, hprobes⟩ := Option.map_eq_some_iff.mp hrun
  have := h _ [] t (List.append_nil _).symm ht 2 hprobes
  omega

theorem leaves_late_step (w : Watched) (l : Label) (hmem : w.shared.breaker.redis_backed = false)
    (hw : Tracks w) : LeavesLate w l ↔ NoLateSuccess w l := by
  have hup : ∀ r : Replies, w.shared.breaker.redis_backed = true → Heard w.shared r :=
    fun r h => absurd (hmem ▸ h) (by decide)
  cases l with
  | can_execute now r =>
    apply iff_of_true _ trivial
    intro t ht hopen hleft
    obtain ⟨hstate, _⟩ | ⟨_, htime, h⟩ | ⟨_, h⟩ := can_execute_watched w hw now r (hup r)
    · exact absurd hopen hstate
    · have hstamp := hw.stamped (by rw [hopen]; decide)
      exact ⟨now, r, _, rfl, hstamp, htime⟩
    · rw [h, Option.some.injEq] at ht
      exact absurd (ht ▸ hopen) hleft
  | record_success r =>
    constructor
    · intro h hopen
      have hclosed := record_success_closes w.shared hw.synced r (hup r)
      obtain ⟨_, _, _, hl, _⟩ := h _ rfl hopen (by simp [Watched.state, hclosed])
      cases hl
    · intro hnot t _ hopen
      exact absurd hopen hnot
  | record_failure now r =>
    apply iff_of_true _ trivial
    intro t ht hopen hleft
    simp only [watch, step, Option.map_some, Option.some.injEq] at ht
    subst ht
    exfalso
    apply hleft
    have hstate : w.shared.breaker.mem_state = .OPEN := hopen
    have htripped := hw.synced.tripped (by rw [hstate]; decide)
    show (record_failure w.shared now r).1.breaker.mem_state = .OPEN
    rw [record_failure_breaker w.shared now r (hup r)]
    exact if_pos (Int.le_add_one htripped)
  | is_open r =>
    apply iff_of_true _ trivial
    intro t ht hopen hleft
    simp only [watch, step, Option.map_some, Option.some.injEq] at ht
    exact absurd (ht ▸ hopen) hleft
  | elapse d =>
    apply iff_of_true _ trivial
    intro t ht hopen hleft
    simp only [watch, step, Option.map_some, Option.some.injEq] at ht
    exact absurd (ht ▸ hopen) hleft
  | elsewhere keys =>
    apply iff_of_true _ trivial
    intro t ht
    simp [watch, step, hmem] at ht

/-- In memory, an OPEN breaker is left only by a call that comes the recovery
timeout after the last failure, exactly while no success is recorded in it. -/
theorem holds_open_iff (failure_threshold : Int) (recovery_timeout : ℚ) (ls : List Label) :
    Along watch LeavesLate (watched failure_threshold recovery_timeout false) ls ↔
      Along watch NoLateSuccess (watched failure_threshold recovery_timeout false) ls := by
  apply along_congr (P := fun _ _ => True)
    (I := fun w => Tracks w ∧ w.shared.breaker.redis_backed = false)
  · intro w l t h _ hw
    have halone : Alone w.shared l := fun hredis => absurd (hw.2 ▸ hredis) (by decide)
    have ht : step w.shared l = some t.shared := by
      simp only [watch, Option.map_eq_some_iff] at h
      obtain ⟨u, hu, rfl⟩ := h
      exact hu
    constructor
    · exact watch_tracks w l t h halone hw.1
    · rw [step_redis_backed w.shared l t.shared ht, hw.2]
  · exact fun w l _ hw => leaves_late_step w l hw.2 hw.1
  · exact ⟨watched_tracks failure_threshold recovery_timeout false, rfl⟩
  · exact along_of_forall (fun _ _ => trivial) _ ls

set_option maxRecDepth 100000 in
/-- A request admitted before the trip ends well and closes the breaker at once. -/
theorem late_success_closes :
    ¬ Along watch LeavesLate (watched 5 30 false)
      ((.can_execute 0 up :: tripped 5) ++ [.record_success up]) := by
  intro h
  have hrun : (exec watch (watched 5 30 false) (.can_execute 0 up :: tripped 5)).map
      (fun t => (t.state, (record_success t.shared up).1.breaker.mem_state)) =
        some (.OPEN, .CLOSED) := by
    rfl
  obtain ⟨t, ht, hstates⟩ := Option.map_eq_some_iff.mp hrun
  obtain ⟨hopen, hclosed⟩ := Prod.mk.inj hstates
  have hlast := ((along_append watch LeavesLate _ _ _).mp h).2 t ht
  obtain ⟨_, _, _, hl, _⟩ := hlast.1 _ rfl hopen
    (by simp [Watched.state, hclosed])
  cases hl

end AigentSquad.BreakerRecovery
