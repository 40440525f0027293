import Mathlib.Data.NNRat.Defs
import AigentSquad.Admission

/-!
# One user's rate window

The `check_rate` calls of one user on any number of replicas, in the order Redis
runs their transactions, each with the clock reading of its replica. The key may
expire between two calls. Redis answers every call.
-/

set_option autoImplicit false

namespace AigentSquad.RateWindow
open AigentSquad.PyText AigentSquad.RemoteStore AigentSquad.Transition
open AigentSquad.Admission

inductive Label where
  | check_rate (now : ℚ≥0)
  | expire
deriving DecidableEq

/-- The store beside the user's calls so far and the readings of the allowed ones. -/
structure State where
  rate : Store Window
  calls : List Label
  allowed : List ℚ

def start : State := ⟨fun _ => none, [], []⟩

def stored (user_id : Str) (s : State) : Window := (s.rate (rate_key user_id)).getD []

def decision (cfg : Settings) (user_id : Str) (s : State) (now : ℚ≥0) : Bool :=
  (check_rate cfg s.rate user_id now .ok).2.1

def step (cfg : Settings) (user_id : Str) (s : State) : Label → Option State
  | .check_rate now =>
    some
      { rate := (check_rate cfg s.rate user_id now .ok).1
        calls := s.calls ++ [.check_rate now]
        allowed := if decision cfg user_id s now then s.allowed ++ [(now : ℚ)] else s.allowed }
  | .expire =>
    some { s with
      rate := put s.rate (rate_key user_id) none .ok
      calls := s.calls ++ [.expire] }

def readings (ls : List Label) : List ℚ :=
  ls.filterMap (fun l => match l with
    | .check_rate now => some (now : ℚ)
    | .expire => none)

/-- An entry of score `c` is not removed: the clock reads less than 60 seconds
more, and the key does not expire. -/
def Spares (c : ℚ) : Label → Prop
  | .check_rate now => now - 60 < c
  | .expire => False

instance (c : ℚ) (l : Label) : Decidable (Spares c l) := by
  cases l <;> unfold Spares <;> infer_instance

def Outlives (c : ℚ) (later : List Label) : Prop := ∀ l ∈ later, Spares c l

instance (c : ℚ) (later : List Label) : Decidable (Outlives c later) :=
  List.decidableBAll _ later

/-- The readings of the calls, allowed or not, that are still on record. -/
def surviving : List Label → List ℚ
  | [] => []
  | .check_rate c :: later => if Outlives c later then (c : ℚ) :: surviving later else surviving later
  | .expire :: later => surviving later

def kept (now : ℚ) (z : List ℚ) : List ℚ := z.filter (fun c => now - 60 < c)

/-- The earlier calls a call at `now` finds on record. -/
def remembered (now : ℚ) (calls : List Label) : ℕ := (kept now (surviving calls)).length

/-- The allowed calls in the 60 seconds before `now`. -/
def allowed_in_window (now : ℚ) (allowed : List ℚ) : ℕ :=
  (allowed.filter (fun a => now - 60 < a ∧ a ≤ now)).length

/-- The readings of the calls that find fewer calls than the rate on record. -/
def with_room (cfg : Settings) (before : List Label) : List Label → List ℚ
  | [] => []
  | .check_rate now :: later =>
    if (remembered now before : ℤ) < cfg.rate_limit_per_minute then
      (now : ℚ) :: with_room cfg (before ++ [.check_rate now]) later
    else
      with_room cfg (before ++ [.check_rate now]) later
  | .expire :: later => with_room cfg (before ++ [.expire]) later

/-- The calls in the 60 seconds before `now` that found room themselves. -/
def roomy_in_window (cfg : Settings) (now : ℚ) (calls : List Label) : ℕ :=
  allowed_in_window now (with_room cfg [] calls)

/-- The call is allowed just when its window holds fewer allowed calls than the rate. -/
def CountsAllowed (cfg : Settings) (user_id : Str) (s : State) : Label → Prop
  | .check_rate now => decision cfg user_id s now = true ↔
      (allowed_in_window now s.allowed : ℤ) < cfg.rate_limit_per_minute
  | .expire => True

/-- Calls on record that found no room do not fill the window up, and no call of
the window that left the record makes room. Only the clock readings and the
expiries so far are looked at. -/
def Undistorted (cfg : Settings) (s : State) : Label → Prop
  | .check_rate now =>
    ¬ ((roomy_in_window cfg now s.calls : ℤ) < cfg.rate_limit_per_minute ∧
      cfg.rate_limit_per_minute ≤ remembered now s.calls) ∧
    ¬ ((remembered now s.calls : ℤ) < cfg.rate_limit_per_minute ∧
      cfg.rate_limit_per_minute ≤ roomy_in_window cfg now s.calls)
  | .expire => True

instance (cfg : Settings) (user_id : Str) (s : State) (l : Label) :
    Decidable (CountsAllowed cfg user_id s l) := by
  cases l <;> unfold CountsAllowed <;> infer_instance

instance (cfg : Settings) (s : State) (l : Label) : Decidable (Undistorted cfg s l) := by
  cases l <;> unfold Undistorted <;> infer_instance

theorem outlives_append (c : ℚ) (xs ys : List Label) :
    Outlives c (xs ++ ys) ↔ Outlives c xs ∧ Outlives c ys := by
  unfold Outlives
  simp only [List.mem_append, or_imp, forall_and]

theorem surviving_check (ls : List Label) (now : ℚ≥0) :
    surviving (ls ++ [.check_rate now]) = kept now (surviving ls) ++ [(now : ℚ)] := by
  induction ls with
  | nil => simp [surviving, kept, Outlives]
  | cons l ls ih =>
    cases l with
    | expire => exact ih
    | check_rate c =>
      have hlast : Outlives c [.check_rate now] ↔ (now : ℚ) - 60 < c := by simp [Outlives, Spares]
      rw [List.cons_append, surviving, surviving, ih]
      by_cases hold : Outlives c ls
      · by_cases hnew : (now : ℚ) - 60 < c
        · simp [outlives_append, hlast, hold, hnew, kept]
        · simp [outlives_append, hlast, hold, hnew, kept]
      · simp [outlives_append, hold]

theorem surviving_expire (ls : List Label) : surviving (ls ++ [.expire]) = [] := by
  induction ls with
  | nil => rfl
  | cons l ls ih =>
    cases l with
    | expire => exact ih
    | check_rate c =>
      have hlast : ¬ Outlives c [.expire] := by simp [Outlives, Spares]
      rw [List.cons_append, surviving, ih]
      simp [outlives_append, hlast]

theorem surviving_readings (ls : List Label) : ∀ x ∈ surviving ls, x ∈ readings ls := by
  induction ls with
  | nil => exact fun x hx => hx
  | cons l ls ih =>
    intro x hx
    cases l with
    | expire => exact ih x hx
    | check_rate c =>
      rw [surviving] at hx
      split at hx
      · rcases List.mem_cons.mp hx with rfl | hx
        · exact List.mem_cons_self
        · exact List.mem_cons_of_mem _ (ih x hx)
      · exact List.mem_cons_of_mem _ (ih x hx)

theorem with_room_append (cfg : Settings) (before xs ys : List Label) :
    with_room cfg before (xs ++ ys) =
      with_room cfg before xs ++ with_room cfg (before ++ xs) ys := by
  induction xs generalizing before with
  | nil => simp [with_room]
  | cons x xs ih =>
    cases x with
    | expire => simp [with_room, ih]
    | check_rate now =>
      rw [List.cons_append, with_room, with_room, ih]
      split <;> simp

/-- A new call is listed when it finds room. -/
theorem with_room_check (cfg : Settings) (calls : List Label) (now : ℚ≥0) :
    with_room cfg [] (calls ++ [.check_rate now]) =
      if (remembered now calls : ℤ) < cfg.rate_limit_per_minute then
        with_room cfg [] calls ++ [(now : ℚ)]
      else with_room cfg [] calls := by
  rw [with_room_append, List.nil_append]
  by_cases h : (remembered now calls : ℤ) < cfg.rate_limit_per_minute
  · simp [with_room, h]
  · simp [with_room, h]

/-- Of readings since the epoch the trimming keeps those of the last 60 seconds. -/
theorem zremrangebyscore_kept (z : Window) (now : ℚ) (hz : ∀ x ∈ z, 0 ≤ x) :
    zremrangebyscore z 0 (now - 60) = kept now z := by
  apply List.filter_congr
  intro x hx
  simp [hz x hx, ← not_lt]

theorem kept_subset (now : ℚ) (z : List ℚ) : ∀ x ∈ kept now z, x ∈ z :=
  fun _ hx => (List.mem_filter.mp hx).1

theorem check_rate_store (cfg : Settings) (rate : Store Window) (user_id : Str) (now : ℚ) :
    (check_rate cfg rate user_id now .ok).1 = put rate (rate_key user_id)
      (some (zadd (zremrangebyscore ((rate (rate_key user_id)).getD []) 0 (now - 60)) now))
        .ok := by
  unfold check_rate
  dsimp only
  split
  · rfl
  · split <;> rfl

/-- A new reading adds its own entry, a known one none. -/
theorem stored_check (cfg : Settings) (user_id : Str) (s t : State) (now : ℚ≥0)
    (h : step cfg user_id s (.check_rate now) = some t) (hz : ∀ x ∈ stored user_id s, 0 ≤ x) :
    stored user_id t = zadd (kept now (stored user_id s)) now := by
  simp only [step, Option.some.injEq] at h
  subst h
  have hkept := zremrangebyscore_kept _ (now : ℚ) hz
  unfold stored at hkept
  simp [stored, check_rate_store, Reply.applied, hkept]

theorem stored_expire (cfg : Settings) (user_id : Str) (s t : State)
    (h : step cfg user_id s .expire = some t) : stored user_id t = [] := by
  simp only [step, Option.some.injEq] at h
  subst h
  simp [stored, Reply.applied]

/-- A call is allowed while fewer entries than the rate are kept. -/
theorem decision_iff (cfg : Settings) (user_id : Str) (s : State) (now : ℚ≥0)
    (hz : ∀ x ∈ stored user_id s, 0 ≤ x) :
    decision cfg user_id s now = true ↔
      ((kept now (stored user_id s)).length : ℤ) < cfg.rate_limit_per_minute := by
  have hkept := zremrangebyscore_kept _ (now : ℚ) hz
  unfold stored at hkept
  unfold decision check_rate stored
  rw [hkept]
  by_cases h : cfg.rate_limit_per_minute ≤
      (kept now ((s.rate (rate_key user_id)).getD [])).length
  · simp [h]
  · simp [h, not_le.mp h]

def NonNegative (user_id : Str) (s : State) : Prop := ∀ x ∈ stored user_id s, 0 ≤ x

theorem step_nonNegative (cfg : Settings) (user_id : Str) (s t : State) (l : Label)
    (h : step cfg user_id s l = some t) (hz : NonNegative user_id s) :
    NonNegative user_id t := by
  intro x hx
  cases l with
  | expire =>
    rw [stored_expire cfg user_id s t h] at hx
    cases hx
  | check_rate now =>
    rw [stored_check cfg user_id s t now h hz, zadd] at hx
    split at hx
    · exact hz x (kept_subset now _ x hx)
    · rcases List.mem_append.mp hx with hx | hx
      · exact hz x (kept_subset now _ x hx)
      · rw [List.mem_singleton.mp hx]
        exact now.2

/-- While no reading repeats, the set holds exactly the calls still on record, and
the allowed calls are those that found room there. -/
structure OnRecord (cfg : Settings) (user_id : Str) (s : State) : Prop where
  nonNegative : NonNegative user_id s
  stored : stored user_id s = surviving s.calls
  allowed : s.allowed = with_room cfg [] s.calls

def Fresh (s : State) : Label → Prop
  | .check_rate now => (now : ℚ) ∉ readings s.calls
  | .expire => True

/-- On record a call is allowed just when it finds room. -/
theorem OnRecord.decision_iff {cfg : Settings} {user_id : Str} {s : State}
    (hs : OnRecord cfg user_id s) (now : ℚ≥0) :
    decision cfg user_id s now = true ↔
      (remembered now s.calls : ℤ) < cfg.rate_limit_per_minute := by
  rw [RateWindow.decision_iff cfg user_id s now hs.nonNegative, hs.stored, remembered]

theorem step_onRecord (cfg : Settings) (user_id : Str) (s t : State) (l : Label)
    (h : step cfg user_id s l = some t) (hl : Fresh s l) (hs : OnRecord cfg user_id s) :
    OnRecord cfg user_id t := by
  have hnonNegative := step_nonNegative cfg user_id s t l h hs.nonNegative
  cases l with
  | expire =>
    have hstored := stored_expire cfg user_id s t h
    simp only [step, Option.some.injEq] at h
    subst h
    constructor
    · exact hnonNegative
    · rw [hstored]
      exact (surviving_expire s.calls).symm
    · simp [with_room_append, with_room, hs.allowed]
  | check_rate now =>
    have hstored := stored_check cfg user_id s t now h hs.nonNegative
    simp only [step, Option.some.injEq] at h
    subst h
    constructor
    · exact hnonNegative
    · have hnew : (now : ℚ) ∉ kept now (surviving s.calls) :=
        fun hmem => hl (surviving_readings s.calls _ (kept_subset _ _ _ hmem))
      rw [hstored, hs.stored, zadd, if_neg hnew, surviving_check]
    · rw [with_room_check, ← hs.allowed]
      simp only [hs.decision_iff]

theorem readings_append (xs ys : List Label) :
    readings (xs ++ ys) = readings xs ++ readings ys := List.filterMap_append

/-- Distinct readings are each new when they come. -/
theorem along_fresh (cfg : Settings) (user_id : Str) (s : State) (ls : List Label)
    (h : (readings (s.calls ++ ls)).Nodup) : Along (step cfg user_id) Fresh s ls := by
  induction ls generalizing s with
  | nil => trivial
  | cons l ls ih =>
    constructor
    · cases l with
      | expire => trivial
      | check_rate now =>
        rw [readings_append, List.nodup_append] at h
        intro hmem
        exact h.2.2 _ hmem _ List.mem_cons_self rfl
    · intro t ht
      apply ih
      have hcalls : t.calls = s.calls ++ [l] := by
        cases l with
        | expire => exact (congrArg State.calls (Option.some.inj ht)).symm
        | check_rate now => exact (congrArg State.calls (Option.some.inj ht)).symm
      rw [hcalls, List.append_assoc]
      exact h

theorem counts_allowed_step (cfg : Settings) (user_id : Str) (s : State) (l : Label)
    (hs : OnRecord cfg user_id s) : CountsAllowed cfg user_id s l ↔ Undistorted cfg s l := by
  cases l with
  | expire => exact Iff.rfl
  | check_rate now =>
    simp only [CountsAllowed, Undistorted, roomy_in_window]
    rw [hs.decision_iff, hs.allowed]
    omega

def rate (n : Int) : Settings := ⟨true, n, 50⟩

def plain_user : Str := "u1".toList

def busy_minute : List Label :=
  [.check_rate 100, .check_rate 110, .check_rate 130, .check_rate 200]

/-- One request a minute: the refused call at 130 keeps the window of 161 full. -/
def refused_counts : List Label := [.check_rate 100, .check_rate 130, .check_rate 161]

def window_count (w : ℚ) (allowed : List ℚ) : ℕ :=
  (allowed.filter (fun a => w ≤ a ∧ a < w + 60)).length

/-- The readings less than 60 seconds from `now`. -/
def near (now : ℚ) (allowed : List ℚ) : List ℚ :=
  allowed.filter (fun a => now - 60 < a ∧ a < now + 60)

/-- Each allowed call near this one still has an entry of its own. -/
def OwnEntries (user_id : Str) (s : State) : Label → Prop
  | .check_rate now => (near now s.allowed).Nodup ∧ ∀ a ∈ near now s.allowed, a ∈ stored user_id s
  | .expire => True

instance (user_id : Str) (s : State) (l : Label) : Decidable (OwnEntries user_id s l) := by
  cases l <;> unfold OwnEntries <;> infer_instance

def Bounded (cfg : Settings) (s : State) : Prop :=
  ∀ w, window_count w s.allowed ≤ cfg.rate_limit_per_minute.toNat

/-- Allowed calls with entries of their own are all counted. -/
theorem near_counted (user_id : Str) (s : State) (now : ℚ≥0)
    (h : OwnEntries user_id s (.check_rate now)) :
    (near now s.allowed).length ≤ (kept now (stored user_id s)).length := by
  apply List.Subperm.length_le
  apply List.subperm_of_subset h.1
  intro a ha
  apply List.mem_filter.mpr
  constructor
  · exact h.2 a ha
  · have hnear := (List.mem_filter.mp ha).2
    simp only [decide_eq_true_eq] at hnear ⊢
    exact hnear.1

/-- A window around `now` sees only readings near it. -/
theorem window_near (w now : ℚ) (allowed : List ℚ) (h : w ≤ now ∧ now < w + 60) :
    window_count w allowed ≤ (near now allowed).length := by
  apply List.Sublist.length_le
  apply List.monotone_filter_right
  intro a ha
  simp only [decide_eq_true_eq] at ha ⊢
  constructor
  · linarith [ha.1]
  · linarith [ha.2]

theorem step_bounded (cfg : Settings) (user_id : Str) (s t : State) (l : Label)
    (h : step cfg user_id s l = some t) (hl : OwnEntries user_id s l)
    (hz : NonNegative user_id s) (hs : Bounded cfg s) : Bounded cfg t := by
  cases l with
  | expire =>
    simp only [step, Option.some.injEq] at h
    subst h
    exact hs
  | check_rate now =>
    simp only [step, Option.some.injEq] at h
    subst h
    intro w
    cases hdec : decision cfg user_id s now with
    | false => simpa [hdec] using hs w
    | true =>
      have hroom := (decision_iff cfg user_id s now hz).mp hdec
      have hcounted := near_counted user_id s now hl
      by_cases hin : w ≤ (now : ℚ) ∧ (now : ℚ) < w + 60
      · have hwindow := window_near w now s.allowed hin
        simp only [window_count, if_true, List.filter_append, List.length_append] at hwindow ⊢
        simp only [List.filter_cons, hin, and_self, decide_true, if_true, List.filter_nil,
          List.length_singleton]
        omega
      · have hwindow := hs w
        simp only [window_count, if_true, List.filter_append, List.length_append] at hwindow ⊢
        simp only [List.filter_cons, hin, decide_false, Bool.false_eq_true, if_false,
          List.filter_nil, List.length_nil, Nat.add_zero]
        exact hwindow

/-- While allowed calls keep their entries, no 60 seconds of readings see more
allowed calls than the rate. -/
theorem rate_never_exceeded (cfg : Settings) (user_id : Str) (ls : List Label)
    (hown : Along (step cfg user_id) (OwnEntries user_id) start ls) :
    Throughout (step cfg user_id) (Bounded cfg) start ls := by
  have hkeep : ∀ s l t, step cfg user_id s l = some t → OwnEntries user_id s l →
      NonNegative user_id s ∧ Bounded cfg s → NonNegative user_id t ∧ Bounded cfg t :=
    fun s l t h hl hs => ⟨step_nonNegative cfg user_id s t l h hs.1,
      step_bounded cfg user_id s t l h hl hs.1 hs.2⟩
  have hstart : NonNegative user_id start ∧ Bounded cfg start := by
    constructor
    · intro x hx
      cases hx
    · exact fun w => Nat.zero_le _
  exact throughout_of_invariant hkeep (fun s hs => hs.2) hstart hown

set_option maxRecDepth 100000 in
theorem busy_never_exceeded :
    Throughout (step (rate 2) plain_user) (Bounded (rate 2)) start busy_minute :=
  rate_never_exceeded (rate 2) plain_user busy_minute (by decide +kernel)

/-- Calls that read the same clock value share one entry. -/
def same_reading : List Label := List.replicate 3 (.check_rate 100)

set_option maxRecDepth 100000 in
theorem same_reading_exceeds :
    ¬ Throughout (step (rate 2) plain_user) (Bounded (rate 2)) start same_reading := by
  intro h
  have hrun : (exec (step (rate 2) plain_user) start same_reading).map
      (fun s => window_count 100 s.allowed) = some 3 := by
    decide +kernel
  obtain ⟨t, ht, hcount⟩ := Option.map_eq_some_iff.mp hrun
  have hbound := h same_reading [] t (List.append_nil _).symm ht 100
  rw [hcount] at hbound
  exact absurd hbound (by decide)

end AigentSquad.RateWindow
