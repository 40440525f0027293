import AigentSquad.RemoteStore
import AigentSquad.Transition

/-!
# The session token budget

One replica's `SessionBudgetTracker`, over Redis or in memory. A Redis command
may fail before or after it is applied. Over Redis, `record_usage` pins the
local count when a command fails; `check_budget` reads only Redis.
-/

set_option autoImplicit false

namespace AigentSquad.TokenBudget
open AigentSquad.PyText AigentSquad.RemoteStore AigentSquad.Transition

structure Tracker where
  max_tokens_per_session : Int
  redis_backed : Bool
  usage : Str → Option Int

abbrev Redis := Store Int

structure TokenBudgetExceeded where
  session_id : Str
  used : Int
  limit : Int
deriving DecidableEq, Repr

def key (session_id : Str) : Str := "token_budget:session:".toList ++ session_id

theorem key_injective (a b : Str) (h : key a = key b) : a = b := List.append_cancel_left h

def incrby (redis : Redis) (k : Str) (n : Int) (reply : Reply) : Redis :=
  put redis k (some ((redis k).getD 0 + n)) reply

def delete (redis : Redis) (k : Str) (reply : Reply) : Redis :=
  put redis k none reply

def get_usage (t : Tracker) (redis : Redis) (session_id : Str) (reply : Reply) : Int :=
  if t.redis_backed then
    match reply with
    | .ok => (redis (key session_id)).getD 0
    | _ => t.max_tokens_per_session
  else (t.usage session_id).getD 0

def get_remaining (t : Tracker) (redis : Redis) (session_id : Str) (reply : Reply) : Int :=
  max 0 (t.max_tokens_per_session - get_usage t redis session_id reply)

def check_budget (t : Tracker) (redis : Redis) (session_id : Str) (reply : Reply) :
    Except TokenBudgetExceeded Unit :=
  if t.redis_backed then
    match reply with
    | .ok =>
      let used := (redis (key session_id)).getD 0
      if used ≥ t.max_tokens_per_session then
        .error ⟨session_id, used, t.max_tokens_per_session⟩
      else .ok ()
    | _ => .error ⟨session_id, t.max_tokens_per_session, t.max_tokens_per_session⟩
  else
    let used := (t.usage session_id).getD 0
    if used ≥ t.max_tokens_per_session then
      .error ⟨session_id, used, t.max_tokens_per_session⟩
    else .ok ()

def Tracker.set (t : Tracker) (session_id : Str) (n : Option Int) : Tracker :=
  { t with usage := Function.update t.usage session_id n }

/-- `incr` and `ttl` are the fates of INCRBY and EXPIRE; the second command is
sent only after the first was answered. -/
def record_usage (t : Tracker) (redis : Redis) (session_id : Str)
    (input_tokens output_tokens : Int) (incr ttl : Reply) : Tracker × Redis :=
  let total := input_tokens + output_tokens
  if t.redis_backed then
    let redis' := incrby redis (key session_id) total incr
    if incr = .ok ∧ ttl = .ok then (t, redis')
    else (t.set session_id (some t.max_tokens_per_session), redis')
  else (t.set session_id (some ((t.usage session_id).getD 0 + total)), redis)

def reset (t : Tracker) (redis : Redis) (session_id : Str) (del : Reply) : Tracker × Redis :=
  if t.redis_backed then (t.set session_id none, delete redis (key session_id) del)
  else (t.set session_id none, redis)

structure State where
  tracker : Tracker
  redis : Redis

inductive Label where
  | record_usage (session_id : Str) (input_tokens output_tokens : Int) (incr ttl : Reply)
  | check_budget (session_id : Str) (get : Reply)
  | reset (session_id : Str) (del : Reply)
  | key_expired (session_id : Str)
deriving DecidableEq, Repr

def step (s : State) : Label → Option State
  | .record_usage sid inp out incr ttl =>
    let r := record_usage s.tracker s.redis sid inp out incr ttl
    some ⟨r.1, r.2⟩
  | .check_budget _ _ => some s
  | .reset sid del =>
    let r := reset s.tracker s.redis sid del
    some ⟨r.1, r.2⟩
  | .key_expired sid => some { s with redis := Function.update s.redis (key sid) none }

def start (limit : Int) : State := ⟨⟨limit, true, fun _ => none⟩, fun _ => none⟩

/-- A `record_usage` of the session failed and no reset of it followed. -/
def pending_failure (session_id : Str) : List Label → Bool → Bool
  | [], b => b
  | .record_usage sid _ _ incr ttl :: ls, b =>
    pending_failure session_id ls (b || (sid = session_id && !(incr = .ok && ttl = .ok)))
  | .reset sid _ :: ls, b => pending_failure session_id ls (b && sid ≠ session_id)
  | _ :: ls, b => pending_failure session_id ls b

/-- The tokens Redis has counted for the session since its key was last removed. -/
def counted (session_id : Str) : List Label → Int → Int
  | [], n => n
  | .record_usage sid inp out incr _ :: ls, n =>
    counted session_id ls (if sid = session_id ∧ incr.applied then n + (inp + out) else n)
  | .reset sid del :: ls, n =>
    counted session_id ls (if sid = session_id ∧ del.applied then 0 else n)
  | .key_expired sid :: ls, n => counted session_id ls (if sid = session_id then 0 else n)
  | .check_budget _ _ :: ls, n => counted session_id ls n

/-- After a failed recording every check of the session is refused until the
session is reset. -/
def FailClosed (limit : Int) (ls : List Label) : Prop :=
  ∀ pre suf sid get s, ls = pre ++ .check_budget sid get :: suf →
    pending_failure sid pre false = true → exec step (start limit) pre = some s →
      ∃ e, check_budget s.tracker s.redis sid get = .error e

theorem check_budget_refuses (t : Tracker) (redis : Redis) (sid : Str) (get : Reply)
    (ht : t.redis_backed = true) :
    (∃ e, check_budget t redis sid get = .error e) ↔
      get ≠ .ok ∨ t.max_tokens_per_session ≤ (redis (key sid)).getD 0 := by
  cases get with
  | ok =>
    by_cases h : t.max_tokens_per_session ≤ (redis (key sid)).getD 0
    · simp [check_budget, ht, h]
    · simp [check_budget, ht, h]
  | failed => simp [check_budget, ht]
  | unacknowledged => simp [check_budget, ht]

theorem incrby_same (redis : Redis) (sid : Str) (n : Int) (reply : Reply) :
    (incrby redis (key sid) n reply (key sid)).getD 0 =
      if reply.applied then (redis (key sid)).getD 0 + n else (redis (key sid)).getD 0 := by
  rw [incrby, put_same]
  split <;> simp

theorem incrby_other (redis : Redis) (a b : Str) (n : Int) (reply : Reply) (h : a ≠ b) :
    incrby redis (key a) n reply (key b) = redis (key b) :=
  put_other redis _ _ _ reply (fun he => h (key_injective b a he).symm)

theorem delete_same (redis : Redis) (sid : Str) (reply : Reply) :
    (delete redis (key sid) reply (key sid)).getD 0 =
      if reply.applied then 0 else (redis (key sid)).getD 0 := by
  rw [delete, put_same]
  split <;> simp

theorem delete_other (redis : Redis) (a b : Str) (reply : Reply) (h : a ≠ b) :
    delete redis (key a) reply (key b) = redis (key b) :=
  put_other redis _ _ _ reply (fun he => h (key_injective b a he).symm)

/-- What a step does to a tracker over Redis. -/
theorem step_cases (s t : State) (l : Label) (hs : s.tracker.redis_backed = true)
    (h : step s l = some t) :
    (∃ sid inp out incr ttl, l = .record_usage sid inp out incr ttl ∧
      t.redis = incrby s.redis (key sid) (inp + out) incr ∧
      t.tracker = if incr = .ok ∧ ttl = .ok then s.tracker
        else s.tracker.set sid (some s.tracker.max_tokens_per_session)) ∨
    (∃ sid get, l = .check_budget sid get ∧ t = s) ∨
    (∃ sid del, l = .reset sid del ∧ t.redis = delete s.redis (key sid) del ∧
      t.tracker = s.tracker.set sid none) ∨
    ∃ sid, l = .key_expired sid ∧ t.redis = Function.update s.redis (key sid) none ∧
      t.tracker = s.tracker := by
  cases l with
  | record_usage sid inp out incr ttl =>
    simp only [step, record_usage, hs, if_true, Option.some.injEq] at h
    subst h
    refine .inl ⟨sid, inp, out, incr, ttl, rfl, ?_⟩
    by_cases hok : incr = .ok ∧ ttl = .ok
    · simp [hok]
    · simp [hok]
  | check_budget sid get =>
    exact .inr (.inl ⟨sid, get, rfl, by simpa [step] using h.symm⟩)
  | reset sid del =>
    simp only [step, reset, hs, if_true, Option.some.injEq] at h
    subst h
    exact .inr (.inr (.inl ⟨sid, del, rfl, rfl, rfl⟩))
  | key_expired sid =>
    simp only [step, Option.some.injEq] at h
    subst h
    exact .inr (.inr (.inr ⟨sid, rfl, rfl, rfl⟩))

theorem step_config (s t : State) (l : Label) (hs : s.tracker.redis_backed = true)
    (h : step s l = some t) : t.tracker.redis_backed = true ∧
      t.tracker.max_tokens_per_session = s.tracker.max_tokens_per_session := by
  rcases step_cases s t l hs h with ⟨_, _, _, incr, ttl, rfl, _, ht⟩ | ⟨_, _, rfl, rfl⟩ |
    ⟨_, _, rfl, _, ht⟩ | ⟨_, rfl, _, ht⟩
  · rw [ht]
    split <;> exact ⟨hs, rfl⟩
  · exact ⟨hs, rfl⟩
  · rw [ht]
    exact ⟨hs, rfl⟩
  · rw [ht]
    exact ⟨hs, rfl⟩

/-- One step changes the stored count of a session exactly as `counted` says. -/
theorem step_counted (s t : State) (l : Label) (sid : Str) (hs : s.tracker.redis_backed = true)
    (h : step s l = some t) :
    (t.redis (key sid)).getD 0 = counted sid [l] ((s.redis (key sid)).getD 0) := by
  rcases step_cases s t l hs h with ⟨a, inp, out, incr, ttl, rfl, ht, _⟩ | ⟨_, _, rfl, rfl⟩ |
    ⟨a, del, rfl, ht, _⟩ | ⟨a, rfl, ht, _⟩
  · by_cases ha : a = sid
    · subst ha
      rw [ht, incrby_same]
      cases hi : incr.applied <;> simp [counted, hi]
    · rw [ht, incrby_other s.redis a sid _ incr ha]
      simp [counted, ha]
  · rfl
  · by_cases ha : a = sid
    · subst ha
      rw [ht, delete_same]
      cases hi : del.applied <;> simp [counted, hi]
    · rw [ht, delete_other s.redis a sid del ha]
      simp [counted, ha]
  · by_cases ha : a = sid
    · subst ha
      simp [counted, ht]
    · have hk : key sid ≠ key a := fun he => ha (key_injective sid a he).symm
      simp [counted, ha, hk, ht]

/-- The local pin of a session is up exactly while a failure is pending. -/
def Pinned (sid : Str) (pending : Bool) (t : Tracker) : Prop :=
  t.usage sid = if pending then some t.max_tokens_per_session else none

theorem step_pinned (s t : State) (l : Label) (sid : Str) (b : Bool)
    (hs : s.tracker.redis_backed = true) (hb : Pinned sid b s.tracker)
    (h : step s l = some t) : Pinned sid (pending_failure sid [l] b) t.tracker := by
  rcases step_cases s t l hs h with ⟨a, _, _, incr, ttl, rfl, _, ht⟩ | ⟨_, _, rfl, rfl⟩ |
    ⟨a, _, rfl, _, ht⟩ | ⟨_, rfl, _, ht⟩
  · by_cases hok : incr = .ok ∧ ttl = .ok
    · rw [ht]
      simpa [pending_failure, hok] using hb
    · have hok' : (decide (incr = .ok) && decide (ttl = .ok)) = false := by
        simpa using hok
      rw [ht, if_neg hok]
      by_cases ha : a = sid
      · subst ha
        simp [Pinned, Tracker.set, pending_failure, hok']
      · have ha' : sid ≠ a := fun he => ha he.symm
        simpa [Pinned, Tracker.set, pending_failure, ha, ha'] using hb
  · exact hb
  · rw [ht]
    by_cases ha : a = sid
    · subst ha
      simp [Pinned, Tracker.set, pending_failure]
    · have ha' : sid ≠ a := fun he => ha he.symm
      simpa [Pinned, Tracker.set, pending_failure, ha, ha'] using hb
  · rw [ht]
    exact hb

theorem counted_cons (sid : Str) (l : Label) (ls : List Label) (n : Int) :
    counted sid (l :: ls) n = counted sid ls (counted sid [l] n) := by
  cases l <;> rfl

theorem pending_failure_cons (sid : Str) (l : Label) (ls : List Label) (b : Bool) :
    pending_failure sid (l :: ls) b = pending_failure sid ls (pending_failure sid [l] b) := by
  cases l <;> rfl

/-- Run form of the three step facts: the configuration stands, Redis holds the
counted tokens and the pin tells whether a failure is pending. -/
theorem exec_spec (ls : List Label) (s t : State) (sid : Str) (b : Bool)
    (hs : s.tracker.redis_backed = true) (hb : Pinned sid b s.tracker)
    (h : exec step s ls = some t) :
    t.tracker.redis_backed = true ∧
      t.tracker.max_tokens_per_session = s.tracker.max_tokens_per_session ∧
      (t.redis (key sid)).getD 0 = counted sid ls ((s.redis (key sid)).getD 0) ∧
      Pinned sid (pending_failure sid ls b) t.tracker := by
  induction ls generalizing s b with
  | nil =>
    simp only [exec_nil, Option.some.injEq] at h
    subst h
    exact ⟨hs, rfl, rfl, hb⟩
  | cons l ls ih =>
    simp only [exec_cons, Option.bind_eq_some_iff] at h
    obtain ⟨u, hu, h⟩ := h
    obtain ⟨hus, hul⟩ := step_config s u l hs hu
    obtain ⟨hc, hl, hn, hp⟩ := ih u _ hus (step_pinned s u l sid b hs hb hu) h
    refine ⟨hc, hl.trans hul, ?_, ?_⟩
    · rw [hn, counted_cons, step_counted s u l sid hs hu]
    · rw [pending_failure_cons]
      exact hp

theorem step_total (s : State) (l : Label) : ∃ t, step s l = some t := by
  cases l <;> exact ⟨_, rfl⟩

theorem exec_total (s : State) (ls : List Label) : ∃ t, exec step s ls = some t := by
  induction ls generalizing s with
  | nil => exact ⟨s, rfl⟩
  | cons l ls ih =>
    obtain ⟨u, hu⟩ := step_total s l
    obtain ⟨t, ht⟩ := ih u
    exact ⟨t, by simp [hu, ht]⟩

/-- Every check after a failed recording meets a Redis error or a count that
has reached the limit. -/
def OutageOrSpent (limit : Int) (ls : List Label) : Prop :=
  ∀ pre suf sid get, ls = pre ++ .check_budget sid get :: suf →
    pending_failure sid pre false = true → get ≠ .ok ∨ limit ≤ counted sid pre 0

theorem pinned_iff (limit : Int) (ls : List Label) (sid : Str) (s : State)
    (h : exec step (start limit) ls = some s) :
    s.tracker.usage sid = some limit ↔ pending_failure sid ls false = true := by
  obtain ⟨_, hl, _, hp⟩ := exec_spec ls (start limit) s sid false rfl rfl h
  have hlimit : s.tracker.max_tokens_per_session = limit := hl
  rw [Pinned, hlimit] at hp
  rw [hp]
  cases pending_failure sid ls false <;> simp

/-- The local pin plays no part: a run is fail-closed exactly when Redis itself
refuses every check that follows a failed recording. -/
theorem failClosed_iff (limit : Int) (ls : List Label) :
    FailClosed limit ls ↔ OutageOrSpent limit ls := by
  have refused : ∀ pre sid get s, exec step (start limit) pre = some s →
      ((∃ e, check_budget s.tracker s.redis sid get = .error e) ↔
        get ≠ .ok ∨ limit ≤ counted sid pre 0) := by
    intro pre sid get s hs
    obtain ⟨hc, hl, hn, _⟩ := exec_spec pre (start limit) s sid false rfl rfl hs
    rw [check_budget_refuses s.tracker s.redis sid get hc, hl, hn]
    simp [start]
  constructor
  · intro h pre suf sid get hsplit hp
    obtain ⟨s, hs⟩ := exec_total (start limit) pre
    exact (refused pre sid get s hs).mp (h pre suf sid get s hsplit hp hs)
  · intro h pre suf sid get s hsplit hp hs
    exact (refused pre sid get s hs).mpr (h pre suf sid get hsplit hp)

/-- Redis drops one recording and is back for the next check. -/
def blip : List Label :=
  [.record_usage "s".toList 1000 500 .failed .ok, .check_budget "s".toList .ok]

theorem blip_not_failClosed : ¬ ∀ limit : Int, 0 < limit → ∀ ls, FailClosed limit ls := by
  intro h
  obtain ⟨e, he⟩ := h 2000000 (by decide) blip [blip.head (by decide)] [] "s".toList .ok _ rfl
    (by decide) rfl
  cases he

end AigentSquad.TokenBudget
