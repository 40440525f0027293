import AigentSquad.RemoteStore
import AigentSquad.Transition

/-!
# The session lock and its two entry points

`/internal/process` holds a Redis lock on the session while the supervisor
works; `/internal/process/stream` takes none. Replicas share only Redis, so a
run is one interleaving of the steps of all requests. Redis errors and lock
expiry are steps of the environment.
-/

set_option autoImplicit false

namespace AigentSquad.SessionLock
open AigentSquad.PyText AigentSquad.RemoteStore AigentSquad.Transition

inductive Endpoint where
  | internal_process
  | internal_process_stream
deriving DecidableEq, Repr

inductive Phase where
  | waiting
  | processing
  | ended
  | closed
deriving DecidableEq, Repr

structure Request where
  endpoint : Endpoint
  replica : Nat
  session_id : Str
  acquired : Bool
  phase : Phase
deriving DecidableEq, Repr

/-- Requests are named by the token their lock would carry (`uuid4().hex`). -/
abbrev Token := Nat

structure State where
  redis : Store Token
  requests : Token → Option Request

def key (session_id : Str) : Str := "session_lock:".toList ++ session_id

def start : State := ⟨fun _ => none, fun _ => none⟩

inductive Label where
  | arrive (token : Token) (endpoint : Endpoint) (replica : Nat) (session_id : Str)
  | acquire (token : Token) (reply : Reply)
  | begin_stream (token : Token)
  | finish (token : Token)
  | release (token : Token) (reply : Reply)
  | expire (session_id : Str)
deriving DecidableEq, Repr

def State.put (s : State) (token : Token) (r : Request) : State :=
  { s with requests := Function.update s.requests token (some r) }

/-- `SET key token NX EX ttl`, fail-open: the new store, whether the lock counts
as acquired. -/
def set_nx (redis : Store Token) (k : Str) (token : Token) (reply : Reply) :
    Store Token × Bool :=
  match redis k with
  | none => (put redis k (some token) reply, true)
  | some _ => (redis, reply ≠ .ok)

/-- The release script: delete the key only while it carries our token. -/
def release_lua (redis : Store Token) (k : Str) (token : Token) (reply : Reply) : Store Token :=
  if redis k = some token then put redis k none reply else redis

def step (s : State) : Label → Option State
  | .arrive token endpoint replica session_id =>
    match s.requests token with
    | some _ => none
    | none => some (s.put token ⟨endpoint, replica, session_id, false, .waiting⟩)
  | .acquire token reply =>
    match s.requests token with
    | none => none
    | some r =>
      if r.endpoint = .internal_process ∧ r.phase = .waiting then
        let out := set_nx s.redis (key r.session_id) token reply
        -- a conflict is answered with 409 and the request is over
        let phase := if out.2 then Phase.processing else Phase.closed
        some { redis := out.1,
               requests := (s.put token { r with acquired := out.2, phase := phase }).requests }
      else none
  | .begin_stream token =>
    match s.requests token with
    | none => none
    | some r =>
      if r.endpoint = .internal_process_stream ∧ r.phase = .waiting then
        some (s.put token { r with phase := .processing })
      else none
  | .finish token =>
    match s.requests token with
    | none => none
    | some r =>
      if r.phase = .processing then
        match r.endpoint with
        | .internal_process => some (s.put token { r with phase := .ended })
        | .internal_process_stream => some (s.put token { r with phase := .closed })
      else none
  | .release token reply =>
    match s.requests token with
    | none => none
    | some r =>
      if r.phase = .ended then
        let t := s.put token { r with phase := .closed }
        if r.acquired then
          some { t with redis := release_lua s.redis (key r.session_id) token reply }
        else some t
      else none
  | .expire session_id =>
    some { s with redis := Function.update s.redis (key session_id) none }

@[simp] theorem put_redis (s : State) (token : Token) (r : Request) :
    (s.put token r).redis = s.redis := rfl

@[simp] theorem put_requests_same (s : State) (token : Token) (r : Request) :
    (s.put token r).requests token = some r := by
  simp [State.put]

theorem put_requests_other (s : State) (token other : Token) (r : Request) (h : other ≠ token) :
    (s.put token r).requests other = s.requests other := by
  simp [State.put, h]

theorem key_injective (a b : Str) (h : key a = key b) : a = b := List.append_cancel_left h

/-- Redis answers every command and no lock outlives its TTL. -/
def RedisUp : Label → Prop
  | .acquire _ reply => reply = .ok
  | .release _ reply => reply = .ok
  | .expire _ => False
  | _ => True

instance (l : Label) : Decidable (RedisUp l) := by
  cases l <;> unfold RedisUp <;> infer_instance

def Processing (s : State) (session_id : Str) (token : Token) : Prop :=
  ∃ r, s.requests token = some r ∧ r.phase = .processing ∧ r.session_id = session_id

def Exclusive (s : State) : Prop :=
  ∀ session_id i j, Processing s session_id i → Processing s session_id j → i = j

/-- A request on the endpoint `e` of this session is being processed. -/
def Busy (s : State) (e : Endpoint) (session_id : Str) : Prop :=
  ∃ token r, s.requests token = some r ∧ r.endpoint = e ∧ r.phase = .processing ∧
    r.session_id = session_id

/-- The step does not let a streamed request of a session overlap another
request of it: a stream begins in an idle session, and a free lock is not taken
over a running stream. -/
def NoStreamOverlap (s : State) : Label → Prop
  | .begin_stream token => ∀ r, s.requests token = some r → ∀ e, ¬ Busy s e r.session_id
  | .acquire token _ => ∀ r, s.requests token = some r → s.redis (key r.session_id) = none →
      ¬ Busy s .internal_process_stream r.session_id
  | _ => True

/-- A request of `/internal/process` between acquire and release owns the key. -/
def Holds (s : State) : Prop :=
  ∀ token r, s.requests token = some r → r.endpoint = .internal_process →
    (r.phase = .processing ∨ r.phase = .ended) →
      r.acquired = true ∧ s.redis (key r.session_id) = some token

structure Invariant (s : State) : Prop where
  holds : Holds s
  exclusive : Exclusive s

theorem start_invariant : Invariant start := by
  constructor
  · intro token r h
    cases h
  · rintro _ _ _ ⟨r, h, _⟩
    cases h

/-- Replacing a request by one that is not being processed creates no overlap. -/
theorem put_exclusive (s : State) (token : Token) (r : Request) (h : Exclusive s)
    (hr : r.phase ≠ .processing) : Exclusive (s.put token r) := by
  have back : ∀ sid i, Processing (s.put token r) sid i → Processing s sid i := by
    rintro sid i ⟨q, hq, hp, hs⟩
    by_cases hi : i = token
    · subst hi
      rw [put_requests_same, Option.some.injEq] at hq
      exact absurd hp (hq ▸ hr)
    · exact ⟨q, by rwa [put_requests_other s token i r hi] at hq, hp, hs⟩
  intro sid i j hi hj
  exact h sid i j (back sid i hi) (back sid j hj)

/-- A request may start processing in a session where nothing else is. -/
theorem put_exclusive_idle (s : State) (token : Token) (r : Request) (h : Exclusive s)
    (hidle : ∀ j, Processing s r.session_id j → j = token) : Exclusive (s.put token r) := by
  intro sid i j hi hj
  have cases' : ∀ k, Processing (s.put token r) sid k →
      k = token ∨ k ≠ token ∧ Processing s sid k := by
    rintro k ⟨q, hq, hp, hs⟩
    by_cases hk : k = token
    · exact .inl hk
    · exact .inr ⟨hk, q, by rwa [put_requests_other s token k r hk] at hq, hp, hs⟩
  have own : ∀ k, k = token → Processing (s.put token r) sid k → r.session_id = sid := by
    rintro k rfl ⟨q, hq, _, hs⟩
    rw [put_requests_same, Option.some.injEq] at hq
    rw [hq, hs]
  rcases cases' i hi with hit | ⟨hit, hi'⟩
  · rcases cases' j hj with hjt | ⟨hjt, hj'⟩
    · rw [hit, hjt]
    · have := own i hit hi
      exact absurd (hidle j (this ▸ hj')) hjt
  · rcases cases' j hj with hjt | ⟨hjt, hj'⟩
    · have := own j hjt hj
      exact absurd (hidle i (this ▸ hi')) hit
    · exact h sid i j hi' hj'

theorem put_holds (s : State) (token : Token) (r : Request) (h : Holds s)
    (hr : r.endpoint = .internal_process → (r.phase = .processing ∨ r.phase = .ended) →
      r.acquired = true ∧ s.redis (key r.session_id) = some token) :
    Holds (s.put token r) := by
  intro i q hq he hp
  by_cases hi : i = token
  · subst hi
    rw [put_requests_same, Option.some.injEq] at hq
    subst hq
    exact hr he hp
  · rw [put_requests_other s token i r hi] at hq
    exact h i q hq he hp

/-- A key nobody holds can be overwritten. -/
theorem take_holds (s : State) (token : Token) (r : Request) (h : Holds s)
    (hfree : s.redis (key r.session_id) = none) (hacq : r.acquired = true) :
    Holds { redis := Function.update s.redis (key r.session_id) (some token),
            requests := (s.put token r).requests } := by
  intro i q hq he hp
  by_cases hi : i = token
  · subst hi
    rw [put_requests_same, Option.some.injEq] at hq
    subst hq
    exact ⟨hacq, by simp⟩
  · rw [put_requests_other s token i r hi] at hq
    obtain ⟨ha, hk⟩ := h i q hq he hp
    have hne : key q.session_id ≠ key r.session_id := by
      intro heq
      rw [heq, hfree] at hk
      cases hk
    exact ⟨ha, by simpa [hne] using hk⟩

/-- Dropping the own lock leaves the other holders alone. -/
theorem drop_holds (s : State) (token : Token) (r : Request) (k : Str) (h : Holds s)
    (hr : r.phase = .closed) :
    Holds { redis := release_lua s.redis k token .ok, requests := (s.put token r).requests } := by
  intro i q hq he hp
  by_cases hi : i = token
  · subst hi
    rw [put_requests_same, Option.some.injEq] at hq
    subst hq
    simp [hr] at hp
  · rw [put_requests_other s token i r hi] at hq
    obtain ⟨ha, hk⟩ := h i q hq he hp
    refine ⟨ha, ?_⟩
    unfold release_lua
    split
    · next hown =>
      have hne : key q.session_id ≠ k := by
        intro heq
        rw [heq, hown, Option.some.injEq] at hk
        exact hi hk.symm
      exact (put_other s.redis _ k none .ok hne).trans hk
    · exact hk

theorem step_invariant (s : State) (l : Label) (t : State) (hstep : step s l = some t)
    (hok : RedisUp l ∧ NoStreamOverlap s l) (hs : Invariant s) : Invariant t := by
  obtain ⟨hup, hidle⟩ := hok
  cases l with
  | arrive token endpoint replica session_id =>
    simp only [step] at hstep
    split at hstep
    · cases hstep
    · cases hstep
      exact ⟨put_holds s _ _ hs.holds (by simp), put_exclusive s _ _ hs.exclusive (by simp)⟩
  | acquire token reply =>
    simp only [RedisUp] at hup
    subst hup
    simp only [step] at hstep
    split at hstep
    · cases hstep
    · next r hr =>
      split at hstep
      · next hw =>
        cases hstep
        by_cases hfree : s.redis (key r.session_id) = none
        · have hset : set_nx s.redis (key r.session_id) token .ok =
              (Function.update s.redis (key r.session_id) (some token), true) := by
            simp [set_nx, hfree, put_ok]
          simp only [hset, if_true]
          refine ⟨take_holds s token _ hs.holds hfree rfl, ?_⟩
          apply put_exclusive_idle s token _ hs.exclusive
          rintro j ⟨q, hq, hp, hsid⟩
          cases he : q.endpoint with
          | internal_process =>
            -- the holder of this session would own the key
            have hk := (hs.holds j q hq he (.inl hp)).2
            rw [hsid, hfree] at hk
            cases hk
          | internal_process_stream =>
            exact absurd ⟨j, q, hq, he, hp, hsid⟩ (hidle r hr hfree)
        · obtain ⟨owner, howner⟩ := Option.ne_none_iff_exists'.mp hfree
          have hset : set_nx s.redis (key r.session_id) token .ok = (s.redis, false) := by
            simp [set_nx, howner]
          simp only [hset, Bool.false_eq_true, if_false]
          exact ⟨put_holds s _ _ hs.holds (by simp), put_exclusive s _ _ hs.exclusive (by simp)⟩
      · cases hstep
  | begin_stream token =>
    simp only [step] at hstep
    split at hstep
    · cases hstep
    · next r hr =>
      split at hstep
      · next hw =>
        cases hstep
        refine ⟨put_holds s _ _ hs.holds (by simp [hw.1]), ?_⟩
        apply put_exclusive_idle s token _ hs.exclusive
        rintro j ⟨q, hq, hp, hsid⟩
        exact absurd ⟨j, q, hq, rfl, hp, hsid⟩ (hidle r hr q.endpoint)
      · cases hstep
  | finish token =>
    simp only [step] at hstep
    split at hstep
    · cases hstep
    · next r hr =>
      split at hstep
      · next hp =>
        split at hstep
        · next he =>
          cases hstep
          exact ⟨put_holds s _ _ hs.holds (fun _ _ => hs.holds token r hr he (.inl hp)),
            put_exclusive s _ _ hs.exclusive (by simp)⟩
        · cases hstep
          exact ⟨put_holds s _ _ hs.holds (by simp), put_exclusive s _ _ hs.exclusive (by simp)⟩
      · cases hstep
  | release token reply =>
    simp only [RedisUp] at hup
    subst hup
    simp only [step] at hstep
    split at hstep
    · cases hstep
    · next r hr =>
      split at hstep
      · split at hstep
        · cases hstep
          exact ⟨drop_holds s token _ _ hs.holds rfl, put_exclusive s _ _ hs.exclusive (by simp)⟩
        · cases hstep
          exact ⟨put_holds s _ _ hs.holds (by simp), put_exclusive s _ _ hs.exclusive (by simp)⟩
      · cases hstep
  | expire session_id => exact absurd hup (by simp [RedisUp])

/-- Runs with Redis up in which no streamed request overlaps another request of
its session process one request per session at every moment. -/
theorem session_exclusive (ls : List Label)
    (hup : Along step (fun _ l => RedisUp l) start ls)
    (hstream : Along step NoStreamOverlap start ls) :
    Throughout step Exclusive start ls :=
  throughout_of_invariant step_invariant (fun _ h => h.exclusive) start_invariant
    (hup.and hstream)

def chat : Str := "chat".toList

/-- Two locked requests, one refused, then a stream once the session is idle. -/
def orderly : List Label :=
  [.arrive 0 .internal_process 0 chat, .acquire 0 .ok, .arrive 1 .internal_process 1 chat,
    .acquire 1 .ok, .finish 0, .release 0 .ok, .arrive 2 .internal_process_stream 1 chat,
    .begin_stream 2]

theorem orderly_exclusive : Throughout step Exclusive start orderly := by
  apply session_exclusive
  · decide
  · simp [orderly, Along, step, NoStreamOverlap, start, State.put, set_nx, release_lua, put_ok,
      Busy, Function.update_apply]
    intro e i q hq
    grind

/-- A stream begins while the locked request of its session is being processed. -/
def overlapping : List Label :=
  [.arrive 0 .internal_process 0 chat, .acquire 0 .ok, .arrive 1 .internal_process_stream 1 chat,
    .begin_stream 1]

theorem stream_overlaps : ¬ ∀ ls, Along step (fun _ l => RedisUp l) start ls →
    Throughout step Exclusive start ls := by
  intro h
  have hx := h overlapping (by decide) overlapping [] _ (by simp) rfl
  have h01 : (0 : Token) = 1 := hx chat 0 1 ⟨_, rfl, rfl, rfl⟩ ⟨_, rfl, rfl, rfl⟩
  cases h01

end AigentSquad.SessionLock
