import Mathlib.Algebra.Order.Field.Rat
import Mathlib.Data.NNRat.Defs
import AigentSquad.ExpiringStore
import AigentSquad.SessionLock

/-!
# Lock objects over one Redis

`SessionLock` objects of any number of replicas. A command is carried out at one
moment and answered at a later one. Keys expire by Redis' clock, commands fail
or lose their answer, and an object may release at any time.
-/

set_option autoImplicit false

namespace AigentSquad.LockSafety
open AigentSquad.PyText AigentSquad.Transition AigentSquad.ExpiringStore
open AigentSquad.RemoteStore (Reply)
open AigentSquad.SessionLock (Token key)

structure SessionLock where
  session_id : Str
  /-- whether the object was given a client -/
  redis : Bool
  ttl : Int
  acquired : Bool := false
deriving DecidableEq

/-- What `acquire` has in hand: an exception, or whether the key was set. -/
inductive Acquire where
  | uncalled
  | sent (answer : Except Unit Bool)
  | returned

/-- A lock object, and until when the key lives that its `SET NX` created and it
has not released. -/
structure Object where
  lock : SessionLock
  acquire : Acquire
  holds_until : Option ℚ

structure State where
  now : ℚ
  redis : Store Str Token ℚ
  objects : Token → Option Object

def start (now : ℚ) : State := ⟨now, fun _ => none, fun _ => none⟩

inductive Label where
  | create (token : Token) (session_id : Str) (redis : Bool) (ttl : Int)
  | acquire (token : Token) (reply : Reply)
  | answered (token : Token)
  | release (token : Token) (reply : Reply)
  | elapse (d : ℚ≥0)
deriving DecidableEq

def State.put (s : State) (token : Token) (o : Object) : State :=
  { s with objects := Function.update s.objects token (some o) }

/-- Redis refuses a time to live below one second. -/
def carried_out (lock : SessionLock) (reply : Reply) : Bool :=
  reply.applied && decide (0 < lock.ttl)

/-- `SET key token NX EX ttl`: the store, the answer, and the deadline of a new key. -/
def set_nx_ex (s : State) (token : Token) (lock : SessionLock) (reply : Reply) :
    Store Str Token ℚ × Except Unit Bool × Option ℚ :=
  let k := key lock.session_id
  let free := (get s.redis s.now k).isNone
  if carried_out lock reply then
    (set_nx s.redis s.now k token (s.now + lock.ttl),
      if reply = .ok then .ok free else .error (),
      if free then some (s.now + lock.ttl) else none)
  else (s.redis, .error (), none)

/-- Fail-open: an exception counts as acquired. -/
def acquired_of : Except Unit Bool → Bool
  | .ok created => created
  | .error _ => true

def acquire (s : State) (token : Token) (o : Object) (reply : Reply) : State :=
  if o.lock.redis then
    let out := set_nx_ex s token o.lock reply
    { s.put token { o with acquire := .sent out.2.1, holds_until := out.2.2 } with
      redis := out.1 }
  else s.put token { o with lock := { o.lock with acquired := true }, acquire := .returned }

/-- The script deletes the key only while it carries our token. -/
def release (s : State) (token : Token) (o : Object) (reply : Reply) : State :=
  if o.lock.redis && o.lock.acquired && reply.applied then
    { s.put token { o with holds_until := none } with
      redis := delete_if s.redis s.now (key o.lock.session_id) token }
  else s

def step (s : State) : Label → Option State
  | .create token session_id redis ttl =>
    match s.objects token with
    | some _ => none
    | none =>
      some (s.put token
        { lock := { session_id := session_id, redis := redis, ttl := ttl }
          acquire := .uncalled
          holds_until := none })
  | .acquire token reply =>
    match s.objects token with
    | none => none
    | some o =>
      match o.acquire with
      | .uncalled => some (acquire s token o reply)
      | _ => none
  | .answered token =>
    match s.objects token with
    | none => none
    | some o =>
      match o.acquire with
      | .sent answer =>
        some (s.put token
          { o with lock := { o.lock with acquired := acquired_of answer }, acquire := .returned })
      | _ => none
  | .release token reply =>
    match s.objects token with
    | none => none
    | some o => some (release s token o reply)
  | .elapse d => some { s with now := s.now + d }

/-- The object's `SET NX` succeeded, and the key is neither expired nor released. -/
def Holds (s : State) (session_id : Str) (token : Token) : Prop :=
  ∃ o d, s.objects token = some o ∧ o.lock.session_id = session_id ∧
    o.holds_until = some d ∧ s.now ≤ d

def Exclusive (s : State) : Prop :=
  ∀ session_id i j, Holds s session_id i → Holds s session_id j → i = j

/-- A release leaves every entry of another token. -/
def SparesOthers (s : State) : Label → Prop
  | .release token reply =>
    ∀ t, step s (.release token reply) = some t →
      ∀ k e, s.redis k = some e → e.value ≠ token → t.redis k = some e
  | _ => True

/-- What an object holds is what Redis has. -/
def Backed (s : State) : Prop :=
  ∀ token o d, s.objects token = some o → o.holds_until = some d → s.now ≤ d →
    s.redis (key o.lock.session_id) = some ⟨token, d⟩

theorem start_backed (now : ℚ) : Backed (start now) := by
  intro token o d ho
  simp [start] at ho

@[simp] theorem put_now (s : State) (token : Token) (o : Object) : (s.put token o).now = s.now :=
  rfl

@[simp] theorem put_redis (s : State) (token : Token) (o : Object) :
    (s.put token o).redis = s.redis := rfl

theorem put_objects (s : State) (token other : Token) (o : Object) :
    (s.put token o).objects other = if other = token then some o else s.objects other := by
  simp only [State.put, Function.update_apply]

/-- An object that holds no more than before leaves the rest backed. -/
theorem put_backed (s : State) (token : Token) (o : Object) (hs : Backed s)
    (ho : ∀ d, o.holds_until = some d → s.now ≤ d →
      s.redis (key o.lock.session_id) = some ⟨token, d⟩) : Backed (s.put token o) := by
  intro other p d hp hd hnow
  rw [put_objects] at hp
  by_cases h : other = token
  · subst h
    simp only [↓reduceIte, Option.some.injEq] at hp
    subst hp
    exact ho d hd hnow
  · simp only [h, ↓reduceIte] at hp
    exact hs other p d hp hd hnow

theorem set_nx_ex_keeps (s : State) (token : Token) (lock : SessionLock) (reply : Reply) (k : Str)
    (e : Entry Token ℚ) (hk : s.redis k = some e) (hlive : s.now ≤ e.deadline) :
    (set_nx_ex s token lock reply).1 k = some e := by
  unfold set_nx_ex
  split
  · exact set_nx_keeps s.redis s.now k (key lock.session_id) token _ e hk hlive
  · exact hk

/-- The key of a successful `SET NX` is in Redis, with its deadline. -/
theorem set_nx_ex_created (s : State) (token : Token) (lock : SessionLock) (reply : Reply) (d : ℚ)
    (h : (set_nx_ex s token lock reply).2.2 = some d) :
    (set_nx_ex s token lock reply).1 (key lock.session_id) = some ⟨token, d⟩ := by
  unfold set_nx_ex at h ⊢
  by_cases hc : carried_out lock reply
  · simp only [hc, ↓reduceIte, Option.isNone_iff_eq_none, Option.ite_none_right_eq_some,
      Option.some.injEq] at h ⊢
    obtain ⟨hfree, hd⟩ := h
    rw [set_nx_of_absent _ _ _ _ _ hfree, write_same, hd]
  · simp [hc] at h

theorem acquire_backed (s : State) (token : Token) (o : Object) (reply : Reply) (hs : Backed s)
    (ho : s.objects token = some o) : Backed (acquire s token o reply) := by
  unfold acquire
  split
  · intro other p d hp hd hnow
    simp only [put_objects] at hp
    by_cases h : other = token
    · subst h
      simp only [↓reduceIte, Option.some.injEq] at hp
      subst hp
      exact set_nx_ex_created s other o.lock reply d hd
    · simp only [h, ↓reduceIte] at hp
      have hbefore := hs other p d hp hd hnow
      exact set_nx_ex_keeps s token o.lock reply _ _ hbefore hnow
  · apply put_backed s token _ hs
    intro d hd hnow
    exact hs token o d ho hd hnow

theorem release_spares (s : State) (token : Token) (o : Object) (reply : Reply) (k : Str)
    (e : Entry Token ℚ) (hk : s.redis k = some e) (he : e.value ≠ token) :
    (release s token o reply).redis k = some e := by
  unfold release
  split
  · exact delete_if_keeps s.redis s.now k (key o.lock.session_id) token e hk he
  · exact hk

theorem release_backed (s : State) (token : Token) (o : Object) (reply : Reply) (hs : Backed s) :
    Backed (release s token o reply) := by
  intro other p d hp hd hnow
  have hnow' : s.now ≤ d := by
    unfold release at hnow
    split at hnow <;> exact hnow
  by_cases h : other = token
  · subst h
    unfold release at hp ⊢
    split
    · next hc =>
      simp only [hc, ↓reduceIte, put_objects, Option.some.injEq] at hp
      subst hp
      simp at hd
    · next hc =>
      simp only [hc] at hp
      exact hs other p d hp hd hnow'
  · have hp' : s.objects other = some p := by
      unfold release at hp
      split at hp
      · simpa [put_objects, h] using hp
      · exact hp
    exact release_spares s token o reply _ _ (hs other p d hp' hd hnow') h

theorem elapse_backed (s : State) (d : ℚ≥0) (hs : Backed s) :
    Backed { s with now := s.now + d } := by
  intro token o u ho hu hnow
  have hle : s.now ≤ s.now + (d : ℚ) := le_add_of_nonneg_right d.coe_nonneg
  exact hs token o u ho hu (le_trans hle hnow)

theorem step_backed (s : State) (l : Label) (t : State) (h : step s l = some t) (hs : Backed s) :
    Backed t := by
  cases l with
  | create token session_id redis ttl =>
    simp only [step] at h
    split at h
    · cases h
    · cases h
      exact put_backed s token _ hs (by simp)
  | acquire token reply =>
    simp only [step] at h
    split at h
    · cases h
    · next o ho =>
      split at h
      · cases h
        exact acquire_backed s token o reply hs ho
      · cases h
  | answered token =>
    simp only [step] at h
    split at h
    · cases h
    · next o ho =>
      split at h
      · cases h
        exact put_backed s token _ hs (fun d hd hnow => hs token o d ho hd hnow)
      · cases h
  | release token reply =>
    simp only [step] at h
    split at h
    · cases h
    · next o ho =>
      cases h
      exact release_backed s token o reply hs
  | elapse d =>
    simp only [step, Option.some.injEq] at h
    subst h
    exact elapse_backed s d hs

theorem exclusive_of_backed (s : State) (hs : Backed s) : Exclusive s := by
  rintro session_id i j ⟨o, d, ho, hsid, hd, hnow⟩ ⟨p, e, hp, hsid', he, hnow'⟩
  have hi := hs i o d ho hd hnow
  have hj := hs j p e hp he hnow'
  rw [hsid] at hi
  rw [hsid', hi, Option.some.injEq] at hj
  exact congrArg Entry.value hj

theorem spares_others (s : State) (l : Label) : SparesOthers s l := by
  cases l with
  | release token reply =>
    intro t ht k e hk he
    simp only [step] at ht
    split at ht
    · cases ht
    · next o ho =>
      cases ht
      exact release_spares s token o reply k e hk he
  | _ => trivial

/-- At most one object holds the key of a session at any time, and no release
deletes the key of another object. -/
theorem lock_safe (now : ℚ) (ls : List Label) :
    Throughout step Exclusive (start now) ls ∧ Along step SparesOthers (start now) ls := by
  constructor
  · have hall : Along step (fun _ _ => True) (start now) ls :=
      along_of_forall (fun _ _ => trivial) (start now) ls
    exact throughout_of_invariant (fun s l t h _ hs => step_backed s l t h hs)
      exclusive_of_backed (start_backed now) hall
  · exact along_of_forall spares_others (start now) ls

end AigentSquad.LockSafety
