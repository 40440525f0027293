import AigentSquad.PyJson
import AigentSquad.Transition
import Mathlib.Algebra.Order.Field.Rat
import Mathlib.Data.List.Chain
import Mathlib.Data.List.Perm.Basic
import Mathlib.Data.NNRat.Defs
import Mathlib.Data.Rat.Cast.Order
import Mathlib.Logic.Function.Basic
import Mathlib.Tactic.Linarith

/-!
# Readiness

`/ready` consults the dependencies of the supervisor one after the other. A result
is kept for a while; where none is recent enough the dependency is checked, and
other requests go on meanwhile. Nothing keeps two requests from the same check.
-/

set_option autoImplicit false

namespace AigentSquad.Readiness
open AigentSquad.PyText AigentSquad.PyJson AigentSquad.Transition

structure DepResult where
  ok : Bool
  detail : Str
  checked_at : ℚ

structure Checker where
  cache_ttl : ℚ
  timeout : ℚ
  /-- `timeout` as it is printed -/
  timeout_text : Str

/-- What can be checked. -/
inductive Dep where
  | redis
  | dynamodb
  | bedrock_creds
  | http (url : Str)
deriving DecidableEq

def Dep.key : Dep → Str
  | .redis => "redis".toList
  | .dynamodb => "dynamodb".toList
  | .bedrock_creds => "bedrock-creds".toList
  | .http url => "http:".toList ++ url

/-- The name before the detail of a check that ended. -/
def Dep.name : Dep → Str
  | .http url => "http ".toList ++ url
  | dep => dep.key

/-- What the client of a dependency answers. -/
inductive Reply where
  | pong (truthy : Bool)
  | done
  | status (code : ℕ)
  | raised (exc : Str)

/-- `_check`, where the client of the dependency can answer so. -/
def check : Dep → Reply → Option (Bool × Str)
  | .redis, .pong true => some (true, "redis: pong".toList)
  | .redis, .pong false => some (false, "redis: no pong".toList)
  | .dynamodb, .done => some (true, "dynamodb: table reachable".toList)
  | .bedrock_creds, .done => some (true, "bedrock-creds: identity ok".toList)
  | .http url, .status code =>
    if code < 500 then some (true, (Dep.http url).name ++ ": ".toList ++ strNat code)
    else some (false, (Dep.http url).name ++ ": status ".toList ++ strNat code)
  | dep, .raised exc => some (false, dep.name ++ ": ".toList ++ exc)
  | _, _ => none

/-! ## The endpoint -/

structure Response where
  status_code : ℕ
  content : Json

def READY : List Dep := [.redis, .dynamodb]

def DepResult.json (r : DepResult) : Json :=
  .obj [("ok".toList, .bool r.ok), ("detail".toList, .str r.detail)]

def agents_json (agents : ℕ) : Json :=
  .obj [("ok".toList, .bool (decide (0 < agents))),
    ("detail".toList, .str (strNat agents ++ " agent(s) loaded".toList))]

def response (agents : ℕ) (results : List (Dep × DepResult)) : Response :=
  let all_ok := results.all (fun p => p.2.ok) && decide (0 < agents)
  { status_code := if all_ok then 200 else 503
    content := .obj
      [("status".toList, .str (if all_ok then "ready" else "not_ready").toList),
        ("checks".toList, .obj (results.map (fun p => (p.1.key, p.2.json)) ++
          [("agents".toList, agents_json agents)]))] }

theorem response_ready_iff (agents : ℕ) (results : List (Dep × DepResult)) :
    (response agents results).status_code = 200 ↔
      (∀ p ∈ results, p.2.ok = true) ∧ 0 < agents := by
  have hall : (results.all (fun p => p.2.ok) && decide (0 < agents)) = true ↔
      (∀ p ∈ results, p.2.ok = true) ∧ 0 < agents := by
    rw [Bool.and_eq_true, List.all_eq_true, decide_eq_true_iff]
  rw [← hall]
  unfold response
  dsimp only
  split
  · next h => exact iff_of_true rfl h
  · next h => exact iff_of_false (by decide) h

inductive Phase where
  /-- awaits a check -/
  | checking (dep : Dep) (since : ℚ)
  /-- the check has ended, its result is not yet stored -/
  | checked (dep : Dep) (since : ℚ) (result : DepResult)
  | answered (response : Response)

/-- The dependency it awaits. -/
def Phase.dep : Phase → Option Dep
  | .checking dep _ => some dep
  | .checked dep _ _ => some dep
  | .answered _ => none

structure Request where
  arrived : ℚ
  results : List (Dep × DepResult)
  /-- what is to be consulted after the check it awaits -/
  remaining : List Dep
  phase : Phase

/-- The key of the check it awaits, and since when. -/
def Request.awaited (req : Request) : Option (Str × ℚ) :=
  match req.phase with
  | .checking dep since => some (dep.key, since)
  | .checked dep since _ => some (dep.key, since)
  | .answered _ => none

structure State where
  /-- `time.monotonic()` -/
  clock : ℚ
  cache : Str → Option DepResult
  requests : List Request
  /-- the checks started so far, the last one first -/
  started : List (Str × ℚ)
  /-- the checks ended so far -/
  completed : List (Str × DepResult)

def start : State := ⟨0, fun _ => none, [], [], []⟩

inductive Label where
  | elapse (d : ℚ≥0)
  /-- a request, up to the first check it awaits -/
  | arrive
  /-- the check that a request awaits ends -/
  | ended (id : ℕ) (reply : Reply)
  /-- its result is stored, and the request goes on -/
  | resumed (id : ℕ)
  | timed_out (id : ℕ)

section Machine
variable (c : Checker) (agents : ℕ)

def State.cached (s : State) (key : Str) : Option DepResult :=
  (s.cache key).filter (fun r => decide (s.clock - r.checked_at < c.cache_ttl))

/-- A request goes on until it has to await a check, or has its answer. -/
def consult (s : State) (arrived : ℚ) : List (Dep × DepResult) → List Dep → Request
  | results, [] => ⟨arrived, results, [], .answered (response agents results)⟩
  | results, dep :: remaining =>
    match s.cached c dep.key with
    | some r => consult s arrived (results ++ [(dep, r)]) remaining
    | none => ⟨arrived, results, remaining, .checking dep s.clock⟩

def State.arrive (s : State) : State :=
  let req := consult c agents s s.clock [] READY
  { s with requests := s.requests ++ [req], started := req.awaited.toList ++ s.started }

/-- The result of the check it awaited is stored, and the request goes on. -/
def State.store (s : State) (id : ℕ) (req : Request) (dep : Dep) (result : DepResult) : State :=
  let u := { s with cache := Function.update s.cache dep.key (some result) }
  let next := consult c agents u req.arrived (req.results ++ [(dep, result)]) req.remaining
  { u with requests := s.requests.set id next, started := next.awaited.toList ++ s.started }

def timeout_result (dep : Dep) (clock : ℚ) : DepResult :=
  ⟨false, dep.key ++ ": timeout after ".toList ++ c.timeout_text ++ "s".toList, clock⟩

def step (s : State) : Label → Option State
  | .elapse d => some { s with clock := s.clock + d }
  | .arrive => some (s.arrive c agents)
  | .ended id reply =>
    match s.requests[id]? with
    | some ⟨arrived, results, remaining, .checking dep since⟩ =>
      (check dep reply).map (fun r =>
        let result : DepResult := ⟨r.1, r.2, s.clock⟩
        { s with
          requests := s.requests.set id
            ⟨arrived, results, remaining, .checked dep since result⟩
          completed := (dep.key, result) :: s.completed })
    | _ => none
  | .resumed id =>
    match s.requests[id]? with
    | some ⟨arrived, results, remaining, .checked dep since result⟩ =>
      some (s.store c agents id ⟨arrived, results, remaining, .checked dep since result⟩ dep result)
    | _ => none
  | .timed_out id =>
    match s.requests[id]? with
    | some ⟨arrived, results, remaining, .checking dep since⟩ =>
      if since + c.timeout ≤ s.clock then
        let result := timeout_result c dep s.clock
        some (State.store c agents { s with completed := (dep.key, result) :: s.completed } id
          ⟨arrived, results, remaining, .checking dep since⟩ dep result)
      else none
    | _ => none

theorem consult_arrived (s : State) (arrived : ℚ) (results : List (Dep × DepResult))
    (deps : List Dep) : (consult c agents s arrived results deps).arrived = arrived := by
  induction deps generalizing results with
  | nil => rfl
  | cons dep remaining ih =>
    unfold consult
    split
    · exact ih _
    · rfl

/-- One case per kind of step. -/
inductive Moved (s : State) : Label → State → Prop
  | elapse (d : ℚ≥0) : Moved s (.elapse d) { s with clock := s.clock + d }
  | arrive : Moved s .arrive (s.arrive c agents)
  | ended (id : ℕ) (reply : Reply) (arrived : ℚ) (results : List (Dep × DepResult))
      (remaining : List Dep) (dep : Dep) (since : ℚ) (r : Bool × Str)
      (hreq : s.requests[id]? = some ⟨arrived, results, remaining, .checking dep since⟩)
      (hcheck : check dep reply = some r) :
      Moved s (.ended id reply)
        { s with
          requests := s.requests.set id
            ⟨arrived, results, remaining, .checked dep since ⟨r.1, r.2, s.clock⟩⟩
          completed := (dep.key, ⟨r.1, r.2, s.clock⟩) :: s.completed }
  | resumed (id : ℕ) (arrived : ℚ) (results : List (Dep × DepResult)) (remaining : List Dep)
      (dep : Dep) (since : ℚ) (result : DepResult)
      (hreq : s.requests[id]? = some ⟨arrived, results, remaining, .checked dep since result⟩) :
      Moved s (.resumed id) (s.store c agents id
        ⟨arrived, results, remaining, .checked dep since result⟩ dep result)
  | timed_out (id : ℕ) (arrived : ℚ) (results : List (Dep × DepResult)) (remaining : List Dep)
      (dep : Dep) (since : ℚ)
      (hreq : s.requests[id]? = some ⟨arrived, results, remaining, .checking dep since⟩)
      (hlate : since + c.timeout ≤ s.clock) :
      Moved s (.timed_out id) (State.store c agents
        { s with completed := (dep.key, timeout_result c dep s.clock) :: s.completed } id
        ⟨arrived, results, remaining, .checking dep since⟩ dep (timeout_result c dep s.clock))

theorem moved_of_step (s t : State) (l : Label) (h : step c agents s l = some t) :
    Moved c agents s l t := by
  cases l with
  | elapse d =>
    cases h
    exact .elapse d
  | arrive =>
    cases h
    exact .arrive
  | ended id reply =>
    simp only [step] at h
    split at h
    · next hreq =>
      obtain ⟨r, hcheck, rfl⟩ := Option.map_eq_some_iff.mp h
      exact .ended id reply _ _ _ _ _ r hreq hcheck
    · cases h
  | resumed id =>
    simp only [step] at h
    split at h
    · next hreq =>
      cases h
      exact .resumed id _ _ _ _ _ _ hreq
    · cases h
  | timed_out id =>
    simp only [step] at h
    split at h
    · next hreq =>
      obtain ⟨hlate, heq⟩ := Option.ite_none_right_eq_some.mp h
      cases heq
      exact .timed_out id _ _ _ _ _ hreq hlate
    · cases h

theorem cached_eq_some {s : State} {key : Str} {r : DepResult} (h : s.cached c key = some r) :
    s.cache key = some r ∧ s.clock < r.checked_at + c.cache_ttl := by
  obtain ⟨hcache, hfresh⟩ := Option.filter_eq_some_iff.mp h
  refine ⟨hcache, ?_⟩
  have hage := of_decide_eq_true hfresh
  linarith

theorem cached_eq_none {s : State} {key : Str} {r : DepResult} (h : s.cached c key = none)
    (hcache : s.cache key = some r) : r.checked_at + c.cache_ttl ≤ s.clock := by
  rw [State.cached, hcache, Option.filter_some] at h
  split at h
  · cases h
  · next hstale =>
    have hage := of_decide_eq_false (Bool.not_eq_true _ ▸ hstale)
    linarith

/-! ## What an answer rests on -/

/-- Of a check that ended after the request arrived, or not long enough before. -/
def Within (arrived : ℚ) (r : DepResult) : Prop :=
  arrived ≤ r.checked_at ∨ arrived < r.checked_at + c.cache_ttl

structure Request.Sound (s : State) (req : Request) : Prop where
  arrived : req.arrived ≤ s.clock
  results : ∀ p ∈ req.results, (p.1.key, p.2) ∈ s.completed ∧ Within c req.arrived p.2
  consulted : req.results.map Prod.fst ++ (req.phase.dep.toList ++ req.remaining) = READY
  awaited : ∀ key since, req.awaited = some (key, since) → req.arrived ≤ since ∧ since ≤ s.clock
  checked : ∀ dep since r, req.phase = .checked dep since r →
    (dep.key, r) ∈ s.completed ∧ since ≤ r.checked_at
  answered : ∀ a, req.phase = .answered a → req.remaining = [] ∧ a = response agents req.results

structure Sound (s : State) : Prop where
  cache : ∀ key r, s.cache key = some r → (key, r) ∈ s.completed
  requests : ∀ req ∈ s.requests, req.Sound c agents s

variable {c agents}

theorem Request.Sound.mono {s t : State} {req : Request} (h : req.Sound c agents s)
    (hclock : s.clock ≤ t.clock) (hcompleted : s.completed ⊆ t.completed) :
    req.Sound c agents t where
  arrived := h.arrived.trans hclock
  results := fun p hp => ⟨hcompleted (h.results p hp).1, (h.results p hp).2⟩
  consulted := h.consulted
  awaited := fun key since hreq =>
    ⟨(h.awaited key since hreq).1, (h.awaited key since hreq).2.trans hclock⟩
  checked := fun dep since r hreq =>
    ⟨hcompleted (h.checked dep since r hreq).1, (h.checked dep since r hreq).2⟩
  answered := h.answered

variable (c agents)

theorem consult_sound (s : State) (arrived : ℚ)
    (hcache : ∀ key r, s.cache key = some r → (key, r) ∈ s.completed) (harrived : arrived ≤ s.clock)
    (results : List (Dep × DepResult)) (deps : List Dep)
    (hresults : ∀ p ∈ results, (p.1.key, p.2) ∈ s.completed ∧ Within c arrived p.2)
    (hdeps : results.map Prod.fst ++ deps = READY) :
    (consult c agents s arrived results deps).Sound c agents s := by
  induction deps generalizing results with
  | nil =>
    refine ⟨harrived, hresults, hdeps, nofun, nofun, ?_⟩
    intro a ha
    cases ha
    exact ⟨rfl, rfl⟩
  | cons dep remaining ih =>
    unfold consult
    split
    · next r hfound =>
      obtain ⟨hstored, hfresh⟩ := cached_eq_some c hfound
      refine ih _ ?_ (by simpa using hdeps)
      intro p hp
      rcases List.mem_append.mp hp with hold | hnew
      · exact hresults p hold
      · cases List.mem_singleton.mp hnew
        exact ⟨hcache _ _ hstored, .inr (harrived.trans_lt hfresh)⟩
    · refine ⟨harrived, hresults, hdeps, ?_, nofun, nofun⟩
      intro key since hawaited
      cases hawaited
      exact ⟨harrived, le_rfl⟩

theorem arrive_sound (s : State) (hs : Sound c agents s) : Sound c agents (s.arrive c agents) := by
  refine ⟨hs.cache, ?_⟩
  intro req hreq
  rcases List.mem_append.mp hreq with hold | hnew
  · exact (hs.requests req hold).mono le_rfl (List.Subset.refl _)
  · cases List.mem_singleton.mp hnew
    exact (consult_sound c agents s s.clock hs.cache le_rfl [] READY nofun rfl).mono le_rfl
      (List.Subset.refl _)

/-- A request that has its result goes on. -/
theorem store_sound (s : State) (hs : Sound c agents s) (id : ℕ) (req : Request) (dep : Dep)
    (result : DepResult) (hreq : req.Sound c agents s) (hdep : req.phase.dep = some dep)
    (hcompleted : (dep.key, result) ∈ s.completed) (hwithin : req.arrived ≤ result.checked_at) :
    Sound c agents (s.store c agents id req dep result) := by
  have hcache : ∀ key r, Function.update s.cache dep.key (some result) key = some r →
      (key, r) ∈ s.completed := by
    intro key r hr
    by_cases hkey : key = dep.key
    · subst hkey
      rw [Function.update_self] at hr
      cases hr
      exact hcompleted
    · rw [Function.update_of_ne hkey] at hr
      exact hs.cache key r hr
  have hresults : ∀ p ∈ req.results ++ [(dep, result)],
      (p.1.key, p.2) ∈ s.completed ∧ Within c req.arrived p.2 := by
    intro p hp
    rcases List.mem_append.mp hp with hold | hnew
    · exact hreq.results p hold
    · cases List.mem_singleton.mp hnew
      exact ⟨hcompleted, .inl hwithin⟩
  have hdeps : (req.results ++ [(dep, result)]).map Prod.fst ++ req.remaining = READY := by
    rw [← hreq.consulted, hdep]
    simp
  refine ⟨hcache, ?_⟩
  intro other hother
  rcases List.mem_or_eq_of_mem_set hother with hold | rfl
  · exact (hs.requests other hold).mono le_rfl (List.Subset.refl _)
  · exact (consult_sound c agents { s with cache := Function.update s.cache dep.key (some result) }
      req.arrived hcache hreq.arrived _ _ hresults hdeps).mono le_rfl (List.Subset.refl _)

theorem moved_sound (s t : State) (l : Label) (h : Moved c agents s l t) (hs : Sound c agents s) :
    Sound c agents t := by
  cases h with
  | elapse d =>
    refine ⟨hs.cache, fun req hreq => (hs.requests req hreq).mono ?_ (List.Subset.refl _)⟩
    exact le_add_of_nonneg_right d.coe_nonneg
  | arrive => exact arrive_sound c agents s hs
  | ended id reply arrived results remaining dep since r hreq hcheck =>
    have hsound := hs.requests _ (List.mem_of_getElem? hreq)
    refine ⟨fun key r hr => List.mem_cons_of_mem _ (hs.cache key r hr), ?_⟩
    intro other hother
    rcases List.mem_or_eq_of_mem_set hother with hold | rfl
    · exact (hs.requests other hold).mono le_rfl (List.subset_cons_self _ _)
    · have hgrown := hsound.mono (t := { s with
        completed := (dep.key, ⟨r.1, r.2, s.clock⟩) :: s.completed }) le_rfl
        (List.subset_cons_self _ _)
      refine ⟨hgrown.arrived, hgrown.results, hsound.consulted, hsound.awaited, ?_, nofun⟩
      intro dep' since' r' hphase
      cases hphase
      exact ⟨List.mem_cons_self, (hsound.awaited _ _ rfl).2⟩
  | resumed id arrived results remaining dep since result hreq =>
    have hsound := hs.requests _ (List.mem_of_getElem? hreq)
    obtain ⟨hcompleted, hsince⟩ := hsound.checked dep since result rfl
    exact store_sound c agents s hs id _ dep result hsound rfl hcompleted
      ((hsound.awaited _ _ rfl).1.trans hsince)
  | timed_out id arrived results remaining dep since hreq hlate =>
    have hsound := hs.requests _ (List.mem_of_getElem? hreq)
    have hgrown : Sound c agents
        { s with completed := (dep.key, timeout_result c dep s.clock) :: s.completed } :=
      ⟨fun key r hr => List.mem_cons_of_mem _ (hs.cache key r hr),
        fun req hreq => (hs.requests req hreq).mono le_rfl (List.subset_cons_self _ _)⟩
    exact store_sound c agents _ hgrown id _ dep _ (hgrown.requests _ (List.mem_of_getElem? hreq))
      rfl List.mem_cons_self hsound.arrived

theorem start_sound : Sound c agents start := ⟨nofun, nofun⟩

/-- Where the checks of each dependency that have ended since some moment all had one
outcome, a request that arrives `cache_ttl` later is answered by these outcomes. -/
def TracksDependencies (s : State) : Prop :=
  ∀ (since : ℚ) (up : Dep → Bool),
    (∀ dep ∈ READY, ∀ r, (dep.key, r) ∈ s.completed → since ≤ r.checked_at → r.ok = up dep) →
    ∀ req ∈ s.requests, ∀ a, req.phase = .answered a →
      since ≤ req.arrived → since + c.cache_ttl ≤ req.arrived →
      (a.status_code = 200 ↔ (∀ dep ∈ READY, up dep = true) ∧ 0 < agents)

/-- However the requests interleave, and whatever the checks find or however long they take. -/
theorem ready_tracks (ls : List Label) :
    Throughout (step c agents) (TracksDependencies c agents) start ls := by
  have hkeep : ∀ s l t, step c agents s l = some t → True → Sound c agents s →
      Sound c agents t :=
    fun s l t hstep _ hs => moved_sound c agents s t l (moved_of_step c agents s t l hstep) hs
  have hgood : ∀ s, Sound c agents s → TracksDependencies c agents s := by
    intro s hs since up hup req hreq a ha hlate hstale
    have hsound := hs.requests req hreq
    obtain ⟨hremaining, rfl⟩ := hsound.answered a ha
    have hall : req.results.map Prod.fst = READY := by
      simpa [ha, Phase.dep, hremaining] using hsound.consulted
    have hok : ∀ p ∈ req.results, p.2.ok = up p.1 := by
      intro p hp
      obtain ⟨hcompleted, hwithin⟩ := hsound.results p hp
      refine hup p.1 (hall ▸ List.mem_map_of_mem hp) p.2 hcompleted ?_
      rcases hwithin with hafter | hfresh
      · exact hlate.trans hafter
      · linarith
    rw [response_ready_iff, ← hall, List.forall_mem_map]
    refine and_congr_left' ?_
    exact forall₂_congr (fun p hp => by rw [hok p hp])
  exact throughout_of_invariant hkeep hgood (start_sound c agents)
    (along_of_forall (fun _ _ => trivial) _ ls)

/-! ## How often a dependency is checked -/

/-- When the checks of a key were started, the last one first. -/
def starts (started : List (Str × ℚ)) (key : Str) : List ℚ :=
  started.filterMap (fun p => if p.1 = key then some p.2 else none)

/-- The keys whose checks are awaited, once for each request. -/
def keys_awaited (requests : List Request) : List Str :=
  requests.filterMap (fun req => req.awaited.map Prod.fst)

/-- No step makes two requests await checks of one key. -/
def Apart (s : State) (l : Label) : Prop :=
  ∀ t ∈ step c agents s l, (keys_awaited t.requests).Nodup

/-- Between two checks of one key lies `cache_ttl` at least. -/
def Spaced (s : State) : Prop :=
  ∀ key, (starts s.started key).IsChain (fun later earlier => earlier + c.cache_ttl ≤ later)

structure Ordered (cache : Str → Option DepResult) (started : List (Str × ℚ))
    (requests : List Request) : Prop where
  awaited : ∀ req ∈ requests, ∀ key since, req.awaited = some (key, since) →
    (starts started key).head? = some since
  stored : ∀ key since, (starts started key).head? = some since → key ∉ keys_awaited requests →
    ∃ r, cache key = some r ∧ since ≤ r.checked_at
  spaced : ∀ key, (starts started key).IsChain
    (fun later earlier => earlier + c.cache_ttl ≤ later)

variable {c agents}

theorem keys_awaited_perm {requests others : List Request} (h : requests.Perm others) :
    (keys_awaited requests).Perm (keys_awaited others) := h.filterMap _

theorem keys_awaited_cons (req : Request) (requests : List Request) :
    keys_awaited (req :: requests) =
      (req.awaited.map Prod.fst).toList ++ keys_awaited requests := by
  unfold keys_awaited
  cases hreq : req.awaited with
  | none => exact List.filterMap_cons_none (by rw [hreq]; rfl)
  | some a => exact List.filterMap_cons_some (by rw [hreq]; rfl)

theorem mem_keys_awaited {requests : List Request} {req : Request} {key : Str} {since : ℚ}
    (hreq : req ∈ requests) (h : req.awaited = some (key, since)) :
    key ∈ keys_awaited requests :=
  List.mem_filterMap.mpr ⟨req, hreq, by rw [h]; rfl⟩

theorem Ordered.perm {cache : Str → Option DepResult} {started : List (Str × ℚ)}
    {requests others : List Request} (h : Ordered c cache started requests)
    (hperm : requests.Perm others) : Ordered c cache started others where
  awaited := fun req hreq => h.awaited req (hperm.mem_iff.mpr hreq)
  stored := fun key since hhead hkey =>
    h.stored key since hhead (fun hmem => hkey ((keys_awaited_perm hperm).mem_iff.mp hmem))
  spaced := h.spaced

/-- Another request that awaits the same takes its place. -/
theorem Ordered.same {cache : Str → Option DepResult} {started : List (Str × ℚ)}
    {req next : Request} {others : List Request} (h : Ordered c cache started (req :: others))
    (hnext : next.awaited = req.awaited) : Ordered c cache started (next :: others) where
  awaited := by
    intro r hr key since hsince
    rcases List.mem_cons.mp hr with rfl | hother
    · exact h.awaited req List.mem_cons_self key since (hnext ▸ hsince)
    · exact h.awaited r (List.mem_cons_of_mem _ hother) key since hsince
  stored := by
    rw [keys_awaited_cons, hnext, ← keys_awaited_cons]
    exact h.stored
  spaced := h.spaced

/-- A request whose check has ended leaves its result. -/
theorem Ordered.leave {cache : Str → Option DepResult} {started : List (Str × ℚ)} {req : Request}
    {others : List Request} (h : Ordered c cache started (req :: others)) {key : Str} {since : ℚ}
    (hreq : req.awaited = some (key, since)) (result : DepResult)
    (hresult : since ≤ result.checked_at) :
    Ordered c (Function.update cache key (some result)) started others where
  awaited := fun r hr => h.awaited r (List.mem_cons_of_mem _ hr)
  stored := by
    intro other t hhead hother
    by_cases hkey : other = key
    · subst hkey
      rw [h.awaited req List.mem_cons_self other since hreq] at hhead
      cases hhead
      exact ⟨result, Function.update_self _ _ _, hresult⟩
    · have hnot : other ∉ keys_awaited (req :: others) := by
        rw [keys_awaited_cons, hreq]
        intro hmem
        rcases List.mem_cons.mp hmem with heq | hrest
        · exact hkey heq
        · exact hother hrest
      obtain ⟨r, hcache, hr⟩ := h.stored other t hhead hnot
      exact ⟨r, (Function.update_of_ne hkey _ _).trans hcache, hr⟩
  spaced := h.spaced

variable (c agents)

/-- What a request has to await has no recent result. -/
theorem consult_awaits (s : State) (arrived : ℚ) (results : List (Dep × DepResult))
    (deps : List Dep) (key : Str) (since : ℚ)
    (h : (consult c agents s arrived results deps).awaited = some (key, since)) :
    since = s.clock ∧ s.cached c key = none ∧
      results.length ≤ (consult c agents s arrived results deps).results.length := by
  induction deps generalizing results with
  | nil => cases h
  | cons dep remaining ih =>
    unfold consult at h ⊢
    cases hfound : s.cached c dep.key with
    | none =>
      rw [hfound] at h
      cases h
      exact ⟨rfl, hfound, le_rfl⟩
    | some r =>
      rw [hfound] at h
      obtain ⟨hsince, hnone, hlength⟩ := ih _ h
      rw [List.length_append] at hlength
      exact ⟨hsince, hnone, by dsimp only; omega⟩

/-- A request goes on to another check, or has its answer. -/
theorem Ordered.place (s : State) {others : List Request}
    (h : Ordered c s.cache s.started others) (arrived : ℚ) (results : List (Dep × DepResult))
    (deps : List Dep)
    (hapart : (keys_awaited (consult c agents s arrived results deps :: others)).Nodup) :
    Ordered c s.cache
      ((consult c agents s arrived results deps).awaited.toList ++ s.started)
      (consult c agents s arrived results deps :: others) := by
  have hconsult := consult_awaits c agents s arrived results deps
  generalize consult c agents s arrived results deps = next at hconsult hapart ⊢
  rw [keys_awaited_cons] at hapart
  cases hnext : next.awaited with
  | none =>
    refine ⟨?_, ?_, h.spaced⟩
    · intro req hreq key since hsince
      rcases List.mem_cons.mp hreq with rfl | hother
      · rw [hnext] at hsince
        cases hsince
      · exact h.awaited req hother key since hsince
    · rw [keys_awaited_cons, hnext]
      exact h.stored
  | some a =>
    obtain ⟨key, since⟩ := a
    obtain ⟨rfl, hnone, -⟩ := hconsult key since hnext
    rw [hnext] at hapart
    have hkey : key ∉ keys_awaited others := (List.nodup_cons.mp hapart).1
    have hsame : starts ((key, s.clock) :: s.started) key = s.clock :: starts s.started key :=
      List.filterMap_cons_some (if_pos rfl)
    have hother : ∀ other, other ≠ key →
        starts ((key, s.clock) :: s.started) other = starts s.started other :=
      fun other hne => List.filterMap_cons_none (if_neg (Ne.symm hne))
    refine ⟨?_, ?_, ?_⟩
    · intro req hreq k since hsince
      rcases List.mem_cons.mp hreq with rfl | hmem
      · rw [hnext] at hsince
        cases hsince
        rw [Option.toList_some, List.singleton_append, hsame]
        rfl
      · have hne : k ≠ key := fun heq => hkey (heq ▸ mem_keys_awaited hmem hsince)
        rw [Option.toList_some, List.singleton_append, hother k hne]
        exact h.awaited req hmem k since hsince
    · intro k since hhead hk
      have hne : k ≠ key := fun heq => hk (heq ▸ mem_keys_awaited List.mem_cons_self hnext)
      rw [Option.toList_some, List.singleton_append, hother k hne] at hhead
      refine h.stored k since hhead (fun hmem => hk ?_)
      rw [keys_awaited_cons]
      exact List.mem_append_right _ hmem
    · intro k
      rw [Option.toList_some, List.singleton_append]
      by_cases hk : k = key
      · subst hk
        rw [hsame]
        refine List.isChain_cons.mpr ⟨?_, h.spaced k⟩
        intro earlier hearlier
        obtain ⟨r, hcache, hr⟩ := h.stored k earlier hearlier hkey
        have hstale := cached_eq_none c hnone hcache
        linarith
      · rw [hother k hk]
        exact h.spaced k

theorem store_ordered (s : State) (id : ℕ) (req : Request) (dep : Dep) (since : ℚ)
    (result : DepResult) (hs : Ordered c s.cache s.started s.requests)
    (hreq : s.requests[id]? = some req) (hawaited : req.awaited = some (dep.key, since))
    (hresult : since ≤ result.checked_at)
    (hapart : (keys_awaited (s.store c agents id req dep result).requests).Nodup) :
    Ordered c (s.store c agents id req dep result).cache
      (s.store c agents id req dep result).started
      (s.store c agents id req dep result).requests := by
  obtain ⟨hlt, hget⟩ := List.getElem?_eq_some_iff.mp hreq
  have hout : s.requests.Perm (req :: s.requests.eraseIdx id) :=
    hget ▸ (List.getElem_cons_eraseIdx_perm hlt).symm
  have hin := fun next => List.set_perm_cons_eraseIdx hlt (next : Request)
  have hleft := (hs.perm hout).leave hawaited result hresult
  refine Ordered.perm ?_ (hin _).symm
  exact Ordered.place c agents
    { s with cache := Function.update s.cache dep.key (some result) } hleft _ _ _
    ((keys_awaited_perm (hin _)).nodup_iff.mp hapart)

theorem moved_ordered (s t : State) (l : Label) (h : Moved c agents s l t)
    (hsound : Sound c agents s) (hs : Ordered c s.cache s.started s.requests)
    (hapart : (keys_awaited t.requests).Nodup) :
    Ordered c t.cache t.started t.requests := by
  cases h with
  | elapse d => exact hs
  | arrive =>
    have hin := List.perm_append_singleton (consult c agents s s.clock [] READY) s.requests
    exact (Ordered.place c agents s hs _ _ _
      ((keys_awaited_perm hin).nodup_iff.mp hapart)).perm hin.symm
  | ended id reply arrived results remaining dep since r hreq hcheck =>
    obtain ⟨hlt, hget⟩ := List.getElem?_eq_some_iff.mp hreq
    have hout := hs.perm (hget ▸ (List.getElem_cons_eraseIdx_perm hlt).symm)
    refine Ordered.perm ?_ (List.set_perm_cons_eraseIdx hlt _).symm
    exact hout.same rfl
  | resumed id arrived results remaining dep since result hreq =>
    have hresult := ((hsound.requests _ (List.mem_of_getElem? hreq)).checked dep since result rfl).2
    exact store_ordered c agents s id _ dep since result hs hreq rfl hresult hapart
  | timed_out id arrived results remaining dep since hreq hlate =>
    have hresult := ((hsound.requests _ (List.mem_of_getElem? hreq)).awaited _ _ rfl).2
    exact store_ordered c agents _ id _ dep since _ hs hreq rfl hresult hapart

/-- While no two requests await checks of one key, the dependencies are checked no more
often than the cache is meant to let them. -/
theorem checks_spaced (ls : List Label) (hl : Along (step c agents) (Apart c agents) start ls) :
    Throughout (step c agents) (Spaced c) start ls := by
  have hkeep : ∀ s l t, step c agents s l = some t → Apart c agents s l →
      Sound c agents s ∧ Ordered c s.cache s.started s.requests →
      Sound c agents t ∧ Ordered c t.cache t.started t.requests := by
    intro s l t hstep hapart hs
    have hmoved := moved_of_step c agents s t l hstep
    exact ⟨moved_sound c agents s t l hmoved hs.1,
      moved_ordered c agents s t l hmoved hs.1 hs.2 (hapart t hstep)⟩
  have hstart : Ordered c start.cache start.started start.requests :=
    ⟨nofun, nofun, fun _ => List.isChain_nil⟩
  exact throughout_of_invariant hkeep (fun s hs => hs.2.spaced) ⟨start_sound c agents, hstart⟩ hl

instance decidableApart (s : State) (l : Label) : Decidable (Apart c agents s l) :=
  inferInstanceAs (Decidable (∀ t ∈ step c agents s l, (keys_awaited t.requests).Nodup))

/-! ## How long a request waits -/

variable (ε : ℚ)

/-- No check that is awaited has outlived its timeout by more than `ε`. -/
def OnTime (s : State) : Prop :=
  ∀ req ∈ s.requests, ∀ a ∈ req.awaited, s.clock ≤ a.2 + (c.timeout + ε)

def AnsweredInTime (s : State) : Prop :=
  OnTime c ε s → ∀ req ∈ s.requests, req.awaited.isSome = true →
    s.clock ≤ req.arrived + READY.length * (c.timeout + ε)

/-- It has awaited no more checks than it has results. -/
def Request.Punctual (req : Request) : Prop :=
  ∀ a ∈ req.awaited, a.2 ≤ req.arrived + req.results.length * (c.timeout + ε)

theorem consult_punctual (hε : 0 ≤ c.timeout + ε) (s : State) (arrived : ℚ)
    (results : List (Dep × DepResult)) (deps : List Dep)
    (hclock : s.clock ≤ arrived + results.length * (c.timeout + ε)) :
    (consult c agents s arrived results deps).Punctual c ε := by
  intro a ha
  obtain ⟨hsince, -, hlength⟩ := consult_awaits c agents s arrived results deps a.1 a.2 ha
  have hmore : (results.length : ℚ) ≤ (consult c agents s arrived results deps).results.length := by
    exact_mod_cast hlength
  calc a.2 = s.clock := hsince
    _ ≤ arrived + results.length * (c.timeout + ε) := hclock
    _ ≤ _ := by
      rw [consult_arrived]
      exact add_le_add_right (mul_le_mul_of_nonneg_right hmore hε) _

theorem store_punctual (hε : 0 ≤ c.timeout + ε) (s : State) (id : ℕ) (req : Request) (dep : Dep)
    (result : DepResult) (a : Str × ℚ) (hreq : req ∈ s.requests) (ha : req.awaited = some a)
    (hs : ∀ req ∈ s.requests, req.Punctual c ε) (hon : OnTime c ε s) :
    ∀ other ∈ (s.store c agents id req dep result).requests, other.Punctual c ε := by
  intro other hother
  rcases List.mem_or_eq_of_mem_set hother with hold | rfl
  · exact hs other hold
  · refine consult_punctual c agents ε hε _ _ _ _ ?_
    have hsince := hs req hreq a ha
    have hclock := hon req hreq a ha
    rw [List.length_append, List.length_singleton]
    push_cast
    linarith

theorem moved_punctual (hε : 0 ≤ c.timeout + ε) (s t : State) (l : Label)
    (h : Moved c agents s l t) (hs : ∀ req ∈ s.requests, req.Punctual c ε)
    (hon : OnTime c ε s) : ∀ req ∈ t.requests, req.Punctual c ε := by
  cases h with
  | elapse d => exact hs
  | arrive =>
    intro req hreq
    rcases List.mem_append.mp hreq with hold | hnew
    · exact hs req hold
    · cases List.mem_singleton.mp hnew
      exact consult_punctual c agents ε hε s s.clock [] READY (by simp)
  | ended id reply arrived results remaining dep since r hreq hcheck =>
    intro other hother
    rcases List.mem_or_eq_of_mem_set hother with hold | rfl
    · exact hs other hold
    · have hreq := hs _ (List.mem_of_getElem? hreq)
      exact fun a ha => hreq a ha
  | resumed id arrived results remaining dep since result hreq =>
    exact store_punctual c agents ε hε s id _ dep result _ (List.mem_of_getElem? hreq) rfl hs hon
  | timed_out id arrived results remaining dep since hreq hlate =>
    exact store_punctual c agents ε hε _ id _ dep _ _ (List.mem_of_getElem? hreq) rfl hs hon

/-- While every check ends by its timeout, or `ε` later, no request waits for longer than
all checks may take. -/
theorem answered_in_time (hε : 0 ≤ c.timeout + ε) (ls : List Label)
    (hl : Along (step c agents) (fun s _ => OnTime c ε s) start ls) :
    Throughout (step c agents) (AnsweredInTime c ε) start ls := by
  have hkeep : ∀ s l t, step c agents s l = some t → OnTime c ε s →
      Sound c agents s ∧ (∀ req ∈ s.requests, req.Punctual c ε) →
      Sound c agents t ∧ ∀ req ∈ t.requests, req.Punctual c ε := by
    intro s l t hstep hon hs
    have hmoved := moved_of_step c agents s t l hstep
    exact ⟨moved_sound c agents s t l hmoved hs.1,
      moved_punctual c agents ε hε s t l hmoved hs.2 hon⟩
  have hgood : ∀ s, Sound c agents s ∧ (∀ req ∈ s.requests, req.Punctual c ε) →
      AnsweredInTime c ε s := by
    intro s hs hon req hreq hawaited
    obtain ⟨a, ha⟩ := Option.isSome_iff_exists.mp hawaited
    have hsince := hs.2 req hreq a ha
    have hclock := hon req hreq a ha
    have hlength : req.results.length + 1 ≤ READY.length := by
      have hdep : ∃ dep, req.phase.dep = some dep := by
        unfold Request.awaited at ha
        split at ha
        · next dep since hphase => exact ⟨dep, by rw [hphase]; rfl⟩
        · next dep since r hphase => exact ⟨dep, by rw [hphase]; rfl⟩
        · cases ha
      obtain ⟨dep, hdep⟩ := hdep
      have hlen := congrArg List.length (hs.1.requests req hreq).consulted
      rw [hdep] at hlen
      simp only [List.length_append, List.length_map, Option.toList_some, List.length_cons,
        List.length_nil] at hlen
      omega
    have hcast : (req.results.length : ℚ) + 1 ≤ READY.length := by exact_mod_cast hlength
    have hbound := mul_le_mul_of_nonneg_right hcast hε
    linarith
  exact throughout_of_invariant hkeep hgood ⟨start_sound c agents, nofun⟩ hl

instance decidableOnTime (s : State) : Decidable (OnTime c ε s) :=
  inferInstanceAs (Decidable (∀ req ∈ s.requests, ∀ a ∈ req.awaited,
    s.clock ≤ a.2 + (c.timeout + ε)))

end Machine

def five_seconds : Checker := ⟨5, 2, "2.0".toList⟩

/-- Redis is lost: the second request still has its last result, the third one waits for
the timeout. -/
def outage : List Label :=
  [.arrive, .ended 0 (.pong true), .resumed 0, .ended 0 .done, .resumed 0, .elapse 1, .arrive] ++
    List.replicate 4 (.elapse 1) ++
    [.arrive, .elapse 1, .elapse 1, .timed_out 2, .ended 2 .done, .resumed 2]

theorem checks_spaced_outage :
    Throughout (step five_seconds 1) (Spaced five_seconds) start outage :=
  checks_spaced five_seconds 1 outage (by decide +kernel)

theorem answered_in_time_outage :
    Throughout (step five_seconds 1) (AnsweredInTime five_seconds 1) start outage :=
  answered_in_time five_seconds 1 1 (by norm_num [five_seconds]) outage (by decide +kernel)

end AigentSquad.Readiness
