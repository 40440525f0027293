import AigentSquad.CircuitBreaker
import AigentSquad.ToolListing
import AigentSquad.AgenticLoop

/-!
# The breaker of an MCP server

`_McpSessionPool.call_tool` over `McpAdapter.call_tool` over one server. The
adapter returns a failed session as text, so that the pool records a success;
what the pool sees fail are calls that outlast its five seconds.
-/

set_option autoImplicit false

namespace AigentSquad.ServerBreaker
open AigentSquad.PyText AigentSquad.PyJson AigentSquad.Interaction AigentSquad.Effects
open AigentSquad.AgenticLoop AigentSquad.ToolListing AigentSquad.RemoteStore
open AigentSquad.CircuitBreaker AigentSquad.Transition

/-- An exception, the exceptions of a group and the cause of a chained one. -/
inductive Exc where
  | mk (name message : Str) (exceptions : List Exc) (cause : Option Exc)

def MAX_UNWRAP_DEPTH : ℕ := 5

def described (name message : Str) : Str :=
  if (strip message).isEmpty then name else name ++ ": ".toList ++ strip message

/-- `mcp_error_detail` with the number of levels it may still unwrap. -/
def detail : ℕ → Exc → Str
  | 0, .mk name message _ _ => described name message
  | n + 1, .mk _ _ (e :: es) _ =>
    if es.isEmpty then detail n e
    else detail n e ++ " (+".toList ++ strNat es.length ++ " more)".toList
  | n + 1, .mk _ _ [] (some cause) => detail n cause
  | _ + 1, .mk name message [] none => described name message

def mcp_error_detail (exc : Exc) : Str := detail MAX_UNWRAP_DEPTH exc

def ADAPTER_SAFETY_CAP : ℕ := 1000000

/-- How a session with the server ends. -/
inductive Session where
  | rendered (text : Str)
  /-- the server answers with an error -/
  | rejected (exc : Exc)
  /-- not reached, refused or broken off, groups of such exceptions included -/
  | raised (exc : Exc)
  | permission_error (message : Str)
  /-- nothing within the pool's five seconds -/
  | hangs

def not_allowlisted (d : Datasource) (name server_name : Str) : Str :=
  "[mcp:".toList ++ d.adapter.name ++ "] tool '".toList ++ name ++ "' (server: '".toList ++
    server_name ++ "') not in read-only allowlist. Refusing execution.".toList

/-- `McpAdapter.call_tool`, bounded by the pool. -/
def call_tool (d : Datasource) (st : AdapterState) (name : Str) (session : Session) :
    ToolOutcome :=
  match call_target d st name with
  | none => .permission_error (not_allowlisted d name (resolve_server_name d st name))
  | some server_name =>
    match session with
    | .rendered text => .result (text.take ADAPTER_SAFETY_CAP)
    | .rejected exc => .result (pool_error d.adapter.name server_name (mcp_error_detail exc))
    | .raised exc => .result (pool_error d.adapter.name server_name (mcp_error_detail exc))
    | .permission_error message => .permission_error message
    | .hangs => .timeout

/-- One call through a pool that has an adapter of the server. -/
structure ServerCall (url : Str) where
  adapters : List McpAdapter
  adapter_name : Str
  target : Datasource
  found : adapter_by_name adapters adapter_name = some target.adapter
  at_server : target.adapter.url = url
  state : AdapterState
  tool_name : Str
  args : Json
  asked_at : ℚ
  answered_at : ℚ
  session : Session

/-- `_get_server_breaker` -/
def server_breaker : Shared := start 3 30 false

/-- A breaker in memory raises nothing. -/
def allowed (b : Except Raised Bool) : Bool := b.toOption.getD false

def answer {url : Str} (c : ServerCall url) (s : Shared) : (e : Ask) → Answer e × Shared
  | .can_execute _ =>
    (allowed (can_execute s c.asked_at up).2, (can_execute s c.asked_at up).1)
  | .call_tool _ name _ => (call_tool c.target c.state name c.session, s)
  | .record_success _ => ((), (record_success s up).1)
  | .record_failure _ => ((), (record_failure s c.answered_at up).1)
  | e => (calm e, s)

def served {url : Str} (c : ServerCall url) (s : Shared) :
    Shared × List Ev × Except Exn Str :=
  serve (answer c) s (pool_call_tool c.adapters c.adapter_name c.tool_name c.args)

def isContact : Ev → Bool
  | .asked (.call_tool _ _ _) _ => true
  | _ => false

/-- The server is contacted. -/
def contacts {url : Str} (c : ServerCall url) (s : Shared) : Bool := (served c s).2.1.any isContact

inductive Happened where
  | refused
  | answered
  | transport_error
  | timed_out
  | not_permitted
deriving DecidableEq, Repr

/-- How a call that goes through ends. -/
def ended {url : Str} (c : ServerCall url) : Happened :=
  match call_target c.target c.state c.tool_name with
  | none => .not_permitted
  | some _ =>
    match c.session with
    | .rendered _ => .answered
    | .rejected _ => .answered
    | .raised _ => .transport_error
    | .permission_error _ => .not_permitted
    | .hangs => .timed_out

def happened {url : Str} (c : ServerCall url) (s : Shared) : Happened :=
  if contacts c s then ended c else .refused

structure Server where
  breaker : Shared
  /-- how the calls so far ended and when, the last one first -/
  past : List (Happened × ℚ)

def fresh : Server := ⟨server_breaker, []⟩

def step {url : Str} (s : Server) (c : ServerCall url) : Option Server :=
  some ⟨(served c s.breaker).1, (happened c s.breaker, c.answered_at) :: s.past⟩

/-- The server could not be reached, or the call failed on the way. -/
def failed (h : Happened) : Bool := h = .transport_error || h = .timed_out

/-- The last three calls failed, the last of them less than 30 seconds before `now`. -/
def three_failed (now : ℚ) : List (Happened × ℚ) → Bool
  | a :: b :: c :: _ => failed a.1 && failed b.1 && failed c.1 && decide (now - a.2 < 30)
  | _ => false

/-- After three failures the server is left alone. -/
def Refuses {url : Str} (s : Server) (c : ServerCall url) : Prop :=
  three_failed c.asked_at s.past = true → contacts c s.breaker = false

/-- The three failures before the call are calls that outlasted the pool. -/
def TimedOut {url : Str} (s : Server) (c : ServerCall url) : Prop :=
  three_failed c.asked_at s.past = true → ∀ h ∈ s.past.take 3, h.1 = .timed_out

instance {url : Str} (s : Server) (c : ServerCall url) : Decidable (Refuses s c) := by
  unfold Refuses
  infer_instance

/-- The failures recorded since the last success. -/
def counted : List (Happened × ℚ) → ℕ
  | [] => 0
  | (.timed_out, _) :: past => counted past + 1
  | (.answered, _) :: _ => 0
  | (.transport_error, _) :: _ => 0
  | (.refused, _) :: past => counted past
  | (.not_permitted, _) :: past => counted past

/-- The breaker in memory holds the count, and is closed below the threshold. -/
structure Tally (b : Shared) (past : List (Happened × ℚ)) : Prop where
  local_breaker : b.breaker.redis_backed = false
  threshold : b.breaker.failure_threshold = 3
  timeout : b.breaker.recovery_timeout = 30
  count : b.breaker.mem_failure_count = counted past
  closed : counted past < 3 → b.breaker.mem_state = .CLOSED

/-- A timeout that reached the threshold has left the breaker open. -/
structure Counts (s : Server) : Prop where
  tally : Tally s.breaker s.past
  opened : ∀ t past, s.past = (.timed_out, t) :: past → 3 ≤ counted s.past →
    s.breaker.breaker.mem_state = .OPEN ∧ s.breaker.breaker.mem_last_failure_time = t

theorem fresh_counts : Counts fresh := by
  constructor
  · exact ⟨rfl, rfl, rfl, rfl, fun _ => rfl⟩
  · intro t past h
    cases h

section Steps
variable {url : Str} (c : ServerCall url) {b : Shared} {past : List (Happened × ℚ)}

theorem Tally.heard (h : Tally b past) (r : Replies) :
    b.breaker.redis_backed = true → Heard b r :=
  fun hredis => absurd (h.local_breaker.symm.trans hredis) (by decide)

theorem Tally.synced (h : Tally b past) : Synced b := by
  constructor
  · exact fun hredis => absurd (h.local_breaker.symm.trans hredis) (by decide)
  · exact fun hredis => absurd (h.local_breaker.symm.trans hredis) (by decide)
  · intro hstate
    have hcounted : ¬ counted past < 3 := fun hlow => hstate (h.closed hlow)
    rw [failures, if_neg (by simp [h.local_breaker]), h.threshold, h.count]
    omega

/-- What the pool tells the breaker about an outcome. -/
def recorded (s : Shared) : ToolOutcome → Shared
  | .result _ => (record_success s up).1
  | .permission_error _ => s
  | _ => (record_failure s c.answered_at up).1

theorem served_refused (s : Shared) (h : allowed (can_execute s c.asked_at up).2 = false) :
    (served c s).1 = (can_execute s c.asked_at up).1 ∧ contacts c s = false := by
  have hserved : served c s = ((can_execute s c.asked_at up).1,
      [.asked (.can_execute c.target.adapter.url) false],
      .ok (pool_error c.adapter_name c.tool_name "circuit breaker OPEN".toList)) := by
    rw [served, pool_call_tool_found _ _ _ _ _ c.found]
    simp only [serve, answer, h, Bool.false_eq_true, if_false]
  constructor
  · rw [hserved]
  · rw [contacts, hserved]
    rfl

theorem served_through (s : Shared) (h : allowed (can_execute s c.asked_at up).2 = true) :
    (served c s).1 = recorded c (can_execute s c.asked_at up).1
        (call_tool c.target c.state c.tool_name c.session) ∧
      contacts c s = true := by
  have hserved : (served c s).1 = recorded c (can_execute s c.asked_at up).1
        (call_tool c.target c.state c.tool_name c.session) ∧
      ∃ tr, (served c s).2.1 = .asked (.can_execute c.target.adapter.url) true ::
        .asked (.call_tool c.target.adapter c.tool_name c.args)
          (call_tool c.target c.state c.tool_name c.session) :: tr := by
    rw [served, pool_call_tool_found _ _ _ _ _ c.found]
    simp only [serve, answer, h, if_true]
    cases call_tool c.target c.state c.tool_name c.session with
    | result text => exact ⟨rfl, _, rfl⟩
    | timeout => exact ⟨rfl, _, rfl⟩
    | permission_error message => exact ⟨rfl, _, rfl⟩
    | exception detail => exact ⟨rfl, _, rfl⟩
  obtain ⟨hstate, tr, htrace⟩ := hserved
  constructor
  · exact hstate
  · rw [contacts, htrace]
    rfl

/-- The adapter turns every failed session but a hanging one into a result. -/
theorem outcome_cases :
    (∃ text, call_tool c.target c.state c.tool_name c.session = .result text ∧
      (ended c = .answered ∨ ended c = .transport_error)) ∨
    (∃ message, call_tool c.target c.state c.tool_name c.session = .permission_error message ∧
      ended c = .not_permitted) ∨
    (call_tool c.target c.state c.tool_name c.session = .timeout ∧ ended c = .timed_out) := by
  unfold call_tool ended
  cases call_target c.target c.state c.tool_name with
  | none => exact .inr (.inl ⟨_, rfl, rfl⟩)
  | some server_name =>
    cases c.session with
    | rendered text => exact .inl ⟨_, rfl, .inl rfl⟩
    | rejected exc => exact .inl ⟨_, rfl, .inl rfl⟩
    | raised exc => exact .inl ⟨_, rfl, .inr rfl⟩
    | permission_error message => exact .inr (.inl ⟨_, rfl, rfl⟩)
    | hangs => exact .inr (.inr ⟨rfl, rfl⟩)

/-- A timeout is counted, and at the threshold it opens the breaker. -/
theorem Tally.failure (h : Tally b past) (now : ℚ) :
    Tally (record_failure b now up).1 ((.timed_out, now) :: past) ∧
      (3 ≤ counted past + 1 → (record_failure b now up).1.breaker.mem_state = .OPEN) ∧
      (record_failure b now up).1.breaker.mem_last_failure_time = now := by
  have hbreaker := record_failure_breaker b now up (h.heard up)
  have hcount : (record_failure b now up).1.breaker.mem_failure_count = counted past + 1 := by
    rw [record_failure_in_memory b now up h.local_breaker]
    exact congrArg (· + 1) h.count
  have hfailures : failures b = counted past := by
    rw [failures, if_neg (by simp [h.local_breaker]), h.count]
  have hstate : (record_failure b now up).1.breaker.mem_state =
      if 3 ≤ counted past + 1 then .OPEN else b.breaker.mem_state := by
    rw [hbreaker, hfailures, h.threshold]
    simp only [← Nat.cast_add_one, ← Nat.cast_ofNat (R := Int) (n := 3), Nat.cast_le]
  refine ⟨⟨?_, ?_, ?_, ?_, ?_⟩, ?_, ?_⟩
  · rw [hbreaker]
    exact h.local_breaker
  · rw [hbreaker]
    exact h.threshold
  · rw [hbreaker]
    exact h.timeout
  · rw [hcount]
    rfl
  · intro hlow
    have hlow' : ¬ 3 ≤ counted past + 1 := by
      simp only [counted] at hlow
      omega
    rw [hstate, if_neg hlow']
    exact h.closed (by omega)
  · intro hhigh
    rw [hstate, if_pos hhigh]
  · rw [hbreaker]

theorem Tally.success (h : Tally b past) (t : ℚ) (how : Happened)
    (hhow : how = .answered ∨ how = .transport_error) :
    Tally (record_success b up).1 ((how, t) :: past) := by
  have hzero : counted ((how, t) :: past) = 0 := by
    rcases hhow with rfl | rfl
    · rfl
    · rfl
  rw [record_success_eq b h.synced up (h.heard up)]
  refine ⟨h.local_breaker, h.threshold, h.timeout, ?_, fun _ => rfl⟩
  rw [hzero]
  rfl

/-- The breaker is open and its timeout has not passed. -/
def Shut (b : Shared) (now : ℚ) : Prop :=
  b.breaker.mem_state = .OPEN ∧ now - b.breaker.mem_last_failure_time < 30

/-- A call is refused by a shut breaker, and goes through any other. -/
theorem asked_cases (h : Tally b past) :
    (Shut b c.asked_at ∧ (served c b).1 = b ∧ contacts c b = false) ∨
    (¬ Shut b c.asked_at ∧ contacts c b = true ∧ ∃ b', Tally b' past ∧
      (served c b).1 = recorded c b' (call_tool c.target c.state c.tool_name c.session)) := by
  obtain ⟨hstate, heq⟩ | ⟨hstate, htime, heq⟩ | ⟨hstate, htime, heq⟩ :=
    can_execute_cases b h.synced c.asked_at up (h.heard up)
  · obtain ⟨hserved, hcontact⟩ := served_through c b (by rw [heq]; rfl)
    rw [heq] at hserved
    exact .inr ⟨fun hshut => hstate hshut.1, hcontact, b, h, hserved⟩
  · obtain ⟨hserved, hcontact⟩ := served_through c b (by rw [heq]; rfl)
    rw [heq] at hserved
    rw [h.timeout] at htime
    have hhigh : ¬ counted past < 3 := fun hlow => by simp [h.closed hlow] at hstate
    have htally : Tally (set_state b .HALF_OPEN .ok) past :=
      ⟨h.local_breaker, h.threshold, h.timeout, h.count, fun hlow => absurd hlow hhigh⟩
    exact .inr ⟨fun hshut => not_le.mpr hshut.2 htime, hcontact, _, htally, hserved⟩
  · obtain ⟨hserved, hcontact⟩ := served_refused c b (by rw [heq]; rfl)
    rw [heq] at hserved
    rw [h.timeout] at htime
    exact .inl ⟨⟨hstate, not_le.mp htime⟩, hserved, hcontact⟩

theorem step_counts (s t : Server) (h : step s c = some t) (hs : Counts s) : Counts t := by
  simp only [step, Option.some.injEq] at h
  subst h
  obtain ⟨_, hserved, hcontact⟩ | ⟨_, hcontact, b', hb', hserved⟩ := asked_cases c hs.tally
  · simp only [happened, hcontact, Bool.false_eq_true, if_false, hserved]
    constructor
    · exact ⟨hs.tally.local_breaker, hs.tally.threshold, hs.tally.timeout, hs.tally.count,
        hs.tally.closed⟩
    · intro t past heq
      cases heq
  · simp only [happened, hcontact, if_true, hserved]
    obtain ⟨text, hout, hended⟩ | ⟨message, hout, hended⟩ | ⟨hout, hended⟩ := outcome_cases c
    · rw [hout]
      constructor
      · exact hb'.success c.answered_at (ended c) hended
      · intro t past heq
        have hkind := (Prod.mk.inj (List.cons.inj heq).1).1
        rcases hended with hended | hended
        · cases hended.symm.trans hkind
        · cases hended.symm.trans hkind
    · rw [hout, hended]
      constructor
      · exact ⟨hb'.local_breaker, hb'.threshold, hb'.timeout, hb'.count, hb'.closed⟩
      · intro t past heq
        cases heq
    · rw [hout, hended]
      obtain ⟨htally, hopen, hlast⟩ := hb'.failure c.answered_at
      constructor
      · exact htally
      · intro t past heq hhigh
        cases heq
        exact ⟨hopen hhigh, hlast⟩

theorem three_failed_iff (now : ℚ) (past : List (Happened × ℚ)) :
    three_failed now past = true ↔ ∃ x y z rest, past = x :: y :: z :: rest ∧
      failed x.1 = true ∧ failed y.1 = true ∧ failed z.1 = true ∧ now - x.2 < 30 := by
  constructor
  · intro h
    match past with
    | x :: y :: z :: rest =>
      simp only [three_failed, Bool.and_eq_true, decide_eq_true_eq] at h
      exact ⟨x, y, z, rest, rfl, h.1.1.1, h.1.1.2, h.1.2, h.2⟩
  · rintro ⟨x, y, z, rest, rfl, hx, hy, hz, htime⟩
    simp [three_failed, hx, hy, hz, htime]

theorem failed_cases {how : Happened} (h : failed how = true) :
    how = .timed_out ∨ how = .transport_error := by
  cases how with
  | timed_out => exact .inl rfl
  | transport_error => exact .inr rfl
  | _ => cases h

/-- Three failures, not all of them timeouts, leave the count below three. -/
theorem counted_low {x y z : Happened × ℚ} (rest : List (Happened × ℚ))
    (hx : failed x.1 = true) (hy : failed y.1 = true) (hz : failed z.1 = true)
    (h : ¬ (x.1 = .timed_out ∧ y.1 = .timed_out ∧ z.1 = .timed_out)) :
    counted (x :: y :: z :: rest) < 3 := by
  obtain ⟨x, tx⟩ := x
  obtain ⟨y, ty⟩ := y
  obtain ⟨z, tz⟩ := z
  rcases failed_cases hx with rfl | rfl
  · rcases failed_cases hy with rfl | rfl
    · rcases failed_cases hz with rfl | rfl
      · exact absurd ⟨rfl, rfl, rfl⟩ h
      · simp [counted]
    · simp [counted]
  · simp [counted]

theorem refuses_step (s : Server) (hs : Counts s) : Refuses s c ↔ TimedOut s c := by
  apply imp_congr_right
  intro hthree
  obtain ⟨x, y, z, rest, hpast, hx, hy, hz, htime⟩ := (three_failed_iff _ _).mp hthree
  have htaken : (∀ h ∈ s.past.take 3, h.1 = .timed_out) ↔
      x.1 = .timed_out ∧ y.1 = .timed_out ∧ z.1 = .timed_out := by
    rw [hpast]
    simp
  rw [htaken]
  obtain ⟨hshut, _, hcontact⟩ | ⟨hopen, hcontact, _⟩ := asked_cases c hs.tally
  · apply iff_of_true hcontact
    by_contra hnot
    have hclosed := hs.tally.closed (by rw [hpast]; exact counted_low rest hx hy hz hnot)
    simp [hshut.1] at hclosed
  · apply iff_of_false (by simp [hcontact])
    rintro ⟨hx', hy', hz'⟩
    have hpast' : s.past = (.timed_out, x.2) :: y :: z :: rest := by
      rw [hpast, ← hx']
    have hhigh : 3 ≤ counted s.past := by
      obtain ⟨y, ty⟩ := y
      obtain ⟨z, tz⟩ := z
      simp only at hy' hz'
      subst hy' hz'
      rw [hpast']
      simp only [counted]
      omega
    obtain ⟨hstate, hlast⟩ := hs.opened x.2 _ hpast' hhigh
    exact hopen ⟨hstate, by rw [hlast]; exact htime⟩

end Steps

/-- In every sequence of calls to one server, three failures in a row keep the
next call from it exactly when they are timeouts of the pool. -/
theorem three_failures_refuse_iff (url : Str) (calls : List (ServerCall url)) :
    Along step Refuses fresh calls ↔ Along step TimedOut fresh calls := by
  apply along_congr (P := fun _ _ => True) (I := Counts)
  · exact fun s c t h _ hs => step_counts c s t h hs
  · exact fun s c _ hs => refuses_step c s hs
  · exact fresh_counts
  · exact along_of_forall (fun _ _ => trivial) _ calls

def pods_server : Datasource := ⟨⟨"k8s".toList, "http://k8s".toList⟩, ["get_pods".toList], 0⟩

def refused_connection : Exc :=
  .mk "ExceptionGroup".toList "unhandled errors in a TaskGroup (1 sub-exception)".toList
    [.mk "ConnectError".toList "All connection attempts failed".toList [] none] none

/-- A call of `get_pods` at a second, to a server that refuses connections. -/
def unreached (second : ℚ) : ServerCall "http://k8s".toList where
  adapters := [pods_server.adapter]
  adapter_name := "k8s".toList
  target := pods_server
  found := rfl
  at_server := rfl
  state := AdapterState.fresh
  tool_name := "get_pods".toList
  args := .obj []
  asked_at := second
  answered_at := second
  session := .raised refused_connection

set_option maxRecDepth 100000 in
/-- The fourth call contacts a server that refused three connections. -/
theorem refused_connections_contacted :
    ¬ Along step Refuses fresh [unreached 0, unreached 1, unreached 2, unreached 3] := by
  decide +kernel

end AigentSquad.ServerBreaker
