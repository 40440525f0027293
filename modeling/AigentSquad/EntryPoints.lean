import AigentSquad.Supervisor
import AigentSquad.TokenBudget

/-!
# The entry points of the supervisor

Requests, streamed requests, Slack mentions and alerts of the Alertmanager
webhook, over the recorded usage of their sessions. The alerts of one webhook
call are taken one after the other. What the duplicate check finds comes from
outside, since its entries expire and it fails open.
-/

set_option autoImplicit false

namespace AigentSquad.EntryPoints
open AigentSquad.PyText AigentSquad.Dict AigentSquad.Interaction AigentSquad.Effects
open AigentSquad.Postcondition AigentSquad.EvidenceExchange AigentSquad.RunInvestigation
open AigentSquad.Supervisor AigentSquad.RemoteStore AigentSquad.Transition
open AigentSquad.Groundedness

structure AlertmanagerAlert where
  status : Str
  labels : Entries Str Str
  annotations : Entries Str Str
  startsAt : Option Str
  fingerprint : Str

/-- `d.get(k)` where nothing is as good as an empty text. -/
def text (d : Entries Str Str) (k : Str) : Str := (get d k).getD []

def alert_to_symptom (alert : AlertmanagerAlert) (common_labels : Entries Str Str) : Str :=
  let labels := update common_labels alert.labels
  let summary := or_else (text alert.annotations "summary".toList)
    (or_else (text alert.annotations "description".toList)
      ((get labels "alertname".toList).getD "unknown alert".toList))
  let service := or_else (text labels "service".toList) (or_else (text labels "job".toList)
    (or_else (text labels "app".toList) "unknown service".toList))
  let severity := (get labels "severity".toList).getD "unknown".toList
  let namespace_name := text labels "namespace".toList
  let ns_part := if namespace_name.isEmpty then [] else " in namespace ".toList ++ namespace_name
  "Alert fired: ".toList ++ summary ++ ". Service: ".toList ++ service ++ ns_part ++
    ". Severity: ".toList ++ severity ++ ". Started at: ".toList ++ alert.startsAt.getD [] ++
    ". Investigate root cause considering ".toList ++
    "metrics, logs, recent deploys, ".toList ++ "and infrastructure events.".toList

def alert_session (fingerprint : Str) : Str :=
  if fingerprint.isEmpty then "alertmanager-unknown".toList
  else "alertmanager-".toList ++ fingerprint

def alert_result : ClassifierResult :=
  ⟨[⟨"investigation".toList, 9 / 10, []⟩], some "alertmanager-triggered investigation".toList,
    "complex".toList⟩

def alert_investigation (sup : SupervisorAgent) (common_labels : Entries Str Str)
    (alert : AlertmanagerAlert) : Investigation where
  symptom := alert_to_symptom alert common_labels
  agents := sup.agents
  user_id := "alertmanager".toList
  session_id := alert_session alert.fingerprint
  relevant_agent_names := []
  model_id_override := resolve_tier_model sup.tiers alert_result

/-- The request of an `app_mention` in a Slack thread. -/
def mention (user_id channel_id text thread_ts : Str) : Request where
  user_input := text
  user_id := user_id
  session_id := channel_id ++ [':'] ++ thread_ts
  mode := "query".toList
  force_agent := none

inductive Entry where
  | internal_process (req : Request)
  | internal_process_stream (req : Request)
  | slack_events (user_id channel_id text thread_ts : Str)
  | alert (common_labels : Entries Str Str) (alert : AlertmanagerAlert) (duplicate : Bool)

def Entry.session : Entry → Str
  | internal_process req => req.session_id
  | internal_process_stream req => req.session_id
  | slack_events user_id channel_id text thread_ts =>
    (mention user_id channel_id text thread_ts).session_id
  | alert _ a _ => alert_session a.fingerprint

section Programs
variable [Values]

/-- One alert of a webhook call. A failed investigation is only logged. -/
def handle_alert (py : Runtime) (sup : SupervisorAgent) (common_labels : Entries Str Str)
    (alert : AlertmanagerAlert) (duplicate : Bool) : M Unit :=
  if alert.status = "resolved".toList then pure ()
  else if duplicate then pure ()
  else do
    let _ ← attempt (run_investigation py sup.settings
      (alert_investigation sup common_labels alert))
    pure ()

def process (py : Runtime) (sup : SupervisorAgent) (req : Request) : M Unit := do
  let _ ← process_request py sup req
  pure ()

/-- The stream is consumed; without one the plain answer is streamed. -/
def process_stream (py : Runtime) (sup : SupervisorAgent) (req : Request) : M Unit := do
  let step_gen ← process_request_streaming py sup req
  match step_gen with
  | some gen => gen
  | none => process py sup req

def handle (py : Runtime) (sup : SupervisorAgent) : Entry → M Unit
  | .internal_process req => process py sup req
  | .internal_process_stream req => process_stream py sup req
  | .slack_events user_id channel_id text thread_ts =>
    process py sup (mention user_id channel_id text thread_ts)
  | .alert common_labels a duplicate => handle_alert py sup common_labels a duplicate

end Programs

/-- Calls of a model, a classifier, an agent's datasource or tool. -/
def is_work : Ask → Bool
  | .converse _ => true
  | .invoke _ => true
  | .classify _ _ _ _ => true
  | .collect _ _ => true
  | .list_tool_specs _ => true
  | .call_tool _ _ _ => true
  | _ => false

def Works (tr : List Ev) : Prop := ∃ s ∈ asks tr, is_work s.1 = true

def recorded (s : TokenBudget.State) (session_id : Str) : Int :=
  TokenBudget.get_usage s.tracker s.redis session_id .ok

/-- What a check answers over these counts. -/
def verdict (s : TokenBudget.State) (session_id : Str) (get : RemoteStore.Reply) :
    Except Exn Unit :=
  match TokenBudget.check_budget s.tracker s.redis session_id get with
  | .ok () => .ok ()
  | .error e => .error (.TokenBudgetExceeded e.used e.limit)

inductive Label where
  | entry (e : Entry) (tr : List Ev)
  | budget (l : TokenBudget.Label)

/-- Entries start at one count; charges, resets and expiries move it. -/
def step (s : TokenBudget.State) : Label → Option TokenBudget.State
  | .entry _ _ => some s
  | .budget l => TokenBudget.step s l

/-- Until its first work an entry's checks see the counts it starts at. -/
def Answered (s : TokenBudget.State) (tr : List Ev) : Prop :=
  ∀ pre suf sid a, tr = pre ++ .asked (.check_budget sid) a :: suf → ¬ Works pre →
    ∃ get, a = verdict s sid get

def Genuine [Values] (py : Runtime) (sup : SupervisorAgent) (s : TokenBudget.State) :
    Label → Prop
  | .entry e tr => (∃ r, Path (handle py sup e) tr r) ∧ Answered s tr
  | .budget _ => True

/-- Work starts only for sessions below the cap. -/
def Enforced (s : TokenBudget.State) : Label → Prop
  | .entry e tr => Works tr → recorded s e.session < s.tracker.max_tokens_per_session
  | .budget _ => True

/-- An alert that is investigated belongs to a session below the cap. -/
def AlertWithinCap (s : TokenBudget.State) : Label → Prop
  | .entry (.alert _ a duplicate) _ => a.status = "resolved".toList ∨ duplicate = true ∨
      recorded s (alert_session a.fingerprint) < s.tracker.max_tokens_per_session
  | _ => True

theorem verdict_refused (s : TokenBudget.State) (session_id : Str) (get : RemoteStore.Reply)
    (h : s.tracker.max_tokens_per_session ≤ recorded s session_id) :
    ∃ used limit, verdict s session_id get = .error (.TokenBudgetExceeded used limit) := by
  have herror : ∃ e, TokenBudget.check_budget s.tracker s.redis session_id get = .error e := by
    cases hredis : s.tracker.redis_backed with
    | true =>
      rw [TokenBudget.check_budget_refuses _ _ _ _ hredis]
      apply Or.inr
      simpa [recorded, TokenBudget.get_usage, hredis] using h
    | false =>
      have hused : s.tracker.max_tokens_per_session ≤ (s.tracker.usage session_id).getD 0 := by
        simpa [recorded, TokenBudget.get_usage, hredis] using h
      simp [TokenBudget.check_budget, hredis, hused]
  obtain ⟨e, he⟩ := herror
  exact ⟨e.used, e.limit, by rw [verdict, he]⟩

theorem not_works_nil : ¬ Works [] := by
  rintro ⟨_, hmem, _⟩
  cases hmem

theorem not_works_check (sid : Str) (a : Except Exn Unit) (tr : List Ev) (h : ¬ Works tr) :
    ¬ Works (.asked (.check_budget sid) a :: tr) := by
  rintro ⟨s, hmem, hwork⟩
  simp only [asks, List.mem_cons] at hmem
  rcases hmem with rfl | hmem
  · cases hwork
  · exact h ⟨s, hmem, hwork⟩

theorem answered_tail (s : TokenBudget.State) (sid : Str) (a : Except Exn Unit) (tr : List Ev)
    (h : Answered s (.asked (.check_budget sid) a :: tr)) : Answered s tr := by
  intro pre suf sid' b hsplit hpre
  apply h (.asked (.check_budget sid) a :: pre) suf sid' b
  · rw [hsplit, List.cons_append]
  · exact not_works_check sid a pre hpre

section Refused
variable [Values] (py : Runtime) (sup : SupervisorAgent) (s : TokenBudget.State)

/-- A session at its cap is answered without any work. -/
theorem process_refused (req : Request) (tr : List Ev) (r : Except Exn Unit)
    (hcap : s.tracker.max_tokens_per_session ≤ recorded s req.session_id)
    (hp : Path (process py sup req) tr r) (ha : Answered s tr) : ¬ Works tr := by
  have hask : ∃ a rest, tr = .asked (.check_budget req.session_id) a :: rest ∧
      Path (((within_budget budget_reply (attended py sup req) a).handle recover).bind
        (fun _ => .done (.ok ()))) rest r := (path_ask _ _ _ _).mp hp
  obtain ⟨a, rest, rfl, hrest⟩ := hask
  obtain ⟨get, hget⟩ := ha [] rest req.session_id a rfl not_works_nil
  obtain ⟨used, limit, hverdict⟩ := verdict_refused s req.session_id get hcap
  rw [hget, hverdict] at hrest
  obtain ⟨rfl, _⟩ := (path_done _ _ _).mp hrest
  exact not_works_check req.session_id a [] not_works_nil

theorem process_stream_refused (req : Request) (tr : List Ev) (r : Except Exn Unit)
    (hcap : s.tracker.max_tokens_per_session ≤ recorded s req.session_id)
    (hp : Path (process_stream py sup req) tr r) (ha : Answered s tr) : ¬ Works tr := by
  have hask : ∃ a rest, tr = .asked (.check_budget req.session_id) a :: rest ∧
      Path ((within_budget none (stream_attended py sup req) a).bind (fun step_gen =>
        match step_gen with
        | some gen => gen
        | none => process py sup req)) rest r := (path_ask _ _ _ _).mp hp
  obtain ⟨a, rest, rfl, hrest⟩ := hask
  obtain ⟨get, hget⟩ := ha [] rest req.session_id a rfl not_works_nil
  obtain ⟨used, limit, hverdict⟩ := verdict_refused s req.session_id get hcap
  rw [hget, hverdict] at hrest
  apply not_works_check req.session_id a rest
  exact process_refused py sup s req rest r hcap hrest
    (answered_tail s req.session_id a rest ha)

/-- A resolved or known alert is not investigated. -/
theorem alert_skipped (common_labels : Entries Str Str) (a : AlertmanagerAlert) (duplicate : Bool)
    (tr : List Ev) (r : Except Exn Unit) (h : a.status = "resolved".toList ∨ duplicate = true)
    (hp : Path (handle_alert py sup common_labels a duplicate) tr r) : ¬ Works tr := by
  have hskip : handle_alert py sup common_labels a duplicate = pure () := by
    unfold handle_alert
    split
    · rfl
    · next hfiring => rw [if_pos (h.resolve_left hfiring)]
  rw [hskip] at hp
  obtain ⟨rfl, _⟩ := (path_done _ _ _).mp hp
  exact not_works_nil

/-- Every entry but an alert above the cap keeps to it. -/
theorem enforced_step (l : Label) (hg : Genuine py sup s l) (hl : AlertWithinCap s l) :
    Enforced s l := by
  cases l with
  | budget l => trivial
  | entry e tr =>
    obtain ⟨⟨r, hp⟩, ha⟩ := hg
    intro hworks
    by_contra hnot
    have hcap := not_lt.mp hnot
    cases e with
    | internal_process req => exact process_refused py sup s req tr r hcap hp ha hworks
    | internal_process_stream req =>
      exact process_stream_refused py sup s req tr r hcap hp ha hworks
    | slack_events user_id channel_id text thread_ts =>
      exact process_refused py sup s _ tr r hcap hp ha hworks
    | alert common_labels a duplicate =>
      rcases hl with hresolved | hduplicate | hbelow
      · exact alert_skipped py sup common_labels a duplicate tr r (.inl hresolved) hp hworks
      · exact alert_skipped py sup common_labels a duplicate tr r (.inr hduplicate) hp hworks
      · exact hnot hbelow

end Refused

/-- In every run whose investigated alerts belong to sessions below the cap, no
entry starts work for a session at or above it. -/
theorem cap_enforced [Values] (py : Runtime) (sup : SupervisorAgent) (s : TokenBudget.State)
    (ls : List Label) (hgenuine : Along step (Genuine py sup) s ls)
    (halerts : Along step AlertWithinCap s ls) : Along step Enforced s ls :=
  (hgenuine.and halerts).mono (fun t l h => enforced_step py sup t l h.1 h.2)

def onCall : SupervisorAgent where
  agents := [("aws".toList, plainAgent)]
  settings := openSettings
  tiers := ⟨false, 8 / 10, false, "fast".toList, "standard".toList, "deep".toList⟩

def podDown : AlertmanagerAlert where
  status := "firing".toList
  labels := [("alertname".toList, "PodDown".toList), ("service".toList, "checkout".toList)]
  annotations := []
  startsAt := none
  fingerprint := "f1".toList

def firing : Entry := .alert [] podDown false

def firingRun : List Ev × Except Exn Unit :=
  run (fun _ => calm) [] (@handle textValues asciiRuntime onCall firing)

def is_check : Ask → Bool
  | .check_budget _ => true
  | _ => false

set_option maxRecDepth 100000 in
theorem firing_works : (asks firingRun.1).any (fun s => is_work s.1) = true := by rfl

set_option maxRecDepth 100000 in
theorem firing_unchecked : (asks firingRun.1).any (fun s => is_check s.1) = false := by
  rfl

theorem firing_genuine (s : TokenBudget.State) :
    @Genuine textValues asciiRuntime onCall s (.entry firing firingRun.1) := by
  constructor
  · exact ⟨firingRun.2, run_path _ _ _⟩
  · intro pre suf sid a hsplit _
    have hmem : (⟨.check_budget sid, a⟩ : Sigma Answer) ∈ asks firingRun.1 := by
      rw [hsplit, asks_append]
      exact List.mem_append_right _ List.mem_cons_self
    have hnone := List.any_eq_false.mp firing_unchecked _ hmem
    exact absurd rfl hnone

theorem cap_enforced_alert :
    Works firingRun.1 ∧ Along step Enforced (TokenBudget.start 2000000)
      [.budget (.record_usage "alertmanager-f1".toList 1000000 999999 .ok .ok),
        .entry firing firingRun.1] := by
  constructor
  · exact List.any_eq_true.mp firing_works
  · apply @cap_enforced textValues asciiRuntime onCall
    · exact ⟨trivial, fun t _ => ⟨firing_genuine t, fun _ _ => trivial⟩⟩
    · constructor
      · trivial
      · intro t ht
        constructor
        · apply Or.inr
          apply Or.inr
          cases ht
          decide
        · exact fun _ _ => trivial

/-- An alert that fires again after its session is used up is investigated. -/
theorem spent_alert_works : ¬ ∀ s ls,
    Along step (@Genuine textValues asciiRuntime onCall) s ls → Along step Enforced s ls := by
  intro h
  have hgenuine : Along step (@Genuine textValues asciiRuntime onCall)
      (TokenBudget.start 2000000)
      [.budget (.record_usage "alertmanager-f1".toList 1000000 1000000 .ok .ok),
        .entry firing firingRun.1] :=
    ⟨trivial, fun t _ => ⟨firing_genuine t, fun _ _ => trivial⟩⟩
  have henforced := ((h _ _ hgenuine).2 _ rfl).1 (List.any_eq_true.mp firing_works)
  exact absurd henforced (by decide)

end AigentSquad.EntryPoints
