import AigentSquad.EntryPoints
import AigentSquad.StoredHistory

/-!
# One streamed request at the gateway, two calls of the supervisor

The gateway sends `process_stream` and, if anything goes wrong before its
response is there, `process`. The supervisor may go on with a call the gateway
has given up. Each endpoint is taken apart into the invocations of the
supervisor agent it makes; a step of a call is one event of an invocation, or
passes to the next part of the endpoint. A call that never arrives, or that the
session lock refuses, makes no step.
-/

set_option autoImplicit false

namespace AigentSquad.ConversationTurn
open AigentSquad.PyText AigentSquad.Interaction AigentSquad.Postcondition AigentSquad.Effects
open AigentSquad.Supervisor AigentSquad.EntryPoints AigentSquad.StoredHistory
open AigentSquad.EvidenceExchange AigentSquad.Transition

/-! ## What the supervisor does in one call -/

def is_user_save : Ask → Bool
  | .save_chat_message _ _ _ message => message.role = "user".toList
  | _ => false

/-- Work of the agents; the classifier's is none of it. -/
def is_agentic : Ask → Bool
  | .classify _ _ _ _ => false
  | e => is_work e

/-- How often the user's message is handed to the store. -/
def user_saves (tr : List Ev) : ℕ := tr.countP (asks_for is_user_save)

/-- The agents have begun to work. -/
def begun (tr : List Ev) : Bool := tr.any (asks_for is_agentic)

inductive Place where
  /-- in `process_request_streaming` -/
  | streaming (p : M (Option (M Unit)))
  /-- its headers are sent, the generator is consumed -/
  | body (gen : M Unit)
  /-- in `process_request` -/
  | plain (p : M Supervisor.Reply)
  | finished (answered : Bool)

/-- One call of the supervisor: where it is, and the events so far of its
invocation of `process_request_streaming` and of `process_request`. -/
structure Call where
  place : Place
  streamed : List Ev := []
  processed : List Ev := []

def Call.answered (c : Call) : Bool :=
  match c.place with
  | .body _ => true
  | .finished answered => answered
  | _ => false

def Call.stored (c : Call) : ℕ := user_saves c.streamed + user_saves c.processed

def Call.runs (c : Call) : ℕ := (begun c.streamed).toNat + (begun c.processed).toNat

def absent : Call := { place := .finished false }

section Calls
variable [Values] (py : Runtime) (sup : SupervisorAgent) (req : Supervisor.Request)

def internal_process_stream : Call := { place := .streaming (process_request_streaming py sup req) }

def internal_process : Call := { place := .plain (process_request py sup req) }

def Call.advance (reply : (e : Ask) → Answer e) (c : Call) : Option Call :=
  match c.place with
  | .streaming p =>
    match p.step reply with
    | .inl (ev, q) => some { c with place := .streaming q, streamed := c.streamed ++ [ev] }
    | .inr (.ok (some gen)) => some { c with place := .body gen }
    | .inr (.ok none) => some { c with place := .plain (process_request py sup req) }
    | .inr (.error _) => some { c with place := .finished false }
  | .body gen =>
    match gen.step reply with
    | .inl (ev, q) => some { c with place := .body q, streamed := c.streamed ++ [ev] }
    | .inr _ => some { c with place := .finished true }
  | .plain p =>
    match p.step reply with
    | .inl (ev, q) => some { c with place := .plain q, processed := c.processed ++ [ev] }
    | .inr (.ok _) => some { c with place := .finished true }
    | .inr (.error _) => some { c with place := .finished false }
  | .finished _ => none

end Calls

/-- The event of the next step, if it is one of an invocation. -/
def Call.event (reply : (e : Ask) → Answer e) (c : Call) : Option Ev :=
  match c.place with
  | .streaming p => (p.step reply).getLeft?.map Prod.fst
  | .body gen => (gen.step reply).getLeft?.map Prod.fst
  | .plain p => (p.step reply).getLeft?.map Prod.fst
  | .finished _ => none

/-! ## The turn -/

inductive Gateway where
  | waiting
  | streamed
  | fallen_back
deriving DecidableEq, Repr

structure Turn where
  gateway : Gateway
  first : Call
  second : Call

inductive Label where
  | first (reply : (e : Ask) → Answer e)
  | second (reply : (e : Ask) → Answer e)
  /-- `process_stream` returns the response -/
  | respond
  /-- `process_stream` raises: transport error, read timeout, 4xx or 5xx -/
  | give_up

section Machine
variable [Values] (py : Runtime) (sup : SupervisorAgent) (req : Supervisor.Request)

def start : Turn := ⟨.waiting, internal_process_stream py sup req, absent⟩

def step (t : Turn) : Label → Option Turn
  | .first reply => (t.first.advance py sup req reply).map (fun c => { t with first := c })
  | .second reply => (t.second.advance py sup req reply).map (fun c => { t with second := c })
  | .respond =>
    if t.gateway = .waiting ∧ t.first.answered then some { t with gateway := .streamed } else none
  | .give_up =>
    if t.gateway = .waiting then
      some { t with gateway := .fallen_back, second := internal_process py sup req }
    else none

end Machine

def Turn.stored (t : Turn) : ℕ := t.first.stored + t.second.stored

def Turn.runs (t : Turn) : ℕ := t.first.runs + t.second.runs

/-- One conversation turn. -/
structure OneTurn (t : Turn) : Prop where
  stored : t.stored ≤ 1
  runs : t.runs ≤ 1

/-- The event stores or begins nothing that the other call has stored or begun. -/
def Unshared (other : Call) (ev : Ev) : Prop :=
  (asks_for is_user_save ev = true → other.stored = 0) ∧
    (asks_for is_agentic ev = true → other.runs = 0)

def Fresh (t : Turn) : Label → Prop
  | .first reply => ∀ ev, t.first.event reply = some ev → Unshared t.second ev
  | .second reply => ∀ ev, t.second.event reply = some ev → Unshared t.first ev
  | _ => True

/-! ## Events of a call -/

theorem user_saves_append (s t : List Ev) :
    user_saves (s ++ t) = user_saves s + user_saves t := List.countP_append

theorem user_saves_single (ev : Ev) : user_saves [ev] = (asks_for is_user_save ev).toNat := by
  have hone : ∀ b : Bool, (if b = true then 1 else 0) = b.toNat := by decide
  rw [user_saves, List.countP_cons, List.countP_nil, Nat.zero_add, hone]

theorem begun_append (s t : List Ev) : begun (s ++ t) = (begun s || begun t) := List.any_append

theorem begun_idle (tr : List Ev) (ev : Ev) (h : asks_for is_agentic ev = false) :
    begun (tr ++ [ev]) = begun tr := by
  simp [begun, h]

theorem begun_working (tr : List Ev) (ev : Ev) (h : asks_for is_agentic ev = true) :
    begun (tr ++ [ev]) = true := by
  simp [begun, h]

/-- What a step of a call adds to it. -/
structure Added (c c' : Call) (ev : Ev) : Prop where
  stored : c'.stored = c.stored + (asks_for is_user_save ev).toNat
  idle : asks_for is_agentic ev = false → c'.runs = c.runs
  working : asks_for is_agentic ev = true → 1 ≤ c'.runs

theorem added_streamed (c : Call) (place : Place) (ev : Ev) :
    Added c { c with place := place, streamed := c.streamed ++ [ev] } ev := by
  constructor
  · simp only [Call.stored, user_saves_append, user_saves_single]
    omega
  · intro h
    simp only [Call.runs, begun_idle _ _ h]
  · intro h
    simp only [Call.runs, begun_working _ _ h, Bool.toNat_true]
    omega

theorem added_processed (c : Call) (place : Place) (ev : Ev) :
    Added c { c with place := place, processed := c.processed ++ [ev] } ev := by
  constructor
  · simp only [Call.stored, user_saves_append, user_saves_single]
    omega
  · intro h
    simp only [Call.runs, begun_idle _ _ h]
  · intro h
    simp only [Call.runs, begun_working _ _ h, Bool.toNat_true]
    omega

/-- The call takes an event, or only moves on. -/
def Took (reply : (e : Ask) → Answer e) (c c' : Call) : Prop :=
  (∃ ev, c.event reply = some ev ∧ Added c c' ev) ∨
    (c.event reply = none ∧ c'.stored = c.stored ∧ c'.runs = c.runs)

section Steps
variable [Values] (py : Runtime) (sup : SupervisorAgent) (req : Supervisor.Request)

theorem advance_took (reply : (e : Ask) → Answer e) (c c' : Call)
    (h : c.advance py sup req reply = some c') : Took reply c c' := by
  obtain ⟨place, streamed, processed⟩ := c
  cases place with
  | streaming p =>
    cases hp : p.step reply with
    | inl out =>
      simp only [Call.advance, hp, Option.some.injEq] at h
      subst h
      exact .inl ⟨out.1, by simp [Call.event, hp], added_streamed _ _ _⟩
    | inr r =>
      refine .inr ⟨by simp [Call.event, hp], ?_⟩
      rcases r with x | ⟨_ | gen⟩ <;> simp only [Call.advance, hp, Option.some.injEq] at h <;>
        subst h <;> exact ⟨rfl, rfl⟩
  | body gen =>
    cases hp : gen.step reply with
    | inl out =>
      simp only [Call.advance, hp, Option.some.injEq] at h
      subst h
      exact .inl ⟨out.1, by simp [Call.event, hp], added_streamed _ _ _⟩
    | inr r =>
      refine .inr ⟨by simp [Call.event, hp], ?_⟩
      simp only [Call.advance, hp, Option.some.injEq] at h
      subst h
      exact ⟨rfl, rfl⟩
  | plain p =>
    cases hp : p.step reply with
    | inl out =>
      simp only [Call.advance, hp, Option.some.injEq] at h
      subst h
      exact .inl ⟨out.1, by simp [Call.event, hp], added_processed _ _ _⟩
    | inr r =>
      refine .inr ⟨by simp [Call.event, hp], ?_⟩
      cases r <;> simp only [Call.advance, hp, Option.some.injEq] at h <;>
        subst h <;> exact ⟨rfl, rfl⟩
  | finished answered => cases h

theorem event_of_over (reply : (e : Ask) → Answer e) (c : Call)
    (h : c.advance py sup req reply = none) : c.event reply = none := by
  obtain ⟨place, streamed, processed⟩ := c
  cases place with
  | streaming p =>
    cases hp : p.step reply with
    | inl out => simp [Call.advance, hp] at h
    | inr r => rcases r with x | ⟨_ | gen⟩ <;> simp [Call.advance, hp] at h
  | body gen => cases hp : gen.step reply <;> simp [Call.advance, hp] at h
  | plain p =>
    cases hp : p.step reply with
    | inl out => simp [Call.advance, hp] at h
    | inr r => cases r <;> simp [Call.advance, hp] at h
  | finished answered => rfl

end Steps

/-! ## One invocation stores the user's message at most once -/

section Programs
variable (py : Runtime) (sup : SupervisorAgent) (req : Supervisor.Request)

theorem not_save_of_reads (e : Ask) (h : Reads e) : is_user_save e = false := by
  cases e with
  | save_chat_message _ _ _ _ => exact h.elim
  | _ => rfl

theorem reads_only {α : Type} {p : M α} (h : AsksOnly Reads p) :
    AsksOnly (fun e => is_user_save e = false) p := h.mono not_save_of_reads

theorem save_at_most (agent_id : Str) (message : ConversationMessage) :
    AsksAtMost is_user_save 1 (save req agent_id message) := by
  constructor
  · exact Bool.toNat_le _
  · intro a
    cases a <;> trivial

theorem save_answer (agent_id content answer_id : Str) :
    AsksOnly (fun e => is_user_save e = false)
      (save req agent_id (assistant_message content answer_id)) := by
  constructor
  · show decide ("assistant".toList = "user".toList) = false
    decide
  · intro a
    cases a <;> trivial

theorem conclude_unsaving (agent_name : Str) (c : ClassifierResult)
    (result : Except Exn ConversationMessage) :
    AsksOnly (fun e => is_user_save e = false) (conclude req agent_name c result) := by
  cases result with
  | ok message => exact asksOnly_bind _ _ _ (save_answer req _ _ _) (fun _ => trivial)
  | error exc => cases exc <;> trivial

theorem single_agent_call_unsaving (agent_name : Str) (c : ClassifierResult) (user_input : Str)
    (model_id_override : Option Str) :
    AsksOnly (fun e => is_user_save e = false)
      (single_agent_call py sup req agent_name c user_input model_id_override) := by
  apply asksOnly_bind
  · exact reads_only (fetch_chat_reads req agent_name)
  · intro agent_history
    apply asksOnly_bind
    · trivial
    · intro ag
      apply asksOnly_bind
      · exact asksOnly_attempt _ _ (reads_only (agent_request_reads py sup.settings ag _))
      · exact fun result => conclude_unsaving req agent_name c result

theorem fan_out_unsaving (primary : AgentMatch) (others : List AgentMatch) (user_input : Str)
    (model_id_override : Option Str) :
    AsksOnly (fun e => is_user_save e = false)
      (fan_out py sup req primary others user_input model_id_override) := by
  apply asksOnly_bind
  · trivial
  · intro specialists
    apply asksOnly_bind
    · apply asksOnly_gather
      intro p hp
      obtain ⟨q, _, rfl⟩ := List.mem_map.mp hp
      exact reads_only (agent_request_reads py sup.settings q.2 _)
    · intro results
      apply asksOnly_bind
      · trivial
      · intro _
        apply asksOnly_bind
        · exact reads_only (synthesize_reads req user_input _ _)
        · intro final_response
          exact asksOnly_bind _ _ _ (save_answer req _ _ _) (fun _ => trivial)

theorem answer_forced_at_most (name user_input : Str) :
    AsksAtMost is_user_save 1 (answer_forced py sup req name user_input) :=
  asksAtMost_before (save_at_most req _ _)
    (fun _ => single_agent_call_unsaving py sup req _ _ _ _)

theorem answer_classified_at_most (c : ClassifierResult) (user_input : Str) :
    AsksAtMost is_user_save 1 (answer_classified py sup req c user_input) := by
  unfold answer_classified
  split
  · trivial
  · split
    · trivial
    · apply asksAtMost_before
      · exact save_at_most req _ _
      · intro _
        dsimp only
        split
        · exact single_agent_call_unsaving py sup req _ _ _ _
        · exact fan_out_unsaving py sup req _ _ _ _

theorem process_request_at_most [Values] :
    AsksAtMost is_user_save 1 (process_request py sup req) := by
  have hrespond : ∀ user_input, AsksAtMost is_user_save 1 (respond py sup req user_input) := by
    intro user_input
    unfold respond
    split
    · exact answer_forced_at_most py sup req _ user_input
    · split
      · apply asksAtMost_of_none
        apply reads_only
        exact asksOnly_bind _ _ _ (run_investigation_reads py sup.settings _) (fun _ => trivial)
      · exact asksAtMost_after (reads_only (classify_reads req user_input))
          (fun c => answer_classified_at_most py sup req c user_input)
  have hattended : AsksAtMost is_user_save 1 (attended py sup req) :=
    asksAtMost_after (reads_only (ingress_reads req)) hrespond
  have hbody : ∀ budget,
      AsksAtMost is_user_save 1 (within_budget budget_reply (attended py sup req) budget) := by
    intro budget
    cases budget with
    | ok u => exact hattended
    | error exc => cases exc <;> trivial
  apply asksAtMost_handle (n := 0)
  · exact asksAtMost_after (reads_only (check_budget_reads req)) hbody
  · intro x
    cases x <;> trivial

theorem stream_agent_at_most (ag : GenericAgent.Agent) (agent_name user_input agent_input : Str)
    (model_id_override : Option Str) :
    AsksAtMost is_user_save 1
      (stream_agent py sup req ag agent_name user_input agent_input model_id_override) := by
  apply asksAtMost_before
  · exact save_at_most req _ _
  · intro _
    apply reads_only
    apply asksOnly_bind
    · exact fetch_chat_reads req agent_name
    · intro chat_history
      apply asksOnly_bind
      · exact asked_reads (request_reads (.scan_input _ _) trivial)
      · exact fun _ => asksOnly_bind _ _ _ (collect_all_reads _ _) (fun _ => trivial)

theorem stream_forced_at_most (name user_input : Str) :
    AsksAtMost is_user_save 1 (stream_forced py sup req name user_input) := by
  apply asksAtMost_after
  · trivial
  · intro ag
    split
    · exact asksAtMost_before (stream_agent_at_most py sup req ag _ _ _ _) (fun _ => trivial)
    · trivial

theorem stream_classified_at_most (c : ClassifierResult) (user_input : Str) :
    AsksAtMost is_user_save 1 (stream_classified py sup req c user_input) := by
  unfold stream_classified
  split
  · trivial
  · split
    · apply asksAtMost_after
      · trivial
      · intro ag
        split
        · exact asksAtMost_before (stream_agent_at_most py sup req ag _ _ _ _) (fun _ => trivial)
        · trivial
    · trivial

theorem process_request_streaming_at_most :
    AsksAtMost is_user_save 1 (process_request_streaming py sup req) := by
  have hattended : AsksAtMost is_user_save 1 (stream_attended py sup req) := by
    apply asksAtMost_after
    · exact reads_only (ingress_reads req)
    · intro user_input
      split
      · exact stream_forced_at_most py sup req _ user_input
      · split
        · trivial
        · exact asksAtMost_after (reads_only (classify_reads req user_input))
            (fun c => stream_classified_at_most py sup req c user_input)
  apply asksAtMost_after
  · exact reads_only (check_budget_reads req)
  · intro budget
    cases budget with
    | ok u => exact hattended
    | error exc => cases exc <;> trivial

/-! ## Without a stream nothing is stored or begun -/

/-- Neither the user's message nor the agents' work. -/
def Quiet (e : Ask) : Prop := is_user_save e = false ∧ is_agentic e = false

def QuietRun (tr : List Ev) : Prop := user_saves tr = 0 ∧ begun tr = false

theorem quietRun_nil : QuietRun [] := ⟨rfl, rfl⟩

theorem quietRun_append {s t : List Ev} (hs : QuietRun s) (ht : QuietRun t) :
    QuietRun (s ++ t) := by
  constructor
  · rw [user_saves_append, hs.1, ht.1]
  · rw [begun_append, hs.2, ht.2]
    rfl

theorem quiet_path {α : Type} {p : M α} (hp : AsksOnly Quiet p) {tr : List Ev} {r : Except Exn α}
    (h : Path p tr r) : QuietRun tr := by
  have hsave := asksAtMost_of_none 0 (hp.mono (fun e he => he.1))
  have hwork := asksAtMost_of_none 0 (hp.mono (fun e he => he.2))
  constructor
  · exact Nat.le_zero.mp (asksAtMost_path hsave h)
  · have hnone := Nat.le_zero.mp (asksAtMost_path hwork h)
    rw [begun, List.any_eq_false]
    exact List.countP_eq_zero.mp hnone

theorem ingress_quiet : AsksOnly Quiet (ingress req) := by
  apply asksOnly_bind
  · apply asksOnly_bind
    · exact ⟨⟨rfl, rfl⟩, fun _ => trivial⟩
    · exact fun _ => trivial
  · intro user_input
    constructor
    · exact ⟨rfl, rfl⟩
    · exact fun verdict => asksOnly_bind Quiet (.ofExcept (admitted verdict)) _ trivial
        (fun _ => trivial)

theorem classify_quiet (user_input : Str) : AsksOnly Quiet (classify req user_input) := by
  apply asksOnly_bind
  · apply asksOnly_bind
    · exact ⟨⟨rfl, rfl⟩, fun _ => trivial⟩
    · exact fun _ => trivial
  · intro chat_history
    apply asksOnly_bind
    · exact ⟨⟨rfl, rfl⟩, fun _ => trivial⟩
    · exact fun _ => trivial

/-- A stream that is set up is offered. -/
theorem offered_not_none {α β : Type} {p : M α} {wrap : α → β} {tr : List Ev}
    (h : Path (p.bind (fun a => pure (some (wrap a)))) tr (.ok none)) : False := by
  obtain ⟨a, _, _, _, _, hdone⟩ := Path.of_bind_ok h
  cases ((path_done _ _ _).mp hdone).2

theorem stream_forced_none (name user_input : Str) (tr : List Ev)
    (h : Path (stream_forced py sup req name user_input) tr (.ok none)) : QuietRun tr := by
  obtain ⟨ag, s, t, rfl, hnamed, hrest⟩ := Path.of_bind_ok h
  obtain ⟨rfl, _⟩ := (path_done _ _ _).mp hnamed
  split at hrest
  · exact (offered_not_none hrest).elim
  · obtain ⟨rfl, _⟩ := (path_done _ _ _).mp hrest
    exact quietRun_nil

theorem stream_classified_none (c : ClassifierResult) (user_input : Str) (tr : List Ev)
    (h : Path (stream_classified py sup req c user_input) tr (.ok none)) : QuietRun tr := by
  unfold stream_classified at h
  split at h
  · obtain ⟨rfl, _⟩ := (path_done _ _ _).mp h
    exact quietRun_nil
  · split at h
    · obtain ⟨ag, s, t, rfl, hnamed, hrest⟩ := Path.of_bind_ok h
      obtain ⟨rfl, _⟩ := (path_done _ _ _).mp hnamed
      split at hrest
      · exact (offered_not_none hrest).elim
      · obtain ⟨rfl, _⟩ := (path_done _ _ _).mp hrest
        exact quietRun_nil
    · obtain ⟨rfl, _⟩ := (path_done _ _ _).mp h
      exact quietRun_nil

theorem stream_attended_none (tr : List Ev)
    (h : Path (stream_attended py sup req) tr (.ok none)) : QuietRun tr := by
  obtain ⟨user_input, s, t, rfl, hingress, hrest⟩ := Path.of_bind_ok h
  apply quietRun_append (quiet_path (ingress_quiet req) hingress)
  split at hrest
  · exact stream_forced_none py sup req _ user_input t hrest
  · split at hrest
    · obtain ⟨rfl, _⟩ := (path_done _ _ _).mp hrest
      exact quietRun_nil
    · obtain ⟨c, s', t', rfl, hclassify, hrest⟩ := Path.of_bind_ok hrest
      exact quietRun_append (quiet_path (classify_quiet req user_input) hclassify)
        (stream_classified_none py sup req c user_input t' hrest)

theorem process_request_streaming_none (tr : List Ev)
    (h : Path (process_request_streaming py sup req) tr (.ok none)) : QuietRun tr := by
  obtain ⟨budget, s, t, rfl, hbudget, hrest⟩ := Path.of_bind_ok h
  have hchecked : AsksOnly Quiet (check_budget req) := ⟨⟨rfl, rfl⟩, fun _ => trivial⟩
  apply quietRun_append (quiet_path hchecked hbudget)
  cases budget with
  | ok u => exact stream_attended_none py sup req t hrest
  | error exc =>
    cases exc with
    | TokenBudgetExceeded used limit =>
      obtain ⟨rfl, _⟩ := (path_done _ _ _).mp hrest
      exact quietRun_nil
    | _ => cases ((path_done _ _ _).mp hrest).2

/-- What is known when `process_request_streaming` ends. -/
structure Opened (tr : List Ev) (r : Except Exn (Option (M Unit))) : Prop where
  once : user_saves tr ≤ 1
  quiet : r = .ok none → QuietRun tr
  body : ∀ gen, r = .ok (some gen) → AsksOnly (fun e => is_user_save e = false) gen

theorem process_request_streaming_opened (tr : List Ev) (r : Except Exn (Option (M Unit)))
    (h : Path (process_request_streaming py sup req) tr r) : Opened tr r where
  once := asksAtMost_path (process_request_streaming_at_most py sup req) h
  quiet := by
    rintro rfl
    exact process_request_streaming_none py sup req tr h
  body := by
    rintro gen rfl
    exact reads_only (stream_stores py sup req tr (some gen) h gen rfl).2

end Programs

/-! ## Invariant of a call -/

/-- Where a call is, the user's message is stored at most once in all, and only
one of its invocations has agents at work. -/
def Kept (c : Call) : Prop :=
  match c.place with
  | .streaming p => c.processed = [] ∧ ∀ tr r, Path p tr r → Opened (c.streamed ++ tr) r
  | .body gen => c.processed = [] ∧ user_saves c.streamed ≤ 1 ∧
      AsksOnly (fun e => is_user_save e = false) gen
  | .plain p => QuietRun c.streamed ∧
      ∃ n, user_saves c.processed + n ≤ 1 ∧ AsksAtMost is_user_save n p
  | .finished _ => c.stored ≤ 1 ∧ c.runs ≤ 1

theorem single_invocation (c : Call) (h : c.processed = []) (hone : user_saves c.streamed ≤ 1) :
    c.stored ≤ 1 ∧ c.runs ≤ 1 := by
  rw [Call.stored, Call.runs, h]
  exact ⟨hone, Bool.toNat_le _⟩

theorem kept_bounds (c : Call) (h : Kept c) : c.stored ≤ 1 ∧ c.runs ≤ 1 := by
  obtain ⟨place, streamed, processed⟩ := c
  cases place with
  | streaming p =>
    -- the run so far is a part of some complete one
    have hwhole := (h.2 _ _ (run_path (fun _ => calm) [] p)).once
    rw [user_saves_append] at hwhole
    exact single_invocation _ h.1 (Nat.le_trans (Nat.le_add_right _ _) hwhole)
  | body gen => exact single_invocation _ h.1 h.2.1
  | plain p =>
    obtain ⟨⟨hsaves, hbegun⟩, n, hn, _⟩ := h
    constructor
    · simp only [Call.stored] at hsaves hn ⊢
      omega
    · have hle := Bool.toNat_le (begun processed)
      simp only [Call.runs] at hbegun ⊢
      rw [hbegun]
      simpa using hle
  | finished answered => exact h

theorem absent_kept : Kept absent := ⟨Nat.zero_le _, Nat.zero_le _⟩

theorem internal_process_stream_kept (py : Runtime) (sup : SupervisorAgent)
    (req : Supervisor.Request) : Kept (internal_process_stream py sup req) :=
  ⟨rfl, process_request_streaming_opened py sup req⟩

theorem took_iff (reply : (e : Ask) → Answer e) (c c' other : Call) (htook : Took reply c c')
    (hbounds : c'.stored ≤ 1 ∧ c'.runs ≤ 1)
    (hone : c.stored + other.stored ≤ 1 ∧ c.runs + other.runs ≤ 1) :
    (c'.stored + other.stored ≤ 1 ∧ c'.runs + other.runs ≤ 1) ↔
      ∀ ev, c.event reply = some ev → Unshared other ev := by
  rcases htook with ⟨ev, hev, hstored, hidle, hworking⟩ | ⟨hev, hstored, hruns⟩
  · rw [hev]
    constructor
    · rintro ⟨hs, hr⟩ _ ⟨⟩
      constructor
      · intro hsave
        rw [hstored, hsave, Bool.toNat_true] at hs
        omega
      · intro hwork
        have hbegun := hworking hwork
        omega
    · intro h
      obtain ⟨hsaves, hworks⟩ := h ev rfl
      constructor
      · cases hsave : asks_for is_user_save ev with
        | true =>
          have hzero := hsaves hsave
          omega
        | false =>
          rw [hstored, hsave, Bool.toNat_false]
          exact hone.1
      · cases hwork : asks_for is_agentic ev with
        | true =>
          have hzero := hworks hwork
          omega
        | false =>
          rw [hidle hwork]
          exact hone.2
  · rw [hev, hstored, hruns]
    constructor
    · rintro _ ev ⟨⟩
    · exact fun _ => hone

structure KeptTurn (t : Turn) : Prop where
  first : Kept t.first
  second : Kept t.second

theorem start_kept (py : Runtime) (sup : SupervisorAgent) (req : Supervisor.Request) :
    KeptTurn (start py sup req) where
  first := internal_process_stream_kept py sup req
  second := absent_kept

theorem start_one_turn (py : Runtime) (sup : SupervisorAgent) (req : Supervisor.Request) :
    OneTurn (start py sup req) := ⟨Nat.zero_le _, Nat.zero_le _⟩

section Machine
variable [Values] (py : Runtime) (sup : SupervisorAgent) (req : Supervisor.Request)

theorem internal_process_kept : Kept (internal_process py sup req) :=
  ⟨quietRun_nil, 1, Nat.le_refl 1, process_request_at_most py sup req⟩

theorem advance_kept (reply : (e : Ask) → Answer e) (c c' : Call)
    (h : c.advance py sup req reply = some c') (hc : Kept c) : Kept c' := by
  have hbounds := kept_bounds c hc
  obtain ⟨place, streamed, processed⟩ := c
  cases place with
  | streaming p =>
    obtain ⟨hprocessed, hopened⟩ := hc
    cases hp : p.step reply with
    | inl out =>
      simp only [Call.advance, hp, Option.some.injEq] at h
      subst h
      refine ⟨hprocessed, ?_⟩
      intro tr r htr
      have hnext := hopened (out.1 :: tr) r (path_of_step hp htr)
      rwa [List.append_cons] at hnext
    | inr r =>
      have hend := hopened [] r (path_of_ended hp)
      simp only [List.append_nil] at hend
      rcases r with x | ⟨_ | gen⟩ <;> simp only [Call.advance, hp, Option.some.injEq] at h <;>
        subst h
      · exact hbounds
      · refine ⟨hend.quiet rfl, 1, ?_, process_request_at_most py sup req⟩
        rw [show processed = [] from hprocessed]
        exact Nat.le_refl 1
      · exact ⟨hprocessed, hend.once, hend.body gen rfl⟩
  | body gen =>
    obtain ⟨hprocessed, hone, hgen⟩ := hc
    cases hp : gen.step reply with
    | inl out =>
      simp only [Call.advance, hp, Option.some.injEq] at h
      subst h
      have hsilent := (asksAtMost_step (asksAtMost_of_none 0 hgen) hp).1
      refine ⟨hprocessed, ?_, asksOnly_step hgen hp⟩
      rw [user_saves_append, user_saves_single]
      exact Nat.add_le_add hone hsilent
    | inr r =>
      simp only [Call.advance, hp, Option.some.injEq] at h
      subst h
      exact hbounds
  | plain p =>
    obtain ⟨hquiet, n, hn, hmost⟩ := hc
    cases hp : p.step reply with
    | inl out =>
      simp only [Call.advance, hp, Option.some.injEq] at h
      subst h
      obtain ⟨hcount, hrest⟩ := asksAtMost_step hmost hp
      refine ⟨hquiet, _, ?_, hrest⟩
      simp only [user_saves_append, user_saves_single] at hn ⊢
      omega
    | inr r =>
      cases r <;> simp only [Call.advance, hp, Option.some.injEq] at h <;> subst h <;>
        exact hbounds
  | finished answered => cases h

theorem step_kept (t : Turn) (l : Label) (t' : Turn) (h : step py sup req t l = some t')
    (ht : KeptTurn t) : KeptTurn t' := by
  cases l with
  | first reply =>
    obtain ⟨c, hc, rfl⟩ := Option.map_eq_some_iff.mp h
    exact ⟨advance_kept py sup req reply t.first c hc ht.first, ht.second⟩
  | second reply =>
    obtain ⟨c, hc, rfl⟩ := Option.map_eq_some_iff.mp h
    exact ⟨ht.first, advance_kept py sup req reply t.second c hc ht.second⟩
  | respond =>
    obtain ⟨_, h⟩ := Option.ite_none_right_eq_some.mp h
    cases h
    exact ⟨ht.first, ht.second⟩
  | give_up =>
    obtain ⟨_, h⟩ := Option.ite_none_right_eq_some.mp h
    cases h
    exact ⟨ht.first, internal_process_kept py sup req⟩

/-- A step of one call, seen from both. -/
theorem advance_iff (reply : (e : Ask) → Answer e) (c other : Call) (hc : Kept c)
    (hone : c.stored + other.stored ≤ 1 ∧ c.runs + other.runs ≤ 1) :
    (∀ c', c.advance py sup req reply = some c' →
      c'.stored + other.stored ≤ 1 ∧ c'.runs + other.runs ≤ 1) ↔
        ∀ ev, c.event reply = some ev → Unshared other ev := by
  cases hadvance : c.advance py sup req reply with
  | none =>
    refine iff_of_true (fun _ h => nomatch h) ?_
    intro ev hev
    rw [event_of_over py sup req reply c hadvance] at hev
    cases hev
  | some c' =>
    have hiff := took_iff reply c c' other (advance_took py sup req reply c c' hadvance)
      (kept_bounds c' (advance_kept py sup req reply c c' hadvance hc)) hone
    rw [← hiff]
    constructor
    · exact fun h => h c' rfl
    · intro h _ heq
      cases heq
      exact h

theorem one_turn_step_iff (t : Turn) (l : Label) (ht : KeptTurn t) (hone : OneTurn t) :
    (∀ t', step py sup req t l = some t' → OneTurn t') ↔ Fresh t l := by
  obtain ⟨hstored, hruns⟩ := hone
  cases l with
  | first reply =>
    rw [Fresh, ← advance_iff py sup req reply t.first t.second ht.first
      ⟨hstored, hruns⟩]
    constructor
    · intro h c hc
      have hnext := h { t with first := c } (Option.map_eq_some_iff.mpr ⟨c, hc, rfl⟩)
      exact ⟨hnext.stored, hnext.runs⟩
    · intro h t' ht'
      obtain ⟨c, hc, rfl⟩ := Option.map_eq_some_iff.mp ht'
      exact ⟨(h c hc).1, (h c hc).2⟩
  | second reply =>
    unfold Turn.stored at hstored
    unfold Turn.runs at hruns
    rw [Nat.add_comm] at hstored hruns
    rw [Fresh, ← advance_iff py sup req reply t.second t.first ht.second
      ⟨hstored, hruns⟩]
    constructor
    · intro h c hc
      have hnext := h { t with second := c } (Option.map_eq_some_iff.mpr ⟨c, hc, rfl⟩)
      rw [Nat.add_comm, Nat.add_comm c.runs]
      exact ⟨hnext.stored, hnext.runs⟩
    · intro h t' ht'
      obtain ⟨c, hc, rfl⟩ := Option.map_eq_some_iff.mp ht'
      have hnext := h c hc
      rw [Nat.add_comm, Nat.add_comm c.runs] at hnext
      exact ⟨hnext.1, hnext.2⟩
  | respond =>
    refine iff_of_true ?_ trivial
    intro t' h
    obtain ⟨_, h⟩ := Option.ite_none_right_eq_some.mp h
    cases h
    exact ⟨hstored, hruns⟩
  | give_up =>
    refine iff_of_true ?_ trivial
    intro t' h
    obtain ⟨_, h⟩ := Option.ite_none_right_eq_some.mp h
    cases h
    have hfirst := kept_bounds t.first ht.first
    exact ⟨hfirst.1, hfirst.2⟩

/-- The gateway falls back only from a call that is over and has done nothing. -/
def Clean (t : Turn) : Label → Prop
  | .give_up => (∃ answered, t.first.place = .finished answered) ∧ t.first.stored = 0 ∧
      t.first.runs = 0
  | _ => True

/-- Only one of the two calls ever does anything. -/
def Alone (t : Turn) : Prop :=
  (t.gateway ≠ .fallen_back ∧ t.second = absent) ∨
    ((∃ answered, t.first.place = .finished answered) ∧ t.first.stored = 0 ∧ t.first.runs = 0)

theorem over_still (reply : (e : Ask) → Answer e) (c : Call)
    (h : ∃ answered, c.place = .finished answered) : c.advance py sup req reply = none := by
  obtain ⟨answered, h⟩ := h
  simp only [Call.advance, h]

theorem step_alone (t : Turn) (l : Label) (t' : Turn) (h : step py sup req t l = some t')
    (hl : Clean t l) (ht : Alone t) : Alone t' := by
  cases l with
  | first reply =>
    obtain ⟨c, hc, rfl⟩ := Option.map_eq_some_iff.mp h
    rcases ht with hwaiting | ⟨hover, _, _⟩
    · exact .inl hwaiting
    · rw [over_still py sup req reply t.first hover] at hc
      cases hc
  | second reply =>
    obtain ⟨c, hc, rfl⟩ := Option.map_eq_some_iff.mp h
    rcases ht with ⟨_, habsent⟩ | hover
    · rw [habsent] at hc
      cases hc
    · exact .inr hover
  | respond =>
    obtain ⟨_, h⟩ := Option.ite_none_right_eq_some.mp h
    cases h
    rcases ht with ⟨_, habsent⟩ | hover
    · exact .inl ⟨Gateway.noConfusion, habsent⟩
    · exact .inr hover
  | give_up =>
    obtain ⟨_, h⟩ := Option.ite_none_right_eq_some.mp h
    cases h
    exact .inr hl

end Machine

theorem fresh_of_alone (t : Turn) (l : Label) (ht : Alone t) : Fresh t l := by
  cases l with
  | first reply =>
    intro ev hev
    rcases ht with ⟨_, habsent⟩ | ⟨hover, _, _⟩
    · rw [habsent]
      exact ⟨fun _ => rfl, fun _ => rfl⟩
    · obtain ⟨answered, hplace⟩ := hover
      simp only [Call.event, hplace] at hev
      cases hev
  | second reply =>
    intro ev hev
    rcases ht with ⟨_, habsent⟩ | ⟨_, hstored, hruns⟩
    · rw [habsent] at hev
      cases hev
    · exact ⟨fun _ => hstored, fun _ => hruns⟩
  | respond => trivial
  | give_up => trivial

/-- A fall back from a call that was refused before anything was stored or begun
keeps to one turn. -/
theorem one_turn_of_clean [Values] (py : Runtime) (sup : SupervisorAgent)
    (req : Supervisor.Request) (ls : List Label)
    (h : Along (step py sup req) Clean (start py sup req) ls) :
    Along (step py sup req) Fresh (start py sup req) ls :=
  along_of_invariant (fun t l t' hstep hl ht => step_alone py sup req t l t' hstep hl ht)
    (fun t l _ ht => fresh_of_alone t l ht)
    (.inl ⟨Gateway.noConfusion, rfl⟩) h

def checkoutRequest : Supervisor.Request where
  user_input := "is checkout up?".toList
  user_id := "u".toList
  session_id := "s".toList
  mode := "query".toList
  force_agent := some "aws".toList

/-- The agent has no tools, so the stream endpoint answers with `process_request`;
the gateway's read times out while the agent is at work. -/
def timedOut : List Label :=
  List.replicate 12 (.first calm) ++ .give_up :: List.replicate 7 (.second calm)

end AigentSquad.ConversationTurn
