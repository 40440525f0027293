import AigentSquad.BedrockClient

/-!
# Spend recorded once

Both engines record the usage of a completion before the guardrail sees its
text. Whatever the verdicts, each completion is recorded once and no failed
attempt is, and a refusal leaves the breaker and the attempts as they were.
-/

set_option autoImplicit false

namespace AigentSquad.RecordedSpend
open AigentSquad.PyText AigentSquad.Effects AigentSquad.CircuitBreaker AigentSquad.BedrockClient

/-- The session a call with one is charged to. -/
structure Charges (call : Call) (session : Str) : Prop where
  nonempty : session ≠ []
  charged : call.budget_session_id = some session ∨
    call.budget_session_id.getD [] = [] ∧ call.session_id = session

theorem charges_charged (call : Call) (session : Str) (hsession : Charges call session) :
    call.charged = session := by
  obtain ⟨hne, hgiven | ⟨hnone, hid⟩⟩ := hsession
  · have hfull : session.isEmpty = false := by simpa using hne
    simp [Call.charged, hgiven, hfull]
  · cases hbudget : call.budget_session_id with
    | none => simp [Call.charged, hbudget, hid]
    | some session' =>
      rw [hbudget, Option.getD_some] at hnone
      simp [Call.charged, hbudget, hnone, hid]

section Loop
variable {R A : Type} (eng : Engine R A) (call : Call) (env : Surroundings R)

/-- A completion costs its usage, a failed attempt nothing. -/
def cost (session : Str) (exchange : Exchange R) : Option Spend :=
  match exchange.reply with
  | .completion result => some ⟨session, eng.usage result⟩
  | _ => none

theorem recordings_charged (session : Str) (hsession : Charges call session) (usage : Usage) :
    recordings call usage = [⟨session, usage⟩] := by
  have hfull : session.isEmpty = false := by simpa using hsession.nonempty
  rw [recordings, charges_charged call session hsession, if_neg (by simp [hfull])]

/-- Each completion of the loop is recorded once, and nothing else. -/
theorem attempts_recorded (session : Str) (hsession : Charges call session)
    (max_retries left attempt : ℕ) (cache_control : Bool) (cache_supported : Option Bool) :
    let o := attempts eng call env max_retries left attempt cache_control cache_supported
    o.recorded = o.served.filterMap (cost eng session) := by
  induction left generalizing attempt cache_control cache_supported with
  | zero => rfl
  | succ left ih =>
    dsimp only
    cases hreply : env.replies attempt with
    | completion result =>
      rw [attempts_completion eng call env _ _ _ _ _ result hreply,
        recordings_charged call session hsession]
      rfl
    | failure exc =>
      rw [attempts_failure eng call env _ _ _ _ _ exc hreply]
      rfl
    | client_error error_code text =>
      cases hrejects : eng.rejects error_code text
      · by_cases hretry : error_code ∈ RETRYABLE ∧ attempt + 1 < max_retries
        · rw [attempts_retried eng call env _ _ _ _ _ _ _ hreply hrejects hretry]
          exact ih (attempt + 1) cache_control cache_supported
        · rw [attempts_raised eng call env _ _ _ _ _ _ _ hreply hrejects hretry]
          rfl
      · rw [attempts_rejected eng call env _ _ _ _ _ _ _ hreply hrejects]
        exact ih (attempt + 1) false (some false)

/-- What is sent depends on the replies only. -/
theorem attempts_served (env' : Surroundings R) (hreplies : env'.replies = env.replies)
    (max_retries left attempt : ℕ) (cache_control : Bool) (cache_supported : Option Bool) :
    (attempts eng call env' max_retries left attempt cache_control cache_supported).served =
      (attempts eng call env max_retries left attempt cache_control cache_supported).served := by
  induction left generalizing attempt cache_control cache_supported with
  | zero => rfl
  | succ left ih =>
    have hsame := congrFun hreplies attempt
    cases hreply : env.replies attempt with
    | completion result =>
      rw [hreply] at hsame
      rw [attempts_completion eng call env' _ _ _ _ _ result hsame,
        attempts_completion eng call env _ _ _ _ _ result hreply]
    | failure exc =>
      rw [hreply] at hsame
      rw [attempts_failure eng call env' _ _ _ _ _ exc hsame,
        attempts_failure eng call env _ _ _ _ _ exc hreply]
    | client_error error_code text =>
      rw [hreply] at hsame
      cases hrejects : eng.rejects error_code text
      · by_cases hretry : error_code ∈ RETRYABLE ∧ attempt + 1 < max_retries
        · rw [attempts_retried eng call env' _ _ _ _ _ _ _ hsame hrejects hretry,
            attempts_retried eng call env _ _ _ _ _ _ _ hreply hrejects hretry,
            Outcome.behind, ih, Outcome.behind]
        · rw [attempts_raised eng call env' _ _ _ _ _ _ _ hsame hrejects hretry,
            attempts_raised eng call env _ _ _ _ _ _ _ hreply hrejects hretry]
      · rw [attempts_rejected eng call env' _ _ _ _ _ _ _ hsame hrejects,
          attempts_rejected eng call env _ _ _ _ _ _ _ hreply hrejects, Outcome.behind, ih,
          Outcome.behind]

theorem run_recorded (session : Str) (hsession : Charges call session) (asks_input : Bool)
    (max_retries : ℕ) (cache_control : Bool) (cache_supported : Option Bool) :
    let o := run_sync eng call env asks_input max_retries cache_control cache_supported
    o.recorded = o.served.filterMap (cost eng session) := by
  by_cases hin : asks_input = true → env.input_verdict = .accepted
  · rw [run_admitted eng call env asks_input _ _ _ hin]
    exact attempts_recorded eng call env session hsession max_retries max_retries 0 _ _
  · obtain ⟨rfl, hverdict⟩ := Classical.not_imp.mp hin
    obtain ⟨exc, hrefused⟩ := run_refused eng call env max_retries cache_control cache_supported
      hverdict
    rw [hrefused]
    rfl

/-- The verdicts on the output come too late for the attempts. -/
theorem run_output_verdict (verdicts : ℕ → Str → Verdict) (asks_input : Bool)
    (max_retries : ℕ) (cache_control : Bool) (cache_supported : Option Bool) :
    (run_sync eng call { env with output_verdict := verdicts } asks_input max_retries
        cache_control cache_supported).served =
      (run_sync eng call env asks_input max_retries cache_control cache_supported).served := by
  simp only [run_sync]
  split
  · exact attempts_served eng call env { env with output_verdict := verdicts } rfl max_retries
      max_retries 0 cache_control cache_supported
  · rfl

/-- A refusal passes the breaker without being counted. -/
theorem within_refused (client : Client) (o : Outcome R A) (reason source : Str)
    (categories : List Str)
    (hresult : (within_breaker client env o).2.result =
      .error (.GuardrailBlockedError reason source categories)) :
    (within_breaker client env o).1.breaker = (admitted client.breaker env.now).1 := by
  cases hmay : (admitted client.breaker env.now).2
  · simp [within_breaker, hmay]
  · simp only [within_breaker, hmay] at hresult ⊢
    rw [if_neg (by simp)] at hresult ⊢
    dsimp only at hresult ⊢
    rw [hresult]

/-- Where the breaker does not admit the call, nothing is sent. -/
theorem within_outcome (client : Client) (o : Outcome R A) :
    let may := (admitted client.breaker env.now).2
    (within_breaker client env o).2.served = (if may then o.served else []) ∧
      (within_breaker client env o).2.recorded = (if may then o.recorded else []) := by
  cases hmay : (admitted client.breaker env.now).2 <;> simp [within_breaker, hmay]

/-- What holds of a call under any verdicts on its output. -/
structure RecordsOnce (session : Str) (breaker : Shared) (stopped : Prop)
    (run : (ℕ → Str → Verdict) → Client × Outcome R A) : Prop where
  recorded : ∀ verdicts,
    (run verdicts).2.recorded = (run verdicts).2.served.filterMap (cost eng session)
  refused : ∀ verdicts reason source categories,
    (run verdicts).2.result = .error (.GuardrailBlockedError reason source categories) →
      (run verdicts).1.breaker = breaker
  attempts : ∀ verdicts verdicts', (run verdicts).2.served = (run verdicts').2.served
  input : stopped → ∀ verdicts, (run verdicts).2.served = []

theorem run_records (client : Client) (session : Str) (hsession : Charges call session)
    (asks_input cache_control : Bool) (cache_supported : Option Bool) (stopped : Prop)
    (hstopped : stopped → asks_input = true ∧ env.input_verdict ≠ .accepted) :
    RecordsOnce eng session (admitted client.breaker env.now).1 stopped
      (fun verdicts =>
        let env' := { env with output_verdict := verdicts }
        within_breaker client env' (run_sync eng call env' asks_input client.max_retries
          cache_control cache_supported)) where
  recorded verdicts := by
    obtain ⟨hserved, hrecorded⟩ := within_outcome { env with output_verdict := verdicts } client
      (run_sync eng call { env with output_verdict := verdicts } asks_input client.max_retries
        cache_control cache_supported)
    rw [hserved, hrecorded, run_recorded eng call _ session hsession]
    cases (admitted client.breaker env.now).2 <;> rfl
  refused verdicts reason source categories hresult :=
    within_refused { env with output_verdict := verdicts } client _ reason source categories hresult
  attempts verdicts verdicts' := by
    dsimp only
    rw [(within_outcome _ client _).1, (within_outcome _ client _).1,
      run_output_verdict eng call env verdicts, run_output_verdict eng call env verdicts']
  input := by
    intro hstop verdicts
    obtain ⟨rfl, hverdict⟩ := hstopped hstop
    obtain ⟨exc, hrefused⟩ := run_refused eng call { env with output_verdict := verdicts }
      client.max_retries cache_control cache_supported hverdict
    dsimp only
    rw [(within_outcome _ client _).1, hrefused, ite_self]

end Loop

/-- Each completion is recorded once under the session that is charged, a failed attempt never;
a refusal is counted neither by the breaker nor among the attempts. -/
theorem spend_recorded_once (client : Client) (call : Call) (session : Str)
    (hsession : Charges call session) (wants_cache : Bool)
    (env : Surroundings InvokeResult) (env' : Surroundings ConverseResult) :
    RecordsOnce messages_api session (admitted client.breaker env.now).1 (input_refused call env)
        (fun verdicts => invoke client call wants_cache { env with output_verdict := verdicts }) ∧
      RecordsOnce converse_api session (admitted client.breaker env'.now).1
        (input_refused call env' ∧ call.user_text ≠ [])
        (fun verdicts => converse client call { env' with output_verdict := verdicts }) := by
  constructor
  · refine run_records messages_api call env client session hsession _ _ _ _ ?_
    rintro ⟨hasked, hverdict⟩
    exact ⟨by rw [hasked]; rfl, hverdict⟩
  · refine run_records converse_api call env' client session hsession _ _ _ _ ?_
    rintro ⟨⟨hasked, hverdict⟩, htext⟩
    have hfull : call.user_text.isEmpty = false := by simpa using htext
    exact ⟨by rw [hasked, hfull]; rfl, hverdict⟩

/-- Throttled once, then a completion. -/
def throttled_then_completed {R : Type} (result : R) : Surroundings R where
  now := 0
  later := 1
  input_verdict := .accepted
  replies i := if i = 0 then .client_error "ThrottlingException".toList "Rate exceeded".toList
    else .completion result
  output_verdict := fun _ _ => .accepted

/-- A fan-out call is charged to the session it came from. -/
def fan_out : Call := ⟨"why?".toList, "child".toList, some "parent".toList, false⟩

/-- The guardrail blocks what was completed, and its tokens are recorded all the same. -/
theorem blocked_completion_recorded :
    (invoke Client.new fan_out true
      { throttled_then_completed (⟨some 12, some 7, some "text".toList⟩ : InvokeResult) with
        output_verdict := fun _ _ => .blocked "blocked".toList [] }).2.recorded =
      [⟨"parent".toList, ⟨12, 7⟩⟩] ∧
    (converse Client.new fan_out
      { throttled_then_completed (⟨none, [.text "text".toList], some 5, none⟩ : ConverseResult) with
        output_verdict := fun _ _ => .blocked "blocked".toList [] }).2.recorded =
      [⟨"parent".toList, ⟨5, 0⟩⟩] := by
  have hrecords := spend_recorded_once Client.new fan_out "parent".toList ⟨by decide, .inl rfl⟩ true
    (throttled_then_completed ⟨some 12, some 7, some "text".toList⟩)
    (throttled_then_completed ⟨none, [.text "text".toList], some 5, none⟩)
  exact ⟨(hrecords.1.recorded _).trans rfl, (hrecords.2.recorded _).trans rfl⟩

end AigentSquad.RecordedSpend
