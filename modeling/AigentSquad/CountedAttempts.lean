import AigentSquad.BedrockClient

/-!
# What the attempts are spent on

A reply decides a call, is worth another attempt, or rejects `cache_control`.
The rejection is meant not to be counted, but `continue` moves on to the next
attempt: where no reply decides, each rejection takes the place of one retry.
-/

set_option autoImplicit false

namespace AigentSquad.CountedAttempts
open AigentSquad.PyText AigentSquad.Effects AigentSquad.BedrockClient

section Loop
variable {R A : Type} (eng : Engine R A) (call : Call) (env : Surroundings R)

def rejected : Reply R → Bool
  | .client_error error_code text => eng.rejects error_code text
  | _ => false

/-- A throttle or an error of the service. -/
def retryable : Reply R → Bool
  | .client_error error_code text => !eng.rejects error_code text && error_code ∈ RETRYABLE
  | _ => false

/-- A completion, or an error that is not retried. -/
def decides (reply : Reply R) : Bool := !rejected eng reply && !retryable eng reply

def Outcome.Failed (o : Outcome R A) : Prop := ∃ exc, o.result = .error exc

/-- What is left to the loop after a reply that does not decide. -/
theorem attempts_cases (max_retries left attempt : ℕ) (cache_control : Bool)
    (cache_supported : Option Bool) (hleft : attempt + (left + 1) = max_retries) :
    let o := attempts eng call env max_retries (left + 1) attempt cache_control cache_supported
    let here : Exchange R := ⟨cache_control, env.replies attempt⟩
    (decides eng (env.replies attempt) = true ∧ o.served = [here]) ∨
      (decides eng (env.replies attempt) = false ∧ ∃ sent known,
        let rest := attempts eng call env max_retries left (attempt + 1) sent known
        o.served = here :: rest.served ∧ (Outcome.Failed o ↔ Outcome.Failed rest)) := by
  intro o here
  cases hreply : env.replies attempt with
  | completion result =>
    left
    refine ⟨rfl, ?_⟩
    simp only [o, here, attempts_completion eng call env _ _ _ _ _ result hreply, hreply]
  | failure exc =>
    left
    refine ⟨rfl, ?_⟩
    simp only [o, here, attempts_failure eng call env _ _ _ _ _ exc hreply, hreply]
  | client_error error_code text =>
    cases hrejects : eng.rejects error_code text with
    | true =>
      right
      refine ⟨by simp [decides, rejected, hrejects], false, some false, ?_⟩
      have ho := attempts_rejected eng call env max_retries left attempt cache_control
        cache_supported error_code text hreply hrejects
      simp [o, here, ho, hreply, Outcome.behind, Outcome.Failed]
    | false =>
      by_cases hretry : error_code ∈ RETRYABLE
      · right
        refine ⟨by simp [decides, retryable, hrejects, hretry], cache_control, cache_supported, ?_⟩
        by_cases hmore : attempt + 1 < max_retries
        · have ho := attempts_retried eng call env max_retries left attempt cache_control
            cache_supported error_code text hreply hrejects ⟨hretry, hmore⟩
          simp [o, here, ho, hreply, Outcome.behind, Outcome.Failed]
        · -- the last attempt: the error is raised, as the exhausted loop would
          have hlast : left = 0 := by omega
          subst hlast
          have ho := attempts_raised eng call env max_retries 0 attempt cache_control
            cache_supported error_code text hreply hrejects (fun h => hmore h.2)
          simp [o, here, ho, hreply, attempts, Outcome.Failed]
      · left
        refine ⟨by simp [decides, rejected, retryable, hrejects, hretry], ?_⟩
        have ho := attempts_raised eng call env max_retries left attempt cache_control
          cache_supported error_code text hreply hrejects (fun h => hretry h.1)
        simp only [o, here, ho, hreply]

/-- Where a reply decides, the last request is the one it answers. -/
theorem attempts_decided (max_retries left attempt : ℕ) (cache_control : Bool)
    (cache_supported : Option Bool) (hleft : attempt + left = max_retries)
    (hdecides : ∃ i ∈ List.range' attempt left, decides eng (env.replies i) = true) :
    ∃ last, (attempts eng call env max_retries left attempt cache_control
      cache_supported).served.getLast? = some last ∧ decides eng last.reply = true := by
  induction left generalizing attempt cache_control cache_supported with
  | zero => simp at hdecides
  | succ left ih =>
    obtain ⟨hhere, hserved⟩ | ⟨hhere, sent, known, hserved, -⟩ :=
      attempts_cases eng call env max_retries left attempt cache_control cache_supported hleft
    · exact ⟨_, by rw [hserved, List.getLast?_singleton], hhere⟩
    · have hlater : ∃ i ∈ List.range' (attempt + 1) left, decides eng (env.replies i) = true := by
        rw [List.range'_succ] at hdecides
        simpa [hhere] using hdecides
      obtain ⟨last, hlast, hdone⟩ := ih (attempt + 1) sent known (by omega) hlater
      refine ⟨last, ?_, hdone⟩
      rw [hserved, List.getLast?_cons, hlast]
      rfl

/-- Where none does, every attempt is made and the call fails. -/
theorem attempts_undecided (max_retries left attempt : ℕ) (cache_control : Bool)
    (cache_supported : Option Bool) (hleft : attempt + left = max_retries)
    (hnone : ∀ i ∈ List.range' attempt left, decides eng (env.replies i) = false) :
    let o := attempts eng call env max_retries left attempt cache_control cache_supported
    o.served.map Exchange.reply = (List.range' attempt left).map env.replies ∧
      Outcome.Failed o := by
  induction left generalizing attempt cache_control cache_supported with
  | zero => exact ⟨rfl, _, rfl⟩
  | succ left ih =>
    rw [List.range'_succ, List.forall_mem_cons] at hnone
    obtain ⟨hhere, -⟩ | ⟨-, sent, known, hserved, hfails⟩ :=
      attempts_cases eng call env max_retries left attempt cache_control cache_supported hleft
    · rw [hnone.1] at hhere
      cases hhere
    · obtain ⟨hreplies, hfailed⟩ := ih (attempt + 1) sent known (by omega) hnone.2
      refine ⟨?_, hfails.mpr hfailed⟩
      rw [hserved, List.map_cons, hreplies, List.range'_succ, List.map_cons]

/-- Every attempt went to a throttle or an error of the service, or the last reply decided. -/
def Accounted (max_retries : ℕ) (served : List (Exchange R)) : Prop :=
  max_retries ≤ served.countP (fun exchange => retryable eng exchange.reply) ∨
    ∃ last, served.getLast? = some last ∧ decides eng last.reply = true

theorem undecided_retryable (reply : Reply R) (hnot : decides eng reply = false) :
    retryable eng reply = true ↔ rejected eng reply = false := by
  cases reply with
  | completion result => cases hnot
  | failure exc => cases hnot
  | client_error error_code text =>
    cases hrejects : eng.rejects error_code text
    · simpa [decides, retryable, rejected, hrejects] using hnot
    · simp [retryable, rejected, hrejects]

/-- Without a deciding reply, the attempts are accounted for when none was rejected. -/
theorem undecided_accounted (max_retries : ℕ) (cache_control : Bool)
    (cache_supported : Option Bool)
    (hnone : ∀ i < max_retries, decides eng (env.replies i) = false) :
    let o := attempts eng call env max_retries max_retries 0 cache_control cache_supported
    Accounted eng max_retries o.served ↔
      ∀ i < max_retries, rejected eng (env.replies i) = false := by
  intro o
  obtain ⟨hreplies, -⟩ := attempts_undecided eng call env max_retries max_retries 0 cache_control
    cache_supported (by omega) (by simpa using hnone)
  have hcount : o.served.countP (fun exchange => retryable eng exchange.reply) =
      (List.range max_retries).countP (fun i => retryable eng (env.replies i)) := by
    calc _ = (o.served.map Exchange.reply).countP (retryable eng) := by
          rw [List.countP_map]
          rfl
      _ = _ := by
          rw [hreplies, List.countP_map, List.range_eq_range']
          rfl
  have hlast : ¬ ∃ last, o.served.getLast? = some last ∧ decides eng last.reply = true := by
    rintro ⟨last, hlast, hdecides⟩
    have hmem : last.reply ∈ o.served.map Exchange.reply :=
      List.mem_map_of_mem (List.mem_of_getLast? hlast)
    rw [hreplies] at hmem
    obtain ⟨i, hi, heq⟩ := List.mem_map.mp hmem
    have hfalse := hnone i (by simpa using hi)
    rw [heq, hdecides] at hfalse
    cases hfalse
  have hlength : (List.range max_retries).countP (fun i => retryable eng (env.replies i)) ≤
      max_retries := List.countP_le_length.trans_eq List.length_range
  have hall : max_retries ≤ (List.range max_retries).countP
      (fun i => retryable eng (env.replies i)) ↔
        ∀ i < max_retries, retryable eng (env.replies i) = true := by
    calc _ ↔ (List.range max_retries).countP (fun i => retryable eng (env.replies i)) =
          (List.range max_retries).length := by
          rw [List.length_range]
          exact ⟨hlength.antisymm, Eq.ge⟩
      _ ↔ _ := List.countP_eq_length.trans (by simp)
  rw [Accounted, hcount, or_iff_left hlast, hall]
  exact forall₂_congr fun i hi => undecided_retryable eng _ (hnone i hi)

/-- The call fails on its own account, or the rejections left it attempts to make. -/
theorem attempts_accounted_iff (max_retries : ℕ) (cache_control : Bool)
    (cache_supported : Option Bool) :
    let o := attempts eng call env max_retries max_retries 0 cache_control cache_supported
    (Outcome.Failed o → Accounted eng max_retries o.served) ↔
      (∀ i < max_retries, rejected eng (env.replies i) = false) ∨
        ∃ i < max_retries, decides eng (env.replies i) = true := by
  intro o
  by_cases hdecides : ∃ i < max_retries, decides eng (env.replies i) = true
  · have hlast := attempts_decided eng call env max_retries max_retries 0 cache_control
      cache_supported (by omega) (by simpa using hdecides)
    exact iff_of_true (fun _ => .inr hlast) (.inr hdecides)
  · have hnone : ∀ i < max_retries, decides eng (env.replies i) = false := by
      simpa using hdecides
    have hfailed := (attempts_undecided eng call env max_retries max_retries 0 cache_control
      cache_supported (by omega) (by simpa using hnone)).2
    rw [or_iff_left hdecides, imp_iff_right hfailed]
    exact undecided_accounted eng call env max_retries cache_control cache_supported hnone

end Loop

/-! ## The two engines -/

/-- A failed call met the guardrail, or its attempts went to throttles and errors of the
service or up to a reply that decided, unless only rejections stood in the way. -/
theorem attempts_spent_iff (client : Client) (call : Call) (wants_cache : Bool)
    (env : Surroundings InvokeResult) :
    (Outcome.Failed (invoke_sync client call wants_cache env) → input_refused call env ∨
      Accounted messages_api client.max_retries (invoke_sync client call wants_cache env).served) ↔
    input_refused call env ∨
      (∀ i < client.max_retries, rejected messages_api (env.replies i) = false) ∨
      ∃ i < client.max_retries, decides messages_api (env.replies i) = true := by
  by_cases hin : input_refused call env
  · exact iff_of_true (fun _ => .inl hin) (.inl hin)
  · rw [or_iff_right hin, or_iff_right hin, invoke_sync,
      run_admitted messages_api call env _ _ _ _ (by simpa [input_refused] using hin)]
    exact attempts_accounted_iff messages_api call env client.max_retries _ _

/-- Throttled twice, then the marker of the cache is rejected. -/
def throttled_then_rejected : Surroundings InvokeResult where
  now := 0
  later := 1
  input_verdict := .accepted
  replies i := if i < 2 then .client_error "ThrottlingException".toList "Rate exceeded".toList
    else .client_error "ValidationException".toList "cache_control: not permitted".toList
  output_verdict := fun _ _ => .accepted

/-- Two throttles of three, and the call is given up. -/
theorem rejection_on_last_attempt :
    ¬ ∀ (client : Client) (call : Call) (wants_cache : Bool) (env : Surroundings InvokeResult),
      Outcome.Failed (invoke_sync client call wants_cache env) → input_refused call env ∨
        Accounted messages_api client.max_retries
          (invoke_sync client call wants_cache env).served := by
  intro hspent
  obtain hin | hcount | ⟨last, hlast, hdecides⟩ := hspent Client.new ⟨[], [], none, false⟩ true
    throttled_then_rejected ⟨_, rfl⟩
  · exact hin.2 rfl
  · revert hcount
    decide
  · cases hlast
    cases hdecides

/-- The other engine has no rejection to meet. -/
theorem converse_accounted (client : Client) (call : Call) (env : Surroundings ConverseResult)
    (hfailed : Outcome.Failed (converse_sync client call env)) :
    input_refused call env ∨
      Accounted converse_api client.max_retries (converse_sync client call env).served := by
  by_cases hin : input_refused call env
  · exact .inl hin
  · right
    have hadmitted : converse_sync client call env = attempts converse_api call env
        client.max_retries client.max_retries 0 false client.cache_supported := by
      refine run_admitted converse_api call env _ _ _ _ fun hasks => ?_
      have hskip : call.skip_input_guardrail = false := by
        simpa using (Bool.and_eq_true_iff.mp hasks).1
      simpa [input_refused, hskip] using hin
    rw [hadmitted] at hfailed ⊢
    refine (attempts_accounted_iff converse_api call env client.max_retries false
      client.cache_supported).mpr (.inl fun i _ => ?_) hfailed
    cases env.replies i <;> rfl

end AigentSquad.CountedAttempts
