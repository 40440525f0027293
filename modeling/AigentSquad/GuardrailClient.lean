import AigentSquad.EvidenceExchange
import AigentSquad.RequestScope
import AigentSquad.Sha256

/-!
# The guardrail client

`GuardrailClient.apply` asks a service about a text. It raises the categories of an
intervention and logs the digest of the text. The service's reply quotes what it
matched; none of that gets past the client.
-/

set_option autoImplicit false

namespace AigentSquad.GuardrailClient
open AigentSquad.PyText AigentSquad.PyJson AigentSquad.Interaction AigentSquad.Postcondition
open AigentSquad.Effects AigentSquad.EvidenceExchange AigentSquad.RunInvestigation
open AigentSquad.Supervisor AigentSquad.StoredHistory AigentSquad.RequestScope

/-- `_digest` -/
def digest (text : Str) : Str := (Sha256.hexdigest text).take 12

/-- `d.get(key, default)` -/
def get_key (j : Json) (key : String) (default : Json) : Except Exn Json :=
  match j with
  | .obj pairs => .ok (get_or pairs key default)
  | _ => .error .AttributeError

def items (j : Json) : Except Exn (List Json) :=
  match iterated j with
  | some xs => .ok xs
  | none => .error .TypeError

/-- The items of `j or []`. -/
def items_or_none (j : Json) : Except Exn (List Json) := if j.truthy then items j else .ok []

def among (actions : List String) : Json → Bool
  | .str s => actions.any (fun action => s = action.toList)
  | _ => false

/-- What the four policies of an assessment differ in. -/
structure Policy where
  policy : String
  entries : String
  actions : List String
  kind : String
  /-- the key of the label; a word has none -/
  label : Option String

def topics : Policy := ⟨"topicPolicy", "topics", ["BLOCKED"], "topic:", some "name"⟩

def filters : Policy := ⟨"contentPolicy", "filters", ["BLOCKED"], "content:", some "type"⟩

def piiEntities : Policy :=
  ⟨"sensitiveInformationPolicy", "piiEntities", ["BLOCKED", "ANONYMIZED"], "pii:", some "type"⟩

def customWords : Policy := ⟨"wordPolicy", "customWords", ["BLOCKED"], "word:custom", none⟩

section Categories
variable [Values]

def category (p : Policy) (entry : Json) : Except Exn Str :=
  match p.label with
  | some key => do
    let label ← get_key entry key (.str "unknown".toList)
    .ok (p.kind.toList ++ Values.str label)
  | none => .ok p.kind.toList

def entry_categories (p : Policy) (entry : Json) : Except Exn (List Str) := do
  let action ← get_key entry "action" .null
  if among p.actions action then do
    let found ← category p entry
    .ok [found]
  else .ok []

def policy_categories (assessment : Json) (p : Policy) : Except Exn (List Str) := do
  let policy ← get_key assessment p.policy (.obj [])
  let entries ← get_key policy p.entries (.arr [])
  let entries ← items entries
  let found ← entries.mapM (entry_categories p)
  .ok found.flatten

def POLICIES : List Policy := [topics, filters, piiEntities, customWords]

def assessment_categories (assessment : Json) : Except Exn (List Str) := do
  let found ← POLICIES.mapM (policy_categories assessment)
  .ok found.flatten

def extract_categories (assessments : Json) : Except Exn (List Str) := do
  let assessments ← items_or_none assessments
  let found ← assessments.mapM assessment_categories
  .ok found.flatten

end Categories

structure Client where
  enabled : Bool
  guardrail_id : Str

/-- What `apply_guardrail` comes back with. -/
inductive ServiceReply where
  | response (pairs : List (Str × Json))
  /-- `ClientError` and `BotoCoreError` -/
  | unavailable (error_type : Str)
  | raised (exc : Exn)

structure AuditEvent where
  event : Str
  guardrail_source : Str
  ids : Ids
  text_digest : Str
  categories : List Str := []
  error_type : Option Str := none
deriving DecidableEq

def refused_unavailable (source : Str) : Except Exn Unit :=
  .error (.GuardrailBlockedError "unavailable".toList source [])

def intervened (pairs : List (Str × Json)) : Bool :=
  among ["GUARDRAIL_INTERVENED"] (get_or pairs "action" .null)

section Apply
variable [Values]

/-- The audit log, and what is raised. -/
def apply (g : Client) (text source : Str) (ids : Ids) (reply : ServiceReply) :
    List AuditEvent × Except Exn Unit :=
  let audit (event : String) : AuditEvent := ⟨event.toList, source, ids, digest text, [], none⟩
  if !g.enabled then ([], .ok ())
  else if g.guardrail_id.isEmpty then
    ([audit "guardrail_misconfigured"], refused_unavailable source)
  else
    match reply with
    | .unavailable error_type =>
      ([{ audit "guardrail_unavailable" with error_type := some error_type }],
        refused_unavailable source)
    | .raised exc => ([], .error exc)
    | .response pairs =>
      if intervened pairs then
        match extract_categories (get_or pairs "assessments" (.arr [])) with
        | .ok categories => ([{ audit "guardrail_block" with categories := categories }],
            .error (.GuardrailBlockedError "blocked".toList source categories))
        | .error exc => ([], .error exc)
      else ([], .ok ())

end Apply

/-! ## What of a reply counts -/

/-- The first entries under some keys, each read in its own way. -/
def only (keys : List (String × (Json → Json))) (pairs : List (Str × Json)) : List (Str × Json) :=
  keys.filterMap (fun key => (Json.get pairs key.1.toList).map (fun j => (key.1.toList, key.2 j)))

/-- A dict as far as some of its entries count; nothing of another value does. -/
def view (keys : List (String × (Json → Json))) : Json → Json
  | .obj pairs => .obj (only keys pairs)
  | _ => .null

/-- The items of a loop, or a value that has none. -/
def view_items (f : Json → Json) (j : Json) : Json :=
  match iterated j with
  | some xs => .arr (xs.map f)
  | none => .bool true

/-- The action and the label of an entry. -/
def entry_labels : Json → Json := view [("action", id), ("name", id), ("type", id)]

def policy_labels (p : Policy) : Json → Json := view [(p.entries, view_items entry_labels)]

def assessment_labels : Json → Json := view (POLICIES.map (fun p => (p.policy, policy_labels p)))

def assessments_labels (j : Json) : Json :=
  if j.truthy then view_items assessment_labels j else .arr []

/-- A reply without the matches it quotes. -/
def labels : ServiceReply → ServiceReply
  | .response pairs => .response (only [("action", id), ("assessments", assessments_labels)] pairs)
  | reply => reply

theorem json_get_cons (k key : Str) (j : Json) (pairs : List (Str × Json)) :
    Json.get ((k, j) :: pairs) key = if k = key then some j else Json.get pairs key :=
  Dict.get_cons k key j pairs

theorem only_cons (first : String × (Json → Json)) (keys : List (String × (Json → Json)))
    (pairs : List (Str × Json)) :
    only (first :: keys) pairs = ((Json.get pairs first.1.toList).map
      (fun j => (first.1.toList, first.2 j))).toList ++ only keys pairs := by
  unfold only
  rw [List.filterMap_cons]
  cases Json.get pairs first.1.toList <;> rfl

theorem get_only_cons_ne {first : String × (Json → Json)} {key : String} (hne : first.1 ≠ key)
    (keys : List (String × (Json → Json))) (pairs : List (Str × Json)) :
    Json.get (only (first :: keys) pairs) key.toList = Json.get (only keys pairs) key.toList := by
  have hskip : first.1.toList ≠ key.toList := fun heq => hne (String.toList_inj.mp heq)
  rw [only_cons]
  cases Json.get pairs first.1.toList with
  | none => rfl
  | some j => exact (json_get_cons _ _ _ _).trans (if_neg hskip)

theorem get_only_absent {keys : List (String × (Json → Json))} {key : String}
    (hkey : key ∉ keys.map Prod.fst) (pairs : List (Str × Json)) :
    Json.get (only keys pairs) key.toList = none := by
  induction keys with
  | nil => rfl
  | cons first keys ih =>
    obtain ⟨hne, hrest⟩ := not_or.mp (fun h => hkey (List.mem_cons.mpr h))
    rw [get_only_cons_ne (Ne.symm hne)]
    exact ih hrest

theorem get_only {keys : List (String × (Json → Json))} {key : String} {f : Json → Json}
    (hkeys : (keys.map Prod.fst).Nodup) (hmem : (key, f) ∈ keys) (pairs : List (Str × Json)) :
    Json.get (only keys pairs) key.toList = (Json.get pairs key.toList).map f := by
  induction keys with
  | nil => cases hmem
  | cons first keys ih =>
    rw [List.map_cons, List.nodup_cons] at hkeys
    obtain ⟨hfirst, hrest⟩ := hkeys
    rcases List.mem_cons.mp hmem with rfl | hmem
    · rw [only_cons]
      cases hget : Json.get pairs key.toList with
      | none => exact get_only_absent hfirst pairs
      | some j => exact (json_get_cons _ _ _ _).trans (if_pos rfl)
    · have hne : first.1 ≠ key := by
        intro heq
        rw [heq] at hfirst
        exact hfirst (List.mem_map_of_mem hmem)
      rw [get_only_cons_ne hne]
      exact ih hrest hmem

/-- What is read of a view, past its own default, is what is read of the value. -/
theorem get_key_view {keys : List (String × (Json → Json))} {key : String} {f : Json → Json}
    (hkeys : (keys.map Prod.fst).Nodup) (hmem : (key, f) ∈ keys) (j default : Json)
    (hdefault : f default = default) :
    get_key (view keys j) key default = (get_key j key default).map f := by
  cases j with
  | obj pairs =>
    show Except.ok _ = Except.ok _
    unfold get_or
    rw [get_only hkeys hmem]
    cases Json.get pairs key.toList with
    | none => exact congrArg Except.ok hdefault.symm
    | some j => rfl
  | _ => rfl

theorem items_view (f : Json → Json) (j : Json) :
    items (view_items f j) = (items j).map (List.map f) := by
  unfold view_items items
  cases iterated j with
  | none => rfl
  | some xs => rfl

theorem map_bind {α β γ : Type} (x : Except Exn α) (f : α → β) (g : β → Except Exn γ) :
    (x.map f >>= g) = (x >>= fun a => g (f a)) := by
  cases x <;> rfl

theorem items_or_none_view (j : Json) :
    items_or_none (assessments_labels j) = (items_or_none j).map (List.map assessment_labels) := by
  unfold items_or_none assessments_labels
  cases j.truthy with
  | false => rfl
  | true =>
    rw [if_pos rfl, if_pos rfl, ← items_view]
    unfold view_items
    cases iterated j with
    | none => rfl
    | some xs => cases xs <;> rfl

theorem mapM_view {f : Json → Json} {g : Json → Except Exn (List Str)}
    (h : ∀ j, g (f j) = g j) (xs : List Json) : (xs.map f).mapM g = xs.mapM g := by
  induction xs with
  | nil => rfl
  | cons x xs ih => rw [List.map_cons, List.mapM_cons, List.mapM_cons, h, ih]

theorem policies_labelled {p : Policy} (hp : p ∈ POLICIES) :
    p.label = none ∨ p.label = some "name" ∨ p.label = some "type" := by
  simp only [POLICIES, List.mem_cons, List.not_mem_nil, or_false] at hp
  rcases hp with rfl | rfl | rfl | rfl
  · exact .inr (.inl rfl)
  · exact .inr (.inr rfl)
  · exact .inr (.inr rfl)
  · exact .inl rfl

theorem entry_key (j default : Json) {key : String} (hkey : key ∈ ["action", "name", "type"]) :
    get_key (entry_labels j) key default = get_key j key default := by
  have hmem : (key, (id : Json → Json)) ∈ [("action", id), ("name", id), ("type", id)] := by
    simpa using hkey
  rw [entry_labels, get_key_view (by decide) hmem j default rfl]
  cases get_key j key default <;> rfl

section Views
variable [Values]

theorem entry_view {p : Policy} (hp : p ∈ POLICIES) (entry : Json) :
    entry_categories p (entry_labels entry) = entry_categories p entry := by
  have hcategory : category p (entry_labels entry) = category p entry := by
    unfold category
    rcases policies_labelled hp with h | h | h
    · rw [h]
    · rw [h]
      dsimp only
      rw [entry_key entry _ (by decide)]
    · rw [h]
      dsimp only
      rw [entry_key entry _ (by decide)]
  unfold entry_categories
  rw [entry_key entry _ (by decide), hcategory]

theorem policy_view {p : Policy} (hp : p ∈ POLICIES) (assessment : Json) :
    policy_categories (assessment_labels assessment) p = policy_categories assessment p := by
  have hmem : (p.policy, policy_labels p) ∈ POLICIES.map (fun p => (p.policy, policy_labels p)) :=
    List.mem_map_of_mem hp
  unfold policy_categories
  rw [assessment_labels, get_key_view (by decide) hmem assessment _ rfl, map_bind]
  refine congrArg (Bind.bind _) (funext fun policy => ?_)
  rw [policy_labels, get_key_view (by simp) List.mem_cons_self policy _ rfl, map_bind]
  refine congrArg (Bind.bind _) (funext fun entries => ?_)
  rw [items_view, map_bind]
  refine congrArg (Bind.bind _) (funext fun entries => ?_)
  rw [mapM_view (entry_view hp)]

theorem assessment_view (assessment : Json) :
    assessment_categories (assessment_labels assessment) = assessment_categories assessment := by
  have hall : ∀ ps : List Policy, (∀ p ∈ ps, p ∈ POLICIES) →
      ps.mapM (policy_categories (assessment_labels assessment)) =
        ps.mapM (policy_categories assessment) := by
    intro ps hps
    induction ps with
    | nil => rfl
    | cons p ps ih =>
      rw [List.mapM_cons, List.mapM_cons, policy_view (hps p List.mem_cons_self),
        ih (fun q hq => hps q (List.mem_cons_of_mem p hq))]
  unfold assessment_categories
  rw [hall POLICIES (fun _ hp => hp)]

theorem extract_view (assessments : Json) :
    extract_categories (assessments_labels assessments) = extract_categories assessments := by
  unfold extract_categories
  rw [items_or_none_view, map_bind]
  refine congrArg (Bind.bind _) (funext fun xs => ?_)
  rw [mapM_view assessment_view]

theorem apply_view (g : Client) (text source : Str) (ids : Ids) (reply : ServiceReply) :
    apply g text source ids (labels reply) = apply g text source ids reply := by
  cases reply with
  | unavailable error_type => rfl
  | raised exc => rfl
  | response pairs =>
    have hkeys : ([("action", id), ("assessments", assessments_labels)].map Prod.fst).Nodup := by
      decide
    have haction : intervened (only [("action", id), ("assessments", assessments_labels)] pairs) =
        intervened pairs := by
      unfold intervened get_or
      rw [get_only hkeys List.mem_cons_self, Option.map_id]
      rfl
    have hassessments : extract_categories (get_or (only [("action", id),
        ("assessments", assessments_labels)] pairs) "assessments" (.arr [])) =
          extract_categories (get_or pairs "assessments" (.arr [])) := by
      unfold get_or
      rw [get_only hkeys (List.mem_cons_of_mem _ List.mem_cons_self)]
      cases Json.get pairs "assessments".toList with
      | none => rfl
      | some assessments => exact extract_view assessments
    unfold apply labels
    dsimp only
    rw [haction, hassessments]

theorem apply_digest (g : Client) (text text' source : Str) (ids : Ids) (reply : ServiceReply) :
    apply g text' source ids reply =
      ((apply g text source ids reply).1.map (fun e => { e with text_digest := digest text' }),
        (apply g text source ids reply).2) := by
  unfold apply
  dsimp only
  split
  · rfl
  · split
    · rfl
    · cases reply with
      | unavailable error_type => rfl
      | raised exc => rfl
      | response pairs =>
        dsimp only
        split
        · split <;> rfl
        · rfl

end Views

/-! ## Requests behind the client -/

/-- What a caller of `apply` sees. -/
def verdict : Except Exn Unit → Verdict
  | .ok () => .accepted
  | .error (.GuardrailBlockedError reason _ categories) => .blocked reason categories
  | .error exc => .error exc

def source_name : Source → Str
  | .INPUT => "INPUT".toList
  | .OUTPUT => "OUTPUT".toList

structure Evaluation where
  text : Str
  source : Source
  ids : Ids
  reply : ServiceReply

def Evaluation.verdict [Values] (g : Client) (c : Evaluation) : Verdict :=
  GuardrailClient.verdict (apply g c.text (source_name c.source) c.ids c.reply).2

def guard_event : Sigma Answer → Option (Str × Source × Ids × Verdict)
  | ⟨.guardrail_apply text source ids, verdict⟩ => some (text, source, ids, verdict)
  | _ => none

/-- The guardrail's verdicts in a run are, one by one, those of the client. -/
def Evaluated [Values] (g : Client) (tr : List Ev) (log : List Evaluation) : Prop :=
  (asks tr).filterMap guard_event =
    log.map (fun c => (c.text, c.source, c.ids, c.verdict g))

/-- The service let the text pass, if it is asked at all. -/
def Passed (g : Client) (c : Evaluation) : Prop :=
  g.enabled = true → g.guardrail_id ≠ [] ∧
    ∃ pairs, c.reply = .response pairs ∧ intervened pairs = false

theorem accepted_passed [Values] (g : Client) (c : Evaluation)
    (h : c.verdict g = .accepted) : Passed g c := by
  have hraised : ∀ {exc : Exn}, verdict (.error exc) ≠ .accepted := by
    intro exc
    cases exc <;> nofun
  intro henabled
  unfold Evaluation.verdict apply at h
  rw [henabled] at h
  dsimp only [Bool.not_true, Bool.false_eq_true, if_false] at h
  by_cases hid : g.guardrail_id.isEmpty = true
  · rw [if_pos hid] at h
    exact absurd h hraised
  · rw [if_neg hid] at h
    refine ⟨fun hnil => hid (List.isEmpty_iff.mpr hnil), ?_⟩
    cases hreply : c.reply with
    | unavailable error_type =>
      rw [hreply] at h
      exact absurd h hraised
    | raised exc =>
      rw [hreply] at h
      exact absurd h hraised
    | response pairs =>
      refine ⟨pairs, rfl, ?_⟩
      rw [hreply] at h
      dsimp only at h
      by_cases hblock : intervened pairs = true
      · rw [if_pos hblock] at h
        cases hcategories : extract_categories (get_or pairs "assessments" (.arr [])) with
        | ok categories =>
          rw [hcategories] at h
          exact absurd h hraised
        | error exc =>
          rw [hcategories] at h
          exact absurd h hraised
      · exact Bool.eq_false_of_not_eq_true hblock

section Entry
variable {req : Supervisor.Request}

/-- What is asked of a request before it is admitted. -/
def Entry : Ask → Prop
  | .check_budget _ => True
  | .scan_input _ _ => True
  | .guardrail_apply _ _ _ => True
  | _ => False

def opening (req : Supervisor.Request) (text : Str) : List (Sigma Answer) :=
  [⟨.check_budget req.session_id, Except.ok ()⟩,
    ⟨.scan_input req.user_input ⟨"supervisor".toList, req.user_id, req.session_id⟩, Except.ok text⟩,
    ⟨.guardrail_apply text .INPUT ⟨"ingress".toList, req.user_id, req.session_id⟩,
      Verdict.accepted⟩]

/-- A request is stopped on entry, or goes on behind the scan and the guardrail. -/
def Opened (req : Supervisor.Request) (tr : List Ev) : Prop :=
  (∀ s ∈ asks tr, Entry s.1) ∨ ∃ text rest, asks tr = opening req text ++ rest

theorem ingress_entry : AsksOnly Entry (ingress req) := by
  apply asksOnly_bind
  · exact ⟨trivial, fun _ => trivial⟩
  · intro user_input
    apply asksOnly_bind
    · exact ⟨trivial, fun _ => trivial⟩
    · exact fun _ => asksOnly_bind Entry _ _ trivial (fun _ => trivial)

theorem ingress_opens {text : Str} {s : List Ev} (h : Path (ingress req) s (.ok text)) :
    asks s = (opening req text).tail := by
  obtain ⟨scanned, s₁, t₁, rfl, hscan, h₁⟩ := Path.of_bind_ok h
  obtain ⟨verdict, s₂, t₂, rfl, hguard, h₂⟩ := Path.of_bind_ok h₁
  obtain ⟨_, s₃, t₃, rfl, hadmitted, hdone⟩ := Path.of_bind_ok h₂
  obtain ⟨rfl, htext⟩ := (path_done _ _ _).mp hdone
  obtain ⟨answer, u, rfl, hscanned⟩ := (path_ask _ _ _ _).mp hscan
  obtain ⟨rfl, hanswer⟩ := (path_done _ _ _).mp hscanned
  obtain ⟨v, w, rfl, hverdict⟩ := (path_ask _ _ _ _).mp hguard
  obtain ⟨rfl, hv⟩ := (path_done _ _ _).mp hverdict
  obtain ⟨rfl, hadmits⟩ := (path_done _ _ _).mp hadmitted
  cases htext
  cases hv
  have haccepted : verdict = Verdict.accepted := by
    unfold admitted at hadmits
    split at hadmits
    · rfl
    · cases hadmits
    · cases hadmits
  rw [← hanswer, haccepted]
  rfl

/-- Whatever follows the entry. -/
theorem opened_after {α : Type} {exceeded : α} {p : Str → M α} {tr : List Ev} {r : Except Exn α}
    (h : Path ((check_budget req).bind (within_budget exceeded ((ingress req).bind p))) tr r) :
    Opened req tr := by
  obtain ⟨budget, t, rfl, ht⟩ := (path_ask _ _ _ _).mp h
  have hstopped {x : Except Exn α} (hdone : Path (.done x : M α) t r) :
      Opened req (.asked (.check_budget req.session_id) budget :: t) := by
    obtain ⟨rfl, _⟩ := (path_done _ _ _).mp hdone
    refine .inl (fun s hs => ?_)
    rw [List.mem_singleton.mp hs]
    trivial
  change Path (within_budget exceeded ((ingress req).bind p) budget) t r at ht
  unfold within_budget at ht
  split at ht
  · exact hstopped ht
  · exact hstopped ht
  · rcases (path_bind (ingress req) p t r).mp ht with
      ⟨exc, hraised, _⟩ | ⟨text, u, v, rfl, hingress, _⟩
    · refine .inl (fun s hs => ?_)
      rcases List.mem_cons.mp hs with rfl | hs
      · trivial
      · exact asksOnly_path ingress_entry hraised s hs
    · refine .inr ⟨text, asks v, ?_⟩
      show _ :: asks (u ++ v) = _
      rw [asks_append, ingress_opens hingress]
      rfl

variable {py : Runtime} {sup : SupervisorAgent}

theorem recover_silent {exc : Exn} {t : List Ev} {r : Except Exn Reply}
    (h : Path (recover exc) t r) : t = [] := by
  cases exc with
  | _ => exact ((path_done _ _ _).mp h).1

theorem request_opened [Values] {tr : List Ev} {r : Except Exn Reply}
    (h : Path (Supervisor.process_request py sup req) tr r) : Opened req tr := by
  rcases (path_handle _ _ _ _).mp h with ⟨reply, hbody, rfl⟩ | ⟨exc, s, t, rfl, hbody, hrecover⟩
  · exact opened_after hbody
  · rw [recover_silent hrecover, List.append_nil]
    exact opened_after hbody

theorem stream_opened {tr : List Ev} {r : Except Exn Bool}
    (h : Path (stream_consumed py sup req) tr r) : Opened req tr := by
  have hbudget : Path ((check_budget req).bind (fun budget => consumed (within_budget none
      (stream_attended py sup req) budget))) tr r := (consumed_bind _ _) ▸ h
  have hwithin (budget : Except Exn Unit) :
      consumed (within_budget none (stream_attended py sup req) budget) =
        within_budget false (consumed (stream_attended py sup req)) budget := by
    cases budget with
    | ok _ => rfl
    | error exc => cases exc <;> rfl
  rw [funext hwithin, stream_attended] at hbudget
  exact opened_after ((consumed_bind (ingress req) _) ▸ hbudget)

/-- Nothing of the request is asked, or only behind a text that passed. -/
def Behind (g : Client) (req : Supervisor.Request) (tr : List Ev) (log : List Evaluation) : Prop :=
  (∀ s ∈ asks tr, Entry s.1) ∨
    ∃ text rest c later, asks tr = opening req text ++ rest ∧ log = c :: later ∧
      c.text = text ∧ c.source = .INPUT ∧ Passed g c

theorem behind_of_opened [Values] {g : Client} {tr : List Ev} {log : List Evaluation}
    (h : Opened req tr) (hlog : Evaluated g tr log) : Behind g req tr log := by
  rcases h with hstopped | ⟨text, rest, hasks⟩
  · exact .inl hstopped
  · unfold Evaluated at hlog
    rw [hasks] at hlog
    cases log with
    | nil => cases hlog
    | cons c later =>
      obtain ⟨hfirst, _⟩ := List.cons.inj hlog
      obtain ⟨htext, hrest⟩ := Prod.mk.inj hfirst
      obtain ⟨hsource, hrest⟩ := Prod.mk.inj hrest
      obtain ⟨_, hverdict⟩ := Prod.mk.inj hrest
      exact .inr ⟨text, rest, c, later, hasks, rfl, htext.symm, hsource.symm,
        accepted_passed g c hverdict.symm⟩

/-- No agent, model, classifier or store is asked for a request before the service, where
it is enabled, has let the scanned text pass: streamed or not, whatever it replies. -/
theorem request_guarded [Values] (g : Client) (py : Runtime) (sup : SupervisorAgent)
    (req : Supervisor.Request) (tr : List Ev) (log : List Evaluation)
    (hlog : Evaluated g tr log) :
    (∀ r, Path (Supervisor.process_request py sup req) tr r → Behind g req tr log) ∧
      ∀ r, Path (stream_consumed py sup req) tr r → Behind g req tr log :=
  ⟨fun _ h => behind_of_opened (request_opened h) hlog,
    fun _ h => behind_of_opened (stream_opened h) hlog⟩

end Entry

/-! ### A service that lets every text pass -/

def provisioned : Client := ⟨true, "gr-1".toList⟩

def passing : ServiceReply := .response [("action".toList, .str "NONE".toList)]

def evaluations (tr : List Ev) : List Evaluation :=
  ((asks tr).filterMap guard_event).map (fun c => ⟨c.1, c.2.1, c.2.2.1, passing⟩)

theorem passing_evaluated (h d : List (Sigma Answer)) (hd : Follows answeringEnv h d) :
    ∀ c ∈ d.filterMap guard_event, c.2.2.2 = .accepted := by
  induction d generalizing h with
  | nil => nofun
  | cons s d ih =>
    obtain ⟨hs, hrest⟩ := hd
    obtain ⟨e, a⟩ := s
    cases e with
    | guardrail_apply text source ids =>
      intro c hc
      rcases List.mem_cons.mp hc with rfl | hc
      · exact hs
      · exact ih _ hrest c hc
    | _ => exact ih _ hrest

theorem answering_evaluated {α : Type} (p : M α) :
    @Evaluated textValues provisioned (run answeringEnv [] p).1
      (evaluations (run answeringEnv [] p).1) := by
  have hall := passing_evaluated [] _ (run_follows answeringEnv [] p)
  unfold Evaluated evaluations
  rw [List.map_map]
  refine (List.map_id _).symm.trans (List.map_congr_left (fun c hc => ?_))
  obtain ⟨text, source, ids, v⟩ := c
  cases hall _ hc
  rfl

theorem request_guarded_pods :
    Behind provisioned podRequest podAnswer.1 (evaluations podAnswer.1) ∧
      Behind provisioned podRequest podStream.1 (evaluations podStream.1) := by
  have hanswer := @request_guarded textValues provisioned asciiRuntime podSquad podRequest
    podAnswer.1 _ (answering_evaluated _)
  have hstream := @request_guarded textValues provisioned asciiRuntime podSquad podRequest
    podStream.1 _ (answering_evaluated _)
  exact ⟨hanswer.1 _ (run_path answeringEnv [] _), hstream.2 _ (run_path answeringEnv [] _)⟩

end AigentSquad.GuardrailClient
