import AigentSquad.Redactor
import AigentSquad.RunInvestigation

/-!
# Distillation

`distill_rca` has one model extract drafts from a result and another refine
them, and turns what comes back into items of the knowledge base. What a model
returns is read as JSON and copied field by field.
-/

set_option autoImplicit false

namespace AigentSquad.Distillation
open AigentSquad.PyText AigentSquad.PyJson AigentSquad.EvidenceExchange
open AigentSquad.RunInvestigation AigentSquad.Redactor

/-- A float, valued by its printed text. -/
inductive PyFloat where
  | num (q : ℚ)
  | inf
  | neg_inf
  | nan
deriving DecidableEq

def PyFloat.lt : PyFloat → ℚ → Bool
  | .num q, r => decide (q < r)
  | .neg_inf, _ => true
  | _, _ => false

def PyFloat.ge : PyFloat → ℚ → Bool
  | .num q, r => decide (r ≤ q)
  | .inf, _ => true
  | _, _ => false

inductive KbStatus where
  | active
  | pending_review
  | superseded
  | rejected
deriving DecidableEq, Repr

structure KbDelta where
  action : Json
  type : Json
  title : Json
  content : Json
  tags : Json
  service_name : Json
  confidence : PyFloat
  reasoning : Json

structure KbItem where
  type : Json
  title : Json
  content : Json
  tags : Json
  service_name : Json
  investigation_id : Option Str
  reasoning : Json
  confidence_score : PyFloat
  status : KbStatus

/-- The interpreter's conversion of a text to a float, none where it raises. -/
abbrev FloatText := Str → Option PyFloat

/-- `float(x)`. The thresholds do not see how a long integer is rounded. -/
def float (float_text : FloatText) : Json → Option PyFloat
  | .bool b => some (.num (if b then 1 else 0))
  | .int i => if i.natAbs < 2 ^ 1024 - 2 ^ 970 then some (.num i) else none
  | .float text => float_text text
  | .str s => float_text s
  | _ => none

/-- `x or []` -/
def or_empty (j : Json) : Json := if j.truthy then j else .arr []

/-- One entry of `deltas`, none where reading it raises. -/
def delta_of (float_text : FloatText) : Json → Option KbDelta
  | .obj d =>
    (float float_text (get_or d "confidence" (.float "0.0".toList))).map (fun confidence =>
      { action := get_or d "action" (.str "create".toList)
        type := get_or d "type" (.str "troubleshooting".toList)
        title := get_or d "title" (.str [])
        content := get_or d "content" (.str [])
        tags := or_empty (get_or d "tags" (.arr []))
        service_name := get_or d "service_name" .null
        confidence := confidence
        reasoning := get_or d "reasoning" (.str []) })
  | _ => none

/-- The text from the first opening brace to the last closing one. -/
def braced (response : Str) (start : ℕ) : Str :=
  match rfind '}' response with
  | some stop => slice response start stop
  | none => []

/-- The deltas of a response that has an opening brace, none where reading it raises. -/
def read_deltas (py : Runtime) (float_text : FloatText) (response : Str) (start : ℕ) :
    Option (List KbDelta) :=
  match loads py (braced response start) with
  | .ok (.obj parsed) =>
    (iterated (or_empty (get_or parsed "deltas" (.arr [])))).map
      (List.filterMap (delta_of float_text))
  | _ => none

/-- What `bedrock.invoke` returns, none where it raises. -/
abbrev Invoked := Option Str

def extract_deltas (py : Runtime) (float_text : FloatText) (invoked : Invoked) : List KbDelta :=
  match invoked with
  | none => []
  | some response =>
    match find '{' response with
    | none => []
    | some start => (read_deltas py float_text response start).getD []

def enrich_deltas (py : Runtime) (float_text : FloatText) (drafts : List KbDelta)
    (invoked : Invoked) : List KbDelta :=
  if drafts.isEmpty then []
  else
    match invoked with
    | none => drafts
    | some response =>
      match find '{' response with
      | none => drafts
      | some start =>
        match read_deltas py float_text response start with
        | none => drafts
        | some refined => if refined.isEmpty then drafts else refined

/-- `THRESHOLDS.get(type, 0.85)`, none for a type that cannot be hashed. -/
def threshold : Json → Option ℚ
  | .str t => some
    (if t = "troubleshooting".toList then 85 / 100
    else if t = "pattern".toList then 90 / 100
    else if t = "infrastructure".toList then 80 / 100
    else if t = "decision".toList then 101 / 100
    else 85 / 100)
  | .arr _ => none
  | .obj _ => none
  | _ => some (85 / 100)

/-- `decide_status` on the two fields it reads. -/
def status_of (type : Json) (confidence : PyFloat) : Option KbStatus :=
  if confidence.lt (1 / 2) then some .rejected
  else (threshold type).map (fun t => if confidence.ge t then .active else .pending_review)

def decide_status (d : KbDelta) : Option KbStatus := status_of d.type d.confidence

/-- `redact` of any value: what is false is returned, other values but texts raise. -/
def redact_value (py : Runtime) : Json → Option Json
  | .str s => some (.str (redact py s))
  | j => if j.truthy then none else some j

/-- The item of a delta, none where it is rejected or building it raises. -/
def item_of (py : Runtime) (investigation_id : Option Str) (d : KbDelta) : Option KbItem :=
  match decide_status d with
  | none => none
  | some .rejected => none
  | some status =>
    match redact_value py d.title, redact_value py d.content with
    | some title, some content => some
      { type := d.type
        title := title
        content := content
        tags := d.tags
        service_name := d.service_name
        investigation_id := investigation_id
        reasoning := d.reasoning
        confidence_score := d.confidence
        status := status }
    | _, _ => none

/-- The refined deltas of a run. -/
def refined (py : Runtime) (float_text : FloatText) (rca : RCAResult) (budget : Bool)
    (extractor enricher : Invoked) : List KbDelta :=
  if rca.confidence = .baixa then []
  else if !budget then []
  else
    let drafts := extract_deltas py float_text extractor
    if drafts.isEmpty then [] else enrich_deltas py float_text drafts enricher

/-- The items a run hands to `kb_store.insert`, in order. -/
def distill_rca (py : Runtime) (float_text : FloatText) (rca : RCAResult)
    (investigation_id : Option Str) (budget : Bool) (extractor enricher : Invoked) :
    List KbItem :=
  (refined py float_text rca budget extractor enricher).filterMap (item_of py investigation_id)

theorem item_of_spec (py : Runtime) (investigation_id : Option Str) (d : KbDelta) (item : KbItem)
    (h : item_of py investigation_id d = some item) :
    decide_status d = some item.status ∧ item.status ≠ .rejected ∧ item.type = d.type ∧
      redact_value py d.title = some item.title ∧
      redact_value py d.content = some item.content ∧ item.tags = d.tags ∧
      item.service_name = d.service_name ∧ item.reasoning = d.reasoning ∧
      item.confidence_score = d.confidence := by
  unfold item_of at h
  split at h
  · cases h
  · cases h
  · next status hne hstatus =>
    split at h
    · next title content htitle hcontent =>
      cases h
      exact ⟨hstatus, fun hr => hne (hr ▸ rfl), rfl, htitle, hcontent, rfl, rfl, rfl, rfl⟩
    · cases h

end AigentSquad.Distillation
