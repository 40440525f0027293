import AigentSquad.Confidence
import AigentSquad.Effects
import AigentSquad.JsonRoundTrip

/-!
# Evidence as JSON

`to_dict` writes every field of an item, `_parse_evidence` reads four of them
back and gives the others their defaults.
-/

set_option autoImplicit false

namespace AigentSquad.EvidenceExchange
open AigentSquad.PyText AigentSquad.PyJson AigentSquad.Investigation AigentSquad.Confidence
open AigentSquad.Effects

/-- What the interpreter does with values read from JSON. -/
class Values where
  str : Json → Str
  lt : Json → Json → Except Exn Bool
  eq : Json → Json → Bool
  /-- `0 <= x < n` for a float -/
  within : Str → ℕ → Bool
  str_text : ∀ s, str (.str s) = s
  lt_text : ∀ s t, lt (.str s) (.str t) = .ok (decide (s < t))
  eq_text : ∀ s t, eq (.str s) (.str t) = decide (s = t)

/-- Where the interpreter refuses to compare, neither time is before the other. -/
instance stampJson [Values] : Stamp Json where
  truthy := Json.truthy
  before s t := (Values.lt s t).toOption.getD false
  str := Values.str

def optional_text : Option Str → Json
  | none => .null
  | some s => .str s

/-- `e.__dict__` -/
def evidence_dict (e : Evidence Str) : Json :=
  .obj [("source_agent".toList, .str e.source_agent),
    ("signal_type".toList, .str e.signal_type),
    ("timestamp".toList, .str e.timestamp),
    ("strength".toList, .str e.strength),
    ("summary".toList, .str e.summary),
    ("is_causal_candidate".toList, .bool e.is_causal_candidate),
    ("signal_id".toList, .str e.signal_id),
    ("signal_subtype".toList, .str e.signal_subtype),
    ("causal_layer".toList, .str e.causal_layer),
    ("fault_domain".toList, .str e.fault_domain),
    ("timestamp_precision".toList, .str e.timestamp_precision),
    ("raw_query".toList, .str e.raw_query),
    ("derivation_source".toList, optional_text e.derivation_source),
    ("is_recurring".toList, .bool e.is_recurring),
    ("first_occurrence".toList, optional_text e.first_occurrence),
    ("contradicts_hypothesis".toList, .bool e.contradicts_hypothesis),
    ("contradiction_explained".toList, .bool e.contradiction_explained),
    ("trace_id".toList, optional_text e.trace_id),
    ("id".toList, .str e.id)]

def evidence_list (evidences : List (Evidence Str)) : Json := .arr (evidences.map evidence_dict)

/-- `str.find` of one character -/
def find (c : Char) (s : Str) : Option ℕ := s.findIdx? (· = c)

/-- `str.rfind` of one character -/
def rfind (c : Char) (s : Str) : Option ℕ :=
  (s.reverse.findIdx? (· = c)).map (fun i => s.length - 1 - i)

/-- `s[start:end + 1]` -/
def slice (s : Str) (start stop : ℕ) : Str := (s.take (stop + 1)).drop start

/-- From the first opening bracket to the last closing one. -/
def bracketed (s : Str) : Option Str :=
  match find '[' s, rfind ']' s with
  | some start, some stop => if start < stop then some (slice s start stop) else none
  | _, _ => none

/-- The items of a value that can be iterated. -/
def iterated : Json → Option (List Json)
  | .arr items => some items
  | .obj pairs => some (pairs.map (fun kv => .str kv.1))
  | .str s => some (s.map (fun c => .str [c]))
  | _ => none

/-- `dict.get` with a default -/
def get_or (pairs : List (Str × Json)) (key : String) (default : Json) : Json :=
  (Json.get pairs key.toList).getD default

def item_evidence (source_agent : Str) : Json → Option (Evidence Json)
  | .obj pairs => some
    { source_agent := source_agent
      signal_type := get_or pairs "signal_type" (.str "unknown".toList)
      timestamp := get_or pairs "timestamp" (.str [])
      strength := get_or pairs "strength" (.str "fraca".toList)
      summary := get_or pairs "summary" (.str []) }
  | _ => none

def whole_response (text source_agent : Str) : Evidence Json where
  source_agent := source_agent
  signal_type := .str "unknown".toList
  timestamp := .str []
  strength := .str "fraca".toList
  summary := .str (text.take 500)

/-- The number of digits at its end is left out. -/
def digit_limit : Exn :=
  .other "ValueError".toList "Exceeds the limit (4300 digits) for integer string conversion".toList

def parse_evidence (py : Runtime) (text source_agent : Str) :
    Except Exn (List (Evidence Json)) :=
  let text := strip text
  let fallback := [whole_response text source_agent]
  match bracketed text with
  | none => .ok fallback
  | some list =>
    match loads py list with
    | .error .JSONDecodeError => .ok fallback
    | .error .ValueError => .error digit_limit
    | .ok value =>
      match iterated value with
      | none => .ok fallback
      | some items => .ok (items.filterMap (item_evidence source_agent))

section Annotations
variable {V W : Type}

/-- What the confidence model reads of an item besides its time. -/
structure SameAnnotations (e : Evidence V) (f : Evidence W) : Prop where
  causal_layer : f.causal_layer = e.causal_layer
  fault_domain : f.fault_domain = e.fault_domain
  signal_subtype : f.signal_subtype = e.signal_subtype
  derivation_source : f.derivation_source = e.derivation_source
  trace_id : f.trace_id = e.trace_id
  contradicts_hypothesis : f.contradicts_hypothesis = e.contradicts_hypothesis
  contradiction_explained : f.contradiction_explained = e.contradiction_explained

/-- Every annotation has its default. -/
structure Unannotated (e : Evidence V) : Prop where
  causal_layer : e.causal_layer = []
  fault_domain : e.fault_domain = []
  signal_subtype : e.signal_subtype = []
  derivation_source : e.derivation_source = none
  trace_id : e.trace_id = none
  contradicts_hypothesis : e.contradicts_hypothesis = false
  contradiction_explained : e.contradiction_explained = false

theorem SameAnnotations.unannotated_iff {e : Evidence V} {f : Evidence W}
    (h : SameAnnotations e f) : Unannotated f ↔ Unannotated e := by
  constructor
  · intro hf
    exact ⟨h.causal_layer ▸ hf.causal_layer, h.fault_domain ▸ hf.fault_domain,
      h.signal_subtype ▸ hf.signal_subtype, h.derivation_source ▸ hf.derivation_source,
      h.trace_id ▸ hf.trace_id, h.contradicts_hypothesis ▸ hf.contradicts_hypothesis,
      h.contradiction_explained ▸ hf.contradiction_explained⟩
  · intro he
    exact ⟨h.causal_layer.trans he.causal_layer, h.fault_domain.trans he.fault_domain,
      h.signal_subtype.trans he.signal_subtype, h.derivation_source.trans he.derivation_source,
      h.trace_id.trans he.trace_id, h.contradicts_hypothesis.trans he.contradicts_hypothesis,
      h.contradiction_explained.trans he.contradiction_explained⟩

theorem Unannotated.same {e : Evidence V} {f : Evidence W} (he : Unannotated e)
    (hf : Unannotated f) : SameAnnotations e f := by
  constructor
  · rw [he.causal_layer, hf.causal_layer]
  · rw [he.fault_domain, hf.fault_domain]
  · rw [he.signal_subtype, hf.signal_subtype]
  · rw [he.derivation_source, hf.derivation_source]
  · rw [he.trace_id, hf.trace_id]
  · rw [he.contradicts_hypothesis, hf.contradicts_hypothesis]
  · rw [he.contradiction_explained, hf.contradiction_explained]

theorem Unannotated.no_layer {e : Evidence V} (h : Unannotated e) (layer : String)
    (hne : layer.toList ≠ []) : in_layer layer e = false := by
  rw [in_layer, h.causal_layer, beq_eq_false_iff_ne]
  exact fun heq => hne heq.symm

theorem unannotated_no_layer (evidences : List (Evidence V)) (h : ∀ e ∈ evidences, Unannotated e)
    (layer : String) (hne : layer.toList ≠ []) : has_layer layer evidences = false := by
  rw [has_layer, List.any_eq_false]
  intro e he
  simp [(h e he).no_layer layer hne]

/-- Without annotations the score is the lowest. -/
theorem score_unannotated [Stamp V] (evidences : List (Evidence V))
    (h : ∀ e ∈ evidences, Unannotated e) :
    score_confidence evidences = (.LOW, .INSUFFICIENT) := by
  have hmechanism : mechanism_count evidences = 0 := by
    rw [mechanism_count, List.countP_eq_zero]
    intro e he
    simp [(h e he).no_layer "mechanism" (by decide)]
  rw [score_eq]
  split
  · rfl
  · rw [rated, hmechanism, unannotated_no_layer evidences h "change" (by decide),
      unannotated_no_layer evidences h "impact" (by decide)]
    rfl

end Annotations

theorem item_evidence_unannotated (source_agent : Str) (item : Json) (e : Evidence Json)
    (h : item_evidence source_agent item = some e) : Unannotated e := by
  cases item with
  | obj pairs =>
    cases h
    exact ⟨rfl, rfl, rfl, rfl, rfl, rfl, rfl⟩
  | _ => cases h

/-- Whatever an agent answers, nothing that is read from it is annotated. -/
theorem parse_evidence_unannotated (py : Runtime) (text source_agent : Str)
    (parsed : List (Evidence Json)) (h : parse_evidence py text source_agent = .ok parsed) :
    ∀ e ∈ parsed, Unannotated e := by
  have hwhole : ∀ e ∈ [whole_response (strip text) source_agent], Unannotated e := by
    intro e he
    rw [List.mem_singleton] at he
    subst he
    exact ⟨rfl, rfl, rfl, rfl, rfl, rfl, rfl⟩
  simp only [parse_evidence] at h
  split at h
  · cases h
    exact hwhole
  · split at h
    · cases h
      exact hwhole
    · cases h
    · split at h
      · cases h
        exact hwhole
      · cases h
        intro e he
        obtain ⟨item, _, hitem⟩ := List.mem_filterMap.mp he
        exact item_evidence_unannotated source_agent item e hitem

/-! ### The round trip -/

theorem strip_enclosed (c d : Char) (s : Str) (hc : isspace c = false) (hd : isspace d = false) :
    strip (c :: s ++ [d]) = c :: s ++ [d] := by
  have hlast : ∀ x ∈ (c :: s ++ [d]).getLast?, isspace x = false := by
    rw [List.getLast?_concat]
    simpa using hd
  have hstrip := strip_append (c :: s ++ [d]) [] (by simp) (by simp [hc]) hlast
  rwa [List.append_nil, show rstrip [] = [] from rfl, List.append_nil] at hstrip

theorem bracketed_enclosed (s : Str) : bracketed ('[' :: s ++ [']']) = some ('[' :: s ++ [']']) := by
  have hfirst : find '[' ('[' :: s ++ [']']) = some 0 := by simp [find, List.findIdx?_cons]
  have hlast : rfind ']' ('[' :: s ++ [']']) = some (s.length + 1) := by
    simp [rfind, List.findIdx?_cons]
  rw [bracketed, hfirst, hlast]
  simp [slice]

theorem textual_optional (s : Option Str) : Textual (optional_text s) := by
  cases s with
  | none => trivial
  | some s => trivial

theorem textual_evidence (e : Evidence Str) : Textual (evidence_dict e) := by
  constructor
  · simp only [List.map_cons, List.map_nil]
    exact of_decide_eq_true (by rfl)
  · simp only [TextualPairs, Textual, textual_optional, and_self]

theorem textual_items (evidences : List (Evidence Str)) :
    TextualItems (evidences.map evidence_dict) := by
  induction evidences with
  | nil => trivial
  | cons e evidences ih => exact ⟨textual_evidence e, ih⟩

/-- An item as it comes back. -/
def reread (source_agent : Str) (e : Evidence Str) : Evidence Json where
  source_agent := source_agent
  signal_type := .str e.signal_type
  timestamp := .str e.timestamp
  strength := .str e.strength
  summary := .str e.summary

theorem parse_dumps (py : Runtime) (ea : Bool) (source_agent : Str)
    (evidences : List (Evidence Str)) :
    parse_evidence py (dumps ea (evidence_list evidences)) source_agent =
      .ok (evidences.map (reread source_agent)) := by
  have hread := loads_dumps py ea (evidence_list evidences) (textual_items evidences)
  rw [evidence_list, dumps] at hread
  have hitems : (evidences.map evidence_dict).filterMap (item_evidence source_agent) =
      evidences.map (reread source_agent) := by
    rw [List.filterMap_map, ← List.filterMap_eq_map]
    rfl
  rw [evidence_list, dumps, parse_evidence, strip_enclosed _ _ _ (by decide) (by decide)]
  simp only [bracketed_enclosed, hread, iterated, hitems]

/-- The list comes back with its annotations and its score. -/
def Survives [Values] (py : Runtime) (ea : Bool) (source_agent : Str)
    (evidences : List (Evidence Str)) : Prop :=
  ∃ parsed, parse_evidence py (dumps ea (evidence_list evidences)) source_agent = .ok parsed ∧
    List.Forall₂ SameAnnotations evidences parsed ∧
    score_confidence parsed = score_confidence evidences

theorem reread_unannotated (source_agent : Str) (e : Evidence Str) :
    Unannotated (reread source_agent e) := ⟨rfl, rfl, rfl, rfl, rfl, rfl, rfl⟩

theorem survives_iff [Values] (py : Runtime) (ea : Bool) (source_agent : Str)
    (evidences : List (Evidence Str)) :
    Survives py ea source_agent evidences ↔ ∀ e ∈ evidences, Unannotated e := by
  have hread : ∀ e ∈ evidences.map (reread source_agent), Unannotated e := by
    intro e he
    obtain ⟨e, _, rfl⟩ := List.mem_map.mp he
    exact reread_unannotated source_agent e
  constructor
  · rintro ⟨parsed, hparsed, hsame, _⟩
    rw [parse_dumps, Except.ok.injEq] at hparsed
    subst hparsed
    rw [List.forall₂_map_right_iff, List.forall₂_same] at hsame
    intro e he
    exact (hsame e he).unannotated_iff.mp (reread_unannotated source_agent e)
  · intro h
    refine ⟨_, parse_dumps py ea source_agent evidences, ?_, ?_⟩
    · rw [List.forall₂_map_right_iff, List.forall₂_same]
      exact fun e he => (h e he).same (reread_unannotated source_agent e)
    · rw [score_unannotated _ hread, score_unannotated evidences h]

end AigentSquad.EvidenceExchange
