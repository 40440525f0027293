import AigentSquad.Distillation
import AigentSquad.JsonStrings
import AigentSquad.RedactedText

/-!
# Secrets in stored items

`distill_rca` redacts the title and the content of an item. The other fields
are stored as the model returned them.
-/

set_option autoImplicit false

namespace AigentSquad.KbSecrets
open AigentSquad.PyText AigentSquad.PyJson AigentSquad.Regex AigentSquad.Substitution
open AigentSquad.RunInvestigation AigentSquad.Redactor AigentSquad.RedactedText
open AigentSquad.JsonStrings AigentSquad.Distillation

/-- No pattern matches in a text. -/
def NoMatch (py : Runtime) (s : Str) : Prop :=
  ∀ p ∈ PATTERNS py, search py.word p.1 s = none

instance (py : Runtime) (s : Str) : Decidable (NoMatch py s) :=
  inferInstanceAs (Decidable (∀ p ∈ PATTERNS py, search py.word p.1 s = none))

/-- No pattern matches in a string of a value. -/
def Clean (py : Runtime) (j : Json) : Prop := ∀ s ∈ strings j, NoMatch py s

instance (py : Runtime) (j : Json) : Decidable (Clean py j) :=
  inferInstanceAs (Decidable (∀ s ∈ strings j, NoMatch py s))

/-- No text field of an item holds a match. -/
structure CleanItem (py : Runtime) (item : KbItem) : Prop where
  title : Clean py item.title
  content : Clean py item.content
  tags : Clean py item.tags
  service_name : Clean py item.service_name
  reasoning : Clean py item.reasoning

/-- The fields of a delta that are stored as they are. -/
structure CleanRest (py : Runtime) (d : KbDelta) : Prop where
  tags : Clean py d.tags
  service_name : Clean py d.service_name
  reasoning : Clean py d.reasoning

instance (py : Runtime) (d : KbDelta) : Decidable (CleanRest py d) :=
  decidable_of_iff (Clean py d.tags ∧ Clean py d.service_name ∧ Clean py d.reasoning)
    ⟨fun ⟨htags, hservice, hreasoning⟩ => ⟨htags, hservice, hreasoning⟩,
      fun h => ⟨h.tags, h.service_name, h.reasoning⟩⟩

/-- `redact` of the value does not raise. -/
def redactable : Json → Bool
  | .str _ => true
  | j => !j.truthy

/-- The delta becomes an item: it is not rejected and both texts can be redacted. -/
def becomes_item (d : KbDelta) : Bool :=
  (match decide_status d with
    | none => false
    | some status => status != .rejected) && redactable d.title && redactable d.content

theorem redact_nil (py : Runtime) : redact py [] = [] := by
  have hsub : ∀ (r : Rx) (repl : Str), sub py.word r repl [] = [] :=
    fun r repl => subFrom_end py.word r repl 1 []
  simp only [redact, PATTERNS, List.foldl_cons, List.foldl_nil, hsub]

theorem redact_value_isSome (py : Runtime) (j : Json) :
    (redact_value py j).isSome = redactable j := by
  cases j with
  | str s => rfl
  | _ =>
    simp only [redact_value, redactable]
    split <;> simp_all

theorem item_of_isSome (py : Runtime) (investigation_id : Option Str) (d : KbDelta) :
    (item_of py investigation_id d).isSome = becomes_item d := by
  rw [becomes_item, ← redact_value_isSome py d.title, ← redact_value_isSome py d.content]
  unfold item_of
  cases decide_status d with
  | none => rfl
  | some status =>
    cases status <;> cases redact_value py d.title <;> cases redact_value py d.content <;> rfl

section Clean
variable (py : Runtime) (hspace : ∀ c, isspace c = true → py.word c = false)
include hspace

theorem redact_value_clean (j k : Json) (h : redact_value py j = some k) : Clean py k := by
  have hfalse : ∀ i : Json, i.truthy = false → Clean py i := by
    intro i hi s hs
    rw [strings_of_false i hi s hs, ← redact_nil py]
    exact redact_clean py hspace []
  cases j with
  | str s =>
    rw [redact_value, Option.some.injEq] at h
    intro t ht
    rw [← h, strings, List.mem_singleton] at ht
    rw [ht]
    exact redact_clean py hspace s
  | _ =>
    simp only [redact_value, Option.ite_none_left_eq_some, Option.some.injEq,
      Bool.not_eq_true] at h
    exact h.2 ▸ hfalse _ h.1

theorem item_clean_iff (investigation_id : Option Str) (d : KbDelta) (item : KbItem)
    (h : item_of py investigation_id d = some item) : CleanItem py item ↔ CleanRest py d := by
  obtain ⟨_, _, _, htitle, hcontent, htags, hservice, hreasoning, _⟩ :=
    item_of_spec py investigation_id d item h
  constructor
  · intro hclean
    exact ⟨htags ▸ hclean.tags, hservice ▸ hclean.service_name, hreasoning ▸ hclean.reasoning⟩
  · intro hrest
    exact ⟨redact_value_clean py hspace _ _ htitle, redact_value_clean py hspace _ _ hcontent,
      htags ▸ hrest.tags, hservice ▸ hrest.service_name, hreasoning ▸ hrest.reasoning⟩

end Clean

/-- The items a run inserts hold no match exactly if the tags, the service and
the reasoning of every delta that becomes an item hold none. -/
theorem stored_clean_iff (py : Runtime) (hspace : ∀ c, isspace c = true → py.word c = false)
    (float_text : FloatText) (rca : RCAResult) (investigation_id : Option Str) (budget : Bool)
    (extractor enricher : Invoked) :
    (∀ item ∈ distill_rca py float_text rca investigation_id budget extractor enricher,
        CleanItem py item) ↔
      ∀ d ∈ refined py float_text rca budget extractor enricher, becomes_item d = true →
        CleanRest py d := by
  constructor
  · intro h d hd hitem
    rw [← item_of_isSome py investigation_id] at hitem
    obtain ⟨item, hsome⟩ := Option.isSome_iff_exists.mp hitem
    exact (item_clean_iff py hspace investigation_id d item hsome).mp
      (h item (List.mem_filterMap.mpr ⟨d, hd, hsome⟩))
  · intro h item hitem
    obtain ⟨d, hd, hsome⟩ := List.mem_filterMap.mp hitem
    have hbecomes : becomes_item d = true := by
      rw [← item_of_isSome py investigation_id, hsome]
      rfl
    exact (item_clean_iff py hspace investigation_id d item hsome).mpr (h d hd hbecomes)

def plainResult : RCAResult where
  hypothesis := .str []
  confidence := .alta
  evidence := []
  timeline := []
  contradicting := []
  prevention := .arr []
  confidence_level := .HIGH
  confidence_track := .A
  independent_signal_count := 0
  temporal_violations := []

/-- The extractor returns one delta with this content and these tags. -/
def taggedResponse (content tag : String) : Str :=
  ("\x7b\"deltas\": [\x7b\"content\": \"" ++ content ++ "\", \"tags\": [\"" ++ tag ++
    "\"], \"confidence\": 1\x7d]\x7d").toList

theorem key_in_content_redacted :
    distill_rca asciiRuntime (fun _ => none) plainResult none true
        (some (taggedResponse "AKIA0123456789ABCDEF" "aws")) none ≠ [] ∧
      ∀ item ∈ distill_rca asciiRuntime (fun _ => none) plainResult none true
          (some (taggedResponse "AKIA0123456789ABCDEF" "aws")) none,
        CleanItem asciiRuntime item :=
  ⟨by decide +kernel,
    (stored_clean_iff asciiRuntime ascii_space_not_word (fun _ => none) plainResult none true
      (some (taggedResponse "AKIA0123456789ABCDEF" "aws")) none).mpr (by decide +kernel)⟩

theorem key_in_tag_stored :
    ¬ ∀ item ∈ distill_rca asciiRuntime (fun _ => none) plainResult none true
        (some (taggedResponse "rotated" "AKIA0123456789ABCDEF")) none,
      CleanItem asciiRuntime item := by
  intro h
  have hrun : (distill_rca asciiRuntime (fun _ => none) plainResult none true
      (some (taggedResponse "rotated" "AKIA0123456789ABCDEF")) none).map
        (fun item => strings item.tags) = [["AKIA0123456789ABCDEF".toList]] := by
    decide +kernel
  obtain ⟨item, rest, hitems, htags, _⟩ := List.map_eq_cons_iff.mp hrun
  have hclean := (h item (hitems ▸ List.mem_cons_self)).tags
  have hkey := hclean "AKIA0123456789ABCDEF".toList (htags ▸ List.mem_cons_self)
  exact absurd hkey (by decide +kernel)

end AigentSquad.KbSecrets
