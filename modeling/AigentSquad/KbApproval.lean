import AigentSquad.Distillation
import AigentSquad.Transition

/-!
# Items and their approval

Distillations insert their items one by one while `approve` and `reject` calls
change the status of items that are there. The database may refuse a row or an
update.
-/

set_option autoImplicit false

namespace AigentSquad.KbApproval
open AigentSquad.PyText AigentSquad.PyJson AigentSquad.RunInvestigation AigentSquad.Transition
open AigentSquad.Distillation

/-- A row of `kb_items`, and whether `approve` was called for it. -/
structure Row where
  item : KbItem
  approved : Bool

/-- The items each distillation has still to insert, and the table. -/
structure State where
  runs : ℕ → Option (List KbItem)
  kb_items : List Row

def start : State := ⟨fun _ => none, []⟩

inductive Label where
  | distill (id : ℕ) (rca : RCAResult) (investigation_id : Option Str) (budget : Bool)
      (extractor enricher : Invoked)
  | insert (id : ℕ) (accepted : Bool)
  | approve (row : ℕ) (updated : Bool)
  | reject (row : ℕ) (updated : Bool)

/-- `update_status` -/
def Row.update_status (r : Row) (status : KbStatus) (updated : Bool) : Row :=
  if updated then { r with item := { r.item with status := status } } else r

def approve_kb_item (updated : Bool) (r : Row) : Row :=
  { r.update_status .active updated with approved := true }

def reject_kb_item (updated : Bool) (r : Row) : Row := r.update_status .rejected updated

def insert_item (s : State) (id : ℕ) (item : KbItem) (rest : List KbItem) (accepted : Bool) :
    State where
  runs := Function.update s.runs id (some rest)
  kb_items := if accepted then s.kb_items ++ [⟨item, false⟩] else s.kb_items

def step (py : Runtime) (float_text : FloatText) (s : State) : Label → Option State
  | .distill id rca investigation_id budget extractor enricher =>
    match s.runs id with
    | some _ => none
    | none => some { s with
        runs := Function.update s.runs id (some
          (distill_rca py float_text rca investigation_id budget extractor enricher)) }
  | .insert id accepted =>
    match s.runs id with
    | some (item :: rest) => some (insert_item s id item rest accepted)
    | _ => none
  | .approve row updated =>
    some { s with kb_items := s.kb_items.modify row (approve_kb_item updated) }
  | .reject row updated =>
    some { s with kb_items := s.kb_items.modify row (reject_kb_item updated) }

def is_decision : Json → Bool
  | .str t => decide (t = "decision".toList)
  | _ => false

/-- A decision is active only if `approve` was called for it. -/
def Reviewed (r : Row) : Prop :=
  is_decision r.item.type = true → r.item.status = .active → r.approved = true

def NeverAutoApproved (s : State) : Prop := ∀ r ∈ s.kb_items, Reviewed r

/-- No decision is stored whose confidence reaches the threshold above 1. -/
def Unconfident (s : State) : Label → Prop
  | .insert id accepted => ∀ item rest, s.runs id = some (item :: rest) → accepted = true →
      is_decision item.type = true → item.confidence_score.ge (101 / 100) = false
  | _ => True

/-- The status of every item still to insert is the one decided for it. -/
def Decided (s : State) : Prop :=
  ∀ id items, s.runs id = some items →
    ∀ item ∈ items, status_of item.type item.confidence_score = some item.status

theorem distill_rca_decided (py : Runtime) (float_text : FloatText) (rca : RCAResult)
    (investigation_id : Option Str) (budget : Bool) (extractor enricher : Invoked) :
    ∀ item ∈ distill_rca py float_text rca investigation_id budget extractor enricher,
      status_of item.type item.confidence_score = some item.status := by
  intro item hitem
  obtain ⟨d, _, hd⟩ := List.mem_filterMap.mp hitem
  obtain ⟨hstatus, _, htype, _, _, _, _, _, hconfidence⟩ :=
    item_of_spec py investigation_id d item hd
  rw [htype, hconfidence]
  exact hstatus

theorem update_decided (s t : State) (id : ℕ) (items : List KbItem) (hs : Decided s)
    (ht : t.runs = Function.update s.runs id (some items))
    (hitems : ∀ item ∈ items, status_of item.type item.confidence_score = some item.status) :
    Decided t := by
  intro other others h
  rw [ht] at h
  by_cases hid : other = id
  · subst hid
    rw [Function.update_self, Option.some.injEq] at h
    exact h ▸ hitems
  · rw [Function.update_of_ne hid] at h
    exact hs other others h

theorem step_decided (py : Runtime) (float_text : FloatText) (s : State) (l : Label) (t : State)
    (h : step py float_text s l = some t) (hs : Decided s) : Decided t := by
  cases l with
  | distill id rca investigation_id budget extractor enricher =>
    simp only [step] at h
    split at h
    · cases h
    · cases h
      exact update_decided s _ id _ hs rfl (distill_rca_decided py float_text rca
        investigation_id budget extractor enricher)
  | insert id accepted =>
    simp only [step] at h
    split at h
    · next item rest hrun =>
      cases h
      exact update_decided s _ id rest hs rfl
        (fun other hother => hs id _ hrun other (List.mem_cons_of_mem item hother))
    · cases h
  | approve row updated =>
    cases h
    exact hs
  | reject row updated =>
    cases h
    exact hs

/-- The threshold of a decision is out of reach of a confidence up to 1. -/
theorem decision_active_iff (type : Json) (confidence : PyFloat) (status : KbStatus)
    (htype : is_decision type = true) (h : status_of type confidence = some status) :
    status = .active ↔ confidence.ge (101 / 100) = true := by
  unfold is_decision at htype
  split at htype
  · next t =>
    have ht : t = "decision".toList := of_decide_eq_true htype
    have hthreshold : threshold (.str t) = some (101 / 100) := by
      subst ht
      rfl
    unfold status_of at h
    rw [hthreshold] at h
    by_cases hlow : confidence.lt (1 / 2) = true
    · simp only [hlow, ↓reduceIte, Option.some.injEq] at h
      subst h
      have hge : confidence.ge (101 / 100) = false := by
        cases confidence with
        | num q =>
          simp only [PyFloat.lt, decide_eq_true_eq] at hlow
          simp only [PyFloat.ge, decide_eq_false_iff_not, not_le]
          linarith
        | inf => cases hlow
        | neg_inf => rfl
        | nan => rfl
      simp [hge]
    · simp only [hlow, Option.map_some] at h
      cases hge : confidence.ge (101 / 100) <;> simp [hge] at h <;> simp [← h]
  · cases htype

theorem modify_reviewed (rows : List Row) (i : ℕ) (f : Row → Row) (h : ∀ r ∈ rows, Reviewed r)
    (hf : ∀ r, Reviewed r → Reviewed (f r)) : ∀ r ∈ rows.modify i f, Reviewed r := by
  intro r hr
  obtain ⟨j, hj, hget⟩ := List.mem_iff_getElem.mp hr
  rw [List.getElem_modify] at hget
  have hlen : j < rows.length := by simpa using hj
  have hmem : rows[j] ∈ rows := List.getElem_mem hlen
  split at hget
  · exact hget ▸ hf _ (h _ hmem)
  · exact hget ▸ h _ hmem

theorem approve_reviewed (updated : Bool) (r : Row) : Reviewed (approve_kb_item updated r) :=
  fun _ _ => rfl

theorem reject_reviewed (updated : Bool) (r : Row) (h : Reviewed r) :
    Reviewed (reject_kb_item updated r) := by
  unfold reject_kb_item Row.update_status
  split
  · intro _ hactive
    cases hactive
  · exact h

theorem insert_never_iff (s : State) (id : ℕ) (item : KbItem) (rest : List KbItem)
    (accepted : Bool) (hstatus : status_of item.type item.confidence_score = some item.status)
    (hg : NeverAutoApproved s) :
    NeverAutoApproved (insert_item s id item rest accepted) ↔
      (accepted = true → is_decision item.type = true →
        item.confidence_score.ge (101 / 100) = false) := by
  have hrow : Reviewed ⟨item, false⟩ ↔
      (is_decision item.type = true → item.confidence_score.ge (101 / 100) = false) := by
    unfold Reviewed
    apply forall_congr'
    intro hdecision
    rw [decision_active_iff _ _ _ hdecision hstatus]
    simp
  cases accepted with
  | false => simpa [insert_item, NeverAutoApproved] using hg
  | true =>
    have hall : NeverAutoApproved (insert_item s id item rest true) ↔
        (∀ r ∈ s.kb_items, Reviewed r) ∧ Reviewed ⟨item, false⟩ := by
      simp [insert_item, NeverAutoApproved, or_imp, forall_and]
    rw [hall, hrow]
    constructor
    · exact fun h _ => h.2
    · exact fun h => ⟨hg, h rfl⟩

theorem never_step_iff (py : Runtime) (float_text : FloatText) (s : State) (l : Label)
    (hs : Decided s) (hg : NeverAutoApproved s) :
    (∀ t, step py float_text s l = some t → NeverAutoApproved t) ↔ Unconfident s l := by
  cases l with
  | insert id accepted =>
    have hitem : ∀ item rest, s.runs id = some (item :: rest) →
        status_of item.type item.confidence_score = some item.status :=
      fun item rest hrun => hs id _ hrun item List.mem_cons_self
    constructor
    · intro h item rest hrun
      have hstep : step py float_text s (.insert id accepted) =
          some (insert_item s id item rest accepted) := by
        simp [step, hrun]
      exact (insert_never_iff s id item rest accepted (hitem item rest hrun) hg).mp
        (h _ hstep)
    · intro h t ht
      simp only [step] at ht
      split at ht
      · next item rest hrun =>
        cases ht
        exact (insert_never_iff s id item rest accepted (hitem item rest hrun) hg).mpr
          (h item rest hrun)
      · cases ht
  | distill id rca investigation_id budget extractor enricher =>
    refine iff_of_true (fun t ht => ?_) trivial
    simp only [step] at ht
    split at ht
    · cases ht
    · cases ht
      exact hg
  | approve row updated =>
    refine iff_of_true (fun t ht => ?_) trivial
    cases ht
    exact modify_reviewed s.kb_items row _ hg (fun r _ => approve_reviewed updated r)
  | reject row updated =>
    refine iff_of_true (fun t ht => ?_) trivial
    cases ht
    exact modify_reviewed s.kb_items row _ hg (fun r hr => reject_reviewed updated r hr)

/-- Decisions become active by approval alone exactly while none is stored with
a confidence of 1.01 or more. -/
theorem never_auto_approved_iff (py : Runtime) (float_text : FloatText) (ls : List Label) :
    Throughout (step py float_text) NeverAutoApproved start ls ↔
      Along (step py float_text) Unconfident start ls := by
  have hdecided : Decided start := by
    intro id items h
    cases h
  have hnever : NeverAutoApproved start := by
    intro r hr
    cases hr
  have hall : Along (step py float_text) (fun _ _ => True) start ls :=
    along_of_forall (fun _ _ => trivial) start ls
  exact throughout_iff_along (fun s l t h _ hs => step_decided py float_text s l t h hs)
    (fun s l _ hs hg => never_step_iff py float_text s l hs hg) hdecided hnever hall

/-- The extractor returns a decision of confidence 2 and the enricher fails. -/
def overConfident : List Label :=
  let rca : RCAResult :=
    { hypothesis := .str [], confidence := .alta, evidence := [], timeline := []
      contradicting := [], prevention := .arr [], confidence_level := .HIGH
      confidence_track := .A, independent_signal_count := 0, temporal_violations := [] }
  let response := "\x7b\"deltas\": [\x7b\"type\": \"decision\", \"confidence\": 2\x7d]\x7d".toList
  [.distill 0 rca none true (some response) none, .insert 0 true]

theorem over_confident_active :
    ¬ Throughout (step asciiRuntime (fun _ => none)) NeverAutoApproved start overConfident := by
  intro h
  have hrun : (exec (step asciiRuntime (fun _ => none)) start overConfident).map (fun s =>
      s.kb_items.map (fun r => (is_decision r.item.type, r.item.status, r.approved))) =
        some [(true, .active, false)] := by
    decide +kernel
  obtain ⟨s, hs, hrows⟩ := Option.map_eq_some_iff.mp hrun
  obtain ⟨r, rest, hr, hrow, _⟩ := List.map_eq_cons_iff.mp hrows
  simp only [Prod.mk.injEq] at hrow
  obtain ⟨hdecision, hactive, happroved⟩ := hrow
  have hmem : r ∈ s.kb_items := hr ▸ List.mem_cons_self
  have hreviewed := h overConfident [] s (List.append_nil _).symm hs r hmem hdecision hactive
  rw [happroved] at hreviewed
  cases hreviewed

end AigentSquad.KbApproval
